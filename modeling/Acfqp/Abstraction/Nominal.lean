import Acfqp.Abstraction.Quotient

/-!
# Nominal quotients

The nominal model averages the exact realizations of every envelope entry. It proposes and ranks
policies, and is never used as a bound.
-/

namespace Acfqp.Abstraction

open Library Planning

variable {S A C L : Type}

/-- Arithmetic-average model of one cell and semantic action. -/
structure NominalActionModel (C : Type) where
  rewardFeatures : Features
  successorProbabilities : List (C × ℚ)
  failureProbability : ℚ
  terminationProbability : ℚ
  realizationCount : ℕ

def NominalActionModel.reward (m : NominalActionModel C) (weights : Features) : ℚ :=
  weigh weights m.rewardFeatures

structure NominalEntry (C L : Type) where
  cell : C
  action : L
  model : NominalActionModel C

structure NominalQuotient (S C L : Type) where
  partition : Partition S C
  horizon : ℕ
  entries : List (NominalEntry C L)

/-- The reusable abstract planning model. -/
structure QuotientModels (S A C L : Type) where
  nominal : NominalQuotient S C L
  envelope : ExactRealizationEnvelope S A C L

section Lookup

variable [DecidableEq C] [PyRepr L]

def NominalQuotient.actions (nominal : NominalQuotient S C L) (cell : C) : List L :=
  deterministicOrder ((nominal.entries.filter fun e => e.cell = cell).map NominalEntry.action)

variable [DecidableEq L] [PyRepr C]

def NominalQuotient.transition (nominal : NominalQuotient S C L) (cell : C) (action : L) :
    Except PyError (NominalActionModel C) :=
  orRaise ((nominal.entries.find? fun e => e.cell = cell ∧ e.action = action).map
      NominalEntry.model)
    (.keyError s!"no nominal transition for cell={pyRepr cell}, action={pyRepr action}")

omit [PyRepr C] [DecidableEq L] in
theorem NominalQuotient.mem_actions {nominal : NominalQuotient S C L} {cell : C} {action : L} :
    action ∈ nominal.actions cell ↔ ∃ e ∈ nominal.entries, e.cell = cell ∧ e.action = action := by
  simp [NominalQuotient.actions, deterministicOrder, and_assoc]

theorem NominalQuotient.transition_eq_ok {nominal : NominalQuotient S C L} {cell : C} {action : L}
    {model : NominalActionModel C} (h : nominal.transition cell action = .ok model) :
    ∃ e ∈ nominal.entries, e.cell = cell ∧ e.action = action ∧ e.model = model := by
  rw [transition, orRaise_eq_ok, Option.map_eq_some_iff] at h
  obtain ⟨e, hfind, rfl⟩ := h
  obtain ⟨hcell, haction⟩ : e.cell = cell ∧ e.action = action := by
    simpa using List.find?_some hfind
  exact ⟨e, List.mem_of_find?_eq_some hfind, hcell, haction, rfl⟩

theorem NominalQuotient.transition_returns {nominal : NominalQuotient S C L} {cell : C}
    {action : L} (h : action ∈ nominal.actions cell) :
    ∃ model, nominal.transition cell action = .ok model := by
  obtain ⟨e, he, hcell, haction⟩ := NominalQuotient.mem_actions.mp h
  cases hfind : nominal.entries.find? fun e => e.cell = cell ∧ e.action = action with
  | none => simpa [hcell, haction] using List.find?_eq_none.mp hfind e he
  | some e' => exact ⟨e'.model, by rw [transition, hfind]; rfl⟩

end Lookup

section Average

variable [DecidableEq C] [PyRepr C]

/-- The value that a dictionary of pairs gives to a key, zero without an entry. -/
def valueAt {K : Type} [DecidableEq K] (pairs : List (K × ℚ)) (key : K) : ℚ :=
  ((Dict.ofPairs pairs).lookup key).getD 0

def averageModel (realizations : List (GroundRealization S C)) : NominalActionModel C :=
  let count := realizations.length
  let featureNames :=
    sortBy id (realizations.flatMap fun r => r.rewardFeatures.map Prod.fst).dedup
  let successorCells := deterministicOrder
    (realizations.flatMap fun r => r.successorProbabilities.map Prod.fst)
  let successorCells := (Dict.ofPairs (successorCells.map fun cell => (cell, ()))).map Prod.fst
  { rewardFeatures := featureNames.map fun name =>
      (name, (realizations.map fun r => valueAt r.rewardFeatures name).sum / count)
    successorProbabilities := (successorCells.map fun cell =>
      (cell, (realizations.map fun r => valueAt r.successorProbabilities cell).sum / count)).filter
        fun e => 0 < e.2
    failureProbability := (realizations.map GroundRealization.failureProbability).sum / count
    terminationProbability :=
      (realizations.map GroundRealization.terminationProbability).sum / count
    realizationCount := count }

variable [PyRepr L]

def buildNominalQuotient (envelope : ExactRealizationEnvelope S A C L) : NominalQuotient S C L :=
  let entries := (envelope.entries.filter fun e => e.realizations ≠ []).map fun e =>
    (⟨e.cell, e.action, averageModel e.realizations⟩ : NominalEntry C L)
  ⟨envelope.partition, envelope.horizon, sortBy (fun e : NominalEntry C L =>
    (toLex (pyRepr e.cell, pyRepr e.action) : String ×ₗ String)) entries⟩

def buildQuotientModels [DecidableEq S] [PyRepr S] [DecidableEq A] [PyRepr A] [DecidableEq L]
    (kernel : Kernel S A) (states : List S) (partition : Partition S C)
    (source : ActionSource S A L) : Except PyError (QuotientModels S A C L) := do
  let envelope ← buildExactRealizationEnvelope kernel states partition source
  return ⟨buildNominalQuotient envelope, envelope⟩

omit [PyRepr C] in
theorem mem_entries_buildNominalQuotient [PyRepr C] {envelope : ExactRealizationEnvelope S A C L}
    {e : NominalEntry C L} : e ∈ (buildNominalQuotient envelope).entries ↔
      ∃ x ∈ envelope.entries, x.realizations ≠ [] ∧
        (⟨x.cell, x.action, averageModel x.realizations⟩ : NominalEntry C L) = e := by
  simp only [buildNominalQuotient, mem_sortBy, List.mem_map, List.mem_filter, decide_eq_true_eq,
    and_assoc]

end Average

/-! ## What an average is worth -/

/-- The names and the cells of a realization are distinct, and its masses are not negative. -/
structure GroundRealization.Canonical (r : GroundRealization S C) : Prop where
  features : (r.rewardFeatures.map Prod.fst).Nodup
  successors : (r.successorProbabilities.map Prod.fst).Nodup
  nonneg : ∀ e ∈ r.successorProbabilities, 0 ≤ e.2

theorem valueAt_nonneg {K : Type} [DecidableEq K] {pairs : List (K × ℚ)}
    (hnodup : (pairs.map Prod.fst).Nodup) (h : ∀ e ∈ pairs, 0 ≤ e.2) (key : K) :
    0 ≤ valueAt pairs key := by
  rw [valueAt, Dict.ofPairs_of_nodup hnodup]
  cases hl : pairs.lookup key with
  | none => exact le_rfl
  | some v => exact h _ (Dict.lookup_mem hl)

theorem sum_average {K : Type} [DecidableEq K] (g : K → ℚ) (keys : List K)
    (rows : List (List (K × ℚ))) (hkeys : keys.Nodup)
    (hrows : ∀ row ∈ rows, (row.map Prod.fst).Nodup ∧ ∀ e ∈ row, e.1 ∈ keys) (count : ℚ) :
    (keys.map fun key => g key * ((rows.map fun row => valueAt row key).sum / count)).sum =
      (rows.map fun row => (row.map fun e => g e.1 * e.2).sum).sum / count := by
  induction rows with
  | nil => simp
  | cons row rows ih =>
    have ih := ih fun r hr => hrows r (by simp [hr])
    obtain ⟨hnodup, hsub⟩ := hrows row (by simp)
    have hrow := Dict.sum_lookup g hkeys hnodup hsub
    have hhead : (keys.map fun key => g key * (valueAt row key / count)).sum =
        (row.map fun e => g e.1 * e.2).sum / count := by
      rw [← hrow, div_eq_mul_inv, ← List.sum_map_mul_right]
      congr 1
      refine List.map_congr_left fun key _ => ?_
      rw [valueAt, Dict.ofPairs_of_nodup hnodup, div_eq_mul_inv, mul_assoc]
    simp only [List.map_cons, List.sum_cons, add_div, mul_add, List.sum_map_add, ih, hhead]

theorem sum_filter_pos {K : Type} {f : K → ℚ} {l : List (K × ℚ)} (h : ∀ e ∈ l, 0 ≤ e.2) :
    ((l.filter fun e => 0 < e.2).map fun e => e.2 * f e.1).sum =
      (l.map fun e => e.2 * f e.1).sum := by
  induction l with
  | nil => rfl
  | cons e l ih =>
    have ih := ih fun x hx => h x (by simp [hx])
    by_cases he : 0 < e.2
    · simp [he, ih]
    · have hzero : e.2 = 0 := le_antisymm (not_lt.mp he) (h e (by simp))
      simp [hzero, ih]

section Spec

variable [DecidableEq C] [PyRepr C] {realizations : List (GroundRealization S C)}

theorem averageModel_reward (weights : Features) (h : ∀ r ∈ realizations, r.Canonical) :
    (averageModel realizations).reward weights =
      (realizations.map fun r => r.reward weights).sum / realizations.length := by
  have hrows : ∀ row ∈ realizations.map GroundRealization.rewardFeatures,
      (row.map Prod.fst).Nodup ∧ ∀ e ∈ row, e.1 ∈ sortBy id
        (realizations.flatMap fun r => r.rewardFeatures.map Prod.fst).dedup := by
    intro row hrow
    obtain ⟨r, hr, rfl⟩ := List.mem_map.mp hrow
    refine ⟨(h r hr).features, fun e he => ?_⟩
    rw [mem_sortBy, List.mem_dedup, List.mem_flatMap]
    exact ⟨r, hr, List.mem_map_of_mem he⟩
  have hsum := sum_average (weightOf weights) _ _
    ((perm_sortBy id _).nodup_iff.mpr (List.nodup_dedup _)) hrows realizations.length
  simpa only [NominalActionModel.reward, GroundRealization.reward, averageModel, weigh,
    List.map_map, Function.comp_def] using hsum

theorem averageModel_successors (V : C → ℚ) (h : ∀ r ∈ realizations, r.Canonical) :
    ((averageModel realizations).successorProbabilities.map fun e => e.2 * V e.1).sum =
      (realizations.map fun r => (r.successorProbabilities.map fun e => e.2 * V e.1).sum).sum /
        realizations.length := by
  have hrows : ∀ row ∈ realizations.map GroundRealization.successorProbabilities,
      (row.map Prod.fst).Nodup ∧ ∀ e ∈ row, e.1 ∈ (Dict.ofPairs ((deterministicOrder
        (realizations.flatMap fun r => r.successorProbabilities.map Prod.fst)).map
          fun cell => (cell, ()))).map Prod.fst := by
    intro row hrow
    obtain ⟨r, hr, rfl⟩ := List.mem_map.mp hrow
    refine ⟨(h r hr).successors, fun e he => Dict.mem_keys_ofPairs.mpr ?_⟩
    simp only [List.map_map, List.mem_map, deterministicOrder, mem_sortBy, List.mem_flatMap]
    exact ⟨e.1, ⟨r, hr, e, he, rfl⟩, rfl⟩
  have hsum := sum_average V _ _ (Dict.nodup_keys_ofPairs _) hrows realizations.length
  rw [averageModel, sum_filter_pos fun e he => ?_]
  · simpa only [List.map_map, Function.comp_def, mul_comm (V _)] using hsum
  · obtain ⟨cell, -, rfl⟩ := List.mem_map.mp he
    refine div_nonneg (List.sum_nonneg fun x hx => ?_) (Nat.cast_nonneg _)
    obtain ⟨r, hr, rfl⟩ := List.mem_map.mp hx
    exact valueAt_nonneg (h r hr).successors (h r hr).nonneg cell

omit [DecidableEq C] [PyRepr C] in
theorem sum_eq_length_mul {ι : Type} {l : List ι} {f : ι → ℚ} {q : ℚ} (h : ∀ i ∈ l, f i = q) :
    (l.map f).sum = l.length * q := by
  rw [List.map_congr_left h]
  simp

end Spec

end Acfqp.Abstraction
