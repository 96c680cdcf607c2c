import Acfqp.Planning.GroundOptimum
import Acfqp.Abstraction.BehavioralStable
import Acfqp.Planning.Mixture
import Acfqp.Planning.Nominal

/-!
# Abstract planners that simulate a ground kernel

When every ground action has an abstract one of the same backups, and conversely, the two sides
have the same best rewards and the same best failures.
-/

namespace Acfqp.Planning

open Library

variable {S A C L P : Type}

/-- The outcomes are worth what the transition is, with these values of the successors. -/
def Backs (kernel : Kernel S A) (goal : String) (weights : Features) (outcomes : List (Outcome S))
    (V : S → ℚ) (W : C → ℚ) (move : Move C) : Prop :=
  backup (outcomeBranches kernel goal (fun o => outcomeReward o weights) outcomes) V =
      move.reward + massSum W move.successors ∧
    backup (outcomeBranches kernel goal failureCost outcomes) V =
      move.failure + massSum W move.successors

/-- The action may be taken at the state. -/
def Offers (kernel : Kernel S A) (goal : String) (s : S) (a : A) : Prop :=
  isStopped kernel s goal = false ∧ ∃ actions, kernel.actions s = .ok actions ∧ a ∈ actions

section Simulates

variable [PyRepr S] [PyRepr A]

/-- A ground action and an abstract one have the same backups of related values. -/
def Matched (kernel : Kernel S A) (goal : String) (weights : Features) (planner : CellPlanner C L P)
    (rel : S → C → Prop) (s : S) (a : A) (c : C) (l : L) : Prop :=
  ∃ outcomes move, iterOutcomes kernel s a = .ok outcomes ∧ planner.move c l = .ok move ∧
    ∀ V W, (∀ t d, rel t d → V t = W d) → Backs kernel goal weights outcomes V W move

/-- Related states and cells match each other's actions. -/
structure Simulates (kernel : Kernel S A) (goal : String) (weights : Features)
    (planner : CellPlanner C L P) (rel : ℕ → S → C → Prop) : Prop where
  forth : ∀ n s c, rel (n + 1) s c → ∀ a, Offers kernel goal s a →
    ∃ l ∈ planner.actions c, Matched kernel goal weights planner (rel n) s a c l
  back : ∀ n s c, rel (n + 1) s c → ∀ l ∈ planner.actions c,
    ∃ a, Offers kernel goal s a ∧ Matched kernel goal weights planner (rel n) s a c l

variable {kernel : Kernel S A} {goal : String} {weights : Features} {planner : CellPlanner C L P}
  {rel : ℕ → S → C → Prop}

omit [PyRepr S] [PyRepr A] in
theorem Backs.neg_failure {outcomes : List (Outcome S)} {V : S → ℚ} {W : C → ℚ} {move : Move C}
    (h : Backs kernel goal weights outcomes (fun s => -V s) (fun c => -W c) move) :
    backup (outcomeBranches kernel goal (fun o => -failureCost o) outcomes) V =
      -move.failure + massSum W move.successors := by
  have hbranches : outcomeBranches kernel goal (fun o => -failureCost o) outcomes =
      (outcomeBranches kernel goal failureCost outcomes).map Branch.neg := by
    rw [outcomeBranches, outcomeBranches, List.map_map]
    rfl
  have hneg := backup_neg (outcomeBranches kernel goal failureCost outcomes) fun s => -V s
  simp only [neg_neg] at hneg
  rw [hbranches, hneg, h.2, CellPlanner.massSum_neg]
  ring

theorem mem_options_groundProcess {gain : Outcome S → ℚ} {s : S} {a : A} :
    a ∈ (groundProcess kernel goal gain).options s ↔ Offers kernel goal s a := by
  unfold groundProcess Offers
  dsimp only
  split
  · rename_i hstop
    simp [hstop]
  · rename_i hstop
    cases h : kernel.actions s <;> simp [hstop, Except.toOption]

theorem Simulates.bisimulation (h : Simulates kernel goal weights planner rel)
    {gain : Outcome S → ℚ} {gain' : Move C → ℚ}
    (hchannel : ∀ outcomes move (V : S → ℚ) (W : C → ℚ),
      Backs kernel goal weights outcomes V W move →
      Backs kernel goal weights outcomes (fun s => -V s) (fun c => -W c) move →
      backup (outcomeBranches kernel goal gain outcomes) V =
        gain' move + massSum W move.successors) :
    Bisimulation (groundProcess kernel goal gain) (planner.process gain') rel := by
  have hmatched : ∀ n s a c l, Matched kernel goal weights planner (rel n) s a c l → ∀ V W,
      (∀ t d, rel n t d → V t = W d) →
      backup ((groundProcess kernel goal gain).branches s a) V =
        backup ((planner.process gain').branches c l) W := by
    rintro n s a c l ⟨outcomes, move, ho, hmove, hbacks⟩ V W hVW
    rw [branches_groundProcess ho, CellPlanner.branches_process hmove, Move.backup_branches]
    exact hchannel outcomes move V W (hbacks V W hVW)
      (hbacks _ _ fun t d ht => congrArg Neg.neg (hVW t d ht))
  constructor
  · intro n s c hs a ha
    obtain ⟨l, hl, hmatch⟩ := h.forth n s c hs a (mem_options_groundProcess.mp ha)
    exact ⟨l, hl, hmatched n s a c l hmatch⟩
  · intro n s c hs l hl
    obtain ⟨a, ha, hmatch⟩ := h.back n s c hs l hl
    exact ⟨a, mem_options_groundProcess.mpr ha, hmatched n s a c l hmatch⟩

theorem Simulates.best_reward (h : Simulates kernel goal weights planner rel) {n : ℕ} {s : S}
    {c : C} (hs : rel n s c) :
    (groundProcess kernel goal fun o => outcomeReward o weights).best n s =
      (planner.process Move.reward).best n c :=
  (h.bisimulation fun _ _ _ _ hbacks _ => hbacks.1).best_eq n s c hs

theorem Simulates.best_failure (h : Simulates kernel goal weights planner rel) {n : ℕ} {s : S}
    {c : C} (hs : rel n s c) :
    (groundProcess kernel goal fun o => -failureCost o).best n s =
      (planner.process fun move => -move.failure).best n c :=
  (h.bisimulation fun _ _ _ _ _ hneg => hneg.neg_failure).best_eq n s c hs

end Simulates

end Acfqp.Planning

/-!
## The transitions of a behavioural quotient

An action signature, the realizations of its label and their nominal average are worth what every
ground action of the signature is worth.
-/

namespace Acfqp.Planning

open Library Abstraction

variable {S A : Type}

/-! ## Signatures -/

def signatureMove (weights : Features) (σ : BehavioralActionSignature) : Move BehavioralCellId :=
  ⟨weigh weights σ.rewardFeatures, σ.failureProbability, σ.successorProbabilities⟩

theorem backup_split (kernel : Kernel S A) (goal : String) (gain : Outcome S → ℚ)
    (outcomes : List (Outcome S)) (V : S → ℚ) :
    backup (outcomeBranches kernel goal gain outcomes) V =
      (outcomes.map fun o => o.probability * gain o).sum +
        ((outcomes.filter fun o => !outcomeStopped kernel goal o).map fun o =>
          o.probability * V o.nextState).sum := by
  rw [backup_outcomeBranches]
  induction outcomes with
  | nil => simp
  | cons o outcomes ih =>
    by_cases hs : outcomeStopped kernel goal o = true
    · simp [hs, ih]
      ring
    · simp [hs, ih]
      ring

section Signature

variable [DecidableEq S] [PyRepr S] [PyRepr A] {kernel : Kernel S A} {goal : String}
  {partition : Partition S BehavioralCellId} {s : S} {a : A} {σ : BehavioralActionSignature}

theorem actionSignature_backs (hgoal : GoalFree kernel goal)
    (h : actionSignature kernel partition s a = .ok σ) :
    ∃ outcomes, iterOutcomes kernel s a = .ok outcomes ∧
      (∀ o ∈ outcomes, outcomeStopped kernel goal o = false →
        ∃ c, partition.cellOf o.nextState = .ok c) ∧
      ∀ weights W, Backs kernel goal weights outcomes (cellValue partition W) W
        (signatureMove weights σ) := by
  obtain ⟨outcomes, events, ho, hevents, hsigns⟩ := actionSignature_eq_ok.mp h
  have hends : outcomeEnds kernel = outcomeStopped kernel goal := by
    funext o
    rw [outcomeEnds, outcomeStopped, hgoal]
  rw [continuing, hends] at hevents
  refine ⟨outcomes, ho, fun o ho hs => ?_, fun weights W => ?_⟩
  · obtain ⟨e, -, hrow⟩ := exists_of_mapM hevents (List.mem_filter.mpr ⟨ho, by simp [hs]⟩)
    obtain ⟨c, hc, -⟩ := bind_eq_ok.mp hrow
    exact ⟨c, hc⟩
  · have hsuccessors : massSum W σ.successorProbabilities =
        ((outcomes.filter fun o => !outcomeStopped kernel goal o).map fun o =>
          o.probability * cellValue partition W o.nextState).sum := by
      rw [hsigns.successors, massSum, sum_map_sortBy, sum_tally_mul]
      congr 1
      refine map_of_mapM hevents fun o _ e hrow => ?_
      obtain ⟨c, hc, hrow⟩ := bind_eq_ok.mp hrow
      rw [← pure_eq_ok.mp hrow, cellValue_eq hc]
    constructor
    · rw [backup_split, signatureMove, hsuccessors, hsigns.rewards]
      simp only [weigh_sortBy, weigh_tally, weigh_flatMap, weigh_scale]
      rfl
    · have hfailure : σ.failureProbability =
          (outcomes.map fun o => o.probability * failureCost o).sum := by
        rw [hsigns.failure, sum_filter_eq]
        rfl
      rw [backup_split, signatureMove, hsuccessors, hfailure]

end Signature

section Realization

variable [DecidableEq S] [PyRepr S] [DecidableEq A] [PyRepr A]

section Atoms

variable {C L : Type} [DecidableEq C] [PyRepr C] [DecidableEq L] [PyRepr L] {kernel : Kernel S A}
  {partition : Partition S C} {source : ActionSource S A L} {s : S} {label : L}
  {r : GroundRealization S C}

omit [DecidableEq A] [DecidableEq C] [PyRepr C] in
theorem probability_of_realizationAtoms {Q : ℚ → Prop} (hmul : ∀ q p, Q q → 0 < p → Q (q * p))
    {distribution : List (ℚ × A)} (hdistribution : ∀ e ∈ distribution, Q e.1)
    {atoms : List (RealizationAtom S C)}
    (h : realizationAtoms kernel partition s distribution = .ok atoms) :
    ∀ atom ∈ atoms, Q atom.probability := by
  intro atom hatom
  obtain ⟨rows, hrows, hpure⟩ := bind_eq_ok.mp h
  obtain rfl := pure_eq_ok.mp hpure
  obtain ⟨row, hrow, hatom⟩ := List.mem_flatten.mp hatom
  obtain ⟨e, he, hy⟩ := mem_of_mapM hrows hrow
  obtain ⟨outcomes, -, hy⟩ := bind_eq_ok.mp hy
  obtain ⟨o, -, hy⟩ := mem_of_mapM hy hatom
  have hq := hmul e.1 o.probability (hdistribution e he) o.probability_pos
  split at hy
  · rwa [← pure_eq_ok.mp hy]
  · obtain ⟨c, -, hy⟩ := bind_eq_ok.mp hy
    rwa [← pure_eq_ok.mp hy]

/-- What a concretizer's probabilities have in common, and sums keep, the successor masses do. -/
theorem successors_of_realization {Q : ℚ → Prop} (hmul : ∀ q p, Q q → 0 < p → Q (q * p))
    (hadd : ∀ p q, Q p → Q q → Q (p + q))
    (hsource : ∀ distribution, normaliseConcretizer kernel source s label = .ok distribution →
      ∀ e ∈ distribution, Q e.1)
    (h : realization kernel partition source s label = .ok r) :
    ∀ e ∈ r.successorProbabilities, Q e.2 := by
  obtain ⟨distribution, hdistribution, h⟩ := bind_eq_ok.mp h
  obtain ⟨atoms, hatoms, h⟩ := bind_eq_ok.mp h
  obtain ⟨_, -, h⟩ := bind_eq_ok.mp h
  obtain rfl := pure_eq_ok.mp h
  have hatom := probability_of_realizationAtoms hmul (hsource distribution hdistribution) hatoms
  intro e he
  refine tally_totals hadd (fun x hx => ?_) e (mem_sortBy.mp he)
  obtain ⟨atom, hmem, hx⟩ := List.mem_filterMap.mp hx
  obtain ⟨c, -, rfl⟩ := Option.map_eq_some_iff.mp hx
  exact hatom atom hmem

/-- The successors of a realization are cells of the partition. -/
theorem registered_of_realization (h : realization kernel partition source s label = .ok r) :
    ∀ e ∈ r.successorProbabilities, ∃ t, partition.cellOf t = .ok e.1 := by
  obtain ⟨distribution, -, h⟩ := bind_eq_ok.mp h
  obtain ⟨atoms, hatoms, h⟩ := bind_eq_ok.mp h
  obtain ⟨_, -, h⟩ := bind_eq_ok.mp h
  obtain rfl := pure_eq_ok.mp h
  obtain ⟨rows, hrows, hpure⟩ := bind_eq_ok.mp hatoms
  obtain rfl := pure_eq_ok.mp hpure
  intro e he
  have hkey := mem_keys_tally.mp (List.mem_map_of_mem (f := Prod.fst) (mem_sortBy.mp he))
  obtain ⟨x, hx, hxe⟩ := List.mem_map.mp hkey
  obtain ⟨atom, hatom, hx⟩ := List.mem_filterMap.mp hx
  obtain ⟨c, hc, rfl⟩ := Option.map_eq_some_iff.mp hx
  obtain ⟨row, hrow, hatom⟩ := List.mem_flatten.mp hatom
  obtain ⟨p, -, hy⟩ := mem_of_mapM hrows hrow
  obtain ⟨outcomes, -, hy⟩ := bind_eq_ok.mp hy
  obtain ⟨o, -, hy⟩ := mem_of_mapM hy hatom
  split at hy
  · rw [← pure_eq_ok.mp hy] at hc
    cases hc
  · obtain ⟨d, hd, hy⟩ := bind_eq_ok.mp hy
    rw [← pure_eq_ok.mp hy] at hc
    cases hc
    exact ⟨o.nextState, hxe ▸ hd⟩

omit [DecidableEq S] [PyRepr C] [DecidableEq C] in
theorem normaliseConcretizer_eq_ok {distribution : List (ℚ × A)}
    (h : normaliseConcretizer kernel source s label = .ok distribution) :
    source.concretizer s label = .ok distribution ∧ ∀ e ∈ distribution, 0 ≤ e.1 := by
  obtain ⟨raw, hraw, h⟩ := bind_eq_ok.mp h
  obtain ⟨_, -, h⟩ := bind_eq_ok.mp h
  obtain ⟨_, hpos, h⟩ := bind_eq_ok.mp h
  obtain ⟨_, -, h⟩ := bind_eq_ok.mp h
  obtain ⟨_, -, h⟩ := bind_eq_ok.mp h
  obtain ⟨_, -, h⟩ := bind_eq_ok.mp h
  rw [← pure_eq_ok.mp h]
  exact ⟨hraw, require_eq_ok.mp hpos⟩

theorem canonical_of_realization (h : realization kernel partition source s label = .ok r) :
    r.Canonical := by
  have hnonneg := successors_of_realization (Q := fun q => 0 ≤ q)
    (fun _ _ hq hp => mul_nonneg hq hp.le) (fun _ _ => add_nonneg)
    (fun _ hd => (normaliseConcretizer_eq_ok hd).2) h
  obtain ⟨distribution, -, h⟩ := bind_eq_ok.mp h
  obtain ⟨atoms, -, h⟩ := bind_eq_ok.mp h
  obtain ⟨_, -, h⟩ := bind_eq_ok.mp h
  obtain rfl := pure_eq_ok.mp h
  exact ⟨nodup_map_sortBy (nodup_keys_tally _), nodup_map_sortBy (nodup_keys_tally _), hnonneg⟩

end Atoms

variable {kernel : Kernel S A} {goal : String} {partition : Partition S BehavioralCellId}
  {source : ActionSource S A BehavioralActionSignature} {s : S} {σ : BehavioralActionSignature}
  {r : GroundRealization S BehavioralCellId}

omit [DecidableEq A] in
theorem mixtureBackup_signed (hgoal : GoalFree kernel goal) {distribution : List (ℚ × A)}
    (hsum : (distribution.map Prod.fst).sum = 1)
    (hsigned : ∀ e ∈ distribution, actionSignature kernel partition s e.2 = .ok σ)
    (weights : Features) (W : BehavioralCellId → ℚ) :
    mixtureBackup kernel goal (fun o => outcomeReward o weights) s distribution
        (cellValue partition W) =
      (signatureMove weights σ).reward + massSum W (signatureMove weights σ).successors ∧
    mixtureBackup kernel goal failureCost s distribution (cellValue partition W) =
      (signatureMove weights σ).failure + massSum W (signatureMove weights σ).successors := by
  have hmixture : ∀ (gain : Outcome S → ℚ) (x : ℚ), (∀ e ∈ distribution, ∀ outcomes,
      iterOutcomes kernel s e.2 = .ok outcomes →
      backup (outcomeBranches kernel goal gain outcomes) (cellValue partition W) = x) →
      mixtureBackup kernel goal gain s distribution (cellValue partition W) = x := by
    intro gain x hx
    have hterm : ∀ e ∈ distribution, e.1 * backup (outcomeBranches kernel goal gain
        ((iterOutcomes kernel s e.2).toOption.getD [])) (cellValue partition W) = e.1 * x := by
      intro e he
      obtain ⟨outcomes, ho, -⟩ := actionSignature_backs hgoal (hsigned e he)
      rw [ho, ← hx e he outcomes ho]
      rfl
    rw [mixtureBackup, List.map_congr_left hterm, List.sum_map_mul_right, hsum, one_mul]
  have hbacks : ∀ e ∈ distribution, ∀ outcomes, iterOutcomes kernel s e.2 = .ok outcomes →
      Backs kernel goal weights outcomes (cellValue partition W) W (signatureMove weights σ) := by
    intro e he outcomes ho
    obtain ⟨outcomes', ho', -, hbacks⟩ := actionSignature_backs hgoal (hsigned e he)
    cases ho.symm.trans ho'
    exact hbacks weights W
  exact ⟨hmixture _ _ fun e he outcomes ho => (hbacks e he outcomes ho).1,
    hmixture _ _ fun e he outcomes ho => (hbacks e he outcomes ho).2⟩

/-- A realization of actions of one signature is worth the signature. -/
theorem realization_backs (hgoal : GoalFree kernel goal)
    (h : realization kernel partition source s σ = .ok r) {distribution : List (ℚ × A)}
    (hconcrete : source.concretizer s σ = .ok distribution)
    (hsum : (distribution.map Prod.fst).sum = 1)
    (hsigned : ∀ e ∈ distribution, actionSignature kernel partition s e.2 = .ok σ)
    (weights : Features) (W : BehavioralCellId → ℚ) :
    r.reward weights + massSum W r.successorProbabilities =
        (signatureMove weights σ).reward + massSum W (signatureMove weights σ).successors ∧
      r.failureProbability + massSum W r.successorProbabilities =
        (signatureMove weights σ).failure + massSum W (signatureMove weights σ).successors := by
  obtain ⟨-, distribution', atoms, hconcrete', hatoms, -, htotal⟩ := realization_backup h
  cases hconcrete.symm.trans hconcrete'
  obtain ⟨-, hbackup⟩ := realizationAtoms_spec hgoal hatoms
  obtain ⟨hreward, hfailure⟩ := mixtureBackup_signed hgoal hsum hsigned weights W
  exact ⟨((htotal W).1 weights).trans ((hbackup _ W).trans hreward),
    (htotal W).2.trans ((hbackup _ W).trans hfailure)⟩

end Realization

/-- An average of realizations that are worth the same is worth that. -/
theorem averageModel_backs {C : Type} [DecidableEq C] [PyRepr C]
    {realizations : List (GroundRealization S C)} (hne : realizations ≠ [])
    (hcanonical : ∀ r ∈ realizations, r.Canonical) {weights : Features} {W : C → ℚ} {move : Move C}
    (h : ∀ r ∈ realizations,
      r.reward weights + massSum W r.successorProbabilities =
          move.reward + massSum W move.successors ∧
        r.failureProbability + massSum W r.successorProbabilities =
          move.failure + massSum W move.successors) :
    (averageModel realizations).reward weights +
          massSum W (averageModel realizations).successorProbabilities =
        move.reward + massSum W move.successors ∧
      (averageModel realizations).failureProbability +
          massSum W (averageModel realizations).successorProbabilities =
        move.failure + massSum W move.successors := by
  have hcount : (realizations.length : ℚ) ≠ 0 := by
    simpa using hne
  have hmean : ∀ (f : GroundRealization S C → ℚ) (x : ℚ),
      (∀ r ∈ realizations, f r + massSum W r.successorProbabilities = x) →
      (realizations.map f).sum / realizations.length +
        (realizations.map fun r => massSum W r.successorProbabilities).sum /
          realizations.length = x := by
    intro f x hx
    rw [← add_div, ← List.sum_map_add, sum_eq_length_mul hx]
    field_simp
  have hsuccessors := averageModel_successors W hcanonical
  rw [massSum, hsuccessors]
  constructor
  · rw [averageModel_reward weights hcanonical]
    exact hmean _ _ fun r hr => (h r hr).1
  · exact hmean _ _ fun r hr => (h r hr).2

end Acfqp.Planning
