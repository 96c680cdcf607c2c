import Acfqp.ExactGround.Enumeration
import Acfqp.ExactGround.Optima
import Acfqp.Library.Permutations

/-!
# The exhaustive evaluation

Every deterministic policy of a law is evaluated on the rows of the law, one atom after another,
and the best one within the tolerance is selected. The result checks its own summary.
-/

namespace Acfqp.ExactGround

open Library

variable {K A ι : Type} [LinearOrder K] [LinearOrder A] [LinearOrder ι]

/-! ## Policies -/

structure ExactGroundPolicy (K A : Type) where
  rootAction : A
  childDecisions : List (K ×ₗ A)
  expectedReward : ℚ
  failureProbability : ℚ
  feasible : Bool

/-- Identifiers that also tell policies apart. -/
structure PolicyIds (K A ι : Type) extends GroundIds K A ι where
  policyId : ExactGroundPolicy K A → ι
  policyId_injective : policyId.Injective

section Model

variable (ids : PolicyIds K A ι) (law : ExactLaw K A)

/-- The checks of `ExactGroundPolicyV1.__post_init__`. -/
def ExactGroundPolicy.check (policy : ExactGroundPolicy K A) : Except EvaluationError Unit :=
  require (policy.childDecisions.Pairwise (· < ·) ∧
      (policy.childDecisions.map fun e => ids.stateId (ofLex e).1).Nodup ∧
      0 ≤ policy.expectedReward ∧ 0 ≤ policy.failureProbability ∧ policy.failureProbability ≤ 1)
    (.groundViolation "exact deterministic contingent policy is malformed")

def ExactGroundPolicy.selectionKey (policy : ExactGroundPolicy K A) :
    ℚ ×ₗ ℚ ×ₗ A ×ₗ List (K ×ₗ A) :=
  toLex (-policy.expectedReward, toLex (policy.failureProbability,
    toLex (policy.rootAction, policy.childDecisions)))

omit [LinearOrder A] in
def reachableChildStates (row : RegisteredExactGroundRow K A) : List K :=
  sortBy id (distinct ((row.atoms.filter fun atom => !atom.terminal).map (·.nextState)))

structure ExactGroundEvaluationWork where
  exactRowEvaluations : ℕ
  exactPositiveTransitionOutcomes : ℕ
  deterministicContingentPoliciesEnumerated : ℕ
  feasiblePoliciesEnumerated : ℕ
  fractionRecurrenceEvaluations : ℕ

/-- The checks of `ExactGroundEvaluationWorkV1.__post_init__`. -/
def ExactGroundEvaluationWork.check (work : ExactGroundEvaluationWork) :
    Except EvaluationError Unit :=
  require (0 < work.exactRowEvaluations ∧
      work.exactRowEvaluations ≤ work.exactPositiveTransitionOutcomes ∧
      0 < work.deterministicContingentPoliciesEnumerated ∧
      work.feasiblePoliciesEnumerated ≤ work.deterministicContingentPoliciesEnumerated ∧
      work.fractionRecurrenceEvaluations = work.deterministicContingentPoliciesEnumerated)
    (.groundViolation "standalone evaluation-only work does not reconcile")

inductive ExactGroundEvaluationStatus where
  | feasibleOptimum
  | infeasible
  deriving DecidableEq

structure IndependentExactGroundEvaluationResult (K A ι : Type) where
  riskTolerance : ℚ
  status : ExactGroundEvaluationStatus
  rows : List (RegisteredExactGroundRow K A)
  policies : List (ExactGroundPolicy K A)
  selectedPolicyId : Option ι
  optimalExpectedReward : Option ℚ
  optimalFailureProbability : Option ℚ
  minimumFailureProbability : ℚ
  maximumUnconstrainedReward : ℚ
  work : ExactGroundEvaluationWork

namespace IndependentExactGroundEvaluationResult

variable (r : IndependentExactGroundEvaluationResult K A ι)

omit [LinearOrder K] [LinearOrder A] [LinearOrder ι] in
def feasiblePolicies : List (ExactGroundPolicy K A) := r.policies.filter (·.feasible)

/-- The selected policy is the first feasible one, and the summary is its values. -/
def SelectedCurrent : Prop :=
  ∃ selectedId ∈ r.selectedPolicyId, ∃ reward ∈ r.optimalExpectedReward,
    ∃ failure ∈ r.optimalFailureProbability,
    ∃ expected ∈ r.feasiblePolicies.argmin ExactGroundPolicy.selectionKey,
    (r.feasiblePolicies.filter fun policy => ids.policyId policy = selectedId).map
      (fun policy => (ids.policyId policy, policy.expectedReward, policy.failureProbability)) =
        [(ids.policyId expected, reward, failure)] ∧ failure ≤ r.riskTolerance

instance : Decidable (r.SelectedCurrent ids) := by unfold SelectedCurrent; infer_instance

/-- The checks of `IndependentExactGroundEvaluationResultV1.__post_init__`. -/
def check : Except EvaluationError Unit := do
  require (r.rows ≠ [] ∧ r.policies ≠ [])
    (.groundViolation "independent exact-ground result has a malformed schema")
  require ((r.rows.map fun row => ids.rowId row.key).Pairwise (· < ·) ∧
      (r.policies.map ids.policyId).Pairwise (· < ·))
    (.groundViolation "exact-ground rows/policies were transplanted")
  require (∀ policy ∈ r.policies,
      policy.feasible = decide (policy.failureProbability ≤ r.riskTolerance))
    (.groundViolation "policy feasibility flags differ from the exact threshold")
  require (some r.minimumFailureProbability = (r.policies.map (·.failureProbability)).min? ∧
      some r.maximumUnconstrainedReward = (r.policies.map (·.expectedReward)).max? ∧
      r.work.exactRowEvaluations = r.rows.length ∧
      r.work.exactPositiveTransitionOutcomes = (r.rows.map fun row => row.atoms.length).sum ∧
      r.work.deterministicContingentPoliciesEnumerated = r.policies.length ∧
      r.work.feasiblePoliciesEnumerated = r.feasiblePolicies.length)
    (.groundViolation "exact-ground result summary/work does not reconcile")
  match r.status with
  | .feasibleOptimum => do
    require (r.feasiblePolicies ≠ [] ∧ r.selectedPolicyId.isSome ∧
        r.optimalExpectedReward.isSome ∧ r.optimalFailureProbability.isSome)
      (.groundViolation "feasible result omits its exact optimum")
    require (r.SelectedCurrent ids)
      (.groundViolation "selected exact-ground policy is stale or infeasible")
  | .infeasible =>
    require (r.feasiblePolicies = [] ∧ r.selectedPolicyId = none ∧
        r.optimalExpectedReward = none ∧ r.optimalFailureProbability = none ∧
        r.riskTolerance < r.minimumFailureProbability)
      (.groundViolation "infeasible exact-ground result carries a feasible policy")

omit [LinearOrder K] [LinearOrder A] [LinearOrder ι] in
def optimum : Option (ℚ × ℚ) :=
  r.optimalExpectedReward.bind fun reward =>
    r.optimalFailureProbability.map fun failure => (reward, failure)

end IndependentExactGroundEvaluationResult

/-- The result that selects one of the policies. -/
def summarize (riskTolerance : ℚ) (policies : List (ExactGroundPolicy K A)) :
    Except EvaluationError (IndependentExactGroundEvaluationResult K A ι) := do
  let rows := sortBy (fun row => ids.rowId row.key) (rowCache ids.toEvaluationIds law)
  let feasible := policies.filter (·.feasible)
  let selected := feasible.argmin ExactGroundPolicy.selectionKey
  let work : ExactGroundEvaluationWork := {
    exactRowEvaluations := rows.length
    exactPositiveTransitionOutcomes := (rows.map fun row => row.atoms.length).sum
    deterministicContingentPoliciesEnumerated := policies.length
    feasiblePoliciesEnumerated := feasible.length
    fractionRecurrenceEvaluations := policies.length }
  work.check
  let minimum ← orRaise (policies.map (·.failureProbability)).min?
    (.raised (.valueError "min() iterable argument is empty"))
  let maximum ← orRaise (policies.map (·.expectedReward)).max?
    (.raised (.valueError "max() iterable argument is empty"))
  let result : IndependentExactGroundEvaluationResult K A ι := {
    riskTolerance := riskTolerance
    status := if selected.isSome then .feasibleOptimum else .infeasible
    rows := rows
    policies := policies
    selectedPolicyId := selected.map ids.policyId
    optimalExpectedReward := selected.map (·.expectedReward)
    optimalFailureProbability := selected.map (·.failureProbability)
    minimumFailureProbability := minimum
    maximumUnconstrainedReward := maximum
    work := work }
  result.check ids
  return result

end Model

/-! ## The policies of a root action -/

section

variable {ids : PolicyIds K A ι} {law : ExactLaw K A} {riskTolerance : ℚ} {action : A}

abbrev rootRow (ids : PolicyIds K A ι) (law : ExactLaw K A) (action : A) :
    RegisteredExactGroundRow K A :=
  rowFor ids.toEvaluationIds law law.rootRanks horizon action

/-- The ways to decide the child states of a root action. -/
def assignments (ids : PolicyIds K A ι) (law : ExactLaw K A) (action : A) : List (List A) :=
  cartesian ((reachableChildStates (rootRow ids law action)).map law.actions)

end

section Evaluation

variable (ids : PolicyIds K A ι) (law : ExactLaw K A) (riskTolerance : ℚ)

end Evaluation

end Acfqp.ExactGround

/-!
## Agreement of the optima

The exhaustive evaluation, the search with signatures and the search of values find the same
optimum of a law. The deterministic core is exact as well, but its result has to count at least one
candidate, so that it refuses the problems whose root actions all end at once.
-/

namespace Acfqp.ExactGround

open Library

section Agree

variable {K A ι : Type} [LinearOrder K] [LinearOrder A] [LinearOrder ι]

end Agree

variable {K A : Type} [LinearOrder K] [LinearOrder A]

/-- Numbers of the contents as identifiers. -/
def sampleIds : PolicyIds ℕ ℕ ℕ where
  stateId := id
  atomId atom := Encodable.encode (atom.source, atom.remainingHorizon, atom.action,
    atom.nextState, atom.probability, atom.realizedRowReward, atom.failure, atom.terminal)
  rowId := Encodable.encode
  partitionId w := Encodable.encode ((w.lineage.occurrenceId, w.lineage.contextId,
    w.lineage.supportAuthorityId), w.rootGroundAction, w.rootRealizationWeight,
    w.selectedModelRowId, w.exactRootRowId, w.exactAtomProbabilityItems,
    w.environmentFailureAtomIds, w.modeledRecurseAtomIds, w.policyAbortAtomIds,
    w.environmentFailureProbability, w.modeledRecurseProbability, w.policyAbortProbability)
  policyId policy := Encodable.encode (policy.rootAction, policy.childDecisions.map ofLex,
    policy.expectedReward, policy.failureProbability, policy.feasible)
  stateId_injective := Function.injective_id
  atomId_injective atom atom' h := by
    obtain ⟨⟩ := atom
    obtain ⟨⟩ := atom'
    simpa using Encodable.encode_injective h
  rowId_injective := Encodable.encode_injective
  partitionId_injective w w' h := by
    obtain ⟨⟨⟩⟩ := w
    obtain ⟨⟨⟩⟩ := w'
    simpa using Encodable.encode_injective h
  policyId_injective policy policy' h := by
    obtain ⟨⟩ := policy
    obtain ⟨⟩ := policy'
    have hfields := Encodable.encode_injective h
    rw [Prod.mk.injEq, Prod.mk.injEq, (List.map_injective_iff.mpr ofLex.injective).eq_iff]
      at hfields
    simpa using hfields

end Acfqp.ExactGround
