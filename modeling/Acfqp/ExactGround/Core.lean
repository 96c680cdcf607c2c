import Acfqp.Core
import Acfqp.Library.Grouping
import Acfqp.Library.Stagewise

/-!
# The deterministic two-step core

An exact Pareto search over the deterministic policies of a two-step problem: one root action, and
one action in each of its child branches. The problem is given by its actions and branches alone,
whatever domain they come from.
-/

namespace Acfqp.ExactGround

open Library

variable {K A : Type}

/-- A violation of the evaluation itself, a violation of the protocol of the exact lift, or another
exception. -/
inductive EvaluationError where
  | groundViolation (message : String)
  | liftViolation (message : String)
  | raised (error : PyError)
  deriving DecidableEq

/-! ## The problem -/

structure GenericH2ChildAction (A : Type) where
  action : A
  reward : ℚ
  failureProbability : ℚ
  reward_nonneg : 0 ≤ reward
  failure_mem : 0 ≤ failureProbability ∧ failureProbability ≤ 1

structure GenericH2ChildBranch (K A : Type) [LinearOrder A] where
  stateKey : K
  probability : ℚ
  actions : List (GenericH2ChildAction A)
  probability_mem : 0 < probability ∧ probability ≤ 1
  nonempty : actions ≠ []
  sorted : (actions.map (·.action)).Pairwise (· < ·)

structure GenericH2RootAction (K A : Type) [LinearOrder K] [LinearOrder A] where
  action : A
  reward : ℚ
  immediateFailureProbability : ℚ
  childBranches : List (GenericH2ChildBranch K A)
  reward_nonneg : 0 ≤ reward
  failure_mem : 0 ≤ immediateFailureProbability ∧ immediateFailureProbability ≤ 1
  sorted : (childBranches.map (·.stateKey)).Pairwise (· < ·)
  normalized : immediateFailureProbability + (childBranches.map (·.probability)).sum = 1

abbrev ChildActions (K A : Type) := List (K ×ₗ A)

structure GenericH2FrontierPoint (K A : Type) where
  expectedReward : ℚ
  failureProbability : ℚ
  childActions : ChildActions K A
  deriving DecidableEq

structure GenericH2DeterministicPolicy (K A : Type) where
  rootAction : A
  childActions : ChildActions K A
  expectedReward : ℚ
  failureProbability : ℚ
  deriving DecidableEq

variable [LinearOrder K] [LinearOrder A]

/-- The checks of `GenericH2DeterministicPolicyV1.__post_init__`. -/
def GenericH2DeterministicPolicy.make (rootAction : A) (childActions : ChildActions K A)
    (expectedReward failureProbability : ℚ) :
    Except EvaluationError (GenericH2DeterministicPolicy K A) := do
  require (childActions.Pairwise (· < ·) ∧ 0 ≤ expectedReward ∧ 0 ≤ failureProbability ∧
      failureProbability ≤ 1)
    (.groundViolation "generic H=2 deterministic policy is malformed")
  return ⟨rootAction, childActions, expectedReward, failureProbability⟩

/-! ## Pruning -/

section

/-- For equal values, the point of the smaller key. -/
def uniqueByValue (points : List (GenericH2FrontierPoint K A)) :
    List (GenericH2FrontierPoint K A) :=
  keepUniqueBy (fun point => (point.expectedReward, point.failureProbability))
    (fun point current => point.childActions < current.childActions) points

omit [LinearOrder K] [LinearOrder A] in
/-- The challenger is at least as good in both values and better in one. -/
def GenericH2FrontierPoint.DominatedBy (candidate challenger : GenericH2FrontierPoint K A) : Prop :=
  challenger.failureProbability ≤ candidate.failureProbability ∧
    candidate.expectedReward ≤ challenger.expectedReward ∧
    (challenger.failureProbability < candidate.failureProbability ∨
      candidate.expectedReward < challenger.expectedReward)

instance (candidate challenger : GenericH2FrontierPoint K A) :
    Decidable (candidate.DominatedBy challenger) :=
  inferInstanceAs (Decidable (_ ∧ _ ∧ _))

def comparisonsOf (unique : List (GenericH2FrontierPoint K A))
    (candidate : GenericH2FrontierPoint K A) : ℕ :=
  let challengers := unique.filter (· ≠ candidate)
  (challengers.takeWhile fun challenger => ¬ candidate.DominatedBy challenger).length +
    if ∃ challenger ∈ challengers, candidate.DominatedBy challenger then 1 else 0

/-- The points that no other point dominates, in order, and the comparisons made. -/
def pruneGenericH2Frontier (points : List (GenericH2FrontierPoint K A)) :
    List (GenericH2FrontierPoint K A) × ℕ :=
  let unique := uniqueByValue points
  (sortBy (fun point => (toLex (point.failureProbability, toLex (-point.expectedReward,
        point.childActions)) : ℚ ×ₗ ℚ ×ₗ ChildActions K A))
      (unique.filter fun candidate => ∀ challenger ∈ unique, ¬ candidate.DominatedBy challenger),
    (unique.map (comparisonsOf unique)).sum)

end

/-! ## The search -/

/-- A frontier with the work counted so far. -/
structure CoreSearch (K A : Type) where
  frontier : List (GenericH2FrontierPoint K A)
  candidateExtensions : ℕ
  dominanceComparisons : ℕ
  frontierPointsRetained : ℕ

def extendPoint (point : GenericH2FrontierPoint K A) (branch : GenericH2ChildBranch K A)
    (child : GenericH2ChildAction A) : GenericH2FrontierPoint K A where
  expectedReward := point.expectedReward + branch.probability * child.reward
  failureProbability := point.failureProbability + branch.probability * child.failureProbability
  childActions := sortBy id (point.childActions ++ [toLex (branch.stateKey, child.action)])

def extendBranch (search : CoreSearch K A) (branch : GenericH2ChildBranch K A) : CoreSearch K A :=
  let candidates := stageCandidates GenericH2ChildBranch.actions extendPoint search.frontier branch
  let pruned := pruneGenericH2Frontier candidates
  ⟨pruned.1, search.candidateExtensions + candidates.length,
    search.dominanceComparisons + pruned.2, search.frontierPointsRetained + pruned.1.length⟩

def rootPoint (root : GenericH2RootAction K A) : GenericH2FrontierPoint K A :=
  ⟨root.reward, root.immediateFailureProbability, []⟩

def searchRoot (root : GenericH2RootAction K A) : CoreSearch K A :=
  root.childBranches.foldl extendBranch ⟨[rootPoint root], 0, 0, 0⟩

def policyKey (policy : GenericH2DeterministicPolicy K A) : ℚ ×ₗ ℚ ×ₗ A ×ₗ ChildActions K A :=
  toLex (policy.failureProbability, toLex (-policy.expectedReward,
    toLex (policy.rootAction, policy.childActions)))

def optimalPolicy (policies : List (GenericH2DeterministicPolicy K A)) (riskTolerance : ℚ) :
    Option (GenericH2DeterministicPolicy K A) :=
  (policies.filter fun policy => policy.failureProbability ≤ riskTolerance).argmin fun policy =>
    (toLex (-policy.expectedReward, toLex (policy.failureProbability,
      toLex (policy.rootAction, policy.childActions))) : ℚ ×ₗ ℚ ×ₗ A ×ₗ ChildActions K A)

structure GenericH2DeterministicCoreResult (K A : Type) where
  policies : List (GenericH2DeterministicPolicy K A)
  optimalPolicy : Option (GenericH2DeterministicPolicy K A)
  riskTolerance : ℚ
  candidateExtensions : ℕ
  dominanceComparisons : ℕ
  frontierPointsRetained : ℕ

/-- The checks of `GenericH2DeterministicCoreResultV1.__post_init__`. -/
def GenericH2DeterministicCoreResult.check (result : GenericH2DeterministicCoreResult K A) :
    Except EvaluationError Unit := do
  require (result.policies ≠ [] ∧ 0 ≤ result.riskTolerance ∧ result.riskTolerance ≤ 1 ∧
      0 < result.candidateExtensions ∧ 0 < result.frontierPointsRetained)
    (.groundViolation "generic H=2 deterministic core result is malformed")
  require (result.optimalPolicy = ExactGround.optimalPolicy result.policies result.riskTolerance)
    (.groundViolation "generic H=2 deterministic optimum is stale")

end Acfqp.ExactGround
