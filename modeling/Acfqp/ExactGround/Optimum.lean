import Acfqp.ExactGround.Core

/-!
# The core is exact

Pruning loses no value, so that the optimal policy of the core is the best of all deterministic
policies that meet the risk tolerance: one root action, and any child action in each branch.
-/

namespace Acfqp.ExactGround

open Library

variable {K A : Type} [LinearOrder K] [LinearOrder A]

/-! ## Values -/

omit [LinearOrder K] [LinearOrder A] in
/-- The value of a point: more reward and less failure are better. -/
def GenericH2FrontierPoint.worth (point : GenericH2FrontierPoint K A) : ℚ × ℚᵒᵈ :=
  (point.expectedReward, OrderDual.toDual point.failureProbability)

omit [LinearOrder K] [LinearOrder A] in
theorem dominatedBy_iff {candidate challenger : GenericH2FrontierPoint K A} :
    candidate.DominatedBy challenger ↔ candidate.worth < challenger.worth := by
  simp only [GenericH2FrontierPoint.DominatedBy, GenericH2FrontierPoint.worth, Prod.lt_iff,
    OrderDual.toDual_le_toDual, OrderDual.toDual_lt_toDual]
  constructor
  · rintro ⟨hfailure, hreward, hlt | hlt⟩
    · exact .inr ⟨hreward, hlt⟩
    · exact .inl ⟨hlt, hfailure⟩
  · rintro (⟨hlt, hle⟩ | ⟨hle, hlt⟩)
    · exact ⟨hle, hlt.le, .inr hlt⟩
    · exact ⟨hlt.le, hle, .inl hlt⟩

/-- One action in each branch. -/
abbrev ChildPicks (K A : Type) [LinearOrder A] :=
  List (GenericH2ChildBranch K A × GenericH2ChildAction A)

/-- The picks decide every branch of the root action. -/
def Decided (root : GenericH2RootAction K A) (picks : ChildPicks K A) : Prop :=
  Picks GenericH2ChildBranch.actions root.childBranches picks

def picksReward (root : GenericH2RootAction K A) (picks : ChildPicks K A) : ℚ :=
  root.reward + (picks.map fun c => c.1.probability * c.2.reward).sum

def picksFailure (root : GenericH2RootAction K A) (picks : ChildPicks K A) : ℚ :=
  root.immediateFailureProbability +
    (picks.map fun c => c.1.probability * c.2.failureProbability).sum

def pickKeys (picks : ChildPicks K A) : ChildActions K A :=
  picks.map fun c => toLex (c.1.stateKey, c.2.action)

section Points

variable {root : GenericH2RootAction K A} {picks : ChildPicks K A}

theorem worth_extendPoint (point : GenericH2FrontierPoint K A) (branch : GenericH2ChildBranch K A)
    (child : GenericH2ChildAction A) : (extendPoint point branch child).worth = point.worth +
      (branch.probability * child.reward,
        OrderDual.toDual (branch.probability * child.failureProbability)) := rfl

end Points

section Optimum

variable {roots : List (GenericH2RootAction K A)} {riskTolerance : ℚ}

/-- The policy is the values of one root action and of one action in each branch. -/
structure Decides (roots : List (GenericH2RootAction K A))
    (policy : GenericH2DeterministicPolicy K A) (root : GenericH2RootAction K A)
    (picks : ChildPicks K A) : Prop where
  root_mem : root ∈ roots
  decided : Decided root picks
  action : policy.rootAction = root.action
  childActions : policy.childActions.Perm (pickKeys picks)
  sorted : policy.childActions.Pairwise (· < ·)
  reward : policy.expectedReward = picksReward root picks
  failure : policy.failureProbability = picksFailure root picks

end Optimum

end Acfqp.ExactGround
