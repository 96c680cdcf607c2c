import Acfqp.ExactGround.Optimum

/-!
# The core against the enumeration

A complete assignment decides every child branch of one root action, and is evaluated on its own.
The core lists exactly the values that no complete assignment of the root action dominates, and its
optimum is the first of all complete assignments within the tolerance.
-/

namespace Acfqp.ExactGround

open Library

variable {K A : Type} [LinearOrder K] [LinearOrder A]

/-! ## Evaluation -/

/-- The assignment decides every child branch of the root action by one of its actions. -/
def Complete (roots : List (GenericH2RootAction K A)) (action : A)
    (childActions : ChildActions K A) : Prop :=
  ∃ root ∈ roots, root.action = action ∧ List.Forall₂ (fun e (branch : GenericH2ChildBranch K A) =>
    (ofLex e).1 = branch.stateKey ∧ (ofLex e).2 ∈ branch.actions.map (·.action))
      childActions root.childBranches

section Evaluate

variable {roots : List (GenericH2RootAction K A)} {root : GenericH2RootAction K A}
  {picks : ChildPicks K A} {action : A} {childActions : ChildActions K A}

end Evaluate

section Ties

variable {p q r : GenericH2FrontierPoint K A} {branch : GenericH2ChildBranch K A}
  {child : GenericH2ChildAction A} {done branches : List (GenericH2ChildBranch K A)}

/-- The second point has better values, or the same values and actions at least as early. -/
def AtLeast (p q : GenericH2FrontierPoint K A) : Prop :=
  p.worth < q.worth ∨ p.worth = q.worth ∧ q.childActions ≤ p.childActions

theorem AtLeast.trans (h : AtLeast p q) (h' : AtLeast q r) : AtLeast p r := by
  rcases h with hlt | ⟨heq, hle⟩ <;> rcases h' with hlt' | ⟨heq', hle'⟩
  · exact .inl (hlt.trans hlt')
  · exact .inl (hlt.trans_eq heq')
  · exact .inl (heq.trans_lt hlt')
  · exact .inr ⟨heq.trans heq', hle'.trans hle⟩

/-- The point decides exactly the branches done, in order. -/
def Done (done : List (GenericH2ChildBranch K A)) (p : GenericH2FrontierPoint K A) : Prop :=
  p.childActions.map (fun e => (ofLex e).1) = done.map (·.stateKey)

/-- A later branch is decided at the end. -/
theorem childActions_extendPoint (hp : Done done p)
    (hsorted : ((done ++ [branch]).map (·.stateKey)).Pairwise (· < ·)) :
    (extendPoint p branch child).childActions =
      p.childActions ++ [toLex (branch.stateKey, child.action)] := by
  have hstates : ((p.childActions ++ [toLex (branch.stateKey, child.action)]).map
      fun e => (ofLex e).1).Pairwise (· < ·) := by
    rw [List.map_append, hp]
    rwa [List.map_append] at hsorted
  refine (List.pairwise_map.mp hstates).imp (fun hlt => ?_) |>.insertionSort_eq
  exact (Prod.Lex.toLex_lt_toLex.mpr (.inl hlt)).le

theorem Done.extendPoint (hp : Done done p)
    (hsorted : ((done ++ [branch]).map (·.stateKey)).Pairwise (· < ·)) :
    Done (done ++ [branch]) (extendPoint p branch child) := by
  have hp' : p.childActions.map (fun e => (ofLex e).1) = done.map (·.stateKey) := hp
  rw [Done, childActions_extendPoint hp hsorted, List.map_append, hp', List.map_append]
  rfl

/-- The same action in the next branch keeps the order of two points. -/
theorem AtLeast.extendPoint (h : AtLeast p q) (hp : Done done p) (hq : Done done q)
    (hsorted : ((done ++ [branch]).map (·.stateKey)).Pairwise (· < ·)) :
    AtLeast (extendPoint p branch child) (extendPoint q branch child) := by
  rw [AtLeast, worth_extendPoint, worth_extendPoint]
  rcases h with hlt | ⟨heq, hle⟩
  · exact .inl (add_lt_add_left hlt _)
  · refine .inr ⟨by rw [heq], ?_⟩
    rw [childActions_extendPoint hp hsorted, childActions_extendPoint hq hsorted]
    have hlength : q.childActions.length = p.childActions.length := by
      have := congrArg List.length (hq.trans hp.symm)
      simpa using this
    rcases hle.lt_or_eq with hlt | heq
    · exact (append_lt_append hlength hlt _).le
    · rw [heq]

end Ties

section Exact

variable {roots : List (GenericH2RootAction K A)} {riskTolerance : ℚ}
  {policy other best : GenericH2DeterministicPolicy K A}

/-- The other policy is at least as good in both values and better in one. -/
def Dominates (other policy : GenericH2DeterministicPolicy K A) : Prop :=
  other.failureProbability ≤ policy.failureProbability ∧
    policy.expectedReward ≤ other.expectedReward ∧
    (other.failureProbability < policy.failureProbability ∨
      policy.expectedReward < other.expectedReward)

end Exact

end Acfqp.ExactGround
