import Acfqp.Core

/-!
# Exact arithmetic and kernel helpers shared by planning code
-/

namespace Acfqp.Planning

open Library

variable {S A : Type}

/-- Query coefficients on the normalized-return scale. -/
def rewardWeights (query : QuerySpec S) : Features :=
  query.rewardWeights.map fun w => (w.1, w.2 / query.normalizer)

/-- The coefficient of a feature, zero when the query does not weigh it. -/
def weightOf (weights : Features) (name : String) : ℚ := (weights.lookup name).getD 0

def weigh (weights features : Features) : ℚ :=
  (features.map fun f => weightOf weights f.1 * f.2).sum

def outcomeReward (outcome : Outcome S) (weights : Features) : ℚ :=
  weigh weights outcome.rewardFeatures

def failureCost (outcome : Outcome S) : ℚ := if outcome.failure then 1 else 0

def queryInitialDistribution (kernel : Kernel S A) (query : QuerySpec S) :
    Except PyError (List (ℚ × S)) := do
  let distribution :=
    if query.initialDistribution.isEmpty then kernel.initialDistribution
    else query.initialDistribution
  require (distribution.isEmpty = false) (.valueError "initial distribution must not be empty")
  require (∀ p ∈ distribution, 0 ≤ p.1)
    (.valueError "initial probabilities must be non-negative")
  let total := (distribution.map Prod.fst).sum
  require (total = 1) (.valueError s!"initial probabilities must sum to one, got {pyRepr total}")
  return distribution

theorem queryInitialDistribution_eq (kernel : Kernel S A) (query : QuerySpec S) :
    queryInitialDistribution kernel query = .ok query.initialDistribution := by
  have hne : query.initialDistribution.isEmpty = false := by
    simpa using query.initial_ne_nil
  have hpos : ∀ p ∈ query.initialDistribution, 0 ≤ p.1 := fun p hp => (query.initial_pos p hp).le
  simp only [queryInitialDistribution, hne, Bool.false_eq_true, if_false, query.initial_sum,
    require, if_pos hpos, if_true]
  rfl

def queryHorizon (kernel : Kernel S A) (query : QuerySpec S) : Except PyError ℕ := do
  require (query.horizon ≤ kernel.horizon)
    (.valueError s!"query horizon {query.horizon} exceeds kernel horizon {kernel.horizon}")
  return query.horizon

theorem queryHorizon_eq_ok {kernel : Kernel S A} {query : QuerySpec S} {n : ℕ}
    (h : queryHorizon kernel query = .ok n) : n = query.horizon := by
  obtain ⟨_, _, h⟩ := bind_eq_ok.mp h
  exact (pure_eq_ok.mp h).symm

def validateQuery (kernel : Kernel S A) (query : QuerySpec S) : Except PyError Unit := do
  let horizon ← queryHorizon kernel query
  require (0 < query.normalizer) (.valueError "reward normalizer must be positive")
  if let some allowed := kernel.registeredRewardFeatures then
    let unknown := (query.rewardWeights.map Prod.fst).filter fun name => name ∉ allowed
    require (unknown.isEmpty = true)
      (.valueError s!"unregistered reward features: {pyReprList (sortBy id unknown)}")
  if let some goals := kernel.registeredGoals then
    require (query.goal ∈ goals) (.valueError s!"unregistered goal: {pyRepr query.goal}")
  if let some bounder := kernel.rewardUpperBound then
    let provedBound := bounder horizon query.rewardWeights query.goal
    require (0 ≤ provedBound) (.valueError "proved reward upper bound must be nonnegative")
    require (provedBound ≤ query.normalizer)
      (.valueError s!"reward normalizer {pyRepr query.normalizer} is below proved bound {
        pyRepr provedBound}")

theorem queryHorizon_of_valid {kernel : Kernel S A} {query : QuerySpec S}
    (h : validateQuery kernel query = .ok ()) :
    queryHorizon kernel query = .ok query.horizon := by
  obtain ⟨n, hn, -⟩ := bind_eq_ok.mp h
  rw [hn, queryHorizon_eq_ok hn]

/-- The outcomes of one action, checked to be an exact distribution. -/
def iterOutcomes [PyRepr S] [PyRepr A] (kernel : Kernel S A) (state : S) (action : A) :
    Except PyError (List (Outcome S)) := do
  let outcomes ← kernel.step state action
  require (outcomes.isEmpty = false)
    (.valueError s!"action {pyRepr action} at state {pyRepr state} has no outcomes")
  require (∀ o ∈ outcomes, 0 ≤ o.probability)
    (.valueError "outcome probabilities must be non-negative")
  let total := (outcomes.map Outcome.probability).sum
  require (total = 1)
    (.valueError s!"outcome probabilities for state={pyRepr state}, action={
      pyRepr action} must sum to one, got {pyRepr total}")
  return outcomes

theorem iterOutcomes_eq_ok [PyRepr S] [PyRepr A] {kernel : Kernel S A} {state : S} {action : A}
    {outcomes : List (Outcome S)} :
    iterOutcomes kernel state action = .ok outcomes ↔
      kernel.step state action = .ok outcomes ∧
        (outcomes.map Outcome.probability).sum = 1 := by
  constructor
  · intro h
    obtain ⟨os, hstep, h⟩ := bind_eq_ok.mp h
    obtain ⟨_, -, h⟩ := bind_eq_ok.mp h
    obtain ⟨_, -, h⟩ := bind_eq_ok.mp h
    obtain ⟨_, hsum, h⟩ := bind_eq_ok.mp h
    rw [← pure_eq_ok.mp h]
    exact ⟨hstep, require_eq_ok.mp hsum⟩
  · rintro ⟨hstep, hsum⟩
    have hne : outcomes.isEmpty = false := by
      cases outcomes with
      | nil => simp at hsum
      | cons => rfl
    refine bind_eq_ok.mpr ⟨outcomes, hstep, bind_eq_ok.mpr ⟨(), require_eq_ok.mpr hne, ?_⟩⟩
    refine bind_eq_ok.mpr ⟨(), require_eq_ok.mpr fun o _ => o.probability_pos.le, ?_⟩
    exact bind_eq_ok.mpr ⟨(), require_eq_ok.mpr hsum, rfl⟩

def isStopped (kernel : Kernel S A) (state : S) (goal : String) : Bool :=
  if kernel.isTerminal state then true
  else
    match kernel.isGoal with
    | some checker => checker state goal
    | none => kernel.goalReached goal state

/-- No state satisfies the goal, so that stopping is exactly terminality. -/
def GoalFree (kernel : Kernel S A) (goal : String) : Prop :=
  ∀ state, isStopped kernel state goal = kernel.isTerminal state

/-- An outcome after which no further decision is made. -/
def outcomeStopped (kernel : Kernel S A) (goal : String) (outcome : Outcome S) : Bool :=
  outcome.failure || outcome.terminal || isStopped kernel outcome.nextState goal

end Acfqp.Planning
