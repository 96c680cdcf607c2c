import Acfqp.Library.Explore
import Acfqp.Library.Pareto
import Acfqp.Planning.Common
import Acfqp.Planning.Policy

/-!
# Exact ground planning under a chance constraint

The oracle jointly chooses one action for every state carrying probability at the current
stage and recurses on the exact successor occupancy distribution, so that stochastic paths that
merge share their decisions. A brute-force policy enumerator and an exact policy evaluator
remain available for cross-checks.
-/

namespace Acfqp.Planning

open Library

variable {S A : Type}

structure PolicyEvaluation where
  expectedReward : ℚ
  failureProbability : ℚ
  deriving DecidableEq, Repr

structure ParetoPoint (S A : Type) where
  expectedReward : ℚ
  failureProbability : ℚ
  policy : FiniteHorizonPolicy S A

structure GroundParetoResult (S A : Type) where
  frontier : List (ParetoPoint S A)
  selected : Option (ParetoPoint S A)
  composedCandidateCount : ℕ

/-! ## Reachable pairs and policies -/

section

variable [DecidableEq S] [PyRepr S] [PyRepr A]

def expandDecision (kernel : Kernel S A) (goal : String) (remaining : ℕ) (state : S) :
    Except PyError (Option Unit × List S) :=
  if remaining = 0 ∨ isStopped kernel state goal then .ok (none, [])
  else do
    let actions := deterministicOrder (← kernel.actions state)
    if actions = [] then return (none, [])
    else if remaining = 1 then return (some (), [])
    else
      let successors ← actions.mapM fun action => do
        let outcomes ← iterOutcomes kernel state action
        return (outcomes.filter fun o => !outcomeStopped kernel goal o).map Outcome.nextState
      return (some (), successors.flatten)

def reachableDecisionPairs (kernel : Kernel S A) (query : QuerySpec S) :
    Except PyError (List (ℕ × S)) := do
  let horizon ← queryHorizon kernel query
  let initial ← queryInitialDistribution kernel query
  let pending := (initial.filter fun p => 0 < p.1).map Prod.snd
  let trail ← exploreAll (expandDecision kernel query.goal) horizon pending
  return sortBy (fun p : ℕ × S => (toLex (-(p.1 : ℤ), pyRepr p.2) : ℤ ×ₗ String))
    (trail.records.map Prod.fst)

def enumerateDeterministicPolicies (kernel : Kernel S A) (query : QuerySpec S) :
    Except PyError (List (FiniteHorizonPolicy S A)) := do
  let decisionPairs ← reachableDecisionPairs kernel query
  let actionSets ← decisionPairs.mapM fun p => deterministicOrder <$> kernel.actions p.2
  if ∃ actions ∈ actionSets, actions = [] then return []
  else if decisionPairs = [] then return [.empty]
  else
    (cartesian actionSets).mapM fun actions =>
      FiniteHorizonPolicy.fromMapping (decisionPairs.zip actions)

end

section Evaluation

variable [DecidableEq S] [PyRepr S] [DecidableEq A] [PyRepr A]

/-- One stage of `evaluate_state`, given the evaluation of the next stage. -/
def evaluateStage {m : Type → Type} [Monad m] [MonadLiftT (Except PyError) m]
    (kernel : Kernel S A) (goal : String) (weights : Features)
    (policy : FiniteHorizonPolicy S A) (remaining : ℕ) (continuation : S → m PolicyEvaluation)
    (state : S) : m PolicyEvaluation :=
  if isStopped kernel state goal then pure ⟨0, 0⟩
  else do
    let actions ← kernel.actions state
    if actions = [] then pure ⟨0, 0⟩
    else do
      let action ← policy.action state remaining
      let _ ← require (action ∈ actions) (PyError.valueError
        s!"policy chose unavailable action {pyRepr action} at state {pyRepr state}")
      let outcomes ← iterOutcomes kernel state action
      let branches ← outcomes.mapM fun outcome =>
        if outcomeStopped kernel goal outcome then
          pure (outcome.probability * outcomeReward outcome weights,
            outcome.probability * failureCost outcome)
        else do
          let value ← continuation outcome.nextState
          pure (outcome.probability * (outcomeReward outcome weights + value.expectedReward),
            outcome.probability * value.failureProbability)
      pure ⟨(branches.map Prod.fst).sum, (branches.map Prod.snd).sum⟩

/-- `evaluate_state`, with its memo table. -/
def evaluateState (kernel : Kernel S A) (goal : String) (weights : Features)
    (policy : FiniteHorizonPolicy S A) :
    ℕ → S → StateT (List ((ℕ × S) × PolicyEvaluation) × Unit) (Except PyError) PolicyEvaluation
  | 0, state => memoize (0, state) (pure ⟨0, 0⟩)
  | n + 1, state => memoize (n + 1, state) (evaluateStage kernel goal weights policy (n + 1)
      (evaluateState kernel goal weights policy n) state)

def evaluateGroundPolicy (kernel : Kernel S A) (query : QuerySpec S)
    (policy : FiniteHorizonPolicy S A) : Except PyError PolicyEvaluation := do
  validateQuery kernel query
  let weights := rewardWeights query
  let horizon ← queryHorizon kernel query
  let initial ← queryInitialDistribution kernel query
  let values ← (initial.mapM fun p : ℚ × S => do
    let value ← evaluateState kernel query.goal weights policy horizon p.2
    pure (p.1 * value.expectedReward, p.1 * value.failureProbability)).run' ([], ())
  return ⟨(values.map Prod.fst).sum, (values.map Prod.snd).sum⟩

end Evaluation

/-! ## Pareto points -/

section

/-- `other` is at least as good in both coordinates and better in one. -/
def ParetoPoint.dominatedBy (point other : ParetoPoint S A) : Prop :=
  other.expectedReward ≥ point.expectedReward ∧
    other.failureProbability ≤ point.failureProbability ∧
    (other.expectedReward > point.expectedReward ∨
      other.failureProbability < point.failureProbability)

instance (point other : ParetoPoint S A) : Decidable (point.dominatedBy other) :=
  inferInstanceAs (Decidable (_ ∧ _ ∧ _))

variable [PyRepr S] [PyRepr A]

/-- Keep, for equal coordinates, the point of the smaller policy signature. -/
def keepUnique (unique : List ((ℚ × ℚ) × ParetoPoint S A)) (point : ParetoPoint S A) :
    List ((ℚ × ℚ) × ParetoPoint S A) :=
  let key := (point.expectedReward, point.failureProbability)
  match unique.lookup key with
  | none => Dict.assign key point unique
  | some incumbent =>
    if point.policy.signature < incumbent.policy.signature then Dict.assign key point unique
    else unique

def paretoPrune (points : List (ParetoPoint S A)) : List (ParetoPoint S A) :=
  let candidates := (points.foldl keepUnique []).map Prod.snd
  sortBy (fun point => (toLex (point.failureProbability,
      toLex (-point.expectedReward, point.policy.signature)) :
      ℚ ×ₗ ℚ ×ₗ List (ℕ ×ₗ String ×ₗ String)))
    (candidates.filter fun point => ∀ other ∈ candidates, ¬ point.dominatedBy other)

def selectConstrained (frontier : List (ParetoPoint S A)) (delta : ℚ) :
    Option (ParetoPoint S A) :=
  (frontier.filter fun point => point.failureProbability ≤ delta).argmin fun point =>
    (toLex (-point.expectedReward, toLex (point.failureProbability, point.policy.signature)) :
      ℚ ×ₗ ℚ ×ₗ List (ℕ ×ₗ String ×ₗ String))

end

/-! ## The occupancy recursion -/

/-- A sub-probability distribution over active states. -/
abbrev Distribution (S : Type) := List (S × ℚ)

/-- The decisions that a solution must take, as a dictionary. -/
structure Requirements (S A : Type) where
  entries : List ((ℕ × S) × A)
  nodup : (entries.map Prod.fst).Nodup

def Requirements.none : Requirements S A := ⟨[], by simp⟩

section Solver

variable [DecidableEq S] [PyRepr S] [DecidableEq A] [PyRepr A]

def canonicalDistribution (masses : Distribution S) : Distribution S :=
  sortBy (fun e => pyRepr e.1) (masses.filter fun e => 0 < e.2)

def decisionChoices (kernel : Kernel S A) (goal : String) (requirements : Requirements S A)
    (remaining : ℕ) (distribution : Distribution S) :
    Except PyError (List ((S × ℚ) × List A)) := do
  let choices ← (distribution.filter fun e =>
      ¬ (e.2 ≤ 0 ∨ isStopped kernel e.1 goal = true)).mapM fun e => do
    let actions := deterministicOrder (← kernel.actions e.1)
    return (e, ((requirements.entries.lookup (remaining, e.1)).map fun a => [a]).getD actions)
  return choices.filter fun c => c.2 ≠ []

def immediateValue (weights : Features) (mass : ℚ) (outcomes : List (Outcome S)) : ℚ × ℚ :=
  ((outcomes.map fun o => mass * o.probability * outcomeReward o weights).sum,
    (outcomes.map fun o => mass * o.probability * failureCost o).sum)

def successorEvents (kernel : Kernel S A) (goal : String) (mass : ℚ)
    (outcomes : List (Outcome S)) : List (S × ℚ) :=
  (outcomes.filter fun o => !outcomeStopped kernel goal o).map fun o =>
    (o.nextState, mass * o.probability)

def mergeDecisions (current mapping : List ((ℕ × S) × A)) : Option (List ((ℕ × S) × A)) :=
  current.foldlM (fun mapping d =>
    match mapping.lookup d.1 with
    | some incumbent => if incumbent ≠ d.2 then none else some (Dict.assign d.1 d.2 mapping)
    | none => some (Dict.assign d.1 d.2 mapping)) mapping

def zeroPoint : ParetoPoint S A := ⟨0, 0, .empty⟩

def composeStage (kernel : Kernel S A) (goal : String) (weights : Features)
    (chosen : List ((S × ℚ) × A)) : Except PyError ((ℚ × ℚ) × Distribution S) := do
  let steps ← chosen.mapM fun c => do
    let outcomes ← iterOutcomes kernel c.1.1 c.2
    return (immediateValue weights c.1.2 outcomes, successorEvents kernel goal c.1.2 outcomes)
  return (((steps.map fun s => s.1.1).sum, (steps.map fun s => s.1.2).sum),
    tally (steps.flatMap Prod.snd))

def combinePoint (immediate : ℚ × ℚ) (current : List ((ℕ × S) × A)) (point : ParetoPoint S A) :
    Except PyError (Option (ParetoPoint S A)) :=
  match mergeDecisions current point.policy.asDict with
  | none => return none
  | some mapping => do
    let policy ← FiniteHorizonPolicy.fromMapping mapping
    return some ⟨immediate.1 + point.expectedReward, immediate.2 + point.failureProbability, policy⟩

variable {m : Type → Type} [Monad m] [MonadLiftT (Except PyError) m]

def extendFrontier (tick : m Unit) (kernel : Kernel S A) (weights : Features)
    (partialFrontier : List (ParetoPoint S A)) (choice : (S × ℚ) × List A) :
    m (List (ParetoPoint S A)) := do
  let extended ← partialFrontier.mapM fun point => choice.2.mapM fun action => do
    tick
    let outcomes ← iterOutcomes kernel choice.1.1 action
    let immediate := immediateValue weights choice.1.2 outcomes
    let policy ← FiniteHorizonPolicy.fromMapping
      (Dict.assign (1, choice.1.1) action point.policy.asDict)
    pure (⟨point.expectedReward + immediate.1, point.failureProbability + immediate.2,
      policy⟩ : ParetoPoint S A)
  pure (paretoPrune extended.flatten)

def finalStage (tick : m Unit) (kernel : Kernel S A) (weights : Features)
    (choices : List ((S × ℚ) × List A)) : m (List (ParetoPoint S A)) :=
  choices.foldlM (extendFrontier tick kernel weights) [zeroPoint]

def jointCandidates (tick : m Unit) (kernel : Kernel S A) (goal : String) (weights : Features)
    (remaining : ℕ) (continuation : Distribution S → m (List (ParetoPoint S A)))
    (chosen : List ((S × ℚ) × A)) : m (List (ParetoPoint S A)) := do
  let (immediate, successorMass) ← composeStage kernel goal weights chosen
  let currentDecisions := chosen.map fun c => ((remaining, c.1.1), c.2)
  let continuationFrontier ← continuation (canonicalDistribution successorMass)
  let points ← continuationFrontier.mapM fun point => do
    tick
    combinePoint immediate currentDecisions point
  pure (points.filterMap id)

def jointStage (tick : m Unit) (kernel : Kernel S A) (goal : String) (weights : Features)
    (remaining : ℕ) (continuation : Distribution S → m (List (ParetoPoint S A)))
    (choices : List ((S × ℚ) × List A)) : m (List (ParetoPoint S A)) := do
  let candidates ← (cartesian (choices.map Prod.snd)).mapM fun chosenActions =>
    jointCandidates tick kernel goal weights remaining continuation
      ((choices.map Prod.fst).zip chosenActions)
  pure (paretoPrune candidates.flatten)

/-- One stage of `occupancy_frontier`, given the frontier of the next stage. -/
def occupancyStage (tick : m Unit) (kernel : Kernel S A) (goal : String) (weights : Features)
    (requirements : Requirements S A) (remaining : ℕ)
    (continuation : Distribution S → m (List (ParetoPoint S A)))
    (distribution : Distribution S) : m (List (ParetoPoint S A)) := do
  if distribution = [] then pure [zeroPoint]
  else
    let choices ← decisionChoices kernel goal requirements remaining distribution
    if choices = [] then pure [zeroPoint]
    else if remaining = 1 then finalStage tick kernel weights choices
    else jointStage tick kernel goal weights remaining continuation choices

/-- `occupancy_frontier`, with its memo table and the counter of composed candidates. -/
def occupancyFrontier (kernel : Kernel S A) (goal : String) (weights : Features)
    (requirements : Requirements S A) :
    ℕ → Distribution S →
      StateT (List ((ℕ × Distribution S) × List (ParetoPoint S A)) × ℕ) (Except PyError)
        (List (ParetoPoint S A))
  | 0, distribution => memoize (0, distribution) (pure [zeroPoint])
  | n + 1, distribution => memoize (n + 1, distribution)
      (occupancyStage (modify fun s => (s.1, s.2 + 1)) kernel goal weights requirements (n + 1)
        (occupancyFrontier kernel goal weights requirements n) distribution)

def validateRequirements (kernel : Kernel S A) (query : QuerySpec S) (horizon : ℕ)
    (requirements : Requirements S A) : Except PyError Unit := do
  if requirements.entries = [] then return ()
  else
    let reachablePairs ← reachableDecisionPairs kernel query
    requirements.entries.forM fun entry => do
      require (0 < entry.1.1 ∧ entry.1.1 ≤ horizon)
        (.valueError s!"required decision remaining horizon {entry.1.1} lies outside [1, {
          horizon}]")
      require (reachablePairs.contains entry.1 = true)
        (.valueError s!"required decision {
          pyRepr entry.1} is not reachable under any ground action")
      let actions ← kernel.actions entry.1.2
      require (entry.2 ∈ actions)
        (.valueError s!"required action {pyRepr entry.2} is unavailable at state {
          pyRepr entry.1.2}")

def solveGroundPareto (kernel : Kernel S A) (query : QuerySpec S)
    (requirements : Requirements S A) : Except PyError (GroundParetoResult S A) := do
  validateQuery kernel query
  let weights := rewardWeights query
  let horizon ← queryHorizon kernel query
  validateRequirements kernel query horizon requirements
  let initial ← queryInitialDistribution kernel query
  let initialMass := tally (initial.map fun p => (p.2, p.1))
  let (frontier, _, composed) ← occupancyFrontier kernel query.goal weights requirements horizon
    (canonicalDistribution initialMass) ([], 0)
  return ⟨frontier, selectConstrained frontier query.delta, composed⟩

end Solver

end Acfqp.Planning
