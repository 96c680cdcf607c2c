import Acfqp.Library.Attempt
import Acfqp.Planning.Ground

/-!
# The capped ground fallback

The occupancy recursion of the ground planner under finite caps. Every state, action, transition and
candidate is charged to a ledger before it is used. A denied charge ends the attempt, and so does a
kernel that returns more outcomes than were reserved.
-/

namespace Acfqp.Fallback

open Library Planning

variable {S A : Type}

/-! ## The ledger -/

/-- Finite hard caps for one attempt. -/
structure GroundFallbackCapProfile where
  maxStatesExpanded : ℕ
  maxActionsEvaluated : ℕ
  maxGroundSteps : ℕ
  maxOutcomeRows : ℕ
  maxBellmanBackups : ℕ
  maxComposedCandidates : ℕ
  maxCapChecks : ℕ
  maxPositiveOutcomesPerStep : ℕ
  reservedRouteCapChecks : ℕ
  positive : ∀ cap ∈ [maxStatesExpanded, maxActionsEvaluated, maxGroundSteps, maxOutcomeRows,
    maxBellmanBackups, maxComposedCandidates, maxCapChecks, maxPositiveOutcomesPerStep], 0 < cap
  reserved_le : reservedRouteCapChecks ≤ maxCapChecks
  ground_steps_le : maxGroundSteps ≤ maxActionsEvaluated
  outcome_rows_ge : maxPositiveOutcomesPerStep ≤ maxOutcomeRows

/-- The share of the route's check cap that is left to the search. -/
def GroundFallbackCapProfile.maxSolverCapChecks (cap : GroundFallbackCapProfile) : ℕ :=
  cap.maxCapChecks - cap.reservedRouteCapChecks

structure FallbackLedger where
  statesExpanded : ℕ
  actionsEvaluated : ℕ
  groundSteps : ℕ
  outcomeRows : ℕ
  bellmanBackups : ℕ
  composedCandidates : ℕ
  capChecks : ℕ
  capRejections : ℕ
  deriving DecidableEq

def FallbackLedger.zero : FallbackLedger := ⟨0, 0, 0, 0, 0, 0, 0, 0⟩

/-- What ends a search: a denied charge, a kernel beyond its registered bound, a failed assertion,
or an exception of the kernel or the policy. -/
inductive SearchError where
  | capExhausted (capName : String)
  | protocolError (message : String)
  | assertionError (message : String)
  | raised (error : PyError)
  deriving DecidableEq

/-- The ledger and the tables of an attempt. The search does not read `ledgers`, the ledgers it went
through, and `calls`, its calls of the kernel. -/
structure SearchState (S A : Type) where
  ledger : FallbackLedger
  memo : List ((ℕ × Distribution S) × List (ParetoPoint S A))
  transitionCache : List ((S × A) × List (Outcome S))
  evaluatedStateActions : List (ℕ × S × A)
  expandedStateTimes : List (ℕ × S)
  ledgers : List FallbackLedger
  calls : List (S × A)

def SearchState.start : SearchState S A := ⟨.zero, [], [], [], [], [.zero], []⟩

abbrev Search (S A : Type) : Type → Type := Attempt (SearchState S A) SearchError

/-- An exception that no charge raises. -/
instance : MonadLift (Except PyError) (Search S A) where
  monadLift
    | .ok a => pure a
    | .error e => throw (.raised e)

def SearchState.charge (f : FallbackLedger → FallbackLedger) (s : SearchState S A) :
    SearchState S A :=
  { s with ledger := f s.ledger, ledgers := s.ledgers ++ [f s.ledger] }

section Ledger

variable (cap : GroundFallbackCapProfile)

def reject (capName : String) : Search S A Unit := do
  modify (SearchState.charge fun ledger => { ledger with capRejections := 1 })
  throw (.capExhausted capName)

/-- Charge one check, and compare every proposed count with its cap. -/
def guard (checks : FallbackLedger → List (String × ℕ × ℕ)) : Search S A Unit := do
  let s ← get
  if cap.maxSolverCapChecks ≤ s.ledger.capChecks then reject "max_cap_checks"
  modify (SearchState.charge fun ledger => { ledger with capChecks := ledger.capChecks + 1 })
  match (checks s.ledger).find? fun check => check.2.2 < check.2.1 with
  | some check => reject check.1
  | none => pure ()

def expandState : Search S A Unit := do
  guard cap fun ledger => [("max_states_expanded", ledger.statesExpanded + 1,
    cap.maxStatesExpanded)]
  modify (SearchState.charge fun ledger =>
    { ledger with statesExpanded := ledger.statesExpanded + 1 })

def evaluateAction : Search S A Unit := do
  guard cap fun ledger => [("max_actions_evaluated", ledger.actionsEvaluated + 1,
    cap.maxActionsEvaluated)]
  modify (SearchState.charge fun ledger =>
    { ledger with actionsEvaluated := ledger.actionsEvaluated + 1 })

/-- A step, and every outcome that it may return. -/
def reservation (ledger : FallbackLedger) : List (String × ℕ × ℕ) :=
  [("max_ground_steps", ledger.groundSteps + 1, cap.maxGroundSteps),
    ("max_outcome_rows", ledger.outcomeRows + cap.maxPositiveOutcomesPerStep, cap.maxOutcomeRows)]

def reserveTransition : Search S A Unit := do
  guard cap (reservation cap)
  modify (SearchState.charge fun ledger => { ledger with groundSteps := ledger.groundSteps + 1 })

/-- Charge the outcomes of a step, also where they are more than were reserved. -/
def recordOutcomes (count : ℕ) : Search S A Unit := do
  if count = 0 then
    throw (.protocolError "ground fallback kernel returned no positive-probability outcome")
  modify (SearchState.charge fun ledger =>
    { ledger with outcomeRows := ledger.outcomeRows + count })
  if cap.maxPositiveOutcomesPerStep < count then
    throw (.protocolError "kernel outcome count exceeded max_positive_outcomes_per_step")
  let s ← get
  if cap.maxOutcomeRows < s.ledger.outcomeRows then
    throw (.assertionError "pre-reserved outcome cap was violated")

/-- A candidate is charged as a Bellman backup too. -/
def composeCandidate : Search S A Unit := do
  guard cap fun ledger => [("max_composed_candidates", ledger.composedCandidates + 1,
    cap.maxComposedCandidates), ("max_bellman_backups", ledger.bellmanBackups + 1,
    cap.maxBellmanBackups)]
  modify (SearchState.charge fun ledger => { ledger with
    composedCandidates := ledger.composedCandidates + 1
    bellmanBackups := ledger.bellmanBackups + 1 })

end Ledger

/-! ## The recursion -/

/-- What the recursion charges and looks up. -/
structure SearchOps (m : Type → Type) (S A : Type) where
  expandOnce : ℕ → S → m Unit
  composeCandidate : m Unit
  outcomesFor : S → A → ℕ → m (List (Outcome S))
  remember : ℕ × Distribution S → m (List (ParetoPoint S A)) → m (List (ParetoPoint S A))

section Recursion

variable [DecidableEq S] [PyRepr S] [DecidableEq A] [PyRepr A]
variable {m : Type → Type} [Monad m] [MonadLiftT (Except PyError) m] (ops : SearchOps m S A)
variable (kernel : Kernel S A) (goal : String) (weights : Features)

def decisionSets (remaining : ℕ) (distribution : Distribution S) :
    m (List ((S × ℚ) × List A)) := do
  let sets ← (distribution.filter fun e =>
      ¬ (e.2 ≤ 0 ∨ isStopped kernel e.1 goal = true)).mapM fun e => do
    ops.expandOnce remaining e.1
    let actions ← kernel.actions e.1
    pure (e, deterministicOrder actions)
  pure (sets.filter fun set => set.2 ≠ [])

/-- The last stage extends the partial frontier by one state at a time. -/
def extendPartial (partialFrontier : List (ParetoPoint S A)) (set : (S × ℚ) × List A) :
    m (List (ParetoPoint S A)) := do
  let extended ← partialFrontier.mapM fun point => set.2.mapM fun action => do
    ops.composeCandidate
    let outcomes ← ops.outcomesFor set.1.1 action 1
    let immediate := immediateValue weights set.1.2 outcomes
    let policy ← FiniteHorizonPolicy.fromMapping
      (Dict.assign (1, set.1.1) action point.policy.asDict)
    pure (⟨point.expectedReward + immediate.1, point.failureProbability + immediate.2,
      policy⟩ : ParetoPoint S A)
  pure (paretoPrune extended.flatten)

def chosenCandidates (remaining : ℕ)
    (continuation : Distribution S → m (List (ParetoPoint S A))) (chosen : List ((S × ℚ) × A)) :
    m (List (ParetoPoint S A)) := do
  ops.composeCandidate
  let steps ← chosen.mapM fun c => do
    let outcomes ← ops.outcomesFor c.1.1 c.2 remaining
    pure (immediateValue weights c.1.2 outcomes, successorEvents kernel goal c.1.2 outcomes)
  let immediate := ((steps.map fun s => s.1.1).sum, (steps.map fun s => s.1.2).sum)
  let successorMass := tally (steps.flatMap Prod.snd)
  let continuationFrontier ← continuation (canonicalDistribution successorMass)
  let points ← continuationFrontier.mapM fun point => do
    ops.composeCandidate
    combinePoint immediate (chosen.map fun c => ((remaining, c.1.1), c.2)) point
  pure (points.filterMap id)

/-- One stage of `occupancy_frontier`, given the frontier of the next stage. -/
def frontierStage (remaining : ℕ) (continuation : Distribution S → m (List (ParetoPoint S A)))
    (distribution : Distribution S) : m (List (ParetoPoint S A)) := do
  if distribution = [] then pure [zeroPoint]
  else
    let sets ← decisionSets ops kernel goal remaining distribution
    if sets = [] then pure [zeroPoint]
    else if remaining = 1 then sets.foldlM (extendPartial ops weights) [zeroPoint]
    else
      let candidates ← (cartesian (sets.map Prod.snd)).mapM fun chosenActions =>
        chosenCandidates ops kernel goal weights remaining continuation
          ((sets.map Prod.fst).zip chosenActions)
      pure (paretoPrune candidates.flatten)

/-- `occupancy_frontier`. -/
def occupancyFrontier : ℕ → Distribution S → m (List (ParetoPoint S A))
  | 0, distribution => ops.remember (0, distribution) (pure [zeroPoint])
  | n + 1, distribution => ops.remember (n + 1, distribution)
      (frontierStage ops kernel goal weights (n + 1) (occupancyFrontier n) distribution)

end Recursion

section Attempt

variable [DecidableEq S] [PyRepr S] [DecidableEq A] [PyRepr A]
variable (cap : GroundFallbackCapProfile) (kernel : Kernel S A)

/-- `iter_outcomes`, and the call of the kernel that it makes. -/
def callKernel (state : S) (action : A) : Search S A (List (Outcome S)) := do
  modify fun s => { s with calls := s.calls ++ [(state, action)] }
  iterOutcomes kernel state action

def transition (state : S) (action : A) : Search S A (List (Outcome S)) := do
  reserveTransition cap
  let outcomes ← callKernel kernel state action
  recordOutcomes cap outcomes.length
  modify fun s =>
    { s with transitionCache := Dict.assign (state, action) outcomes s.transitionCache }
  pure outcomes

def evaluateOnce (state : S) (action : A) (remaining : ℕ) : Search S A Unit := do
  let s ← get
  if (remaining, state, action) ∉ s.evaluatedStateActions then
    evaluateAction cap
    modify fun s =>
      { s with evaluatedStateActions := s.evaluatedStateActions ++ [(remaining, state, action)] }

def outcomesFor (state : S) (action : A) (remaining : ℕ) : Search S A (List (Outcome S)) := do
  evaluateOnce cap state action remaining
  let s ← get
  match s.transitionCache.lookup (state, action) with
  | some outcomes => pure outcomes
  | none => transition cap kernel state action

def expandOnce (remaining : ℕ) (state : S) : Search S A Unit := do
  let s ← get
  if (remaining, state) ∉ s.expandedStateTimes then
    expandState cap
    modify fun s => { s with expandedStateTimes := s.expandedStateTimes ++ [(remaining, state)] }

def remember (key : ℕ × Distribution S) (body : Search S A (List (ParetoPoint S A))) :
    Search S A (List (ParetoPoint S A)) := do
  let s ← get
  match s.memo.lookup key with
  | some frontier => pure frontier
  | none =>
    let frontier ← body
    modify fun s => { s with memo := Dict.assign key frontier s.memo }
    pure frontier

def cappedOps : SearchOps (Search S A) S A where
  expandOnce := expandOnce cap
  composeCandidate := composeCandidate cap
  outcomesFor := outcomesFor cap kernel
  remember := remember

def searchFrontier (query : QuerySpec S) (horizon : ℕ) :
    Except SearchError (List (ParetoPoint S A)) × SearchState S A :=
  attempt (do
    let initial ← queryInitialDistribution kernel query
    let initialMass := tally (initial.map fun p => (p.2, p.1))
    occupancyFrontier (cappedOps cap kernel) kernel query.goal (rewardWeights query) horizon
      (canonicalDistribution initialMass)) .start

end Attempt

/-! ## Results -/

inductive GroundFallbackOutcome where
  | feasibleCertified
  | infeasibleCertified
  | capExhausted
  deriving DecidableEq

/-- The recorded work by path, zero for every registered path that is not named here. -/
def workVector (ledger : FallbackLedger) (outcome : GroundFallbackOutcome) (path : String) : ℕ :=
  let failures := if outcome = .capExhausted then 1 else 0
  let values := [("fallback.states_expanded", ledger.statesExpanded),
    ("fallback.actions_evaluated", ledger.actionsEvaluated),
    ("fallback.ground_steps", ledger.groundSteps), ("fallback.outcome_rows", ledger.outcomeRows),
    ("fallback.bellman_backups", ledger.bellmanBackups), ("control.cap_checks", ledger.capChecks),
    ("control.cap_rejections", ledger.capRejections), ("route.attempts", 1),
    ("route.successes", 1 - failures), ("route.failures", failures), ("solver.attempts", 1),
    ("solver.successes", 1 - failures), ("solver.failures", failures)]
  (values.lookup path).getD 0

abbrev PolicySignature := List (ℕ × ContentId × ContentId)

def signatureKey (row : ℕ × ContentId × ContentId) : ℤ ×ₗ ContentId ×ₗ ContentId :=
  toLex (-(row.1 : ℤ), toLex row.2)

/-- The checks of `_parse_policy_rows` on rows of content identifiers. -/
def parsePolicyRows (signature : PolicySignature) (context : String) :
    Except PyError PolicySignature := do
  require (∀ row ∈ signature, 0 < row.1)
    (.valueError s!"{context}.remaining must be a positive exact integer")
  require (signature = sortBy signatureKey signature)
    (.valueError s!"{context} is not canonically ordered")
  require (signature.map fun row => (row.1, row.2.1)).Nodup
    (.valueError s!"{context} repeats a state-time decision")
  return signature

structure GroundFallbackFrontierPoint where
  expectedReward : ℚ
  failureProbability : ℚ
  policySignature : PolicySignature
  deriving DecidableEq

def GroundFallbackFrontierPoint.make (expectedReward failureProbability : ℚ)
    (policySignature : PolicySignature) : Except PyError GroundFallbackFrontierPoint := do
  require (0 ≤ failureProbability ∧ failureProbability ≤ 1)
    (.valueError "frontier failure probability lies outside [0,1]")
  let _ ← parsePolicyRows policySignature "policy signature"
  return ⟨expectedReward, failureProbability, policySignature⟩

structure GroundFallbackResult where
  outcome : GroundFallbackOutcome
  searchComplete : Bool
  frontier : List GroundFallbackFrontierPoint
  selectedPolicySignature : PolicySignature
  selectedExpectedReward : Option ℚ
  selectedFailureProbability : Option ℚ
  capExhaustedName : Option String
  composedCandidateCount : ℕ

def frontierKey (point : GroundFallbackFrontierPoint) :
    ℚ ×ₗ ℚ ×ₗ List (ℕ ×ₗ ContentId ×ₗ ContentId) :=
  toLex (point.failureProbability, toLex (-point.expectedReward,
    point.policySignature.map fun row => toLex (row.1, toLex row.2)))

/-- The checks of `GroundFallbackResultV1.__post_init__`. -/
def GroundFallbackResult.check (r : GroundFallbackResult) : Except PyError Unit := do
  require (sortBy frontierKey r.frontier = r.frontier)
    (.valueError "ground fallback frontier is not canonical")
  let _ ← parsePolicyRows r.selectedPolicySignature "selected policy signature"
  match r.outcome with
  | .capExhausted =>
    require (r.searchComplete = false ∧ r.capExhaustedName.isSome)
      (.valueError "CAP_EXHAUSTED must be incomplete and name the exhausted cap")
    require (r.frontier = [] ∧ r.selectedPolicySignature = [] ∧ r.selectedExpectedReward = none ∧
        r.selectedFailureProbability = none)
      (.valueError "partial cap-exhausted search cannot expose a certificate candidate")
  | .feasibleCertified =>
    require (r.searchComplete = true ∧ r.capExhaustedName = none)
      (.valueError "a fallback certificate outcome requires exhaustive completion")
    require (r.selectedExpectedReward.isSome ∧ r.selectedFailureProbability.isSome)
      (.valueError "feasible fallback lacks selected exact values")
    require (∃ point ∈ r.frontier, point.policySignature = r.selectedPolicySignature ∧
        some point.expectedReward = r.selectedExpectedReward ∧
        some point.failureProbability = r.selectedFailureProbability)
      (.valueError "selected feasible point is absent from the exact frontier")
  | .infeasibleCertified =>
    require (r.searchComplete = true ∧ r.capExhaustedName = none)
      (.valueError "a fallback certificate outcome requires exhaustive completion")
    require (r.selectedPolicySignature = [] ∧ r.selectedExpectedReward = none ∧
        r.selectedFailureProbability = none)
      (.valueError "infeasibility certificate cannot expose a selected policy")

structure GroundFallbackExecution (S A : Type) where
  result : GroundFallbackResult
  workVector : String → ℕ
  selectedPolicy : Option (FiniteHorizonPolicy S A)

/-- How an attempt fails. A protocol error carries the work done so far. -/
inductive AttemptError where
  | protocolError (message : String) (partialWorkVector : String → ℕ)
  | raised (error : PyError)

/-- The exceptions of the results. -/
def raising {α : Type} : Except PyError α → Except AttemptError α
  | .ok a => .ok a
  | .error e => .error (.raised e)

section Run

variable [DecidableEq S] [PyRepr S] [DecidableEq A] [PyRepr A]
variable (stateId : S → ContentId) (actionId : A → ContentId)

def policyContentSignature (policy : FiniteHorizonPolicy S A) : PolicySignature :=
  sortBy signatureKey (policy.decisions.map fun d =>
    (d.remaining, stateId d.state, actionId d.action))

def buildExecution (frontier : List (ParetoPoint S A)) (selected : Option (ParetoPoint S A))
    (outcome : GroundFallbackOutcome) (capExhaustedName : Option String)
    (ledger : FallbackLedger) : Except PyError (GroundFallbackExecution S A) := do
  let resultFrontier ← frontier.mapM fun point => GroundFallbackFrontierPoint.make
    point.expectedReward point.failureProbability
      (policyContentSignature stateId actionId point.policy)
  let result : GroundFallbackResult := {
    outcome := outcome
    searchComplete := outcome ≠ .capExhausted
    frontier := resultFrontier
    selectedPolicySignature :=
      (selected.map fun point => policyContentSignature stateId actionId point.policy).getD []
    selectedExpectedReward := selected.map (·.expectedReward)
    selectedFailureProbability := selected.map (·.failureProbability)
    capExhaustedName := capExhaustedName
    composedCandidateCount := ledger.composedCandidates }
  result.check
  return ⟨result, workVector ledger outcome, selected.map (·.policy)⟩

def runGroundFallbackSearch (cap : GroundFallbackCapProfile) (kernel : Kernel S A)
    (query : QuerySpec S) : Except AttemptError (GroundFallbackExecution S A) := do
  raising (validateQuery kernel query)
  let horizon ← raising (queryHorizon kernel query)
  match searchFrontier cap kernel query horizon with
  | (.ok frontier, t) =>
    let selected := selectConstrained frontier query.delta
    let outcome := if selected.isSome then .feasibleCertified else .infeasibleCertified
    raising (buildExecution stateId actionId frontier selected outcome none t.ledger)
  | (.error (.capExhausted capName), t) =>
    raising (buildExecution stateId actionId [] none .capExhausted (some capName) t.ledger)
  | (.error (.protocolError message), t) =>
    .error (.protocolError message (workVector t.ledger .capExhausted))
  | (.error (.assertionError message), _) => .error (.raised (.assertionError message))
  | (.error (.raised e), _) => .error (.raised e)

end Run

end Acfqp.Fallback
