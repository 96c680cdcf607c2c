import Acfqp.Route.Vectors

/-!
# Route traces and their loose replay

A route is a hash chain of events, each with the evidence for one transition of the route's state
machine. The router replays a trace against route bounds and a set of verified artifacts, builds it
event by event, and verifies a complete envelope.
-/

namespace Acfqp.Route

open Library

inductive RouteState where
  | start
  | integrityVerified
  | compatibilityVerified
  | cacheChecked
  | abstractFailed
  | routeEstimationRequired
  | localExecutionRequired
  | fallbackExecutionRequired
  | nextLocalTransactionRequired
  | protocolFailure
  | rebuildRequired
  | abstractCertified
  | localGroundRecovery
  | fullGroundFallback
  | infeasibleQuery
  | fallbackCapExhausted
  deriving DecidableEq

def RouteState.text : RouteState → String
  | .start => "START"
  | .integrityVerified => "INTEGRITY_VERIFIED"
  | .compatibilityVerified => "COMPATIBILITY_VERIFIED"
  | .cacheChecked => "CACHE_CHECKED"
  | .abstractFailed => "ABSTRACT_FAILED"
  | .routeEstimationRequired => "ROUTE_ESTIMATION_REQUIRED"
  | .localExecutionRequired => "LOCAL_EXECUTION_REQUIRED"
  | .fallbackExecutionRequired => "FALLBACK_EXECUTION_REQUIRED"
  | .nextLocalTransactionRequired => "NEXT_LOCAL_TRANSACTION_REQUIRED"
  | .protocolFailure => "PROTOCOL_FAILURE_ATTEMPT_TERMINAL"
  | .rebuildRequired => "REBUILD_REQUIRED_ATTEMPT_TERMINAL"
  | .abstractCertified => "ABSTRACT_CERTIFIED_ATTEMPT_TERMINAL"
  | .localGroundRecovery => "LOCAL_GROUND_RECOVERY_ATTEMPT_TERMINAL"
  | .fullGroundFallback => "FULL_GROUND_FALLBACK_ATTEMPT_TERMINAL"
  | .infeasibleQuery => "INFEASIBLE_QUERY_ATTEMPT_TERMINAL"
  | .fallbackCapExhausted => "FALLBACK_CAP_EXHAUSTED_NO_CERTIFICATE_ATTEMPT_TERMINAL"

def RouteState.terminal : RouteState → Bool
  | .protocolFailure | .rebuildRequired | .abstractCertified | .localGroundRecovery
  | .fullGroundFallback | .infeasibleQuery | .fallbackCapExhausted => true
  | _ => false

inductive Role where
  | integrity
  | compatibility
  | cacheProof
  | abstractAudit
  | causalSearch
  | routeSelection
  | localResult
  | fallbackResult
  deriving DecidableEq

def Role.label : Role → String
  | .integrity => "integrity"
  | .compatibility => "compatibility"
  | .cacheProof => "cache_proof"
  | .abstractAudit => "abstract_audit"
  | .causalSearch => "causal_search"
  | .routeSelection => "route_selection"
  | .localResult => "local_result"
  | .fallbackResult => "fallback_result"

inductive RouteOutcome where
  | pass
  | fail
  | matched
  | mismatch
  | miss
  | found
  | capExhausted
  | noSoundCover
  | localCapImpossible
  | selectLocal
  | selectFallbackNoLocal
  | selectFallbackDominates
  | selectFallbackEqual
  | selectFallbackIncomparable
  | certified
  | failedDeeperBudgetRemains
  | failedDeeperBudgetExhausted
  | failedNoSoundFrontier
  | certifiedFeasible
  | certifiedInfeasible
  | incompleteDueToCap
  deriving DecidableEq

def RouteOutcome.text : RouteOutcome → String
  | .pass => "PASS"
  | .fail => "FAIL"
  | .matched => "MATCH"
  | .mismatch => "MISMATCH"
  | .miss => "MISS"
  | .found => "FOUND"
  | .capExhausted => "CAP_EXHAUSTED"
  | .noSoundCover => "NO_SOUND_COVER"
  | .localCapImpossible => "LOCAL_CAP_IMPOSSIBLE"
  | .selectLocal => "SELECT_LOCAL"
  | .selectFallbackNoLocal => "SELECT_FALLBACK_NO_LOCAL"
  | .selectFallbackDominates => "SELECT_FALLBACK_DOMINATES"
  | .selectFallbackEqual => "SELECT_FALLBACK_EQUAL"
  | .selectFallbackIncomparable => "SELECT_FALLBACK_INCOMPARABLE"
  | .certified => "CERTIFIED"
  | .failedDeeperBudgetRemains => "FAILED_DEEPER_BUDGET_REMAINS"
  | .failedDeeperBudgetExhausted => "FAILED_DEEPER_BUDGET_EXHAUSTED"
  | .failedNoSoundFrontier => "FAILED_NO_SOUND_FRONTIER"
  | .certifiedFeasible => "CERTIFIED_FEASIBLE"
  | .certifiedInfeasible => "CERTIFIED_INFEASIBLE"
  | .incompleteDueToCap => "INCOMPLETE_DUE_TO_CAP"

def Role.outcomes : Role → List RouteOutcome
  | .integrity | .abstractAudit => [.pass, .fail]
  | .compatibility => [.matched, .mismatch]
  | .cacheProof => [.matched, .miss]
  | .causalSearch => [.found, .capExhausted, .noSoundCover, .localCapImpossible]
  | .routeSelection => [.selectLocal, .selectFallbackNoLocal, .selectFallbackDominates,
      .selectFallbackEqual, .selectFallbackIncomparable]
  | .localResult => [.certified, .failedDeeperBudgetRemains, .failedDeeperBudgetExhausted,
      .failedNoSoundFrontier]
  | .fallbackResult => [.certifiedFeasible, .certifiedInfeasible, .incompleteDueToCap]

def requiredArtifactRoles : Role → RouteOutcome → List String
  | .integrity, .pass => ["integrity_attestation"]
  | .integrity, .fail => ["integrity_failure_attestation"]
  | .compatibility, .matched => ["compatibility_attestation"]
  | .compatibility, .mismatch => ["compatibility_mismatch_attestation"]
  | .cacheProof, .matched => ["exact_infeasibility_proof", "proof_verification"]
  | .cacheProof, .miss => ["cache_proof_check"]
  | .abstractAudit, .pass => ["abstract_audit", "policy_graph", "threshold_profile"]
  | .abstractAudit, .fail => ["abstract_audit", "failed_proof_graph", "threshold_profile"]
  | .causalSearch, .found => ["causal_certificate", "local_authorization"]
  | .causalSearch, .capExhausted => ["causal_cap_attestation"]
  | .causalSearch, .noSoundCover => ["causal_exhaustion_attestation"]
  | .causalSearch, .localCapImpossible => ["local_cap_impossibility_attestation"]
  | .routeSelection, .selectFallbackNoLocal => ["comparison_profile", "fallback_upper_bound"]
  | .routeSelection, _ => ["comparison_profile", "local_upper_bound", "fallback_upper_bound"]
  | .localResult, .certified => ["local_result", "post_audit_certificate", "actual_work"]
  | .localResult, _ => ["local_result", "post_audit_failure", "actual_work"]
  | .fallbackResult, .certifiedFeasible => ["fallback_result", "ground_certificate", "actual_work"]
  | .fallbackResult, .certifiedInfeasible =>
    ["fallback_result", "exact_infeasibility_proof", "actual_work"]
  | .fallbackResult, .incompleteDueToCap =>
    ["fallback_cap_attestation", "fallback_result", "actual_work"]
  | _, _ => []

def transition : RouteState → Role → RouteOutcome → Option RouteState
  | .start, .integrity, .pass => some .integrityVerified
  | .start, .integrity, .fail => some .protocolFailure
  | .integrityVerified, .compatibility, .matched => some .compatibilityVerified
  | .integrityVerified, .compatibility, .mismatch => some .rebuildRequired
  | .compatibilityVerified, .cacheProof, .matched => some .infeasibleQuery
  | .compatibilityVerified, .cacheProof, .miss => some .cacheChecked
  | .cacheChecked, .abstractAudit, .pass => some .abstractCertified
  | .cacheChecked, .abstractAudit, .fail => some .abstractFailed
  | .abstractFailed, .causalSearch, .found => some .routeEstimationRequired
  | .abstractFailed, .causalSearch, .capExhausted => some .routeEstimationRequired
  | .abstractFailed, .causalSearch, .noSoundCover => some .routeEstimationRequired
  | .abstractFailed, .causalSearch, .localCapImpossible => some .routeEstimationRequired
  | .nextLocalTransactionRequired, .causalSearch, .found => some .routeEstimationRequired
  | .nextLocalTransactionRequired, .causalSearch, .capExhausted => some .routeEstimationRequired
  | .nextLocalTransactionRequired, .causalSearch, .noSoundCover => some .routeEstimationRequired
  | .nextLocalTransactionRequired, .causalSearch, .localCapImpossible =>
    some .routeEstimationRequired
  | .routeEstimationRequired, .routeSelection, .selectLocal => some .localExecutionRequired
  | .routeEstimationRequired, .routeSelection, .selectFallbackNoLocal =>
    some .fallbackExecutionRequired
  | .routeEstimationRequired, .routeSelection, .selectFallbackDominates =>
    some .fallbackExecutionRequired
  | .routeEstimationRequired, .routeSelection, .selectFallbackEqual =>
    some .fallbackExecutionRequired
  | .routeEstimationRequired, .routeSelection, .selectFallbackIncomparable =>
    some .fallbackExecutionRequired
  | .localExecutionRequired, .localResult, .certified => some .localGroundRecovery
  | .localExecutionRequired, .localResult, .failedDeeperBudgetRemains =>
    some .nextLocalTransactionRequired
  | .localExecutionRequired, .localResult, .failedDeeperBudgetExhausted =>
    some .fallbackExecutionRequired
  | .localExecutionRequired, .localResult, .failedNoSoundFrontier =>
    some .fallbackExecutionRequired
  | .fallbackExecutionRequired, .fallbackResult, .certifiedFeasible => some .fullGroundFallback
  | .fallbackExecutionRequired, .fallbackResult, .certifiedInfeasible => some .infeasibleQuery
  | .fallbackExecutionRequired, .fallbackResult, .incompleteDueToCap => some .fallbackCapExhausted
  | _, _, _ => none

structure RouteDecisionContext where
  preregistrationSkeletonId : Identifier
  protocolCandidateId : Identifier
  comparisonProfileCandidateId : Identifier
  counterRegistryId : Identifier
  structuralId : Identifier
  queryId : Identifier
  planId : Identifier
  thresholdProfileId : Identifier
  epochId : Identifier
  logicalOccurrenceId : Identifier
  routeAttemptId : Identifier

/-! ## Evidence and events -/

theorem append_colon_ne (s t : String) : s ++ ":" ++ t ≠ "" := by
  intro h
  simpa using congrArg String.length h

def evidenceWorkSubject (contextId : Identifier) (role : Role)
    (transactionId : Option Identifier) : Identifier :=
  ⟨contextId.1 ++ ":" ++ (role.label ++ ":" ++ (transactionId.elim "none" Subtype.val)),
    append_colon_ne _ _⟩

/-- Only a selection carries bounds: always the fallback's, and the local one unless there is no
local route. -/
def BoundsValid (role : Role) (outcome : RouteOutcome)
    (localBoundId fallbackBoundId : Option Identifier) : Prop :=
  if role = .routeSelection then
    fallbackBoundId.isSome = true ∧ (localBoundId.isNone = true ↔ outcome = .selectFallbackNoLocal)
  else localBoundId = none ∧ fallbackBoundId = none

instance (role : Role) (outcome : RouteOutcome) (localBoundId fallbackBoundId : Option Identifier) :
    Decidable (BoundsValid role outcome localBoundId fallbackBoundId) :=
  inferInstanceAs (Decidable (ite (role = .routeSelection) _ _))

def Role.route : Role → Option RouteCandidate
  | .localResult => some .localAttempt
  | .fallbackResult => some .directFallback
  | _ => none

/-- Only an execution result carries an actual comparison, which is of its route. -/
def ActualValid (contextId : Identifier) (role : Role) (actual : Option ComparisonVector) : Prop :=
  actual.map (·.routeCandidate) = role.route ∧ ∀ a ∈ actual, a.contextId = contextId

instance (contextId : Identifier) (role : Role) (actual : Option ComparisonVector) :
    Decidable (ActualValid contextId role actual) :=
  inferInstanceAs (Decidable (_ ∧ _))

structure TransitionEvidence where
  contextId : Identifier
  role : Role
  outcome : RouteOutcome
  artifactRefs : List (String × Identifier)
  workDelta : WorkVector
  transactionId : Option Identifier
  localBoundId : Option Identifier
  fallbackBoundId : Option Identifier
  actualComparison : Option ComparisonVector
  outcome_mem : outcome ∈ role.outcomes
  refs_increasing : Increasing artifactRefs
  refs_ne : "" ∉ artifactRefs.map Prod.fst
  required : requiredArtifactRoles role outcome ⊆ artifactRefs.map Prod.fst
  subject : workDelta.subjectId = evidenceWorkSubject contextId role transactionId
  bounds : BoundsValid role outcome localBoundId fallbackBoundId
  actual : ActualValid contextId role actualComparison

structure RouteTraceEvent where
  contextId : Identifier
  sequence : ℕ
  stateBefore : RouteState
  stateAfter : RouteState
  evidence : TransitionEvidence
  prevEventId : Option Identifier
  context_eq : evidence.contextId = contextId

structure RouteTraceEnvelope where
  contextId : Identifier
  events : List RouteTraceEvent
  finalState : RouteState
  accumulatedWork : WorkVector
  complete : Bool
  events_ne : events ≠ []

/-- The content digests of the documents. -/
structure Digests where
  contextId : RouteDecisionContext → Identifier
  workVectorId : WorkVector → Identifier
  comparisonVectorId : ComparisonVector → Identifier
  profileId : ComparisonProfile → Identifier
  cardinalityId : CardinalityEvidence → Identifier
  formulaId : ComparisonFormula → Identifier
  boundId : RouteUpperBound → Identifier
  evidenceId : TransitionEvidence → Identifier
  eventId : RouteTraceEvent → Identifier
  envelopeId : RouteTraceEnvelope → Identifier

def nextState (state : RouteState) (evidence : TransitionEvidence) :
    Except RouteError RouteState :=
  orRaise (transition state evidence.role evidence.outcome)
    (.router s!"illegal route transition: state={state.text}, role={
      evidence.role.label.toUpper}, outcome={evidence.outcome.text}")

def exceeded (actual : ComparisonVector) (bound : RouteUpperBound) : List String :=
  (actual.values.filter fun entry => valueOf bound.vector.values entry.1 < entry.2).map Prod.fst

def actualWithinBound (actual : ComparisonVector) (bound : RouteUpperBound) :
    Except RouteError Unit := do
  require (actual.contextId = bound.contextId ∧ actual.profileId = bound.profileId ∧
      actual.routeCandidate = bound.routeCandidate)
    (.router "actual comparison work and upper bound differ")
  require (keySet actual.values = keySet bound.vector.values)
    (.router "actual comparison work uses different axes")
  require (∀ entry ∈ actual.values, entry.2 ≤ valueOf bound.vector.values entry.1)
    (.router s!"actual comparison work exceeds selected upper bound: {
      pyRepr (exceeded actual bound)}")

def Relation.selection : Relation → RouteOutcome
  | .leftDominates => .selectLocal
  | .rightDominates => .selectFallbackDominates
  | .equal => .selectFallbackEqual
  | .incomparable => .selectFallbackIncomparable

/-! ## The loose replay -/

def validateSelection (evidence : TransitionEvidence)
    (bounds : Identifier → Option RouteUpperBound) : Except RouteError RouteUpperBound := do
  let fallback ← orRaise (evidence.fallbackBoundId.bind bounds)
    (.router "fallback upper bound is absent or invalid")
  require (fallback.routeCandidate = .directFallback)
    (.router "fallback upper bound is absent or invalid")
  match evidence.localBoundId with
  | none => do
    require (evidence.outcome = .selectFallbackNoLocal)
      (.router "selection outcome omits a required local bound")
    return fallback
  | some localBoundId => do
    let localBound ← orRaise (bounds localBoundId)
      (.router "local upper bound is absent or invalid")
    require (localBound.routeCandidate = .localAttempt)
      (.router "local upper bound is absent or invalid")
    let relation ← compareRouteUpperBounds localBound fallback
    require (evidence.outcome = relation.selection)
      (.router "route-selection outcome disagrees with exact comparison")
    return if evidence.outcome = .selectLocal then localBound else fallback

/-- Where a replay stands after some events. -/
structure Replay where
  sequence : ℕ
  prevEventId : Option Identifier
  state : RouteState
  selectedBound : Option RouteUpperBound

def Replay.initial : Replay := ⟨0, none, .start, none⟩

/-- An execution result has an actual comparison within the selected bound of its route. -/
def checkExecution (layer : String → RouteError) (absent mismatch : String)
    (evidence : TransitionEvidence) (selectedBound : Option RouteUpperBound)
    (route : RouteCandidate) : Except RouteError Unit := do
  let bound ← orRaise selectedBound (layer absent)
  require (bound.routeCandidate = route) (layer mismatch)
  -- the evidence of an execution result always has one
  let actual ← orRaise evidence.actualComparison (layer "assertion")
  within layer (actualWithinBound actual bound)

section Replay

variable (ids : Digests) (context : RouteDecisionContext) (registry : CounterRegistry)
  (bounds : Identifier → Option RouteUpperBound) (verified : List Identifier)

def checkLooseExecution := checkExecution .router "execution result has no selected upper bound"
  "execution result does not match selected route"

def selectBound (evidence : TransitionEvidence) (selectedBound : Option RouteUpperBound) :
    Except RouteError (Option RouteUpperBound) :=
  match evidence.role with
  | .routeSelection => do
    let bound ← validateSelection evidence bounds
    require (bound.contextId = ids.contextId context)
      (.router "selected upper bound uses a different context")
    require (bound.profileId = context.comparisonProfileCandidateId)
      (.router "selected upper bound uses a different profile")
    return some bound
  | .localResult => do
    checkLooseExecution evidence selectedBound .localAttempt
    return selectedBound
  | .fallbackResult => do
    checkLooseExecution evidence selectedBound .directFallback
    return selectedBound
  | _ => return selectedBound

def replayStep (r : Replay) (event : RouteTraceEvent) : Except RouteError Replay := do
  require (event.contextId = ids.contextId context)
    (.router "route event binds a different context")
  require (event.sequence = r.sequence) (.router "route event sequence is not contiguous")
  require (event.prevEventId = r.prevEventId) (.router "route event hash chain is broken")
  require (event.stateBefore = r.state)
    (.router "route event state_before disagrees with replay")
  require (r.state.terminal = false) (.router "route trace continues after a terminal state")
  within .router (registry.validateVector event.evidence.workDelta)
  require (∀ ref ∈ event.evidence.artifactRefs, ref.2 ∈ verified)
    (.router s!"route evidence references unverified artifacts: {
      sortedDifference (event.evidence.artifactRefs.map (·.2.1)) (verified.map (·.1))}")
  let selectedBound ← selectBound ids context bounds event.evidence r.selectedBound
  let next ← nextState r.state event.evidence
  require (event.stateAfter = next) (.router "route event state_after disagrees with replay")
  return {
    sequence := r.sequence + 1
    prevEventId := some (ids.eventId event)
    state := next
    selectedBound :=
      if next = .nextLocalTransactionRequired then none
      else if next = .fallbackExecutionRequired ∧ event.evidence.role = .localResult then none
      else selectedBound }

def attemptSubject : Identifier :=
  ⟨"route-attempt" ++ ":" ++ context.routeAttemptId.1, append_colon_ne _ _⟩

def attemptWork (events : List RouteTraceEvent) : Except RouteError WorkVector :=
  sumWorkVectors (events.map (·.evidence.workDelta)) (attemptSubject context)

def replayRouteEvents (events : List RouteTraceEvent) (requireTerminal : Bool) :
    Except RouteError (RouteState × WorkVector) := do
  require (events ≠ []) (.router "auditable route trace cannot be empty")
  require (context.counterRegistryId = registry.registryId)
    (.router "route context uses a different counter registry")
  let r ← events.foldlM (replayStep ids context registry bounds verified) .initial
  require (requireTerminal = true → r.state.terminal = true)
    (.router "complete route envelope ends on a nonterminal prefix")
  let work ← attemptWork context events
  return (r.state, work)

def traceHead (events : List RouteTraceEvent) :
    Except RouteError (RouteState × Option Identifier) :=
  match events.getLast? with
  | none => return (.start, none)
  | some last => do
    let (state, _) ← replayRouteEvents ids context registry bounds verified events false
    require (state.terminal = false) (.router "cannot append after terminal state")
    return (state, some (ids.eventId last))

def appendRouteEvent (events : List RouteTraceEvent) (evidence : TransitionEvidence) :
    Except RouteError RouteTraceEvent := do
  let (state, prevEventId) ← traceHead ids context registry bounds verified events
  let stateAfter ← nextState state evidence
  if h : evidence.contextId = ids.contextId context then
    let event : RouteTraceEvent :=
      ⟨ids.contextId context, events.length, state, stateAfter, evidence, prevEventId, h⟩
    let _ ← replayRouteEvents ids context registry bounds verified (events ++ [event]) false
    return event
  else throw (.router "event/evidence context mismatch")

def buildRouteEnvelope (events : List RouteTraceEvent) (complete : Bool) :
    Except RouteError RouteTraceEnvelope := do
  let (state, work) ← replayRouteEvents ids context registry bounds verified events complete
  if h : events ≠ [] then return ⟨ids.contextId context, events, state, work, complete, h⟩
  else throw (.router "route envelope cannot be empty")

def verifyRouteEnvelope (envelope : RouteTraceEnvelope) : Except RouteError Unit := do
  require (envelope.contextId = ids.contextId context)
    (.router "route envelope binds a different context")
  let (state, work) ← replayRouteEvents ids context registry bounds verified envelope.events
    envelope.complete
  require (state = envelope.finalState) (.router "route envelope final state mismatch")
  require (work = envelope.accumulatedWork)
    (.router "route envelope accumulated WorkVector mismatch")
  require (envelope.complete = true)
    (.router "incomplete route prefix is not a route certificate")
  require (ids.envelopeId envelope = ids.envelopeId
      ⟨envelope.contextId, envelope.events, state, work, true, envelope.events_ne⟩)
    (.router "route envelope content ID mismatch")

end Replay

end Acfqp.Route
