import Acfqp.Core

/-!
# The access protocol

A log of accesses, the decision that freezes its preselection prefix, and the replay of both: first
the scope of every event, then the stage order of a local execution.
-/

namespace Acfqp.Access

open Library

inductive AccessRouteScope
  | common
  | localRoute
  | fallback
  deriving DecidableEq, Repr

inductive RouteSelection
  | localRoute
  | fallback
  deriving DecidableEq, Repr

def RouteSelection.value : RouteSelection → String
  | .localRoute => "LOCAL"
  | .fallback => "FALLBACK"

def RouteSelection.scope : RouteSelection → AccessRouteScope
  | .localRoute => .localRoute
  | .fallback => .fallback

inductive AccessOperation
  | readFrozenRapm
  | readFrozenBuildEpoch
  | readFailedCertificate
  | readSelectedPlan
  | readActionCatalogue
  | readFrontierIdentities
  | readProofCircuitMetadata
  | readPreregisteredCardinalities
  | readCapRegistry
  | readFormulaRegistry
  | readProfileRegistry
  | resolveRuntimeCas
  | openRuntimePrivateLease
  | constructSelectedExecutor
  | kernelStep
  | groundOutcomeEnumeration
  | localSliceMaterialization
  | localCapabilityCompilation
  | localWorkerLaunch
  | localPatchStitch
  | localPostaudit
  | fallbackSolverInvocation
  | fallbackWorkerLaunch
  | localCapabilityArtifact
  | localWorkerResultArtifact
  | localStitchArtifact
  | localPostauditArtifact
  | fallbackResultArtifact
  deriving DecidableEq, Repr

namespace AccessOperation

def preselectionRead : List AccessOperation :=
  [readFrozenRapm, readFrozenBuildEpoch, readFailedCertificate, readSelectedPlan,
    readActionCatalogue, readFrontierIdentities, readProofCircuitMetadata,
    readPreregisteredCardinalities, readCapRegistry, readFormulaRegistry, readProfileRegistry]

def routeScoped : List AccessOperation :=
  [kernelStep, groundOutcomeEnumeration, resolveRuntimeCas, openRuntimePrivateLease,
    constructSelectedExecutor]

def localOnly : List AccessOperation :=
  [localSliceMaterialization, localCapabilityCompilation, localWorkerLaunch, localPatchStitch,
    localPostaudit, localCapabilityArtifact, localWorkerResultArtifact, localStitchArtifact,
    localPostauditArtifact]

def fallbackOnly : List AccessOperation :=
  [fallbackSolverInvocation, fallbackWorkerLaunch, fallbackResultArtifact]

def artifact : List AccessOperation :=
  [localCapabilityArtifact, localWorkerResultArtifact, localStitchArtifact, localPostauditArtifact,
    fallbackResultArtifact]

def identityBearing : List AccessOperation :=
  preselectionRead ++ artifact ++
    [resolveRuntimeCas, openRuntimePrivateLease, constructSelectedExecutor]

def groundTransition : List AccessOperation := [kernelStep, groundOutcomeEnumeration]

def localStageMarker : AccessOperation → Option ℕ
  | localSliceMaterialization => some 1
  | localCapabilityCompilation => some 2
  | localWorkerLaunch => some 3
  | localPatchStitch => some 4
  | localPostaudit => some 5
  | _ => none

def localArtifactStage : AccessOperation → Option ℕ
  | localCapabilityArtifact => some 2
  | localWorkerResultArtifact => some 3
  | localStitchArtifact => some 4
  | localPostauditArtifact => some 5
  | _ => none

end AccessOperation

inductive AccessViolationReason
  | preselectionForbiddenAccess
  | preselectionRouteScopeViolation
  | localAccessOnFallbackRoute
  | fallbackAccessOnLocalRoute
  | selectedRouteScopeMismatch
  | localStageOrderViolation
  deriving DecidableEq, Repr

/-- An access with the artifact that it reads or writes, if it is an identity-bearing one. -/
structure AccessEvent where
  sequenceNumber : ℕ
  routeAttemptId : ContentId
  decisionPointId : ContentId
  operation : AccessOperation
  routeScope : AccessRouteScope
  artifactId : Option ContentId
  sequence_pos : 0 < sequenceNumber
  artifact_iff : artifactId.isSome ↔ operation ∈ AccessOperation.identityBearing

/-- The events of one attempt at one decision point, numbered from one. -/
structure AccessRecord (routeAttemptId decisionPointId : ContentId) where
  events : List AccessEvent
  numbered : ∀ i (h : i < events.length), events[i].sequenceNumber = i + 1
  bound : ∀ e ∈ events, e.routeAttemptId = routeAttemptId ∧ e.decisionPointId = decisionPointId

/-- The freeze of a log: the decision, its attestation, and the prefix before it. -/
structure LogFreeze where
  routeDecisionId : ContentId
  freezeAttestationId : ContentId
  freezeAfterSequence : ℕ
  prefreezeLogId : ContentId
  deriving DecidableEq

structure AccessEventLog where
  routeAttemptId : ContentId
  decisionPointId : ContentId
  profileId : ContentId
  recorded : AccessRecord routeAttemptId decisionPointId
  freeze : Option LogFreeze
  freeze_le : ∀ f ∈ freeze, f.freezeAfterSequence ≤ recorded.events.length

/-- A violation after the freeze names the selected route and its freeze. -/
structure ForbiddenAccessViolation where
  routeAttemptId : ContentId
  decisionPointId : ContentId
  profileId : ContentId
  logId : ContentId
  offendingSequenceNumber : ℕ
  operation : AccessOperation
  reason : AccessViolationReason
  selected : Option (RouteSelection × ContentId)
  deriving DecidableEq

inductive AccessError
  | invalid (message : String)
  | violated (violation : ForbiddenAccessViolation)
  deriving DecidableEq

def AccessEvent.make (sequenceNumber : ℕ) (routeAttemptId decisionPointId : ContentId)
    (operation : AccessOperation) (routeScope : AccessRouteScope) (artifactId : Option String) :
    Except AccessError AccessEvent :=
  if hsequence : 0 < sequenceNumber then
    if hbearing : operation ∈ AccessOperation.identityBearing then
      match artifactId with
      | some value =>
        if hvalue : IsContentId value then
          .ok ⟨sequenceNumber, routeAttemptId, decisionPointId, operation, routeScope,
            some ⟨value, hvalue⟩, hsequence, by simp [hbearing]⟩
        else .error (.invalid "artifact_id must be a full Phase-3E content ID")
      | none => .error (.invalid "artifact_id must be a full Phase-3E content ID")
    else if artifactId = none then
      .ok ⟨sequenceNumber, routeAttemptId, decisionPointId, operation, routeScope, none, hsequence,
        by simp [hbearing]⟩
    else .error (.invalid "only registered identity-bearing events may carry artifact_id")
  else .error (.invalid "access sequence number must be a positive integer")

/-! ## The scope of an event -/

def violationReason (event : AccessEvent) :
    Option RouteSelection → Option AccessViolationReason
  | none =>
    if event.operation ∉ AccessOperation.preselectionRead then some .preselectionForbiddenAccess
    else if event.routeScope ≠ .common then some .preselectionRouteScopeViolation
    else none
  | some selectedRoute =>
    if event.operation ∈ AccessOperation.preselectionRead then
      if event.routeScope = .common then none else some .selectedRouteScopeMismatch
    else if event.operation ∈ AccessOperation.routeScoped then
      if event.routeScope = selectedRoute.scope then none else some .selectedRouteScopeMismatch
    else if event.operation ∈ AccessOperation.localOnly then
      if selectedRoute = .fallback then some .localAccessOnFallbackRoute
      else if event.routeScope ≠ .localRoute then some .selectedRouteScopeMismatch
      else none
    else if event.operation ∈ AccessOperation.fallbackOnly then
      if selectedRoute = .localRoute then some .fallbackAccessOnLocalRoute
      else if event.routeScope ≠ .fallback then some .selectedRouteScopeMismatch
      else none
    else some .selectedRouteScopeMismatch

def stageAfter (freezeAfterSequence stage : ℕ) (event : AccessEvent) : Option ℕ :=
  if event.sequenceNumber ≤ freezeAfterSequence then some stage
  else if event.routeScope ≠ .localRoute then some stage
  else match event.operation.localStageMarker with
    | some marker => if marker < stage ∨ stage + 1 < marker then none else some (max stage marker)
    | none =>
      if ∃ artifactStage ∈ event.operation.localArtifactStage, artifactStage ≠ stage then none
      -- Ground transitions belong to materialization or to the post-audit.
      else if event.operation ∈ AccessOperation.groundTransition ∧ stage ∉ [1, 5] then none
      else some stage

def localExecutionOrderViolation (freezeAfterSequence : ℕ) (events : List AccessEvent) :
    Option AccessEvent := loop 0 events
where
  loop (stage : ℕ) : List AccessEvent → Option AccessEvent
    | [] => none
    | event :: rest => match stageAfter freezeAfterSequence stage event with
      | none => some event
      | some stage => loop stage rest

def localExecutionStages (events : List AccessEvent) (freezeAfterSequence : ℕ) : List ℕ :=
  events.foldl (fun reached event =>
    if event.sequenceNumber ≤ freezeAfterSequence then reached
    else match event.operation.localStageMarker with
      | some stage => if reached.getLast? = some stage then reached else reached ++ [stage]
      | none => reached) []

/-! ## The freeze of a decision -/

structure MarginalRouteDecision where
  decisionPointId : ContentId
  selectedRoute : RouteSelection
  routeDecisionId : ContentId

/-- The evidence of a semantic replay, with what it carries when that is a route decision. -/
structure DecisionEvidence where
  artifact : Option MarginalRouteDecision
  artifactId : ContentId
  routeAttemptId : ContentId
  decisionPointId : ContentId
  verificationAttestationId : ContentId
  outcome : String

structure FreezeAttestation where
  routeAttemptId : ContentId
  decisionPointId : ContentId
  routeDecisionId : ContentId
  verificationAttestationId : ContentId
  selectedRoute : RouteSelection
  profileId : ContentId
  prefreezeLogId : ContentId
  lastPreselectionSequence : ℕ

/-- The digests of the protocol, and the semantic authority that it trusts with route decisions. -/
structure AccessAuthority where
  profileId : ContentId
  logId : AccessEventLog → ContentId
  freezeId : FreezeAttestation → ContentId
  authoritative : DecisionEvidence → Bool

namespace AccessRecord

variable {routeAttemptId decisionPointId : ContentId}

def empty : AccessRecord routeAttemptId decisionPointId := ⟨[], by simp, by simp⟩

/-- The first events of a record. -/
def take (record : AccessRecord routeAttemptId decisionPointId) (n : ℕ) :
    AccessRecord routeAttemptId decisionPointId where
  events := record.events.take n
  numbered i h := by
    rw [List.getElem_take]
    exact record.numbered i (lt_of_lt_of_le h (List.length_take_le' _ _))
  bound e he := record.bound e (List.mem_of_mem_take he)

/-- A record and its next event. -/
def append (record : AccessRecord routeAttemptId decisionPointId) (event : AccessEvent)
    (hsequence : event.sequenceNumber = record.events.length + 1)
    (hbound : event.routeAttemptId = routeAttemptId ∧ event.decisionPointId = decisionPointId) :
    AccessRecord routeAttemptId decisionPointId where
  events := record.events ++ [event]
  numbered i h := by
    rcases Nat.lt_or_ge i record.events.length with hlt | hge
    · rw [List.getElem_append_left hlt]
      exact record.numbered i hlt
    · obtain rfl : i = record.events.length := by simp at h; omega
      simpa using hsequence
  bound e he := by
    rcases List.mem_append.mp he with he | he
    · exact record.bound e he
    · rw [List.mem_singleton.mp he]
      exact hbound

end AccessRecord

def AccessEventLog.prefreezePrefix (log : AccessEventLog) : AccessEventLog where
  routeAttemptId := log.routeAttemptId
  decisionPointId := log.decisionPointId
  profileId := log.profileId
  recorded := log.recorded.take (match log.freeze with
    | none => log.recorded.events.length
    | some f => f.freezeAfterSequence)
  freeze := none
  freeze_le := by simp

section Replay

variable (authority : AccessAuthority)

def verifiedRouteDecision (value : DecisionEvidence) (routeAttemptId decisionPointId : ContentId) :
    Except AccessError (MarginalRouteDecision × ContentId) := do
  require (authority.authoritative value)
    (.invalid "route freeze requires authority-bearing ROUTE_DECISION semantic evidence")
  let decision ← orRaise value.artifact
    (.invalid "verified route-decision result carries the wrong artifact type")
  require (value.artifactId = decision.routeDecisionId ∧ value.routeAttemptId = routeAttemptId ∧
      value.decisionPointId = decisionPointId ∧ decision.decisionPointId = decisionPointId ∧
      value.outcome = decision.selectedRoute.value)
    (.invalid "verified route-decision evidence is bound to another attempt or point")
  return (decision, value.verificationAttestationId)

def freezeRoute (prefreezeLog : AccessEventLog) (decisionResult : DecisionEvidence) :
    Except AccessError FreezeAttestation := do
  let (decision, attestationId) ← verifiedRouteDecision authority decisionResult
    prefreezeLog.routeAttemptId prefreezeLog.decisionPointId
  require (prefreezeLog.freeze = none)
    (.invalid "route decision requires an unfrozen prefix log")
  require (prefreezeLog.decisionPointId = decision.decisionPointId)
    (.invalid "route decision and access log point differ")
  require (prefreezeLog.profileId = authority.profileId)
    (.invalid "access log uses another sequence profile")
  prefreezeLog.recorded.events.forM fun event =>
    require (violationReason event none = none)
      (.invalid "cannot freeze after forbidden preselection access")
  return ⟨prefreezeLog.routeAttemptId, prefreezeLog.decisionPointId, decision.routeDecisionId,
    attestationId, decision.selectedRoute, authority.profileId, authority.logId prefreezeLog,
    prefreezeLog.recorded.events.length⟩

def violationArtifact (log : AccessEventLog) (event : AccessEvent) (reason : AccessViolationReason)
    (selected : Option (RouteSelection × ContentId)) : ForbiddenAccessViolation :=
  ⟨log.routeAttemptId, log.decisionPointId, log.profileId, authority.logId log,
    event.sequenceNumber, event.operation, reason, selected⟩

def checkScope (log : AccessEventLog) (selected : Option (RouteSelection × ContentId))
    (event : AccessEvent) : Except AccessError Unit :=
  match violationReason event (selected.map Prod.fst) with
  | none => .ok ()
  | some reason => .error (.violated (violationArtifact authority log event reason selected))

def checkStages (log : AccessEventLog) (freezeAfterSequence : ℕ)
    (selected : RouteSelection × ContentId) : Except AccessError Unit :=
  match localExecutionOrderViolation freezeAfterSequence log.recorded.events with
  | none => .ok ()
  | some event => .error (.violated
      (violationArtifact authority log event .localStageOrderViolation (some selected)))

def checkFreeze (log : AccessEventLog) (frozen : LogFreeze)
    (decisionResult : Option DecisionEvidence) (freezeAttestation : Option FreezeAttestation) :
    Except AccessError (RouteSelection × ContentId) := do
  let result ← orRaise decisionResult
    (.invalid "frozen access log requires its route decision and freeze attestation")
  let freeze ← orRaise freezeAttestation
    (.invalid "frozen access log requires its route decision and freeze attestation")
  let (decision, attestationId) ← verifiedRouteDecision authority result log.routeAttemptId
    log.decisionPointId
  require ((decision.decisionPointId = log.decisionPointId ∧
      decision.routeDecisionId = frozen.routeDecisionId ∧
      freeze.routeAttemptId = log.routeAttemptId ∧
      freeze.decisionPointId = log.decisionPointId) ∧
      (freeze.routeDecisionId = decision.routeDecisionId ∧
      freeze.verificationAttestationId = attestationId ∧
      freeze.selectedRoute = decision.selectedRoute ∧
      freeze.profileId = authority.profileId) ∧
      authority.freezeId freeze = frozen.freezeAttestationId ∧
      freeze.prefreezeLogId = frozen.prefreezeLogId ∧
      freeze.lastPreselectionSequence = frozen.freezeAfterSequence)
    (.invalid "route decision freeze identity chain mismatch")
  require (authority.logId log.prefreezePrefix = frozen.prefreezeLogId)
    (.invalid "prefreeze access-log prefix ID mismatch")
  return (decision.selectedRoute, authority.freezeId freeze)

def replayAccessProtocol (log : AccessEventLog) (decisionResult : Option DecisionEvidence)
    (freezeAttestation : Option FreezeAttestation) : Except AccessError Unit := do
  require (log.profileId = authority.profileId) (.invalid "access log/profile identity mismatch")
  match log.freeze with
  | none =>
    require (decisionResult.isNone ∧ freezeAttestation.isNone)
      (.invalid "unfrozen log cannot bind a route decision")
    log.recorded.events.forM (checkScope authority log none)
  | some frozen =>
    let selected ← checkFreeze authority log frozen decisionResult freezeAttestation
    log.recorded.events.forM fun event =>
      checkScope authority log
        (if event.sequenceNumber ≤ frozen.freezeAfterSequence then none else some selected) event
    if selected.1 = .localRoute then
      checkStages authority log frozen.freezeAfterSequence selected

end Replay

end Acfqp.Access
