import Acfqp.Access.Protocol

/-!
# The fail-closed controller

An append-only recorder that closes on its first violation, and the execution of a frozen decision
by a callback that drives the recorder.
-/

namespace Acfqp.Access

open Library

/-- A frozen decision with its evidence and its attestation. -/
structure FrozenRoute where
  decision : MarginalRouteDecision
  evidence : DecisionEvidence
  attestation : FreezeAttestation

structure FailClosedAccessController where
  routeAttemptId : ContentId
  decisionPointId : ContentId
  recorded : AccessRecord routeAttemptId decisionPointId
  frozen : Option FrozenRoute
  violation : Option ForbiddenAccessViolation
  frozen_le : ∀ f ∈ frozen, f.attestation.lastPreselectionSequence ≤ recorded.events.length

theorem AccessEvent.make_bound {sequenceNumber : ℕ} {routeAttemptId decisionPointId : ContentId}
    {operation : AccessOperation} {routeScope : AccessRouteScope} {artifactId : Option String}
    {event : AccessEvent} (h : AccessEvent.make sequenceNumber routeAttemptId decisionPointId
      operation routeScope artifactId = .ok event) :
    event.sequenceNumber = sequenceNumber ∧ event.routeAttemptId = routeAttemptId ∧
      event.decisionPointId = decisionPointId ∧ event.operation = operation ∧
      event.routeScope = routeScope := by
  unfold AccessEvent.make at h
  split at h
  · split at h
    · split at h
      · split at h
        · obtain rfl := Except.ok.inj h
          exact ⟨rfl, rfl, rfl, rfl, rfl⟩
        · cases h
      · cases h
    · split at h
      · obtain rfl := Except.ok.inj h
        exact ⟨rfl, rfl, rfl, rfl, rfl⟩
      · cases h
  · cases h

namespace FailClosedAccessController

def init (routeAttemptId decisionPointId : ContentId) : FailClosedAccessController where
  routeAttemptId := routeAttemptId
  decisionPointId := decisionPointId
  recorded := .empty
  frozen := none
  violation := none
  frozen_le := by simp

variable (authority : AccessAuthority) (c : FailClosedAccessController)

def snapshot : AccessEventLog where
  routeAttemptId := c.routeAttemptId
  decisionPointId := c.decisionPointId
  profileId := authority.profileId
  recorded := c.recorded
  freeze := c.frozen.map fun f =>
    ⟨f.decision.routeDecisionId, authority.freezeId f.attestation,
      f.attestation.lastPreselectionSequence, f.attestation.prefreezeLogId⟩
  freeze_le := by
    intro frozen hfrozen
    obtain ⟨f, hf, rfl⟩ := Option.mem_map.mp hfrozen
    exact c.frozen_le f hf

def selected : Option (RouteSelection × ContentId) :=
  c.frozen.map fun f => (f.decision.selectedRoute, authority.freezeId f.attestation)

def append (event : AccessEvent) (hsequence : event.sequenceNumber = c.recorded.events.length + 1)
    (hbound : event.routeAttemptId = c.routeAttemptId ∧
      event.decisionPointId = c.decisionPointId) : FailClosedAccessController :=
  { c with
    recorded := c.recorded.append event hsequence hbound
    frozen_le := fun f hf => (c.frozen_le f hf).trans (by simp [AccessRecord.append]) }

/-- Why the last event of a controller is rejected. Events of one log are told apart by their
sequence numbers. -/
def rejection (event : AccessEvent) : Option AccessViolationReason :=
  match violationReason event (c.frozen.map (·.decision.selectedRoute)) with
  | some reason => some reason
  | none =>
    let freezeAfter := (c.frozen.map (·.attestation.lastPreselectionSequence)).getD 0
    if c.frozen.map (·.decision.selectedRoute) = some .localRoute ∧
        (localExecutionOrderViolation freezeAfter c.recorded.events).map (·.sequenceNumber) =
          some event.sequenceNumber then some .localStageOrderViolation
    else none

def record (operation : AccessOperation) (routeScope : AccessRouteScope)
    (artifactId : Option String) : Except AccessError AccessEvent × FailClosedAccessController :=
  match c.violation with
  | some violation => (.error (.violated violation), c)
  | none =>
    match h : AccessEvent.make (c.recorded.events.length + 1) c.routeAttemptId c.decisionPointId
        operation routeScope artifactId with
    | .error e => (.error e, c)
    | .ok event =>
      let after := c.append event (AccessEvent.make_bound h).1
        ⟨(AccessEvent.make_bound h).2.1, (AccessEvent.make_bound h).2.2.1⟩
      match after.rejection event with
      | none => (.ok event, after)
      | some reason =>
        let violation := violationArtifact authority (after.snapshot authority) event reason
          (after.selected authority)
        (.error (.violated violation), { after with violation := some violation })

def freezeDecision (decisionResult : DecisionEvidence) : Except AccessError FrozenRoute := do
  let freeze ← freezeRoute authority (c.snapshot authority) decisionResult
  let (decision, _) ← verifiedRouteDecision authority decisionResult c.routeAttemptId
    c.decisionPointId
  return ⟨decision, decisionResult, freeze⟩

end FailClosedAccessController

theorem freezeRoute_eq_ok {authority : AccessAuthority} {log : AccessEventLog}
    {evidence : DecisionEvidence} {freeze : FreezeAttestation}
    (h : freezeRoute authority log evidence = .ok freeze) :
    ∃ decision attestationId, verifiedRouteDecision authority evidence log.routeAttemptId
        log.decisionPointId = .ok (decision, attestationId) ∧
      freeze = ⟨log.routeAttemptId, log.decisionPointId, decision.routeDecisionId, attestationId,
        decision.selectedRoute, authority.profileId, authority.logId log,
        log.recorded.events.length⟩ := by
  simp only [freezeRoute, bind_eq_ok, require_eq_ok, pure_eq_ok] at h
  obtain ⟨⟨decision, attestationId⟩, hverified, -, -, -, -, -, -, -, -, rfl⟩ := h
  exact ⟨decision, attestationId, hverified, rfl⟩

namespace FailClosedAccessController

variable (authority : AccessAuthority) (c : FailClosedAccessController)

variable {authority c} in
theorem freezeDecision_eq_ok {evidence : DecisionEvidence} {f : FrozenRoute}
    (h : c.freezeDecision authority evidence = .ok f) :
    ∃ attestationId, verifiedRouteDecision authority evidence c.routeAttemptId c.decisionPointId =
        .ok (f.decision, attestationId) ∧ f.evidence = evidence ∧
      f.attestation = ⟨c.routeAttemptId, c.decisionPointId, f.decision.routeDecisionId,
        attestationId, f.decision.selectedRoute, authority.profileId,
        authority.logId (c.snapshot authority), c.recorded.events.length⟩ := by
  simp only [freezeDecision, bind_eq_ok, pure_eq_ok] at h
  obtain ⟨freeze, hfreeze, ⟨decision, attestationId⟩, hverified, rfl⟩ := h
  obtain ⟨decision', attestationId', hverified', rfl⟩ := freezeRoute_eq_ok hfreeze
  cases hverified'.symm.trans hverified
  exact ⟨attestationId, hverified, rfl, rfl⟩

variable {authority c} in
theorem freezeDecision_le {evidence : DecisionEvidence} {f : FrozenRoute}
    (h : c.freezeDecision authority evidence = .ok f) :
    f.attestation.lastPreselectionSequence ≤ c.recorded.events.length := by
  obtain ⟨_, -, -, heq⟩ := freezeDecision_eq_ok h
  rw [heq]

def withFrozen (f : FrozenRoute)
    (h : f.attestation.lastPreselectionSequence ≤ c.recorded.events.length) :
    FailClosedAccessController :=
  { c with
    frozen := some f
    frozen_le := by
      rintro _ ⟨⟩
      exact h }

def freezeRouteDecision (decisionResult : DecisionEvidence) :
    Except AccessError FreezeAttestation × FailClosedAccessController :=
  match c.violation with
  | some violation => (.error (.violated violation), c)
  | none =>
    if c.frozen.isSome then (.error (.invalid "route decision was already frozen"), c)
    else
      match h : c.freezeDecision authority decisionResult with
      | .error e => (.error e, c)
      | .ok f => (.ok f.attestation, c.withFrozen f (freezeDecision_le h))

def verify : Except AccessError Unit :=
  replayAccessProtocol authority (c.snapshot authority) (c.frozen.map (·.evidence))
    (c.frozen.map (·.attestation))

/-! ## Calls -/

inductive Call
  | record (operation : AccessOperation) (routeScope : AccessRouteScope)
      (artifactId : Option String)
  | freeze (decisionResult : DecisionEvidence)
  | verify

def answer : Call → Except AccessError Unit × FailClosedAccessController
  | .record operation routeScope artifactId =>
    let (result, after) := c.record authority operation routeScope artifactId
    (result.map fun _ => (), after)
  | .freeze decisionResult =>
    let (result, after) := c.freezeRouteDecision authority decisionResult
    (result.map fun _ => (), after)
  | .verify => (c.verify authority, c)

/-- Code that drives a controller: each call may depend on every answer and on everything that the
controller shows, and the code may end with a value or raise. -/
inductive Callback (T : Type)
  | ret (value : T)
  | raise
  | invoke (call : Call)
      (next : Except AccessError Unit → FailClosedAccessController → Callback T)

/-- How a callback ends, the controller after it, and the calls that it made. -/
def Callback.run {T : Type} : Callback T → FailClosedAccessController →
    Option T × FailClosedAccessController × List (Call × Except AccessError Unit)
  | .ret value, c => (some value, c, [])
  | .raise, c => (none, c, [])
  | .invoke call next, c =>
    let (result, after) := c.answer authority call
    let (value, last, calls) := (next result after).run after
    (value, last, (call, result) :: calls)

inductive ExecutionError
  | access (error : AccessError)
  | callback

def decideThenExecute {T : Type} (decisionResult : DecisionEvidence)
    (localCallback fallbackCallback : Callback T) : Except ExecutionError T := do
  let (frozen, c) := c.freezeRouteDecision authority decisionResult
  let attestation ← frozen.mapError .access
  if c.frozen.map (·.decision.selectedRoute) = some .localRoute then
    let (result, c, _) := localCallback.run authority c
    let result ← orRaise result .callback
    (c.verify authority).mapError .access
    require (localExecutionStages c.recorded.events attestation.lastPreselectionSequence ∈
        [[1, 2, 3], [1, 2, 3, 4, 5]])
      (.access (.invalid "completed local callback omitted a required execution stage"))
    return result
  else
    let (result, c, _) := fallbackCallback.run authority c
    let result ← orRaise result .callback
    (c.verify authority).mapError .access
    return result

end FailClosedAccessController

end Acfqp.Access
