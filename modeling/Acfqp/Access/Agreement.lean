import Acfqp.Access.Controller
import Acfqp.Library.Runs

/-!
# The controller agrees with the replay

A controller that is open replays, and one that is closed replays to its violation. So one more
event is rejected exactly when the replay of the log with it raises, and with the same violation.
-/

namespace Acfqp.Access

open Library

theorem loop_append {freezeAfter stage : ℕ} {events : List AccessEvent} (event : AccessEvent)
    (h : localExecutionOrderViolation.loop freezeAfter stage events = none) :
    localExecutionOrderViolation.loop freezeAfter stage (events ++ [event]) = none ∨
      localExecutionOrderViolation.loop freezeAfter stage (events ++ [event]) = some event := by
  induction events generalizing stage with
  | nil =>
    simp only [List.nil_append, localExecutionOrderViolation.loop]
    cases stageAfter freezeAfter stage event with
    | none => exact .inr rfl
    | some _ => exact .inl rfl
  | cons head rest ih =>
    rw [localExecutionOrderViolation.loop] at h
    rw [List.cons_append, localExecutionOrderViolation.loop]
    cases hstage : stageAfter freezeAfter stage head with
    | none =>
      rw [hstage] at h
      cases h
    | some next =>
      rw [hstage] at h
      exact ih h

namespace FailClosedAccessController

variable {authority : AccessAuthority} {c : FailClosedAccessController}

/-! ## The replay of a snapshot -/

section

variable (authority c)

def selectedAt (event : AccessEvent) : Option (RouteSelection × ContentId) :=
  c.frozen.bind fun f =>
    if event.sequenceNumber ≤ f.attestation.lastPreselectionSequence then none
    else some (f.decision.selectedRoute, authority.freezeId f.attestation)

def replayScopes : Except AccessError Unit :=
  c.recorded.events.forM fun event =>
    checkScope authority (c.snapshot authority) (c.selectedAt authority event) event

def replayStages : Except AccessError Unit :=
  match c.frozen with
  | none => .ok ()
  | some f =>
    if f.decision.selectedRoute = .localRoute then
      checkStages authority (c.snapshot authority) f.attestation.lastPreselectionSequence
        (f.decision.selectedRoute, authority.freezeId f.attestation)
    else .ok ()

/-- The evidence of the frozen decision is verified, and the freeze binds it and the prefix. -/
structure FrozenBy (f : FrozenRoute) : Prop where
  verified : verifiedRouteDecision authority f.evidence c.routeAttemptId c.decisionPointId =
    .ok (f.decision, f.attestation.verificationAttestationId)
  attempt : f.attestation.routeAttemptId = c.routeAttemptId
  point : f.attestation.decisionPointId = c.decisionPointId
  decision : f.attestation.routeDecisionId = f.decision.routeDecisionId
  route : f.attestation.selectedRoute = f.decision.selectedRoute
  profile : f.attestation.profileId = authority.profileId
  prefreeze : f.attestation.prefreezeLogId =
    authority.logId (c.snapshot authority).prefreezePrefix

end

theorem checkFreeze_snapshot {f : FrozenRoute} (h : c.FrozenBy authority f) :
    checkFreeze authority (c.snapshot authority) ⟨f.decision.routeDecisionId,
        authority.freezeId f.attestation, f.attestation.lastPreselectionSequence,
        f.attestation.prefreezeLogId⟩ (some f.evidence) (some f.attestation) =
      .ok (f.decision.selectedRoute, authority.freezeId f.attestation) := by
  have hverified := h.verified
  have hpoint : f.decision.decisionPointId = c.decisionPointId := by
    simp only [verifiedRouteDecision, bind_eq_ok, require_eq_ok, pure_eq_ok, Prod.mk.injEq]
      at hverified
    obtain ⟨-, -, _, -, _, hbound, rfl, -⟩ := hverified
    exact hbound.2.2.2.1
  exact bind_eq_ok.mpr ⟨_, rfl, bind_eq_ok.mpr ⟨_, rfl, bind_eq_ok.mpr ⟨_, h.verified,
    bind_eq_ok.mpr ⟨(), require_eq_ok.mpr ⟨⟨hpoint, rfl, h.attempt, h.point⟩,
      ⟨h.decision, rfl, h.route, h.profile⟩, rfl, rfl, rfl⟩,
    bind_eq_ok.mpr ⟨(), require_eq_ok.mpr h.prefreeze.symm, rfl⟩⟩⟩⟩⟩

/-- The replay of a snapshot is the two checks of its events. -/
theorem verify_eq (h : ∀ f ∈ c.frozen, c.FrozenBy authority f) :
    c.verify authority = (do c.replayScopes authority; c.replayStages authority) := by
  have hprofile : require ((c.snapshot authority).profileId = authority.profileId)
      (.invalid "access log/profile identity mismatch" : AccessError) = .ok () :=
    require_eq_ok.mpr rfl
  unfold verify replayAccessProtocol
  rw [hprofile]
  cases hfrozen : c.frozen with
  | none =>
    have hlog : (c.snapshot authority).freeze = none := by simp [snapshot, hfrozen]
    have hscopes : c.replayScopes authority = (c.snapshot authority).recorded.events.forM
        (checkScope authority (c.snapshot authority) none) := by
      simp [replayScopes, selectedAt, hfrozen, snapshot]
    have hstages : c.replayStages authority = .ok () := by simp [replayStages, hfrozen]
    rw [hlog, hscopes, hstages]
    cases (c.snapshot authority).recorded.events.forM
      (checkScope authority (c.snapshot authority) none) <;> rfl
  | some f =>
    have hlog : (c.snapshot authority).freeze = some ⟨f.decision.routeDecisionId,
        authority.freezeId f.attestation, f.attestation.lastPreselectionSequence,
        f.attestation.prefreezeLogId⟩ := by simp [snapshot, hfrozen]
    have hscopes : c.replayScopes authority = (c.snapshot authority).recorded.events.forM
        fun event => checkScope authority (c.snapshot authority)
          (if event.sequenceNumber ≤ f.attestation.lastPreselectionSequence then none
          else some (f.decision.selectedRoute, authority.freezeId f.attestation)) event := by
      simp [replayScopes, selectedAt, hfrozen, snapshot]
    have hstages : c.replayStages authority = if f.decision.selectedRoute = .localRoute then
        checkStages authority (c.snapshot authority) f.attestation.lastPreselectionSequence
          (f.decision.selectedRoute, authority.freezeId f.attestation) else .ok () := by
      simp [replayStages, hfrozen]
    rw [hlog, hscopes, hstages]
    simp only [Option.map_some, checkFreeze_snapshot (h f hfrozen)]
    rfl

/-! ## One more event -/

theorem checkScope_eq_ok {log : AccessEventLog} {selected : Option (RouteSelection × ContentId)}
    {event : AccessEvent} {u : Unit} :
    checkScope authority log selected event = .ok u ↔
      violationReason event (selected.map Prod.fst) = none := by
  unfold checkScope
  cases violationReason event (selected.map Prod.fst) <;> simp

/-- Whether the events of a controller are in order does not depend on its log's identity. -/
theorem replayScopes_eq_ok {u : Unit} :
    c.replayScopes authority = .ok u ↔ ∀ event ∈ c.recorded.events,
      violationReason event ((c.selectedAt authority event).map Prod.fst) = none := by
  constructor
  · intro h event hevent
    exact checkScope_eq_ok.mp (forM_eq_ok h event hevent)
  · intro h
    exact forM_of_forall fun event hevent => checkScope_eq_ok.mpr (h event hevent)

theorem replayStages_eq_ok {u : Unit} :
    c.replayStages authority = .ok u ↔ ∀ f ∈ c.frozen, f.decision.selectedRoute = .localRoute →
      localExecutionOrderViolation f.attestation.lastPreselectionSequence c.recorded.events =
        none := by
  unfold replayStages
  cases c.frozen with
  | none => simp
  | some f =>
    simp only [Option.mem_def, Option.some.injEq, forall_eq']
    by_cases hroute : f.decision.selectedRoute = .localRoute
    · rw [if_pos hroute, checkStages]
      cases h : localExecutionOrderViolation f.attestation.lastPreselectionSequence
          (c.snapshot authority).recorded.events with
      | none => exact ⟨fun _ _ => h, fun _ => rfl⟩
      | some event =>
        refine ⟨fun hno => (by cases hno), fun hno => ?_⟩
        cases h.symm.trans (hno hroute)
    · simp [hroute]

section Append

variable {event : AccessEvent}
  (hsequence : event.sequenceNumber = c.recorded.events.length + 1)
  (hbound : event.routeAttemptId = c.routeAttemptId ∧ event.decisionPointId = c.decisionPointId)

theorem prefreezePrefix_snapshot {f : FrozenRoute} (hfrozen : c.frozen = some f) :
    (c.snapshot authority).prefreezePrefix = ⟨c.routeAttemptId, c.decisionPointId,
      authority.profileId, c.recorded.take f.attestation.lastPreselectionSequence, none,
      by simp⟩ := by
  simp [AccessEventLog.prefreezePrefix, snapshot, hfrozen]

/-- The freeze stays bound to its prefix. -/
theorem FrozenBy.append {f : FrozenRoute} (hfrozen : c.frozen = some f)
    (h : c.FrozenBy authority f) : (c.append event hsequence hbound).FrozenBy authority f := by
  refine ⟨h.verified, h.attempt, h.point, h.decision, h.route, h.profile, h.prefreeze.trans ?_⟩
  have hle := c.frozen_le f hfrozen
  have htake : (c.recorded.append event hsequence hbound).take
      f.attestation.lastPreselectionSequence =
      c.recorded.take f.attestation.lastPreselectionSequence := by
    simp only [AccessRecord.take, AccessRecord.append, AccessRecord.mk.injEq]
    exact List.take_append_of_le_length hle
  have hfrozen' : (c.append event hsequence hbound).frozen = some f := hfrozen
  rw [prefreezePrefix_snapshot hfrozen, prefreezePrefix_snapshot hfrozen']
  exact congrArg (fun recorded => authority.logId ⟨c.routeAttemptId, c.decisionPointId,
    authority.profileId, recorded, none, by simp⟩) htake.symm

theorem selectedAt_append :
    (c.append event hsequence hbound).selectedAt authority event =
      (c.append event hsequence hbound).selected authority := by
  unfold selectedAt selected
  cases hfrozen : (c.append event hsequence hbound).frozen with
  | none => rfl
  | some f =>
    have hle := c.frozen_le f hfrozen
    simp only [Option.bind_some, Option.map_some]
    rw [if_neg (by omega)]

theorem replayScopes_append (h : c.replayScopes authority = .ok ()) :
    (c.append event hsequence hbound).replayScopes authority =
      checkScope authority ((c.append event hsequence hbound).snapshot authority)
        ((c.append event hsequence hbound).selected authority) event := by
  have hbefore : c.recorded.events.forM (fun old =>
      checkScope authority ((c.append event hsequence hbound).snapshot authority)
        ((c.append event hsequence hbound).selectedAt authority old) old) = .ok () :=
    forM_of_forall fun old hold => checkScope_eq_ok.mpr (replayScopes_eq_ok.mp h old hold)
  have hevents : (c.append event hsequence hbound).recorded.events =
      c.recorded.events ++ [event] := rfl
  unfold replayScopes
  rw [hevents, List.forM_eq_forM, List.forM_append, ← List.forM_eq_forM, hbefore]
  simp only [List.forM_eq_forM, List.forM_cons, selectedAt_append, List.forM_nil]
  cases checkScope authority ((c.append event hsequence hbound).snapshot authority)
    ((c.append event hsequence hbound).selected authority) event <;> rfl

/-- The replay of one more event raises exactly what the controller rejects it with. -/
theorem verify_append (hfrozen : ∀ f ∈ c.frozen, c.FrozenBy authority f)
    (h : c.verify authority = .ok ()) :
    ((c.append event hsequence hbound).rejection event = none →
      (c.append event hsequence hbound).verify authority = .ok ()) ∧
    ∀ reason, (c.append event hsequence hbound).rejection event = some reason →
      (c.append event hsequence hbound).verify authority = .error (.violated
        (violationArtifact authority ((c.append event hsequence hbound).snapshot authority) event
          reason ((c.append event hsequence hbound).selected authority))) := by
  have hfrozen' : ∀ f ∈ (c.append event hsequence hbound).frozen,
      (c.append event hsequence hbound).FrozenBy authority f := fun f hf =>
    (hfrozen f hf).append hsequence hbound hf
  rw [verify_eq hfrozen] at h
  obtain ⟨_, hscopes, hstages⟩ := bind_eq_ok.mp h
  rw [replayStages_eq_ok] at hstages
  have hselected : (c.append event hsequence hbound).frozen.map (·.decision.selectedRoute) =
      ((c.append event hsequence hbound).selected authority).map Prod.fst := by
    simp [selected, Option.map_map, Function.comp_def]
  rw [verify_eq hfrozen', replayScopes_append hsequence hbound hscopes]
  unfold rejection checkScope
  rw [hselected]
  cases hreason : violationReason event
      (((c.append event hsequence hbound).selected authority).map Prod.fst) with
  | some reason =>
    refine ⟨fun hno => (by cases hno), fun _ hsome => ?_⟩
    cases hsome
    rfl
  | none =>
    cases hf : c.frozen with
    | none =>
      have hnone : (c.append event hsequence hbound).frozen = none := hf
      simp [selected, hnone, replayStages, bind, Except.bind]
    | some f =>
      have hsome : (c.append event hsequence hbound).frozen = some f := hf
      have hevents : (c.append event hsequence hbound).recorded.events =
        c.recorded.events ++ [event] := rfl
      by_cases hroute : f.decision.selectedRoute = .localRoute
      · have horder := loop_append event (hstages f hf hroute)
        have hviolation : localExecutionOrderViolation f.attestation.lastPreselectionSequence
            (c.append event hsequence hbound).recorded.events = none ∨
          localExecutionOrderViolation f.attestation.lastPreselectionSequence
            (c.append event hsequence hbound).recorded.events = some event := horder
        rcases hviolation with hnone | hsome'
        · simp [selected, hsome, replayStages, hroute, checkStages, snapshot, hnone, bind,
            Except.bind]
        · simp [selected, hsome, replayStages, hroute, checkStages, snapshot, hsome', bind,
            Except.bind]
      · simp [selected, hsome, replayStages, hroute, bind, Except.bind]

end Append

/-! ## Every reachable controller -/

variable (authority c) in
/-- An open controller replays, and a closed one replays to its violation. -/
structure Faithful : Prop where
  frozen : ∀ f ∈ c.frozen, c.FrozenBy authority f
  opened : c.violation = none → c.verify authority = .ok ()
  closed : ∀ violation, c.violation = some violation →
    c.verify authority = .error (.violated violation)

theorem faithful_init (routeAttemptId decisionPointId : ContentId) :
    (init routeAttemptId decisionPointId).Faithful authority := by
  refine ⟨fun f hf => (by cases hf), fun _ => ?_, fun _ h => (by cases h)⟩
  rw [verify_eq fun f hf => (by cases hf)]
  rfl

theorem record_open (hopen : c.violation = none) (operation : AccessOperation)
    (routeScope : AccessRouteScope) (artifactId : Option String) :
    (∃ e, AccessEvent.make (c.recorded.events.length + 1) c.routeAttemptId c.decisionPointId
        operation routeScope artifactId = .error e ∧
      c.record authority operation routeScope artifactId = (.error e, c)) ∨
    ∃ event hsequence hbound, AccessEvent.make (c.recorded.events.length + 1) c.routeAttemptId
        c.decisionPointId operation routeScope artifactId = .ok event ∧
      (((c.append event hsequence hbound).rejection event = none ∧
        c.record authority operation routeScope artifactId =
          (.ok event, c.append event hsequence hbound)) ∨
      ∃ reason, (c.append event hsequence hbound).rejection event = some reason ∧
        c.record authority operation routeScope artifactId =
          (.error (.violated (violationArtifact authority
            ((c.append event hsequence hbound).snapshot authority) event reason
            ((c.append event hsequence hbound).selected authority))),
          { c.append event hsequence hbound with violation := some (violationArtifact authority
            ((c.append event hsequence hbound).snapshot authority) event reason
            ((c.append event hsequence hbound).selected authority)) })) := by
  unfold record
  rw [hopen]
  dsimp only
  split
  · next e h => exact .inl ⟨e, h, rfl⟩
  · next event h =>
    refine .inr ⟨event, (AccessEvent.make_bound h).1,
      ⟨(AccessEvent.make_bound h).2.1, (AccessEvent.make_bound h).2.2.1⟩, h, ?_⟩
    split
    · next hnone => exact .inl ⟨hnone, rfl⟩
    · next reason hsome => exact .inr ⟨reason, hsome, rfl⟩

theorem record_closed {violation : ForbiddenAccessViolation} (h : c.violation = some violation)
    (operation : AccessOperation) (routeScope : AccessRouteScope) (artifactId : Option String) :
    c.record authority operation routeScope artifactId = (.error (.violated violation), c) := by
  unfold record
  rw [h]

theorem Faithful.record (h : c.Faithful authority) (operation : AccessOperation)
    (routeScope : AccessRouteScope) (artifactId : Option String) :
    (c.record authority operation routeScope artifactId).2.Faithful authority := by
  cases hviolation : c.violation with
  | some violation =>
    rw [record_closed hviolation]
    exact h
  | none =>
    obtain ⟨e, -, heq⟩ | ⟨event, hsequence, hbound, -, ⟨hnone, heq⟩ | ⟨reason, hsome, heq⟩⟩ :=
      record_open hviolation operation routeScope artifactId
    · rw [heq]
      exact h
    · rw [heq]
      refine ⟨fun f hf => (h.frozen f hf).append hsequence hbound hf, fun _ => ?_, fun v hv => ?_⟩
      · exact (verify_append hsequence hbound h.frozen (h.opened hviolation)).1 hnone
      · cases hviolation.symm.trans hv
    · rw [heq]
      refine ⟨fun f hf => ?_, fun hno => (by cases hno), fun v hv => ?_⟩
      · obtain ⟨h₁, h₂, h₃, h₄, h₅, h₆, h₇⟩ := (h.frozen f hf).append hsequence hbound hf
        exact ⟨h₁, h₂, h₃, h₄, h₅, h₆, h₇⟩
      · cases hv
        exact (verify_append hsequence hbound h.frozen (h.opened hviolation)).2 reason hsome

theorem loop_of_le {freezeAfter stage : ℕ} {events : List AccessEvent}
    (h : ∀ event ∈ events, event.sequenceNumber ≤ freezeAfter) :
    localExecutionOrderViolation.loop freezeAfter stage events = none := by
  induction events with
  | nil => rfl
  | cons event rest ih =>
    rw [localExecutionOrderViolation.loop, stageAfter, if_pos (h event List.mem_cons_self)]
    exact ih fun event hevent => h event (List.mem_cons_of_mem _ hevent)

theorem sequence_le {event : AccessEvent} (h : event ∈ c.recorded.events) :
    event.sequenceNumber ≤ c.recorded.events.length := by
  obtain ⟨i, hi, rfl⟩ := List.getElem_of_mem h
  have := c.recorded.numbered i hi
  omega

/-- A decision freezes an open controller at its last event. -/
theorem Faithful.withFrozen {f : FrozenRoute} {evidence : DecisionEvidence}
    (h : c.Faithful authority) (hopen : c.violation = none) (hfrozen : c.frozen = none)
    (hf : c.freezeDecision authority evidence = .ok f) :
    (c.withFrozen f (freezeDecision_le hf)).Faithful authority := by
  obtain ⟨attestationId, hverified, hevidence, hattestation⟩ := freezeDecision_eq_ok hf
  have hlast : f.attestation.lastPreselectionSequence = c.recorded.events.length := by
    rw [hattestation]
  have hby : ∀ g ∈ (c.withFrozen f (freezeDecision_le hf)).frozen,
      (c.withFrozen f (freezeDecision_le hf)).FrozenBy authority g := by
    rintro _ ⟨⟩
    refine ⟨by rw [hevidence, hattestation]; exact hverified, by rw [hattestation]; rfl,
      by rw [hattestation]; rfl, by rw [hattestation], by rw [hattestation], by rw [hattestation],
      ?_⟩
    have hlog : (c.snapshot authority) = ⟨c.routeAttemptId, c.decisionPointId,
        authority.profileId, c.recorded, none, by simp⟩ := by
      simp [snapshot, hfrozen]
    have hall : c.recorded.take f.attestation.lastPreselectionSequence = c.recorded := by
      rw [hlast]
      simp [AccessRecord.take]
    have hprefreeze : f.attestation.prefreezeLogId = authority.logId (c.snapshot authority) := by
      rw [hattestation]
    rw [hprefreeze, hlog, prefreezePrefix_snapshot rfl]
    exact congrArg (fun recorded => authority.logId ⟨c.routeAttemptId, c.decisionPointId,
      authority.profileId, recorded, none, by simp⟩) hall.symm
  refine ⟨hby, fun _ => ?_, fun v hv => ?_⟩
  · have hscopes : ∀ event ∈ c.recorded.events, violationReason event none = none := by
      have hverify := h.opened hopen
      rw [verify_eq h.frozen] at hverify
      obtain ⟨_, hscopes, -⟩ := bind_eq_ok.mp hverify
      intro event hevent
      simpa [selectedAt, hfrozen] using replayScopes_eq_ok.mp hscopes event hevent
    rw [verify_eq hby]
    refine bind_eq_ok.mpr ⟨(), replayScopes_eq_ok.mpr fun event hevent => ?_,
      replayStages_eq_ok.mpr ?_⟩
    · have hle : event.sequenceNumber ≤ f.attestation.lastPreselectionSequence :=
        hlast ▸ sequence_le (c := c) hevent
      simpa [selectedAt, FailClosedAccessController.withFrozen, hle] using hscopes event hevent
    · rintro _ ⟨⟩ -
      exact loop_of_le fun event hevent => hlast ▸ sequence_le (c := c) hevent
  · cases hopen.symm.trans hv

theorem Faithful.freezeRouteDecision (h : c.Faithful authority) (evidence : DecisionEvidence) :
    (c.freezeRouteDecision authority evidence).2.Faithful authority := by
  unfold FailClosedAccessController.freezeRouteDecision
  split
  · exact h
  · next hopen =>
    by_cases hfrozen : c.frozen.isSome
    · rw [if_pos hfrozen]
      exact h
    · rw [if_neg hfrozen]
      split
      · exact h
      · next f hf =>
        exact h.withFrozen hopen (by simpa using hfrozen) hf

/-- Every call keeps a controller faithful to its replay. -/
theorem Faithful.answer (h : c.Faithful authority) (call : Call) :
    (c.answer authority call).2.Faithful authority := by
  cases call with
  | record operation routeScope artifactId => exact h.record operation routeScope artifactId
  | freeze evidence => exact h.freezeRouteDecision evidence
  | verify => exact h

/-- A closed controller answers every call with its violation, and never changes. -/
theorem Faithful.answer_closed (h : c.Faithful authority) {violation : ForbiddenAccessViolation}
    (hclosed : c.violation = some violation) (call : Call) :
    c.answer authority call = (.error (.violated violation), c) := by
  cases call with
  | record operation routeScope artifactId =>
    simp only [FailClosedAccessController.answer, record_closed hclosed]
    rfl
  | freeze evidence =>
    simp only [FailClosedAccessController.answer, FailClosedAccessController.freezeRouteDecision]
    rw [hclosed]
    rfl
  | verify =>
    simp only [FailClosedAccessController.answer, h.closed violation hclosed]

end FailClosedAccessController

end Acfqp.Access
