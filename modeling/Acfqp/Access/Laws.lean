import Acfqp.Access.Agreement
import Acfqp.Access.Ordering

/-!
# The laws of the access protocol

What the replay of a log says about its order, what a rejection does to a controller, and why a
callback that swallows a rejection cannot return.
-/

namespace Acfqp.Access

open Library

variable {authority : AccessAuthority}

/-! ## Logs that replay -/

/-- The events of a frozen log: common reads before the freeze; after it common reads, and
operations and scopes of the selected route, whose local stages follow each other. -/
structure OrderedLog (events : List AccessEvent) (freezeAfter : ℕ) (route : RouteSelection) :
    Prop where
  before : ∀ e ∈ events, e.sequenceNumber ≤ freezeAfter →
    e.operation ∈ AccessOperation.preselectionRead ∧ e.routeScope = .common
  after : ∀ e ∈ events, freezeAfter < e.sequenceNumber →
    (e.operation ∈ AccessOperation.preselectionRead ∧ e.routeScope = .common) ∨
    (e.operation ∈ AccessOperation.routeScoped ++ route.ownOperations ∧ e.routeScope = route.scope)
  starts : ∀ marker ∈ (stageMarkers freezeAfter events).head?, marker = 1
  steps : (stageMarkers freezeAfter events).IsChain fun marker next =>
    next = marker ∨ next = marker + 1
  artifact : ∀ i e, events[i]? = some e → freezeAfter < e.sequenceNumber →
    ∀ artifactStage ∈ e.operation.localArtifactStage,
      currentStage freezeAfter (events.take i) = artifactStage
  ground : ∀ i e, events[i]? = some e → freezeAfter < e.sequenceNumber →
    e.operation ∈ AccessOperation.groundTransition → e.routeScope = .localRoute →
      currentStage freezeAfter (events.take i) ∈ [1, 5]
  stages : localExecutionStages events freezeAfter <+: [1, 2, 3, 4, 5]

theorem range'_prefix {stage : ℕ} (h : stage ≤ 5) : List.range' 1 stage <+: [1, 2, 3, 4, 5] := by
  have hfive : [1, 2, 3, 4, 5] = List.range' 1 5 := rfl
  rw [hfive, show 5 = stage + (5 - stage) by omega, ← List.range'_append_1]
  exact List.prefix_append _ _

theorem orderedLog_of_checks {events : List AccessEvent} {freezeAfter : ℕ} {route : RouteSelection}
    (hscopes : ∀ e ∈ events, violationReason e
      (if e.sequenceNumber ≤ freezeAfter then none else some route) = none)
    (hstages : route = .localRoute →
      localExecutionOrderViolation freezeAfter events = none) :
    OrderedLog events freezeAfter route := by
  have hafter : ∀ e ∈ events, freezeAfter < e.sequenceNumber →
      violationReason e (some route) = none := by
    intro e he hlt
    have := hscopes e he
    rwa [if_neg (by omega)] at this
  have hloop : localExecutionOrderViolation.loop freezeAfter 0 events = none := by
    cases route with
    | localRoute => exact hstages rfl
    | fallback => exact loop_of_fallback hafter
  obtain ⟨stage, hstaged⟩ := staged_of_loop staged_nil hafter hloop
  rw [List.nil_append] at hstaged
  refine ⟨fun e he hle => ?_, fun e he hlt => violationReason_selected (hafter e he hlt),
    hstaged.starts, hstaged.steps, hstaged.artifact, hstaged.ground, ?_⟩
  · have := hscopes e he
    rw [if_pos hle] at this
    exact violationReason_none.mp this
  · rw [hstaged.stages]
    exact range'_prefix hstaged.stage_le

theorem checkFreeze_eq_ok {log : AccessEventLog} {frozen : LogFreeze}
    {evidence : Option DecisionEvidence} {freeze : Option FreezeAttestation}
    {selected : RouteSelection × ContentId}
    (h : checkFreeze authority log frozen evidence freeze = .ok selected) :
    ∃ result decision attestationId, evidence = some result ∧
      verifiedRouteDecision authority result log.routeAttemptId log.decisionPointId =
        .ok (decision, attestationId) ∧ selected.1 = decision.selectedRoute := by
  simp only [checkFreeze, bind_eq_ok, orRaise_eq_ok, pure_eq_ok] at h
  obtain ⟨result, hresult, _, -, ⟨decision, attestationId⟩, hverified, _, -, _, -, rfl⟩ := h
  exact ⟨result, decision, attestationId, hresult, hverified, rfl⟩

theorem orderedLog_of_replay {log : AccessEventLog} {evidence : Option DecisionEvidence}
    {freeze : Option FreezeAttestation}
    (h : replayAccessProtocol authority log evidence freeze = .ok ()) :
    (log.freeze = none → ∀ e ∈ log.recorded.events,
      e.operation ∈ AccessOperation.preselectionRead ∧ e.routeScope = .common) ∧
    ∀ frozen, log.freeze = some frozen → ∃ result decision attestationId,
      evidence = some result ∧
      verifiedRouteDecision authority result log.routeAttemptId log.decisionPointId =
        .ok (decision, attestationId) ∧
      OrderedLog log.recorded.events frozen.freezeAfterSequence decision.selectedRoute := by
  unfold replayAccessProtocol at h
  obtain ⟨_, -, h⟩ := bind_eq_ok.mp h
  refine ⟨fun hnone e he => ?_, fun frozen hsome => ?_⟩
  · rw [hnone] at h
    obtain ⟨_, -, hscopes⟩ := bind_eq_ok.mp h
    exact violationReason_none.mp
      (FailClosedAccessController.checkScope_eq_ok.mp (forM_eq_ok hscopes e he))
  · rw [hsome] at h
    obtain ⟨selected, hfreeze, h⟩ := bind_eq_ok.mp h
    obtain ⟨_, hscopes, hstages⟩ := bind_eq_ok.mp h
    obtain ⟨result, decision, attestationId, hresult, hverified, hroute⟩ :=
      checkFreeze_eq_ok hfreeze
    refine ⟨result, decision, attestationId, hresult, hverified,
      orderedLog_of_checks (fun e he => ?_) fun hlocal => ?_⟩
    · have hscope := FailClosedAccessController.checkScope_eq_ok.mp (forM_eq_ok hscopes e he)
      rwa [apply_ite (Option.map Prod.fst), Option.map_none, Option.map_some, hroute] at hscope
    · rw [if_pos (hroute.trans hlocal), checkStages] at hstages
      split at hstages
      · next hnone => exact hnone
      · cases hstages

theorem freezeDecision_raises {c : FailClosedAccessController} {evidence : DecisionEvidence} :
    Raises (fun e => ∃ message, e = AccessError.invalid message)
      (c.freezeDecision authority evidence) := by
  have hverified : ∀ attempt point, Raises (fun e => ∃ message, e = AccessError.invalid message)
      (verifiedRouteDecision authority evidence attempt point) := fun _ _ =>
    .bind (.require ⟨_, rfl⟩) fun _ _ => .bind (.orRaise ⟨_, rfl⟩) fun _ _ =>
      .bind (.require ⟨_, rfl⟩) fun _ _ => .pure
  refine .bind (.bind (hverified _ _) fun _ _ => .bind (.require ⟨_, rfl⟩) fun _ _ =>
    .bind (.require ⟨_, rfl⟩) fun _ _ => .bind (.require ⟨_, rfl⟩) fun _ _ =>
    .bind (.forM fun _ _ => .require ⟨_, rfl⟩) fun _ _ => .pure) fun _ _ =>
    .bind (hverified _ _) fun _ _ => .pure

theorem make_raises {sequenceNumber : ℕ} {routeAttemptId decisionPointId : ContentId}
    {operation : AccessOperation} {routeScope : AccessRouteScope} {artifactId : Option String} :
    Raises (fun e => ∃ message, e = AccessError.invalid message) (AccessEvent.make sequenceNumber
      routeAttemptId decisionPointId operation routeScope artifactId) := by
  intro e h
  unfold AccessEvent.make at h
  split at h
  · split at h
    · split at h
      · split at h
        · cases h
        · cases h
          exact ⟨_, rfl⟩
      · cases h
        exact ⟨_, rfl⟩
    · split at h
      · cases h
      · cases h
        exact ⟨_, rfl⟩
  · cases h
    exact ⟨_, rfl⟩

namespace FailClosedAccessController

variable {c : FailClosedAccessController}

theorem Faithful.closed_of_answer (h : c.Faithful authority) {call : Call}
    {violation : ForbiddenAccessViolation}
    (hanswer : (c.answer authority call).1 = .error (.violated violation)) :
    (c.answer authority call).2.violation = some violation := by
  cases hviolation : c.violation with
  | some earlier =>
    rw [h.answer_closed hviolation] at hanswer ⊢
    cases hanswer
    exact hviolation
  | none =>
    cases call with
    | record operation routeScope artifactId =>
      simp only [FailClosedAccessController.answer] at hanswer ⊢
      obtain ⟨e, hmake, heq⟩ | ⟨event, hsequence, hbound, -, ⟨-, heq⟩ | ⟨reason, -, heq⟩⟩ :=
        record_open hviolation operation routeScope artifactId
      · rw [heq] at hanswer
        obtain ⟨message, rfl⟩ := make_raises e hmake
        cases hanswer
      · rw [heq] at hanswer
        cases hanswer
      · rw [heq] at hanswer ⊢
        cases hanswer
        rfl
    | freeze evidence =>
      simp only [FailClosedAccessController.answer, FailClosedAccessController.freezeRouteDecision,
        hviolation] at hanswer ⊢
      split at hanswer
      · cases hanswer
      · split at hanswer
        · next e he =>
          obtain ⟨message, rfl⟩ := freezeDecision_raises e he
          cases hanswer
        · cases hanswer
    | verify =>
      simp only [FailClosedAccessController.answer, h.opened hviolation] at hanswer
      cases hanswer

/-! ## Runs and callbacks -/

/-- A controller answers every call. -/
def step (authority : AccessAuthority) (c : FailClosedAccessController) (call : Call) :
    Option (Except AccessError Unit × FailClosedAccessController) :=
  some (c.answer authority call)

variable {trace : List (Call × Except AccessError Unit)} {after : FailClosedAccessController}

theorem Faithful.run (h : c.Faithful authority) (hrun : Run (step authority) c trace after) :
    after.Faithful authority := by
  induction hrun with
  | nil => exact h
  | snoc _ hstep ih =>
    obtain rfl := congrArg Prod.snd (Option.some.inj hstep)
    exact ih.answer _

theorem Faithful.run_closed (h : c.Faithful authority) {violation : ForbiddenAccessViolation}
    (hclosed : c.violation = some violation) (hrun : Run (step authority) c trace after) :
    after = c ∧ ∀ answered ∈ trace, answered.2 = .error (.violated violation) := by
  induction hrun with
  | nil => exact ⟨rfl, by simp⟩
  | snoc hrun hstep ih =>
    next call _ =>
    obtain ⟨rfl, htrace⟩ := ih
    have heq := h.answer_closed hclosed call
    rw [step, heq] at hstep
    cases hstep
    refine ⟨rfl, fun answered hmem => ?_⟩
    rcases List.mem_append.mp hmem with hmem | hmem
    · exact htrace answered hmem
    · rw [List.mem_singleton.mp hmem]

theorem Faithful.runCallback {T : Type} (callback : Callback T) (h : c.Faithful authority) :
    (callback.run authority c).2.1.Faithful authority ∧
      ∀ violation, (c.violation = some violation ∨
        ∃ answered ∈ (callback.run authority c).2.2, answered.2 = .error (.violated violation)) →
        (callback.run authority c).2.1.violation = some violation := by
  induction callback generalizing c with
  | ret value => exact ⟨h, by simp [Callback.run]⟩
  | raise => exact ⟨h, by simp [Callback.run]⟩
  | invoke call next ih =>
    obtain ⟨hlast, hviolation⟩ := ih (c.answer authority call).1 (c.answer authority call).2
      (h.answer call)
    refine ⟨hlast, fun violation hmet => hviolation violation ?_⟩
    rcases hmet with hclosed | ⟨answered, hmem, hanswered⟩
    · rw [h.answer_closed hclosed]
      exact .inl hclosed
    · rcases List.mem_cons.mp hmem with rfl | hmem
      · exact .inl (h.closed_of_answer hanswered)
      · exact .inr ⟨answered, hmem, hanswered⟩

def selectedCallback {T : Type} (c : FailClosedAccessController)
    (localCallback fallbackCallback : Callback T) : Callback T :=
  if c.frozen.map (·.decision.selectedRoute) = some .localRoute then localCallback
  else fallbackCallback

theorem verify_of_decideThenExecute {T : Type} {evidence : DecisionEvidence}
    {localCallback fallbackCallback : Callback T} {value : T}
    (h : c.decideThenExecute authority evidence localCallback fallbackCallback = .ok value) :
    ((((c.freezeRouteDecision authority evidence).2.selectedCallback localCallback
      fallbackCallback).run authority (c.freezeRouteDecision authority evidence).2).2.1).verify
        authority = .ok () := by
  have hverify : ∀ (c : FailClosedAccessController) {u : Unit},
      (c.verify authority).mapError ExecutionError.access = .ok u →
        c.verify authority = .ok () := by
    intro c u hu
    cases hc : c.verify authority with
    | error e =>
      rw [hc] at hu
      cases hu
    | ok _ => rfl
  unfold decideThenExecute at h
  generalize c.freezeRouteDecision authority evidence = frozen at h ⊢
  obtain ⟨frozen, after⟩ := frozen
  obtain ⟨attestation, -, h⟩ := bind_eq_ok.mp h
  unfold selectedCallback
  by_cases hlocal : after.frozen.map (·.decision.selectedRoute) = some .localRoute
  · rw [if_pos hlocal] at h ⊢
    obtain ⟨_, -, h⟩ := bind_eq_ok.mp h
    obtain ⟨_, hchecked, -⟩ := bind_eq_ok.mp h
    exact hverify _ hchecked
  · rw [if_neg hlocal] at h ⊢
    obtain ⟨_, -, h⟩ := bind_eq_ok.mp h
    obtain ⟨_, hchecked, -⟩ := bind_eq_ok.mp h
    exact hverify _ hchecked

end FailClosedAccessController

/-! ## The laws -/

/-- The events that a log may hold, and the agreement of the online controller with the replay. -/
structure AccessProtocolLaws (authority : AccessAuthority) : Prop where
  /-- One more event of an open controller is rejected exactly when the replay with it raises, at
  the number of that event and with the same violation. -/
  agree : ∀ attempt point trace c,
    Run (FailClosedAccessController.step authority) (.init attempt point) trace c →
    c.violation = none → ∀ operation routeScope artifactId event,
    AccessEvent.make (c.recorded.events.length + 1) c.routeAttemptId c.decisionPointId operation
      routeScope artifactId = .ok event →
    ∃ result after, c.record authority operation routeScope artifactId = (result, after) ∧
      after.recorded.events = c.recorded.events ++ [event] ∧
      ((∃ e, result = .error e) ↔ ∃ e, after.verify authority = .error e) ∧
      ∀ e, result = .error e → after.verify authority = .error e ∧ ∃ violation,
        e = .violated violation ∧ after.violation = some violation ∧
        violation.offendingSequenceNumber = event.sequenceNumber
  /-- After a rejection no event is appended, and every call answers with the violation. -/
  closed : ∀ attempt point trace c,
    Run (FailClosedAccessController.step authority) (.init attempt point) trace c →
    ∀ violation, c.violation = some violation → c.verify authority = .error (.violated violation) ∧
    ∀ more later, Run (FailClosedAccessController.step authority) c more later →
      later = c ∧ ∀ answered ∈ more, answered.2 = .error (.violated violation)
  /-- An execution that returns has met no violation, even one that its callback swallowed. -/
  executes : ∀ attempt point trace c,
    Run (FailClosedAccessController.step authority) (.init attempt point) trace c →
    ∀ (T : Type) evidence (localCallback fallbackCallback : FailClosedAccessController.Callback T)
      value, c.decideThenExecute authority evidence localCallback fallbackCallback = .ok value →
    ∀ answered ∈ (((c.freezeRouteDecision authority evidence).2.selectedCallback localCallback
      fallbackCallback).run authority (c.freezeRouteDecision authority evidence).2).2.2,
      ∀ violation, answered.2 ≠ .error (.violated violation)
  /-- An unfrozen log that replays holds common reads, and a frozen one is ordered. -/
  ordered : ∀ log evidence freeze, replayAccessProtocol authority log evidence freeze = .ok () →
    (log.freeze = none → ∀ e ∈ log.recorded.events,
      e.operation ∈ AccessOperation.preselectionRead ∧ e.routeScope = .common) ∧
    ∀ frozen, log.freeze = some frozen → ∃ result decision attestationId,
      evidence = some result ∧
      verifiedRouteDecision authority result log.routeAttemptId log.decisionPointId =
        .ok (decision, attestationId) ∧
      OrderedLog log.recorded.events frozen.freezeAfterSequence decision.selectedRoute

open FailClosedAccessController in
theorem accessProtocol_laws (authority : AccessAuthority) : AccessProtocolLaws authority := by
  refine ⟨fun attempt point trace c hrun hopen operation routeScope artifactId event hmake => ?_,
    fun attempt point trace c hrun violation hclosed => ?_,
    fun attempt point trace c hrun T evidence localCallback fallbackCallback value hreturn => ?_,
    fun log evidence freeze => orderedLog_of_replay⟩
  · have hfaithful := (faithful_init attempt point).run hrun
    have hafter := hfaithful.record operation routeScope artifactId
    obtain ⟨e, he, -⟩ | ⟨event', hsequence, hbound, he, h⟩ :=
      record_open hopen operation routeScope artifactId
    · cases hmake.symm.trans he
    · cases hmake.symm.trans he
      obtain ⟨-, heq⟩ | ⟨reason, -, heq⟩ := h
      · rw [heq] at hafter
        refine ⟨_, _, heq, rfl, ⟨fun ⟨e, h⟩ => (by cases h), fun ⟨e, h⟩ => ?_⟩,
          fun e h => (by cases h)⟩
        cases h.symm.trans (hafter.opened hopen)
      · rw [heq] at hafter
        refine ⟨_, _, heq, rfl, ⟨fun _ => ⟨_, hafter.closed _ rfl⟩, fun _ => ⟨_, rfl⟩⟩,
          fun e h => ?_⟩
        obtain rfl := Except.error.inj h
        exact ⟨hafter.closed _ rfl, _, rfl, rfl, rfl⟩
  · have hfaithful := (faithful_init attempt point).run hrun
    exact ⟨hfaithful.closed violation hclosed, fun more later => hfaithful.run_closed hclosed⟩
  · have hfaithful := (faithful_init attempt point).run hrun
    obtain ⟨hlast, hmet⟩ := (hfaithful.freezeRouteDecision evidence).runCallback
      ((c.freezeRouteDecision authority evidence).2.selectedCallback localCallback fallbackCallback)
    intro answered hmem violation hanswered
    have hclosed := hmet violation (.inr ⟨answered, hmem, hanswered⟩)
    cases (hlast.closed violation hclosed).symm.trans (verify_of_decideThenExecute hreturn)

/-! ## A frozen log with a common read -/

def sampleAuthority : AccessAuthority where
  profileId := .ofNat 1
  logId log := .ofNat (100 + log.recorded.events.length)
  freezeId freeze := .ofNat (200 + freeze.lastPreselectionSequence)
  authoritative _ := true

def sampleRead : AccessEvent where
  sequenceNumber := 1
  routeAttemptId := .ofNat 2
  decisionPointId := .ofNat 3
  operation := .readSelectedPlan
  routeScope := .common
  artifactId := some (.ofNat 4)
  sequence_pos := Nat.zero_lt_one
  artifact_iff := by decide

/-- The only event of this log, the read of the selected plan, follows the freeze. -/
def sampleLog : AccessEventLog where
  routeAttemptId := .ofNat 2
  decisionPointId := .ofNat 3
  profileId := .ofNat 1
  recorded :=
    { events := [sampleRead]
      numbered := by simp [sampleRead]
      bound := by simp [sampleRead] }
  freeze := some ⟨.ofNat 5, .ofNat 200, 0, .ofNat 100⟩
  freeze_le := by simp

def sampleEvidence : DecisionEvidence where
  artifact := some ⟨.ofNat 3, .localRoute, .ofNat 5⟩
  artifactId := .ofNat 5
  routeAttemptId := .ofNat 2
  decisionPointId := .ofNat 3
  verificationAttestationId := .ofNat 6
  outcome := "LOCAL"

def sampleFreeze : FreezeAttestation where
  routeAttemptId := .ofNat 2
  decisionPointId := .ofNat 3
  routeDecisionId := .ofNat 5
  verificationAttestationId := .ofNat 6
  selectedRoute := .localRoute
  profileId := .ofNat 1
  prefreezeLogId := .ofNat 100
  lastPreselectionSequence := 0

theorem verified_sampleEvidence :
    verifiedRouteDecision sampleAuthority sampleEvidence (.ofNat 2) (.ofNat 3) =
      .ok (⟨.ofNat 3, .localRoute, .ofNat 5⟩, .ofNat 6) := by
  simp only [verifiedRouteDecision, bind_eq_ok, require_eq_ok, orRaise_eq_ok, pure_eq_ok]
  exact ⟨(), rfl, _, rfl, (), ⟨rfl, rfl, rfl, rfl, rfl⟩, rfl⟩

theorem replay_sampleLog :
    replayAccessProtocol sampleAuthority sampleLog (some sampleEvidence) (some sampleFreeze) =
      .ok () := by
  have hfreeze : checkFreeze sampleAuthority sampleLog ⟨.ofNat 5, .ofNat 200, 0, .ofNat 100⟩
      (some sampleEvidence) (some sampleFreeze) = .ok (.localRoute, .ofNat 200) := by
    simp only [checkFreeze, bind_eq_ok, orRaise_eq_ok, require_eq_ok, pure_eq_ok]
    exact ⟨_, rfl, _, rfl, _, verified_sampleEvidence, (), ⟨⟨rfl, rfl, rfl, rfl⟩,
      ⟨rfl, rfl, rfl, rfl⟩, rfl, rfl, rfl⟩, (), rfl, rfl⟩
  unfold replayAccessProtocol
  refine bind_eq_ok.mpr ⟨(), require_eq_ok.mpr rfl, bind_eq_ok.mpr ⟨_, hfreeze, ?_⟩⟩
  exact bind_eq_ok.mpr ⟨(), rfl, rfl⟩

/-- An event after the freeze need not be an operation or a scope of the selected route. -/
theorem accessProtocol_commonRead_sample :
    replayAccessProtocol sampleAuthority sampleLog (some sampleEvidence) (some sampleFreeze) =
      .ok () ∧
    ∃ frozen ∈ sampleLog.freeze, ∃ e ∈ sampleLog.recorded.events,
      frozen.freezeAfterSequence < e.sequenceNumber ∧
      e.operation ∉ AccessOperation.routeScoped ++ RouteSelection.localRoute.ownOperations ∧
      e.routeScope ≠ RouteSelection.localRoute.scope :=
  ⟨replay_sampleLog, _, rfl, sampleRead, List.mem_singleton.mpr rfl, Nat.one_pos, by decide,
    by decide⟩

open FailClosedAccessController in
/-- A kernel step before the freeze is rejected, and the log above is ordered. -/
theorem accessProtocol_laws_sample :
    (∃ violation, ((init (.ofNat 2) (.ofNat 3)).record sampleAuthority .kernelStep .localRoute
        none).2.verify sampleAuthority = .error (.violated violation) ∧
      violation.offendingSequenceNumber = 1) ∧
    OrderedLog sampleLog.recorded.events 0 .localRoute := by
  have hlaws := accessProtocol_laws sampleAuthority
  constructor
  · obtain ⟨result, after, hrecord, -, -, hrejected⟩ := hlaws.agree (.ofNat 2) (.ofNat 3) [] _ .nil
      rfl .kernelStep .localRoute none _ rfl
    obtain ⟨hverify, violation, hviolation, -, hnumber⟩ :=
      hrejected _ (congrArg Prod.fst hrecord.symm)
    refine ⟨violation, ?_, hnumber⟩
    rw [hrecord, ← hviolation]
    exact hverify
  · obtain ⟨result, decision, attestationId, hresult, hverified, hordered⟩ :=
      (hlaws.ordered _ _ _ replay_sampleLog).2 _ rfl
    cases hresult
    cases hverified.symm.trans verified_sampleEvidence
    exact hordered

end Acfqp.Access
