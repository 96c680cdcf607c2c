import Acfqp.Route.Strict

/-!
# The strict and the loose replay of one envelope

Both replays follow the same transitions. They agree on the selected bound until a local transaction
fails: the strict replay then goes on with the frozen fallback bound, and the loose one with none.
-/

namespace Acfqp.Route

open Library

section Steps

variable {ids : Digests} {context : RouteDecisionContext} {registry : CounterRegistry}
  {bounds : Identifier → Option RouteUpperBound} {verified : List Identifier}
  {catalog : VerifiedRouteInputCatalog ids} {event : RouteTraceEvent}

theorem nextState_eq_ok {state next : RouteState} {evidence : TransitionEvidence} :
    nextState state evidence = .ok next ↔
      transition state evidence.role evidence.outcome = some next :=
  orRaise_eq_ok

variable (ids context registry event) in
/-- What both replays ask of an event after the same events. -/
structure Chained (sequence : ℕ) (prevEventId : Option Identifier) (state : RouteState) : Prop where
  context : event.contextId = ids.contextId context
  sequence : event.sequence = sequence
  prev : event.prevEventId = prevEventId
  before : event.stateBefore = state
  running : state.terminal = false
  work : registry.validateVector event.evidence.workDelta = .ok ()
  next : transition state event.evidence.role event.evidence.outcome = some event.stateAfter

/-- The bound that the loose replay keeps after a transition. -/
def keptBound (next : RouteState) (role : Role) (selected : Option RouteUpperBound) :
    Option RouteUpperBound :=
  if next = .nextLocalTransactionRequired then none
  else if next = .fallbackExecutionRequired ∧ role = .localResult then none
  else selected

theorem replayStep_eq_ok {r r' : Replay} :
    replayStep ids context registry bounds verified r event = .ok r' ↔
      Chained ids context registry event r.sequence r.prevEventId r.state ∧
      (∀ ref ∈ event.evidence.artifactRefs, ref.2 ∈ verified) ∧
      ∃ selected, selectBound ids context bounds event.evidence r.selectedBound = .ok selected ∧
        r' = ⟨r.sequence + 1, some (ids.eventId event), event.stateAfter,
          keptBound event.stateAfter event.evidence.role selected⟩ := by
  simp only [replayStep, bind_eq_ok, require_eq_ok, within_eq_ok, nextState_eq_ok, pure_eq_ok]
  constructor
  · rintro ⟨-, hcontext, -, hseq, -, hprev, -, hbefore, -, hrunning, _, hwork, -, hrefs, selected,
      hselected, next, hnext, -, rfl, rfl⟩
    exact ⟨⟨hcontext, hseq, hprev, hbefore, hrunning, hwork, hnext⟩, hrefs, selected,
      hselected, rfl⟩
  · rintro ⟨h, hrefs, selected, hselected, rfl⟩
    exact ⟨(), h.context, (), h.sequence, (), h.prev, (), h.before, (), h.running, (), h.work, (),
      hrefs, selected, hselected, _, h.next, (), rfl, rfl⟩

theorem strictStep_eq_ok {r r' : StrictReplay} :
    strictStep ids context catalog registry r event = .ok r' ↔
      Chained ids context registry event r.sequence r.prevEventId r.state ∧
      event.evidence.contextId = ids.contextId context ∧
      validateArtifactRefs ids context catalog event.evidence = .ok () ∧
      ∃ selected frozen, selectStrictBounds ids context catalog event.evidence r.selectedBound
          r.frozenFallbackBound = .ok (selected, frozen) ∧
        ∃ selected' frozen', retainBounds event.stateAfter event.evidence.role selected frozen =
            .ok (selected', frozen') ∧
          r' = ⟨r.sequence + 1, some (ids.eventId event), event.stateAfter, selected',
            frozen'⟩ := by
  simp only [strictStep, bind_eq_ok, require_eq_ok, within_eq_ok, nextState_eq_ok, pure_eq_ok,
    Prod.exists]
  constructor
  · rintro ⟨-, hcontext, -, hseq, -, hprev, -, hbefore, -, hrunning, -, hevidence, _,
      hwork, _, hrefs,
      selected, frozen, hselected, next, hnext, -, rfl, selected', frozen', hretain, rfl⟩
    exact ⟨⟨hcontext, hseq, hprev, hbefore, hrunning, hwork, hnext⟩, hevidence, hrefs, selected,
      frozen, hselected, selected', frozen', hretain, rfl⟩
  · rintro ⟨h, hevidence, hrefs, selected, frozen, hselected, selected', frozen', hretain, rfl⟩
    exact ⟨(), h.context, (), h.sequence, (), h.prev, (), h.before, (), h.running, (),
      hevidence, (),
      h.work, (), hrefs, selected, frozen, hselected, _, h.next, (), rfl, selected',
        frozen', hretain,
      rfl⟩

/-! ## Selections -/

theorem verifiedBound_eq_ok {boundId : Option Identifier} {route : RouteCandidate}
    {e : RouteError} {b : RouteUpperBound} :
    verifiedBound ids context catalog boundId route e = .ok b ↔
      boundId.bind catalog.boundMap = some b ∧ b.contextId = ids.contextId context ∧
        b.profileId = context.comparisonProfileCandidateId ∧ b.routeCandidate = route := by
  simp only [verifiedBound, bind_eq_ok, orRaise_eq_ok, require_eq_ok, pure_eq_ok]
  constructor
  · rintro ⟨_, hbound, -, hvalid, rfl⟩
    exact ⟨hbound, hvalid⟩
  · rintro ⟨hbound, hvalid⟩
    exact ⟨b, hbound, (), hvalid, rfl⟩

/-- A selection without a local bound, or the comparison of both. -/
theorem validateStrictSelection_eq_ok {evidence : TransitionEvidence}
    {localBound : Option RouteUpperBound} {fallback : RouteUpperBound} :
    validateStrictSelection ids context catalog evidence = .ok (localBound, fallback) ↔
      verifiedBound ids context catalog evidence.fallbackBoundId .directFallback
        (.verification "verified fallback bound is absent or misbound") = .ok fallback ∧
      ((evidence.localBoundId = none ∧ evidence.outcome = .selectFallbackNoLocal ∧
          localBound = none) ∨
        ∃ boundId b relation, evidence.localBoundId = some boundId ∧
          verifiedBound ids context catalog (some boundId) .localAttempt
            (.verification "verified local bound is absent or misbound") = .ok b ∧
          compareRouteUpperBounds b fallback = .ok relation ∧
          evidence.outcome = relation.selection ∧ localBound = some b) := by
  unfold validateStrictSelection
  cases hlocal : evidence.localBoundId with
  | none =>
    simp only [bind_eq_ok, require_eq_ok, pure_eq_ok, Prod.mk.injEq]
    constructor
    · rintro ⟨_, hfallback, -, houtcome, rfl, rfl⟩
      exact ⟨hfallback, .inl ⟨trivial, houtcome, rfl⟩⟩
    · rintro ⟨hfallback, ⟨-, houtcome, rfl⟩ | ⟨_, _, _, ⟨⟩, -⟩⟩
      exact ⟨fallback, hfallback, (), houtcome, rfl, rfl⟩
  | some boundId =>
    simp only [bind_eq_ok, require_eq_ok, pure_eq_ok, Prod.mk.injEq]
    constructor
    · rintro ⟨_, hfallback, b, hb, relation, hrelation, -, houtcome, rfl, rfl⟩
      exact ⟨hfallback, .inr ⟨boundId, b, relation, rfl, hb, hrelation, houtcome, rfl⟩⟩
    · rintro ⟨hfallback, ⟨⟨⟩, -⟩ | ⟨_, b, relation, ⟨⟩, hb, hrelation, houtcome, rfl⟩⟩
      exact ⟨fallback, hfallback, b, hb, relation, hrelation, (), houtcome, rfl, rfl⟩

theorem validateSelection_of_strict {evidence : TransitionEvidence}
    {localBound : Option RouteUpperBound} {fallback : RouteUpperBound}
    (h : validateStrictSelection ids context catalog evidence = .ok (localBound, fallback)) :
    ∃ b, validateSelection evidence catalog.boundMap = .ok b ∧
      (if evidence.outcome = .selectLocal then localBound else some fallback) = some b ∧
      b.contextId = ids.contextId context ∧
      b.profileId = context.comparisonProfileCandidateId := by
  obtain ⟨hfallback, hlocal⟩ := validateStrictSelection_eq_ok.mp h
  obtain ⟨hmap, hcontext, hprofile, hroute⟩ := verifiedBound_eq_ok.mp hfallback
  unfold validateSelection
  obtain ⟨hnone, houtcome, rfl⟩ | ⟨boundId, b, relation, hsome, hb, hrelation, houtcome, rfl⟩ :=
    hlocal
  · refine ⟨fallback, ?_, by simp [houtcome], hcontext, hprofile⟩
    simp only [hnone, bind_eq_ok, orRaise_eq_ok, require_eq_ok, pure_eq_ok]
    exact ⟨fallback, hmap, (), hroute, (), houtcome, rfl⟩
  · obtain ⟨hmap', hcontext', hprofile', hroute'⟩ := verifiedBound_eq_ok.mp hb
    refine ⟨if evidence.outcome = .selectLocal then b else fallback, ?_, ?_, ?_, ?_⟩
    · simp only [hsome, bind_eq_ok, orRaise_eq_ok, require_eq_ok, pure_eq_ok]
      exact ⟨fallback, hmap, (), hroute, b, hmap', (), hroute', relation, hrelation, (),
        houtcome, rfl⟩
    all_goals split <;> first | rfl | assumption

/-- An execution passes both replays with the same bound, or neither. -/
theorem checkExecution_eq_ok {layer : String → RouteError} {absent mismatch : String}
    {evidence : TransitionEvidence} {selected : Option RouteUpperBound} {route : RouteCandidate} :
    checkExecution layer absent mismatch evidence selected route = .ok () ↔
      ∃ b a, selected = some b ∧ b.routeCandidate = route ∧ evidence.actualComparison = some a ∧
        actualWithinBound a b = .ok () := by
  simp only [checkExecution, bind_eq_ok, orRaise_eq_ok, require_eq_ok, within_eq_ok]
  constructor
  · rintro ⟨b, hb, -, hroute, a, ha, hwithin⟩
    exact ⟨b, a, hb, hroute, ha, hwithin⟩
  · rintro ⟨b, a, hb, hroute, ha, hwithin⟩
    exact ⟨b, hb, (), hroute, a, ha, hwithin⟩

theorem selectBound_of_strict {evidence : TransitionEvidence}
    {selected frozen selected' frozen' : Option RouteUpperBound}
    (h : selectStrictBounds ids context catalog evidence selected frozen =
      .ok (selected', frozen')) :
    selectBound ids context catalog.boundMap evidence selected = .ok selected' := by
  unfold selectStrictBounds at h
  unfold selectBound
  cases hrole : evidence.role with
  | routeSelection =>
    simp only [hrole, bind_eq_ok, Prod.exists, pure_eq_ok, Prod.mk.injEq] at h
    obtain ⟨localBound, fallback, hselection, rfl, rfl⟩ := h
    obtain ⟨b, hb, heq, hcontext, hprofile⟩ := validateSelection_of_strict hselection
    simp only [bind_eq_ok, require_eq_ok, pure_eq_ok]
    exact ⟨b, hb, (), hcontext, (), hprofile, heq.symm⟩
  | localResult =>
    simp only [hrole, bind_eq_ok, pure_eq_ok, Prod.mk.injEq] at h
    obtain ⟨_, hcheck, rfl, rfl⟩ := h
    simp only [bind_eq_ok, pure_eq_ok]
    exact ⟨(), checkExecution_eq_ok.mpr (checkExecution_eq_ok.mp hcheck), trivial⟩
  | fallbackResult =>
    simp only [hrole, bind_eq_ok, pure_eq_ok, Prod.mk.injEq] at h
    obtain ⟨_, hcheck, rfl, rfl⟩ := h
    simp only [bind_eq_ok, pure_eq_ok]
    exact ⟨(), checkExecution_eq_ok.mpr (checkExecution_eq_ok.mp hcheck), trivial⟩
  | integrity | compatibility | cacheProof | abstractAudit | causalSearch =>
    simp only [hrole, pure_eq_ok, Prod.mk.injEq] at h
    rw [h.1]
    rfl

/-! ## The work of a trace -/

theorem validateVector_eq_ok {vector : WorkVector} {u : Unit} :
    registry.validateVector vector = .ok u ↔ vector.registryId = registry.registryId ∧
      keySet vector.values = registry.canonicalPaths.toFinset := by
  simp only [CounterRegistry.validateVector, bind_eq_ok, require_eq_ok]
  constructor
  · rintro ⟨_, hregistry, hkeys⟩
    exact ⟨hregistry, hkeys⟩
  · rintro ⟨hregistry, hkeys⟩
    exact ⟨(), hregistry, hkeys⟩

theorem keySet_addValues (left right : List (String × ℕ)) :
    keySet (left.map fun entry => (entry.1, entry.2 + valueOf right entry.1)) = keySet left := by
  rw [keySet, map_fst_addValues, keySet]

theorem add_validated {left right : WorkVector} (subjectId : Identifier)
    (hleft : registry.validateVector left = .ok ())
    (hright : registry.validateVector right = .ok ()) :
    ∃ sum, left.add right subjectId = .ok sum ∧ registry.validateVector sum = .ok () := by
  obtain ⟨hregistry, hkeys⟩ := validateVector_eq_ok.mp hleft
  obtain ⟨hregistry', hkeys'⟩ := validateVector_eq_ok.mp hright
  refine ⟨_, bind_eq_ok.mpr ⟨(), require_eq_ok.mpr (hregistry.trans hregistry'.symm),
    bind_eq_ok.mpr ⟨(), require_eq_ok.mpr (hkeys.trans hkeys'.symm), rfl⟩⟩, ?_⟩
  exact validateVector_eq_ok.mpr ⟨hregistry, (keySet_addValues _ _).trans hkeys⟩

theorem foldlM_add_validated (vectors : List WorkVector) {subjectId : Identifier}
    (hvectors : ∀ v ∈ vectors, registry.validateVector v = .ok ()) {first : WorkVector}
    (hfirst : registry.validateVector first = .ok ()) :
    ∃ sum, vectors.foldlM (fun result v => result.add v subjectId) first = .ok sum := by
  induction vectors generalizing first with
  | nil => exact ⟨first, rfl⟩
  | cons v rest ih =>
    obtain ⟨sum, hsum, hvalid⟩ := add_validated subjectId hfirst (hvectors v (by simp))
    obtain ⟨total, htotal⟩ := ih (fun v hv => hvectors v (by simp [hv])) hvalid
    exact ⟨total, by rw [List.foldlM_cons, hsum]; exact htotal⟩

variable (registry) in
theorem attemptWork_of_validated {events : List RouteTraceEvent} (hne : events ≠ [])
    (h : ∀ e ∈ events, registry.validateVector e.evidence.workDelta = .ok ()) :
    ∃ work, attemptWork context events = .ok work := by
  unfold attemptWork
  match events, hne with
  | [e], _ => exact ⟨_, rfl⟩
  | e :: e' :: rest, _ =>
    refine foldlM_add_validated ((e' :: rest).map (·.evidence.workDelta)) ?_ (h e (by simp))
    intro v hv
    obtain ⟨e'', he'', rfl⟩ := List.mem_map.mp hv
    exact h e'' (List.mem_cons_of_mem _ he'')

/-! ## Both replays of one envelope -/

variable {envelope : RouteTraceEnvelope} {state : RouteState} {work : WorkVector}
  {st : ℕ → StrictReplay}

variable (ids context registry catalog envelope state work st) in
/-- An accepted strict replay, with its states between the events. -/
structure StrictRun : Prop where
  complete : envelope.complete = true
  contextId : envelope.contextId = ids.contextId context
  registryId : context.counterRegistryId = registry.registryId
  first : st 0 = .initial
  step : ∀ i (hi : i < envelope.events.length),
    strictStep ids context catalog registry (st i) envelope.events[i] = .ok (st (i + 1))
  last : (st envelope.events.length).state = state
  terminal : state.terminal = true
  attempt : attemptWork context envelope.events = .ok work
  finalState : envelope.finalState = state
  accumulatedWork : envelope.accumulatedWork = work

theorem strictRun_of_replay
    (h : replayStrictRouteEnvelope ids context catalog envelope registry = .ok (state, work)) :
    ∃ st, StrictRun ids context registry catalog envelope state work st := by
  simp only [replayStrictRouteEnvelope, bind_eq_ok, require_eq_ok, pure_eq_ok, Prod.mk.injEq] at h
  obtain ⟨-, hcomplete, -, ⟨hcontext, -⟩, -, hregistry, -, -, r, hfold, -, hterminal,
    work', hwork, -,
    ⟨hfinal, haccumulated⟩, rfl, rfl⟩ := h
  obtain ⟨st, hfirst, hlast, hstep⟩ := foldlM_states hfold
  exact ⟨st, hcomplete, hcontext, hregistry, hfirst, hstep, by rw [hlast], hterminal, hwork, hfinal,
    haccumulated⟩

def TransitionEvidence.FailsLocally (evidence : TransitionEvidence) : Prop :=
  evidence.role = .localResult ∧ (evidence.outcome = .failedDeeperBudgetExhausted ∨
    evidence.outcome = .failedNoSoundFrontier)

theorem transition_failsLocally {state : RouteState} {evidence : TransitionEvidence}
    (hrole : evidence.role = .localResult)
    (hnext : transition state evidence.role evidence.outcome = some .fallbackExecutionRequired) :
    evidence.FailsLocally := by
  refine ⟨hrole, ?_⟩
  rw [hrole] at hnext
  cases state <;> cases houtcome : evidence.outcome <;> simp_all [transition]

def StrictReplay.loose (r : StrictReplay) : Replay :=
  ⟨r.sequence, r.prevEventId, r.state, r.selectedBound⟩

theorem replayStep_of_strict {r r' : StrictReplay}
    (h : strictStep ids context catalog registry r event = .ok r')
    (hverified : ∀ ref ∈ event.evidence.artifactRefs, ref.2 ∈ verified)
    (hlocal : ¬ event.evidence.FailsLocally) :
    replayStep ids context registry catalog.boundMap verified r.loose event = .ok r'.loose := by
  obtain ⟨hchained, -, -, selected, frozen, hselected, selected', frozen', hretain, rfl⟩ :=
    strictStep_eq_ok.mp h
  refine replayStep_eq_ok.mpr ⟨hchained, hverified, selected, selectBound_of_strict hselected, ?_⟩
  have hkept : selected' = keptBound event.stateAfter event.evidence.role selected := by
    unfold retainBounds at hretain
    unfold keptBound
    split at hretain
    · rw [if_pos ‹_›]
      exact (Prod.mk.inj (pure_eq_ok.mp hretain)).1.symm
    · rw [if_neg ‹_›]
      split at hretain
      · next hfallback =>
        have hnext := hchained.next
        rw [hfallback.1] at hnext
        exact absurd (transition_failsLocally hfallback.2 hnext) hlocal
      · rw [if_neg ‹_›]
        exact (Prod.mk.inj (pure_eq_ok.mp hretain)).1.symm
  rw [← hkept]
  rfl

theorem RouteTraceEvent.mk_eq {e : RouteTraceEvent} {contextId : Identifier} {sequence : ℕ}
    {before : RouteState} {prev : Option Identifier} (hcontext : e.contextId = contextId)
    (hsequence : e.sequence = sequence) (hbefore : e.stateBefore = before)
    (hprev : e.prevEventId = prev) (h : e.evidence.contextId = contextId) :
    (⟨contextId, sequence, before, e.stateAfter, e.evidence, prev, h⟩ : RouteTraceEvent) = e := by
  subst hcontext hsequence hbefore hprev
  rfl

namespace StrictRun

variable (run : StrictRun ids context registry catalog envelope state work st)
include run

theorem chained {i : ℕ} (hi : i < envelope.events.length) :
    Chained ids context registry envelope.events[i] (st i).sequence (st i).prevEventId
      (st i).state :=
  (strictStep_eq_ok.mp (run.step i hi)).1

theorem state_succ {i : ℕ} (hi : i < envelope.events.length) :
    (st (i + 1)).state = envelope.events[i].stateAfter := by
  obtain ⟨-, -, -, _, _, -, _, _, -, heq⟩ := strictStep_eq_ok.mp (run.step i hi)
  rw [heq]

theorem prev_succ {i : ℕ} (hi : i < envelope.events.length) :
    (st (i + 1)).prevEventId = some (ids.eventId envelope.events[i]) := by
  obtain ⟨-, -, -, _, _, -, _, _, -, heq⟩ := strictStep_eq_ok.mp (run.step i hi)
  rw [heq]

theorem sequence_eq {i : ℕ} (hi : i ≤ envelope.events.length) : (st i).sequence = i := by
  induction i with
  | zero => rw [run.first]; rfl
  | succ i ih =>
    obtain ⟨-, -, -, _, _, -, _, _, -, heq⟩ := strictStep_eq_ok.mp (run.step i hi)
    rw [heq]
    exact congrArg (· + 1) (ih (by omega))

theorem work_take {n : ℕ} (hpos : 0 < n) :
    ∃ w, attemptWork context (envelope.events.take n) = .ok w := by
  have hne := List.length_pos_iff.mpr envelope.events_ne
  refine attemptWork_of_validated registry (fun h => ?_) fun e he => ?_
  · rw [List.take_eq_nil_iff] at h
    exact h.elim (by omega) envelope.events_ne
  · obtain ⟨i, hi, rfl⟩ := List.mem_iff_getElem.mp (List.mem_of_mem_take he)
    exact (run.chained hi).work

variable (hverified : ∀ e ∈ envelope.events, ∀ ref ∈ e.evidence.artifactRefs, ref.2 ∈ verified)
  (hlocal : ∀ e ∈ envelope.events, ¬ e.evidence.FailsLocally)
include hverified hlocal

theorem fold_take {n : ℕ} (hn : n ≤ envelope.events.length) :
    (envelope.events.take n).foldlM (replayStep ids context registry catalog.boundMap verified)
      .initial = .ok (st n).loose := by
  have hfold := foldlM_of_states (f := replayStep ids context registry catalog.boundMap verified)
    (l := envelope.events.take n) (fun i => (st i).loose) fun i hi => by
      rw [List.length_take, lt_inf_iff] at hi
      rw [List.getElem_take]
      have hmem := List.getElem_mem hi.2
      exact replayStep_of_strict (run.step i hi.2) (hverified _ hmem) (hlocal _ hmem)
  rw [List.length_take, min_eq_left hn] at hfold
  rw [← hfold, run.first]
  rfl

theorem replay_take {n : ℕ} (hpos : 0 < n) (hn : n ≤ envelope.events.length) :
    ∃ w, replayRouteEvents ids context registry catalog.boundMap verified (envelope.events.take n)
      false = .ok ((st n).state, w) := by
  obtain ⟨w, hw⟩ := run.work_take hpos
  refine ⟨w, ?_⟩
  simp only [replayRouteEvents, bind_eq_ok, require_eq_ok, pure_eq_ok]
  refine ⟨(), fun h => ?_, (), run.registryId, _, run.fold_take hverified hlocal hn, (),
    by simp, w, hw,
    rfl⟩
  rw [List.take_eq_nil_iff] at h
  exact h.elim (by omega) envelope.events_ne

theorem replay_all :
    replayRouteEvents ids context registry catalog.boundMap verified envelope.events true =
      .ok (state, work) := by
  have hfold := run.fold_take hverified hlocal le_rfl
  rw [List.take_length] at hfold
  simp only [replayRouteEvents, bind_eq_ok, require_eq_ok, pure_eq_ok]
  exact ⟨(), envelope.events_ne, (), run.registryId, _, hfold, (), fun _ =>
    (congrArg RouteState.terminal run.last).trans run.terminal, work,
    run.attempt, by rw [← run.last]; rfl⟩

theorem verify :
    verifyRouteEnvelope ids context registry catalog.boundMap verified envelope = .ok () := by
  simp only [verifyRouteEnvelope, bind_eq_ok, require_eq_ok, Prod.exists]
  refine ⟨(), run.contextId, state, work, ?_, (), run.finalState.symm, (),
    run.accumulatedWork.symm, (),
    run.complete, ?_⟩
  · rw [run.complete]
    exact run.replay_all hverified hlocal
  · have hcomplete := run.complete
    have hfinal := run.finalState
    have hwork := run.accumulatedWork
    cases envelope
    subst hcomplete hfinal hwork
    rfl

theorem build :
    buildRouteEnvelope ids context registry catalog.boundMap verified envelope.events true =
      .ok envelope := by
  simp only [buildRouteEnvelope, bind_eq_ok, Prod.exists]
  refine ⟨state, work, run.replay_all hverified hlocal, ?_⟩
  rw [dif_pos envelope.events_ne, pure_eq_ok]
  have hcontext := run.contextId
  have hcomplete := run.complete
  have hfinal := run.finalState
  have hwork := run.accumulatedWork
  cases envelope
  subst hcontext hcomplete hfinal hwork
  rfl

theorem traceHead_take {i : ℕ} (hi : i < envelope.events.length) :
    traceHead ids context registry catalog.boundMap verified (envelope.events.take i) =
      .ok ((st i).state, (st i).prevEventId) := by
  cases i with
  | zero =>
    rw [List.take_zero, run.first]
    rfl
  | succ i =>
    obtain ⟨w, hw⟩ := run.replay_take hverified hlocal i.succ_pos hi.le
    have hlast : (envelope.events.take (i + 1)).getLast? = some envelope.events[i] := by
      rw [List.take_add_one, List.getElem?_eq_getElem (by omega), Option.toList_some,
        List.getLast?_concat]
    simp only [traceHead, hlast, bind_eq_ok, require_eq_ok, pure_eq_ok, Prod.exists]
    exact ⟨_, w, hw, (), (run.chained hi).running, by rw [run.prev_succ (by omega)]⟩

theorem append {i : ℕ} (hi : i < envelope.events.length) :
    appendRouteEvent ids context registry catalog.boundMap verified (envelope.events.take i)
      envelope.events[i].evidence = .ok envelope.events[i] := by
  have hchained := run.chained hi
  have hcontext := envelope.events[i].context_eq.trans hchained.context
  simp only [appendRouteEvent, bind_eq_ok, Prod.exists]
  refine ⟨_, _, run.traceHead_take hverified hlocal hi, _, nextState_eq_ok.mpr hchained.next, ?_⟩
  have hevent := RouteTraceEvent.mk_eq hchained.context (hchained.sequence.trans
    (run.sequence_eq hi.le)) hchained.before hchained.prev hcontext
  have hlength : (envelope.events.take i).length = i := by simp [hi.le]
  rw [dif_pos hcontext, hlength, hevent]
  obtain ⟨w, hw⟩ := run.replay_take hverified hlocal i.succ_pos hi
  rw [List.take_succ_eq_append_getElem hi] at hw
  exact bind_eq_ok.mpr ⟨_, hw, rfl⟩

end StrictRun

/-! ## After a failed local transaction -/

theorem transition_of_failsLocally {state next : RouteState} {evidence : TransitionEvidence}
    (hfails : evidence.FailsLocally)
    (hnext : transition state evidence.role evidence.outcome = some next) :
    next = .fallbackExecutionRequired := by
  obtain ⟨hrole, houtcome | houtcome⟩ := hfails <;> rw [hrole, houtcome] at hnext <;>
    cases state <;> simp_all [transition]

theorem role_of_fallbackExecutionRequired {role : Role} {outcome : RouteOutcome} {next : RouteState}
    (h : transition .fallbackExecutionRequired role outcome = some next) :
    role = .fallbackResult := by
  cases role <;> cases outcome <;> simp_all [transition]

/-- The loose replay is stuck after a failed local transaction: it accepts no next event. -/
theorem replayStep_stuck {r : Replay} (hstate : r.state = .fallbackExecutionRequired)
    (hnone : r.selectedBound = none) (r' : Replay) :
    replayStep ids context registry bounds verified r event ≠ .ok r' := by
  intro h
  obtain ⟨hchained, -, selected, hselected, -⟩ := replayStep_eq_ok.mp h
  have hnext := hchained.next
  rw [hstate] at hnext
  rw [hnone, selectBound, role_of_fallbackExecutionRequired hnext] at hselected
  cases hselected

theorem kept_of_failsLocally {r r' : Replay} (hfails : event.evidence.FailsLocally)
    (h : replayStep ids context registry bounds verified r event = .ok r') :
    r'.state = .fallbackExecutionRequired ∧ r'.selectedBound = none := by
  obtain ⟨hchained, -, selected, -, rfl⟩ := replayStep_eq_ok.mp h
  have hnext := transition_of_failsLocally hfails hchained.next
  exact ⟨hnext, by simp [keptBound, hnext, hfails.1]⟩

/-- A trace that the loose replay accepts to a terminal state has no failed local transaction that
leads to the fallback. -/
theorem not_failsLocally_of_replay {events : List RouteTraceEvent} {state : RouteState}
    {work : WorkVector}
    (h : replayRouteEvents ids context registry bounds verified events true = .ok (state, work)) :
    ∀ e ∈ events, ¬ e.evidence.FailsLocally := by
  simp only [replayRouteEvents, bind_eq_ok, require_eq_ok] at h
  obtain ⟨-, -, -, -, r, hfold, -, hterminal, -⟩ := h
  obtain ⟨st, -, hlast, hstep⟩ := foldlM_states hfold
  intro e he hfails
  obtain ⟨i, hi, rfl⟩ := List.mem_iff_getElem.mp he
  obtain ⟨hstate, hnone⟩ := kept_of_failsLocally hfails (hstep i hi)
  by_cases hnext : i + 1 < events.length
  · exact replayStep_stuck hstate hnone _ (hstep (i + 1) hnext)
  · have hend : i + 1 = events.length := by omega
    rw [← hlast, ← hend, hstate] at hterminal
    cases hterminal trivial

theorem append_stuck (events : List RouteTraceEvent) {last : RouteTraceEvent}
    (hfails : last.evidence.FailsLocally) (evidence : TransitionEvidence) (e : RouteTraceEvent) :
    appendRouteEvent ids context registry bounds verified (events ++ [last]) evidence ≠ .ok e := by
  intro h
  simp only [appendRouteEvent, bind_eq_ok, Prod.exists] at h
  obtain ⟨state, prev, -, next, -, h⟩ := h
  split at h
  · obtain ⟨r, hr, -⟩ := bind_eq_ok.mp h
    simp only [replayRouteEvents, bind_eq_ok, require_eq_ok] at hr
    obtain ⟨-, -, -, -, r', hfold, -⟩ := hr
    rw [List.foldlM_append, List.foldlM_append, bind_eq_ok] at hfold
    obtain ⟨r₂, hfold, hevent⟩ := hfold
    obtain ⟨r₁, -, hlast⟩ := bind_eq_ok.mp hfold
    rw [List.foldlM_cons, bind_eq_ok] at hlast hevent
    obtain ⟨_, hlast, hnil⟩ := hlast
    obtain ⟨_, hevent, -⟩ := hevent
    obtain ⟨hstate, hnone⟩ := kept_of_failsLocally hfails hlast
    rw [pure_eq_ok.mp hnil] at hstate hnone
    exact replayStep_stuck hstate hnone _ hevent
  · cases h

variable (ids context registry bounds verified) in
/-- The loose verifier accepts the envelope with the same state and work, and the builder makes it
event by event. -/
structure LooselyAccepted (envelope : RouteTraceEnvelope) (state : RouteState) (work : WorkVector) :
    Prop where
  replay : replayRouteEvents ids context registry bounds verified envelope.events true =
    .ok (state, work)
  verify : verifyRouteEnvelope ids context registry bounds verified envelope = .ok ()
  append : ∀ i (hi : i < envelope.events.length), appendRouteEvent ids context registry bounds
    verified (envelope.events.take i) envelope.events[i].evidence = .ok envelope.events[i]
  build : buildRouteEnvelope ids context registry bounds verified envelope.events true =
    .ok envelope

/-- The loose verifier accepts what the strict one accepts exactly when no local transaction of it
fails with nothing left but the fallback. -/
theorem looselyAccepted_iff {envelope : RouteTraceEnvelope} {state : RouteState} {work : WorkVector}
    (h : replayStrictRouteEnvelope ids context catalog envelope registry = .ok (state, work))
    (hverified : ∀ e ∈ envelope.events, ∀ ref ∈ e.evidence.artifactRefs, ref.2 ∈ verified) :
    LooselyAccepted ids context registry catalog.boundMap verified envelope state work ↔
      ∀ e ∈ envelope.events, ¬ e.evidence.FailsLocally := by
  refine ⟨fun h => not_failsLocally_of_replay h.replay, fun hlocal => ?_⟩
  obtain ⟨st, run⟩ := strictRun_of_replay h
  exact ⟨run.replay_all hverified hlocal, run.verify hverified hlocal,
    fun i hi => run.append hverified hlocal hi, run.build hverified hlocal⟩

end Steps

/-! ## A failed local transaction before the fallback -/

def sampleContext : RouteDecisionContext where
  preregistrationSkeletonId := ⟨"skeleton", by decide⟩
  protocolCandidateId := ⟨"protocol", by decide⟩
  comparisonProfileCandidateId := ⟨"profile", by decide⟩
  counterRegistryId := ⟨"registry", by decide⟩
  structuralId := ⟨"structure", by decide⟩
  queryId := ⟨"query", by decide⟩
  planId := ⟨"plan", by decide⟩
  thresholdProfileId := ⟨"threshold_profile", by decide⟩
  epochId := ⟨"epoch", by decide⟩
  logicalOccurrenceId := ⟨"occurrence", by decide⟩
  routeAttemptId := ⟨"attempt", by decide⟩

def RouteCandidate.sampleId (label : String) : RouteCandidate → Identifier
  | .localAttempt => ⟨"local_" ++ label, by simp⟩
  | .directFallback => ⟨"fallback_" ++ label, by simp⟩

theorem Role.label_ne (role : Role) : role.label ≠ "" := by
  cases role <;> decide

def sampleIds : Digests where
  contextId _ := ⟨"context", by decide⟩
  workVectorId _ := ⟨"work", by decide⟩
  comparisonVectorId v := v.routeCandidate.sampleId "actual"
  profileId _ := ⟨"profile", by decide⟩
  cardinalityId c := c.routeCandidate.sampleId "cardinality"
  formulaId f := f.routeCandidate.sampleId "formula"
  boundId b := b.routeCandidate.sampleId "upper_bound"
  evidenceId e := e.workDelta.subjectId
  eventId e := ⟨e.evidence.role.label, e.evidence.role.label_ne⟩
  envelopeId _ := ⟨"envelope", by decide⟩

def sampleRegistry : CounterRegistry := ⟨⟨"registry", by decide⟩, [⟨"work.operations", .chargedOp⟩]⟩

def sampleProfile : ComparisonProfile where
  profileKey := ⟨"shared", by decide⟩
  version := ⟨"1", by decide⟩
  axes := ["work.operations"]
  axes_ne := by simp
  increasing := by simp
  paths := by decide +kernel

def sampleCardinality (route : RouteCandidate) (count : ℕ) : CardinalityEvidence where
  contextId := sampleIds.contextId sampleContext
  routeCandidate := route
  counts := [("work.operations", count)]
  sourceArtifactIds := [⟨"source", by decide⟩]
  counts_ne := by simp
  increasing := List.pairwise_singleton _ _
  paths := by simpa using (by decide +kernel : IsPath "work.operations")
  sources_ne := by simp
  sources_increasing := List.pairwise_singleton _ _

def sampleFormula (route : RouteCandidate) : ComparisonFormula where
  profileId := sampleIds.profileId sampleProfile
  routeCandidate := route
  formulaKey := ⟨"formula", by decide⟩
  terms := [⟨"work.operations", "work.operations", 1⟩]
  terms_ne := by simp
  sorted := List.pairwise_singleton _ _

def sampleVector (route : RouteCandidate) (count : ℕ) : ComparisonVector :=
  sampleProfile.vector (sampleIds.profileId sampleProfile) (sampleIds.contextId sampleContext) route
    [("work.operations", count)] rfl

def sampleBound (route : RouteCandidate) (count : ℕ) : RouteUpperBound where
  contextId := sampleIds.contextId sampleContext
  routeCandidate := route
  profileId := sampleIds.profileId sampleProfile
  cardinalityEvidenceId := sampleIds.cardinalityId (sampleCardinality route count)
  formulaId := sampleIds.formulaId (sampleFormula route)
  vector := sampleVector route count
  context_eq := rfl
  route_eq := rfl
  profile_eq := rfl

def sampleFrontierSnapshot : Identifier := ⟨"frontier_snapshot", by decide⟩

def sampleLocalCap : Identifier := ⟨"local_cap_profile", by decide⟩

def sampleFallbackCap : Identifier := ⟨"fallback_cap_profile", by decide⟩

def sampleArtifacts : List Identifier :=
  [⟨"abstract_audit", by decide⟩, ⟨"cache_proof_check", by decide⟩,
    ⟨"causal_certificate", by decide⟩, ⟨"compatibility_attestation", by decide⟩,
    ⟨"failed_proof_graph", by decide⟩, sampleFallbackCap,
    ⟨"fallback_result", by decide⟩, sampleFrontierSnapshot,
    ⟨"ground_certificate", by decide⟩, ⟨"integrity_attestation", by decide⟩,
    ⟨"local_authorization", by decide⟩, sampleLocalCap,
    ⟨"local_result", by decide⟩, ⟨"policy_graph", by decide⟩, ⟨"post_audit_failure", by decide⟩,
    ⟨"source", by decide⟩, ⟨"threshold_profile", by decide⟩]

theorem deriveRouteUpperBound_sample (route : RouteCandidate) (count : ℕ) :
    deriveRouteUpperBound sampleIds sampleProfile (sampleCardinality route count)
      (sampleFormula route) = .ok (sampleBound route count) := by
  have hterms : projectTerms sampleProfile.axes (sampleCardinality route count).counts
      ((sampleFormula route).terms.map fun t => (t.axis, t.inputName, t.multiplier))
      (.comparison "formula names an unregistered axis")
      (.comparison "formula names an absent cardinality input")
      (.comparison "formula does not derive every profile axis") =
      .ok [("work.operations", count)] := by
    simp [projectTerms, sampleProfile, sampleCardinality, sampleFormula, valueOf, require, bind,
      Except.bind, pure, Except.pure]
  unfold deriveRouteUpperBound
  refine bind_eq_ok.mpr ⟨(), rfl, bind_eq_ok.mpr ⟨(), require_eq_ok.mpr rfl, ?_⟩⟩
  dsimp only
  split
  · next e he =>
    cases hterms.symm.trans he
  · next values h =>
    cases hterms.symm.trans h
    rfl

def sampleCatalog : VerifiedRouteInputCatalog sampleIds where
  contextId := sampleIds.contextId sampleContext
  profile := sampleProfile
  cardinalities := [sampleCardinality .localAttempt 1, sampleCardinality .directFallback 2]
  formulas := [sampleFormula .localAttempt, sampleFormula .directFallback]
  bounds := [sampleBound .localAttempt 1, sampleBound .directFallback 2]
  artifactAttestations := sampleArtifacts.map fun artifact =>
    ⟨artifact, artifact, sampleIds.contextId sampleContext, ⟨"verification", by decide⟩⟩
  cardinalities_ne := by simp
  formulas_ne := by simp
  bounds_ne := by simp
  cardinalities_nodup := by decide
  formulas_nodup := by decide
  bounds_nodup := by decide
  attestations_nodup := by decide
  cardinalities_context := by
    simp [sampleCardinality, sampleArtifacts]
  attestations_context := by
    intro a ha
    obtain ⟨_, -, rfl⟩ := List.mem_map.mp ha
    rfl
  bounds_derived := by
    intro b hb
    rcases List.mem_pair.mp hb with rfl | rfl
    · exact ⟨_, by simp, _, by simp, rfl, rfl, deriveRouteUpperBound_sample _ _⟩
    · exact ⟨_, List.mem_cons_of_mem _ (List.mem_singleton_self _), _,
        List.mem_cons_of_mem _ (List.mem_singleton_self _), rfl, rfl,
        deriveRouteUpperBound_sample _ _⟩

def sampleTransaction : Identifier := ⟨"transaction", by decide⟩

def sampleWork (role : Role) (transactionId : Option Identifier) : WorkVector where
  registryId := sampleRegistry.registryId
  subjectId := evidenceWorkSubject (sampleIds.contextId sampleContext) role transactionId
  values := [("work.operations", 1)]
  increasing := List.pairwise_singleton _ _
  paths := by simpa using (by decide +kernel : IsPath "work.operations")

def sampleEvidence (role : Role) (outcome : RouteOutcome)
    (artifactRefs : List (String × Identifier))
    (transactionId localBoundId fallbackBoundId : Option Identifier)
    (actual : Option ComparisonVector) (hmem : outcome ∈ role.outcomes)
    (hincreasing : Increasing artifactRefs) (hne : "" ∉ artifactRefs.map Prod.fst)
    (hrequired : requiredArtifactRoles role outcome ⊆ artifactRefs.map Prod.fst)
    (hbounds : BoundsValid role outcome localBoundId fallbackBoundId)
    (hactual : ActualValid (sampleIds.contextId sampleContext) role actual) : TransitionEvidence :=
  ⟨sampleIds.contextId sampleContext, role, outcome, artifactRefs, sampleWork role transactionId,
    transactionId, localBoundId, fallbackBoundId, actual, hmem, hincreasing, hne, hrequired, rfl,
    hbounds, hactual⟩

def sampleRef (role : String) (h : role ≠ "") : String × Identifier := (role, ⟨role, h⟩)

def sampleIntegrity : TransitionEvidence :=
  sampleEvidence .integrity .pass [sampleRef "integrity_attestation" (by decide)] none none
    none none (by decide) (by decide) (by decide) (by decide) (by decide) (by decide)

def sampleCompatibility : TransitionEvidence :=
  sampleEvidence .compatibility .matched [sampleRef "compatibility_attestation" (by decide)]
    none none none none (by decide) (by decide) (by decide) (by decide) (by decide) (by
    decide)

def sampleCacheProof : TransitionEvidence :=
  sampleEvidence .cacheProof .miss [sampleRef "cache_proof_check" (by decide)] none none none
    none (by decide) (by decide) (by decide) (by decide) (by decide) (by decide)

def sampleAbstractAudit : TransitionEvidence :=
  sampleEvidence .abstractAudit .fail [sampleRef "abstract_audit" (by decide), sampleRef
    "failed_proof_graph" (by decide), sampleRef "threshold_profile" (by decide)] none none
    none none (by decide) (by decide) (by decide) (by decide) (by decide) (by decide)

def sampleCausalSearch : TransitionEvidence :=
  sampleEvidence .causalSearch .found [sampleRef "causal_certificate" (by decide), sampleRef
    "frontier_snapshot" (by decide), sampleRef "local_authorization" (by decide)] (some
    sampleTransaction) none none none (by decide) (by decide) (by decide) (by decide) (by
    decide) (by decide)

def sampleRouteSelection : TransitionEvidence :=
  sampleEvidence .routeSelection .selectLocal [("comparison_profile", sampleIds.profileId
    sampleProfile), sampleRef "fallback_cap_profile" (by decide), ("fallback_upper_bound",
    RouteCandidate.directFallback.sampleId "upper_bound"), sampleRef "local_cap_profile" (by
    decide), ("local_upper_bound", RouteCandidate.localAttempt.sampleId "upper_bound")] (some
    sampleTransaction) (some (RouteCandidate.localAttempt.sampleId "upper_bound")) (some
    (RouteCandidate.directFallback.sampleId "upper_bound")) none (by decide) (by decide) (by
    decide) (by decide) (by decide) (by decide)

def sampleLocalResult : TransitionEvidence :=
  sampleEvidence .localResult .failedDeeperBudgetExhausted [("actual_comparison",
    RouteCandidate.localAttempt.sampleId "actual"), ("actual_work", ⟨"work", by decide⟩),
    sampleRef "local_cap_profile" (by decide), sampleRef "local_result" (by decide), sampleRef
    "post_audit_failure" (by decide)] (some sampleTransaction) none none (some (sampleVector
    .localAttempt 1)) (by decide) (by decide) (by decide) (by decide) (by decide) (by decide)

def sampleFallbackResult : TransitionEvidence :=
  sampleEvidence .fallbackResult .certifiedFeasible [("actual_comparison",
    RouteCandidate.directFallback.sampleId "actual"), ("actual_work", ⟨"work", by decide⟩),
    sampleRef "fallback_cap_profile" (by decide), sampleRef "fallback_result" (by decide),
    sampleRef "ground_certificate" (by decide)] (some sampleTransaction) none none (some
    (sampleVector .directFallback 1)) (by decide) (by decide) (by decide) (by decide) (by
    decide) (by decide)

def sampleEvent (sequence : ℕ) (before after : RouteState) (evidence : TransitionEvidence)
    (prev : Option RouteTraceEvent) (h : evidence.contextId = sampleIds.contextId sampleContext) :
    RouteTraceEvent :=
  ⟨sampleIds.contextId sampleContext, sequence, before, after, evidence,
    prev.map sampleIds.eventId, h⟩

def sampleVerified : RouteTraceEvent :=
  sampleEvent 0 .start .integrityVerified sampleIntegrity none rfl

def sampleCompatible : RouteTraceEvent :=
  sampleEvent 1 .integrityVerified .compatibilityVerified sampleCompatibility (some sampleVerified)
    rfl

def sampleChecked : RouteTraceEvent :=
  sampleEvent 2 .compatibilityVerified .cacheChecked sampleCacheProof (some sampleCompatible) rfl

def sampleFailed : RouteTraceEvent :=
  sampleEvent 3 .cacheChecked .abstractFailed sampleAbstractAudit (some sampleChecked) rfl

def sampleEstimated : RouteTraceEvent :=
  sampleEvent 4 .abstractFailed .routeEstimationRequired sampleCausalSearch (some sampleFailed) rfl

def sampleSelected : RouteTraceEvent :=
  sampleEvent 5 .routeEstimationRequired .localExecutionRequired sampleRouteSelection
    (some sampleEstimated) rfl

def sampleEvents : List RouteTraceEvent :=
  let e₆ := sampleEvent 6 .localExecutionRequired .fallbackExecutionRequired sampleLocalResult
    (some sampleSelected) rfl
  let e₇ := sampleEvent 7 .fallbackExecutionRequired .fullGroundFallback sampleFallbackResult
    (some e₆) rfl
  [sampleVerified, sampleCompatible, sampleChecked, sampleFailed, sampleEstimated, sampleSelected,
    e₆, e₇]

def sampleTotal : WorkVector where
  registryId := sampleRegistry.registryId
  subjectId := attemptSubject sampleContext
  values := [("work.operations", 8)]
  increasing := List.pairwise_singleton _ _
  paths := by simpa using (by decide +kernel : IsPath "work.operations")

/-- A local transaction is selected and fails, and the fallback then finds a certificate. -/
def sampleEnvelope : RouteTraceEnvelope :=
  ⟨sampleIds.contextId sampleContext, sampleEvents, .fullGroundFallback, sampleTotal, true, by
    simp [sampleEvents]⟩

instance : DecidableEq (Except RouteError (RouteState × WorkVector))
  | .error e, .error e' => decidable_of_iff (e = e') (by simp)
  | .ok a, .ok b => decidable_of_iff (a = b) (by simp)
  | .error _, .ok _ | .ok _, .error _ => isFalse (by simp)

theorem replayStrict_sample :
    replayStrictRouteEnvelope sampleIds sampleContext sampleCatalog sampleEnvelope sampleRegistry =
      .ok (.fullGroundFallback, sampleTotal) := by
  decide +kernel

def RouteTraceEnvelope.artifacts (envelope : RouteTraceEnvelope) : List Identifier :=
  envelope.events.flatMap fun e => e.evidence.artifactRefs.map Prod.snd

theorem RouteTraceEnvelope.mem_artifacts (envelope : RouteTraceEnvelope) :
    ∀ e ∈ envelope.events, ∀ ref ∈ e.evidence.artifactRefs, ref.2 ∈ envelope.artifacts :=
  fun _ he _ href => List.mem_flatMap.mpr ⟨_, he, List.mem_map_of_mem href⟩

theorem looselyAccepted_iff_sample :
    LooselyAccepted sampleIds sampleContext sampleRegistry sampleCatalog.boundMap
      sampleEnvelope.artifacts sampleEnvelope .fullGroundFallback sampleTotal ↔
      ∀ e ∈ sampleEnvelope.events, ¬ e.evidence.FailsLocally :=
  looselyAccepted_iff replayStrict_sample sampleEnvelope.mem_artifacts

/-- The strict verifier accepts the sample, the loose one raises on it, and the builder is stuck
before its last event. -/
theorem looselyRejected_sample :
    replayStrictRouteEnvelope sampleIds sampleContext sampleCatalog sampleEnvelope sampleRegistry =
      .ok (.fullGroundFallback, sampleTotal) ∧
    replayRouteEvents sampleIds sampleContext sampleRegistry sampleCatalog.boundMap
      sampleEnvelope.artifacts sampleEnvelope.events true =
      .error (.router "execution result has no selected upper bound") ∧
    verifyRouteEnvelope sampleIds sampleContext sampleRegistry sampleCatalog.boundMap
      sampleEnvelope.artifacts sampleEnvelope ≠ .ok () ∧
    ∀ evidence e, appendRouteEvent sampleIds sampleContext sampleRegistry sampleCatalog.boundMap
      sampleEnvelope.artifacts (sampleEvents.take 7) evidence ≠ .ok e := by
  refine ⟨replayStrict_sample, by decide +kernel, fun h => ?_, ?_⟩
  · simp only [verifyRouteEnvelope, bind_eq_ok, Prod.exists] at h
    obtain ⟨_, -, state, work, hreplay, -⟩ := h
    have hfails := not_failsLocally_of_replay hreplay sampleEvents[6] (by simp [sampleEnvelope])
    exact hfails ⟨rfl, .inl rfl⟩
  · exact append_stuck (sampleEvents.take 6) ⟨rfl, .inl rfl⟩

end Acfqp.Route
