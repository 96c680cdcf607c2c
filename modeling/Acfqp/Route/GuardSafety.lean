import Acfqp.Library.Dict
import Acfqp.Route.Guard
import Acfqp.Route.Replays

/-!
# Guarded routes are safe

The transition table fixes which events come before an execution result: its selection, and before
that its causal search. The guard binds the three to one decision point, and the strict replay binds
the result to the bound that the selection froze.
-/

namespace Acfqp.Route

open Library

/-! ## The transition table, read backwards -/

section

variable {state next : RouteState} {role : Role} {outcome : RouteOutcome}

/-- What leads into the three states with a selected route or the choice of one. -/
theorem transition_into (h : transition state role outcome = some next) :
    (next = .routeEstimationRequired → role = .causalSearch) ∧
    (next = .localExecutionRequired →
      state = .routeEstimationRequired ∧ role = .routeSelection ∧ outcome = .selectLocal) ∧
    (next = .fallbackExecutionRequired →
      (state = .routeEstimationRequired ∧ role = .routeSelection ∧ outcome ≠ .selectLocal) ∨
      (state = .localExecutionRequired ∧ role = .localResult)) ∧
    (next = .nextLocalTransactionRequired →
      state = .localExecutionRequired ∧ role = .localResult ∧
        outcome = .failedDeeperBudgetRemains) := by
  unfold transition at h
  split at h <;> cases h <;> simp

/-- Where the events of a transaction are legal, and where they lead. -/
theorem transition_from (h : transition state role outcome = some next) :
    (role = .causalSearch → (state = .abstractFailed ∨ state = .nextLocalTransactionRequired) ∧
      next = .routeEstimationRequired) ∧
    (role = .routeSelection → state = .routeEstimationRequired ∧
      (next = .localExecutionRequired ∨ next = .fallbackExecutionRequired)) ∧
    (role = .localResult → state = .localExecutionRequired ∧
      (next = .nextLocalTransactionRequired ∨ next = .fallbackExecutionRequired ∨
        next.terminal = true) ∧
      (outcome = .failedDeeperBudgetExhausted → next = .fallbackExecutionRequired)) ∧
    (role = .fallbackResult → state = .fallbackExecutionRequired ∧ next.terminal = true) ∧
    (state = .fallbackExecutionRequired → role = .fallbackResult) := by
  unfold transition at h
  split at h <;> cases h <;> simp [RouteState.terminal]

/-- How many more causal searches than local results a state has seen: those before any search and
between transactions none, those within a local transaction one. -/
def RouteState.pending : RouteState → Option ℕ
  | .start | .integrityVerified | .compatibilityVerified | .cacheChecked | .abstractFailed
  | .nextLocalTransactionRequired => some 0
  | .routeEstimationRequired | .localExecutionRequired => some 1
  | _ => none

theorem transition_pending (h : transition state role outcome = some next) :
    (role = .causalSearch → state.pending = some 0 ∧ next.pending = some 1) ∧
    (role = .localResult → state.pending = some 1 ∧ ∀ p, next.pending = some p → p = 0) ∧
    (role ≠ .causalSearch → role ≠ .localResult →
      ∀ p, next.pending = some p → state.pending = some p) := by
  unfold transition at h
  split at h <;> cases h <;> simp [RouteState.pending]

end

/-! ## What the guard binds -/

section

variable {ids : Digests} {context : RouteDecisionContext} {registry : CounterRegistry}
  {profile : ComparisonProfile} {capProfile : RouteCapProfile}
  {decisionPoints : List DecisionPointBinding}
  {localProjection fallbackProjection : ActualProjection}
  {g g' : GuardState} {evidence : TransitionEvidence}

theorem guardCausal_eq_ok (h : guardCausal ids decisionPoints g evidence = .ok g') :
    ∃ point ∈ decisionPoints, point.causalEvidenceId = ids.evidenceId evidence ∧
      ids.evidenceId evidence ∉ g.seenCausal ∧
      evidence.transactionId = some point.transactionId ∧
      evidence.outcome = point.causalOutcome ∧
      g' = ⟨some point, ids.evidenceId evidence :: g.seenCausal⟩ := by
  simp only [guardCausal, bind_eq_ok, orRaise_eq_ok, require_eq_ok, pure_eq_ok] at h
  obtain ⟨point, hpoint, -, hseen, -, htransaction, -, houtcome, -, -, rfl⟩ := h
  exact ⟨point, List.mem_of_find?_eq_some hpoint, by simpa using List.find?_some hpoint, hseen,
    htransaction, houtcome, rfl⟩

theorem guardSelection_eq_ok (h : guardSelection g evidence = .ok g') :
    g' = g ∧ ∃ active, g.active = some active ∧
      evidence.transactionId = some active.transactionId := by
  simp only [guardSelection, bind_eq_ok, orRaise_eq_ok, require_eq_ok, pure_eq_ok] at h
  obtain ⟨active, hactive, -, htransaction, -, -, _, -, -, -, -, -, rfl⟩ := h
  exact ⟨rfl, active, hactive, htransaction⟩

theorem guardLocal_eq_ok
    (h : guardLocal ids context registry profile capProfile localProjection g evidence = .ok g') :
    g'.seenCausal = g.seenCausal ∧ ∃ active, g.active = some active ∧
      evidence.transactionId = some active.transactionId ∧ active.causalOutcome = .found ∧
      (evidence.outcome = .failedDeeperBudgetRemains →
        active.transactionIndex < capProfile.maxLocalTransactions) ∧
      (evidence.outcome = .failedDeeperBudgetExhausted →
        capProfile.maxLocalTransactions ≤ active.transactionIndex) ∧
      (evidence.outcome ≠ .failedDeeperBudgetRemains → g'.active = some active) := by
  simp only [guardLocal, checkBudget, bind_eq_ok, orRaise_eq_ok, require_eq_ok, pure_eq_ok] at h
  obtain ⟨active, hactive, -, htransaction, -, hfound, -, -, _, -, -, -, _,
    ⟨-, hremains, hexhausted⟩, rfl⟩ := h
  refine ⟨by split <;> rfl, active, hactive, htransaction, hfound, hremains, hexhausted,
    fun hne => ?_⟩
  rw [if_neg hne]
  exact hactive

theorem guardFallback_eq_ok
    (h : guardFallback ids context registry profile fallbackProjection g evidence = .ok g') :
    g'.seenCausal = g.seenCausal ∧ ∃ active, g.active = some active ∧
      evidence.transactionId = some active.transactionId := by
  simp only [guardFallback, bind_eq_ok, orRaise_eq_ok, require_eq_ok, pure_eq_ok] at h
  obtain ⟨active, hactive, -, htransaction, -, -, _, -, -, -, rfl⟩ := h
  exact ⟨rfl, active, hactive, htransaction⟩

/-- Only a causal search is recorded as seen. -/
theorem guardStep_seen {event : RouteTraceEvent}
    (h : guardStep ids context registry profile capProfile decisionPoints localProjection
      fallbackProjection g event = .ok g') (hrole : event.evidence.role ≠ .causalSearch) :
    g'.seenCausal = g.seenCausal := by
  unfold guardStep at h
  split at h
  · exact absurd ‹_› hrole
  · rw [(guardSelection_eq_ok h).1]
  · exact (guardLocal_eq_ok h).1
  · exact (guardFallback_eq_ok h).1
  · rw [pure_eq_ok.mp h]

theorem checkDecisionPoints_eq_ok
    (h : checkDecisionPoints ids context capProfile decisionPoints localProjection
      fallbackProjection = .ok ()) :
    (decisionPoints.map (·.causalEvidenceId)).Nodup ∧
    (decisionPoints.map (·.transactionId)).Nodup ∧
    (decisionPoints.map (·.transactionIndex)).Perm (List.range' 1 decisionPoints.length) ∧
    ∀ point ∈ decisionPoints, point.transactionIndex ≤ capProfile.maxLocalTransactions := by
  simp only [checkDecisionPoints, bind_eq_ok, require_eq_ok] at h
  obtain ⟨-, -, -, -, -, -, -, hcausal, -, htransaction, -, hindices, hpoints⟩ := h
  refine ⟨hcausal, htransaction, hindices ▸ (perm_sortBy id _).symm, fun point hpoint => ?_⟩
  have := forM_eq_ok hpoints point hpoint
  simp only [bind_eq_ok, require_eq_ok] at this
  obtain ⟨-, -, hindex⟩ := this
  exact hindex

theorem transactionIndex_mem
    (h : (decisionPoints.map (·.transactionIndex)).Perm (List.range' 1 decisionPoints.length))
    {i : ℕ} : i ∈ decisionPoints.map (·.transactionIndex) ↔ 1 ≤ i ∧ i ≤ decisionPoints.length := by
  rw [h.mem_iff, List.mem_range'_1]
  omega

end

variable {ids : Digests} {context : RouteDecisionContext} {registry : CounterRegistry}
  {capProfile : RouteCapProfile} {decisionPoints : List DecisionPointBinding}
  {localProjection fallbackProjection : ActualProjection} {catalog : VerifiedRouteInputCatalog ids}
  {envelope : RouteTraceEnvelope} {state : RouteState} {work : WorkVector}
  {st : ℕ → StrictReplay} {gt : ℕ → GuardState}

variable (ids context registry capProfile decisionPoints localProjection fallbackProjection catalog
  envelope state work st gt) in
/-- An accepted envelope, with the states of both passes between its events. -/
structure GuardedRun : Prop where
  strict : StrictRun ids context registry catalog envelope state work st
  points : checkDecisionPoints ids context capProfile decisionPoints localProjection
    fallbackProjection = .ok ()
  first : gt 0 = ⟨none, []⟩
  step : ∀ i (hi : i < envelope.events.length),
    guardStep ids context registry catalog.profile capProfile decisionPoints localProjection
      fallbackProjection (gt i) envelope.events[i] = .ok (gt (i + 1))
  seen : (gt envelope.events.length).seenCausal.toFinset =
    (decisionPoints.map (·.causalEvidenceId)).toFinset

theorem guardedRun_of_guard
    (h : guardRouteProtocol ids context registry capProfile decisionPoints localProjection
      fallbackProjection catalog envelope = .ok (state, work)) :
    ∃ st gt, GuardedRun ids context registry capProfile decisionPoints localProjection
      fallbackProjection catalog envelope state work st gt := by
  simp only [guardRouteProtocol, bind_eq_ok, require_eq_ok, pure_eq_ok, Prod.exists,
    Prod.mk.injEq] at h
  obtain ⟨_, _, hstrict, _, hpoints, g, hfold, -, hseen, rfl, rfl⟩ := h
  obtain ⟨st, run⟩ := strictRun_of_replay hstrict
  obtain ⟨gt, hfirst, hlast, hstep⟩ := foldlM_states hfold
  exact ⟨st, gt, run, hpoints, hfirst, hstep, by rw [hlast, hseen]⟩

def RoleAt (envelope : RouteTraceEnvelope) (role : Role) (i : ℕ) : Prop :=
  ∃ h : i < envelope.events.length, envelope.events[i].evidence.role = role

def roleCount (envelope : RouteTraceEnvelope) (role : Role) (n : ℕ) : ℕ :=
  (envelope.events.take n).countP fun e => e.evidence.role = role

theorem roleCount_succ {role : Role} {n : ℕ} (hn : n < envelope.events.length) :
    roleCount envelope role (n + 1) = roleCount envelope role n +
      if envelope.events[n].evidence.role = role then 1 else 0 := by
  rw [roleCount, roleCount, List.take_add_one, List.getElem?_eq_getElem hn, Option.toList_some,
    List.countP_append, List.countP_singleton]
  simp

namespace GuardedRun

variable (run : GuardedRun ids context registry capProfile decisionPoints localProjection
  fallbackProjection catalog envelope state work st gt)
include run

theorem transition_at {i : ℕ} (hi : i < envelope.events.length) :
    transition (st i).state envelope.events[i].evidence.role envelope.events[i].evidence.outcome =
      some (st (i + 1)).state := by
  rw [run.strict.state_succ hi]
  exact (run.strict.chained hi).next

theorem state_zero : (st 0).state = .start := by
  rw [run.strict.first]
  rfl

/-- A state other than the start comes after an event. -/
theorem pred_of_state {i : ℕ} (hstart : (st i).state ≠ .start) (hi : i ≤ envelope.events.length) :
    ∃ j, i = j + 1 ∧ j < envelope.events.length := by
  cases i with
  | zero => exact absurd run.state_zero hstart
  | succ j => exact ⟨j, rfl, hi⟩

/-- A selection comes right after a causal search. -/
theorem causal_before {i : ℕ} (hstate : (st i).state = .routeEstimationRequired)
    (hi : i ≤ envelope.events.length) :
    ∃ j, i = j + 1 ∧ RoleAt envelope .causalSearch j := by
  obtain ⟨j, rfl, hj⟩ := run.pred_of_state (by simp [hstate]) hi
  exact ⟨j, rfl, hj, (transition_into (run.transition_at hj)).1 hstate⟩

theorem selection_before_local {i : ℕ} (hstate : (st i).state = .localExecutionRequired)
    (hi : i ≤ envelope.events.length) :
    ∃ j, i = j + 2 ∧ RoleAt envelope .causalSearch j ∧ RoleAt envelope .routeSelection (j + 1) ∧
      ∃ h : j + 1 < envelope.events.length,
        envelope.events[j + 1].evidence.outcome = .selectLocal := by
  obtain ⟨k, rfl, hk⟩ := run.pred_of_state (by simp [hstate]) hi
  obtain ⟨hbefore, hrole, houtcome⟩ := (transition_into (run.transition_at hk)).2.1 hstate
  obtain ⟨j, rfl, hcausal⟩ := run.causal_before hbefore hk.le
  exact ⟨j, rfl, hcausal, ⟨hk, hrole⟩, hk, houtcome⟩

/-! ### Decision points -/

theorem causal_at {i : ℕ} (h : RoleAt envelope .causalSearch i) :
    ∃ hi : i < envelope.events.length, ∃ point ∈ decisionPoints,
      point.causalEvidenceId = ids.evidenceId envelope.events[i].evidence ∧
      ids.evidenceId envelope.events[i].evidence ∉ (gt i).seenCausal ∧
      envelope.events[i].evidence.transactionId = some point.transactionId ∧
      envelope.events[i].evidence.outcome = point.causalOutcome ∧
      gt (i + 1) = ⟨some point, ids.evidenceId envelope.events[i].evidence ::
        (gt i).seenCausal⟩ := by
  obtain ⟨hi, hrole⟩ := h
  have hstep := run.step i hi
  rw [guardStep, hrole] at hstep
  exact ⟨hi, guardCausal_eq_ok hstep⟩

theorem selection_at {i : ℕ} (h : RoleAt envelope .routeSelection i) :
    ∃ hi : i < envelope.events.length, gt (i + 1) = gt i ∧ ∃ active, (gt i).active = some active ∧
      envelope.events[i].evidence.transactionId = some active.transactionId := by
  obtain ⟨hi, hrole⟩ := h
  have hstep := run.step i hi
  rw [guardStep, hrole] at hstep
  exact ⟨hi, guardSelection_eq_ok hstep⟩

theorem local_at {i : ℕ} (h : RoleAt envelope .localResult i) :
    ∃ hi : i < envelope.events.length, ∃ active, (gt i).active = some active ∧
      envelope.events[i].evidence.transactionId = some active.transactionId ∧
      active.causalOutcome = .found ∧
      (envelope.events[i].evidence.outcome = .failedDeeperBudgetRemains →
        active.transactionIndex < capProfile.maxLocalTransactions) ∧
      (envelope.events[i].evidence.outcome = .failedDeeperBudgetExhausted →
        capProfile.maxLocalTransactions ≤ active.transactionIndex) ∧
      (envelope.events[i].evidence.outcome ≠ .failedDeeperBudgetRemains →
        (gt (i + 1)).active = some active) := by
  obtain ⟨hi, hrole⟩ := h
  have hstep := run.step i hi
  rw [guardStep, hrole] at hstep
  exact ⟨hi, (guardLocal_eq_ok hstep).2⟩

theorem fallback_at {i : ℕ} (h : RoleAt envelope .fallbackResult i) :
    ∃ hi : i < envelope.events.length, ∃ active, (gt i).active = some active ∧
      envelope.events[i].evidence.transactionId = some active.transactionId := by
  obtain ⟨hi, hrole⟩ := h
  have hstep := run.step i hi
  rw [guardStep, hrole] at hstep
  exact ⟨hi, (guardFallback_eq_ok hstep).2⟩

theorem seen_mono {i : ℕ} (hi : i < envelope.events.length) :
    (gt i).seenCausal ⊆ (gt (i + 1)).seenCausal := by
  by_cases hrole : envelope.events[i].evidence.role = .causalSearch
  · obtain ⟨_, point, -, -, -, -, -, heq⟩ := run.causal_at ⟨hi, hrole⟩
    rw [heq]
    exact List.subset_cons_self _ _
  · rw [guardStep_seen (run.step i hi) hrole]
    exact List.Subset.refl _

theorem seen_of_lt {i j : ℕ} (h : RoleAt envelope .causalSearch i) (hij : i < j)
    (hj : j ≤ envelope.events.length) :
    ∃ hi : i < envelope.events.length,
      ids.evidenceId envelope.events[i].evidence ∈ (gt j).seenCausal := by
  obtain ⟨hi, _, -, -, -, -, -, heq⟩ := run.causal_at h
  refine ⟨hi, ?_⟩
  induction j, hij using Nat.le_induction with
  | base =>
    rw [heq]
    exact List.mem_cons_self
  | succ j hij ih => exact run.seen_mono (by omega) (ih (by omega))

theorem causal_unique {i j : ℕ} {t : Identifier} (hi : RoleAt envelope .causalSearch i)
    (hj : RoleAt envelope .causalSearch j)
    (hti : ∃ h : i < envelope.events.length,
      envelope.events[i].evidence.transactionId = some t)
    (htj : ∃ h : j < envelope.events.length,
      envelope.events[j].evidence.transactionId = some t) : i = j := by
  obtain ⟨-, htransactions, -, -⟩ := checkDecisionPoints_eq_ok run.points
  obtain ⟨hli, p, hp, hpid, hpseen, hpt, -, -⟩ := run.causal_at hi
  obtain ⟨hlj, q, hq, hqid, hqseen, hqt, -, -⟩ := run.causal_at hj
  obtain ⟨_, hti⟩ := hti
  obtain ⟨_, htj⟩ := htj
  have hpq : p = q := List.inj_on_of_nodup_map htransactions hp hq
    (Option.some.inj ((hpt.symm.trans hti).trans (hqt.symm.trans htj).symm))
  subst hpq
  rcases lt_trichotomy i j with hlt | heq | hlt
  · obtain ⟨_, hmem⟩ := run.seen_of_lt hi hlt hlj.le
    rw [← hpid, hqid] at hmem
    exact absurd hmem hqseen
  · exact heq
  · obtain ⟨_, hmem⟩ := run.seen_of_lt hj hlt hli.le
    rw [← hqid, hpid] at hmem
    exact absurd hmem hpseen

/-! ### Counting transactions -/

/-- The seen evidence is distinct, one for each causal search. -/
theorem seen_count {n : ℕ} (hn : n ≤ envelope.events.length) :
    (gt n).seenCausal.Nodup ∧ (gt n).seenCausal.length = roleCount envelope .causalSearch n := by
  induction n with
  | zero => simp [run.first, roleCount]
  | succ n ih =>
    obtain ⟨hnodup, hlength⟩ := ih (by omega)
    rw [roleCount_succ hn]
    by_cases hrole : envelope.events[n].evidence.role = .causalSearch
    · obtain ⟨_, _, -, -, hseen, -, -, heq⟩ := run.causal_at ⟨hn, hrole⟩
      rw [heq, if_pos hrole]
      exact ⟨List.nodup_cons.mpr ⟨hseen, hnodup⟩, by simp [hlength]⟩
    · rw [guardStep_seen (run.step n hn) hrole, if_neg hrole]
      exact ⟨hnodup, hlength⟩

/-- All causal searches together are the decision points. -/
theorem causal_count :
    roleCount envelope .causalSearch envelope.events.length = decisionPoints.length := by
  obtain ⟨hnodup, hlength⟩ := run.seen_count le_rfl
  obtain ⟨hcausal, -, -, -⟩ := checkDecisionPoints_eq_ok run.points
  rw [← hlength, ← List.toFinset_card_of_nodup hnodup, run.seen,
    List.toFinset_card_of_nodup hcausal, List.length_map]

/-- Local results keep up with causal searches. -/
theorem local_count {n : ℕ} (hn : n ≤ envelope.events.length) :
    roleCount envelope .localResult n ≤ roleCount envelope .causalSearch n ∧
    ∀ p, (st n).state.pending = some p →
      roleCount envelope .localResult n + p = roleCount envelope .causalSearch n := by
  induction n with
  | zero =>
    rw [run.state_zero]
    simp [roleCount, RouteState.pending]
  | succ n ih =>
    obtain ⟨hle, hpending⟩ := ih (by omega)
    obtain ⟨hcausal, hlocal, hother⟩ := transition_pending (run.transition_at hn)
    rw [roleCount_succ hn, roleCount_succ hn]
    by_cases hrole : envelope.events[n].evidence.role = .causalSearch
    · have hbefore := hpending 0 (hcausal hrole).1
      rw [(hcausal hrole).2, hrole]
      simp
      omega
    · by_cases hrole' : envelope.events[n].evidence.role = .localResult
      · have hbefore := hpending 1 (hlocal hrole').1
        rw [hrole']
        refine ⟨by simp; omega, fun p hp => ?_⟩
        rw [(hlocal hrole').2 p hp]
        simp
        omega
      · rw [if_neg hrole, if_neg hrole']
        exact ⟨hle, fun p hp => hpending p (hother hrole hrole' p hp)⟩

theorem causal_count_fallback {n : ℕ} (hn : n ≤ envelope.events.length)
    (hstate : (st n).state = .fallbackExecutionRequired) :
    roleCount envelope .causalSearch envelope.events.length =
      roleCount envelope .causalSearch n := by
  rcases hn.lt_or_eq with hlt | rfl
  · have htransition := run.transition_at hlt
    have hrole := (transition_from htransition).2.2.2.2 hstate
    have hterminal := ((transition_from htransition).2.2.2.1 hrole).2
    have hend : n + 1 = envelope.events.length := by
      by_contra hne
      have := (run.strict.chained (show n + 1 < envelope.events.length by omega)).running
      simp [hterminal] at this
    rw [← hend, roleCount_succ hlt, hrole]
    simp
  · rfl

theorem bounds_at_selection {i : ℕ} (h : RoleAt envelope .routeSelection i) :
    ∃ hi : i < envelope.events.length, ∃ localBound fallback,
      validateStrictSelection ids context catalog envelope.events[i].evidence =
        .ok (localBound, fallback) ∧
      (st (i + 1)).selectedBound =
        (if envelope.events[i].evidence.outcome = .selectLocal then localBound else some fallback) ∧
      (st (i + 1)).frozenFallbackBound = some fallback := by
  obtain ⟨hi, hrole⟩ := h
  obtain ⟨hchained, -, -, selected, frozen, hselect, selected', frozen', hretain, heq⟩ :=
    strictStep_eq_ok.mp (run.strict.step i hi)
  have hnext := (transition_from hchained.next).2.1 hrole
  rw [selectStrictBounds, hrole] at hselect
  simp only [bind_eq_ok, Prod.exists, pure_eq_ok, Prod.mk.injEq] at hselect
  obtain ⟨localBound, fallback, hselection, rfl, rfl⟩ := hselect
  rw [retainBounds, hrole, if_neg (by rcases hnext.2 with h | h <;> simp [h]), if_neg (by simp),
    pure_eq_ok, Prod.mk.injEq] at hretain
  obtain ⟨rfl, rfl⟩ := hretain
  rw [heq]
  exact ⟨hi, localBound, fallback, hselection, rfl, rfl⟩

theorem bounds_at_execution {i : ℕ} {role : Role} {route : RouteCandidate}
    (h : RoleAt envelope role i) (hroute : role.route = some route) :
    ∃ hi : i < envelope.events.length, ∃ b a, (st i).selectedBound = some b ∧
      envelope.events[i].evidence.actualComparison = some a ∧ actualWithinBound a b = .ok () ∧
      ((st (i + 1)).state = .fallbackExecutionRequired → role = .localResult →
        (st (i + 1)).selectedBound = (st i).frozenFallbackBound) := by
  obtain ⟨hi, hrole⟩ := h
  obtain ⟨hchained, -, -, selected, frozen, hselect, selected', frozen', hretain, heq⟩ :=
    strictStep_eq_ok.mp (run.strict.step i hi)
  have hboth : (selected, frozen) = ((st i).selectedBound, (st i).frozenFallbackBound) ∧
      ∃ b a, (st i).selectedBound = some b ∧
        envelope.events[i].evidence.actualComparison = some a ∧ actualWithinBound a b = .ok () := by
    rw [selectStrictBounds, hrole] at hselect
    cases role with
    | localResult | fallbackResult =>
      simp only [bind_eq_ok, pure_eq_ok] at hselect
      obtain ⟨_, hcheck, hpair⟩ := hselect
      obtain ⟨b, a, hb, -, ha, hwithin⟩ := checkExecution_eq_ok.mp hcheck
      exact ⟨hpair.symm, b, a, hb, ha, hwithin⟩
    | _ => cases hroute
  obtain ⟨hpair, b, a, hb, ha, hwithin⟩ := hboth
  cases hpair
  refine ⟨hi, b, a, hb, ha, hwithin, fun hstate hlocal => ?_⟩
  rw [heq] at hstate ⊢
  rw [retainBounds, hrole, hlocal, show envelope.events[i].stateAfter = _ from hstate,
    if_neg (by simp), if_pos ⟨rfl, rfl⟩] at hretain
  obtain ⟨fallback, hfallback, hpair⟩ := bind_eq_ok.mp hretain
  rw [orRaise_eq_ok] at hfallback
  rw [hfallback]
  exact (Prod.mk.inj (pure_eq_ok.mp hpair)).1.symm

end GuardedRun

/-! ## Safety -/

/-- The first vector is nowhere above the second one, over the same axes. -/
def Within (left right : List (String × ℕ)) : Prop :=
  keySet left = keySet right ∧ ∀ axis ∈ keySet left, valueOf left axis ≤ valueOf right axis

/-- The first vector is nowhere above the second one and somewhere below it. -/
def StrictlyDominates (left right : List (String × ℕ)) : Prop :=
  Within left right ∧ ∃ axis ∈ keySet left, valueOf left axis < valueOf right axis

theorem valueOf_of_mem {values : List (String × ℕ)} (h : Increasing values) {entry : String × ℕ}
    (hmem : entry ∈ values) : valueOf values entry.1 = entry.2 := by
  have hnodup : (values.map Prod.fst).Nodup := h.imp fun hlt => ne_of_lt hlt
  rw [valueOf, Dict.lookup_eq_some hnodup hmem]
  rfl

theorem forall_entries {values : List (String × ℕ)} (h : Increasing values)
    {P : String → ℕ → Prop} :
    (∀ entry ∈ values, P entry.1 entry.2) ↔ ∀ axis ∈ keySet values,
      P axis (valueOf values axis) := by
  constructor
  · intro hall axis haxis
    obtain ⟨entry, hentry, rfl⟩ := List.mem_map.mp (List.mem_toFinset.mp haxis)
    rw [valueOf_of_mem h hentry]
    exact hall entry hentry
  · intro hall entry hentry
    rw [← valueOf_of_mem h hentry]
    exact hall entry.1 (List.mem_toFinset.mpr (List.mem_map_of_mem hentry))

theorem within_of_actual {actual : ComparisonVector} {bound : RouteUpperBound}
    (h : actualWithinBound actual bound = .ok ()) : Within actual.values bound.vector.values := by
  simp only [actualWithinBound, bind_eq_ok, require_eq_ok] at h
  obtain ⟨-, -, -, hkeys, hle⟩ := h
  exact ⟨hkeys, (forall_entries actual.increasing (P := fun axis n =>
    n ≤ valueOf bound.vector.values axis)).mp hle⟩

theorem strictlyDominates_of_relation {left right : RouteUpperBound}
    (h : compareRouteUpperBounds left right = .ok .leftDominates) :
    StrictlyDominates left.vector.values right.vector.values := by
  simp only [compareRouteUpperBounds, bind_eq_ok, require_eq_ok, pure_eq_ok] at h
  obtain ⟨-, -, -, -, -, hkeys, hrelation⟩ := h
  have hle := forall_entries left.vector.increasing (P := fun axis n =>
    n ≤ valueOf right.vector.values axis)
  have hge := forall_entries left.vector.increasing (P := fun axis n =>
    valueOf right.vector.values axis ≤ n)
  simp only [Relation.of, decide_eq_true_eq] at hrelation
  split at hrelation
  · cases hrelation
  · next hboth =>
    split at hrelation
    · next hleft =>
      refine ⟨⟨hkeys, hle.mp hleft⟩, ?_⟩
      have hright := mt hge.mpr fun hright => hboth ⟨hleft, hright⟩
      push Not at hright
      exact hright
    · split at hrelation <;> cases hrelation

/-- The bound that a selection freezes for a route. -/
def TransitionEvidence.frozenBoundId (selection : TransitionEvidence) :
    RouteCandidate → Option Identifier
  | .localAttempt => selection.localBoundId
  | .directFallback => selection.fallbackBoundId

section Statement

variable {ids : Digests} (catalog : VerifiedRouteInputCatalog ids) (events : List RouteTraceEvent)

/-- The evidence at an index is of a role and a transaction. -/
def InTransaction (transactionId : Identifier) (role : Role) (i : ℕ) (e : RouteTraceEvent) : Prop :=
  events[i]? = some e ∧ e.evidence.role = role ∧ e.evidence.transactionId = some transactionId

/-- A local result follows the one causal search and the one selection of its transaction, after
every event of the others. -/
structure Authorized (i : ℕ) (e : RouteTraceEvent) : Prop where
  authorized : ∃ t j k causal selection, e.evidence.transactionId = some t ∧ j < k ∧ k < i ∧
    InTransaction events t .causalSearch j causal ∧ causal.evidence.outcome = .found ∧
    (∀ m c, InTransaction events t .causalSearch m c → m = j) ∧
    InTransaction events t .routeSelection k selection ∧
    selection.evidence.outcome = .selectLocal ∧
    (∀ m c, InTransaction events t .routeSelection m c → m = k) ∧
    (∀ m c t', m < i → events[m]? = some c → c.evidence.transactionId = some t' → t' ≠ t → m < j) ∧
    ∃ localBound fallback, selection.evidence.localBoundId.bind catalog.boundMap = some localBound ∧
      selection.evidence.fallbackBoundId.bind catalog.boundMap = some fallback ∧
      StrictlyDominates localBound.vector.values fallback.vector.values

/-- An execution result is within the bound that the latest selection of its transaction froze. -/
def WithinFrozen (i : ℕ) (e : RouteTraceEvent) (route : RouteCandidate) : Prop :=
  ∃ t k selection bound actual, e.evidence.transactionId = some t ∧ k < i ∧
    InTransaction events t .routeSelection k selection ∧
    (∀ m c, k < m → m < i → events[m]? = some c → c.evidence.role ≠ .routeSelection) ∧
    (selection.evidence.frozenBoundId route).bind catalog.boundMap = some bound ∧
    e.evidence.actualComparison = some actual ∧ Within actual.values bound.vector.values

/-- The order, the bounds and the budget of a guarded route. -/
structure RouteSafe (capProfile : RouteCapProfile) : Prop where
  authorized : ∀ i e, events[i]? = some e → e.evidence.role = .localResult →
    Authorized catalog events i e
  withinFrozen : ∀ i e route, events[i]? = some e → e.evidence.role.route = some route →
    WithinFrozen catalog events i e route
  terminal : ∀ i e, events[i]? = some e → e.stateAfter.terminal = true → i + 1 = events.length
  budget : events.countP (·.evidence.role = .localResult) ≤ capProfile.maxLocalTransactions
  exhausted : ∀ i e, events[i]? = some e → e.evidence.role = .localResult →
    e.evidence.outcome = .failedDeeperBudgetExhausted →
    (events.take (i + 1)).countP (·.evidence.role = .localResult) = capProfile.maxLocalTransactions

end Statement

namespace GuardedRun

variable (run : GuardedRun ids context registry capProfile decisionPoints localProjection
    fallbackProjection catalog envelope state work st gt)
include run

/-- A causal search and the selection after it are of one transaction. -/
theorem transaction_at {j : ℕ} (hcausal : RoleAt envelope .causalSearch j)
    (hselection : RoleAt envelope .routeSelection (j + 1)) :
    ∃ point ∈ decisionPoints, ∃ causal selection, (gt (j + 2)).active = some point ∧
      InTransaction envelope.events point.transactionId .causalSearch j causal ∧
      causal.evidence.outcome = point.causalOutcome ∧
      InTransaction envelope.events point.transactionId .routeSelection (j + 1) selection := by
  obtain ⟨hj, point, hpoint, -, -, htransaction, houtcome, heq⟩ := run.causal_at hcausal
  obtain ⟨hk, hsame, active, hactive, htransaction'⟩ := run.selection_at hselection
  rw [heq] at hsame hactive
  cases hactive
  refine ⟨point, hpoint, envelope.events[j], envelope.events[j + 1], by rw [hsame],
    ⟨List.getElem?_eq_getElem hj, ?_, htransaction⟩, houtcome,
    ⟨List.getElem?_eq_getElem hk, ?_, htransaction'⟩⟩
  · obtain ⟨_, hrole⟩ := hcausal
    exact hrole
  · obtain ⟨_, hrole⟩ := hselection
    exact hrole

omit run in
theorem roleAt_of_inTransaction {t : Identifier} {role : Role} {i : ℕ} {e : RouteTraceEvent}
    (h : InTransaction envelope.events t role i e) : RoleAt envelope role i ∧
      ∃ hi : i < envelope.events.length,
        envelope.events[i].evidence.transactionId = some t := by
  obtain ⟨hget, hrole, htransaction⟩ := h
  obtain ⟨hi, rfl⟩ := List.getElem?_eq_some_iff.mp hget
  exact ⟨⟨hi, hrole⟩, hi, htransaction⟩

theorem causal_index {t : Identifier} {i j : ℕ} {c c' : RouteTraceEvent}
    (h : InTransaction envelope.events t .causalSearch i c)
    (h' : InTransaction envelope.events t .causalSearch j c') : i = j :=
  run.causal_unique (roleAt_of_inTransaction h).1 (roleAt_of_inTransaction h').1
    (roleAt_of_inTransaction h).2 (roleAt_of_inTransaction h').2

theorem causal_of_selection {t : Identifier} {k : ℕ} {c : RouteTraceEvent}
    (h : InTransaction envelope.events t .routeSelection k c) :
    ∃ j causal, k = j + 1 ∧ InTransaction envelope.events t .causalSearch j causal := by
  obtain ⟨hrole, hk, htransaction⟩ := roleAt_of_inTransaction h
  obtain ⟨_, hrole'⟩ := hrole
  have hstate := ((transition_from (run.transition_at hk)).2.1 hrole').1
  obtain ⟨j, rfl, hcausal⟩ := run.causal_before hstate hk.le
  obtain ⟨point, -, causal, selection, -, hj, -, hselection⟩ :=
    run.transaction_at hcausal ⟨hk, hrole'⟩
  obtain ⟨_, hselection⟩ := (roleAt_of_inTransaction hselection).2
  rw [hselection] at htransaction
  cases htransaction
  exact ⟨j, causal, rfl, hj⟩

theorem selection_index {t : Identifier} {i j : ℕ} {c c' : RouteTraceEvent}
    (h : InTransaction envelope.events t .routeSelection i c)
    (h' : InTransaction envelope.events t .routeSelection j c') : i = j := by
  obtain ⟨i, _, rfl, hi⟩ := run.causal_of_selection h
  obtain ⟨j, _, rfl, hj⟩ := run.causal_of_selection h'
  exact congrArg (· + 1) (run.causal_index hi hj)

theorem local_transaction {i : ℕ} {e : RouteTraceEvent} (he : envelope.events[i]? = some e)
    (hrole : e.evidence.role = .localResult) :
    ∃ j, ∃ point ∈ decisionPoints, ∃ causal selection, i = j + 2 ∧ (gt i).active = some point ∧
      e.evidence.transactionId = some point.transactionId ∧ point.causalOutcome = .found ∧
      InTransaction envelope.events point.transactionId .causalSearch j causal ∧
      causal.evidence.outcome = point.causalOutcome ∧
      InTransaction envelope.events point.transactionId .routeSelection (j + 1) selection ∧
      selection.evidence.outcome = .selectLocal := by
  obtain ⟨hi, rfl⟩ := List.getElem?_eq_some_iff.mp he
  have hstate := ((transition_from (run.transition_at hi)).2.2.1 hrole).1
  obtain ⟨j, rfl, hcausal, hselection, hk, houtcome⟩ := run.selection_before_local hstate hi.le
  obtain ⟨point, hpoint, causal, selection, hactive, hj, hfound, hselection⟩ :=
    run.transaction_at hcausal hselection
  obtain ⟨_, active, hactive', htransaction, hfound', -⟩ := run.local_at ⟨hi, hrole⟩
  cases hactive.symm.trans hactive'
  refine ⟨j, point, hpoint, causal, selection, rfl, hactive, htransaction, hfound', hj, hfound,
    hselection, ?_⟩
  have hget := hselection.1
  rw [List.getElem?_eq_getElem hk, Option.some.injEq] at hget
  rw [← hget]
  exact houtcome

theorem authorized {i : ℕ} {e : RouteTraceEvent} (he : envelope.events[i]? = some e)
    (hrole : e.evidence.role = .localResult) : Authorized catalog envelope.events i e := by
  obtain ⟨j, point, -, causal, selection, rfl, -, htransaction, hfound, hcausal, houtcome,
    hselection, hlocal⟩ := run.local_transaction he hrole
  obtain ⟨hk, localBound, fallback, hvalid, -, -⟩ :=
    run.bounds_at_selection (roleAt_of_inTransaction hselection).1
  have hget := hselection.1
  rw [List.getElem?_eq_getElem hk, Option.some.injEq] at hget
  rw [hget] at hvalid
  obtain ⟨hfallback, hbound⟩ := validateStrictSelection_eq_ok.mp hvalid
  obtain ⟨-, hno, -⟩ | ⟨boundId, b, relation, hboundId, hb, hrelation, hselected, rfl⟩ := hbound
  · rw [hlocal] at hno
    cases hno
  · refine ⟨point.transactionId, j, j + 1, causal, selection, htransaction, by omega, by omega,
      hcausal, houtcome.trans hfound, fun m c hm => run.causal_index hm hcausal, hselection, hlocal,
      fun m c hm => run.selection_index hm hselection, fun m c t' hm hc ht hne => ?_,
      b, fallback, ?_, (verifiedBound_eq_ok.mp hfallback).1, ?_⟩
    · by_contra hlt
      rcases (show m = j ∨ m = j + 1 by omega) with rfl | rfl
      · cases hcausal.1.symm.trans hc
        exact hne (Option.some.inj (ht.symm.trans hcausal.2.2))
      · cases hselection.1.symm.trans hc
        exact hne (Option.some.inj (ht.symm.trans hselection.2.2))
    · rw [hboundId]
      exact (verifiedBound_eq_ok.mp hb).1
    · cases relation with
      | leftDominates => exact strictlyDominates_of_relation hrelation
      | _ =>
        rw [hlocal] at hselected
        cases hselected

theorem frozen_of_selection {t : Identifier} {k : ℕ} {selection : RouteTraceEvent}
    (h : InTransaction envelope.events t .routeSelection k selection) :
    ∃ fallback, selection.evidence.fallbackBoundId.bind catalog.boundMap = some fallback ∧
      (st (k + 1)).frozenFallbackBound = some fallback ∧
      (selection.evidence.outcome ≠ .selectLocal → (st (k + 1)).selectedBound = some fallback) ∧
      (selection.evidence.outcome = .selectLocal →
        (st (k + 1)).selectedBound = selection.evidence.localBoundId.bind catalog.boundMap) := by
  obtain ⟨hk, localBound, fallback, hvalid, hselected, hfrozen⟩ :=
    run.bounds_at_selection (roleAt_of_inTransaction h).1
  have hget := h.1
  rw [List.getElem?_eq_getElem hk, Option.some.injEq] at hget
  rw [hget] at hvalid hselected
  obtain ⟨hfallback, hbound⟩ := validateStrictSelection_eq_ok.mp hvalid
  refine ⟨fallback, (verifiedBound_eq_ok.mp hfallback).1, hfrozen, fun hne => ?_, fun heq => ?_⟩
  · rw [hselected, if_neg hne]
  · rw [hselected, if_pos heq]
    obtain ⟨-, hno, -⟩ | ⟨boundId, b, _, hboundId, hb, -, -, rfl⟩ := hbound
    · rw [heq] at hno
      cases hno
    · rw [hboundId]
      exact (verifiedBound_eq_ok.mp hb).1.symm

theorem withinFrozen_local {i : ℕ} {e : RouteTraceEvent} (he : envelope.events[i]? = some e)
    (hrole : e.evidence.role = .localResult) :
    WithinFrozen catalog envelope.events i e .localAttempt := by
  obtain ⟨j, point, -, causal, selection, rfl, -, htransaction, -, -, -, hselection, hlocal⟩ :=
    run.local_transaction he hrole
  obtain ⟨hi, heq⟩ := List.getElem?_eq_some_iff.mp he
  obtain ⟨_, b, a, hb, ha, hwithin, -⟩ :=
    run.bounds_at_execution ⟨hi, heq ▸ hrole⟩ (show Role.localResult.route = _ from rfl)
  obtain ⟨fallback, -, -, -, hselected⟩ := run.frozen_of_selection hselection
  refine ⟨point.transactionId, j + 1, selection, b, a, htransaction, by omega, hselection,
    fun m c hm hm' => by omega, ?_, heq ▸ ha, within_of_actual hwithin⟩
  exact (hselected hlocal).symm.trans hb

theorem withinFrozen_fallback {i : ℕ} {e : RouteTraceEvent} (he : envelope.events[i]? = some e)
    (hrole : e.evidence.role = .fallbackResult) :
    WithinFrozen catalog envelope.events i e .directFallback := by
  obtain ⟨hi, rfl⟩ := List.getElem?_eq_some_iff.mp he
  have hstate := ((transition_from (run.transition_at hi)).2.2.2.1 hrole).1
  obtain ⟨_, b, a, hb, ha, hwithin, -⟩ :=
    run.bounds_at_execution ⟨hi, hrole⟩ (show Role.fallbackResult.route = _ from rfl)
  obtain ⟨_, active, hactive, htransaction⟩ := run.fallback_at ⟨hi, hrole⟩
  obtain ⟨k, rfl, hk⟩ := run.pred_of_state (by simp [hstate]) hi.le
  have htransition := run.transition_at hk
  obtain ⟨hbefore, hselection, hne⟩ | ⟨hbefore, hlocal⟩ :=
    (transition_into htransition).2.2.1 hstate
  · obtain ⟨j, rfl, hcausal⟩ := run.causal_before hbefore hk.le
    obtain ⟨point, -, causal, selection, hpoint, -, -, hselected⟩ :=
      run.transaction_at hcausal ⟨hk, hselection⟩
    cases hpoint.symm.trans hactive
    obtain ⟨fallback, hfallback, -, hbound, -⟩ := run.frozen_of_selection hselected
    have hget := hselected.1
    rw [List.getElem?_eq_getElem hk, Option.some.injEq] at hget
    rw [hget] at hne
    cases (hbound hne).symm.trans hb
    exact ⟨active.transactionId, j + 1, selection, b, a, htransaction, by omega, hselected,
      fun m c hm hm' => by omega, hfallback, ha, within_of_actual hwithin⟩
  · obtain ⟨j, point, -, causal, selection, rfl, hpoint, -, -, -, -, hselected, -⟩ :=
      run.local_transaction (List.getElem?_eq_getElem hk) hlocal
    obtain ⟨_, _, _, -, -, -, hretain⟩ :=
      run.bounds_at_execution ⟨hk, hlocal⟩ (show Role.localResult.route = _ from rfl)
    have hremains : envelope.events[j + 2].evidence.outcome ≠ .failedDeeperBudgetRemains := by
      intro houtcome
      rw [hbefore, hlocal, houtcome, hstate] at htransition
      cases htransition
    obtain ⟨_, active', hactive', -, -, -, -, hkept⟩ := run.local_at ⟨hk, hlocal⟩
    cases hpoint.symm.trans hactive'
    cases (hkept hremains).symm.trans hactive
    obtain ⟨fallback, hfallback, hfrozen, -, -⟩ := run.frozen_of_selection hselected
    cases ((hretain hstate rfl).trans hfrozen).symm.trans hb
    refine ⟨active.transactionId, j + 1, selection, b, a, htransaction, by omega, hselected,
      fun m c hm hm' hc => ?_, hfallback, ha, within_of_actual hwithin⟩
    obtain rfl : m = j + 2 := by omega
    rw [List.getElem?_eq_getElem hk, Option.some.injEq] at hc
    rw [← hc, hlocal]
    simp

theorem points_le : decisionPoints.length ≤ capProfile.maxLocalTransactions := by
  obtain ⟨-, -, hindices, hmax⟩ := checkDecisionPoints_eq_ok run.points
  by_cases hpos : decisionPoints.length = 0
  · omega
  · obtain ⟨point, hpoint, hindex⟩ :=
      List.mem_map.mp ((transactionIndex_mem hindices).mpr ⟨by omega, le_rfl⟩)
    exact hindex ▸ hmax point hpoint

theorem exhausted {i : ℕ} {e : RouteTraceEvent} (he : envelope.events[i]? = some e)
    (hrole : e.evidence.role = .localResult)
    (houtcome : e.evidence.outcome = .failedDeeperBudgetExhausted) :
    roleCount envelope .localResult (i + 1) = capProfile.maxLocalTransactions := by
  obtain ⟨hi, rfl⟩ := List.getElem?_eq_some_iff.mp he
  obtain ⟨hstate, -, hnext⟩ := (transition_from (run.transition_at hi)).2.2.1 hrole
  have hcausal := run.causal_count_fallback hi (hnext houtcome)
  have hpending := (run.local_count hi.le).2 1 (by rw [hstate]; rfl)
  obtain ⟨j, point, hpoint, _, _, rfl, hactive, -⟩ := run.local_transaction he hrole
  obtain ⟨_, active, hactive', -, -, -, hexhausted, -⟩ := run.local_at ⟨hi, hrole⟩
  cases hactive.symm.trans hactive'
  obtain ⟨-, -, hindices, -⟩ := checkDecisionPoints_eq_ok run.points
  have hindex := ((transactionIndex_mem hindices).mp (List.mem_map_of_mem hpoint)).2
  have hmax := hexhausted houtcome
  have hpoints := run.points_le
  rw [run.causal_count, roleCount_succ hi, hrole] at hcausal
  rw [roleCount_succ hi, hrole]
  simp at hcausal ⊢
  omega

/-- Nothing follows a terminal state. -/
theorem terminal {i : ℕ} {e : RouteTraceEvent} (he : envelope.events[i]? = some e)
    (hterminal : e.stateAfter.terminal = true) : i + 1 = envelope.events.length := by
  obtain ⟨hi, rfl⟩ := List.getElem?_eq_some_iff.mp he
  by_contra hne
  have hrunning := (run.strict.chained (show i + 1 < envelope.events.length by omega)).running
  rw [run.strict.state_succ hi, hterminal] at hrunning
  cases hrunning

theorem budget :
    envelope.events.countP (·.evidence.role = .localResult) ≤ capProfile.maxLocalTransactions := by
  have hlocal := (run.local_count le_rfl).1
  have hcausal := run.causal_count
  have hpoints := run.points_le
  have hall : roleCount envelope .localResult envelope.events.length =
      envelope.events.countP (·.evidence.role = .localResult) := by
    rw [roleCount, List.take_length]
  omega

end GuardedRun

theorem guardRouteProtocol_safe
    (h : guardRouteProtocol ids context registry capProfile decisionPoints localProjection
      fallbackProjection catalog envelope = .ok (state, work)) :
    RouteSafe catalog envelope.events capProfile := by
  obtain ⟨st, gt, run⟩ := guardedRun_of_guard h
  refine ⟨fun i e => run.authorized, fun i e route he hroute => ?_, fun i e => run.terminal,
    run.budget, fun i e => run.exhausted⟩
  cases hrole : e.evidence.role with
  | localResult =>
    obtain rfl : RouteCandidate.localAttempt = route := by simpa [hrole, Role.route] using hroute
    exact run.withinFrozen_local he hrole
  | fallbackResult =>
    obtain rfl : RouteCandidate.directFallback = route := by simpa [hrole, Role.route] using hroute
    exact run.withinFrozen_fallback he hrole
  | _ => simp [hrole, Role.route] at hroute

/-! ## A guarded route with one local transaction -/

def sampleCapProfile : RouteCapProfile where
  contextId := sampleIds.contextId sampleContext
  profileKey := ⟨"cap", by decide⟩
  maxLocalTransactions := 1
  pos := by simp

def sampleDecisionPoint : DecisionPointBinding where
  contextId := sampleIds.contextId sampleContext
  transactionId := sampleTransaction
  transactionIndex := 1
  frontierSnapshotId := sampleFrontierSnapshot
  causalEvidenceId := sampleIds.evidenceId sampleCausalSearch
  causalOutcome := .found
  localBoundId := some (RouteCandidate.localAttempt.sampleId "upper_bound")
  fallbackBoundId := RouteCandidate.directFallback.sampleId "upper_bound"
  localCapId := some sampleLocalCap
  fallbackCapId := sampleFallbackCap
  index_pos := by simp
  outcome_mem := by decide
  localBound_iff := by simp
  localCap_iff := by simp

def sampleProjection (route : RouteCandidate) : ActualProjection where
  counterRegistryId := sampleRegistry.registryId
  comparisonProfileId := sampleIds.profileId sampleProfile
  routeCandidate := route
  projectionKey := ⟨"projection", by decide⟩
  terms := [⟨⟨"work.operations", by decide⟩, ⟨"work.operations", by decide⟩, 1⟩]
  terms_ne := by simp
  sorted := List.pairwise_singleton _ _
  pairs_nodup := List.nodup_singleton _

theorem guardRouteProtocol_safe_sample :
    RouteSafe sampleCatalog sampleEnvelope.events sampleCapProfile := by
  have hguard : guardRouteProtocol sampleIds sampleContext sampleRegistry sampleCapProfile
      [sampleDecisionPoint] (sampleProjection .localAttempt) (sampleProjection .directFallback)
      sampleCatalog sampleEnvelope = .ok (.fullGroundFallback, sampleTotal) := by
    decide +kernel
  exact guardRouteProtocol_safe hguard

end Acfqp.Route
