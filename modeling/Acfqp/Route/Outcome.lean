import Acfqp.Route.GuardSafety

/-!
# The order of transactions and the outcome of a guarded route

The guard checks the transaction indices of the decision points as a set, while the order of the
transactions comes from the trace. The outcome of a guarded route is a record of its own, with
requirements beyond those of the guard.
-/

namespace Acfqp.Route

open Library

/-! ## Transactions in the order of the trace -/

section

variable (ids : Digests) (decisionPoints : List DecisionPointBinding)
  (capProfile : RouteCapProfile)

def causalSearches (events : List RouteTraceEvent) : List RouteTraceEvent :=
  events.filter (·.evidence.role = .causalSearch)

def boundPoint (evidence : TransitionEvidence) : Option DecisionPointBinding :=
  decisionPoints.find? (·.causalEvidenceId = ids.evidenceId evidence)

def consumedPoints (events : List RouteTraceEvent) : List DecisionPointBinding :=
  (causalSearches events).filterMap fun event => boundPoint ids decisionPoints event.evidence

/-- The causal search number `k`, from one, is bound to the transaction of index `k`. -/
def ConsumedInOrder (events : List RouteTraceEvent) : Prop :=
  ∀ k event, (causalSearches events)[k]? = some event →
    ∃ point, boundPoint ids decisionPoints event.evidence = some point ∧
      point.transactionIndex = k + 1

/-- No causal search is bound ahead of its place as long as another search follows and the budget
allows at least two more transactions. -/
def NoneAhead (events : List RouteTraceEvent) : Prop :=
  ∀ k event point, (causalSearches events)[k]? = some event →
    boundPoint ids decisionPoints event.evidence = some point →
    k + 1 < (causalSearches events).length → k + 2 < capProfile.maxLocalTransactions →
    point.transactionIndex ≤ k + 1

/-- All consumed points but the last one left budget, and so did the last one when its transaction
has ended. Within its transaction the last one is active. -/
structure Budgeted (state : RouteState) (g : GuardState) (points : List DecisionPointBinding) :
    Prop where
  earlier : ∀ point ∈ points.dropLast, point.transactionIndex < capProfile.maxLocalTransactions
  between : state.pending = some 0 →
    ∀ point ∈ points, point.transactionIndex < capProfile.maxLocalTransactions
  within : state.pending = some 1 → g.active = points.getLast?

end

theorem pending_of_terminal {state : RouteState} (h : state.terminal = true) :
    state.pending = none := by
  cases state <;> first | rfl | cases h

/-- A rearrangement of `1, …, n` with no number ahead of its place is in order. -/
theorem getElem_of_perm_range' {l : List ℕ} {n : ℕ} (h : l.Perm (List.range' 1 n))
    (hle : ∀ k (hk : k < l.length), l[k] ≤ k + 1) (k : ℕ) (hk : k < l.length) : l[k] = k + 1 := by
  have hnodup : l.Nodup := h.nodup_iff.mpr List.nodup_range'
  induction k using Nat.strong_induction_on with
  | _ k ih =>
    have hpos : 1 ≤ l[k] := (List.mem_range'_1.mp (h.mem_iff.mp (List.getElem_mem hk))).1
    by_contra hne
    -- the number stands at an earlier place already
    have hlt : l[k] - 1 < k := by
      have := hle k hk
      omega
    have hearlier : l[l[k] - 1] = l[k] := by
      rw [ih (l[k] - 1) hlt (by omega)]
      omega
    have := hnodup.getElem_inj_iff.mp hearlier
    omega

variable {ids : Digests} {context : RouteDecisionContext} {registry : CounterRegistry}
  {capProfile : RouteCapProfile} {decisionPoints : List DecisionPointBinding}
  {localProjection fallbackProjection : ActualProjection} {catalog : VerifiedRouteInputCatalog ids}
  {envelope : RouteTraceEnvelope} {state : RouteState} {work : WorkVector}
  {st : ℕ → StrictReplay} {gt : ℕ → GuardState}

namespace GuardedRun

variable (run : GuardedRun ids context registry capProfile decisionPoints localProjection
  fallbackProjection catalog envelope state work st gt)
include run

omit run in
theorem causalSearches_succ {n : ℕ} (hn : n < envelope.events.length) :
    causalSearches (envelope.events.take (n + 1)) = causalSearches (envelope.events.take n) ++
      if envelope.events[n].evidence.role = .causalSearch then [envelope.events[n]] else [] := by
  rw [causalSearches, List.take_add_one, List.getElem?_eq_getElem hn, Option.toList_some,
    List.filter_append]
  by_cases hrole : envelope.events[n].evidence.role = .causalSearch <;> simp [causalSearches, hrole]

theorem seen_eq {n : ℕ} (hn : n ≤ envelope.events.length) :
    (gt n).seenCausal =
      ((causalSearches (envelope.events.take n)).map (ids.evidenceId ·.evidence)).reverse := by
  induction n with
  | zero => simp [run.first, causalSearches]
  | succ n ih =>
    rw [causalSearches_succ hn]
    by_cases hrole : envelope.events[n].evidence.role = .causalSearch
    · obtain ⟨_, _, -, -, -, -, -, heq⟩ := run.causal_at ⟨hn, hrole⟩
      simp [heq, ih (by omega), hrole]
    · simp [guardStep_seen (run.step n hn) hrole, ih (by omega), hrole]

theorem seen_causalSearches :
    (gt envelope.events.length).seenCausal =
      ((causalSearches envelope.events).map (ids.evidenceId ·.evidence)).reverse := by
  rw [run.seen_eq le_rfl, List.take_length]

/-- Every causal search is bound to a decision point, and they are consumed in this order. -/
theorem consumedPoints_forall₂ :
    List.Forall₂ (fun event point => boundPoint ids decisionPoints event.evidence = some point)
      (causalSearches envelope.events) (consumedPoints ids decisionPoints envelope.events) := by
  have hbound : ∀ event ∈ causalSearches envelope.events,
      ∃ point, boundPoint ids decisionPoints event.evidence = some point := by
    intro event hevent
    have hmem : ids.evidenceId event.evidence ∈ decisionPoints.map (·.causalEvidenceId) := by
      rw [← List.mem_toFinset, ← run.seen, run.seen_causalSearches]
      simpa using ⟨event, hevent, rfl⟩
    obtain ⟨point, hpoint, hid⟩ := List.mem_map.mp hmem
    exact Option.isSome_iff_exists.mp (List.find?_isSome.mpr ⟨point, hpoint, by simpa using hid⟩)
  unfold consumedPoints
  generalize causalSearches envelope.events = events at hbound
  induction events with
  | nil => exact .nil
  | cons event events ih =>
    obtain ⟨point, hpoint⟩ := hbound event List.mem_cons_self
    simp only [List.filterMap_cons, hpoint]
    exact .cons hpoint (ih fun e he => hbound e (List.mem_cons_of_mem _ he))

theorem consumedPoints_perm :
    (consumedPoints ids decisionPoints envelope.events).Perm decisionPoints := by
  obtain ⟨hcausal, -, -, -⟩ := checkDecisionPoints_eq_ok run.points
  have hids : (consumedPoints ids decisionPoints envelope.events).map (·.causalEvidenceId) =
      (causalSearches envelope.events).map (ids.evidenceId ·.evidence) := by
    refine map_of_forall₂ run.consumedPoints_forall₂ fun event _ point hpoint => ?_
    simpa using List.find?_some hpoint
  have hmem : ∀ point ∈ consumedPoints ids decisionPoints envelope.events,
      point ∈ decisionPoints := by
    intro point hpoint
    obtain ⟨event, -, hfound⟩ := List.mem_filterMap.mp hpoint
    exact List.mem_of_find?_eq_some hfound
  have hnodup : ((consumedPoints ids decisionPoints envelope.events).map
      (·.causalEvidenceId)).Nodup := by
    rw [hids, ← List.nodup_reverse, ← run.seen_causalSearches]
    exact (run.seen_count le_rfl).1
  refine (List.perm_ext_iff_of_nodup hnodup.of_map hcausal.of_map).mpr fun point =>
    ⟨hmem point, fun hpoint => ?_⟩
  have hseen : point.causalEvidenceId ∈
      (consumedPoints ids decisionPoints envelope.events).map (·.causalEvidenceId) := by
    rw [hids, ← List.mem_reverse, ← run.seen_causalSearches, ← List.mem_toFinset, run.seen]
    simpa using ⟨point, hpoint, rfl⟩
  obtain ⟨other, hother, hid⟩ := List.mem_map.mp hseen
  exact List.inj_on_of_nodup_map hcausal (hmem other hother) hpoint hid ▸ hother

theorem boundPoint_at {i : ℕ} (h : RoleAt envelope .causalSearch i) :
    ∃ hi : i < envelope.events.length, ∃ point,
      boundPoint ids decisionPoints envelope.events[i].evidence = some point ∧
      (gt (i + 1)).active = some point := by
  obtain ⟨hi, hrole⟩ := h
  have hstep := run.step i hi
  rw [guardStep, hrole] at hstep
  simp only [guardCausal, bind_eq_ok, orRaise_eq_ok, require_eq_ok, pure_eq_ok] at hstep
  obtain ⟨point, hpoint, -, -, -, -, -, -, -, -, heq⟩ := hstep
  exact ⟨hi, point, hpoint, by rw [← heq]⟩

theorem remains_of_between {n : ℕ} (hn : n < envelope.events.length)
    (hrole : envelope.events[n].evidence.role = .localResult)
    (hpending : (st (n + 1)).state.pending = some 0) :
    envelope.events[n].evidence.outcome = .failedDeeperBudgetRemains := by
  have htransition := run.transition_at hn
  obtain hnext | hnext | hnext := ((transition_from htransition).2.2.1 hrole).2.1
  · exact ((transition_into htransition).2.2.2 hnext).2.2
  · rw [hnext] at hpending
    cases hpending
  · rw [pending_of_terminal hnext] at hpending
    cases hpending

theorem active_kept {n : ℕ} (hn : n < envelope.events.length)
    (hrole : envelope.events[n].evidence.role ≠ .causalSearch)
    (hrole' : envelope.events[n].evidence.role ≠ .localResult)
    (hpending : (st (n + 1)).state.pending = some 1) : (gt (n + 1)).active = (gt n).active := by
  have hstep := run.step n hn
  unfold guardStep at hstep
  split at hstep
  · exact absurd ‹_› hrole
  · rw [(guardSelection_eq_ok hstep).1]
  · exact absurd ‹_› hrole'
  · rename_i hfallback
    have hterminal := ((transition_from (run.transition_at hn)).2.2.2.1 hfallback).2
    rw [pending_of_terminal hterminal] at hpending
    cases hpending
  · rw [pure_eq_ok.mp hstep]

/-- By induction on the trace: a transaction ends with budget left, or the trace does. -/
theorem budgeted {n : ℕ} (hn : n ≤ envelope.events.length) :
    Budgeted capProfile (st n).state (gt n)
      (consumedPoints ids decisionPoints (envelope.events.take n)) := by
  induction n with
  | zero =>
    have hnil : consumedPoints ids decisionPoints (envelope.events.take 0) = [] := rfl
    rw [hnil, run.state_zero]
    exact ⟨fun _ h => (by cases h), fun _ _ h => (by cases h), fun h => by cases h⟩
  | succ n ih =>
    obtain ⟨hearlier, hbetween, hwithin⟩ := ih (by omega)
    have htransition := run.transition_at hn
    obtain ⟨hcausal, hlocal, hother⟩ := transition_pending htransition
    by_cases hrole : envelope.events[n].evidence.role = .causalSearch
    · obtain ⟨_, point, hbound, hactive⟩ := run.boundPoint_at ⟨hn, hrole⟩
      have hpoints : consumedPoints ids decisionPoints (envelope.events.take (n + 1)) =
          consumedPoints ids decisionPoints (envelope.events.take n) ++ [point] := by
        rw [consumedPoints, causalSearches_succ hn, if_pos hrole, List.filterMap_append]
        simp [hbound, consumedPoints]
      rw [hpoints]
      refine ⟨?_, fun hpending => ?_, fun _ => ?_⟩
      · rw [List.dropLast_concat]
        exact hbetween (hcausal hrole).1
      · rw [(hcausal hrole).2] at hpending
        cases hpending
      · rw [hactive, List.getLast?_concat]
    · have hpoints : consumedPoints ids decisionPoints (envelope.events.take (n + 1)) =
          consumedPoints ids decisionPoints (envelope.events.take n) := by
        rw [consumedPoints, causalSearches_succ hn, if_neg hrole, List.append_nil]
        rfl
      rw [hpoints]
      by_cases hrole' : envelope.events[n].evidence.role = .localResult
      · obtain ⟨_, active, hactive, -, -, hremains, -⟩ := run.local_at ⟨hn, hrole'⟩
        rw [hwithin (hlocal hrole').1] at hactive
        refine ⟨hearlier, fun hpending point hpoint => ?_, fun hpending => ?_⟩
        · -- only a result with budget left leads between two transactions
          have houtcome := run.remains_of_between hn hrole' hpending
          rw [← List.dropLast_append_getLast? active hactive, List.mem_append] at hpoint
          rcases hpoint with hpoint | hpoint
          · exact hearlier point hpoint
          · exact List.mem_singleton.mp hpoint ▸ hremains houtcome
        · cases (hlocal hrole').2 1 hpending
      · refine ⟨hearlier, fun hpending => hbetween (hother hrole hrole' 0 hpending),
          fun hpending => ?_⟩
        rw [← hwithin (hother hrole hrole' 1 hpending), run.active_kept hn hrole hrole' hpending]

theorem consumedInOrder_iff :
    ConsumedInOrder ids decisionPoints envelope.events ↔
      NoneAhead ids decisionPoints capProfile envelope.events := by
  constructor
  · intro h k event point hevent hbound _ _
    obtain ⟨other, hother, hindex⟩ := h k event hevent
    rw [hbound, Option.some.injEq] at hother
    exact (hother ▸ hindex).le
  intro h k event hevent
  obtain ⟨hk, rfl⟩ := List.getElem?_eq_some_iff.mp hevent
  have hpoints := run.consumedPoints_forall₂
  have hperm := run.consumedPoints_perm
  have hlength := hpoints.length_eq
  obtain ⟨-, -, hindices, -⟩ := checkDecisionPoints_eq_ok run.points
  have hbudget := (run.budgeted le_rfl).earlier
  rw [List.take_length] at hbudget
  have hle := run.points_le
  have hbound : ∀ i (hi : i < (consumedPoints ids decisionPoints envelope.events).length),
      boundPoint ids decisionPoints (causalSearches envelope.events)[i].evidence =
        some (consumedPoints ids decisionPoints envelope.events)[i] := fun i hi =>
    (List.forall₂_iff_get.mp hpoints).2 i (hlength ▸ hi) hi
  refine ⟨_, hbound k (hlength ▸ hk), ?_⟩
  have hplace := getElem_of_perm_range' ((hperm.map (·.transactionIndex)).trans hindices)
    (fun i hi => ?_) k (by simpa using hlength ▸ hk)
  · simpa using hplace
  -- the last index is among all, and before it the condition or the budget applies
  rw [List.length_map] at hi
  rw [List.getElem_map]
  have hmem := (transactionIndex_mem hindices).mp (List.mem_map_of_mem
    (f := (·.transactionIndex)) (hperm.mem_iff.mp (List.getElem_mem hi)))
  have hall := hperm.length_eq
  by_cases hlast : i + 1 < (causalSearches envelope.events).length
  · by_cases hcap : i + 2 < capProfile.maxLocalTransactions
    · exact h i _ _ (List.getElem?_eq_getElem (hlength ▸ hi)) (hbound i hi) hlast hcap
    · have hdrop : (consumedPoints ids decisionPoints envelope.events)[i] ∈
          (consumedPoints ids decisionPoints envelope.events).dropLast :=
        List.mem_iff_getElem.mpr ⟨i, by rw [List.length_dropLast]; omega, List.getElem_dropLast ..⟩
      have := hbudget _ hdrop
      omega
  · omega

end GuardedRun

/-- An accepted envelope consumes its decision points in transaction order exactly when no causal
search runs ahead while the budget allows two more transactions. The guard itself only checks which
indices there are; that budget remains after every transaction but the last settles the rest. -/
theorem guardRouteProtocol_order
    (h : guardRouteProtocol ids context registry capProfile decisionPoints localProjection
      fallbackProjection catalog envelope = .ok (state, work)) :
    ConsumedInOrder ids decisionPoints envelope.events ↔
      NoneAhead ids decisionPoints capProfile envelope.events := by
  obtain ⟨_, _, run⟩ := guardedRun_of_guard h
  exact run.consumedInOrder_iff

/-! ### Two transactions, in order and against it -/

def TransitionEvidence.inTransaction (evidence : TransitionEvidence) (transactionId : Identifier) :
    TransitionEvidence :=
  { evidence with
    workDelta := { evidence.workDelta with
      subjectId := evidenceWorkSubject evidence.contextId evidence.role (some transactionId) }
    transactionId := some transactionId
    subject := rfl }

def sampleOtherTransaction : Identifier := ⟨"other", by decide⟩

def sampleBudgetRemains : TransitionEvidence :=
  { sampleLocalResult with
    outcome := .failedDeeperBudgetRemains
    outcome_mem := by decide
    required := sampleLocalResult.required
    bounds := sampleLocalResult.bounds }

/-- The local attempt of the second transaction finds no sound frontier. -/
def sampleNoFrontier : TransitionEvidence :=
  { sampleLocalResult with
    outcome := .failedNoSoundFrontier
    outcome_mem := by decide
    required := sampleLocalResult.required
    bounds := sampleLocalResult.bounds }

def sampleTwoEvents : List RouteTraceEvent :=
  let e₆ := sampleEvent 6 .localExecutionRequired .nextLocalTransactionRequired sampleBudgetRemains
    (some sampleSelected) rfl
  let e₇ := sampleEvent 7 .nextLocalTransactionRequired .routeEstimationRequired
    (sampleCausalSearch.inTransaction sampleOtherTransaction) (some e₆) rfl
  let e₈ := sampleEvent 8 .routeEstimationRequired .localExecutionRequired
    (sampleRouteSelection.inTransaction sampleOtherTransaction) (some e₇) rfl
  let e₉ := sampleEvent 9 .localExecutionRequired .fallbackExecutionRequired
    (sampleNoFrontier.inTransaction sampleOtherTransaction) (some e₈) rfl
  let e₁₀ := sampleEvent 10 .fallbackExecutionRequired .fullGroundFallback
    (sampleFallbackResult.inTransaction sampleOtherTransaction) (some e₉) rfl
  [sampleVerified, sampleCompatible, sampleChecked, sampleFailed, sampleEstimated, sampleSelected,
    e₆, e₇, e₈, e₉, e₁₀]

def sampleTwoTotal : WorkVector :=
  { sampleTotal with
    values := [("work.operations", 11)]
    increasing := List.pairwise_singleton _ _
    paths := sampleTotal.paths }

def sampleTwoEnvelope : RouteTraceEnvelope :=
  ⟨sampleIds.contextId sampleContext, sampleTwoEvents, .fullGroundFallback, sampleTwoTotal, true, by
    simp [sampleTwoEvents]⟩

def sampleWideCap : RouteCapProfile :=
  { sampleCapProfile with maxLocalTransactions := 3, pos := by simp }

def sampleOtherPoint : DecisionPointBinding :=
  { sampleDecisionPoint with
    transactionId := sampleOtherTransaction
    causalEvidenceId :=
      sampleIds.evidenceId (sampleCausalSearch.inTransaction sampleOtherTransaction) }

def sampleTwoPoints : List DecisionPointBinding :=
  [sampleDecisionPoint, { sampleOtherPoint with transactionIndex := 2, index_pos := Nat.two_pos }]

theorem guardRouteProtocol_order_sample :
    ConsumedInOrder sampleIds sampleTwoPoints sampleTwoEnvelope.events := by
  have hguard : guardRouteProtocol sampleIds sampleContext sampleRegistry sampleWideCap
      sampleTwoPoints (sampleProjection .localAttempt) (sampleProjection .directFallback)
      sampleCatalog sampleTwoEnvelope = .ok (.fullGroundFallback, sampleTwoTotal) := by
    decide +kernel
  refine (guardRouteProtocol_order hguard).mpr fun k event point hevent hbound hlast _ => ?_
  obtain rfl : k = 0 := Nat.lt_one_iff.mp (Nat.lt_of_succ_lt_succ hlast)
  obtain rfl : sampleTwoEvents[4] = event := Option.some.inj hevent
  obtain rfl : sampleDecisionPoint = point := Option.some.inj hbound
  exact le_rfl

/-- The first causal search is bound to index two and the second to index one. -/
def sampleSwappedPoints : List DecisionPointBinding :=
  [{ sampleDecisionPoint with transactionIndex := 2, index_pos := Nat.two_pos }, sampleOtherPoint]

/-- The guard accepts the envelope, whose first causal search is bound to index two. -/
theorem guardRouteProtocol_order_swapped :
    guardRouteProtocol sampleIds sampleContext sampleRegistry sampleWideCap sampleSwappedPoints
      (sampleProjection .localAttempt) (sampleProjection .directFallback) sampleCatalog
      sampleTwoEnvelope = .ok (.fullGroundFallback, sampleTwoTotal) ∧
    ¬ ConsumedInOrder sampleIds sampleSwappedPoints sampleTwoEnvelope.events := by
  refine ⟨by decide +kernel, fun h => ?_⟩
  obtain ⟨point, hbound, hindex⟩ := h 0 sampleTwoEvents[4] rfl
  have hfirst : boundPoint sampleIds sampleSwappedPoints sampleTwoEvents[4].evidence =
      some sampleSwappedPoints[0] := rfl
  obtain rfl := Option.some.inj (hfirst.symm.trans hbound)
  exact absurd hindex (by decide)

/-! ## The outcome of a guarded route -/

inductive OutcomeKind where
  | planCertificate
  | infeasibilityCertificate
  | attemptClosure
  deriving DecidableEq

/-- The content digests of what an outcome names beside the route's documents. -/
structure OutcomeDigests (ids : Digests) where
  catalogId : VerifiedRouteInputCatalog ids → Identifier
  capProfileId : RouteCapProfile → Identifier
  bindingId : DecisionPointBinding → Identifier
  projectionId : ActualProjection → Identifier

structure GuardedRouteOutcome where
  contextId : Identifier
  envelopeId : Identifier
  catalogId : Identifier
  capProfileId : Identifier
  decisionBindingIds : List Identifier
  localProjectionId : Identifier
  fallbackProjectionId : Identifier
  finalState : RouteState
  accumulatedWorkVectorId : Identifier
  outcomeKind : OutcomeKind
  bindings_ne : decisionBindingIds ≠ []
  sorted : sortBy (·.1) decisionBindingIds = decisionBindingIds

def outcomeKindOf : RouteState → OutcomeKind
  | .abstractCertified | .localGroundRecovery | .fullGroundFallback => .planCertificate
  | .infeasibleQuery => .infeasibilityCertificate
  | _ => .attemptClosure

section Certify

variable {ids : Digests} (digests : OutcomeDigests ids) (context : RouteDecisionContext)
  (registry : CounterRegistry) (capProfile : RouteCapProfile)
  (decisionPoints : List DecisionPointBinding)
  (localProjection fallbackProjection : ActualProjection)
  (catalog : VerifiedRouteInputCatalog ids) (envelope : RouteTraceEnvelope)

def certifyGuardedRouteCandidate : Except RouteError GuardedRouteOutcome := do
  let (state, work) ← guardRouteProtocol ids context registry capProfile decisionPoints
    localProjection fallbackProjection catalog envelope
  let bindingIds := sortBy (·.1) (decisionPoints.map digests.bindingId)
  if h : bindingIds ≠ [] ∧ sortBy (·.1) bindingIds = bindingIds then
    return {
      contextId := ids.contextId context
      envelopeId := ids.envelopeId envelope
      catalogId := digests.catalogId catalog
      capProfileId := digests.capProfileId capProfile
      decisionBindingIds := bindingIds
      localProjectionId := digests.projectionId localProjection
      fallbackProjectionId := digests.projectionId fallbackProjection
      finalState := state
      accumulatedWorkVectorId := ids.workVectorId work
      outcomeKind := outcomeKindOf state
      bindings_ne := h.1
      sorted := h.2 }
  else throw (.guarded "decision binding IDs must be nonempty and sorted")

variable {context registry capProfile decisionPoints localProjection fallbackProjection catalog
  envelope} {state : RouteState} {work : WorkVector}

/-- A plan certificate for the three states with a plan, an infeasibility certificate for the
infeasible query, and a closure otherwise. -/
structure GuardedRouteOutcome.Fits (outcome : GuardedRouteOutcome) (state : RouteState) : Prop where
  plan : outcome.outcomeKind = .planCertificate ↔
    state = .abstractCertified ∨ state = .localGroundRecovery ∨ state = .fullGroundFallback
  infeasible : outcome.outcomeKind = .infeasibilityCertificate ↔ state = .infeasibleQuery
  closure : outcome.outcomeKind = .attemptClosure ↔
    ¬ (state = .abstractCertified ∨ state = .localGroundRecovery ∨ state = .fullGroundFallback ∨
      state = .infeasibleQuery)

/-- An accepted envelope gets an outcome, of the kind of its final state, exactly when it has a
decision point. -/
theorem certifyGuardedRouteCandidate_returns_iff
    (h : guardRouteProtocol ids context registry capProfile decisionPoints localProjection
      fallbackProjection catalog envelope = .ok (state, work)) :
    (∃ outcome, certifyGuardedRouteCandidate digests context registry capProfile decisionPoints
      localProjection fallbackProjection catalog envelope = .ok outcome ∧ outcome.Fits state) ↔
      decisionPoints ≠ [] := by
  have hsorted : sortBy (·.1) (sortBy (·.1) (decisionPoints.map digests.bindingId)) =
      sortBy (·.1) (decisionPoints.map digests.bindingId) :=
    sortBy_sortBy _ _
  have hne : sortBy (·.1) (decisionPoints.map digests.bindingId) ≠ [] ↔ decisionPoints ≠ [] := by
    simp
  rw [certifyGuardedRouteCandidate, h]
  constructor
  · rintro ⟨outcome, houtcome, -⟩ hnil
    subst hnil
    cases houtcome
  · intro hpoints
    refine ⟨_, dif_pos ⟨hne.mpr hpoints, hsorted⟩, ?_⟩
    cases state <;> constructor <;> simp [outcomeKindOf]

end Certify

def sampleDigests : OutcomeDigests sampleIds where
  catalogId _ := ⟨"catalog", by decide⟩
  capProfileId _ := ⟨"cap_profile", by decide⟩
  bindingId point := point.transactionId
  projectionId projection := projection.routeCandidate.sampleId "projection"

theorem certifyGuardedRouteCandidate_returns_iff_sample :
    (∃ outcome, certifyGuardedRouteCandidate sampleDigests sampleContext sampleRegistry
      sampleCapProfile [sampleDecisionPoint] (sampleProjection .localAttempt)
      (sampleProjection .directFallback) sampleCatalog sampleEnvelope = .ok outcome ∧
        outcome.Fits .fullGroundFallback) ↔ [sampleDecisionPoint] ≠ [] := by
  have hguard : guardRouteProtocol sampleIds sampleContext sampleRegistry sampleCapProfile
      [sampleDecisionPoint] (sampleProjection .localAttempt) (sampleProjection .directFallback)
      sampleCatalog sampleEnvelope = .ok (.fullGroundFallback, sampleTotal) := by
    decide +kernel
  exact certifyGuardedRouteCandidate_returns_iff sampleDigests hguard

/-! ### A plan that the abstract audit certifies -/

theorem abstractAudit_ne : "abstract_audit" ≠ "" := by decide

theorem policyGraph_ne : "policy_graph" ≠ "" := by decide

theorem thresholdProfile_ne : "threshold_profile" ≠ "" := by decide

theorem auditPass_actual :
    ActualValid (sampleIds.contextId sampleContext) .abstractAudit none := by decide

def sampleAuditPass : TransitionEvidence :=
  sampleEvidence .abstractAudit .pass [sampleRef "abstract_audit" abstractAudit_ne, sampleRef
    "policy_graph" policyGraph_ne, sampleRef "threshold_profile" thresholdProfile_ne] none none
    none none (by decide) (by decide) (by decide) (by decide) (by decide) auditPass_actual

def sampleCertifiedEvents : List RouteTraceEvent :=
  [sampleVerified, sampleCompatible, sampleChecked,
    sampleEvent 3 .cacheChecked .abstractCertified sampleAuditPass (some sampleChecked) rfl]

def sampleCertifiedTotal : WorkVector :=
  { sampleTotal with
    values := [("work.operations", 4)]
    increasing := List.pairwise_singleton _ _
    paths := sampleTotal.paths }

def sampleCertifiedEnvelope : RouteTraceEnvelope :=
  ⟨sampleIds.contextId sampleContext, sampleCertifiedEvents, .abstractCertified,
    sampleCertifiedTotal, true, by simp [sampleCertifiedEvents]⟩

/-- The guard accepts a route that the abstract audit certifies, and its outcome raises. -/
theorem certifyGuardedRouteCandidate_raises_sample :
    guardRouteProtocol sampleIds sampleContext sampleRegistry sampleCapProfile []
      (sampleProjection .localAttempt) (sampleProjection .directFallback) sampleCatalog
      sampleCertifiedEnvelope = .ok (.abstractCertified, sampleCertifiedTotal) ∧
    certifyGuardedRouteCandidate sampleDigests sampleContext sampleRegistry sampleCapProfile []
      (sampleProjection .localAttempt) (sampleProjection .directFallback) sampleCatalog
      sampleCertifiedEnvelope =
        .error (.guarded "decision binding IDs must be nonempty and sorted") := by
  have hguard : guardRouteProtocol sampleIds sampleContext sampleRegistry sampleCapProfile []
      (sampleProjection .localAttempt) (sampleProjection .directFallback) sampleCatalog
      sampleCertifiedEnvelope = .ok (.abstractCertified, sampleCertifiedTotal) := by
    decide +kernel
  refine ⟨hguard, ?_⟩
  rw [certifyGuardedRouteCandidate, hguard]
  rfl

end Acfqp.Route
