import Acfqp.Fallback.Complete

/-!
# Capped and complete searches go in lockstep

Each operation of the capped search ends as that of the complete search does, or is denied what the
complete search goes on to count.
-/

namespace Acfqp.Fallback

open Library Planning

variable {S A : Type} [PyRepr S] [PyRepr A] {cap : GroundFallbackCapProfile} {kernel : Kernel S A}

/-! ## Charges -/

omit [PyRepr S] [PyRepr A] in
theorem attempt_count (f : FallbackLedger → FallbackLedger) (s : SearchState S A) :
    attempt (count f) s = (.ok (), (s.charge checked).charge f) := rfl

/-- A charge and its count go in lockstep, when the checks are what the counts need. -/
theorem charge_lockstep {checks : FallbackLedger → List (String × ℕ × ℕ)}
    {f : FallbackLedger → FallbackLedger}
    (hwithin : ∀ l, WithinCaps cap (checked l) → (∀ check ∈ checks l, check.2.1 ≤ check.2.2) →
      WithinCaps cap (f (checked l)))
    (hneeds : ∀ l, WithinCaps cap (f (checked l)) → ∀ check ∈ checks l, check.2.1 ≤ check.2.2)
    (hpaired : ∀ l, l.bellmanBackups = l.composedCandidates →
      (f l).bellmanBackups = (f l).composedCandidates)
    (hsame : ∀ l, (f l).capRejections = l.capRejections ∧ (f l).groundSteps = l.groundSteps ∧
      (f l).outcomeRows = l.outcomeRows)
    (hgrows : ∀ l : FallbackLedger, l.Counted (f l)) (s : SearchState S A) :
    LockstepAt cap kernel s (do guard cap checks; modify (SearchState.charge f)) (count f) where
  grown a t h := by
    cases h
    have hchecked : s.ledger.Counted (checked s.ledger) := { FallbackLedger.Counted.refl _ with
      checks := Nat.le_succ _ }
    exact ⟨hchecked.trans (hgrows _), List.prefix_refl _⟩
  follows hongoing hfits := by
    have hkeeping := @charge_keeping _ _ _ _ _ kernel _ _ hwithin hpaired hsame s hongoing
    rw [attempt_count]
    obtain ⟨hfull, hrun⟩ | ⟨hlt, ⟨check, hcheck, hfails, hrun⟩ | ⟨hpasses, hrun⟩⟩ :=
      @attempt_guard _ _ cap checks s
    · refine .inr (.inl ⟨_, _, attempt_bind_error hrun, rfl, { hfits.within with }, ?_⟩)
      intro a u h
      cases h
      refine ⟨{ (hgrows (checked s.ledger)) with checks := ?_ }, fun hu => ?_⟩
      · exact (Nat.le_succ _).trans (hgrows (checked s.ledger)).checks
      · have hchecks := ((hgrows (checked s.ledger)).checks.trans hu.within.checks)
        exact absurd hchecks (not_le.mpr (Nat.lt_succ_of_le hfull))
    · have hchecked : WithinCaps cap (checked s.ledger) := { hfits.within with checks := hlt }
      refine .inr (.inl ⟨_, _, attempt_bind_error hrun, rfl, { hchecked with }, ?_⟩)
      intro a u h
      cases h
      refine ⟨{ (hgrows (checked s.ledger)) with }, fun hu => ?_⟩
      exact absurd (hneeds _ hu.within check hcheck) (not_le.mpr hfails)
    · have hok : attempt (do guard cap checks; modify (SearchState.charge f)) s =
          (.ok (), (s.charge checked).charge f) := by
        rw [attempt_bind_ok hrun, attempt_modify]
      rw [hok] at hkeeping
      refine .inl ⟨hok, fun a t h => ?_⟩
      cases h
      exact ⟨hkeeping, Ongoing.ledger_within hkeeping, hfits.reserved⟩

theorem expandState_lockstep (s : SearchState S A) :
    LockstepAt cap kernel s (expandState cap)
      (count fun ledger => { ledger with statesExpanded := ledger.statesExpanded + 1 }) := by
  refine charge_lockstep (fun l h hfits => ?_) (fun l h check hcheck => ?_)
    (fun l => ?_) (fun l => ?_) (fun l => ?_) s
  · exact { h with states := hfits _ (List.mem_singleton_self _) }
  · rw [List.mem_singleton.mp hcheck]
    exact h.states
  · exact id
  · exact ⟨rfl, rfl, rfl⟩
  · exact { FallbackLedger.Counted.refl l with states := Nat.le_succ _ }

theorem evaluateAction_lockstep (s : SearchState S A) :
    LockstepAt cap kernel s (evaluateAction cap)
      (count fun ledger => { ledger with actionsEvaluated := ledger.actionsEvaluated + 1 }) := by
  refine charge_lockstep (fun l h hfits => ?_) (fun l h check hcheck => ?_)
    (fun l => ?_) (fun l => ?_) (fun l => ?_) s
  · exact { h with actions := hfits _ (List.mem_singleton_self _) }
  · rw [List.mem_singleton.mp hcheck]
    exact h.actions
  · exact id
  · exact ⟨rfl, rfl, rfl⟩
  · exact { FallbackLedger.Counted.refl l with actions := Nat.le_succ _ }

theorem composeCandidate_lockstep (s : SearchState S A) :
    LockstepAt cap kernel s (composeCandidate cap) (count fun ledger => { ledger with
      composedCandidates := ledger.composedCandidates + 1
      bellmanBackups := ledger.bellmanBackups + 1 }) := by
  refine charge_lockstep (fun l h hfits => ?_) (fun l h check hcheck => ?_)
    (fun l => ?_) (fun l => ?_) (fun l => ?_) s
  · have hcandidates := hfits _ List.mem_cons_self
    have hbackups := hfits _ (List.mem_cons_of_mem _ (List.mem_singleton_self _))
    exact { h with candidates := hcandidates, backups := hbackups }
  · rcases List.mem_cons.mp hcheck with rfl | hcheck
    · exact h.candidates
    · rw [List.mem_singleton.mp hcheck]
      exact h.backups
  · exact congrArg (· + 1)
  · exact ⟨rfl, rfl, rfl⟩
  · exact { FallbackLedger.Counted.refl l with
      candidates := Nat.le_succ _, backups := Nat.le_succ _ }

/-! ## Tables -/

theorem lockstepAt_get {α : Type} {f g : SearchState S A → Search S A α} {s : SearchState S A}
    (h : LockstepAt cap kernel s (f s) (g s)) :
    LockstepAt cap kernel s (get >>= f) (get >>= g) := ⟨h.grown, h.follows⟩

theorem lockstepAt_modify {f : SearchState S A → SearchState S A} {s : SearchState S A}
    (h : (f s).ledger = s.ledger ∧ (f s).ledgers = s.ledgers ∧ (f s).calls = s.calls ∧
      (f s).transitionCache = s.transitionCache) :
    LockstepAt cap kernel s (modify f) (modify f) where
  grown a t heq := by
    cases heq
    obtain ⟨hledger, -, -, hcache⟩ := h
    exact ⟨hledger ▸ .refl _, hcache ▸ List.prefix_refl _⟩
  follows hongoing hfits := by
    refine .inl ⟨rfl, fun a t heq => ?_⟩
    cases heq
    obtain ⟨hledger, hledgers, hcalls, hcache⟩ := h
    exact ⟨hongoing.of_eq hledger hledgers hcalls hcache, hledger ▸ hfits.within,
      hcache ▸ hfits.reserved⟩

variable [DecidableEq S] [DecidableEq A]

omit [DecidableEq A] in
theorem expandOnce_lockstep (remaining : ℕ) (state : S) (s : SearchState S A) :
    LockstepAt cap kernel s (expandOnce cap remaining state)
      (completeExpandOnce remaining state) := by
  refine lockstepAt_get ?_
  by_cases hnew : (remaining, state) ∉ s.expandedStateTimes
  · rw [if_pos hnew, if_pos hnew]
    exact (expandState_lockstep s).bind fun _ t => lockstepAt_modify ⟨rfl, rfl, rfl, rfl⟩
  · rw [if_neg hnew, if_neg hnew]
    exact .pure ()

theorem evaluateOnce_lockstep (state : S) (action : A) (remaining : ℕ) (s : SearchState S A) :
    LockstepAt cap kernel s (evaluateOnce cap state action remaining)
      (completeEvaluateOnce state action remaining) := by
  refine lockstepAt_get ?_
  by_cases hnew : (remaining, state, action) ∉ s.evaluatedStateActions
  · rw [if_pos hnew, if_pos hnew]
    exact (evaluateAction_lockstep s).bind fun _ t => lockstepAt_modify ⟨rfl, rfl, rfl, rfl⟩
  · rw [if_neg hnew, if_neg hnew]
    exact .pure ()

omit [DecidableEq A] in
theorem remember_lockstep (key : ℕ × Distribution S) {x y : Search S A (List (ParetoPoint S A))}
    (h : ∀ s, LockstepAt cap kernel s x y) (s : SearchState S A) :
    LockstepAt cap kernel s (remember key x) (remember key y) := by
  refine lockstepAt_get ?_
  cases s.memo.lookup key with
  | some frontier => exact .pure frontier
  | none =>
    refine (h s).bind fun frontier t => ?_
    exact (lockstepAt_modify ⟨rfl, rfl, rfl, rfl⟩).bind fun _ _ => .pure frontier

/-! ## Transitions -/

theorem attempt_completeTransition (state : S) (action : A) (s : SearchState S A) :
    attempt (completeTransition kernel state action) s =
      match iterOutcomes kernel state action with
      | .error e => (.error (.raised e), called s state action)
      | .ok outcomes => (.ok outcomes, stored s state action outcomes) := by
  have hcall : attempt (callKernel kernel state action) ((s.charge checked).charge
      fun ledger => { ledger with groundSteps := ledger.groundSteps + 1 }) =
      (_, called s state action) := attempt_callKernel state action _
  rw [completeTransition, attempt_bind_ok (attempt_count _ s)]
  cases houtcomes : iterOutcomes kernel state action with
  | error e =>
    rw [houtcomes] at hcall
    exact attempt_bind_error hcall
  | ok outcomes =>
    rw [houtcomes] at hcall
    exact attempt_bind_ok hcall

omit [PyRepr S] [PyRepr A] in
theorem grown_stored {s : SearchState S A} {state : S} {action : A} {outcomes : List (Outcome S)}
    (hnew : s.transitionCache.lookup (state, action) = none) :
    Grown s (stored s state action outcomes) ∧ (stored s state action outcomes).transitionCache =
      s.transitionCache ++ [((state, action), outcomes)] := by
  have hkey : (state, action) ∉ s.transitionCache.map Prod.fst := by
    intro hmem
    obtain ⟨e, he, heq⟩ := List.mem_map.mp hmem
    have hne := List.lookup_eq_none_iff.mp hnew e he
    simp [heq] at hne
  have hcache : (stored s state action outcomes).transitionCache =
      s.transitionCache ++ [((state, action), outcomes)] := Dict.assign_of_notMem hkey
  refine ⟨⟨{ FallbackLedger.Counted.refl s.ledger with
    steps := Nat.le_succ _, rows := Nat.le_add_right _ _, checks := Nat.le_succ _ }, ?_⟩, hcache⟩
  rw [hcache]
  exact List.prefix_append _ _

omit [PyRepr S] [PyRepr A] [DecidableEq S] [DecidableEq A] in
theorem reserved_append {cache : List ((S × A) × List (Outcome S))} (e : (S × A) × List (Outcome S))
    (h : Reserved cap cache)
    (hfits : rowsIn cache + cap.maxPositiveOutcomesPerStep ≤ cap.maxOutcomeRows) :
    Reserved cap (cache ++ [e]) := by
  intro earlier e' later heq hearlier
  rcases List.append_eq_append_iff.mp heq with ⟨between, rfl, hrest⟩ | ⟨between, rfl, hrest⟩
  · cases between with
    | nil => simpa using hfits
    | cons b between => simp at hrest
  · cases between with
    | nil => simpa using hfits
    | cons b between =>
      obtain ⟨rfl, -⟩ := List.cons.inj hrest
      exact h earlier e' between rfl hearlier

theorem transition_lockstep {state : S} {action : A} {s : SearchState S A}
    (hnew : s.transitionCache.lookup (state, action) = none) :
    LockstepAt cap kernel s (transition cap kernel state action)
      (completeTransition kernel state action) := by
  have hcomplete := @attempt_completeTransition _ _ _ _ kernel _ _ state action s
  have hstored : ∀ outcomes t, attempt (completeTransition kernel state action) s =
      (.ok outcomes, t) → t = stored s state action outcomes := by
    intro outcomes t h
    rw [hcomplete] at h
    cases houtcomes : iterOutcomes kernel state action <;> rw [houtcomes] at h <;> cases h
    rfl
  constructor
  · intro outcomes t h
    rw [hstored outcomes t h]
    exact (grown_stored hnew).1
  intro hongoing hfits
  have hrows : s.ledger.outcomeRows = rowsIn s.transitionCache := hongoing.rows
  obtain ⟨hfull, hrun⟩ | ⟨hlt, ⟨check, hcheck, hfails, hrun⟩ | ⟨hpasses, hrun⟩⟩ :=
    @attempt_guard _ _ cap (reservation cap) s
  · -- the complete search makes one check more than the cap allows
    refine .inr (.inl ⟨_, _, attempt_bind_error (attempt_bind_error hrun), rfl,
      { hfits.within with }, fun outcomes u h => ?_⟩)
    rw [hstored outcomes u h]
    have hgrown := (@grown_stored _ _ _ _ _ _ _ outcomes hnew).1
    refine ⟨{ hgrown.counted with }, fun hu => ?_⟩
    exact absurd hu.within.checks (not_le.mpr (Nat.lt_succ_of_le hfull))
  · -- it makes one step more, or collects rows that left no room for this step
    have hchecked : WithinCaps cap (checked s.ledger) := { hfits.within with checks := hlt }
    refine .inr (.inl ⟨_, _, attempt_bind_error (attempt_bind_error hrun), rfl,
      { hchecked with }, fun outcomes u h => ?_⟩)
    rw [hstored outcomes u h]
    obtain ⟨hgrown, hcache⟩ := @grown_stored _ _ _ _ _ _ _ outcomes hnew
    refine ⟨{ hgrown.counted with checks := le_rfl }, fun hu => ?_⟩
    rcases List.mem_cons.mp hcheck with rfl | hcheck
    · exact absurd hu.within.steps (not_le.mpr hfails)
    · rw [List.mem_singleton.mp hcheck] at hfails
      have hreserved := hu.reserved
      rw [hcache] at hreserved
      have hroom := hreserved s.transitionCache _ [] rfl fun f hf => hongoing.bounded f.1 ?_ _
        (hongoing.outcomes f hf)
      · rw [← hrows] at hroom
        exact absurd hroom (not_le.mpr hfails)
      · rw [hongoing.calls]
        exact List.mem_map_of_mem hf
  · have hroom := hpasses _ (List.mem_cons_of_mem _ (List.mem_singleton_self _))
    have hkeeping := @transition_keeping _ _ _ _ cap _ _ _ _ _ _ hongoing hnew
    have hcapped := @attempt_transition _ _ _ _ cap kernel _ _ _ state
      action hrun
    cases houtcomes : iterOutcomes kernel state action with
    | error e =>
      rw [houtcomes] at hcapped hcomplete
      refine .inl ⟨hcapped.trans hcomplete.symm, fun outcomes t h => ?_⟩
      cases hcomplete.symm.trans h
    | ok outcomes =>
      rw [houtcomes] at hcapped hcomplete
      have hreserved := reserved_append ((state, action), outcomes) hfits.reserved
        (hrows ▸ hroom)
      by_cases hmany : cap.maxPositiveOutcomesPerStep < outcomes.length
      · simp only [hmany, if_true] at hcapped
        refine .inr (.inr ⟨_, _, hcapped, fun outcomes' u h => ?_⟩)
        cases hcomplete.symm.trans h
        obtain ⟨-, hcache⟩ := @grown_stored _ _ _ _ _ _ _ outcomes hnew
        exact ⟨hcache ▸ hreserved, ((state, action), outcomes), by simp [hcache], hmany⟩
      · have hfit : s.ledger.outcomeRows + outcomes.length ≤ cap.maxOutcomeRows := by
          dsimp only at hroom
          omega
        simp only [hmany, if_false, not_lt.mpr hfit] at hcapped
        rw [hcapped] at hkeeping
        refine .inl ⟨hcapped.trans hcomplete.symm, fun outcomes' t h => ?_⟩
        cases hcomplete.symm.trans h
        obtain ⟨-, hcache⟩ := @grown_stored _ _ _ _ _ _ _ outcomes hnew
        exact ⟨hkeeping, Ongoing.ledger_within hkeeping, hcache ▸ hreserved⟩

theorem outcomesFor_lockstep (state : S) (action : A) (remaining : ℕ) (s : SearchState S A) :
    LockstepAt cap kernel s (outcomesFor cap kernel state action remaining)
      (completeOutcomesFor kernel state action remaining) := by
  refine (evaluateOnce_lockstep state action remaining s).bind fun _ t => lockstepAt_get ?_
  cases hlookup : t.transitionCache.lookup (state, action) with
  | some outcomes => exact .pure outcomes
  | none => exact transition_lockstep hlookup

omit [DecidableEq S] [DecidableEq A] in
theorem lift_lockstep {α : Type} (x : Except PyError α) (s : SearchState S A) :
    LockstepAt cap kernel s (liftM x) (liftM x) := by
  cases x with
  | ok a => exact .pure a
  | error e =>
    refine ⟨fun a t h => ?_, fun _ _ => .inl ⟨rfl, fun a t h => ?_⟩⟩
    · cases h
    · cases h

theorem ops_lockstep : RelatedOps (lockstepRel cap kernel) (fun _ _ => True)
    (cappedOps cap kernel) (completeOps kernel) where
  lift := lift_lockstep
  expandOnce := expandOnce_lockstep
  composeCandidate := composeCandidate_lockstep
  outcomesFor := outcomesFor_lockstep
  remember key _ _ _ := remember_lockstep key

theorem searchFrontier_lockstep (query : QuerySpec S) (horizon : ℕ) :
    LockstepAt cap kernel .start
      (do
        let initial ← queryInitialDistribution kernel query
        let initialMass := tally (initial.map fun p => (p.2, p.1))
        occupancyFrontier (cappedOps cap kernel) kernel query.goal (rewardWeights query) horizon
          (canonicalDistribution initialMass))
      (do
        let initial ← queryInitialDistribution kernel query
        let initialMass := tally (initial.map fun p => (p.2, p.1))
        occupancyFrontier (completeOps kernel) kernel query.goal (rewardWeights query) horizon
          (canonicalDistribution initialMass)) := by
  refine (lift_lockstep _ _).bind fun initial t => ?_
  exact ops_lockstep.occupancyFrontier (fun _ => trivial) (fun _ _ => trivial) horizon _ t

end Acfqp.Fallback
