import Acfqp.Fallback.Search
import Acfqp.Planning.Exactness

/-!
# Related operations give related searches

The recursion is generic in the monad of its operations, so that what relates the operations of two
monads relates the recursions over them.
-/

namespace Acfqp.Fallback

open Library Planning

variable {S A : Type} {m n : Type → Type} [Monad m] [Monad n]
  [MonadLiftT (Except PyError) m] [MonadLiftT (Except PyError) n]

/-- The operations are related; a remembered body is related under a condition on the other one. -/
structure RelatedOps (R : MonadRel m n)
    (Good : ℕ × Distribution S → n (List (ParetoPoint S A)) → Prop) (ops : SearchOps m S A)
    (ops' : SearchOps n S A) : Prop where
  lift : ∀ {α : Type} (x : Except PyError α), R.rel (liftM x) (liftM x)
  expandOnce : ∀ remaining state, R.rel (ops.expandOnce remaining state)
    (ops'.expandOnce remaining state)
  composeCandidate : R.rel ops.composeCandidate ops'.composeCandidate
  outcomesFor : ∀ state action remaining, R.rel (ops.outcomesFor state action remaining)
    (ops'.outcomesFor state action remaining)
  remember : ∀ key body body', Good key body' → R.rel body body' →
    R.rel (ops.remember key body) (ops'.remember key body')

namespace RelatedOps

variable [LawfulMonad m] [LawfulMonad n] [DecidableEq S] [PyRepr S] [DecidableEq A] [PyRepr A]
  {R : MonadRel m n} {Good : ℕ × Distribution S → n (List (ParetoPoint S A)) → Prop}
  {ops : SearchOps m S A} {ops' : SearchOps n S A} (h : RelatedOps R Good ops ops')
  {kernel : Kernel S A} {goal : String} {weights : Features}

include h

omit [DecidableEq S] [PyRepr S] [DecidableEq A] in
theorem decisionSets (remaining : ℕ) (distribution : Distribution S) :
    R.rel (decisionSets ops kernel goal remaining distribution)
      (decisionSets ops' kernel goal remaining distribution) := by
  refine R.bind (R.mapM _ fun e _ => ?_) fun sets => R.pure _
  refine R.bind (h.expandOnce remaining e.1) fun _ => ?_
  exact R.bind (h.lift _) fun actions => R.pure _

omit [DecidableEq A] in
theorem extendPartial (points : List (ParetoPoint S A)) (set : (S × ℚ) × List A) :
    R.rel (extendPartial ops weights points set) (extendPartial ops' weights points set) := by
  refine R.bind (R.mapM _ fun point _ => R.mapM _ fun action _ => ?_) fun extended => R.pure _
  refine R.bind h.composeCandidate fun _ => ?_
  refine R.bind (h.outcomesFor set.1.1 action 1) fun outcomes => ?_
  exact R.bind (h.lift _) fun policy => R.pure _

theorem chosenCandidates (remaining : ℕ) {f : Distribution S → m (List (ParetoPoint S A))}
    {g : Distribution S → n (List (ParetoPoint S A))} (hfg : ∀ d, R.rel (f d) (g d))
    (chosen : List ((S × ℚ) × A)) :
    R.rel (chosenCandidates ops kernel goal weights remaining f chosen)
      (chosenCandidates ops' kernel goal weights remaining g chosen) := by
  refine R.bind h.composeCandidate fun _ => ?_
  refine R.bind (R.mapM _ fun c _ => ?_) fun steps => ?_
  · exact R.bind (h.outcomesFor c.1.1 c.2 remaining) fun outcomes => R.pure _
  · refine R.bind (hfg _) fun points => R.bind (R.mapM _ fun point _ => ?_) fun _ => R.pure _
    exact R.bind h.composeCandidate fun _ => h.lift _

theorem frontierStage (remaining : ℕ) {f : Distribution S → m (List (ParetoPoint S A))}
    {g : Distribution S → n (List (ParetoPoint S A))} (hfg : ∀ d, R.rel (f d) (g d))
    (distribution : Distribution S) :
    R.rel (frontierStage ops kernel goal weights remaining f distribution)
      (frontierStage ops' kernel goal weights remaining g distribution) := by
  unfold Fallback.frontierStage
  split
  · exact R.pure _
  · refine R.bind (h.decisionSets remaining distribution) fun sets => ?_
    split
    · exact R.pure _
    · split
      · exact R.foldlM _ _ fun points set _ => h.extendPartial points set
      · refine R.bind (R.mapM _ fun chosen _ => ?_) fun candidates => R.pure _
        exact h.chosenCandidates remaining hfg _

theorem occupancyFrontier (hzero : ∀ d, Good (0, d) (pure [zeroPoint]))
    (hstage : ∀ k d, Good (k + 1, d) (Fallback.frontierStage ops' kernel goal weights (k + 1)
      (Fallback.occupancyFrontier ops' kernel goal weights k) d)) (k : ℕ) (d : Distribution S) :
    R.rel (Fallback.occupancyFrontier ops kernel goal weights k d)
      (Fallback.occupancyFrontier ops' kernel goal weights k d) := by
  induction k generalizing d with
  | zero => exact h.remember _ _ _ (hzero d) (R.pure _)
  | succ k ih => exact h.remember _ _ _ (hstage k d) (h.frontierStage (k + 1) ih d)

end RelatedOps

end Acfqp.Fallback

/-!
## The caps of a fallback attempt are never overshot

A ledger counts a thing only after a check that leaves room for it, and the rows of a step only
after the room that the step may need was reserved. So every ledger that an attempt goes through
stays within the caps, on every way that the attempt can end.
-/

namespace Acfqp.Fallback

open Library Planning

variable {S A : Type}

/-- Every count is at most its cap. -/
structure WithinCaps (cap : GroundFallbackCapProfile) (l : FallbackLedger) : Prop where
  states : l.statesExpanded ≤ cap.maxStatesExpanded
  actions : l.actionsEvaluated ≤ cap.maxActionsEvaluated
  steps : l.groundSteps ≤ cap.maxGroundSteps
  rows : l.outcomeRows ≤ cap.maxOutcomeRows
  backups : l.bellmanBackups ≤ cap.maxBellmanBackups
  candidates : l.composedCandidates ≤ cap.maxComposedCandidates
  checks : l.capChecks ≤ cap.maxSolverCapChecks

theorem withinCaps_zero (cap : GroundFallbackCapProfile) : WithinCaps cap .zero :=
  ⟨Nat.zero_le _, Nat.zero_le _, Nat.zero_le _, Nat.zero_le _, Nat.zero_le _, Nat.zero_le _,
    Nat.zero_le _⟩

section Guard

variable {cap : GroundFallbackCapProfile} {checks : FallbackLedger → List (String × ℕ × ℕ)}

def checked (ledger : FallbackLedger) : FallbackLedger :=
  { ledger with capChecks := ledger.capChecks + 1 }

/-- The ledger after a denied charge. -/
def rejected (ledger : FallbackLedger) : FallbackLedger := { ledger with capRejections := 1 }

/-- A guard is denied by the cap on checks, or by the cap on a proposed count, or it passes. -/
theorem attempt_guard (s : SearchState S A) :
    (cap.maxSolverCapChecks ≤ s.ledger.capChecks ∧
      attempt (guard cap checks) s = (.error (.capExhausted "max_cap_checks"), s.charge rejected)) ∨
    (s.ledger.capChecks < cap.maxSolverCapChecks ∧
      ((∃ check ∈ checks s.ledger, check.2.2 < check.2.1 ∧ attempt (guard cap checks) s =
        (.error (.capExhausted check.1), (s.charge checked).charge rejected)) ∨
      ((∀ check ∈ checks s.ledger, check.2.1 ≤ check.2.2) ∧
        attempt (guard cap checks) s = (.ok (), s.charge checked)))) := by
  by_cases hfull : cap.maxSolverCapChecks ≤ s.ledger.capChecks
  · refine .inl ⟨hfull, ?_⟩
    rw [guard, attempt_bind_ok (attempt_get s), if_pos hfull]
    rfl
  · refine .inr ⟨not_le.mp hfull, ?_⟩
    rw [guard, attempt_bind_ok (attempt_get s), if_neg hfull]
    change _ ∨ (_ ∧ attempt _ (s.charge checked) = _)
    cases hfind : (checks s.ledger).find? fun check => check.2.2 < check.2.1 with
    | some check =>
      refine .inl ⟨check, List.mem_of_find?_eq_some hfind, ?_, rfl⟩
      simpa using List.find?_some hfind
    | none =>
      refine .inr ⟨fun check hcheck => ?_, rfl⟩
      simpa using List.find?_eq_none.mp hfind check hcheck

end Guard

/-! ## The invariant -/

variable [PyRepr S] [PyRepr A]

/-- What is true of a search that called the kernel only within its bound. -/
structure Sound (cap : GroundFallbackCapProfile) (kernel : Kernel S A) (s : SearchState S A) :
    Prop where
  within : ∀ l ∈ s.ledgers, WithinCaps cap l
  current : s.ledger ∈ s.ledgers
  nodup : s.calls.Nodup
  paired : s.ledger.bellmanBackups = s.ledger.composedCandidates
  calls_le : s.calls.length ≤ s.ledger.groundSteps
  bounded : ∀ c ∈ s.calls, ∀ outcomes, iterOutcomes kernel c.1 c.2 = .ok outcomes →
    outcomes.length ≤ cap.maxPositiveOutcomesPerStep

/-- The invariant of a search that goes on: the table holds the outcomes of every call, and the
ledger counts them. -/
structure Ongoing (cap : GroundFallbackCapProfile) (kernel : Kernel S A) (s : SearchState S A) :
    Prop extends Sound cap kernel s where
  not_rejected : s.ledger.capRejections = 0
  calls : s.calls = s.transitionCache.map Prod.fst
  steps : s.ledger.groundSteps = s.calls.length
  rows : s.ledger.outcomeRows = (s.transitionCache.map fun e => e.2.length).sum
  outcomes : ∀ e ∈ s.transitionCache, iterOutcomes kernel e.1.1 e.1.2 = .ok e.2

def RowsOf (kernel : Kernel S A) (calls : List (S × A)) (rows : ℕ) : Prop :=
  ∃ returned : List (List (Outcome S)),
    List.Forall₂ (fun c outcomes => iterOutcomes kernel c.1 c.2 = .ok outcomes) calls returned ∧
      rows = (returned.map List.length).sum

/-- What is true of a search that an exception ended. -/
def Ended (cap : GroundFallbackCapProfile) (kernel : Kernel S A) (e : SearchError)
    (s : SearchState S A) : Prop :=
  match e with
  | .capExhausted _ => Sound cap kernel s ∧ s.ledger.capRejections = 1
  | .raised _ => Sound cap kernel s ∧ s.ledger.capRejections = 0
  | .protocolError _ => s.ledger.capRejections = 0 ∧ RowsOf kernel s.calls s.ledger.outcomeRows ∧
      ∃ c ∈ s.calls, ∃ outcomes, iterOutcomes kernel c.1 c.2 = .ok outcomes ∧
        cap.maxPositiveOutcomesPerStep < outcomes.length
  | .assertionError _ => False

section Keeping

variable {cap : GroundFallbackCapProfile} {kernel : Kernel S A} {s : SearchState S A}

theorem Sound.charge (h : Sound cap kernel s) {f : FallbackLedger → FallbackLedger}
    (hwithin : WithinCaps cap (f s.ledger))
    (hpaired : (f s.ledger).bellmanBackups = (f s.ledger).composedCandidates)
    (hsteps : s.ledger.groundSteps ≤ (f s.ledger).groundSteps) :
    Sound cap kernel (s.charge f) where
  within l hl := by
    rcases List.mem_append.mp hl with hl | hl
    · exact h.within l hl
    · rwa [List.mem_singleton.mp hl]
  current := List.mem_append_right _ (List.mem_singleton_self _)
  nodup := h.nodup
  paired := hpaired
  calls_le := h.calls_le.trans hsteps
  bounded := h.bounded

theorem Ongoing.charge (h : Ongoing cap kernel s) {f : FallbackLedger → FallbackLedger}
    (hwithin : WithinCaps cap (f s.ledger))
    (hpaired : (f s.ledger).bellmanBackups = (f s.ledger).composedCandidates)
    (hrejections : (f s.ledger).capRejections = 0)
    (hsteps : (f s.ledger).groundSteps = s.ledger.groundSteps)
    (hrows : (f s.ledger).outcomeRows = s.ledger.outcomeRows) :
    Ongoing cap kernel (s.charge f) where
  toSound := h.toSound.charge hwithin hpaired hsteps.ge
  not_rejected := hrejections
  calls := h.calls
  steps := hsteps.trans h.steps
  rows := hrows.trans h.rows
  outcomes := h.outcomes

theorem Ongoing.ledger_within (h : Ongoing cap kernel s) : WithinCaps cap s.ledger :=
  h.within _ h.current

theorem Ongoing.checked (h : Ongoing cap kernel s)
    (hchecks : s.ledger.capChecks < cap.maxSolverCapChecks) :
    Ongoing cap kernel (s.charge checked) :=
  h.charge { h.ledger_within with checks := hchecks } h.paired h.not_rejected rfl rfl

theorem Ongoing.rejected (h : Ongoing cap kernel s) :
    Sound cap kernel (s.charge rejected) :=
  h.toSound.charge { h.ledger_within with } h.paired le_rfl

/-- A guard ends the search as a denied charge, or the counts that it was asked for fit. -/
theorem guard_cases (h : Ongoing cap kernel s) (checks : FallbackLedger → List (String × ℕ × ℕ)) :
    (∃ capName t, attempt (guard cap checks) s = (.error (.capExhausted capName), t) ∧
      Sound cap kernel t ∧ t.ledger.capRejections = 1) ∨
    (attempt (guard cap checks) s = (.ok (), s.charge Fallback.checked) ∧
      Ongoing cap kernel (s.charge Fallback.checked) ∧
      ∀ check ∈ checks s.ledger, check.2.1 ≤ check.2.2) := by
  obtain ⟨-, hrun⟩ | ⟨hlt, ⟨check, -, -, hrun⟩ | ⟨hfits, hrun⟩⟩ := @attempt_guard _ _ cap
    checks s
  · exact .inl ⟨_, _, hrun, h.rejected, rfl⟩
  · exact .inl ⟨_, _, hrun, (h.checked hlt).rejected, rfl⟩
  · exact .inr ⟨hrun, h.checked hlt, hfits⟩

theorem charge_keeping {checks : FallbackLedger → List (String × ℕ × ℕ)}
    {f : FallbackLedger → FallbackLedger}
    (hwithin : ∀ l, WithinCaps cap (checked l) → (∀ check ∈ checks l, check.2.1 ≤ check.2.2) →
      WithinCaps cap (f (checked l)))
    (hpaired : ∀ l, l.bellmanBackups = l.composedCandidates →
      (f l).bellmanBackups = (f l).composedCandidates)
    (hsame : ∀ l, (f l).capRejections = l.capRejections ∧ (f l).groundSteps = l.groundSteps ∧
      (f l).outcomeRows = l.outcomeRows) :
    Keeping (Ongoing cap kernel) (Ended cap kernel)
      (do guard cap checks; modify (SearchState.charge f) : Search S A Unit) := by
  intro s hs
  obtain ⟨capName, t, hrun, hsound, hone⟩ | ⟨hrun, hchecked, hfits⟩ := guard_cases hs checks
  · rw [attempt_bind_error hrun]
    exact ⟨hsound, hone⟩
  · rw [attempt_bind_ok hrun, attempt_modify]
    have hledger : WithinCaps cap (checked s.ledger) := hchecked.ledger_within
    obtain ⟨hrejections, hsteps, hrows⟩ := hsame (checked s.ledger)
    exact hchecked.charge (hwithin _ hledger hfits) (hpaired _ hchecked.paired)
      (hrejections.trans hs.not_rejected) hsteps hrows

theorem expandState_keeping :
    Keeping (Ongoing cap kernel) (Ended cap kernel) (expandState cap : Search S A Unit) :=
  charge_keeping (fun _ h hfits => { h with states := hfits _ (List.mem_singleton_self _) })
    (fun _ => id) fun _ => ⟨rfl, rfl, rfl⟩

theorem evaluateAction_keeping :
    Keeping (Ongoing cap kernel) (Ended cap kernel) (evaluateAction cap : Search S A Unit) :=
  charge_keeping (fun _ h hfits => { h with actions := hfits _ (List.mem_singleton_self _) })
    (fun _ => id) fun _ => ⟨rfl, rfl, rfl⟩

theorem composeCandidate_keeping :
    Keeping (Ongoing cap kernel) (Ended cap kernel) (composeCandidate cap : Search S A Unit) := by
  refine charge_keeping (fun l h hfits => ?_) (fun l => congrArg (· + 1)) fun _ => ⟨rfl, rfl, rfl⟩
  have hcandidates := hfits _ List.mem_cons_self
  have hbackups := hfits _ (List.mem_cons_of_mem _ (List.mem_singleton_self _))
  exact { h with candidates := hcandidates, backups := hbackups }

/-- The invariant does not look at the other tables. -/
theorem Ongoing.of_eq {t : SearchState S A} (h : Ongoing cap kernel s)
    (hledger : t.ledger = s.ledger)
    (hledgers : t.ledgers = s.ledgers) (hcalls : t.calls = s.calls)
    (hcache : t.transitionCache = s.transitionCache) : Ongoing cap kernel t := by
  obtain ⟨⟨hwithin, hcurrent, hnodup, hpaired, hle, hbounded⟩, hzero, hkeys, hsteps, hrows,
    houtcomes⟩ := h
  exact ⟨⟨hledgers ▸ hwithin, hledger ▸ hledgers ▸ hcurrent, hcalls ▸ hnodup,
    hledger ▸ hpaired, by rwa [hcalls, hledger], hcalls ▸ hbounded⟩, hledger ▸ hzero,
      by rw [hcalls, hcache, hkeys],
    by rw [hledger, hcalls, hsteps], by rw [hledger, hcache, hrows], hcache ▸ houtcomes⟩

variable [DecidableEq S] [DecidableEq A]

omit [DecidableEq A] in
theorem expandOnce_keeping (remaining : ℕ) (state : S) :
    Keeping (Ongoing cap kernel) (Ended cap kernel)
      (expandOnce cap remaining state : Search S A Unit) := by
  intro s hs
  rw [expandOnce, attempt_bind_ok (attempt_get s)]
  by_cases hnew : (remaining, state) ∉ s.expandedStateTimes
  · rw [if_pos hnew]
    refine expandState_keeping.bind (fun _ => .modify ?_) s hs
    intro t ht
    exact ht.of_eq rfl rfl rfl rfl
  · rw [if_neg hnew]
    exact hs

omit [DecidableEq A] in
theorem remember_keeping (key : ℕ × Distribution S) {body : Search S A (List (ParetoPoint S A))}
    (hbody : Keeping (Ongoing cap kernel) (Ended cap kernel) body) :
    Keeping (Ongoing cap kernel) (Ended cap kernel) (remember key body) := by
  intro s hs
  rw [remember, attempt_bind_ok (attempt_get s)]
  cases s.memo.lookup key with
  | some frontier => exact hs
  | none =>
    refine hbody.bind (fun frontier => ?_) s hs
    exact Keeping.bind (.modify fun t ht => ht.of_eq rfl rfl rfl rfl) fun _ _ ht => ht

theorem evaluateOnce_keeping (state : S) (action : A) (remaining : ℕ) :
    Keeping (Ongoing cap kernel) (Ended cap kernel)
      (evaluateOnce cap state action remaining : Search S A Unit) := by
  intro s hs
  rw [evaluateOnce, attempt_bind_ok (attempt_get s)]
  by_cases hnew : (remaining, state, action) ∉ s.evaluatedStateActions
  · rw [if_pos hnew]
    refine evaluateAction_keeping.bind (fun _ => .modify ?_) s hs
    intro t ht
    exact ht.of_eq rfl rfl rfl rfl
  · rw [if_neg hnew]
    exact hs

omit [DecidableEq S] [DecidableEq A] [PyRepr S] [PyRepr A] in
theorem attempt_recordOutcomes {count : ℕ} (hcount : count ≠ 0) (s : SearchState S A) :
    attempt (recordOutcomes cap count) s =
      (if cap.maxPositiveOutcomesPerStep < count then
        .error (.protocolError "kernel outcome count exceeded max_positive_outcomes_per_step")
      else if cap.maxOutcomeRows < s.ledger.outcomeRows + count then
        .error (.assertionError "pre-reserved outcome cap was violated")
      else .ok (),
      s.charge fun ledger => { ledger with outcomeRows := ledger.outcomeRows + count }) := by
  rw [recordOutcomes, if_neg hcount]
  by_cases hmany : cap.maxPositiveOutcomesPerStep < count
  · rw [if_pos hmany, if_pos hmany]
    rfl
  · rw [if_neg hmany, if_neg hmany]
    change attempt (if cap.maxOutcomeRows < s.ledger.outcomeRows + count then throw _ else pure ())
      (s.charge _) = _
    split <;> rfl

omit [DecidableEq S] [DecidableEq A] in
theorem attempt_callKernel (state : S) (action : A) (s : SearchState S A) :
    attempt (callKernel kernel state action) s =
      (match iterOutcomes kernel state action with
        | .ok outcomes => .ok outcomes
        | .error e => .error (.raised e), { s with calls := s.calls ++ [(state, action)] }) := by
  rw [callKernel]
  cases iterOutcomes kernel state action <;> rfl

omit [DecidableEq S] [DecidableEq A] in
theorem iterOutcomes_length_ne_zero {state : S} {action : A} {outcomes : List (Outcome S)}
    (h : iterOutcomes kernel state action = .ok outcomes) : outcomes.length ≠ 0 := by
  obtain ⟨-, hsum⟩ := iterOutcomes_eq_ok.mp h
  rintro hzero
  obtain rfl := List.length_eq_zero_iff.mp hzero
  simp at hsum

def called (s : SearchState S A) (state : S) (action : A) : SearchState S A :=
  { (s.charge checked).charge fun ledger => { ledger with groundSteps := ledger.groundSteps + 1 }
    with calls := s.calls ++ [(state, action)] }

/-- The state after the rows of a call were charged. -/
def recorded (s : SearchState S A) (state : S) (action : A) (outcomes : List (Outcome S)) :
    SearchState S A :=
  (called s state action).charge fun ledger =>
    { ledger with outcomeRows := ledger.outcomeRows + outcomes.length }

def stored (s : SearchState S A) (state : S) (action : A) (outcomes : List (Outcome S)) :
    SearchState S A :=
  { recorded s state action outcomes with
    transitionCache := Dict.assign (state, action) outcomes s.transitionCache }

/-- A transition whose reservation passes calls the kernel once. -/
theorem attempt_transition {state : S} {action : A}
    (hguard : attempt (guard cap (reservation cap)) s = (.ok (), s.charge checked)) :
    attempt (transition cap kernel state action) s =
      match iterOutcomes kernel state action with
      | .error e => (.error (.raised e), called s state action)
      | .ok outcomes =>
        if cap.maxPositiveOutcomesPerStep < outcomes.length then
          (.error (.protocolError "kernel outcome count exceeded max_positive_outcomes_per_step"),
            recorded s state action outcomes)
        else if cap.maxOutcomeRows < s.ledger.outcomeRows + outcomes.length then
          (.error (.assertionError "pre-reserved outcome cap was violated"),
            recorded s state action outcomes)
        else (.ok outcomes, stored s state action outcomes) := by
  have hreserve : attempt (reserveTransition cap) s = (.ok (), (s.charge checked).charge
      fun ledger => { ledger with groundSteps := ledger.groundSteps + 1 }) := by
    rw [reserveTransition, attempt_bind_ok hguard, attempt_modify]
  have hcall : attempt (callKernel kernel state action) ((s.charge checked).charge
      fun ledger => { ledger with groundSteps := ledger.groundSteps + 1 }) =
      (_, called s state action) := attempt_callKernel state action _
  rw [transition, attempt_bind_ok hreserve]
  cases houtcomes : iterOutcomes kernel state action with
  | error e =>
    rw [houtcomes] at hcall
    exact attempt_bind_error hcall
  | ok outcomes =>
    have hrecord : attempt (recordOutcomes cap outcomes.length) (called s state action) =
        (if cap.maxPositiveOutcomesPerStep < outcomes.length then .error _
          else if cap.maxOutcomeRows < s.ledger.outcomeRows + outcomes.length then .error _
          else .ok (), recorded s state action outcomes) :=
      attempt_recordOutcomes (iterOutcomes_length_ne_zero houtcomes) _
    rw [houtcomes] at hcall
    rw [attempt_bind_ok hcall]
    dsimp only
    split
    · rename_i hmany
      rw [if_pos hmany] at hrecord
      exact attempt_bind_error hrecord
    · rename_i hmany
      rw [if_neg hmany] at hrecord
      split
      · rename_i hrows
        rw [if_pos hrows] at hrecord
        exact attempt_bind_error hrecord
      · rename_i hrows
        rw [if_neg hrows] at hrecord
        exact attempt_bind_ok hrecord

theorem Ongoing.new_call (h : Ongoing cap kernel s) {state : S} {action : A}
    (hnew : s.transitionCache.lookup (state, action) = none) : (state, action) ∉ s.calls := by
  rw [h.calls]
  intro hmem
  obtain ⟨e, he, heq⟩ := List.mem_map.mp hmem
  have hne := List.lookup_eq_none_iff.mp hnew e he
  simp [heq] at hne

theorem called_sound {state : S} {action : A} (hs : Ongoing cap kernel s)
    (hnew : s.transitionCache.lookup (state, action) = none)
    (hchecked : Ongoing cap kernel (s.charge checked))
    (hsteps : s.ledger.groundSteps + 1 ≤ cap.maxGroundSteps)
    (hbounded : ∀ outcomes, iterOutcomes kernel state action = .ok outcomes →
      outcomes.length ≤ cap.maxPositiveOutcomesPerStep) :
    Sound cap kernel (called s state action) := by
  have hledger : WithinCaps cap (checked s.ledger) := hchecked.ledger_within
  have hcharged := hchecked.toSound.charge
    (f := fun ledger => { ledger with groundSteps := ledger.groundSteps + 1 })
    { hledger with steps := hsteps } hs.paired (Nat.le_succ _)
  refine ⟨hcharged.within, hcharged.current, ?_, hs.paired, ?_, ?_⟩
  · have hsingle := List.nodup_singleton (state, action)
    exact hs.nodup.append hsingle (by simpa using hs.new_call hnew)
  · change (s.calls ++ [(state, action)]).length ≤ s.ledger.groundSteps + 1
    rw [List.length_append, List.length_singleton, hs.steps]
  · intro c hc outcomes houtcomes
    rcases List.mem_append.mp hc with hc | hc
    · exact hs.bounded c hc outcomes houtcomes
    · rw [List.mem_singleton.mp hc] at houtcomes
      exact hbounded outcomes houtcomes

omit [DecidableEq S] [DecidableEq A] in
theorem rowsOf_recorded {state : S} {action : A} {outcomes : List (Outcome S)}
    (hs : Ongoing cap kernel s) (houtcomes : iterOutcomes kernel state action = .ok outcomes) :
    RowsOf kernel (s.calls ++ [(state, action)]) (s.ledger.outcomeRows + outcomes.length) := by
  refine ⟨s.transitionCache.map Prod.snd ++ [outcomes], ?_, ?_⟩
  · rw [hs.calls]
    refine List.rel_append ?_ (.cons houtcomes .nil)
    rw [List.forall₂_map_left_iff, List.forall₂_map_right_iff, List.forall₂_same]
    exact hs.outcomes
  · rw [hs.rows, List.map_append, List.sum_append, List.map_map]
    simp [Function.comp_def]

theorem stored_ongoing {state : S} {action : A} {outcomes : List (Outcome S)}
    (hs : Ongoing cap kernel s) (hnew : s.transitionCache.lookup (state, action) = none)
    (hcalled : Sound cap kernel (called s state action))
    (houtcomes : iterOutcomes kernel state action = .ok outcomes)
    (hrows : s.ledger.outcomeRows + outcomes.length ≤ cap.maxOutcomeRows) :
    Ongoing cap kernel (stored s state action outcomes) := by
  have hledger : WithinCaps cap (called s state action).ledger := hcalled.within _ hcalled.current
  have hrecorded := hcalled.charge (f := fun ledger =>
    { ledger with outcomeRows := ledger.outcomeRows + outcomes.length })
    { hledger with rows := hrows } hcalled.paired le_rfl
  have hcache : Dict.assign (state, action) outcomes s.transitionCache =
      s.transitionCache ++ [((state, action), outcomes)] :=
    Dict.assign_of_notMem (hs.calls ▸ hs.new_call hnew)
  refine ⟨⟨hrecorded.within, hrecorded.current, hrecorded.nodup, hrecorded.paired,
    hrecorded.calls_le,
    hrecorded.bounded⟩, hs.not_rejected, ?_, ?_, ?_, ?_⟩
  · change s.calls ++ [(state, action)] = (Dict.assign _ _ _).map Prod.fst
    rw [hcache, List.map_append, hs.calls]
    rfl
  · change s.ledger.groundSteps + 1 = (s.calls ++ [(state, action)]).length
    rw [hs.steps, List.length_append, List.length_singleton]
  · change s.ledger.outcomeRows + outcomes.length = ((Dict.assign _ _ _).map _).sum
    rw [hcache, hs.rows, List.map_append, List.sum_append]
    rfl
  · change ∀ e ∈ Dict.assign _ _ _, _
    rw [hcache]
    intro e he
    rcases List.mem_append.mp he with he | he
    · exact hs.outcomes e he
    · rw [List.mem_singleton.mp he]
      exact houtcomes

/-- A pair that is not in the table is called, recorded and stored, or it ends the search. -/
theorem transition_keeping {state : S} {action : A} (hs : Ongoing cap kernel s)
    (hnew : s.transitionCache.lookup (state, action) = none) :
    Leaves (Ongoing cap kernel) (Ended cap kernel)
      (attempt (transition cap kernel state action) s) := by
  obtain ⟨capName, t, hguard, hsound, hone⟩ | ⟨hguard, hchecked, hfits⟩ :=
    guard_cases hs (reservation cap)
  · have hreserve : attempt (reserveTransition cap) s = (.error (.capExhausted capName), t) := by
      rw [reserveTransition, attempt_bind_error hguard]
    rw [transition, attempt_bind_error hreserve]
    exact ⟨hsound, hone⟩
  · have hsteps := hfits _ List.mem_cons_self
    have hrows := hfits _ (List.mem_cons_of_mem _ (List.mem_singleton_self _))
    have hcalled := called_sound hs hnew hchecked hsteps
    rw [attempt_transition hguard]
    cases houtcomes : iterOutcomes kernel state action with
    | error e =>
      refine ⟨hcalled fun outcomes h => ?_, hs.not_rejected⟩
      cases houtcomes.symm.trans h
    | ok outcomes =>
      by_cases hmany : cap.maxPositiveOutcomesPerStep < outcomes.length
      · simp only [hmany, if_true]
        exact ⟨hs.not_rejected, rowsOf_recorded hs houtcomes, (state, action),
          List.mem_append_right _ (List.mem_singleton_self _), outcomes, houtcomes, hmany⟩
      · have hfit : s.ledger.outcomeRows + outcomes.length ≤ cap.maxOutcomeRows := by
          dsimp only at hrows
          omega
        simp only [hmany, if_false, not_lt.mpr hfit]
        refine stored_ongoing hs hnew (hcalled fun other h => ?_) houtcomes hfit
        cases houtcomes.symm.trans h
        exact not_lt.mp hmany

theorem outcomesFor_keeping (state : S) (action : A) (remaining : ℕ) :
    Keeping (Ongoing cap kernel) (Ended cap kernel)
      (outcomesFor cap kernel state action remaining) := by
  refine (evaluateOnce_keeping state action remaining).bind fun _ s hs => ?_
  rw [attempt_bind_ok (attempt_get s)]
  cases hlookup : s.transitionCache.lookup (state, action) with
  | some outcomes => exact hs
  | none => exact transition_keeping hs hlookup

end Keeping

section Attempts

variable [DecidableEq S] [DecidableEq A] {cap : GroundFallbackCapProfile} {kernel : Kernel S A}
  {query : QuerySpec S}

omit [DecidableEq S] [DecidableEq A] in
theorem lift_keeping {α : Type} (x : Except PyError α) :
    Keeping (Ongoing cap kernel) (Ended cap kernel) (liftM x : Search S A α) := by
  intro s hs
  cases x with
  | ok a => exact hs
  | error e => exact ⟨hs.toSound, hs.not_rejected⟩

theorem cappedOps_keeping : RelatedOps (keepingRel (Ongoing cap kernel) (Ended cap kernel))
    (fun _ _ => True) (cappedOps cap kernel) (cappedOps cap kernel) where
  lift := lift_keeping
  expandOnce := expandOnce_keeping
  composeCandidate := composeCandidate_keeping
  outcomesFor := outcomesFor_keeping
  remember key _ _ _ := remember_keeping key

omit [DecidableEq S] [DecidableEq A] in
theorem ongoing_start : Ongoing cap kernel .start := by
  refine ⟨⟨?_, List.mem_singleton_self _, List.nodup_nil, rfl, le_rfl, ?_⟩, rfl, rfl, rfl, rfl, ?_⟩
  · intro l hl
    rw [List.mem_singleton.mp hl]
    exact withinCaps_zero cap
  · intro c hc
    cases hc
  · intro e he
    cases he

theorem searchFrontier_keeping (horizon : ℕ) :
    Leaves (Ongoing cap kernel) (Ended cap kernel)
      (searchFrontier cap kernel query horizon) := by
  refine (lift_keeping (queryInitialDistribution kernel query)).bind (fun initial => ?_) .start
    ongoing_start
  exact cappedOps_keeping.occupancyFrontier (fun _ => trivial) (fun _ _ => trivial) horizon _

/-- A kernel that returns at least one and at most the registered number of outcomes. -/
def Bounded (cap : GroundFallbackCapProfile) (kernel : Kernel S A) : Prop :=
  ∀ state action outcomes, kernel.step state action = .ok outcomes →
    1 ≤ outcomes.length ∧ outcomes.length ≤ cap.maxPositiveOutcomesPerStep

theorem raising_eq_ok {α : Type} {x : Except PyError α} {a : α} :
    raising x = .ok a ↔ x = .ok a := by
  cases x <;> simp [raising]

theorem runGroundFallbackSearch_of_valid {stateId : S → ContentId} {actionId : A → ContentId}
    (hvalid : validateQuery kernel query = .ok ()) :
    runGroundFallbackSearch stateId actionId cap kernel query =
      match searchFrontier cap kernel query query.horizon with
      | (.ok frontier, t) =>
        let selected := selectConstrained frontier query.delta
        let outcome := if selected.isSome then .feasibleCertified else .infeasibleCertified
        raising (buildExecution stateId actionId frontier selected outcome none t.ledger)
      | (.error (.capExhausted capName), t) =>
        raising (buildExecution stateId actionId [] none .capExhausted (some capName) t.ledger)
      | (.error (.protocolError message), t) =>
        .error (.protocolError message (workVector t.ledger .capExhausted))
      | (.error (.assertionError message), _) => .error (.raised (.assertionError message))
      | (.error (.raised e), _) => .error (.raised e) := by
  rw [runGroundFallbackSearch, hvalid, queryHorizon_of_valid hvalid]
  rfl

omit [PyRepr S] [PyRepr A] [DecidableEq S] [DecidableEq A] in
theorem buildExecution_eq_ok {stateId : S → ContentId} {actionId : A → ContentId}
    {frontier : List (ParetoPoint S A)} {selected : Option (ParetoPoint S A)}
    {outcome : GroundFallbackOutcome} {capExhaustedName : Option String} {ledger : FallbackLedger}
    {execution : GroundFallbackExecution S A}
    (h : buildExecution stateId actionId frontier selected outcome capExhaustedName ledger =
      .ok execution) :
    execution.result.outcome = outcome ∧ execution.workVector = workVector ledger outcome ∧
      execution.result.composedCandidateCount = ledger.composedCandidates := by
  obtain ⟨points, -, h⟩ := bind_eq_ok.mp h
  obtain ⟨_, -, h⟩ := bind_eq_ok.mp h
  obtain rfl := pure_eq_ok.mp h
  exact ⟨rfl, rfl, rfl⟩

theorem workVector_capRejections (l : FallbackLedger) (outcome : GroundFallbackOutcome) :
    workVector l outcome "control.cap_rejections" = l.capRejections := rfl

omit [DecidableEq S] [DecidableEq A] in
theorem Sound.calls_within {t : SearchState S A} (h : Sound cap kernel t) :
    t.calls.length ≤ cap.maxGroundSteps :=
  h.calls_le.trans (h.within _ h.current).steps

omit [DecidableEq S] [DecidableEq A] in
theorem Sound.not_overflow {t : SearchState S A} (h : Sound cap kernel t) :
    ¬ ∃ c ∈ t.calls, ∃ outcomes, iterOutcomes kernel c.1 c.2 = .ok outcomes ∧
      cap.maxPositiveOutcomesPerStep < outcomes.length := by
  rintro ⟨c, hc, outcomes, houtcomes, hmany⟩
  exact absurd (h.bounded c hc outcomes houtcomes) (not_le.mpr hmany)

/-- Every ledger that an attempt goes through stays within the caps, and no pair is called twice;
the one rejection is that of an exhausted cap; and a step beyond the registered bound ends the
attempt with a protocol error that counts its rows. -/
theorem runGroundFallbackSearch_caps (stateId : S → ContentId) (actionId : A → ContentId)
    (cap : GroundFallbackCapProfile) (kernel : Kernel S A) (query : QuerySpec S)
    (hvalid : validateQuery kernel query = .ok ()) :
    ∃ r t, searchFrontier cap kernel query query.horizon = (r, t) ∧
      (Bounded cap kernel →
        (∀ l ∈ t.ledgers, WithinCaps cap l) ∧
        t.calls.length ≤ cap.maxGroundSteps ∧ t.calls.Nodup ∧
        (t.ledger.capRejections = 1 ↔ ∃ capName, r = .error (.capExhausted capName)) ∧
        (∀ message, r ≠ .error (.assertionError message)) ∧
        ∀ execution, runGroundFallbackSearch stateId actionId cap kernel query = .ok execution →
          (execution.workVector "control.cap_rejections" = 1 ↔
            execution.result.outcome = .capExhausted)) ∧
      ((∃ c ∈ t.calls, ∃ outcomes, iterOutcomes kernel c.1 c.2 = .ok outcomes ∧
          cap.maxPositiveOutcomesPerStep < outcomes.length) →
        ∃ message partialWorkVector,
          runGroundFallbackSearch stateId actionId cap kernel query =
            .error (.protocolError message partialWorkVector) ∧
          RowsOf kernel t.calls (partialWorkVector "fallback.outcome_rows")) := by
  have hleaves := @searchFrontier_keeping _ _ _ _ _ _ cap kernel query
    query.horizon
  have hrun := @runGroundFallbackSearch_of_valid _ _ _ _ _ _ cap _ _ stateId
    actionId hvalid
  generalize searchFrontier cap kernel query query.horizon = p at hleaves hrun
  obtain ⟨r, t⟩ := p
  refine ⟨r, t, rfl, ?_⟩
  rw [hrun]
  cases r with
  | ok frontier =>
    have hsound := Ongoing.toSound hleaves
    refine ⟨fun _ => ⟨hsound.within, hsound.calls_within, hsound.nodup, ?_, by simp, ?_⟩,
      fun hover => absurd hover hsound.not_overflow⟩
    · simp [Ongoing.not_rejected hleaves]
    · intro execution hexecution
      obtain ⟨houtcome, hwork, -⟩ := buildExecution_eq_ok (raising_eq_ok.mp hexecution)
      rw [hwork, houtcome, workVector_capRejections, Ongoing.not_rejected hleaves]
      split <;> simp
  | error e =>
    cases e with
    | capExhausted capName =>
      obtain ⟨hsound, hone⟩ : Sound cap kernel t ∧ t.ledger.capRejections = 1 := hleaves
      refine ⟨fun _ => ⟨hsound.within, hsound.calls_within, hsound.nodup, ?_, by simp, ?_⟩,
        fun hover => absurd hover hsound.not_overflow⟩
      · simp [hone]
      · intro execution hexecution
        obtain ⟨houtcome, hwork, -⟩ := buildExecution_eq_ok (raising_eq_ok.mp hexecution)
        rw [hwork, houtcome, workVector_capRejections, hone]
        simp
    | raised e =>
      obtain ⟨hsound, hzero⟩ : Sound cap kernel t ∧ t.ledger.capRejections = 0 := hleaves
      refine ⟨fun _ => ⟨hsound.within, hsound.calls_within, hsound.nodup, by simp [hzero], by simp,
        fun _ h => by cases h⟩, fun hover => absurd hover hsound.not_overflow⟩
    | assertionError message => exact absurd hleaves id
    | protocolError message =>
      obtain ⟨-, hrows, c, hc, outcomes, houtcomes, hmany⟩ : t.ledger.capRejections = 0 ∧
        RowsOf kernel t.calls t.ledger.outcomeRows ∧ ∃ c ∈ t.calls, ∃ outcomes,
          iterOutcomes kernel c.1 c.2 = .ok outcomes ∧
            cap.maxPositiveOutcomesPerStep < outcomes.length := hleaves
      refine ⟨fun hbounded => ?_, fun _ => ⟨message, _, rfl, hrows⟩⟩
      have hle := (hbounded _ _ _ (iterOutcomes_eq_ok.mp houtcomes).1).2
      omega

end Attempts

/-- Room for one decision between two actions. -/
def sampleCaps : GroundFallbackCapProfile where
  maxStatesExpanded := 1
  maxActionsEvaluated := 2
  maxGroundSteps := 2
  maxOutcomeRows := 4
  maxBellmanBackups := 2
  maxComposedCandidates := 2
  maxCapChecks := 7
  maxPositiveOutcomesPerStep := 2
  reservedRouteCapChecks := 0
  positive := by decide
  reserved_le := by decide
  ground_steps_le := by decide
  outcome_rows_ge := by decide

theorem bounded_gambleKernel : Bounded sampleCaps gambleKernel := by
  intro state action outcomes h
  change Except.ok _ = _ at h
  split at h <;> cases h <;> decide

theorem runGroundFallbackSearch_caps_sample : ∃ r t,
    searchFrontier sampleCaps gambleKernel gambleQuery 1 = (r, t) ∧
      (∀ l ∈ t.ledgers, WithinCaps sampleCaps l) ∧ t.calls.length ≤ 2 ∧ t.calls.Nodup := by
  have hvalid : validateQuery gambleKernel gambleQuery = .ok () := by decide +kernel
  obtain ⟨r, t, hsearch, hcaps, -⟩ := runGroundFallbackSearch_caps ContentId.ofNat
    (fun action => ContentId.ofNat action.length) sampleCaps gambleKernel gambleQuery hvalid
  obtain ⟨hwithin, hcalls, hnodup, -⟩ := hcaps bounded_gambleKernel
  exact ⟨r, t, hsearch, hwithin, hcalls, hnodup⟩

end Acfqp.Fallback
