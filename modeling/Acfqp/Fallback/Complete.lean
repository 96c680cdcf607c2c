import Acfqp.Fallback.Caps

/-!
# The complete search

The search without its caps counts the same things and denies nothing. A capped search goes through
the same states until a charge is denied, and a charge is denied exactly when the complete search
outgrows the caps, or collects rows that leave no room for a reservation.
-/

namespace Acfqp.Fallback

open Library Planning

variable {S A : Type}

/-! ## The search without caps -/

section

variable [DecidableEq S] [PyRepr S] [DecidableEq A] [PyRepr A]

def count (f : FallbackLedger → FallbackLedger) : Search S A Unit := do
  modify (SearchState.charge checked)
  modify (SearchState.charge f)

def completeExpandOnce (remaining : ℕ) (state : S) : Search S A Unit := do
  let s ← get
  if (remaining, state) ∉ s.expandedStateTimes then
    count fun ledger => { ledger with statesExpanded := ledger.statesExpanded + 1 }
    modify fun s => { s with expandedStateTimes := s.expandedStateTimes ++ [(remaining, state)] }

def completeEvaluateOnce (state : S) (action : A) (remaining : ℕ) : Search S A Unit := do
  let s ← get
  if (remaining, state, action) ∉ s.evaluatedStateActions then
    count fun ledger => { ledger with actionsEvaluated := ledger.actionsEvaluated + 1 }
    modify fun s =>
      { s with evaluatedStateActions := s.evaluatedStateActions ++ [(remaining, state, action)] }

def completeTransition (kernel : Kernel S A) (state : S) (action : A) :
    Search S A (List (Outcome S)) := do
  count fun ledger => { ledger with groundSteps := ledger.groundSteps + 1 }
  let outcomes ← callKernel kernel state action
  modify (SearchState.charge fun ledger =>
    { ledger with outcomeRows := ledger.outcomeRows + outcomes.length })
  modify fun s =>
    { s with transitionCache := Dict.assign (state, action) outcomes s.transitionCache }
  pure outcomes

def completeOutcomesFor (kernel : Kernel S A) (state : S) (action : A) (remaining : ℕ) :
    Search S A (List (Outcome S)) := do
  completeEvaluateOnce state action remaining
  let s ← get
  match s.transitionCache.lookup (state, action) with
  | some outcomes => pure outcomes
  | none => completeTransition kernel state action

def completeOps (kernel : Kernel S A) : SearchOps (Search S A) S A where
  expandOnce := completeExpandOnce
  composeCandidate := count fun ledger => { ledger with
    composedCandidates := ledger.composedCandidates + 1
    bellmanBackups := ledger.bellmanBackups + 1 }
  outcomesFor := completeOutcomesFor kernel
  remember := remember

def completeFrontier (kernel : Kernel S A) (query : QuerySpec S) (horizon : ℕ) :
    Except SearchError (List (ParetoPoint S A)) × SearchState S A :=
  attempt (do
    let initial ← queryInitialDistribution kernel query
    let initialMass := tally (initial.map fun p => (p.2, p.1))
    occupancyFrontier (completeOps kernel) kernel query.goal (rewardWeights query) horizon
      (canonicalDistribution initialMass)) .start

end

/-! ## Growth -/

structure FallbackLedger.Counted (l l' : FallbackLedger) : Prop where
  states : l.statesExpanded ≤ l'.statesExpanded
  actions : l.actionsEvaluated ≤ l'.actionsEvaluated
  steps : l.groundSteps ≤ l'.groundSteps
  rows : l.outcomeRows ≤ l'.outcomeRows
  backups : l.bellmanBackups ≤ l'.bellmanBackups
  candidates : l.composedCandidates ≤ l'.composedCandidates
  checks : l.capChecks ≤ l'.capChecks

theorem FallbackLedger.Counted.refl (l : FallbackLedger) : l.Counted l :=
  ⟨le_rfl, le_rfl, le_rfl, le_rfl, le_rfl, le_rfl, le_rfl⟩

theorem FallbackLedger.Counted.trans {l l' l'' : FallbackLedger} (h : l.Counted l')
    (h' : l'.Counted l'') : l.Counted l'' :=
  ⟨h.states.trans h'.states, h.actions.trans h'.actions, h.steps.trans h'.steps,
    h.rows.trans h'.rows, h.backups.trans h'.backups, h.candidates.trans h'.candidates,
    h.checks.trans h'.checks⟩

theorem WithinCaps.of_counted {cap : GroundFallbackCapProfile} {l l' : FallbackLedger}
    (h : WithinCaps cap l') (hle : l.Counted l') : WithinCaps cap l :=
  ⟨hle.states.trans h.states, hle.actions.trans h.actions, hle.steps.trans h.steps,
    hle.rows.trans h.rows, hle.backups.trans h.backups, hle.candidates.trans h.candidates,
    hle.checks.trans h.checks⟩

def rowsIn (cache : List ((S × A) × List (Outcome S))) : ℕ :=
  (cache.map fun e => e.2.length).sum

/-- The counts grow, and transitions are stored after those that are there. -/
structure Grown (s t : SearchState S A) : Prop where
  counted : s.ledger.Counted t.ledger
  stored : s.transitionCache <+: t.transitionCache

theorem Grown.refl (s : SearchState S A) : Grown s s := ⟨.refl _, List.prefix_refl _⟩

theorem Grown.trans {s t u : SearchState S A} (h : Grown s t) (h' : Grown t u) : Grown s u :=
  ⟨h.counted.trans h'.counted, h.stored.trans h'.stored⟩

/-- Every reservation that comes before an overflow leaves room for the registered number of
outcomes. -/
def Reserved (cap : GroundFallbackCapProfile) (cache : List ((S × A) × List (Outcome S))) : Prop :=
  ∀ earlier e later, cache = earlier ++ e :: later →
    (∀ f ∈ earlier, f.2.length ≤ cap.maxPositiveOutcomesPerStep) →
    rowsIn earlier + cap.maxPositiveOutcomesPerStep ≤ cap.maxOutcomeRows

theorem Reserved.of_prefix {cap : GroundFallbackCapProfile}
    {cache cache' : List ((S × A) × List (Outcome S))} (h : Reserved cap cache')
    (hpre : cache <+: cache') : Reserved cap cache := by
  obtain ⟨rest, rfl⟩ := hpre
  rintro earlier e later rfl hearlier
  exact h earlier e (later ++ rest) (by simp) hearlier

/-- What is stored after an overflow is not looked at. -/
theorem Reserved.extend {cap : GroundFallbackCapProfile}
    {cache cache' : List ((S × A) × List (Outcome S))} (h : Reserved cap cache)
    (hpre : cache <+: cache')
    (hover : ∃ f ∈ cache, cap.maxPositiveOutcomesPerStep < f.2.length) : Reserved cap cache' := by
  obtain ⟨rest, rfl⟩ := hpre
  intro earlier e later heq hearlier
  rcases List.append_eq_append_iff.mp heq with ⟨between, rfl, hrest⟩ | ⟨between, rfl, hrest⟩
  · obtain ⟨f, hf, hlt⟩ := hover
    exact absurd (hearlier f (List.mem_append_left _ hf)) (not_le.mpr hlt)
  · cases between with
    | nil =>
      obtain ⟨f, hf, hlt⟩ := hover
      rw [List.append_nil] at hf
      exact absurd (hearlier f hf) (not_le.mpr hlt)
    | cons e' between =>
      obtain ⟨rfl, -⟩ := List.cons.inj hrest
      exact h earlier e between rfl hearlier

/-! ## Lockstep -/

/-- The counts are within the caps, and the reservations fit. -/
structure Fits (cap : GroundFallbackCapProfile) (s : SearchState S A) : Prop where
  within : WithinCaps cap s.ledger
  reserved : Reserved cap s.transitionCache

theorem Fits.of_grown {cap : GroundFallbackCapProfile} {s t : SearchState S A} (h : Fits cap t)
    (hgrown : Grown s t) : Fits cap s :=
  ⟨h.within.of_counted hgrown.counted, h.reserved.of_prefix hgrown.stored⟩

/-- A transition with more outcomes than are registered. -/
def Overflows (cap : GroundFallbackCapProfile) (s : SearchState S A) : Prop :=
  ∃ f ∈ s.transitionCache, cap.maxPositiveOutcomesPerStep < f.2.length

variable [PyRepr S] [PyRepr A]

/-- From one state, a capped computation ends as the complete one does, or a charge is denied that
the complete one outgrows, or a step overflows. -/
structure LockstepAt (cap : GroundFallbackCapProfile) (kernel : Kernel S A) {α : Type}
    (s : SearchState S A) (x y : Search S A α) : Prop where
  grown : ∀ a t, attempt y s = (.ok a, t) → Grown s t
  follows : Ongoing cap kernel s → Fits cap s →
    (attempt x s = attempt y s ∧
      ∀ a t, attempt y s = (.ok a, t) → Ongoing cap kernel t ∧ Fits cap t) ∨
    (∃ capName t, attempt x s = (.error (.capExhausted capName), t) ∧
      t.ledger.capRejections = 1 ∧ WithinCaps cap t.ledger ∧
      ∀ a u, attempt y s = (.ok a, u) → t.ledger.Counted u.ledger ∧ ¬ Fits cap u) ∨
    ∃ message t, attempt x s = (.error (.protocolError message), t) ∧
      ∀ a u, attempt y s = (.ok a, u) → Reserved cap u.transitionCache ∧ Overflows cap u

section Lockstep

variable {cap : GroundFallbackCapProfile} {kernel : Kernel S A} {α β : Type} {s : SearchState S A}

theorem LockstepAt.bind {x y : Search S A α} {f g : α → Search S A β}
    (h : LockstepAt cap kernel s x y) (hf : ∀ a t, LockstepAt cap kernel t (f a) (g a)) :
    LockstepAt cap kernel s (x >>= f) (y >>= g) where
  grown b u hrun := by
    obtain ⟨a, t, ha, hb⟩ := attempt_bind_eq_ok.mp hrun
    exact (h.grown a t ha).trans ((hf a t).grown b u hb)
  follows hongoing hfits := by
    obtain ⟨heq, hok⟩ | ⟨capName, t, hdenied, hone, hwithin, hgrows⟩ |
      ⟨message, t, hover, hgrows⟩ :=
      h.follows hongoing hfits
    · cases hy : attempt y s with | mk r t =>
      cases r with
      | error e =>
        refine .inl ⟨?_, fun b u hrun => ?_⟩
        · rw [attempt_bind_error (heq.trans hy), attempt_bind_error hy]
        · obtain ⟨a, _, ha, -⟩ := attempt_bind_eq_ok.mp hrun
          cases hy.symm.trans ha
      | ok a =>
        rw [attempt_bind_ok (heq.trans hy), attempt_bind_ok hy]
        exact (hf a t).follows (hok a t hy).1 (hok a t hy).2
    · refine .inr (.inl ⟨capName, t, attempt_bind_error hdenied, hone, hwithin, fun b u hrun => ?_⟩)
      obtain ⟨a, t', ha, hb⟩ := attempt_bind_eq_ok.mp hrun
      obtain ⟨hcounted, hnot⟩ := hgrows a t' ha
      have hgrown := (hf a t').grown b u hb
      exact ⟨hcounted.trans hgrown.counted, fun hu => hnot (hu.of_grown hgrown)⟩
    · refine .inr (.inr ⟨message, t, attempt_bind_error hover, fun b u hrun => ?_⟩)
      obtain ⟨a, t', ha, hb⟩ := attempt_bind_eq_ok.mp hrun
      obtain ⟨hreserved, f, hf', hlt⟩ := hgrows a t' ha
      have hgrown := (hf a t').grown b u hb
      exact ⟨hreserved.extend hgrown.stored ⟨f, hf', hlt⟩, f, hgrown.stored.subset hf', hlt⟩

theorem LockstepAt.pure (a : α) : LockstepAt cap kernel s (Pure.pure a) (Pure.pure a) where
  grown b t h := by
    cases h
    exact .refl s
  follows hongoing hfits := .inl ⟨rfl, fun b t h => by cases h; exact ⟨hongoing, hfits⟩⟩

variable (cap kernel) in
/-- Going through the same states, as a relation of monads. -/
def lockstepRel : MonadRel (Search S A) (Search S A) where
  rel x y := ∀ s, LockstepAt cap kernel s x y
  pure a _ := .pure a
  bind hx hf s := (hx s).bind hf

end Lockstep

end Acfqp.Fallback
