import Mathlib.Tactic

/-!
# Computations over a durable state

A computation changes its state in durable steps. It may raise, and its process may stop before any
durable step; the state stays either way. What holds of every way that a run can end is stated by a
weakest precondition.
-/

namespace Acfqp.Library

variable {σ ε α β : Type}

/-- Why a computation has not returned. -/
inductive Halt (ε : Type) where
  | raised (error : ε)
  | stopped
  deriving DecidableEq

/-- A computation with its state, and the number of durable steps before its process stops. -/
abbrev Durable (σ ε : Type) := ExceptT (Halt ε) (StateM (σ × Option ℕ))

namespace Durable

/-- Read the state. -/
def observe : Durable σ ε σ := do return (← get).1

def raise (error : ε) : Durable σ ε α := throw (.raised error)

def check (x : Except ε α) : Durable σ ε α :=
  match x with
  | .ok a => pure a
  | .error e => raise e

def durably (f : σ → σ) : Durable σ ε Unit := do
  let (s, budget) ← get
  match budget with
  | some 0 => throw .stopped
  | some (n + 1) => set (f s, some n)
  | none => set (f s, (none : Option ℕ))

/-- How a run ends, and the state that it leaves. -/
def perform (m : Durable σ ε α) (s : σ) (budget : Option ℕ) : Except (Halt ε) α × σ :=
  let (result, state, _) := m.run (s, budget)
  (result, state)

/-- Every way in which a run from the state may end: it returns, its process stops, or it raises.
A run without a stop does not stop. -/
def wp (m : Durable σ ε α) (s : σ) (Q : α → σ → Prop) (S : σ → Prop) (E : ε → σ → Prop) : Prop :=
  ∀ budget, match m.run (s, budget) with
    | (.ok a, s', budget') => Q a s' ∧ (budget = none → budget' = none)
    | (.error .stopped, s', _) => S s' ∧ budget ≠ none
    | (.error (.raised e), s', _) => E e s'

variable {m : Durable σ ε α} {s : σ} {Q Q' : α → σ → Prop} {S S' : σ → Prop} {E E' : ε → σ → Prop}

theorem wp_pure {a : α} (h : Q a s) : wp (pure a : Durable σ ε α) s Q S E :=
  fun _ => ⟨h, id⟩

theorem wp_raise {e : ε} (h : E e s) : wp (raise e : Durable σ ε α) s Q S E :=
  fun _ => h

theorem wp_observe {Q : σ → σ → Prop} (h : Q s s) : wp (observe : Durable σ ε σ) s Q S E :=
  fun _ => ⟨h, id⟩

theorem wp_durably {f : σ → σ} {Q : Unit → σ → Prop} (hstop : S s) (h : Q () (f s)) :
    wp (durably f : Durable σ ε Unit) s Q S E := by
  intro budget
  match budget with
  | none => exact ⟨h, id⟩
  | some 0 => exact ⟨hstop, by simp⟩
  | some (n + 1) => exact ⟨h, by simp⟩

theorem wp_check {x : Except ε α} (hok : ∀ a, x = .ok a → Q a s)
    (herror : ∀ e, x = .error e → E e s) : wp (check x : Durable σ ε α) s Q S E := by
  cases x with
  | ok a => exact wp_pure (hok a rfl)
  | error e => exact wp_raise (herror e rfl)

theorem run_bind_ok {f : α → Durable σ ε β} {st st' : σ × Option ℕ} {a : α}
    (h : m.run st = (.ok a, st')) : (m >>= f).run st = (f a).run st' :=
  congrArg (fun p : Except (Halt ε) α × (σ × Option ℕ) =>
    (ExceptT.bindCont f p.1 : StateM (σ × Option ℕ) (Except (Halt ε) β)) p.2) h

theorem run_bind_error {f : α → Durable σ ε β} {st st' : σ × Option ℕ} {e : Halt ε}
    (h : m.run st = (.error e, st')) : (m >>= f).run st = (.error e, st') :=
  congrArg (fun p : Except (Halt ε) α × (σ × Option ℕ) =>
    (ExceptT.bindCont f p.1 : StateM (σ × Option ℕ) (Except (Halt ε) β)) p.2) h

theorem wp_bind {f : α → Durable σ ε β} {Q : β → σ → Prop}
    (h : wp m s (fun a s' => wp (f a) s' Q S E) S E) : wp (m >>= f) s Q S E := by
  intro budget
  have hm := h budget
  rcases hrun : m.run (s, budget) with ⟨e | a, s', budget'⟩
  · rw [hrun] at hm
    rw [run_bind_error hrun]
    cases e with
    | raised e => exact hm
    | stopped => exact hm
  · rw [hrun] at hm
    obtain ⟨hf, hnone⟩ := hm
    have hrest := hf budget'
    rw [run_bind_ok hrun]
    rcases hrun' : (f a).run (s', budget') with ⟨e | b, s'', budget''⟩
    · rw [hrun'] at hrest
      cases e with
      | raised e => exact hrest
      | stopped => exact ⟨hrest.1, fun hbudget => hrest.2 (hnone hbudget)⟩
    · rw [hrun'] at hrest
      exact ⟨hrest.1, fun hbudget => hrest.2 (hnone hbudget)⟩

theorem wp_mono (h : wp m s Q S E) (hQ : ∀ a s', Q a s' → Q' a s') (hS : ∀ s', S s' → S' s')
    (hE : ∀ e s', E e s' → E' e s') : wp m s Q' S' E' := by
  intro budget
  have hm := h budget
  rcases hrun : m.run (s, budget) with ⟨e | a, s', budget'⟩
  · rw [hrun] at hm
    cases e with
    | raised e => exact hE e s' hm
    | stopped => exact ⟨hS s' hm.1, hm.2⟩
  · rw [hrun] at hm
    exact ⟨hQ a s' hm.1, hm.2⟩

/-- How a performed run ends. -/
theorem perform_cases (h : wp m s Q S E) (budget : Option ℕ) :
    (∃ a s', m.perform s budget = (.ok a, s') ∧ Q a s') ∨
    (∃ s', m.perform s budget = (.error .stopped, s') ∧ S s' ∧ budget ≠ none) ∨
    ∃ e s', m.perform s budget = (.error (.raised e), s') ∧ E e s' := by
  have hm := h budget
  unfold perform
  rcases hrun : m.run (s, budget) with ⟨e | a, s', budget'⟩
  · rw [hrun] at hm
    cases e with
    | raised e => exact .inr (.inr ⟨e, s', rfl, hm⟩)
    | stopped => exact .inr (.inl ⟨s', rfl, hm⟩)
  · rw [hrun] at hm
    exact .inl ⟨a, s', rfl, hm.1⟩

end Durable

end Acfqp.Library
