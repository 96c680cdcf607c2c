import Mathlib.Tactic

/-!
# Runs of a partial step function

A system answers the events that it is ready for, and waits with the others. A run is a sequence of
answered events. What every step keeps, every run keeps.
-/

namespace Acfqp.Library

variable {σ ι ο : Type}

/-- A run from a state, with the answer to each of its events. -/
inductive Run (step : σ → ι → Option (ο × σ)) (s : σ) : List (ι × ο) → σ → Prop
  | nil : Run step s [] s
  | snoc {trace : List (ι × ο)} {s' s'' : σ} {i : ι} {o : ο} :
      Run step s trace s' → step s' i = some (o, s'') → Run step s (trace ++ [(i, o)]) s''

/-- The answers to a sequence of events, when the system is ready for each of them. -/
def replay (step : σ → ι → Option (ο × σ)) (s : σ) : List ι → Option (List (ι × ο) × σ)
  | [] => some ([], s)
  | i :: l => do
    let (o, s') ← step s i
    let (trace, s'') ← replay step s' l
    return ((i, o) :: trace, s'')

namespace Run

variable {step : σ → ι → Option (ο × σ)} {s s' : σ} {trace : List (ι × ο)}

theorem trans {s'' : σ} {trace' : List (ι × ο)} (h : Run step s trace s')
    (h' : Run step s' trace' s'') : Run step s (trace ++ trace') s'' := by
  induction h' with
  | nil => rwa [List.append_nil]
  | snoc _ hstep ih =>
    rw [← List.append_assoc]
    exact ih.snoc hstep

theorem of_replay {l : List ι} (h : replay step s l = some (trace, s')) : Run step s trace s' := by
  induction l generalizing s trace with
  | nil =>
    obtain ⟨rfl, rfl⟩ := Prod.mk.inj (Option.some.inj h)
    exact .nil
  | cons i l ih =>
    obtain ⟨⟨o, s₁⟩, hstep, h⟩ := Option.bind_eq_some_iff.mp h
    obtain ⟨⟨trace', s₂⟩, hreplay, h⟩ := Option.bind_eq_some_iff.mp h
    obtain ⟨rfl, rfl⟩ := Prod.mk.inj (Option.some.inj h)
    exact (Run.nil.snoc hstep).trans (ih hreplay)

/-- A preorder between the ends of every step is one between the ends of every run. -/
theorem related {R : σ → σ → Prop} (hrefl : ∀ s, R s s)
    (htrans : ∀ {a b c}, R a b → R b c → R a c)
    (hstep : ∀ {s i o s'}, step s i = some (o, s') → R s s') (h : Run step s trace s') :
    R s s' := by
  induction h with
  | nil => exact hrefl s
  | snoc _ hlast ih => exact htrans ih (hstep hlast)

end Run

end Acfqp.Library
