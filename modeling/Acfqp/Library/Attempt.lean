import Acfqp.Library.Checked

/-!
# Attempts that keep their state when they raise

An attempt ends with a value or an exception, and in both cases with the state it reached. A
relation between the computations of two monads that returning and binding keep is kept by loops,
so that a program that is generic in its monad is related to itself by one proof.
-/

namespace Acfqp.Library

variable {σ ε α β : Type}

abbrev Attempt (σ ε : Type) : Type → Type := ExceptT ε (StateM σ)

/-- How an attempt ends, and the state it reaches. -/
def attempt (x : Attempt σ ε α) (s : σ) : Except ε α × σ := StateT.run (ExceptT.run x) s

section Runs

variable {x : Attempt σ ε α} {f : α → Attempt σ ε β} {s t : σ}

@[simp] theorem attempt_pure (a : α) (s : σ) :
    attempt (pure a : Attempt σ ε α) s = (.ok a, s) := rfl

@[simp] theorem attempt_throw (e : ε) (s : σ) :
    attempt (throw e : Attempt σ ε α) s = (.error e, s) := rfl

@[simp] theorem attempt_get (s : σ) : attempt (get : Attempt σ ε σ) s = (.ok s, s) := rfl

@[simp] theorem attempt_modify (f : σ → σ) (s : σ) :
    attempt (modify f : Attempt σ ε Unit) s = (.ok (), f s) := rfl

theorem attempt_bind (x : Attempt σ ε α) (f : α → Attempt σ ε β) (s : σ) :
    attempt (x >>= f) s = match attempt x s with
      | (.ok a, t) => attempt (f a) t
      | (.error e, t) => (.error e, t) := by
  change (match attempt x s with | (r, t) => attempt (ExceptT.bindCont f r : Attempt σ ε β) t) = _
  generalize attempt x s = p
  obtain ⟨_ | _, _⟩ := p <;> rfl

theorem attempt_bind_ok {a : α} (h : attempt x s = (.ok a, t)) :
    attempt (x >>= f) s = attempt (f a) t := by
  rw [attempt_bind, h]

theorem attempt_bind_error {e : ε} (h : attempt x s = (.error e, t)) :
    attempt (x >>= f) s = (.error e, t) := by
  rw [attempt_bind, h]

theorem attempt_tryCatch (x : Attempt σ ε α) (handle : ε → Attempt σ ε α) (s : σ) :
    attempt (tryCatch x handle) s = match attempt x s with
      | (.ok a, t) => (.ok a, t)
      | (.error e, t) => attempt (handle e) t := by
  change (match attempt x s with
    | (r, t) => attempt (match r with
      | .ok a => pure a
      | .error e => handle e) t) = _
  generalize attempt x s = p
  obtain ⟨_ | _, _⟩ := p <;> rfl

theorem attempt_bind_eq_ok {b : β} : attempt (x >>= f) s = (.ok b, t) ↔
    ∃ a u, attempt x s = (.ok a, u) ∧ attempt (f a) u = (.ok b, t) := by
  rw [attempt_bind]
  generalize attempt x s = p
  obtain ⟨_ | a, u⟩ := p
  · simp
  · constructor
    · exact fun h => ⟨a, u, rfl, h⟩
    · rintro ⟨_, _, heq, h⟩
      cases heq
      exact h

theorem attempt_map_ok {a : α} (g : α → β) (h : attempt x s = (.ok a, t)) :
    attempt (g <$> x) s = (.ok (g a), t) := by
  rw [map_eq_pure_bind, attempt_bind_ok h, attempt_pure]

theorem attempt_discard_ok {a : α} (h : attempt x s = (.ok a, t)) :
    attempt (discard x) s = (.ok (), t) := attempt_map_ok _ h

end Runs

/-! ## Relations between monads -/

/-- A relation between computations that returning and binding keep. -/
structure MonadRel (m n : Type → Type) [Monad m] [Monad n] where
  rel : ∀ {α : Type}, m α → n α → Prop
  pure : ∀ {α : Type} (a : α), rel (pure a : m α) (pure a)
  bind : ∀ {α β : Type} {x : m α} {y : n α} {f : α → m β} {g : α → n β},
    rel x y → (∀ a, rel (f a) (g a)) → rel (x >>= f) (y >>= g)

namespace MonadRel

variable {m n : Type → Type} [Monad m] [Monad n] (R : MonadRel m n)

theorem mapM [LawfulMonad m] [LawfulMonad n] {f : α → m β} {g : α → n β} (l : List α)
    (h : ∀ a ∈ l, R.rel (f a) (g a)) : R.rel (l.mapM f) (l.mapM g) := by
  induction l with
  | nil => exact R.pure []
  | cons a l ih =>
    rw [List.mapM_cons, List.mapM_cons]
    refine R.bind (h a List.mem_cons_self) fun b => ?_
    refine R.bind (ih fun c hc => h c (List.mem_cons_of_mem a hc)) fun bs => ?_
    exact R.pure (b :: bs)

theorem foldlM {f : β → α → m β} {g : β → α → n β} (l : List α) (b : β)
    (h : ∀ b, ∀ a ∈ l, R.rel (f b a) (g b a)) : R.rel (l.foldlM f b) (l.foldlM g b) := by
  induction l generalizing b with
  | nil => exact R.pure b
  | cons a l ih =>
    rw [List.foldlM_cons, List.foldlM_cons]
    refine R.bind (h b a List.mem_cons_self) fun c => ?_
    exact ih c fun b d hd => h b d (List.mem_cons_of_mem a hd)

theorem forM {f : α → m PUnit} {g : α → n PUnit} (l : List α)
    (h : ∀ a ∈ l, R.rel (f a) (g a)) : R.rel (l.forM f) (l.forM g) := by
  induction l with
  | nil => exact R.pure PUnit.unit
  | cons a l ih =>
    refine R.bind (h a List.mem_cons_self) fun _ => ?_
    exact ih fun c hc => h c (List.mem_cons_of_mem a hc)

end MonadRel

/-! ## Ends -/

/-- An end leaves what its value promises, or what its exception does. -/
def Ends (Q : α → σ → Prop) (E : ε → σ → Prop) : Except ε α × σ → Prop
  | (.ok a, t) => Q a t
  | (.error e, t) => E e t

theorem Ends.mono {Q Q' : α → σ → Prop} {E E' : ε → σ → Prop} {p : Except ε α × σ}
    (h : Ends Q E p) (hQ : ∀ a t, Q a t → Q' a t) (hE : ∀ e t, E e t → E' e t) :
    Ends Q' E' p := by
  obtain ⟨_ | a, t⟩ := p
  · exact hE _ t h
  · exact hQ a t h

theorem Ends.bind {x : Attempt σ ε α} {f : α → Attempt σ ε β} {s : σ} {Q : α → σ → Prop}
    {R : β → σ → Prop} {E : ε → σ → Prop} (hx : Ends Q E (attempt x s))
    (hf : ∀ a t, Q a t → Ends R E (attempt (f a) t)) : Ends R E (attempt (x >>= f) s) := by
  rw [attempt_bind]
  generalize attempt x s = p at hx
  obtain ⟨_ | a, t⟩ := p
  · exact hx
  · exact hf a t hx

theorem Ends.map {x : Attempt σ ε α} {s : σ} {Q : β → σ → Prop} {E : ε → σ → Prop} (g : α → β)
    (h : Ends (fun a t => Q (g a) t) E (attempt x s)) : Ends Q E (attempt (g <$> x) s) := by
  rw [map_eq_pure_bind]
  exact h.bind fun a t ha => ha

theorem Ends.tryCatch {x : Attempt σ ε α} {handle : ε → Attempt σ ε α} {s : σ}
    {Q : α → σ → Prop} {E E' : ε → σ → Prop} (hx : Ends Q E (attempt x s))
    (hhandle : ∀ e t, E e t → Ends Q E' (attempt (handle e) t)) :
    Ends Q E' (attempt (tryCatch x handle) s) := by
  rw [attempt_tryCatch]
  generalize attempt x s = p at hx
  obtain ⟨_ | a, t⟩ := p
  · exact hhandle _ t hx
  · exact hx

/-! ## Invariants -/

def Leaves (I : σ → Prop) (E : ε → σ → Prop) : Except ε α × σ → Prop
  | (.ok _, t) => I t
  | (.error e, t) => E e t

/-- An invariant that an attempt keeps, with what its exceptions leave. -/
def Keeping (I : σ → Prop) (E : ε → σ → Prop) (x : Attempt σ ε α) : Prop :=
  ∀ s, I s → Leaves I E (attempt x s)

theorem Keeping.bind {I : σ → Prop} {E : ε → σ → Prop} {x : Attempt σ ε α}
    {f : α → Attempt σ ε β} (hx : Keeping I E x) (hf : ∀ a, Keeping I E (f a)) :
    Keeping I E (x >>= f) := by
  intro s hs
  have hstate := hx s hs
  rw [attempt_bind]
  generalize attempt x s = p at hstate
  obtain ⟨_ | a, t⟩ := p
  · exact hstate
  · exact hf a t hstate

theorem Keeping.modify {I : σ → Prop} {E : ε → σ → Prop} {f : σ → σ} (h : ∀ s, I s → I (f s)) :
    Keeping I E (modify f : Attempt σ ε Unit) := h

/-- Keeping an invariant, as a relation of an attempt to itself. -/
def keepingRel (I : σ → Prop) (E : ε → σ → Prop) :
    MonadRel (Attempt σ ε) (Attempt σ ε) where
  rel x _ := Keeping I E x
  pure _ _ hs := hs
  bind hx hf := hx.bind hf

/-! ## Runs that are not stopped -/

/-- Wherever the first attempt is not stopped, the second ends in the same way. -/
def Prolongs (stop : ε → Prop) (x y : Attempt σ ε α) : Prop :=
  ∀ s, (∀ e t, attempt x s = (.error e, t) → ¬ stop e) → attempt y s = attempt x s

theorem Prolongs.refl {stop : ε → Prop} (x : Attempt σ ε α) : Prolongs stop x x := fun _ _ => rfl

theorem Prolongs.bind {stop : ε → Prop} {x y : Attempt σ ε α} {f g : α → Attempt σ ε β}
    (hx : Prolongs stop x y) (hf : ∀ a, Prolongs stop (f a) (g a)) :
    Prolongs stop (x >>= f) (y >>= g) := by
  intro s hs
  rw [attempt_bind] at hs
  have hfirst := hx s fun e t h => hs e t (by rw [h])
  rw [attempt_bind, attempt_bind, hfirst]
  generalize attempt x s = p at hs
  obtain ⟨_ | a, t⟩ := p
  · rfl
  · exact hf a t hs

/-- A handler that passes a stop on adds no way to be stopped. -/
theorem Prolongs.tryCatch {stop : ε → Prop} {x y : Attempt σ ε α} {handle : ε → Attempt σ ε α}
    (hx : Prolongs stop x y)
    (hstop : ∀ e s, stop e → ∃ e' t, attempt (handle e) s = (.error e', t) ∧ stop e') :
    Prolongs stop (tryCatch x handle) (tryCatch y handle) := by
  intro s hs
  rw [attempt_tryCatch] at hs
  have hfirst : attempt y s = attempt x s := by
    refine hx s fun e t h hstopped => ?_
    obtain ⟨e', t', hrun, he'⟩ := hstop e t hstopped
    exact hs e' t' (by rw [h]; exact hrun) he'
  rw [attempt_tryCatch, attempt_tryCatch, hfirst]

/-- Not being stopped, as a relation between attempts. -/
def prolongsRel (stop : ε → Prop) : MonadRel (Attempt σ ε) (Attempt σ ε) where
  rel := Prolongs stop
  pure a := Prolongs.refl (pure a)
  bind := Prolongs.bind

end Acfqp.Library
