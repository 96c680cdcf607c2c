import Mathlib

/-!
# Checked computations

A checked computation returns a value or raises. `Except` models the pure ones and
`StateT σ (Except ε)` those that also carry a local state such as a memo table; an `OptionT`
layer adds an early exit with no result. `Computes` says that the local state is only a
convenience: the stateful run returns and raises exactly what a pure computation does.
-/

namespace Acfqp.Library

variable {ε σ α β γ : Type}

/-! ## Lawful comparisons -/

instance lawfulBEq_linear [LinearOrder α] : LawfulBEq α := inferInstance

instance lawfulBEq_pair [DecidableEq α] [DecidableEq β] : LawfulBEq (α × β) := inferInstance

instance lawfulBEq_triple [DecidableEq α] [DecidableEq β] [DecidableEq γ] :
    LawfulBEq (α × β × γ) := inferInstance

/-! ## Computations without state -/

/-- Raise `e` unless `p` holds. -/
def require (p : Prop) [Decidable p] (e : ε) : Except ε Unit :=
  if p then .ok () else .error e

@[simp] theorem require_eq_ok {p : Prop} [Decidable p] {e : ε} {u : Unit} :
    require p e = .ok u ↔ p := by
  unfold require; split <;> simp_all

/-- The value of an optional lookup, or the exception of its failure. -/
def orRaise (x : Option α) (e : ε) : Except ε α :=
  match x with
  | some a => .ok a
  | none => .error e

@[simp] theorem orRaise_eq_ok {x : Option α} {e : ε} {a : α} :
    orRaise x e = .ok a ↔ x = some a := by
  cases x <;> simp [orRaise]

theorem bind_eq_ok {x : Except ε α} {f : α → Except ε β} {b : β} :
    (x >>= f) = .ok b ↔ ∃ a, x = .ok a ∧ f a = .ok b := by
  cases x with
  | error e => simp [bind, Except.bind]
  | ok a => simp [bind, Except.bind]

theorem bind_of_ok {x : Except ε α} {f : α → Except ε β} {a : α} (h : x = .ok a) :
    (x >>= f) = f a := by
  subst h
  rfl

theorem map_eq_ok {x : Except ε α} {f : α → β} {b : β} :
    (f <$> x) = .ok b ↔ ∃ a, x = .ok a ∧ f a = b := by
  cases x with
  | error e => simp [Functor.map, Except.map]
  | ok a => simp [Functor.map, Except.map]

@[simp] theorem pure_eq_ok {a b : α} : (pure a : Except ε α) = .ok b ↔ a = b := by
  simp [pure, Except.pure]

/-- Every exception of the computation satisfies `P`. -/
def Raises (P : ε → Prop) (x : Except ε α) : Prop := ∀ e, x = .error e → P e

namespace Raises

variable {P : ε → Prop}

theorem pure {a : α} : Raises P (.ok a) := by
  rintro e ⟨⟩

theorem throw {e : ε} (h : P e) : Raises P (.error e : Except ε α) := by
  rintro _ ⟨⟩
  exact h

theorem require {p : Prop} [Decidable p] {e : ε} (h : P e) : Raises P (require p e) := by
  unfold Library.require
  split
  · exact pure
  · exact throw h

theorem orRaise {x : Option α} {e : ε} (h : P e) : Raises P (orRaise x e) := by
  cases x with
  | none => exact throw h
  | some a => exact pure

theorem bind {x : Except ε α} {f : α → Except ε β} (hx : Raises P x)
    (hf : ∀ a, x = .ok a → Raises P (f a)) : Raises P (x >>= f) := by
  cases x with
  | error e => exact throw (hx e rfl)
  | ok a => exact hf a rfl

theorem forM {f : α → Except ε Unit} {l : List α} (h : ∀ x ∈ l, Raises P (f x)) :
    Raises P (l.forM f) := by
  induction l with
  | nil => exact pure
  | cons x rest ih =>
    exact bind (h x List.mem_cons_self) fun _ _ => ih fun y hy => h y (List.mem_cons_of_mem _ hy)

end Raises

theorem exists_mem_of_forall₂ {R : α → β → Prop} {l : List α} {ys : List β}
    (h : List.Forall₂ R l ys) {x : α} (hx : x ∈ l) : ∃ y ∈ ys, R x y := by
  induction h with
  | nil => simp at hx
  | cons hy _ ih =>
    rcases List.mem_cons.mp hx with rfl | hx
    · exact ⟨_, by simp, hy⟩
    · obtain ⟨y, hm, hy⟩ := ih hx
      exact ⟨y, by simp [hm], hy⟩

theorem map_of_forall₂ {R : α → β → Prop} {l : List α} {ys : List β} {g : β → γ} {k : α → γ}
    (h : List.Forall₂ R l ys) (hg : ∀ x ∈ l, ∀ y, R x y → g y = k x) : ys.map g = l.map k := by
  induction h with
  | nil => rfl
  | cons hy _ ih =>
    simp only [List.map_cons, List.cons.injEq]
    exact ⟨hg _ (by simp) _ hy, ih fun x hx => hg x (by simp [hx])⟩

theorem exists_of_isOk {x : Except ε α} (h : x.isOk = true) : ∃ a, x = .ok a := by
  cases x with
  | error e => simp [Except.isOk, Except.toBool] at h
  | ok a => exact ⟨a, rfl⟩

/-- Two computations with the same first step look the same when their rests do. -/
theorem map_bind_congr {x : Except ε α} {f g : α → Except ε β} {k : β → γ}
    (h : ∀ a, x = .ok a → (f a).map k = (g a).map k) : (x >>= f).map k = (x >>= g).map k := by
  cases x with
  | error e => rfl
  | ok a => exact h a rfl

/-- A loop over a list returns exactly when every iteration does. -/
theorem mapM_eq_ok {f : α → Except ε β} {l : List α} {ys : List β} :
    l.mapM f = .ok ys ↔ List.Forall₂ (fun x y => f x = .ok y) l ys := by
  induction l generalizing ys with
  | nil => simp [pure, Except.pure, eq_comm]
  | cons x l ih =>
    rw [List.mapM_cons, bind_eq_ok]
    constructor
    · rintro ⟨y, hy, h⟩
      obtain ⟨zs, hzs, h⟩ := bind_eq_ok.mp h
      rw [← pure_eq_ok.mp h]
      exact .cons hy (ih.mp hzs)
    · intro h
      cases h with
      | cons hy hzs => exact ⟨_, hy, bind_eq_ok.mpr ⟨_, ih.mpr hzs, rfl⟩⟩

/-- What a loop collects, read through `g`, is what each element contributes. -/
theorem map_of_mapM {f : α → Except ε β} {l : List α} {ys : List β} {g : β → γ} {k : α → γ}
    (h : l.mapM f = .ok ys) (hg : ∀ x ∈ l, ∀ y, f x = .ok y → g y = k x) :
    ys.map g = l.map k :=
  map_of_forall₂ (mapM_eq_ok.mp h) hg

/-- A total of what a loop collects is at most a total over its elements, term by term. -/
theorem sum_le_of_mapM {M : Type} [AddCommMonoid M] [PartialOrder M] [IsOrderedAddMonoid M]
    {f : α → Except ε β} {l : List α} {ys : List β} {g : β → M} {k : α → M}
    (h : l.mapM f = .ok ys) (hg : ∀ x ∈ l, ∀ y ∈ ys, f x = .ok y → g y ≤ k x) :
    (ys.map g).sum ≤ (l.map k).sum := by
  rw [mapM_eq_ok] at h
  induction h with
  | nil => simp
  | cons hy _ ih =>
    simp only [List.map_cons, List.sum_cons]
    exact add_le_add (hg _ (by simp) _ (by simp) hy)
      (ih fun x hx y hy => hg x (by simp [hx]) y (by simp [hy]))

theorem le_sum_of_mapM {M : Type} [AddCommMonoid M] [PartialOrder M] [IsOrderedAddMonoid M]
    {f : α → Except ε β} {l : List α} {ys : List β} {g : β → M} {k : α → M}
    (h : l.mapM f = .ok ys) (hg : ∀ x ∈ l, ∀ y ∈ ys, f x = .ok y → k x ≤ g y) :
    (l.map k).sum ≤ (ys.map g).sum :=
  sum_le_of_mapM (M := Mᵒᵈ) h hg

theorem mem_of_mapM {f : α → Except ε β} {l : List α} {ys : List β} (h : l.mapM f = .ok ys)
    {y : β} (hy : y ∈ ys) : ∃ x ∈ l, f x = .ok y :=
  exists_mem_of_forall₂ (mapM_eq_ok.mp h).flip hy

theorem exists_of_mapM {f : α → Except ε β} {l : List α} {ys : List β} (h : l.mapM f = .ok ys)
    {x : α} (hx : x ∈ l) : ∃ y ∈ ys, f x = .ok y :=
  exists_mem_of_forall₂ (mapM_eq_ok.mp h) hx

theorem mapM_of_forall {f : α → Except ε β} {g : α → β} {l : List α}
    (h : ∀ x ∈ l, f x = .ok (g x)) : l.mapM f = .ok (l.map g) := by
  rw [mapM_eq_ok]
  induction l with
  | nil => exact .nil
  | cons x l ih => exact .cons (h x (by simp)) (ih fun y hy => h y (by simp [hy]))

theorem mapM_congr {f g : α → Except ε β} {l : List α} (h : ∀ x ∈ l, f x = g x) :
    l.mapM f = l.mapM g := by
  induction l with
  | nil => rfl
  | cons x l ih =>
    rw [List.mapM_cons, List.mapM_cons, h x (by simp), ih fun y hy => h y (by simp [hy])]

/-- Two loops, one over what the other collects, are one loop. -/
theorem mapM_of_mapM {f : α → Except ε β} {g : β → Except ε γ} {l : List α} {ys : List β}
    (h : l.mapM f = .ok ys) : (l.mapM fun x => f x >>= g) = ys.mapM g := by
  rw [mapM_eq_ok] at h
  induction h with
  | nil => rfl
  | cons hy _ ih =>
    rw [List.mapM_cons, List.mapM_cons, hy, ih]
    rfl

theorem mapM_append_singleton {f : α → Except ε β} {l : List α} {a : α} {ys : List β} :
    (l ++ [a]).mapM f = .ok ys ↔ ∃ zs y, l.mapM f = .ok zs ∧ f a = .ok y ∧ ys = zs ++ [y] := by
  rw [List.mapM_append]
  constructor
  · intro h
    obtain ⟨zs, hzs, h⟩ := bind_eq_ok.mp h
    obtain ⟨last, hlast, h⟩ := bind_eq_ok.mp h
    obtain ⟨y, hy, hlast⟩ := bind_eq_ok.mp hlast
    obtain rfl := pure_eq_ok.mp hlast
    exact ⟨zs, y, hzs, hy, (pure_eq_ok.mp h).symm⟩
  · rintro ⟨zs, y, hzs, hy, rfl⟩
    simp [hzs, hy, bind, Except.bind, pure, Except.pure]

theorem mapM_returns {f : α → Except ε β} {l : List α} (h : ∀ x ∈ l, ∃ y, f x = .ok y) :
    ∃ ys, l.mapM f = .ok ys := by
  induction l with
  | nil => exact ⟨[], rfl⟩
  | cons x l ih =>
    obtain ⟨y, hy⟩ := h x (by simp)
    obtain ⟨ys, hys⟩ := ih fun z hz => h z (by simp [hz])
    exact ⟨y :: ys, mapM_eq_ok.mpr (.cons hy (mapM_eq_ok.mp hys))⟩

/-- A loop of checks returns only when every check does. -/
theorem forM_eq_ok {f : α → Except ε Unit} {l : List α} {u : Unit} (h : l.forM f = .ok u) :
    ∀ x ∈ l, f x = .ok () := by
  induction l with
  | nil => simp
  | cons x l ih =>
    obtain ⟨⟨⟩, hx, h⟩ := bind_eq_ok.mp (show (f x >>= fun _ => l.forM f) = .ok u from h)
    intro y hy
    rcases List.mem_cons.mp hy with rfl | hy
    · exact hx
    · exact ih h y hy

theorem forM_of_forall {f : α → Except ε Unit} {l : List α} (h : ∀ x ∈ l, f x = .ok ()) :
    l.forM f = .ok () := by
  induction l with
  | nil => rfl
  | cons x l ih =>
    have hrest := ih fun y hy => h y (by simp [hy])
    exact bind_eq_ok.mpr ⟨(), h x (by simp), hrest⟩

/-- A loop returns when every iteration does. -/
theorem foldlM_returns {f : β → α → Except ε β} {l : List α} (b : β)
    (h : ∀ b, ∀ a ∈ l, ∃ c, f b a = .ok c) : ∃ c, l.foldlM f b = .ok c := by
  induction l generalizing b with
  | nil => exact ⟨b, rfl⟩
  | cons a l ih =>
    obtain ⟨c, hc⟩ := h b a (by simp)
    obtain ⟨d, hd⟩ := ih c fun b x hx => h b x (by simp [hx])
    exact ⟨d, by rw [List.foldlM_cons, hc]; exact hd⟩

theorem foldlM_invariant {f : β → α → Except ε β} {l : List α} {P : β → Prop} {b c : β}
    (hstep : ∀ b, P b → ∀ a ∈ l, ∀ b', f b a = .ok b' → P b') (hb : P b)
    (h : l.foldlM f b = .ok c) : P c := by
  induction l generalizing b with
  | nil => simpa [← pure_eq_ok.mp h] using hb
  | cons a l ih =>
    rw [List.foldlM_cons, bind_eq_ok] at h
    obtain ⟨b', hb', h⟩ := h
    exact ih (fun b hb a ha => hstep b hb a (by simp [ha])) (hstep b hb a (by simp) b' hb') h

/-- The states between the iterations of a loop. -/
theorem foldlM_states {f : β → α → Except ε β} {l : List α} {b c : β}
    (h : l.foldlM f b = .ok c) : ∃ st : ℕ → β, st 0 = b ∧ st l.length = c ∧
      ∀ i (hi : i < l.length), f (st i) l[i] = .ok (st (i + 1)) := by
  induction l generalizing b with
  | nil => exact ⟨fun _ => b, rfl, by simp [← pure_eq_ok.mp h], by simp⟩
  | cons a l ih =>
    rw [List.foldlM_cons, bind_eq_ok] at h
    obtain ⟨b', hb', h⟩ := h
    obtain ⟨st, hfirst, hlast, hstep⟩ := ih h
    refine ⟨fun i => i.casesOn b st, rfl, hlast, fun i hi => ?_⟩
    cases i with
    | zero => simpa [hfirst] using hb'
    | succ i => exact hstep i (by simpa using hi)

theorem foldlM_of_states {f : β → α → Except ε β} {l : List α} (st : ℕ → β)
    (h : ∀ i (hi : i < l.length), f (st i) l[i] = .ok (st (i + 1))) :
    l.foldlM f (st 0) = .ok (st l.length) := by
  induction l generalizing st with
  | nil => rfl
  | cons a l ih =>
    rw [List.foldlM_cons, bind_eq_ok]
    refine ⟨st 1, h 0 (by simp), ?_⟩
    have hrest := ih (fun i => st (i + 1)) fun i hi => h (i + 1) (by simpa using hi)
    simpa using hrest

/-! Early exits: an `OptionT` layer stops at the first missing value. -/

theorem optionBind_eq_some {x : OptionT (Except ε) α} {f : α → OptionT (Except ε) β} {b : β} :
    (x >>= f).run = .ok (some b) ↔ ∃ a, x.run = .ok (some a) ∧ (f a).run = .ok (some b) := by
  rw [OptionT.run_bind, Option.elimM, bind_eq_ok]
  constructor
  · rintro ⟨o, hx, h⟩
    cases o with
    | none => simp [pure, Except.pure] at h
    | some a => exact ⟨a, hx, h⟩
  · rintro ⟨a, hx, h⟩
    exact ⟨some a, hx, h⟩

@[simp] theorem optionPure_eq_some {a b : α} :
    (pure a : OptionT (Except ε) α).run = .ok (some b) ↔ a = b := by
  simp [OptionT.run_pure]

@[simp] theorem optionLift_eq_some {x : Except ε α} {a : α} :
    (liftM x : OptionT (Except ε) α).run = .ok (some a) ↔ x = .ok a := by
  rw [show (liftM x : OptionT (Except ε) α).run = some <$> x from rfl, map_eq_ok]
  simp

theorem optionMapM_eq_some {f : α → OptionT (Except ε) β} {l : List α} {ys : List β} :
    (l.mapM f).run = .ok (some ys) ↔ List.Forall₂ (fun x y => (f x).run = .ok (some y)) l ys := by
  induction l generalizing ys with
  | nil =>
    rw [List.mapM_nil, optionPure_eq_some]
    simp [eq_comm]
  | cons x l ih =>
    rw [List.mapM_cons, optionBind_eq_some]
    constructor
    · rintro ⟨y, hy, h⟩
      obtain ⟨zs, hzs, h⟩ := optionBind_eq_some.mp h
      rw [← optionPure_eq_some.mp h]
      exact .cons hy (ih.mp hzs)
    · intro h
      cases h with
      | cons hy hzs => exact ⟨_, hy, optionBind_eq_some.mpr ⟨_, ih.mpr hzs, by simp⟩⟩

/-! ## Computations with a local state -/

/-- From every state satisfying `I`, the run of `m` returns or raises what `x` does and leaves
a state satisfying `I`. -/
def Computes (I : σ → Prop) (m : StateT σ (Except ε) α) (x : Except ε α) : Prop :=
  ∀ s, I s → ∃ s', I s' ∧ m s = x.map fun a => (a, s')

namespace Computes

variable {I : σ → Prop} {a : α} {m : StateT σ (Except ε) α} {x : Except ε α}

/-- What a run from a good initial state leaves behind. -/
theorem run' (h : Computes I m x) {s : σ} (hs : I s) : m.run' s = x := by
  obtain ⟨s', -, h⟩ := h s hs
  rw [StateT.run', h]
  cases x <;> rfl

/-- What a returning run returned. -/
theorem eq_ok (h : Computes I m x) {s t : σ} (hs : I s) (hrun : m s = .ok (a, t)) :
    x = .ok a ∧ I t := by
  obtain ⟨s', hs', h⟩ := h s hs
  rw [h] at hrun
  cases x with
  | error e => cases hrun
  | ok b =>
    cases hrun
    exact ⟨rfl, hs'⟩

theorem pure : Computes (ε := ε) I (Pure.pure a) (.ok a) := fun s hs => ⟨s, hs, rfl⟩

theorem bind {f : α → StateT σ (Except ε) β} {g : α → Except ε β}
    (hm : Computes I m x) (hf : ∀ a, x = .ok a → Computes I (f a) (g a)) :
    Computes I (m >>= f) (x >>= g) := by
  intro s hs
  obtain ⟨t, ht, hrun⟩ := hm s hs
  have hbind : (m >>= f) s = m s >>= fun p => f p.1 p.2 := rfl
  cases x with
  | error e => exact ⟨s, hs, by rw [hbind, hrun]; rfl⟩
  | ok a =>
    obtain ⟨u, hu, hrun'⟩ := hf a rfl t ht
    exact ⟨u, hu, by rw [hbind, hrun]; exact hrun'⟩

theorem lift : Computes I (liftM x : StateT σ (Except ε) α) x := by
  intro s hs
  refine ⟨s, hs, ?_⟩
  cases x <;> rfl

theorem update {f : σ → σ} (h : ∀ s, I s → I (f s)) :
    Computes (ε := ε) I (modify f : StateT σ (Except ε) PUnit) (.ok ⟨⟩) :=
  fun s hs => ⟨f s, h s hs, rfl⟩

theorem mapM {f : α → StateT σ (Except ε) β} {g : α → Except ε β} {l : List α}
    (h : ∀ x ∈ l, Computes I (f x) (g x)) : Computes I (l.mapM f) (l.mapM g) := by
  induction l with
  | nil => exact .pure
  | cons x l ih =>
    rw [List.mapM_cons, List.mapM_cons]
    refine .bind (h x (by simp)) fun y _ => ?_
    exact .bind (ih fun z hz => h z (by simp [hz])) fun ys _ => .pure

theorem foldlM {f : β → α → StateT σ (Except ε) β} {g : β → α → Except ε β} {l : List α} {b : β}
    (h : ∀ b, ∀ a ∈ l, Computes I (f b a) (g b a)) :
    Computes I (l.foldlM f b) (l.foldlM g b) := by
  induction l generalizing b with
  | nil => exact .pure
  | cons a l ih =>
    rw [List.foldlM_cons, List.foldlM_cons]
    exact .bind (h b a (by simp)) fun c _ => ih fun d x hx => h d x (by simp [hx])

theorem optionBind {m : OptionT (StateT σ (Except ε)) α} {x : OptionT (Except ε) α}
    {f : α → OptionT (StateT σ (Except ε)) β} {g : α → OptionT (Except ε) β}
    (hm : Computes I m.run x.run)
    (hf : ∀ a, x.run = .ok (some a) → Computes I (f a).run (g a).run) :
    Computes I (m >>= f).run (x >>= g).run := by
  rw [OptionT.run_bind, OptionT.run_bind]
  refine .bind hm fun o ho => ?_
  cases o with
  | none => exact .pure
  | some a => exact hf a ho

theorem optionMapM {f : α → OptionT (StateT σ (Except ε)) β} {g : α → OptionT (Except ε) β}
    {l : List α} (h : ∀ x ∈ l, Computes I (f x).run (g x).run) :
    Computes I (l.mapM f).run (l.mapM g).run := by
  induction l with
  | nil => exact .pure
  | cons x l ih =>
    rw [List.mapM_cons, List.mapM_cons]
    refine .optionBind (h x (by simp)) fun y _ => ?_
    exact .optionBind (ih fun z hz => h z (by simp [hz])) fun ys _ => .pure

theorem optionLift (hm : Computes I m x) :
    Computes I (liftM m : OptionT (StateT σ (Except ε)) α).run
      (liftM x : OptionT (Except ε) α).run :=
  .bind hm fun _ _ => .pure

end Computes

/-- Runs from states that look the same return or raise the same, and leave states that look the
same. -/
def Alike {τ : Type} (look : σ → τ) (m m' : StateT σ (Except ε) α) : Prop :=
  ∀ s s', look s = look s' → (m s).map (Prod.map id look) = (m' s').map (Prod.map id look)

namespace Alike

variable {τ : Type} {look : σ → τ} {m m' : StateT σ (Except ε) α}

/-- Alike runs can be followed by anything that reads their states alike. -/
theorem map_bind_congr (h : Alike look m m') {f f' : α × σ → Except ε β} {k : β → γ} {s : σ}
    (hf : ∀ a t t', look t = look t' → (f (a, t)).map k = (f' (a, t')).map k) :
    (m s >>= f).map k = (m' s >>= f').map k := by
  have hrun := h s s rfl
  cases hx : m s <;> cases hx' : m' s <;> rw [hx, hx'] at hrun
  · exact congrArg Except.error (Except.error.inj hrun)
  · cases hrun
  · cases hrun
  · rename_i p p'
    obtain ⟨a, t⟩ := p
    obtain ⟨a', t'⟩ := p'
    obtain ⟨rfl, ht⟩ : a = a' ∧ look t = look t' := by simpa using Except.ok.inj hrun
    exact hf a t t' ht

theorem pure {a : α} : Alike (ε := ε) look (Pure.pure a) (Pure.pure a) := fun _ _ h =>
  congrArg (fun t => Except.ok (a, t)) h

theorem bind {f f' : α → StateT σ (Except ε) β} (hm : Alike look m m')
    (hf : ∀ a, Alike look (f a) (f' a)) : Alike look (m >>= f) (m' >>= f') := by
  intro s s' h
  have hrun := hm s s' h
  have hbind : ∀ (m : StateT σ (Except ε) α) (f : α → StateT σ (Except ε) β) s,
      (m >>= f) s = m s >>= fun p => f p.1 p.2 := fun _ _ _ => rfl
  rw [hbind, hbind]
  cases hx : m s <;> cases hx' : m' s' <;> rw [hx, hx'] at hrun
  · exact congrArg Except.error (Except.error.inj hrun)
  · cases hrun
  · cases hrun
  · rename_i p p'
    obtain ⟨a, t⟩ := p
    obtain ⟨a', t'⟩ := p'
    obtain ⟨rfl, ht⟩ : a = a' ∧ look t = look t' := by simpa using Except.ok.inj hrun
    exact hf a t t' ht

theorem lift {x : Except ε α} : Alike look (liftM x : StateT σ (Except ε) α) (liftM x) := by
  intro s s' h
  cases x with
  | error e => rfl
  | ok a => exact congrArg (fun t => Except.ok (a, t)) h

theorem update {f f' : σ → σ} (h : ∀ s s', look s = look s' → look (f s) = look (f' s')) :
    Alike (ε := ε) look (modify f : StateT σ (Except ε) PUnit) (modify f') := fun s s' hs =>
  congrArg (fun t => Except.ok (PUnit.unit, t)) (h s s' hs)

theorem mapM {f f' : α → StateT σ (Except ε) β} {l : List α} (h : ∀ x, Alike look (f x) (f' x)) :
    Alike look (l.mapM f) (l.mapM f') := by
  induction l with
  | nil => exact .pure
  | cons x l ih =>
    rw [List.mapM_cons, List.mapM_cons]
    exact .bind (h x) fun y => .bind ih fun ys => .pure

theorem optionBind {m m' : OptionT (StateT σ (Except ε)) α}
    {f f' : α → OptionT (StateT σ (Except ε)) β} (hm : Alike look m.run m'.run)
    (hf : ∀ a, Alike look (f a).run (f' a).run) : Alike look (m >>= f).run (m' >>= f').run := by
  rw [OptionT.run_bind, OptionT.run_bind]
  refine .bind hm fun o => ?_
  cases o with
  | none => exact .pure
  | some a => exact hf a

theorem optionMapM {f f' : α → OptionT (StateT σ (Except ε)) β} {l : List α}
    (h : ∀ x, Alike look (f x).run (f' x).run) : Alike look (l.mapM f).run (l.mapM f').run := by
  induction l with
  | nil => exact .pure
  | cons x l ih =>
    rw [List.mapM_cons, List.mapM_cons]
    exact .optionBind (h x) fun y => .optionBind ih fun ys => .pure

end Alike

end Acfqp.Library
