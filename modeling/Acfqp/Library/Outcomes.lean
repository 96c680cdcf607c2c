import Acfqp.Library.Loops

/-!
# What a checked computation ends in

A computation yields a postcondition when it returns a value that satisfies it, or raises one of the
allowed exceptions. Sequencing and loops compose such statements.
-/

namespace Acfqp.Library

variable {ε α β : Type}

/-- The computation returns a value with `P`, or raises an exception with `E`. -/
def Yields (E : ε → Prop) (P : α → Prop) : Except ε α → Prop
  | .ok a => P a
  | .error e => E e

namespace Yields

variable {E : ε → Prop} {P Q : α → Prop} {x : Except ε α}

theorem of_ok {a : α} (h : x = .ok a) (ha : P a) : Yields E P x := by
  subst h
  exact ha

theorem post {a : α} (hx : Yields E P x) (h : x = .ok a) : P a := by
  subst h
  exact hx

theorem raised {e : ε} (hx : Yields E P x) (h : x = .error e) : E e := by
  subst h
  exact hx

theorem mono (hx : Yields E P x) (h : ∀ a, P a → Q a) : Yields E Q x := by
  cases x with
  | ok a => exact h a hx
  | error e => exact hx

/-- The value is what the computation returned. -/
theorem and_eq (hx : Yields E P x) : Yields E (fun a => P a ∧ x = .ok a) x := by
  cases x with
  | ok a => exact ⟨hx, rfl⟩
  | error e => exact hx

theorem bind {R : β → Prop} {f : α → Except ε β} (hx : Yields E P x)
    (hf : ∀ a, P a → Yields E R (f a)) : Yields E R (x >>= f) := by
  cases x with
  | ok a => exact hf a hx
  | error e => exact hx

theorem check {p : Prop} [Decidable p] {e : ε} (he : E e) :
    Yields E (fun _ => p) (require p e) := by
  unfold require
  split
  · assumption
  · exact he

theorem mapM {R : α → β → Prop} {f : α → Except ε β} {l : List α}
    (h : ∀ a ∈ l, Yields E (R a) (f a)) : Yields E (List.Forall₂ R l) (l.mapM f) := by
  induction l with
  | nil => exact List.Forall₂.nil
  | cons a l ih =>
    rw [List.mapM_cons]
    refine (h a List.mem_cons_self).bind fun b hb => ?_
    refine (ih fun c hc => h c (List.mem_cons_of_mem a hc)).bind fun bs hbs => ?_
    exact List.Forall₂.cons hb hbs

/-- What each element preserves of a prefix of the list holds of the whole list. -/
theorem foldlM {f : β → α → Except ε β} {I : List α → β → Prop} {l : List α} {b : β} (hb : I [] b)
    (hstep : ∀ done a rest b, l = done ++ a :: rest → I done b →
      Yields E (I (done ++ [a])) (f b a)) : Yields E (I l) (l.foldlM f b) := by
  suffices hall : ∀ rest done b, l = done ++ rest → I done b → Yields E (I l) (rest.foldlM f b) from
    hall l [] b rfl hb
  intro rest
  induction rest with
  | nil =>
    intro done b hl hI
    rw [hl, List.append_nil]
    exact hI
  | cons a rest ih =>
    intro done b hl hI
    rw [List.foldlM_cons]
    exact (hstep done a rest b hl hI).bind fun c hc => ih (done ++ [a]) c (by simp [hl]) hc

/-- The results of distinct elements are distinct, when a result tells its element. -/
theorem nodup_of_forall₂ {κ : Type} {R : α → β → Prop} {key : β → κ} {l : List α} {ys : List β}
    (h : List.Forall₂ R l ys) (hl : l.Nodup)
    (hkey : ∀ a ∈ l, ∀ a' ∈ l, ∀ b b', R a b → R a' b' → key b = key b' → a = a') :
    (ys.map key).Nodup := by
  induction h with
  | nil => exact List.nodup_nil
  | @cons a b l ys hab hrest ih =>
    rw [List.nodup_cons] at hl
    rw [List.map_cons, List.nodup_cons]
    refine ⟨fun hmem => ?_, ih hl.2 fun a ha a' ha' =>
      hkey a (List.mem_cons_of_mem _ ha) a' (List.mem_cons_of_mem _ ha')⟩
    obtain ⟨b', hb', heq⟩ := List.mem_map.mp hmem
    obtain ⟨a', ha', hab'⟩ := exists_mem_of_forall₂ hrest.flip hb'
    obtain rfl := hkey a List.mem_cons_self a' (List.mem_cons_of_mem _ ha') b b' hab hab' heq.symm
    exact hl.1 ha'

/-- Where no exception is allowed, the computation returns. -/
theorem returns (hx : Yields (fun _ : ε => False) P x) : ∃ a, x = .ok a ∧ P a := by
  cases x with
  | ok a => exact ⟨a, rfl, hx⟩
  | error e => exact hx.elim

end Yields

theorem Raises.mapM {P : ε → Prop} {f : α → Except ε β} {l : List α}
    (h : ∀ a ∈ l, Raises P (f a)) : Raises P (l.mapM f) := by
  induction l with
  | nil => exact Raises.pure
  | cons a l ih =>
    rw [List.mapM_cons]
    exact (h a List.mem_cons_self).bind fun _ _ =>
      (ih fun b hb => h b (List.mem_cons_of_mem _ hb)).bind fun _ _ => Raises.pure

theorem Raises.forFresh {κ : Type} [DecidableEq κ] {P : ε → Prop} {key : α → κ}
    {before after : α → Except ε Unit} {duplicate : ε} {seen : List κ} {l : List α}
    (hduplicate : P duplicate) (hbefore : ∀ a ∈ l, Raises P (before a))
    (hafter : ∀ a ∈ l, Raises P (after a)) :
    Raises P (forFresh key before duplicate after seen l) := by
  induction l generalizing seen with
  | nil => exact Raises.pure
  | cons a l ih =>
    exact (hbefore a List.mem_cons_self).bind fun _ _ => (Raises.require hduplicate).bind fun _ _ =>
      (hafter a List.mem_cons_self).bind fun _ _ =>
        ih (fun b hb => hbefore b (List.mem_cons_of_mem _ hb))
          fun b hb => hafter b (List.mem_cons_of_mem _ hb)

/-- A loop whose every step returns. -/
theorem exists_mapM {R : α → β → Prop} {f : α → Except ε β} {l : List α}
    (h : ∀ a ∈ l, ∃ b, f a = .ok b ∧ R a b) :
    ∃ bs, l.mapM f = .ok bs ∧ List.Forall₂ R l bs := by
  refine Yields.returns (Yields.mapM fun a ha => ?_)
  obtain ⟨b, hb, hR⟩ := h a ha
  exact Yields.of_ok hb hR

end Acfqp.Library
