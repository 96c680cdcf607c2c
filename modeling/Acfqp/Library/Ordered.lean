import Acfqp.Library.Checked

/-!
# Sorting by a key

Stable sorting by a key, and the extrema of a list through `List.min?` and `List.max?`.
-/

namespace Acfqp.Library

variable {α κ M : Type} [LinearOrder κ]

/-- Sort by a key; elements of equal keys keep their order. -/
def sortBy (key : α → κ) (l : List α) : List α :=
  l.insertionSort fun a b => key a ≤ key b

theorem perm_sortBy (key : α → κ) (l : List α) : (sortBy key l).Perm l :=
  List.perm_insertionSort _ l

@[simp] theorem mem_sortBy {key : α → κ} {l : List α} {a : α} : a ∈ sortBy key l ↔ a ∈ l :=
  (perm_sortBy key l).mem_iff

@[simp] theorem length_sortBy (key : α → κ) (l : List α) : (sortBy key l).length = l.length :=
  (perm_sortBy key l).length_eq

@[simp] theorem sortBy_eq_nil {key : α → κ} {l : List α} : sortBy key l = [] ↔ l = [] := by
  rw [← List.length_eq_zero_iff, length_sortBy, List.length_eq_zero_iff]

theorem sum_map_sortBy [AddCommMonoid M] (key : α → κ) (l : List α) (f : α → M) :
    ((sortBy key l).map f).sum = (l.map f).sum :=
  ((perm_sortBy key l).map f).sum_eq

theorem nodup_map_sortBy {β : Type} {key : α → κ} {l : List α} {f : α → β}
    (h : (l.map f).Nodup) : ((sortBy key l).map f).Nodup :=
  ((perm_sortBy key l).map f).nodup_iff.mpr h

theorem pairwise_sortBy (key : α → κ) (l : List α) :
    (sortBy key l).Pairwise fun a b => key a ≤ key b := by
  have : Std.Total fun a b : α => key a ≤ key b := ⟨fun a b => le_total _ _⟩
  have : IsTrans α fun a b => key a ≤ key b := ⟨fun _ _ _ => le_trans⟩
  exact List.pairwise_insertionSort _ l

theorem sortBy_sortBy (key : α → κ) (l : List α) : sortBy key (sortBy key l) = sortBy key l :=
  (pairwise_sortBy key l).insertionSort_eq

theorem map_sortBy {β : Type} {key : α → κ} {key' : β → κ} {f : α → β}
    (h : ∀ a, key' (f a) = key a) (l : List α) :
    (sortBy key l).map f = sortBy key' (l.map f) :=
  List.map_insertionSort _ _ f l fun a _ b _ => by simp [h]

/-- Sorting by distinct keys forgets the order before it. -/
theorem sortBy_eq_of_perm {key : α → κ} {l l' : List α} (h : l.Perm l')
    (hkeys : (l.map key).Nodup) : sortBy key l = sortBy key l' := by
  have hanti : ∀ a b, a ∈ sortBy key l → b ∈ sortBy key l' → key a ≤ key b → key b ≤ key a →
      a = b := by
    intro a b ha hb hab hba
    exact List.inj_on_of_nodup_map hkeys (mem_sortBy.mp ha) (h.mem_iff.mpr (mem_sortBy.mp hb))
      (le_antisymm hab hba)
  exact List.Perm.eq_of_pairwise hanti (pairwise_sortBy key l) (pairwise_sortBy key l')
    (((perm_sortBy key l).trans h).trans (perm_sortBy key l').symm)

/-- Lists of one length keep their order when something is appended to them. -/
theorem append_lt_append {l l' : List κ} (hlength : l.length = l'.length) (h : l < l')
    (rest : List κ) : l ++ rest < l' ++ rest := by
  induction l generalizing l' with
  | nil =>
    obtain rfl := List.length_eq_zero_iff.mp hlength.symm
    exact absurd h (lt_irrefl _)
  | cons a l ih =>
    cases l' with
    | nil => simp at hlength
    | cons b l' =>
      rw [List.cons_lt_cons_iff] at h
      rw [List.cons_append, List.cons_append, List.cons_lt_cons_iff]
      exact h.imp_right fun h => ⟨h.1, ih (by simpa using hlength) h.2⟩

section Extrema

variable {lo hi x : κ} {l : List κ}

theorem min?_le (h : l.min? = some lo) (hx : x ∈ l) : lo ≤ x :=
  (List.min?_eq_some_iff.mp h).2 x hx

theorem le_max? (h : l.max? = some hi) (hx : x ∈ l) : x ≤ hi :=
  (List.max?_eq_some_iff.mp h).2 x hx

theorem min?_mem (h : l.min? = some lo) : lo ∈ l := (List.min?_eq_some_iff.mp h).1

theorem max?_mem (h : l.max? = some hi) : hi ∈ l := (List.max?_eq_some_iff.mp h).1

end Extrema

end Acfqp.Library
