import Acfqp.Library.Dict

/-!
# Pareto frontiers

The frontier of a set of values, in any partial order, is the set of its maximal elements; a
set of candidates is only worth its frontier when every candidate lies below a maximal one.
Frontiers compose: translating and taking unions may prune the parts first. `cartesian` lists
the tuples of a family of lists.
-/

namespace Acfqp.Library

/-! ## Frontiers in a partial order -/

section

variable {α : Type} [PartialOrder α] {F V : Set α}

/-- `F` consists of values in `V`, lies above all of `V`, and nothing in `V` is above it. -/
structure Frontier (F V : Set α) : Prop where
  subset : F ⊆ V
  covers : ∀ v ∈ V, ∃ f ∈ F, v ≤ f
  maximal : ∀ f ∈ F, ∀ v ∈ V, f ≤ v → v = f

theorem frontier_of_list (l : List α) : Frontier {x | x ∈ l ∧ ∀ y ∈ l, ¬ x < y} {x | x ∈ l} where
  subset _ hx := hx.1
  covers v hv := by
    obtain ⟨m, hvm, hm⟩ := (List.finite_toSet l).exists_le_maximal hv
    exact ⟨m, ⟨hm.1, fun y hy hlt => (hm.2 hy hlt.le).not_gt hlt⟩, hvm⟩
  maximal f hf v hv hle := by
    by_contra hne
    exact hf.2 v hv (lt_of_le_of_ne hle (Ne.symm hne))

end

section Cartesian

variable {α : Type}

/-- All ways to pick one element of every list, the last pick varying fastest. -/
def cartesian : List (List α) → List (List α)
  | [] => [[]]
  | l :: ls => l.flatMap fun x => (cartesian ls).map fun xs => x :: xs

theorem mem_cartesian {ls : List (List α)} {xs : List α} :
    xs ∈ cartesian ls ↔ List.Forall₂ (fun x l => x ∈ l) xs ls := by
  induction ls generalizing xs with
  | nil => simp [cartesian]
  | cons l ls ih =>
    cases xs with
    | nil => simp [cartesian]
    | cons x xs => simp [cartesian, ih]

/-- What can be picked one by one can be picked jointly. -/
theorem exists_forall₂ {β : Type} {R : α → β → Prop} {l : List β} (h : ∀ b ∈ l, ∃ a, R a b) :
    ∃ as, List.Forall₂ R as l := by
  induction l with
  | nil => exact ⟨[], .nil⟩
  | cons b l ih =>
    obtain ⟨a, ha⟩ := h b (by simp)
    obtain ⟨as, has⟩ := ih fun c hc => h c (by simp [hc])
    exact ⟨a :: as, .cons ha has⟩

theorem exists_mem_zip {β : Type} {R : α → β → Prop} {as : List α} {bs : List β}
    (h : List.Forall₂ R as bs) {b : β} (hb : b ∈ bs) : ∃ a, (b, a) ∈ bs.zip as := by
  induction h with
  | nil => simp at hb
  | cons _ _ ih =>
    rcases List.mem_cons.mp hb with rfl | hb
    · exact ⟨_, List.mem_cons_self ..⟩
    · obtain ⟨a, ha⟩ := ih hb
      exact ⟨a, List.mem_cons_of_mem _ ha⟩

end Cartesian

end Acfqp.Library
