import Acfqp.Library.Pareto
import Acfqp.Library.Renamed

/-!
# Permutations as lists

A list that rearranges the first numbers is the list of images of a permutation. Images that are
set one by one are read back from the pairs that set them.
-/

namespace Acfqp.Library

variable {α β : Type}

/-! ## Images of the first numbers -/

section

variable {σ τ : Equiv.Perm ℕ} {n : ℕ} {l : List ℕ}

theorem Keeps.mul (hσ : Keeps σ n) (hτ : Keeps τ n) : Keeps (σ * τ) n :=
  fun v => (hσ (τ v)).trans (hτ v)

theorem perm_map_range (hσ : Keeps σ n) : ((List.range n).map σ).Perm (List.range n) := by
  rw [List.perm_ext_iff_of_nodup (List.nodup_range.map σ.injective) List.nodup_range]
  intro v
  rw [List.mem_range, List.mem_map]
  constructor
  · rintro ⟨u, hu, rfl⟩
    exact (hσ u).mpr (List.mem_range.mp hu)
  · intro hv
    exact ⟨σ.symm v, List.mem_range.mpr ((hσ.symm v).mpr hv), σ.apply_symm_apply v⟩

/-- A rearrangement of the first numbers lists the images of a permutation. -/
theorem exists_perm_of_range (h : l.Perm (List.range n)) :
    ∃ σ : Equiv.Perm ℕ, Keeps σ n ∧ l = (List.range n).map σ := by
  have hlength : l.length = n := by simpa using h.length_eq
  have hlt : ∀ i (hi : i < l.length), l[i] < n := fun i hi =>
    List.mem_range.mp (h.mem_iff.mp (List.getElem_mem hi))
  have hnodup : l.Nodup := h.nodup_iff.mpr List.nodup_range
  let f : Fin n → Fin n := fun i => ⟨l[(i : ℕ)], hlt i (by omega)⟩
  have hinjective : Function.Injective f := fun i j hij =>
    Fin.ext ((hnodup.getElem_inj_iff).mp (congrArg Fin.val hij))
  let π : Equiv.Perm (Fin n) := Equiv.ofBijective f (Finite.injective_iff_bijective.mp hinjective)
  refine ⟨cells π, keeps_cells π, ?_⟩
  apply List.ext_getElem
  · simp [hlength]
  · intro i hi _
    rw [List.getElem_map, List.getElem_range, cells_of_lt π (by omega)]
    rfl

theorem getD_map_range {f : ℕ → ℕ} {v : ℕ} (h : v < n) :
    ((List.range n).map f).getD v 0 = f v := by
  rw [List.getD_eq_getElem _ _ (by simpa using h)]
  simp

end

/-! ## Setting positions -/

section

variable {γ : Type} (key : γ → ℕ) (value : γ → α) {base : List α} {entries : List γ}

@[simp] theorem length_foldl_set :
    (entries.foldl (fun l e => l.set (key e) (value e)) base).length = base.length := by
  induction entries generalizing base with
  | nil => rfl
  | cons e entries ih => exact ih.trans List.length_set

theorem getElem?_foldl_set_of_notMem {v : ℕ} (h : v ∉ entries.map key) :
    (entries.foldl (fun l e => l.set (key e) (value e)) base)[v]? = base[v]? := by
  induction entries generalizing base with
  | nil => rfl
  | cons e entries ih =>
    rw [List.map_cons, List.mem_cons, not_or] at h
    refine (ih h.2).trans ?_
    rw [List.getElem?_set_ne (Ne.symm h.1)]

/-- A position that one entry sets has the value of the entry. -/
theorem getElem?_foldl_set (hnodup : (entries.map key).Nodup) {e : γ} (he : e ∈ entries)
    (hlt : key e < base.length) :
    (entries.foldl (fun l e => l.set (key e) (value e)) base)[key e]? = some (value e) := by
  induction entries generalizing base with
  | nil => cases he
  | cons x entries ih =>
    rw [List.map_cons, List.nodup_cons] at hnodup
    rcases List.mem_cons.mp he with rfl | he
    · refine (getElem?_foldl_set_of_notMem key value hnodup.1).trans ?_
      rw [List.getElem?_set_self hlt]
    · exact ih hnodup.2 he (by simpa using hlt)

end

section Setting

variable {base : List (Option α)} {pairs : List (ℕ × α)}

def setAll (base : List (Option α)) (pairs : List (ℕ × α)) : List (Option α) :=
  pairs.foldl (fun l e => l.set e.1 (some e.2)) base

@[simp] theorem length_setAll : (setAll base pairs).length = base.length :=
  length_foldl_set _ _

theorem getElem?_setAll (hnodup : (pairs.map Prod.fst).Nodup) {e : ℕ × α} (he : e ∈ pairs)
    (hlt : e.1 < base.length) : (setAll base pairs)[e.1]? = some (some e.2) :=
  getElem?_foldl_set _ _ hnodup he hlt

theorem mapM_setAll {f : ℕ → ℕ} {pairs : List (ℕ × ℕ)} {n : ℕ}
    (hkeys : (pairs.map Prod.fst).Perm (List.range n)) (hvalues : ∀ e ∈ pairs, e.2 = f e.1) :
    (setAll (List.replicate n none) pairs).mapM id = some ((List.range n).map f) := by
  have hset : setAll (List.replicate n none) pairs = (List.range n).map fun v => some (f v) := by
    apply List.ext_getElem?
    intro v
    by_cases hv : v < n
    · obtain ⟨e, he, rfl⟩ := List.mem_map.mp (hkeys.mem_iff.mpr (List.mem_range.mpr hv))
      rw [getElem?_setAll (hkeys.nodup_iff.mpr List.nodup_range) he (by simpa using hv),
        hvalues e he]
      simp [hv]
    · rw [List.getElem?_eq_none (by simpa using hv), List.getElem?_eq_none (by simpa using hv)]
  rw [hset]
  induction List.range n with
  | nil => rfl
  | cons v l ih => simp [ih]

end Setting

/-! ## Tuples of choices -/

theorem nodup_permutations' {l : List α} (h : l.Nodup) : l.permutations'.Nodup :=
  (List.permutations_perm_permutations' l).nodup_iff.mp (List.nodup_permutations l h)

theorem length_permutations' (l : List α) : l.permutations'.length = l.length.factorial :=
  (List.permutations_perm_permutations' l).length_eq.symm.trans (List.length_permutations l)

theorem nodup_cartesian {ls : List (List α)} (h : ∀ l ∈ ls, l.Nodup) : (cartesian ls).Nodup := by
  induction ls with
  | nil => simp [cartesian]
  | cons l ls ih =>
    have hrest := ih fun l' hl' => h l' (by simp [hl'])
    refine List.nodup_flatMap.mpr ⟨fun x _ => ?_, (h l (by simp)).imp fun hne => ?_⟩
    · exact hrest.map fun _ _ heq => (List.cons.inj heq).2
    · intro xs hxs hxs'
      obtain ⟨_, -, rfl⟩ := List.mem_map.mp hxs
      obtain ⟨_, -, heq⟩ := List.mem_map.mp hxs'
      exact hne (List.cons.inj heq).1.symm

theorem length_cartesian (ls : List (List α)) :
    (cartesian ls).length = (ls.map List.length).prod := by
  induction ls with
  | nil => rfl
  | cons l ls ih => simp [cartesian, List.length_flatMap, ih]

end Acfqp.Library

/-!
## Random draws

A program that draws from a random generator threads the generator's state. What holds for every
behaviour of the generator holds from every state, whatever the generator does within its
documented laws.
-/

namespace Acfqp.Library

variable {σ α β : Type}

/-- Every run of the program gives a result with the property. -/
def Always (P : α → Prop) (m : StateM σ α) : Prop := ∀ s, P (m.run s).1

namespace Always

variable {P : α → Prop} {Q : β → Prop} {m : StateM σ α}

theorem mono {P' : α → Prop} (h : Always P m) (himp : ∀ a, P a → P' a) : Always P' m :=
  fun s => himp _ (h s)

theorem pure {a : α} (h : P a) : Always (σ := σ) P (Pure.pure a) := fun _ => h

theorem bind {f : α → StateM σ β} (hm : Always P m) (hf : ∀ a, P a → Always Q (f a)) :
    Always Q (m >>= f) := fun s => hf _ (hm s) _

theorem ite {c : Prop} [Decidable c] {m' : StateM σ α} (h : c → Always P m)
    (h' : ¬ c → Always P m') : Always P (if c then m else m') := by
  split
  · exact h ‹_›
  · exact h' ‹_›

/-- A fold keeps a property of the elements read so far and the value. -/
theorem foldlM {f : β → α → StateM σ β} (P : List α → β → Prop) {l : List α} {b : β}
    (hnil : P [] b) (hstep : ∀ pre a c, (∃ post, l = pre ++ a :: post) → P pre c →
      Always (P (pre ++ [a])) (f c a)) : Always (P l) (l.foldlM f b) := by
  have hrun : ∀ post pre c, l = pre ++ post → P pre c → Always (P l) (post.foldlM f c) := by
    intro post
    induction post with
    | nil =>
      intro pre c hl hc
      rw [List.append_nil] at hl
      exact .pure (hl ▸ hc)
    | cons a post ih =>
      intro pre c hl hc
      rw [List.foldlM_cons]
      exact (hstep pre a c ⟨post, hl⟩ hc).bind fun c' hc' => ih (pre ++ [a]) c' (by simp [hl]) hc'
  exact hrun l [] b rfl hnil

/-- The first result that is found is one of an element, and nothing is found only when no element
gives a result. -/
theorem findSome {f : α → StateM σ (Option β)} (P : α → Option β → Prop) {l : List α}
    (h : ∀ a ∈ l, Always (P a) (f a)) :
    Always (fun r => (∀ b, r = some b → ∃ a ∈ l, P a (some b)) ∧ (r = none → ∀ a ∈ l, P a none))
      (l.findSomeM? f) := by
  induction l with
  | nil => exact .pure (by simp)
  | cons a l ih =>
    refine (h a (by simp)).bind fun r hr => ?_
    cases r with
    | some b => exact .pure ⟨fun b' hb' => ⟨a, by simp, hb' ▸ hr⟩, fun hnone => by cases hnone⟩
    | none =>
      refine (ih fun a' ha' => h a' (by simp [ha'])).mono fun r' hr' => ⟨fun b hb => ?_,
        fun hnone a' ha' => ?_⟩
      · obtain ⟨a', ha', hP⟩ := hr'.1 b hb
        exact ⟨a', by simp [ha'], hP⟩
      · rcases List.mem_cons.mp ha' with rfl | ha'
        · exact hr
        · exact hr'.2 hnone a' ha'

end Always

/-- A random generator, by its states and the documented laws of its draws. -/
structure RandomSource (σ : Type) where
  seeded : ℤ → σ
  shuffle : List ℕ → StateM σ (List ℕ)
  randrange : ℕ → StateM σ ℕ
  choice : List ℕ → StateM σ ℕ
  sample : List ℕ → ℕ → StateM σ (List ℕ)
  shuffle_perm : ∀ l, Always (fun r => r.Perm l) (shuffle l)
  randrange_lt : ∀ n, 0 < n → Always (fun r => r < n) (randrange n)
  choice_mem : ∀ l, l ≠ [] → Always (fun r => r ∈ l) (choice l)
  sample_subperm : ∀ l k, k ≤ l.length →
    Always (fun r => r.length = k ∧ r.Subperm l) (sample l k)

/-- The generator that leaves lists as they are, samples their first values and draws the largest
values otherwise. -/
def RandomSource.largest : RandomSource Unit where
  seeded _ := ()
  shuffle l := pure l
  randrange n := pure (n - 1)
  choice l := pure (l.getLastD 0)
  sample l k := pure (l.take k)
  shuffle_perm _ := .pure (.refl _)
  randrange_lt n h := .pure (Nat.sub_lt h Nat.one_pos)
  choice_mem l h := .pure (by simp [List.getLastD_eq_getLast?, List.getLast?_eq_some_getLast h])
  sample_subperm l k h := .pure ⟨by simpa using h, (List.take_sublist k l).subperm⟩

end Acfqp.Library
