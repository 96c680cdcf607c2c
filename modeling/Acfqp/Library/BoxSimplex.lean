import Mathlib

/-!
# Expectations over a box-constrained simplex

A distribution over finitely many atoms has to keep every mass inside an interval and sum to
one. Start every atom at its lower bound and fill what is left into the atoms in a fixed order,
each up to its upper bound: if the order is one of falling values, no admissible distribution
has a larger expectation.
-/

namespace Acfqp.Library

variable {ι R : Type} [DecidableEq ι] [Field R] [LinearOrder R] [IsStrictOrderedRing R]

/-- What every atom receives when `r` is spent in order, each atom taking at most `cap`. -/
def fill (cap : ι → R) : R → List ι → ι → R
  | _, [] => 0
  | r, i :: rest => Function.update (fill cap (r - min r (cap i)) rest) i (min r (cap i))

variable {cap lower upper value p : ι → R} {r : R} {l : List ι} {i : ι}

omit [IsStrictOrderedRing R] in
@[simp] theorem fill_head : fill cap r (i :: l) i = min r (cap i) := by simp [fill]

omit [IsStrictOrderedRing R] in
theorem fill_of_ne {j : ι} (h : i ≠ j) :
    fill cap r (j :: l) i = fill cap (r - min r (cap j)) l i := by
  rw [fill, Function.update_of_ne h]

theorem fill_mem_box (hr : 0 ≤ r) (hcap : ∀ i ∈ l, 0 ≤ cap i) (hi : i ∈ l) :
    0 ≤ fill cap r l i ∧ fill cap r l i ≤ cap i := by
  induction l generalizing r with
  | nil => cases hi
  | cons j l ih =>
    by_cases hij : i = j
    · subst hij
      rw [fill_head]
      exact ⟨le_min hr (hcap _ (by simp)), min_le_right _ _⟩
    · rw [fill_of_ne hij]
      have hrest : 0 ≤ r - min r (cap j) := sub_nonneg.mpr (min_le_left _ _)
      exact ih hrest (fun x hx => hcap x (by simp [hx])) (by simpa [hij] using hi)

omit [IsStrictOrderedRing R] in
/-- Nothing is left to spend. -/
theorem fill_zero (hcap : ∀ i ∈ l, 0 ≤ cap i) : fill cap 0 l i = 0 := by
  induction l with
  | nil => rfl
  | cons j l ih =>
    have hmin : min 0 (cap j) = 0 := min_eq_left (hcap j (by simp))
    by_cases hij : i = j
    · subst hij
      rw [fill_head, hmin]
    · rw [fill_of_ne hij, hmin, sub_zero]
      exact ih fun x hx => hcap x (by simp [hx])

omit [IsStrictOrderedRing R] in
/-- A total over the filled atoms, by the first atom and the others. -/
theorem sum_fill_cons (cap : ι → R) (r : R) (hl : (i :: l).Nodup) (f : ι → R → R) :
    ((i :: l).map fun x => f x (fill cap r (i :: l) x)).sum =
      f i (min r (cap i)) + (l.map fun x => f x (fill cap (r - min r (cap i)) l x)).sum := by
  rw [List.map_cons, List.sum_cons, fill_head]
  congr 2
  refine List.map_congr_left fun x hx => ?_
  have hne : x ≠ i := fun h => (List.nodup_cons.mp hl).1 (h ▸ hx)
  rw [fill_of_ne hne]

/-- All of `r` is spent when the atoms have room for it. -/
theorem sum_fill (hl : l.Nodup) (hr : 0 ≤ r) (hcap : ∀ i ∈ l, 0 ≤ cap i)
    (hroom : r ≤ (l.map cap).sum) : (l.map (fill cap r l)).sum = r := by
  induction l generalizing r with
  | nil =>
    simp only [List.map_nil, List.sum_nil] at hroom ⊢
    exact le_antisymm hr hroom
  | cons i l ih =>
    have hsplit := sum_fill_cons cap r hl fun _ q => q
    have hrest : ∀ x ∈ l, 0 ≤ cap x := fun x hx => hcap x (by simp [hx])
    have hnonneg : 0 ≤ (l.map cap).sum := List.sum_nonneg (by simpa using hrest)
    have hleft : r - min r (cap i) ≤ (l.map cap).sum := by
      rw [List.map_cons, List.sum_cons] at hroom
      rcases le_total r (cap i) with h | h
      · rw [min_eq_left h, sub_self]
        exact hnonneg
      · rw [min_eq_right h]
        linarith
    have hih := ih (List.nodup_cons.mp hl).2 (sub_nonneg.mpr (min_le_left r (cap i))) hrest hleft
    linarith

/-- Spending `r` greedily on the most valuable atoms beats every other way to spend at least `r`,
up to what the excess could earn at the highest value. -/
theorem sum_mul_le_fill {bound : R} (hl : l.Nodup) (hr : 0 ≤ r)
    (hp : ∀ i ∈ l, 0 ≤ p i ∧ p i ≤ cap i) (hsum : r ≤ (l.map p).sum)
    (hsorted : l.Pairwise fun i j => value j ≤ value i) (hbound : ∀ i ∈ l, value i ≤ bound) :
    (l.map fun i => p i * value i).sum ≤
      (l.map fun i => fill cap r l i * value i).sum + ((l.map p).sum - r) * bound := by
  induction l generalizing r bound with
  | nil =>
    simp only [List.map_nil, List.sum_nil] at hsum ⊢
    have : r = 0 := le_antisymm hsum hr
    simp [this]
  | cons i l ih =>
    have hsplit := sum_fill_cons cap r hl fun x q => q * value x
    obtain ⟨hhead, htail⟩ := List.pairwise_cons.mp hsorted
    obtain ⟨hp0, hpcap⟩ := hp i (by simp)
    have hrest : ∀ x ∈ l, 0 ≤ p x ∧ p x ≤ cap x := fun x hx => hp x (by simp [hx])
    have hnonneg : 0 ≤ (l.map p).sum :=
      List.sum_nonneg (by simpa using fun x hx => (hrest x hx).1)
    rw [List.map_cons, List.sum_cons] at hsum
    -- The head receives as much as any choice could give it, unless nothing is left afterwards.
    have hleft : r - min r (cap i) ≤ (l.map p).sum := by
      rcases le_total r (cap i) with h | h
      · rw [min_eq_left h, sub_self]
        exact hnonneg
      · rw [min_eq_right h]
        linarith
    have hih := ih (List.nodup_cons.mp hl).2 (sub_nonneg.mpr (min_le_left r (cap i))) hrest hleft
      htail hhead
    have hexcess : (p i + (l.map p).sum - r) * value i ≤ (p i + (l.map p).sum - r) * bound :=
      mul_le_mul_of_nonneg_left (hbound i (by simp)) (by linarith)
    rw [hsplit, List.map_cons, List.sum_cons, List.map_cons, List.sum_cons]
    linarith

/-! ## The box simplex -/

/-- A distribution on the atoms that respects the bounds of each. -/
structure InBoxSimplex (lower upper : ι → R) (l : List ι) (p : ι → R) : Prop where
  bounds : ∀ i ∈ l, lower i ≤ p i ∧ p i ≤ upper i
  mass : (l.map p).sum = 1

/-- The bounds admit a distribution. -/
structure Admissible (lower upper : ι → R) (l : List ι) : Prop where
  ordered : ∀ i ∈ l, lower i ≤ upper i
  lower_le : (l.map lower).sum ≤ 1
  le_upper : 1 ≤ (l.map upper).sum

/-- The lower bounds, and what is left spent in order. -/
def greedy (lower upper : ι → R) (l : List ι) (i : ι) : R :=
  lower i + fill (fun i => upper i - lower i) (1 - (l.map lower).sum) l i

theorem greedy_inBoxSimplex (hl : l.Nodup) (h : Admissible lower upper l) :
    InBoxSimplex lower upper l (greedy lower upper l) := by
  have hcap : ∀ i ∈ l, 0 ≤ upper i - lower i := fun i hi => sub_nonneg.mpr (h.ordered i hi)
  have hr : 0 ≤ 1 - (l.map lower).sum := sub_nonneg.mpr h.lower_le
  refine ⟨fun i hi => ?_, ?_⟩
  · obtain ⟨h0, hle⟩ := fill_mem_box hr hcap hi
    exact ⟨by unfold greedy; linarith, by unfold greedy; linarith⟩
  · have hupper : (l.map upper).sum =
        (l.map lower).sum + (l.map fun i => upper i - lower i).sum := by
      rw [← List.sum_map_add]
      simp
    have hfill := sum_fill hl hr hcap (by linarith [h.le_upper])
    unfold greedy
    rw [List.sum_map_add]
    linarith

/-- In the order of falling values, no distribution in the box has a larger expectation. -/
theorem sum_mul_le_greedy (hl : l.Nodup) (h : Admissible lower upper l)
    (hsorted : l.Pairwise fun i j => value j ≤ value i) (hp : InBoxSimplex lower upper l p) :
    (l.map fun i => p i * value i).sum ≤
      (l.map fun i => greedy lower upper l i * value i).sum := by
  cases l with
  | nil => simp
  | cons first rest =>
    set l := first :: rest
    have hbound : ∀ i ∈ l, value i ≤ value first := by
      intro i hi
      rcases List.mem_cons.mp hi with rfl | hi
      · exact le_rfl
      · exact (List.pairwise_cons.mp hsorted).1 i hi
    have hmass : (l.map fun i => p i - lower i).sum = 1 - (l.map lower).sum := by
      have hsplit : (l.map p).sum = (l.map lower).sum + (l.map fun i => p i - lower i).sum := by
        rw [← List.sum_map_add]
        simp
      linarith [hp.mass]
    have hbox : ∀ i ∈ l, 0 ≤ p i - lower i ∧ p i - lower i ≤ upper i - lower i := fun i hi =>
      ⟨sub_nonneg.mpr (hp.bounds i hi).1, sub_le_sub_right (hp.bounds i hi).2 _⟩
    have hfill := sum_mul_le_fill hl (sub_nonneg.mpr h.lower_le) hbox hmass.ge hsorted hbound
    rw [hmass, sub_self, zero_mul, add_zero] at hfill
    have hp' : (l.map fun i => p i * value i).sum =
        (l.map fun i => lower i * value i).sum +
          (l.map fun i => (p i - lower i) * value i).sum := by
      rw [← List.sum_map_add]
      congr 1
      exact List.map_congr_left fun i _ => by ring
    rw [hp']
    simp only [greedy, add_mul]
    rw [List.sum_map_add]
    linarith

end Acfqp.Library
