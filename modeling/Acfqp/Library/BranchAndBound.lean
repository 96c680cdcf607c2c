import Acfqp.Library.Grouping

/-!
# Branch and bound

An incumbent is the best of the candidates seen so far. A candidate that comes before it replaces
it, and a branch whose candidates all come after it is left out. Keys that list the parts of a
candidate in order are bounded by completing a part of them with the least parts. What is recorded
on disjoint branches is recorded on different paths.
-/

namespace Acfqp.Library

section Incumbent

variable {P κ : Type} [LinearOrder κ] {key : P → κ} {seen below : Set P} {incumbent : Option P}

/-- The incumbent was seen, and nothing that was seen comes before it. -/
structure Best (key : P → κ) (seen : Set P) (incumbent : Option P) : Prop where
  mem : ∀ p ∈ incumbent, p ∈ seen
  le : ∀ q ∈ seen, ∃ p ∈ incumbent, key p ≤ key q

theorem Best.start : Best key ∅ none :=
  ⟨by simp, by simp⟩

/-- A candidate replaces the incumbent when it comes before it. -/
theorem Best.keep (h : Best key seen incumbent) (candidate : P) :
    Best key (insert candidate seen)
      (if incumbent.all fun p => decide (key candidate < key p) then some candidate
        else incumbent) := by
  cases incumbent with
  | none =>
    refine ⟨by simp, fun q hq => ⟨candidate, by simp, ?_⟩⟩
    rcases hq with rfl | hq
    · exact le_rfl
    · obtain ⟨_, hnone, -⟩ := h.le q hq
      cases hnone
  | some p =>
    have hp := h.mem p rfl
    have hle : ∀ q ∈ seen, key p ≤ key q := fun q hq => by
      obtain ⟨_, hmem, hle⟩ := h.le q hq
      cases hmem
      exact hle
    rw [Option.all_some]
    by_cases hbetter : key candidate < key p
    · simp only [hbetter, decide_true, if_true]
      refine ⟨by simp, fun q hq => ⟨candidate, rfl, ?_⟩⟩
      rcases hq with rfl | hq
      · exact le_rfl
      · exact hbetter.le.trans (hle q hq)
    · simp only [hbetter, decide_false, Bool.false_eq_true, if_false]
      refine ⟨by simp [hp], fun q hq => ⟨p, rfl, ?_⟩⟩
      rcases hq with rfl | hq
      · exact not_lt.mp hbetter
      · exact hle q hq

/-- A branch that the incumbent comes before is left out. -/
theorem Best.prune (h : Best key seen incumbent)
    (hbelow : ∀ q ∈ below, ∃ p ∈ incumbent, key p ≤ key q) : Best key (seen ∪ below) incumbent :=
  ⟨fun p hp => .inl (h.mem p hp), fun q hq => hq.elim (h.le q) (hbelow q)⟩

end Incumbent

/-! ## Lists in order -/

section

variable {κ : Type} [LinearOrder κ]

theorem forall₂_orderedInsert {s t : List κ} (h : List.Forall₂ (· ≤ ·) s t)
    (hs : s.Pairwise (· ≤ ·)) (ht : t.Pairwise (· ≤ ·)) {a b : κ} (hab : a ≤ b) :
    List.Forall₂ (· ≤ ·) (s.orderedInsert (· ≤ ·) a) (t.orderedInsert (· ≤ ·) b) := by
  induction h generalizing a b with
  | nil => exact .cons hab .nil
  | @cons x y s t hxy hst ih =>
    obtain ⟨hx, hs⟩ := List.pairwise_cons.mp hs
    obtain ⟨hy, ht⟩ := List.pairwise_cons.mp ht
    -- An element below a sorted list is inserted in front of it.
    have hfront : ∀ {z : κ} {l : List κ}, (∀ w ∈ l, z ≤ w) →
        l.orderedInsert (· ≤ ·) z = z :: l := by
      intro z l hz
      cases l with
      | nil => rfl
      | cons w l => simp [hz w List.mem_cons_self]
    simp only [List.orderedInsert_cons]
    split <;> split
    · exact .cons hab (.cons hxy hst)
    · rename_i hax hby
      have hyb := le_of_not_ge hby
      refine .cons (hax.trans hxy) ?_
      rw [← hfront hx]
      exact ih hs ht (hxy.trans hyb)
    · rename_i hax hby
      have hxa := le_of_not_ge hax
      refine .cons (hxa.trans hab) ?_
      rw [← hfront hy]
      exact ih hs ht (hab.trans hby)
    · exact .cons hxy (ih hs ht hab)

theorem forall₂_insertionSort {l l' : List κ} (h : List.Forall₂ (· ≤ ·) l l') :
    List.Forall₂ (· ≤ ·) (l.insertionSort (· ≤ ·)) (l'.insertionSort (· ≤ ·)) := by
  induction h with
  | nil => exact .nil
  | @cons a b l l' hab _ ih =>
    exact forall₂_orderedInsert ih (List.pairwise_insertionSort _ l)
      (List.pairwise_insertionSort _ l') hab

/-- Sorting keeps one list below another. -/
theorem forall₂_sortBy {l l' : List κ} (h : List.Forall₂ (· ≤ ·) l l') :
    List.Forall₂ (· ≤ ·) (sortBy id l) (sortBy id l') :=
  forall₂_insertionSort h

/-- A list below another one does not come after it. -/
theorem not_lt_of_forall₂ {l l' : List κ} (h : List.Forall₂ (· ≤ ·) l l') : ¬ l' < l := by
  induction h with
  | nil => exact List.not_lt_nil _
  | cons hab _ ih =>
    intro hlt
    rcases List.cons_lt_cons_iff.mp hlt with hlt | ⟨-, hlt⟩
    · exact absurd hlt (not_lt_of_ge hab)
    · exact ih hlt

end

section Paths

variable {W κ : Type} {path : W → List κ} {P : W → Prop} {branches : List (List κ)}
  {branch : List κ} {l l' l'' : List W}

/-- A list grows by elements below the branches, no two of them on one path. -/
def Grows (path : W → List κ) (P : W → Prop) (branches : List (List κ)) (l l' : List W) : Prop :=
  ∃ added, l' = l ++ added ∧ (added.map path).Nodup ∧
    ∀ w ∈ added, P w ∧ ∃ b ∈ branches, b <+: path w

theorem Grows.refl (l : List W) : Grows path P branches l l :=
  ⟨[], by simp⟩

theorem Grows.concat {w : W} (hw : P w) (h : branch <+: path w) :
    Grows path P [branch] l (l ++ [w]) :=
  ⟨[w], rfl, by simp, by simpa using ⟨hw, h⟩⟩

/-- Branches of one length that are not the same have no path in common. -/
theorem Grows.append (h : Grows path P branches l l') (h' : Grows path P [branch] l' l'')
    (hlength : ∀ b ∈ branches, b.length = branch.length) (hne : branch ∉ branches) :
    Grows path P (branches ++ [branch]) l l'' := by
  obtain ⟨added, rfl, hnodup, hadded⟩ := h
  obtain ⟨added', rfl, hnodup', hadded'⟩ := h'
  refine ⟨added ++ added', List.append_assoc .., ?_, fun w hw => ?_⟩
  · rw [List.map_append, List.nodup_append]
    refine ⟨hnodup, hnodup', fun x hx y hy heq => hne ?_⟩
    obtain ⟨w, hw, rfl⟩ := List.mem_map.mp hx
    obtain ⟨w', hw', rfl⟩ := List.mem_map.mp hy
    obtain ⟨-, b, hb, hbelow⟩ := hadded w hw
    obtain ⟨-, b', hb', hbelow'⟩ := hadded' w' hw'
    obtain rfl := List.mem_singleton.mp hb'
    have hprefix := List.prefix_of_prefix_length_le hbelow (heq ▸ hbelow') (hlength b hb).le
    exact hprefix.eq_of_length (hlength b hb) ▸ hb
  · rcases List.mem_append.mp hw with hw | hw
    · obtain ⟨hP, b, hb, hbelow⟩ := hadded w hw
      exact ⟨hP, b, List.mem_append_left _ hb, hbelow⟩
    · obtain ⟨hP, b, hb, hbelow⟩ := hadded' w hw
      exact ⟨hP, b, List.mem_append_right _ hb, hbelow⟩

theorem Grows.stem (h : Grows path P branches l l') (hstem : ∀ b ∈ branches, branch <+: b) :
    Grows path P [branch] l l' := by
  obtain ⟨added, heq, hnodup, hadded⟩ := h
  refine ⟨added, heq, hnodup, fun w hw => ?_⟩
  obtain ⟨hP, b, hb, hbelow⟩ := hadded w hw
  exact ⟨hP, branch, List.mem_singleton_self _, (hstem b hb).trans hbelow⟩

/-- The same elements along longer paths. -/
theorem Grows.lengthen {path' : W → List κ} {Q : W → Prop} (h : Grows path P branches l l')
    (hpath : ∀ w, P w → Q w ∧ path' w = branch ++ path w) : Grows path' Q [branch] l l' := by
  obtain ⟨added, heq, hnodup, hadded⟩ := h
  refine ⟨added, heq, ?_, fun w hw => ⟨(hpath w (hadded w hw).1).1, branch, by simp, ?_⟩⟩
  · have hmap : added.map path' = (added.map path).map (branch ++ ·) := by
      rw [List.map_map]
      exact List.map_congr_left fun w hw => (hpath w (hadded w hw).1).2
    rw [hmap]
    exact hnodup.map fun a b => List.append_cancel_left
  · exact (hpath w (hadded w hw).1).2 ▸ List.prefix_append _ _

/-- What grew from nothing. -/
theorem Grows.from_nil (h : Grows path P branches [] l) : (l.map path).Nodup ∧ ∀ w ∈ l, P w := by
  obtain ⟨added, rfl, hnodup, hadded⟩ := h
  exact ⟨hnodup, fun w hw => (hadded w hw).1⟩

end Paths

end Acfqp.Library
