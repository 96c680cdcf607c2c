import Mathlib.Data.List.Sort
import Acfqp.Library.Pareto

/-!
# Fronts that grow by one point

The front of the points inserted so far holds one point for each maximal worth, the one with the
least key. An inserted point is dominated, repeats a worth of the front, or replaces the points
that it dominates; each case gives the front of one point more. What the front shows of its points
does not depend on the order of insertion.
-/

namespace Acfqp.Library

section Front

variable {P M κ : Type} [PartialOrder M] [LinearOrder κ] {worth : P → M} {key : P → κ}
  {inserted : Set P} {front : List P} {c d p : P}

/-- The front holds the inserted points of maximal worth, one with the least key for each worth. -/
structure IsFront (worth : P → M) (key : P → κ) (inserted : Set P) (front : List P) : Prop where
  mem : ∀ p ∈ front, p ∈ inserted
  covers : ∀ q ∈ inserted, ∃ p ∈ front, worth q ≤ worth p
  maximal : ∀ p ∈ front, ∀ q ∈ inserted, ¬ worth p < worth q
  least : ∀ p ∈ front, ∀ q ∈ inserted, worth q = worth p → key p ≤ key q
  nodup : (front.map worth).Nodup

namespace IsFront

theorem nil : IsFront worth key ∅ [] :=
  ⟨by simp, by simp, by simp, by simp, List.nodup_nil⟩

theorem perm {front' : List P} (h : IsFront worth key inserted front) (hperm : front.Perm front') :
    IsFront worth key inserted front' where
  mem p hp := h.mem p (hperm.mem_iff.mpr hp)
  covers q hq := by
    obtain ⟨p, hp, hle⟩ := h.covers q hq
    exact ⟨p, hperm.mem_iff.mp hp, hle⟩
  maximal p hp := h.maximal p (hperm.mem_iff.mpr hp)
  least p hp := h.least p (hperm.mem_iff.mpr hp)
  nodup := ((hperm.map worth).nodup_iff).mp h.nodup

/-- Two points of a front with the same worth are one. -/
theorem eq_of_worth (h : IsFront worth key inserted front) (hp : p ∈ front) (hd : d ∈ front)
    (heq : worth p = worth d) : p = d :=
  List.inj_on_of_nodup_map h.nodup hp hd heq

/-- The front shows exactly the maximal worths of the inserted points, with their least keys. -/
theorem shows_iff (h : IsFront worth key inserted front) {value : M} {k : κ} :
    (∃ p ∈ front, worth p = value ∧ key p = k) ↔
      (∃ q ∈ inserted, worth q = value ∧ key q = k) ∧ (∀ q ∈ inserted, ¬ value < worth q) ∧
        ∀ q ∈ inserted, worth q = value → k ≤ key q := by
  constructor
  · rintro ⟨p, hp, rfl, rfl⟩
    exact ⟨⟨p, h.mem p hp, rfl, rfl⟩, h.maximal p hp, h.least p hp⟩
  · rintro ⟨⟨q, hq, rfl, rfl⟩, hmaximal, hleast⟩
    obtain ⟨p, hp, hle⟩ := h.covers q hq
    have heq : worth p = worth q :=
      ((eq_or_lt_of_le hle).resolve_right (hmaximal p (h.mem p hp))).symm
    refine ⟨p, hp, heq, le_antisymm ?_ ?_⟩
    · exact h.least p hp q hq heq.symm
    · exact hleast p (h.mem p hp) heq

/-! ## One more point -/

/-- A dominated point leaves the front as it is. -/
theorem insert_dominated (h : IsFront worth key inserted front) (hp : p ∈ front)
    (hlt : worth c < worth p) : IsFront worth key (insert c inserted) front where
  mem q hq := .inr (h.mem q hq)
  covers := by
    rintro q (rfl | hq)
    · exact ⟨p, hp, hlt.le⟩
    · exact h.covers q hq
  maximal r hr := by
    rintro q (rfl | hq) hlt'
    · exact h.maximal r hr p (h.mem p hp) (hlt'.trans hlt)
    · exact h.maximal r hr q hq hlt'
  least r hr := by
    rintro q (rfl | hq) heq
    · exact absurd (heq ▸ hlt) (h.maximal r hr p (h.mem p hp))
    · exact h.least r hr q hq heq
  nodup := h.nodup

/-- A repeated worth with no smaller key leaves the front as it is. -/
theorem insert_repeated (h : IsFront worth key inserted front) (hd : d ∈ front)
    (hworth : worth d = worth c) (hkey : key d ≤ key c) :
    IsFront worth key (insert c inserted) front where
  mem q hq := .inr (h.mem q hq)
  covers := by
    rintro q (rfl | hq)
    · exact ⟨d, hd, hworth.ge⟩
    · exact h.covers q hq
  maximal r hr := by
    rintro q (rfl | hq) hlt
    · exact h.maximal r hr d (h.mem d hd) (hworth ▸ hlt)
    · exact h.maximal r hr q hq hlt
  least r hr := by
    rintro q (rfl | hq) heq
    · obtain rfl := h.eq_of_worth hr hd (heq.symm.trans hworth.symm)
      exact hkey
    · exact h.least r hr q hq heq
  nodup := h.nodup

/-- A repeated worth with a smaller key takes the place of the old point. -/
theorem insert_smaller [DecidableEq P] (h : IsFront worth key inserted front) (hd : d ∈ front)
    (hworth : worth d = worth c) (hkey : key c ≤ key d) :
    IsFront worth key (insert c inserted) (c :: front.erase d) := by
  have hfront : front.Nodup := List.Nodup.of_map worth h.nodup
  refine ⟨fun q hq => ?_, ?_, fun r hr => ?_, fun r hr => ?_, ?_⟩
  · rcases List.mem_cons.mp hq with rfl | hq
    · exact .inl rfl
    · exact .inr (h.mem q (List.mem_of_mem_erase hq))
  · rintro q (rfl | hq)
    · exact ⟨_, List.mem_cons_self, le_rfl⟩
    · obtain ⟨p, hp, hle⟩ := h.covers q hq
      by_cases hpd : p = d
      · exact ⟨c, List.mem_cons_self, (hpd ▸ hle).trans hworth.le⟩
      · exact ⟨p, List.mem_cons_of_mem _ ((List.mem_erase_of_ne hpd).mpr hp), hle⟩
  · have hr' : ∃ r' ∈ front, worth r' = worth r := by
      rcases List.mem_cons.mp hr with rfl | hr
      · exact ⟨d, hd, hworth⟩
      · exact ⟨r, List.mem_of_mem_erase hr, rfl⟩
    obtain ⟨r', hr', heq⟩ := hr'
    rintro q (rfl | hq)
    · exact hworth ▸ heq ▸ h.maximal r' hr' d (h.mem d hd)
    · exact heq ▸ h.maximal r' hr' q hq
  · rintro q (rfl | hq) heq
    · rcases List.mem_cons.mp hr with rfl | hr
      · exact le_rfl
      · have hmem := List.Nodup.mem_erase_iff hfront |>.mp hr
        exact absurd (h.eq_of_worth hmem.2 hd (heq.symm.trans hworth.symm)) hmem.1
    · rcases List.mem_cons.mp hr with rfl | hr
      · exact hkey.trans (h.least d hd q hq (heq.trans hworth.symm))
      · exact h.least r (List.mem_of_mem_erase hr) q hq heq
  · rw [List.map_cons, List.nodup_cons]
    refine ⟨fun hmem => ?_, h.nodup.sublist (List.erase_sublist.map worth)⟩
    obtain ⟨p, hp, heq⟩ := List.mem_map.mp hmem
    have hmem := List.Nodup.mem_erase_iff hfront |>.mp hp
    exact hmem.1 (h.eq_of_worth hmem.2 hd (heq.trans hworth.symm))

/-- A worth that no point of the front reaches replaces the points below it. -/
theorem insert_new [DecidableLT M] (h : IsFront worth key inserted front)
    (hnew : ∀ p ∈ front, ¬ worth c ≤ worth p) : IsFront worth key (insert c inserted)
      (c :: front.filter fun p => ¬ worth p < worth c) := by
  have hnot : ∀ q ∈ inserted, ¬ worth c ≤ worth q := fun q hq hle => by
    obtain ⟨p, hp, hle'⟩ := h.covers q hq
    exact hnew p hp (hle.trans hle')
  have hkept : ∀ p, p ∈ front.filter (fun p => ¬ worth p < worth c) ↔
      p ∈ front ∧ ¬ worth p < worth c := by
    simp
  refine ⟨fun q hq => ?_, ?_, fun r hr => ?_, fun r hr => ?_, ?_⟩
  · rcases List.mem_cons.mp hq with rfl | hq
    · exact .inl rfl
    · exact .inr (h.mem q ((hkept q).mp hq).1)
  · rintro q (rfl | hq)
    · exact ⟨_, List.mem_cons_self, le_rfl⟩
    · obtain ⟨p, hp, hle⟩ := h.covers q hq
      by_cases hlt : worth p < worth c
      · exact ⟨c, List.mem_cons_self, hle.trans hlt.le⟩
      · exact ⟨p, List.mem_cons_of_mem _ ((hkept p).mpr ⟨hp, hlt⟩), hle⟩
  · rcases List.mem_cons.mp hr with rfl | hr
    · rintro q (rfl | hq) hlt
      · exact lt_irrefl _ hlt
      · exact hnot q hq hlt.le
    · rintro q (rfl | hq)
      · exact ((hkept r).mp hr).2
      · exact h.maximal r ((hkept r).mp hr).1 q hq
  · rcases List.mem_cons.mp hr with rfl | hr
    · rintro q (rfl | hq) heq
      · exact le_rfl
      · exact absurd heq.ge (hnot q hq)
    · rintro q (rfl | hq) heq
      · exact absurd heq.le (hnew r ((hkept r).mp hr).1)
      · exact h.least r ((hkept r).mp hr).1 q hq heq
  · rw [List.map_cons, List.nodup_cons]
    refine ⟨fun hmem => ?_, h.nodup.sublist (List.filter_sublist.map worth)⟩
    obtain ⟨p, hp, heq⟩ := List.mem_map.mp hmem
    exact hnew p ((hkept p).mp hp).1 heq.ge

end IsFront

/-- Two sorted fronts of the same points show the same, in a view that shows worth and key. -/
theorem map_eq_of_isFront {V : Type} [LinearOrder V] {view : P → V} {front' : List P}
    (hview : ∀ p q, view p = view q ↔ worth p = worth q ∧ key p = key q)
    (h : IsFront worth key inserted front) (h' : IsFront worth key inserted front')
    (hsorted : (front.map view).Pairwise (· < ·)) (hsorted' : (front'.map view).Pairwise (· < ·)) :
    front.map view = front'.map view := by
  have hsubset : ∀ {l l' : List P}, IsFront worth key inserted l → IsFront worth key inserted l' →
      ∀ v ∈ l.map view, v ∈ l'.map view := by
    intro l l' hl hl' v hv
    obtain ⟨p, hp, rfl⟩ := List.mem_map.mp hv
    obtain ⟨q, hq, hworth, hkey⟩ := hl'.shows_iff.mpr (hl.shows_iff.mp ⟨p, hp, rfl, rfl⟩)
    exact List.mem_map.mpr ⟨q, hq, (hview q p).mpr ⟨hworth, hkey⟩⟩
  exact List.Pairwise.eq_of_mem_iff hsorted hsorted' fun v => ⟨hsubset h h' v, hsubset h' h v⟩

end Front

end Acfqp.Library
