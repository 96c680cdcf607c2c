import Mathlib.Data.Finset.Image
import Mathlib.Data.List.Perm.Basic
import Mathlib.Logic.Equiv.Fin.Basic
import Mathlib.Tactic

/-!
# Lists over renamed positions

A permutation that maps the first numbers to themselves renames the positions of a list.
-/

namespace Acfqp.Library

/-- A permutation that maps the first numbers to themselves. -/
def Keeps (σ : Equiv.Perm ℕ) (n : ℕ) : Prop := ∀ v, σ v < n ↔ v < n

/-- A permutation of the vertices, which leaves every other number alone. -/
def cells {n : ℕ} (π : Equiv.Perm (Fin n)) : Equiv.Perm ℕ := π.extendDomain Fin.equivSubtype

theorem cells_of_le {n v : ℕ} (π : Equiv.Perm (Fin n)) (h : n ≤ v) : cells π v = v :=
  Equiv.Perm.extendDomain_apply_not_subtype _ _ (by omega)

theorem cells_of_lt {n v : ℕ} (π : Equiv.Perm (Fin n)) (h : v < n) : cells π v = (π ⟨v, h⟩ : ℕ) :=
  Equiv.Perm.extendDomain_apply_subtype π Fin.equivSubtype h

theorem keeps_cells {n : ℕ} (π : Equiv.Perm (Fin n)) : Keeps (cells π) n := by
  intro v
  by_cases h : v < n
  · simp [h, cells_of_lt π h]
  · rw [cells_of_le π (by omega)]

theorem Keeps.of_maps {σ : Equiv.Perm ℕ} {n : ℕ} (h : ∀ v < n, σ v < n) : Keeps σ n := by
  intro v
  refine ⟨fun hv => ?_, h v⟩
  have himage : (Finset.range n).map σ.toEmbedding = Finset.range n := by
    apply Finset.eq_of_subset_of_card_le
    · intro w hw
      obtain ⟨u, hu, rfl⟩ := Finset.mem_map.mp hw
      exact Finset.mem_range.mpr (h u (Finset.mem_range.mp hu))
    · simp
  have hmem : σ v ∈ (Finset.range n).map σ.toEmbedding := by
    rw [himage]
    exact Finset.mem_range.mpr hv
  simpa using hmem

theorem Keeps.symm {σ : Equiv.Perm ℕ} {n : ℕ} (h : Keeps σ n) : Keeps σ.symm n := by
  intro v
  rw [← h (σ.symm v), Equiv.apply_symm_apply]

variable (σ : Equiv.Perm ℕ)

/-! ## Ranks -/

def relabelRanks (ranks : List ℕ) : List ℕ :=
  (List.range ranks.length).map fun v => ranks.getD (σ.symm v) 0

variable {σ} {ranks : List ℕ}

@[simp] theorem length_relabelRanks : (relabelRanks σ ranks).length = ranks.length := by
  simp [relabelRanks]

theorem getElem?_relabelRanks (h : Keeps σ ranks.length) (v : ℕ) :
    (relabelRanks σ ranks)[σ v]? = ranks[v]? := by
  by_cases hv : v < ranks.length
  · have hv' := (h v).mpr hv
    simp [relabelRanks, hv, hv']
  · have hv' := mt (h v).mp hv
    rw [List.getElem?_eq_none (by simpa using hv'), List.getElem?_eq_none (by omega)]

theorem zipIdx_eq_range (ranks : List ℕ) :
    ranks.zipIdx = (List.range ranks.length).map fun v => (ranks.getD v 0, v) := by
  apply List.ext_getElem
  · simp
  · intro i hi hi'
    have : i < ranks.length := by simpa using hi
    simp [this]

/-- The vertices keep their ranks under their new names. -/
theorem zipIdx_relabelRanks (h : Keeps σ ranks.length) :
    (relabelRanks σ ranks).zipIdx.Perm (ranks.zipIdx.map fun e => (e.1, σ e.2)) := by
  have hrange : (List.range ranks.length).Perm ((List.range ranks.length).map σ) := by
    rw [List.perm_ext_iff_of_nodup List.nodup_range (List.nodup_range.map σ.injective)]
    intro v
    rw [List.mem_range, List.mem_map]
    constructor
    · intro hv
      exact ⟨σ.symm v, List.mem_range.mpr ((h.symm v).mpr hv), σ.apply_symm_apply v⟩
    · rintro ⟨u, hu, rfl⟩
      exact (h u).mpr (List.mem_range.mp hu)
  rw [zipIdx_eq_range, zipIdx_eq_range, length_relabelRanks, List.map_map]
  refine (hrange.map _).trans (List.Perm.of_eq ?_)
  rw [List.map_map]
  refine List.map_congr_left fun v hv => ?_
  simp [List.getD_eq_getElem?_getD, getElem?_relabelRanks h v]

theorem perm_relabelRanks (h : Keeps σ ranks.length) : (relabelRanks σ ranks).Perm ranks := by
  have := (zipIdx_relabelRanks h).map Prod.fst
  rwa [List.map_map, List.zipIdx_map_fst, show Prod.fst ∘ (fun e : ℕ × ℕ => (e.1, σ e.2)) =
    Prod.fst from rfl, List.zipIdx_map_fst] at this

end Acfqp.Library
