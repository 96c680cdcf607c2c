import Acfqp.Domains.MatchingBufferRuns
import Acfqp.Library.Permutations

/-!
# Automorphisms of the matching buffer

A permutation of the tiles and one of the types are an automorphism when they keep the type and the
blockers of every tile. They are enumerated type by type: a tile of one type can only go to a tile
of the image of the type.
-/

namespace Acfqp.Domains

open Library

/-- A tile permutation paired with one global type relabelling, by the images of the indices. -/
structure LMBAutomorphism where
  tilePermutation : List ℕ
  typePermutation : List ℕ
  deriving DecidableEq

section Enumeration

variable (kernel : LMBKernel)

def tileGroup (type : ℕ) : List ℕ :=
  (List.range kernel.tileCount).filter fun tile => tileType kernel tile = type

/-- The type permutations that keep the sizes of the groups, each with the rearrangements of every
target group. The result is sorted and the cap only counts, so the order of rearrangements does not
matter. -/
def automorphismCandidates : List (List ℕ × List (List ℕ)) :=
  (List.range kernel.typeCount).permutations'.flatMap fun typePermutation =>
    if ∀ source < kernel.typeCount, (tileGroup kernel source).length =
        (tileGroup kernel (typePermutation.getD source 0)).length then
      (cartesian ((List.range kernel.typeCount).map fun source =>
        (tileGroup kernel (typePermutation.getD source 0)).permutations')).map fun groupImages =>
          (typePermutation, groupImages)
    else []

def imagePairs (groupImages : List (List ℕ)) : List (ℕ × ℕ) :=
  (((List.range kernel.typeCount).map (tileGroup kernel)).zip groupImages).flatMap fun g =>
    g.1.zip g.2

def tilePermutationOf (groupImages : List (List ℕ)) : Option (List ℕ) :=
  (setAll (List.replicate kernel.tileCount none) (imagePairs kernel groupImages)).mapM id

def KeepsBlockers (permutation : List ℕ) : Prop :=
  ∀ source < kernel.tileCount,
    (blockersOf kernel.blockers source).image (fun blocker => permutation.getD blocker 0) =
      blockersOf kernel.blockers (permutation.getD source 0)

instance (permutation : List ℕ) : Decidable (KeepsBlockers kernel permutation) :=
  inferInstanceAs (Decidable (∀ source < kernel.tileCount, _))

def candidateCapExceeded : PyError :=
  .runtimeError "LMB automorphism enumeration exceeded its cap"

def testCandidate (candidateCap : ℕ) (counted : ℕ × List LMBAutomorphism)
    (candidate : List ℕ × List (List ℕ)) : Except PyError (ℕ × List LMBAutomorphism) := do
  require (counted.1 + 1 ≤ candidateCap) candidateCapExceeded
  let permutation ← orRaise (tilePermutationOf kernel candidate.2)
    (.assertionError "LMB tile automorphism is incomplete")
  return (counted.1 + 1, if KeepsBlockers kernel permutation then
    counted.2 ++ [⟨permutation, candidate.1⟩] else counted.2)

def automorphismKey (automorphism : LMBAutomorphism) : List ℕ ×ₗ List ℕ :=
  toLex (automorphism.tilePermutation, automorphism.typePermutation)

def enumerateLmbAutomorphisms (candidateCap : ℕ) : Except PyError (List LMBAutomorphism) := do
  require (0 < candidateCap)
    (.valueError "LMB automorphism candidate cap must be positive")
  let (_, automorphisms) ← (automorphismCandidates kernel).foldlM
    (testCandidate kernel candidateCap) (0, [])
  require (automorphisms ≠ [])
    (.assertionError "every LMB kernel must have the identity automorphism")
  return sortBy automorphismKey automorphisms

end Enumeration

/-! ## Transforms -/

def transformLmbState (kernel : LMBKernel) (state : LMBState) (automorphism : LMBAutomorphism) :
    Except PyError LMBState := do
  require (automorphism.tilePermutation.length = kernel.tileCount)
    (.valueError "LMB automorphism tile permutation has the wrong size")
  require (automorphism.typePermutation.length = kernel.typeCount)
    (.valueError "LMB automorphism type permutation has the wrong size")
  let removedMask := automorphism.tilePermutation.zipIdx.foldl (fun mask entry =>
    if state.removedMask.testBit entry.2 then mask ||| 1 <<< entry.1 else mask) 0
  let buffer := automorphism.typePermutation.zipIdx.foldl (fun buffer entry =>
    buffer.set entry.1 (state.buffer.getD entry.2 0)) (List.replicate kernel.typeCount 0)
  return ⟨removedMask, buffer, state.status⟩

def transformLmbAction (kernel : LMBKernel) (action : LMBAction) (automorphism : LMBAutomorphism) :
    Except PyError LMBAction := do
  require (action.tile < kernel.tileCount) (.valueError "LMB action tile lies outside the kernel")
  return ⟨automorphism.tilePermutation.getD action.tile 0⟩

/-! ## What an automorphism is -/

/-- Permutations that keep the types, through the type permutation, and the blockers. -/
structure IsAutomorphism (kernel : LMBKernel) (automorphism : LMBAutomorphism) : Prop where
  tiles : automorphism.tilePermutation.Perm (List.range kernel.tileCount)
  types : automorphism.typePermutation.Perm (List.range kernel.typeCount)
  keepsTypes : ∀ tile < kernel.tileCount,
    tileType kernel (automorphism.tilePermutation.getD tile 0) =
      automorphism.typePermutation.getD (tileType kernel tile) 0
  keepsBlockers : KeepsBlockers kernel automorphism.tilePermutation

/-- The same, as permutations of the numbers. -/
structure Preserves (kernel : LMBKernel) (σ τ : Equiv.Perm ℕ) : Prop where
  tiles : Keeps σ kernel.tileCount
  types : Keeps τ kernel.typeCount
  keepsTypes : ∀ tile < kernel.tileCount, tileType kernel (σ tile) = τ (tileType kernel tile)
  keepsBlockers : ∀ tile < kernel.tileCount,
    (blockersOf kernel.blockers tile).image σ = blockersOf kernel.blockers (σ tile)

def listed (kernel : LMBKernel) (σ τ : Equiv.Perm ℕ) : LMBAutomorphism :=
  ⟨(List.range kernel.tileCount).map σ, (List.range kernel.typeCount).map τ⟩

section Lists

variable {kernel : LMBKernel} {σ τ : Equiv.Perm ℕ}

theorem keepsBlockers_listed :
    KeepsBlockers kernel ((List.range kernel.tileCount).map σ) ↔
      ∀ tile < kernel.tileCount,
        (blockersOf kernel.blockers tile).image σ = blockersOf kernel.blockers (σ tile) := by
  unfold KeepsBlockers
  refine forall_congr' fun tile => forall_congr' fun hlt => ?_
  rw [getD_map_range hlt]
  have himage : (blockersOf kernel.blockers tile).image
      (fun blocker => ((List.range kernel.tileCount).map σ).getD blocker 0) =
        (blockersOf kernel.blockers tile).image σ :=
    Finset.image_congr fun blocker hblocker =>
      getD_map_range ((kernel.blockers_valid tile hlt).2 blocker hblocker)
  rw [himage]

/-- An automorphism lists the images of permutations that keep types and blockers. -/
theorem isAutomorphism_iff {automorphism : LMBAutomorphism} :
    IsAutomorphism kernel automorphism ↔
      ∃ σ τ, Preserves kernel σ τ ∧ automorphism = listed kernel σ τ := by
  constructor
  · rintro ⟨htiles, htypes, hkeeps, hblockers⟩
    obtain ⟨σ, hσ, hlist⟩ := exists_perm_of_range htiles
    obtain ⟨τ, hτ, hlist'⟩ := exists_perm_of_range htypes
    obtain ⟨tiles, types⟩ := automorphism
    obtain rfl : tiles = _ := hlist
    obtain rfl : types = _ := hlist'
    refine ⟨σ, τ, ⟨hσ, hτ, fun tile hlt => ?_, keepsBlockers_listed.mp hblockers⟩, rfl⟩
    have := hkeeps tile hlt
    rwa [getD_map_range hlt, getD_map_range (tileType_lt hlt)] at this
  · rintro ⟨σ, τ, h, rfl⟩
    refine ⟨perm_map_range h.tiles, perm_map_range h.types, fun tile hlt => ?_,
      keepsBlockers_listed.mpr h.keepsBlockers⟩
    change tileType kernel (((List.range _).map σ).getD tile 0) =
      ((List.range _).map τ).getD (tileType kernel tile) 0
    rw [getD_map_range hlt, getD_map_range (tileType_lt hlt)]
    exact h.keepsTypes tile hlt

end Lists

section Candidates

variable {kernel : LMBKernel} {σ τ : Equiv.Perm ℕ}

theorem mem_tileGroup {type tile : ℕ} :
    tile ∈ tileGroup kernel type ↔ tile < kernel.tileCount ∧ tileType kernel tile = type := by
  simp [tileGroup]

theorem nodup_tileGroup (type : ℕ) : (tileGroup kernel type).Nodup := List.nodup_range.filter _

theorem perm_tileGroups :
    ((List.range kernel.typeCount).flatMap (tileGroup kernel)).Perm
      (List.range kernel.tileCount) := by
  refine (List.perm_ext_iff_of_nodup (List.nodup_flatMap.mpr ⟨fun type _ => nodup_tileGroup type,
    List.nodup_range.imp fun hne => ?_⟩) List.nodup_range).mpr fun tile => ?_
  · intro tile htile htile'
    exact hne ((mem_tileGroup.mp htile).2.symm.trans (mem_tileGroup.mp htile').2)
  · simp only [List.mem_flatMap, List.mem_range, mem_tileGroup]
    exact ⟨fun ⟨_, _, hlt, _⟩ => hlt, fun hlt => ⟨_, tileType_lt hlt, hlt, rfl⟩⟩

theorem imagePairs_eq (groupImages : List (List ℕ)) : imagePairs kernel groupImages =
    ((List.range kernel.typeCount).zip groupImages).flatMap fun g =>
      (tileGroup kernel g.1).zip g.2 := by
  rw [imagePairs, List.zip_map_left, List.flatMap_map]
  rfl

def groupsUnder (kernel : LMBKernel) (σ : Equiv.Perm ℕ) : List (List ℕ) :=
  (List.range kernel.typeCount).map fun type => (tileGroup kernel type).map σ

theorem tilePermutationOf_groupsUnder (σ : Equiv.Perm ℕ) :
    tilePermutationOf kernel (groupsUnder kernel σ) =
      some ((List.range kernel.tileCount).map σ) := by
  have hpairs : imagePairs kernel (groupsUnder kernel σ) =
      (List.range kernel.typeCount).flatMap fun type =>
        (tileGroup kernel type).map fun tile => (tile, σ tile) := by
    have hzip : ∀ l : List ℕ, l.zip (l.map σ) = l.map fun tile => (tile, σ tile) := fun l => by
      simpa using List.zip_map' (f := fun tile : ℕ => tile) (g := σ) (l := l)
    rw [imagePairs, groupsUnder, List.zip_map', List.flatMap_map]
    simp only [hzip]
  refine mapM_setAll ?_ ?_
  · rw [hpairs, List.map_flatMap]
    simp only [List.map_map, Function.comp_def, List.map_id']
    exact perm_tileGroups
  · rw [hpairs]
    simp only [List.mem_flatMap, List.mem_map]
    rintro _ ⟨type, -, tile, -, rfl⟩
    rfl

/-- Groups of the same sizes with rearranged targets. -/
theorem mem_automorphismCandidates {candidate : List ℕ × List (List ℕ)} :
    candidate ∈ automorphismCandidates kernel ↔
      candidate.1.Perm (List.range kernel.typeCount) ∧
      (∀ source < kernel.typeCount, (tileGroup kernel source).length =
        (tileGroup kernel (candidate.1.getD source 0)).length) ∧
      List.Forall₂ (fun source images =>
        images.Perm (tileGroup kernel (candidate.1.getD source 0)))
        (List.range kernel.typeCount) candidate.2 := by
  obtain ⟨types, images⟩ := candidate
  have hforall : ∀ ts : List ℕ, images ∈ cartesian ((List.range kernel.typeCount).map fun source =>
      (tileGroup kernel (ts.getD source 0)).permutations') ↔
      List.Forall₂ (fun source images => images.Perm (tileGroup kernel (ts.getD source 0)))
        (List.range kernel.typeCount) images := by
    intro ts
    rw [mem_cartesian, List.forall₂_map_right_iff]
    simp only [List.mem_permutations']
    exact ⟨List.Forall₂.flip, List.Forall₂.flip⟩
  simp only [automorphismCandidates, List.mem_flatMap, List.mem_permutations']
  constructor
  · rintro ⟨ts, hts, h⟩
    split at h
    · rename_i hsizes
      obtain ⟨ims, hims, heq⟩ := List.mem_map.mp h
      obtain ⟨rfl, rfl⟩ := Prod.mk.inj heq
      exact ⟨hts, hsizes, (hforall _).mp hims⟩
    · cases h
  · rintro ⟨hts, hsizes, hims⟩
    refine ⟨types, hts, ?_⟩
    rw [if_pos hsizes]
    exact List.mem_map.mpr ⟨images, (hforall _).mpr hims, rfl⟩

theorem candidate_of_keepsTypes (hσ : Keeps σ kernel.tileCount) (hτ : Keeps τ kernel.typeCount)
    (hkeeps : ∀ tile < kernel.tileCount, tileType kernel (σ tile) = τ (tileType kernel tile)) :
    ((List.range kernel.typeCount).map τ, groupsUnder kernel σ) ∈
      automorphismCandidates kernel := by
  have hgroup : ∀ source, source < kernel.typeCount →
      ((tileGroup kernel source).map σ).Perm (tileGroup kernel (τ source)) := by
    intro source _
    refine (List.perm_ext_iff_of_nodup ((nodup_tileGroup source).map σ.injective)
      (nodup_tileGroup _)).mpr fun tile => ?_
    rw [List.mem_map, mem_tileGroup]
    constructor
    · rintro ⟨tile, htile, rfl⟩
      obtain ⟨hlt, rfl⟩ := mem_tileGroup.mp htile
      exact ⟨(hσ tile).mpr hlt, hkeeps tile hlt⟩
    · rintro ⟨hlt, htype⟩
      have hlt' : σ.symm tile < kernel.tileCount := (hσ.symm tile).mpr hlt
      have hback := hkeeps _ hlt'
      rw [Equiv.apply_symm_apply, htype] at hback
      exact ⟨σ.symm tile, mem_tileGroup.mpr ⟨hlt', (τ.injective hback).symm⟩,
        σ.apply_symm_apply tile⟩
  refine mem_automorphismCandidates.mpr ⟨perm_map_range hτ, fun source hlt => ?_, ?_⟩
  · rw [getD_map_range hlt, ← (hgroup source hlt).length_eq, List.length_map]
  · refine List.forall₂_map_right_iff.mpr (List.forall₂_same.mpr fun source hmem => ?_)
    have hlt := List.mem_range.mp hmem
    simp only [getD_map_range hlt]
    exact hgroup source hlt

theorem keepsTypes_of_candidate {candidate : List ℕ × List (List ℕ)}
    (h : candidate ∈ automorphismCandidates kernel) :
    ∃ σ τ : Equiv.Perm ℕ, Keeps σ kernel.tileCount ∧ Keeps τ kernel.typeCount ∧
      (∀ tile < kernel.tileCount, tileType kernel (σ tile) = τ (tileType kernel tile)) ∧
      candidate = ((List.range kernel.typeCount).map τ, groupsUnder kernel σ) := by
  obtain ⟨types, images⟩ := candidate
  obtain ⟨htypes, hsizes, himages⟩ := mem_automorphismCandidates.mp h
  obtain ⟨τ, hτ, rfl⟩ := exists_perm_of_range htypes
  have hlength := himages.length_eq
  -- The tiles of a group and their images, as the pairs that are read.
  have hpair : ∀ g ∈ (List.range kernel.typeCount).zip images, g.1 < kernel.typeCount ∧
      g.2.Perm (tileGroup kernel (τ g.1)) ∧ (tileGroup kernel g.1).length = g.2.length := by
    intro g hg
    have hlt := List.mem_range.mp (List.of_mem_zip hg).1
    have hperm := (List.forall₂_iff_zip.mp himages).2 hg
    have hsize := hsizes g.1 hlt
    simp only [getD_map_range hlt] at hperm hsize
    exact ⟨hlt, hperm, hsize.trans hperm.length_eq.symm⟩
  have hkeys : ((imagePairs kernel images).map Prod.fst).Perm (List.range kernel.tileCount) := by
    rw [imagePairs_eq, List.map_flatMap]
    have heq : (((List.range kernel.typeCount).zip images).flatMap fun g =>
        ((tileGroup kernel g.1).zip g.2).map Prod.fst) =
          (((List.range kernel.typeCount).zip images).map Prod.fst).flatMap (tileGroup kernel) := by
      rw [List.flatMap_map]
      exact List.flatMap_congr fun g hg => List.map_fst_zip (hpair g hg).2.2.le
    rw [heq, List.map_fst_zip hlength.le]
    exact perm_tileGroups
  have hvalues : ((imagePairs kernel images).map Prod.snd).Perm (List.range kernel.tileCount) := by
    rw [imagePairs_eq, List.map_flatMap]
    have heq : (((List.range kernel.typeCount).zip images).flatMap fun g =>
        ((tileGroup kernel g.1).zip g.2).map Prod.snd).Perm
          ((((List.range kernel.typeCount).zip images).map Prod.fst).flatMap fun type =>
            tileGroup kernel (τ type)) := by
      rw [List.flatMap_map]
      refine List.Perm.flatMap_left _ fun g hg => ?_
      rw [List.map_snd_zip (hpair g hg).2.2.ge]
      exact (hpair g hg).2.1
    refine heq.trans ?_
    rw [List.map_fst_zip hlength.le, ← List.flatMap_map (f := τ) (g := tileGroup kernel)]
    exact ((perm_map_range hτ).flatMap_right _).trans perm_tileGroups
  let image : ℕ → ℕ := fun tile => ((imagePairs kernel images).lookup tile).getD 0
  have himage : ∀ e ∈ imagePairs kernel images, e.2 = image e.1 := by
    intro e he
    simp [image, Dict.lookup_eq_some (hkeys.nodup_iff.mpr List.nodup_range) he]
  have hlist : ((List.range kernel.tileCount).map image).Perm (List.range kernel.tileCount) := by
    refine (hkeys.map image).symm.trans ?_
    rw [List.map_map]
    refine (List.Perm.of_eq (List.map_congr_left fun e he => ?_)).trans hvalues
    exact (himage e he).symm
  obtain ⟨σ, hσ, heqσ⟩ := exists_perm_of_range hlist
  have hσimage : ∀ tile < kernel.tileCount, image tile = σ tile := fun tile hlt => by
    rw [← getD_map_range (f := image) hlt, heqσ, getD_map_range hlt]
  refine ⟨σ, τ, hσ, hτ, fun tile hlt => ?_, Prod.ext rfl ?_⟩
  · obtain ⟨e, he, rfl⟩ := List.mem_map.mp (hkeys.mem_iff.mpr (List.mem_range.mpr hlt))
    rw [← hσimage _ hlt, ← himage e he]
    rw [imagePairs_eq] at he
    obtain ⟨g, hg, he⟩ := List.mem_flatMap.mp he
    obtain ⟨hfst, hsnd⟩ := List.of_mem_zip he
    rw [(mem_tileGroup.mp hfst).2, (mem_tileGroup.mp ((hpair g hg).2.1.mem_iff.mp hsnd)).2]
  · have hgroups : List.Forall₂ (fun source images => (tileGroup kernel source).map σ = images)
        (List.range kernel.typeCount) images := by
      refine List.forall₂_iff_zip.mpr ⟨hlength, fun {source ims} hg => ?_⟩
      have hsize := (hpair _ hg).2.2
      refine List.ext_getElem (by simpa using hsize) fun i hi hi' => ?_
      have hindex : i < (tileGroup kernel source).length := by simpa using hi
      have hmem : ((tileGroup kernel source)[i], ims[i]) ∈ imagePairs kernel images := by
        rw [imagePairs_eq]
        refine List.mem_flatMap.mpr ⟨_, hg, ?_⟩
        exact List.mem_iff_getElem.mpr ⟨i, by simp [hindex, hi'], List.getElem_zip⟩
      rw [List.getElem_map, ← hσimage _ (mem_tileGroup.mp (List.getElem_mem hindex)).1]
      exact (himage _ hmem).symm
    have hmap := List.forall₂_map_left_iff.mpr hgroups
    rw [List.forall₂_eq_eq_eq] at hmap
    exact hmap.symm

theorem nodup_automorphismCandidates : (automorphismCandidates kernel).Nodup := by
  refine List.nodup_flatMap.mpr ⟨fun types _ => ?_,
    (nodup_permutations' List.nodup_range).imp fun hne => ?_⟩
  · split
    · refine (nodup_cartesian fun l hl => ?_).map fun _ _ heq => (Prod.mk.inj heq).2
      obtain ⟨source, -, rfl⟩ := List.mem_map.mp hl
      exact nodup_permutations' (nodup_tileGroup _)
    · exact List.nodup_nil
  · intro candidate h h'
    dsimp only at h h'
    split at h
    · split at h'
      · obtain ⟨_, -, rfl⟩ := List.mem_map.mp h
        obtain ⟨_, -, heq⟩ := List.mem_map.mp h'
        exact hne (Prod.mk.inj heq).1.symm
      · cases h'
    · cases h

end Candidates

/-! ## The enumeration is exact -/

section

variable {kernel : LMBKernel}

def automorphismOf (kernel : LMBKernel) (candidate : List ℕ × List (List ℕ)) : LMBAutomorphism :=
  ⟨(tilePermutationOf kernel candidate.2).getD [], candidate.1⟩

theorem automorphismOf_groupsUnder (σ τ : Equiv.Perm ℕ) :
    automorphismOf kernel ((List.range kernel.typeCount).map τ, groupsUnder kernel σ) =
      listed kernel σ τ := by
  rw [automorphismOf, tilePermutationOf_groupsUnder]
  rfl

def kept (kernel : LMBKernel) (candidates : List (List ℕ × List (List ℕ))) :
    List LMBAutomorphism :=
  (candidates.map (automorphismOf kernel)).filter fun a => KeepsBlockers kernel a.tilePermutation

theorem foldlM_testCandidate {candidateCap : ℕ} {candidates : List (List ℕ × List (List ℕ))}
    (hsub : ∀ c ∈ candidates, c ∈ automorphismCandidates kernel) (count : ℕ)
    (found : List LMBAutomorphism) (hcount : count ≤ candidateCap) :
    candidates.foldlM (testCandidate kernel candidateCap) (count, found) =
      if count + candidates.length ≤ candidateCap then
        .ok (count + candidates.length, found ++ kept kernel candidates)
      else .error candidateCapExceeded := by
  induction candidates generalizing count found with
  | nil =>
    simp [hcount, kept]
  | cons c candidates ih =>
    obtain ⟨hc, hrest⟩ := List.forall_mem_cons.mp hsub
    obtain ⟨σ, τ, -, -, -, rfl⟩ := keepsTypes_of_candidate hc
    rw [List.foldlM_cons, List.length_cons]
    by_cases hroom : count + 1 ≤ candidateCap
    · have htest : testCandidate kernel candidateCap (count, found)
          ((List.range kernel.typeCount).map τ, groupsUnder kernel σ) =
            .ok (count + 1, if KeepsBlockers kernel (listed kernel σ τ).tilePermutation then
              found ++ [listed kernel σ τ] else found) := by
        unfold testCandidate
        rw [bind_of_ok (require_eq_ok (u := ()).mpr hroom),
          bind_of_ok (orRaise_eq_ok.mpr (tilePermutationOf_groupsUnder σ))]
        rfl
      rw [bind_of_ok htest, ih hrest _ _ hroom]
      have hkept : (if KeepsBlockers kernel (listed kernel σ τ).tilePermutation then
            found ++ [listed kernel σ τ] else found) ++ kept kernel candidates =
          found ++ kept kernel
            (((List.range kernel.typeCount).map τ, groupsUnder kernel σ) :: candidates) := by
        unfold kept
        rw [List.map_cons, automorphismOf_groupsUnder, List.filter_cons]
        by_cases hkeeps : KeepsBlockers kernel (listed kernel σ τ).tilePermutation
        · simp [hkeeps]
        · simp [hkeeps]
      rw [hkept]
      simp only [Nat.add_assoc, Nat.add_comm 1]
    · rw [if_neg (by omega)]
      have htest : testCandidate kernel candidateCap (count, found)
          ((List.range kernel.typeCount).map τ, groupsUnder kernel σ) =
            .error candidateCapExceeded := by
        unfold testCandidate
        rw [require, if_neg hroom]
        rfl
      rw [htest]
      rfl

theorem mem_kept {automorphism : LMBAutomorphism} :
    automorphism ∈ kept kernel (automorphismCandidates kernel) ↔
      IsAutomorphism kernel automorphism := by
  unfold kept
  rw [List.mem_filter, List.mem_map, isAutomorphism_iff, decide_eq_true_eq]
  constructor
  · rintro ⟨⟨candidate, hcandidate, rfl⟩, hblockers⟩
    obtain ⟨σ, τ, hσ, hτ, hkeeps, rfl⟩ := keepsTypes_of_candidate hcandidate
    rw [automorphismOf_groupsUnder] at hblockers ⊢
    exact ⟨σ, τ, ⟨hσ, hτ, hkeeps, keepsBlockers_listed.mp hblockers⟩, rfl⟩
  · rintro ⟨σ, τ, h, rfl⟩
    exact ⟨⟨_, candidate_of_keepsTypes h.tiles h.types h.keepsTypes,
      automorphismOf_groupsUnder σ τ⟩, keepsBlockers_listed.mpr h.keepsBlockers⟩

theorem nodup_kept : (kept kernel (automorphismCandidates kernel)).Nodup := by
  refine List.Nodup.filter _ (nodup_automorphismCandidates.map_on fun c hc c' hc' heq => ?_)
  obtain ⟨σ, τ, hσ, hτ, -, rfl⟩ := keepsTypes_of_candidate hc
  obtain ⟨σ', τ', hσ', hτ', -, rfl⟩ := keepsTypes_of_candidate hc'
  rw [automorphismOf_groupsUnder, automorphismOf_groupsUnder] at heq
  obtain ⟨htiles, htypes⟩ := LMBAutomorphism.mk.inj heq
  have hσeq : ∀ tile < kernel.tileCount, σ tile = σ' tile := fun tile hlt => by
    rw [← getD_map_range (f := σ) hlt, htiles, getD_map_range hlt]
  have hgroups : groupsUnder kernel σ = groupsUnder kernel σ' :=
    List.map_congr_left fun type _ => List.map_congr_left fun tile htile =>
      hσeq tile (mem_tileGroup.mp htile).1
  rw [htypes, hgroups]

/-- The identity is an automorphism. -/
theorem preserves_one : Preserves kernel 1 1 where
  tiles _ := Iff.rfl
  types _ := Iff.rfl
  keepsTypes _ _ := rfl
  keepsBlockers tile _ := by simp

/-- Within the cap the enumeration returns every automorphism once, in order, and beyond the cap it
raises. -/
theorem enumerateLmbAutomorphisms_eq {candidateCap : ℕ} (hpos : 0 < candidateCap) :
    enumerateLmbAutomorphisms kernel candidateCap =
      if (automorphismCandidates kernel).length ≤ candidateCap then
        .ok (sortBy automorphismKey (kept kernel (automorphismCandidates kernel)))
      else .error candidateCapExceeded := by
  have hloop := @foldlM_testCandidate kernel candidateCap (automorphismCandidates kernel)
    (fun _ => id) 0 [] (Nat.zero_le candidateCap)
  simp only [Nat.zero_add, List.nil_append] at hloop
  unfold enumerateLmbAutomorphisms
  rw [bind_of_ok (require_eq_ok (u := ()).mpr hpos), hloop]
  split
  · have hne : kept kernel (automorphismCandidates kernel) ≠ [] :=
      List.ne_nil_of_mem (mem_kept.mpr (isAutomorphism_iff.mpr ⟨1, 1, preserves_one, rfl⟩))
    exact bind_of_ok (require_eq_ok (u := ()).mpr hne)
  · rfl

end

end Acfqp.Domains
