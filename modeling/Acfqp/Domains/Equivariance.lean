import Acfqp.Domains.G2048
import Acfqp.Library.Square

/-!
# The dynamics commute with the symmetries of the square

A symmetry renames the cells and keeps their distances, and nothing in the dynamics but their order
of enumeration depends on more than that.
-/

namespace Acfqp.Domains

open Library

/-- The renaming of the cells by a transform. -/
def symmetry (size : ℕ) (transform : D4Transform) : Equiv.Perm ℕ :=
  symmetryCells size (transformParameters transform).1 (transformParameters transform).2

theorem keeps_symmetry (size : ℕ) (transform : D4Transform) :
    Keeps (symmetry size transform) (size * size) := keeps_symmetryCells _ _

section Transforms

variable {size : ℕ} {transform : D4Transform}

theorem rotateCell_iterate (turns : ℕ) (p : Fin size × Fin size) :
    (rotateCell size)^[turns] ((p.1 : ℕ), (p.2 : ℕ)) =
      ((((turn size ^ turns) p).1 : ℕ), (((turn size ^ turns) p).2 : ℕ)) := by
  induction turns with
  | zero => rfl
  | succ turns ih =>
    rw [Function.iterate_succ_apply', ih, pow_succ', Equiv.Perm.mul_apply]
    generalize (turn size ^ turns) p = q
    have hrev : ((turn size q).2 : ℕ) = size - 1 - q.1 := by
      change ((Fin.rev q.1 : Fin size) : ℕ) = _
      rw [Fin.val_rev]
      omega
    exact Prod.ext rfl hrev.symm

theorem transformCell_eq (hsize : 2 ≤ size) {cell : ℕ} (hcell : cell < size * size) :
    transformCell cell size transform = .ok (symmetry size transform cell) := by
  unfold transformCell symmetry
  generalize transformParameters transform = parameters
  obtain ⟨reflected, turns⟩ := parameters
  have hcolumn : (if reflected then size - 1 - cell % size else cell % size) =
      (((if reflected then mirror size else 1) (place hcell)).2 : ℕ) := by
    cases reflected
    · rfl
    · change _ = ((Fin.rev (place hcell).2 : Fin size) : ℕ)
      rw [Fin.val_rev, place_snd, if_pos rfl]
      omega
  have hrow : cell / size = (((if reflected then mirror size else 1) (place hcell)).1 : ℕ) := by
    cases reflected <;> rfl
  dsimp only
  rw [symmetryCells_of_lt _ _ hcell, squareSymmetry, Equiv.Perm.mul_apply, hcolumn, hrow,
    rotateCell_iterate, require, if_pos hsize, require, if_pos hcell]
  rfl

/-- Setting renamed positions one after the other renames the list. -/
theorem foldl_set_renamed {σ : Equiv.Perm ℕ} {ranks : List ℕ} {k : ℕ}
    (hk : k ≤ ranks.length) :
    (List.range k).foldl (fun b v => b.set (σ v) (ranks.getD v 0))
        (List.replicate ranks.length 0) =
      (List.range ranks.length).map fun w =>
        if σ.symm w < k then ranks.getD (σ.symm w) 0 else 0 := by
  induction k with
  | zero =>
    apply List.ext_getElem <;> simp
  | succ k ih =>
    rw [List.range_succ, List.foldl_append, ih (by omega), List.foldl_cons, List.foldl_nil]
    apply List.ext_getElem
    · simp
    · intro w hw _
      have hw' : w < ranks.length := by simpa using hw
      rw [List.getElem_set]
      by_cases hwk : σ k = w
      · subst hwk
        simp
      · have hne : σ.symm w ≠ k := fun heq => hwk (by rw [← heq, Equiv.apply_symm_apply])
        simp only [hwk, if_false, List.getElem_map, List.getElem_range]
        congr 1
        simp only [eq_iff_iff]
        omega

theorem transformBoard_eq (hsize : 2 ≤ size) {board : List ℕ}
    (hboard : board.length = size * size) :
    transformBoard board size transform = .ok (relabelRanks (symmetry size transform) board) := by
  have hkeeps : Keeps (symmetry size transform) board.length :=
    hboard ▸ keeps_symmetry size transform
  have hfold : ∀ (l : List ℕ), (∀ v ∈ l, v < size * size) → ∀ b : List ℕ,
      (l.map fun v => (board.getD v 0, v)).foldlM (fun transformed entry => do
        let cell ← transformCell entry.2 size transform
        return transformed.set cell entry.1) b =
      Except.ok (l.foldl (fun b v => b.set (symmetry size transform v) (board.getD v 0)) b) := by
    intro l
    induction l with
    | nil => exact fun _ _ => rfl
    | cons v l ih =>
      intro hl b
      rw [List.map_cons, List.foldlM_cons, transformCell_eq hsize (hl v List.mem_cons_self)]
      exact ih (fun w hw => hl w (List.mem_cons_of_mem v hw)) _
  have hcells : ∀ v ∈ List.range board.length, v < size * size := by
    intro v hv
    rw [← hboard]
    exact List.mem_range.mp hv
  rw [transformBoard, require, if_pos hboard, zipIdx_eq_range]
  refine (hfold _ hcells _).trans (congrArg _ ?_)
  rw [foldl_set_renamed le_rfl, relabelRanks]
  refine List.map_congr_left fun w hw => ?_
  rw [if_pos ((hkeeps.symm w).mpr (List.mem_range.mp hw))]

end Transforms

section Actions

variable {σ : Equiv.Perm ℕ}

variable (σ) in
def imageAction (a : G2048Action) : G2048Action where
  first := min (σ a.first) (σ a.second)
  second := max (σ a.first) (σ a.second)
  survivor := σ a.survivor
  ordered := min_lt_max.mpr (σ.injective.ne a.ordered.ne)
  survivor_mem := by
    rcases a.survivor_mem with h | h <;> rw [h] <;> rcases le_total (σ a.first) (σ a.second)
      with hle | hle
    · exact .inl (min_eq_left hle).symm
    · exact .inr (max_eq_left hle).symm
    · exact .inr (max_eq_right hle).symm
    · exact .inl (min_eq_right hle).symm

theorem imageAction_cases (σ : Equiv.Perm ℕ) (a : G2048Action) :
    ((imageAction σ a).first = σ a.first ∧ (imageAction σ a).second = σ a.second) ∨
    ((imageAction σ a).first = σ a.second ∧ (imageAction σ a).second = σ a.first) := by
  rcases le_total (σ a.first) (σ a.second) with h | h
  · exact .inl ⟨min_eq_left h, max_eq_right h⟩
  · exact .inr ⟨min_eq_right h, max_eq_left h⟩

@[simp] theorem imageAction_symm (σ : Equiv.Perm ℕ) (a : G2048Action) :
    imageAction σ.symm (imageAction σ a) = a := by
  apply G2048Action.triple_injective
  have ho := a.ordered
  have ho' := (imageAction σ.symm (imageAction σ a)).ordered
  have hsurvivor : (imageAction σ.symm (imageAction σ a)).survivor = a.survivor :=
    σ.symm_apply_apply a.survivor
  simp only [G2048Action.triple, Prod.mk.injEq, hsurvivor, and_true]
  obtain ⟨hf, hs⟩ | ⟨hf, hs⟩ := imageAction_cases σ a <;>
    obtain ⟨hf', hs'⟩ | ⟨hf', hs'⟩ := imageAction_cases σ.symm (imageAction σ a) <;>
    simp only [hf, hs, Equiv.symm_apply_apply] at hf' hs' <;>
    grind

theorem imageAction_injective (σ : Equiv.Perm ℕ) : Function.Injective (imageAction σ) :=
  Function.LeftInverse.injective (imageAction_symm σ)

theorem imageAction_surjective (σ : Equiv.Perm ℕ) (a : G2048Action) :
    imageAction σ (imageAction σ.symm a) = a := by
  simpa using imageAction_symm σ.symm a

end Actions

theorem transformAction_eq {size : ℕ} {transform : D4Transform} (hsize : 2 ≤ size)
    {action : G2048Action} (hcells : action.second < size * size) :
    transformAction action transform size = .ok (imageAction (symmetry size transform) action) := by
  have hfirst := action.ordered.trans hcells
  have hsurvivor : action.survivor < size * size := by
    rcases action.survivor_mem with h | h <;> rw [h] <;> assumption
  rw [transformAction, transformCell_eq hsize hfirst, transformCell_eq hsize hcells,
    transformCell_eq hsize hsurvivor]
  exact G2048Action.make_self (imageAction (symmetry size transform) action)

namespace G2048Kernel

variable {kernel : G2048Kernel}

theorem adjacent_iff {c d : ℕ} (hc : c < kernel.size * kernel.size)
    (hd : d < kernel.size * kernel.size) :
    kernel.Adjacent c d ↔ gridDistance (place hc) (place hd) = 1 := Iff.rfl

theorem adjacent_comm {c d : ℕ} : kernel.Adjacent c d ↔ kernel.Adjacent d c := by
  unfold Adjacent
  omega

/-! ## Legal merges -/

theorem mem_cellPairs {n : ℕ} {pair : ℕ × ℕ} :
    pair ∈ cellPairs n ↔ pair.1 < pair.2 ∧ pair.2 < n := by
  obtain ⟨first, second⟩ := pair
  simp only [cellPairs, List.mem_flatMap, List.mem_range, List.mem_map, List.mem_range'_1,
    Prod.mk.injEq]
  constructor
  · rintro ⟨_, hfirst, _, hsecond, rfl, rfl⟩
    omega
  · rintro ⟨hlt, hsecond⟩
    exact ⟨first, by omega, second, by omega, rfl, rfl⟩

theorem nodup_cellPairs (n : ℕ) : (cellPairs n).Nodup := by
  refine List.nodup_flatMap.mpr ⟨fun first _ => ?_, List.nodup_range.imp fun hne => ?_⟩
  · exact List.Nodup.map (fun _ _ h => (Prod.mk.inj h).2) (List.nodup_range' ..)
  · rintro pair hpair hpair'
    obtain ⟨_, -, rfl⟩ := List.mem_map.mp hpair
    obtain ⟨_, -, heq⟩ := List.mem_map.mp hpair'
    exact hne (Prod.mk.inj heq).1.symm

/-- The pair of an action is adjacent and has one rank, which is not empty. -/
structure Merges (kernel : G2048Kernel) (board : List ℕ) (a : G2048Action) : Prop where
  second_lt : a.second < kernel.size * kernel.size
  adjacent : kernel.Adjacent a.first a.second
  occupied : board.getD a.first 0 ≠ 0
  equal : board.getD a.first 0 = board.getD a.second 0

theorem mem_mergesOf {board : List ℕ} {pair : ℕ × ℕ} {a : G2048Action} :
    a ∈ kernel.mergesOf board pair ↔ pair = (a.first, a.second) ∧
      kernel.Adjacent a.first a.second ∧ board.getD a.first 0 ≠ 0 ∧
        board.getD a.first 0 = board.getD a.second 0 := by
  obtain ⟨first, second, survivor, ordered, hsurvivor⟩ := a
  obtain ⟨i, j⟩ := pair
  unfold mergesOf
  split
  · rename_i h
    simp only [List.mem_cons, G2048Action.mk.injEq, List.not_mem_nil, or_false, Prod.mk.injEq]
    constructor
    · rintro (⟨rfl, rfl, -⟩ | ⟨rfl, rfl, -⟩) <;> exact ⟨⟨rfl, rfl⟩, h.2⟩
    · rintro ⟨⟨rfl, rfl⟩, -⟩
      rcases hsurvivor with rfl | rfl <;> simp
  · rename_i h
    simp only [List.not_mem_nil, false_iff]
    rintro ⟨heq, hrest⟩
    obtain ⟨rfl, rfl⟩ := Prod.mk.inj heq
    exact h ⟨ordered, hrest⟩

theorem mem_merges {board : List ℕ} {a : G2048Action} :
    a ∈ kernel.merges board ↔ Merges kernel board a := by
  simp only [merges, List.mem_flatMap, mem_mergesOf, mem_cellPairs]
  constructor
  · rintro ⟨pair, ⟨-, hlt⟩, rfl, hadjacent, hoccupied, hequal⟩
    exact ⟨hlt, hadjacent, hoccupied, hequal⟩
  · rintro ⟨hlt, hadjacent, hoccupied, hequal⟩
    exact ⟨_, ⟨a.ordered, hlt⟩, rfl, hadjacent, hoccupied, hequal⟩

theorem nodup_merges (board : List ℕ) : (kernel.merges board).Nodup := by
  refine List.nodup_flatMap.mpr ⟨fun pair _ => ?_, (nodup_cellPairs _).imp fun hne => ?_⟩
  · unfold mergesOf
    split
    · rename_i h
      simp [h.1.ne]
    · exact List.nodup_nil
  · intro a ha ha'
    exact hne ((mem_mergesOf.mp ha).1.trans (mem_mergesOf.mp ha').1.symm)

end G2048Kernel

section Boards

variable {kernel : G2048Kernel} {board : List ℕ}

variable (kernel) in
/-- A renaming of the cells that keeps which of them are adjacent. -/
structure Symmetric (σ : Equiv.Perm ℕ) : Prop where
  keeps : Keeps σ (kernel.size * kernel.size)
  adjacent : ∀ c < kernel.size * kernel.size, ∀ d < kernel.size * kernel.size,
    (kernel.Adjacent (σ c) (σ d) ↔ kernel.Adjacent c d)

theorem symmetric_symmetry (transform : D4Transform) :
    Symmetric kernel (symmetry kernel.size transform) where
  keeps := keeps_symmetry _ _
  adjacent c hc d hd := by
    have hc' := (keeps_symmetry kernel.size transform c).mpr hc
    have hd' := (keeps_symmetry kernel.size transform d).mpr hd
    rw [G2048Kernel.adjacent_iff hc' hd', G2048Kernel.adjacent_iff hc hd]
    exact Eq.congr_left (gridDistance_symmetryCells _ _ hc hd hc' hd')

variable {σ : Equiv.Perm ℕ}

theorem Symmetric.symm (h : Symmetric kernel σ) : Symmetric kernel σ.symm where
  keeps := h.keeps.symm
  adjacent c hc d hd := by
    have hc' := (h.keeps.symm c).mpr hc
    have hd' := (h.keeps.symm d).mpr hd
    simpa using (h.adjacent _ hc' _ hd').symm

theorem getD_relabelRanks (h : Keeps σ board.length) (cell : ℕ) :
    (relabelRanks σ board).getD (σ cell) 0 = board.getD cell 0 := by
  rw [List.getD_eq_getElem?_getD, getElem?_relabelRanks h, List.getD_eq_getElem?_getD]

@[simp] theorem relabelRanks_symm (h : Keeps σ board.length) :
    relabelRanks σ.symm (relabelRanks σ board) = board := by
  apply List.ext_getElem
  · simp
  · intro i hi hi'
    simp only [relabelRanks, List.getElem_map, List.getElem_range, Equiv.symm_symm]
    exact (getD_relabelRanks h i).trans (List.getD_eq_getElem _ _ hi')

theorem set_relabelRanks (h : Keeps σ board.length) (cell rank : ℕ) :
    (relabelRanks σ board).set (σ cell) rank = relabelRanks σ (board.set cell rank) := by
  apply List.ext_getElem
  · simp
  · intro i hi _
    have hi' : i < board.length := by simpa using hi
    have hsymm : σ.symm i < board.length := (h.symm i).mpr hi'
    rw [List.getElem_set]
    simp only [relabelRanks, List.length_set, List.getElem_map, List.getElem_range,
      List.getD_eq_getElem _ _ hsymm]
    rw [List.getD_eq_getElem _ _ (by simpa using hsymm), List.getElem_set]
    simp only [Equiv.eq_symm_apply]

theorem merges_image (h : Symmetric kernel σ) (hboard : board.length = kernel.size * kernel.size)
    {a : G2048Action} (ha : kernel.Merges board a) :
    kernel.Merges (relabelRanks σ board) (imageAction σ a) := by
  have hkeeps : Keeps σ board.length := hboard ▸ h.keeps
  have hfirst := a.ordered.trans ha.second_lt
  have hadjacent := (h.adjacent _ hfirst _ ha.second_lt).mpr ha.adjacent
  have hfirst' := (h.keeps _).mpr hfirst
  have hsecond' := (h.keeps _).mpr ha.second_lt
  obtain ⟨hf, hs⟩ | ⟨hf, hs⟩ := imageAction_cases σ a
  · refine ⟨hs ▸ hsecond', by rwa [hf, hs], ?_, ?_⟩
    · rw [hf, getD_relabelRanks hkeeps]
      exact ha.occupied
    · rw [hf, hs, getD_relabelRanks hkeeps, getD_relabelRanks hkeeps]
      exact ha.equal
  · refine ⟨hs ▸ hfirst', by rwa [hf, hs, G2048Kernel.adjacent_comm], ?_, ?_⟩
    · rw [hf, getD_relabelRanks hkeeps, ← ha.equal]
      exact ha.occupied
    · rw [hf, hs, getD_relabelRanks hkeeps, getD_relabelRanks hkeeps]
      exact ha.equal.symm

theorem merges_image_iff (h : Symmetric kernel σ)
    (hboard : board.length = kernel.size * kernel.size) {a : G2048Action} :
    kernel.Merges (relabelRanks σ board) (imageAction σ a) ↔ kernel.Merges board a := by
  refine ⟨fun ha => ?_, merges_image h hboard⟩
  have hkeeps : Keeps σ board.length := hboard ▸ h.keeps
  have himage := merges_image h.symm (by simpa using hboard) ha
  rwa [imageAction_symm, relabelRanks_symm hkeeps] at himage

theorem merges_relabelRanks (h : Symmetric kernel σ)
    (hboard : board.length = kernel.size * kernel.size) :
    (kernel.merges (relabelRanks σ board)).Perm ((kernel.merges board).map (imageAction σ)) := by
  refine (List.perm_ext_iff_of_nodup (G2048Kernel.nodup_merges _)
    ((G2048Kernel.nodup_merges _).map (imageAction_injective σ))).mpr fun a => ?_
  rw [← imageAction_surjective σ a, List.mem_map_of_injective (imageAction_injective σ),
    G2048Kernel.mem_merges, G2048Kernel.mem_merges, merges_image_iff h hboard]

/-! ## Legal actions -/

theorem validateState_relabelRanks (hkeeps : Keeps σ board.length) (status status' : G2048Status) :
    kernel.validateState ⟨relabelRanks σ board, status'⟩ = kernel.validateState
      ⟨board, status⟩ := by
  have hranks : (∀ rank ∈ relabelRanks σ board, rank ≤ kernel.rankCap) ↔
      ∀ rank ∈ board, rank ≤ kernel.rankCap := by
    simp only [(perm_relabelRanks hkeeps).mem_iff]
  simp only [G2048Kernel.validateState, length_relabelRanks, hranks]

theorem validateState_eq_ok {state : G2048State} : kernel.validateState state = .ok () ↔
    state.board.length = kernel.size * kernel.size ∧
      ∀ rank ∈ state.board, rank ≤ kernel.rankCap := by
  simp only [G2048Kernel.validateState, bind_eq_ok, require_eq_ok]
  constructor
  · rintro ⟨_, hlength, hranks⟩
    exact ⟨hlength, hranks⟩
  · rintro ⟨hlength, hranks⟩
    exact ⟨(), hlength, hranks⟩

def legal (kernel : G2048Kernel) (state : G2048State) : List G2048Action :=
  if state.status = .active then kernel.merges state.board else []

theorem actions_eq (h : kernel.validateState state = .ok ()) :
    kernel.actions state = .ok (legal kernel state) := by
  rw [G2048Kernel.actions, h]
  rfl

theorem legal_image (h : Symmetric kernel σ) {state : G2048State}
    (hboard : state.board.length = kernel.size * kernel.size) :
    (legal kernel ⟨relabelRanks σ state.board, state.status⟩).Perm
      ((legal kernel state).map (imageAction σ)) := by
  unfold legal
  split
  · exact merges_relabelRanks h hboard
  · exact .nil

theorem merges_of_legal {state : G2048State} {a : G2048Action} (ha : a ∈ legal kernel state) :
    kernel.Merges state.board a := by
  unfold legal at ha
  split at ha
  · exact G2048Kernel.mem_merges.mp ha
  · cases ha

end Boards

section Outcomes

variable {kernel : G2048Kernel} {transform : D4Transform} {board : List ℕ}

theorem transformState_eq {state : G2048State}
    (hboard : state.board.length = kernel.size * kernel.size) :
    transformState state transform kernel.size =
      .ok ⟨relabelRanks (symmetry kernel.size transform) state.board, state.status⟩ := by
  rw [transformState, transformBoard_eq kernel.size_ge hboard]
  rfl

theorem make_transformOutcome {state state' : G2048State} {p : ℚ} {features : Features}
    {failure terminal : Bool} (h : transformState state transform kernel.size = .ok state') :
    (Outcome.make p state features failure terminal >>= fun o =>
      transformOutcome o transform kernel.size) = Outcome.make p state' features failure
        terminal := by
  cases hmake : Outcome.make p state features failure terminal with
  | ok o =>
    obtain ⟨hp, hstate, hfeatures, hfailure, hterminal⟩ := Outcome.make_eq_ok hmake
    change transformOutcome o transform kernel.size = _
    rw [transformOutcome, hp, hstate, hfeatures, hfailure, hterminal, h]
    rfl
  | error e =>
    rw [← hmake]
    unfold Outcome.make at hmake ⊢
    split
    · split
      · simp_all
      · rfl
    · rfl

theorem spawnOutcome_image (hboard : board.length = kernel.size * kernel.size)
    (reward cellProbability : ℚ) (spawn : ℕ × ℕ × ℚ) :
    kernel.spawnOutcome (relabelRanks (symmetry kernel.size transform) board) reward cellProbability
        (symmetry kernel.size transform spawn.1, spawn.2) =
      (kernel.spawnOutcome board reward cellProbability spawn >>= fun o =>
        transformOutcome o transform kernel.size) := by
  have hsymmetric : Symmetric kernel (symmetry kernel.size transform) :=
    symmetric_symmetry transform
  have hnext : (board.set spawn.1 spawn.2.1).length = kernel.size * kernel.size := by simpa
  have hkeeps : Keeps (symmetry kernel.size transform) board.length := hboard ▸ hsymmetric.keeps
  unfold G2048Kernel.spawnOutcome
  dsimp only
  rw [set_relabelRanks hkeeps]
  cases hvalid : kernel.validateState ⟨board.set spawn.1 spawn.2.1, .active⟩ with
  | error e =>
    have hvalid' := (@validateState_relabelRanks kernel
      (board.set spawn.1 spawn.2.1) _ (hnext ▸ hsymmetric.keeps) .active .active).trans hvalid
    rw [G2048Kernel.actions, G2048Kernel.actions, hvalid, hvalid']
    rfl
  | ok _ =>
    have hvalid' := (@validateState_relabelRanks kernel
      (board.set spawn.1 spawn.2.1) _ (hnext ▸ hsymmetric.keeps) .active .active).trans hvalid
    rw [actions_eq hvalid, actions_eq hvalid']
    have hempty : (legal kernel ⟨relabelRanks (symmetry kernel.size transform)
        (board.set spawn.1 spawn.2.1), .active⟩).isEmpty =
        (legal kernel ⟨board.set spawn.1 spawn.2.1, .active⟩).isEmpty := by
      have hlength := (@legal_image _ _ hsymmetric ⟨_, .active⟩ hnext).length_eq
      rw [List.length_map] at hlength
      rw [Bool.eq_iff_iff, List.isEmpty_iff_length_eq_zero, List.isEmpty_iff_length_eq_zero,
        hlength]
    change Outcome.make _ _ _ _ _ = (Outcome.make _ _ _ _ _ >>= _)
    rw [hempty, make_transformOutcome (transformState_eq hnext)]

/-! ## Steps -/

theorem getD_imageAction {σ : Equiv.Perm ℕ} {a : G2048Action} (hkeeps : Keeps σ board.length)
    (ha : kernel.Merges board a) :
    (relabelRanks σ board).getD (imageAction σ a).first 0 = board.getD a.first 0 := by
  obtain ⟨hf, -⟩ | ⟨hf, -⟩ := imageAction_cases σ a <;> rw [hf, getD_relabelRanks hkeeps]
  exact ha.equal.symm

theorem mergedBoard_image {σ : Equiv.Perm ℕ} {a : G2048Action} (hkeeps : Keeps σ board.length)
    (ha : kernel.Merges board a) :
    kernel.mergedBoard (relabelRanks σ board) (imageAction σ a) =
      relabelRanks σ (kernel.mergedBoard board a) := by
  have hkeeps₁ : Keeps σ (board.set a.first 0).length := by simpa
  have hkeeps₂ : Keeps σ ((board.set a.first 0).set a.second 0).length := by simpa
  have hclear : ((relabelRanks σ board).set (imageAction σ a).first 0).set
      (imageAction σ a).second 0 = relabelRanks σ ((board.set a.first 0).set a.second 0) := by
    rw [← set_relabelRanks hkeeps₁, ← set_relabelRanks hkeeps]
    obtain ⟨hf, hs⟩ | ⟨hf, hs⟩ := imageAction_cases σ a <;> rw [hf, hs]
    exact List.set_comm _ _ (σ.injective.ne a.ordered.ne')
  have hsurvivor : (imageAction σ a).survivor = σ a.survivor := rfl
  rw [G2048Kernel.mergedBoard, getD_imageAction hkeeps ha, hclear, hsurvivor,
    set_relabelRanks hkeeps₂]
  rfl

theorem emptyCells_relabelRanks {σ : Equiv.Perm ℕ} (hkeeps : Keeps σ board.length) :
    (G2048Kernel.emptyCells (relabelRanks σ board)).Perm
      ((G2048Kernel.emptyCells board).map σ) := by
  refine (List.perm_ext_iff_of_nodup (List.nodup_range.filter _)
    ((List.nodup_range.filter _).map σ.injective)).mpr fun c => ?_
  rw [← σ.apply_symm_apply c, List.mem_map_of_injective σ.injective]
  simp only [List.mem_filter, List.mem_range, length_relabelRanks, getD_relabelRanks hkeeps,
    hkeeps (σ.symm c)]

theorem emptyCells_ne {a : G2048Action} (hboard : board.length = kernel.size * kernel.size)
    (ha : kernel.Merges board a) : G2048Kernel.emptyCells (kernel.mergedBoard board a) ≠ [] := by
  have hlt := ha.second_lt
  have ho := a.ordered
  have hempty : ∀ cell, cell ∈ [a.first, a.second] → cell ≠ a.survivor →
      cell ∈ G2048Kernel.emptyCells (kernel.mergedBoard board a) := by
    intro cell hcell hne
    have hcell' : cell = a.first ∨ cell = a.second := by simpa using hcell
    have hlen : cell < board.length := by omega
    have hmerged : cell < (kernel.mergedBoard board a).length := by
      simpa [G2048Kernel.mergedBoard]
    have hzero : (kernel.mergedBoard board a)[cell]? = some 0 := by
      unfold G2048Kernel.mergedBoard
      rw [List.getElem?_set_ne (Ne.symm hne)]
      rcases hcell' with rfl | rfl
      · rw [List.getElem?_set_ne ho.ne', List.getElem?_set_self hlen]
      · rw [List.getElem?_set_self (by simpa)]
    exact List.mem_filter.mpr ⟨List.mem_range.mpr hmerged, by simp [hzero]⟩
  rcases a.survivor_mem with h | h
  · exact List.ne_nil_of_mem (hempty a.second (by simp) (by omega))
  · exact List.ne_nil_of_mem (hempty a.first (by simp) (by omega))

theorem validateState_mergedBoard {state : G2048State} (hs : kernel.validateState state = .ok ())
    (a : G2048Action) {cell rank : ℕ} (hrank : rank ≤ kernel.rankCap) (status : G2048Status) :
    kernel.validateState ⟨(kernel.mergedBoard state.board a).set cell rank, status⟩ = .ok () := by
  obtain ⟨hboard, hranks⟩ := validateState_eq_ok.mp hs
  refine validateState_eq_ok.mpr ⟨by simpa [G2048Kernel.mergedBoard], fun r hr => ?_⟩
  rcases List.mem_or_eq_of_mem_set hr with hr | rfl
  · rcases List.mem_or_eq_of_mem_set hr with hr | rfl
    · rcases List.mem_or_eq_of_mem_set hr with hr | rfl
      · rcases List.mem_or_eq_of_mem_set hr with hr | rfl
        · exact hranks r hr
        · exact Nat.zero_le _
      · exact Nat.zero_le _
    · exact min_le_right _ _
  · exact hrank

theorem spawn_le_one (kernel : G2048Kernel) {spawn : ℕ × ℚ} (h : spawn ∈ kernel.spawnDistribution) :
    spawn.2 ≤ 1 := by
  rw [← kernel.spawn_mass]
  refine List.single_le_sum ?_ _ (List.mem_map_of_mem h)
  intro p hp
  obtain ⟨other, hother, rfl⟩ := List.mem_map.mp hp
  exact (kernel.spawn_pos other hother).le

theorem spawnOutcome_returns {state : G2048State} (hs : kernel.validateState state = .ok ())
    (a : G2048Action) (reward : ℚ) {cell count : ℕ} (hcount : 0 < count) {spawn : ℕ × ℚ}
    (hspawn : spawn ∈ kernel.spawnDistribution) :
    ∃ o, kernel.spawnOutcome (kernel.mergedBoard state.board a) reward (1 / count) (cell, spawn) =
      .ok o ∧ o.probability = 1 / count * spawn.2 := by
  have hvalid := @validateState_mergedBoard _ _ hs a cell _ (kernel.spawn_rank spawn hspawn)
    .active
  have hcountq : (1 : ℚ) ≤ count := by exact_mod_cast hcount
  have hpos := kernel.spawn_pos spawn hspawn
  have hle : (1 / count : ℚ) * spawn.2 ≤ 1 :=
    mul_le_one₀ ((div_le_one (by linarith)).mpr hcountq) hpos.le (spawn_le_one kernel hspawn)
  have hnamed : Features.WellNamed [("merge", reward)] := by simp [Features.WellNamed]
  rw [G2048Kernel.spawnOutcome, actions_eq hvalid]
  exact ⟨_, (dif_pos ⟨by positivity, hle⟩).trans (dif_pos hnamed), rfl⟩

def spawnOutcomes (kernel : G2048Kernel) (board : List ℕ) (a : G2048Action) :
    Except PyError (List (Outcome G2048State)) :=
  (G2048Kernel.emptyCells (kernel.mergedBoard board a) ×ˢ kernel.spawnDistribution).mapM
    (kernel.spawnOutcome (kernel.mergedBoard board a)
      (2 ^ (board.getD a.first 0 + 1) / 2 ^ (kernel.rankCap + 1))
      (1 / (G2048Kernel.emptyCells (kernel.mergedBoard board a)).length))

theorem sum_product {α β : Type} (l : List α) (m : List β) (c : ℚ) (g : β → ℚ) :
    ((l ×ˢ m).map fun p => c * g p.2).sum = l.length * (c * (m.map g).sum) := by
  induction l with
  | nil => simp
  | cons a l ih =>
    have hrow : (m.map ((fun p : α × β => c * g p.2) ∘ Prod.mk a)).sum = c * (m.map g).sum :=
      List.sum_map_mul_left ..
    rw [List.product_cons, List.map_append, List.sum_append, ih, List.map_map, hrow]
    push_cast [List.length_cons]
    ring

theorem map_product {α β γ : Type} (f : α → γ) (l : List α) (m : List β) :
    l.map f ×ˢ m = (l ×ˢ m).map fun p => (f p.1, p.2) := by
  induction l with
  | nil => rfl
  | cons a l ih =>
    rw [List.map_cons, List.product_cons, List.product_cons, List.map_append, ih, List.map_map]
    rfl

theorem spawnOutcomes_returns {state : G2048State} (hs : kernel.validateState state = .ok ())
    {a : G2048Action} (ha : kernel.Merges state.board a) :
    ∃ outcomes, spawnOutcomes kernel state.board a = .ok outcomes ∧
      (outcomes.map (·.probability)).sum = 1 := by
  have hne := emptyCells_ne (validateState_eq_ok.mp hs).1 ha
  have hcount := List.length_pos_iff.mpr hne
  have hreturns := fun spawn (hspawn : spawn ∈ G2048Kernel.emptyCells
      (kernel.mergedBoard state.board a) ×ˢ kernel.spawnDistribution) =>
    @spawnOutcome_returns _ _ hs a
      (2 ^ (state.board.getD a.first 0 + 1) / 2 ^ (kernel.rankCap + 1)) spawn.1 _ hcount _
      (List.mem_product.mp hspawn).2
  obtain ⟨outcomes, houtcomes⟩ := mapM_returns fun spawn hspawn =>
    (hreturns spawn hspawn).imp fun _ h => h.1
  refine ⟨outcomes, houtcomes, ?_⟩
  rw [map_of_mapM houtcomes (k := fun spawn : ℕ × ℕ × ℚ => 1 / (G2048Kernel.emptyCells
    (kernel.mergedBoard state.board a)).length * spawn.2.2), sum_product, kernel.spawn_mass]
  · have hcountq : ((G2048Kernel.emptyCells (kernel.mergedBoard state.board a)).length : ℚ) ≠
        0 := by
      exact_mod_cast hcount.ne'
    field_simp
  · intro spawn hspawn o ho
    obtain ⟨o', ho', hprobability⟩ := hreturns spawn hspawn
    cases ho'.symm.trans ho
    exact hprobability

theorem step_eq {state : G2048State} (hs : kernel.validateState state = .ok ()) {a : G2048Action}
    (ha : a ∈ legal kernel state) {outcomes : List (Outcome G2048State)}
    (houtcomes : spawnOutcomes kernel state.board a = .ok outcomes) :
    kernel.step state a = .ok outcomes := by
  have hmerges := merges_of_legal ha
  have hne := emptyCells_ne (validateState_eq_ok.mp hs).1 hmerges
  obtain ⟨_, hreturned, hmass⟩ := spawnOutcomes_returns hs hmerges
  cases hreturned.symm.trans houtcomes
  refine bind_eq_ok.mpr ⟨(), hs, bind_eq_ok.mpr ⟨_, actions_eq hs, ?_⟩⟩
  refine bind_eq_ok.mpr ⟨(), require_eq_ok.mpr ha, bind_eq_ok.mpr ⟨(), require_eq_ok.mpr hne, ?_⟩⟩
  exact bind_eq_ok.mpr ⟨_, houtcomes, bind_eq_ok.mpr ⟨(), require_eq_ok.mpr hmass, rfl⟩⟩

theorem spawnOutcomes_image {state : G2048State} (hs : kernel.validateState state = .ok ())
    {a : G2048Action} (ha : kernel.Merges state.board a) :
    ∃ outcomes outcomes' images, spawnOutcomes kernel state.board a = .ok outcomes ∧
      spawnOutcomes kernel (relabelRanks (symmetry kernel.size transform) state.board)
        (imageAction (symmetry kernel.size transform) a) = .ok outcomes' ∧
      outcomes.mapM (fun o => transformOutcome o transform kernel.size) = .ok images ∧
      outcomes'.Perm images := by
  obtain ⟨hboard, -⟩ := validateState_eq_ok.mp hs
  have hkeeps : Keeps (symmetry kernel.size transform) state.board.length :=
    hboard ▸ keeps_symmetry kernel.size transform
  have hmerged : (kernel.mergedBoard state.board a).length = kernel.size * kernel.size := by
    simpa [G2048Kernel.mergedBoard]
  have hs' := (@validateState_relabelRanks kernel _ _ hkeeps state.status state.status).trans
    hs
  have ha' := merges_image (symmetric_symmetry transform) hboard ha
  obtain ⟨outcomes, houtcomes, -⟩ := spawnOutcomes_returns hs ha
  obtain ⟨outcomes', houtcomes', -⟩ := spawnOutcomes_returns hs' ha'
  have hempty := emptyCells_relabelRanks (hmerged ▸ keeps_symmetry kernel.size transform)
  have hrank : (relabelRanks (symmetry kernel.size transform) state.board).getD
      (imageAction (symmetry kernel.size transform) a).first 0 = state.board.getD a.first 0 :=
    getD_imageAction hkeeps ha
  have hlength := hempty.length_eq
  rw [List.length_map] at hlength
  have hspawns := houtcomes'
  unfold spawnOutcomes at houtcomes hspawns
  rw [hrank, mergedBoard_image hkeeps ha, hlength] at hspawns
  have hpairs := (hempty.product_right kernel.spawnDistribution).trans
    (List.Perm.of_eq (map_product _ _ _))
  obtain ⟨images, himages, hperm⟩ := exists_mapM_of_perm hpairs.symm hspawns
  refine ⟨outcomes, outcomes', images, houtcomes, houtcomes', ?_, hperm.symm⟩
  rw [← mapM_of_mapM houtcomes, ← himages, List.mapM_map]
  exact mapM_congr fun spawn _ => (spawnOutcome_image hmerged _ _ spawn).symm

end Outcomes

end Acfqp.Domains
