import Acfqp.Domains.Automorphisms
import Acfqp.Domains.Equivariance

/-!
# The matching buffer commutes with its automorphisms

An automorphism moves the removed tiles along the tiles and the counts of the buffer along the
types. Legal actions and outcomes move with it. The automorphisms are a group.
-/

namespace Acfqp.Domains

open Library Planning

section Masks

variable {n : ℕ} {σ : Equiv.Perm ℕ} {mask : ℕ}

def moveMask (n : ℕ) (σ : Equiv.Perm ℕ) (mask : ℕ) : ℕ :=
  (List.range n).foldl (fun moved v => if mask.testBit v then moved ||| 1 <<< σ v else moved) 0

theorem testBit_foldl_remove (l : List ℕ) (start w : ℕ) :
    (l.foldl (fun moved v =>
        if mask.testBit v then moved ||| 1 <<< σ v else moved) start).testBit w =
      (start.testBit w || l.any fun v => mask.testBit v && decide (σ v = w)) := by
  induction l generalizing start with
  | nil => simp
  | cons v l ih =>
    rw [List.foldl_cons, ih, List.any_cons, ← Bool.or_assoc]
    congr 1
    split
    · rename_i hv
      rw [testBit_remove, hv, Bool.true_and]
    · rename_i hv
      simp [hv]

/-- An image is removed when its tile is. -/
theorem testBit_moveMask (v : ℕ) :
    (moveMask n σ mask).testBit (σ v) = (decide (v < n) && mask.testBit v) := by
  rw [moveMask, testBit_foldl_remove, Nat.zero_testBit, Bool.false_or, Bool.eq_iff_iff]
  simp only [List.any_eq_true, List.mem_range, Bool.and_eq_true, decide_eq_true_eq,
    EmbeddingLike.apply_eq_iff_eq]
  grind

theorem moveMask_lt (hσ : Keeps σ n) : moveMask n σ mask < 2 ^ n := by
  apply Nat.lt_pow_two_of_testBit
  intro w hw
  rw [← σ.apply_symm_apply w, testBit_moveMask]
  have hlarge : ¬ σ.symm w < n := fun hlt => absurd ((hσ.symm w).mp hlt) (not_lt.mpr hw)
  simp [hlarge]

theorem moveMask_remove {v : ℕ} (hv : v < n) :
    moveMask n σ (mask ||| 1 <<< v) = moveMask n σ mask ||| 1 <<< σ v := by
  apply Nat.eq_of_testBit_eq
  intro w
  rw [← σ.apply_symm_apply w, testBit_remove, testBit_moveMask, testBit_moveMask, testBit_remove]
  simp only [EmbeddingLike.apply_eq_iff_eq]
  by_cases heq : v = σ.symm w
  · simp [← heq, hv]
  · simp [heq]

theorem moveMask_full (hσ : Keeps σ n) (hmask : mask < 2 ^ n) :
    moveMask n σ mask = 1 <<< n - 1 ↔ mask = 1 <<< n - 1 := by
  rw [eq_full_iff (moveMask_lt hσ), eq_full_iff hmask]
  constructor
  · intro h v hv
    have := h (σ v) ((hσ v).mpr hv)
    rw [testBit_moveMask] at this
    simpa [hv] using this
  · intro h w hw
    have hlt := (hσ.symm w).mpr hw
    rw [← σ.apply_symm_apply w, testBit_moveMask]
    simp [hlt, h _ hlt]

end Masks

section States

variable {kernel : LMBKernel} {σ τ : Equiv.Perm ℕ} {state : LMBState}

def moveState (kernel : LMBKernel) (σ τ : Equiv.Perm ℕ) (state : LMBState) : LMBState :=
  ⟨moveMask kernel.tileCount σ state.removedMask, relabelRanks τ state.buffer, state.status⟩

theorem zipIdx_map_range (n : ℕ) (f : ℕ → ℕ) :
    ((List.range n).map f).zipIdx = (List.range n).map fun v => (f v, v) := by
  rw [zipIdx_eq_range, List.length_map, List.length_range]
  exact List.map_congr_left fun v hv => by rw [getD_map_range (List.mem_range.mp hv)]

theorem transformLmbState_listed (hlength : state.buffer.length = kernel.typeCount)
    (hτ : Keeps τ kernel.typeCount) :
    transformLmbState kernel state (listed kernel σ τ) = .ok (moveState kernel σ τ state) := by
  unfold transformLmbState listed
  rw [bind_of_ok (require_eq_ok (u := ()).mpr (by simp)),
    bind_of_ok (require_eq_ok (u := ()).mpr (by simp))]
  dsimp only
  rw [zipIdx_map_range, zipIdx_map_range, List.foldl_map, List.foldl_map]
  have hbuffer : (List.range kernel.typeCount).foldl (fun buffer v =>
      buffer.set (τ v) (state.buffer.getD v 0)) (List.replicate kernel.typeCount 0) =
        relabelRanks τ state.buffer := by
    rw [← hlength, foldl_set_renamed le_rfl, relabelRanks]
    refine List.map_congr_left fun w hw => ?_
    rw [if_pos (((hlength ▸ hτ).symm w).mpr (List.mem_range.mp hw))]
  rw [hbuffer]
  rfl

theorem transformLmbAction_listed {action : LMBAction} (hlt : action.tile < kernel.tileCount) :
    transformLmbAction kernel action (listed kernel σ τ) = .ok ⟨σ action.tile⟩ := by
  unfold transformLmbAction listed
  rw [bind_of_ok (require_eq_ok (u := ()).mpr hlt), getD_map_range hlt]
  rfl

theorem LMBKernel.validateState_eq_ok {state : LMBState} : kernel.validateState state = .ok () ↔
    state.removedMask < 2 ^ kernel.tileCount ∧ state.buffer.length = kernel.typeCount ∧
      ∀ count ∈ state.buffer, count < 3 := by
  unfold LMBKernel.validateState
  rw [bind_eq_ok, Nat.shiftRight_eq_div_pow]
  simp only [require_eq_ok, Nat.div_eq_zero_iff]
  simp

variable (h : Preserves kernel σ τ)
include h

theorem Preserves.validateState (hvalid : kernel.validateState state = .ok ()) :
    kernel.validateState (moveState kernel σ τ state) = .ok () := by
  obtain ⟨-, hlength, hcounts⟩ := LMBKernel.validateState_eq_ok.mp hvalid
  refine LMBKernel.validateState_eq_ok.mpr ⟨moveMask_lt h.tiles, by simpa [moveState] using hlength,
    fun count hcount => hcounts count ?_⟩
  exact (perm_relabelRanks (hlength ▸ h.types)).mem_iff.mp hcount

theorem Preserves.free_iff {mask tile : ℕ} (hlt : tile < kernel.tileCount) :
    kernel.Free (moveMask kernel.tileCount σ mask) (σ tile) ↔ kernel.Free mask tile := by
  have hbit : ∀ v < kernel.tileCount,
      (moveMask kernel.tileCount σ mask).testBit (σ v) = mask.testBit v := fun v hv => by
    rw [testBit_moveMask]
    simp [hv]
  unfold LMBKernel.Free
  rw [hbit tile hlt, ← h.keepsBlockers tile hlt]
  refine and_congr_right fun _ => ?_
  simp only [Finset.forall_mem_image]
  refine forall₂_congr fun blocker hblocker => ?_
  rw [hbit blocker ((kernel.blockers_valid tile hlt).2 blocker hblocker)]

/-- A moved buffer takes a moved type as the buffer takes the type. -/
theorem Preserves.buffered {buffer : List ℕ} (hlength : buffer.length = kernel.typeCount) {tile : ℕ}
    (hlt : tile < kernel.tileCount) :
    LMBKernel.buffered (relabelRanks τ buffer) (tileType kernel (σ tile)) =
      (relabelRanks τ (LMBKernel.buffered buffer (tileType kernel tile)).1,
        (LMBKernel.buffered buffer (tileType kernel tile)).2) := by
  have hτ : Keeps τ buffer.length := hlength ▸ h.types
  unfold LMBKernel.buffered
  rw [h.keepsTypes tile hlt, getD_relabelRanks hτ]
  dsimp only
  rw [set_relabelRanks hτ, set_relabelRanks hτ]
  split <;> rfl

theorem Preserves.after (hvalid : kernel.validateState state = .ok ()) {tile : ℕ}
    (hlt : tile < kernel.tileCount) :
    kernel.after (moveState kernel σ τ state) (σ tile) =
      moveState kernel σ τ (kernel.after state tile) := by
  obtain ⟨hmask, hlength, -⟩ := LMBKernel.validateState_eq_ok.mp hvalid
  have hbuffered := congrArg Prod.fst (h.buffered hlength hlt)
  have hfull := moveMask_full h.tiles (remove_lt hmask hlt)
  rw [moveMask_remove hlt] at hfull
  have hsum : (relabelRanks τ (LMBKernel.buffered state.buffer (tileType kernel tile)).1).sum =
      (LMBKernel.buffered state.buffer (tileType kernel tile)).1.sum :=
    (perm_relabelRanks (by rw [length_buffered, hlength]; exact h.types)).sum_eq
  unfold LMBKernel.after moveState
  simp only [tileType] at hbuffered hsum ⊢
  rw [hbuffered, hsum, moveMask_remove hlt]
  simp only [hfull]

theorem Preserves.stepFeatures (hvalid : kernel.validateState state = .ok ()) {tile : ℕ}
    (hlt : tile < kernel.tileCount) :
    kernel.stepFeatures (moveState kernel σ τ state) (σ tile) = kernel.stepFeatures state tile := by
  obtain ⟨-, hlength, -⟩ := LMBKernel.validateState_eq_ok.mp hvalid
  have hmatched : (LMBKernel.buffered (moveState kernel σ τ state).buffer
      (kernel.tileTypes.getD (σ tile) 0)).2 =
        (LMBKernel.buffered state.buffer (kernel.tileTypes.getD tile 0)).2 := by
    have hbuffered := congrArg Prod.snd (h.buffered hlength hlt)
    exact hbuffered
  unfold LMBKernel.stepFeatures
  simp only [hmatched, h.after hvalid hlt]
  rfl

/-- The legal actions of a moved state are the moved legal actions. -/
theorem Preserves.actions (hvalid : kernel.validateState state = .ok ()) :
    ∃ legal legal', kernel.actions state = .ok legal ∧
      kernel.actions (moveState kernel σ τ state) = .ok legal' ∧
      (legal.map fun action => ⟨σ action.tile⟩).Perm legal' ∧
      ∀ action ∈ legal, action.tile < kernel.tileCount := by
  have hvalid' := h.validateState hvalid
  by_cases hactive : state.status = .active
  · have hactions := LMBKernel.actions_eq hvalid hactive
    have hactions' := LMBKernel.actions_eq hvalid'
      (hactive : (moveState kernel σ τ state).status = _)
    refine ⟨_, _, hactions, hactions', ?_, fun action haction =>
      ((LMBKernel.mem_actions hactions).mp haction).2.1⟩
    rw [List.map_map]
    have hinjective : Function.Injective LMBAction.mk := fun _ _ heq => LMBAction.mk.inj heq
    refine (List.perm_ext_iff_of_nodup (((List.nodup_range.filter _).map
      (hinjective.comp σ.injective))) ((List.nodup_range.filter _).map hinjective)).mpr ?_
    rintro ⟨tile⟩
    simp only [List.mem_map, List.mem_filter, List.mem_range, decide_eq_true_eq,
      Function.comp_apply, LMBAction.mk.injEq, exists_eq_right, LMBKernel.blockers_length_eq]
    constructor
    · rintro ⟨v, ⟨hv, hfree⟩, rfl⟩
      exact ⟨(h.tiles v).mpr hv, (h.free_iff hv).mpr hfree⟩
    · rintro ⟨hlt, hfree⟩
      have hv := (h.tiles.symm tile).mpr hlt
      refine ⟨σ.symm tile, ⟨hv, (h.free_iff hv).mp ?_⟩, σ.apply_symm_apply tile⟩
      rwa [Equiv.apply_symm_apply]
  · have hnone : ∀ s : LMBState, kernel.validateState s = .ok () → s.status ≠ .active →
        kernel.actions s = .ok [] := fun s hs hended => by
      rw [LMBKernel.actions, bind_of_ok hs, if_pos hended]
      rfl
    exact ⟨[], [], hnone _ hvalid hactive, hnone _ hvalid' hactive, .nil, by simp⟩

/-- The outcome of a moved action in a moved state is the moved outcome. -/
theorem Preserves.step {action : LMBAction} {outcomes : List (Outcome LMBState)}
    (hstep : kernel.step state action = .ok outcomes) :
    outcomes = [kernel.outcomeOf state action.tile] ∧
      kernel.step (moveState kernel σ τ state) ⟨σ action.tile⟩ =
        .ok [kernel.outcomeOf (moveState kernel σ τ state) (σ action.tile)] := by
  obtain ⟨htakes, rfl⟩ := LMBKernel.step_eq_ok.mp hstep
  refine ⟨rfl, LMBKernel.step_eq_ok.mpr
    ⟨⟨h.validateState htakes.valid, htakes.active, ?_, ?_⟩, rfl⟩⟩
  · exact (h.tiles _).mpr htakes.tile_lt
  · exact (h.free_iff htakes.tile_lt).mpr htakes.free

end States

section Group

variable {kernel : LMBKernel} {σ σ' τ τ' : Equiv.Perm ℕ}

theorem Preserves.mul (h : Preserves kernel σ τ) (h' : Preserves kernel σ' τ') :
    Preserves kernel (σ * σ') (τ * τ') where
  tiles := h.tiles.mul h'.tiles
  types := h.types.mul h'.types
  keepsTypes tile hlt := by
    have hlt' := (h'.tiles tile).mpr hlt
    rw [Equiv.Perm.mul_apply, h.keepsTypes _ hlt', h'.keepsTypes tile hlt, Equiv.Perm.mul_apply]
  keepsBlockers tile hlt := by
    have hlt' := (h'.tiles tile).mpr hlt
    rw [Equiv.Perm.coe_mul, ← Finset.image_image, h'.keepsBlockers tile hlt,
      h.keepsBlockers _ hlt']
    rfl

theorem Preserves.symm (h : Preserves kernel σ τ) : Preserves kernel σ.symm τ.symm where
  tiles := h.tiles.symm
  types := h.types.symm
  keepsTypes tile hlt := by
    have hback := h.keepsTypes _ ((h.tiles.symm tile).mpr hlt)
    rw [Equiv.apply_symm_apply] at hback
    rw [hback, Equiv.symm_apply_apply]
  keepsBlockers tile hlt := by
    have hback := h.keepsBlockers _ ((h.tiles.symm tile).mpr hlt)
    rw [Equiv.apply_symm_apply] at hback
    rw [← hback, Finset.image_image, σ.symm_comp_self, Finset.image_id]

/-- One automorphism after another. -/
def composeLmb (kernel : LMBKernel) (left right : LMBAutomorphism) : LMBAutomorphism :=
  ⟨(List.range kernel.tileCount).map fun tile =>
      left.tilePermutation.getD (right.tilePermutation.getD tile 0) 0,
    (List.range kernel.typeCount).map fun type =>
      left.typePermutation.getD (right.typePermutation.getD type 0) 0⟩

theorem composeLmb_listed (hσ' : Keeps σ' kernel.tileCount) (hτ' : Keeps τ' kernel.typeCount) :
    composeLmb kernel (listed kernel σ τ) (listed kernel σ' τ') =
      listed kernel (σ * σ') (τ * τ') := by
  have hmap : ∀ {n : ℕ} {ρ ρ' : Equiv.Perm ℕ}, Keeps ρ' n →
      ((List.range n).map fun v =>
        ((List.range n).map ρ).getD (((List.range n).map ρ').getD v 0) 0) =
          (List.range n).map (ρ * ρ') := fun {n ρ ρ'} hρ' =>
    List.map_congr_left fun v hv => by
      have hlt := List.mem_range.mp hv
      rw [getD_map_range hlt, getD_map_range ((hρ' v).mpr hlt)]
      rfl
  unfold composeLmb listed
  exact congrArg₂ LMBAutomorphism.mk (hmap hσ') (hmap hτ')

def identityLmb (kernel : LMBKernel) : LMBAutomorphism :=
  ⟨List.range kernel.tileCount, List.range kernel.typeCount⟩

theorem listed_one : listed kernel 1 1 = identityLmb kernel := by
  simp [listed, identityLmb]

end Group

section Laws

variable (kernel : LMBKernel)

/-- The transforms of an automorphism commute with the legal actions and the steps of a state. -/
def CommutesAt (automorphism : LMBAutomorphism) (state : LMBState) : Prop :=
  ∃ image, transformLmbState kernel state automorphism = .ok image ∧
    (∃ legal moved legal', kernel.actions state = .ok legal ∧
      legal.mapM (transformLmbAction kernel · automorphism) = .ok moved ∧
      kernel.actions image = .ok legal' ∧ moved.Perm legal') ∧
    ∀ action outcomes, kernel.step state action = .ok outcomes →
      ∃ action' outcomes', transformLmbAction kernel action automorphism = .ok action' ∧
        kernel.step image action' = .ok outcomes' ∧
        List.Forall₂ (fun outcome outcome' : Outcome LMBState =>
          transformLmbState kernel outcome.nextState automorphism = .ok outcome'.nextState ∧
          outcome'.probability = outcome.probability ∧
          outcome'.rewardFeatures = outcome.rewardFeatures ∧
          outcome'.failure = outcome.failure ∧ outcome'.terminal = outcome.terminal)
          outcomes outcomes'

/-- The automorphisms are exactly those of the kernel, each once and in order, they are a group, and
their transforms commute with the dynamics. -/
structure ExactAutomorphisms (automorphisms : List LMBAutomorphism) : Prop where
  nodup : automorphisms.Nodup
  sorted : automorphisms.Pairwise fun a b => automorphismKey a ≤ automorphismKey b
  mem_iff : ∀ a, a ∈ automorphisms ↔ IsAutomorphism kernel a
  identity_mem : identityLmb kernel ∈ automorphisms
  compose_mem : ∀ a ∈ automorphisms, ∀ b ∈ automorphisms, composeLmb kernel a b ∈ automorphisms
  inverse_mem : ∀ a ∈ automorphisms, ∃ b ∈ automorphisms,
    composeLmb kernel a b = identityLmb kernel ∧ composeLmb kernel b a = identityLmb kernel
  commutes : ∀ a ∈ automorphisms, ∀ state, Reachable kernel state → CommutesAt kernel a state

variable {kernel}

theorem Preserves.commutesAt {σ τ : Equiv.Perm ℕ} (h : Preserves kernel σ τ) {state : LMBState}
    (hvalid : kernel.validateState state = .ok ()) :
    CommutesAt kernel (listed kernel σ τ) state := by
  obtain ⟨-, hlength, -⟩ := LMBKernel.validateState_eq_ok.mp hvalid
  obtain ⟨legal, legal', hlegal, hlegal', hperm, hlt⟩ := h.actions hvalid
  refine ⟨_, transformLmbState_listed hlength h.types, ⟨legal, _, legal', hlegal,
    mapM_of_forall fun action haction => transformLmbAction_listed (hlt action haction), hlegal',
    hperm⟩, fun action outcomes hstep => ?_⟩
  obtain ⟨rfl, hstep'⟩ := h.step hstep
  have htakes := (LMBKernel.step_eq_ok.mp hstep).1
  have hafter := h.after hvalid htakes.tile_lt
  refine ⟨_, _, transformLmbAction_listed htakes.tile_lt, hstep', .cons ⟨?_, rfl, ?_, ?_, ?_⟩ .nil⟩
  · have hnext : (kernel.after state action.tile).buffer.length = kernel.typeCount :=
      length_buffered.trans hlength
    exact (transformLmbState_listed hnext h.types).trans (congrArg _ hafter.symm)
  · exact h.stepFeatures hvalid htakes.tile_lt
  · simp only [LMBKernel.outcomeOf, hafter]
    rfl
  · simp only [LMBKernel.outcomeOf, hafter]
    rfl

/-- The enumeration returns exactly the automorphisms while the candidates stay within the cap, and
raises beyond it. -/
theorem enumerateLmbAutomorphisms_exact (kernel : LMBKernel) (candidateCap : ℕ)
    (hpos : 0 < candidateCap) :
    ((automorphismCandidates kernel).length ≤ candidateCap →
      ∃ automorphisms, enumerateLmbAutomorphisms kernel candidateCap = .ok automorphisms ∧
        ExactAutomorphisms kernel automorphisms) ∧
    (candidateCap < (automorphismCandidates kernel).length →
      enumerateLmbAutomorphisms kernel candidateCap = .error candidateCapExceeded) := by
  rw [enumerateLmbAutomorphisms_eq hpos]
  refine ⟨fun hle => ⟨_, if_pos hle, ?_⟩, fun hlt => if_neg (not_le.mpr hlt)⟩
  have hperm := perm_sortBy automorphismKey (kept kernel (automorphismCandidates kernel))
  have hmem : ∀ a, a ∈ sortBy automorphismKey (kept kernel (automorphismCandidates kernel)) ↔
      ∃ σ τ, Preserves kernel σ τ ∧ a = listed kernel σ τ := fun a => by
    rw [hperm.mem_iff, mem_kept, isAutomorphism_iff]
  have hidentity : identityLmb kernel ∈
      sortBy automorphismKey (kept kernel (automorphismCandidates kernel)) :=
    (hmem _).mpr ⟨1, 1, preserves_one, listed_one.symm⟩
  refine ⟨hperm.nodup_iff.mpr nodup_kept, pairwise_sortBy _ _, fun a => ?_, hidentity, ?_, ?_, ?_⟩
  · rw [hmem, isAutomorphism_iff]
  · intro a ha b hb
    obtain ⟨σ, τ, h, rfl⟩ := (hmem a).mp ha
    obtain ⟨σ', τ', h', rfl⟩ := (hmem b).mp hb
    exact (hmem _).mpr ⟨_, _, h.mul h', composeLmb_listed h'.tiles h'.types⟩
  · intro a ha
    obtain ⟨σ, τ, h, rfl⟩ := (hmem a).mp ha
    refine ⟨_, (hmem _).mpr ⟨_, _, h.symm, rfl⟩, ?_, ?_⟩
    · rw [composeLmb_listed h.symm.tiles h.symm.types, ← listed_one]
      exact congrArg₂ _ (mul_inv_cancel σ) (mul_inv_cancel τ)
    · rw [composeLmb_listed h.tiles h.types, ← listed_one]
      exact congrArg₂ _ (inv_mul_cancel σ) (inv_mul_cancel τ)
  · intro a ha state hreachable
    obtain ⟨σ, τ, h, rfl⟩ := (hmem a).mp ha
    exact h.commutesAt hreachable.invariant.validateState

end Laws

/-! ## The cap -/

theorem le_length_automorphismCandidates (kernel : LMBKernel) :
    ((List.range kernel.typeCount).map fun type => (tileGroup kernel type).length.factorial).prod ≤
      (automorphismCandidates kernel).length := by
  have hmem : List.range kernel.typeCount ∈ (List.range kernel.typeCount).permutations' :=
    List.mem_permutations'.mpr (List.Perm.refl _)
  rw [automorphismCandidates, List.length_flatMap]
  refine le_trans (le_of_eq ?_) (List.single_le_sum (fun _ _ => Nat.zero_le _) _
    (List.mem_map_of_mem hmem))
  have hget : ∀ source < kernel.typeCount, (List.range kernel.typeCount).getD source 0 = source :=
    fun source hlt => by simp [List.getD_eq_getElem?_getD, hlt]
  rw [if_pos fun source hlt => by rw [hget source hlt], List.length_map, length_cartesian,
    List.map_map]
  refine congrArg List.prod (List.map_congr_left fun source hsource => ?_)
  rw [Function.comp_apply, length_permutations', hget source (List.mem_range.mp hsource)]

def nineTiles : LMBKernel where
  tileTypes := List.replicate 9 0
  blockers := List.replicate 9 ∅
  typeCount := 1
  capacity := 2
  maxLayers := 1
  tiles_ne := by decide
  tiles_mod := by decide
  blockers_length := by decide
  typeCount_pos := Nat.one_pos
  maxLayers_pos := Nat.one_pos
  types_lt := by decide
  blockers_valid := by decide
  layered := by decide +kernel

/-- Nine tiles can be rearranged in more ways than the registered cap admits. -/
theorem enumerateLmbAutomorphisms_nineTiles :
    enumerateLmbAutomorphisms nineTiles 100000 = .error candidateCapExceeded ∧
      IsAutomorphism nineTiles (identityLmb nineTiles) := by
  have hle := le_length_automorphismCandidates nineTiles
  have hcount : ((List.range nineTiles.typeCount).map fun type =>
      (tileGroup nineTiles type).length.factorial).prod = 362880 := by
    decide +kernel
  rw [enumerateLmbAutomorphisms_eq (by decide), if_neg (by omega)]
  exact ⟨rfl, isAutomorphism_iff.mpr ⟨1, 1, preserves_one, listed_one.symm⟩⟩

/-- Three tiles of one type side by side. -/
def sampleTriple : LMBKernel :=
  { coveredTriple with
    blockers := [∅, ∅, ∅]
    maxLayers := 1
    blockers_length := by decide
    maxLayers_pos := Nat.one_pos
    blockers_valid := by decide
    layered := by decide +kernel }

theorem enumerateLmbAutomorphisms_exact_sample :
    ∃ automorphisms, enumerateLmbAutomorphisms sampleTriple 6 = .ok automorphisms ∧
      ExactAutomorphisms sampleTriple automorphisms :=
  (enumerateLmbAutomorphisms_exact sampleTriple 6 (by decide)).1 (by decide +kernel)

end Acfqp.Domains
