import Acfqp.Domains.MatchingBuffer

/-!
# Reachable states of the matching buffer

In every reachable state the buffer holds, of each type, the removed tiles that do not complete a
triple. An active state always has a legal action, because the blockers form no cycle, and the
triples that are still to come bound the reward of every run.
-/

namespace Acfqp.Domains

open Library Planning

/-! ## Masks -/

theorem testBit_remove (mask tile other : ℕ) :
    (mask ||| 1 <<< tile).testBit other = (mask.testBit other || decide (tile = other)) := by
  rw [Nat.testBit_or, Nat.one_shiftLeft, Nat.testBit_two_pow]

def removedSet (tileCount mask : ℕ) : Finset ℕ :=
  (Finset.range tileCount).filter fun tile => mask.testBit tile = true

section Masks

variable {tileCount mask tile : ℕ}

theorem mem_removedSet : tile ∈ removedSet tileCount mask ↔
    tile < tileCount ∧ mask.testBit tile = true := by
  simp [removedSet]

theorem removedSet_remove (htile : tile < tileCount) :
    removedSet tileCount (mask ||| 1 <<< tile) = insert tile (removedSet tileCount mask) := by
  ext other
  simp only [mem_removedSet, Finset.mem_insert, testBit_remove, Bool.or_eq_true, decide_eq_true_eq]
  grind

theorem remove_lt (hmask : mask < 2 ^ tileCount) (htile : tile < tileCount) :
    mask ||| 1 <<< tile < 2 ^ tileCount := by
  rw [Nat.one_shiftLeft]
  exact Nat.or_lt_two_pow hmask (Nat.pow_lt_pow_right (by omega) htile)

/-- The full mask has every tile removed. -/
theorem eq_full_iff (hmask : mask < 2 ^ tileCount) :
    mask = 1 <<< tileCount - 1 ↔ ∀ tile < tileCount, mask.testBit tile = true := by
  rw [Nat.one_shiftLeft]
  constructor
  · rintro rfl tile htile
    simp [Nat.testBit_two_pow_sub_one, htile]
  · intro h
    apply Nat.eq_of_testBit_eq
    intro tile
    rw [Nat.testBit_two_pow_sub_one]
    by_cases htile : tile < tileCount
    · simp [h tile htile, htile]
    · have hlarge : mask < 2 ^ tile :=
        hmask.trans_le (Nat.pow_le_pow_right (by omega) (not_lt.mp htile))
      simp [htile, Nat.testBit_lt_two_pow hlarge]

end Masks

section Buffers

theorem sum_set_add {buffer : List ℕ} {index : ℕ} (value : ℕ) (h : index < buffer.length) :
    (buffer.set index value).sum + buffer.getD index 0 = buffer.sum + value := by
  induction buffer generalizing index with
  | nil => simp at h
  | cons count buffer ih =>
    cases index with
    | zero => simp; omega
    | succ index =>
      have := @ih index (by simpa using h)
      simp only [List.set_cons_succ, List.sum_cons, List.getD_cons_succ]
      omega

variable {buffer : List ℕ} {tileType : ℕ}

@[simp] theorem length_buffered :
    (LMBKernel.buffered buffer tileType).1.length = buffer.length := by
  unfold LMBKernel.buffered
  dsimp only
  split <;> simp

/-- A tile adds one to the buffer, and a completed triple takes three away. -/
theorem sum_buffered (h : tileType < buffer.length) :
    (LMBKernel.buffered buffer tileType).1.sum +
      (if (LMBKernel.buffered buffer tileType).2 then 3 else 0) = buffer.sum + 1 := by
  unfold LMBKernel.buffered
  dsimp only
  split
  · rename_i hthree
    have := sum_set_add 0 h
    simp only [if_true]
    omega
  · have := sum_set_add (buffer.getD tileType 0 + 1) h
    simp only [Bool.false_eq_true, if_false]
    omega

theorem getD_set {index : ℕ} (value other : ℕ) (h : index < buffer.length) :
    (buffer.set index value).getD other 0 =
      if index = other then value else buffer.getD other 0 := by
  rw [List.getD_eq_getElem?_getD, List.getElem?_set, List.getD_eq_getElem?_getD]
  split
  · rename_i heq
    subst heq
    simp
  · rfl

theorem getD_buffered (h : tileType < buffer.length) (hlt : buffer.getD tileType 0 < 3)
    (other : ℕ) : (LMBKernel.buffered buffer tileType).1.getD other 0 =
      if tileType = other then (buffer.getD tileType 0 + 1) % 3 else buffer.getD other 0 := by
  unfold LMBKernel.buffered
  dsimp only
  split
  · rename_i hthree
    rw [getD_set _ _ h, hthree]
  · rename_i hthree
    rw [getD_set _ _ h, Nat.mod_eq_of_lt (by omega)]

end Buffers

/-! ## Steps -/

namespace LMBKernel

variable {kernel : LMBKernel} {state : LMBState} {action : LMBAction}
  {outcomes : List (Outcome LMBState)}

theorem blockers_length_eq : kernel.blockers.length = kernel.tileCount := kernel.blockers_length

theorem mem_actions {legal : List LMBAction} (h : kernel.actions state = .ok legal) :
    action ∈ legal ↔ state.status = .active ∧ action.tile < kernel.tileCount ∧
      kernel.Free state.removedMask action.tile := by
  obtain ⟨_, -, h⟩ := bind_eq_ok.mp h
  split at h
  · rename_i hstatus
    cases pure_eq_ok.mp h
    simp [hstatus]
  · rename_i hstatus
    cases pure_eq_ok.mp h
    rw [not_not] at hstatus
    obtain ⟨tile⟩ := action
    simp [hstatus, blockers_length_eq]

theorem stepFeatures_wellNamed (state : LMBState) (tile : ℕ) :
    (kernel.stepFeatures state tile).WellNamed := by
  unfold stepFeatures Features.WellNamed
  split <;> split <;> simp

theorem sure_pos : (0 : ℚ) < 1 := zero_lt_one

theorem sure_le_one : (1 : ℚ) ≤ 1 := le_rfl

variable (kernel) in
def outcomeOf (state : LMBState) (tile : ℕ) : Outcome LMBState where
  probability := 1
  nextState := kernel.after state tile
  rewardFeatures := kernel.stepFeatures state tile
  failure := (kernel.after state tile).status = .failure
  terminal := (kernel.after state tile).status ≠ .active
  probability_pos := sure_pos
  probability_le_one := sure_le_one
  wellNamed := stepFeatures_wellNamed state tile

variable (kernel) in
/-- A step takes a free tile of a valid active state. -/
structure Takes (state : LMBState) (action : LMBAction) : Prop where
  valid : kernel.validateState state = .ok ()
  active : state.status = .active
  tile_lt : action.tile < kernel.tileCount
  free : kernel.Free state.removedMask action.tile

theorem actions_eq (hvalid : kernel.validateState state = .ok ())
    (hactive : state.status = .active) : kernel.actions state =
      .ok (((List.range kernel.blockers.length).filter fun tile =>
        kernel.Free state.removedMask tile).map LMBAction.mk) := by
  unfold actions
  rw [bind_of_ok hvalid, if_neg (not_not.mpr hactive)]
  rfl

theorem step_eq_ok : kernel.step state action = .ok outcomes ↔
    Takes kernel state action ∧ outcomes = [kernel.outcomeOf state action.tile] := by
  have hmake : Outcome.make 1 (kernel.after state action.tile)
      (kernel.stepFeatures state action.tile)
      ((kernel.after state action.tile).status = .failure)
      ((kernel.after state action.tile).status ≠ .active) =
        .ok (kernel.outcomeOf state action.tile) := by
    rw [Outcome.make, dif_pos ⟨zero_lt_one, le_rfl⟩, dif_pos (stepFeatures_wellNamed _ _)]
    rfl
  constructor
  · intro h
    obtain ⟨_, hvalid, h⟩ := bind_eq_ok.mp h
    obtain ⟨legal, hlegal, h⟩ := bind_eq_ok.mp h
    obtain ⟨_, hmem, h⟩ := bind_eq_ok.mp h
    obtain ⟨outcome, houtcome, h⟩ := bind_eq_ok.mp h
    cases pure_eq_ok.mp h
    obtain ⟨hactive, hlt, hfree⟩ := (mem_actions hlegal).mp (require_eq_ok.mp hmem)
    exact ⟨⟨hvalid, hactive, hlt, hfree⟩,
      congrArg (fun o => [o]) (Except.ok.inj (houtcome.symm.trans hmake))⟩
  · rintro ⟨⟨hvalid, hactive, hlt, hfree⟩, rfl⟩
    have hactions := actions_eq hvalid hactive
    have hlegal := (mem_actions hactions).mpr ⟨hactive, hlt, hfree⟩
    unfold step
    rw [bind_of_ok hvalid, bind_of_ok hactions, bind_of_ok (require_eq_ok (u := ()).mpr hlegal)]
    dsimp only
    rw [bind_of_ok hmake]
    rfl

end LMBKernel

section Invariant

variable (kernel : LMBKernel)

def tileType (tile : ℕ) : ℕ := kernel.tileTypes.getD tile 0

def removedOf (state : LMBState) (type : ℕ) : Finset ℕ :=
  (removedSet kernel.tileCount state.removedMask).filter fun tile => tileType kernel tile = type

structure LMBInvariant (state : LMBState) : Prop where
  mask_lt : state.removedMask < 2 ^ kernel.tileCount
  length : state.buffer.length = kernel.typeCount
  counts : ∀ type < kernel.typeCount,
    state.buffer.getD type 0 = (removedOf kernel state type).card % 3
  sum_le : state.buffer.sum ≤ (removedSet kernel.tileCount state.removedMask).card
  fits : state.status = .active → state.buffer.sum ≤ kernel.capacity
  remains : state.status = .active → ∃ tile < kernel.tileCount,
    state.removedMask.testBit tile = false

variable {kernel} {state : LMBState}

theorem tileType_lt {tile : ℕ} (h : tile < kernel.tileCount) :
    tileType kernel tile < kernel.typeCount := by
  rw [tileType, List.getD_eq_getElem _ _ h]
  exact kernel.types_lt _ (List.getElem_mem h)

theorem removedOf_after {tile type : ℕ} (hlt : tile < kernel.tileCount)
    (hfree : state.removedMask.testBit tile = false) :
    (removedOf kernel (kernel.after state tile) type).card =
      (removedOf kernel state type).card + if tileType kernel tile = type then 1 else 0 := by
  have hset : removedSet kernel.tileCount (kernel.after state tile).removedMask =
      insert tile (removedSet kernel.tileCount state.removedMask) := removedSet_remove hlt
  rw [removedOf, hset, Finset.filter_insert]
  split
  · rw [Finset.card_insert_of_notMem (by simp [mem_removedSet, hfree])]
    rfl
  · rfl

theorem card_after {tile : ℕ} (hlt : tile < kernel.tileCount)
    (hfree : state.removedMask.testBit tile = false) :
    (removedSet kernel.tileCount (kernel.after state tile).removedMask).card =
      (removedSet kernel.tileCount state.removedMask).card + 1 := by
  have hset : removedSet kernel.tileCount (kernel.after state tile).removedMask =
      insert tile (removedSet kernel.tileCount state.removedMask) := removedSet_remove hlt
  rw [hset, Finset.card_insert_of_notMem (by simp [mem_removedSet, hfree])]

namespace LMBInvariant

theorem count_lt (h : LMBInvariant kernel state) (type : ℕ) : state.buffer.getD type 0 < 3 := by
  by_cases htype : type < kernel.typeCount
  · rw [h.counts type htype]
    exact Nat.mod_lt _ (by omega)
  · rw [List.getD_eq_default _ _ (by rw [h.length]; omega)]
    omega

theorem validateState (h : LMBInvariant kernel state) : kernel.validateState state = .ok () := by
  refine bind_eq_ok.mpr ⟨(), require_eq_ok.mpr ?_, require_eq_ok.mpr ⟨h.length, fun count hc => ?_⟩⟩
  · rw [Nat.shiftRight_eq_div_pow]
    exact Nat.div_eq_of_lt h.mask_lt
  · obtain ⟨i, hi, rfl⟩ := List.getElem_of_mem hc
    have := h.count_lt i
    rwa [List.getD_eq_getElem _ _ hi] at this

theorem initial : LMBInvariant kernel kernel.initialState where
  mask_lt := Nat.two_pow_pos _
  length := List.length_replicate
  counts type htype := by
    simp [LMBKernel.initialState, htype, removedOf, removedSet]
  sum_le := by simp [LMBKernel.initialState]
  fits _ := by simp [LMBKernel.initialState]
  remains _ := ⟨0, Nat.pos_of_ne_zero kernel.tiles_ne, by simp [LMBKernel.initialState]⟩

/-- Taking a free tile keeps the invariant. -/
theorem after (h : LMBInvariant kernel state) {tile : ℕ} (hlt : tile < kernel.tileCount)
    (hfree : state.removedMask.testBit tile = false) :
    LMBInvariant kernel (kernel.after state tile) := by
  have hindex : tileType kernel tile < state.buffer.length := by
    rw [h.length]
    exact tileType_lt hlt
  have hmask := remove_lt h.mask_lt hlt
  have hsum := sum_buffered hindex
  refine ⟨hmask, length_buffered.trans h.length, fun type htype => ?_, ?_, fun hactive => ?_,
    fun hactive => ?_⟩
  · have hcount := getD_buffered hindex (h.count_lt _) type
    rw [removedOf_after hlt hfree]
    refine hcount.trans ?_
    split
    · rename_i heq
      subst heq
      rw [h.counts _ htype, Nat.mod_add_mod]
    · rw [h.counts _ htype, Nat.add_zero]
  · rw [card_after hlt hfree]
    have hle := h.sum_le
    change (LMBKernel.buffered state.buffer (tileType kernel tile)).1.sum ≤ _
    omega
  · by_contra hover
    rw [not_le] at hover
    simp only [LMBKernel.after] at hactive hover
    rw [if_pos hover] at hactive
    cases hactive
  · by_contra hall
    push Not at hall
    simp only [Bool.not_eq_false] at hall
    have hfull := (eq_full_iff hmask).mpr hall
    simp only [LMBKernel.after] at hactive
    rw [if_pos hfull] at hactive
    split at hactive <;> cases hactive

end LMBInvariant

end Invariant

section Legal

variable {kernel : LMBKernel} {state : LMBState}

theorem within_maxLayers {tile : ℕ} (h : tile < kernel.tileCount) :
    Within (fun tile => (blockersOf kernel.blockers tile).sort (· ≤ ·)) kernel.maxLayers tile := by
  obtain ⟨actual, hactual, hle⟩ := bind_eq_ok.mp kernel.layered
  refine (layers_le_iff (fun v hv c hc => ?_)).mp ⟨actual, hactual, require_eq_ok.mp hle⟩ tile
    (List.mem_range.mpr h)
  rw [Finset.mem_sort] at hc
  exact List.mem_range.mpr ((kernel.blockers_valid v (List.mem_range.mp hv)).2 c hc)

theorem exists_free {mask n tile : ℕ} (hwithin : Within
      (fun tile => (blockersOf kernel.blockers tile).sort (· ≤ ·)) n tile)
    (hlt : tile < kernel.tileCount) (hon : mask.testBit tile = false) :
    ∃ free < kernel.tileCount, kernel.Free mask free := by
  induction n generalizing tile with
  | zero => cases hwithin
  | succ n ih =>
    by_cases hfree : ∀ blocker ∈ blockersOf kernel.blockers tile, mask.testBit blocker = true
    · exact ⟨tile, hlt, hon, hfree⟩
    · push Not at hfree
      obtain ⟨blocker, hblocker, hpresent⟩ := hfree
      exact ih (hwithin blocker ((Finset.mem_sort _).mpr hblocker))
        ((kernel.blockers_valid tile hlt).2 blocker hblocker) (by simpa using hpresent)

theorem LMBInvariant.exists_action (h : LMBInvariant kernel state)
    (hactive : state.status = .active) :
    ∃ legal, kernel.actions state = .ok legal ∧ legal ≠ [] := by
  obtain ⟨tile, hlt, hon⟩ := h.remains hactive
  obtain ⟨free, hfreeLt, hfree⟩ := exists_free (within_maxLayers hlt) hlt hon
  have hactions := LMBKernel.actions_eq h.validateState hactive
  refine ⟨_, hactions, List.ne_nil_of_mem (a := ⟨free⟩) ?_⟩
  exact (LMBKernel.mem_actions hactions).mpr ⟨hactive, hfreeLt, hfree⟩

end Legal

/-! ## Runs -/

/-- A run of legal actions, by its outcomes. -/
inductive Plays (kernel : LMBKernel) : LMBState → List (Outcome LMBState) → LMBState → Prop
  | nil (state : LMBState) : Plays kernel state [] state
  | cons {state last : LMBState} {action : LMBAction} {outcomes rest : List (Outcome LMBState)}
      {outcome : Outcome LMBState} (hstep : kernel.step state action = .ok outcomes)
      (hmem : outcome ∈ outcomes) (hrest : Plays kernel outcome.nextState rest last) :
      Plays kernel state (outcome :: rest) last

def Reachable (kernel : LMBKernel) (state : LMBState) : Prop :=
  ∃ outcomes, Plays kernel kernel.initialState outcomes state

section Runs

variable {kernel : LMBKernel} {state last : LMBState} {run : List (Outcome LMBState)}

theorem Plays.invariant (h : Plays kernel state run last) (hstate : LMBInvariant kernel state) :
    LMBInvariant kernel last := by
  induction h with
  | nil => exact hstate
  | cons hstep hmem _ ih =>
    obtain ⟨htakes, rfl⟩ := LMBKernel.step_eq_ok.mp hstep
    obtain rfl := List.mem_singleton.mp hmem
    exact ih (hstate.after htakes.tile_lt htakes.free.1)

theorem Reachable.invariant (h : Reachable kernel state) : LMBInvariant kernel state := by
  obtain ⟨run, hrun⟩ := h
  exact hrun.invariant .initial

theorem Plays.eq_nil (h : Plays kernel state run last) (hended : state.status ≠ .active) :
    run = [] := by
  cases h with
  | nil => rfl
  | cons hstep => exact absurd (LMBKernel.step_eq_ok.mp hstep).1.active hended

theorem LMBInvariant.boundaryLabels (h : LMBInvariant kernel state) :
    ∃ labels, boundaryLabels kernel state = .ok labels := by
  unfold Domains.boundaryLabels
  by_cases hactive : state.status = .active
  · obtain ⟨legal, hlegal, hne⟩ := h.exists_action hactive
    rw [bind_of_ok hlegal, if_neg hne]
    split <;> exact ⟨_, rfl⟩
  · have hlegal : kernel.actions state = .ok [] := by
      rw [LMBKernel.actions, bind_of_ok h.validateState, if_pos hactive]
      rfl
    have hterminal : kernel.isTerminal state = .ok true := by
      rw [LMBKernel.isTerminal, bind_of_ok h.validateState]
      simp [hactive]
    rw [bind_of_ok hlegal, if_pos rfl, bind_of_ok hterminal]
    exact ⟨[], rfl⟩

end Runs

section Rewards

variable {kernel : LMBKernel} {state last : LMBState} {run : List (Outcome LMBState)}

theorem outcomeReward_outcomeOf (weights : Features) (tile : ℕ) :
    outcomeReward (kernel.outcomeOf state tile) weights =
      weightOf weights "match" *
          (if (LMBKernel.buffered state.buffer (tileType kernel tile)).2 then 1 else 0) +
        weightOf weights "terminal_clear" * kernel.clearBonus *
          (if (kernel.after state tile).status = .success then 1 else 0) := by
  unfold outcomeReward weigh LMBKernel.outcomeOf LMBKernel.stepFeatures tileType
  dsimp only
  split <;> split <;> simp

/-- The reward of a run counts its matches and its clears. Three removed tiles make a match, unless
they stay in the buffer, and a clear ends the run. -/
theorem Plays.reward (weights : Features) (h : Plays kernel state run last)
    (hstate : LMBInvariant kernel state) :
    ∃ matches_ clears : ℕ, (run.map (outcomeReward · weights)).sum =
        weightOf weights "match" * matches_ +
          weightOf weights "terminal_clear" * kernel.clearBonus * clears ∧
      matches_ ≤ run.length ∧ clears ≤ 1 ∧ (run = [] → clears = 0) ∧
      3 * matches_ + last.buffer.sum + (removedSet kernel.tileCount state.removedMask).card =
        state.buffer.sum + (removedSet kernel.tileCount last.removedMask).card := by
  induction h with
  | nil => exact ⟨0, 0, by simp⟩
  | @cons state last action outcomes rest outcome hstep hmem hrest ih =>
    obtain ⟨htakes, rfl⟩ := LMBKernel.step_eq_ok.mp hstep
    obtain rfl := List.mem_singleton.mp hmem
    have hlt := htakes.tile_lt
    obtain ⟨later, clears, hsum, hlength, hclears, hnone, hbalance⟩ :=
      ih (hstate.after hlt htakes.free.1)
    have hbuffer := @sum_buffered state.buffer (tileType kernel action.tile)
      (by rw [hstate.length]; exact tileType_lt hlt)
    have hcard := @card_after kernel state action.tile hlt htakes.free.1
    change 3 * later + last.buffer.sum +
      (removedSet kernel.tileCount (kernel.after state action.tile).removedMask).card =
        (LMBKernel.buffered state.buffer (tileType kernel action.tile)).1.sum + _ at hbalance
    refine ⟨later +
        if (LMBKernel.buffered state.buffer (tileType kernel action.tile)).2 then 1 else 0,
      clears + if (kernel.after state action.tile).status = .success then 1 else 0,
      ?_, ?_, ?_, ?_, ?_⟩
    · rw [List.map_cons, List.sum_cons, hsum, outcomeReward_outcomeOf]
      push_cast
      ring
    · rw [List.length_cons]
      split <;> omega
    · split
      · rename_i hsuccess
        have := hnone (hrest.eq_nil (by
          change (kernel.after state action.tile).status ≠ .active
          rw [hsuccess]
          simp))
        omega
      · omega
    · simp
    · by_cases hmatched : (LMBKernel.buffered state.buffer (tileType kernel action.tile)).2 = true
      · rw [if_pos hmatched] at hbuffer ⊢
        omega
      · rw [if_neg hmatched] at hbuffer ⊢
        omega

/-- From a reachable state no run of legal actions earns more than the bound for its length. -/
theorem lmb_reward_le (kernel : LMBKernel) (state last : LMBState) (run : List (Outcome LMBState))
    (weights : Features) (goal : String) (hreachable : Reachable kernel state)
    (hrun : Plays kernel state run last) (hmatch : 0 ≤ weightOf weights "match")
    (hclear : 0 ≤ weightOf weights "terminal_clear") (hgoal : goal ∈ LMBKernel.registeredGoals) :
    ∃ bound, kernel.rewardUpperBound run.length weights goal = .ok bound ∧
      (run.map (outcomeReward · weights)).sum ≤ bound := by
  have hstate := hreachable.invariant
  have hlast := hrun.invariant hstate
  obtain ⟨matches_, clears, hsum, hlength, hclears, hnone, hbalance⟩ :=
    hrun.reward weights hstate
  have hcard : (removedSet kernel.tileCount last.removedMask).card ≤ kernel.tileCount := by
    have := Finset.card_filter_le (Finset.range kernel.tileCount)
      fun tile => last.removedMask.testBit tile = true
    rwa [Finset.card_range] at this
  have hmatches : matches_ ≤ min (kernel.tileCount / 3) run.length := by
    have := hstate.sum_le
    exact le_min (by omega) hlength
  have hcount : (clears : ℚ) ≤ if 0 < run.length then 1 else 0 := by
    split
    · exact_mod_cast hclears
    · rename_i hzero
      rw [hnone (List.length_eq_zero_iff.mp (by omega))]
      simp
  have hbonus : 0 ≤ kernel.clearBonus := by
    unfold LMBKernel.clearBonus
    positivity
  refine ⟨_, bind_eq_ok.mpr ⟨(), require_eq_ok.mpr hgoal,
    bind_eq_ok.mpr ⟨(), require_eq_ok.mpr ⟨hmatch, hclear⟩, rfl⟩⟩, ?_⟩
  rw [hsum]
  exact add_le_add (mul_le_mul_of_nonneg_left (by exact_mod_cast hmatches) hmatch)
    (mul_le_mul_of_nonneg_left hcount (mul_nonneg hclear hbonus))

end Rewards

section Constructor

variable {tileTypes : List ℕ} {blockers : List (Finset ℕ)} {typeCount capacity maxLayers : ℕ}

def Blocks (blockers : List (Finset ℕ)) (tile blocker : ℕ) : Prop :=
  blocker ∈ blockersOf blockers tile

theorem validateDagDepth_eq_ok {tileCount : ℕ}
    (hblockers : ∀ tile < tileCount, ∀ blocker ∈ blockersOf blockers tile, blocker < tileCount) :
    validateDagDepth tileCount blockers maxLayers = .ok () ↔
      ∀ tile < tileCount,
        Within (fun tile => (blockersOf blockers tile).sort (· ≤ ·)) maxLayers tile := by
  have hlayers : (∃ most, layers (fun tile => (blockersOf blockers tile).sort (· ≤ ·))
      blockerCycle (List.range tileCount) = .ok most ∧ most ≤ maxLayers) ↔ _ :=
    layers_le_iff fun v hv c hc =>
      List.mem_range.mpr (hblockers v (List.mem_range.mp hv) c ((Finset.mem_sort _).mp hc))
  simp only [List.mem_range] at hlayers
  rw [← hlayers, validateDagDepth, bind_eq_ok]
  simp only [require_eq_ok]

/-- Chains of blockers end within the layers exactly when there is no cycle and no longer chain. -/
theorem forall_within_iff {tileCount : ℕ} : (∀ tile < tileCount,
      Within (fun tile => (blockersOf blockers tile).sort (· ≤ ·)) maxLayers tile) ↔
    (∀ tile < tileCount, ¬ Relation.TransGen (Blocks blockers) tile tile) ∧
      ∀ tile < tileCount, ∀ chain, (tile :: chain).IsChain (Blocks blockers) →
        (tile :: chain).length ≤ maxLayers := by
  have hblocks : (fun a b => b ∈ (blockersOf blockers a).sort (· ≤ ·)) = Blocks blockers := by
    funext a b
    exact propext (Finset.mem_sort _)
  constructor
  · intro h
    refine ⟨fun tile hlt => ?_, fun tile hlt chain hchain => ?_⟩
    · have := (h tile hlt).acyclic
      rwa [hblocks] at this
    · have := within_iff_isChain.mp (h tile hlt) chain
      rw [hblocks] at this
      exact this hchain
  · rintro ⟨-, h⟩ tile hlt
    refine within_iff_isChain.mpr fun chain hchain => ?_
    rw [hblocks] at hchain
    exact h tile hlt chain hchain

/-- The constructor gives a kernel back from its own data. -/
theorem LMBKernel.make_self (kernel : LMBKernel) : LMBKernel.make kernel.tileTypes kernel.blockers
    kernel.typeCount kernel.capacity kernel.maxLayers = .ok kernel := by
  unfold LMBKernel.make
  rw [dif_pos ⟨kernel.tiles_ne, kernel.tiles_mod⟩, dif_pos kernel.blockers_length,
    dif_pos kernel.typeCount_pos, dif_pos kernel.maxLayers_pos, dif_pos kernel.types_lt,
    dif_pos kernel.blockers_valid]
  split
  · rfl
  · rename_i e herror
    rw [kernel.layered] at herror
    cases herror

/-- The constructor accepts a blocker relation that has no cycle and no chain of more tiles than
there are layers, and no other. -/
theorem LMBKernel.make_isOk_iff (htiles : tileTypes.length ≠ 0 ∧ tileTypes.length % 3 = 0)
    (htypes : ∀ type ∈ tileTypes, type < typeCount) (hlayers : 0 < maxLayers)
    (hlength : blockers.length = tileTypes.length)
    (hblockers : ∀ tile < tileTypes.length, ∀ blocker ∈ blockersOf blockers tile,
      blocker < tileTypes.length) :
    (∃ kernel, LMBKernel.make tileTypes blockers typeCount capacity maxLayers = .ok kernel) ↔
      (∀ tile < tileTypes.length, ¬ Relation.TransGen (Blocks blockers) tile tile) ∧
      ∀ tile < tileTypes.length, ∀ chain, (tile :: chain).IsChain (Blocks blockers) →
        (tile :: chain).length ≤ maxLayers := by
  rw [← forall_within_iff, ← validateDagDepth_eq_ok hblockers]
  constructor
  · rintro ⟨kernel, h⟩
    unfold LMBKernel.make at h
    split_ifs at h
    split at h
    · assumption
    · cases h
  · intro hlayered
    have hcount : 0 < typeCount := by
      obtain ⟨type, htype⟩ := List.exists_mem_of_length_pos (Nat.pos_of_ne_zero htiles.1)
      exact (Nat.zero_le _).trans_lt (htypes type htype)
    have hvalid : BlockersValid tileTypes.length blockers := by
      refine fun tile hlt => ⟨fun hself => ?_, hblockers tile hlt⟩
      exact (forall_within_iff.mp ((validateDagDepth_eq_ok hblockers).mp hlayered)).1 tile hlt
        (.single hself)
    unfold LMBKernel.make
    rw [dif_pos htiles, dif_pos hlength, dif_pos hcount, dif_pos hlayers, dif_pos htypes,
      dif_pos hvalid]
    split
    · exact ⟨_, rfl⟩
    · rename_i e herror
      rw [hlayered] at herror
      cases herror

end Constructor

/-! ## Laws -/

/-- In every reachable state the buffer counts the removed tiles modulo three and an active state
fits the capacity and has a legal action. The constructor accepts exactly the blocker relations
without cycles and without chains longer than the layers. -/
theorem lmb_reachable_laws :
    (∀ kernel state, Reachable kernel state →
      state.buffer.length = kernel.typeCount ∧
      (∀ type < kernel.typeCount,
        state.buffer.getD type 0 = (removedOf kernel state type).card % 3) ∧
      (state.status = .active → state.buffer.sum ≤ kernel.capacity) ∧
      (state.status = .active → ∃ legal, kernel.actions state = .ok legal ∧ legal ≠ []) ∧
      ∃ labels, boundaryLabels kernel state = .ok labels) ∧
    (∀ (tileTypes : List ℕ) (blockers : List (Finset ℕ)) (typeCount capacity maxLayers : ℕ),
      (tileTypes.length ≠ 0 ∧ tileTypes.length % 3 = 0) →
      (∀ type ∈ tileTypes, type < typeCount) → 0 < maxLayers →
      blockers.length = tileTypes.length →
      (∀ tile < tileTypes.length, ∀ blocker ∈ blockersOf blockers tile,
        blocker < tileTypes.length) →
      ((∃ kernel, LMBKernel.make tileTypes blockers typeCount capacity maxLayers = .ok kernel) ↔
        (∀ tile < tileTypes.length, ¬ Relation.TransGen (Blocks blockers) tile tile) ∧
        ∀ tile < tileTypes.length, ∀ chain, (tile :: chain).IsChain (Blocks blockers) →
          (tile :: chain).length ≤ maxLayers)) := by
  refine ⟨fun kernel state hreachable => ?_, fun tileTypes blockers typeCount capacity maxLayers
    htiles htypes hlayers hlength hblockers =>
      LMBKernel.make_isOk_iff htiles htypes hlayers hlength hblockers⟩
  have hstate := hreachable.invariant
  exact ⟨hstate.length, hstate.counts, hstate.fits, hstate.exists_action, hstate.boundaryLabels⟩

/-- Three tiles of one type, the second under the first. -/
def coveredTriple : LMBKernel where
  tileTypes := [0, 0, 0]
  blockers := [∅, {0}, ∅]
  typeCount := 1
  capacity := 2
  maxLayers := 2
  tiles_ne := by decide
  tiles_mod := by decide
  blockers_length := by decide
  typeCount_pos := Nat.one_pos
  maxLayers_pos := Nat.two_pos
  types_lt := by decide
  blockers_valid := by decide
  layered := by decide +kernel

theorem coveredTriple_step {mask count tile : ℕ}
    (h : coveredTriple.Takes ⟨mask, [count], .active⟩ ⟨tile⟩) :
    coveredTriple.step ⟨mask, [count], .active⟩ ⟨tile⟩ =
      .ok [coveredTriple.outcomeOf ⟨mask, [count], .active⟩ tile] :=
  LMBKernel.step_eq_ok.mpr ⟨h, rfl⟩

/-- A play that takes two tiles first, the covered one second. -/
def sampleRun (rest : List (Outcome LMBState)) : List (Outcome LMBState) :=
  coveredTriple.outcomeOf coveredTriple.initialState 0 ::
    coveredTriple.outcomeOf ⟨1, [1], .active⟩ 1 :: rest

theorem plays_sampleRun {rest : List (Outcome LMBState)} {last : LMBState}
    (h : Plays coveredTriple ⟨3, [2], .active⟩ rest last) :
    Plays coveredTriple coveredTriple.initialState (sampleRun rest) last := by
  refine .cons (@coveredTriple_step 0 _ _ ⟨rfl, rfl, by decide, by decide⟩)
    (List.mem_singleton_self _) ?_
  exact .cons (@coveredTriple_step 1 _ _ ⟨rfl, rfl, by decide, by decide⟩)
    (List.mem_singleton_self _) h

theorem lmb_reachable_laws_sample :
    ((removedOf coveredTriple ⟨3, [2], .active⟩ 0).card % 3 = 2 ∧
      ∃ legal, coveredTriple.actions ⟨3, [2], .active⟩ = .ok legal ∧ legal ≠ []) ∧
      ∀ tile < 3, ¬ Relation.TransGen (Blocks [∅, {0}, ∅]) tile tile := by
  have hlaws := lmb_reachable_laws
  obtain ⟨-, hcounts, -, hactions, -⟩ :=
    hlaws.1 coveredTriple _ ⟨_, plays_sampleRun (.nil ⟨3, [2], .active⟩)⟩
  refine ⟨⟨(hcounts 0 (by decide)).symm, hactions rfl⟩, ?_⟩
  exact ((hlaws.2 [0, 0, 0] [∅, {0}, ∅] 1 2 2 (by decide) (by decide) (by decide) rfl
    (by decide)).mp ⟨coveredTriple, coveredTriple.make_self⟩).1

/-- The play that ends with the last tile. -/
def clearingRun : List (Outcome LMBState) :=
  sampleRun [coveredTriple.outcomeOf ⟨3, [2], .active⟩ 2]

theorem lmb_reward_le_sample : (clearingRun.map (outcomeReward · [("match", 1)])).sum ≤ 1 := by
  have hplays : Plays coveredTriple coveredTriple.initialState clearingRun ⟨7, [0], .success⟩ :=
    plays_sampleRun (.cons (coveredTriple_step ⟨rfl, rfl, by decide, by decide⟩)
      (List.mem_singleton_self _) (.nil _))
  obtain ⟨bound, hbound, hle⟩ := lmb_reward_le coveredTriple _ _ clearingRun [("match", 1)]
    "default" ⟨[], .nil _⟩ hplays (by decide +kernel) (by decide +kernel) (by decide)
  have hone : coveredTriple.rewardUpperBound clearingRun.length [("match", 1)] "default" =
      .ok 1 := by
    decide +kernel
  exact hle.trans_eq (Except.ok.inj (hbound.symm.trans hone))

end Acfqp.Domains
