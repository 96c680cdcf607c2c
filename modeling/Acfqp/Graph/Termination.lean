import Acfqp.Graph.Refinement

/-!
# The rejection loop

The mixing function tells all words apart and the tape steps by an odd number, so that a period of
the tape reads every word once. A draw therefore meets an accepted word soon after its rejected
ones are used up, unless no word at all is below the acceptance limit.
-/

namespace Acfqp.Graph

open Library

/-! ## The mixing function -/

theorem xor_shiftRight_injective {k : ℕ} (hk : 0 < k) :
    Function.Injective fun word : ℕ => word ^^^ (word >>> k) := by
  intro x y hxy
  have hshift : (x ^^^ y) ^^^ ((x ^^^ y) >>> k) = 0 := by
    rw [Nat.shiftRight_xor_distrib]
    calc x ^^^ y ^^^ (x >>> k ^^^ y >>> k) = (x ^^^ x >>> k) ^^^ (y ^^^ y >>> k) := by
          simp only [Nat.xor_assoc, Nat.xor_left_comm]
      _ = 0 := by rw [show x ^^^ x >>> k = y ^^^ y >>> k from hxy, Nat.xor_self]
  have hfixed : x ^^^ y = (x ^^^ y) >>> k := Nat.xor_eq_zero_iff.mp hshift
  rw [Nat.shiftRight_eq_div_pow] at hfixed
  have hzero : x ^^^ y = 0 := by
    by_contra hne
    have hlt := Nat.div_lt_self (Nat.pos_of_ne_zero hne) (Nat.one_lt_two_pow hk.ne')
    omega
  exact Nat.xor_eq_zero_iff.mp hzero

theorem mixRound_injective {k factor x y : ℕ} (hk : 0 < k)
    (hfactor : Nat.Coprime uint64Modulus factor)
    (hx : x < uint64Modulus) (hy : y < uint64Modulus)
    (h : (x ^^^ (x >>> k)) * factor % uint64Modulus = (y ^^^ (y >>> k)) * factor % uint64Modulus) :
    x = y := by
  have hbound : ∀ z < uint64Modulus, z ^^^ (z >>> k) < uint64Modulus := fun z hz =>
    Nat.xor_lt_two_pow hz ((Nat.shiftRight_le z k).trans_lt hz)
  have hmod : x ^^^ (x >>> k) ≡ y ^^^ (y >>> k) [MOD uint64Modulus] :=
    Nat.ModEq.cancel_right_of_coprime hfactor h
  exact xor_shiftRight_injective hk (Nat.ModEq.eq_of_lt_of_lt hmod (hbound x hx) (hbound y hy))

theorem splitmix64_congr {a b : ℕ} (h : splitmix64 a = splitmix64 b) :
    a ≡ b [MOD uint64Modulus] := by
  have hpos : 0 < uint64Modulus := by decide
  simp only [splitmix64, show uint64Modulus - 1 = 2 ^ 64 - 1 from rfl,
    Nat.and_two_pow_sub_one_eq_mod] at h
  have hlast := Nat.ModEq.eq_of_lt_of_lt h
    (Nat.xor_lt_two_pow (Nat.mod_lt _ hpos) ((Nat.shiftRight_le _ _).trans_lt (Nat.mod_lt _ hpos)))
    (Nat.xor_lt_two_pow (Nat.mod_lt _ hpos) ((Nat.shiftRight_le _ _).trans_lt (Nat.mod_lt _ hpos)))
  have hsecond := xor_shiftRight_injective (by decide : 0 < 31) hlast
  have hfirst := mixRound_injective (by decide : 0 < 27) (by decide +kernel)
    (Nat.mod_lt _ hpos) (Nat.mod_lt _ hpos) hsecond
  exact mixRound_injective (by decide : 0 < 30) (by decide +kernel)
    (Nat.mod_lt _ hpos) (Nat.mod_lt _ hpos) hfirst

theorem tapeWord_injective (seed calls : ℕ) {i j : ℕ} (hi : i < uint64Modulus)
    (hj : j < uint64Modulus)
    (h : splitmix64 (seed + splitmixGamma * (calls + i + 1)) =
      splitmix64 (seed + splitmixGamma * (calls + j + 1))) : i = j := by
  have hindex := Nat.ModEq.cancel_left_of_coprime (by decide +kernel)
    (Nat.ModEq.add_left_cancel' seed (splitmix64_congr h))
  have hij : i ≡ j [MOD uint64Modulus] :=
    Nat.ModEq.add_left_cancel' calls (Nat.ModEq.add_right_cancel' 1 hindex)
  exact Nat.ModEq.eq_of_lt_of_lt hij hi hj

theorem exists_word_lt (seed calls : ℕ) {limit : ℕ} (hpos : 0 < limit)
    (hlimit : limit ≤ uint64Modulus) :
    ∃ i < uint64Modulus - limit + 1,
      splitmix64 (seed + splitmixGamma * (calls + i + 1)) < limit := by
  by_contra hnone
  push Not at hnone
  let word : ℕ → ℕ := fun i => splitmix64 (seed + splitmixGamma * (calls + i + 1))
  have hmaps : ∀ i ∈ Finset.range (uint64Modulus - limit + 1),
      word i ∈ Finset.Ico limit uint64Modulus := fun i hi =>
    Finset.mem_Ico.mpr ⟨hnone i (Finset.mem_range.mp hi), splitmix64_lt _⟩
  have hcard : (Finset.Ico limit uint64Modulus).card <
      (Finset.range (uint64Modulus - limit + 1)).card := by
    rw [Nat.card_Ico, Finset.card_range]
    omega
  obtain ⟨i, hi, j, hj, hne, heq⟩ := Finset.exists_ne_map_eq_of_card_lt_of_maps_to hcard hmaps
  rw [Finset.mem_range] at hi hj
  exact hne (tapeWord_injective seed calls (by omega) (by omega) heq)

/-! ## Draws -/

/-- Every draw of a run reads at most one word more than there are rejected words. -/
structure Terminates (stream : GraphStream) : Prop where
  limit_pos : 0 < stream.acceptanceLimit
  draws : ∀ trace after, Run GraphStream.step stream trace after →
    ∃ sample later,
      after.step (uint64Modulus % stream.outcomeDenominator + 1) = some (sample, later)

namespace Drawing

variable {kernel : GraphKernel} {board empty : List ℕ} {reward : ℚ} {remainingHorizon : ℕ}
  {stream : GraphStream}

theorem readWords_eq_none (hlimit : stream.acceptanceLimit = 0) (fuel : ℕ) (words : List ℕ) :
    GraphStream.readWords fuel stream words = none := by
  induction fuel generalizing stream words with
  | zero => rfl
  | succ fuel ih =>
    rw [GraphStream.readWords, if_pos (hlimit ▸ Nat.zero_le _)]
    apply ih
    exact hlimit

theorem limit_pos_iff (h : Drawing kernel board empty reward remainingHorizon stream)
    (hempty : empty ≠ []) :
    0 < stream.acceptanceLimit ↔ empty.length * kernel.spawnLaw.denominator ≤ uint64Modulus := by
  have hpos : 0 < empty.length * kernel.spawnLaw.denominator :=
    Nat.mul_pos (List.length_pos_iff.mpr hempty) SpawnLaw.denominator_pos
  have hmod := Nat.mod_lt uint64Modulus hpos
  rw [h.limit_eq]
  constructor
  · intro hlimit
    by_contra hlt
    rw [Nat.mod_eq_of_lt (not_le.mp hlt)] at hlimit
    omega
  · omega

theorem readWords_ne_none (h : Drawing kernel board empty reward remainingHorizon stream)
    (hlimit : 0 < stream.acceptanceLimit) :
    GraphStream.readWords (uint64Modulus % stream.outcomeDenominator + 1) stream [] ≠ none := by
  have hrejected : uint64Modulus - stream.acceptanceLimit =
      uint64Modulus % stream.outcomeDenominator := by
    rw [h.limit_eq, h.outcome_eq]
    have := Nat.mod_le uint64Modulus (empty.length * kernel.spawnLaw.denominator)
    omega
  obtain ⟨i, hi, hword⟩ :=
    exists_word_lt stream.seed stream.randomWordCalls hlimit h.limit_le
  rw [hrejected] at hi
  obtain ⟨result, hresult⟩ := GraphStream.readWords_returns [] hi hword
  simp [hresult]

end Drawing

open GraphKernel in
theorem Drawing.terminates_iff {kernel : GraphKernel} {board empty : List ℕ} {reward : ℚ}
    {remainingHorizon : ℕ} {stream : GraphStream} {atoms : List TransitionAtom}
    (h : Drawing kernel board empty reward remainingHorizon stream)
    (hmerged : GraphKernel.Merged kernel board empty reward)
    (hatoms : List.Forall₂ (fun spawn atom => GraphKernel.Spawned kernel board empty.length reward
      remainingHorizon spawn.1 spawn.2.1 spawn.2.2 atom) (kernel.spawns empty) atoms) :
    Terminates stream ↔ empty.length * kernel.spawnLaw.denominator ≤ uint64Modulus := by
  rw [← h.limit_pos_iff hmerged.empty_ne]
  refine ⟨Terminates.limit_pos, fun hlimit => ⟨hlimit, fun trace after hrun => ?_⟩⟩
  obtain ⟨hafter, hsame, -⟩ := h.run hmerged hatoms hrun
  have hafterLimit : 0 < after.acceptanceLimit := by
    rwa [hafter.limit_eq, ← h.limit_eq]
  rw [← hsame]
  obtain ⟨hnone, -⟩ | ⟨sample, later, hdraw, -⟩ := hafter.draw_returns hmerged hatoms
    (uint64Modulus % after.outcomeDenominator + 1)
  · exact absurd hnone (hafter.readWords_ne_none hafterLimit)
  · exact ⟨sample, later, GraphStream.step_eq_some.mpr hdraw⟩

open GraphKernel in
/-- The rejection loop of a legal row ends, for every seed and after every number of draws, exactly
when the outcomes of the row fit into a word. -/
theorem graphSampler_terminates_iff {kernel : GraphKernel} {state : GraphState}
    {action : GraphAction} {legal : List GraphAction} {remainingHorizon : ℕ}
    (hstate : kernel.validateState state = .ok ())
    (hlegal : kernel.legalActions state = .ok legal) (haction : action ∈ legal)
    (hremaining : remainingHorizon = 1 ∨ remainingHorizon = kernel.horizon) :
    ∃ board empty reward, kernel.merge state action = .ok (board, empty, reward) ∧
      ∀ seed < uint64Modulus, ∃ stream,
        GraphStream.init kernel state action remainingHorizon seed = .ok stream ∧
        (Terminates stream ↔ empty.length * kernel.spawnLaw.denominator ≤ uint64Modulus) := by
  obtain ⟨-, rfl⟩ := legalActions_eq_ok.mp hlegal
  obtain ⟨board, empty, reward, hmerge⟩ := merge_returns hstate haction
  obtain ⟨atoms, hrow⟩ := exactAtoms_returns hstate haction hremaining
  refine ⟨board, empty, reward, hmerge, fun seed hseed => ?_⟩
  obtain ⟨stream, hinit, hdrawing⟩ := GraphStream.init_returns hmerge hremaining hseed
  exact ⟨stream, hinit,
    hdrawing.terminates_iff (merge_eq_ok hmerge) (exactAtoms_eq_ok hmerge hrow)⟩

theorem graphSampler_terminates_iff_sample :
    ∃ board empty reward, sampleKernel.merge sampleState sampleAction = .ok (board, empty, reward) ∧
      ∀ seed < uint64Modulus, ∃ stream,
        GraphStream.init sampleKernel sampleState sampleAction 2 seed = .ok stream ∧
        (Terminates stream ↔
          empty.length * sampleKernel.spawnLaw.denominator ≤ uint64Modulus) := by
  have hlegal : sampleKernel.legalActions sampleState = .ok (Edge.actions ⟨0, 1, by decide⟩) := rfl
  exact graphSampler_terminates_iff rfl hlegal List.mem_cons_self (.inr rfl)

/-! ## A law that is too fine -/

/-- The kernel of the sample with a law over more outcomes than there are words. -/
def fineKernel : GraphKernel := { sampleKernel with
  spawnLaw :=
    { entries := [(1, 1 / 2 ^ 65), (2, 1 - 1 / 2 ^ 65)]
      entries_ne := by simp
      increasing := by simp
      positive := by
        rintro entry hentry
        simp only [List.mem_cons, List.not_mem_nil, or_false] at hentry
        rcases hentry with rfl | rfl <;> norm_num
      normalized := by norm_num }
  ranks_le := by simp [sampleKernel] }

/-- No draw over this kernel ever returns. -/
theorem graphSampler_terminates_fine :
    fineKernel.validateState sampleState = .ok () ∧
    (∃ legal, fineKernel.legalActions sampleState = .ok legal ∧ sampleAction ∈ legal) ∧
    ∃ stream, GraphStream.init fineKernel sampleState sampleAction 2 0 = .ok stream ∧
      stream.acceptanceLimit = 0 ∧ ∀ fuel, stream.draw fuel = .ok none := by
  have hlegal : fineKernel.legalActions sampleState = .ok (Edge.actions ⟨0, 1, by decide⟩) := rfl
  obtain ⟨-, hmerges⟩ := GraphKernel.legalActions_eq_ok.mp hlegal
  obtain ⟨board, empty, reward, hmerge⟩ := @GraphKernel.merge_returns fineKernel sampleState
    sampleAction rfl (hmerges ▸ List.mem_cons_self)
  obtain ⟨stream, hinit, hdrawing⟩ := @GraphStream.init_returns _ _ _ _ _ _ 2 0 hmerge (.inr rfl)
    (by decide)
  have hne := (GraphKernel.merge_eq_ok hmerge).empty_ne
  have hlimit : stream.acceptanceLimit = 0 := by
    have hdenominator : uint64Modulus < fineKernel.spawnLaw.denominator := by decide +kernel
    have hlength := List.length_pos_iff.mpr hne
    by_contra hpos
    have hle := (hdrawing.limit_pos_iff hne).mp (Nat.pos_of_ne_zero hpos)
    have := Nat.le_mul_of_pos_left fineKernel.spawnLaw.denominator hlength
    omega
  refine ⟨rfl, ⟨_, hlegal, List.mem_cons_self⟩, stream, hinit, hlimit, fun fuel => ?_⟩
  rw [GraphStream.draw, Drawing.readWords_eq_none hlimit]
  rfl

end Acfqp.Graph
