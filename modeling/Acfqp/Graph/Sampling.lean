import Acfqp.Graph.Rows
import Acfqp.Library.Locate
import Acfqp.Library.Runs

/-!
# The deterministic sampler

A tape of SplitMix64 words. A word at the acceptance limit or above is rejected; below it, its
remainder splits into an empty vertex and a token of the integer spawn law.
-/

namespace Acfqp.Graph

open Library

def uint64Modulus : ℕ := 2 ^ 64

def splitmixGamma : ℕ := 0x9E3779B97F4A7C15

def splitmix64 (value : ℕ) : ℕ :=
  let mask := uint64Modulus - 1
  let word := value &&& mask
  let word := ((word ^^^ (word >>> 30)) * 0xBF58476D1CE4E5B9) &&& mask
  let word := ((word ^^^ (word >>> 27)) * 0x94D049BB133111EB) &&& mask
  (word ^^^ (word >>> 31)) &&& mask

def integerSpawnLaw (law : SpawnLaw) : Except GraphError (ℕ × List (ℕ × ℕ)) := do
  let denominator := law.entries.foldl (fun acc entry => Nat.lcm acc entry.2.den) 1
  let integer := law.entries.map fun entry =>
    (entry.1, entry.2.num.toNat * (denominator / entry.2.den))
  require ((integer.map Prod.snd).sum = denominator)
    (.runtime "exact spawn law integerization failed")
  return (denominator, integer)

def rankFromToken (cursor : ℕ) : List (ℕ × ℕ) → ℕ → Except GraphError ℕ
  | [], _ => throw (.runtime "accepted rank token lies outside the spawn law")
  | (rank, weight) :: rest, token =>
    if token < cursor + weight then return rank else rankFromToken (cursor + weight) rest token

structure GraphSample where
  nextState : GraphState
  realizedRowReward : ℚ
  failure : Bool
  terminal : Bool
  spawnCell : ℕ
  spawnRank : ℕ
  acceptedDrawIndex : ℕ
  randomWordStartIndex : ℕ
  randomWords : List ℕ
  failure_eq : failure = nextState.failure
  index_pos : 0 < acceptedDrawIndex ∧ 0 < randomWordStartIndex
  words_ne : randomWords ≠ []
  words_lt : ∀ word ∈ randomWords, word < uint64Modulus

def GraphSample.make (nextState : GraphState) (realizedRowReward : ℚ) (failure terminal : Bool)
    (spawnCell spawnRank acceptedDrawIndex randomWordStartIndex : ℕ) (randomWords : List ℕ) :
    Except GraphError GraphSample :=
  if h : failure = nextState.failure ∧ (0 < acceptedDrawIndex ∧ 0 < randomWordStartIndex) ∧
      randomWords ≠ [] ∧ ∀ word ∈ randomWords, word < uint64Modulus then
    .ok ⟨nextState, realizedRowReward, failure, terminal, spawnCell, spawnRank, acceptedDrawIndex,
      randomWordStartIndex, randomWords, h.1, h.2.1, h.2.2.1, h.2.2.2⟩
  else .error (.transition "deterministic graph sample is malformed")

/-- One tape over an exact row: what its first lines hold never changes, the three counters do. -/
structure GraphStream where
  kernel : GraphKernel
  remainingHorizon : ℕ
  seed : ℕ
  board : List ℕ
  empty : List ℕ
  reward : ℚ
  lawDenominator : ℕ
  integerLaw : List (ℕ × ℕ)
  outcomeDenominator : ℕ
  acceptanceLimit : ℕ
  acceptedDraws : ℕ
  randomWordCalls : ℕ
  rejectionCount : ℕ

namespace GraphStream

def init (kernel : GraphKernel) (state : GraphState) (action : GraphAction)
    (remainingHorizon seed : ℕ) : Except GraphError GraphStream := do
  require (seed < uint64Modulus) (.transition "stream seed must be one uint64")
  require (remainingHorizon = 1 ∨ remainingHorizon = kernel.horizon)
    (.transition "stream remaining horizon is invalid")
  let (board, empty, reward) ← kernel.merge state action
  let (lawDenominator, integerLaw) ← integerSpawnLaw kernel.spawnLaw
  let outcomeDenominator := empty.length * lawDenominator
  return {
    kernel, remainingHorizon, seed, board, empty, reward, lawDenominator, integerLaw,
    outcomeDenominator
    acceptanceLimit := uint64Modulus - uint64Modulus % outcomeDenominator
    acceptedDraws := 0
    randomWordCalls := 0
    rejectionCount := 0 }

variable (stream : GraphStream)

def nextWord : ℕ := splitmix64 (stream.seed + splitmixGamma * (stream.randomWordCalls + 1))

/-- The words of a draw up to the accepted one, which is the last of them; `none` when the first
`fuel` words are all rejected. -/
def readWords : ℕ → GraphStream → List ℕ → Option (List ℕ × ℕ × GraphStream)
  | 0, _, _ => none
  | fuel + 1, stream, words =>
    let word := stream.nextWord
    let after := { stream with randomWordCalls := stream.randomWordCalls + 1 }
    if stream.acceptanceLimit ≤ word then
      readWords fuel { after with rejectionCount := stream.rejectionCount + 1 } (words ++ [word])
    else some (words ++ [word], word, after)

def spawnOf (word : ℕ) : Except GraphError (ℕ × ℕ) := do
  let token := word % stream.outcomeDenominator
  let emptyIndex := token / stream.lawDenominator
  let rankToken := token % stream.lawDenominator
  let spawnRank ← rankFromToken 0 stream.integerLaw rankToken
  let spawnCell ← orRaise stream.empty[emptyIndex]? .index
  return (spawnCell, spawnRank)

/-- The sample of an accepted word, which starts the words of its draw at an index. -/
def sampleOf (start : ℕ) (words : List ℕ) (word : ℕ) : Except GraphError GraphSample := do
  let (spawnCell, spawnRank) ← stream.spawnOf word
  let successorRanks := stream.board.set spawnCell spawnRank
  let failure := (← stream.kernel.legalActionsFromRanks successorRanks false).isEmpty
  let nextState ← GraphState.make successorRanks failure
  GraphSample.make nextState stream.reward failure (failure || stream.remainingHorizon = 1)
    spawnCell spawnRank (stream.acceptedDraws + 1) start words

/-- One draw that reads at most `fuel` words. -/
def draw (fuel : ℕ) : OptionT (Except GraphError) (GraphSample × GraphStream) := do
  let (words, word, after) ← OptionT.mk (pure (readWords fuel stream []))
  let sample ← after.sampleOf (stream.randomWordCalls + 1) words word
  return (sample, { after with acceptedDraws := after.acceptedDraws + 1 })

end GraphStream

end Acfqp.Graph

/-!
## The sampler refines the exact row

Below the acceptance limit every atom is drawn by exactly its share of the words, and every sample
is the atom of its spawn.
-/

namespace Acfqp.Graph

open Library

section IntegerLaw

variable (law : SpawnLaw)

def SpawnLaw.denominator : ℕ :=
  law.entries.foldl (fun acc entry => Nat.lcm acc entry.2.den) 1

def SpawnLaw.weights : List (ℕ × ℕ) :=
  law.entries.map fun entry => (entry.1, entry.2.num.toNat * (law.denominator / entry.2.den))

theorem dvd_foldl_lcm (entries : List (ℕ × ℚ)) (start : ℕ) :
    start ∣ entries.foldl (fun acc entry => Nat.lcm acc entry.2.den) start ∧
    ∀ entry ∈ entries, entry.2.den ∣
      entries.foldl (fun acc entry => Nat.lcm acc entry.2.den) start := by
  induction entries generalizing start with
  | nil => simp
  | cons head rest ih =>
    obtain ⟨hstart, hrest⟩ := ih (Nat.lcm start head.2.den)
    refine ⟨(Nat.dvd_lcm_left _ _).trans hstart, fun entry hentry => ?_⟩
    rcases List.mem_cons.mp hentry with rfl | hmem
    · exact (Nat.dvd_lcm_right _ _).trans hstart
    · exact hrest entry hmem

theorem foldl_lcm_pos (entries : List (ℕ × ℚ)) {start : ℕ} (h : 0 < start) :
    0 < entries.foldl (fun acc entry => Nat.lcm acc entry.2.den) start := by
  induction entries generalizing start with
  | nil => exact h
  | cons head rest ih => exact ih (Nat.lcm_pos h head.2.pos)

namespace SpawnLaw

variable {law}

theorem denominator_pos : 0 < law.denominator := foldl_lcm_pos _ Nat.one_pos

/-- A weight is its probability over the common denominator. -/
theorem weight_eq {entry : ℕ × ℚ} (h : entry ∈ law.entries) :
    ((entry.2.num.toNat * (law.denominator / entry.2.den) : ℕ) : ℚ) =
      law.denominator * entry.2 := by
  have hdvd : entry.2.den ∣ law.denominator := (dvd_foldl_lcm law.entries 1).2 entry h
  have hden : (entry.2.den : ℚ) ≠ 0 := by exact_mod_cast entry.2.den_nz
  have hnum : ((entry.2.num.toNat : ℕ) : ℚ) = entry.2.num := by
    have := Int.toNat_of_nonneg (Rat.num_nonneg.mpr (law.positive entry h).2.le)
    exact_mod_cast this
  calc ((entry.2.num.toNat * (law.denominator / entry.2.den) : ℕ) : ℚ)
      = entry.2.num * (law.denominator / entry.2.den) := by
        rw [Nat.cast_mul, Nat.cast_div hdvd hden, hnum]
    _ = law.denominator * (entry.2.num / entry.2.den) := by ring
    _ = law.denominator * entry.2 := by rw [Rat.num_div_den]

theorem sum_weights : (law.weights.map Prod.snd).sum = law.denominator := by
  have hcast : (((law.weights.map Prod.snd).sum : ℕ) : ℚ) = law.denominator := by
    have hmap : (law.weights.map Prod.snd).map (Nat.cast : ℕ → ℚ) =
        law.entries.map fun entry => (law.denominator : ℚ) * entry.2 := by
      rw [weights, List.map_map, List.map_map]
      exact List.map_congr_left fun entry hentry => weight_eq hentry
    rw [Nat.cast_list_sum, hmap, List.sum_map_mul_left, law.normalized, mul_one]
  exact_mod_cast hcast

theorem map_fst_weights : law.weights.map Prod.fst = law.entries.map Prod.fst := by
  rw [weights, List.map_map]
  rfl

end SpawnLaw

theorem integerSpawnLaw_eq : integerSpawnLaw law = .ok (law.denominator, law.weights) :=
  bind_eq_ok.mpr ⟨(), require_eq_ok.mpr law.sum_weights, rfl⟩

end IntegerLaw

theorem rankFromToken_eq (weights : List (ℕ × ℕ)) {cursor token : ℕ} (h : cursor ≤ token) :
    rankFromToken cursor weights token =
      orRaise (locate weights (token - cursor))
        (.runtime "accepted rank token lies outside the spawn law") := by
  induction weights generalizing cursor with
  | nil => rfl
  | cons entry rest ih =>
    obtain ⟨rank, weight⟩ := entry
    rw [rankFromToken, locate]
    by_cases hlt : token < cursor + weight
    · rw [if_pos hlt, if_pos (by omega)]
      rfl
    · rw [if_neg hlt, if_neg (by omega), ih (by omega), Nat.sub_sub]

/-! ## Words -/

theorem splitmix64_lt (value : ℕ) : splitmix64 value < uint64Modulus := by
  simp only [splitmix64, uint64Modulus, Nat.and_two_pow_sub_one_eq_mod]
  exact Nat.mod_lt _ (by decide)

theorem splitmix64_eq_zero {value : ℕ} (h : value % uint64Modulus = 0) : splitmix64 value = 0 := by
  simp only [splitmix64, uint64Modulus, Nat.and_two_pow_sub_one_eq_mod] at h ⊢
  rw [h]
  decide

/-- Within one period the tape reads a zero. -/
theorem exists_zero_word (seed calls : ℕ) :
    ∃ i < uint64Modulus, splitmix64 (seed + splitmixGamma * (calls + i + 1)) = 0 := by
  have hcoprime : Nat.Coprime splitmixGamma uint64Modulus := by decide +kernel
  obtain ⟨inverse, -, hinverse⟩ := Nat.exists_mul_mod_eq_one_of_coprime hcoprime (by decide)
  have hcomplement : ∀ n, n + (uint64Modulus - n % uint64Modulus) ≡ 0 [MOD uint64Modulus] := by
    intro n
    unfold Nat.ModEq uint64Modulus
    omega
  -- The index at which the tape's argument is a multiple of the modulus.
  let target := inverse * (uint64Modulus - seed % uint64Modulus)
  let i := (target + (uint64Modulus - (calls + 1) % uint64Modulus)) % uint64Modulus
  have hindex : calls + i + 1 ≡ target [MOD uint64Modulus] := by
    have hi : i ≡ target + (uint64Modulus - (calls + 1) % uint64Modulus) [MOD uint64Modulus] :=
      Nat.mod_modEq _ _
    calc calls + i + 1 = (calls + 1) + i := by ring
      _ ≡ (calls + 1) + (target + (uint64Modulus - (calls + 1) % uint64Modulus))
          [MOD uint64Modulus] := hi.add_left _
      _ = target + ((calls + 1) + (uint64Modulus - (calls + 1) % uint64Modulus)) := by ring
      _ ≡ target + 0 [MOD uint64Modulus] := (hcomplement (calls + 1)).add_left _
  refine ⟨i, Nat.mod_lt _ (by decide), splitmix64_eq_zero ?_⟩
  have hone : splitmixGamma * inverse ≡ 1 [MOD uint64Modulus] := by
    rw [Nat.ModEq, hinverse]
    rfl
  have hzero : seed + splitmixGamma * (calls + i + 1) ≡ 0 [MOD uint64Modulus] := by
    calc seed + splitmixGamma * (calls + i + 1)
        ≡ seed + splitmixGamma * target [MOD uint64Modulus] := (hindex.mul_left _).add_left _
      _ = seed + splitmixGamma * inverse * (uint64Modulus - seed % uint64Modulus) := by
          rw [Nat.mul_assoc]
      _ ≡ seed + 1 * (uint64Modulus - seed % uint64Modulus) [MOD uint64Modulus] :=
          (hone.mul_right _).add_left _
      _ ≡ 0 [MOD uint64Modulus] := by
          rw [one_mul]
          exact hcomplement seed
  exact hzero

/-! ## Streams over a row -/

/-- A stream over a merged board: what its draws never change. -/
structure Drawing (kernel : GraphKernel) (board empty : List ℕ) (reward : ℚ)
    (remainingHorizon : ℕ) (stream : GraphStream) : Prop where
  kernel_eq : stream.kernel = kernel
  remaining_eq : stream.remainingHorizon = remainingHorizon
  board_eq : stream.board = board
  empty_eq : stream.empty = empty
  reward_eq : stream.reward = reward
  denominator_eq : stream.lawDenominator = kernel.spawnLaw.denominator
  law_eq : stream.integerLaw = kernel.spawnLaw.weights
  outcome_eq : stream.outcomeDenominator = empty.length * kernel.spawnLaw.denominator
  limit_eq : stream.acceptanceLimit =
    uint64Modulus - uint64Modulus % (empty.length * kernel.spawnLaw.denominator)

namespace GraphStream

variable {kernel : GraphKernel} {state : GraphState} {action : GraphAction}
  {board empty : List ℕ} {reward : ℚ} {remainingHorizon seed : ℕ} {stream : GraphStream}

theorem init_returns (hmerge : kernel.merge state action = .ok (board, empty, reward))
    (hremaining : remainingHorizon = 1 ∨ remainingHorizon = kernel.horizon)
    (hseed : seed < uint64Modulus) :
    ∃ stream, init kernel state action remainingHorizon seed = .ok stream ∧
      Drawing kernel board empty reward remainingHorizon stream := by
  refine ⟨_, bind_eq_ok.mpr ⟨(), require_eq_ok.mpr hseed, bind_eq_ok.mpr ⟨(),
    require_eq_ok.mpr hremaining, bind_eq_ok.mpr ⟨_, hmerge, bind_eq_ok.mpr ⟨_,
    integerSpawnLaw_eq _, rfl⟩⟩⟩⟩, ?_⟩
  exact ⟨rfl, rfl, rfl, rfl, rfl, rfl, rfl, rfl, rfl⟩

theorem spawnOf_eq_ok {word cell rank : ℕ} :
    stream.spawnOf word = .ok (cell, rank) ↔
      stream.empty[word % stream.outcomeDenominator / stream.lawDenominator]? = some cell ∧
      locate stream.integerLaw (word % stream.outcomeDenominator % stream.lawDenominator) =
        some rank := by
  simp only [spawnOf, rankFromToken_eq _ (Nat.zero_le _), Nat.sub_zero, bind_eq_ok, orRaise_eq_ok,
    pure_eq_ok, Prod.mk.injEq]
  constructor
  · rintro ⟨_, hrank, _, hcell, rfl, rfl⟩
    exact ⟨hcell, hrank⟩
  · rintro ⟨hcell, hrank⟩
    exact ⟨_, hrank, _, hcell, rfl, rfl⟩

end GraphStream

namespace Drawing

variable {kernel : GraphKernel} {board empty : List ℕ} {reward : ℚ} {remainingHorizon : ℕ}
  {stream : GraphStream}

theorem limit_le (h : Drawing kernel board empty reward remainingHorizon stream) :
    stream.acceptanceLimit ≤ uint64Modulus := by
  rw [h.limit_eq]
  exact Nat.sub_le _ _

/-- The acceptance limit is the greatest multiple of the outcomes that fits. -/
theorem limit_eq_mul (h : Drawing kernel board empty reward remainingHorizon stream) :
    stream.acceptanceLimit = empty.length * kernel.spawnLaw.denominator *
      (uint64Modulus / (empty.length * kernel.spawnLaw.denominator)) := by
  rw [h.limit_eq]
  have := Nat.mod_add_div uint64Modulus (empty.length * kernel.spawnLaw.denominator)
  omega

/-- Every word spawns an entry of the law on an empty vertex. -/
theorem spawnOf_returns (h : Drawing kernel board empty reward remainingHorizon stream)
    (hempty : empty ≠ []) (word : ℕ) :
    ∃ cell rank p, stream.spawnOf word = .ok (cell, rank) ∧
      (cell, rank, p) ∈ kernel.spawns empty := by
  have hpos : 0 < empty.length * kernel.spawnLaw.denominator :=
    Nat.mul_pos (List.length_pos_iff.mpr hempty) SpawnLaw.denominator_pos
  have hcell : word % stream.outcomeDenominator / stream.lawDenominator < empty.length := by
    rw [h.outcome_eq, h.denominator_eq]
    exact (Nat.div_lt_iff_lt_mul SpawnLaw.denominator_pos).mpr (Nat.mod_lt _ hpos)
  have htoken : word % stream.outcomeDenominator % stream.lawDenominator <
      (kernel.spawnLaw.weights.map Prod.snd).sum := by
    rw [SpawnLaw.sum_weights, h.denominator_eq]
    exact Nat.mod_lt _ SpawnLaw.denominator_pos
  obtain ⟨entry, hentry, hlocate⟩ := exists_locate htoken
  obtain ⟨⟨rank, p⟩, hlaw, rfl⟩ := List.mem_map.mp hentry
  refine ⟨_, rank, p, GraphStream.spawnOf_eq_ok.mpr ⟨?_, by rw [h.law_eq, hlocate]⟩,
    GraphKernel.mem_spawns.mpr ⟨List.getElem_mem hcell, hlaw⟩⟩
  rw [h.empty_eq, List.getElem?_eq_getElem hcell]

/-- Below the acceptance limit, a spawn is drawn by exactly its share of the words. -/
theorem ncard_spawnOf (h : Drawing kernel board empty reward remainingHorizon stream)
    (hnodup : empty.Nodup) {cell rank : ℕ} {p : ℚ}
    (hspawn : (cell, rank, p) ∈ kernel.spawns empty) :
    (Set.ncard {word | word < stream.acceptanceLimit ∧ stream.spawnOf word = .ok (cell, rank)} :
      ℚ) =
      stream.acceptanceLimit * (1 / empty.length * p) := by
  obtain ⟨hcell, hentry⟩ := GraphKernel.mem_spawns.mp hspawn
  obtain ⟨i, hi, rfl⟩ := List.getElem_of_mem hcell
  let weight := p.num.toNat * (kernel.spawnLaw.denominator / p.den)
  have hweight : (rank, weight) ∈ kernel.spawnLaw.weights := List.mem_map_of_mem hentry
  have hdistinct : (kernel.spawnLaw.weights.map Prod.fst).Nodup := by
    rw [SpawnLaw.map_fst_weights]
    exact kernel.spawnLaw.increasing.imp fun hlt => hlt.ne
  let found : ℕ → Prop := fun token => locate kernel.spawnLaw.weights token = some rank
  have hset : {word | word < stream.acceptanceLimit ∧
      stream.spawnOf word = .ok (empty[i], rank)} =
      ↑((Finset.range stream.acceptanceLimit).filter fun word =>
        word % (empty.length * kernel.spawnLaw.denominator) / kernel.spawnLaw.denominator = i ∧
        found (word % (empty.length * kernel.spawnLaw.denominator) %
          kernel.spawnLaw.denominator)) := by
    ext word
    have hcells : empty[word % (empty.length * kernel.spawnLaw.denominator) /
        kernel.spawnLaw.denominator]? = some empty[i] ↔
        word % (empty.length * kernel.spawnLaw.denominator) / kernel.spawnLaw.denominator = i := by
      rw [List.getElem?_eq_some_iff]
      constructor
      · rintro ⟨_, heq⟩
        exact (hnodup.getElem_inj_iff).mp heq
      · rintro rfl
        exact ⟨hi, rfl⟩
    simp [GraphStream.spawnOf_eq_ok, h.empty_eq, h.outcome_eq, h.denominator_eq, h.law_eq, hcells,
      found]
  have hcount : Nat.count (fun word =>
      word % (empty.length * kernel.spawnLaw.denominator) / kernel.spawnLaw.denominator = i ∧
      found (word % (empty.length * kernel.spawnLaw.denominator) %
        kernel.spawnLaw.denominator)) stream.acceptanceLimit =
      uint64Modulus / (empty.length * kernel.spawnLaw.denominator) * weight := by
    rw [h.limit_eq_mul, count_mod (fun token => token / kernel.spawnLaw.denominator = i ∧
      found (token % kernel.spawnLaw.denominator)), count_div_mod found _ hi]
    congr 1
    have := count_locate_of_mem hdistinct hweight
    rwa [SpawnLaw.sum_weights] at this
  rw [hset, Set.ncard_coe_finset, ← Nat.count_eq_card_filter_range, hcount, h.limit_eq_mul]
  have hvalue : (weight : ℚ) = kernel.spawnLaw.denominator * p := SpawnLaw.weight_eq hentry
  have hne : (empty.length : ℚ) ≠ 0 := by
    exact_mod_cast (List.length_pos_of_mem hcell).ne'
  push_cast
  rw [hvalue]
  field_simp

end Drawing

end Acfqp.Graph
