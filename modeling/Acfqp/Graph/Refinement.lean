import Acfqp.Graph.Sampling

/-!
# Every sample is an atom

What a draw does to its stream, and the refinement of the exact row over every run of draws.
-/

namespace Acfqp.Graph

open Library

/-- A sample that agrees with an atom. -/
structure Agrees (sample : GraphSample) (atom : TransitionAtom) : Prop where
  cell_eq : sample.spawnCell = atom.spawnCell
  rank_eq : sample.spawnRank = atom.spawnRank
  nextState_eq : sample.nextState = atom.nextState
  reward_eq : sample.realizedRowReward = atom.realizedRowReward
  failure_eq : sample.failure = atom.failure
  terminal_eq : sample.terminal = atom.terminal

namespace GraphStream

variable {stream after : GraphStream} {fuel : ℕ} {words words' : List ℕ} {word : ℕ}

theorem readWords_eq_some (h : readWords fuel stream words = some (words', word, after))
    (hwords : ∀ w ∈ words, w < uint64Modulus) :
    (∃ calls rejections, after = { stream with
      randomWordCalls := calls, rejectionCount := rejections }) ∧
    word < stream.acceptanceLimit ∧ words' ≠ [] ∧ ∀ w ∈ words', w < uint64Modulus := by
  induction fuel generalizing stream words with
  | zero => cases h
  | succ fuel ih =>
    have hnext : ∀ w ∈ words ++ [stream.nextWord], w < uint64Modulus := by
      intro w hw
      rcases List.mem_append.mp hw with hw | hw
      · exact hwords w hw
      · rw [List.mem_singleton.mp hw]
        exact splitmix64_lt _
    rw [readWords] at h
    split at h
    · obtain ⟨⟨calls, rejections, rfl⟩, hrest⟩ := ih h hnext
      exact ⟨⟨calls, rejections, rfl⟩, hrest⟩
    · next hlt =>
      cases h
      exact ⟨⟨_, _, rfl⟩, not_le.mp hlt, by simp, hnext⟩

theorem readWords_returns (words : List ℕ) {i : ℕ} (hi : i < fuel)
    (h : splitmix64 (stream.seed + splitmixGamma * (stream.randomWordCalls + i + 1)) <
      stream.acceptanceLimit) : ∃ result, readWords fuel stream words = some result := by
  induction i generalizing stream fuel words with
  | zero =>
    obtain ⟨fuel, rfl⟩ := Nat.exists_eq_add_of_lt hi
    rw [Nat.add_zero] at h
    exact ⟨_, if_neg (not_le.mpr h)⟩
  | succ i ih =>
    obtain ⟨fuel, rfl⟩ : ∃ n, fuel = n + 1 := ⟨fuel - 1, by omega⟩
    rw [readWords]
    split
    · refine ih _ (by omega) ?_
      rw [show stream.randomWordCalls + 1 + i + 1 = stream.randomWordCalls + (i + 1) + 1 by omega]
      exact h
    · exact ⟨_, rfl⟩

end GraphStream

namespace Drawing

variable {kernel : GraphKernel} {board empty : List ℕ} {reward : ℚ} {remainingHorizon : ℕ}
  {stream after : GraphStream} {atoms : List TransitionAtom}

theorem counters (h : Drawing kernel board empty reward remainingHorizon stream)
    (draws calls rejections : ℕ) :
    Drawing kernel board empty reward remainingHorizon { stream with
      acceptedDraws := draws, randomWordCalls := calls, rejectionCount := rejections } :=
  ⟨h.kernel_eq, h.remaining_eq, h.board_eq, h.empty_eq, h.reward_eq, h.denominator_eq, h.law_eq,
    h.outcome_eq, h.limit_eq⟩

theorem sampleOf_returns (h : Drawing kernel board empty reward remainingHorizon stream)
    (hmerged : GraphKernel.Merged kernel board empty reward)
    (hatoms : List.Forall₂ (fun spawn atom => GraphKernel.Spawned kernel board empty.length reward
      remainingHorizon spawn.1 spawn.2.1 spawn.2.2 atom) (kernel.spawns empty) atoms)
    (word : ℕ) {start : ℕ} {words : List ℕ} (hstart : 0 < start) (hne : words ≠ [])
    (hwords : ∀ w ∈ words, w < uint64Modulus) :
    ∃ sample, stream.sampleOf start words word = .ok sample ∧
      ∃ atom ∈ atoms, Agrees sample atom := by
  obtain ⟨cell, rank, p, hspawn, hmem⟩ := h.spawnOf_returns hmerged.empty_ne word
  obtain ⟨atom, hatom, hspawned⟩ := exists_mem_of_forall₂ hatoms hmem
  have hentry := (GraphKernel.mem_spawns.mp hmem).2
  have hfits := hmerged.fits.set cell (kernel.ranks_le _ hentry)
  have hranks : board.set cell rank ≠ [] := hspawned.ranks_eq ▸ atom.nextState.ranks_ne
  have hlegal : stream.kernel.legalActionsFromRanks (stream.board.set cell rank) false =
      .ok (kernel.mergesOf (board.set cell rank)) := by
    rw [h.kernel_eq, h.board_eq]
    exact GraphKernel.legalActionsFromRanks_eq_ok.mpr ⟨hfits, rfl⟩
  have hstate : GraphState.make (stream.board.set cell rank)
      (kernel.mergesOf (board.set cell rank)).isEmpty = .ok atom.nextState := by
    rw [h.board_eq]
    exact GraphState.make_eq_ok.mpr ⟨hspawned.ranks_eq, hspawned.failure_eq⟩
  refine ⟨_, bind_eq_ok.mpr ⟨_, hspawn, bind_eq_ok.mpr ⟨_, hlegal, bind_eq_ok.mpr ⟨_, hstate,
    dif_pos ⟨hspawned.failure_eq.symm, ⟨Nat.succ_pos _, hstart⟩, hne, hwords⟩⟩⟩⟩, atom, hatom, ?_⟩
  refine ⟨hspawned.cell_eq.symm, hspawned.rank_eq.symm, rfl, ?_, ?_, ?_⟩
  · exact h.reward_eq.trans hspawned.reward_eq.symm
  · exact hspawned.failure_eq.symm.trans atom.failure_eq.symm
  · have hterminal : atom.terminal = ((kernel.mergesOf (board.set cell rank)).isEmpty ||
        decide (stream.remainingHorizon = 1)) := by
      rw [hspawned.terminal_eq, hspawned.failure_eq, h.remaining_eq]
    exact hterminal.symm

/-- A draw never raises; what it returns is an atom and a stream over the same row. -/
theorem draw_returns (h : Drawing kernel board empty reward remainingHorizon stream)
    (hmerged : GraphKernel.Merged kernel board empty reward)
    (hatoms : List.Forall₂ (fun spawn atom => GraphKernel.Spawned kernel board empty.length reward
      remainingHorizon spawn.1 spawn.2.1 spawn.2.2 atom) (kernel.spawns empty) atoms) (fuel : ℕ) :
    (GraphStream.readWords fuel stream [] = none ∧ stream.draw fuel = .ok none) ∨
    ∃ sample after, stream.draw fuel = .ok (some (sample, after)) ∧
      (∃ atom ∈ atoms, Agrees sample atom) ∧
      Drawing kernel board empty reward remainingHorizon after := by
  cases hread : GraphStream.readWords fuel stream [] with
  | none =>
    refine .inl ⟨rfl, ?_⟩
    rw [GraphStream.draw, hread]
    rfl
  | some result =>
    obtain ⟨words, word, read⟩ := result
    obtain ⟨⟨calls, rejections, rfl⟩, -, hne, hwords⟩ :=
      GraphStream.readWords_eq_some hread (by simp)
    have hdrawing := h.counters stream.acceptedDraws calls rejections
    obtain ⟨sample, hsample, hagrees⟩ := hdrawing.sampleOf_returns hmerged hatoms word
      (Nat.succ_pos stream.randomWordCalls) hne hwords
    refine .inr ⟨sample, _, ?_, hagrees, hdrawing.counters (stream.acceptedDraws + 1) calls
      rejections⟩
    rw [GraphStream.draw, hread]
    exact optionBind_eq_some.mpr ⟨_, rfl, optionBind_eq_some.mpr ⟨_,
      optionLift_eq_some.mpr hsample, rfl⟩⟩

theorem readWords_period (h : Drawing kernel board empty reward remainingHorizon stream)
    (hempty : empty ≠ []) (hfit : stream.outcomeDenominator ≤ uint64Modulus) {fuel : ℕ}
    (hfuel : uint64Modulus ≤ fuel) : GraphStream.readWords fuel stream [] ≠ none := by
  have hpos : 0 < stream.outcomeDenominator := by
    rw [h.outcome_eq]
    exact Nat.mul_pos (List.length_pos_iff.mpr hempty) SpawnLaw.denominator_pos
  have hlimit : 0 < stream.acceptanceLimit := by
    have := Nat.mod_lt uint64Modulus hpos
    rw [h.limit_eq, ← h.outcome_eq]
    omega
  obtain ⟨i, hi, hzero⟩ := exists_zero_word stream.seed stream.randomWordCalls
  obtain ⟨result, hresult⟩ := GraphStream.readWords_returns [] (hi.trans_le hfuel)
    (hzero ▸ hlimit)
  simp [hresult]

end Drawing

/-! ## Runs of draws -/

/-- A draw of at most `fuel` words that returns. -/
def GraphStream.step (stream : GraphStream) (fuel : ℕ) : Option (GraphSample × GraphStream) :=
  (stream.draw fuel).run.toOption.join

theorem GraphStream.step_eq_some {stream : GraphStream} {fuel : ℕ}
    {result : GraphSample × GraphStream} :
    stream.step fuel = some result ↔ stream.draw fuel = .ok (some result) := by
  unfold step
  rw [Option.join_eq_some_iff]
  cases h : (stream.draw fuel).run with
  | error e =>
    have hdraw : stream.draw fuel = .error e := h
    simp [Except.toOption, hdraw]
  | ok value =>
    have hdraw : stream.draw fuel = .ok value := h
    rw [hdraw]
    exact ⟨fun heq => congrArg Except.ok (Option.some.inj heq), fun heq =>
      congrArg some (Except.ok.inj heq)⟩

section Runs

variable {kernel : GraphKernel} {board empty : List ℕ} {reward : ℚ} {remainingHorizon : ℕ}
  {stream after : GraphStream} {atoms : List TransitionAtom} {trace : List (ℕ × GraphSample)}

theorem Drawing.run (h : Drawing kernel board empty reward remainingHorizon stream)
    (hmerged : GraphKernel.Merged kernel board empty reward)
    (hatoms : List.Forall₂ (fun spawn atom => GraphKernel.Spawned kernel board empty.length reward
      remainingHorizon spawn.1 spawn.2.1 spawn.2.2 atom) (kernel.spawns empty) atoms)
    (hrun : Run GraphStream.step stream trace after) :
    Drawing kernel board empty reward remainingHorizon after ∧
      after.outcomeDenominator = stream.outcomeDenominator ∧
      ∀ drawn ∈ trace, ∃ atom ∈ atoms, Agrees drawn.2 atom := by
  induction hrun with
  | nil => exact ⟨h, rfl, by simp⟩
  | snoc hrun hstep ih =>
    next trace s' s'' fuel sample =>
    obtain ⟨hbefore, hsame, htrace⟩ := ih
    have hdraw := GraphStream.step_eq_some.mp hstep
    obtain ⟨-, hnone⟩ | ⟨sample', after', hsome, hagrees, hafter⟩ :=
      hbefore.draw_returns hmerged hatoms fuel
    · cases hdraw.symm.trans hnone
    · cases hdraw.symm.trans hsome
      refine ⟨hafter, hafter.outcome_eq.trans (h.outcome_eq.symm), fun drawn hdrawn => ?_⟩
      rcases List.mem_append.mp hdrawn with hmem | hmem
      · exact htrace drawn hmem
      · rw [List.mem_singleton.mp hmem]
        exact hagrees

end Runs

/-! ## The refinement -/

/-- A row of the kernel: a distribution over spawns, whose successors are valid and whose rewards
add up to at most one with those of any other row. -/
structure ExactRow (kernel : GraphKernel) (atoms : List TransitionAtom) : Prop where
  total : (atoms.map (·.probability)).sum = 1
  positive : ∀ atom ∈ atoms, 0 < atom.probability
  distinct : (atoms.map fun atom => (atom.spawnCell, atom.spawnRank)).Nodup
  valid : ∀ atom ∈ atoms, kernel.validateState atom.nextState = .ok ()
  reward_le : ∀ state' action' remaining' atoms',
    kernel.exactAtoms state' action' remaining' = .ok atoms' → ∀ atom ∈ atoms, ∀ atom' ∈ atoms',
    atom.realizedRowReward + atom'.realizedRowReward ≤ 1

/-- A stream that samples a row without bias. -/
structure SamplesRow (atoms : List TransitionAtom) (stream : GraphStream) : Prop where
  limit_le : stream.acceptanceLimit ≤ uint64Modulus
  spawns : ∀ word < stream.acceptanceLimit,
    ∃ atom ∈ atoms, stream.spawnOf word = .ok (atom.spawnCell, atom.spawnRank)
  share : ∀ atom ∈ atoms, (Set.ncard {word | word < stream.acceptanceLimit ∧
    stream.spawnOf word = .ok (atom.spawnCell, atom.spawnRank)} : ℚ) =
      stream.acceptanceLimit * atom.probability
  samples : ∀ trace after, Run GraphStream.step stream trace after →
    ∀ drawn ∈ trace, ∃ atom ∈ atoms, Agrees drawn.2 atom
  draws : ∀ trace after, Run GraphStream.step stream trace after →
    stream.outcomeDenominator ≤ uint64Modulus → ∀ fuel, uint64Modulus ≤ fuel →
    ∃ sample later, after.step fuel = some (sample, later)

namespace GraphKernel

variable {kernel : GraphKernel} {state : GraphState} {action : GraphAction}
  {remainingHorizon : ℕ} {atoms : List TransitionAtom}

theorem nodup_spawns {empty : List ℕ} (h : empty.Nodup) :
    ((kernel.spawns empty).map fun spawn => (spawn.1, spawn.2.1)).Nodup := by
  have hlaw : (kernel.spawnLaw.entries.map Prod.fst).Nodup :=
    kernel.spawnLaw.increasing.imp fun hlt => hlt.ne
  have hproduct : (kernel.spawns empty).map (fun spawn => (spawn.1, spawn.2.1)) =
      empty ×ˢ kernel.spawnLaw.entries.map Prod.fst := by
    change _ = empty.flatMap fun cell => (kernel.spawnLaw.entries.map Prod.fst).map (Prod.mk cell)
    simp [spawns, List.map_flatMap, List.map_map, Function.comp_def]
  rw [hproduct]
  exact h.product hlaw

theorem reward_le_half (h : kernel.exactAtoms state action remainingHorizon = .ok atoms)
    {atom : TransitionAtom} (hatom : atom ∈ atoms) : atom.realizedRowReward ≤ 1 / 2 := by
  have hrow := h
  simp only [exactAtoms, bind_eq_ok] at hrow
  obtain ⟨_, -, ⟨board, empty, reward⟩, hmerge, -⟩ := hrow
  obtain ⟨spawn, -, hspawned⟩ := exists_mem_of_forall₂ (exactAtoms_eq_ok hmerge h).flip hatom
  rw [hspawned.reward_eq]
  exact (merge_eq_ok hmerge).reward_le

theorem exactRow_of_merge {board empty : List ℕ} {reward : ℚ}
    (hmerge : kernel.merge state action = .ok (board, empty, reward))
    (h : kernel.exactAtoms state action remainingHorizon = .ok atoms) : ExactRow kernel atoms := by
  have hmerged := merge_eq_ok hmerge
  have hatoms := exactAtoms_eq_ok hmerge h
  refine ⟨sum_probability hmerged hatoms, fun atom _ => atom.probability_pos, ?_, ?_, ?_⟩
  · have hmap : (atoms.map fun atom => (atom.spawnCell, atom.spawnRank)) =
        (kernel.spawns empty).map fun spawn => (spawn.1, spawn.2.1) :=
      map_of_forall₂ hatoms fun _ _ _ hspawned => by rw [hspawned.cell_eq, hspawned.rank_eq]
    rw [hmap]
    exact nodup_spawns hmerged.empty_nodup
  · intro atom hatom
    obtain ⟨spawn, hspawn, hspawned⟩ := exists_mem_of_forall₂ hatoms.flip hatom
    exact hmerged.validateState_spawned (mem_spawns.mp hspawn).2 hspawned
  · intro state' action' remaining' atoms' h' atom hatom atom' hatom'
    have := reward_le_half h hatom
    have := reward_le_half h' hatom'
    linarith

end GraphKernel

open GraphKernel in
theorem graphSampler_refines {kernel : GraphKernel} {state : GraphState} {action : GraphAction}
    {legal : List GraphAction} {remainingHorizon : ℕ}
    (hstate : kernel.validateState state = .ok ())
    (hlegal : kernel.legalActions state = .ok legal) (haction : action ∈ legal)
    (hremaining : remainingHorizon = 1 ∨ remainingHorizon = kernel.horizon) :
    ∃ atoms, kernel.exactAtoms state action remainingHorizon = .ok atoms ∧
      ExactRow kernel atoms ∧
      ∀ seed < uint64Modulus, ∃ stream,
        GraphStream.init kernel state action remainingHorizon seed = .ok stream ∧
        SamplesRow atoms stream := by
  obtain ⟨-, rfl⟩ := legalActions_eq_ok.mp hlegal
  obtain ⟨board, empty, reward, hmerge⟩ := merge_returns hstate haction
  obtain ⟨atoms, hrow⟩ := exactAtoms_returns hstate haction hremaining
  have hmerged := merge_eq_ok hmerge
  have hatoms := exactAtoms_eq_ok hmerge hrow
  refine ⟨atoms, hrow, exactRow_of_merge hmerge hrow, fun seed hseed => ?_⟩
  obtain ⟨stream, hinit, hdrawing⟩ := GraphStream.init_returns hmerge hremaining hseed
  refine ⟨stream, hinit, hdrawing.limit_le, fun word _ => ?_, fun atom hatom => ?_,
    fun trace after hrun => (hdrawing.run hmerged hatoms hrun).2.2,
    fun trace after hrun hfit fuel hfuel => ?_⟩
  · obtain ⟨cell, rank, p, hspawn, hmem⟩ := hdrawing.spawnOf_returns hmerged.empty_ne word
    obtain ⟨atom, hatom, hspawned⟩ := exists_mem_of_forall₂ hatoms hmem
    exact ⟨atom, hatom, by rw [hspawn, hspawned.cell_eq, hspawned.rank_eq]⟩
  · obtain ⟨⟨cell, rank, p⟩, hmem, hspawned⟩ := exists_mem_of_forall₂ hatoms.flip hatom
    rw [hspawned.cell_eq, hspawned.rank_eq, hspawned.probability_eq]
    exact hdrawing.ncard_spawnOf hmerged.empty_nodup hmem
  · obtain ⟨hafter, hsame, -⟩ := hdrawing.run hmerged hatoms hrun
    obtain ⟨hnone, -⟩ | ⟨sample, later, hdraw, -⟩ := hafter.draw_returns hmerged hatoms fuel
    · exact absurd hnone (hafter.readWords_period hmerged.empty_ne (hsame ▸ hfit) hfuel)
    · exact ⟨sample, later, GraphStream.step_eq_some.mpr hdraw⟩

/-! ## A path of two equal vertices -/

def sampleKernel : GraphKernel where
  topology :=
    { vertexCount := 3
      edges := [⟨0, 1, by decide⟩, ⟨1, 2, by decide⟩]
      vertexCount_gt := by decide
      edges_ne := by simp
      edges_lt := by simp
      sorted := by decide }
  rankCap := 2
  horizon := 2
  spawnLaw :=
    { entries := [(1, 2 / 3), (2, 1 / 3)]
      entries_ne := by simp
      increasing := by simp
      positive := by simp
      normalized := by norm_num }
  rankCap_pos := by decide
  horizon_eq := rfl
  ranks_le := by simp

def sampleState : GraphState := ⟨[1, 1, 0], false, by simp⟩

def sampleAction : GraphAction := ⟨⟨0, 1, by decide⟩, 0, .inl rfl⟩

theorem graphSampler_refines_sample :
    ∃ atoms, sampleKernel.exactAtoms sampleState sampleAction 2 = .ok atoms ∧
      ExactRow sampleKernel atoms ∧
      ∀ seed < uint64Modulus, ∃ stream,
        GraphStream.init sampleKernel sampleState sampleAction 2 seed = .ok stream ∧
        SamplesRow atoms stream := by
  have hlegal : sampleKernel.legalActions sampleState = .ok (Edge.actions ⟨0, 1, by decide⟩) := rfl
  exact graphSampler_refines rfl hlegal List.mem_cons_self (.inr rfl)

end Acfqp.Graph
