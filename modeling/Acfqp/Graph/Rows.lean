import Acfqp.Graph.Topology

/-!
# Exact rows are distributions

From a valid state a legal action always merges, every spawn gives a valid successor, and the
probabilities of a row total to one.
-/

namespace Acfqp.Graph

open Library

theorem GraphState.make_eq_ok {ranks : List ℕ} {failure : Bool} {state : GraphState} :
    GraphState.make ranks failure = .ok state ↔ state.ranks = ranks ∧ state.failure = failure := by
  obtain ⟨ranks', failure', hne⟩ := state
  unfold GraphState.make
  by_cases h : ranks ≠ []
  · rw [dif_pos h, Except.ok.injEq, GraphState.mk.injEq]
    exact ⟨fun ⟨h, h'⟩ => ⟨h.symm, h'.symm⟩, fun ⟨h, h'⟩ => ⟨h.symm, h'.symm⟩⟩
  · rw [dif_neg h]
    refine ⟨fun h => (by cases h), fun ⟨h', _⟩ => absurd ?_ h⟩
    exact h' ▸ hne

theorem TransitionAtom.make_eq_ok {nextState : GraphState} {probability reward : ℚ}
    {failure terminal : Bool} {cell rank : ℕ} {atom : TransitionAtom}
    (h : TransitionAtom.make nextState probability reward failure terminal cell rank = .ok atom) :
    atom.nextState = nextState ∧ atom.probability = probability ∧
      atom.realizedRowReward = reward ∧ atom.terminal = terminal ∧ atom.spawnCell = cell ∧
      atom.spawnRank = rank := by
  unfold TransitionAtom.make at h
  split at h
  · obtain rfl := Except.ok.inj h
    exact ⟨rfl, rfl, rfl, rfl, rfl, rfl⟩
  · cases h

namespace GraphKernel

variable {kernel : GraphKernel} {state : GraphState} {action : GraphAction}

/-! ## Legal actions -/

def mergesOf (kernel : GraphKernel) (ranks : List ℕ) : List GraphAction :=
  (kernel.topology.edges.filter fun e => 0 < ranks.getD e.first 0 ∧
    ranks.getD e.first 0 = ranks.getD e.second 0).flatMap Edge.actions

theorem legalActionsFromRanks_eq_ok {ranks : List ℕ} {failure : Bool} {legal : List GraphAction} :
    kernel.legalActionsFromRanks ranks failure = .ok legal ↔
      kernel.Fits ranks ∧ legal = if failure then [] else kernel.mergesOf ranks := by
  simp only [legalActionsFromRanks, bind_eq_ok, require_eq_ok]
  constructor
  · rintro ⟨_, hfits, h⟩
    refine ⟨hfits, ?_⟩
    cases failure with
    | true => exact (pure_eq_ok.mp h).symm
    | false => exact (pure_eq_ok.mp h).symm
  · rintro ⟨hfits, rfl⟩
    refine ⟨(), hfits, ?_⟩
    cases failure <;> rfl

theorem validateState_eq_ok {u : Unit} :
    kernel.validateState state = .ok u ↔
      kernel.Fits state.ranks ∧ state.failure = (kernel.mergesOf state.ranks).isEmpty := by
  simp only [validateState, bind_eq_ok, require_eq_ok, legalActionsFromRanks_eq_ok]
  constructor
  · rintro ⟨-, hfits, legal, ⟨-, rfl⟩, hfailure⟩
    exact ⟨hfits, hfailure⟩
  · rintro ⟨hfits, hfailure⟩
    exact ⟨(), hfits, _, ⟨hfits, rfl⟩, hfailure⟩

theorem mem_mergesOf {ranks : List ℕ} {a : GraphAction} :
    a ∈ kernel.mergesOf ranks ↔ a.edge ∈ kernel.topology.edges ∧
      0 < ranks.getD a.edge.first 0 ∧
      ranks.getD a.edge.first 0 = ranks.getD a.edge.second 0 := by
  simp only [mergesOf, List.mem_flatMap, List.mem_filter, decide_eq_true_eq, Edge.mem_actions]
  constructor
  · rintro ⟨e, ⟨he, hpos, hequal⟩, rfl⟩
    exact ⟨he, hpos, hequal⟩
  · rintro ⟨he, hpos, hequal⟩
    exact ⟨_, ⟨he, hpos, hequal⟩, rfl⟩

theorem legalActions_eq_ok {legal : List GraphAction} :
    kernel.legalActions state = .ok legal ↔
      kernel.validateState state = .ok () ∧ legal = kernel.mergesOf state.ranks := by
  simp only [legalActions, bind_eq_ok, legalActionsFromRanks_eq_ok]
  constructor
  · rintro ⟨_, hvalid, -, rfl⟩
    refine ⟨hvalid, ?_⟩
    split
    · next hfailure =>
      have := (validateState_eq_ok.mp hvalid).2
      rw [hfailure] at this
      exact (List.isEmpty_iff.mp this.symm).symm
    · rfl
  · rintro ⟨hvalid, rfl⟩
    refine ⟨(), hvalid, (validateState_eq_ok.mp hvalid).1, ?_⟩
    split
    · next hfailure =>
      have := (validateState_eq_ok.mp hvalid).2
      rw [hfailure] at this
      exact List.isEmpty_iff.mp this.symm
    · rfl

/-! ## Merges -/

/-- What a merge leaves: a board of the kernel, its empty vertices, and a reward of at most one
half. -/
structure Merged (kernel : GraphKernel) (board empty : List ℕ) (reward : ℚ) : Prop where
  fits : kernel.Fits board
  empty_ne : empty ≠ []
  empty_lt : ∀ cell ∈ empty, cell < board.length
  empty_nodup : empty.Nodup
  reward_nonneg : 0 ≤ reward
  reward_le : reward ≤ 1 / 2

theorem Fits.getD_le {ranks : List ℕ} (h : kernel.Fits ranks) (vertex : ℕ) :
    ranks.getD vertex 0 ≤ kernel.rankCap := by
  by_cases hlt : vertex < ranks.length
  · rw [List.getD_eq_getElem _ _ hlt]
    exact h.2 _ (List.getElem_mem hlt)
  · rw [List.getD_eq_default _ _ (by omega)]
    exact Nat.zero_le _

theorem Fits.set {ranks : List ℕ} (h : kernel.Fits ranks) (vertex : ℕ) {rank : ℕ}
    (hrank : rank ≤ kernel.rankCap) : kernel.Fits (ranks.set vertex rank) := by
  refine ⟨by rw [List.length_set, h.1], fun other hother => ?_⟩
  rcases List.mem_or_eq_of_mem_set hother with hmem | rfl
  · exact h.2 other hmem
  · exact hrank

theorem reward_bounds {rank : ℕ} (h : rank ≤ kernel.rankCap) :
    (0 : ℚ) ≤ (2 : ℚ) ^ (rank + 1) / 2 ^ (kernel.rankCap + 1) / kernel.horizon ∧
      (2 : ℚ) ^ (rank + 1) / 2 ^ (kernel.rankCap + 1) / kernel.horizon ≤ 1 / 2 := by
  refine ⟨by positivity, ?_⟩
  rw [kernel.horizon_eq]
  have hpow : (2 : ℚ) ^ (rank + 1) ≤ 2 ^ (kernel.rankCap + 1) :=
    pow_le_pow_right₀ (by norm_num) (by omega)
  have hratio : (2 : ℚ) ^ (rank + 1) / 2 ^ (kernel.rankCap + 1) ≤ 1 :=
    (div_le_one (by positivity)).mpr hpow
  exact div_le_div_of_nonneg_right hratio (by norm_num)

theorem exists_empty {ranks : List ℕ} (rank : ℕ) (hfirst : action.edge.first < ranks.length)
    (hsecond : action.edge.second < ranks.length) :
    ∃ vertex < ranks.length,
      (((ranks.set action.edge.first 0).set action.edge.second 0).set action.survivor rank).getD
        vertex 0 = 0 := by
  have hlt := action.edge.ordered
  rcases action.survivor_mem with h | h <;> rw [← h]
  · refine ⟨action.edge.second, hsecond, ?_⟩
    rw [List.getD_eq_getElem _ _ (by simpa), List.getElem_set_of_ne (by omega),
      List.getElem_set_self]
  · refine ⟨action.edge.first, hfirst, ?_⟩
    rw [List.getD_eq_getElem _ _ (by simpa), List.getElem_set_of_ne (by omega),
      List.getElem_set_of_ne (by omega), List.getElem_set_self]

/-- A legal action of a valid state merges. -/
theorem merge_returns (hvalid : kernel.validateState state = .ok ())
    (haction : action ∈ kernel.mergesOf state.ranks) :
    ∃ board empty reward, kernel.merge state action = .ok (board, empty, reward) := by
  obtain ⟨hfits, -⟩ := validateState_eq_ok.mp hvalid
  obtain ⟨hfirst, hsecond⟩ := kernel.topology.vertex_lt (mem_mergesOf.mp haction).1
  rw [← hfits.1] at hfirst hsecond
  obtain ⟨vertex, hlt, hzero⟩ := exists_empty
    (min (state.ranks.getD action.edge.first 0 + 1) kernel.rankCap) hfirst hsecond
  simp only [merge, bind_eq_ok, require_eq_ok, pure_eq_ok]
  refine ⟨_, _, _, (), hvalid, _, legalActions_eq_ok.mpr ⟨hvalid, rfl⟩, (), haction, (), ?_, rfl⟩
  refine List.ne_nil_of_mem (a := vertex) (List.mem_filter.mpr ⟨?_, by simpa using hzero⟩)
  simpa using hlt

theorem merge_eq_ok {board empty : List ℕ} {reward : ℚ}
    (h : kernel.merge state action = .ok (board, empty, reward)) :
    Merged kernel board empty reward := by
  simp only [merge, bind_eq_ok, require_eq_ok, pure_eq_ok, Prod.mk.injEq] at h
  obtain ⟨_, hvalid, _, -, _, -, _, hempty, rfl, rfl, rfl⟩ := h
  obtain ⟨hfits, -⟩ := validateState_eq_ok.mp hvalid
  have hreward := reward_bounds (hfits.getD_le action.edge.first)
  refine ⟨((hfits.set _ (Nat.zero_le _)).set _ (Nat.zero_le _)).set _ (min_le_right _ _), hempty,
    fun cell hcell => List.mem_range.mp (List.mem_of_mem_filter hcell),
    List.nodup_range.filter _, hreward.1, hreward.2⟩

/-! ## Atoms -/

structure Spawned (kernel : GraphKernel) (board : List ℕ) (cells : ℕ) (reward : ℚ)
    (remainingHorizon cell rank : ℕ) (probability : ℚ) (atom : TransitionAtom) : Prop where
  cell_eq : atom.spawnCell = cell
  rank_eq : atom.spawnRank = rank
  probability_eq : atom.probability = 1 / cells * probability
  reward_eq : atom.realizedRowReward = reward
  ranks_eq : atom.nextState.ranks = board.set cell rank
  failure_eq : atom.nextState.failure = (kernel.mergesOf (board.set cell rank)).isEmpty
  terminal_eq : atom.terminal = (atom.nextState.failure || remainingHorizon = 1)

def spawns (kernel : GraphKernel) (empty : List ℕ) : List (ℕ × ℕ × ℚ) :=
  empty.flatMap fun cell => kernel.spawnLaw.entries.map fun entry => (cell, entry)

theorem mem_spawns {empty : List ℕ} {cell rank : ℕ} {p : ℚ} :
    (cell, rank, p) ∈ kernel.spawns empty ↔
      cell ∈ empty ∧ (rank, p) ∈ kernel.spawnLaw.entries := by
  simp only [spawns, List.mem_flatMap, List.mem_map, Prod.mk.injEq]
  constructor
  · rintro ⟨_, hcell, _, hentry, rfl, rfl⟩
    exact ⟨hcell, hentry⟩
  · rintro ⟨hcell, hentry⟩
    exact ⟨cell, hcell, _, hentry, rfl, rfl⟩

theorem prob_le_one {rank : ℕ} {p : ℚ} (h : (rank, p) ∈ kernel.spawnLaw.entries) : p ≤ 1 := by
  rw [← kernel.spawnLaw.normalized]
  refine List.single_le_sum (fun q hq => ?_) p (List.mem_map_of_mem (f := Prod.snd) h)
  obtain ⟨entry, hentry, rfl⟩ := List.mem_map.mp hq
  exact (kernel.spawnLaw.positive entry hentry).2.le

variable {board empty : List ℕ} {reward : ℚ} {remainingHorizon : ℕ}

theorem spawnAtom_spawned {cells cell rank : ℕ} {p : ℚ} {atom : TransitionAtom}
    (h : kernel.spawnAtom board cells reward remainingHorizon cell rank p = .ok atom) :
    Spawned kernel board cells reward remainingHorizon cell rank p atom := by
  simp only [spawnAtom, bind_eq_ok, legalActionsFromRanks_eq_ok, GraphState.make_eq_ok] at h
  obtain ⟨legal, ⟨-, rfl⟩, nextState, ⟨hranks, hfailure⟩, hatom⟩ := h
  obtain ⟨rfl, hprobability, hreward, hterminal, hcell, hrank⟩ := TransitionAtom.make_eq_ok hatom
  rw [← hfailure] at hterminal
  exact ⟨hcell, hrank, hprobability, hreward, hranks, hfailure, hterminal⟩

theorem Merged.spawnAtom_returns (h : Merged kernel board empty reward) {cell rank : ℕ} {p : ℚ}
    (hentry : (rank, p) ∈ kernel.spawnLaw.entries) :
    ∃ atom, kernel.spawnAtom board empty.length reward remainingHorizon cell rank p = .ok atom := by
  obtain ⟨hrank, hp⟩ := kernel.spawnLaw.positive _ hentry
  have hfits := h.fits.set cell (kernel.ranks_le _ hentry)
  have hne : board.set cell rank ≠ [] := by
    have hlength := hfits.1
    have htwo := kernel.topology.vertexCount_gt
    rintro heq
    rw [heq, List.length_nil] at hlength
    omega
  have hcells : (1 : ℚ) ≤ empty.length := by
    exact_mod_cast List.length_pos_iff.mpr h.empty_ne
  have hfraction : (1 : ℚ) / empty.length ≤ 1 := (div_le_one (by linarith)).mpr hcells
  have hpos : (0 : ℚ) < 1 / empty.length * p := by positivity
  have hle : (1 : ℚ) / empty.length * p ≤ 1 :=
    mul_le_one₀ hfraction hp.le (prob_le_one hentry)
  refine ⟨_, bind_eq_ok.mpr ⟨_, legalActionsFromRanks_eq_ok.mpr ⟨hfits, rfl⟩,
    bind_eq_ok.mpr ⟨_, dif_pos hne, dif_pos ?_⟩⟩⟩
  exact ⟨⟨hpos, hle⟩, ⟨h.reward_nonneg, h.reward_le.trans (by norm_num)⟩, rfl, hrank⟩

theorem sum_spawns (h : Merged kernel board empty reward) :
    ((kernel.spawns empty).map fun spawn => 1 / (empty.length : ℚ) * spawn.2.2).sum = 1 := by
  have hcell : ∀ cells : List ℕ, ((kernel.spawns cells).map fun spawn =>
      1 / (empty.length : ℚ) * spawn.2.2).sum = cells.length * (1 / (empty.length : ℚ)) := by
    intro cells
    induction cells with
    | nil => simp [spawns]
    | cons cell rest ih =>
      have hsplit : kernel.spawns (cell :: rest) =
          kernel.spawnLaw.entries.map (fun entry => (cell, entry)) ++ kernel.spawns rest := rfl
      have hlaw : (kernel.spawnLaw.entries.map fun entry =>
          1 / (empty.length : ℚ) * entry.2).sum = 1 / (empty.length : ℚ) := by
        rw [List.sum_map_mul_left, kernel.spawnLaw.normalized, mul_one]
      rw [hsplit, List.map_append, List.sum_append, ih, List.map_map]
      simp only [Function.comp_def, hlaw, List.length_cons, Nat.cast_add, Nat.cast_one]
      ring
  have hne : (empty.length : ℚ) ≠ 0 := by
    exact_mod_cast (List.length_pos_iff.mpr h.empty_ne).ne'
  rw [hcell empty, mul_one_div_cancel hne]

/-- The atoms of a row, spawn by spawn. -/
theorem exactAtoms_eq_ok {atoms : List TransitionAtom}
    (hmerge : kernel.merge state action = .ok (board, empty, reward))
    (h : kernel.exactAtoms state action remainingHorizon = .ok atoms) :
    List.Forall₂ (fun spawn atom => Spawned kernel board empty.length reward remainingHorizon
      spawn.1 spawn.2.1 spawn.2.2 atom) (kernel.spawns empty) atoms := by
  simp only [exactAtoms, hmerge, bind_eq_ok, require_eq_ok, pure_eq_ok, Except.ok.injEq] at h
  obtain ⟨_, -, _, rfl, rows, hrows, _, -, rfl⟩ := h
  exact (mapM_eq_ok.mp hrows).imp fun _ _ => spawnAtom_spawned

theorem sum_probability {atoms : List TransitionAtom} (h : Merged kernel board empty reward)
    (hatoms : List.Forall₂ (fun spawn atom => Spawned kernel board empty.length reward
      remainingHorizon spawn.1 spawn.2.1 spawn.2.2 atom) (kernel.spawns empty) atoms) :
    (atoms.map (·.probability)).sum = 1 := by
  have hmap : atoms.map (·.probability) =
      (kernel.spawns empty).map fun spawn => 1 / (empty.length : ℚ) * spawn.2.2 :=
    map_of_forall₂ hatoms fun _ _ _ hspawn => hspawn.probability_eq
  rw [hmap, sum_spawns h]

/-- The row of a legal action of a valid state. -/
theorem exactAtoms_returns (hvalid : kernel.validateState state = .ok ())
    (haction : action ∈ kernel.mergesOf state.ranks)
    (hremaining : remainingHorizon = 1 ∨ remainingHorizon = kernel.horizon) :
    ∃ atoms, kernel.exactAtoms state action remainingHorizon = .ok atoms := by
  obtain ⟨board, empty, reward, hmerge⟩ := merge_returns hvalid haction
  have hmerged := merge_eq_ok hmerge
  obtain ⟨atoms, hatoms⟩ := mapM_returns (l := kernel.spawns empty)
    (f := fun spawn => kernel.spawnAtom board empty.length reward remainingHorizon spawn.1
      spawn.2.1 spawn.2.2)
    fun spawn hspawn => hmerged.spawnAtom_returns (mem_spawns.mp hspawn).2
  have hsum := sum_probability hmerged ((mapM_eq_ok.mp hatoms).imp fun _ _ => spawnAtom_spawned)
  exact ⟨atoms, bind_eq_ok.mpr ⟨(), require_eq_ok.mpr hremaining, bind_eq_ok.mpr ⟨_, hmerge,
    bind_eq_ok.mpr ⟨atoms, hatoms, bind_eq_ok.mpr ⟨(), require_eq_ok.mpr hsum, rfl⟩⟩⟩⟩⟩

theorem Merged.validateState_spawned (h : Merged kernel board empty reward) {cell rank : ℕ} {p : ℚ}
    {atom : TransitionAtom} (hentry : (rank, p) ∈ kernel.spawnLaw.entries)
    (hatom : Spawned kernel board empty.length reward remainingHorizon cell rank p atom) :
    kernel.validateState atom.nextState = .ok () := by
  rw [validateState_eq_ok, hatom.ranks_eq, hatom.failure_eq]
  exact ⟨h.fits.set cell (kernel.ranks_le _ hentry), rfl⟩

end GraphKernel

end Acfqp.Graph
