import Acfqp.Coordinates.Invariance

/-!
# Logs of boards

The source log of some boards, where each merge is observed once and leaves the board as it is.
-/

namespace Acfqp.Coordinates

open Library Acfqp.Graph

/-- A topology with its ranks and their merges in canonical order. -/
structure Board where
  topology : GraphTopology
  ranks : List ℕ
  moves : List GraphAction
  ranks_length : ranks.length = topology.vertexCount
  ranks_le : ∀ rank ∈ ranks, rank ≤ registeredRankCap
  legal : legalActionTuples topology ranks = .ok moves
  merges : ∀ move ∈ moves, move.edge ∈ topology.edges ∧ ranks[move.edge.first]? ≠ some 0 ∧
    ranks[move.edge.first]? = ranks[move.edge.second]?
  ordered : moves.Pairwise fun a b => actionKey a < actionKey b

variable {ι : Type} (ids : ContentIds ι)

namespace Board

def state (b : Board) (remainingHorizon : ℕ) (h : remainingHorizon ≤ registeredHorizon) :
    GraphStateView ι where
  topologyId := ids.topologyId b.topology
  ranks := b.ranks
  failure := false
  remainingHorizon := remainingHorizon
  ranks_length := by
    rw [b.ranks_length]
    exact b.topology.vertexCount_gt
  ranks_le := b.ranks_le
  horizon_le := h

/-- The state before a merge. -/
def source (b : Board) : GraphStateView ι := b.state ids 1 (Nat.le_succ 1)

theorem target_le : 0 ≤ registeredHorizon := Nat.zero_le 2

/-- The state after it. -/
def target (b : Board) : GraphStateView ι := b.state ids 0 target_le

theorem sure_mem : 0 < (1 : ℚ) ∧ (1 : ℚ) ≤ 1 := by norm_num

theorem reward_mem : 0 ≤ (0 : ℚ) ∧ (0 : ℚ) ≤ 1 := by norm_num

theorem ends_of_failure : false = true → true = true := nofun

def outcome (b : Board) : GraphOutcomeView ι where
  nextState := b.target ids
  probability := 1
  normalizedReward := 0
  failure := false
  terminal := true
  probability_mem := sure_mem
  reward_mem := reward_mem
  failure_eq := rfl
  terminal_of_failure := ends_of_failure

def row (b : Board) (move : GraphAction) : GraphObservedRow ι where
  state := b.source ids
  action := ⟨ids.stateId (b.source ids), move⟩
  legalActions := b.moves.map fun move => ⟨ids.stateId (b.source ids), move⟩
  outcomes := [b.outcome ids]

variable {ids}

theorem legalActionViews_eq [LinearOrder ι] (b : Board) {n : ℕ} (h : n ≤ registeredHorizon) :
    legalActionViews ids b.topology (b.state ids n h) =
      .ok (b.moves.map fun move => ⟨ids.stateId (b.state ids n h), move⟩) := by
  unfold legalActionViews
  change (legalActionTuples b.topology b.ranks >>= _) = _
  rw [b.legal]
  rfl

theorem row_bound [DecidableEq ι] {b : Board} {move : GraphAction} (h : move ∈ b.moves) :
    (b.row ids move).Bound ids where
  active := rfl
  remaining := Nat.one_pos
  action_state := rfl
  action_mem := List.mem_map_of_mem h
  ordered := List.pairwise_map.mpr b.ordered
  outcomes_ne := List.cons_ne_nil _ _
  normalized := by simp [row, outcome]
  successors := by simp [row, outcome, source, target, state]

theorem row_legalUnder [LinearOrder ι] {b : Board} {move : GraphAction} (h : move ∈ b.moves) :
    (b.row ids move).LegalUnder ids b.topology where
  topologyId := rfl
  ranks_length := b.ranks_length
  edge_mem := (b.merges move h).1
  rank_pos := (b.merges move h).2.1
  rank_eq := (b.merges move h).2.2
  legalActions := b.legalActionViews_eq _

end Board

section Log

variable [LinearOrder ι]

def boardRows (boards : List Board) : List (GraphObservedRow ι) :=
  boards.flatMap fun b => b.moves.map (b.row ids)

variable {ids} {boards : List Board}

omit [LinearOrder ι] in
theorem mem_boardRows {row : GraphObservedRow ι} :
    row ∈ boardRows ids boards ↔ ∃ b ∈ boards, ∃ move ∈ b.moves, row = b.row ids move := by
  simp only [boardRows, List.mem_flatMap, List.mem_map, eq_comm (a := row)]

omit [LinearOrder ι] in
theorem stateId_source (hids : ids.Injective) {b b' : Board}
    (h : ids.stateId (b.source ids) = ids.stateId (b'.source ids)) :
    b.topology = b'.topology ∧ b.ranks = b'.ranks := by
  have h := hids.stateId h
  exact ⟨hids.topologyId (congrArg GraphStateView.topologyId h), congrArg GraphStateView.ranks h⟩

/-- Boards that differ in their topologies or their ranks. -/
def Distinct (boards : List Board) : Prop :=
  boards.Pairwise fun b b' => ¬ (b.topology = b'.topology ∧ b.ranks = b'.ranks)

theorem stateRows_boardRows (hids : ids.Injective) (hboards : Distinct boards) {b : Board}
    (hb : b ∈ boards) : stateRows ids (boardRows ids boards) (ids.stateId (b.source ids)) =
      b.moves.map (b.row ids) := by
  induction boards with
  | nil => cases hb
  | cons b' boards ih =>
    obtain ⟨hne, hrest⟩ := List.pairwise_cons.mp hboards
    have hsplit : boardRows ids (b' :: boards) =
        b'.moves.map (b'.row ids) ++ boardRows ids boards := List.flatMap_cons
    unfold stateRows at ih ⊢
    rw [hsplit, List.filter_append]
    rcases List.mem_cons.mp hb with rfl | hb
    · have hself : (b.moves.map (b.row ids)).filter
          (fun row => ids.stateId row.state = ids.stateId (b.source ids)) =
            b.moves.map (b.row ids) := by
        refine List.filter_eq_self.mpr fun row hrow => ?_
        obtain ⟨move, -, rfl⟩ := List.mem_map.mp hrow
        exact decide_eq_true rfl
      have hothers : (boardRows ids boards).filter
          (fun row => ids.stateId row.state = ids.stateId (b.source ids)) = [] := by
        refine List.filter_eq_nil_iff.mpr fun row hrow => ?_
        obtain ⟨b', hb', move, -, rfl⟩ := mem_boardRows.mp hrow
        rw [decide_eq_true_iff]
        intro heq
        obtain ⟨htopology, hranks⟩ := stateId_source hids heq
        exact hne b' hb' ⟨htopology.symm, hranks.symm⟩
      rw [hself, hothers, List.append_nil]
    · have hfirst : (b'.moves.map (b'.row ids)).filter
          (fun row => ids.stateId row.state = ids.stateId (b.source ids)) = [] := by
        refine List.filter_eq_nil_iff.mpr fun row hrow => ?_
        obtain ⟨move, -, rfl⟩ := List.mem_map.mp hrow
        rw [decide_eq_true_iff]
        exact fun heq => hne b hb (stateId_source hids heq)
      rw [hfirst, List.nil_append]
      exact ih hrest hb

omit [LinearOrder ι] in
theorem nodup_boardRows (hids : ids.Injective) (hboards : Distinct boards) :
    (boardRows ids boards).Nodup := by
  induction boards with
  | nil => exact List.nodup_nil
  | cons b boards ih =>
    obtain ⟨hne, hrest⟩ := List.pairwise_cons.mp hboards
    have hsplit : boardRows ids (b :: boards) =
        b.moves.map (b.row ids) ++ boardRows ids boards := List.flatMap_cons
    rw [hsplit, List.nodup_append]
    refine ⟨?_, ih hrest, ?_⟩
    · have hmoves : b.moves.Nodup := b.ordered.imp fun {move move'} hlt heq => by
        rw [heq] at hlt
        exact lt_irrefl _ hlt
      exact hmoves.map fun move move' heq => congrArg (fun row => row.action.move) heq
    · rintro row hrow _ hrow' rfl
      obtain ⟨move, -, rfl⟩ := List.mem_map.mp hrow
      obtain ⟨b', hb', move', -, heq⟩ := mem_boardRows.mp hrow'
      exact hne b' hb' (stateId_source hids (congrArg (fun row => ids.stateId row.state) heq))

def boardLog (hids : ids.Injective) (topologies : List GraphTopology) (boards : List Board)
    (htopologies : topologies.Nodup) (hboards : Distinct boards)
    (hmem : ∀ b ∈ boards, b.topology ∈ topologies) (hne : ∃ b ∈ boards, b.moves ≠ []) :
    AnonymousGraphSourceLog ids where
  topologies := sortBy ids.topologyId topologies
  rows := sortBy ids.rowId (boardRows ids boards)
  topologies_ne := by
    obtain ⟨b, hb, -⟩ := hne
    rw [Ne, sortBy_eq_nil]
    exact List.ne_nil_of_mem (hmem b hb)
  topologies_sorted := pairwise_lt_sortBy (htopologies.map hids.topologyId)
  rows_ne := by
    obtain ⟨b, hb, hmoves⟩ := hne
    obtain ⟨move, hmove⟩ := List.exists_mem_of_ne_nil _ hmoves
    rw [Ne, sortBy_eq_nil]
    exact List.ne_nil_of_mem (mem_boardRows.mpr ⟨b, hb, move, hmove, rfl⟩)
  rows_sorted := pairwise_lt_sortBy ((nodup_boardRows hids hboards).map hids.rowId)
  bound row hrow := by
    obtain ⟨b, -, move, hmove, rfl⟩ := mem_boardRows.mp (mem_sortBy.mp hrow)
    exact Board.row_bound hmove
  legal row hrow := by
    obtain ⟨b, hb, move, hmove, rfl⟩ := mem_boardRows.mp (mem_sortBy.mp hrow)
    exact ⟨b.topology, mem_sortBy.mpr (hmem b hb), Board.row_legalUnder hmove⟩
  complete row hrow := by
    obtain ⟨b, hb, move, -, rfl⟩ := mem_boardRows.mp (mem_sortBy.mp hrow)
    have hperm : (stateRows ids (sortBy ids.rowId (boardRows ids boards))
        (ids.stateId (b.source ids))).Perm (b.moves.map (b.row ids)) := by
      rw [← stateRows_boardRows hids hboards hb]
      exact (perm_sortBy _ _).filter _
    refine ⟨fun other hother => ?_, ?_, ?_⟩
    · obtain ⟨move', -, rfl⟩ := List.mem_map.mp (hperm.mem_iff.mp hother)
      exact ⟨rfl, rfl⟩
    · ext id
      rw [List.mem_toFinset, List.mem_toFinset]
      refine (hperm.map _).mem_iff.trans ?_
      simp [Board.row]
    · exact hperm.length_eq.trans (by simp [Board.row])
  closed row hrow outcome houtcome _ hremaining := by
    obtain ⟨b, -, move, -, rfl⟩ := mem_boardRows.mp (mem_sortBy.mp hrow)
    obtain rfl := List.mem_singleton.mp houtcome
    exact absurd hremaining (Nat.lt_irrefl 0)

variable {hids : ids.Injective} {topologies : List GraphTopology} {htopologies : topologies.Nodup}
  {hboards : Distinct boards} {hmem : ∀ b ∈ boards, b.topology ∈ topologies}
  {hne : ∃ b ∈ boards, b.moves ≠ []}

theorem mem_namedStates_boardLog {s : GraphStateView ι}
    (hs : s ∈ (boardLog hids topologies boards htopologies hboards hmem hne).namedStates) :
    ∃ b ∈ boards, ∃ n h, s = b.state ids n h := by
  obtain ⟨row, hrow, hs⟩ := List.mem_flatMap.mp hs
  obtain ⟨b, hb, move, -, rfl⟩ := mem_boardRows.mp (mem_sortBy.mp hrow)
  rcases List.mem_cons.mp hs with rfl | hs
  · exact ⟨b, hb, _, _, rfl⟩
  · obtain rfl := List.mem_singleton.mp hs
    exact ⟨b, hb, _, _, rfl⟩

theorem topologyAt_boardLog {b : Board} (hb : b ∈ boards) :
    (boardLog hids topologies boards htopologies hboards hmem hne).topologyAt
      (ids.topologyId b.topology) = .ok b.topology :=
  AnonymousGraphSourceLog.topologyAt_eq hids (mem_sortBy.mpr (hmem b hb))

end Log

end Acfqp.Coordinates
