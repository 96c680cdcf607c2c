import Acfqp.Coordinates.Synthesis
import Acfqp.Coordinates.Relabelling

/-!
# Relabelled logs

The topologies, states, actions and outcomes of an accepted log under permutations of the vertices
of each topology form an accepted log.
-/

namespace Acfqp.Coordinates

open Library Acfqp.Graph

variable {ι : Type}

/-! ## Views -/

def GraphStateView.relabel (s : GraphStateView ι) (topologyId : ι) (σ : Equiv.Perm ℕ) :
    GraphStateView ι where
  topologyId := topologyId
  ranks := relabelRanks σ s.ranks
  failure := s.failure
  remainingHorizon := s.remainingHorizon
  ranks_length := by simpa using s.ranks_length
  ranks_le := by
    intro rank hrank
    obtain ⟨v, -, rfl⟩ := List.mem_map.mp hrank
    rcases Nat.lt_or_ge (σ.symm v) s.ranks.length with hlt | hge
    · rw [List.getD_eq_getElem _ _ hlt]
      exact s.ranks_le _ (List.getElem_mem hlt)
    · rw [List.getD_eq_default _ _ hge]
      exact Nat.zero_le _
  horizon_le := s.horizon_le

def GraphOutcomeView.relabel (o : GraphOutcomeView ι) (topologyId : ι) (σ : Equiv.Perm ℕ) :
    GraphOutcomeView ι :=
  { o with
    nextState := o.nextState.relabel topologyId σ
    failure_eq := o.failure_eq }

def GraphObservedRow.relabel (ids : ContentIds ι) (row : GraphObservedRow ι) (topologyId : ι)
    (σ : Equiv.Perm ℕ) : GraphObservedRow ι :=
  let state := row.state.relabel topologyId σ
  { state
    action := ⟨ids.stateId state, relabelAction σ row.action.move⟩
    legalActions := (sortBy actionKey (row.legalActions.map fun a => relabelAction σ a.move)).map
      fun move => ⟨ids.stateId state, move⟩
    outcomes := row.outcomes.map (·.relabel topologyId σ) }

theorem relabelRanks_inj {σ : Equiv.Perm ℕ} {ranks ranks' : List ℕ} (h : Keeps σ ranks.length)
    (heq : relabelRanks σ ranks = relabelRanks σ ranks') : ranks = ranks' := by
  have hlength : ranks.length = ranks'.length := by
    simpa using congrArg List.length heq
  apply List.ext_getElem?
  intro v
  rw [← getElem?_relabelRanks h, heq, getElem?_relabelRanks (hlength ▸ h)]

theorem GraphStateView.relabel_inj {s s' : GraphStateView ι} {topologyId : ι} {σ : Equiv.Perm ℕ}
    (h : Keeps σ s.ranks.length) (htopology : s.topologyId = s'.topologyId)
    (heq : s.relabel topologyId σ = s'.relabel topologyId σ) : s = s' := by
  have hpayload := congrArg GraphStateView.payload heq
  simp only [GraphStateView.payload, GraphStateView.relabel, Prod.mk.injEq] at hpayload
  apply GraphStateView.payload_injective
  simp only [GraphStateView.payload, Prod.mk.injEq]
  exact ⟨htopology, relabelRanks_inj h hpayload.2.1, hpayload.2.2⟩

theorem GraphOutcomeView.relabel_inj {o o' : GraphOutcomeView ι} {topologyId : ι}
    {σ : Equiv.Perm ℕ} (h : Keeps σ o.nextState.ranks.length)
    (htopology : o.nextState.topologyId = o'.nextState.topologyId)
    (heq : o.relabel topologyId σ = o'.relabel topologyId σ) : o = o' := by
  have hstate := GraphStateView.relabel_inj h htopology (congrArg GraphOutcomeView.nextState heq)
  have hprobability := congrArg GraphOutcomeView.probability heq
  have hreward := congrArg GraphOutcomeView.normalizedReward heq
  have hfailure := congrArg GraphOutcomeView.failure heq
  have hterminal := congrArg GraphOutcomeView.terminal heq
  cases o
  cases o'
  simp_all [GraphOutcomeView.relabel]

/-! ## Logs -/

variable [LinearOrder ι]

def permuted (π : ∀ t : GraphTopology, Equiv.Perm (Fin t.vertexCount)) (t : GraphTopology) :
    GraphTopology := relabelTopology t (keeps_cells (π t))

namespace AnonymousGraphSourceLog

variable {ids : ContentIds ι} (log : AnonymousGraphSourceLog ids)
  (π : ∀ t : GraphTopology, Equiv.Perm (Fin t.vertexCount))

def relabelRow (row : GraphObservedRow ι) : GraphObservedRow ι :=
  match log.topologies.find? (ids.topologyId · = row.state.topologyId) with
  | some t => row.relabel ids (ids.topologyId (permuted π t)) (cells (π t))
  | none => row

def relabelState (s : GraphStateView ι) : GraphStateView ι :=
  match log.topologies.find? (ids.topologyId · = s.topologyId) with
  | some t => s.relabel (ids.topologyId (permuted π t)) (cells (π t))
  | none => s

/-- Permutations that keep the topologies apart. A successor may have fewer ranks than its topology
has vertices; its ranks can only be relabelled when they are permuted among themselves. -/
structure Admits : Prop where
  distinct : (log.topologies.map (permuted π)).Nodup
  keeps : ∀ row ∈ log.rows, ∀ t ∈ log.topologies, ids.topologyId t = row.state.topologyId →
    ∀ outcome ∈ row.outcomes, ∀ v < outcome.nextState.ranks.length,
      cells (π t) v < outcome.nextState.ranks.length

/-- A state with its topology, whose permutation relabels its ranks. -/
structure StateOf (s : GraphStateView ι) (t : GraphTopology) : Prop where
  mem : t ∈ log.topologies
  topologyId : ids.topologyId t = s.topologyId
  keeps : Keeps (cells (π t)) s.ranks.length

variable {log π}

theorem find?_topology (hids : ids.Injective) {t : GraphTopology} (ht : t ∈ log.topologies) :
    log.topologies.find? (ids.topologyId · = ids.topologyId t) = some t := by
  cases hfind : log.topologies.find? (ids.topologyId · = ids.topologyId t) with
  | none =>
    have := List.find?_eq_none.mp hfind t ht
    simp at this
  | some t' =>
    have heq : ids.topologyId t' = ids.topologyId t := by simpa using List.find?_some hfind
    rw [hids.topologyId heq]

theorem topologyAt_eq (hids : ids.Injective) {t : GraphTopology} (ht : t ∈ log.topologies) :
    log.topologyAt (ids.topologyId t) = .ok t := by
  rw [topologyAt, find?_topology hids ht]
  rfl

theorem mem_namedStates {s : GraphStateView ι} : s ∈ log.namedStates ↔
    ∃ row ∈ log.rows, s = row.state ∨ ∃ outcome ∈ row.outcomes, outcome.nextState = s := by
  simp [namedStates]

theorem exists_topology (h : log.Admits π) {row : GraphObservedRow ι} (hrow : row ∈ log.rows) :
    ∃ t, row.LegalUnder ids t ∧ log.StateOf π row.state t ∧
      ∀ outcome ∈ row.outcomes, log.StateOf π outcome.nextState t := by
  obtain ⟨t, ht, hlegal⟩ := log.legal row hrow
  refine ⟨t, hlegal, ⟨ht, hlegal.topologyId, ?_⟩, fun outcome houtcome => ⟨ht, ?_, ?_⟩⟩
  · rw [hlegal.ranks_length]
    exact keeps_cells (π t)
  · rw [((log.bound row hrow).successors outcome houtcome).1, hlegal.topologyId]
  · exact .of_maps (h.keeps row hrow t ht hlegal.topologyId outcome houtcome)

theorem exists_stateOf (h : log.Admits π) {s : GraphStateView ι} (hs : s ∈ log.namedStates) :
    ∃ t, log.StateOf π s t := by
  obtain ⟨row, hrow, hs⟩ := mem_namedStates.mp hs
  obtain ⟨t, -, hstate, hnext⟩ := exists_topology h hrow
  obtain rfl | ⟨outcome, houtcome, rfl⟩ := hs
  · exact ⟨t, hstate⟩
  · exact ⟨t, hnext outcome houtcome⟩

theorem StateOf.relabelState_eq (hids : ids.Injective) {s : GraphStateView ι} {t : GraphTopology}
    (h : log.StateOf π s t) :
    log.relabelState π s = s.relabel (ids.topologyId (permuted π t)) (cells (π t)) := by
  rw [relabelState, ← h.topologyId, find?_topology hids h.mem]

theorem StateOf.relabelRow_eq (hids : ids.Injective) {row : GraphObservedRow ι}
    {t : GraphTopology} (h : log.StateOf π row.state t) :
    log.relabelRow π row = row.relabel ids (ids.topologyId (permuted π t)) (cells (π t)) := by
  rw [relabelRow, ← h.topologyId, find?_topology hids h.mem]

/-- Different states stay different. -/
theorem relabelState_inj (hids : ids.Injective) (h : log.Admits π) {s s' : GraphStateView ι}
    (hs : s ∈ log.namedStates) (hs' : s' ∈ log.namedStates)
    (heq : log.relabelState π s = log.relabelState π s') : s = s' := by
  obtain ⟨t, ht⟩ := exists_stateOf h hs
  obtain ⟨t', ht'⟩ := exists_stateOf h hs'
  rw [ht.relabelState_eq hids, ht'.relabelState_eq hids] at heq
  have htopology : permuted π t = permuted π t' :=
    hids.topologyId (congrArg GraphStateView.topologyId heq)
  obtain rfl := List.inj_on_of_nodup_map h.distinct ht.mem ht'.mem htopology
  exact GraphStateView.relabel_inj ht.keeps (ht.topologyId.symm.trans ht'.topologyId) heq

theorem state_mem_namedStates {row : GraphObservedRow ι} (hrow : row ∈ log.rows) :
    row.state ∈ log.namedStates := mem_namedStates.mpr ⟨row, hrow, .inl rfl⟩

theorem nextState_mem_namedStates {row : GraphObservedRow ι} (hrow : row ∈ log.rows)
    {outcome : GraphOutcomeView ι} (houtcome : outcome ∈ row.outcomes) :
    outcome.nextState ∈ log.namedStates :=
  mem_namedStates.mpr ⟨row, hrow, .inr ⟨outcome, houtcome, rfl⟩⟩

theorem state_relabelRow (row : GraphObservedRow ι) :
    (log.relabelRow π row).state = log.relabelState π row.state := by
  unfold relabelRow relabelState
  split <;> rfl

/-! ## Rows under new names -/

omit [LinearOrder ι] in
variable (ids) in
theorem legalActionViews_relabel {t : GraphTopology} {s : GraphStateView ι}
    (h : Keeps (cells (π t)) s.ranks.length) :
    Agree (fun legal legal' => legal' = (sortBy actionKey
        (legal.map fun a => relabelAction (cells (π t)) a.move)).map fun move =>
          ⟨ids.stateId (s.relabel (ids.topologyId (permuted π t)) (cells (π t))), move⟩)
      GraphError.index (legalActionViews ids t s) (legalActionViews ids (permuted π t)
        (s.relabel (ids.topologyId (permuted π t)) (cells (π t)))) := by
  refine (legalActionTuples_relabelTopology (keeps_cells (π t)) h).bind fun moves moves' hmoves =>
    ?_
  refine .inr ⟨_, _, rfl, rfl, ?_⟩
  simp only [hmoves, List.map_map]
  rfl

theorem relabelRow_bound (hids : ids.Injective) (h : log.Admits π) {row : GraphObservedRow ι}
    (hrow : row ∈ log.rows) : (log.relabelRow π row).Bound ids := by
  have hbound := log.bound row hrow
  obtain ⟨t, -, hstate, -⟩ := exists_topology h hrow
  rw [hstate.relabelRow_eq hids]
  refine ⟨hbound.active, hbound.remaining, rfl, ?_, ?_, ?_, ?_, ?_⟩
  · exact List.mem_map_of_mem
      (mem_sortBy.mpr (List.mem_map_of_mem (f := fun a => relabelAction _ a.move)
        hbound.action_mem))
  · have hnodup : ((row.legalActions.map fun a => relabelAction (cells (π t)) a.move).map
        actionKey).Nodup := by
      rw [List.map_map]
      refine List.pairwise_map.mpr (hbound.ordered.imp fun {a b} hlt heq => hlt.ne ?_)
      rw [relabelAction_injective _ (actionKey_injective heq)]
    exact List.pairwise_map.mpr (pairwise_lt_sortBy hnodup)
  · simpa [GraphObservedRow.relabel] using hbound.outcomes_ne
  · simpa [GraphObservedRow.relabel, GraphOutcomeView.relabel, Function.comp_def] using
      hbound.normalized
  · intro outcome' houtcome'
    obtain ⟨outcome, houtcome, rfl⟩ := List.mem_map.mp houtcome'
    exact ⟨rfl, (hbound.successors outcome houtcome).2⟩

theorem relabelRow_legal (hids : ids.Injective) (h : log.Admits π) {row : GraphObservedRow ι}
    (hrow : row ∈ log.rows) :
    ∃ t ∈ log.topologies, (log.relabelRow π row).LegalUnder ids (permuted π t) := by
  obtain ⟨t, hlegal, hstate, -⟩ := exists_topology h hrow
  rw [hstate.relabelRow_eq hids]
  have hranks := getElem?_relabelRanks hstate.keeps
  have hends := relabelEdge_cases (cells (π t)) row.action.move.edge
  refine ⟨t, hstate.mem, rfl, ?_, ?_, ?_, ?_, ?_⟩
  · exact length_relabelRanks.trans hlegal.ranks_length
  · exact (mem_relabelTopology (keeps_cells (π t))).mpr ⟨_, hlegal.edge_mem, rfl⟩
  · change (relabelRanks _ _)[(relabelEdge _ _).first]? ≠ _
    obtain ⟨hfirst, -⟩ | ⟨hfirst, -⟩ := hends <;> rw [hfirst, hranks]
    · exact hlegal.rank_pos
    · rw [← hlegal.rank_eq]
      exact hlegal.rank_pos
  · change (relabelRanks _ _)[(relabelEdge _ _).first]? =
      (relabelRanks _ _)[(relabelEdge _ _).second]?
    obtain ⟨hfirst, hsecond⟩ | ⟨hfirst, hsecond⟩ := hends <;>
      rw [hfirst, hsecond, hranks, hranks]
    · exact hlegal.rank_eq
    · exact hlegal.rank_eq.symm
  · obtain ⟨he, -⟩ | ⟨legal, legal', hl, hl', heq⟩ :=
      legalActionViews_relabel ids hstate.keeps
    · cases he.symm.trans hlegal.legalActions
    · cases hl.symm.trans hlegal.legalActions
      rw [heq] at hl'
      exact hl'

theorem relabelRow_inj (hids : ids.Injective) (h : log.Admits π) {row row' : GraphObservedRow ι}
    (hrow : row ∈ log.rows) (hrow' : row' ∈ log.rows)
    (heq : log.relabelRow π row = log.relabelRow π row') : row = row' := by
  have hstate : row.state = row'.state := by
    refine relabelState_inj hids h (state_mem_namedStates hrow) (state_mem_namedStates hrow') ?_
    rw [← state_relabelRow, ← state_relabelRow, heq]
  obtain ⟨t, hlegal, ht, hnext⟩ := exists_topology h hrow
  have ht' : log.StateOf π row'.state t := hstate ▸ ht
  rw [ht.relabelRow_eq hids, ht'.relabelRow_eq hids] at heq
  have hbound := log.bound row hrow
  have hbound' := log.bound row' hrow'
  have haction : row.action = row'.action := by
    have hmove := congrArg (fun r : GraphObservedRow ι => r.action.move) heq
    have hmove := relabelAction_injective _ hmove
    have hid := hbound.action_state.trans ((congrArg ids.stateId hstate).trans
      hbound'.action_state.symm)
    cases hr : row.action
    cases hr' : row'.action
    simp_all
  have hlegalActions : row.legalActions = row'.legalActions := by
    obtain ⟨t', ht', hlegal'⟩ := log.legal row' hrow'
    obtain rfl : t = t' := hids.topologyId
      (hlegal.topologyId.trans (hstate ▸ hlegal'.topologyId.symm))
    have := hlegal'.legalActions
    rw [← hstate, hlegal.legalActions] at this
    exact Except.ok.inj this
  have houtcomes : row.outcomes = row'.outcomes := by
    refine map_inj_of_mem (congrArg GraphObservedRow.outcomes heq) fun o ho o' ho' hoo => ?_
    refine GraphOutcomeView.relabel_inj (hnext o ho).keeps ?_ hoo
    rw [(hbound.successors o ho).1, (hbound'.successors o' ho').1, hstate]
  cases row
  cases row'
  simp_all

theorem perm_stateRows_relabel (hids : ids.Injective) (h : log.Admits π)
    {row : GraphObservedRow ι} (hrow : row ∈ log.rows) :
    (stateRows ids (sortBy ids.rowId (log.rows.map (log.relabelRow π)))
      (ids.stateId (log.relabelRow π row).state)).Perm
      ((stateRows ids log.rows (ids.stateId row.state)).map (log.relabelRow π)) := by
  unfold stateRows
  refine ((perm_sortBy _ _).filter _).trans (List.Perm.of_eq ?_)
  rw [List.filter_map]
  congr 1
  refine List.filter_congr fun other hother => ?_
  simp only [Function.comp_apply, decide_eq_decide, hids.stateId.eq_iff, state_relabelRow]
  refine ⟨fun heq => ?_, congrArg _⟩
  exact relabelState_inj hids h (state_mem_namedStates hother) (state_mem_namedStates hrow) heq

theorem relabelRow_complete (hids : ids.Injective) (h : log.Admits π) {row : GraphObservedRow ι}
    (hrow : row ∈ log.rows) : (log.relabelRow π row).Complete ids
      (sortBy ids.rowId (log.rows.map (log.relabelRow π))) := by
  have hperm := perm_stateRows_relabel hids h hrow
  have hcomplete := log.complete row hrow
  obtain ⟨t, -, hstate, -⟩ := exists_topology h hrow
  have hrelabel : ∀ other ∈ stateRows ids log.rows (ids.stateId row.state),
      log.relabelRow π other = other.relabel ids (ids.topologyId (permuted π t)) (cells (π t)) := by
    intro other hother
    refine StateOf.relabelRow_eq hids ?_
    rw [(hcomplete.same other hother).1]
    exact hstate
  refine ⟨fun other' hother' => ?_, ?_, ?_⟩
  · obtain ⟨other, hother, rfl⟩ := List.mem_map.mp (hperm.mem_iff.mp hother')
    obtain ⟨hsame, hlegal⟩ := hcomplete.same other hother
    rw [hrelabel other hother, hstate.relabelRow_eq hids]
    simp only [GraphObservedRow.relabel, hsame, hlegal, and_self]
  · have hactions : ∀ a, (∃ other ∈ stateRows ids log.rows (ids.stateId row.state),
        other.action = a) ↔ a ∈ row.legalActions := by
      intro a
      have := Finset.ext_iff.mp hcomplete.actions (ids.actionId a)
      simpa [hids.actionId.eq_iff] using this
    ext id
    simp only [List.mem_toFinset, List.mem_map, hperm.mem_iff]
    rw [hstate.relabelRow_eq hids]
    constructor
    · rintro ⟨_, ⟨other, hother, rfl⟩, rfl⟩
      have hmem := (hactions other.action).mp ⟨other, hother, rfl⟩
      refine ⟨_, List.mem_map_of_mem (mem_sortBy.mpr (List.mem_map_of_mem hmem)), ?_⟩
      rw [hrelabel other hother]
      simp only [GraphObservedRow.relabel, (hcomplete.same other hother).1]
    · rintro ⟨_, hmem, rfl⟩
      obtain ⟨move, hmove, rfl⟩ := List.mem_map.mp hmem
      obtain ⟨a, ha, rfl⟩ := List.mem_map.mp (mem_sortBy.mp hmove)
      obtain ⟨other, hother, rfl⟩ := (hactions a).mpr ha
      refine ⟨_, ⟨other, hother, rfl⟩, ?_⟩
      rw [hrelabel other hother]
      simp only [GraphObservedRow.relabel, (hcomplete.same other hother).1]
  · rw [hperm.length_eq, List.length_map, hcomplete.count, hstate.relabelRow_eq hids]
    simp [GraphObservedRow.relabel]

/-- The log under a family of permutations. -/
def relabel (hids : ids.Injective) (h : log.Admits π) : AnonymousGraphSourceLog ids where
  topologies := sortBy ids.topologyId (log.topologies.map (permuted π))
  rows := sortBy ids.rowId (log.rows.map (log.relabelRow π))
  topologies_ne := by simpa using log.topologies_ne
  topologies_sorted := pairwise_lt_sortBy (h.distinct.map hids.topologyId)
  rows_ne := by simpa using log.rows_ne
  rows_sorted := by
    refine pairwise_lt_sortBy (List.Nodup.map hids.rowId ?_)
    have hnodup : log.rows.Nodup := log.rows_sorted.imp fun hlt heq => hlt.ne (congrArg _ heq)
    exact List.Nodup.map_on (fun row hrow row' hrow' => relabelRow_inj hids h hrow hrow') hnodup
  bound := by
    intro row' hrow'
    obtain ⟨row, hrow, rfl⟩ := List.mem_map.mp (mem_sortBy.mp hrow')
    exact relabelRow_bound hids h hrow
  legal := by
    intro row' hrow'
    obtain ⟨row, hrow, rfl⟩ := List.mem_map.mp (mem_sortBy.mp hrow')
    obtain ⟨t, ht, hlegal⟩ := relabelRow_legal hids h hrow
    exact ⟨_, mem_sortBy.mpr (List.mem_map_of_mem ht), hlegal⟩
  complete := by
    intro row' hrow'
    obtain ⟨row, hrow, rfl⟩ := List.mem_map.mp (mem_sortBy.mp hrow')
    exact relabelRow_complete hids h hrow
  closed := by
    intro row' hrow' outcome' houtcome' hfailure hremaining
    obtain ⟨row, hrow, rfl⟩ := List.mem_map.mp (mem_sortBy.mp hrow')
    obtain ⟨t, -, hstate, hnext⟩ := exists_topology h hrow
    rw [hstate.relabelRow_eq hids] at houtcome'
    obtain ⟨outcome, houtcome, rfl⟩ := List.mem_map.mp houtcome'
    obtain ⟨other, hother, heq⟩ := log.closed row hrow outcome houtcome hfailure hremaining
    refine ⟨_, mem_sortBy.mpr (List.mem_map_of_mem hother), ?_⟩
    rw [state_relabelRow, hids.stateId heq, (hnext outcome houtcome).relabelState_eq hids]
    rfl

end AnonymousGraphSourceLog

end Acfqp.Coordinates
