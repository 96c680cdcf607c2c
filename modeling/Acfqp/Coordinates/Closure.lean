import Acfqp.Coordinates.Invariance

/-!
# The closure of the grammar

The closure holds the programs of bounded depth and no others. Its integer programs count a cell set
of depth one or the legal actions.
-/

namespace Acfqp.Coordinates

open Library Acfqp.Graph

/-! ## Membership -/

theorem mem_ofType_iff {τ : GraphProgramType} {programs : List AnyProgram}
    {p : GraphCoordinateProgram τ} : p ∈ ofType τ programs ↔ p.any ∈ programs := by
  constructor
  · intro h
    obtain ⟨⟨τ', q⟩, hq, heq⟩ := List.mem_filterMap.mp h
    by_cases hτ : τ' = τ
    · subst hτ
      simp only [dite_true, Option.some.injEq] at heq
      exact heq ▸ hq
    · simp [hτ] at heq
  · intro h
    exact List.mem_filterMap.mpr ⟨_, h, by simp [GraphCoordinateProgram.any]⟩

theorem mem_primitives {p : AnyProgram} : p ∈ primitives ↔ p.2.depth = 0 := by
  obtain ⟨τ, p⟩ := p
  cases p <;> simp [primitives, GraphCoordinateProgram.depth]

theorem mem_generated {depth : ℕ} {prior : List AnyProgram}
    (hprior : ∀ p : AnyProgram, p ∈ prior ↔ p.2.depth ≤ depth) {p : AnyProgram} :
    p ∈ generated (depth + 1) prior ↔ p.2.depth = depth + 1 := by
  have hmem : ∀ {τ : GraphProgramType} {q : GraphCoordinateProgram τ},
      q ∈ ofType τ prior ↔ q.depth ≤ depth := fun {_ q} => mem_ofType_iff.trans (hprior q.any)
  unfold generated
  rw [List.mem_filter, decide_eq_true_iff, and_iff_right_iff_imp]
  obtain ⟨τ, p⟩ := p
  intro hdepth
  simp only [List.mem_append, List.mem_map, hmem]
  cases p with
  | allCells | occupiedCells | legalActions | survivorCell | pairCells | rankDegreeSignature =>
    simp [GraphCoordinateProgram.depth] at hdepth
  | cardinalityCells cells =>
    have hdepth : 1 + cells.depth = depth + 1 := hdepth
    exact .inl (.inl (.inl ⟨cells, by omega, rfl⟩))
  | cardinalityActions actions =>
    have hdepth : 1 + actions.depth = depth + 1 := hdepth
    exact .inl (.inl (.inr ⟨actions, by omega, rfl⟩))
  | adjacentFilter vertex cells =>
    have hdepth : 1 + max vertex.depth cells.depth = depth + 1 := hdepth
    refine .inl (.inr ⟨(vertex, cells), List.mem_product.mpr ⟨?_, ?_⟩, rfl⟩)
    · apply hmem.mpr
      omega
    · apply hmem.mpr
      omega
  | setDifference first second =>
    have hdepth : 1 + max first.depth second.depth = depth + 1 := hdepth
    refine .inr ⟨(first, second), List.mem_product.mpr ⟨?_, ?_⟩, rfl⟩
    · apply hmem.mpr
      omega
    · apply hmem.mpr
      omega

section Closure

variable {ι : Type} [LinearOrder ι] {programId : AnyProgram → ι}

theorem mem_closure_rounds (hprogram : Function.Injective programId) (rounds : ℕ) :
    let byId := (List.range' 1 rounds).foldl (fun byId targetDepth =>
      (sortBy (programOrderKey programId) (generated targetDepth (byId.map Prod.snd))).foldl
        (fun byId program => setDefault (programId program) program byId) byId)
      (Dict.ofPairs (primitives.map fun program => (programId program, program)))
    Keyed programId byId ∧
      ∀ p : AnyProgram, p ∈ byId.map Prod.snd ↔ p.2.depth ≤ rounds := by
  induction rounds with
  | zero =>
    refine ⟨keyed_ofPairs primitives, fun p => ?_⟩
    rw [List.range'_zero, List.foldl_nil, mem_values_ofPairs hprogram, mem_primitives,
      Nat.le_zero]
  | succ rounds ih =>
    obtain ⟨hkeyed, hmem⟩ := ih
    rw [List.range'_concat, List.foldl_concat, mul_comm, mul_one, add_comm 1 rounds]
    refine ⟨hkeyed.foldl _, fun p => ?_⟩
    rw [hkeyed.mem_foldl hprogram, hmem, mem_sortBy, mem_generated hmem]
    omega

theorem mem_syntacticProgramClosure (hprogram : Function.Injective programId) {p : AnyProgram} :
    p ∈ syntacticProgramClosure programId ↔ p.2.depth ≤ maxProgramDepth := by
  unfold syntacticProgramClosure
  rw [mem_sortBy]
  exact (mem_closure_rounds hprogram maxProgramDepth).2 p

end Closure

/-! ## Integer programs -/

namespace GraphCoordinateProgram

def actionCount : GraphCoordinateProgram .integer := cardinalityActions legalActions

theorem eq_legalActions (p : GraphCoordinateProgram .actionSet) : p = legalActions := by
  cases p
  rfl

theorem eq_survivorCell (p : GraphCoordinateProgram .cell) : p = survivorCell := by
  cases p
  rfl

theorem integer_cases (p : GraphCoordinateProgram .integer) :
    p = actionCount ∨ ∃ cells, p = cardinalityCells cells := by
  cases p with
  | cardinalityCells cells => exact .inr ⟨cells, rfl⟩
  | cardinalityActions actions => exact .inl (by rw [eq_legalActions actions]; rfl)

theorem nodeCount_cells {cells : GraphCoordinateProgram .cellSet} (h : cells.depth ≤ 1) :
    cells.nodeCount = 1 + 2 * cells.depth := by
  cases cells with
  | allCells | occupiedCells | pairCells => rfl
  | adjacentFilter vertex cells =>
    obtain rfl := eq_survivorCell vertex
    cases cells <;> simp_all [depth, nodeCount]
  | setDifference first second =>
    cases first <;> cases second <;> simp_all [depth, nodeCount]

/-- An integer program of the closure has two nodes and depth one, or four and depth two. -/
theorem nodeCount_integer {p : GraphCoordinateProgram .integer} (h : p.depth ≤ maxProgramDepth) :
    p.nodeCount = 2 * p.depth := by
  obtain rfl | ⟨cells, rfl⟩ := p.integer_cases
  · rfl
  · simp only [depth, maxProgramDepth] at h
    simp only [depth, nodeCount, nodeCount_cells (show cells.depth ≤ 1 by omega)]
    omega

/-- Only the number of legal actions stands at another place of the grammar. -/
theorem operationOrder_integer {p : GraphCoordinateProgram .integer} (h : p ≠ actionCount) :
    p.operationOrder = 6 := by
  obtain rfl | ⟨cells, rfl⟩ := p.integer_cases
  · exact absurd rfl h
  · rfl

end GraphCoordinateProgram

end Acfqp.Coordinates

/-!
## Values of the programs on a log

Which programs have a value on every covariate of a log, and when two coordinates have the same
signature there.
-/

namespace Acfqp.Coordinates

open Library Acfqp.Graph

variable {ι : Type}

theorem neighbors_eq_ok {topology : GraphTopology} {v : ℕ} :
    (∃ cells, topology.neighbors v = .ok cells) ↔ v < topology.vertexCount := by
  constructor
  · rintro ⟨cells, h⟩
    obtain ⟨_, hv, -⟩ := bind_eq_ok.mp h
    simpa using hv
  · intro h
    exact ⟨_, bind_eq_ok.mpr ⟨(), require_eq_ok.mpr h, rfl⟩⟩

/-- The signature exists exactly when the positive ranks stand at vertices. -/
theorem rankDegreeSignature_returns {topology : GraphTopology} {ranks : List ℕ} :
    (∃ signature, rankDegreeSignature topology ranks = .ok signature) ↔
      ∀ e ∈ occupied ranks, e.2 < topology.vertexCount := by
  constructor
  · rintro ⟨signature, h⟩ e he
    obtain ⟨degrees, hdegrees, -⟩ := bind_eq_ok.mp h
    obtain ⟨_, -, hdegree⟩ := exists_of_mapM hdegrees he
    obtain ⟨cells, hcells, -⟩ := bind_eq_ok.mp hdegree
    exact neighbors_eq_ok.mp ⟨cells, hcells⟩
  · intro h
    obtain ⟨degrees, hdegrees⟩ := mapM_returns (f := fun v : ℕ × ℕ => do
        let neighbors ← topology.neighbors v.2
        return (v.1 - ((ranks.filter (0 < ·)).min?).getD 0, neighbors.card))
      fun e he => by
        obtain ⟨cells, hcells⟩ := neighbors_eq_ok.mpr (h e he)
        exact ⟨_, bind_eq_ok.mpr ⟨cells, hcells, rfl⟩⟩
    exact ⟨_, bind_eq_ok.mpr ⟨degrees, hdegrees, rfl⟩⟩

/-- Only the signature of ranks reads outside the topology, and only actions can be missing. -/
theorem evaluateProgram_returns (c : EvaluationCovariate ι) {τ : GraphProgramType}
    (p : GraphCoordinateProgram τ)
    (hsignature : τ = .signature → ∀ e ∈ occupied c.state.ranks, e.2 < c.topology.vertexCount)
    (haction : p.context = .stateAction →
      ∃ a, c.action = some a ∧ a.move.survivor < c.topology.vertexCount) :
    ∃ v, evaluateProgram c p = .ok v := by
  induction p with
  | allCells | occupiedCells | legalActions => exact ⟨_, rfl⟩
  | survivorCell | pairCells =>
    obtain ⟨a, ha, -⟩ := haction rfl
    exact ⟨_, bind_eq_ok.mpr ⟨a, by rw [ha]; rfl, rfl⟩⟩
  | rankDegreeSignature => exact rankDegreeSignature_returns.mpr (hsignature rfl)
  | cardinalityCells cells ih =>
    obtain ⟨v, hv⟩ := ih nofun haction
    exact ⟨_, bind_eq_ok.mpr ⟨v, hv, rfl⟩⟩
  | cardinalityActions actions ih =>
    obtain ⟨v, hv⟩ := ih nofun haction
    exact ⟨_, bind_eq_ok.mpr ⟨v, hv, rfl⟩⟩
  | adjacentFilter vertex cells _ ih =>
    obtain rfl := vertex.eq_survivorCell
    obtain ⟨a, ha, hvertex⟩ := haction rfl
    obtain ⟨v, hv⟩ := ih nofun fun _ => ⟨a, ha, hvertex⟩
    obtain ⟨neighbors, hneighbors⟩ := neighbors_eq_ok.mpr hvertex
    exact ⟨_, bind_eq_ok.mpr ⟨a.move.survivor, bind_eq_ok.mpr ⟨a, by rw [ha]; rfl, rfl⟩,
      bind_eq_ok.mpr ⟨v, hv, bind_eq_ok.mpr ⟨neighbors, hneighbors, rfl⟩⟩⟩⟩
  | setDifference first second ih ih' =>
    obtain ⟨v, hv⟩ := ih nofun fun hcontext =>
      haction (by simp [GraphCoordinateProgram.context, hcontext])
    obtain ⟨v', hv'⟩ := ih' nofun fun hcontext =>
      haction (by simp [GraphCoordinateProgram.context, hcontext])
    exact ⟨_, bind_eq_ok.mpr ⟨v, hv, bind_eq_ok.mpr ⟨v', hv', rfl⟩⟩⟩

/-! ## Covariates of a log -/

variable [LinearOrder ι]

namespace AnonymousGraphSourceLog

section Covariates

variable {ids : ContentIds ι} {log : AnonymousGraphSourceLog ids}

structure CovariateOf (log : AnonymousGraphSourceLog ids) (s : GraphStateView ι)
    (c : EvaluationCovariate ι) : Prop where
  state : c.state = s
  topology : log.topologyAt s.topologyId = .ok c.topology
  action : c.action = none
  value : ∀ p, log.stateProgramValue p s = evaluateProgram c p

theorem covariateOf {s : GraphStateView ι} {c : EvaluationCovariate ι}
    (h : (do
      let topology ← log.topologyAt s.topologyId
      let legal ← catalogue ids topology s
      return (⟨topology, s, none, legal⟩ : EvaluationCovariate ι)) = .ok c) :
    log.CovariateOf s c := by
  obtain ⟨t, ht, h⟩ := bind_eq_ok.mp h
  obtain ⟨legal, hlegal, h⟩ := bind_eq_ok.mp h
  cases h
  refine ⟨rfl, ht, rfl, fun p => ?_⟩
  unfold stateProgramValue
  rw [ht]
  change (catalogue ids t s >>= _) = _
  rw [hlegal]
  rfl

theorem exists_state (hids : ids.Injective) {states : List (EvaluationCovariate ι)}
    (h : log.stateCovariates = .ok states) {c : EvaluationCovariate ι} (hc : c ∈ states) :
    ∃ s ∈ log.namedStates, log.CovariateOf s c := by
  obtain ⟨s, hs, hbuild⟩ := mem_of_mapM h hc
  exact ⟨s, (mem_values_ofPairs hids.stateId).mp (mem_sortBy.mp hs), covariateOf hbuild⟩

theorem exists_stateCovariate (hids : ids.Injective) {states : List (EvaluationCovariate ι)}
    (h : log.stateCovariates = .ok states) {s : GraphStateView ι} (hs : s ∈ log.namedStates) :
    ∃ c ∈ states, log.CovariateOf s c := by
  obtain ⟨c, hc, hbuild⟩ := exists_of_mapM h
    (mem_sortBy.mpr ((mem_values_ofPairs hids.stateId).mpr hs))
  exact ⟨c, hc, covariateOf hbuild⟩

/-- The values of a coordinate are those on the covariates. -/
theorem stateProgramValue_eq_iff (hids : ids.Injective) {states : List (EvaluationCovariate ι)}
    (h : log.stateCovariates = .ok states) {p q : GraphCoordinateProgram .integer} :
    (∀ s ∈ log.namedStates, log.stateProgramValue p s = log.stateProgramValue q s) ↔
      ∀ c ∈ states, evaluateProgram c p = evaluateProgram c q := by
  constructor
  · intro hall c hc
    obtain ⟨s, hs, hof⟩ := exists_state hids h hc
    rw [← hof.value, ← hof.value]
    exact hall s hs
  · intro hall s hs
    obtain ⟨c, hc, hof⟩ := exists_stateCovariate hids h hs
    rw [hof.value, hof.value]
    exact hall c hc

theorem topologyAt_row (hids : ids.Injective) {row : GraphObservedRow ι} (hrow : row ∈ log.rows) :
    ∃ t, log.topologyAt row.state.topologyId = .ok t ∧
      row.action.move.survivor < t.vertexCount := by
  obtain ⟨t, ht, hlegal⟩ := log.legal row hrow
  refine ⟨t, hlegal.topologyId ▸ topologyAt_eq hids ht, ?_⟩
  obtain ⟨hfirst, hsecond⟩ := t.vertex_lt hlegal.edge_mem
  rcases row.action.move.survivor_mem with hvertex | hvertex
  · rwa [← hvertex]
  · rwa [← hvertex]

theorem actionCovariates_returns (hids : ids.Injective) :
    ∃ actions, log.actionCovariates = .ok actions := by
  refine mapM_returns fun row hrow => ?_
  obtain ⟨t, ht, -⟩ := topologyAt_row hids hrow
  exact ⟨_, bind_eq_ok.mpr ⟨t, ht, rfl⟩⟩

theorem mem_actionCovariates (hids : ids.Injective) {actions : List (EvaluationCovariate ι)}
    (h : log.actionCovariates = .ok actions) {c : EvaluationCovariate ι} (hc : c ∈ actions) :
    (∃ a, c.action = some a ∧ a.move.survivor < c.topology.vertexCount) ∧
      ∃ row ∈ log.rows, ∀ p, log.actionProgramValue p row = evaluateProgram c p := by
  obtain ⟨row, hrow, hbuild⟩ := mem_of_mapM h hc
  obtain ⟨t, ht, hsurvivor⟩ := topologyAt_row hids hrow
  rw [ht] at hbuild
  cases hbuild
  refine ⟨⟨row.action, rfl, hsurvivor⟩, row, hrow, fun p => ?_⟩
  unfold actionProgramValue
  rw [ht]
  rfl

theorem actionProgramValue_eq_iff (hids : ids.Injective) {actions : List (EvaluationCovariate ι)}
    (h : log.actionCovariates = .ok actions) {p q : GraphCoordinateProgram .integer} :
    (∀ row ∈ log.rows, log.actionProgramValue p row = log.actionProgramValue q row) ↔
      ∀ c ∈ actions, evaluateProgram c p = evaluateProgram c q := by
  constructor
  · intro hall c hc
    obtain ⟨-, row, hrow, hvalue⟩ := mem_actionCovariates hids h hc
    rw [← hvalue, ← hvalue]
    exact hall row hrow
  · intro hall row hrow
    obtain ⟨c, hc, hbuild⟩ := exists_of_mapM h hrow
    obtain ⟨t, ht, hbuild⟩ := bind_eq_ok.mp hbuild
    cases hbuild
    unfold actionProgramValue
    rw [ht]
    exact hall _ hc

end Covariates

end AnonymousGraphSourceLog

end Acfqp.Coordinates
