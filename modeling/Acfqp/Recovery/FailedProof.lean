import Acfqp.Planning.Soundness
import Acfqp.Recovery.ProofGraph

/-!
# Building the failed-proof graph of a candidate plan

The obligations of the selected actions are explored from the initial cells, one stage after the
other. Each is judged by the exact one-step realizations of its action: the spread of their
rewards and failures under the audited continuation bounds, in a channel whose certificate
failed, makes it directly bad, as do an audit issue and a missing action.
-/

namespace Acfqp.Recovery

open Library Planning Abstraction

variable {S A C L : Type}

/-! ## The code -/

/-- How contents are identified: the identifier of a document under a role, and the document of
a state. -/
structure ContentIds (S : Type) where
  objectId : Document → String → String
  stateDocument : S → Document

def ContentIds.stateId (ids : ContentIds S) (state : S) : String :=
  ids.objectId (ids.stateDocument state) "state"

def nodeDocument (cell : String) (remaining : ℕ) : Document :=
  .record [("cell", .text cell), ("remaining", .number remaining)]

def ContentIds.nodeId [PyRepr C] (ids : ContentIds S) (cell : C) (remaining : ℕ) : String :=
  ids.objectId (nodeDocument (pyRepr cell) remaining) "proof-node"

section Code

variable [DecidableEq S] [PyRepr S] [PyRepr A] [DecidableEq C] [PyRepr C] [DecidableEq L]
  [PyRepr L]

def successorTv (left right : GroundRealization S C) : ℚ :=
  let leftMass := Dict.ofPairs left.successorProbabilities
  let rightMass := Dict.ofPairs right.successorProbabilities
  let support := distinct (leftMass.map Prod.fst ++ rightMass.map Prod.fst)
  (support.map fun cell =>
    |(leftMass.lookup cell).getD 0 - (rightMass.lookup cell).getD 0|).sum / 2

def unorderedPairs {α : Type} : List α → List (α × α)
  | [] => []
  | x :: rest => rest.map (fun y => (x, y)) ++ unorderedPairs rest

/-- What a proof node is judged by: the audited bounds, the issues and the failed channels. -/
structure Judgement (C : Type) where
  weights : Features
  auditBounds : List ((ℕ × C) × CellPolicyBound C)
  auditIssues : List (AuditIssue C)
  valueObligationFailed : Bool
  riskObligationFailed : Bool

/-- The record of an explored obligation and its dependencies. -/
structure RawNode (S C L : Type) where
  node : ProofNode S C L
  edges : List ProofEdge

def selectedRealizations (envelope : ExactRealizationEnvelope S A C L)
    (policy : FiniteHorizonPolicy C L) (cell : C) (remaining : ℕ) :
    Except PyError (Option L × List (GroundRealization S C)) :=
  let attempt : Except PyError (Option L × List (GroundRealization S C)) := do
    let selectedAction ← policy.action cell remaining
    let realizations ← envelope.realizations cell selectedAction
    return (some selectedAction, sortBy (fun r => (toLex (pyRepr r.state,
      toLex (pyRepr r.rewardFeatures, pyRepr r.successorProbabilities)) :
        String ×ₗ String ×ₗ String)) realizations)
  match attempt with
  | .error (.keyError _) => .ok (none, [])
  | result => result

/-- The reward and failure of a realization under the audited continuation, and whether a bound
of the continuation is missing. -/
def realizedValue (judgement : Judgement C) (remaining : ℕ) (r : GroundRealization S C) :
    (ℚ × ℚ) × Bool :=
  let start := (r.reward judgement.weights, r.failureProbability)
  if remaining ≤ 1 then (start, false)
  else
    r.successorProbabilities.foldl (fun value successor =>
      match judgement.auditBounds.lookup (remaining - 1, successor.1) with
      | none => (value.1, true)
      | some bound => ((value.1.1 + successor.2 * bound.rewardLower,
          value.1.2 + successor.2 * bound.failureUpper), value.2)) (start, false)

def compareRealizations (ids : ContentIds S) (judgement : Judgement C) (nodeId : String)
    (pair : GroundRealization S C × GroundRealization S C) : ProofWitness S :=
  let rewardGap := |pair.1.reward judgement.weights - pair.2.reward judgement.weights|
  let failureGap := |pair.1.failureProbability - pair.2.failureProbability|
  let tv := successorTv pair.1 pair.2
  ⟨ids.objectId (.record [("node_id", .text nodeId),
      ("left_state_id", .text (ids.stateId pair.1.state)),
      ("right_state_id", .text (ids.stateId pair.2.state)),
      ("normalized_reward_gap", .fraction rewardGap), ("failure_gap", .fraction failureGap),
      ("successor_tv", .fraction tv)]) "proof-witness",
    pair.1.state, pair.2.state, rewardGap, failureGap, tv⟩

def successorStates (realizations : List (GroundRealization S C)) : List (C × List (S × ℚ)) :=
  let events := realizations.flatMap fun r =>
    (r.successorProbabilities.filter fun p => 0 < p.2).map fun p => (p.1, (r.state, p.2))
  (distinct (events.map Prod.fst)).map fun cell =>
    (cell, (events.filter fun e => e.1 = cell).map Prod.snd)

/-- The dependency of a node on one successor. -/
def proofEdge (ids : ContentIds S) (nodeId : String) (remaining : ℕ)
    (realizations : List (GroundRealization S C)) (successor : C × List (S × ℚ)) : ProofEdge :=
  let targetId := ids.nodeId successor.1 (remaining - 1)
  let byState := Dict.ofPairs successor.2
  let masses := realizations.map fun r => (byState.lookup r.state).getD 0
  let supporting := sortBy id
    ((successor.2.filter fun p => 0 < p.2).map fun p => ids.stateId p.1)
  ⟨ids.objectId (.record [("source_node_id", .text nodeId), ("target_node_id", .text targetId),
      ("probability_lower", .fraction (masses.min?.getD 0)),
      ("probability_upper", .fraction (masses.max?.getD 0)),
      ("supporting_state_ids", .list (supporting.map .text))]) "proof-edge",
    nodeId, targetId, masses.min?.getD 0, masses.max?.getD 0, supporting⟩

def expandObligation (ids : ContentIds S) (judgement : Judgement C)
    (envelope : ExactRealizationEnvelope S A C L) (policy : FiniteHorizonPolicy C L)
    (remaining : ℕ) (cell : C) : Except PyError (Option (RawNode S C L) × List C) := do
  let nodeId := ids.nodeId cell remaining
  let (selectedAction, realizations) ← selectedRealizations envelope policy cell remaining
  let values := realizations.map (realizedValue judgement remaining)
  let codes := (judgement.auditIssues.filter fun issue =>
    issue.remaining = remaining ∧ issue.cell = cell).map AuditIssue.code
  let missing := values.any Prod.snd
  let issues := sortBy id (distinct (codes ++ if missing then ["BOUNDARY_PROOF_MISSING"] else []))
  let witnesses := sortBy (fun w => (toLex (ids.stateId w.leftState,
    toLex (ids.stateId w.rightState, w.witnessId)) : String ×ₗ String ×ₗ String))
    ((unorderedPairs realizations).map (compareRealizations ids judgement nodeId))
  let rewards := values.map fun v => v.1.1
  let failures := values.map fun v => v.1.2
  let rewardMin := rewards.min?.getD 0
  let rewardMax := rewards.max?.getD 0
  let failureMin := failures.min?.getD 0
  let failureMax := failures.max?.getD 0
  let directBad := (judgement.valueObligationFailed && decide (rewardMax - rewardMin ≠ 0)) ||
    (judgement.riskObligationFailed && decide (failureMax - failureMin ≠ 0)) ||
    !issues.isEmpty || selectedAction.isNone
  let bound := judgement.auditBounds.lookup (remaining, cell)
  let node : ProofNode S C L := ⟨nodeId, cell, remaining, selectedAction, rewardMin, rewardMax,
    rewardMax - rewardMin, failureMin, failureMax, failureMax - failureMin,
    (witnesses.map ProofWitness.successorTv).max?.getD 0, directBad, false,
    bound.map CellPolicyBound.rewardLower, bound.map CellPolicyBound.failureUpper, witnesses,
    issues⟩
  let successors := if selectedAction.isNone ∨ remaining ≤ 1 then []
    else sortBy (fun s => pyRepr s.1) (successorStates realizations)
  return (some ⟨node, successors.map (proofEdge ids nodeId remaining realizations)⟩,
    successors.map Prod.fst)

def inherited (direct : List String) (edges : List ProofEdge) (nodeIds : List String)
    (nodeId : String) : Option Bool :=
  let outgoing := fun id => if id ∈ nodeIds then
    (edges.filter fun edge => edge.sourceNodeId = id).map ProofEdge.targetNodeId else []
  search outgoing (fun id => id ∈ direct)
    ((outgoing nodeId).length + edges.length * edges.length + 1) [] (outgoing nodeId).reverse

def graphDocument (roots : List String) (nodes : List (ProofNode S C L)) (edges : List ProofEdge)
    (certified : Bool) : Document :=
  .record [("root_node_ids", .list (roots.map .text)),
    ("nodes", .list (nodes.map fun node => .record [("node_id", .text node.nodeId),
      ("direct_bad", .flag node.directBad), ("inherited_bad", .flag node.inheritedBad),
      ("reward_range", .fraction node.normalizedRewardRange),
      ("failure_range", .fraction node.failureRange),
      ("successor_tv", .fraction node.maxPairSuccessorTv),
      ("witness_ids", .list (node.witnesses.map fun w => .text w.witnessId))])),
    ("edge_ids", .list (edges.map fun edge => .text edge.edgeId)),
    ("audit_certified", .flag certified)]

def assembleGraph (ids : ContentIds S) (roots : List String) (certified : Bool)
    (raw : List (RawNode S C L)) : FailedProofGraph S C L :=
  let rawEdges := Dict.ofPairs ((raw.flatMap RawNode.edges).map fun edge =>
    ((edge.sourceNodeId, edge.targetNodeId), edge))
  let edges := (sortBy (fun e => (toLex e.1 : String ×ₗ String)) rawEdges).map Prod.snd
  let nodeIds := raw.map fun r => r.node.nodeId
  let direct := (raw.filter fun r => r.node.directBad).map fun r => r.node.nodeId
  let nodes := (sortBy (fun r => (toLex (-(r.node.remaining : ℤ), pyRepr r.node.cell) :
    ℤ ×ₗ String)) raw).map fun r =>
      { r.node with inheritedBad := inherited direct edges nodeIds r.node.nodeId == some true }
  ⟨nodes, edges, roots, certified,
    ids.objectId (graphDocument roots nodes edges certified) "failed-proof-graph"⟩

def buildFailedProofGraph (ids : ContentIds S) (kernel : Kernel S A) (query : QuerySpec S)
    (envelope : ExactRealizationEnvelope S A C L) (policy : FiniteHorizonPolicy C L)
    (audit : AbstractPolicyAudit C) : Except PyError (FailedProofGraph S C L) := do
  validateQuery kernel query
  require (envelope.horizon = kernel.horizon)
    (.valueError "envelope and kernel horizons disagree")
  let horizon ← queryHorizon kernel query
  let judgement : Judgement C := ⟨rewardWeights query,
    Dict.ofPairs (audit.reachableBounds.map fun bound => ((bound.remaining, bound.cell), bound)),
    audit.issues, !audit.regretUpper.any fun regret => regret ≤ audit.regretTolerance,
    !audit.liftedFailureUpper.any fun failure => failure ≤ audit.riskTolerance⟩
  let initial ← queryInitialDistribution kernel query
  let active := initial.filter fun p => 0 < p.1 ∧ 0 < horizon ∧ ¬ isStopped kernel p.2 query.goal
  let pending ← active.mapM fun p => envelope.partition.cellOf p.2
  let roots := sortBy id (distinct (pending.map fun cell => ids.nodeId cell horizon))
  let trail ← exploreAll (expandObligation ids judgement envelope policy) horizon pending
  return assembleGraph ids roots audit.certified (trail.records.map Prod.snd)

end Code

/-! ## The graph is complete -/

/-- Contents do not collide: the identifier of a proof node fixes its printed cell and stage. -/
def ContentIds.TellNodesApart (ids : ContentIds S) : Prop :=
  Function.Injective2 fun cell remaining => ids.objectId (nodeDocument cell remaining) "proof-node"

section Complete

variable [PyRepr C] {ids : ContentIds S} {judgement : Judgement C}
  {envelope : ExactRealizationEnvelope S A C L} {policy : FiniteHorizonPolicy C L}
  {roots : List String} {certified : Bool} {raw : List (RawNode S C L)}

theorem mem_nodes_assembleGraph {node : ProofNode S C L}
    (h : node ∈ (assembleGraph ids roots certified raw).nodes) :
    ∃ r ∈ raw, node.nodeId = r.node.nodeId ∧ node.remaining = r.node.remaining := by
  obtain ⟨r, hr, rfl⟩ := List.mem_map.mp h
  exact ⟨r, mem_sortBy.mp hr, rfl, rfl⟩

theorem exists_node_assembleGraph (ids : ContentIds S) (roots : List String) (certified : Bool)
    {r : RawNode S C L} (hr : r ∈ raw) :
    ∃ node ∈ (assembleGraph ids roots certified raw).nodes,
      node.nodeId = r.node.nodeId ∧ node.remaining = r.node.remaining :=
  ⟨_, List.mem_map_of_mem (mem_sortBy.mpr hr), rfl, rfl⟩

theorem mem_edges_assembleGraph {edge : ProofEdge}
    (h : edge ∈ (assembleGraph ids roots certified raw).edges) : ∃ r ∈ raw, edge ∈ r.edges := by
  obtain ⟨e, he, rfl⟩ := List.mem_map.mp h
  obtain ⟨edge, hedge, rfl⟩ := List.mem_map.mp (Dict.mem_of_mem_ofPairs (mem_sortBy.mp he))
  exact List.mem_flatMap.mp hedge

theorem step_assembleGraph (ids : ContentIds S) (roots : List String) (certified : Bool)
    {r : RawNode S C L} (hr : r ∈ raw) {edge : ProofEdge} (hedge : edge ∈ r.edges) :
    (assembleGraph ids roots certified raw).Step
      edge.sourceNodeId edge.targetNodeId := by
  have hkey : (edge.sourceNodeId, edge.targetNodeId) ∈ (Dict.ofPairs ((raw.flatMap
      RawNode.edges).map fun edge => ((edge.sourceNodeId, edge.targetNodeId), edge))).map
      Prod.fst := by
    refine Dict.mem_keys_ofPairs.mpr (List.mem_map.mpr ⟨((_, _), edge), ?_, rfl⟩)
    exact List.mem_map.mpr ⟨edge, List.mem_flatMap.mpr ⟨r, hr, hedge⟩, rfl⟩
  obtain ⟨e, he, hkey⟩ := List.mem_map.mp hkey
  obtain ⟨edge', hedge', rfl⟩ := List.mem_map.mp (Dict.mem_of_mem_ofPairs he)
  obtain ⟨hsource, htarget⟩ := Prod.mk.inj hkey
  exact ⟨edge', List.mem_map.mpr ⟨_, mem_sortBy.mpr he, rfl⟩, hsource, htarget⟩

variable [DecidableEq S] [PyRepr S] [DecidableEq C] [DecidableEq L] [PyRepr L]

/-- An obligation is recorded under its own identifier, its edges start there, and they lead to
the cells that are explored next, one stage later. -/
theorem expandObligation_spec {n : ℕ} {cell : C} {d : Option (RawNode S C L)} {cs : List C}
    (h : expandObligation ids judgement envelope policy n cell = .ok (d, cs)) :
    ∃ raw, d = some raw ∧ raw.node.nodeId = ids.nodeId cell n ∧ raw.node.remaining = n ∧
      (∀ e ∈ raw.edges, 1 < n ∧ e.sourceNodeId = ids.nodeId cell n ∧
        ∃ c ∈ cs, e.targetNodeId = ids.nodeId c (n - 1)) ∧
      ∀ c ∈ cs, ∃ e ∈ raw.edges, e.sourceNodeId = ids.nodeId cell n ∧
        e.targetNodeId = ids.nodeId c (n - 1) := by
  obtain ⟨⟨selectedAction, realizations⟩, -, h⟩ := bind_eq_ok.mp h
  cases pure_eq_ok.mp h
  refine ⟨_, rfl, rfl, rfl, fun e he => ?_, fun c hc => ?_⟩
  · obtain ⟨successor, hsuccessor, rfl⟩ := List.mem_map.mp he
    have hn : 1 < n := by
      by_contra hle
      simp [not_lt.mp hle] at hsuccessor
    exact ⟨hn, rfl, successor.1, List.mem_map_of_mem hsuccessor, rfl⟩
  · obtain ⟨successor, hsuccessor, rfl⟩ := List.mem_map.mp hc
    exact ⟨_, List.mem_map_of_mem hsuccessor, rfl, rfl⟩

theorem wellFormed_assembleGraph
    (hids : ids.TellNodesApart) {n : ℕ} {pending : List C} {trail : Library.Trail C (RawNode S C L)}
    (htrail : exploreAll (expandObligation ids judgement envelope policy) n pending = .ok trail)
    (hroots : ∀ cell ∈ pending, ids.nodeId cell n ∈ roots) :
    (assembleGraph ids roots certified (trail.records.map Prod.snd)).WellFormed := by
  set graph := assembleGraph ids roots certified (trail.records.map Prod.snd) with hgraph
  -- Every record is the expansion of its pair, and every visited pair has its record.
  have hrecord : ∀ r ∈ trail.records.map Prod.snd, ∃ cell n' cs,
      expandObligation ids judgement envelope policy n' cell = .ok (some r, cs) ∧
        (n', cell) ∈ trail.visited := by
    intro r hr
    obtain ⟨⟨⟨n', cell⟩, raw⟩, hmem, rfl⟩ := List.mem_map.mp hr
    obtain ⟨cs, hcs⟩ := exploreAll_emitted htrail hmem
    exact ⟨cell, n', cs, hcs, (exploreAll_tidy htrail).visited _ hmem⟩
  have hvisited : ∀ n' cell, (n', cell) ∈ trail.visited → ∃ r ∈ trail.records.map Prod.snd,
      ∃ cs, expandObligation ids judgement envelope policy n' cell = .ok (some r, cs) ∧
        ∀ m, n' = m + 1 → ∀ c ∈ cs, (m, c) ∈ trail.visited := by
    intro n' cell hp
    obtain ⟨d, cs, hexpand, hd, hcs⟩ := exploreAll_complete htrail hp
    obtain ⟨r, rfl, -⟩ := expandObligation_spec hexpand
    exact ⟨r, List.mem_map_of_mem (hd r rfl), cs, hexpand, hcs⟩
  refine ⟨fun m hm p hp hmp => ?_, fun edge hedge => ?_, fun node hnode => ?_⟩
  · obtain ⟨r, hr, hmid, hmrem⟩ := mem_nodes_assembleGraph hm
    obtain ⟨r', hr', hpid, hprem⟩ := mem_nodes_assembleGraph hp
    obtain ⟨cell, k, cs, hexpand, -⟩ := hrecord r hr
    obtain ⟨cell', k', cs', hexpand', -⟩ := hrecord r' hr'
    obtain ⟨_, ⟨⟩, hid, hrem, -⟩ := expandObligation_spec hexpand
    obtain ⟨_, ⟨⟩, hid', hrem', -⟩ := expandObligation_spec hexpand'
    rw [hmrem, hprem, hrem, hrem']
    exact (hids (show ids.nodeId cell k = ids.nodeId cell' k' by
      rw [← hid, ← hid', ← hmid, ← hpid, hmp])).2
  · obtain ⟨r, hr, hedge⟩ := mem_edges_assembleGraph hedge
    obtain ⟨cell, k, cs, hexpand, hk⟩ := hrecord r hr
    obtain ⟨_, ⟨⟩, hid, hrem, hedges, -⟩ := expandObligation_spec hexpand
    obtain ⟨hstage, hsource, c, hc, htarget⟩ := hedges edge hedge
    obtain ⟨j, rfl⟩ : ∃ j, k = j + 1 := ⟨k - 1, by omega⟩
    obtain ⟨r₀, hr₀, cs₀, hexpand₀, hnext⟩ := hvisited _ _ hk
    rw [hexpand] at hexpand₀
    cases hexpand₀
    obtain ⟨r', hr', cs', hexpand', -⟩ := hvisited j c (hnext j rfl c hc)
    obtain ⟨_, ⟨⟩, hid', hrem', -⟩ := expandObligation_spec hexpand'
    obtain ⟨m, hm, hmid, hmrem⟩ := exists_node_assembleGraph ids roots certified hr
    obtain ⟨p, hp, hpid, hprem⟩ := exists_node_assembleGraph ids roots certified hr'
    exact ⟨m, hm, p, hp, by rw [hmid, hid, hsource], by rw [hpid, hid', htarget]; rfl,
      by omega⟩
  · obtain ⟨r, hr, hnid, -⟩ := mem_nodes_assembleGraph hnode
    obtain ⟨cell, k, cs, hexpand, hk⟩ := hrecord r hr
    obtain ⟨_, ⟨⟩, hid, -⟩ := expandObligation_spec hexpand
    rw [hnid, hid]
    refine exploreAll_reached (P := fun k cell => ∃ root ∈ roots,
      Relation.ReflTransGen graph.Step root (ids.nodeId cell k)) htrail
      (fun cell hcell => ⟨_, hroots cell hcell, .refl⟩) ?_ (k, cell) hk
    rintro m s d cs' hs ⟨root, hroot, hpath⟩ hexpand' c hc
    obtain ⟨r', hr', cs₀, hexpand₀, -⟩ := hvisited _ _ hs
    rw [hexpand'] at hexpand₀
    cases hexpand₀
    obtain ⟨_, ⟨⟩, -, -, -, hout⟩ := expandObligation_spec hexpand'
    obtain ⟨edge, hedge, hsource, htarget⟩ := hout c hc
    refine ⟨root, hroot, hpath.tail ?_⟩
    have hstep := step_assembleGraph ids roots certified hr' hedge
    rw [hsource, htarget] at hstep
    exact hstep

/-- The frontier of every failed-proof graph that is built: directly bad obligations, none before
another, none with a directly bad one before it, that come first on the way to every other. -/
theorem buildFailedProofGraph_frontierExact [PyRepr A] {kernel : Kernel S A} {query : QuerySpec S}
    {audit : AbstractPolicyAudit C} {graph : FailedProofGraph S C L} (hids : ids.TellNodesApart)
    (h : buildFailedProofGraph ids kernel query envelope policy audit = .ok graph) :
    graph.FrontierExact (graph.frontier ids.objectId).nodes ∧
      ∀ n ∈ graph.nodes, ∃ root ∈ graph.rootNodeIds,
        Relation.ReflTransGen graph.Step root n.nodeId := by
  obtain ⟨-, -, h⟩ := bind_eq_ok.mp h
  obtain ⟨-, -, h⟩ := bind_eq_ok.mp h
  obtain ⟨horizon, -, h⟩ := bind_eq_ok.mp h
  obtain ⟨initial, -, h⟩ := bind_eq_ok.mp h
  obtain ⟨pending, -, h⟩ := bind_eq_ok.mp h
  obtain ⟨trail, htrail, h⟩ := bind_eq_ok.mp h
  obtain rfl := pure_eq_ok.mp h
  have hwell : (assembleGraph ids (sortBy id (distinct (pending.map fun cell =>
      ids.nodeId cell horizon))) audit.certified (trail.records.map Prod.snd)).WellFormed :=
    wellFormed_assembleGraph hids htrail fun cell hcell => by simpa using ⟨cell, hcell, rfl⟩
  exact ⟨hwell.frontierExact, hwell.reached⟩

end Complete

def unaryObjectId : Document → String → String
  | .record [(_, .text cell), (_, .number remaining)], _ =>
    String.ofList (List.replicate remaining.toNat '1' ++ '0' :: cell.toList)
  | _, role => role

def unaryIds : ContentIds ℕ := ⟨unaryObjectId, fun state => .number state⟩

theorem unaryIds_tellNodesApart : unaryIds.TellNodesApart := by
  have happart : ∀ (n n' : ℕ) (l l' : List Char), List.replicate n '1' ++ '0' :: l =
      List.replicate n' '1' ++ '0' :: l' → l = l' ∧ n = n' := by
    intro n
    induction n with
    | zero =>
      rintro (_ | n') l l' h
      · simpa using h
      · simp [List.replicate_succ] at h
    | succ n ih =>
      rintro (_ | n') l l' h
      · simp [List.replicate_succ] at h
      · simp only [List.replicate_succ, List.cons_append, List.cons.injEq, true_and] at h
        obtain ⟨rfl, rfl⟩ := ih n' l l' h
        exact ⟨rfl, rfl⟩
  intro c c' n n' h
  have hchars := congrArg String.toList h
  simp only [unaryIds, unaryObjectId, nodeDocument, Int.toNat_natCast, String.toList_ofList]
    at hchars
  obtain ⟨hc, rfl⟩ := happart _ _ _ _ hchars
  exact ⟨String.toList_injective hc, rfl⟩

/-- A hidden coin: its side sets the reward of the second stage, and the call at the third fails
unless it names the side. -/
def pennyKernel : Kernel ℕ String where
  horizon := 3
  initialDistribution := [(1, 0)]
  actions state := .ok (if state < 3 then ["go"] else if state < 5 then ["heads", "tails"] else [])
  step state action := .ok (match state with
    | 0 => [evenOutcome 1 0 false false, evenOutcome 2 0 false false]
    | 1 => [sureOutcome 3 1 false false]
    | 2 => [sureOutcome 4 0 false false]
    | 3 => [sureOutcome 5 0 (action != "heads") true]
    | _ => [sureOutcome 5 0 (action != "tails") true])
  isTerminal state := decide (state = 5)
  registeredRewardFeatures := none
  registeredGoals := none
  rewardUpperBound := none
  isGoal := none
  goalReached _ _ := false

def pennyQuery : QuerySpec ℕ := { gambleQuery with horizon := 3 }

/-- The two sides share a cell at each stage. -/
def pennyPartition : Partition ℕ ℕ where
  assignments := [(0, 0), (1, 1), (2, 1), (3, 2), (4, 2), (5, 3)]
  nodup := by decide
  nonempty := by decide

def callHeads : FiniteHorizonPolicy ℕ String where
  decisions := [⟨3, 0, "go", by decide⟩, ⟨2, 1, "go", Nat.two_pos⟩,
    ⟨1, 2, "heads", Nat.one_pos⟩]
  nodup := by decide

/-- The two cells that hide the side fail, one below the other, and the upper is the frontier. -/
theorem buildFailedProofGraph_frontierExact_penny :
    ∃ envelope audit, ∃ graph : FailedProofGraph ℕ ℕ String,
    buildExactRealizationEnvelope pennyKernel [0, 1, 2, 3, 4, 5] pennyPartition
      (.ofAdapter pennyKernel primitiveAdapter) = .ok envelope ∧
    auditAbstractPolicy pennyKernel pennyQuery envelope callHeads (1 / 4) [] none = .ok audit ∧
    buildFailedProofGraph unaryIds pennyKernel pennyQuery envelope callHeads audit = .ok graph ∧
    graph.auditCertified = false ∧
    graph.nodes.map (fun node => (node.cell, node.directBad)) =
      [(0, false), (1, true), (2, true)] ∧
    graph.edges.length = 2 ∧ (graph.frontier unaryObjectId).nodes.map ProofNode.cell = [1] ∧
    graph.FrontierExact (graph.frontier unaryObjectId).nodes := by
  have hfailed : (do
      let envelope ← buildExactRealizationEnvelope pennyKernel [0, 1, 2, 3, 4, 5] pennyPartition
        (.ofAdapter pennyKernel primitiveAdapter)
      let audit ← auditAbstractPolicy pennyKernel pennyQuery envelope callHeads (1 / 4) [] none
      let graph : FailedProofGraph ℕ ℕ String ←
        buildFailedProofGraph unaryIds pennyKernel pennyQuery envelope callHeads audit
      return (graph.auditCertified,
        graph.nodes.map fun node : ProofNode ℕ ℕ String => (node.cell, node.directBad),
        graph.edges.length, (graph.frontier unaryObjectId).nodes.map ProofNode.cell)) =
      .ok (false, [(0, false), (1, true), (2, true)], 2, [1]) := by decide +kernel
  obtain ⟨envelope, henvelope, hfailed⟩ := bind_eq_ok.mp hfailed
  obtain ⟨audit, haudit, hfailed⟩ := bind_eq_ok.mp hfailed
  obtain ⟨graph, hgraph, hfailed⟩ := bind_eq_ok.mp hfailed
  obtain ⟨hcertified, hnodes, hedges, hfrontier⟩ : _ ∧ _ ∧ _ ∧ _ := by
    simpa only [Prod.mk.injEq] using pure_eq_ok.mp hfailed
  exact ⟨envelope, audit, graph, henvelope, haudit, hgraph, hcertified, hnodes, hedges, hfrontier,
    (buildFailedProofGraph_frontierExact unaryIds_tellNodesApart hgraph).1⟩

end Acfqp.Recovery
