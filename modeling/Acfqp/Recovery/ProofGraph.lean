import Acfqp.Library.Search
import Acfqp.Library.Grouping
import Acfqp.Core

/-!
# Failed-proof graphs and their frontier

A failed-proof graph keeps every proof obligation that a candidate plan can reach and the
dependencies between them. An obligation is directly bad on its own account; its frontier is
made of the directly bad obligations that no other directly bad one comes before, found by a
search from the roots that remembers whether its path has met a directly bad obligation.
-/

namespace Acfqp.Recovery

open Library

variable {S C L : Type}

/-! ## The code -/

/-- The canonical documents that content identifiers are taken of. -/
inductive Document where
  | absent
  | flag (value : Bool)
  | number (value : ℤ)
  | fraction (value : ℚ)
  | text (value : String)
  | list (items : List Document)
  | record (fields : List (String × Document))

/-- One complete unordered comparison of two realizations at a proof node. -/
structure ProofWitness (S : Type) where
  witnessId : String
  leftState : S
  rightState : S
  normalizedRewardGap : ℚ
  failureGap : ℚ
  successorTv : ℚ

/-- A reachable proof obligation of the selected action. -/
structure ProofNode (S C L : Type) where
  nodeId : String
  cell : C
  remaining : ℕ
  selectedAction : Option L
  normalizedRewardMin : ℚ
  normalizedRewardMax : ℚ
  normalizedRewardRange : ℚ
  failureMin : ℚ
  failureMax : ℚ
  failureRange : ℚ
  maxPairSuccessorTv : ℚ
  directBad : Bool
  inheritedBad : Bool
  auditRewardLower : Option ℚ
  auditFailureUpper : Option ℚ
  witnesses : List (ProofWitness S)
  issueCodes : List String

/-- A dependency of the selected action, with exact mass bounds. -/
structure ProofEdge where
  edgeId : String
  sourceNodeId : String
  targetNodeId : String
  probabilityLower : ℚ
  probabilityUpper : ℚ
  supportingStateIds : List String

structure FailedProofFrontier (S C L : Type) where
  graphId : String
  nodes : List (ProofNode S C L)
  frontierId : String

structure FailedProofGraph (S C L : Type) where
  nodes : List (ProofNode S C L)
  edges : List ProofEdge
  rootNodeIds : List String
  auditCertified : Bool
  graphId : String

namespace FailedProofGraph

def direct (graph : FailedProofGraph S C L) : List String :=
  (graph.nodes.filter ProofNode.directBad).map ProofNode.nodeId

def outgoing (graph : FailedProofGraph S C L) (nodeId : String) : List String :=
  if nodeId ∈ graph.nodes.map ProofNode.nodeId then
    (graph.edges.filter fun edge => edge.sourceNodeId = nodeId).map ProofEdge.targetNodeId
  else []

/-- Where the search for `target` goes from a marker: past the target it does not look. -/
def nextMarkers (graph : FailedProofGraph S C L) (target : String) (marker : String × Bool) :
    List (String × Bool) :=
  if marker.1 = target then []
  else (graph.outgoing marker.1).map fun child => (child, marker.2 || marker.1 ∈ graph.direct)

/-- Whether a path from a root meets a directly bad node strictly before `target`. Every marker
is pushed by a root or by one of the two markers of an edge's source. -/
def hasStrictDirectAncestor (graph : FailedProofGraph S C L) (target : String) : Option Bool :=
  search (graph.nextMarkers target) (fun marker => marker.1 = target && marker.2)
    (graph.rootNodeIds.length +
      2 * (graph.rootNodeIds.length + graph.edges.length) * graph.edges.length + 1)
    [] (graph.rootNodeIds.map fun root => (root, false)).reverse

def frontierOrder [PyRepr C] (node : ProofNode S C L) : ℤ ×ₗ String ×ₗ String :=
  toLex (-(node.remaining : ℤ), toLex (pyRepr node.cell, node.nodeId))

/-- The directly bad nodes with no strict directly bad ancestor, unless the audit certified. -/
def selected [PyRepr C] (graph : FailedProofGraph S C L) : List (ProofNode S C L) :=
  if graph.auditCertified then []
  else sortBy frontierOrder (graph.nodes.filter fun node =>
    node.directBad && (graph.hasStrictDirectAncestor node.nodeId == some false))

def frontier [PyRepr C] (objectId : Document → String → String) (graph : FailedProofGraph S C L) :
    FailedProofFrontier S C L :=
  ⟨graph.graphId, graph.selected, objectId (.record [("graph_id", .text graph.graphId),
    ("node_ids", .list (graph.selected.map fun node => .text node.nodeId))])
    "failed-proof-frontier"⟩

/-! ## Complete dependency graphs -/

/-- `b` depends directly on `a`. -/
def Step (graph : FailedProofGraph S C L) (a b : String) : Prop :=
  ∃ edge ∈ graph.edges, edge.sourceNodeId = a ∧ edge.targetNodeId = b

/-- `a` comes strictly before `b`. -/
def Before (graph : FailedProofGraph S C L) : String → String → Prop :=
  Relation.TransGen graph.Step

/-- A complete reachable dependency graph: an identifier fixes how many stages remain, an edge
joins two nodes and takes a stage, and every node is reached from a root. -/
structure WellFormed (graph : FailedProofGraph S C L) : Prop where
  ranked : ∀ m ∈ graph.nodes, ∀ n ∈ graph.nodes, m.nodeId = n.nodeId → m.remaining = n.remaining
  joined : ∀ edge ∈ graph.edges, ∃ m ∈ graph.nodes, ∃ n ∈ graph.nodes,
    m.nodeId = edge.sourceNodeId ∧ n.nodeId = edge.targetNodeId ∧ n.remaining < m.remaining
  reached : ∀ n ∈ graph.nodes, ∃ root ∈ graph.rootNodeIds,
    Relation.ReflTransGen graph.Step root n.nodeId

variable {graph : FailedProofGraph S C L} {a b target : String}

/-- What comes before a node has more stages remaining. -/
theorem WellFormed.remaining_lt (h : graph.WellFormed) {m n : ProofNode S C L}
    (hm : m ∈ graph.nodes) (hn : n ∈ graph.nodes) (hmn : graph.Before m.nodeId n.nodeId) :
    n.remaining < m.remaining := by
  have hstep : ∀ {a b : String}, graph.Before a b → ∀ m ∈ graph.nodes, m.nodeId = a →
      ∀ n ∈ graph.nodes, n.nodeId = b → n.remaining < m.remaining := by
    intro a b hab
    induction hab with
    | single hab =>
      rintro m hm rfl n hn rfl
      obtain ⟨edge, hedge, hsource, htarget⟩ := hab
      obtain ⟨m', hm', n', hn', hm's, hn't, hlt⟩ := h.joined edge hedge
      rw [h.ranked m hm m' hm' (by rw [hm's, hsource]),
        h.ranked n hn n' hn' (by rw [hn't, htarget])]
      exact hlt
    | tail _ hbc ih =>
      rintro m hm hma n hn rfl
      obtain ⟨edge, hedge, hsource, htarget⟩ := hbc
      obtain ⟨b', hb', n', hn', hb's, hn't, hlt⟩ := h.joined edge hedge
      have hfirst := ih m hm hma b' hb' (by rw [hb's, hsource])
      rw [h.ranked n hn n' hn' (by rw [hn't, htarget])]
      omega
  exact hstep hmn m hm rfl n hn rfl

theorem WellFormed.acyclic (h : graph.WellFormed) (ha : graph.Before a a) : False := by
  obtain ⟨b, ⟨edge, hedge, rfl, -⟩, -⟩ := Relation.TransGen.head'_iff.mp ha
  obtain ⟨m, hm, -, -, hms, -⟩ := h.joined edge hedge
  rw [← hms] at ha
  exact lt_irrefl _ (h.remaining_lt hm hm ha)

theorem mem_direct : a ∈ graph.direct ↔
    ∃ n ∈ graph.nodes, n.directBad = true ∧ n.nodeId = a := by
  simp [direct, and_assoc]

theorem WellFormed.mem_outgoing (h : graph.WellFormed) : b ∈ graph.outgoing a ↔ graph.Step a b := by
  unfold outgoing Step
  split
  · simp [and_assoc]
  · rename_i hnode
    simp only [List.not_mem_nil, false_iff, not_exists, not_and]
    rintro edge hedge rfl -
    obtain ⟨m, hm, -, -, hms, -⟩ := h.joined edge hedge
    exact hnode (List.mem_map.mpr ⟨m, hm, hms⟩)

/-! ## What the search finds -/

theorem WellFormed.before_of_marker (h : graph.WellFormed) {p q : String × Bool}
    (hpath : Relation.ReflTransGen (fun p q => q ∈ graph.nextMarkers target p) p q)
    (hp : p.2 = false) (hq : q.2 = true) : ∃ d ∈ graph.direct, graph.Before d q.1 := by
  induction hpath with
  | refl => simp [hp] at hq
  | @tail q r _ hqr ih =>
    unfold nextMarkers at hqr
    split at hqr
    · cases hqr
    · obtain ⟨child, hchild, rfl⟩ := List.mem_map.mp hqr
      have hstep : graph.Step q.1 child := h.mem_outgoing.mp hchild
      rcases Bool.or_eq_true_iff.mp hq with hq | hq
      · obtain ⟨d, hd, hbefore⟩ := ih hq
        exact ⟨d, hd, hbefore.tail hstep⟩
      · exact ⟨q.1, by simpa using hq, .single hstep⟩

/-- Before the target, the search follows every dependency. -/
theorem WellFormed.mem_nextMarkers (h : graph.WellFormed) (flag : Bool) (hstep : graph.Step a b)
    (ha : a ≠ target) :
    (b, flag || (decide (a ∈ graph.direct))) ∈ graph.nextMarkers target (a, flag) := by
  rw [nextMarkers, if_neg ha]
  exact List.mem_map.mpr ⟨b, h.mem_outgoing.mpr hstep, rfl⟩

theorem WellFormed.marker_of_path (h : graph.WellFormed) {root d : String}
    (hpath : Relation.ReflTransGen graph.Step root d) (hd : graph.Before d target) :
    ∃ flag, Relation.ReflTransGen (fun p q => q ∈ graph.nextMarkers target p)
      (root, false) (d, flag) := by
  induction hpath with
  | refl => exact ⟨false, .refl⟩
  | @tail c d _ hcd ih =>
    have hc : graph.Before c target := .head hcd hd
    have hne : c ≠ target := fun heq => h.acyclic (heq ▸ hc)
    obtain ⟨flag, hflag⟩ := ih hc
    exact ⟨_, hflag.tail (h.mem_nextMarkers flag hcd hne)⟩

theorem WellFormed.marked_of_before (h : graph.WellFormed) {d : String} {flag : Bool}
    (hd : d ∈ graph.direct ∨ flag = true) (hbefore : graph.Before d target) :
    Relation.ReflTransGen (fun p q => q ∈ graph.nextMarkers target p)
      (d, flag) (target, true) := by
  induction hbefore using Relation.TransGen.head_induction_on generalizing flag with
  | @single d hstep =>
    have hne : d ≠ target := fun heq => h.acyclic (.single (heq ▸ hstep))
    have hnext := h.mem_nextMarkers flag hstep hne
    have hflag : (flag || decide (d ∈ graph.direct)) = true := by
      rcases hd with hd | hd <;> simp [hd]
    rw [hflag] at hnext
    exact .single hnext
  | @head d c hstep hrest ih =>
    have hne : d ≠ target := fun heq => h.acyclic (heq ▸ Relation.TransGen.head hstep hrest)
    have hflag : (flag || decide (d ∈ graph.direct)) = true := by
      rcases hd with hd | hd <;> simp [hd]
    exact .head (h.mem_nextMarkers flag hstep hne) (ih (.inr hflag))

theorem length_nextMarkers_le (graph : FailedProofGraph S C L) (target : String)
    (marker : String × Bool) : (graph.nextMarkers target marker).length ≤ graph.edges.length := by
  unfold nextMarkers outgoing
  split
  · exact Nat.zero_le _
  · rw [List.length_map]
    split
    · rw [List.length_map]
      exact List.length_filter_le _ _
    · exact Nat.zero_le _

theorem WellFormed.hasStrictDirectAncestor_eq (h : graph.WellFormed) (target : String) :
    ∃ found, graph.hasStrictDirectAncestor target = some found ∧
      (found = true ↔ ∃ d ∈ graph.direct, graph.Before d target) := by
  set ids := graph.rootNodeIds ++ graph.edges.map ProofEdge.targetNodeId with hids
  set markers := ids.flatMap fun id => [(id, false), (id, true)] with hmarkers
  have hmem : ∀ id ∈ ids, ∀ flag, (id, flag) ∈ markers := by
    intro id hid flag
    refine List.mem_flatMap.mpr ⟨id, hid, ?_⟩
    cases flag <;> simp
  have hclosed : ∀ m ∈ markers, ∀ t ∈ graph.nextMarkers target m, t ∈ markers := by
    intro m _ t ht
    unfold nextMarkers at ht
    split at ht
    · cases ht
    · obtain ⟨child, hchild, rfl⟩ := List.mem_map.mp ht
      obtain ⟨edge, hedge, -, rfl⟩ := h.mem_outgoing.mp hchild
      exact hmem _ (List.mem_append.mpr (.inr (List.mem_map_of_mem hedge))) _
  have hlength : markers.length = 2 * (graph.rootNodeIds.length + graph.edges.length) := by
    rw [hmarkers, List.length_flatMap]
    simp [hids, Function.comp_def]
    ring
  have hpushes : pushes (graph.nextMarkers target) markers [] ≤ _ :=
    pushes_le markers [] graph.edges.length (length_nextMarkers_le graph target)
  rw [hlength] at hpushes
  have hroots : ∀ m ∈ (graph.rootNodeIds.map fun root => (root, false)).reverse, m ∈ markers := by
    intro m hm
    obtain ⟨root, hroot, rfl⟩ := List.mem_map.mp (List.mem_reverse.mp hm)
    exact hmem _ (List.mem_append.mpr (.inl hroot)) _
  obtain ⟨found, hfound, hiff⟩ : ∃ found, graph.hasStrictDirectAncestor target = some found ∧
      (found = true ↔ GoalFrom (graph.nextMarkers target)
        (fun marker => marker.1 = target && marker.2)
        (graph.rootNodeIds.map fun root => (root, false)).reverse) := by
    refine search_eq hclosed _ hroots ?_ fun m hm => by cases hm
    simp only [List.length_reverse, List.length_map]
    omega
  refine ⟨found, hfound, hiff.trans ⟨?_, ?_⟩⟩
  · rintro ⟨p, hp, q, hpq, hq⟩
    obtain ⟨root, hroot, rfl⟩ := List.mem_map.mp (List.mem_reverse.mp hp)
    obtain ⟨rfl, hflag⟩ : q.1 = target ∧ q.2 = true := by simpa using hq
    exact h.before_of_marker hpq rfl hflag
  · rintro ⟨d, hd, hbefore⟩
    obtain ⟨n, hn, -, rfl⟩ := mem_direct.mp hd
    obtain ⟨root, hroot, hpath⟩ := h.reached n hn
    obtain ⟨flag, hflag⟩ := h.marker_of_path hpath hbefore
    refine ⟨(root, false), by simpa using hroot, (target, true), ?_, by simp⟩
    exact hflag.trans (h.marked_of_before (.inl hd) hbefore)

variable [PyRepr C]

theorem WellFormed.mem_selected (h : graph.WellFormed) {n : ProofNode S C L} :
    n ∈ graph.selected ↔ graph.auditCertified = false ∧ n ∈ graph.nodes ∧ n.directBad = true ∧
      ∀ d ∈ graph.direct, ¬ graph.Before d n.nodeId := by
  obtain ⟨found, hfound, hiff⟩ := h.hasStrictDirectAncestor_eq n.nodeId
  unfold selected
  cases graph.auditCertified with
  | true => simp
  | false =>
    simp only [Bool.false_eq_true, if_false, mem_sortBy, List.mem_filter, Bool.and_eq_true,
      beq_iff_eq, hfound, Option.some.injEq, true_and]
    refine and_congr_right fun _ => and_congr_right fun _ => ?_
    cases found with
    | true =>
      obtain ⟨d, hd, hbefore⟩ := hiff.mp rfl
      simpa using ⟨d, hd, hbefore⟩
    | false => simpa using hiff

/-- What the frontier of a failed proof is: directly bad nodes, none before another and none with
a directly bad node before it, that come first wherever a directly bad node is reached. -/
structure FrontierExact (graph : FailedProofGraph S C L) (nodes : List (ProofNode S C L)) :
    Prop where
  directBad : ∀ n ∈ nodes, n ∈ graph.nodes ∧ n.directBad = true
  antichain : ∀ m ∈ nodes, ∀ n ∈ nodes, ¬ graph.Before m.nodeId n.nodeId
  first : ∀ n ∈ nodes, ∀ m ∈ graph.nodes, m.directBad = true → ¬ graph.Before m.nodeId n.nodeId
  covers : graph.auditCertified = false → ∀ n ∈ graph.nodes, n.directBad = true →
    n ∈ nodes ∨ ∃ m ∈ nodes, graph.Before m.nodeId n.nodeId

/-- In a complete graph, a directly bad node outside the frontier has one before it, and going
back from bad node to bad node ends in the frontier. -/
theorem WellFormed.frontierExact (h : graph.WellFormed) : graph.FrontierExact graph.selected where
  directBad n hn := by
    obtain ⟨-, hmem, hbad, -⟩ := h.mem_selected.mp hn
    exact ⟨hmem, hbad⟩
  antichain m hm n hn hbefore := by
    obtain ⟨-, hmem, hbad, -⟩ := h.mem_selected.mp hm
    obtain ⟨-, -, -, hfirst⟩ := h.mem_selected.mp hn
    exact hfirst _ (mem_direct.mpr ⟨m, hmem, hbad, rfl⟩) hbefore
  first n hn m hm hbad hbefore := by
    obtain ⟨-, -, -, hfirst⟩ := h.mem_selected.mp hn
    exact hfirst _ (mem_direct.mpr ⟨m, hm, hbad, rfl⟩) hbefore
  covers hfailed := by
    obtain ⟨stages, hstages⟩ : ∃ stages, ∀ n ∈ graph.nodes, n.remaining ≤ stages :=
      ⟨(graph.nodes.map ProofNode.remaining).sum, fun n hn =>
        List.single_le_sum (by simp) _ (List.mem_map_of_mem hn)⟩
    -- By induction on how many stages lie between the node and the earliest one possible.
    suffices ∀ k, ∀ n ∈ graph.nodes, stages - n.remaining ≤ k → n.directBad = true →
        n ∈ graph.selected ∨ ∃ m ∈ graph.selected, graph.Before m.nodeId n.nodeId from
      fun n hn => this _ n hn le_rfl
    intro k
    induction k with
    | zero =>
      intro n hn hk hbad
      refine .inl (h.mem_selected.mpr ⟨hfailed, hn, hbad, fun d hd hbefore => ?_⟩)
      obtain ⟨m, hm, -, rfl⟩ := mem_direct.mp hd
      have hlt := h.remaining_lt hm hn hbefore
      have := hstages m hm
      omega
    | succ k ih =>
      intro n hn hk hbad
      by_cases hfirst : ∀ d ∈ graph.direct, ¬ graph.Before d n.nodeId
      · exact .inl (h.mem_selected.mpr ⟨hfailed, hn, hbad, hfirst⟩)
      · push Not at hfirst
        obtain ⟨d, hd, hbefore⟩ := hfirst
        obtain ⟨m, hm, hmbad, rfl⟩ := mem_direct.mp hd
        have hlt := h.remaining_lt hm hn hbefore
        have hle := hstages m hm
        rcases ih m hm (by omega) hmbad with hsel | ⟨p, hp, hpm⟩
        · exact .inr ⟨m, hsel, hbefore⟩
        · exact .inr ⟨p, hp, hpm.trans hbefore⟩

end FailedProofGraph

end Acfqp.Recovery
