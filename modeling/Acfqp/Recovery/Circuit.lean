import Acfqp.Library.Acyclic
import Acfqp.Library.Grouping
import Acfqp.Core

/-!
# Causal proof circuits

The exact Bellman proof of a plan as a finite acyclic circuit: a node is a gate over the exact
realizations of its selected action, a realization depends on later nodes with positive
probability, and the roots carry the initial distribution. All arithmetic is exact.
-/

namespace Acfqp.Recovery

open Library

/-- One positive-probability Bellman dependency. -/
structure CausalSuccessor where
  nodeId : String
  probability : ℚ
  named : nodeId ≠ ""
  positive : 0 < probability

/-- One exact selected-action realization. -/
structure CausalRealization where
  realizationId : String
  immediateReward : ℚ
  immediateFailure : ℚ
  successors : List CausalSuccessor
  named : realizationId ≠ ""
  failure_nonneg : 0 ≤ immediateFailure
  ordered : (successors.map CausalSuccessor.nodeId).Pairwise (· < ·)
  mass_le : immediateFailure + (successors.map CausalSuccessor.probability).sum ≤ 1

/-- A Bellman gate. What is not recoverable is traversed but never opened to the local solver. -/
structure CausalProofNode where
  nodeId : String
  realizations : List CausalRealization
  recoverable : Bool
  capabilityCost : ℕ
  named : nodeId ≠ ""
  nonempty : realizations ≠ []
  ordered : (realizations.map CausalRealization.realizationId).Pairwise (· < ·)
  cost_pos : 0 < capabilityCost

/-- One exact initial-distribution contribution. -/
structure CausalRoot where
  nodeId : String
  probability : ℚ
  positive : 0 < probability

def dependencies (nodes : List CausalProofNode) (nodeId : String) : List String :=
  match nodes.find? fun node => node.nodeId = nodeId with
  | none => []
  | some node => node.realizations.flatMap fun r => r.successors.map CausalSuccessor.nodeId

/-- The nodes can be listed, each after everything that it depends on. -/
def CircuitAcyclic (nodes : List CausalProofNode) : Prop :=
  ∃ order : List String, SuccessorsFirst (dependencies nodes) order ∧
    order.length ≤ nodes.length ∧ ∀ node ∈ nodes, node.nodeId ∈ order

/-- A validated finite acyclic Bellman circuit. -/
structure CausalProofCircuit where
  nodes : List CausalProofNode
  roots : List CausalRoot
  nodes_nonempty : nodes ≠ []
  nodes_ordered : (nodes.map CausalProofNode.nodeId).Pairwise (· < ·)
  roots_nonempty : roots ≠ []
  roots_ordered : (roots.map CausalRoot.nodeId).Pairwise (· < ·)
  roots_known : ∀ root ∈ roots, root.nodeId ∈ nodes.map CausalProofNode.nodeId
  mass_le : (roots.map CausalRoot.probability).sum ≤ 1
  successors_known : ∀ node ∈ nodes, ∀ r ∈ node.realizations, ∀ successor ∈ r.successors,
    successor.nodeId ∈ nodes.map CausalProofNode.nodeId
  acyclic : CircuitAcyclic nodes

/-! ## Construction -/

/-- The checks of `CausalSuccessor.__post_init__`. -/
def CausalSuccessor.make (nodeId : String) (probability : ℚ) : Except PyError CausalSuccessor :=
  if named : nodeId ≠ "" then
    if positive : 0 < probability then .ok ⟨nodeId, probability, named, positive⟩
    else .error (.valueError "causal successor probability must be positive")
  else .error (.valueError "causal successor node ID must be non-empty")

/-- The checks of `CausalRealization.__post_init__`. -/
def CausalRealization.make (realizationId : String) (immediateReward immediateFailure : ℚ)
    (successors : List CausalSuccessor) : Except PyError CausalRealization :=
  let ordered := sortBy CausalSuccessor.nodeId successors
  let successorMass := (ordered.map CausalSuccessor.probability).sum
  if named : realizationId ≠ "" then
    if bounds : 0 ≤ immediateFailure ∧ immediateFailure ≤ 1 then
      if nodup : (ordered.map CausalSuccessor.nodeId).Nodup then
        if successorMass ≤ 1 then
          if mass : immediateFailure + successorMass ≤ 1 then
            .ok ⟨realizationId, immediateReward, immediateFailure, ordered, named, bounds.1,
              pairwise_lt_map_sortBy nodup, mass⟩
          else .error (.valueError
            "immediate failure plus successor probability mass exceeds one")
        else .error (.valueError "successor probability mass exceeds one")
      else .error (.valueError "a realization contains duplicate successor nodes")
    else .error (.valueError "immediate failure must lie in [0,1]")
  else .error (.valueError "causal realization ID must be non-empty")

theorem sortBy_ne_nil {α κ : Type} [LinearOrder κ] {key : α → κ} {l : List α} (h : l ≠ []) :
    sortBy key l ≠ [] := fun hnil => h (sortBy_eq_nil.mp hnil)

/-- The checks of `CausalProofNode.__post_init__`. -/
def CausalProofNode.make (nodeId : String) (realizations : List CausalRealization)
    (recoverable : Bool) (capabilityCost : ℕ) : Except PyError CausalProofNode :=
  let ordered := sortBy CausalRealization.realizationId realizations
  if named : nodeId ≠ "" then
    if nonempty : realizations ≠ [] then
      if nodup : (ordered.map CausalRealization.realizationId).Nodup then
        if cost : 0 < capabilityCost then
          .ok ⟨nodeId, ordered, recoverable, capabilityCost, named, sortBy_ne_nil nonempty,
            pairwise_lt_map_sortBy nodup, cost⟩
        else .error (.valueError "capability cost must be a positive integer")
      else .error (.valueError "causal proof node contains duplicate realization IDs")
    else .error (.valueError "causal proof node must have a realization")
  else .error (.valueError "causal proof node ID must be non-empty")

/-- The checks of `CausalRoot.__post_init__`. -/
def CausalRoot.make (nodeId : String) (probability : ℚ) : Except PyError CausalRoot :=
  if positive : 0 < probability then .ok ⟨nodeId, probability, positive⟩
  else .error (.valueError "root probability must be positive")

/-- The first dependency on a node that is not there. -/
def unknownSuccessor? (nodes : List CausalProofNode) : Option String :=
  ((nodes.flatMap CausalProofNode.realizations).flatMap fun r =>
    r.successors.map CausalSuccessor.nodeId).find? fun id =>
      id ∉ nodes.map CausalProofNode.nodeId

theorem successors_known_of_none {nodes : List CausalProofNode}
    (h : unknownSuccessor? nodes = none) : ∀ node ∈ nodes, ∀ r ∈ node.realizations,
      ∀ successor ∈ r.successors, successor.nodeId ∈ nodes.map CausalProofNode.nodeId := by
  intro node hnode r hr successor hsuccessor
  have hmem : successor.nodeId ∈ (nodes.flatMap CausalProofNode.realizations).flatMap fun r =>
      r.successors.map CausalSuccessor.nodeId :=
    List.mem_flatMap.mpr ⟨r, List.mem_flatMap.mpr ⟨node, hnode, hr⟩,
      List.mem_map_of_mem hsuccessor⟩
  simpa using List.find?_eq_none.mp h _ hmem

theorem mem_dependencies {nodes : List CausalProofNode} {a b : String}
    (h : b ∈ dependencies nodes a) : ∃ node ∈ nodes, node.nodeId = a ∧
      ∃ r ∈ node.realizations, ∃ successor ∈ r.successors, successor.nodeId = b := by
  unfold dependencies at h
  split at h
  · cases h
  · rename_i node hfind
    obtain ⟨r, hr, hb⟩ := List.mem_flatMap.mp h
    obtain ⟨successor, hsuccessor, rfl⟩ := List.mem_map.mp hb
    exact ⟨node, List.mem_of_find?_eq_some hfind, by simpa using List.find?_some hfind, r, hr,
      successor, hsuccessor, rfl⟩

/-- The exception of `_validate_acyclic`. -/
def cycleError : PyError := .valueError "causal proof circuit contains a cycle"

/-- The visits of `_validate_acyclic`. A visit nests at most as deep as there are nodes, until it
meets one that it is still visiting. -/
def validateAcyclic (nodes : List CausalProofNode) : Except PyError (List String) :=
  (nodes.map CausalProofNode.nodeId).foldlM
    (visit (dependencies nodes) cycleError (nodes.length + 1) []) []

theorem circuitAcyclic_of_validate {nodes : List CausalProofNode} {order : List String}
    (hknown : unknownSuccessor? nodes = none) (h : validateAcyclic nodes = .ok order) :
    CircuitAcyclic nodes := by
  have hclosed : ∀ v ∈ nodes.map CausalProofNode.nodeId, ∀ c ∈ dependencies nodes v,
      c ∈ nodes.map CausalProofNode.nodeId := by
    intro v _ c hc
    obtain ⟨node, hnode, -, r, hr, successor, hsuccessor, rfl⟩ := mem_dependencies hc
    exact successors_known_of_none hknown node hnode r hr successor hsuccessor
  obtain ⟨hordered, hlength, hall⟩ := visitAll_spec hclosed h
  exact ⟨order, hordered, by simpa using hlength, fun node hnode =>
    hall _ (List.mem_map_of_mem hnode)⟩

/-- The checks of `CausalProofCircuit.__init__`. -/
def CausalProofCircuit.make (nodes : List CausalProofNode) (roots : List CausalRoot) :
    Except PyError CausalProofCircuit :=
  let orderedNodes := sortBy CausalProofNode.nodeId nodes
  let orderedRoots := sortBy CausalRoot.nodeId roots
  if hnodes : orderedNodes ≠ [] then
    if hnodup : (orderedNodes.map CausalProofNode.nodeId).Nodup then
      if hroots : orderedRoots ≠ [] then
        if hrootsNodup : (orderedRoots.map CausalRoot.nodeId).Nodup then
          if hknown : ∀ root ∈ orderedRoots,
              root.nodeId ∈ orderedNodes.map CausalProofNode.nodeId then
            if hmass : (orderedRoots.map CausalRoot.probability).sum ≤ 1 then
              match hunknown : unknownSuccessor? orderedNodes with
              | some id => .error (.valueError s!"realization names unknown successor {pyRepr id}")
              | none =>
                match hvisit : validateAcyclic orderedNodes with
                | .error e => .error e
                | .ok _ => .ok ⟨orderedNodes, orderedRoots, hnodes,
                    pairwise_lt_map_sortBy hnodup, hroots,
                    pairwise_lt_map_sortBy hrootsNodup, hknown, hmass,
                      successors_known_of_none hunknown,
                    circuitAcyclic_of_validate hunknown hvisit⟩
            else .error (.valueError "root probability mass exceeds one")
          else .error (.valueError "causal root names an unknown node")
        else .error (.valueError "causal proof circuit contains duplicate root nodes")
      else .error (.valueError "causal proof circuit must contain roots")
    else .error (.valueError "causal proof circuit contains duplicate node IDs")
  else .error (.valueError "causal proof circuit must contain nodes")

end Acfqp.Recovery
