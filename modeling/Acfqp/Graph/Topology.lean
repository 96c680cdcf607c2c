import Acfqp.Library.Checked
import Mathlib.Algebra.BigOperators.Group.List.Basic
import Mathlib.Tactic

/-!
# Graph topologies

Finite simple undirected graphs whose edges name their lower vertex first, and the merges of equal
ranks along them.
-/

namespace Acfqp.Graph

open Library

/-- What the graph modules raise. -/
inductive GraphError
  | transition (message : String)
  | core (message : String)
  | runtime (message : String)
  | index
  deriving DecidableEq, Repr

structure Edge where
  first : ℕ
  second : ℕ
  ordered : first < second

namespace Edge

def key (e : Edge) : ℕ ×ₗ ℕ := toLex (e.first, e.second)

theorem key_injective : Function.Injective key := by
  rintro ⟨first, second, _⟩ ⟨_, _, _⟩ h
  cases h
  rfl

instance : LinearOrder Edge := LinearOrder.lift' key key_injective

/-- A vertex of an edge. -/
def Joins (e : Edge) (vertex : ℕ) : Prop := e.first = vertex ∨ e.second = vertex

instance (e : Edge) (vertex : ℕ) : Decidable (e.Joins vertex) := inferInstanceAs (Decidable (_ ∨ _))

end Edge

/-- One merge along an edge, with the endpoint that survives it. -/
structure GraphAction where
  edge : Edge
  survivor : ℕ
  survivor_mem : edge.Joins survivor

namespace GraphAction

def triple (a : GraphAction) : ℕ × ℕ × ℕ := (a.edge.first, a.edge.second, a.survivor)

theorem triple_injective : Function.Injective triple := by
  rintro ⟨⟨first, second, _⟩, survivor, _⟩ ⟨⟨_, _, _⟩, _, _⟩ h
  cases h
  rfl

instance : DecidableEq GraphAction := triple_injective.decidableEq

end GraphAction

/-- Either endpoint may survive. -/
def Edge.actions (e : Edge) : List GraphAction :=
  [⟨e, e.first, .inl rfl⟩, ⟨e, e.second, .inr rfl⟩]

theorem Edge.mem_actions {e : Edge} {a : GraphAction} : a ∈ e.actions ↔ a.edge = e := by
  obtain ⟨edge, survivor, hjoins⟩ := a
  simp only [Edge.actions, List.mem_cons, List.not_mem_nil, or_false]
  constructor
  · rintro (⟨rfl, -⟩ | ⟨rfl, -⟩) <;> rfl
  · rintro rfl
    rcases hjoins with rfl | rfl
    · exact .inl rfl
    · exact .inr rfl

structure GraphTopology where
  vertexCount : ℕ
  edges : List Edge
  vertexCount_gt : 1 < vertexCount
  edges_ne : edges ≠ []
  edges_lt : ∀ e ∈ edges, e.second < vertexCount
  sorted : edges.Pairwise (· < ·)

namespace GraphTopology

variable (topology : GraphTopology)

theorem vertex_lt {e : Edge} (he : e ∈ topology.edges) :
    e.first < topology.vertexCount ∧ e.second < topology.vertexCount :=
  ⟨e.ordered.trans (topology.edges_lt e he), topology.edges_lt e he⟩

def neighbors (vertex : ℕ) : Except GraphError (Finset ℕ) := do
  require (vertex < topology.vertexCount) (.core "neighbor lookup vertex is outside the graph")
  return ((topology.edges.filter (·.Joins vertex)).map fun e =>
    if e.first = vertex then e.second else e.first).toFinset

end GraphTopology

end Acfqp.Graph

/-!
## The exact transition row

One edge between equal ranks is merged, and one rank of the spawn law appears on a vertex that the
merge leaves empty.
-/

namespace Acfqp.Graph

open Library

structure GraphState where
  ranks : List ℕ
  failure : Bool
  ranks_ne : ranks ≠ []

def GraphState.make (ranks : List ℕ) (failure : Bool) : Except GraphError GraphState :=
  if h : ranks ≠ [] then .ok ⟨ranks, failure, h⟩
  else .error (.transition "graph state must contain nonnegative integer ranks")

/-- Sorted by rank, positive, and normalized. -/
structure SpawnLaw where
  entries : List (ℕ × ℚ)
  entries_ne : entries ≠ []
  increasing : (entries.map Prod.fst).Pairwise (· < ·)
  positive : ∀ e ∈ entries, 0 < e.1 ∧ 0 < e.2
  normalized : (entries.map Prod.snd).sum = 1

structure GraphKernel where
  topology : GraphTopology
  rankCap : ℕ
  horizon : ℕ
  spawnLaw : SpawnLaw
  rankCap_pos : 0 < rankCap
  horizon_eq : horizon = 2
  ranks_le : ∀ e ∈ spawnLaw.entries, e.1 ≤ rankCap

structure TransitionAtom where
  nextState : GraphState
  probability : ℚ
  realizedRowReward : ℚ
  failure : Bool
  terminal : Bool
  spawnCell : ℕ
  spawnRank : ℕ
  probability_pos : 0 < probability
  probability_le : probability ≤ 1
  reward_nonneg : 0 ≤ realizedRowReward
  reward_le : realizedRowReward ≤ 1
  failure_eq : failure = nextState.failure
  spawnRank_pos : 0 < spawnRank

def TransitionAtom.make (nextState : GraphState) (probability realizedRowReward : ℚ)
    (failure terminal : Bool) (spawnCell spawnRank : ℕ) : Except GraphError TransitionAtom :=
  if h : (0 < probability ∧ probability ≤ 1) ∧ (0 ≤ realizedRowReward ∧ realizedRowReward ≤ 1) ∧
      failure = nextState.failure ∧ 0 < spawnRank then
    .ok ⟨nextState, probability, realizedRowReward, failure, terminal, spawnCell, spawnRank,
      h.1.1, h.1.2, h.2.1.1, h.2.1.2, h.2.2.1, h.2.2.2⟩
  else .error (.transition "exact transition atom is malformed")

namespace GraphKernel

variable (kernel : GraphKernel)

/-- The ranks of a state of the kernel. -/
def Fits (ranks : List ℕ) : Prop :=
  ranks.length = kernel.topology.vertexCount ∧ ∀ rank ∈ ranks, rank ≤ kernel.rankCap

instance (ranks : List ℕ) : Decidable (kernel.Fits ranks) := inferInstanceAs (Decidable (_ ∧ _))

def legalActionsFromRanks (ranks : List ℕ) (failure : Bool) :
    Except GraphError (List GraphAction) := do
  require (kernel.Fits ranks) (.transition "legal-action query is outside the graph kernel")
  if failure then return []
  return (kernel.topology.edges.filter fun e => 0 < ranks.getD e.first 0 ∧
    ranks.getD e.first 0 = ranks.getD e.second 0).flatMap Edge.actions

def validateState (state : GraphState) : Except GraphError Unit := do
  require (kernel.Fits state.ranks) (.transition "state is outside the graph kernel")
  let legal ← kernel.legalActionsFromRanks state.ranks false
  require (state.failure = legal.isEmpty)
    (.transition "state failure flag disagrees with legal actions")

def legalActions (state : GraphState) : Except GraphError (List GraphAction) := do
  kernel.validateState state
  kernel.legalActionsFromRanks state.ranks state.failure

def merge (state : GraphState) (action : GraphAction) :
    Except GraphError (List ℕ × List ℕ × ℚ) := do
  kernel.validateState state
  let legal ← kernel.legalActions state
  require (action ∈ legal) (.transition "transition action is not legal at its source state")
  let rank := state.ranks.getD action.edge.first 0
  let board := ((state.ranks.set action.edge.first 0).set action.edge.second 0).set action.survivor
    (min (rank + 1) kernel.rankCap)
  let empty := (List.range board.length).filter fun vertex => board.getD vertex 0 = 0
  require (empty ≠ []) (.transition "registered merge produced no spawn location")
  return (board, empty, (2 : ℚ) ^ (rank + 1) / 2 ^ (kernel.rankCap + 1) / kernel.horizon)

/-- The atom of one spawn on a merged board with `cells` empty vertices. -/
def spawnAtom (board : List ℕ) (cells : ℕ) (reward : ℚ) (remainingHorizon cell rank : ℕ)
    (rankProbability : ℚ) : Except GraphError TransitionAtom := do
  let successorRanks := board.set cell rank
  let failure := (← kernel.legalActionsFromRanks successorRanks false).isEmpty
  let nextState ← GraphState.make successorRanks failure
  TransitionAtom.make nextState (1 / cells * rankProbability) reward failure
    (failure || remainingHorizon = 1) cell rank

def exactAtoms (state : GraphState) (action : GraphAction) (remainingHorizon : ℕ) :
    Except GraphError (List TransitionAtom) := do
  require (remainingHorizon = 1 ∨ remainingHorizon = kernel.horizon)
    (.transition "remaining horizon is outside the H=2 kernel")
  let (board, empty, reward) ← kernel.merge state action
  let spawns := empty.flatMap fun cell => kernel.spawnLaw.entries.map fun entry => (cell, entry)
  let atoms ← spawns.mapM fun spawn =>
    kernel.spawnAtom board empty.length reward remainingHorizon spawn.1 spawn.2.1 spawn.2.2
  require ((atoms.map (·.probability)).sum = 1)
    (.runtime "exact H2 graph transition row is not normalized")
  return atoms

end GraphKernel

end Acfqp.Graph
