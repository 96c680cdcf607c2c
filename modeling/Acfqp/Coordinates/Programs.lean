import Acfqp.Coordinates.Views
import Acfqp.Library.Grouping
import Mathlib.Data.Finset.Sort
import Mathlib.Data.String.Basic

/-!
# Coordinate programs

The typed incidence grammar, its evaluation on a state and an action, and the closure of the grammar
under its operators.
-/

namespace Acfqp.Coordinates

open Library Acfqp.Graph

inductive GraphProgramType
  | cellSet
  | actionSet
  | cell
  | integer
  | signature
  deriving DecidableEq, Repr

inductive GraphProgramContext
  | state
  | stateAction
  deriving DecidableEq, Repr

/-- A program of the grammar; an operator takes arguments of its registered types only. -/
inductive GraphCoordinateProgram : GraphProgramType → Type
  | allCells : GraphCoordinateProgram .cellSet
  | occupiedCells : GraphCoordinateProgram .cellSet
  | legalActions : GraphCoordinateProgram .actionSet
  | survivorCell : GraphCoordinateProgram .cell
  | pairCells : GraphCoordinateProgram .cellSet
  | rankDegreeSignature : GraphCoordinateProgram .signature
  | cardinalityCells (cells : GraphCoordinateProgram .cellSet) : GraphCoordinateProgram .integer
  | cardinalityActions (actions : GraphCoordinateProgram .actionSet) :
      GraphCoordinateProgram .integer
  | adjacentFilter (vertex : GraphCoordinateProgram .cell)
      (cells : GraphCoordinateProgram .cellSet) : GraphCoordinateProgram .cellSet
  | setDifference (first second : GraphCoordinateProgram .cellSet) :
      GraphCoordinateProgram .cellSet
  deriving DecidableEq

namespace GraphCoordinateProgram

def context : {τ : GraphProgramType} → GraphCoordinateProgram τ → GraphProgramContext
  | _, allCells | _, occupiedCells | _, legalActions | _, rankDegreeSignature => .state
  | _, survivorCell | _, pairCells => .stateAction
  | _, cardinalityCells cells => cells.context
  | _, cardinalityActions actions => actions.context
  | _, adjacentFilter vertex cells =>
    if vertex.context = .stateAction ∨ cells.context = .stateAction then .stateAction else .state
  | _, setDifference first second =>
    if first.context = .stateAction ∨ second.context = .stateAction then .stateAction else .state

def depth : {τ : GraphProgramType} → GraphCoordinateProgram τ → ℕ
  | _, cardinalityCells cells => 1 + cells.depth
  | _, cardinalityActions actions => 1 + actions.depth
  | _, adjacentFilter vertex cells => 1 + max vertex.depth cells.depth
  | _, setDifference first second => 1 + max first.depth second.depth
  | _, _ => 0

def nodeCount : {τ : GraphProgramType} → GraphCoordinateProgram τ → ℕ
  | _, cardinalityCells cells => 1 + cells.nodeCount
  | _, cardinalityActions actions => 1 + actions.nodeCount
  | _, adjacentFilter vertex cells => 1 + (vertex.nodeCount + cells.nodeCount)
  | _, setDifference first second => 1 + (first.nodeCount + second.nodeCount)
  | _, _ => 1

def operationOrder : {τ : GraphProgramType} → GraphCoordinateProgram τ → ℕ
  | _, allCells => 0
  | _, occupiedCells => 1
  | _, legalActions => 2
  | _, survivorCell => 3
  | _, pairCells => 4
  | _, rankDegreeSignature => 5
  | _, cardinalityCells _ => 6
  | _, cardinalityActions _ => 7
  | _, adjacentFilter _ _ => 8
  | _, setDifference _ _ => 9

def rendered : {τ : GraphProgramType} → GraphCoordinateProgram τ → String
  | _, allCells => "all_cells"
  | _, occupiedCells => "occupied_cells"
  | _, legalActions => "legal_actions"
  | _, survivorCell => "survivor_cell"
  | _, pairCells => "pair_cells"
  | _, rankDegreeSignature => "rank_degree_signature"
  | _, cardinalityCells cells => "cardinality_cells(" ++ cells.rendered ++ ")"
  | _, cardinalityActions actions => "cardinality_actions(" ++ actions.rendered ++ ")"
  | _, adjacentFilter vertex cells =>
    "adjacent_filter(" ++ vertex.rendered ++ "," ++ cells.rendered ++ ")"
  | _, setDifference first second =>
    "set_difference(" ++ first.rendered ++ "," ++ second.rendered ++ ")"

end GraphCoordinateProgram

abbrev AnyProgram := (τ : GraphProgramType) × GraphCoordinateProgram τ

def GraphCoordinateProgram.any {τ : GraphProgramType} (program : GraphCoordinateProgram τ) :
    AnyProgram := ⟨τ, program⟩

/-! ## Evaluation -/

structure EvaluationCovariate (ι : Type) where
  topology : GraphTopology
  state : GraphStateView ι
  action : Option (GraphActionView ι)
  legalActions : List (GraphActionView ι)

def Value (ι : Type) : GraphProgramType → Type
  | .cellSet => Finset ℕ
  | .actionSet => List (GraphActionView ι)
  | .cell => ℕ
  | .integer => ℕ
  | .signature => List (ℕ × ℕ)

variable {ι : Type}

/-- The positive ranks with their vertices. -/
def occupied (ranks : List ℕ) : List (ℕ × ℕ) := ranks.zipIdx.filter (0 < ·.1)

def rankDegreeSignature (topology : GraphTopology) (ranks : List ℕ) :
    Except GraphError (List (ℕ × ℕ)) := do
  let minimum := ((ranks.filter (0 < ·)).min?).getD 0
  let degrees ← (occupied ranks).mapM fun v => do
    let neighbors ← topology.neighbors v.2
    return (v.1 - minimum, neighbors.card)
  return sortBy (fun d => toLex (d.1, d.2)) degrees

def evaluateProgram (c : EvaluationCovariate ι) :
    {τ : GraphProgramType} → GraphCoordinateProgram τ → Except GraphError (Value ι τ)
  | _, .allCells => .ok (Finset.range c.topology.vertexCount)
  | _, .occupiedCells => .ok ((occupied c.state.ranks).map (·.2)).toFinset
  | _, .legalActions => .ok c.legalActions
  | _, .survivorCell => do
    let action ← orRaise c.action (.core "action-context program lacks an action")
    .ok action.move.survivor
  | _, .pairCells => do
    let action ← orRaise c.action (.core "action-context program lacks an action")
    .ok ({action.move.edge.first, action.move.edge.second} : Finset ℕ)
  | _, .rankDegreeSignature => rankDegreeSignature c.topology c.state.ranks
  | _, .cardinalityCells cells => do
    let value ← evaluateProgram c cells
    .ok (Finset.card value)
  | _, .cardinalityActions actions => do
    let value ← evaluateProgram c actions
    .ok (List.length value)
  | _, .adjacentFilter vertex cells => do
    let vertex ← evaluateProgram c vertex
    let cells ← evaluateProgram c cells
    let neighbors ← c.topology.neighbors vertex
    .ok (neighbors ∩ cells : Finset ℕ)
  | _, .setDifference first second => do
    let first ← evaluateProgram c first
    let second ← evaluateProgram c second
    .ok (first \ second : Finset ℕ)

/-- The canonical tagged form of a value. -/
inductive ValueKey (ι : Type)
  | integer (value : ℕ)
  | cellSet (cells : List ℕ)
  | actionSet (actionIds : List ι)
  | cell (value : ℕ)
  | signature (value : List (ℕ × ℕ))
  deriving DecidableEq

def valueKey (ids : ContentIds ι) : (τ : GraphProgramType) → Value ι τ → ValueKey ι
  | .cellSet, value => .cellSet (Finset.sort value)
  | .actionSet, value => .actionSet (List.map ids.actionId value)
  | .cell, value => .cell value
  | .integer, value => .integer value
  | .signature, value => .signature value

section Closure

variable [LinearOrder ι] (programId : AnyProgram → ι)

def programOrderKey (program : AnyProgram) : ℕ ×ₗ ℕ ×ₗ ℕ ×ₗ String ×ₗ ι :=
  toLex (program.2.nodeCount, toLex (program.2.depth, toLex (program.2.operationOrder,
    toLex (program.2.rendered, programId program))))

def maxProgramDepth : ℕ := 2

def primitives : List AnyProgram :=
  [⟨_, .allCells⟩, ⟨_, .occupiedCells⟩, ⟨_, .legalActions⟩, ⟨_, .survivorCell⟩, ⟨_, .pairCells⟩,
    ⟨_, .rankDegreeSignature⟩]

def ofType (τ : GraphProgramType) (programs : List AnyProgram) : List (GraphCoordinateProgram τ) :=
  programs.filterMap fun program => if h : program.1 = τ then some (h ▸ program.2) else none

def generated (targetDepth : ℕ) (prior : List AnyProgram) : List AnyProgram :=
  let cellSets := ofType .cellSet prior
  let programs :=
    (cellSets.map fun cells => (GraphCoordinateProgram.cardinalityCells cells).any) ++
    ((ofType .actionSet prior).map fun actions =>
      (GraphCoordinateProgram.cardinalityActions actions).any) ++
    ((ofType .cell prior ×ˢ cellSets).map fun arguments =>
      (GraphCoordinateProgram.adjacentFilter arguments.1 arguments.2).any) ++
    ((cellSets ×ˢ cellSets).map fun arguments =>
      (GraphCoordinateProgram.setDifference arguments.1 arguments.2).any)
  programs.filter fun program => program.2.depth = targetDepth

def syntacticProgramClosure : List AnyProgram :=
  let byId := (List.range' 1 maxProgramDepth).foldl (fun byId targetDepth =>
    (sortBy (programOrderKey programId) (generated targetDepth (byId.map Prod.snd))).foldl
      (fun byId program => setDefault (programId program) program byId) byId)
    (Dict.ofPairs (primitives.map fun program => (programId program, program)))
  sortBy (programOrderKey programId) (byId.map Prod.snd)

end Closure

end Acfqp.Coordinates
