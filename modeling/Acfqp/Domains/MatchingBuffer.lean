import Acfqp.Library.Depth
import Acfqp.Planning.Common

/-!
# Layered matching buffer

Tiles of several types lie on each other. An action takes a tile whose blockers are gone into a
buffer, where three of one type match and vanish. The game fails when the buffer overflows, and
succeeds when the board is empty.
-/

namespace Acfqp.Domains

open Library Planning

inductive LMBStatus where
  | active
  | success
  | failure
  deriving DecidableEq

/-- Removed-tile bit mask, per-type buffer counts, and terminal status. -/
structure LMBState where
  removedMask : ℕ
  buffer : List ℕ
  status : LMBStatus
  deriving DecidableEq

structure LMBAction where
  tile : ℕ
  deriving DecidableEq

/-! ## Kernels -/

def blockersOf (blockers : List (Finset ℕ)) (tile : ℕ) : Finset ℕ := blockers.getD tile ∅

def blockerCycle : PyError := .valueError "blocker graph must be acyclic"

/-- The layers of the blocker graph are counted along its blockers, and are few enough. -/
def validateDagDepth (tileCount : ℕ) (blockers : List (Finset ℕ)) (maxLayers : ℕ) :
    Except PyError Unit := do
  let actualLayers ← layers (fun tile => (blockersOf blockers tile).sort (· ≤ ·)) blockerCycle
    (List.range tileCount)
  require (actualLayers ≤ maxLayers)
    (.valueError s!"blocker graph uses {actualLayers} layers, exceeding {maxLayers}")

/-- Every tile is blocked by other tiles. -/
def BlockersValid (tileCount : ℕ) (blockers : List (Finset ℕ)) : Prop :=
  ∀ tile < tileCount, tile ∉ blockersOf blockers tile ∧
    ∀ blocker ∈ blockersOf blockers tile, blocker < tileCount

instance (tileCount : ℕ) (blockers : List (Finset ℕ)) :
    Decidable (BlockersValid tileCount blockers) :=
  inferInstanceAs (Decidable (∀ tile < tileCount, _))

/-- A fully observed deterministic matching-buffer instance. -/
structure LMBKernel where
  tileTypes : List ℕ
  blockers : List (Finset ℕ)
  typeCount : ℕ
  capacity : ℕ
  maxLayers : ℕ
  tiles_ne : tileTypes.length ≠ 0
  tiles_mod : tileTypes.length % 3 = 0
  blockers_length : blockers.length = tileTypes.length
  typeCount_pos : 0 < typeCount
  maxLayers_pos : 0 < maxLayers
  types_lt : ∀ tileType ∈ tileTypes, tileType < typeCount
  blockers_valid : BlockersValid tileTypes.length blockers
  layered : validateDagDepth tileTypes.length blockers maxLayers = .ok ()

namespace LMBKernel

/-- The checks of the constructor. -/
def make (tileTypes : List ℕ) (blockers : List (Finset ℕ)) (typeCount capacity maxLayers : ℕ) :
    Except PyError LMBKernel :=
  if tiles : tileTypes.length ≠ 0 ∧ tileTypes.length % 3 = 0 then
    if lengths : blockers.length = tileTypes.length then
      if types : 0 < typeCount then
        if maxPos : 0 < maxLayers then
          if kinds : ∀ tileType ∈ tileTypes, tileType < typeCount then
            if valid : BlockersValid tileTypes.length blockers then
              match layered : validateDagDepth tileTypes.length blockers maxLayers with
              | .ok () => .ok ⟨tileTypes, blockers, typeCount, capacity, maxLayers, tiles.1,
                  tiles.2, lengths, types, maxPos, kinds, valid, layered⟩
              | .error e => .error e
            else .error (.valueError "blocker sets must contain valid other tile IDs")
          else .error (.valueError "tile type lies outside [0, type_count)")
        else .error (.valueError "max_layers must be positive")
      else .error (.valueError "type_count must be positive")
    else .error (.valueError "one blocker set is required per tile")
  else .error (.valueError "LMB tile count must be a positive multiple of three")

variable (kernel : LMBKernel)

def tileCount : ℕ := kernel.tileTypes.length

def registeredGoals : List String := ["default"]

def clearBonus : ℚ := (kernel.tileCount : ℚ) / 3

/-- One match for every remaining step, and a clear on any positive horizon. -/
def rewardUpperBound (horizon : ℕ) (rawWeights : Features) (goal : String) : Except PyError ℚ := do
  require (goal ∈ registeredGoals) (.valueError s!"unregistered goal: {pyRepr goal}")
  let matchWeight := weightOf rawWeights "match"
  let clearWeight := weightOf rawWeights "terminal_clear"
  require (0 ≤ matchWeight ∧ 0 ≤ clearWeight)
    (.valueError "registered reward weights must be nonnegative")
  let matchCount := min (kernel.tileCount / 3) horizon
  return matchWeight * matchCount +
    clearWeight * kernel.clearBonus * (if 0 < horizon then 1 else 0)

/-- Nothing removed, nothing buffered. -/
def initialState : LMBState := ⟨0, List.replicate kernel.typeCount 0, .active⟩

def initialDistribution : List (ℚ × LMBState) := [(1, kernel.initialState)]

def validateState (state : LMBState) : Except PyError Unit := do
  require (state.removedMask >>> kernel.tileCount = 0)
    (.valueError "removed-mask contains nonexistent tiles")
  require (state.buffer.length = kernel.typeCount ∧ ∀ count ∈ state.buffer, count < 3)
    (.valueError "buffer must contain per-type counts in \x7b0,1,2\x7d")

/-- The tile is on the board, and its blockers are not. -/
def Free (removedMask tile : ℕ) : Prop :=
  removedMask.testBit tile = false ∧
    ∀ blocker ∈ blockersOf kernel.blockers tile, removedMask.testBit blocker = true

instance (removedMask tile : ℕ) : Decidable (kernel.Free removedMask tile) :=
  inferInstanceAs (Decidable (_ ∧ _))

def actions (state : LMBState) : Except PyError (List LMBAction) := do
  kernel.validateState state
  if state.status ≠ .active then return []
  else return ((List.range kernel.blockers.length).filter fun tile =>
    kernel.Free state.removedMask tile).map LMBAction.mk

/-- The buffer after one more tile of a type, and whether it completed a triple. -/
def buffered (buffer : List ℕ) (tileType : ℕ) : List ℕ × Bool :=
  let count := buffer.getD tileType 0 + 1
  if count = 3 then (buffer.set tileType 0, true) else (buffer.set tileType count, false)

def after (state : LMBState) (tile : ℕ) : LMBState :=
  let removedMask := state.removedMask ||| 1 <<< tile
  let buffer := (buffered state.buffer (kernel.tileTypes.getD tile 0)).1
  ⟨removedMask, buffer,
    if kernel.capacity < buffer.sum then .failure
    else if removedMask = 1 <<< kernel.tileCount - 1 then .success
    else .active⟩

def stepFeatures (state : LMBState) (tile : ℕ) : Features :=
  (if (buffered state.buffer (kernel.tileTypes.getD tile 0)).2 then [("match", 1)] else []) ++
    if (kernel.after state tile).status = .success then [("terminal_clear", kernel.clearBonus)]
    else []

def step (state : LMBState) (action : LMBAction) : Except PyError (List (Outcome LMBState)) := do
  kernel.validateState state
  let legal ← kernel.actions state
  require (action ∈ legal) (.valueError "action is not eligible in this LMB state")
  let next := kernel.after state action.tile
  let outcome ← Outcome.make 1 next (kernel.stepFeatures state action.tile)
    (next.status = .failure) (next.status ≠ .active)
  return [outcome]

def isTerminal (state : LMBState) : Except PyError Bool := do
  kernel.validateState state
  return state.status ≠ .active

end LMBKernel

inductive BoundaryActionLabel where
  | first
  | last
  deriving DecidableEq

/-- The labels of the first and the last primitive action, or of the only one. -/
def boundaryLabels (kernel : LMBKernel) (state : LMBState) :
    Except PyError (List BoundaryActionLabel) := do
  let primitiveActions ← kernel.actions state
  if primitiveActions = [] then
    let terminal ← kernel.isTerminal state
    require (terminal = true) (.runtimeError ("an active state has no primitive action; " ++
      "the domain kernel must classify dead ends as terminal failure"))
    return []
  else if primitiveActions.length = 1 then return [.first]
  else return [.first, .last]

end Acfqp.Domains
