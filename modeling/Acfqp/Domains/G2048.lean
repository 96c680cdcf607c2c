import Acfqp.Core
import Acfqp.Library.Grouping

/-!
# Explicit-merge Generalized 2048

A state is a row-major square board of tile ranks. An action merges two adjacent tiles of one rank
and chooses the cell that survives; a tile then spawns in an empty cell. The eight symmetries of the
square act on cells, boards, states, actions and outcomes.
-/

namespace Acfqp.Domains

open Library

inductive G2048Status where
  | active
  | failure
  deriving DecidableEq

structure G2048State where
  board : List ℕ
  status : G2048Status
  deriving DecidableEq

/-- Merge an unordered pair, stored in increasing cell order, and retain the tile at `survivor`. -/
structure G2048Action where
  first : ℕ
  second : ℕ
  survivor : ℕ
  ordered : first < second
  survivor_mem : survivor = first ∨ survivor = second

namespace G2048Action

def triple (a : G2048Action) : ℕ × ℕ × ℕ := (a.first, a.second, a.survivor)

theorem triple_injective : Function.Injective triple := by
  rintro ⟨_, _, _, _, _⟩ ⟨_, _, _, _, _⟩ h
  cases h
  rfl

instance : DecidableEq G2048Action := triple_injective.decidableEq

def make (first second survivor : ℕ) : Except PyError G2048Action :=
  if ordered : first < second then
    if survivor_mem : survivor = first ∨ survivor = second then
      .ok ⟨first, second, survivor, ordered, survivor_mem⟩
    else .error (.valueError "survivor must be one of the merged cells")
  else .error (.valueError "action pair must be stored in increasing cell order")

@[simp] theorem make_self (a : G2048Action) : make a.first a.second a.survivor = .ok a := by
  rw [make, dif_pos a.ordered, dif_pos a.survivor_mem]

end G2048Action

/-! ## The symmetries of the square -/

inductive D4Transform where
  | identity
  | rotate90
  | rotate180
  | rotate270
  | reflect
  | reflectRotate90
  | reflectRotate180
  | reflectRotate270
  deriving DecidableEq

def transformParameters : D4Transform → Bool × ℕ
  | .identity => (false, 0)
  | .rotate90 => (false, 1)
  | .rotate180 => (false, 2)
  | .rotate270 => (false, 3)
  | .reflect => (true, 0)
  | .reflectRotate90 => (true, 1)
  | .reflectRotate180 => (true, 2)
  | .reflectRotate270 => (true, 3)

def rotateCell (size : ℕ) (cell : ℕ × ℕ) : ℕ × ℕ := (cell.2, size - 1 - cell.1)

def transformCell (cell size : ℕ) (transform : D4Transform) : Except PyError ℕ := do
  require (2 ≤ size) (.valueError "D4 transforms require a square of size at least two")
  require (cell < size * size) (.valueError "cell lies outside the square")
  let (reflected, rotations) := transformParameters transform
  let column := if reflected then size - 1 - cell % size else cell % size
  let turned := (rotateCell size)^[rotations] (cell / size, column)
  return turned.1 * size + turned.2

def transformBoard (board : List ℕ) (size : ℕ) (transform : D4Transform) :
    Except PyError (List ℕ) := do
  require (board.length = size * size) (.valueError "board length does not match square size")
  board.zipIdx.foldlM (fun transformed entry => do
    let cell ← transformCell entry.2 size transform
    return transformed.set cell entry.1) (List.replicate board.length 0)

def transformState (state : G2048State) (transform : D4Transform) (size : ℕ) :
    Except PyError G2048State := do
  let board ← transformBoard state.board size transform
  return ⟨board, state.status⟩

def transformAction (action : G2048Action) (transform : D4Transform) (size : ℕ) :
    Except PyError G2048Action := do
  let first ← transformCell action.first size transform
  let second ← transformCell action.second size transform
  let survivor ← transformCell action.survivor size transform
  G2048Action.make (min first second) (max first second) survivor

def transformOutcome (outcome : Outcome G2048State) (transform : D4Transform) (size : ℕ) :
    Except PyError (Outcome G2048State) := do
  let nextState ← transformState outcome.nextState transform size
  Outcome.make outcome.probability nextState outcome.rewardFeatures outcome.failure outcome.terminal

/-! ## The dynamics -/

def rankCapOf (size : ℕ) : ℕ := if size = 2 then 6 else 8

/-- The dynamics of one board size, with the law of the spawned ranks. -/
structure G2048Kernel where
  size : ℕ
  spawnDistribution : List (ℕ × ℚ)
  size_ge : 2 ≤ size
  spawn_rank : ∀ spawn ∈ spawnDistribution, spawn.1 ≤ rankCapOf size
  spawn_pos : ∀ spawn ∈ spawnDistribution, 0 < spawn.2
  spawn_mass : (spawnDistribution.map Prod.snd).sum = 1

namespace G2048Kernel

/-- The registered spawn law of a board size. -/
def ofSize (size : ℕ) (h : 2 ≤ size) : G2048Kernel where
  size := size
  spawnDistribution :=
    if size = 2 then [(1, 9 / 10), (2, 1 / 10)] else [(1, 4 / 5), (2, 3 / 20), (3, 1 / 20)]
  size_ge := h
  spawn_rank := by
    unfold rankCapOf
    split <;> simp
  spawn_pos := by split <;> norm_num
  spawn_mass := by split <;> norm_num

/-- The kernel constructor, which admits two sizes. -/
def make (size : ℕ) : Except PyError G2048Kernel :=
  if h : size = 2 ∨ size = 3 then .ok (ofSize size (by omega))
  else .error (.valueError "V0 G2048 size must be 2 or 3")

def safeChain : G2048Kernel where
  size := 2
  spawnDistribution := [(1, 99 / 100), (2, 1 / 100)]
  size_ge := le_rfl
  spawn_rank := by simp [rankCapOf]
  spawn_pos := by norm_num
  spawn_mass := by norm_num

variable (kernel : G2048Kernel)

def rankCap : ℕ := rankCapOf kernel.size

def cellCount : ℕ := kernel.size * kernel.size

/-- Two cells are one step apart. -/
def Adjacent (first second : ℕ) : Prop :=
  ((first / kernel.size : ℕ) - (second / kernel.size : ℕ) : ℤ).natAbs +
    ((first % kernel.size : ℕ) - (second % kernel.size : ℕ) : ℤ).natAbs = 1

instance (first second : ℕ) : Decidable (kernel.Adjacent first second) :=
  inferInstanceAs (Decidable (_ = _))

def validateState (state : G2048State) : Except PyError Unit := do
  require (state.board.length = kernel.cellCount)
    (.valueError "board size does not match kernel size")
  require (∀ rank ∈ state.board, rank ≤ kernel.rankCap)
    (.valueError "board contains a rank outside [0, R]")

def cellPairs (cellCount : ℕ) : List (ℕ × ℕ) :=
  (List.range cellCount).flatMap fun first =>
    (List.range' (first + 1) (cellCount - (first + 1))).map fun second => (first, second)

def mergesOf (board : List ℕ) (pair : ℕ × ℕ) : List G2048Action :=
  if h : pair.1 < pair.2 ∧ kernel.Adjacent pair.1 pair.2 ∧ board.getD pair.1 0 ≠ 0 ∧
      board.getD pair.1 0 = board.getD pair.2 0 then
    [⟨pair.1, pair.2, pair.1, h.1, .inl rfl⟩, ⟨pair.1, pair.2, pair.2, h.1, .inr rfl⟩]
  else []

def merges (board : List ℕ) : List G2048Action :=
  (cellPairs kernel.cellCount).flatMap (kernel.mergesOf board)

def actions (state : G2048State) : Except PyError (List G2048Action) := do
  kernel.validateState state
  return if state.status = .active then kernel.merges state.board else []

def spawnOutcome (merged : List ℕ) (reward cellProbability : ℚ) (spawn : ℕ × ℕ × ℚ) :
    Except PyError (Outcome G2048State) := do
  let nextBoard := merged.set spawn.1 spawn.2.1
  let legal ← kernel.actions ⟨nextBoard, .active⟩
  let failed := legal.isEmpty
  Outcome.make (cellProbability * spawn.2.2) ⟨nextBoard, if failed then .failure else .active⟩
    [("merge", reward)] failed failed

def mergedBoard (board : List ℕ) (action : G2048Action) : List ℕ :=
  ((board.set action.first 0).set action.second 0).set action.survivor
    (min (board.getD action.first 0 + 1) kernel.rankCap)

def emptyCells (board : List ℕ) : List ℕ :=
  (List.range board.length).filter fun cell => board.getD cell 0 = 0

def step (state : G2048State) (action : G2048Action) :
    Except PyError (List (Outcome G2048State)) := do
  kernel.validateState state
  let legal ← kernel.actions state
  require (action ∈ legal) (.valueError "action is not legal in this G2048 state")
  let rank := state.board.getD action.first 0
  let merged := kernel.mergedBoard state.board action
  let empty := emptyCells merged
  require (empty ≠ []) (.assertionError "G2048 merge unexpectedly left no empty cell")
  let reward : ℚ := 2 ^ (rank + 1) / 2 ^ (kernel.rankCap + 1)
  let outcomes ← (empty ×ˢ kernel.spawnDistribution).mapM
    (kernel.spawnOutcome merged reward (1 / empty.length))
  require ((outcomes.map (·.probability)).sum = 1)
    (.assertionError "internal error: G2048 outcome mass is not one")
  return outcomes

def isTerminal (state : G2048State) : Except PyError Bool := do
  kernel.validateState state
  return state.status = .failure

end G2048Kernel

/-! ## Survivors relative to the other tiles -/

inductive RelativeSurvivorLabel where
  | toward
  | away
  deriving DecidableEq

def RelativeSurvivorLabel.value : RelativeSurvivorLabel → String
  | .toward => "survivor:toward_nonmerged"
  | .away => "survivor:away_from_nonmerged"

section Adapter

variable (kernel : G2048Kernel) (state : G2048State)

/-- The survivor is next to a tile that is not merged. -/
def IsToward (board : List ℕ) (action : G2048Action) : Prop :=
  ∃ entry ∈ board.zipIdx, entry.1 ≠ 0 ∧ entry.2 ≠ action.first ∧ entry.2 ≠ action.second ∧
    kernel.Adjacent action.survivor entry.2

instance (board : List ℕ) (action : G2048Action) : Decidable (IsToward kernel board action) :=
  inferInstanceAs (Decidable (∃ _ ∈ _, _))

def relativeSurvivorLabel (action : G2048Action) : Except PyError RelativeSurvivorLabel := do
  let legal ← kernel.actions state
  require (action ∈ legal) (.valueError "relative-survivor label requires a legal action")
  return if IsToward kernel state.board action then .toward else .away

def relativeSurvivorLabels : Except PyError (List RelativeSurvivorLabel) := do
  let primitiveActions ← kernel.actions state
  if primitiveActions = [] then
    let terminal ← kernel.isTerminal state
    require (terminal = true)
      (.runtimeError "an active state has no primitive action; dead ends must be terminal")
    return []
  let labels ← primitiveActions.mapM (relativeSurvivorLabel kernel state)
  return sortBy (·.value) (distinct labels)

/-- The uniform law over the legal actions with a label. -/
def concretizeRelativeSurvivor (label : RelativeSurvivorLabel) :
    Except PyError (List (ℚ × G2048Action)) := do
  let legal ← kernel.actions state
  let labelled ← legal.mapM fun action => do
    let other ← relativeSurvivorLabel kernel state action
    return (action, other)
  let actions := (labelled.filter (·.2 = label)).map Prod.fst
  require (actions ≠ []) (.valueError s!"relative-survivor action '{label.value}' is unavailable")
  return actions.map fun action => (1 / actions.length, action)

end Adapter

end Acfqp.Domains
