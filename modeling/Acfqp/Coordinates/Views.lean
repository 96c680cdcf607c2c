import Acfqp.Graph.Topology
import Acfqp.Library.Ordered
import Mathlib.Data.Rat.Defs
import Mathlib.Algebra.Order.Ring.Rat

/-!
# Anonymous source logs

The observed rows of states and actions of some topologies, which refer to one another by content
identifiers.
-/

namespace Acfqp.Coordinates

open Library Acfqp.Graph

def registeredHorizon : ℕ := 2

def registeredRankCap : ℕ := 6

/-! ## Views -/

structure GraphStateView (ι : Type) where
  topologyId : ι
  ranks : List ℕ
  failure : Bool
  remainingHorizon : ℕ
  ranks_length : 1 < ranks.length
  ranks_le : ∀ rank ∈ ranks, rank ≤ registeredRankCap
  horizon_le : remainingHorizon ≤ registeredHorizon

structure GraphActionView (ι : Type) where
  stateId : ι
  move : GraphAction
  deriving DecidableEq

def actionKey (a : GraphAction) : Edge ×ₗ ℕ := toLex (a.edge, a.survivor)

structure GraphOutcomeView (ι : Type) where
  nextState : GraphStateView ι
  probability : ℚ
  normalizedReward : ℚ
  failure : Bool
  terminal : Bool
  probability_mem : 0 < probability ∧ probability ≤ 1
  reward_mem : 0 ≤ normalizedReward ∧ normalizedReward ≤ 1
  failure_eq : failure = nextState.failure
  terminal_of_failure : failure = true → terminal = true

structure GraphObservedRow (ι : Type) where
  state : GraphStateView ι
  action : GraphActionView ι
  legalActions : List (GraphActionView ι)
  outcomes : List (GraphOutcomeView ι)

namespace GraphStateView

variable {ι : Type}

def payload (s : GraphStateView ι) : ι × List ℕ × Bool × ℕ :=
  (s.topologyId, s.ranks, s.failure, s.remainingHorizon)

theorem payload_injective : Function.Injective (payload (ι := ι)) := by
  rintro ⟨_, _, _, _, _, _, _⟩ ⟨_, _, _, _, _, _, _⟩ h
  cases h
  rfl

instance [DecidableEq ι] : DecidableEq (GraphStateView ι) := payload_injective.decidableEq

end GraphStateView

/-- The content identifiers of the views and of the rows. -/
structure ContentIds (ι : Type) where
  topologyId : GraphTopology → ι
  stateId : GraphStateView ι → ι
  actionId : GraphActionView ι → ι
  rowId : GraphObservedRow ι → ι

structure ContentIds.Injective {ι : Type} (ids : ContentIds ι) : Prop where
  topologyId : Function.Injective ids.topologyId
  stateId : Function.Injective ids.stateId
  actionId : Function.Injective ids.actionId
  rowId : Function.Injective ids.rowId

/-- What binds a row: an active state, one of its legal actions in canonical order, and a
distribution over states of the same topology with one step less to go. -/
@[mk_iff] structure GraphObservedRow.Bound {ι : Type} (ids : ContentIds ι)
    (row : GraphObservedRow ι) :
    Prop where
  active : row.state.failure = false
  remaining : 0 < row.state.remainingHorizon
  action_state : row.action.stateId = ids.stateId row.state
  action_mem : row.action ∈ row.legalActions
  ordered : row.legalActions.Pairwise fun a b => actionKey a.move < actionKey b.move
  outcomes_ne : row.outcomes ≠ []
  normalized : (row.outcomes.map (·.probability)).sum = 1
  successors : ∀ outcome ∈ row.outcomes, outcome.nextState.topologyId = row.state.topologyId ∧
    outcome.nextState.remainingHorizon + 1 = row.state.remainingHorizon

/-! ## Legal actions -/

def rankAt (ranks : List ℕ) (vertex : ℕ) : Except GraphError ℕ := orRaise ranks[vertex]? .index

/-- Equal positive ranks merge; the second rank is only read after a positive first one. -/
def mergeable (ranks : List ℕ) (e : Edge) : Except GraphError Bool := do
  let first ← rankAt ranks e.first
  if 0 < first then
    let second ← rankAt ranks e.second
    return decide (first = second)
  else
    return false

def legalActionTuples (topology : GraphTopology) (ranks : List ℕ) :
    Except GraphError (List GraphAction) := do
  let merges ← topology.edges.mapM fun e => do
    let legal ← mergeable ranks e
    return if legal then e.actions else []
  return merges.flatten

section Log

variable {ι : Type} [LinearOrder ι] (ids : ContentIds ι)

def legalActionViews (topology : GraphTopology) (state : GraphStateView ι) :
    Except GraphError (List (GraphActionView ι)) := do
  let legal ← legalActionTuples topology state.ranks
  return legal.map fun move => ⟨ids.stateId state, move⟩

def stateRows (rows : List (GraphObservedRow ι)) (stateId : ι) : List (GraphObservedRow ι) :=
  rows.filter fun row => ids.stateId row.state = stateId

@[mk_iff] structure GraphObservedRow.LegalUnder (row : GraphObservedRow ι)
    (topology : GraphTopology) :
    Prop where
  topologyId : ids.topologyId topology = row.state.topologyId
  ranks_length : row.state.ranks.length = topology.vertexCount
  edge_mem : row.action.move.edge ∈ topology.edges
  rank_pos : row.state.ranks[row.action.move.edge.first]? ≠ some 0
  rank_eq : row.state.ranks[row.action.move.edge.first]? =
    row.state.ranks[row.action.move.edge.second]?
  legalActions : legalActionViews ids topology row.state = .ok row.legalActions

/-- The rows of the state of a row: one for each of its legal actions. -/
@[mk_iff] structure GraphObservedRow.Complete (rows : List (GraphObservedRow ι))
    (row : GraphObservedRow ι) :
    Prop where
  same : ∀ other ∈ stateRows ids rows (ids.stateId row.state),
    other.state = row.state ∧ other.legalActions = row.legalActions
  actions : ((stateRows ids rows (ids.stateId row.state)).map
    (ids.actionId ·.action)).toFinset = (row.legalActions.map ids.actionId).toFinset
  count : (stateRows ids rows (ids.stateId row.state)).length = row.legalActions.length

instance (row : GraphObservedRow ι) : Decidable (row.Bound ids) :=
  decidable_of_iff' _ (GraphObservedRow.bound_iff ids row)

instance (row : GraphObservedRow ι) (topology : GraphTopology) :
    Decidable (row.LegalUnder ids topology) :=
  decidable_of_iff' _ (GraphObservedRow.legalUnder_iff ids row topology)

instance (rows : List (GraphObservedRow ι)) (row : GraphObservedRow ι) :
    Decidable (row.Complete ids rows) :=
  decidable_of_iff' _ (GraphObservedRow.complete_iff ids rows row)

structure AnonymousGraphSourceLog where
  topologies : List GraphTopology
  rows : List (GraphObservedRow ι)
  topologies_ne : topologies ≠ []
  topologies_sorted : topologies.Pairwise fun t t' => ids.topologyId t < ids.topologyId t'
  rows_ne : rows ≠ []
  rows_sorted : rows.Pairwise fun row row' => ids.rowId row < ids.rowId row'
  bound : ∀ row ∈ rows, row.Bound ids
  legal : ∀ row ∈ rows, ∃ topology ∈ topologies, row.LegalUnder ids topology
  complete : ∀ row ∈ rows, row.Complete ids rows
  closed : ∀ row ∈ rows, ∀ outcome ∈ row.outcomes, outcome.failure = false →
    0 < outcome.nextState.remainingHorizon →
      ∃ other ∈ rows, ids.stateId other.state = ids.stateId outcome.nextState

def AnonymousGraphSourceLog.make (topologies : List GraphTopology)
    (rows : List (GraphObservedRow ι)) : Except GraphError (AnonymousGraphSourceLog ids) :=
  if hbound : ∀ row ∈ rows, row.Bound ids then
    if hsorted : topologies ≠ [] ∧
        topologies.Pairwise (fun t t' => ids.topologyId t < ids.topologyId t') ∧ rows ≠ [] ∧
        rows.Pairwise (fun row row' => ids.rowId row < ids.rowId row') then
      if hlegal : ∀ row ∈ rows, ∃ topology ∈ topologies, row.LegalUnder ids topology then
        if hcomplete : ∀ row ∈ rows, row.Complete ids rows then
          if hclosed : ∀ row ∈ rows, ∀ outcome ∈ row.outcomes, outcome.failure = false →
              0 < outcome.nextState.remainingHorizon →
                ∃ other ∈ rows, ids.stateId other.state = ids.stateId outcome.nextState then
            .ok ⟨topologies, rows, hsorted.1, hsorted.2.1, hsorted.2.2.1, hsorted.2.2.2, hbound,
              hlegal, hcomplete, hclosed⟩
          else .error (.core "source log omits an active successor state closure")
        else .error (.core "source log omits or duplicates a legal state/action row")
      else .error (.core "source row is not legal under its topology")
    else .error (.core "source log ordering, uniqueness, or completeness label changed")
  else .error (.core "observed row state/action/outcome binding is invalid")

theorem AnonymousGraphSourceLog.make_eq_ok (log : AnonymousGraphSourceLog ids) :
    AnonymousGraphSourceLog.make ids log.topologies log.rows = .ok log := by
  unfold AnonymousGraphSourceLog.make
  rw [dif_pos log.bound, dif_pos ⟨log.topologies_ne, log.topologies_sorted, log.rows_ne,
    log.rows_sorted⟩, dif_pos log.legal, dif_pos log.complete, dif_pos log.closed]

end Log

end Acfqp.Coordinates
