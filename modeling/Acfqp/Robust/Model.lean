import Acfqp.Core
import Acfqp.Library.Loops
import Acfqp.Robust.Intervals

/-!
# Partial-support interval models

The authority of the two-step robust planner: observed action catalogues, registered destinations,
one interval simplex for every reachable state, horizon and action, and concretizers of semantic
actions. A model is accepted when its rows are exactly the reachable observed catalogue.
-/

namespace Acfqp.Robust

open Library

/-! ## Records -/

/-- What becomes of the mass of a destination. Only an active destination has a state. -/
inductive DestinationCategory where
  | activeState (stateId : String)
  | failure
  | successTerminal
  | other
  deriving DecidableEq

structure RegisteredDestination where
  destinationId : String
  category : DestinationCategory

def RegisteredDestination.stateId (destination : RegisteredDestination) : Option String :=
  match destination.category with
  | .activeState stateId => some stateId
  | _ => none

structure CatalogueAction where
  actionId : String
  actionCoordinateKey : String

structure StateActionCatalogue where
  stateId : String
  stateCoordinateKey : String
  actions : List CatalogueAction
  actions_ne_nil : actions ≠ []
  actions_sorted : (actions.map CatalogueAction.actionId).Pairwise (· < ·)

/-- One joint interval simplex, which contains the destination of everything unobserved. -/
@[ext] structure IntervalSimplexRow where
  stateId : String
  remainingHorizon : ℕ
  actionId : String
  rewardLower : ℚ
  rewardUpper : ℚ
  otherDestinationId : String
  masses : List IntervalDestinationMass
  horizon_mem : remainingHorizon = 1 ∨ remainingHorizon = 2
  reward_nonneg : 0 ≤ rewardLower
  reward_le : rewardLower ≤ rewardUpper
  masses_sorted : (masses.map IntervalDestinationMass.destinationId).Pairwise (· < ·)
  other_mem : otherDestinationId ∈ masses.map IntervalDestinationMass.destinationId
  admissible : AdmissibleSimplex masses

instance : DecidableEq IntervalSimplexRow := fun _ _ =>
  decidable_of_iff _ IntervalSimplexRow.ext_iff.symm

abbrev RowKey := String × ℕ × String

def IntervalSimplexRow.rowKey (row : IntervalSimplexRow) : RowKey :=
  (row.stateId, row.remainingHorizon, row.actionId)

theorem IntervalSimplexRow.isSome_other (row : IntervalSimplexRow) :
    (row.masses.find? fun item => item.destinationId = row.otherDestinationId).isSome := by
  obtain ⟨item, hitem, heq⟩ := List.mem_map.mp row.other_mem
  exact List.find?_isSome.mpr ⟨item, hitem, by simpa using heq⟩

def IntervalSimplexRow.otherMass (row : IntervalSimplexRow) : IntervalDestinationMass :=
  (row.masses.find? fun item => item.destinationId = row.otherDestinationId).get row.isSome_other

/-- The ground actions that realise a semantic action at one state, equally likely. -/
structure DistinctActionConcretizerEntry where
  stateCoordinateKey : String
  stateId : String
  abstractActionKey : String
  groundActionIds : List String
  actions_ne_nil : groundActionIds ≠ []
  actions_sorted : groundActionIds.Pairwise (· < ·)

def DistinctActionConcretizerEntry.key (entry : DistinctActionConcretizerEntry) :
    String × String × String :=
  (entry.stateCoordinateKey, entry.stateId, entry.abstractActionKey)

structure PartialSupportIntervalModel where
  contextId : String
  rootStateId : String
  catalogues : List StateActionCatalogue
  destinations : List RegisteredDestination
  rows : List IntervalSimplexRow
  concretizerEntries : List DistinctActionConcretizerEntry

structure RobustThresholdProfile where
  contextId : String
  riskTolerance : ℚ
  rewardCeiling : ℚ
  risk_pos : 0 < riskTolerance
  risk_le_one : riskTolerance ≤ 1
  ceiling_pos : 0 < rewardCeiling

def normalizedRegretTolerance : ℚ := 1 / 20

inductive PolicyScope where
  | groundState
  | quotientCell
  deriving DecidableEq

structure RobustPolicyAssignment where
  scope : PolicyScope
  scopeKey : String
  remainingHorizon : ℕ
  selectedActionKey : String
  deriving DecidableEq

structure RobustSelectedRowBound where
  rowId : String
  remainingHorizon : ℕ
  rewardLower : ℚ
  rewardUpper : ℚ
  failureUpper : ℚ
  otherMassLower : ℚ
  otherMassUpper : ℚ
  otherMassUsedForRewardLower : ℚ
  otherMassUsedForRewardUpper : ℚ
  otherMassUsedForFailureUpper : ℚ

inductive SelectedRowCategory where
  | rootSelected
  | continuationSelected
  | rootConcretizerComponent
  | continuationConcretizerComponent
  deriving DecidableEq

structure SelectedRowProvenance where
  rowId : String
  category : SelectedRowCategory
  policyScopeKey : String
  groundStateId : String
  groundActionId : String
  remainingHorizon : ℕ

structure OtherMassProvenance where
  rowId : String
  remainingHorizon : ℕ
  category : SelectedRowCategory
  otherMassUpper : ℚ

/-- The content identifiers, which are digests of the records. -/
structure PlannerIds where
  rowId : IntervalSimplexRow → String
  concretizerEntryId : DistinctActionConcretizerEntry → String
  modelId : PartialSupportIntervalModel → String
  thresholdProfileId : RobustThresholdProfile → String
  assignmentId : RobustPolicyAssignment → String
  rowBoundId : RobustSelectedRowBound → String
  provenanceId : SelectedRowProvenance → String
  otherMassProvenanceId : OtherMassProvenance → String

/-! ## Registries -/

namespace PartialSupportIntervalModel

variable (model : PartialSupportIntervalModel)

def catalogue (stateId : String) : Option StateActionCatalogue :=
  model.catalogues.find? fun item => item.stateId = stateId

def destination (destinationId : String) : Option RegisteredDestination :=
  model.destinations.find? fun item => item.destinationId = destinationId

def row (key : RowKey) : Option IntervalSimplexRow :=
  model.rows.find? fun item => item.rowKey = key

def concretizer (key : String × String × String) : Option DistinctActionConcretizerEntry :=
  model.concretizerEntries.find? fun item => item.key = key

def otherDestinationId : Option String :=
  (model.destinations.find? fun item => item.category = .other).map
    RegisteredDestination.destinationId

def reachableFrom (row : IntervalSimplexRow) : List String :=
  row.masses.filterMap fun mass =>
    if 0 < mass.upper then (model.destination mass.destinationId).bind
      RegisteredDestination.stateId
    else none

def rootKeys (root : StateActionCatalogue) : List RowKey :=
  root.actions.map fun action => (model.rootStateId, 2, action.actionId)

def childKeys (stateId : String) : List RowKey :=
  (model.catalogue stateId).elim [] fun catalogue =>
    catalogue.actions.map fun action => (stateId, 1, action.actionId)

/-! ## Validation -/

def validateRow (row : IntervalSimplexRow) : Except PlannerError Unit := do
  require (model.otherDestinationId = some row.otherDestinationId)
    (.violation "row OTHER identity differs from the model registry")
  require ((model.catalogue row.stateId).any fun catalogue =>
      row.actionId ∈ catalogue.actions.map CatalogueAction.actionId)
    (.violation "row state/action is outside the observed catalogue")
  require (∀ item ∈ row.masses, (model.destination item.destinationId).isSome)
    (.violation "row contains an out-of-registry destination")

def validateSupport (entry : DistinctActionConcretizerEntry) : Except PlannerError Unit :=
  require (∀ actionId ∈ entry.groundActionIds, (model.catalogue entry.stateId).any fun catalogue =>
      catalogue.actions.any fun action =>
        action.actionId = actionId ∧ action.actionCoordinateKey = entry.abstractActionKey)
    (.violation "concretizer support is not a distinct semantic-action set")

def validateSemantics : Except PlannerError Unit := do
  require (∀ item ∈ model.destinations, item.stateId.all fun stateId =>
      (model.catalogue stateId).isSome)
    (.violation "active destination state is outside the catalogue registry")
  forFresh IntervalSimplexRow.rowKey model.validateRow
    (.violation "duplicate row state/horizon/action key") (fun _ => .ok ()) [] model.rows
  let root ← orRaise (model.catalogue model.rootStateId) (.keyError (pyRepr model.rootStateId))
  let rootRows ← (model.rootKeys root).mapM fun key =>
    orRaise (model.row key) (.violation "root observed catalogue is incomplete")
  require ((model.rows.map IntervalSimplexRow.rowKey).toFinset = (model.rootKeys root ++
      (rootRows.flatMap model.reachableFrom).flatMap model.childKeys).toFinset)
    (.violation "rows are not the complete reachable observed H2 catalogue")
  forFresh DistinctActionConcretizerEntry.key
    (fun entry => require ((model.catalogue entry.stateId).any fun catalogue =>
      catalogue.stateCoordinateKey = entry.stateCoordinateKey)
      (.violation "concretizer state/cell binding is invalid"))
    (.violation "duplicate concretizer semantic key") model.validateSupport []
    model.concretizerEntries

/-- The checks of the constructor. -/
def validate (ids : PlannerIds) : Except PlannerError Unit := do
  require (model.catalogues ≠ [] ∧
      (model.catalogues.map StateActionCatalogue.stateId).Pairwise (· < ·) ∧
      model.rootStateId ∈ model.catalogues.map StateActionCatalogue.stateId)
    (.violation "model catalogues are incomplete, duplicated, or unsorted")
  require (model.destinations ≠ [] ∧
      (model.destinations.map RegisteredDestination.destinationId).Pairwise (· < ·) ∧
      (model.destinations.filter fun item => item.category = .other).length = 1)
    (.violation "destination registry must be sorted with exactly one OTHER")
  require (model.rows ≠ [] ∧ (model.rows.map ids.rowId).Pairwise (· < ·))
    (.violation "model rows must be typed, distinct, and row-ID sorted")
  require ((model.concretizerEntries.map ids.concretizerEntryId).Pairwise (· < ·))
    (.violation "concretizer entries must be distinct and ID sorted")
  model.validateSemantics

end PartialSupportIntervalModel

end Acfqp.Robust
