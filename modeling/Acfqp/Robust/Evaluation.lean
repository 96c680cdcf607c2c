import Acfqp.Library.Grouping
import Acfqp.Library.Pareto
import Acfqp.Robust.Model

/-!
# Robust evaluation of deterministic policies

A row is evaluated over its simplex by three extreme expectations. A deterministic policy chooses
an action for every reachable child state, or cell of child states, and one for the root; a cell
runs the concretizers of its action and averages them.
-/

namespace Acfqp.Robust

open Library

/-! ## Rows -/

structure RowEvaluation where
  bound : RobustSelectedRowBound
  provenance : SelectedRowProvenance

structure StateActionEvaluation where
  rewardLower : ℚ
  rewardUpper : ℚ
  failureUpper : ℚ
  rows : List RowEvaluation

def RobustSelectedRowBound.validate (bound : RobustSelectedRowBound) :
    Except PlannerError RobustSelectedRowBound := do
  [(bound.rewardLower, "selected reward lower"), (bound.rewardUpper, "selected reward upper"),
    (bound.failureUpper, "selected failure upper"), (bound.otherMassLower, "OTHER lower"),
    (bound.otherMassUpper, "OTHER upper"),
    (bound.otherMassUsedForRewardLower, "OTHER reward-lower mass"),
    (bound.otherMassUsedForRewardUpper, "OTHER reward-upper mass"),
    (bound.otherMassUsedForFailureUpper, "OTHER risk mass")].forM fun field =>
      require (0 ≤ field.1) (.violation s!"{field.2} is below 0")
  require (bound.rewardLower ≤ bound.rewardUpper ∧ bound.failureUpper ≤ 1 ∧
      bound.otherMassLower ≤ bound.otherMassUpper ∧ bound.otherMassUpper ≤ 1 ∧
      ∀ used ∈ [bound.otherMassUsedForRewardLower, bound.otherMassUsedForRewardUpper,
        bound.otherMassUsedForFailureUpper],
        bound.otherMassLower ≤ used ∧ used ≤ bound.otherMassUpper)
    (.violation "selected row robust bound is inconsistent")
  .ok bound

abbrev ChildValues := List (String × StateActionEvaluation)

/-- The risk of a destination, and the lower and upper reward of going on from it. -/
structure DestinationValue where
  risk : ℚ
  rewardLower : ℚ
  rewardUpper : ℚ

/-- Only a root row goes on. Unobserved mass fails, and may still earn up to the ceiling. -/
def destinationValue (model : PartialSupportIntervalModel) (threshold : RobustThresholdProfile)
    (childValues : ChildValues) (remainingHorizon : ℕ) (mass : IntervalDestinationMass) :
    Except PlannerError DestinationValue := do
  let destination ← orRaise (model.destination mass.destinationId)
    (.keyError (pyRepr mass.destinationId))
  match destination.category with
  | .activeState stateId =>
    if 1 < remainingHorizon then do
      let child ← orRaise (childValues.lookup stateId) (.keyError (pyRepr stateId))
      .ok ⟨child.failureUpper, child.rewardLower, child.rewardUpper⟩
    else .ok ⟨0, 0, 0⟩
  | .failure => .ok ⟨1, 0, 0⟩
  | .other => .ok ⟨1, 0, if 1 < remainingHorizon then threshold.rewardCeiling else 0⟩
  | .successTerminal => .ok ⟨0, 0, 0⟩

def ceilingViolation : PlannerError :=
  .violation "row reward interval exceeds the registered reward ceiling"

def rowBound (ids : PlannerIds) (threshold : RobustThresholdProfile) (row : IntervalSimplexRow)
    (risk rewardLower rewardUpper : ExtremeExpectation) : RobustSelectedRowBound where
  rowId := ids.rowId row
  remainingHorizon := row.remainingHorizon
  rewardLower := row.rewardLower + rewardLower.value
  rewardUpper := min threshold.rewardCeiling (row.rewardUpper + rewardUpper.value)
  failureUpper := risk.value
  otherMassLower := row.otherMass.lower
  otherMassUpper := row.otherMass.upper
  otherMassUsedForRewardLower := entry rewardLower.allocations row.otherDestinationId
  otherMassUsedForRewardUpper := entry rewardUpper.allocations row.otherDestinationId
  otherMassUsedForFailureUpper := entry risk.allocations row.otherDestinationId

def rowProvenance (ids : PlannerIds) (category : SelectedRowCategory) (policyScopeKey : String)
    (row : IntervalSimplexRow) : SelectedRowProvenance :=
  ⟨ids.rowId row, category, policyScopeKey, row.stateId, row.actionId, row.remainingHorizon⟩

def evaluateGroundRow (ids : PlannerIds) (model : PartialSupportIntervalModel)
    (threshold : RobustThresholdProfile) (childValues : ChildValues)
    (category : SelectedRowCategory) (policyScopeKey : String) (row : IntervalSimplexRow) :
    Except PlannerError RowEvaluation := do
  let values ← row.masses.mapM fun mass => do
    let value ← destinationValue model threshold childValues row.remainingHorizon mass
    .ok (mass.destinationId, value)
  let risk ← extremeExpectation row.masses (values.map fun v => (v.1, v.2.risk)) true
  let rewardLower ← extremeExpectation row.masses (values.map fun v => (v.1, v.2.rewardLower)) false
  let rewardUpper ← extremeExpectation row.masses (values.map fun v => (v.1, v.2.rewardUpper)) true
  let bound := rowBound ids threshold row risk rewardLower rewardUpper
  require (row.rewardUpper ≤ threshold.rewardCeiling ∧
    bound.rewardLower ≤ threshold.rewardCeiling ∧ bound.rewardLower ≤ bound.rewardUpper)
    ceilingViolation
  let bound ← bound.validate
  .ok ⟨bound, rowProvenance ids category policyScopeKey row⟩

def RowEvaluation.stateAction (evaluated : RowEvaluation) : StateActionEvaluation :=
  ⟨evaluated.bound.rewardLower, evaluated.bound.rewardUpper, evaluated.bound.failureUpper,
    [evaluated]⟩

def meanBound (bound : RobustSelectedRowBound → ℚ) (evaluations : List RowEvaluation) : ℚ :=
  (evaluations.map fun item => bound item.bound).sum / evaluations.length

def averageActionEvaluations (evaluations : List RowEvaluation) :
    Except PlannerError StateActionEvaluation := do
  require (evaluations ≠ []) (.violation "fixed concretizer support is empty")
  .ok ⟨meanBound RobustSelectedRowBound.rewardLower evaluations,
    meanBound RobustSelectedRowBound.rewardUpper evaluations,
    meanBound RobustSelectedRowBound.failureUpper evaluations, evaluations⟩

section Solver

variable (ids : PlannerIds) (model : PartialSupportIntervalModel)
  (threshold : RobustThresholdProfile)

def catalogueOf (stateId : String) : Except PlannerError StateActionCatalogue :=
  orRaise (model.catalogue stateId) (.keyError (pyRepr stateId))

def rowOf (stateId : String) (remainingHorizon : ℕ) (actionId : String) :
    Except PlannerError IntervalSimplexRow :=
  orRaise (model.row (stateId, remainingHorizon, actionId))
    (.keyError s!"({pyRepr stateId}, {remainingHorizon}, {pyRepr actionId})")

def reachableChildStates : Except PlannerError (List String) := do
  let root ← catalogueOf model model.rootStateId
  let rows ← root.actions.mapM fun action => rowOf model model.rootStateId 2 action.actionId
  .ok (sortBy id (distinct (rows.flatMap model.reachableFrom)))

def evaluateGroundAction (childValues : ChildValues) (category : SelectedRowCategory)
    (stateId : String) (remainingHorizon : ℕ) (actionId : String) :
    Except PlannerError StateActionEvaluation := do
  let row ← rowOf model stateId remainingHorizon actionId
  let evaluated ← evaluateGroundRow ids model threshold childValues category stateId row
  .ok evaluated.stateAction

def commonAbstractActions (stateIds : List String) : Except PlannerError (List String) := do
  let available ← stateIds.mapM fun stateId => do
    let catalogue ← catalogueOf model stateId
    .ok ((model.concretizerEntries.filter fun entry =>
      entry.stateCoordinateKey = catalogue.stateCoordinateKey ∧ entry.stateId = stateId).map
        DistinctActionConcretizerEntry.abstractActionKey)
  let common := match available with
    | [] => []
    | first :: rest => first.filter fun key => ∀ keys ∈ rest, key ∈ keys
  let result := sortBy id (distinct common)
  require (result ≠ [])
    (.violation "quotient cell has no common concretized semantic action")
  .ok result

def evaluateConcretizedStateAction (childValues : ChildValues) (category : SelectedRowCategory)
    (stateId : String) (remainingHorizon : ℕ) (abstractActionKey : String) :
    Except PlannerError StateActionEvaluation := do
  let catalogue ← catalogueOf model stateId
  let cell := catalogue.stateCoordinateKey
  let entry ← orRaise (model.concretizer (cell, stateId, abstractActionKey))
    (.violation "selected abstract action has no state concretizer")
  let rows ← entry.groundActionIds.mapM fun actionId => do
    let row ← rowOf model stateId remainingHorizon actionId
    evaluateGroundRow ids model threshold childValues category cell row
  averageActionEvaluations rows

/-! ## Policies -/

structure PolicyEvaluation where
  assignments : List RobustPolicyAssignment
  rewardLower : ℚ
  rewardUpper : ℚ
  failureUpper : ℚ
  rows : List RowEvaluation

def PolicyEvaluation.policyKey (evaluation : PolicyEvaluation) : List String :=
  evaluation.assignments.map ids.assignmentId

/-- Child states that take one decision, with the actions that they can take. -/
structure ChildScope where
  key : String
  stateIds : List String
  domain : List String

/-- How a solver reads its decisions: one state or one cell each. -/
structure PolicyReader where
  scope : PolicyScope
  rootKey : String
  rootActions : List String
  children : List ChildScope
  evaluateChild : String → String → Except PlannerError StateActionEvaluation
  evaluateRoot : ChildValues → String → Except PlannerError StateActionEvaluation

def PolicyReader.assignmentCount (reader : PolicyReader) : ℕ :=
  reader.rootActions.length * (reader.children.map fun child => child.domain.length).prod

def PolicyReader.childPart (reader : PolicyReader) (choice : List (ChildScope × String)) :
    Except PlannerError (List RobustPolicyAssignment × ChildValues) := do
  let values ← choice.mapM fun c => c.1.stateIds.mapM fun stateId => do
    let value ← reader.evaluateChild stateId c.2
    .ok (stateId, value)
  .ok (choice.map fun c => ⟨reader.scope, c.1.key, 1, c.2⟩, values.flatten)

/-- A complete policy: a choice for the children, and a root action. -/
def PolicyReader.policy (reader : PolicyReader)
    (part : List RobustPolicyAssignment × ChildValues) (rootAction : String) :
    Except PlannerError PolicyEvaluation := do
  let root ← reader.evaluateRoot part.2 rootAction
  .ok ⟨sortBy ids.assignmentId (⟨reader.scope, reader.rootKey, 2, rootAction⟩ :: part.1),
    root.rewardLower, root.rewardUpper, root.failureUpper,
    sortBy (fun item => ids.provenanceId item.provenance)
      (root.rows ++ part.2.flatMap fun child => child.2.rows)⟩

def PolicyReader.policies (reader : PolicyReader) :
    Except PlannerError (List PolicyEvaluation) := do
  let evaluations ← (cartesian (reader.children.map ChildScope.domain)).mapM fun actions => do
    let part ← reader.childPart (reader.children.zip actions)
    reader.rootActions.mapM (reader.policy ids part)
  .ok evaluations.flatten

def maxPolicyAssignments : ℕ := 65536

/-- Every state decides for itself. -/
def directReader : Except PlannerError PolicyReader := do
  let states ← reachableChildStates model
  let root ← catalogueOf model model.rootStateId
  let children ← states.mapM fun stateId => do
    let catalogue ← catalogueOf model stateId
    .ok ⟨stateId, [stateId], catalogue.actions.map CatalogueAction.actionId⟩
  .ok {
    scope := .groundState
    rootKey := model.rootStateId
    rootActions := root.actions.map CatalogueAction.actionId
    children := children
    evaluateChild := fun stateId =>
      evaluateGroundAction ids model threshold [] .continuationSelected stateId 1
    evaluateRoot := fun childValues =>
      evaluateGroundAction ids model threshold childValues .rootSelected model.rootStateId 2 }

def directPolicyEvaluations : Except PlannerError (List PolicyEvaluation) := do
  let reader ← directReader ids model threshold
  require (reader.assignmentCount ≤ maxPolicyAssignments)
    (.violation "ground robust policy enumeration exceeds the frozen cap")
  reader.policies ids

/-- Every cell decides for its states. -/
def quotientReader : Except PlannerError PolicyReader := do
  let states ← reachableChildStates model
  let cells ← states.mapM fun stateId => do
    let catalogue ← catalogueOf model stateId
    .ok (catalogue.stateCoordinateKey, stateId)
  let children ← (sortBy Prod.fst (groupBy Prod.fst cells)).mapM fun group => do
    let stateIds := sortBy id (group.2.map Prod.snd)
    let domain ← commonAbstractActions model stateIds
    .ok ⟨group.1, stateIds, domain⟩
  let root ← catalogueOf model model.rootStateId
  let rootActions ← commonAbstractActions model [model.rootStateId]
  .ok {
    scope := .quotientCell
    rootKey := root.stateCoordinateKey
    rootActions := rootActions
    children := children
    evaluateChild := fun stateId => evaluateConcretizedStateAction ids model threshold []
      .continuationConcretizerComponent stateId 1
    evaluateRoot := fun childValues => evaluateConcretizedStateAction ids model threshold
      childValues .rootConcretizerComponent model.rootStateId 2 }

def quotientPolicyEvaluations : Except PlannerError (List PolicyEvaluation) := do
  let reader ← quotientReader ids model threshold
  require (reader.assignmentCount ≤ maxPolicyAssignments)
    (.violation "quotient robust policy enumeration exceeds the frozen cap")
  reader.policies ids

/-- The child of the largest upper reward, the first by row on ties. -/
def bestUnrestricted (candidates : List StateActionEvaluation) : Option StateActionEvaluation :=
  candidates.argmin fun item => (toLex (-item.rewardUpper,
    item.rows.head?.elim "" fun row => row.bound.rowId) : ℚ ×ₗ String)

def unrestrictedGroundRewardUpper : Except PlannerError ℚ := do
  let states ← reachableChildStates model
  let childValues ← states.mapM fun stateId => do
    let catalogue ← catalogueOf model stateId
    let candidates ← catalogue.actions.mapM fun action =>
      evaluateGroundAction ids model threshold [] .continuationSelected stateId 1 action.actionId
    let selected ← orRaise (bestUnrestricted candidates)
      (.violation "reachable child has no unrestricted ground action")
    .ok (stateId, selected)
  let root ← catalogueOf model model.rootStateId
  let rootValues ← root.actions.mapM fun action =>
    evaluateGroundAction ids model threshold childValues .rootSelected model.rootStateId 2
      action.actionId
  orRaise (rootValues.map StateActionEvaluation.rewardUpper).max?
    (.violation "root has no unrestricted ground action")

end Solver

end Acfqp.Robust
