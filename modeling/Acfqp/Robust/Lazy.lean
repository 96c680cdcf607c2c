import Acfqp.Robust.Audit

/-!
# The lazy two-step solver

A branch and bound over the decisions that a root action can reach. The remaining decisions take
the assignment that makes the policy key least, optimistic values of the children bound what a
subtree can still offer, and a subtree that cannot beat the incumbent is recorded and left out. The
search proof and the limits stay outside the audit, which is that of the exhaustive solver.
-/

namespace Acfqp.Robust

open Library

/-! ## Limits and counters -/

inductive ResourceCode where
  | maxBranchNodes
  | maxCompletePolicies
  | maxRootBoundEvaluations
  deriving DecidableEq

structure SearchCounters where
  branchNodes : ℕ
  completePolicies : ℕ
  rootBoundEvaluations : ℕ
  prunedBranches : ℕ
  rootActionsConsidered : ℕ
  relevantDecisionUnits : ℕ
  irrelevantDecisionUnits : ℕ
  deriving DecidableEq

structure ResourceLimits where
  maxBranchNodes : ℕ
  maxCompletePolicies : ℕ
  maxRootBoundEvaluations : ℕ
  branchNodes_pos : 0 < maxBranchNodes
  completePolicies_pos : 0 < maxCompletePolicies
  rootBoundEvaluations_pos : 0 < maxRootBoundEvaluations

def ResourceLimits.limit (limits : ResourceLimits) : ResourceCode → ℕ
  | .maxBranchNodes => limits.maxBranchNodes
  | .maxCompletePolicies => limits.maxCompletePolicies
  | .maxRootBoundEvaluations => limits.maxRootBoundEvaluations

def SearchCounters.value (counters : SearchCounters) : ResourceCode → ℕ
  | .maxBranchNodes => counters.branchNodes
  | .maxCompletePolicies => counters.completePolicies
  | .maxRootBoundEvaluations => counters.rootBoundEvaluations

def SearchCounters.bump (counters : SearchCounters) : ResourceCode → SearchCounters
  | .maxBranchNodes => { counters with branchNodes := counters.branchNodes + 1 }
  | .maxCompletePolicies => { counters with completePolicies := counters.completePolicies + 1 }
  | .maxRootBoundEvaluations =>
    { counters with rootBoundEvaluations := counters.rootBoundEvaluations + 1 }

/-- What the lazy solver raises: an error of the planner, a violation of its own, the extremum of
nothing, or a limit that is exceeded. -/
inductive LazyError where
  | planner (error : PlannerError)
  | violation (message : String)
  | valueError (message : String)
  | resource (code : ResourceCode) (observed limit : ℕ) (counters : SearchCounters)
  deriving DecidableEq

def planner {α : Type} (x : Except PlannerError α) : Except LazyError α :=
  x.mapError .planner

/-! ## Decisions -/

structure DecisionChoice where
  actionKey : String
  assignment : RobustPolicyAssignment
  stateValues : ChildValues
  rows : List RowEvaluation

structure DecisionUnit where
  scopeKey : String
  stateIds : List String
  choices : List DecisionChoice

structure RootChoice where
  actionKey : String
  assignment : RobustPolicyAssignment
  relevantStateIds : List String

section Solver

variable (ids : PlannerIds) (model : PartialSupportIntervalModel)
  (threshold : RobustThresholdProfile)

def DecisionUnit.lexicographicDefault (unit : DecisionUnit) : Except LazyError DecisionChoice :=
  orRaise (unit.choices.argmin fun item => ids.assignmentId item.assignment)
    (.valueError "min() iterable argument is empty")

def decisionChoice (scope : PolicyScope)
    (evaluateChild : String → String → Except PlannerError StateActionEvaluation)
    (scopeKey : String) (stateIds : List String) (actionKey : String) :
    Except PlannerError DecisionChoice := do
  let values ← stateIds.mapM fun stateId => do
    let value ← evaluateChild stateId actionKey
    .ok (stateId, value)
  .ok ⟨actionKey, ⟨scope, scopeKey, 1, actionKey⟩, values, values.flatMap fun child => child.2.rows⟩

def directUnits : Except PlannerError (List DecisionUnit) := do
  let states ← reachableChildStates model
  states.mapM fun stateId => do
    let catalogue ← catalogueOf model stateId
    let choices ← catalogue.actions.mapM fun action =>
      decisionChoice .groundState (fun stateId => evaluateGroundAction ids model threshold []
        .continuationSelected stateId 1) stateId [stateId] action.actionId
    .ok ⟨stateId, [stateId], choices⟩

def quotientUnits : Except PlannerError (List DecisionUnit) := do
  let states ← reachableChildStates model
  let cells ← states.mapM fun stateId => do
    let catalogue ← catalogueOf model stateId
    .ok (catalogue.stateCoordinateKey, stateId)
  (sortBy Prod.fst (groupBy Prod.fst cells)).mapM fun group => do
    let stateIds := sortBy id (group.2.map Prod.snd)
    let domain ← commonAbstractActions model stateIds
    let choices ← domain.mapM (decisionChoice .quotientCell (fun stateId =>
      evaluateConcretizedStateAction ids model threshold [] .continuationConcretizerComponent
        stateId 1) group.1 stateIds)
    .ok ⟨group.1, stateIds, choices⟩

def directRootChoices : Except PlannerError (List RootChoice) := do
  let root ← catalogueOf model model.rootStateId
  root.actions.mapM fun action => do
    let row ← rowOf model model.rootStateId 2 action.actionId
    .ok ⟨action.actionId, ⟨.groundState, model.rootStateId, 2, action.actionId⟩,
      model.reachableFrom row⟩

def quotientRootChoices : Except PlannerError (List RootChoice) := do
  let root ← catalogueOf model model.rootStateId
  let actionKeys ← commonAbstractActions model [model.rootStateId]
  actionKeys.mapM fun actionKey => do
    let key := (root.stateCoordinateKey, model.rootStateId, actionKey)
    let entry ← orRaise (model.concretizer key)
      (.keyError s!"({pyRepr key.1}, {pyRepr key.2.1}, {pyRepr key.2.2})")
    let rows ← entry.groundActionIds.mapM (rowOf model model.rootStateId 2)
    .ok ⟨actionKey, ⟨.quotientCell, root.stateCoordinateKey, 2, actionKey⟩,
      rows.flatMap model.reachableFrom⟩

def units : RobustSolverKind → Except PlannerError (List DecisionUnit)
  | .groundDirect => directUnits ids model threshold
  | .quotient => quotientUnits ids model threshold

def rootChoices : RobustSolverKind → Except PlannerError (List RootChoice)
  | .groundDirect => directRootChoices model
  | .quotient => quotientRootChoices model

def evaluateRoot (solverKind : RobustSolverKind) (root : RootChoice) (childValues : ChildValues) :
    Except PlannerError StateActionEvaluation :=
  match solverKind with
  | .groundDirect => evaluateGroundAction ids model threshold childValues .rootSelected
      model.rootStateId 2 root.actionKey
  | .quotient => evaluateConcretizedStateAction ids model threshold childValues
      .rootConcretizerComponent model.rootStateId 2 root.actionKey

/-! ## Bounds -/

/-- The order in which policies are preferred: certified ones, those within the risk tolerance,
and the others. -/
def policyOrderKey (unrestrictedRewardUpper : ℚ) (item : PolicyEvaluation) :
    ℕ ×ₗ ℚ ×ₗ ℚ ×ₗ ℚ ×ₗ List String :=
  let regret := normalizedRegret threshold unrestrictedRewardUpper item
  if riskFeasible threshold item ∧ regret ≤ normalizedRegretTolerance then
    toLex (0, toLex (-item.rewardLower, toLex (item.failureUpper, toLex (0, item.policyKey ids))))
  else if riskFeasible threshold item then
    toLex (1, toLex (regret, toLex (item.failureUpper,
      toLex (-item.rewardLower, item.policyKey ids))))
  else
    toLex (2, toLex (item.failureUpper, toLex (item.failureUpper,
      toLex (-item.rewardLower, item.policyKey ids))))

def minimumCompletionPolicyKey (root : RootChoice) (fixed : List DecisionChoice)
    (unresolved : List DecisionUnit) (irrelevant : List DecisionChoice) :
    Except LazyError (List String) := do
  let defaults ← unresolved.mapM (DecisionUnit.lexicographicDefault ids)
  .ok (sortBy id ((root.assignment :: (fixed ++ defaults ++ irrelevant).map
    DecisionChoice.assignment).map ids.assignmentId))

/-- What every completion of a branch stays within. -/
structure CompletionBounds where
  rewardLowerUpperBound : ℚ
  failureLowerBound : ℚ
  minimumPolicyKey : List String

/-- The incumbent is at least as good as every completion, in the order of its own category. -/
def canPrune (unrestrictedRewardUpper : ℚ) (incumbent : Option PolicyEvaluation)
    (bounds : CompletionBounds) : Bool :=
  match incumbent with
  | none => false
  | some incumbent =>
    let category := (ofLex (policyOrderKey ids threshold unrestrictedRewardUpper incumbent)).1
    let optimisticRegret := max 0 (unrestrictedRewardUpper - bounds.rewardLowerUpperBound) /
      threshold.rewardCeiling
    let possibleRisk := decide (bounds.failureLowerBound ≤ threshold.riskTolerance)
    let possibleCertificate := possibleRisk && decide (optimisticRegret ≤ normalizedRegretTolerance)
    let byReward := fun otherwise : Bool =>
      if incumbent.rewardLower ≠ bounds.rewardLowerUpperBound then
        decide (bounds.rewardLowerUpperBound < incumbent.rewardLower)
      else otherwise
    let byFailure := fun otherwise : Bool =>
      if incumbent.failureUpper ≠ bounds.failureLowerBound then
        decide (incumbent.failureUpper < bounds.failureLowerBound)
      else otherwise
    let byKey := decide (¬ bounds.minimumPolicyKey < incumbent.policyKey ids)
    if category = 0 then
      if ¬ possibleCertificate then true else byReward (byFailure byKey)
    else if category = 1 then
      if possibleCertificate then false
      else if ¬ possibleRisk then true
      else byReward (byFailure byKey)
    else if possibleRisk then false
    else byFailure (byReward byKey)

/-- The best reward lower bound, reward upper bound and failure upper bound that the choices of a
decision offer at one state. -/
def optimisticValue (unit : DecisionUnit) (stateId : String) :
    Except LazyError StateActionEvaluation := do
  let candidates ← unit.choices.mapM fun choice =>
    orRaise (choice.stateValues.lookup stateId) (.planner (.keyError (pyRepr stateId)))
  let rewardLower ← orRaise (candidates.map StateActionEvaluation.rewardLower).max?
    (.valueError "max() iterable argument is empty")
  let rewardUpper ← orRaise (candidates.map StateActionEvaluation.rewardUpper).max?
    (.valueError "max() iterable argument is empty")
  let failureUpper ← orRaise (candidates.map StateActionEvaluation.failureUpper).min?
    (.valueError "min() iterable argument is empty")
  .ok ⟨rewardLower, max rewardLower rewardUpper, failureUpper, []⟩

def optimisticChildValues (relevantUnits : List DecisionUnit) (selected : List DecisionChoice)
    (unresolved : List DecisionUnit) (irrelevant : List DecisionChoice) :
    Except LazyError ChildValues := do
  let free ← unresolved.mapM fun unit => unit.stateIds.mapM fun stateId => do
    let value ← optimisticValue unit stateId
    .ok (stateId, value)
  let values := Dict.ofPairs ((selected ++ irrelevant).flatMap DecisionChoice.stateValues ++
    free.flatten)
  require ((values.map Prod.fst).toFinset = (relevantUnits.flatMap DecisionUnit.stateIds ++
      (irrelevant.flatMap DecisionChoice.stateValues).map Prod.fst).toFinset)
    (.violation "optimistic child completion is incomplete")
  .ok values

def completePolicy (solverKind : RobustSolverKind) (root : RootChoice)
    (choices : List DecisionChoice) : Except PlannerError PolicyEvaluation := do
  let childValues := Dict.ofPairs (choices.flatMap DecisionChoice.stateValues)
  let rootValue ← evaluateRoot ids model threshold solverKind root childValues
  .ok ⟨sortBy ids.assignmentId (root.assignment :: choices.map DecisionChoice.assignment),
    rootValue.rewardLower, rootValue.rewardUpper, rootValue.failureUpper,
    sortBy (fun item => ids.provenanceId item.provenance)
      (rootValue.rows ++ choices.flatMap DecisionChoice.rows)⟩

end Solver

end Acfqp.Robust

/-!
## The search of the lazy solver

The search visits the prefixes of the ordered decisions of each root action depth first. It ends
with an incumbent, counters and witnesses of every complete and every pruned node, or with the limit
that was exceeded; the proof and the trace are checked before an audit is given out.
-/

namespace Acfqp.Robust

open Library

/-! ## Search states -/

inductive SearchPhase where
  | original
  | zeroOtherCounterfactual
  deriving DecidableEq

/-- A node of the search tree, below one root action. -/
structure SearchNode where
  root : RootChoice
  relevantScopeKeys : List String
  selected : List DecisionChoice
  irrelevant : List DecisionChoice

structure RawCompleteWitness where
  node : SearchNode
  evaluation : PolicyEvaluation

structure RawPrunedWitness where
  node : SearchNode
  bounds : CompletionBounds

structure SearchState where
  counters : SearchCounters
  incumbent : Option PolicyEvaluation
  rawComplete : List RawCompleteWitness
  rawPruned : List RawPrunedWitness

def SearchState.start : SearchState :=
  ⟨⟨0, 0, 0, 0, 0, 0, 0⟩, none, [], []⟩

/-- Count a unit of work against its limit. -/
def bump (limits : ResourceLimits) (code : ResourceCode) (s : SearchState) :
    Except LazyError SearchState := do
  let counters := s.counters.bump code
  require (counters.value code ≤ limits.limit code)
    (.resource code (counters.value code) (limits.limit code) counters)
  .ok { s with counters := counters }

/-- The decisions of one root action. -/
structure RootSearch where
  root : RootChoice
  orderedUnits : List DecisionUnit
  irrelevant : List DecisionChoice

def RootSearch.node (search : RootSearch) (selected : List DecisionChoice) : SearchNode :=
  ⟨search.root, search.orderedUnits.map DecisionUnit.scopeKey, selected, search.irrelevant⟩

def SearchState.prune (s : SearchState) (node : SearchNode) (bounds : CompletionBounds) :
    SearchState :=
  { s with
    counters := { s.counters with prunedBranches := s.counters.prunedBranches + 1 }
    rawPruned := s.rawPruned ++ [⟨node, bounds⟩] }

section Solver

variable (ids : PlannerIds) (model : PartialSupportIntervalModel)
  (threshold : RobustThresholdProfile) (solverKind : RobustSolverKind)

/-- Keep the candidate, as the incumbent when it comes before the old one. -/
def SearchState.complete (unrestrictedRewardUpper : ℚ) (s : SearchState) (node : SearchNode)
    (candidate : PolicyEvaluation) : SearchState :=
  let better := s.incumbent.all fun incumbent =>
    policyOrderKey ids threshold unrestrictedRewardUpper candidate <
      policyOrderKey ids threshold unrestrictedRewardUpper incumbent
  { s with
    incumbent := if better then some candidate else s.incumbent
    rawComplete := s.rawComplete ++ [⟨node, candidate⟩] }

/-! ## The search -/

def orderedChoices (unit : DecisionUnit) : List DecisionChoice :=
  sortBy (fun choice => (toLex (-(choice.stateValues.map fun child => child.2.rewardLower).sum,
    toLex ((choice.stateValues.map fun child => child.2.failureUpper).sum,
      ids.assignmentId choice.assignment)) : ℚ ×ₗ ℚ ×ₗ String)) unit.choices

def completionBounds (search : RootSearch) (selected : List DecisionChoice)
    (unresolved : List DecisionUnit) (optimisticRoot : StateActionEvaluation) :
    Except LazyError CompletionBounds := do
  let key ← minimumCompletionPolicyKey ids search.root selected unresolved search.irrelevant
  .ok ⟨optimisticRoot.rewardLower, optimisticRoot.failureUpper, key⟩

def visit (limits : ResourceLimits) (unrestrictedRewardUpper : ℚ) (search : RootSearch) :
    List DecisionUnit → List DecisionChoice → SearchState → Except LazyError SearchState
  | unresolved, selected, s => do
    let s ← bump limits .maxBranchNodes s
    let optimisticValues ← optimisticChildValues search.orderedUnits selected unresolved
      search.irrelevant
    let s ← bump limits .maxRootBoundEvaluations s
    let optimisticRoot ← planner (evaluateRoot ids model threshold solverKind search.root
      optimisticValues)
    let bounds ← completionBounds ids search selected unresolved optimisticRoot
    if canPrune ids threshold unrestrictedRewardUpper s.incumbent bounds then
      .ok (s.prune (search.node selected) bounds)
    else match unresolved with
      | [] => do
        let s ← bump limits .maxCompletePolicies s
        let candidate ← planner (completePolicy ids model threshold solverKind search.root
          (selected ++ search.irrelevant))
        .ok (s.complete ids threshold unrestrictedRewardUpper (search.node selected) candidate)
      | unit :: rest => (orderedChoices ids unit).foldlM (fun s choice =>
          visit limits unrestrictedRewardUpper search rest (selected ++ [choice]) s) s

/-- The decisions that the root action can reach, larger cells first, and the defaults of the
others. -/
def rootSearch (units : List DecisionUnit) (root : RootChoice) : Except LazyError RootSearch := do
  let reaches := fun unit : DecisionUnit => unit.stateIds.any (· ∈ root.relevantStateIds)
  let irrelevant ← (units.filter fun unit => ¬ reaches unit).mapM
    (DecisionUnit.lexicographicDefault ids)
  .ok ⟨root, sortBy (fun unit : DecisionUnit =>
    (toLex (-(unit.stateIds.length : ℤ), unit.scopeKey) : ℤ ×ₗ String)) (units.filter reaches),
    irrelevant⟩

def searchRoot (limits : ResourceLimits) (unrestrictedRewardUpper : ℚ) (units : List DecisionUnit)
    (s : SearchState) (root : RootChoice) : Except LazyError SearchState := do
  let search ← rootSearch ids units root
  let counters := { s.counters with
    rootActionsConsidered := s.counters.rootActionsConsidered + 1
    relevantDecisionUnits := s.counters.relevantDecisionUnits + search.orderedUnits.length
    irrelevantDecisionUnits := s.counters.irrelevantDecisionUnits + search.irrelevant.length }
  visit ids model threshold solverKind limits unrestrictedRewardUpper search search.orderedUnits []
    { s with counters := counters }

end Solver

/-! ## Proofs -/

structure NodeWitness where
  rootAssignmentId : String
  relevantScopeKeys : List String
  selectedAssignmentIds : List String
  irrelevantAssignmentIds : List String

structure CompleteNodeWitness extends NodeWitness where
  policyKey : List String
  rewardLower : ℚ
  rewardUpper : ℚ
  failureUpper : ℚ

structure PrunedNodeWitness extends NodeWitness where
  rewardLowerUpperBound : ℚ
  failureLowerBound : ℚ
  minimumPolicyKey : List String
  dominatingPolicyKey : List String
  dominatingRewardLower : ℚ
  dominatingFailureUpper : ℚ

/-- The content identifiers of the lazy solver. -/
structure LazyIds extends PlannerIds where
  completeWitnessId : CompleteNodeWitness → String
  prunedWitnessId : PrunedNodeWitness → String

def requireDistinctIds (field : String) (values : List String) : Except LazyError Unit :=
  require values.Nodup (.violation s!"{field} contains duplicates")

def requireSortedIds (field : String) (values : List String) : Except LazyError Unit := do
  requireDistinctIds field values
  require (values.Pairwise (· ≤ ·)) (.violation s!"{field} must be sorted")

def CompleteNodeWitness.validate (witness : CompleteNodeWitness) :
    Except LazyError CompleteNodeWitness := do
  requireDistinctIds "complete witness relevant scopes" witness.relevantScopeKeys
  requireDistinctIds "complete witness selected assignments" witness.selectedAssignmentIds
  requireSortedIds "complete witness irrelevant assignments" witness.irrelevantAssignmentIds
  requireSortedIds "complete witness policy key" witness.policyKey
  require (witness.selectedAssignmentIds.length = witness.relevantScopeKeys.length)
    (.violation "complete witness does not assign every relevant scope")
  require (∀ value ∈ [witness.rewardLower, witness.rewardUpper, witness.failureUpper], 0 ≤ value)
    (.violation "complete witness bounds must be nonnegative Fractions")
  require (witness.rewardLower ≤ witness.rewardUpper ∧ witness.failureUpper ≤ 1)
    (.violation "complete witness exact bounds are inconsistent")
  .ok witness

def PrunedNodeWitness.validate (witness : PrunedNodeWitness) :
    Except LazyError PrunedNodeWitness := do
  requireDistinctIds "pruned witness relevant scopes" witness.relevantScopeKeys
  requireDistinctIds "pruned witness selected assignments" witness.selectedAssignmentIds
  requireSortedIds "pruned witness irrelevant assignments" witness.irrelevantAssignmentIds
  requireSortedIds "pruned witness minimum policy key" witness.minimumPolicyKey
  requireSortedIds "pruned witness dominating policy key" witness.dominatingPolicyKey
  require (witness.selectedAssignmentIds.length ≤ witness.relevantScopeKeys.length)
    (.violation "pruned witness prefix exceeds its relevant scope domain")
  require (∀ value ∈ [witness.rewardLowerUpperBound, witness.failureLowerBound,
      witness.dominatingRewardLower, witness.dominatingFailureUpper], 0 ≤ value)
    (.violation "pruned witness bounds must be nonnegative Fractions")
  require (witness.failureLowerBound ≤ 1 ∧ witness.dominatingFailureUpper ≤ 1)
    (.violation "pruned witness failure values exceed one")
  .ok witness

structure SearchProof where
  phase : SearchPhase
  solverKind : RobustSolverKind
  modelId : String
  thresholdProfileId : String
  rootAssignmentIds : List String
  selectedPolicyKey : List String
  selectedRewardLower : ℚ
  selectedRewardUpper : ℚ
  selectedFailureUpper : ℚ
  unrestrictedRewardUpper : ℚ
  completeNodes : List CompleteNodeWitness
  prunedNodes : List PrunedNodeWitness

def SearchProof.validate (ids : LazyIds) (proof : SearchProof) : Except LazyError SearchProof := do
  requireSortedIds "search proof root assignments" proof.rootAssignmentIds
  requireSortedIds "search proof selected policy" proof.selectedPolicyKey
  require ((proof.completeNodes.map ids.completeWitnessId).Pairwise (· < ·))
    (.violation "search proof complete nodes must be distinct and ID sorted")
  require ((proof.prunedNodes.map ids.prunedWitnessId).Pairwise (· < ·))
    (.violation "search proof pruned nodes must be distinct and ID sorted")
  require (proof.completeNodes ≠ [])
    (.violation "search proof requires at least one complete policy")
  require (∀ value ∈ [proof.selectedRewardLower, proof.selectedRewardUpper,
      proof.selectedFailureUpper, proof.unrestrictedRewardUpper], 0 ≤ value)
    (.violation "search proof values must be nonnegative Fractions")
  require (proof.selectedRewardLower ≤ proof.selectedRewardUpper ∧
      proof.selectedFailureUpper ≤ 1)
    (.violation "search proof selected bounds are inconsistent")
  .ok proof

def SearchNode.witness (ids : PlannerIds) (node : SearchNode) : NodeWitness :=
  ⟨ids.assignmentId node.root.assignment, node.relevantScopeKeys,
    node.selected.map fun choice => ids.assignmentId choice.assignment,
    sortBy id (node.irrelevant.map fun choice => ids.assignmentId choice.assignment)⟩

def RawCompleteWitness.freeze (ids : PlannerIds) (raw : RawCompleteWitness) :
    Except LazyError CompleteNodeWitness :=
  CompleteNodeWitness.validate ⟨raw.node.witness ids, raw.evaluation.policyKey ids,
    raw.evaluation.rewardLower, raw.evaluation.rewardUpper, raw.evaluation.failureUpper⟩

def RawPrunedWitness.freeze (ids : PlannerIds) (selected : PolicyEvaluation)
    (raw : RawPrunedWitness) : Except LazyError PrunedNodeWitness :=
  PrunedNodeWitness.validate ⟨raw.node.witness ids, raw.bounds.rewardLowerUpperBound,
    raw.bounds.failureLowerBound, raw.bounds.minimumPolicyKey, selected.policyKey ids,
    selected.rewardLower, selected.failureUpper⟩

section Solver

variable (ids : LazyIds) (model : PartialSupportIntervalModel)
  (threshold : RobustThresholdProfile) (solverKind : RobustSolverKind)

def freezeSearchProof (phase : SearchPhase) (roots : List RootChoice) (selected : PolicyEvaluation)
    (unrestrictedRewardUpper : ℚ) (rawComplete : List RawCompleteWitness)
    (rawPruned : List RawPrunedWitness) : Except LazyError SearchProof := do
  let complete ← rawComplete.mapM (RawCompleteWitness.freeze ids.toPlannerIds)
  let pruned ← rawPruned.mapM (RawPrunedWitness.freeze ids.toPlannerIds selected)
  SearchProof.validate ids
    { phase := phase
      solverKind := solverKind
      modelId := ids.modelId model
      thresholdProfileId := ids.thresholdProfileId threshold
      rootAssignmentIds := sortBy id (roots.map fun root => ids.assignmentId root.assignment)
      selectedPolicyKey := selected.policyKey ids.toPlannerIds
      selectedRewardLower := selected.rewardLower
      selectedRewardUpper := selected.rewardUpper
      selectedFailureUpper := selected.failureUpper
      unrestrictedRewardUpper := unrestrictedRewardUpper
      completeNodes := sortBy ids.completeWitnessId complete
      prunedNodes := sortBy ids.prunedWitnessId pruned }

/-! ## The solver -/

def validateInputs : Except LazyError Unit := do
  require (threshold.contextId = model.contextId)
    (.violation "exact lazy H2 inputs or identities do not match")
  require (solverKind = .quotient → model.concretizerEntries ≠ [])
    (.violation "quotient exact lazy H2 planning requires concretizer entries")

def lazyCore (unrestrictedRewardUpper : ℚ) (incumbent : PolicyEvaluation) : SolvedCore :=
  ⟨incumbent, unrestrictedRewardUpper,
    normalizedRegret threshold unrestrictedRewardUpper incumbent,
    if (ofLex (policyOrderKey ids.toPlannerIds threshold unrestrictedRewardUpper incumbent)).1 = 0
    then .certified else .failedProofFrontier⟩

/-- A core with the counters and the proof of its search. -/
structure LazyCore where
  core : SolvedCore
  counters : SearchCounters
  proof : SearchProof

def solveCoreLazy (limits : ResourceLimits) (phase : SearchPhase) : Except LazyError LazyCore := do
  validateInputs model threshold solverKind
  let units ← planner (units ids.toPlannerIds model threshold solverKind)
  let roots ← planner (rootChoices model solverKind)
  let unrestricted ← planner (unrestrictedGroundRewardUpper ids.toPlannerIds model threshold)
  let s ← roots.foldlM (searchRoot ids.toPlannerIds model threshold solverKind limits unrestricted
    units) .start
  let incumbent ← orRaise s.incumbent
    (.violation "exact lazy H2 search produced no complete deterministic policy")
  let proof ← freezeSearchProof ids model threshold solverKind phase roots incumbent unrestricted
    s.rawComplete s.rawPruned
  .ok ⟨lazyCore ids threshold unrestricted incumbent, s.counters, proof⟩

abbrev ZeroSearch := Option (SearchCounters × SearchProof)

def counterfactualAndTrace (limits : ResourceLimits) (original : SolvedCore) :
    Except LazyError (OtherOnlyCounterfactual × ZeroSearch) := do
  if original.status = .certified then .ok (.originalAlreadyCertified, none)
  else
    let zeroModel ← planner (zeroOtherModel? ids.toPlannerIds model)
    match zeroModel with
    | none => .ok (.zeroOtherInfeasibleSimplex, none)
    | some zeroModel => do
      let zero ← solveCoreLazy ids zeroModel threshold solverKind limits .zeroOtherCounterfactual
      let counterfactual ← planner (OtherOnlyCounterfactual.validate (.zeroOtherSolved
        (zero.core.status = .certified) (ids.modelId zeroModel) zero.core.selected.failureUpper
        zero.core.normalizedRegretUpper))
      .ok (counterfactual, some (zero.counters, zero.proof))

structure SearchTrace where
  solverKind : RobustSolverKind
  original : SearchCounters
  originalProof : SearchProof
  zeroOtherCounterfactual : ZeroSearch

def SearchTrace.validate (trace : SearchTrace) : Except LazyError SearchTrace := do
  require (trace.originalProof.phase = .original ∧
      trace.originalProof.solverKind = trace.solverKind ∧
      trace.zeroOtherCounterfactual.all fun zero =>
        zero.2.phase = .zeroOtherCounterfactual ∧ zero.2.solverKind = trace.solverKind)
    (.violation "exact lazy H2 trace crosses the frozen audit boundary")
  .ok trace

structure ResourceExhaustion where
  phase : SearchPhase
  code : ResourceCode
  observed : ℕ
  limit : ℕ
  counters : SearchCounters

def ResourceExhaustion.validate (exhaustion : ResourceExhaustion) :
    Except LazyError ResourceExhaustion := do
  require (exhaustion.limit < exhaustion.observed ∧ 0 < exhaustion.limit)
    (.violation "typed exact-search exhaustion is inconsistent")
  .ok exhaustion

inductive LazySolveResult where
  | solved (audit : RobustPlanAudit) (trace : SearchTrace)
  | exhausted (exhaustion : ResourceExhaustion)

/-- A limit that is exceeded ends the solver with a typed result. -/
def orExhausted {α : Type} (phase : SearchPhase) (x : Except LazyError α)
    (f : α → Except LazyError LazySolveResult) : Except LazyError LazySolveResult :=
  match x with
  | .ok a => f a
  | .error (.resource code observed limit counters) =>
    LazySolveResult.exhausted <$> ResourceExhaustion.validate ⟨phase, code, observed,
      limit, counters⟩
  | .error e => .error e

/-- The audit of the exhaustive solver, or typed resource exhaustion. -/
def solveExactLazyRobustH2 (limits : ResourceLimits) : Except LazyError LazySolveResult := do
  validateInputs model threshold solverKind
  orExhausted .original (solveCoreLazy ids model threshold solverKind limits .original)
    fun solved =>
      orExhausted .zeroOtherCounterfactual
        (counterfactualAndTrace ids model threshold solverKind limits solved.core)
        fun counterfactual => do
          let audit ← planner (auditFromCore ids.toPlannerIds model threshold solverKind
            solved.core counterfactual.1)
          let trace ← SearchTrace.validate
            ⟨solverKind, solved.counters, solved.proof, counterfactual.2⟩
          .ok (.solved audit trace)

end Solver

end Acfqp.Robust
