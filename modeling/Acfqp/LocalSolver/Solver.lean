import Acfqp.LocalSolver.Model

/-!
# The general local solver

For every set of localized cells, by cardinality, every joint choice of ground actions is reduced to
a root point, and the points of one set are kept as a Pareto frontier. The first cardinality with a
feasible point decides.
-/

namespace Acfqp.LocalSolver

open Library

variable (limits : SearchLimits) (capability : Capability)

/-! ## One assignment -/

def chargeTerms (terms : ℕ) : Search Unit := do
  let s ← get
  stopIf (limits.maxAffineTermEvaluations < s.counters.affineTermEvaluations + terms)
    "max_affine_term_evaluations"
  count fun c => { c with affineTermEvaluations := c.affineTermEvaluations + terms }

def checkBits (values : List ℚ) : Search Unit :=
  stopIf (∃ value ∈ values, limits.maxRationalBits < rationalBits value) "max_rational_bits"

def actionValue (action : Action) : Search (ℚ × ℚ) := do
  count fun c => { c with actionPortEvaluations := c.actionPortEvaluations + 1 }
  let (reward, failure) ← action.exits.foldlM (fun total exit => do
    chargeTerms limits 2
    let port ← orRaise (capability.exitPorts.find? fun port => port.portId = exit.1)
      (PyError.keyError (pyRepr exit.1))
    pure (total.1 + exit.2 * port.rewardLower, total.2 + exit.2 * port.failureUpper))
    (action.immediateReward, action.immediateFailure)
  checkBits limits [reward, failure]
  require (0 ≤ failure ∧ failure ≤ 1)
    (PyError.valueError "action port failure ceiling lies outside [0,1]")
  pure (reward, failure)

def formValue (form : SparseForm) (values : List (String × ℚ)) : Search ℚ := do
  count fun c => { c with affineFormEvaluations := c.affineFormEvaluations + 1 }
  chargeTerms limits form.terms.length
  let terms ← form.terms.mapM fun term => do
    let value ← orRaise (values.lookup term.1) (PyError.keyError (pyRepr term.1))
    pure (term.2 * value)
  let result := form.constant + terms.sum
  checkBits limits [result]
  pure result

/-- A localized member under one of its actions, with the values of the action. -/
structure Evaluated where
  cell : Cell
  member : Member
  action : Action
  reward : ℚ
  failure : ℚ

def Evaluated.decision (e : Evaluated) : LocalPatchDecision :=
  ⟨e.cell.nodeId, e.cell.cell, e.cell.remaining, e.member.stateId, e.cell.inputPortId,
    e.action.actionId, e.reward, e.failure⟩

def portValues (default : InputPort → ℚ) (worst : List Evaluated → ℚ) (chosen : List Evaluated) :
    List (String × ℚ) :=
  (groupBy (fun e => e.cell.nodeId) chosen).foldl
    (fun ports group => group.2.head?.elim ports fun e =>
      Dict.assign e.cell.inputPortId (worst group.2) ports)
    (capability.inputPorts.map fun port => (port.portId, default port))

def worstReward (group : List Evaluated) : ℚ := (group.map Evaluated.reward).min?.getD 0

def worstFailure (group : List Evaluated) : ℚ := (group.map Evaluated.failure).max?.getD 0

def evaluateAssignment (assignment : List ((Cell × Member) × Action)) : Search RootPoint := do
  let chosen ← assignment.mapM fun a => do
    let (reward, failure) ← actionValue limits capability a.2
    pure (Evaluated.mk a.1.1 a.1.2 a.2 reward failure)
  let rewardPorts := portValues capability InputPort.defaultRewardLower worstReward chosen
  let failurePorts := portValues capability InputPort.defaultFailureUpper worstFailure chosen
  let rewards ← capability.rewardForms.mapM fun form => formValue limits form rewardPorts
  let rewardFloor ← orRaise rewards.min? (PyError.valueError "min() iterable argument is empty")
  let failures ← capability.failureForms.mapM fun form => formValue limits form failurePorts
  let failureCeiling ← orRaise failures.max?
    (PyError.valueError "max() iterable argument is empty")
  checkBits limits [rewardFloor, failureCeiling]
  require (0 ≤ failureCeiling ∧ failureCeiling ≤ 1)
    (PyError.valueError "root failure ceiling lies outside [0,1]")
  pure ⟨rewardFloor, failureCeiling,
    sortBy LocalPatchDecision.signature (chosen.map Evaluated.decision)⟩

/-! ## The root frontier -/

def dominates (left right : RootPoint) : Prop :=
  right.rewardFloor ≤ left.rewardFloor ∧ left.failureCeiling ≤ right.failureCeiling ∧
    (right.rewardFloor < left.rewardFloor ∨ left.failureCeiling < right.failureCeiling)

instance (left right : RootPoint) : Decidable (dominates left right) :=
  inferInstanceAs (Decidable (_ ∧ _ ∧ _))

/-- What a candidate finds in the frontier. -/
structure Comparison where
  duplicate : Option RootPoint
  dominated : Bool
  remove : List RootPoint

def compareRootPoint (candidate : RootPoint) : List RootPoint → List RootPoint → Search Comparison
  | [], remove => pure ⟨none, false, remove⟩
  | incumbent :: rest, remove => do
    let s ← get
    stopIf (limits.maxDominanceComparisons ≤ s.counters.dominanceComparisons)
      "max_dominance_comparisons"
    count fun c => { c with dominanceComparisons := c.dominanceComparisons + 1 }
    if incumbent.rewardFloor = candidate.rewardFloor ∧
        incumbent.failureCeiling = candidate.failureCeiling then
      pure ⟨some incumbent, false, remove⟩
    else if dominates incumbent candidate then pure ⟨none, true, remove⟩
    else if dominates candidate incumbent then
      compareRootPoint candidate rest (remove ++ [incumbent])
    else compareRootPoint candidate rest remove

def frontierKey (point : RootPoint) : ℚ ×ₗ ℚ ×ₗ List DecisionSignature :=
  toLex (point.failureCeiling, toLex (-point.rewardFloor, point.policySignature))

def placeRootPoint (candidate : RootPoint) (kept : List RootPoint) : Search Unit := do
  let frontier := sortBy frontierKey (kept ++ [candidate])
  modify fun s => { s with rootFrontier := frontier }
  count fun c =>
    { c with peakRootFrontierPoints := max c.peakRootFrontierPoints frontier.length }
  stopIf (limits.maxRootFrontierPoints < frontier.length) "max_root_frontier_points"

def insertRootPoint (candidate : RootPoint) : Search Unit := do
  let s ← get
  let comparison ← compareRootPoint limits candidate s.rootFrontier []
  if comparison.dominated then pure ()
  else
    match comparison.duplicate with
    | some duplicate =>
      if duplicate.policySignature ≤ candidate.policySignature then pure ()
      else placeRootPoint limits candidate (s.rootFrontier.erase duplicate)
    | none => placeRootPoint limits candidate (comparison.remove.foldl List.erase s.rootFrontier)

/-! ## One subset -/

/-- One joint choice of actions. -/
def tryAssignment (decisionMembers : List (Cell × Member)) (selectedActions : List Action) :
    Search Unit := do
  let s ← get
  stopIf (limits.maxPolicyAssignments ≤ s.counters.policyAssignments) "max_policy_assignments"
  count fun c => { c with policyAssignments := c.policyAssignments + 1 }
  let point ← evaluateAssignment limits capability (decisionMembers.zip selectedActions)
  insertRootPoint limits point

def recordSubset (localized : List Cell) (theoretical : ℕ) (search : Search Unit) :
    Search Unit := do
  let before ← get
  modify fun s => { s with rootFrontier := [] }
  let record := fun (capReason : Option String) (s : SearchState) =>
    { s with records := s.records ++ [⟨localized.map Cell.nodeId, theoretical,
      s.counters.policyAssignments - before.counters.policyAssignments, s.rootFrontier,
      capReason.isNone, capReason⟩] }
  tryCatch search fun halt => do
    match halt with
    | .capReached reason => modify (record (some reason))
    | .raised _ => pure ()
    throw halt
  modify (record none)

def meetsObligations (point : RootPoint) : Prop :=
  point.failureCeiling ≤ capability.allowedFailureCeiling ∧
    capability.requiredRewardFloor ≤ point.rewardFloor

instance (point : RootPoint) : Decidable (meetsObligations capability point) :=
  inferInstanceAs (Decidable (_ ∧ _))

def selectPoint (points : List RootPoint) : Option RootPoint :=
  points.argmin fun point =>
    (toLex (-point.rewardFloor, toLex (point.failureCeiling, point.policySignature)) :
      ℚ ×ₗ ℚ ×ₗ List DecisionSignature)

def decisionMembers (localized : List Cell) : List (Cell × Member) :=
  localized.flatMap fun cell => cell.members.map fun member => (cell, member)

def searchSubset (localized : List Cell) : Search (Option (List String × RootPoint)) := do
  let s ← get
  stopIf (limits.maxSubsetEvaluations ≤ s.counters.subsetEvaluations) "max_subset_evaluations"
  count fun c => { c with subsetEvaluations := c.subsetEvaluations + 1 }
  let members := decisionMembers localized
  let actionSets := members.map fun m => m.2.actions
  recordSubset localized (actionSets.map List.length).prod
    ((cartesian actionSets).forM (tryAssignment limits capability members))
  let t ← get
  let feasible := t.rootFrontier.filter fun point => meetsObligations capability point
  pure ((selectPoint feasible).map fun point => (localized.map Cell.nodeId, point))

/-- The sublists of a length, in the order of positions. -/
def combinations {α : Type} : ℕ → List α → List (List α)
  | 0, _ => [[]]
  | _ + 1, [] => []
  | k + 1, x :: xs => (combinations k xs).map (x :: ·) ++ combinations (k + 1) xs

def selectOverlay (overlays : List (List String × RootPoint)) : Option (List String × RootPoint) :=
  overlays.argmin fun overlay =>
    (toLex (-overlay.2.rewardFloor, toLex (overlay.2.failureCeiling,
      toLex (overlay.1, overlay.2.policySignature))) :
      ℚ ×ₗ ℚ ×ₗ List String ×ₗ List DecisionSignature)

def searchCardinalities (cells : List Cell) : List ℕ → Search (Option (List String × RootPoint))
  | [] => pure none
  | cardinality :: rest => do
    let overlays ← (combinations cardinality cells).mapM (searchSubset limits capability)
    match selectOverlay (overlays.filterMap id) with
    | some overlay => pure (some overlay)
    | none => searchCardinalities cells rest

/-! ## The solver -/

/-- Every rational that the solver is given. -/
def inputFractions (cells : List Cell) : List ℚ :=
  [capability.requiredRewardFloor, capability.allowedFailureCeiling] ++
  (capability.inputPorts.flatMap fun port =>
    [port.defaultRewardLower, port.defaultFailureUpper]) ++
  (capability.exitPorts.flatMap fun port => [port.rewardLower, port.failureUpper]) ++
  ((capability.rewardForms ++ capability.failureForms).flatMap fun form =>
    form.constant :: form.terms.map Prod.snd) ++
  cells.flatMap fun cell => cell.members.flatMap fun member => member.actions.flatMap fun action =>
    [action.immediateReward, action.immediateFailure] ++ action.exits.map Prod.snd

/-- The slice decides exactly the input ports, and its actions leave through known exits. -/
def validateSlice (slice : GroundSlice) : Except PyError Unit := do
  require ((slice.cells.map Cell.inputPortId).toFinset =
      (capability.inputPorts.map InputPort.portId).toFinset)
    (.valueError "slice cells do not exactly match capability input ports")
  slice.cells.forM fun cell => cell.members.forM fun member => member.actions.forM fun action =>
    let unknown := (action.exits.map Prod.fst).filter fun port =>
      port ∉ capability.exitPorts.map ExitPort.portId
    require (unknown = [])
      (.valueError s!"slice action references unknown exit ports {pyReprList (sortBy id unknown)}")

/-- All overlays: for every subset, one choice of actions or none. -/
def theoreticalTotal (slice : GroundSlice) : ℕ :=
  (slice.cells.map fun cell => 1 + (cell.members.map fun member => member.actions.length).prod).prod

def makeResult (request : GeneralLocalRequest) (slice : GroundSlice) (status : Status)
    (s : SearchState) (selected : Option (List String × RootPoint)) (capReason : Option String) :
    GeneralLocalSolverResult where
  requestId := request.requestId
  occurrenceId := request.occurrenceId
  capabilityId := capability.capabilityId
  sliceId := slice.sliceId
  frontierId := capability.frontierId
  status := status
  localizedNodeIds := selected.elim [] Prod.fst
  decisions := selected.elim [] fun overlay => overlay.2.decisions
  rootRewardLower := selected.map fun overlay => overlay.2.rewardFloor
  requiredRewardFloor := capability.requiredRewardFloor
  rootFailureUpper := selected.map fun overlay => overlay.2.failureCeiling
  allowedFailureCeiling := capability.allowedFailureCeiling
  theoreticalTotalPolicySpace := theoreticalTotal slice
  subsetRecords := s.records
  counters := s.counters
  searchLimits := request.searchLimits
  capReason := capReason

def resultOf (request : GeneralLocalRequest) (slice : GroundSlice) :
    Except Halt (Option (List String × RootPoint)) × SearchState →
      Except PyError GeneralLocalSolverResult
  | (.ok (some overlay), s) =>
    .ok (makeResult capability request slice .certified s (some overlay) none)
  | (.ok none, s) => .ok (makeResult capability request slice .authorizedExhausted s none none)
  | (.error (.capReached reason), s) =>
    .ok (makeResult capability request slice .searchCapExhausted s none (some reason))
  | (.error (.raised e), _) => .error e

def searchOverlay (cells : List Cell) : Search (Option (List String × RootPoint)) := do
  checkBits limits (inputFractions capability cells)
  searchCardinalities limits capability cells (List.range (cells.length + 1))

def solveGeneralLocalRecovery (slice : GroundSlice) (request : GeneralLocalRequest) :
    Except PyError GeneralLocalSolverResult := do
  parseRequest request capability slice
  validateSlice capability slice
  resultOf capability request slice
    (attempt (searchOverlay request.searchLimits capability slice.cells) .start)

end Acfqp.LocalSolver
