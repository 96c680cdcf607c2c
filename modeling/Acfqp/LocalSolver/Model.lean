import Acfqp.Core
import Acfqp.Library.Attempt
import Acfqp.Library.Grouping
import Acfqp.Library.Pareto

/-!
# Inputs and results of the local solver

The worker reads a sparse capability, the ground slice that it may change, and a request with its
search limits, as their documents read once they are accepted. A search keeps its counters, its
records and the current root frontier also when a limit stops it.
-/

namespace Acfqp.LocalSolver

open Library

/-! ## Limits -/

structure SearchLimits where
  maxSubsetEvaluations : ℕ
  maxPolicyAssignments : ℕ
  maxRootFrontierPoints : ℕ
  maxDominanceComparisons : ℕ
  maxAffineTermEvaluations : ℕ
  maxRationalBits : ℕ
  positive : ∀ limit ∈ [maxSubsetEvaluations, maxPolicyAssignments, maxRootFrontierPoints,
    maxDominanceComparisons, maxAffineTermEvaluations, maxRationalBits], 0 < limit

/-- Every limit of the second is at least that of the first. -/
structure SearchLimits.Within (limits larger : SearchLimits) : Prop where
  subsets : limits.maxSubsetEvaluations ≤ larger.maxSubsetEvaluations
  assignments : limits.maxPolicyAssignments ≤ larger.maxPolicyAssignments
  points : limits.maxRootFrontierPoints ≤ larger.maxRootFrontierPoints
  comparisons : limits.maxDominanceComparisons ≤ larger.maxDominanceComparisons
  terms : limits.maxAffineTermEvaluations ≤ larger.maxAffineTermEvaluations
  bits : limits.maxRationalBits ≤ larger.maxRationalBits

/-- The bits of the longer part of a reduced fraction. -/
def rationalBits (value : ℚ) : ℕ := max value.num.natAbs.size value.den.size

/-! ## The capability -/

structure InputPort where
  portId : String
  defaultRewardLower : ℚ
  defaultFailureUpper : ℚ
  failure_mem : 0 ≤ defaultFailureUpper ∧ defaultFailureUpper ≤ 1

structure ExitPort where
  portId : String
  rewardLower : ℚ
  failureUpper : ℚ
  failure_mem : 0 ≤ failureUpper ∧ failureUpper ≤ 1

structure SparseForm where
  formId : String
  constant : ℚ
  terms : List (String × ℚ)
  terms_sorted : (terms.map Prod.fst).Pairwise (· < ·)
  terms_pos : ∀ term ∈ terms, 0 < term.2

structure Capability where
  capabilityId : String
  frontierId : String
  requiredRewardFloor : ℚ
  allowedFailureCeiling : ℚ
  inputPorts : List InputPort
  exitPorts : List ExitPort
  rewardForms : List SparseForm
  failureForms : List SparseForm
  ceiling_mem : 0 ≤ allowedFailureCeiling ∧ allowedFailureCeiling ≤ 1
  inputs_sorted : (inputPorts.map InputPort.portId).Pairwise (· < ·)
  exits_sorted : (exitPorts.map ExitPort.portId).Pairwise (· < ·)
  ports_disjoint : ∀ port ∈ exitPorts, port.portId ∉ inputPorts.map InputPort.portId
  reward_ne_nil : rewardForms ≠ []
  failure_ne_nil : failureForms ≠ []
  forms_known : ∀ form ∈ rewardForms ++ failureForms, ∀ term ∈ form.terms,
    term.1 ∈ inputPorts.map InputPort.portId

/-! ## The ground slice -/

/-- An action whose failure, with what it sends to its exits, is at most the whole mass. -/
structure Action where
  actionId : String
  immediateReward : ℚ
  immediateFailure : ℚ
  exits : List (String × ℚ)
  failure_nonneg : 0 ≤ immediateFailure
  exits_sorted : (exits.map Prod.fst).Pairwise (· < ·)
  exits_pos : ∀ e ∈ exits, 0 < e.2
  mass_le : immediateFailure + (exits.map Prod.snd).sum ≤ 1

structure Member where
  stateId : String
  actions : List Action
  actions_ne_nil : actions ≠ []
  actions_sorted : (actions.map Action.actionId).Pairwise (· < ·)

structure Cell where
  nodeId : String
  cell : String
  remaining : ℕ
  inputPortId : String
  members : List Member
  remaining_pos : 0 < remaining
  input_port_eq : inputPortId = nodeId
  members_ne_nil : members ≠ []
  members_sorted : (members.map Member.stateId).Pairwise (· < ·)

structure GroundSlice where
  sliceId : String
  frontierId : String
  cells : List Cell
  cells_ne_nil : cells ≠ []
  cells_sorted : (cells.map Cell.nodeId).Pairwise (· < ·)
  decisions_unique : (cells.flatMap fun cell =>
    cell.members.map fun member => (cell.remaining, member.stateId)).Nodup

structure GeneralLocalRequest where
  requestId : String
  occurrenceId : String
  frontierId : String
  capabilityId : String
  sliceId : String
  searchLimits : SearchLimits

/-- The same request under other limits, which its identifier binds. -/
def GeneralLocalRequest.relimit (request : GeneralLocalRequest) (requestId : String)
    (searchLimits : SearchLimits) : GeneralLocalRequest :=
  { request with requestId, searchLimits }

/-- The identifiers that a request shares with its two documents. -/
def parseRequest (request : GeneralLocalRequest) (capability : Capability) (slice : GroundSlice) :
    Except PyError Unit := do
  require (request.frontierId = capability.frontierId ∧
      request.capabilityId = capability.capabilityId ∧ request.sliceId = slice.sliceId)
    (.valueError "general local request cross-identifiers do not match")
  require (capability.frontierId = slice.frontierId)
    (.valueError "capability and ground slice name different frontiers")

/-! ## Results -/

abbrev DecisionSignature := ℤ ×ₗ String ×ₗ String ×ₗ String

structure LocalPatchDecision where
  nodeId : String
  cell : String
  remaining : ℕ
  stateId : String
  inputPortId : String
  actionId : String
  rewardFloor : ℚ
  failureCeiling : ℚ
  deriving DecidableEq

def LocalPatchDecision.signature (decision : LocalPatchDecision) : DecisionSignature :=
  toLex (-(decision.remaining : ℤ),
    toLex (decision.nodeId, toLex (decision.stateId, decision.actionId)))

structure RootPoint where
  rewardFloor : ℚ
  failureCeiling : ℚ
  decisions : List LocalPatchDecision
  deriving DecidableEq

def RootPoint.policySignature (point : RootPoint) : List DecisionSignature :=
  point.decisions.map LocalPatchDecision.signature

structure Counters where
  subsetEvaluations : ℕ
  policyAssignments : ℕ
  actionPortEvaluations : ℕ
  affineFormEvaluations : ℕ
  affineTermEvaluations : ℕ
  dominanceComparisons : ℕ
  peakRootFrontierPoints : ℕ

def Counters.zero : Counters := ⟨0, 0, 0, 0, 0, 0, 0⟩

structure SubsetSearchRecord where
  localizedNodeIds : List String
  theoreticalPolicyAssignments : ℕ
  evaluatedPolicyAssignments : ℕ
  rootFrontier : List RootPoint
  complete : Bool
  capReason : Option String

inductive Status where
  | certified
  | authorizedExhausted
  | searchCapExhausted
  deriving DecidableEq

structure GeneralLocalSolverResult where
  requestId : String
  occurrenceId : String
  capabilityId : String
  sliceId : String
  frontierId : String
  status : Status
  localizedNodeIds : List String
  decisions : List LocalPatchDecision
  rootRewardLower : Option ℚ
  requiredRewardFloor : ℚ
  rootFailureUpper : Option ℚ
  allowedFailureCeiling : ℚ
  theoreticalTotalPolicySpace : ℕ
  subsetRecords : List SubsetSearchRecord
  counters : Counters
  searchLimits : SearchLimits
  capReason : Option String

/-! ## Searches -/

/-- What ends a search: a limit, by its name, or an exception. -/
inductive Halt where
  | capReached (reason : String)
  | raised (error : PyError)

structure SearchState where
  counters : Counters
  records : List SubsetSearchRecord
  rootFrontier : List RootPoint

def SearchState.start : SearchState := ⟨.zero, [], []⟩

abbrev Search : Type → Type := Attempt SearchState Halt

/-- An exception that no limit raises. -/
instance : MonadLift (Except PyError) Search where
  monadLift
    | .ok a => pure a
    | .error e => throw (.raised e)

def stopIf (passed : Prop) [Decidable passed] (reason : String) : Search Unit :=
  if passed then throw (.capReached reason) else pure ()

def count (update : Counters → Counters) : Search Unit :=
  modify fun s => { s with counters := update s.counters }

end Acfqp.LocalSolver
