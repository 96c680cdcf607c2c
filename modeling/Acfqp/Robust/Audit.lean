import Acfqp.Robust.Evaluation

/-!
# Robust plan audits

A solver chooses among the evaluated policies: the best one within both tolerances, or else the one
that the failed proof frontier is about. A failed audit also says whether the unobserved mass alone
made it fail.
-/

namespace Acfqp.Robust

open Library

inductive RobustSolverKind where
  | groundDirect
  | quotient
  deriving DecidableEq

inductive RobustAuditStatus where
  | certified
  | failedProofFrontier
  deriving DecidableEq

inductive FailedFrontierReason where
  | risk
  | regret
  | riskAndRegret
  deriving DecidableEq

def FailedFrontierReason.namesRisk : FailedFrontierReason → Bool
  | .risk | .riskAndRegret => true
  | .regret => false

def FailedFrontierReason.namesRegret : FailedFrontierReason → Bool
  | .regret | .riskAndRegret => true
  | .risk => false

/-! ## The selected policy -/

section

variable (ids : PlannerIds) (threshold : RobustThresholdProfile) (unrestrictedRewardUpper : ℚ)

def normalizedRegret (item : PolicyEvaluation) : ℚ :=
  max 0 (unrestrictedRewardUpper - item.rewardLower) / threshold.rewardCeiling

def riskFeasible (item : PolicyEvaluation) : Prop :=
  item.failureUpper ≤ threshold.riskTolerance

instance (item : PolicyEvaluation) : Decidable (riskFeasible threshold item) :=
  inferInstanceAs (Decidable (_ ≤ _))

def meetsTolerances (item : PolicyEvaluation) : Prop :=
  riskFeasible threshold item ∧
    normalizedRegret threshold unrestrictedRewardUpper item ≤ normalizedRegretTolerance

instance (item : PolicyEvaluation) :
    Decidable (meetsTolerances threshold unrestrictedRewardUpper item) :=
  inferInstanceAs (Decidable (_ ∧ _))

structure SolvedCore where
  selected : PolicyEvaluation
  unrestrictedRewardUpper : ℚ
  normalizedRegretUpper : ℚ
  status : RobustAuditStatus

def certifiedKey (item : PolicyEvaluation) : ℚ ×ₗ ℚ ×ₗ List String :=
  toLex (-item.rewardLower, toLex (item.failureUpper, item.policyKey ids))

def failedKey (primary : PolicyEvaluation → ℚ) (item : PolicyEvaluation) :
    ℚ ×ₗ ℚ ×ₗ ℚ ×ₗ List String :=
  toLex (primary item, toLex (item.failureUpper, toLex (-item.rewardLower, item.policyKey ids)))

def selectPolicy (evaluations : List PolicyEvaluation) :
    Option (PolicyEvaluation × RobustAuditStatus) :=
  let certified := evaluations.filter fun item =>
    meetsTolerances threshold unrestrictedRewardUpper item
  if certified ≠ [] then
    (certified.argmin (certifiedKey ids)).map fun item => (item, .certified)
  else
    let feasible := evaluations.filter fun item => riskFeasible threshold item
    let selected := if feasible ≠ [] then
        feasible.argmin (failedKey ids (normalizedRegret threshold unrestrictedRewardUpper))
      else evaluations.argmin (failedKey ids PolicyEvaluation.failureUpper)
    selected.map fun item => (item, .failedProofFrontier)

def choosePolicy (evaluations : List PolicyEvaluation) : Except PlannerError SolvedCore := do
  let (selected, status) ← orRaise (selectPolicy ids threshold unrestrictedRewardUpper evaluations)
    (.violation "robust solver produced no deterministic policies")
  .ok ⟨selected, unrestrictedRewardUpper,
    normalizedRegret threshold unrestrictedRewardUpper selected, status⟩

end

section Solver

variable (ids : PlannerIds)

def solveCore (model : PartialSupportIntervalModel) (threshold : RobustThresholdProfile)
    (solverKind : RobustSolverKind) : Except PlannerError SolvedCore := do
  require (threshold.contextId = model.contextId)
    (.violation "robust solver inputs or identities do not match")
  match solverKind with
  | .groundDirect =>
    let evaluations ← directPolicyEvaluations ids model threshold
    let unrestricted := (evaluations.map PolicyEvaluation.rewardUpper).max?.getD 0
    choosePolicy ids threshold unrestricted evaluations
  | .quotient =>
    let unrestricted ← unrestrictedGroundRewardUpper ids model threshold
    let evaluations ← quotientPolicyEvaluations ids model threshold
    choosePolicy ids threshold unrestricted evaluations

/-! ## Without the unobserved mass -/

theorem zero_le_zero : (0 : ℚ) ≤ 0 := le_rfl

def zeroMass (destinationId : String) : IntervalDestinationMass :=
  ⟨destinationId, 0, 0, zero_le_zero, zero_le_zero, zero_le_one⟩

def zeroOtherMasses (otherId : String) (masses : List IntervalDestinationMass) :
    List IntervalDestinationMass :=
  masses.map fun item => if item.destinationId = otherId then zeroMass item.destinationId else item

theorem zeroOtherMasses_ids (otherId : String) (masses : List IntervalDestinationMass) :
    (zeroOtherMasses otherId masses).map IntervalDestinationMass.destinationId =
      masses.map IntervalDestinationMass.destinationId := by
  rw [zeroOtherMasses, List.map_map]
  refine List.map_congr_left fun item _ => ?_
  simp only [Function.comp_apply]
  split <;> rfl

theorem zeroOther_sorted (otherId : String) (row : IntervalSimplexRow) :
    ((zeroOtherMasses otherId row.masses).map
      IntervalDestinationMass.destinationId).Pairwise (· < ·) :=
  zeroOtherMasses_ids otherId row.masses ▸ row.masses_sorted

theorem zeroOther_mem (otherId : String) (row : IntervalSimplexRow) :
    row.otherDestinationId ∈ (zeroOtherMasses otherId row.masses).map
      IntervalDestinationMass.destinationId :=
  zeroOtherMasses_ids otherId row.masses ▸ row.other_mem

def zeroOtherRow (otherId : String) (row : IntervalSimplexRow) :
    Except PlannerError IntervalSimplexRow :=
  if admissible : AdmissibleSimplex (zeroOtherMasses otherId row.masses) then
    .ok { row with
      masses := zeroOtherMasses otherId row.masses
      masses_sorted := zeroOther_sorted otherId row
      other_mem := zeroOther_mem otherId row
      admissible := admissible }
  else .error (.violation "row intervals do not admit a unit simplex")

def buildPartialSupportModel (model : PartialSupportIntervalModel) :
    Except PlannerError PartialSupportIntervalModel := do
  let built : PartialSupportIntervalModel :=
    { model with
      catalogues := sortBy StateActionCatalogue.stateId model.catalogues
      destinations := sortBy RegisteredDestination.destinationId model.destinations
      rows := sortBy ids.rowId model.rows
      concretizerEntries := sortBy ids.concretizerEntryId model.concretizerEntries }
  built.validate ids
  .ok built

/-- The model in which no row has unobserved mass. -/
def zeroOtherModel (model : PartialSupportIntervalModel) :
    Except PlannerError PartialSupportIntervalModel := do
  let otherId ← orRaise model.otherDestinationId (.keyError "other_destination")
  let rows ← model.rows.mapM (zeroOtherRow otherId)
  buildPartialSupportModel ids { model with rows := rows }

/-- What becomes of an audit when no mass is unobserved. -/
inductive OtherOnlyCounterfactual where
  | originalAlreadyCertified
  | zeroOtherSolved (certified : Bool) (modelId : String) (failureUpper : ℚ)
      (normalizedRegretUpper : ℚ)
  | zeroOtherInfeasibleSimplex

def OtherOnlyCounterfactual.changesFailedToCertified : OtherOnlyCounterfactual → Bool
  | .zeroOtherSolved certified .. => certified
  | _ => false

def OtherOnlyCounterfactual.validate (counterfactual : OtherOnlyCounterfactual) :
    Except PlannerError OtherOnlyCounterfactual := do
  match counterfactual with
  | .zeroOtherSolved _ _ failureUpper normalizedRegretUpper =>
    require (0 ≤ failureUpper) (.violation "zero-OTHER failure is below 0")
    require (0 ≤ normalizedRegretUpper) (.violation "zero-OTHER regret is below 0")
    .ok counterfactual
  | _ => .ok counterfactual

/-- A model without unobserved mass, unless one cannot be built. -/
def zeroOtherModel? (model : PartialSupportIntervalModel) :
    Except PlannerError (Option PartialSupportIntervalModel) :=
  match zeroOtherModel ids model with
  | .ok zero => .ok (some zero)
  | .error (.violation _) => .ok none
  | .error e => .error e

def counterfactualWith (solve : PartialSupportIntervalModel → Except PlannerError SolvedCore)
    (model : PartialSupportIntervalModel) (original : SolvedCore) :
    Except PlannerError OtherOnlyCounterfactual := do
  if original.status = .certified then .ok .originalAlreadyCertified
  else
    let zeroModel ← zeroOtherModel? ids model
    match zeroModel with
    | none => .ok .zeroOtherInfeasibleSimplex
    | some zeroModel => do
      let zero ← solve zeroModel
      OtherOnlyCounterfactual.validate (.zeroOtherSolved (zero.status = .certified)
        (ids.modelId zeroModel) zero.selected.failureUpper zero.normalizedRegretUpper)

/-! ## Audits -/

structure FailedProofFrontier where
  reason : FailedFrontierReason
  selectedRowIds : List String
  otherPositiveRowIds : List String
  otherOnlyCounterfactualChanges : Bool

def FailedProofFrontier.validate (frontier : FailedProofFrontier) :
    Except PlannerError FailedProofFrontier := do
  require (frontier.selectedRowIds.Pairwise (· < ·))
    (.violation "frontier selected rows must be sorted and distinct")
  require (frontier.otherPositiveRowIds.Pairwise (· < ·))
    (.violation "frontier OTHER-positive rows must be sorted and distinct")
  require (∀ item ∈ frontier.otherPositiveRowIds, item ∈ frontier.selectedRowIds)
    (.violation "OTHER frontier rows are not selected rows")
  .ok frontier

structure RobustPlanAudit where
  solverKind : RobustSolverKind
  modelId : String
  thresholdProfileId : String
  status : RobustAuditStatus
  assignments : List RobustPolicyAssignment
  selectedRowBounds : List RobustSelectedRowBound
  selectedRowProvenance : List SelectedRowProvenance
  otherMassUpperOnSelectedPolicy : List OtherMassProvenance
  rootRewardLower : ℚ
  unrestrictedRewardUpper : ℚ
  rootFailureUpper : ℚ
  normalizedRegretUpper : ℚ
  counterfactual : OtherOnlyCounterfactual
  failedFrontier : Option FailedProofFrontier

def requireSorted (field : String) (names : List String) : Except PlannerError Unit :=
  require (names ≠ [] ∧ names.Pairwise (· < ·))
    (.violation s!"audit {field} must be typed, nonempty, distinct, and sorted")

def RobustPlanAudit.validate (audit : RobustPlanAudit) : Except PlannerError RobustPlanAudit := do
  requireSorted "assignments" (audit.assignments.map ids.assignmentId)
  requireSorted "selected row bounds" (audit.selectedRowBounds.map ids.rowBoundId)
  requireSorted "selected row provenance" (audit.selectedRowProvenance.map ids.provenanceId)
  requireSorted "selected OTHER provenance"
    (audit.otherMassUpperOnSelectedPolicy.map ids.otherMassProvenanceId)
  [(audit.rootRewardLower, "audit reward lower"),
    (audit.unrestrictedRewardUpper, "audit unrestricted upper"),
    (audit.rootFailureUpper, "audit failure upper"),
    (audit.normalizedRegretUpper, "audit normalized regret")].forM fun field =>
      require (0 ≤ field.1) (.violation s!"{field.2} is below 0")
  require (audit.rootRewardLower ≤ audit.unrestrictedRewardUpper ∧ audit.rootFailureUpper ≤ 1 ∧
      (audit.status = .certified ↔ audit.failedFrontier = none))
    (.violation "robust audit conclusion or authority boundary is invalid")
  .ok audit

def otherMassProvenance (categories : List (String × SelectedRowCategory))
    (bound : RobustSelectedRowBound) : Except PlannerError OtherMassProvenance := do
  let category ← orRaise (categories.lookup bound.rowId) (.keyError (pyRepr bound.rowId))
  require (0 ≤ bound.otherMassUpper) (.violation "selected OTHER upper is below 0")
  require (bound.otherMassUpper ≤ 1) (.violation "selected OTHER upper exceeds 1")
  .ok ⟨bound.rowId, bound.remainingHorizon, category, bound.otherMassUpper⟩

def failedFrontierReason (threshold : RobustThresholdProfile) (core : SolvedCore) :
    FailedFrontierReason :=
  let riskFailed := threshold.riskTolerance ≤ core.selected.failureUpper
  let regretFailed := normalizedRegretTolerance < core.normalizedRegretUpper
  if riskFailed ∧ regretFailed then .riskAndRegret
  else if riskFailed then .risk
  else .regret

def failedFrontier? (threshold : RobustThresholdProfile) (core : SolvedCore)
    (selectedBounds : List RobustSelectedRowBound) (counterfactual : OtherOnlyCounterfactual) :
    Except PlannerError (Option FailedProofFrontier) :=
  if core.status = .failedProofFrontier then
    some <$> FailedProofFrontier.validate
      { reason := failedFrontierReason threshold core
        selectedRowIds := sortBy id (selectedBounds.map RobustSelectedRowBound.rowId)
        otherPositiveRowIds := sortBy id
          ((selectedBounds.filter fun item => 0 < item.otherMassUpper).map
            RobustSelectedRowBound.rowId)
        otherOnlyCounterfactualChanges := counterfactual.changesFailedToCertified }
  else .ok none

def auditFromCore (model : PartialSupportIntervalModel) (threshold : RobustThresholdProfile)
    (solverKind : RobustSolverKind) (core : SolvedCore)
    (counterfactual : OtherOnlyCounterfactual) : Except PlannerError RobustPlanAudit := do
  let selectedBounds := sortBy ids.rowBoundId (core.selected.rows.map RowEvaluation.bound)
  let provenance := sortBy ids.provenanceId (core.selected.rows.map RowEvaluation.provenance)
  let categoryByRow := Dict.ofPairs (provenance.map fun item => (item.rowId, item.category))
  let other ← selectedBounds.mapM (otherMassProvenance categoryByRow)
  let frontier ← failedFrontier? threshold core selectedBounds counterfactual
  RobustPlanAudit.validate ids
    { solverKind := solverKind
      modelId := ids.modelId model
      thresholdProfileId := ids.thresholdProfileId threshold
      status := core.status
      assignments := core.selected.assignments
      selectedRowBounds := selectedBounds
      selectedRowProvenance := provenance
      otherMassUpperOnSelectedPolicy := sortBy ids.otherMassProvenanceId other
      rootRewardLower := core.selected.rewardLower
      unrestrictedRewardUpper := core.unrestrictedRewardUpper
      rootFailureUpper := core.selected.failureUpper
      normalizedRegretUpper := core.normalizedRegretUpper
      counterfactual := counterfactual
      failedFrontier := frontier }

def makeAudit (model : PartialSupportIntervalModel) (threshold : RobustThresholdProfile)
    (solverKind : RobustSolverKind) : Except PlannerError RobustPlanAudit := do
  let core ← solveCore ids model threshold solverKind
  let counterfactual ← counterfactualWith ids (fun zero => solveCore ids zero threshold solverKind)
    model core
  auditFromCore ids model threshold solverKind core counterfactual

def solveGroundDirectRobustH2 (model : PartialSupportIntervalModel)
    (threshold : RobustThresholdProfile) : Except PlannerError RobustPlanAudit :=
  makeAudit ids model threshold .groundDirect

def solveQuotientRobustH2 (model : PartialSupportIntervalModel)
    (threshold : RobustThresholdProfile) : Except PlannerError RobustPlanAudit := do
  require (model.concretizerEntries ≠ [])
    (.violation "quotient robust planning requires frozen concretizer entries")
  makeAudit ids model threshold .quotient

end Solver

end Acfqp.Robust
