import Acfqp.Robust.LazyExact

/-!
# The reasons of failed audits

A failed audit names regret exactly when the regret exceeds its tolerance. It names risk when the
failure bound reaches the risk tolerance, although a policy is within the tolerance there: both
solvers differ from their own certification exactly when the policy they prefer sits on it.
-/

namespace Acfqp.Robust

open Library PartialSupportIntervalModel

/-- An audit of the exhaustive or of the lazy solver. -/
def Audited (ids : LazyIds) (model : PartialSupportIntervalModel)
    (threshold : RobustThresholdProfile) (solverKind : RobustSolverKind)
    (audit : RobustPlanAudit) : Prop :=
  solveRobustH2 ids.toPlannerIds model threshold solverKind = .ok audit ∨
    ∃ limits trace, solveExactLazyRobustH2 ids model threshold solverKind limits =
      .ok (.solved audit trace)

/-- The reported reason names what exceeds its tolerance, and nothing else. -/
def ReasonsAgree (threshold : RobustThresholdProfile) (audit : RobustPlanAudit) : Prop :=
  ∃ frontier, audit.failedFrontier = some frontier ∧
    (frontier.reason.namesRisk = true ↔ threshold.riskTolerance < audit.rootFailureUpper) ∧
    (frontier.reason.namesRegret = true ↔
      normalizedRegretTolerance < audit.normalizedRegretUpper)

/-- Among the policies within the risk tolerance, one that sits on it has the greatest lower reward,
and every other one with that reward does too. -/
def BoundaryPreferred (threshold : RobustThresholdProfile) (policies : List PolicyEvaluation) :
    Prop :=
  ∃ P ∈ policies, P.failureUpper = threshold.riskTolerance ∧
    ∀ Q ∈ policies, Q.failureUpper ≤ threshold.riskTolerance →
      Q.rewardLower < P.rewardLower ∨
        (Q.rewardLower = P.rewardLower ∧ P.failureUpper ≤ Q.failureUpper)

variable {ids : LazyIds} {model : PartialSupportIntervalModel}
  {threshold : RobustThresholdProfile} {solverKind : RobustSolverKind} {upper : ℚ}
  {policies : List PolicyEvaluation} {core : SolvedCore} {audit : RobustPlanAudit}
  {P Q : PolicyEvaluation}

section Selected

variable {ids : PlannerIds} (hcore : Optimal ids threshold policies upper core)
include hcore

variable (hfailed : core.status = .failedProofFrontier)
include hfailed

theorem not_meets (hQ : Q ∈ policies) : ¬ meetsTolerances threshold upper Q := fun hmeets => by
  have hle := hcore.stage_le hQ
  rw [stage_eq_zero.mpr hmeets, Nat.le_zero] at hle
  have hstatus := hcore.status_eq
  rw [if_pos hle, hfailed] at hstatus
  cases hstatus

/-- Within the risk tolerance, the selected policy has the greatest lower reward, and the least
failure among those. -/
theorem selected_preferred (hselected : riskFeasible threshold core.selected) (hQ : Q ∈ policies)
    (hrisk : riskFeasible threshold Q) : Q.rewardLower < core.selected.rewardLower ∨
      (Q.rewardLower = core.selected.rewardLower ∧
        core.selected.failureUpper ≤ Q.failureUpper) := by
  have hle := hcore.first Q hQ
  rw [policyOrderKey_feasible (not_meets hcore hfailed hcore.mem) hselected,
    policyOrderKey_feasible (not_meets hcore hfailed hQ) hrisk] at hle
  simp only [Prod.Lex.toLex_le_toLex, lt_irrefl, true_and, false_or] at hle
  have hregret : normalizedRegretTolerance < normalizedRegret threshold upper Q :=
    lt_of_not_ge fun hwithin => not_meets hcore hfailed hQ ⟨hrisk, hwithin⟩
  rcases lt_trichotomy Q.rewardLower core.selected.rewardLower with hlt | heq | hlt
  · exact .inl hlt
  · have hsame : normalizedRegret threshold upper core.selected =
        normalizedRegret threshold upper Q := by
      simp only [normalizedRegret, heq]
    rcases hle with hless | ⟨-, hless | ⟨hfailure, -⟩⟩
    · exact absurd hsame hless.ne
    · exact .inr ⟨heq, hless.le⟩
    · exact .inr ⟨heq, hfailure.le⟩
  · have hmore := normalizedRegret_lt hregret hlt
    rcases hle with hless | ⟨hsame, -⟩
    · exact absurd hmore hless.not_gt
    · exact absurd hsame hmore.ne'

theorem selected_boundary : core.selected.failureUpper = threshold.riskTolerance ↔
    BoundaryPreferred threshold policies := by
  constructor
  · intro heq
    exact ⟨core.selected, hcore.mem, heq, fun Q hQ hrisk =>
      selected_preferred hcore hfailed heq.le hQ hrisk⟩
  · rintro ⟨P, hP, hboundary, hpreferred⟩
    have hselected : riskFeasible threshold core.selected := by
      by_contra hrisky
      have hle := hcore.stage_le hP
      have hPrisk : riskFeasible threshold P := hboundary.le
      simp only [stage, if_neg (not_meets hcore hfailed hcore.mem), if_neg hrisky,
        if_neg (not_meets hcore hfailed hP), if_pos hPrisk] at hle
      omega
    have hforth := hpreferred core.selected hcore.mem hselected
    have hback := selected_preferred hcore hfailed hselected hP hboundary.le
    have hfailure : P.failureUpper ≤ core.selected.failureUpper := by
      rcases hforth with hlt | ⟨heq, hle⟩
      · exact absurd hlt (hback.elim (fun h => h.not_gt) fun h => h.1.not_gt)
      · exact hle
    exact le_antisymm hselected (hboundary.ge.trans hfailure)

end Selected

/-! ## The reported reasons -/

theorem auditFromCore_spec {ids : PlannerIds} {counterfactual : OtherOnlyCounterfactual}
    (h : auditFromCore ids model threshold solverKind core counterfactual = .ok audit) :
    audit.status = core.status ∧ audit.rootFailureUpper = core.selected.failureUpper ∧
      audit.normalizedRegretUpper = core.normalizedRegretUpper ∧
      (core.status = .failedProofFrontier → ∃ frontier, audit.failedFrontier = some frontier ∧
        frontier.reason = failedFrontierReason threshold core) := by
  unfold auditFromCore at h
  obtain ⟨other, -, h⟩ := bind_eq_ok.mp h
  obtain ⟨frontier, hfrontier, h⟩ := bind_eq_ok.mp h
  unfold RobustPlanAudit.validate at h
  simp only [bind_eq_ok] at h
  obtain ⟨-, -, -, -, -, -, -, -, -, -, -, -, h⟩ := h
  obtain rfl := Except.ok.inj h
  refine ⟨rfl, rfl, rfl, fun hfailed => ?_⟩
  rw [failedFrontier?, if_pos hfailed] at hfrontier
  obtain ⟨validated, hvalidated, heq⟩ := map_eq_ok.mp hfrontier
  refine ⟨validated, heq.symm, ?_⟩
  unfold FailedProofFrontier.validate at hvalidated
  simp only [bind_eq_ok] at hvalidated
  obtain ⟨-, -, -, -, -, -, hvalidated⟩ := hvalidated
  obtain rfl := Except.ok.inj hvalidated
  rfl

theorem reason_names : ((failedFrontierReason threshold core).namesRisk = true ↔
      threshold.riskTolerance ≤ core.selected.failureUpper) ∧
    ((failedFrontierReason threshold core).namesRegret = true ↔
      normalizedRegretTolerance < core.normalizedRegretUpper ∨
        core.selected.failureUpper < threshold.riskTolerance) := by
  unfold failedFrontierReason
  by_cases hrisk : threshold.riskTolerance ≤ core.selected.failureUpper
  · by_cases hregret : normalizedRegretTolerance < core.normalizedRegretUpper
    · simp [hrisk, hregret, FailedFrontierReason.namesRisk, FailedFrontierReason.namesRegret]
    · simp [hrisk, hregret, FailedFrontierReason.namesRisk, FailedFrontierReason.namesRegret]
  · have hlt := not_le.mp hrisk
    simp [hrisk, hlt, FailedFrontierReason.namesRisk, FailedFrontierReason.namesRegret]

/-- The reasons of a failed core agree with its certification, unless the policy that is preferred
sits on the risk tolerance. -/
theorem reasons_agree_iff {ids : PlannerIds} (hcore : Optimal ids threshold policies upper core)
    (hfailed : core.status = .failedProofFrontier)
    {counterfactual : OtherOnlyCounterfactual}
    (haudit : auditFromCore ids model threshold solverKind core counterfactual = .ok audit) :
    ReasonsAgree threshold audit ↔ ¬ BoundaryPreferred threshold policies := by
  obtain ⟨-, hfailure, hregret, hfrontier⟩ := auditFromCore_spec haudit
  obtain ⟨frontier, hfound, hreason⟩ := hfrontier hfailed
  obtain ⟨hrisk, hregretNames⟩ := @reason_names threshold core
  rw [← selected_boundary hcore hfailed]
  constructor
  · rintro ⟨frontier', hfound', hagree, -⟩ heq
    obtain rfl := Option.some.inj (hfound.symm.trans hfound')
    rw [hreason, hrisk, hfailure] at hagree
    exact absurd (hagree.mp heq.ge) heq.le.not_gt
  · intro hne
    refine ⟨frontier, hfound, ?_, ?_⟩
    · rw [hreason, hrisk, hfailure]
      exact ⟨fun hle => lt_of_le_of_ne hle (Ne.symm hne), le_of_lt⟩
    · rw [hreason, hregretNames, hregret]
      refine ⟨fun hnames => hnames.elim id fun hlt => ?_, .inl⟩
      rw [hcore.regret_eq]
      exact lt_of_not_ge fun hwithin => not_meets hcore hfailed hcore.mem ⟨hlt.le, hwithin⟩

theorem audited_core (hids : ids.Distinct) {u : Unit}
    (hvalid : model.validate ids.toPlannerIds = .ok u)
    (h : Audited ids model threshold solverKind audit) :
    ∃ reader us roots upper policies core counterfactual,
      Setting ids.toPlannerIds model threshold solverKind reader us roots upper ∧
      reader.policies ids.toPlannerIds = .ok policies ∧
      Optimal ids.toPlannerIds threshold policies upper core ∧
      auditFromCore ids.toPlannerIds model threshold solverKind core counterfactual =
        .ok audit := by
  have hmodel := WellFormed.of_validate hvalid
  rcases h with h | ⟨limits, trace, h⟩
  · obtain ⟨core, hcore, counterfactual, haudit⟩ : ∃ core,
        solveCore ids.toPlannerIds model threshold solverKind = .ok core ∧ ∃ counterfactual,
          auditFromCore ids.toPlannerIds model threshold solverKind core counterfactual =
            .ok audit := by
      obtain ⟨core, hcore, hmake⟩ := bind_eq_ok.mp (makeAudit_of_solve h).1
      obtain ⟨counterfactual, -, hmake⟩ := bind_eq_ok.mp hmake
      exact ⟨core, hcore, counterfactual, hmake⟩
    obtain ⟨-, reader, us, roots, upper, policies, hsetting, hpolicies, hoptimal⟩ :=
      solveCore_optimal hids.planner hmodel hcore
    exact ⟨reader, us, roots, upper, policies, core, counterfactual, hsetting, hpolicies, hoptimal,
      haudit⟩
  · obtain ⟨solved, counterfactual, hsolved, -, haudit⟩ := solveExactLazy_spec h
    obtain ⟨reader, us, roots, upper, policies, hsetting, hpolicies, -, hoptimal⟩ :=
      solveCoreLazy_optimal hids hmodel hsolved
    exact ⟨reader, us, roots, upper, policies, solved.core, counterfactual.1, hsetting, hpolicies,
      hoptimal, haudit⟩

/-- In every failed audit of either solver the reasons name exactly what exceeds its tolerance,
unless the policies that the solver prefers sit on the risk tolerance. -/
theorem failedAudit_reasons (hids : ids.Distinct) {u : Unit}
    (hvalid : model.validate ids.toPlannerIds = .ok u)
    (h : Audited ids model threshold solverKind audit)
    (hfailed : audit.status = .failedProofFrontier) :
    ∃ reader policies, solverReader ids.toPlannerIds model threshold solverKind = .ok reader ∧
      reader.policies ids.toPlannerIds = .ok policies ∧
      (ReasonsAgree threshold audit ↔ ¬ BoundaryPreferred threshold policies) := by
  obtain ⟨reader, us, roots, upper, policies, core, counterfactual, hsetting, hpolicies, hoptimal,
    haudit⟩ := audited_core hids hvalid h
  exact ⟨reader, policies, hsetting.reader_eq, hpolicies, reasons_agree_iff hoptimal
    ((auditFromCore_spec haudit).1.symm.trans hfailed) haudit⟩

/-- Every failure is tolerated. -/
def sureThreshold : RobustThresholdProfile :=
  ⟨"context", 1, 1, ceiling_one_pos, one_le_one, ceiling_one_pos⟩

def stepIds : LazyIds :=
  { codedIds with
    rowId := shortened [startRow] IntervalSimplexRow.stateId codedIds.rowId
    assignmentId := shortened [⟨.groundState, "start", 2, "go"⟩] RobustPolicyAssignment.scopeKey
      codedIds.assignmentId }

theorem stepIds_distinct : stepIds.Distinct :=
  { codedIds_distinct with
    planner := { codedIds_distinct.planner with
      rowId := shortened_injective (by decide) codedIds_distinct.planner.rowId
      assignmentId := shortened_injective (by decide) codedIds_distinct.planner.assignmentId } }

theorem failedAudit_reasons_sample : ∃ audit,
    solveRobustH2 stepIds.toPlannerIds (unobservedModel []) sureThreshold .groundDirect =
      .ok audit ∧
    ∃ reader policies,
      solverReader stepIds.toPlannerIds (unobservedModel []) sureThreshold .groundDirect =
        .ok reader ∧
      reader.policies stepIds.toPlannerIds = .ok policies ∧
      (ReasonsAgree sureThreshold audit ↔ ¬ BoundaryPreferred sureThreshold policies) := by
  have hsolved : (solveRobustH2 stepIds.toPlannerIds (unobservedModel []) sureThreshold
      .groundDirect).map (·.status) = .ok .failedProofFrontier := by
    decide +kernel
  obtain ⟨audit, haudit, hfailed⟩ := map_eq_ok.mp hsolved
  exact ⟨audit, haudit, failedAudit_reasons stepIds_distinct (u := ()) (by decide +kernel)
    (.inl haudit) hfailed⟩

end Acfqp.Robust
