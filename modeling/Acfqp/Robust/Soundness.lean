import Acfqp.Robust.PolicySoundness
import Acfqp.Robust.Totality

/-!
# Robust plans are sound

On an accepted model an audit speaks about every consistent kernel: the selected policy returns at
least the audited lower reward and fails at most with the audited probability, no ground policy
returns more than the unrestricted reward, and a certified audit keeps the true failure and the true
normalized regret within their tolerances.
-/

namespace Acfqp.Robust

open Library PartialSupportIntervalModel

variable {σ : Type} {ids : PlannerIds} {model : PartialSupportIntervalModel}
  {threshold : RobustThresholdProfile} {kernel : TrueKernel σ} {policy : GroundPolicy σ}
  {childValues : ChildValues} {row : IntervalSimplexRow}

/-! ## Evaluated root rows -/

section

variable {category : SelectedRowCategory} {policyScopeKey : String} {e : RowEvaluation}
  (hmodel : WellFormed ids model)

/-- The evaluation of a root row finds a value for every active destination. -/
theorem exists_childValue (he : evaluateGroundRow ids model threshold childValues category
      policyScopeKey row = .ok e) (hroot : 1 < row.remainingHorizon)
    {item : IntervalDestinationMass} (hitem : item ∈ row.masses) {d : RegisteredDestination}
    (hd : model.destination item.destinationId = some d) {stateId : String}
    (hcategory : d.category = .activeState stateId) :
    ∃ v, childValues.lookup stateId = some v := by
  obtain ⟨values, hvalues, -⟩ := bind_eq_ok.mp he
  obtain ⟨_, -, hvalue⟩ := exists_of_mapM hvalues hitem
  obtain ⟨value, hvalue, -⟩ := bind_eq_ok.mp hvalue
  unfold destinationValue at hvalue
  rw [bind_of_ok (orRaise_eq_ok.mpr hd), hcategory] at hvalue
  simp only [hroot, if_true] at hvalue
  obtain ⟨v, hv, -⟩ := bind_eq_ok.mp hvalue
  exact ⟨v, orRaise_eq_ok.mp hv⟩

include hmodel

theorem covered_of_evaluated (hrow : row ∈ model.rows)
    (hbounded : ∀ s v, childValues.lookup s = some v → Bounded threshold v)
    (he : evaluateGroundRow ids model threshold childValues category policyScopeKey row = .ok e) :
    Covered model threshold childValues row := by
  refine ⟨hmodel.registered hrow, fun hroot item hitem d s hd hcategory => ?_⟩
  obtain ⟨v, hv⟩ := exists_childValue he hroot hitem hd hcategory
  exact ⟨v, hv, hbounded s v hv⟩

/-- Where all root rows are evaluated over reached states, they list nothing else. -/
theorem activeListed_of_evaluated {root : StateActionCatalogue}
    (hroot : model.catalogue model.rootStateId = some root)
    (hreached : ∀ s v, childValues.lookup s = some v → Reached model s)
    (h : ∀ action ∈ root.actions, ∃ value, evaluateGroundAction ids model threshold childValues
      .rootSelected model.rootStateId 2 action.actionId = .ok value) : ActiveListed model := by
  intro row hrow htwo item hitem d s hd hcategory
  obtain ⟨action, haction, hkey⟩ := List.mem_map.mp ((hmodel.mem_rootKeys hroot hrow).mp htwo)
  obtain ⟨value, hvalue⟩ := h action haction
  obtain ⟨row', e, hrow', he, -⟩ := evaluateGroundAction_spec hvalue
  rw [hkey, hmodel.row_eq hrow] at hrow'
  obtain rfl := Option.some.inj hrow'
  obtain ⟨v, hv⟩ := exists_childValue he (by omega) hitem hd hcategory
  exact hreached s v hv

end

section Audited

variable {solverKind : RobustSolverKind} {reader : PolicyReader} {audit : RobustPlanAudit}
  {choice : List (ChildScope × String)} {rootAction : String}

def RobustPolicyAssignment.position (item : RobustPolicyAssignment) : PolicyScope × String × ℕ :=
  (item.scope, item.scopeKey, item.remainingHorizon)

def choiceAssignments (reader : PolicyReader) (choice : List (ChildScope × String))
    (rootAction : String) : List RobustPolicyAssignment :=
  ⟨reader.scope, reader.rootKey, 2, rootAction⟩ ::
    choice.map fun c => ⟨reader.scope, c.1.key, 1, c.2⟩

theorem assigned_eq {l : List RobustPolicyAssignment} (hperm : audit.assignments.Perm l)
    (hkeys : (l.map RobustPolicyAssignment.position).Nodup) {item : RobustPolicyAssignment}
    (hitem : item ∈ l) :
    audit.assigned item.scope item.scopeKey item.remainingHorizon =
      some item.selectedActionKey := by
  have hfind : audit.assignments.find? (fun x => x.scope = item.scope ∧
      x.scopeKey = item.scopeKey ∧ x.remainingHorizon = item.remainingHorizon) = some item := by
    have hfind := Dict.find?_eq_some ((hperm.map _).nodup_iff.mpr hkeys) (hperm.mem_iff.mpr hitem)
    simpa only [RobustPolicyAssignment.position, Prod.mk.injEq] using hfind
  rw [RobustPlanAudit.assigned, hfind]
  rfl

variable (hreads : ReadsModel ids model threshold solverKind reader)
  (hchosen : Chosen reader choice)
include hreads hchosen

theorem choiceAssignments_nodup :
    ((choiceAssignments reader choice rootAction).map RobustPolicyAssignment.position).Nodup := by
  have hkeys := hreads.keys_nodup
  rw [← hchosen.1, List.map_map] at hkeys
  refine List.nodup_cons.mpr ⟨fun hmem => ?_, ?_⟩
  · obtain ⟨item, hitem, heq⟩ := List.mem_map.mp hmem
    obtain ⟨c, -, rfl⟩ := List.mem_map.mp hitem
    simp [RobustPolicyAssignment.position] at heq
  · refine List.Nodup.of_map (fun position => position.2.1) ?_
    rwa [List.map_map, List.map_map]

variable (hkind : audit.solverKind = solverKind)
  (hassignments : audit.assignments.Perm (choiceAssignments reader choice rootAction))
include hkind hassignments

theorem decision_root {root : StateActionCatalogue}
    (hroot : model.catalogue model.rootStateId = some root) :
    audit.decision model model.rootStateId 2 = realize model solverKind root rootAction := by
  have hassigned := assigned_eq hassignments
    (choiceAssignments_nodup hreads hchosen) List.mem_cons_self
  simp only [hreads.scope, hreads.rootKey root hroot] at hassigned
  simp only [RobustPlanAudit.decision, hroot, Option.elim_some, hkind, hassigned]

theorem decision_child {c : ChildScope × String} (hc : c ∈ choice) {stateId : String}
    (hstate : stateId ∈ c.1.stateIds) {catalogue : StateActionCatalogue}
    (hcatalogue : model.catalogue stateId = some catalogue) :
    audit.decision model stateId 1 = realize model solverKind catalogue c.2 := by
  have hassigned := assigned_eq hassignments
    (choiceAssignments_nodup hreads hchosen)
    (List.mem_cons_of_mem _ (List.mem_map_of_mem hc))
  have hchild : c.1 ∈ reader.children := hchosen.1 ▸ List.mem_map_of_mem hc
  simp only [hreads.scope, hreads.childKey c.1 hchild stateId hstate catalogue hcatalogue]
    at hassigned
  simp only [RobustPlanAudit.decision, hcatalogue, Option.elim_some, hkind, hassigned]

theorem follows_guarantees (hmodel : WellFormed ids model)
    (hkernel : Consistent model kernel threshold) (hfollows : policy.Follows model audit)
    {part : List RobustPolicyAssignment × ChildValues} (hpart : reader.childPart choice = .ok part)
    {root : StateActionEvaluation} (hroot : reader.evaluateRoot part.2 rootAction = .ok root) :
    Guarantees root (kernel.trueReturn model policy) (kernel.trueFailure model policy) := by
  obtain ⟨rootCatalogue, hrootCatalogue⟩ := hmodel.exists_root
  obtain ⟨-, hvalues⟩ := childPart_spec hpart
  have hbounded : ∀ s v, part.2.lookup s = some v → Bounded threshold v := fun s v hv => by
    obtain ⟨c, -, -, hvalue⟩ := hvalues s v hv
    exact hreads.bounded s c.2 v hvalue
  -- Every child state guarantees its value under what the audit selects there.
  have hchild : ∀ s v, part.2.lookup s = some v →
      Guarantees v (mixture (audit.decision model s 1) (kernel.lastReward s))
        (mixture (audit.decision model s 1) (kernel.lastFailure model s)) := by
    intro s v hv
    obtain ⟨c, hc, hstate, hvalue⟩ := hvalues s v hv
    have hmem : c.1 ∈ reader.children := hchosen.1 ▸ List.mem_map_of_mem hc
    obtain ⟨catalogue, hcatalogue⟩ := hmodel.exists_catalogue
      ((hreads.reached s).mp (List.mem_flatMap.mpr ⟨c.1, hmem, hstate⟩))
    rw [decision_child hreads hchosen hkind hassignments hc hstate hcatalogue]
    exact hreads.child s catalogue c.2 v hcatalogue hvalue _ _
      fun actionId row category key e hrow he => (lastStep_bounds hmodel hkernel hrow he).1
  have hlaw := decision_root hreads hchosen hkind hassignments hrootCatalogue
  rw [TrueKernel.trueReturn, TrueKernel.trueFailure, hfollows.root, hlaw]
  refine hreads.root rootCatalogue part.2 rootAction root hrootCatalogue hroot _ _
    fun actionId row category key e hrow he => ?_
  refine root_guarantees hmodel hkernel hrow
    (covered_of_evaluated hmodel (mem_of_row hrow).1 hbounded he) he
    (fun o state => hfollows.hidden actionId o state) fun o destinationId s v hlanding
      hactive hv => ?_
  rw [hfollows.next actionId o destinationId s hlanding hactive]
  exact hchild s v hv

end Audited

section

variable (hmodel : WellFormed ids model) (hkernel : Consistent model kernel threshold)
  (hlegal : policy.Legal model)
include hmodel hkernel hlegal

omit hmodel hkernel hlegal in
theorem exists_bestChoice {reader : PolicyReader}
    (hown : ∀ child ∈ reader.children, ∃ stateId, OwnScope model stateId child)
    (reward : String → String → ℚ) : ∃ choice, Chosen reader choice ∧ ∀ c ∈ choice, ∀ s a,
      s ∈ c.1.stateIds → HasAction model s a → reward s a ≤ reward s c.2 := by
  have heach : ∀ child ∈ reader.children, ∃ c : ChildScope × String, c.1 = child ∧
      c.2 ∈ child.domain ∧ ∀ s a, s ∈ child.stateIds → HasAction model s a →
        reward s a ≤ reward s c.2 := by
    intro child hchild
    obtain ⟨stateId, -, hstates, catalogue, hcatalogue, hdomain⟩ := hown child hchild
    have hne : child.domain ≠ [] := by
      rw [hdomain]
      exact fun hnil => catalogue.actions_ne_nil (List.map_eq_nil_iff.mp hnil)
    obtain ⟨best, hbest, hargmin⟩ := exists_argmin (fun a => -reward stateId a) hne
    refine ⟨(child, best), rfl, hbest, fun s a hs ha => ?_⟩
    rw [hstates, List.mem_singleton] at hs
    subst hs
    obtain ⟨catalogue', hcatalogue', ha⟩ := ha
    obtain rfl := Option.some.inj (hcatalogue.symm.trans hcatalogue')
    have hmem : a ∈ child.domain := hdomain ▸ ha
    have hle := List.le_of_mem_argmin hmem hargmin
    exact neg_le_neg_iff.mp hle
  obtain ⟨choice, hchoice⟩ := exists_forall₂ heach
  have hchildren : reader.children.map id = choice.map Prod.fst :=
    map_of_forall₂ hchoice fun _ _ _ h => h.1.symm
  rw [List.map_id] at hchildren
  refine ⟨choice, ⟨hchildren.symm, fun c hc => ?_⟩, fun c hc => ?_⟩
  · obtain ⟨_, -, rfl, hdomain, -⟩ := exists_mem_of_forall₂ hchoice hc
    exact hdomain
  · obtain ⟨_, -, rfl, -, hbest⟩ := exists_mem_of_forall₂ hchoice hc
    exact hbest

theorem trueReturn_le_max {reader : PolicyReader} {evaluations : List PolicyEvaluation} {upper : ℚ}
    (hreader : directReader ids model threshold = .ok reader)
    (hevaluations : reader.policies ids = .ok evaluations) (hlisted : ActiveListed model)
    (hupper : ∀ item ∈ evaluations, item.rewardUpper ≤ upper) :
    kernel.trueReturn model policy ≤ upper := by
  obtain ⟨hreads, hrootActions, hevaluateChild, hevaluateRoot, hown⟩ :=
    directReader_readsModel hmodel hreader
  obtain ⟨choice, hchosen, hbest⟩ := exists_bestChoice hown kernel.lastReward
  obtain ⟨part, hpart, hpolicies⟩ := policies_of_choice hevaluations hchosen
  obtain ⟨-, hvalues⟩ := childPart_spec hpart
  have hbounded : ∀ s v, part.2.lookup s = some v → Bounded threshold v := fun s v hv => by
    obtain ⟨c, -, -, hvalue⟩ := hvalues s v hv
    exact hreads.bounded s c.2 v hvalue
  refine hlegal.root.mixture_le fun actionId haction => ?_
  obtain ⟨root, hroot, haction⟩ := haction
  obtain ⟨item, hitem, hpolicy⟩ := hpolicies actionId (hrootActions root hroot ▸ haction)
  obtain ⟨value, hvalue, -, hitemUpper, -⟩ := policy_spec hpolicy
  rw [hevaluateRoot] at hvalue
  obtain ⟨row, e, hrow, he, rfl⟩ := evaluateGroundAction_spec hvalue
  refine (rootReward_le hmodel hkernel hrow
    (covered_of_evaluated hmodel (mem_of_row hrow).1 hbounded he) he hlisted hlegal
    fun s v a hv ha => ?_).trans (hitemUpper.ge.trans (hupper item hitem))
  obtain ⟨c, hc, hstate, hvalue⟩ := hvalues s v hv
  rw [hevaluateChild] at hvalue
  obtain ⟨row, e, hrow, he, rfl⟩ := evaluateGroundAction_spec hvalue
  exact (hbest c hc s a hstate ha).trans (lastStep_bounds hmodel hkernel hrow he).2

theorem trueReturn_le_unrestricted {best : ChildValues} {upper : ℚ} (hlisted : ActiveListed model)
    (hbest : Unrestricted ids model threshold best upper) :
    kernel.trueReturn model policy ≤ upper := by
  refine hlegal.root.mixture_le fun actionId haction => ?_
  obtain ⟨root, hroot, hlistedAction⟩ := haction
  obtain ⟨action, haction, rfl⟩ := List.mem_map.mp hlistedAction
  obtain ⟨value, hvalue, hle⟩ := hbest.root root hroot action haction
  obtain ⟨row, e, hrow, he, rfl⟩ := evaluateGroundAction_spec hvalue
  obtain ⟨hmem, hkey⟩ := mem_of_row hrow
  have hcovered : Covered model threshold best row := covered_root hmodel hlisted hmem
    (congrArg (fun key : RowKey => key.2.1) hkey) hbest.values
  refine (rootReward_le hmodel hkernel hrow hcovered he hlisted hlegal fun s v a hv ha => ?_).trans
    hle
  obtain ⟨catalogue, hcatalogue, hlistedAction⟩ := ha
  obtain ⟨action, haction, rfl⟩ := List.mem_map.mp hlistedAction
  obtain ⟨candidate, hcandidate, hle⟩ := hbest.child s v catalogue hv hcatalogue action haction
  obtain ⟨row, e, hrow, he, rfl⟩ := evaluateGroundAction_spec hcandidate
  exact (lastStep_bounds hmodel hkernel hrow he).2.trans hle

end

/-! ## Audits -/

theorem makeAudit_spec {solverKind : RobustSolverKind} {audit : RobustPlanAudit}
    (h : makeAudit ids model threshold solverKind = .ok audit) : ∃ core,
      solveCore ids model threshold solverKind = .ok core ∧ audit.solverKind = solverKind ∧
      audit.status = core.status ∧ audit.assignments = core.selected.assignments ∧
      audit.rootRewardLower = core.selected.rewardLower ∧
      audit.rootFailureUpper = core.selected.failureUpper ∧
      audit.unrestrictedRewardUpper = core.unrestrictedRewardUpper := by
  obtain ⟨core, hcore, h⟩ := bind_eq_ok.mp h
  obtain ⟨counterfactual, -, h⟩ := bind_eq_ok.mp h
  unfold auditFromCore at h
  obtain ⟨other, -, h⟩ := bind_eq_ok.mp h
  obtain ⟨frontier, -, h⟩ := bind_eq_ok.mp h
  unfold RobustPlanAudit.validate at h
  simp only [bind_eq_ok] at h
  obtain ⟨-, -, -, -, -, -, -, -, -, -, -, -, h⟩ := h
  obtain rfl := Except.ok.inj h
  exact ⟨core, hcore, rfl, rfl, rfl, rfl, rfl, rfl⟩

/-- The core that is chosen is one of the policies, and is certified within both tolerances. -/
theorem choosePolicy_core {unrestrictedRewardUpper : ℚ} {evaluations : List PolicyEvaluation}
    {core : SolvedCore}
    (h : choosePolicy ids threshold unrestrictedRewardUpper evaluations = .ok core) :
    core.selected ∈ evaluations ∧ core.unrestrictedRewardUpper = unrestrictedRewardUpper ∧
      (core.status = .certified →
        meetsTolerances threshold unrestrictedRewardUpper core.selected) := by
  obtain ⟨⟨selected, status⟩, hselected, hcore⟩ := bind_eq_ok.mp h
  obtain rfl := Except.ok.inj hcore
  have hselected := orRaise_eq_ok.mp hselected
  unfold selectPolicy at hselected
  dsimp only at hselected
  split at hselected
  · obtain ⟨item, hitem, heq⟩ := Option.map_eq_some_iff.mp hselected
    obtain ⟨rfl, rfl⟩ := Prod.mk.inj heq
    obtain ⟨hmem, hmeets⟩ := List.mem_filter.mp (List.argmin_mem hitem)
    exact ⟨hmem, rfl, fun _ => of_decide_eq_true hmeets⟩
  · obtain ⟨item, hitem, heq⟩ := Option.map_eq_some_iff.mp hselected
    obtain ⟨rfl, rfl⟩ := Prod.mk.inj heq
    refine ⟨?_, rfl, fun hcertified => by cases hcertified⟩
    split at hitem
    · exact (List.mem_filter.mp (List.argmin_mem hitem)).1
    · exact List.argmin_mem hitem

section Cores

variable (hmodel : WellFormed ids model)
include hmodel

theorem direct_listed {reader : PolicyReader} {evaluations : List PolicyEvaluation}
    (hreader : directReader ids model threshold = .ok reader)
    (hevaluations : reader.policies ids = .ok evaluations) {item : PolicyEvaluation}
    (hitem : item ∈ evaluations) : ActiveListed model := by
  obtain ⟨hreads, hrootActions, -, hevaluateRoot, -⟩ := directReader_readsModel hmodel hreader
  obtain ⟨choice, -, hchosen, -, -⟩ := choice_of_mem_policies hevaluations hitem
  obtain ⟨part, hpart, hpolicies⟩ := policies_of_choice hevaluations hchosen
  obtain ⟨-, hvalues⟩ := childPart_spec hpart
  obtain ⟨root, hroot⟩ := hmodel.exists_root
  have hrows : ∀ action ∈ root.actions, ∃ value, evaluateGroundAction ids model threshold part.2
      .rootSelected model.rootStateId 2 action.actionId = .ok value := fun action haction => by
    obtain ⟨policy, -, hpolicy⟩ :=
      hpolicies action.actionId (hrootActions root hroot ▸ List.mem_map_of_mem haction)
    obtain ⟨value, hvalue, -⟩ := policy_spec hpolicy
    rw [hevaluateRoot] at hvalue
    exact ⟨value, hvalue⟩
  refine activeListed_of_evaluated hmodel hroot (fun s v hv => ?_) hrows
  obtain ⟨c, hc, hstate, -⟩ := hvalues s v hv
  exact (hreads.reached s).mp
    (List.mem_flatMap.mpr ⟨c.1, hchosen.1 ▸ List.mem_map_of_mem hc, hstate⟩)

/-- Where the unrestricted reward is found, the root rows list nothing but reached states. -/
theorem unrestricted_listed {upper : ℚ}
    (h : unrestrictedGroundRewardUpper ids model threshold = .ok upper) : ActiveListed model := by
  obtain ⟨states, hstates, -, hreached⟩ := reachableChildStates_eq hmodel
  unfold unrestrictedGroundRewardUpper at h
  rw [bind_of_ok hstates] at h
  obtain ⟨best, hbest, h⟩ := bind_eq_ok.mp h
  obtain ⟨root, hroot, h⟩ := bind_eq_ok.mp h
  obtain ⟨rootValues, hrootValues, -⟩ := bind_eq_ok.mp h
  have hrows : ∀ action ∈ root.actions, ∃ value, evaluateGroundAction ids model threshold best
      .rootSelected model.rootStateId 2 action.actionId = .ok value := fun action haction => by
    obtain ⟨value, -, hvalue⟩ := exists_of_mapM hrootValues haction
    exact ⟨value, hvalue⟩
  refine activeListed_of_evaluated hmodel (orRaise_eq_ok.mp hroot) (fun s v hv => ?_) hrows
  obtain ⟨stateId, hstate, hrun⟩ := mem_of_mapM hbest (Dict.lookup_mem hv)
  obtain ⟨_, -, hrun⟩ := bind_eq_ok.mp hrun
  obtain ⟨_, -, hrun⟩ := bind_eq_ok.mp hrun
  obtain ⟨_, -, hrun⟩ := bind_eq_ok.mp hrun
  obtain ⟨rfl, -⟩ := Prod.mk.injEq .. ▸ Except.ok.inj hrun
  exact (hreached _).mp hstate

theorem solveCore_spec (hkernel : Consistent model kernel threshold)
    {solverKind : RobustSolverKind} {core : SolvedCore}
    (h : solveCore ids model threshold solverKind = .ok core) :
    (∃ reader evaluations, ReadsModel ids model threshold solverKind reader ∧
      reader.policies ids = .ok evaluations ∧ core.selected ∈ evaluations) ∧
    (core.status = .certified →
      meetsTolerances threshold core.unrestrictedRewardUpper core.selected) ∧
    ∀ policy : GroundPolicy σ, policy.Legal model →
      kernel.trueReturn model policy ≤ core.unrestrictedRewardUpper := by
  obtain ⟨_, -, h⟩ := bind_eq_ok.mp h
  cases solverKind with
  | groundDirect =>
    obtain ⟨evaluations, hrun, h⟩ := bind_eq_ok.mp h
    obtain ⟨hselected, hunrestricted, hcertified⟩ := choosePolicy_core h
    obtain ⟨reader, hreader, hrun⟩ := bind_eq_ok.mp hrun
    obtain ⟨_, -, hevaluations⟩ := bind_eq_ok.mp hrun
    have hlisted := direct_listed hmodel hreader hevaluations hselected
    refine ⟨⟨reader, evaluations, (directReader_readsModel hmodel hreader).1, hevaluations,
      hselected⟩, hunrestricted ▸ hcertified, fun policy hlegal => ?_⟩
    refine hunrestricted ▸ trueReturn_le_max hmodel hkernel hlegal hreader hevaluations hlisted
      fun item hitem => ?_
    obtain ⟨upper, hupper⟩ := Option.ne_none_iff_exists'.mp (List.max?_eq_none_iff.not.mpr
      (List.ne_nil_of_mem (List.mem_map_of_mem (f := PolicyEvaluation.rewardUpper) hitem)))
    rw [hupper, Option.getD_some]
    exact le_max? hupper (List.mem_map_of_mem hitem)
  | quotient =>
    obtain ⟨upper, hupper, h⟩ := bind_eq_ok.mp h
    obtain ⟨evaluations, hrun, h⟩ := bind_eq_ok.mp h
    obtain ⟨hselected, hunrestricted, hcertified⟩ := choosePolicy_core h
    obtain ⟨reader, hreader, hrun⟩ := bind_eq_ok.mp hrun
    obtain ⟨_, -, hevaluations⟩ := bind_eq_ok.mp hrun
    have hlisted := unrestricted_listed hmodel hupper
    obtain ⟨best, hbest⟩ := (unrestricted_yields hmodel hlisted).post hupper
    exact ⟨⟨reader, evaluations, quotientReader_readsModel hmodel hreader, hevaluations,
      hselected⟩, hunrestricted ▸ hcertified, fun policy hlegal =>
        hunrestricted ▸ trueReturn_le_unrestricted hmodel hkernel hlegal hlisted hbest⟩

end Cores

/-- What an audit says about a kernel. -/
structure Speaks (model : PartialSupportIntervalModel) (threshold : RobustThresholdProfile)
    (audit : RobustPlanAudit) (kernel : TrueKernel σ) : Prop where
  reward : ∀ policy : GroundPolicy σ, policy.Follows model audit →
    audit.rootRewardLower ≤ kernel.trueReturn model policy
  failure : ∀ policy : GroundPolicy σ, policy.Follows model audit →
    kernel.trueFailure model policy ≤ audit.rootFailureUpper
  unrestricted : ∀ policy : GroundPolicy σ, policy.Legal model →
    kernel.trueReturn model policy ≤ audit.unrestrictedRewardUpper
  certified : audit.status = .certified → ∀ policy : GroundPolicy σ, policy.Follows model audit →
    kernel.trueFailure model policy ≤ threshold.riskTolerance ∧
    ∀ other : GroundPolicy σ, other.Legal model →
      (kernel.trueReturn model other - kernel.trueReturn model policy) / threshold.rewardCeiling ≤
        normalizedRegretTolerance

theorem makeAudit_speaks {u : Unit} (hvalid : model.validate ids = .ok u)
    {solverKind : RobustSolverKind} {audit : RobustPlanAudit}
    (h : makeAudit ids model threshold solverKind = .ok audit)
    (hkernel : Consistent model kernel threshold) : Speaks model threshold audit kernel := by
  have hmodel := WellFormed.of_validate hvalid
  obtain ⟨core, hcore, hkind, hstatus, hassignments, hlower, hfailure, hupper⟩ := makeAudit_spec h
  obtain ⟨⟨reader, evaluations, hreads, hevaluations, hselected⟩, hcertified, hunrestricted⟩ :=
    solveCore_spec hmodel hkernel hcore
  obtain ⟨choice, part, hchosen, hpart, rootAction, -, hpolicy⟩ :=
    choice_of_mem_policies hevaluations hselected
  obtain ⟨root, hroot, hrootLower, -, hrootFailure, hperm⟩ := policy_spec hpolicy
  rw [← hassignments, (childPart_spec hpart).1] at hperm
  have hguarantees : ∀ policy : GroundPolicy σ, policy.Follows model audit →
      audit.rootRewardLower ≤ kernel.trueReturn model policy ∧
        kernel.trueFailure model policy ≤ audit.rootFailureUpper := by
    intro policy hfollows
    have hboth := follows_guarantees hreads hchosen hkind hperm hmodel hkernel hfollows hpart hroot
    rw [hlower, hfailure, hrootLower, hrootFailure]
    exact ⟨hboth.reward, hboth.failure⟩
  refine ⟨fun policy hfollows => (hguarantees policy hfollows).1,
    fun policy hfollows => (hguarantees policy hfollows).2,
    fun policy hlegal => hupper ▸ hunrestricted policy hlegal,
    fun hcert policy hfollows => ?_⟩
  obtain ⟨hrisk, hregret⟩ := hcertified (hstatus ▸ hcert)
  obtain ⟨hreturn, hfails⟩ := hguarantees policy hfollows
  refine ⟨hfails.trans (hfailure ▸ hrisk), fun other hlegal => ?_⟩
  refine le_trans (div_le_div_of_nonneg_right ?_ threshold.ceiling_pos.le) hregret
  refine le_trans ?_ (le_max_right _ _)
  exact sub_le_sub (hunrestricted other hlegal) (hlower ▸ hreturn)

/-- Both solvers are sound: what their audits say holds of every consistent kernel. -/
theorem solveRobustH2_sound {u : Unit} (hvalid : model.validate ids = .ok u)
    (hkernel : Consistent model kernel threshold) :
    (∀ audit, solveGroundDirectRobustH2 ids model threshold = .ok audit →
      Speaks model threshold audit kernel) ∧
    ∀ audit, solveQuotientRobustH2 ids model threshold = .ok audit →
      Speaks model threshold audit kernel := by
  refine ⟨fun audit h => makeAudit_speaks hvalid h hkernel, fun audit h => ?_⟩
  obtain ⟨_, -, h⟩ := bind_eq_ok.mp h
  exact makeAudit_speaks hvalid h hkernel

/-! ## A certified model -/

section

def walkIds : PlannerIds where
  rowId row := row.stateId
  concretizerEntryId entry := entry.stateId
  modelId model := model.rootStateId
  thresholdProfileId threshold := threshold.contextId
  assignmentId item := item.scopeKey ++ if item.remainingHorizon = 1 then "1" else "2"
  rowBoundId bound := bound.rowId
  provenanceId item := item.rowId
  otherMassProvenanceId item := item.rowId

def certifiesWalk (solve : PlannerIds → PartialSupportIntervalModel → RobustThresholdProfile →
    Except PlannerError RobustPlanAudit) : Bool :=
  match solve walkIds walkModel evenThreshold with
  | .ok audit => audit.status = .certified
  | .error _ => false

def walkOutcomes (stop : String) : List (Outcome Unit) :=
  [⟨39 / 40, 1 / 4, .named stop⟩, ⟨1 / 40, 1 / 4, .hidden ()⟩]

def walkKernel : TrueKernel Unit where
  outcomes key := walkOutcomes (if key.2.1 = 2 then "beyond" else "done")
  hiddenReward _ _ := 3 / 4
  hiddenFailure _ _ := 1
  hiddenFailed _ := 1

theorem walkOutcomes_consistent {stateId stop : String} {remainingHorizon : ℕ}
    (horizon : remainingHorizon = 1 ∨ remainingHorizon = 2) (h : stop < "elsewhere") :
    ConsistentRow (walkRow stateId remainingHorizon stop horizon h) (walkOutcomes stop) := by
  have hne : stop ≠ "elsewhere" := h.ne
  refine ⟨fun o ho => ?_, fun o ho => ?_, ⟨fun item hitem => ?_, ?_⟩, fun o ho => ?_⟩
  · rcases List.mem_pair.mp ho with rfl | rfl <;> norm_num
  · rcases List.mem_pair.mp ho with rfl | rfl <;>
      simp [walkRow, Landing.place, mostMass, littleMass]
  · rcases List.mem_pair.mp hitem with rfl | rfl <;>
      norm_num [landingMass, walkOutcomes, walkRow, Landing.place, mostMass, littleMass, hne,
        hne.symm]
  · norm_num [landingMass, walkOutcomes, walkRow, Landing.place, mostMass, littleMass, hne,
      hne.symm]
  · rcases List.mem_pair.mp ho with rfl | rfl <;> simp [walkRow]

theorem walkKernel_consistent : Consistent walkModel walkKernel evenThreshold := by
  refine ⟨fun row hrow => ?_, fun _ _ => ?_, fun _ _ => le_rfl, fun _ => le_rfl,
    fun row hrow htwo o ho reward hreward => ?_⟩
  · rcases List.mem_pair.mp hrow with rfl | rfl
    · exact walkOutcomes_consistent _ done_lt
    · exact walkOutcomes_consistent _ beyond_lt
  · norm_num [walkKernel]
  · have hceiling : evenThreshold.rewardCeiling = 1 := rfl
    have hsecond : reward = 3 / 4 ∨ reward = 1 / 4 ∨ reward = 0 := by
      cases hlanding : o.landing with
      | hidden state =>
        rw [hlanding] at hreward
        obtain ⟨_, rfl⟩ := hreward
        exact .inl rfl
      | named destinationId =>
        rw [hlanding] at hreward
        cases hactive : walkModel.activeState destinationId with
        | none =>
          rw [TrueKernel.continuations_none hactive] at hreward
          exact .inr (.inr hreward)
        | some stateId =>
          rw [TrueKernel.mem_continuations_some hactive] at hreward
          obtain ⟨_, -, o', ho', rfl⟩ := hreward
          rcases List.mem_pair.mp ho' with rfl | rfl <;> exact .inr (.inl rfl)
    have hfirst : o.reward = 1 / 4 := by
      rcases List.mem_pair.mp ho with rfl | rfl <;> rfl
    rw [hceiling, hfirst]
    rcases hsecond with rfl | rfl | rfl <;> norm_num

/-- Both solvers certify the walk, and what they certify holds of its kernel. -/
theorem solveRobustH2_sound_walk :
    (certifiesWalk solveGroundDirectRobustH2 = true ∧
      certifiesWalk solveQuotientRobustH2 = true) ∧
    (∀ audit, solveGroundDirectRobustH2 walkIds walkModel evenThreshold = .ok audit →
      Speaks walkModel evenThreshold audit walkKernel) ∧
    ∀ audit, solveQuotientRobustH2 walkIds walkModel evenThreshold = .ok audit →
      Speaks walkModel evenThreshold audit walkKernel :=
  ⟨⟨by decide +kernel, by decide +kernel⟩,
    solveRobustH2_sound (u := ()) (by decide +kernel) walkKernel_consistent⟩

end

end Acfqp.Robust
