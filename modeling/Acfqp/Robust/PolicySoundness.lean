import Acfqp.Robust.Readers
import Acfqp.Robust.RowSoundness

/-!
# Enumerated policies

What the readers enumerate, taken from runs that return: which states decide under which key, how
an assigned action is evaluated, and which policies there are. No identifier has to be distinct
for this, and no destination has to be reached.
-/

namespace Acfqp.Robust

open Library PartialSupportIntervalModel

variable {ids : PlannerIds} {model : PartialSupportIntervalModel}
  {threshold : RobustThresholdProfile}

section Actions

variable {childValues : ChildValues} {category : SelectedRowCategory} {stateId action : String}
  {remainingHorizon : ℕ} {value : StateActionEvaluation} {catalogue : StateActionCatalogue}

/-- What every row guarantees for its action, the value guarantees on average over the law. -/
def AveragesOver (ids : PlannerIds) (model : PartialSupportIntervalModel)
    (threshold : RobustThresholdProfile) (childValues : ChildValues) (stateId : String)
    (remainingHorizon : ℕ) (law : List (String × ℚ)) (value : StateActionEvaluation) : Prop :=
  ∀ reward failure : String → ℚ, (∀ actionId row category policyScopeKey e,
    model.row (stateId, remainingHorizon, actionId) = some row →
    evaluateGroundRow ids model threshold childValues category policyScopeKey row = .ok e →
      Guarantees e.stateAction (reward actionId) (failure actionId)) →
    Guarantees value (mixture law reward) (mixture law failure)

theorem evaluateGroundAction_spec (h : evaluateGroundAction ids model threshold childValues category
    stateId remainingHorizon action = .ok value) :
    ∃ row e, model.row (stateId, remainingHorizon, action) = some row ∧
      evaluateGroundRow ids model threshold childValues category stateId row = .ok e ∧
      value = e.stateAction := by
  obtain ⟨row, hrow, hrest⟩ := bind_eq_ok.mp h
  obtain ⟨e, he, hvalue⟩ := bind_eq_ok.mp hrest
  exact ⟨row, e, orRaise_eq_ok.mp hrow, he, (Except.ok.inj hvalue).symm⟩

theorem groundAction_averages (h : evaluateGroundAction ids model threshold childValues category
    stateId remainingHorizon action = .ok value) :
    AveragesOver ids model threshold childValues stateId remainingHorizon (sure ℚ action)
      value := by
  obtain ⟨row, e, hrow, he, rfl⟩ := evaluateGroundAction_spec h
  intro reward failure hrows
  rw [mixture_sure, mixture_sure]
  exact hrows action row category stateId e hrow he

theorem concretized_averages (hcatalogue : model.catalogue stateId = some catalogue)
    (h : evaluateConcretizedStateAction ids model threshold childValues category stateId
      remainingHorizon action = .ok value) :
    AveragesOver ids model threshold childValues stateId remainingHorizon
      (realize model .quotient catalogue action) value := by
  unfold evaluateConcretizedStateAction catalogueOf at h
  rw [bind_of_ok (orRaise_eq_ok.mpr hcatalogue)] at h
  obtain ⟨entry, hentry, h⟩ := bind_eq_ok.mp h
  obtain ⟨rows, hrows, h⟩ := bind_eq_ok.mp h
  obtain ⟨_, -, hvalue⟩ := bind_eq_ok.mp h
  obtain rfl := Except.ok.inj hvalue
  have hlaw : realize model .quotient catalogue action = uniform ℚ entry.groundActionIds := by
    have hfound := orRaise_eq_ok.mp hentry
    rw [← (mem_of_catalogue hcatalogue).2] at hfound
    simp only [realize, hfound, Option.elim_some]
  intro reward failure hguarantees
  have hall : List.Forall₂ (fun actionId e =>
      Guarantees e.stateAction (reward actionId) (failure actionId))
        entry.groundActionIds rows := by
    refine (mapM_eq_ok.mp hrows).imp fun actionId e he => ?_
    obtain ⟨row, hrow, he⟩ := bind_eq_ok.mp he
    exact hguarantees actionId row _ _ e (orRaise_eq_ok.mp hrow) he
  have hlength : (rows.length : ℚ) = entry.groundActionIds.length := by rw [hall.length_eq]
  rw [hlaw, mixture_uniform, mixture_uniform]
  constructor
  · rw [← hlength]
    refine div_le_div_of_nonneg_right (List.Forall₂.sum_le_sum ?_) (Nat.cast_nonneg _)
    rw [List.forall₂_map_left_iff, List.forall₂_map_right_iff]
    exact hall.flip.imp fun _ _ h => h.reward
  · rw [← hlength]
    refine div_le_div_of_nonneg_right (List.Forall₂.sum_le_sum ?_) (Nat.cast_nonneg _)
    rw [List.forall₂_map_left_iff, List.forall₂_map_right_iff]
    exact hall.imp fun _ _ h => h.failure

theorem bounded_groundAction (hmodel : WellFormed ids model)
    (h : evaluateGroundAction ids model threshold childValues category stateId 1 action =
      .ok value) : Bounded threshold value := by
  obtain ⟨row, e, hrow, he, rfl⟩ := evaluateGroundAction_spec h
  obtain ⟨hmem, hkey⟩ := mem_of_row hrow
  have hcovered : Covered model threshold childValues row := covered_child hmodel hmem
    (congrArg (fun key : RowKey => key.2.1) hkey) childValues
  exact ((evaluateGroundRow_yields hcovered).post he).bounded

theorem bounded_concretized (hmodel : WellFormed ids model)
    (h : evaluateConcretizedStateAction ids model threshold childValues category stateId 1 action =
      .ok value) : Bounded threshold value := by
  obtain ⟨catalogue, -, h⟩ := bind_eq_ok.mp h
  obtain ⟨entry, -, h⟩ := bind_eq_ok.mp h
  obtain ⟨rows, hrows, h⟩ := bind_eq_ok.mp h
  have hne : rows ≠ [] := by
    obtain ⟨_, hne, -⟩ := bind_eq_ok.mp h
    exact require_eq_ok.mp hne
  obtain ⟨value', hvalue, hbounded, -⟩ := @averageActionEvaluations_eq threshold rows hne
    fun e he => by
      obtain ⟨actionId, -, hrun⟩ := mem_of_mapM hrows he
      obtain ⟨row, hrow, he⟩ := bind_eq_ok.mp hrun
      obtain ⟨hmem, hkey⟩ := mem_of_row (orRaise_eq_ok.mp hrow)
      have hcovered : Covered model threshold childValues row := covered_child hmodel hmem
        (congrArg (fun key : RowKey => key.2.1) hkey) childValues
      exact ((evaluateGroundRow_yields hcovered).post he).bounded
  obtain rfl := Except.ok.inj (h.symm.trans hvalue)
  exact hbounded

end Actions

/-! ## Readers -/

structure ReadsModel (ids : PlannerIds) (model : PartialSupportIntervalModel)
    (threshold : RobustThresholdProfile) (solverKind : RobustSolverKind) (reader : PolicyReader) :
    Prop where
  scope : reader.scope = solverKind.scope
  rootKey : ∀ root, model.catalogue model.rootStateId = some root →
    reader.rootKey = solverKind.scopeKey root
  keys_nodup : (reader.children.map ChildScope.key).Nodup
  states_nodup : (reader.children.flatMap ChildScope.stateIds).Nodup
  reached : ∀ stateId, stateId ∈ reader.children.flatMap ChildScope.stateIds ↔
    Reached model stateId
  childKey : ∀ child ∈ reader.children, ∀ stateId ∈ child.stateIds, ∀ catalogue,
    model.catalogue stateId = some catalogue → child.key = solverKind.scopeKey catalogue
  child : ∀ stateId catalogue action value, model.catalogue stateId = some catalogue →
    reader.evaluateChild stateId action = .ok value →
      AveragesOver ids model threshold [] stateId 1 (realize model solverKind catalogue action)
        value
  bounded : ∀ stateId action value, reader.evaluateChild stateId action = .ok value →
    Bounded threshold value
  root : ∀ root childValues action value, model.catalogue model.rootStateId = some root →
    reader.evaluateRoot childValues action = .ok value →
      AveragesOver ids model threshold childValues model.rootStateId 2
        (realize model solverKind root action) value

section Readers

variable (hmodel : WellFormed ids model) {reader : PolicyReader}
include hmodel

theorem directReader_readsModel (h : directReader ids model threshold = .ok reader) :
    ReadsModel ids model threshold .groundDirect reader ∧
      (∀ root, model.catalogue model.rootStateId = some root →
        reader.rootActions = root.actions.map CatalogueAction.actionId) ∧
      (reader.evaluateChild = fun stateId =>
        evaluateGroundAction ids model threshold [] .continuationSelected stateId 1) ∧
      (reader.evaluateRoot = fun childValues =>
        evaluateGroundAction ids model threshold childValues .rootSelected model.rootStateId 2) ∧
      ∀ child ∈ reader.children, ∃ stateId, OwnScope model stateId child := by
  obtain ⟨states, hstates, hnodup, hreached⟩ := reachableChildStates_eq hmodel
  unfold directReader at h
  rw [bind_of_ok hstates] at h
  obtain ⟨root, hroot, h⟩ := bind_eq_ok.mp h
  obtain ⟨children, hchildren, h⟩ := bind_eq_ok.mp h
  obtain rfl := Except.ok.inj h
  have hroot := orRaise_eq_ok.mp hroot
  have hscopes : List.Forall₂ (OwnScope model) states children := by
    refine (mapM_eq_ok.mp hchildren).imp fun stateId child hchild => ?_
    obtain ⟨catalogue, hcatalogue, hchild⟩ := bind_eq_ok.mp hchild
    obtain rfl := Except.ok.inj hchild
    exact ⟨rfl, rfl, catalogue, orRaise_eq_ok.mp hcatalogue, rfl⟩
  obtain ⟨hkeys, hstateIds⟩ := ownScopes hscopes
  have hown : ∀ child ∈ children, ∃ stateId, OwnScope model stateId child := fun child hchild => by
    obtain ⟨stateId, -, hscope⟩ := exists_mem_of_forall₂ hscopes.flip hchild
    exact ⟨stateId, hscope⟩
  refine ⟨⟨rfl, fun root' hroot' => (mem_of_catalogue hroot').2.symm, ?_, ?_, fun stateId => ?_,
    fun child hchild stateId hstate catalogue hcatalogue => ?_,
    fun stateId catalogue action value _ hvalue => groundAction_averages hvalue,
    fun stateId action value hvalue => bounded_groundAction hmodel hvalue,
    fun root childValues action value _ hvalue => groundAction_averages hvalue⟩,
    fun root' hroot' => ?_, rfl, rfl, hown⟩
  · exact hkeys ▸ hnodup
  · exact hstateIds ▸ hnodup
  · rw [hstateIds]
    exact hreached stateId
  · obtain ⟨s, hkey, hstates, -⟩ := hown child hchild
    rw [hstates, List.mem_singleton] at hstate
    rw [hkey, ← hstate]
    exact (mem_of_catalogue hcatalogue).2.symm
  · obtain rfl := Option.some.inj (hroot.symm.trans hroot')
    rfl

theorem quotientReader_readsModel (h : quotientReader ids model threshold = .ok reader) :
    ReadsModel ids model threshold .quotient reader := by
  obtain ⟨states, hstates, hnodup, hreached⟩ := reachableChildStates_eq hmodel
  let cellOf (stateId : String) : String :=
    ((model.catalogue stateId).map StateActionCatalogue.stateCoordinateKey).getD ""
  have hcells : (states.mapM fun stateId => do
      let catalogue ← catalogueOf model stateId
      .ok (catalogue.stateCoordinateKey, stateId)) =
        (.ok (states.map fun s => (cellOf s, s)) : Except PlannerError _) := by
    refine mapM_of_forall fun stateId hstate => ?_
    obtain ⟨catalogue, hcatalogue⟩ := hmodel.exists_catalogue ((hreached stateId).mp hstate)
    refine bind_eq_ok.mpr ⟨catalogue, orRaise_eq_ok.mpr hcatalogue, ?_⟩
    simp [cellOf, hcatalogue]
  unfold quotientReader at h
  rw [bind_of_ok hstates, bind_of_ok hcells] at h
  obtain ⟨children, hchildren, h⟩ := bind_eq_ok.mp h
  obtain ⟨root, hroot, h⟩ := bind_eq_ok.mp h
  obtain ⟨rootActions, -, h⟩ := bind_eq_ok.mp h
  obtain rfl := Except.ok.inj h
  have hroot := orRaise_eq_ok.mp hroot
  have hgroup : ∀ group ∈ sortBy Prod.fst (groupBy Prod.fst (states.map fun s => (cellOf s, s))),
      ∀ stateId ∈ sortBy id (group.2.map Prod.snd), stateId ∈ states ∧
        group.1 = cellOf stateId := by
    intro group hgroup stateId hstate
    obtain ⟨k, -, rfl⟩ := List.mem_map.mp (mem_sortBy.mp hgroup)
    obtain ⟨e, he, rfl⟩ := List.mem_map.mp (mem_sortBy.mp hstate)
    obtain ⟨hmem, hkey⟩ := List.mem_filter.mp he
    obtain ⟨s, hs, rfl⟩ := List.mem_map.mp hmem
    exact ⟨hs, (of_decide_eq_true hkey).symm⟩
  have hscopes : List.Forall₂ (CellScope model)
      (sortBy Prod.fst (groupBy Prod.fst (states.map fun s => (cellOf s, s)))) children := by
    refine ((List.forall₂_and_left _ _).mpr ⟨fun _ hmem => hmem, mapM_eq_ok.mp hchildren⟩).imp
      fun group child hboth => ?_
    obtain ⟨hmem, hchild⟩ := hboth
    obtain ⟨domain, hdomain, hchild⟩ := bind_eq_ok.mp hchild
    obtain rfl := Except.ok.inj hchild
    have hcommon := (commonAbstractActions_yields fun stateId hstate =>
      hmodel.exists_catalogue ((hreached stateId).mp (hgroup group hmem stateId hstate).1)).post
        hdomain
    exact ⟨rfl, rfl, hcommon.1, hcommon.2⟩
  obtain ⟨hkeys, hdisjoint, hflat⟩ := cellScopes hnodup hscopes
  refine ⟨rfl, fun root' hroot' => ?_, hkeys, hdisjoint,
    fun stateId => (hflat stateId).trans (hreached stateId),
    fun child hchild stateId hstate catalogue hcatalogue => ?_,
    fun stateId catalogue action value hcatalogue hvalue => concretized_averages hcatalogue hvalue,
    fun stateId action value hvalue => bounded_concretized hmodel hvalue,
    fun root childValues action value hroot hvalue => concretized_averages hroot hvalue⟩
  · obtain rfl := Option.some.inj (hroot.symm.trans hroot')
    rfl
  · obtain ⟨group, hmem, hkey, hstateIds, -⟩ := exists_mem_of_forall₂ hscopes.flip hchild
    rw [hkey, (hgroup group hmem stateId (hstateIds ▸ hstate)).2]
    simp only [cellOf, hcatalogue, Option.map_some, Option.getD_some, RobustSolverKind.scopeKey]

end Readers

section Policies

variable {reader : PolicyReader} {evaluations : List PolicyEvaluation}

theorem choice_of_mem_policies (h : reader.policies ids = .ok evaluations)
    {policy : PolicyEvaluation} (hpolicy : policy ∈ evaluations) :
    ∃ choice part, Chosen reader choice ∧ reader.childPart choice = .ok part ∧
      ∃ rootAction ∈ reader.rootActions, reader.policy ids part rootAction = .ok policy := by
  obtain ⟨lists, hlists, hflat⟩ := bind_eq_ok.mp h
  obtain rfl := Except.ok.inj hflat
  obtain ⟨policies, hpolicies, hmem⟩ := List.mem_flatten.mp hpolicy
  obtain ⟨actions, hactions, hrun⟩ := mem_of_mapM hlists hpolicies
  obtain ⟨part, hpart, hrun⟩ := bind_eq_ok.mp hrun
  obtain ⟨rootAction, hrootAction, hpolicy⟩ := mem_of_mapM hrun hmem
  have hforall := mem_cartesian.mp hactions
  rw [List.forall₂_map_right_iff] at hforall
  exact ⟨_, part, ⟨List.map_fst_zip hforall.length_eq.ge,
    fun c hc => (List.forall₂_iff_zip.mp hforall.flip).2 hc⟩, hpart, rootAction, hrootAction,
      hpolicy⟩

/-- Every choice of the reader is enumerated, with every root action. -/
theorem policies_of_choice (h : reader.policies ids = .ok evaluations)
    {choice : List (ChildScope × String)} (hchosen : Chosen reader choice) :
    ∃ part, reader.childPart choice = .ok part ∧ ∀ rootAction ∈ reader.rootActions,
      ∃ policy ∈ evaluations, reader.policy ids part rootAction = .ok policy := by
  obtain ⟨lists, hlists, hflat⟩ := bind_eq_ok.mp h
  obtain rfl := Except.ok.inj hflat
  have hactions : choice.map Prod.snd ∈ cartesian (reader.children.map ChildScope.domain) := by
    rw [mem_cartesian, ← hchosen.1, List.map_map, List.forall₂_map_left_iff,
      List.forall₂_map_right_iff, List.forall₂_same]
    exact hchosen.2
  obtain ⟨policies, hpolicies, hrun⟩ := exists_of_mapM hlists hactions
  have hzip : reader.children.zip (choice.map Prod.snd) = choice := by
    rw [← hchosen.1]
    exact (List.zip_of_prod rfl rfl).symm
  rw [hzip] at hrun
  obtain ⟨part, hpart, hrun⟩ := bind_eq_ok.mp hrun
  refine ⟨part, hpart, fun rootAction hrootAction => ?_⟩
  obtain ⟨policy, hmem, hpolicy⟩ := exists_of_mapM hrun hrootAction
  exact ⟨policy, List.mem_flatten.mpr ⟨policies, hpolicies, hmem⟩, hpolicy⟩

/-- A child state has the value of the action that was chosen for its scope. -/
theorem childPart_spec {choice : List (ChildScope × String)}
    {part : List RobustPolicyAssignment × ChildValues} (h : reader.childPart choice = .ok part) :
    part.1 = choice.map (fun c => ⟨reader.scope, c.1.key, 1, c.2⟩) ∧
      ∀ stateId value, part.2.lookup stateId = some value → ∃ c ∈ choice,
        stateId ∈ c.1.stateIds ∧ reader.evaluateChild stateId c.2 = .ok value := by
  obtain ⟨values, hvalues, hpart⟩ := bind_eq_ok.mp h
  obtain rfl := Except.ok.inj hpart
  refine ⟨rfl, fun stateId value hvalue => ?_⟩
  obtain ⟨list, hlist, hmem⟩ := List.mem_flatten.mp (Dict.lookup_mem hvalue)
  obtain ⟨c, hc, hrun⟩ := mem_of_mapM hvalues hlist
  obtain ⟨s, hs, hrun⟩ := mem_of_mapM hrun hmem
  obtain ⟨value', hvalue', heq⟩ := bind_eq_ok.mp hrun
  obtain ⟨rfl, rfl⟩ := Prod.mk.injEq .. ▸ Except.ok.inj heq
  exact ⟨c, hc, hs, hvalue'⟩

/-- What an enumerated policy reports comes from the evaluation of its root. -/
theorem policy_spec {part : List RobustPolicyAssignment × ChildValues} {rootAction : String}
    {policy : PolicyEvaluation} (h : reader.policy ids part rootAction = .ok policy) :
    ∃ root, reader.evaluateRoot part.2 rootAction = .ok root ∧
      policy.rewardLower = root.rewardLower ∧ policy.rewardUpper = root.rewardUpper ∧
      policy.failureUpper = root.failureUpper ∧
      policy.assignments.Perm (⟨reader.scope, reader.rootKey, 2, rootAction⟩ :: part.1) := by
  obtain ⟨root, hroot, hpolicy⟩ := bind_eq_ok.mp h
  obtain rfl := Except.ok.inj hpolicy
  exact ⟨root, hroot, rfl, rfl, rfl, perm_sortBy _ _⟩

end Policies

end Acfqp.Robust
