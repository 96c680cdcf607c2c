import Acfqp.Robust.Lazy
import Acfqp.Robust.Soundness

/-!
# The decisions of the lazy solver

The lazy solver makes the decisions of the exhaustive reader: one for each scope of child states,
and one for the root. What a root action is worth depends only on the states that its rows reach,
and gets no worse when their values do not.
-/

namespace Acfqp.Robust

open Library PartialSupportIntervalModel

variable {ids : PlannerIds} {model : PartialSupportIntervalModel}
  {threshold : RobustThresholdProfile} {solverKind : RobustSolverKind} {reader : PolicyReader}

/-! ## Readers -/

def solverReader (ids : PlannerIds) (model : PartialSupportIntervalModel)
    (threshold : RobustThresholdProfile) :
    RobustSolverKind → Except PlannerError PolicyReader
  | .groundDirect => directReader ids model threshold
  | .quotient => quotientReader ids model threshold

theorem solverReader_readsModel (hmodel : WellFormed ids model)
    (h : solverReader ids model threshold solverKind = .ok reader) :
    ReadsModel ids model threshold solverKind reader := by
  cases solverKind with
  | groundDirect => exact (directReader_readsModel hmodel h).1
  | quotient => exact quotientReader_readsModel hmodel h

def scopeChoice (reader : PolicyReader) (child : ChildScope) (action : String) :
    Except PlannerError DecisionChoice :=
  decisionChoice reader.scope reader.evaluateChild child.key child.stateIds action

def scopeUnit (reader : PolicyReader) (child : ChildScope) : Except PlannerError DecisionUnit := do
  let choices ← child.domain.mapM (scopeChoice reader child)
  .ok ⟨child.key, child.stateIds, choices⟩

def rootRows (model : PartialSupportIntervalModel) (actionKey : String) :
    RobustSolverKind → Except PlannerError (List IntervalSimplexRow)
  | .groundDirect => do
    let row ← rowOf model model.rootStateId 2 actionKey
    .ok [row]
  | .quotient => do
    let root ← catalogueOf model model.rootStateId
    let key := (root.stateCoordinateKey, model.rootStateId, actionKey)
    let entry ← orRaise (model.concretizer key)
      (.keyError s!"({pyRepr key.1}, {pyRepr key.2.1}, {pyRepr key.2.2})")
    entry.groundActionIds.mapM (rowOf model model.rootStateId 2)

structure IsRootChoice (model : PartialSupportIntervalModel) (solverKind : RobustSolverKind)
    (reader : PolicyReader) (action : String) (root : RootChoice) : Prop where
  actionKey : root.actionKey = action
  assignment : root.assignment = ⟨reader.scope, reader.rootKey, 2, action⟩
  relevant : ∃ rows, rootRows model action solverKind = .ok rows ∧
    root.relevantStateIds = rows.flatMap model.reachableFrom

/-- The units are those of the scopes of the reader. -/
theorem units_eq (h : solverReader ids model threshold solverKind = .ok reader) :
    units ids model threshold solverKind = reader.children.mapM (scopeUnit reader) := by
  cases solverKind with
  | groundDirect =>
    obtain ⟨states, hstates, h⟩ := bind_eq_ok.mp h
    obtain ⟨root, -, h⟩ := bind_eq_ok.mp h
    obtain ⟨children, hchildren, h⟩ := bind_eq_ok.mp h
    obtain rfl := Except.ok.inj h
    simp only [units, directUnits, bind_of_ok hstates]
    rw [← mapM_of_mapM hchildren]
    refine mapM_congr fun stateId _ => ?_
    cases hcatalogue : catalogueOf model stateId with
    | error e => rfl
    | ok catalogue =>
      change (catalogue.actions.mapM _ >>= _) = scopeUnit _
        ⟨stateId, [stateId], catalogue.actions.map CatalogueAction.actionId⟩
      simp only [scopeUnit, List.mapM_map]
      rfl
  | quotient =>
    obtain ⟨states, hstates, h⟩ := bind_eq_ok.mp h
    obtain ⟨cells, hcells, h⟩ := bind_eq_ok.mp h
    obtain ⟨children, hchildren, h⟩ := bind_eq_ok.mp h
    obtain ⟨root, -, h⟩ := bind_eq_ok.mp h
    obtain ⟨rootActions, -, h⟩ := bind_eq_ok.mp h
    obtain rfl := Except.ok.inj h
    simp only [units, quotientUnits, bind_of_ok hstates, bind_of_ok hcells]
    rw [← mapM_of_mapM hchildren]
    refine mapM_congr fun group _ => ?_
    cases hdomain : commonAbstractActions model (sortBy id (group.2.map Prod.snd)) with
    | error e =>
      dsimp only
      rw [hdomain]
      rfl
    | ok domain =>
      dsimp only
      rw [hdomain]
      rfl

theorem rootChoices_spec (h : solverReader ids model threshold solverKind = .ok reader)
    {roots : List RootChoice} (hroots : rootChoices model solverKind = .ok roots) :
    List.Forall₂ (IsRootChoice model solverKind reader) reader.rootActions roots := by
  cases solverKind with
  | groundDirect =>
    obtain ⟨states, -, h⟩ := bind_eq_ok.mp h
    obtain ⟨root, hroot, h⟩ := bind_eq_ok.mp h
    obtain ⟨children, -, h⟩ := bind_eq_ok.mp h
    obtain rfl := Except.ok.inj h
    simp only [rootChoices, directRootChoices, bind_of_ok hroot] at hroots
    rw [List.forall₂_map_left_iff]
    refine (mapM_eq_ok.mp hroots).imp fun action choice hchoice => ?_
    obtain ⟨row, hrow, hchoice⟩ := bind_eq_ok.mp hchoice
    obtain rfl := Except.ok.inj hchoice
    exact ⟨rfl, rfl, [row], by simp [rootRows, bind_of_ok hrow], by simp⟩
  | quotient =>
    obtain ⟨states, -, h⟩ := bind_eq_ok.mp h
    obtain ⟨cells, -, h⟩ := bind_eq_ok.mp h
    obtain ⟨children, -, h⟩ := bind_eq_ok.mp h
    obtain ⟨root, hroot, h⟩ := bind_eq_ok.mp h
    obtain ⟨rootActions, hactions, h⟩ := bind_eq_ok.mp h
    obtain rfl := Except.ok.inj h
    simp only [rootChoices, quotientRootChoices, bind_of_ok hroot, bind_of_ok hactions] at hroots
    refine (mapM_eq_ok.mp hroots).imp fun action choice hchoice => ?_
    obtain ⟨entry, hentry, hchoice⟩ := bind_eq_ok.mp hchoice
    obtain ⟨rows, hrows, hchoice⟩ := bind_eq_ok.mp hchoice
    obtain rfl := Except.ok.inj hchoice
    refine ⟨rfl, rfl, rows, ?_, rfl⟩
    simp only [rootRows, bind_of_ok hroot]
    exact (bind_of_ok hentry).trans hrows

theorem exists_solverReader {us : List DecisionUnit} {roots : List RootChoice}
    (hunits : units ids model threshold solverKind = .ok us)
    (hroots : rootChoices model solverKind = .ok roots) :
    ∃ reader, solverReader ids model threshold solverKind = .ok reader := by
  cases solverKind with
  | groundDirect =>
    obtain ⟨states, hstates, hunits⟩ := bind_eq_ok.mp hunits
    obtain ⟨root, hroot, -⟩ := bind_eq_ok.mp hroots
    obtain ⟨children, hchildren⟩ := mapM_returns (f := fun stateId => do
      let catalogue ← catalogueOf model stateId
      (.ok ⟨stateId, [stateId], catalogue.actions.map CatalogueAction.actionId⟩ :
        Except PlannerError ChildScope)) (l := states) fun stateId hstate => by
        obtain ⟨unit, -, hunit⟩ := exists_of_mapM hunits hstate
        obtain ⟨catalogue, hcatalogue, -⟩ := bind_eq_ok.mp hunit
        exact ⟨_, bind_of_ok hcatalogue⟩
    simp only [solverReader, directReader, bind_of_ok hstates, bind_of_ok hroot,
      bind_of_ok hchildren]
    exact ⟨_, rfl⟩
  | quotient =>
    obtain ⟨states, hstates, hunits⟩ := bind_eq_ok.mp hunits
    obtain ⟨cells, hcells, hunits⟩ := bind_eq_ok.mp hunits
    obtain ⟨root, hroot, hroots⟩ := bind_eq_ok.mp hroots
    obtain ⟨actions, hactions, -⟩ := bind_eq_ok.mp hroots
    obtain ⟨children, hchildren⟩ :=
      mapM_returns (f := fun group : String × List (String × String) =>
      do
        let stateIds := sortBy id (group.2.map Prod.snd)
        let domain ← commonAbstractActions model stateIds
        (.ok ⟨group.1, stateIds, domain⟩ : Except PlannerError ChildScope))
      (l := sortBy Prod.fst (groupBy Prod.fst cells)) fun group hgroup => by
        obtain ⟨unit, -, hunit⟩ := exists_of_mapM hunits hgroup
        obtain ⟨domain, hdomain, -⟩ := bind_eq_ok.mp hunit
        exact ⟨_, bind_of_ok hdomain⟩
    simp only [solverReader, quotientReader, bind_of_ok hstates, bind_of_ok hcells,
      bind_of_ok hroot, bind_of_ok hactions, bind_of_ok hchildren]
    exact ⟨_, rfl⟩

theorem evaluateRoot_eq (h : solverReader ids model threshold solverKind = .ok reader)
    (root : RootChoice) (childValues : ChildValues) :
    evaluateRoot ids model threshold solverKind root childValues =
      reader.evaluateRoot childValues root.actionKey := by
  cases solverKind with
  | groundDirect =>
    obtain ⟨states, -, h⟩ := bind_eq_ok.mp h
    obtain ⟨root, -, h⟩ := bind_eq_ok.mp h
    obtain ⟨children, -, h⟩ := bind_eq_ok.mp h
    obtain rfl := Except.ok.inj h
    rfl
  | quotient =>
    obtain ⟨states, -, h⟩ := bind_eq_ok.mp h
    obtain ⟨cells, -, h⟩ := bind_eq_ok.mp h
    obtain ⟨children, -, h⟩ := bind_eq_ok.mp h
    obtain ⟨root, -, h⟩ := bind_eq_ok.mp h
    obtain ⟨rootActions, -, h⟩ := bind_eq_ok.mp h
    obtain rfl := Except.ok.inj h
    rfl

/-! ## The worth of a root action -/

section

variable {childValues childValues' : ChildValues} {row : IntervalSimplexRow}
  {category : SelectedRowCategory} {key : String}

/-- Every reached state has a bounded value. -/
def ChildrenBounded (model : PartialSupportIntervalModel) (threshold : RobustThresholdProfile)
    (childValues : ChildValues) : Prop :=
  ∀ stateId, Reached model stateId →
    ∃ value, childValues.lookup stateId = some value ∧ Bounded threshold value

/-- At the states the second values are no worse: no lower reward, and no higher failure. -/
def NoWorse (stateIds : List String) (childValues childValues' : ChildValues) : Prop :=
  ∀ s ∈ stateIds, ∀ v v', childValues.lookup s = some v → childValues'.lookup s = some v' →
    v.rewardLower ≤ v'.rewardLower ∧ v'.failureUpper ≤ v.failureUpper

theorem covered_of_children (hmodel : WellFormed ids model) (hlisted : ActiveListed model)
    (hrow : row ∈ model.rows) (htwo : row.remainingHorizon = 2)
    (hchildren : ChildrenBounded model threshold childValues) :
    Covered model threshold childValues row :=
  ⟨hmodel.registered hrow, fun _ item hitem d s hd hcategory =>
    hchildren s (hlisted row hrow htwo item hitem d s hd hcategory)⟩

/-- A row is worth no less when its reached states are, and within the ceiling when the better one
is. -/
theorem evaluateGroundRow_mono (h : Covered model threshold childValues row)
    (h' : Covered model threshold childValues' row)
    (hle : NoWorse (model.reachableFrom row) childValues childValues') {e' : RowEvaluation}
    (he' : evaluateGroundRow ids model threshold childValues' category key row = .ok e') :
    ∃ e, evaluateGroundRow ids model threshold childValues category key row = .ok e ∧
      e.bound.rewardLower ≤ e'.bound.rewardLower ∧
        e'.bound.failureUpper ≤ e.bound.failureUpper := by
  obtain ⟨risk, lower, upper, hrisk, hlower, -, heq⟩ :=
    @evaluateGroundRow_eq ids model threshold childValues row h category key
  obtain ⟨risk', lower', upper', hrisk', hlower', -, heq'⟩ :=
    @evaluateGroundRow_eq ids model threshold childValues' row h' category key
  have hworth : ∀ item ∈ row.masses, 0 < item.upper →
      (worth model threshold childValues row item).rewardLower ≤
        (worth model threshold childValues' row item).rewardLower ∧
      (worth model threshold childValues' row item).risk ≤
        (worth model threshold childValues row item).risk := fun item hitem hupper =>
    worth_related (R := fun x y => x.rewardLower ≤ y.rewardLower ∧ y.risk ≤ x.risk)
      (fun _ => ⟨le_rfl, le_rfl⟩) h h' hitem fun d s v v' hd hcategory => hle s
        (mem_reachableFrom.mpr ⟨item, hitem, hupper, d, hd, stateId_eq_some.mpr hcategory⟩) v v'
  have hlower := hlower.mono_min hlower' fun item hitem hupper => (hworth item hitem hupper).1
  have hrisk := hrisk'.mono_max hrisk fun item hitem hupper => (hworth item hitem hupper).2
  rw [heq'] at he'
  split at he'
  · rename_i hwithin
    obtain rfl := Except.ok.inj he'
    exact ⟨_, heq.trans (if_pos ⟨hwithin.1, le_trans (by linarith) hwithin.2⟩),
      add_le_add_right hlower _, hrisk⟩
  · cases he'

theorem evaluateRoot_rows {action : String} {rows : List IntervalSimplexRow}
    (hrows : rootRows model action solverKind = .ok rows) {root : RootChoice}
    (hroot : root.actionKey = action) : ∃ category key, ∀ childValues,
      evaluateRoot ids model threshold solverKind root childValues =
        rows.mapM (evaluateGroundRow ids model threshold childValues category key) >>=
          averageActionEvaluations := by
  subst hroot
  cases solverKind with
  | groundDirect =>
    obtain ⟨row, hrow, hrows⟩ := bind_eq_ok.mp hrows
    obtain rfl := Except.ok.inj hrows
    refine ⟨.rootSelected, model.rootStateId, fun childValues => ?_⟩
    simp only [evaluateRoot, evaluateGroundAction, bind_of_ok hrow]
    cases he : evaluateGroundRow ids model threshold childValues .rootSelected model.rootStateId
        row with
    | error e => simp only [List.mapM_cons, he]; rfl
    | ok e =>
      have hone : [row].mapM (evaluateGroundRow ids model threshold childValues .rootSelected
          model.rootStateId) = .ok [e] := mapM_eq_ok.mpr (.cons he .nil)
      rw [bind_of_ok hone]
      simp [averageActionEvaluations, meanBound, RowEvaluation.stateAction, require]
      rfl
  | quotient =>
    obtain ⟨catalogue, hcatalogue, hrows⟩ := bind_eq_ok.mp hrows
    obtain ⟨entry, hentry, hrows⟩ := bind_eq_ok.mp hrows
    refine ⟨.rootConcretizerComponent, catalogue.stateCoordinateKey, fun childValues => ?_⟩
    simp only [evaluateRoot, evaluateConcretizedStateAction, bind_of_ok hcatalogue]
    rw [bind_of_ok (orRaise_eq_ok.mpr (orRaise_eq_ok.mp hentry)), mapM_of_mapM hrows]

theorem rootRows_spec {action : String} {rows : List IntervalSimplexRow}
    (hrows : rootRows model action solverKind = .ok rows) : rows ≠ [] ∧
      ∀ row ∈ rows, row ∈ model.rows ∧ row.remainingHorizon = 2 := by
  have hrow : ∀ {actionId row}, rowOf model model.rootStateId 2 actionId = .ok row →
      row ∈ model.rows ∧ row.remainingHorizon = 2 := fun h => by
    obtain ⟨hmem, hkey⟩ := mem_of_row (orRaise_eq_ok.mp h)
    exact ⟨hmem, congrArg (fun key : RowKey => key.2.1) hkey⟩
  cases solverKind with
  | groundDirect =>
    obtain ⟨row, hfound, hrows⟩ := bind_eq_ok.mp hrows
    obtain rfl := Except.ok.inj hrows
    exact ⟨by simp, fun row' hmem => List.mem_singleton.mp hmem ▸ hrow hfound⟩
  | quotient =>
    obtain ⟨catalogue, -, hrows⟩ := bind_eq_ok.mp hrows
    obtain ⟨entry, -, hrows⟩ := bind_eq_ok.mp hrows
    refine ⟨fun hnil => entry.actions_ne_nil ?_, fun row hmem => ?_⟩
    · subst hnil
      exact List.forall₂_nil_right_iff.mp (mapM_eq_ok.mp hrows)
    · obtain ⟨actionId, -, hfound⟩ := mem_of_mapM hrows hmem
      exact hrow hfound

theorem related_of_forall₂ {α β γ : Type} {P : α → γ → Prop} {Q : β → γ → Prop} {as : List α}
    {bs : List β} {cs : List γ} (h : List.Forall₂ (fun a b => ∀ c, P a c → Q b c) as bs)
    (h' : List.Forall₂ P as cs) : List.Forall₂ Q bs cs := by
  induction h generalizing cs with
  | nil =>
    cases h'
    exact .nil
  | cons hhead _ ih =>
    cases h' with
    | cons hac hrest => exact .cons (hhead _ hac) (ih hrest)

theorem meanBound_related {bound : RobustSelectedRowBound → ℚ} {es es' : List RowEvaluation}
    (h : List.Forall₂ (fun e e' => bound e.bound ≤ bound e'.bound) es es') :
    meanBound bound es ≤ meanBound bound es' := by
  unfold meanBound
  rw [h.length_eq]
  refine div_le_div_of_nonneg_right (List.Forall₂.sum_le_sum ?_) (Nat.cast_nonneg _)
  rw [List.forall₂_map_left_iff, List.forall₂_map_right_iff]
  exact h

section Root

variable (hmodel : WellFormed ids model) (hlisted : ActiveListed model) {action : String}
  {root : RootChoice} {rows : List IntervalSimplexRow}
  (hrows : rootRows model action solverKind = .ok rows) (hroot : root.actionKey = action)
include hmodel hlisted hrows hroot

theorem evaluateRoot_bounded (hchildren : ChildrenBounded model threshold childValues)
    {value : StateActionEvaluation}
    (h : evaluateRoot ids model threshold solverKind root childValues = .ok value) :
    Bounded threshold value := by
  obtain ⟨category, key, heq⟩ := @evaluateRoot_rows ids model threshold solverKind action rows hrows
    root hroot
  rw [heq] at h
  obtain ⟨es, hes, h⟩ := bind_eq_ok.mp h
  have hne : es ≠ [] := by
    obtain ⟨_, hne, -⟩ := bind_eq_ok.mp h
    exact require_eq_ok.mp hne
  obtain ⟨value', hvalue, hbounded, -⟩ := @averageActionEvaluations_eq threshold es hne
    fun e he => by
      obtain ⟨row, hrow, hrun⟩ := mem_of_mapM hes he
      obtain ⟨hmem, htwo⟩ := (rootRows_spec hrows).2 row hrow
      exact ((evaluateGroundRow_yields
        (covered_of_children hmodel hlisted hmem htwo hchildren)).post hrun).bounded
  obtain rfl := Except.ok.inj (h.symm.trans hvalue)
  exact hbounded

/-- A root action is worth no less when the states that its rows reach are. -/
theorem evaluateRoot_mono (hchildren : ChildrenBounded model threshold childValues)
    (hchildren' : ChildrenBounded model threshold childValues')
    (hle : NoWorse (rows.flatMap model.reachableFrom) childValues childValues')
    {value' : StateActionEvaluation}
    (h' : evaluateRoot ids model threshold solverKind root childValues' = .ok value') :
    ∃ value, evaluateRoot ids model threshold solverKind root childValues = .ok value ∧
      value.rewardLower ≤ value'.rewardLower ∧ value'.failureUpper ≤ value.failureUpper := by
  obtain ⟨category, key, heq⟩ := @evaluateRoot_rows ids model threshold solverKind action rows hrows
    root hroot
  rw [heq] at h' ⊢
  obtain ⟨es', hes', h'⟩ := bind_eq_ok.mp h'
  obtain ⟨es, hes, hrelated⟩ := exists_mapM (f := evaluateGroundRow ids model threshold childValues
      category key) (R := fun row e => ∀ e', evaluateGroundRow ids model threshold childValues'
        category key row = .ok e' → e.bound.rewardLower ≤ e'.bound.rewardLower ∧
          e'.bound.failureUpper ≤ e.bound.failureUpper) (l := rows) fun row hrow => by
    obtain ⟨e', -, he'⟩ := exists_of_mapM hes' hrow
    obtain ⟨hmem, htwo⟩ := (rootRows_spec hrows).2 row hrow
    obtain ⟨e, he, hlower, hfailure⟩ := evaluateGroundRow_mono
      (covered_of_children hmodel hlisted hmem htwo hchildren)
      (covered_of_children hmodel hlisted hmem htwo hchildren')
      (fun s hs => hle s (List.mem_flatMap.mpr ⟨row, hrow, hs⟩)) he'
    refine ⟨e, he, fun e'' he'' => ?_⟩
    obtain rfl := Except.ok.inj (he''.symm.trans he')
    exact ⟨hlower, hfailure⟩
  have hboth := related_of_forall₂ hrelated (mapM_eq_ok.mp hes')
  obtain ⟨_, hne', h'⟩ := bind_eq_ok.mp h'
  obtain rfl := Except.ok.inj h'
  have hne : es ≠ [] := fun hnil => require_eq_ok.mp hne' <| by
    subst hnil
    exact List.forall₂_nil_left_iff.mp hboth
  exact ⟨_, bind_eq_ok.mpr ⟨es, hes, bind_of_ok (require_eq_ok (u := ()).mpr hne)⟩,
    meanBound_related (hboth.imp fun _ _ h => h.1),
    meanBound_related (hboth.flip.imp fun _ _ h => h.2)⟩

end Root

theorem evaluateRoot_congr (h : ∀ s, childValues.lookup s = childValues'.lookup s)
    (root : RootChoice) : evaluateRoot ids model threshold solverKind root childValues =
      evaluateRoot ids model threshold solverKind root childValues' := by
  have hdestination : destinationValue model threshold childValues =
      destinationValue model threshold childValues' := by
    funext remainingHorizon mass
    simp only [destinationValue, h]
  have hrow : evaluateGroundRow ids model threshold childValues =
      evaluateGroundRow ids model threshold childValues' := by
    funext category key row
    simp only [evaluateGroundRow, hdestination]
  cases solverKind with
  | groundDirect => simp only [evaluateRoot, evaluateGroundAction, hrow]
  | quotient => simp only [evaluateRoot, evaluateConcretizedStateAction, hrow]

end

end Acfqp.Robust

/-!
## Selections of decisions

A policy of the exhaustive reader is one choice of every decision, and a root action. The lazy
solver completes such a selection to the same policy.
-/

namespace Acfqp.Robust

open Library PartialSupportIntervalModel

variable {ids : PlannerIds} {model : PartialSupportIntervalModel}
  {threshold : RobustThresholdProfile} {solverKind : RobustSolverKind} {reader : PolicyReader}

/-! ## Sound decisions -/

/-- One choice of each decision. -/
abbrev Selects (choices : List DecisionChoice) (units : List DecisionUnit) : Prop :=
  List.Forall₂ (fun choice (unit : DecisionUnit) => choice ∈ unit.choices) choices units

/-- A choice assigns its action and has a bounded value for every state of its decision. -/
structure SoundChoice (threshold : RobustThresholdProfile) (scope : PolicyScope)
    (unit : DecisionUnit) (choice : DecisionChoice) : Prop where
  assignment : choice.assignment = ⟨scope, unit.scopeKey, 1, choice.actionKey⟩
  states : choice.stateValues.map Prod.fst = unit.stateIds
  bounded : ∀ e ∈ choice.stateValues, Bounded threshold e.2
  rows : choice.rows = choice.stateValues.flatMap fun child => child.2.rows

structure SoundUnits (threshold : RobustThresholdProfile) (scope : PolicyScope)
    (units : List DecisionUnit) : Prop where
  keys_nodup : (units.map DecisionUnit.scopeKey).Nodup
  states_nodup : (units.flatMap DecisionUnit.stateIds).Nodup
  choices_ne_nil : ∀ unit ∈ units, unit.choices ≠ []
  actions_nodup : ∀ unit ∈ units, (unit.choices.map DecisionChoice.actionKey).Nodup
  sound : ∀ unit ∈ units, ∀ choice ∈ unit.choices, SoundChoice threshold scope unit choice

theorem commonAbstractActions_nodup {stateIds domain : List String}
    (h : commonAbstractActions model stateIds = .ok domain) : domain ≠ [] ∧ domain.Nodup := by
  obtain ⟨available, -, h⟩ := bind_eq_ok.mp h
  obtain ⟨_, hne, h⟩ := bind_eq_ok.mp h
  obtain rfl := Except.ok.inj h
  exact ⟨require_eq_ok.mp hne, (perm_sortBy _ _).nodup_iff.mpr (nodup_distinct _)⟩

theorem actionIds_nodup (catalogue : StateActionCatalogue) :
    catalogue.actions.map CatalogueAction.actionId ≠ [] ∧
      (catalogue.actions.map CatalogueAction.actionId).Nodup :=
  ⟨by simpa using catalogue.actions_ne_nil, catalogue.actions_sorted.imp fun h => h.ne⟩

/-- The actions of a reader are there, and distinct. -/
theorem solverReader_domains (h : solverReader ids model threshold solverKind = .ok reader) :
    (∀ child ∈ reader.children, child.domain ≠ [] ∧ child.domain.Nodup) ∧
      reader.rootActions ≠ [] ∧ reader.rootActions.Nodup := by
  cases solverKind with
  | groundDirect =>
    obtain ⟨states, -, h⟩ := bind_eq_ok.mp h
    obtain ⟨root, -, h⟩ := bind_eq_ok.mp h
    obtain ⟨children, hchildren, h⟩ := bind_eq_ok.mp h
    obtain rfl := Except.ok.inj h
    refine ⟨fun child hchild => ?_, actionIds_nodup root⟩
    obtain ⟨stateId, -, hrun⟩ := mem_of_mapM hchildren hchild
    obtain ⟨catalogue, -, hrun⟩ := bind_eq_ok.mp hrun
    obtain rfl := Except.ok.inj hrun
    exact actionIds_nodup catalogue
  | quotient =>
    obtain ⟨states, -, h⟩ := bind_eq_ok.mp h
    obtain ⟨cells, -, h⟩ := bind_eq_ok.mp h
    obtain ⟨children, hchildren, h⟩ := bind_eq_ok.mp h
    obtain ⟨root, -, h⟩ := bind_eq_ok.mp h
    obtain ⟨rootActions, hactions, h⟩ := bind_eq_ok.mp h
    obtain rfl := Except.ok.inj h
    refine ⟨fun child hchild => ?_, commonAbstractActions_nodup hactions⟩
    obtain ⟨group, -, hrun⟩ := mem_of_mapM hchildren hchild
    obtain ⟨domain, hdomain, hrun⟩ := bind_eq_ok.mp hrun
    obtain rfl := Except.ok.inj hrun
    exact commonAbstractActions_nodup hdomain

theorem scopeUnit_spec {child : ChildScope} {unit : DecisionUnit}
    (h : scopeUnit reader child = .ok unit) :
    unit.scopeKey = child.key ∧ unit.stateIds = child.stateIds ∧
      List.Forall₂ (fun action choice => scopeChoice reader child action = .ok choice)
        child.domain unit.choices := by
  obtain ⟨choices, hchoices, h⟩ := bind_eq_ok.mp h
  obtain rfl := Except.ok.inj h
  exact ⟨rfl, rfl, mapM_eq_ok.mp hchoices⟩

theorem scopeChoice_spec {child : ChildScope} {action : String} {choice : DecisionChoice}
    (h : scopeChoice reader child action = .ok choice) :
    choice.actionKey = action ∧ choice.assignment = ⟨reader.scope, child.key, 1, action⟩ ∧
      (child.stateIds.mapM fun stateId => do
        let value ← reader.evaluateChild stateId action
        .ok (stateId, value)) = .ok choice.stateValues ∧
      choice.rows = choice.stateValues.flatMap fun child => child.2.rows := by
  obtain ⟨values, hvalues, h⟩ := bind_eq_ok.mp h
  obtain rfl := Except.ok.inj h
  exact ⟨rfl, rfl, hvalues, rfl⟩

theorem scopeChoice_sound
    (hbounded : ∀ stateId action value, reader.evaluateChild stateId action = .ok value →
      Bounded threshold value) {child : ChildScope} {unit : DecisionUnit}
    (hunit : scopeUnit reader child = .ok unit) {choice : DecisionChoice}
    (hmem : choice ∈ unit.choices) : SoundChoice threshold reader.scope unit choice := by
  obtain ⟨hkey, hstates, hchoices⟩ := scopeUnit_spec hunit
  obtain ⟨action, -, hchoice⟩ := exists_mem_of_forall₂ hchoices.flip hmem
  obtain ⟨haction, hassignment, hvalues, hrows⟩ := scopeChoice_spec hchoice
  refine ⟨by rw [hassignment, haction, hkey], ?_, fun e he => ?_, hrows⟩
  · rw [hstates, map_of_mapM hvalues (k := id) fun stateId _ e he => ?_, List.map_id]
    obtain ⟨value, -, he⟩ := bind_eq_ok.mp he
    exact congrArg Prod.fst (Except.ok.inj he).symm
  · obtain ⟨stateId, -, hrun⟩ := mem_of_mapM hvalues he
    obtain ⟨value, hvalue, hrun⟩ := bind_eq_ok.mp hrun
    obtain rfl := Except.ok.inj hrun
    exact hbounded stateId action value hvalue

/-- The units of an accepted model are sound decisions over its reached states. -/
theorem units_sound (hmodel : WellFormed ids model)
    (hreader : solverReader ids model threshold solverKind = .ok reader) {us : List DecisionUnit}
    (hunits : units ids model threshold solverKind = .ok us) :
    SoundUnits threshold reader.scope us ∧
      ∀ stateId, stateId ∈ us.flatMap DecisionUnit.stateIds ↔ Reached model stateId := by
  have hreads := solverReader_readsModel hmodel hreader
  rw [units_eq hreader] at hunits
  have hkeys : us.map DecisionUnit.scopeKey = reader.children.map ChildScope.key :=
    map_of_mapM hunits fun child _ unit hunit => (scopeUnit_spec hunit).1
  have hstates : us.flatMap DecisionUnit.stateIds = reader.children.flatMap
      ChildScope.stateIds := by
    rw [List.flatMap_def, List.flatMap_def,
      map_of_mapM hunits fun child _ unit hunit => (scopeUnit_spec hunit).2.1]
  refine ⟨⟨hkeys ▸ hreads.keys_nodup, hstates ▸ hreads.states_nodup, fun unit hunit => ?_,
    fun unit hunit => ?_, fun unit hunit choice hchoice => ?_⟩, hstates ▸ hreads.reached⟩
  · obtain ⟨child, hchild, hrun⟩ := mem_of_mapM hunits hunit
    intro hnil
    have hforall := (scopeUnit_spec hrun).2.2
    rw [hnil, List.forall₂_nil_right_iff] at hforall
    exact ((solverReader_domains hreader).1 child hchild).1 hforall
  · obtain ⟨child, hchild, hrun⟩ := mem_of_mapM hunits hunit
    have hactions : unit.choices.map DecisionChoice.actionKey = child.domain.map id :=
      map_of_forall₂ (scopeUnit_spec hrun).2.2 fun action _ choice hchoice =>
        (scopeChoice_spec hchoice).1
    rw [hactions, List.map_id]
    exact ((solverReader_domains hreader).1 child hchild).2
  · obtain ⟨child, -, hrun⟩ := mem_of_mapM hunits hunit
    exact scopeChoice_sound hreads.bounded hrun hchoice

section Values

variable {scope : PolicyScope} {us : List DecisionUnit} {D : List DecisionChoice}

theorem Selects.states (h : Selects D us)
    (hsound : ∀ unit ∈ us, ∀ choice ∈ unit.choices, SoundChoice threshold scope unit choice) :
    (D.flatMap DecisionChoice.stateValues).map Prod.fst = us.flatMap DecisionUnit.stateIds := by
  induction h with
  | nil => rfl
  | @cons choice unit D us hmem _ ih =>
    rw [List.flatMap_cons, List.map_append, List.flatMap_cons,
      (hsound unit List.mem_cons_self choice hmem).states,
      ih fun unit hunit => hsound unit (List.mem_cons_of_mem _ hunit)]

theorem Selects.rows (h : Selects D us)
    (hsound : ∀ unit ∈ us, ∀ choice ∈ unit.choices, SoundChoice threshold scope unit choice) :
    D.flatMap DecisionChoice.rows =
      (D.flatMap DecisionChoice.stateValues).flatMap fun child => child.2.rows := by
  rw [List.flatMap_assoc]
  refine List.flatMap_congr fun choice hchoice => ?_
  obtain ⟨unit, hunit, hmem⟩ := exists_mem_of_forall₂ h hchoice
  exact (hsound unit hunit choice hmem).rows

theorem completePolicy_eq (hreader : solverReader ids model threshold solverKind = .ok reader)
    (hsound : SoundUnits threshold scope us) (h : Selects D us) {action : String}
    {root : RootChoice} (hroot : IsRootChoice model solverKind reader action root) :
    completePolicy ids model threshold solverKind root D =
      reader.policy ids (D.map DecisionChoice.assignment, D.flatMap DecisionChoice.stateValues)
        action := by
  have hnodup : ((D.flatMap DecisionChoice.stateValues).map Prod.fst).Nodup :=
    h.states hsound.sound ▸ hsound.states_nodup
  simp only [completePolicy, PolicyReader.policy, Dict.ofPairs_of_nodup hnodup,
    evaluateRoot_eq hreader, hroot.actionKey, hroot.assignment, h.rows hsound.sound]

end Values

section Policies

variable {us : List DecisionUnit} {roots : List RootChoice} {policies : List PolicyEvaluation}
  {choice : List (ChildScope × String)} {D : List DecisionChoice}

/-- The choices of the scopes, one for each decision. -/
abbrev ChoosesAs (reader : PolicyReader) (choice : List (ChildScope × String))
    (D : List DecisionChoice) : Prop :=
  List.Forall₂ (fun c dc => scopeChoice reader c.1 c.2 = .ok dc) choice D

theorem ChoosesAs.childPart (h : ChoosesAs reader choice D) : reader.childPart choice =
    .ok (D.map DecisionChoice.assignment, D.flatMap DecisionChoice.stateValues) := by
  have hvalues : (choice.mapM fun c => c.1.stateIds.mapM fun stateId => do
      let value ← reader.evaluateChild stateId c.2
      .ok (stateId, value)) = (.ok (D.map DecisionChoice.stateValues) : Except PlannerError _) := by
    rw [mapM_eq_ok, List.forall₂_map_right_iff]
    exact h.imp fun c dc hdc => (scopeChoice_spec hdc).2.2.1
  have hassignments : D.map DecisionChoice.assignment =
      choice.map fun c => ⟨reader.scope, c.1.key, 1, c.2⟩ :=
    map_of_forall₂ h fun c _ dc hdc => (scopeChoice_spec hdc).2.1
  rw [PolicyReader.childPart, bind_of_ok hvalues, hassignments, List.flatMap_def]

theorem exists_selects (hunits : reader.children.mapM (scopeUnit reader) = .ok us)
    (h : Chosen reader choice) : ∃ D, Selects D us ∧ ChoosesAs reader choice D := by
  obtain ⟨hfst, hdomain⟩ := h
  rw [← hfst, mapM_eq_ok, List.forall₂_map_left_iff] at hunits
  clear hfst
  induction hunits with
  | nil => exact ⟨[], .nil, .nil⟩
  | @cons c unit choice us hunit _ ih =>
    obtain ⟨D, hselects, hchooses⟩ := ih fun c hc => hdomain c (List.mem_cons_of_mem _ hc)
    obtain ⟨dc, hmem, hdc⟩ := exists_mem_of_forall₂ (scopeUnit_spec hunit).2.2
      (hdomain c List.mem_cons_self)
    exact ⟨dc :: D, .cons hmem hselects, .cons hdc hchooses⟩

theorem exists_chosen (hunits : reader.children.mapM (scopeUnit reader) = .ok us)
    (h : Selects D us) : ∃ choice, Chosen reader choice ∧ ChoosesAs reader choice D := by
  unfold Chosen
  generalize reader.children = children at hunits ⊢
  rw [mapM_eq_ok] at hunits
  induction hunits generalizing D with
  | nil =>
    cases h
    exact ⟨[], ⟨rfl, by simp⟩, .nil⟩
  | @cons child unit children us hunit _ ih =>
    cases h with
    | @cons dc _ D _ hmem hrest =>
      obtain ⟨choice, ⟨hfst, hdomain⟩, hchooses⟩ := ih hrest
      obtain ⟨action, haction, hdc⟩ := exists_mem_of_forall₂ (scopeUnit_spec hunit).2.2.flip hmem
      exact ⟨(child, action) :: choice, ⟨by simp [hfst], by simpa [haction] using hdomain⟩,
        .cons hdc hchooses⟩

variable (hreader : solverReader ids model threshold solverKind = .ok reader)
  (hunits : reader.children.mapM (scopeUnit reader) = .ok us)
  (hsound : SoundUnits threshold reader.scope us)
  (hroots : List.Forall₂ (IsRootChoice model solverKind reader) reader.rootActions roots)
include hreader hunits hsound hroots

/-- The enumerated policies are the completions of the selections. -/
theorem mem_policies_iff (hpolicies : reader.policies ids = .ok policies) {P : PolicyEvaluation} :
    P ∈ policies ↔ ∃ root ∈ roots, ∃ D, Selects D us ∧
      completePolicy ids model threshold solverKind root D = .ok P := by
  constructor
  · intro hmem
    obtain ⟨choice, part, hchosen, hpart, action, haction, hpolicy⟩ :=
      choice_of_mem_policies hpolicies hmem
    obtain ⟨D, hselects, hchooses⟩ := exists_selects hunits hchosen
    obtain ⟨root, hroot, hisRoot⟩ := exists_mem_of_forall₂ hroots haction
    obtain rfl := Except.ok.inj (hpart.symm.trans hchooses.childPart)
    exact ⟨root, hroot, D, hselects,
      (completePolicy_eq hreader hsound hselects hisRoot).trans hpolicy⟩
  · rintro ⟨root, hroot, D, hselects, hcomplete⟩
    obtain ⟨choice, hchosen, hchooses⟩ := exists_chosen hunits hselects
    obtain ⟨action, haction, hisRoot⟩ := exists_mem_of_forall₂ hroots.flip hroot
    obtain ⟨part, hpart, hall⟩ := policies_of_choice hpolicies hchosen
    obtain ⟨policy, hmem, hpolicy⟩ := hall action haction
    obtain rfl := Except.ok.inj (hpart.symm.trans hchooses.childPart)
    rw [completePolicy_eq hreader hsound hselects hisRoot, hpolicy] at hcomplete
    exact Except.ok.inj hcomplete ▸ hmem

/-- When every selection completes, the policies can be enumerated. -/
theorem policies_returns (h : ∀ root ∈ roots, ∀ D, Selects D us →
    ∃ P, completePolicy ids model threshold solverKind root D = .ok P) :
    ∃ policies, reader.policies ids = .ok policies := by
  suffices hlists : ∃ lists,
    ((cartesian (reader.children.map ChildScope.domain)).mapM fun actions =>
      do
        let part ← reader.childPart (reader.children.zip actions)
        reader.rootActions.mapM (reader.policy ids part)) = .ok lists by
    obtain ⟨lists, hlists⟩ := hlists
    exact ⟨lists.flatten, bind_of_ok hlists⟩
  refine mapM_returns fun actions hactions => ?_
  have hforall := mem_cartesian.mp hactions
  rw [List.forall₂_map_right_iff] at hforall
  have hchosen : Chosen reader (reader.children.zip actions) :=
    ⟨List.map_fst_zip hforall.length_eq.ge, fun c hc => (List.forall₂_iff_zip.mp hforall.flip).2 hc⟩
  obtain ⟨D, hselects, hchooses⟩ := exists_selects hunits hchosen
  rw [bind_of_ok hchooses.childPart]
  refine mapM_returns fun action haction => ?_
  obtain ⟨root, hroot, hisRoot⟩ := exists_mem_of_forall₂ hroots haction
  obtain ⟨P, hP⟩ := h root hroot D hselects
  exact ⟨P, (completePolicy_eq hreader hsound hselects hisRoot).symm.trans hP⟩

end Policies

end Acfqp.Robust
