import Acfqp.Robust.Audit
import Acfqp.Robust.Policies

/-!
# The readers of an accepted model

In an accepted model in which every listed active destination is reached, both readers evaluate all
their decisions: no lookup is missing, and the only exception of an evaluation is the violation of
the reward ceiling. The unrestricted reward bounds every concretized policy.
-/

namespace Acfqp.Robust

open Library PartialSupportIntervalModel

variable {ids : PlannerIds} {model : PartialSupportIntervalModel}
  {threshold : RobustThresholdProfile}

def noCommonAction : PlannerError :=
  .violation "quotient cell has no common concretized semantic action"

section Model

variable (hmodel : WellFormed ids model)
include hmodel

theorem reachableChildStates_eq : ∃ states, reachableChildStates model = .ok states ∧
    states.Nodup ∧ ∀ stateId, stateId ∈ states ↔ Reached model stateId := by
  obtain ⟨root, hroot⟩ := hmodel.exists_root
  obtain ⟨rows, hrows, hfound⟩ := exists_mapM fun action (haction : action ∈ root.actions) => by
    obtain ⟨row, hrow⟩ := hmodel.exists_rootRow hroot haction
    exact ⟨row, show rowOf model model.rootStateId 2 action.actionId = .ok row from
      orRaise_eq_ok.mpr hrow, hrow⟩
  refine ⟨sortBy id (distinct (rows.flatMap model.reachableFrom)), ?_, ?_, fun stateId => ?_⟩
  · unfold reachableChildStates catalogueOf
    rw [bind_of_ok (orRaise_eq_ok.mpr hroot), bind_of_ok hrows]
  · exact ((perm_sortBy _ _).nodup_iff).mpr (nodup_distinct _)
  · rw [mem_sortBy, mem_distinct, List.mem_flatMap]
    constructor
    · rintro ⟨row, hrow, hstate⟩
      obtain ⟨action, -, hrow⟩ := exists_mem_of_forall₂ hfound.flip hrow
      obtain ⟨hmem, hkey⟩ := mem_of_row hrow
      exact ⟨row, hmem, congrArg (fun key : RowKey => key.2.1) hkey, hstate⟩
    · rintro ⟨row, hmem, htwo, hstate⟩
      obtain ⟨action, haction, hkey⟩ := List.mem_map.mp ((hmodel.mem_rootKeys hroot hmem).mp htwo)
      obtain ⟨found, hfoundMem, heq⟩ := exists_mem_of_forall₂ hfound haction
      rw [hkey, hmodel.row_eq hmem] at heq
      obtain rfl := Option.some.inj heq
      exact ⟨row, hfoundMem, hstate⟩

theorem rowsCovered_child {stateId : String} (hreached : Reached model stateId)
    {catalogue : StateActionCatalogue} (hcatalogue : model.catalogue stateId = some catalogue)
    {actionIds : List String}
    (hactions : ∀ actionId ∈ actionIds, ∃ action ∈ catalogue.actions, action.actionId = actionId)
    (childValues : ChildValues) : RowsCovered model threshold childValues stateId 1 actionIds := by
  intro actionId hactionId
  obtain ⟨action, haction, rfl⟩ := hactions actionId hactionId
  obtain ⟨row, hrow⟩ := hmodel.exists_childRow hreached hcatalogue haction
  obtain ⟨hmem, hkey⟩ := mem_of_row hrow
  exact ⟨row, hrow, covered_child hmodel hmem (congrArg (fun key : RowKey => key.2.1) hkey) _⟩

theorem rowsCovered_root (hlisted : ActiveListed model) {root : StateActionCatalogue}
    (hroot : model.catalogue model.rootStateId = some root) {childValues : ChildValues}
    (hvalues : ValuesReached ids model threshold childValues) {actionIds : List String}
    (hactions : ∀ actionId ∈ actionIds, ∃ action ∈ root.actions, action.actionId = actionId) :
    RowsCovered model threshold childValues model.rootStateId 2 actionIds := by
  intro actionId hactionId
  obtain ⟨action, haction, rfl⟩ := hactions actionId hactionId
  obtain ⟨row, hrow⟩ := hmodel.exists_rootRow hroot haction
  obtain ⟨hmem, hkey⟩ := mem_of_row hrow
  exact ⟨row, hrow, covered_root hmodel hlisted hmem
    (congrArg (fun key : RowKey => key.2.1) hkey) hvalues⟩

/-! ## States that decide for themselves -/

omit hmodel in
/-- The scope of a state that decides for itself. -/
def OwnScope (model : PartialSupportIntervalModel) (stateId : String) (child : ChildScope) : Prop :=
  child.key = stateId ∧ child.stateIds = [stateId] ∧ ∃ catalogue,
    model.catalogue stateId = some catalogue ∧
      child.domain = catalogue.actions.map CatalogueAction.actionId

omit hmodel in
theorem ownScopes {states : List String} {children : List ChildScope}
    (h : List.Forall₂ (OwnScope model) states children) :
    children.map ChildScope.key = states ∧ children.flatMap ChildScope.stateIds = states := by
  induction h with
  | nil => exact ⟨rfl, rfl⟩
  | cons hscope _ ih =>
    rw [List.map_cons, List.flatMap_cons, ih.1, ih.2, hscope.1, hscope.2.1]
    exact ⟨rfl, rfl⟩

theorem directReader_reads (hlisted : ActiveListed model) :
    ∃ reader, directReader ids model threshold = .ok reader ∧ Reads ids model threshold
      (fun _ => threshold.rewardCeiling) threshold.rewardCeiling reader := by
  obtain ⟨states, hstates, hnodup, hreached⟩ := reachableChildStates_eq hmodel
  obtain ⟨root, hroot⟩ := hmodel.exists_root
  obtain ⟨children, hchildren, hscopes⟩ : ∃ children, (states.mapM fun stateId => do
      let catalogue ← catalogueOf model stateId
      .ok (⟨stateId, [stateId], catalogue.actions.map CatalogueAction.actionId⟩ : ChildScope)) =
        .ok children ∧ List.Forall₂ (OwnScope model) states children := by
    refine exists_mapM fun stateId hstate => ?_
    obtain ⟨catalogue, hcatalogue⟩ := hmodel.exists_catalogue ((hreached stateId).mp hstate)
    exact ⟨_, bind_eq_ok.mpr ⟨catalogue, orRaise_eq_ok.mpr hcatalogue, rfl⟩, rfl, rfl, catalogue,
      hcatalogue, rfl⟩
  obtain ⟨hkeys, hstateIds⟩ := ownScopes hscopes
  have hscope : ∀ child ∈ children, ∃ stateId ∈ states, OwnScope model stateId child :=
    fun child hchild => exists_mem_of_forall₂ hscopes.flip hchild
  refine ⟨_, bind_eq_ok.mpr ⟨states, hstates, bind_eq_ok.mpr ⟨root, orRaise_eq_ok.mpr hroot,
    bind_eq_ok.mpr ⟨children, hchildren, rfl⟩⟩⟩, ?_⟩
  refine ⟨fun h => root.actions_ne_nil (List.map_eq_nil_iff.mp h), fun child hchild => ?_,
    hkeys ▸ hnodup, hstateIds ▸ hnodup, fun s hs => hstateIds ▸ (hreached s).mpr hs,
    fun child hchild s hs a ha => ?_, fun childValues hvalues _ a ha => ?_⟩
  · obtain ⟨_, -, -, -, catalogue, -, hdomain⟩ := hscope child hchild
    rw [hdomain]
    exact fun h => catalogue.actions_ne_nil (List.map_eq_nil_iff.mp h)
  · obtain ⟨stateId, hstate, -, hown, catalogue, hcatalogue, hdomain⟩ := hscope child hchild
    obtain rfl : s = stateId := by simpa [hown] using hs
    rw [hdomain] at ha
    refine (evaluateGroundAction_yields (rowsCovered_child hmodel ((hreached s).mp hstate)
      hcatalogue (fun actionId hactionId => ?_) _)).mono fun value hvalue =>
        ⟨hvalue, hvalue.bounded.upper_le⟩
    obtain rfl := List.mem_singleton.mp hactionId
    exact List.mem_map.mp ha
  · refine (evaluateGroundAction_yields (rowsCovered_root hmodel hlisted hroot hvalues
      fun actionId hactionId => ?_)).mono fun value hvalue => ⟨hvalue, hvalue.bounded.upper_le⟩
    obtain rfl := List.mem_singleton.mp hactionId
    exact List.mem_map.mp ha

/-! ## The unrestricted reward -/

omit hmodel in
/-- The best children, and the reward that no root action exceeds over them. -/
structure Unrestricted (ids : PlannerIds) (model : PartialSupportIntervalModel)
    (threshold : RobustThresholdProfile) (best : ChildValues) (upper : ℚ) : Prop where
  values : ValuesReached ids model threshold best
  child : ∀ stateId value catalogue, best.lookup stateId = some value →
    model.catalogue stateId = some catalogue → ∀ action ∈ catalogue.actions, ∃ candidate,
      evaluateGroundAction ids model threshold [] .continuationSelected stateId 1
        action.actionId = .ok candidate ∧ candidate.rewardUpper ≤ value.rewardUpper
  root : ∀ root, model.catalogue model.rootStateId = some root → ∀ action ∈ root.actions,
    ∃ candidate, evaluateGroundAction ids model threshold best .rootSelected model.rootStateId 2
      action.actionId = .ok candidate ∧ candidate.rewardUpper ≤ upper

omit hmodel in
theorem bestUnrestricted_spec {candidates : List StateActionEvaluation} (hne : candidates ≠ []) :
    ∃ value, bestUnrestricted candidates = some value ∧ value ∈ candidates ∧
      ∀ candidate ∈ candidates, candidate.rewardUpper ≤ value.rewardUpper := by
  cases hbest : bestUnrestricted candidates with
  | none => exact absurd (List.argmin_eq_none.mp hbest) hne
  | some value =>
    refine ⟨value, rfl, List.argmin_mem hbest, fun candidate hcandidate => ?_⟩
    have hle := List.le_of_mem_argmin hcandidate hbest
    rw [Prod.Lex.toLex_le_toLex] at hle
    exact neg_le_neg_iff.mp (hle.elim le_of_lt fun h => h.1.le)

omit hmodel in
/-- The candidates of a state are evaluated, one for each action. -/
theorem candidates_yields {stateId : String} {catalogue : StateActionCatalogue}
    {remainingHorizon : ℕ} {category : SelectedRowCategory} {childValues : ChildValues}
    (h : ∀ action ∈ catalogue.actions,
      RowsCovered model threshold childValues stateId remainingHorizon [action.actionId]) :
    Yields (· = ceilingViolation) (fun candidates => candidates ≠ [] ∧
        (∀ candidate ∈ candidates,
          Evaluated ids model threshold stateId remainingHorizon candidate) ∧
        ∀ action ∈ catalogue.actions, ∃ candidate ∈ candidates,
          evaluateGroundAction ids model threshold childValues category stateId remainingHorizon
            action.actionId = .ok candidate)
      (catalogue.actions.mapM fun action => evaluateGroundAction ids model threshold childValues
        category stateId remainingHorizon action.actionId) := by
  refine (Yields.mapM fun action haction =>
    (evaluateGroundAction_yields (h action haction)).and_eq).mono fun candidates hcandidates => ?_
  refine ⟨?_, fun candidate hcandidate => ?_, fun action haction => ?_⟩
  · rintro rfl
    exact catalogue.actions_ne_nil (List.forall₂_nil_right_iff.mp hcandidates)
  · obtain ⟨_, -, hevaluated, -⟩ := exists_mem_of_forall₂ hcandidates.flip hcandidate
    exact hevaluated
  · obtain ⟨candidate, hmem, -, heq⟩ := exists_mem_of_forall₂ hcandidates haction
    exact ⟨candidate, hmem, heq⟩

theorem unrestricted_yields (hlisted : ActiveListed model) :
    Yields (· = ceilingViolation) (fun upper => ∃ best, Unrestricted ids model threshold best upper)
      (unrestrictedGroundRewardUpper ids model threshold) := by
  obtain ⟨states, hstates, hnodup, hreached⟩ := reachableChildStates_eq hmodel
  obtain ⟨root, hroot⟩ := hmodel.exists_root
  let Best (stateId : String) (e : String × StateActionEvaluation) : Prop :=
    e.1 = stateId ∧ Evaluated ids model threshold stateId 1 e.2 ∧
    ∀ catalogue, model.catalogue stateId = some catalogue → ∀ action ∈ catalogue.actions,
      ∃ candidate, evaluateGroundAction ids model threshold [] .continuationSelected stateId 1
        action.actionId = .ok candidate ∧ candidate.rewardUpper ≤ e.2.rewardUpper
  have hchild : ∀ stateId ∈ states, Yields (· = ceilingViolation) (Best stateId) (do
      let catalogue ← catalogueOf model stateId
      let candidates ← catalogue.actions.mapM fun action =>
        evaluateGroundAction ids model threshold [] .continuationSelected stateId 1 action.actionId
      let selected ← orRaise (bestUnrestricted candidates)
        (.violation "reachable child has no unrestricted ground action")
      .ok (stateId, selected)) := by
    intro stateId hstate
    obtain ⟨catalogue, hcatalogue⟩ := hmodel.exists_catalogue ((hreached stateId).mp hstate)
    rw [catalogueOf, bind_of_ok (orRaise_eq_ok.mpr hcatalogue)]
    refine (candidates_yields fun action haction => rowsCovered_child hmodel
      ((hreached stateId).mp hstate) hcatalogue (fun actionId hactionId =>
        ⟨action, haction, (List.mem_singleton.mp hactionId).symm⟩) _).bind fun candidates hall => ?_
    obtain ⟨hne, hevaluated, hactions⟩ := hall
    obtain ⟨value, hvalue, hmem, hmax⟩ := bestUnrestricted_spec hne
    rw [bind_of_ok (orRaise_eq_ok.mpr hvalue)]
    refine ⟨rfl, hevaluated value hmem, fun catalogue' hcatalogue' action haction => ?_⟩
    obtain rfl := Option.some.inj (hcatalogue.symm.trans hcatalogue')
    obtain ⟨candidate, hcandidate, heq⟩ := hactions action haction
    exact ⟨candidate, heq, hmax candidate hcandidate⟩
  unfold unrestrictedGroundRewardUpper
  rw [bind_of_ok hstates]
  refine (Yields.mapM hchild).bind fun best hbest => ?_
  have hkeys : best.map Prod.fst = states := by
    have h : best.map Prod.fst = states.map id := map_of_forall₂ hbest fun _ _ _ h => h.1
    rwa [List.map_id] at h
  have hlookup : ∀ stateId value, best.lookup stateId = some value →
      stateId ∈ states ∧ Best stateId (stateId, value) := fun stateId value hvalue => by
    obtain ⟨s, hs, heq, hrest⟩ := exists_mem_of_forall₂ hbest.flip (Dict.lookup_mem hvalue)
    obtain rfl : stateId = s := heq
    exact ⟨hs, rfl, hrest⟩
  have hvalues : ValuesReached ids model threshold best := fun stateId hstate => by
    have hmem : stateId ∈ best.map Prod.fst := hkeys ▸ (hreached stateId).mpr hstate
    obtain ⟨e, he, rfl⟩ := List.mem_map.mp hmem
    have hvalue := Dict.lookup_eq_some (hkeys ▸ hnodup) he
    exact ⟨e.2, hvalue, (hlookup _ _ hvalue).2.2.1⟩
  unfold catalogueOf
  rw [bind_of_ok (orRaise_eq_ok.mpr hroot)]
  refine (candidates_yields fun action haction => rowsCovered_root hmodel hlisted hroot
    hvalues fun actionId hactionId =>
      ⟨action, haction, (List.mem_singleton.mp hactionId).symm⟩).bind fun candidates hall => ?_
  obtain ⟨hne, -, hactions⟩ := hall
  obtain ⟨upper, hupper⟩ := Option.ne_none_iff_exists'.mp
    (List.max?_eq_none_iff.not.mpr (List.map_eq_nil_iff.not.mpr hne) :
      (candidates.map StateActionEvaluation.rewardUpper).max? ≠ none)
  rw [hupper]
  refine ⟨best, hvalues, fun stateId value catalogue hvalue => (hlookup stateId value hvalue).2.2.2
    catalogue, fun root' hroot' action haction => ?_⟩
  obtain rfl := Option.some.inj (hroot.symm.trans hroot')
  obtain ⟨candidate, hcandidate, heq⟩ := hactions action haction
  exact ⟨candidate, heq, le_max? hupper (List.mem_map_of_mem hcandidate)⟩

/-! ## Cells that decide for their states -/

omit hmodel in
def Concretizes (model : PartialSupportIntervalModel) (stateId action : String) : Prop :=
  ∃ catalogue entry, model.catalogue stateId = some catalogue ∧
    model.concretizer (catalogue.stateCoordinateKey, stateId, action) = some entry

omit hmodel in
theorem commonAbstractActions_yields {stateIds : List String}
    (hstates : ∀ stateId ∈ stateIds, ∃ catalogue, model.catalogue stateId = some catalogue) :
    Yields (· = noCommonAction) (fun domain => domain ≠ [] ∧
      ∀ action ∈ domain, ∀ stateId ∈ stateIds, Concretizes model stateId action)
      (commonAbstractActions model stateIds) := by
  have heach : ∀ stateId ∈ stateIds, ∃ keys, (do
      let catalogue ← catalogueOf model stateId
      .ok ((model.concretizerEntries.filter fun entry =>
        entry.stateCoordinateKey = catalogue.stateCoordinateKey ∧ entry.stateId = stateId).map
          DistinctActionConcretizerEntry.abstractActionKey)) =
        (.ok keys : Except PlannerError (List String)) ∧
      ∀ action ∈ keys, Concretizes model stateId action := by
    intro stateId hstate
    obtain ⟨catalogue, hcatalogue⟩ := hstates stateId hstate
    refine ⟨_, bind_eq_ok.mpr ⟨catalogue, orRaise_eq_ok.mpr hcatalogue, rfl⟩, fun action haction =>
      ?_⟩
    obtain ⟨entry, hentry, rfl⟩ := List.mem_map.mp haction
    obtain ⟨hmem, hnamed⟩ := List.mem_filter.mp hentry
    obtain ⟨hcell, hown⟩ := of_decide_eq_true hnamed
    have hkey : entry.key = (catalogue.stateCoordinateKey, stateId, entry.abstractActionKey) :=
      Prod.ext hcell (Prod.ext hown rfl)
    obtain ⟨found, hfound⟩ := Option.isSome_iff_exists.mp (List.find?_isSome.mpr
      ⟨entry, hmem, decide_eq_true hkey⟩ : (model.concretizer
        (catalogue.stateCoordinateKey, stateId, entry.abstractActionKey)).isSome)
    exact ⟨catalogue, found, hcatalogue, hfound⟩
  obtain ⟨available, havailable, hkeys⟩ := exists_mapM heach
  unfold commonAbstractActions
  rw [bind_of_ok havailable]
  refine Yields.bind (Yields.check rfl) fun _ hne => ?_
  refine ⟨hne, fun action haction stateId hstate => ?_⟩
  rw [mem_sortBy, mem_distinct] at haction
  obtain ⟨keys, hmem, hconcretizes⟩ := exists_mem_of_forall₂ hkeys hstate
  refine hconcretizes action ?_
  cases available with
  | nil => cases hmem
  | cons first rest =>
    obtain ⟨hfirst, hrest⟩ := List.mem_filter.mp haction
    rcases List.mem_cons.mp hmem with rfl | hmem
    · exact hfirst
    · exact of_decide_eq_true hrest keys hmem

theorem entry_rows {stateId action : String} {remainingHorizon : ℕ} {childValues : ChildValues}
    {catalogue : StateActionCatalogue} (hcatalogue : model.catalogue stateId = some catalogue)
    {entry : DistinctActionConcretizerEntry}
    (hentry : model.concretizer (catalogue.stateCoordinateKey, stateId, action) = some entry)
    (h : ∀ actionIds : List String, (∀ actionId ∈ actionIds, ∃ action ∈ catalogue.actions,
      action.actionId = actionId) →
        RowsCovered model threshold childValues stateId remainingHorizon actionIds) :
    RowsCovered model threshold childValues stateId remainingHorizon entry.groundActionIds ∧
      ∀ actionId ∈ entry.groundActionIds, ∃ action ∈ catalogue.actions,
        action.actionId = actionId := by
  obtain ⟨hmem, hkey⟩ := mem_of_concretizer hentry
  have hown : entry.stateId = stateId :=
    congrArg (fun key : String × String × String => key.2.1) hkey
  have hactions := hmodel.entry_actions hmem (hown ▸ hcatalogue)
  exact ⟨h _ hactions, hactions⟩

/-- A concretized action never earns more than the best ground action. -/
theorem concretized_yields (hids : Function.Injective ids.rowId) {stateId action : String}
    {remainingHorizon : ℕ} {childValues childValues' : ChildValues} {bound : ℚ}
    {category category' : SelectedRowCategory} (haction : Concretizes model stateId action)
    (hrows : ∀ catalogue, model.catalogue stateId = some catalogue → ∀ actionIds : List String,
      (∀ actionId ∈ actionIds, ∃ action ∈ catalogue.actions, action.actionId = actionId) →
        RowsCovered model threshold childValues stateId remainingHorizon actionIds ∧
        RowsCovered model threshold childValues' stateId remainingHorizon actionIds)
    (hle : ∀ s v v', childValues.lookup s = some v → childValues'.lookup s = some v' →
      v.rewardUpper ≤ v'.rewardUpper)
    (hbest : ∀ catalogue, model.catalogue stateId = some catalogue →
      ∀ action ∈ catalogue.actions, ∃ candidate, evaluateGroundAction ids model threshold
        childValues' category' stateId remainingHorizon action.actionId = .ok candidate ∧
          candidate.rewardUpper ≤ bound) :
    Yields (· = ceilingViolation) (fun value =>
      Evaluated ids model threshold stateId remainingHorizon value ∧ value.rewardUpper ≤ bound)
      (evaluateConcretizedStateAction ids model threshold childValues category stateId
        remainingHorizon action) := by
  obtain ⟨catalogue, entry, hcatalogue, hentry⟩ := haction
  obtain ⟨hcovered, hactions⟩ := entry_rows hmodel hcatalogue hentry fun actionIds hactionIds =>
    (hrows catalogue hcatalogue actionIds hactionIds).1
  refine (evaluateConcretizedStateAction_yields hids hcatalogue hentry hcovered).mono
    fun value hvalue => ?_
  obtain ⟨hevaluated, rows, hupper, hne, heach⟩ := hvalue
  refine ⟨hevaluated, hupper ▸ meanBound_le hne fun e he => ?_⟩
  obtain ⟨actionId, hactionId, row, hrow, heq⟩ := heach e he
  obtain ⟨ground, hground, rfl⟩ := hactions actionId hactionId
  obtain ⟨candidate, hcandidate, hcandidateLe⟩ := hbest catalogue hcatalogue ground hground
  have hboth := hrows catalogue hcatalogue [ground.actionId] fun actionId hactionId =>
    ⟨ground, hground, (List.mem_singleton.mp hactionId).symm⟩
  obtain ⟨_, hrow', hcovered⟩ := hboth.1 _ (List.mem_singleton_self _)
  obtain ⟨_, hrow'', hcovered'⟩ := hboth.2 _ (List.mem_singleton_self _)
  obtain rfl := Option.some.inj (hrow.symm.trans hrow')
  obtain rfl := Option.some.inj (hrow.symm.trans hrow'')
  unfold evaluateGroundAction rowOf at hcandidate
  rw [bind_of_ok (orRaise_eq_ok.mpr hrow)] at hcandidate
  obtain ⟨e', he', hstate⟩ := bind_eq_ok.mp hcandidate
  obtain rfl := Except.ok.inj hstate
  exact (rewardUpper_mono hcovered hcovered' heq he' fun item hitem =>
    worth_rewardUpper_mono hcovered hcovered' hle hitem).trans hcandidateLe

omit hmodel in
def CellScope (model : PartialSupportIntervalModel) (group : String × List (String × String))
    (child : ChildScope) : Prop :=
  child.key = group.1 ∧ child.stateIds = sortBy id (group.2.map Prod.snd) ∧ child.domain ≠ [] ∧
    ∀ action ∈ child.domain, ∀ stateId ∈ child.stateIds, Concretizes model stateId action

omit hmodel in
theorem cellScopes {states : List String} (hnodup : states.Nodup) {cellOf : String → String}
    {children : List ChildScope} (h : List.Forall₂ (CellScope model)
      (sortBy Prod.fst (groupBy Prod.fst (states.map fun s => (cellOf s, s)))) children) :
    (children.map ChildScope.key).Nodup ∧ (children.flatMap ChildScope.stateIds).Nodup ∧
      ∀ stateId, stateId ∈ children.flatMap ChildScope.stateIds ↔ stateId ∈ states := by
  have hgroup : ∀ group ∈ groupBy Prod.fst (states.map fun s => (cellOf s, s)),
      group.2.map Prod.snd = states.filter fun s => cellOf s = group.1 := by
    intro group hgroup
    obtain ⟨k, -, rfl⟩ := List.mem_map.mp hgroup
    rw [List.filter_map, List.map_map]
    exact List.map_id _
  have hkeys : (groupBy Prod.fst (states.map fun s => (cellOf s, s))).map Prod.fst =
      distinct (states.map cellOf) := by
    rw [groupBy, List.map_map, List.map_map]
    exact List.map_id _
  have hscopes : children.map ChildScope.key = (sortBy Prod.fst (groupBy Prod.fst
      (states.map fun s => (cellOf s, s)))).map Prod.fst :=
    map_of_forall₂ h fun _ _ _ hscope => hscope.1
  have hstateIds : children.map ChildScope.stateIds = (sortBy Prod.fst (groupBy Prod.fst
      (states.map fun s => (cellOf s, s)))).map fun group =>
        sortBy id (states.filter fun s => cellOf s = group.1) :=
    map_of_forall₂ h fun group hmem _ hscope => by
      rw [hscope.2.1, hgroup group (mem_sortBy.mp hmem)]
  have hflat : ∀ stateId, stateId ∈ children.flatMap ChildScope.stateIds ↔ stateId ∈ states := by
    intro stateId
    rw [List.flatMap_def, hstateIds]
    simp only [List.mem_flatten, List.mem_map, mem_sortBy, exists_exists_and_eq_and,
      List.mem_filter, decide_eq_true_eq]
    constructor
    · rintro ⟨_, -, hmem, -⟩
      exact hmem
    · intro hmem
      have hcell : cellOf stateId ∈ (groupBy Prod.fst (states.map fun s => (cellOf s, s))).map
          Prod.fst := hkeys ▸ mem_distinct.mpr (List.mem_map_of_mem hmem)
      obtain ⟨group, hgroupMem, heq⟩ := List.mem_map.mp hcell
      exact ⟨group, hgroupMem, hmem, heq.symm⟩
  have hdistinct : ((sortBy Prod.fst (groupBy Prod.fst (states.map fun s => (cellOf s, s)))).map
      Prod.fst).Nodup := nodup_map_sortBy (hkeys ▸ nodup_distinct _)
  refine ⟨hscopes ▸ hdistinct, ?_, hflat⟩
  rw [List.flatMap_def, hstateIds, List.nodup_flatten]
  constructor
  · intro stateIds hmem
    obtain ⟨group, -, rfl⟩ := List.mem_map.mp hmem
    exact ((perm_sortBy _ _).nodup_iff).mpr (hnodup.filter _)
  · rw [List.Nodup, List.pairwise_map] at hdistinct
    refine List.pairwise_map.mpr (hdistinct.imp fun hne => List.disjoint_left.mpr ?_)
    intro stateId hmem hmem'
    rw [mem_sortBy, List.mem_filter, decide_eq_true_iff] at hmem hmem'
    exact hne (hmem.2.symm.trans hmem'.2)

/-- The quotient reader evaluates, with upper rewards within the unrestricted reward, unless some
cell has no common action. -/
theorem quotientReader_reads (hids : Function.Injective ids.rowId) (hlisted : ActiveListed model)
    {best : ChildValues} {upper : ℚ} (hbest : Unrestricted ids model threshold best upper) :
    Yields (· = noCommonAction) (fun reader => Reads ids model threshold
        (fun stateId => ((best.lookup stateId).map StateActionEvaluation.rewardUpper).getD 0) upper
        reader)
      (quotientReader ids model threshold) := by
  obtain ⟨states, hstates, hnodup, hreached⟩ := reachableChildStates_eq hmodel
  obtain ⟨root, hroot⟩ := hmodel.exists_root
  have hcatalogues : ∀ stateId ∈ states, ∃ catalogue, model.catalogue stateId = some catalogue :=
    fun stateId hstate => hmodel.exists_catalogue ((hreached stateId).mp hstate)
  let cellOf (stateId : String) : String :=
    ((model.catalogue stateId).map StateActionCatalogue.stateCoordinateKey).getD ""
  have hcells : (states.mapM fun stateId => do
      let catalogue ← catalogueOf model stateId
      .ok (catalogue.stateCoordinateKey, stateId)) =
        (.ok (states.map fun s => (cellOf s, s)) : Except PlannerError _) := by
    refine mapM_of_forall fun stateId hstate => ?_
    obtain ⟨catalogue, hcatalogue⟩ := hcatalogues stateId hstate
    refine bind_eq_ok.mpr ⟨catalogue, orRaise_eq_ok.mpr hcatalogue, ?_⟩
    simp [cellOf, hcatalogue]
  unfold quotientReader
  rw [bind_of_ok hstates, bind_of_ok hcells]
  have hscope : ∀ group ∈ sortBy Prod.fst (groupBy Prod.fst (states.map fun s => (cellOf s, s))),
      Yields (· = noCommonAction) (CellScope model group) (do
        let stateIds := sortBy id (group.2.map Prod.snd)
        let domain ← commonAbstractActions model stateIds
        .ok ⟨group.1, stateIds, domain⟩) := by
    intro group hgroup
    refine (commonAbstractActions_yields fun stateId hstate => ?_).bind fun domain hdomain =>
      ⟨rfl, rfl, hdomain.1, hdomain.2⟩
    obtain ⟨k, -, rfl⟩ := List.mem_map.mp (mem_sortBy.mp hgroup)
    obtain ⟨e, he, rfl⟩ := List.mem_map.mp (mem_sortBy.mp hstate)
    obtain ⟨s, hs, rfl⟩ := List.mem_map.mp (List.mem_filter.mp he).1
    exact hcatalogues s hs
  refine (Yields.mapM hscope).bind fun children hchildren => ?_
  obtain ⟨hkeys, hdisjoint, hflat⟩ := cellScopes hnodup hchildren
  have hchild : ∀ child ∈ children, child.domain ≠ [] ∧ ∀ action ∈ child.domain,
      ∀ stateId ∈ child.stateIds, Concretizes model stateId action := fun child hmem => by
    obtain ⟨_, -, hscope⟩ := exists_mem_of_forall₂ hchildren.flip hmem
    exact hscope.2.2
  rw [catalogueOf, bind_of_ok (orRaise_eq_ok.mpr hroot)]
  refine (commonAbstractActions_yields fun stateId hstate =>
    ⟨root, List.mem_singleton.mp hstate ▸ hroot⟩).bind fun rootActions hrootActions => ?_
  refine ⟨hrootActions.1, fun child hmem => (hchild child hmem).1, hkeys, hdisjoint,
    fun s hs => (hflat s).mpr ((hreached s).mpr hs), fun child hmem s hs action haction => ?_,
    fun childValues hvalues hlimits action haction => ?_⟩
  · have hreachedState : Reached model s :=
      (hreached s).mp ((hflat s).mp (List.mem_flatMap.mpr ⟨child, hmem, hs⟩))
    obtain ⟨value, hvalue, -⟩ := hbest.values s hreachedState
    simp only [hvalue, Option.map_some, Option.getD_some]
    exact concretized_yields hmodel hids ((hchild child hmem).2 action haction s hs)
      (fun catalogue hcatalogue actionIds hactionIds =>
        ⟨rowsCovered_child hmodel hreachedState hcatalogue hactionIds _,
          rowsCovered_child hmodel hreachedState hcatalogue hactionIds _⟩)
      (fun s v v' hv _ => by simp at hv) fun catalogue hcatalogue =>
        hbest.child s value catalogue hvalue hcatalogue
  · refine concretized_yields hmodel hids (hrootActions.2 action haction _
      (List.mem_singleton_self _)) (fun catalogue hcatalogue actionIds hactionIds =>
        ⟨rowsCovered_root hmodel hlisted hcatalogue hvalues hactionIds,
          rowsCovered_root hmodel hlisted hcatalogue hbest.values hactionIds⟩)
      (fun s v v' hv hv' => ?_) fun catalogue hcatalogue => hbest.root catalogue hcatalogue
    have hle := hlimits s v hv
    rwa [hv', Option.map_some, Option.getD_some] at hle

end Model

end Acfqp.Robust
