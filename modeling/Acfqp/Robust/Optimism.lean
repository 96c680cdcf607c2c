import Acfqp.Robust.Decisions
import Acfqp.Robust.Preference

/-!
# Optimistic completions

At a node of the search the decided scopes have the values of their choices, and every open scope
takes at each of its states the best that its choices offer there. So the node is worth at least as
much as each of its completions, and its least policy key comes before theirs.
-/

namespace Acfqp.Robust

open Library PartialSupportIntervalModel

variable {ids : PlannerIds} {model : PartialSupportIntervalModel}
  {threshold : RobustThresholdProfile} {solverKind : RobustSolverKind} {reader : PolicyReader}
  {scope : PolicyScope}

/-! ## Values that are no worse -/

/-- The same states in the same order, with values that are no worse. -/
abbrev Below (a b : ChildValues) : Prop :=
  List.Forall₂ (fun e e' => e.1 = e'.1 ∧ e.2.rewardLower ≤ e'.2.rewardLower ∧
    e'.2.failureUpper ≤ e.2.failureUpper) a b

theorem Below.refl (a : ChildValues) : Below a a :=
  List.forall₂_same.mpr fun _ _ => ⟨rfl, le_rfl, le_rfl⟩

theorem Below.lookup {a b : ChildValues} (h : Below a b) {s : String}
    {v v' : StateActionEvaluation} (ha : a.lookup s = some v) (hb : b.lookup s = some v') :
    v.rewardLower ≤ v'.rewardLower ∧ v'.failureUpper ≤ v.failureUpper := by
  induction h with
  | nil => cases ha
  | @cons e e' a b hhead _ ih =>
    obtain ⟨k, x⟩ := e
    obtain ⟨k', x'⟩ := e'
    obtain ⟨rfl, hle⟩ := hhead
    rw [List.lookup_cons] at ha hb
    cases hk : s == k with
    | true =>
      simp only [hk, Option.some.injEq] at ha hb
      exact ha ▸ hb ▸ hle
    | false =>
      simp only [hk] at ha hb
      exact ih ha hb

theorem below_of_mem {a b : ChildValues} (hkeys : a.map Prod.fst = b.map Prod.fst)
    (h : ∀ s v v', (s, v) ∈ a → (s, v') ∈ b →
      v.rewardLower ≤ v'.rewardLower ∧ v'.failureUpper ≤ v.failureUpper) : Below a b := by
  induction a generalizing b with
  | nil =>
    obtain rfl := List.map_eq_nil_iff.mp hkeys.symm
    exact .nil
  | cons e a ih =>
    cases b with
    | nil => cases hkeys
    | cons e' b =>
      obtain ⟨hhead, htail⟩ := List.cons_eq_cons.mp hkeys
      refine .cons ⟨hhead, h e.1 e.2 e'.2 List.mem_cons_self ?_⟩
        (ih htail fun s v v' hv hv' => h s v v' (List.mem_cons_of_mem _ hv)
          (List.mem_cons_of_mem _ hv'))
      exact hhead ▸ List.mem_cons_self

/-- Looking a key up in a list without repeated keys does not depend on the order. -/
theorem lookup_of_perm {a b : ChildValues} (h : a.Perm b) (hnodup : (a.map Prod.fst).Nodup)
    (s : String) : a.lookup s = b.lookup s := by
  have hnodup' : (b.map Prod.fst).Nodup := (h.map Prod.fst).nodup_iff.mp hnodup
  refine Option.ext fun v => ⟨fun hv => ?_, fun hv => ?_⟩
  · exact Dict.lookup_eq_some hnodup' (h.mem_iff.mp (Dict.lookup_mem hv))
  · exact Dict.lookup_eq_some hnodup (h.mem_iff.mpr (Dict.lookup_mem hv))

/-! ## What an open decision offers -/

/-- The best that the choices of a decision offer at each of its states. -/
def freeValues (unit : DecisionUnit) : Except LazyError ChildValues :=
  unit.stateIds.mapM fun stateId => do
    let value ← optimisticValue unit stateId
    .ok (stateId, value)

section Unit

variable {unit : DecisionUnit}
  (hsound : ∀ choice ∈ unit.choices, SoundChoice threshold scope unit choice)
  (hne : unit.choices ≠ []) (hnodup : unit.stateIds.Nodup)
include hsound hne hnodup

theorem optimisticValue_spec {stateId : String} (hstate : stateId ∈ unit.stateIds) :
    ∃ value, optimisticValue unit stateId = .ok value ∧ Bounded threshold value ∧
      ∀ choice ∈ unit.choices, ∀ v, (stateId, v) ∈ choice.stateValues →
        v.rewardLower ≤ value.rewardLower ∧ value.failureUpper ≤ v.failureUpper := by
  obtain ⟨candidates, hcandidates, hforall⟩ := exists_mapM (f := fun choice : DecisionChoice =>
      orRaise (choice.stateValues.lookup stateId) (LazyError.planner (.keyError (pyRepr stateId))))
    (R := fun choice v => (stateId, v) ∈ choice.stateValues) (l := unit.choices)
    fun choice hchoice => by
      have hmem : stateId ∈ choice.stateValues.map Prod.fst :=
        (hsound choice hchoice).states ▸ hstate
      obtain ⟨⟨s, v⟩, hv, rfl⟩ := List.mem_map.mp hmem
      refine ⟨v, orRaise_eq_ok.mpr (Dict.lookup_eq_some ?_ hv), hv⟩
      exact (hsound choice hchoice).states ▸ hnodup
  have hcandidate : ∀ v ∈ candidates, Bounded threshold v := fun v hv => by
    obtain ⟨choice, hchoice, hmem⟩ := exists_mem_of_forall₂ hforall.flip hv
    exact (hsound choice hchoice).bounded _ hmem
  have hnil : candidates ≠ [] := fun hnil => hne <| by
    rw [hnil] at hforall
    exact List.forall₂_nil_right_iff.mp hforall
  obtain ⟨lower, hlower⟩ : ∃ x, (candidates.map StateActionEvaluation.rewardLower).max? = some x :=
    Option.isSome_iff_exists.mp (by simpa [List.isSome_max?_iff] using hnil)
  obtain ⟨upper, hupper⟩ : ∃ x, (candidates.map StateActionEvaluation.rewardUpper).max? = some x :=
    Option.isSome_iff_exists.mp (by simpa [List.isSome_max?_iff] using hnil)
  obtain ⟨failure, hfailure⟩ : ∃ x, (candidates.map StateActionEvaluation.failureUpper).min? =
      some x := Option.isSome_iff_exists.mp (by simpa [List.isSome_min?_iff] using hnil)
  obtain ⟨vl, hvl, rfl⟩ := List.mem_map.mp (max?_mem hlower)
  obtain ⟨vu, hvu, rfl⟩ := List.mem_map.mp (max?_mem hupper)
  obtain ⟨vf, hvf, rfl⟩ := List.mem_map.mp (min?_mem hfailure)
  refine ⟨⟨vl.rewardLower, max vl.rewardLower vu.rewardUpper, vf.failureUpper, []⟩, ?_,
    ⟨(hcandidate vl hvl).lower_nonneg, le_max_left _ _,
    max_le ((hcandidate vl hvl).lower_le.trans (hcandidate vl hvl).upper_le)
      (hcandidate vu hvu).upper_le, (hcandidate vf hvf).failure_nonneg,
      (hcandidate vf hvf).failure_le_one⟩, fun choice hchoice v hv => ?_⟩
  · unfold optimisticValue
    rw [bind_of_ok hcandidates, hlower, hupper, hfailure]
    rfl
  · obtain ⟨w, hw, hmem⟩ := exists_mem_of_forall₂ hforall hchoice
    have hkeys : (choice.stateValues.map Prod.fst).Nodup :=
      (hsound choice hchoice).states ▸ hnodup
    obtain rfl := Option.some.inj
      ((Dict.lookup_eq_some hkeys hv).symm.trans (Dict.lookup_eq_some hkeys hmem))
    exact ⟨le_max? hlower (List.mem_map_of_mem hw), min?_le hfailure (List.mem_map_of_mem hw)⟩

theorem freeValues_spec : ∃ values, freeValues unit = .ok values ∧
    values.map Prod.fst = unit.stateIds ∧ (∀ e ∈ values, Bounded threshold e.2) ∧
      ∀ choice ∈ unit.choices, Below choice.stateValues values := by
  obtain ⟨values, hvalues, hforall⟩ := exists_mapM (f := fun stateId => do
      let value ← optimisticValue unit stateId
      (.ok (stateId, value) : Except LazyError _))
    (R := fun stateId e => e.1 = stateId ∧ Bounded threshold e.2 ∧ ∀ choice ∈ unit.choices, ∀ v,
      (stateId, v) ∈ choice.stateValues →
        v.rewardLower ≤ e.2.rewardLower ∧ e.2.failureUpper ≤ v.failureUpper)
    (l := unit.stateIds) fun stateId hstate => by
      obtain ⟨value, hvalue, hbounded, hbest⟩ := optimisticValue_spec hsound hne hnodup hstate
      exact ⟨(stateId, value), bind_of_ok hvalue, rfl, hbounded, hbest⟩
  have hkeys : values.map Prod.fst = unit.stateIds := by
    rw [map_of_forall₂ hforall (k := id) fun _ _ _ he => he.1, List.map_id]
  refine ⟨values, hvalues, hkeys, fun e he => ?_, fun choice hchoice => ?_⟩
  · obtain ⟨stateId, -, -, hbounded, -⟩ := exists_mem_of_forall₂ hforall.flip he
    exact hbounded
  · refine below_of_mem ((hsound choice hchoice).states.trans hkeys.symm) fun s v v' hv hv' => ?_
    obtain ⟨stateId, -, rfl, -, hbest⟩ := exists_mem_of_forall₂ hforall.flip hv'
    exact hbest choice hchoice v hv

end Unit

theorem free_spec {us : List DecisionUnit} {F : List ChildValues}
    (hsound : SoundUnits threshold scope us) (hF : us.mapM freeValues = .ok F) :
    F.flatten.map Prod.fst = us.flatMap DecisionUnit.stateIds ∧
      (∀ e ∈ F.flatten, Bounded threshold e.2) ∧
      ∀ D, Selects D us → Below (D.flatMap DecisionChoice.stateValues) F.flatten := by
  have hunit : ∀ unit ∈ us, unit.stateIds.Nodup := fun unit hunit =>
    (List.nodup_flatMap.mp hsound.states_nodup).1 unit hunit
  have hspec : List.Forall₂ (fun (unit : DecisionUnit) values =>
      values.map Prod.fst = unit.stateIds ∧ (∀ e ∈ values, Bounded threshold e.2) ∧
        ∀ choice ∈ unit.choices, Below choice.stateValues values) us F := by
    refine ((List.forall₂_and_left _ _).mpr ⟨fun _ hmem => hmem, mapM_eq_ok.mp hF⟩).imp
      fun unit values hboth => ?_
    obtain ⟨values', hvalues, hrest⟩ := freeValues_spec (hsound.sound unit hboth.1)
      (hsound.choices_ne_nil unit hboth.1) (hunit unit hboth.1)
    obtain rfl := Except.ok.inj (hboth.2.symm.trans hvalues)
    exact hrest
  clear hF hunit hsound
  induction hspec with
  | nil => exact ⟨rfl, by simp, fun D hD => by cases hD; exact .nil⟩
  | @cons unit values us F hhead _ ih =>
    obtain ⟨hkeys, hbounded, hbelow⟩ := ih
    refine ⟨by simp [hhead.1, hkeys], fun e he => ?_, fun D hD => ?_⟩
    · rcases List.mem_append.mp (List.flatten_cons ▸ he) with he | he
      · exact hhead.2.1 e he
      · exact hbounded e he
    · cases hD with
      | cons hmem hrest => exact List.rel_append (hhead.2.2 _ hmem) (hbelow _ hrest)

/-! ## Nodes of the search -/

/-- A search below a root action decides some scopes and leaves a choice in each other one. -/
structure SoundSearch (model : PartialSupportIntervalModel) (threshold : RobustThresholdProfile)
    (solverKind : RobustSolverKind) (reader : PolicyReader) (others : List DecisionUnit)
    (search : RootSearch) : Prop where
  units : SoundUnits threshold reader.scope (search.orderedUnits ++ others)
  irrelevant : Selects search.irrelevant others
  reached : ∀ stateId, Reached model stateId →
    stateId ∈ (search.orderedUnits ++ others).flatMap DecisionUnit.stateIds
  root : ∃ action, IsRootChoice model solverKind reader action search.root

section Nodes

variable {others done unresolved : List DecisionUnit} {search : RootSearch}
  {selected : List DecisionChoice}

theorem SoundUnits.append_left {us us' : List DecisionUnit}
    (h : SoundUnits threshold scope (us ++ us')) : SoundUnits threshold scope us where
  keys_nodup := (List.nodup_append.mp (List.map_append ▸ h.keys_nodup)).1
  states_nodup := (List.nodup_append.mp (List.flatMap_append ▸ h.states_nodup)).1
  choices_ne_nil unit hunit := h.choices_ne_nil unit (List.mem_append_left _ hunit)
  actions_nodup unit hunit := h.actions_nodup unit (List.mem_append_left _ hunit)
  sound unit hunit := h.sound unit (List.mem_append_left _ hunit)

theorem SoundUnits.append_right {us us' : List DecisionUnit}
    (h : SoundUnits threshold scope (us ++ us')) : SoundUnits threshold scope us' where
  keys_nodup := (List.nodup_append.mp (List.map_append ▸ h.keys_nodup)).2.1
  states_nodup := (List.nodup_append.mp (List.flatMap_append ▸ h.states_nodup)).2.1
  choices_ne_nil unit hunit := h.choices_ne_nil unit (List.mem_append_right _ hunit)
  actions_nodup unit hunit := h.actions_nodup unit (List.mem_append_right _ hunit)
  sound unit hunit := h.sound unit (List.mem_append_right _ hunit)

def nodeValues (search : RootSearch) (selected : List DecisionChoice) (free : List ChildValues) :
    ChildValues :=
  selected.flatMap DecisionChoice.stateValues ++ free.flatten ++
    search.irrelevant.flatMap DecisionChoice.stateValues

variable (h : SoundSearch model threshold solverKind reader others search)
  (hordered : search.orderedUnits = done ++ unresolved) (hselected : Selects selected done)
include h hordered hselected

theorem nodeValues_spec {F : List ChildValues} (hF : unresolved.mapM freeValues = .ok F) :
    (nodeValues search selected F).map Prod.fst =
        (search.orderedUnits ++ others).flatMap DecisionUnit.stateIds ∧
      ∀ e ∈ nodeValues search selected F, Bounded threshold e.2 := by
  have hunits := hordered ▸ h.units
  obtain ⟨hkeys, hbounded, -⟩ := free_spec hunits.append_left.append_right hF
  refine ⟨?_, fun e he => ?_⟩
  · rw [nodeValues, List.map_append, List.map_append, hkeys,
      hselected.states hunits.append_left.append_left.sound,
      h.irrelevant.states h.units.append_right.sound, hordered, List.flatMap_append,
      List.flatMap_append]
  · rcases List.mem_append.mp he with he | he
    · rcases List.mem_append.mp he with he | he
      · obtain ⟨choice, hchoice, he⟩ := List.mem_flatMap.mp he
        obtain ⟨unit, hunit, hmem⟩ := exists_mem_of_forall₂ hselected hchoice
        exact (hunits.append_left.append_left.sound unit hunit choice hmem).bounded e he
      · exact hbounded e he
    · obtain ⟨choice, hchoice, he⟩ := List.mem_flatMap.mp he
      obtain ⟨unit, hunit, hmem⟩ := exists_mem_of_forall₂ h.irrelevant hchoice
      exact (h.units.append_right.sound unit hunit choice hmem).bounded e he

/-- The code collects the values of a node. -/
theorem optimisticChildValues_eq : ∃ F values, unresolved.mapM freeValues = .ok F ∧
    optimisticChildValues search.orderedUnits selected unresolved search.irrelevant = .ok values ∧
      ∀ s, values.lookup s = (nodeValues search selected F).lookup s := by
  have hunits := hordered ▸ h.units
  obtain ⟨F, hF⟩ := mapM_returns (f := freeValues) (l := unresolved) fun unit hunit => by
    obtain ⟨values, hvalues, -⟩ := freeValues_spec
      (hunits.append_left.append_right.sound unit hunit)
      (hunits.append_left.append_right.choices_ne_nil unit hunit)
      ((List.nodup_flatMap.mp hunits.append_left.append_right.states_nodup).1 unit hunit)
    exact ⟨values, hvalues⟩
  have hkeys := (nodeValues_spec h hordered hselected hF).1
  have hnodup : ((nodeValues search selected F).map Prod.fst).Nodup := hkeys ▸ h.units.states_nodup
  have hperm : ((selected ++ search.irrelevant).flatMap DecisionChoice.stateValues ++
      F.flatten).Perm (nodeValues search selected F) := by
    rw [nodeValues, List.flatMap_append, List.append_assoc, List.append_assoc]
    exact (List.Perm.refl _).append List.perm_append_comm
  have hnodup' := (hperm.map Prod.fst).nodup_iff.mpr hnodup
  refine ⟨F, _, hF, ?_, lookup_of_perm hperm hnodup'⟩
  unfold optimisticChildValues
  rw [bind_of_ok (show (unresolved.mapM fun unit => unit.stateIds.mapM fun stateId => do
    let value ← optimisticValue unit stateId
    (.ok (stateId, value) : Except LazyError _)) = .ok F from hF)]
  simp only [Dict.ofPairs_of_nodup hnodup']
  refine bind_of_ok (require_eq_ok (u := ()).mpr ?_)
  rw [List.toFinset_eq_of_perm _ _ (hperm.map Prod.fst), hkeys,
    h.irrelevant.states h.units.append_right.sound, List.flatMap_append]

omit hordered hselected in
theorem childrenBounded_of_lookup {values C : ChildValues} (hkeys : C.map Prod.fst =
      (search.orderedUnits ++ others).flatMap DecisionUnit.stateIds)
    (hbounded : ∀ e ∈ C, Bounded threshold e.2) (hvalues : ∀ s, values.lookup s = C.lookup s) :
    ChildrenBounded model threshold values := by
  intro stateId hreached
  have hmem : stateId ∈ C.map Prod.fst := hkeys ▸ h.reached stateId hreached
  obtain ⟨⟨s, v⟩, hv, rfl⟩ := List.mem_map.mp hmem
  exact ⟨v, (hvalues s).trans (Dict.lookup_eq_some (hkeys ▸ h.units.states_nodup) hv),
    hbounded _ hv⟩

omit hordered hselected in
/-- The values of a complete selection are bounded, and there for every state that is read. -/
theorem completion_bounded {E : List DecisionChoice} (hE : Selects E search.orderedUnits) :
    ((E ++ search.irrelevant).flatMap DecisionChoice.stateValues).map Prod.fst =
        (search.orderedUnits ++ others).flatMap DecisionUnit.stateIds ∧
      ChildrenBounded model threshold
        ((E ++ search.irrelevant).flatMap DecisionChoice.stateValues) := by
  have hfree : ([] : List DecisionUnit).mapM freeValues = .ok [] := rfl
  obtain ⟨hkeys, hbounded⟩ := nodeValues_spec h (List.append_nil _).symm hE hfree
  have hnode : nodeValues search E [] =
      (E ++ search.irrelevant).flatMap DecisionChoice.stateValues := by
    simp [nodeValues]
  rw [hnode] at hkeys hbounded
  exact ⟨hkeys, childrenBounded_of_lookup h hkeys hbounded fun _ => rfl⟩

omit hselected in
theorem completion_below {F : List ChildValues} (hF : unresolved.mapM freeValues = .ok F)
    {D : List DecisionChoice} (hD : Selects D unresolved) :
    Below ((selected ++ D ++ search.irrelevant).flatMap DecisionChoice.stateValues)
      (nodeValues search selected F) := by
  have hunits := hordered ▸ h.units
  rw [nodeValues, List.flatMap_append, List.flatMap_append]
  exact List.rel_append (List.rel_append (Below.refl _)
    ((free_spec hunits.append_left.append_right hF).2.2 D hD)) (Below.refl _)

theorem nodeValues_below {F F₀ : List ChildValues} (hF : unresolved.mapM freeValues = .ok F)
    (hF₀ : search.orderedUnits.mapM freeValues = .ok F₀) :
    Below (nodeValues search selected F) (nodeValues search [] F₀) := by
  have hunits := hordered ▸ h.units
  obtain ⟨G, hG⟩ := mapM_returns (f := freeValues) (l := done) fun unit hunit => by
    obtain ⟨values, hvalues, -⟩ := freeValues_spec
      (hunits.append_left.append_left.sound unit hunit)
      (hunits.append_left.append_left.choices_ne_nil unit hunit)
      ((List.nodup_flatMap.mp hunits.append_left.append_left.states_nodup).1 unit hunit)
    exact ⟨values, hvalues⟩
  have happend : search.orderedUnits.mapM freeValues = .ok (G ++ F) := by
    rw [hordered, mapM_eq_ok]
    exact List.rel_append (mapM_eq_ok.mp hG) (mapM_eq_ok.mp hF)
  obtain rfl := Except.ok.inj (hF₀.symm.trans happend)
  rw [nodeValues, nodeValues, List.flatMap_nil, List.nil_append, List.flatten_append]
  exact List.rel_append (List.rel_append
    ((free_spec hunits.append_left.append_left hG).2.2 _ hselected) (Below.refl _)) (Below.refl _)

/-- A node is worth no more than the root of the search, and no less than its completions. -/
theorem node_spec (hmodel : WellFormed ids model) (hlisted : ActiveListed model)
    {values₀ : ChildValues} {value₀ : StateActionEvaluation}
    (htop : optimisticChildValues search.orderedUnits [] search.orderedUnits search.irrelevant =
      .ok values₀)
    (hvalue₀ : evaluateRoot ids model threshold solverKind search.root values₀ = .ok value₀) :
    ∃ values value, optimisticChildValues search.orderedUnits selected unresolved
        search.irrelevant = .ok values ∧
      evaluateRoot ids model threshold solverKind search.root values = .ok value ∧
      Bounded threshold value ∧ ∀ D, Selects D unresolved → ∃ P, completePolicy ids model threshold
        solverKind search.root (selected ++ D ++ search.irrelevant) = .ok P ∧
        P.rewardLower ≤ value.rewardLower ∧ value.failureUpper ≤ P.failureUpper := by
  obtain ⟨action, hroot⟩ := h.root
  obtain ⟨rows, hrows, -⟩ := hroot.relevant
  obtain ⟨F, values, hF, hvalues, hlookup⟩ := optimisticChildValues_eq h hordered hselected
  obtain ⟨F₀, values₁, hF₀, hvalues₁, hlookup₀⟩ :=
    optimisticChildValues_eq h (List.nil_append _).symm (.nil : Selects [] [])
  obtain rfl := Except.ok.inj (htop.symm.trans hvalues₁)
  obtain ⟨hkeys, hbounded⟩ := nodeValues_spec h hordered hselected hF
  obtain ⟨hkeys₀, hbounded₀⟩ := nodeValues_spec h (List.nil_append _).symm .nil hF₀
  have hchildren := childrenBounded_of_lookup h hkeys hbounded hlookup
  have hchildren₀ := childrenBounded_of_lookup h hkeys₀ hbounded₀ hlookup₀
  obtain ⟨value, hvalue, -⟩ := evaluateRoot_mono hmodel hlisted hrows hroot.actionKey hchildren
    hchildren₀ (fun s _ v v' hv hv' => (nodeValues_below h hordered hselected hF hF₀).lookup
      ((hlookup s).symm.trans hv) ((hlookup₀ s).symm.trans hv')) hvalue₀
  refine ⟨values, value, hvalues, hvalue,
    evaluateRoot_bounded hmodel hlisted hrows hroot.actionKey hchildren hvalue, fun D hD => ?_⟩
  have hall : Selects (selected ++ D) (done ++ unresolved) := List.rel_append hselected hD
  obtain ⟨hkeysD, hchildrenD⟩ := completion_bounded h (hordered ▸ hall)
  have hnodup := Dict.ofPairs_of_nodup (hkeysD ▸ h.units.states_nodup :
    (((selected ++ D ++ search.irrelevant).flatMap DecisionChoice.stateValues).map Prod.fst).Nodup)
  obtain ⟨v, hv, hlower, hfailure⟩ := evaluateRoot_mono hmodel hlisted hrows hroot.actionKey
    hchildrenD hchildren
    (fun s _ v v' hv hv' => (completion_below h hordered hF hD).lookup hv
      ((hlookup s).symm.trans hv')) hvalue
  exact ⟨_, by rw [completePolicy, hnodup, bind_of_ok hv], hlower, hfailure⟩

end Nodes

end Acfqp.Robust
