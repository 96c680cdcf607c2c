import Acfqp.Robust.LazyVisit

/-!
# What the enumeration of policies evaluates

Where the exhaustive solver enumerates its policies, it has evaluated every choice of every scope
and every root action. So the decisions of the lazy solver are there, and the unrestricted reward
of the direct solver is the largest upper reward of its policies.
-/

namespace Acfqp.Robust

open Library PartialSupportIntervalModel

variable {ids : PlannerIds} {model : PartialSupportIntervalModel}
  {threshold : RobustThresholdProfile} {solverKind : RobustSolverKind} {reader : PolicyReader}
  {policies : List PolicyEvaluation}

/-! ## Decisions -/

/-- Some choice takes a preferred action wherever the scope has it. -/
theorem exists_choice (hdomains : ∀ child ∈ reader.children, child.domain ≠ [])
    (preferred : ChildScope → String) : ∃ choice, Chosen reader choice ∧
      ∀ c ∈ choice, preferred c.1 ∈ c.1.domain → c.2 = preferred c.1 := by
  have heach : ∀ child ∈ reader.children, ∃ c : ChildScope × String, c.1 = child ∧
      c.2 ∈ c.1.domain ∧ (preferred c.1 ∈ c.1.domain → c.2 = preferred c.1) := by
    intro child hchild
    by_cases hmem : preferred child ∈ child.domain
    · exact ⟨(child, preferred child), rfl, hmem, fun _ => rfl⟩
    · obtain ⟨action, haction⟩ := List.exists_mem_of_ne_nil _ (hdomains child hchild)
      exact ⟨(child, action), rfl, haction, fun h => absurd h hmem⟩
  obtain ⟨choice, hchoice⟩ := exists_forall₂ heach
  have hfst : choice.map Prod.fst = reader.children.map id :=
    (map_of_forall₂ hchoice fun c _ child h => h.1.symm).symm
  rw [List.map_id] at hfst
  refine ⟨choice, ⟨hfst, fun c hc => ?_⟩, fun c hc => ?_⟩
  · obtain ⟨_, -, -, hdomain, -⟩ := exists_mem_of_forall₂ hchoice hc
    exact hdomain
  · obtain ⟨_, -, -, -, hpreferred⟩ := exists_mem_of_forall₂ hchoice hc
    exact hpreferred

section Enumerated

variable (hreader : solverReader ids model threshold solverKind = .ok reader)
  (hpolicies : reader.policies ids = .ok policies)
include hreader hpolicies

theorem scopeChoice_of_policies {child : ChildScope} (hchild : child ∈ reader.children)
    {action : String} (haction : action ∈ child.domain) :
    ∃ choice, scopeChoice reader child action = .ok choice := by
  obtain ⟨choice, hchosen, hpreferred⟩ := exists_choice
    (fun child hchild => ((solverReader_domains hreader).1 child hchild).1) fun _ => action
  obtain ⟨part, hpart, -⟩ := policies_of_choice hpolicies hchosen
  obtain ⟨c, hc, rfl⟩ := List.mem_map.mp (hchosen.1 ▸ hchild)
  obtain ⟨values, hvalues, -⟩ := bind_eq_ok.mp hpart
  obtain ⟨list, -, hlist⟩ := exists_of_mapM hvalues hc
  rw [hpreferred c hc haction] at hlist
  exact ⟨_, bind_of_ok hlist⟩

/-- The units of the lazy solver are there. -/
theorem units_of_policies : ∃ us, units ids model threshold solverKind = .ok us := by
  rw [units_eq hreader]
  refine mapM_returns fun child hchild => ?_
  obtain ⟨choices, hchoices⟩ := mapM_returns fun action haction =>
    scopeChoice_of_policies hreader hpolicies hchild haction
  exact ⟨_, bind_of_ok hchoices⟩

omit hpolicies hreader in
theorem rootRows_of_evaluateRoot {root : RootChoice} {childValues : ChildValues}
    {value : StateActionEvaluation}
    (h : evaluateRoot ids model threshold solverKind root childValues = .ok value) :
    ∃ rows, rootRows model root.actionKey solverKind = .ok rows := by
  cases solverKind with
  | groundDirect =>
    obtain ⟨row, hrow, -⟩ := bind_eq_ok.mp h
    exact ⟨[row], bind_of_ok hrow⟩
  | quotient =>
    obtain ⟨catalogue, hcatalogue, h⟩ := bind_eq_ok.mp h
    obtain ⟨entry, hentry, h⟩ := bind_eq_ok.mp h
    obtain ⟨rows, hrows, -⟩ := bind_eq_ok.mp h
    obtain ⟨found, hfound⟩ := mapM_returns fun actionId hactionId => by
      obtain ⟨_, -, hrun⟩ := exists_of_mapM hrows hactionId
      obtain ⟨row, hrow, -⟩ := bind_eq_ok.mp hrun
      exact ⟨row, hrow⟩
    refine ⟨found, ?_⟩
    simp only [rootRows, bind_of_ok hcatalogue]
    exact (bind_of_ok (orRaise_eq_ok.mpr (orRaise_eq_ok.mp hentry))).trans hfound

theorem rootChoices_of_policies : ∃ roots, rootChoices model solverKind = .ok roots := by
  obtain ⟨choice, hchosen, -⟩ := exists_choice
    (fun child hchild => ((solverReader_domains hreader).1 child hchild).1) fun _ => ""
  obtain ⟨part, -, hpart⟩ := policies_of_choice hpolicies hchosen
  have hrows : ∀ action ∈ reader.rootActions, ∃ rows, rootRows model action solverKind =
      .ok rows := by
    intro action haction
    obtain ⟨policy, -, hpolicy⟩ := hpart action haction
    obtain ⟨value, hvalue, -⟩ := policy_spec hpolicy
    have hroot := evaluateRoot_eq hreader ⟨action, ⟨reader.scope, reader.rootKey, 2, action⟩, []⟩
      part.2
    exact rootRows_of_evaluateRoot (hroot.trans hvalue)
  cases solverKind with
  | groundDirect =>
    obtain ⟨states, -, hreader⟩ := bind_eq_ok.mp hreader
    obtain ⟨root, hroot, hreader⟩ := bind_eq_ok.mp hreader
    obtain ⟨children, -, hreader⟩ := bind_eq_ok.mp hreader
    obtain rfl := Except.ok.inj hreader
    simp only [rootChoices, directRootChoices, bind_of_ok hroot]
    refine mapM_returns fun action haction => ?_
    obtain ⟨rows, hrow⟩ := hrows _ (List.mem_map_of_mem haction)
    obtain ⟨row, hrow, -⟩ := bind_eq_ok.mp hrow
    exact ⟨_, bind_of_ok hrow⟩
  | quotient =>
    obtain ⟨states, -, hreader⟩ := bind_eq_ok.mp hreader
    obtain ⟨cells, -, hreader⟩ := bind_eq_ok.mp hreader
    obtain ⟨children, -, hreader⟩ := bind_eq_ok.mp hreader
    obtain ⟨root, hroot, hreader⟩ := bind_eq_ok.mp hreader
    obtain ⟨rootActions, hactions, hreader⟩ := bind_eq_ok.mp hreader
    obtain rfl := Except.ok.inj hreader
    simp only [rootChoices, quotientRootChoices, bind_of_ok hroot, bind_of_ok hactions]
    refine mapM_returns fun action haction => ?_
    obtain ⟨rows, hrow⟩ := hrows action haction
    simp only [rootRows, bind_of_ok hroot] at hrow
    obtain ⟨entry, hentry, hrow⟩ := bind_eq_ok.mp hrow
    exact ⟨_, (bind_of_ok hentry).trans (bind_of_ok hrow)⟩

end Enumerated

section Unrestricted

variable {best : ChildValues} {upper : ℚ} (hmodel : WellFormed ids model)
include hmodel

/-- The policies of either reader stay within the unrestricted reward. -/
theorem solverReader_reads (hids : Function.Injective ids.rowId) (hlisted : ActiveListed model)
    (hreader : solverReader ids model threshold solverKind = .ok reader)
    (hbest : Unrestricted ids model threshold best upper) : Reads ids model threshold
      (fun stateId => ((best.lookup stateId).map StateActionEvaluation.rewardUpper).getD 0) upper
      reader := by
  cases solverKind with
  | quotient => exact (quotientReader_reads hmodel hids hlisted hbest).post hreader
  | groundDirect =>
    obtain ⟨reader', hreader', hreads⟩ := @directReader_reads ids model threshold hmodel hlisted
    obtain rfl := Except.ok.inj (hreader.symm.trans hreader')
    obtain ⟨hmodelReads, hrootActions, hevaluateChild, hevaluateRoot, hown⟩ :=
      directReader_readsModel hmodel hreader
    refine { hreads with child := fun child hchild stateId hstate action haction => ?_, root :=
      fun childValues hvalues hlimits action haction => ?_ }
    · refine (hreads.child child hchild stateId hstate action haction).and_eq.mono
        fun value ⟨hvalue, hrun⟩ => ⟨hvalue.1, ?_⟩
      obtain ⟨own, -, hstates, catalogue, hcatalogue, hdomain⟩ := hown child hchild
      obtain rfl : stateId = own := by simpa [hstates] using hstate
      obtain ⟨found, hfound, -⟩ := hbest.values stateId
        ((hmodelReads.reached stateId).mp (List.mem_flatMap.mpr ⟨child, hchild, hstate⟩))
      obtain ⟨listed, hlistedAction, rfl⟩ := List.mem_map.mp (hdomain ▸ haction)
      obtain ⟨candidate, hcandidate, hle⟩ :=
        hbest.child stateId found catalogue hfound hcatalogue listed hlistedAction
      rw [hevaluateChild] at hrun
      obtain rfl := Except.ok.inj (hcandidate.symm.trans hrun)
      simpa [hfound] using hle
    · obtain ⟨root, hroot⟩ := hmodel.exists_root
      obtain ⟨listed, hlistedAction, rfl⟩ := List.mem_map.mp (hrootActions root hroot ▸ haction)
      rw [hevaluateRoot]
      refine (evaluateGroundAction_yields (rowsCovered_root hmodel hlisted hroot hvalues
        fun actionId hactionId => ⟨listed, hlistedAction,
          (List.mem_singleton.mp hactionId).symm⟩)).and_eq.mono fun value ⟨hvalue, hrun⟩ =>
            ⟨hvalue, ?_⟩
      obtain ⟨candidate, hcandidate, hle⟩ := hbest.root root hroot listed hlistedAction
      obtain ⟨row, e, hrow, he, rfl⟩ := evaluateGroundAction_spec hrun
      obtain ⟨row', e', hrow', he', rfl⟩ := evaluateGroundAction_spec hcandidate
      obtain rfl := Option.some.inj (hrow.symm.trans hrow')
      obtain ⟨hmem, hkey⟩ := mem_of_row hrow
      have htwo : row.remainingHorizon = 2 := congrArg (fun key : RowKey => key.2.1) hkey
      have hcovered := covered_root hmodel hlisted hmem htwo hvalues
      have hcovered' := covered_root hmodel hlisted hmem htwo hbest.values
      refine (rewardUpper_mono hcovered hcovered' he he' fun item hitem =>
        worth_rewardUpper_mono hcovered hcovered' (fun s v v' hv hv' => ?_) hitem).trans hle
      simpa [hv'] using hlimits s v hv

def bestChild (ids : PlannerIds) (model : PartialSupportIntervalModel)
    (threshold : RobustThresholdProfile) (stateId : String) :
    Except PlannerError (String × StateActionEvaluation) := do
  let catalogue ← catalogueOf model stateId
  let candidates ← catalogue.actions.mapM fun action =>
    evaluateGroundAction ids model threshold [] .continuationSelected stateId 1 action.actionId
  let selected ← orRaise (bestUnrestricted candidates)
    (.violation "reachable child has no unrestricted ground action")
  .ok (stateId, selected)

theorem exists_bestPolicies (hreader : directReader ids model threshold = .ok reader)
    (hpolicies : reader.policies ids = .ok policies) : ∃ best,
    (reader.children.map ChildScope.key).mapM (bestChild ids model threshold) = .ok best ∧
      ∀ action ∈ reader.rootActions, ∃ policy ∈ policies, ∃ value,
        reader.evaluateRoot best action = .ok value ∧ policy.rewardUpper = value.rewardUpper := by
  obtain ⟨-, -, hevaluateChild, -, hown⟩ := directReader_readsModel hmodel hreader
  have hsolver : solverReader ids model threshold .groundDirect = .ok reader := hreader
  have heach : ∀ child ∈ reader.children, ∃ c :
    (ChildScope × String) × String × StateActionEvaluation,
      c.1.1 = child ∧ c.1.2 ∈ child.domain ∧ (child.stateIds.mapM fun stateId => do
        let value ← reader.evaluateChild stateId c.1.2
        .ok (stateId, value)) = (.ok [c.2] : Except PlannerError _) ∧
      bestChild ids model threshold child.key = .ok c.2 := by
    intro child hchild
    obtain ⟨stateId, hkey, hstates, catalogue, hcatalogue, hdomain⟩ := hown child hchild
    obtain ⟨candidates, hcandidates⟩ := mapM_returns (f := fun action : CatalogueAction =>
        evaluateGroundAction ids model threshold [] .continuationSelected stateId 1 action.actionId)
      (l := catalogue.actions) fun action haction => by
      have hmem : action.actionId ∈ child.domain := hdomain ▸ List.mem_map_of_mem haction
      obtain ⟨choice, hchoice⟩ := scopeChoice_of_policies hsolver hpolicies hchild hmem
      obtain ⟨e, -, hrun⟩ := exists_of_mapM (scopeChoice_spec hchoice).2.2.1
        (x := stateId) (by simp [hstates])
      obtain ⟨value, hvalue, -⟩ := bind_eq_ok.mp hrun
      rw [hevaluateChild] at hvalue
      exact ⟨value, hvalue⟩
    have hne : candidates ≠ [] := by
      rintro rfl
      exact catalogue.actions_ne_nil (List.forall₂_nil_right_iff.mp (mapM_eq_ok.mp hcandidates))
    obtain ⟨value, hvalue, hmem, -⟩ := bestUnrestricted_spec hne
    obtain ⟨action, haction, hrun⟩ := mem_of_mapM hcandidates hmem
    refine ⟨((child, action.actionId), stateId, value), rfl,
      hdomain ▸ List.mem_map_of_mem haction, ?_, ?_⟩
    · rw [hstates, hevaluateChild, mapM_eq_ok]
      exact .cons (bind_of_ok hrun) .nil
    · rw [hkey, bestChild, catalogueOf, bind_of_ok (orRaise_eq_ok.mpr hcatalogue),
        bind_of_ok hcandidates, bind_of_ok (orRaise_eq_ok.mpr hvalue)]
  obtain ⟨list, hlist⟩ := exists_forall₂ heach
  have hfst : list.map (fun c => c.1.1) = reader.children.map id :=
    (map_of_forall₂ hlist fun c _ child h => h.1.symm).symm
  have hchosen : Chosen reader (list.map Prod.fst) := by
    refine ⟨by rw [List.map_map]; exact hfst.trans (List.map_id _), fun c hc => ?_⟩
    obtain ⟨d, hd, rfl⟩ := List.mem_map.mp hc
    obtain ⟨child, -, rfl, hdomain, -⟩ := exists_mem_of_forall₂ hlist hd
    exact hdomain
  obtain ⟨part, hpart, hall⟩ := policies_of_choice hpolicies hchosen
  have hvalues : ((list.map Prod.fst).mapM fun c => c.1.stateIds.mapM fun stateId => do
      let value ← reader.evaluateChild stateId c.2
      .ok (stateId, value)) = (.ok (list.map fun c => [c.2]) : Except PlannerError _) := by
    rw [mapM_eq_ok, List.forall₂_map_left_iff, List.forall₂_map_right_iff, List.forall₂_same]
    intro c hc
    obtain ⟨child, -, rfl, -, hrun, -⟩ := exists_mem_of_forall₂ hlist hc
    exact hrun
  obtain rfl := Except.ok.inj (hpart.symm.trans (bind_of_ok hvalues))
  refine ⟨list.map Prod.snd, ?_, fun action haction => ?_⟩
  · rw [mapM_eq_ok, List.forall₂_map_left_iff, List.forall₂_map_right_iff]
    exact hlist.flip.imp fun child c h => h.2.2.2
  · obtain ⟨policy, hmem, hpolicy⟩ := hall action haction
    obtain ⟨value, hvalue, -, hupper, -⟩ := policy_spec hpolicy
    refine ⟨policy, hmem, value, ?_, hupper⟩
    have hflat : (list.map fun c => [c.2]).flatten = list.map Prod.snd := by
      rw [← List.flatMap_def, List.map_eq_flatMap]
    rwa [hflat] at hvalue

theorem unrestricted_of_directPolicies (hids : ids.Distinct)
    (hreader : directReader ids model threshold = .ok reader)
    (hpolicies : reader.policies ids = .ok policies) :
    unrestrictedGroundRewardUpper ids model threshold =
      .ok ((policies.map PolicyEvaluation.rewardUpper).max?.getD 0) := by
  obtain ⟨best, hbest, hroot⟩ := exists_bestPolicies hmodel hreader hpolicies
  obtain ⟨-, hrootActions, -, hevaluateRoot, -⟩ := directReader_readsModel hmodel hreader
  obtain ⟨root, hcatalogue⟩ := hmodel.exists_root
  obtain ⟨states, hstates, hrest⟩ := bind_eq_ok.mp hreader
  obtain ⟨catalogue, -, hrest⟩ := bind_eq_ok.mp hrest
  obtain ⟨children, hchildren, hrest⟩ := bind_eq_ok.mp hrest
  have hkeys : reader.children.map ChildScope.key = states.map id := by
    obtain rfl := Except.ok.inj hrest
    refine map_of_mapM hchildren fun stateId _ child hchild => ?_
    obtain ⟨_, -, hchild⟩ := bind_eq_ok.mp hchild
    obtain rfl := Except.ok.inj hchild
    rfl
  rw [hkeys, List.map_id] at hbest
  obtain ⟨values, hvalues, hupper⟩ := exists_mapM (f := fun action : CatalogueAction =>
      evaluateGroundAction ids model threshold best .rootSelected model.rootStateId 2
        action.actionId) (R := fun _ value => value.rewardUpper ∈
          policies.map PolicyEvaluation.rewardUpper) (l := root.actions) fun action haction => by
    obtain ⟨policy, hpolicy, value, hvalue, heq⟩ :=
      hroot action.actionId (hrootActions root hcatalogue ▸ List.mem_map_of_mem haction)
    rw [hevaluateRoot] at hvalue
    exact ⟨value, hvalue, List.mem_map.mpr ⟨policy, hpolicy, heq⟩⟩
  have hne : values.map StateActionEvaluation.rewardUpper ≠ [] := fun hnil =>
    root.actions_ne_nil (List.forall₂_nil_right_iff.mp (List.map_eq_nil_iff.mp hnil ▸ hupper))
  obtain ⟨upper, hmax⟩ := Option.ne_none_iff_exists'.mp (List.max?_eq_none_iff.not.mpr hne)
  have hrun : unrestrictedGroundRewardUpper ids model threshold = .ok upper := by
    refine (bind_of_ok hstates).trans ((bind_of_ok hbest).trans ?_)
    rw [catalogueOf, bind_of_ok (orRaise_eq_ok.mpr hcatalogue), bind_of_ok hvalues]
    exact orRaise_eq_ok.mpr hmax
  -- No policy exceeds the unrestricted reward, and the policies of the best children attain it.
  obtain ⟨value, hvalue, rfl⟩ := List.mem_map.mp (max?_mem hmax)
  obtain ⟨action, -, hattained⟩ := exists_mem_of_forall₂ hupper.flip hvalue
  have hlisted := unrestricted_listed hmodel hrun
  obtain ⟨children', hunrestricted⟩ := (unrestricted_yields hmodel hlisted).post hrun
  have hsound := (policies_yields hids (@solverReader_reads ids model threshold .groundDirect reader
    children' value.rewardUpper hmodel hids.rowId hlisted hreader hunrestricted)).post hpolicies
  have hgreatest : (policies.map PolicyEvaluation.rewardUpper).max? = some value.rewardUpper := by
    refine List.max?_eq_some_iff.mpr ⟨hattained, fun x hx => ?_⟩
    obtain ⟨policy, hpolicy, rfl⟩ := List.mem_map.mp hx
    exact (hsound.2 policy hpolicy).upper_le
  rw [hrun, hgreatest, Option.getD_some]

end Unrestricted

end Acfqp.Robust

/-!
## One core from both solvers

On the same decisions, the exhaustive solver selects the first of its policies, and so does the
search when it returns. A policy is told by its key, so both select the same one.
-/

namespace Acfqp.Robust

open Library PartialSupportIntervalModel

variable {ids : PlannerIds} {model : PartialSupportIntervalModel}
  {threshold : RobustThresholdProfile} {solverKind : RobustSolverKind} {reader : PolicyReader}
  {us : List DecisionUnit} {roots : List RootChoice} {upper : ℚ}
  {policies : List PolicyEvaluation} {D : List DecisionChoice} {root : RootChoice}
  {P Q : PolicyEvaluation}

/-- The decisions of a solver on an accepted model, its root actions and unrestricted reward. -/
structure Setting (ids : PlannerIds) (model : PartialSupportIntervalModel)
    (threshold : RobustThresholdProfile) (solverKind : RobustSolverKind) (reader : PolicyReader)
    (us : List DecisionUnit) (roots : List RootChoice) (upper : ℚ) : Prop where
  distinct : ids.Distinct
  wellFormed : WellFormed ids model
  reader_eq : solverReader ids model threshold solverKind = .ok reader
  units_eq : units ids model threshold solverKind = .ok us
  roots_eq : rootChoices model solverKind = .ok roots
  upper_eq : unrestrictedGroundRewardUpper ids model threshold = .ok upper

/-! ## Selections in another order -/

theorem Selects.perm {us' : List DecisionUnit} (h : Selects D us) (hperm : us.Perm us') :
    ∃ E, D.Perm E ∧ Selects E us' := by
  obtain ⟨E, hE, hED⟩ := List.perm_comp_forall₂ hperm.symm h.flip
  exact ⟨E, hED.symm, hE.flip⟩

theorem completePolicy_perm (hids : Function.Injective ids.assignmentId) {E : List DecisionChoice}
    (hperm : D.Perm E) (hstates : ((D.flatMap DecisionChoice.stateValues).map Prod.fst).Nodup)
    (hP : completePolicy ids model threshold solverKind root D = .ok P)
    (hrows : (P.rows.map fun e => ids.provenanceId e.provenance).Nodup) :
    completePolicy ids model threshold solverKind root E = .ok P := by
  obtain ⟨value, hvalue, h⟩ := bind_eq_ok.mp hP
  obtain rfl := Except.ok.inj h
  have hpermValues := hperm.flatMap_right DecisionChoice.stateValues
  have hstatesE := (hpermValues.map Prod.fst).nodup_iff.mp hstates
  rw [Dict.ofPairs_of_nodup hstates, evaluateRoot_congr (lookup_of_perm hpermValues hstates) root,
    ← Dict.ofPairs_of_nodup hstatesE] at hvalue
  refine (bind_of_ok hvalue).trans (congrArg Except.ok ?_)
  have hassignments := sortBy_eq_of_injective hids
    ((hperm.map DecisionChoice.assignment).cons root.assignment)
  have hsorted := sortBy_eq_of_perm ((hperm.flatMap_right DecisionChoice.rows).append_left
    value.rows) (((perm_sortBy _ _).map _).nodup_iff.mp hrows)
  rw [hassignments, hsorted]

theorem Selects.assignment {scope : PolicyScope} (hsound : SoundUnits threshold scope us)
    (hD : Selects D us) {choice : DecisionChoice} (hchoice : choice ∈ D) :
    ∃ unit ∈ us, choice ∈ unit.choices ∧
      choice.assignment = ⟨scope, unit.scopeKey, 1, choice.actionKey⟩ := by
  obtain ⟨unit, hunit, hmem⟩ := exists_mem_of_forall₂ hD hchoice
  exact ⟨unit, hunit, hmem, (hsound.sound unit hunit choice hmem).assignment⟩

theorem Selects.eq_of_perm {scope : PolicyScope} (hsound : SoundUnits threshold scope us)
    {E : List DecisionChoice} (hD : Selects D us) (hE : Selects E us)
    (hperm : (D.map DecisionChoice.assignment).Perm (E.map DecisionChoice.assignment)) : D = E := by
  induction hD generalizing E with
  | nil =>
    cases hE
    rfl
  | @cons choice unit D us hchoice hD ih =>
    cases hE with
    | @cons choice' _ E _ hchoice' hE =>
      have hall : SoundUnits threshold scope ([unit] ++ us) := hsound
      have htail := hall.append_right
      have hunit := hsound.sound unit List.mem_cons_self
      have hsame : choice.assignment = choice'.assignment := by
        rcases List.mem_cons.mp (hperm.mem_iff.mp List.mem_cons_self) with heq | hmem
        · exact heq
        · obtain ⟨other, hother, heq⟩ := List.mem_map.mp hmem
          obtain ⟨unit', hunit', -, hassignment⟩ := Selects.assignment htail hE hother
          rw [hassignment, (hunit choice hchoice).assignment] at heq
          have hkey : unit'.scopeKey = unit.scopeKey := congrArg RobustPolicyAssignment.scopeKey heq
          have hnodup := hsound.keys_nodup
          rw [List.map_cons, List.nodup_cons] at hnodup
          exact absurd (hkey ▸ List.mem_map_of_mem hunit') hnodup.1
      have hfirst : choice = choice' := by
        refine List.inj_on_of_nodup_map (hsound.actions_nodup unit List.mem_cons_self) hchoice
          hchoice' ?_
        rw [(hunit choice hchoice).assignment, (hunit choice' hchoice').assignment] at hsame
        exact congrArg RobustPolicyAssignment.selectedActionKey hsame
      rw [List.map_cons, List.map_cons, hsame] at hperm
      rw [hfirst, ih htail hE hperm.cons_inv]

/-! ## Policies and selections -/

namespace Setting

variable (h : Setting ids model threshold solverKind reader us roots upper)
include h

theorem listed : ActiveListed model := unrestricted_listed h.wellFormed h.upper_eq

theorem sound : SoundUnits threshold reader.scope us :=
  (units_sound h.wellFormed h.reader_eq h.units_eq).1

theorem states (stateId : String) :
    stateId ∈ us.flatMap DecisionUnit.stateIds ↔ Reached model stateId :=
  (units_sound h.wellFormed h.reader_eq h.units_eq).2 stateId

theorem isRoot : List.Forall₂ (IsRootChoice model solverKind reader) reader.rootActions roots :=
  rootChoices_spec h.reader_eq h.roots_eq

theorem scopeUnits : reader.children.mapM (scopeUnit reader) = .ok us :=
  (Robust.units_eq h.reader_eq).symm.trans h.units_eq

theorem exists_rootAction (hroot : root ∈ roots) :
    ∃ action, IsRootChoice model solverKind reader action root := by
  obtain ⟨action, -, hisRoot⟩ := exists_mem_of_forall₂ h.isRoot.flip hroot
  exact ⟨action, hisRoot⟩

theorem exists_search (hroot : root ∈ roots) : ∃ search others,
    rootSearch ids us root = .ok search ∧
    RootSearched ids model threshold solverKind reader us root others search := by
  obtain ⟨action, hisRoot⟩ := h.exists_rootAction hroot
  exact @rootSearch_spec ids model threshold solverKind reader us h.sound h.states action root
    hisRoot

theorem selection_nodup (hD : Selects D us) :
    ((D.flatMap DecisionChoice.stateValues).map Prod.fst).Nodup :=
  hD.states h.sound.sound ▸ h.sound.states_nodup

theorem exists_selection : ∃ D, Selects D us :=
  exists_forall₂ fun unit hunit => List.exists_mem_of_ne_nil _ (h.sound.choices_ne_nil unit hunit)

section Enumerated

variable (hpolicies : reader.policies ids = .ok policies)
include hpolicies

theorem policies_sound : policies ≠ [] ∧ ∀ P ∈ policies, PolicySound ids threshold upper P := by
  obtain ⟨best, hbest⟩ := (unrestricted_yields h.wellFormed h.listed).post h.upper_eq
  exact (policies_yields h.distinct (solverReader_reads h.wellFormed h.distinct.rowId h.listed
    h.reader_eq hbest)).post hpolicies

theorem mem_policies : P ∈ policies ↔ ∃ root ∈ roots, ∃ D, Selects D us ∧
    completePolicy ids model threshold solverKind root D = .ok P :=
  mem_policies_iff h.reader_eq h.scopeUnits h.sound h.isRoot hpolicies

theorem completes (hroot : root ∈ roots) (hD : Selects D us) :
    ∃ P ∈ policies, completePolicy ids model threshold solverKind root D = .ok P := by
  obtain ⟨choice, hchosen, hchooses⟩ := exists_chosen h.scopeUnits hD
  obtain ⟨action, haction, hisRoot⟩ := exists_mem_of_forall₂ h.isRoot.flip hroot
  obtain ⟨part, hpart, hall⟩ := policies_of_choice hpolicies hchosen
  obtain ⟨policy, hmem, hpolicy⟩ := hall action haction
  obtain rfl := Except.ok.inj (hpart.symm.trans hchooses.childPart)
  exact ⟨policy, hmem, (completePolicy_eq h.reader_eq h.sound hD hisRoot).trans hpolicy⟩

theorem provenance_nodup (hP : P ∈ policies) :
    (P.rows.map fun e => ids.provenanceId e.provenance).Nodup := by
  have hsound := (h.policies_sound hpolicies).2 P hP
  have hrowIds : (P.rows.map fun e => e.provenance.rowId).Nodup := by
    have hsame : (P.rows.map fun e => e.provenance.rowId) = P.rows.map fun e => e.bound.rowId := by
      refine List.map_congr_left fun e he => ?_
      obtain ⟨row, hrow⟩ := hsound.rows e he
      rw [hrow.provenance_rowId, hrow.bound_rowId]
    exact hsame ▸ hsound.rows_nodup
  refine (hrowIds.of_map _).map_on fun e he e' he' heq => ?_
  exact List.inj_on_of_nodup_map hrowIds he he'
    (congrArg SelectedRowProvenance.rowId (h.distinct.provenanceId heq))

/-- A selection in another order completes to a policy, too. -/
theorem completes_perm (hroot : root ∈ roots) {us' : List DecisionUnit} (hperm : us.Perm us')
    (hD : Selects D us') :
    ∃ P ∈ policies, completePolicy ids model threshold solverKind root D = .ok P := by
  obtain ⟨E, hDE, hE⟩ := hD.perm hperm.symm
  obtain ⟨P, hmem, hP⟩ := h.completes hpolicies hroot hE
  exact ⟨P, hmem, completePolicy_perm h.distinct.assignmentId hDE.symm (h.selection_nodup hE) hP
    (h.provenance_nodup hpolicies hmem)⟩

theorem searched_mem (hP : P ∈ searchedPolicies ids model threshold solverKind us roots) :
    P ∈ policies := by
  obtain ⟨root, hroot, search, hsearch, D, hD, hcomplete⟩ := hP
  obtain ⟨search', others, hsearch', hspec⟩ := h.exists_search hroot
  obtain rfl := Except.ok.inj (hsearch.symm.trans hsearch')
  obtain ⟨Q, hmem, hQ⟩ := h.completes_perm hpolicies hroot hspec.perm
    (List.rel_append hD hspec.defaults.selects)
  rw [hspec.root_eq, List.nil_append, hQ] at hcomplete
  exact Except.ok.inj hcomplete ▸ hmem

theorem policy_of_key (hP : P ∈ policies) (hQ : Q ∈ policies)
    (hkey : P.policyKey ids = Q.policyKey ids) : P = Q := by
  obtain ⟨root, hroot, D, hD, hcompleteP⟩ := (h.mem_policies hpolicies).mp hP
  obtain ⟨root', hroot', E, hE, hcompleteQ⟩ := (h.mem_policies hpolicies).mp hQ
  obtain ⟨action, hisRoot⟩ := h.exists_rootAction hroot
  obtain ⟨action', hisRoot'⟩ := h.exists_rootAction hroot'
  have hassignments : P.assignments = Q.assignments :=
    (List.map_injective_iff.mpr h.distinct.assignmentId) hkey
  have hpermP : P.assignments.Perm (root.assignment :: D.map DecisionChoice.assignment) := by
    obtain ⟨value, -, heq⟩ := bind_eq_ok.mp hcompleteP
    obtain rfl := Except.ok.inj heq
    exact perm_sortBy _ _
  have hpermQ : Q.assignments.Perm (root'.assignment :: E.map DecisionChoice.assignment) := by
    obtain ⟨value, -, heq⟩ := bind_eq_ok.mp hcompleteQ
    obtain rfl := Except.ok.inj heq
    exact perm_sortBy _ _
  have hperm := hpermP.symm.trans (hassignments ▸ hpermQ)
  -- Only the assignment of the root is for two steps.
  have hsame : root.assignment = root'.assignment := by
    rcases List.mem_cons.mp (hperm.mem_iff.mp List.mem_cons_self) with heq | hmem
    · exact heq
    · obtain ⟨choice, hchoice, heq⟩ := List.mem_map.mp hmem
      obtain ⟨unit, -, -, hassignment⟩ := hE.assignment h.sound hchoice
      rw [hassignment, hisRoot.assignment] at heq
      exact absurd (congrArg RobustPolicyAssignment.remainingHorizon heq) (by simp)
  have hnodup := roots_nodup h.distinct.assignmentId h.reader_eq h.isRoot
  obtain rfl := List.inj_on_of_nodup_map hnodup hroot hroot' (congrArg ids.assignmentId hsame)
  obtain rfl := hD.eq_of_perm h.sound hE hperm.cons_inv
  exact Except.ok.inj (hcompleteP.symm.trans hcompleteQ)

end Enumerated

/-- When the best values of every root action are worth something, the policies are enumerated. -/
theorem policies_of_rootsReturn (hreturn : RootsReturn ids model threshold solverKind us roots) :
    ∃ policies, reader.policies ids = .ok policies := by
  refine policies_returns h.reader_eq h.scopeUnits h.sound h.isRoot fun root hroot D hD => ?_
  obtain ⟨search, others, hsearch, hspec⟩ := h.exists_search hroot
  obtain ⟨P, hP, -⟩ := selection_le h.wellFormed h.listed hspec (hreturn root hroot search hsearch)
    upper hD
  exact ⟨P, hP⟩

end Setting

/-! ## The first policy -/

theorem planner_eq_ok {α : Type} {x : Except PlannerError α} {a : α} :
    planner x = .ok a ↔ x = .ok a := by
  cases x <;> simp [planner, Except.mapError]

theorem rootsReturn_of_search {limits : ResourceLimits} {s s' : SearchState}
    (h : roots.foldlM (searchRoot ids model threshold solverKind limits upper us) s = .ok s') :
    RootsReturn ids model threshold solverKind us roots := by
  obtain ⟨st, -, -, hstep⟩ := foldlM_states h
  intro root hroot search hsearch
  obtain ⟨i, hi, rfl⟩ := List.getElem_of_mem hroot
  have hrun := (bind_of_ok hsearch).symm.trans (hstep i hi)
  rw [visit_eq] at hrun
  obtain ⟨_, -, hrun⟩ := bind_eq_ok.mp hrun
  obtain ⟨values, hvalues, hrun⟩ := bind_eq_ok.mp hrun
  obtain ⟨_, -, hrun⟩ := bind_eq_ok.mp hrun
  obtain ⟨value, hvalue, -⟩ := bind_eq_ok.mp hrun
  exact ⟨values, value, hvalues, planner_eq_ok.mp hvalue⟩

/-- The core of the first policy. -/
structure Optimal (ids : PlannerIds) (threshold : RobustThresholdProfile)
    (policies : List PolicyEvaluation) (upper : ℚ) (core : SolvedCore) : Prop where
  mem : core.selected ∈ policies
  first : ∀ Q ∈ policies, policyOrderKey ids threshold upper core.selected ≤
    policyOrderKey ids threshold upper Q
  upper_eq : core.unrestrictedRewardUpper = upper
  regret_eq : core.normalizedRegretUpper = normalizedRegret threshold upper core.selected
  status_eq : core.status = if stage threshold upper core.selected = 0 then .certified
    else .failedProofFrontier

/-- No policy is of an earlier stage than the selected one. -/
theorem Optimal.stage_le {core : SolvedCore} (hcore : Optimal ids threshold policies upper core)
    (hQ : Q ∈ policies) :
    stage threshold upper core.selected ≤ stage threshold upper Q := by
  by_contra hlt
  have hle : policyOrderKey ids threshold upper Q ≤
      policyOrderKey ids threshold upper core.selected := policyOrderKey_le_of_stage (not_le.mp hlt)
  have heq := congrArg (fun key => (ofLex key).1) (le_antisymm (hcore.first Q hQ) hle)
  simp only [policyOrderKey_fst] at heq
  omega

theorem choosePolicy_optimal {core : SolvedCore}
    (h : choosePolicy ids threshold upper policies = .ok core) :
    Optimal ids threshold policies upper core := by
  obtain ⟨⟨selected, status⟩, hselected, h⟩ := bind_eq_ok.mp h
  obtain rfl := Except.ok.inj h
  obtain ⟨hmem, hfirst, hstatus⟩ := selectPolicy_first (orRaise_eq_ok.mp hselected)
  exact ⟨hmem, hfirst, rfl, rfl, hstatus⟩

theorem Optimal.unique (h : Setting ids model threshold solverKind reader us roots upper)
    (hpolicies : reader.policies ids = .ok policies) {core core' : SolvedCore}
    (hcore : Optimal ids threshold policies upper core)
    (hcore' : Optimal ids threshold policies upper core') : core = core' := by
  have hkey := policyKey_of_policyOrderKey
    (le_antisymm (hcore.first _ hcore'.mem) (hcore'.first _ hcore.mem))
  have hselected := h.policy_of_key hpolicies hcore.mem hcore'.mem hkey
  have hregret := hcore.regret_eq
  have hstatus := hcore.status_eq
  rw [hselected] at hregret hstatus
  cases core
  cases core'
  simp only [SolvedCore.mk.injEq]
  exact ⟨hselected, hcore.upper_eq.trans hcore'.upper_eq.symm, hregret.trans hcore'.regret_eq.symm,
    hstatus.trans hcore'.status_eq.symm⟩

theorem solveCore_optimal (hids : ids.Distinct) (hmodel : WellFormed ids model) {core : SolvedCore}
    (h : solveCore ids model threshold solverKind = .ok core) :
    threshold.contextId = model.contextId ∧ ∃ reader us roots upper policies,
      Setting ids model threshold solverKind reader us roots upper ∧
        reader.policies ids = .ok policies ∧ Optimal ids threshold policies upper core := by
  obtain ⟨_, hcontext, h⟩ := bind_eq_ok.mp h
  refine ⟨require_eq_ok.mp hcontext, ?_⟩
  cases solverKind with
  | groundDirect =>
    obtain ⟨policies, hrun, h⟩ := bind_eq_ok.mp h
    obtain ⟨reader, hreader, hrun⟩ := bind_eq_ok.mp hrun
    obtain ⟨_, -, hpolicies⟩ := bind_eq_ok.mp hrun
    have hsolver : solverReader ids model threshold .groundDirect = .ok reader := hreader
    obtain ⟨us, hunits⟩ := units_of_policies hsolver hpolicies
    obtain ⟨roots, hroots⟩ := rootChoices_of_policies hsolver hpolicies
    exact ⟨reader, us, roots, _, policies, ⟨hids, hmodel, hreader, hunits, hroots,
      unrestricted_of_directPolicies hmodel hids hreader hpolicies⟩, hpolicies,
      choosePolicy_optimal h⟩
  | quotient =>
    obtain ⟨upper, hupper, h⟩ := bind_eq_ok.mp h
    obtain ⟨policies, hrun, h⟩ := bind_eq_ok.mp h
    obtain ⟨reader, hreader, hrun⟩ := bind_eq_ok.mp hrun
    obtain ⟨_, -, hpolicies⟩ := bind_eq_ok.mp hrun
    have hsolver : solverReader ids model threshold .quotient = .ok reader := hreader
    obtain ⟨us, hunits⟩ := units_of_policies hsolver hpolicies
    obtain ⟨roots, hroots⟩ := rootChoices_of_policies hsolver hpolicies
    exact ⟨reader, us, roots, upper, policies, ⟨hids, hmodel, hreader, hunits, hroots, hupper⟩,
      hpolicies, choosePolicy_optimal h⟩

/-- The incumbent of a finished search is the first of the policies. -/
theorem Setting.search_optimal {ids : LazyIds}
    (h : Setting ids.toPlannerIds model threshold solverKind reader us roots upper)
    (hpolicies : reader.policies ids.toPlannerIds = .ok policies)
    (hreturn : RootsReturn ids.toPlannerIds model threshold solverKind us roots) {s : SearchState}
    (hs : Searched ids.toPlannerIds model threshold solverKind reader us upper roots roots s) :
    ∃ P, s.incumbent = some P ∧
      Optimal ids.toPlannerIds threshold policies upper (lazyCore ids threshold upper P) := by
  have hfirst : ∀ Q ∈ policies, ∃ P ∈ s.incumbent,
      policyOrderKey ids.toPlannerIds threshold upper P ≤
        policyOrderKey ids.toPlannerIds threshold upper Q := by
    intro Q hQ
    obtain ⟨root, hroot, D, hD, hcomplete⟩ := (h.mem_policies hpolicies).mp hQ
    obtain ⟨search, others, hsearch, hspec⟩ := h.exists_search hroot
    obtain ⟨Q', hQ', R, hR, hle⟩ := selection_le h.wellFormed h.listed hspec
      (hreturn root hroot search hsearch) upper hD
    obtain rfl := Except.ok.inj (hcomplete.symm.trans hQ')
    obtain ⟨P, hP, hbest⟩ := hs.best.le R ⟨root, hroot, search, hsearch, hR⟩
    exact ⟨P, hP, hbest.trans hle⟩
  obtain ⟨Q, hQ⟩ := List.exists_mem_of_ne_nil _ (h.policies_sound hpolicies).1
  obtain ⟨P, hP, -⟩ := hfirst Q hQ
  refine ⟨P, hP, ⟨h.searched_mem hpolicies (hs.best.mem P hP), fun Q hQ => ?_, rfl, rfl, ?_⟩⟩
  · obtain ⟨P', hP', hle⟩ := hfirst Q hQ
    obtain rfl := Option.some.inj (Option.mem_def.mp hP ▸ Option.mem_def.mp hP')
    exact hle
  · simp only [lazyCore, policyOrderKey_fst]

end Acfqp.Robust
