import Acfqp.Robust.LazyProof

/-!
# When the lazy solver gives the audit of the exhaustive one

Whatever audit the lazy solver gives is that of the exhaustive solver. It gives one exactly when the
best lower rewards, taken state by state, keep every root row within the reward ceiling: the states
of a cell may then take different actions, which no policy of the cell can.
-/

namespace Acfqp.Robust

open Library PartialSupportIntervalModel

variable {ids : PlannerIds} {model : PartialSupportIntervalModel}
  {threshold : RobustThresholdProfile} {solverKind : RobustSolverKind} {reader : PolicyReader}
  {us : List DecisionUnit} {roots : List RootChoice} {upper : ℚ}
  {policies : List PolicyEvaluation}

/-! ## The best lower rewards -/

def offers (reader : PolicyReader) (stateId : String) : List ℚ :=
  (reader.children.filter fun child => stateId ∈ child.stateIds).flatMap fun child =>
    child.domain.filterMap fun action =>
      (reader.evaluateChild stateId action).toOption.map StateActionEvaluation.rewardLower

def bestLower (reader : PolicyReader) (stateId : String) : ℚ :=
  (offers reader stateId).max?.getD 0

def bestWorth (model : PartialSupportIntervalModel) (reader : PolicyReader)
    (item : IntervalDestinationMass) : ℚ :=
  (((model.destination item.destinationId).bind RegisteredDestination.stateId).map
    (bestLower reader)).getD 0

/-- The row stays within the ceiling for some distribution, when every state takes its best lower
reward. -/
def RowFits (model : PartialSupportIntervalModel) (threshold : RobustThresholdProfile)
    (reader : PolicyReader) (row : IntervalSimplexRow) : Prop :=
  ∃ p, InSimplex row.masses p ∧
    row.rewardLower + expected row p (bestWorth model reader) ≤ threshold.rewardCeiling

/-- The rows of every root action stay within the ceiling. -/
def StatewiseFits (model : PartialSupportIntervalModel) (threshold : RobustThresholdProfile)
    (solverKind : RobustSolverKind) (reader : PolicyReader) : Prop :=
  ∀ action ∈ reader.rootActions, ∀ rows, rootRows model action solverKind = .ok rows →
    ∀ row ∈ rows, RowFits model threshold reader row

theorem mem_offers {stateId : String} {x : ℚ} : x ∈ offers reader stateId ↔
    ∃ child ∈ reader.children, stateId ∈ child.stateIds ∧ ∃ action ∈ child.domain, ∃ value,
      reader.evaluateChild stateId action = .ok value ∧ value.rewardLower = x := by
  simp only [offers, List.mem_flatMap, List.mem_filter, decide_eq_true_eq, List.mem_filterMap,
    Option.map_eq_some_iff]
  constructor
  · rintro ⟨child, ⟨hchild, hstate⟩, action, haction, value, hvalue, rfl⟩
    refine ⟨child, hchild, hstate, action, haction, value, ?_, rfl⟩
    cases hrun : reader.evaluateChild stateId action with
    | ok found => simpa [hrun, Except.toOption] using hvalue
    | error e => simp [hrun, Except.toOption] at hvalue
  · rintro ⟨child, hchild, hstate, action, haction, value, hvalue, rfl⟩
    exact ⟨child, ⟨hchild, hstate⟩, action, haction, value, by simp [hvalue, Except.toOption], rfl⟩

section Rows

variable {childValues : ChildValues} {row : IntervalSimplexRow} {category : SelectedRowCategory}
  {key : String}

/-- The states that the row reaches take their best lower rewards. -/
def TakesBest (model : PartialSupportIntervalModel) (reader : PolicyReader)
    (childValues : ChildValues) (row : IntervalSimplexRow) : Prop :=
  ∀ s ∈ model.reachableFrom row, ∃ v, childValues.lookup s = some v ∧
    v.rewardLower = bestLower reader s

theorem worth_eq_best (hcovered : Covered model threshold childValues row)
    (htwo : row.remainingHorizon = 2) (hbest : TakesBest model reader childValues row)
    {item : IntervalDestinationMass} (hitem : item ∈ row.masses) (hupper : 0 < item.upper) :
    (worth model threshold childValues row item).rewardLower = bestWorth model reader item := by
  obtain ⟨d, hd⟩ := hcovered.registered item hitem
  have hrun := (destinationValue_eq hcovered hitem).1
  unfold destinationValue at hrun
  rw [bind_of_ok (orRaise_eq_ok.mpr hd)] at hrun
  simp only [bestWorth, hd, Option.bind_some]
  cases hcategory : d.category with
  | activeState s =>
    have hstate := stateId_eq_some.mpr hcategory
    obtain ⟨v, hv, heq⟩ := hbest s (mem_reachableFrom.mpr ⟨item, hitem, hupper, d, hd, hstate⟩)
    have htwo : 1 < row.remainingHorizon := by omega
    simp only [hcategory, htwo, if_true] at hrun
    rw [bind_of_ok (orRaise_eq_ok.mpr hv)] at hrun
    rw [← Except.ok.inj hrun, hstate]
    exact heq
  | failure =>
    simp only [hcategory] at hrun
    rw [← Except.ok.inj hrun]
    simp [RegisteredDestination.stateId, hcategory]
  | other =>
    simp only [hcategory] at hrun
    rw [← Except.ok.inj hrun]
    simp [RegisteredDestination.stateId, hcategory]
  | successTerminal =>
    simp only [hcategory] at hrun
    rw [← Except.ok.inj hrun]
    simp [RegisteredDestination.stateId, hcategory]

theorem expected_eq_best (hcovered : Covered model threshold childValues row)
    (htwo : row.remainingHorizon = 2) (hbest : TakesBest model reader childValues row)
    {p : String → ℚ} (hp : InSimplex row.masses p) :
    (expected row p fun item => (worth model threshold childValues row item).rewardLower) =
      expected row p (bestWorth model reader) :=
  le_antisymm
    (expected_mono hp fun _ hitem hupper => (worth_eq_best hcovered htwo hbest hitem hupper).le)
    (expected_mono hp fun _ hitem hupper => (worth_eq_best hcovered htwo hbest hitem hupper).ge)

theorem evaluateGroundRow_best (hcovered : Covered model threshold childValues row)
    (htwo : row.remainingHorizon = 2) (hbest : TakesBest model reader childValues row)
    (hupper : row.rewardUpper ≤ threshold.rewardCeiling) :
    (∃ e, evaluateGroundRow ids model threshold childValues category key row = .ok e) ↔
      RowFits model threshold reader row := by
  obtain ⟨_, lower, _, -, hlower, -, heq⟩ :=
    @evaluateGroundRow_eq ids model threshold childValues row hcovered category key
  rw [heq]
  constructor
  · rintro ⟨e, he⟩
    split at he
    · rename_i hwithin
      refine ⟨_, hlower.inSimplex, ?_⟩
      rw [← expected_eq_best hcovered htwo hbest hlower.inSimplex, ← hlower.value_eq]
      exact hwithin.2
    · cases he
  · rintro ⟨p, hp, hwithin⟩
    rw [← expected_eq_best hcovered htwo hbest hp] at hwithin
    exact ⟨_, if_pos ⟨hupper, (add_le_add_right (hlower.min_le hp) _).trans hwithin⟩⟩

end Rows

/-! ## The best values of a search -/

theorem optimisticValue_attained {unit : DecisionUnit} {stateId : String}
    {value : StateActionEvaluation} (h : optimisticValue unit stateId = .ok value) :
    ∃ choice ∈ unit.choices, ∃ v, (stateId, v) ∈ choice.stateValues ∧
      v.rewardLower = value.rewardLower := by
  obtain ⟨candidates, hcandidates, h⟩ := bind_eq_ok.mp h
  obtain ⟨lower, hlower, h⟩ := bind_eq_ok.mp h
  obtain ⟨_, -, h⟩ := bind_eq_ok.mp h
  obtain ⟨_, -, h⟩ := bind_eq_ok.mp h
  obtain rfl := Except.ok.inj h
  obtain ⟨v, hv, heq⟩ := List.mem_map.mp (max?_mem (orRaise_eq_ok.mp hlower))
  obtain ⟨choice, hchoice, hrun⟩ := mem_of_mapM hcandidates hv
  exact ⟨choice, hchoice, v, Dict.lookup_mem (orRaise_eq_ok.mp hrun), heq⟩

theorem unit_of_state (hnodup : (us.flatMap DecisionUnit.stateIds).Nodup)
    {unit unit' : DecisionUnit} (hunit : unit ∈ us) (hunit' : unit' ∈ us) {stateId : String}
    (hstate : stateId ∈ unit.stateIds) (hstate' : stateId ∈ unit'.stateIds) : unit = unit' := by
  have : Std.Symm (Function.onFun List.Disjoint DecisionUnit.stateIds) :=
    ⟨fun _ _ hdisjoint => hdisjoint.symm⟩
  by_contra hne
  exact (List.nodup_flatMap.mp hnodup).2.forall hunit hunit' hne hstate hstate'

namespace Setting

variable (h : Setting ids model threshold solverKind reader us roots upper)
include h

/-- The best lower reward of a state is the greatest that the choices of its decision have. -/
theorem bestLower_eq {unit : DecisionUnit} (hunit : unit ∈ us) {stateId : String}
    (hstate : stateId ∈ unit.stateIds) {x : ℚ}
    (hattained : ∃ choice ∈ unit.choices, ∃ v, (stateId, v) ∈ choice.stateValues ∧
      v.rewardLower = x)
    (hgreatest : ∀ choice ∈ unit.choices, ∀ v, (stateId, v) ∈ choice.stateValues →
      v.rewardLower ≤ x) : bestLower reader stateId = x := by
  have hmax : (offers reader stateId).max? = some x := by
    refine List.max?_eq_some_iff.mpr ⟨mem_offers.mpr ?_, fun y hy => ?_⟩
    · obtain ⟨choice, hchoice, v, hv, rfl⟩ := hattained
      obtain ⟨child, hchild, hrun⟩ := mem_of_mapM h.scopeUnits hunit
      obtain ⟨-, hstates, hchoices⟩ := scopeUnit_spec hrun
      obtain ⟨action, haction, hchoose⟩ := exists_mem_of_forall₂ hchoices.flip hchoice
      obtain ⟨s, -, hrun⟩ := mem_of_mapM (scopeChoice_spec hchoose).2.2.1 hv
      obtain ⟨value, hvalue, heq⟩ := bind_eq_ok.mp hrun
      obtain ⟨rfl, rfl⟩ := Prod.mk.inj (Except.ok.inj heq)
      exact ⟨child, hchild, hstates ▸ hstate, action, haction, value, hvalue, rfl⟩
    · obtain ⟨child, hchild, hmem, action, haction, value, hvalue, rfl⟩ := mem_offers.mp hy
      obtain ⟨unit', hunit', hrun⟩ := exists_of_mapM h.scopeUnits hchild
      obtain ⟨-, hstates, hchoices⟩ := scopeUnit_spec hrun
      obtain rfl := unit_of_state h.sound.states_nodup hunit hunit' hstate (hstates ▸ hmem)
      obtain ⟨choice, hchoice, hchoose⟩ := exists_mem_of_forall₂ hchoices haction
      obtain ⟨e, he, hrun⟩ := exists_of_mapM (scopeChoice_spec hchoose).2.2.1 hmem
      obtain ⟨value', hvalue', heq⟩ := bind_eq_ok.mp hrun
      obtain rfl := Except.ok.inj (hvalue.symm.trans hvalue')
      obtain rfl := Except.ok.inj heq
      exact hgreatest choice hchoice value he
  rw [bestLower, hmax, Option.getD_some]

/-- The values of a selection cover the reached states. -/
theorem selection_bounded {D : List DecisionChoice} (hD : Selects D us) :
    ChildrenBounded model threshold (D.flatMap DecisionChoice.stateValues) := by
  have hkeys := hD.states h.sound.sound
  intro stateId hreached
  have hmem := hkeys ▸ (h.states stateId).mpr hreached
  obtain ⟨e, he, rfl⟩ := List.mem_map.mp hmem
  refine ⟨e.2, Dict.lookup_eq_some (h.selection_nodup hD) he, ?_⟩
  obtain ⟨choice, hchoice, he⟩ := List.mem_flatMap.mp he
  obtain ⟨unit, hunit, hmem⟩ := exists_mem_of_forall₂ hD hchoice
  exact (h.sound.sound unit hunit choice hmem).bounded e he

section Enumerated

variable (hpolicies : reader.policies ids = .ok policies) {root : RootChoice} (hroot : root ∈ roots)
  {rows : List IntervalSimplexRow} (hrows : rootRows model root.actionKey solverKind = .ok rows)
include hpolicies hroot hrows

/-- Every row of a root action has been evaluated under every selection. -/
theorem row_evaluates {D : List DecisionChoice} (hD : Selects D us) {row : IntervalSimplexRow}
    (hrow : row ∈ rows) : ∃ category key e, evaluateGroundRow ids model threshold
      (D.flatMap DecisionChoice.stateValues) category key row = .ok e := by
  obtain ⟨P, -, hP⟩ := h.completes hpolicies hroot hD
  obtain ⟨-, value, hvalue, -⟩ := completePolicy_spec hP
  obtain ⟨category, key, heq⟩ :=
    @evaluateRoot_rows ids model threshold solverKind root.actionKey rows hrows root rfl
  rw [Dict.ofPairs_of_nodup (h.selection_nodup hD), heq] at hvalue
  obtain ⟨es, hes, -⟩ := bind_eq_ok.mp hvalue
  obtain ⟨e, -, he⟩ := exists_of_mapM hes hrow
  exact ⟨category, key, e, he⟩

theorem rewardUpper_le {row : IntervalSimplexRow} (hrow : row ∈ rows) :
    row.rewardUpper ≤ threshold.rewardCeiling := by
  obtain ⟨D, hD⟩ := h.exists_selection
  obtain ⟨category, key, e, he⟩ := h.row_evaluates hpolicies hroot hrows hD hrow
  obtain ⟨hmem, htwo⟩ := (rootRows_spec hrows).2 row hrow
  exact rewardUpper_le_ceiling
    (covered_of_children h.wellFormed h.listed hmem htwo (h.selection_bounded hD)) he

/-- The best values of a root action are worth something exactly when its rows fit. -/
theorem topReturns_iff {others : List DecisionUnit} {search : RootSearch}
    (hs : RootSearched ids model threshold solverKind reader us root others search) :
    TopReturns ids model threshold solverKind search ↔ ∀ row ∈ rows,
      RowFits model threshold reader row := by
  obtain ⟨F, values, hF, hvalues, hlookup⟩ := @optimisticChildValues_eq model threshold solverKind
    reader others [] search.orderedUnits search [] hs.sound (List.nil_append _).symm .nil
  obtain ⟨hkeys, hbounded⟩ := nodeValues_spec hs.sound (List.nil_append _).symm
    (.nil : Selects [] []) hF
  have hnodup : ((nodeValues search [] F).map Prod.fst).Nodup :=
    hkeys ▸ hs.sound.units.states_nodup
  have hchildren := childrenBounded_of_lookup hs.sound hkeys hbounded hlookup
  obtain ⟨action, hisRoot⟩ := h.exists_rootAction hroot
  obtain ⟨rows', hrows', hrelevant⟩ := hisRoot.relevant
  rw [← hisRoot.actionKey] at hrows'
  obtain rfl := Except.ok.inj (hrows.symm.trans hrows')
  have hbest : ∀ row ∈ rows, TakesBest model reader values row := by
    intro row hrow s hs'
    have hreached : Reached model s := by
      obtain ⟨hmem, htwo⟩ := (rootRows_spec hrows).2 row hrow
      exact ⟨row, hmem, htwo, hs'⟩
    obtain ⟨unit, hunit, hstate⟩ := List.mem_flatMap.mp (hs.sound.reached s hreached)
    have hordered : unit ∈ search.orderedUnits := by
      rcases List.mem_append.mp hunit with hordered | hother
      · exact hordered
      · refine absurd ?_ (hs.unreached unit hother s hstate)
        rw [hrelevant]
        exact List.mem_flatMap.mpr ⟨row, hrow, hs'⟩
    obtain ⟨free, hfree, hrun⟩ := exists_of_mapM hF hordered
    obtain ⟨e, he, hoffer⟩ := exists_of_mapM hrun hstate
    obtain ⟨value, hvalue, heq⟩ := bind_eq_ok.mp hoffer
    obtain rfl := Except.ok.inj heq
    have hmemUnit : unit ∈ us := hs.perm.mem_iff.mpr hunit
    have hsound := h.sound.sound unit hmemUnit
    have hne := h.sound.choices_ne_nil unit hmemUnit
    have hstates := (List.nodup_flatMap.mp h.sound.states_nodup).1 unit hmemUnit
    obtain ⟨value', hvalue', -, hgreatest⟩ := optimisticValue_spec hsound hne hstates hstate
    obtain rfl := Except.ok.inj (hvalue.symm.trans hvalue')
    refine ⟨value, (hlookup s).trans (Dict.lookup_eq_some hnodup ?_), (h.bestLower_eq hmemUnit
      hstate (optimisticValue_attained hvalue) fun choice hchoice v hv =>
        (hgreatest choice hchoice v hv).1).symm⟩
    rw [nodeValues, List.flatMap_nil, List.nil_append]
    exact List.mem_append_left _ (List.mem_flatten.mpr ⟨free, hfree, he⟩)
  have hrowIff : ∀ row ∈ rows, ∀ category key, (∃ e, evaluateGroundRow ids model threshold values
      category key row = .ok e) ↔ RowFits model threshold reader row := by
    intro row hrow category key
    obtain ⟨hmem, htwo⟩ := (rootRows_spec hrows).2 row hrow
    exact evaluateGroundRow_best (covered_of_children h.wellFormed h.listed hmem htwo hchildren)
      htwo (hbest row hrow) (h.rewardUpper_le hpolicies hroot hrows hrow)
  obtain ⟨category, key, heq⟩ := @evaluateRoot_rows ids model threshold solverKind root.actionKey
    rows hrows search.root (congrArg RootChoice.actionKey hs.root_eq)
  constructor
  · rintro ⟨values', value, hvalues', hvalue⟩ row hrow
    obtain rfl := Except.ok.inj (hvalues.symm.trans hvalues')
    rw [heq] at hvalue
    obtain ⟨es, hes, -⟩ := bind_eq_ok.mp hvalue
    obtain ⟨e, -, he⟩ := exists_of_mapM hes hrow
    exact (hrowIff row hrow category key).mp ⟨e, he⟩
  · intro hfits
    obtain ⟨es, hes⟩ := mapM_returns fun row hrow =>
      (hrowIff row hrow category key).mpr (hfits row hrow)
    have hne : es ≠ [] := fun hnil => (rootRows_spec hrows).1 <| by
      subst hnil
      exact List.forall₂_nil_right_iff.mp (mapM_eq_ok.mp hes)
    obtain ⟨value, hvalue⟩ : ∃ value, averageActionEvaluations es = .ok value :=
      ⟨_, bind_of_ok (require_eq_ok (u := ()).mpr hne)⟩
    exact ⟨values, value, hvalues, (heq values).trans ((bind_of_ok hes).trans hvalue)⟩

end Enumerated

/-- The whole search goes through exactly when the best lower rewards fit. -/
theorem rootsReturn_iff (hpolicies : reader.policies ids = .ok policies) :
    RootsReturn ids model threshold solverKind us roots ↔
      StatewiseFits model threshold solverKind reader := by
  constructor
  · intro hreturn action haction rows hrows
    obtain ⟨root, hroot, hisRoot⟩ := exists_mem_of_forall₂ h.isRoot haction
    obtain ⟨search, others, hsearch, hs⟩ := h.exists_search hroot
    rw [← hisRoot.actionKey] at hrows
    exact (h.topReturns_iff hpolicies hroot hrows hs).mp (hreturn root hroot search hsearch)
  · intro hfits root hroot search hsearch
    obtain ⟨search', others, hsearch', hs⟩ := h.exists_search hroot
    obtain rfl := Except.ok.inj (hsearch.symm.trans hsearch')
    obtain ⟨action, haction, hisRoot⟩ := exists_mem_of_forall₂ h.isRoot.flip hroot
    obtain ⟨rows, hrows, -⟩ := hisRoot.relevant
    have hfitsRows := hfits action haction rows hrows
    rw [← hisRoot.actionKey] at hrows
    exact (h.topReturns_iff hpolicies hroot hrows hs).mpr hfitsRows

end Setting

/-- The best lower rewards fit the rows that the solver reads. -/
def Fits (ids : PlannerIds) (model : PartialSupportIntervalModel)
    (threshold : RobustThresholdProfile) (solverKind : RobustSolverKind) : Prop :=
  ∀ reader, solverReader ids model threshold solverKind = .ok reader →
    StatewiseFits model threshold solverKind reader

section Lazy

variable {ids : LazyIds} (hids : ids.Distinct) (hmodel : WellFormed ids.toPlannerIds model)
  {core : SolvedCore} (hcore : solveCore ids.toPlannerIds model threshold solverKind = .ok core)
include hids hmodel hcore

theorem fits_of_solveCoreLazy {limits : ResourceLimits} {phase : SearchPhase} {solved : LazyCore}
    (hsolved : solveCoreLazy ids model threshold solverKind limits phase = .ok solved) :
    solved.core = core ∧ Fits ids.toPlannerIds model threshold solverKind := by
  obtain ⟨-, reader, us, roots, upper, policies, h, hpolicies, hoptimal⟩ :=
    solveCore_optimal hids.planner hmodel hcore
  obtain ⟨reader', us', roots', upper', policies', h', hpolicies', hreturn, hoptimal'⟩ :=
    solveCoreLazy_optimal hids hmodel hsolved
  obtain rfl := Except.ok.inj (h.reader_eq.symm.trans h'.reader_eq)
  obtain rfl := Except.ok.inj (h.upper_eq.symm.trans h'.upper_eq)
  obtain rfl := Except.ok.inj (hpolicies.symm.trans hpolicies')
  refine ⟨Optimal.unique h hpolicies hoptimal' hoptimal, fun reader' hreader' => ?_⟩
  obtain rfl := Except.ok.inj (h.reader_eq.symm.trans hreader')
  exact (h'.rootsReturn_iff hpolicies).mp hreturn

end Lazy

/-! ## Audits -/

def solveRobustH2 (ids : PlannerIds) (model : PartialSupportIntervalModel)
    (threshold : RobustThresholdProfile) : RobustSolverKind → Except PlannerError RobustPlanAudit
  | .groundDirect => solveGroundDirectRobustH2 ids model threshold
  | .quotient => solveQuotientRobustH2 ids model threshold

theorem makeAudit_of_solve {audit : RobustPlanAudit}
    (h : solveRobustH2 ids model threshold solverKind = .ok audit) :
    makeAudit ids model threshold solverKind = .ok audit ∧
      (solverKind = .quotient → model.concretizerEntries ≠ []) := by
  cases solverKind with
  | groundDirect => exact ⟨h, by simp⟩
  | quotient =>
    obtain ⟨_, hentries, h⟩ := bind_eq_ok.mp h
    exact ⟨h, fun _ => require_eq_ok.mp hentries⟩

/-- The best lower rewards fit the model without unobserved mass, too, when that one is solved. -/
def ZeroFits (ids : PlannerIds) (model : PartialSupportIntervalModel)
    (threshold : RobustThresholdProfile) (solverKind : RobustSolverKind) : Prop :=
  ∀ zero, zeroOtherModel ids model = .ok zero → Fits ids zero threshold solverKind

theorem zeroOtherModel?_eq_some {zero : PartialSupportIntervalModel} :
    zeroOtherModel? ids model = .ok (some zero) ↔ zeroOtherModel ids model = .ok zero := by
  unfold zeroOtherModel?
  cases zeroOtherModel ids model with
  | ok found => simp
  | error e => cases e <;> simp

section Counterfactual

variable {ids : LazyIds} (hids : ids.Distinct) (hmodel : WellFormed ids.toPlannerIds model)
  {core : SolvedCore} {counterfactual : OtherOnlyCounterfactual}
  (hcounterfactual : counterfactualWith ids.toPlannerIds
    (fun zero => solveCore ids.toPlannerIds zero threshold solverKind) model core =
      .ok counterfactual)
include hids hmodel hcounterfactual

/-- A counterfactual of the lazy solver is that of the exhaustive one. -/
theorem counterfactual_agrees {limits : ResourceLimits}
    {found : OtherOnlyCounterfactual × ZeroSearch}
    (h : counterfactualAndTrace ids model threshold solverKind limits core = .ok found) :
    found.1 = counterfactual ∧
      (core.status = .certified ∨ ZeroFits ids.toPlannerIds model threshold solverKind) := by
  unfold counterfactualWith at hcounterfactual
  unfold counterfactualAndTrace at h
  split at h
  · rename_i hcertified
    rw [if_pos hcertified] at hcounterfactual
    obtain rfl := Except.ok.inj h
    exact ⟨Except.ok.inj hcounterfactual, .inl hcertified⟩
  · rename_i hfailed
    rw [if_neg hfailed] at hcounterfactual
    obtain ⟨zeroModel, hzero, h⟩ := bind_eq_ok.mp h
    have hzero := planner_eq_ok.mp hzero
    rw [bind_of_ok hzero] at hcounterfactual
    cases zeroModel with
    | none =>
      obtain rfl := Except.ok.inj h
      refine ⟨Except.ok.inj hcounterfactual, .inr fun zero hfound => ?_⟩
      have hsome := zeroOtherModel?_eq_some.mpr hfound
      rw [hzero] at hsome
      cases Except.ok.inj hsome
    | some zero =>
      obtain ⟨result, hresult, hisZero⟩ := zeroOtherModel?_spec hmodel
      obtain rfl := Except.ok.inj (hzero.symm.trans hresult)
      have hwellFormed := (hisZero zero rfl).wellFormed
      obtain ⟨zeroCore, hzeroCore, hcounterfactual⟩ := bind_eq_ok.mp hcounterfactual
      obtain ⟨solved, hsolved, h⟩ := bind_eq_ok.mp h
      obtain ⟨validated, hvalidated, h⟩ := bind_eq_ok.mp h
      obtain rfl := Except.ok.inj h
      obtain ⟨rfl, hfits⟩ := fits_of_solveCoreLazy hids hwellFormed hzeroCore hsolved
      have hsame := Except.ok.inj ((planner_eq_ok.mp hvalidated).symm.trans hcounterfactual)
      refine ⟨hsame, .inr fun zero' hfound => ?_⟩
      have hsome := zeroOtherModel?_eq_some.mpr hfound
      rw [hzero] at hsome
      obtain rfl := Option.some.inj (Except.ok.inj hsome)
      exact hfits

end Counterfactual

section Result

variable {ids : LazyIds} {limits : ResourceLimits} {audit : RobustPlanAudit}

/-- Every audit that the lazy solver gives is the audit of the exhaustive solver. -/
theorem solveExactLazy_agrees (hids : ids.Distinct) {u : Unit}
    (hvalid : model.validate ids.toPlannerIds = .ok u)
    (haudit : solveRobustH2 ids.toPlannerIds model threshold solverKind = .ok audit)
    {found : RobustPlanAudit} {trace : SearchTrace}
    (h : solveExactLazyRobustH2 ids model threshold solverKind limits =
      .ok (.solved found trace)) : found = audit := by
  have hmodel := WellFormed.of_validate hvalid
  obtain ⟨core, hcore, hrest⟩ := bind_eq_ok.mp (makeAudit_of_solve haudit).1
  obtain ⟨counterfactual, hcounterfactual, hfinish⟩ := bind_eq_ok.mp hrest
  obtain ⟨solved, lazily, hsolved, hlazily, hfound⟩ := solveExactLazy_spec h
  obtain ⟨rfl, -⟩ := fits_of_solveCoreLazy hids hmodel hcore hsolved
  obtain ⟨rfl, -⟩ := counterfactual_agrees hids hmodel hcounterfactual hlazily
  exact Except.ok.inj (hfound.symm.trans hfinish)

end Result

/-! ## Small models -/

section

def nodeCode (witness : NodeWitness) : List ℕ × List (List ℕ) × List (List ℕ) × List (List ℕ) :=
  (letters witness.rootAssignmentId, witness.relevantScopeKeys.map letters,
    witness.selectedAssignmentIds.map letters, witness.irrelevantAssignmentIds.map letters)

def codedIds : LazyIds where
  toPlannerIds := sampleIds
  completeWitnessId witness := unaryName (nodeCode witness.toNodeWitness,
    witness.policyKey.map letters, witness.rewardLower, witness.rewardUpper, witness.failureUpper)
  prunedWitnessId witness := unaryName (nodeCode witness.toNodeWitness,
    witness.rewardLowerUpperBound, witness.failureLowerBound,
    witness.minimumPolicyKey.map letters, witness.dominatingPolicyKey.map letters,
    witness.dominatingRewardLower, witness.dominatingFailureUpper)

theorem codedIds_distinct : codedIds.Distinct := by
  have hletters := letters_injective.list_map
  refine ⟨sampleIds_distinct, ?_, ?_⟩
  all_goals
    intro a b h
    have hcode := unaryName_injective h
    obtain ⟨⟨_, _, _, _⟩⟩ := a
    obtain ⟨⟨_, _, _, _⟩⟩ := b
    simpa [nodeCode, letters_injective.eq_iff, hletters.eq_iff, and_assoc] using hcode

def sampleLimits : ResourceLimits := ⟨10, 10, 10, by decide, by decide, by decide⟩

/-! ## A cell of two states -/

def forkActions : List CatalogueAction := [⟨"a", "first"⟩, ⟨"b", "second"⟩, ⟨"c", "third"⟩]

/-- A state of the cell of two states. -/
def forkCatalogue (stateId : String) : StateActionCatalogue :=
  ⟨stateId, "pair", forkActions, List.cons_ne_nil _ _, by decide⟩

theorem half_nonneg : (0 : ℚ) ≤ 1 / 2 := by norm_num

def stopMasses : List IntervalDestinationMass :=
  [zeroMass "elsewhere", ⟨"stop", 1, 1, one_nonneg, one_le_one, one_le_one⟩]

/-- A last step, which ends in success. -/
def forkRow (stateId actionId : String) (lower upper : ℚ) (h : 0 ≤ lower) (hle : lower ≤ upper) :
    IntervalSimplexRow where
  stateId := stateId
  remainingHorizon := 1
  actionId := actionId
  rewardLower := lower
  rewardUpper := upper
  otherDestinationId := "elsewhere"
  masses := stopMasses
  horizon_mem := lastStep
  reward_nonneg := h
  reward_le := hle
  masses_sorted := by decide
  other_mem := by decide
  admissible := by norm_num [AdmissibleSimplex, stopMasses, zeroMass]

def halfMass (destinationId : String) : IntervalDestinationMass :=
  ⟨destinationId, 1 / 2, 1 / 2, half_nonneg, le_rfl, half_le_one⟩

def forkMasses : List IntervalDestinationMass :=
  [zeroMass "elsewhere", halfMass "left", halfMass "right"]

def forkRoot (reward : ℚ) (h : 0 ≤ reward) : IntervalSimplexRow where
  stateId := "start"
  remainingHorizon := 2
  actionId := "go"
  rewardLower := reward
  rewardUpper := reward
  otherDestinationId := "elsewhere"
  masses := forkMasses
  horizon_mem := twoSteps
  reward_nonneg := h
  reward_le := le_rfl
  masses_sorted := by decide
  other_mem := by decide
  admissible := by norm_num [AdmissibleSimplex, forkMasses, halfMass, zeroMass]

theorem support_ne_nil (actionId : String) : [actionId] ≠ [] := List.cons_ne_nil _ _

theorem support_sorted (actionId : String) : [actionId].Pairwise (· < ·) :=
  List.pairwise_singleton _ _

def forkConcretizer (stateId action actionId : String) : DistinctActionConcretizerEntry :=
  ⟨"pair", stateId, action, [actionId], support_ne_nil actionId, support_sorted actionId⟩

/-- Two states of one cell. The actions with the greatest lower rewards differ, and neither has the
greatest upper reward. -/
def forkModel (reward : ℚ) (h : 0 ≤ reward) : PartialSupportIntervalModel :=
  ⟨"context", "start", [forkCatalogue "left", forkCatalogue "right", startCatalogue],
    [elsewhere, ⟨"left", .activeState "left"⟩, ⟨"right", .activeState "right"⟩,
      ⟨"stop", .successTerminal⟩],
    [forkRow "left" "a" (3 / 4) (3 / 4) (by norm_num) le_rfl,
      forkRow "left" "b" 0 0 zero_le_zero zero_le_zero,
      forkRow "left" "c" 0 1 zero_le_zero one_nonneg,
      forkRow "right" "a" 0 0 zero_le_zero zero_le_zero,
      forkRow "right" "b" (3 / 4) (3 / 4) (by norm_num) le_rfl,
      forkRow "right" "c" 0 1 zero_le_zero one_nonneg, forkRoot reward h],
    [forkConcretizer "left" "first" "a", forkConcretizer "left" "second" "b",
      forkConcretizer "left" "third" "c", forkConcretizer "right" "first" "a",
      forkConcretizer "right" "second" "b", forkConcretizer "right" "third" "c",
      startConcretizer]⟩

/-- The step of a row in a policy of the quotient. -/
def forkProvenance (row : IntervalSimplexRow) : SelectedRowProvenance :=
  ⟨"k" ++ row.stateId ++ row.actionId,
    if row.remainingHorizon = 1 then .continuationConcretizerComponent
    else .rootConcretizerComponent,
    if row.remainingHorizon = 1 then "pair" else "cell", row.stateId, row.actionId,
    row.remainingHorizon⟩

def forkBound (rowId : String) (remainingHorizon : ℕ) (reward : ℚ) : RobustSelectedRowBound :=
  ⟨rowId, remainingHorizon, reward, reward, 0, 0, 0, 0, 0, 0⟩

/-- The witness that an action of the cell is left out. -/
def forkPruned (action : String) (bound : ℚ) : PrunedNodeWitness :=
  ⟨⟨"kcelladvance", ["pair"], ["kpair" ++ action], []⟩, bound, 0,
    ["kcelladvance", "kpair" ++ action], ["kcelladvance", "kpairfirst"], 3 / 8, 0⟩

deriving instance DecidableEq for RobustSelectedRowBound, SelectedRowProvenance,
  OtherMassProvenance, NodeWitness, PrunedNodeWitness

/-- Names that are short on the records of the quotient. -/
def forkIds (reward : ℚ) (h : 0 ≤ reward) : LazyIds where
  rowId := shortened (forkModel reward h).rows (fun row => row.stateId ++ row.actionId)
    codedIds.rowId
  concretizerEntryId := shortened (forkModel reward h).concretizerEntries
    (fun entry => entry.stateId ++ entry.abstractActionKey) codedIds.concretizerEntryId
  modelId _ := "model"
  thresholdProfileId _ := "threshold"
  assignmentId := shortened (⟨.quotientCell, "cell", 2, "advance"⟩ ::
    ["first", "second", "third"].map (⟨.quotientCell, "pair", 1, ·⟩))
    (fun item => item.scopeKey ++ item.selectedActionKey) codedIds.assignmentId
  rowBoundId := shortened [forkBound "klefta" 1 (3 / 4), forkBound "krighta" 1 0,
    forkBound "kstartgo" 2 (reward + 3 / 8)] RobustSelectedRowBound.rowId codedIds.rowBoundId
  provenanceId := shortened ((forkModel reward h).rows.map forkProvenance)
    SelectedRowProvenance.rowId codedIds.provenanceId
  otherMassProvenanceId := shortened ((forkModel reward h).rows.map fun row =>
    ⟨(forkProvenance row).rowId, row.remainingHorizon, (forkProvenance row).category, 0⟩)
    OtherMassProvenance.rowId codedIds.otherMassProvenanceId
  completeWitnessId := codedIds.completeWitnessId
  prunedWitnessId := shortened [forkPruned "second" (3 / 8), forkPruned "third" 0]
    (fun witness => String.join witness.selectedAssignmentIds) codedIds.prunedWitnessId

theorem forkIds_distinct (reward : ℚ) (h : 0 ≤ reward) : (forkIds reward h).Distinct := by
  have hcoded := codedIds_distinct
  have hplanner := hcoded.planner
  refine ⟨⟨?_, ?_, ?_, ?_, ?_, ?_⟩, hcoded.completeWitnessId, ?_⟩
  · exact shortened_injective (by simp [forkModel, forkRow, forkRoot]) hplanner.rowId
  · exact shortened_injective (by simp [forkModel, forkConcretizer, startConcretizer])
      hplanner.concretizerEntryId
  · exact shortened_injective (by decide) hplanner.assignmentId
  · exact shortened_injective (by simp [forkBound]) hplanner.rowBoundId
  · exact shortened_injective (by simp [forkModel, forkRow, forkRoot, forkProvenance])
      hplanner.provenanceId
  · exact shortened_injective (by simp [forkModel, forkRow, forkRoot, forkProvenance])
      hplanner.otherMassProvenanceId
  · exact shortened_injective (by decide) hcoded.prunedWitnessId

/-- Whether a run of the lazy solver gives an audit after leaving something out. -/
def prunes : Except LazyError LazySolveResult → Bool
  | .ok (.solved _ trace) => trace.originalProof.prunedNodes ≠ []
  | _ => false

theorem forkModel_solved :
    (forkModel 0 le_rfl).validate (forkIds 0 le_rfl).toPlannerIds = .ok () ∧
    (solveRobustH2 (forkIds 0 le_rfl).toPlannerIds (forkModel 0 le_rfl) evenThreshold
      .quotient).isOk = true ∧
    prunes (solveExactLazyRobustH2 (forkIds 0 le_rfl) (forkModel 0 le_rfl) evenThreshold .quotient
      sampleLimits) = true := by
  decide +kernel

theorem prunes_spec {x : Except LazyError LazySolveResult} (h : prunes x = true) :
    ∃ audit trace, x = .ok (.solved audit trace) ∧ trace.originalProof.prunedNodes ≠ [] := by
  cases x with
  | error e => cases h
  | ok result =>
    cases result with
    | solved audit trace => exact ⟨audit, trace, rfl, of_decide_eq_true h⟩
    | exhausted exhaustion => cases h

/-- The other two actions of the cell are left out, and the audit is the same. -/
theorem solveExactLazy_agrees_sample : ∃ audit trace,
    solveExactLazyRobustH2 (forkIds 0 le_rfl) (forkModel 0 le_rfl) evenThreshold .quotient
      sampleLimits = .ok (.solved audit trace) ∧
    trace.originalProof.prunedNodes ≠ [] ∧
    solveRobustH2 (forkIds 0 le_rfl).toPlannerIds (forkModel 0 le_rfl) evenThreshold .quotient =
      .ok audit := by
  obtain ⟨hvalid, hsolved, hprunes⟩ := forkModel_solved
  obtain ⟨audit, haudit⟩ := exists_of_isOk hsolved
  obtain ⟨found, trace, hfound, hpruned⟩ := prunes_spec hprunes
  have hsame := solveExactLazy_agrees (forkIds_distinct 0 le_rfl) hvalid haudit hfound
  exact ⟨found, trace, hfound, hpruned, hsame ▸ haudit⟩

end

end Acfqp.Robust
