import Acfqp.Robust.LazyCore

/-!
# The proof of a search is accepted

Every recorded node passes the checks of its witness, different nodes have different witnesses, and
so the proof of a finished search freezes. The solver then returns the core of the first policy.
-/

namespace Acfqp.Robust

open Library PartialSupportIntervalModel

/-- Identifiers that tell records apart, those of witnesses too. -/
structure LazyIds.Distinct (ids : LazyIds) : Prop where
  planner : ids.toPlannerIds.Distinct
  completeWitnessId : Function.Injective ids.completeWitnessId
  prunedWitnessId : Function.Injective ids.prunedWitnessId

theorem sorted_of_lt {l : List String} (h : l.Pairwise (· < ·)) :
    l.Nodup ∧ l.Pairwise (· ≤ ·) :=
  ⟨h.imp fun hlt => hlt.ne, h.imp fun hlt => hlt.le⟩

theorem requireSortedIds_eq {field : String} {l : List String} (h : l.Pairwise (· < ·)) :
    requireSortedIds field l = .ok () :=
  (bind_of_ok (require_eq_ok (u := ()).mpr (sorted_of_lt h).1)).trans
    (require_eq_ok.mpr (sorted_of_lt h).2)

def RawCompleteWitness.witness (ids : PlannerIds) (raw : RawCompleteWitness) :
    CompleteNodeWitness :=
  ⟨raw.node.witness ids, raw.evaluation.policyKey ids, raw.evaluation.rewardLower,
    raw.evaluation.rewardUpper, raw.evaluation.failureUpper⟩

def RawPrunedWitness.witness (ids : PlannerIds) (selected : PolicyEvaluation)
    (raw : RawPrunedWitness) : PrunedNodeWitness :=
  ⟨raw.node.witness ids, raw.bounds.rewardLowerUpperBound, raw.bounds.failureLowerBound,
    raw.bounds.minimumPolicyKey, selected.policyKey ids, selected.rewardLower,
    selected.failureUpper⟩

variable {ids : LazyIds} {model : PartialSupportIntervalModel}
  {threshold : RobustThresholdProfile} {solverKind : RobustSolverKind} {reader : PolicyReader}
  {us : List DecisionUnit} {roots : List RootChoice} {upper : ℚ}
  {policies : List PolicyEvaluation}

section Witness

variable {others : List DecisionUnit} {search : RootSearch} {root : RootChoice}
  (hids : Function.Injective ids.assignmentId)
  (hs : RootSearched ids.toPlannerIds model threshold solverKind reader us root others search)
include hids hs

/-- A node that selects for some of the decisions has proper identifiers. -/
theorem nodeWitness_sorted {done rest : List DecisionUnit} {selected : List DecisionChoice}
    (hordered : search.orderedUnits = done ++ rest) (hselected : Selects selected done) :
    (search.orderedUnits.map DecisionUnit.scopeKey).Nodup ∧
      (selected.map fun choice => ids.assignmentId choice.assignment).Nodup ∧
      (sortBy id (search.irrelevant.map fun choice =>
        ids.assignmentId choice.assignment)).Pairwise (· < ·) ∧
      selected.length ≤ search.orderedUnits.length := by
  have hunits := hs.sound.units.append_left
  refine ⟨hunits.keys_nodup, ?_, ?_, ?_⟩
  · rw [hordered] at hunits
    exact choiceIds_nodup hids hunits.append_left hselected
  · exact sortBy_id_sorted (choiceIds_nodup hids hs.sound.units.append_right hs.sound.irrelevant)
  · rw [hselected.length_eq, hordered, List.length_append]
    omega

theorem completeWitness_valid {w : RawCompleteWitness}
    (hw : CompleteSound ids.toPlannerIds model threshold solverKind search w)
    (hpolicy : PolicySound ids.toPlannerIds threshold upper w.evaluation) :
    w.freeze ids.toPlannerIds = .ok (w.witness ids.toPlannerIds) := by
  obtain ⟨hscopes, hselected, hirrelevant, -⟩ :=
    nodeWitness_sorted hids hs (List.append_nil _).symm hw.selects
  have hkey : (w.evaluation.policyKey ids.toPlannerIds).Pairwise (· < ·) :=
    hpolicy.assignments_sorted
  have hnode := hw.node
  have hscopeKeys : w.node.relevantScopeKeys = search.orderedUnits.map DecisionUnit.scopeKey :=
    congrArg SearchNode.relevantScopeKeys hnode
  have hirrelevantEq : w.node.irrelevant = search.irrelevant := congrArg SearchNode.irrelevant hnode
  have hlength : (w.node.selected.map fun choice => ids.assignmentId choice.assignment).length =
      (search.orderedUnits.map DecisionUnit.scopeKey).length := by
    rw [List.length_map, List.length_map, hw.selects.length_eq]
  have hnonneg : ∀ value ∈ [w.evaluation.rewardLower, w.evaluation.rewardUpper,
      w.evaluation.failureUpper], 0 ≤ value := by
    simp only [List.forall_mem_cons, List.not_mem_nil, false_implies, implies_true, and_true]
    exact ⟨hpolicy.lower_nonneg, hpolicy.lower_nonneg.trans hpolicy.lower_le,
      hpolicy.failure_nonneg⟩
  unfold RawCompleteWitness.freeze CompleteNodeWitness.validate
  simp only [SearchNode.witness, hscopeKeys, hirrelevantEq, requireDistinctIds]
  rw [bind_of_ok (require_eq_ok (u := ()).mpr hscopes),
    bind_of_ok (require_eq_ok (u := ()).mpr hselected),
    bind_of_ok (requireSortedIds_eq hirrelevant),
    bind_of_ok (requireSortedIds_eq hkey),
    bind_of_ok (require_eq_ok (u := ()).mpr hlength),
    bind_of_ok (require_eq_ok (u := ()).mpr hnonneg),
    bind_of_ok (require_eq_ok (u := ()).mpr ⟨hpolicy.lower_le, hpolicy.failure_le_one⟩)]
  simp only [RawCompleteWitness.witness, SearchNode.witness, hscopeKeys, hirrelevantEq]

theorem prunedWitness_valid {w : RawPrunedWitness} (hw : PrunedSound search w)
    {selected : PolicyEvaluation}
    (hselected : PolicySound ids.toPlannerIds threshold upper selected) :
    w.freeze ids.toPlannerIds selected = .ok (w.witness ids.toPlannerIds selected) := by
  obtain ⟨done, rest, hordered, hselects⟩ := hw.selects
  obtain ⟨hscopes, hchosen, hirrelevant, hlength⟩ := nodeWitness_sorted hids hs hordered hselects
  have hkey : (selected.policyKey ids.toPlannerIds).Pairwise (· < ·) :=
    hselected.assignments_sorted
  have hnode := hw.node
  have hscopeKeys : w.node.relevantScopeKeys = search.orderedUnits.map DecisionUnit.scopeKey :=
    congrArg SearchNode.relevantScopeKeys hnode
  have hirrelevantEq : w.node.irrelevant = search.irrelevant := congrArg SearchNode.irrelevant hnode
  have hprefix : (w.node.selected.map fun choice => ids.assignmentId choice.assignment).length ≤
      (search.orderedUnits.map DecisionUnit.scopeKey).length := by
    rw [List.length_map, List.length_map]
    exact hlength
  have hnonneg : ∀ value ∈ [w.bounds.rewardLowerUpperBound, w.bounds.failureLowerBound,
      selected.rewardLower, selected.failureUpper], 0 ≤ value := by
    simp only [List.forall_mem_cons, List.not_mem_nil, false_implies, implies_true, and_true]
    exact ⟨hw.reward_nonneg, hw.failure_nonneg, hselected.lower_nonneg, hselected.failure_nonneg⟩
  unfold RawPrunedWitness.freeze PrunedNodeWitness.validate
  simp only [SearchNode.witness, hscopeKeys, hirrelevantEq, requireDistinctIds]
  rw [bind_of_ok (require_eq_ok (u := ()).mpr hscopes),
    bind_of_ok (require_eq_ok (u := ()).mpr hchosen),
    bind_of_ok (requireSortedIds_eq hirrelevant), bind_of_ok (requireSortedIds_eq hw.key_sorted),
    bind_of_ok (requireSortedIds_eq hkey),
    bind_of_ok (require_eq_ok (u := ()).mpr hprefix),
    bind_of_ok (require_eq_ok (u := ()).mpr hnonneg),
    bind_of_ok (require_eq_ok (u := ()).mpr ⟨hw.failure_le_one, hselected.failure_le_one⟩)]
  simp only [RawPrunedWitness.witness, SearchNode.witness, hscopeKeys, hirrelevantEq]

end Witness

/-- Witnesses of different paths are different. -/
theorem witnessIds_nodup {α W : Type} {path : α → List String} {witness : α → W}
    {witnessId : W → String} (hid : Function.Injective witnessId) {raws : List α}
    (hpaths : (raws.map path).Nodup)
    (hwitness : ∀ a b, witness a = witness b → path a = path b) :
    ((raws.map witness).map witnessId).Nodup := by
  rw [List.map_map]
  refine (hpaths.of_map _).map_on fun a ha b hb heq => ?_
  exact List.inj_on_of_nodup_map hpaths ha hb (hwitness a b (hid heq))

/-! ## The proof of a search -/

namespace Setting

variable (hids : ids.Distinct)
  (h : Setting ids.toPlannerIds model threshold solverKind reader us roots upper)
  (hpolicies : reader.policies ids.toPlannerIds = .ok policies)
include hids h hpolicies

omit hids in
theorem complete_sound {w : RawCompleteWitness}
    (hw : CompleteRecord ids.toPlannerIds model threshold solverKind reader us roots w) :
    PolicySound ids.toPlannerIds threshold upper w.evaluation := by
  obtain ⟨root, hroot, others, search, hs, hsound⟩ := hw
  obtain ⟨Q, hmem, hQ⟩ := h.completes_perm hpolicies hroot hs.perm
    (List.rel_append hsound.selects hs.defaults.selects)
  have hevaluation := hsound.evaluation
  rw [hs.root_eq, hQ] at hevaluation
  exact Except.ok.inj hevaluation ▸ (h.policies_sound hpolicies).2 Q hmem

theorem freeze_returns {s : SearchState} {phase : SearchPhase} {selected : PolicyEvaluation}
    (hs : Searched ids.toPlannerIds model threshold solverKind reader us upper roots roots s)
    (hselected : selected ∈ policies) (hfound : s.incumbent.isSome) :
    ∃ proof, freezeSearchProof ids model threshold solverKind phase roots selected upper
      s.rawComplete s.rawPruned = .ok proof ∧ proof.phase = phase ∧
        proof.solverKind = solverKind := by
  have hassignment := hids.planner.assignmentId
  have hpolicy := (h.policies_sound hpolicies).2 selected hselected
  obtain ⟨hcompletePaths, hcompleteRecords⟩ := hs.complete.from_nil
  obtain ⟨hprunedPaths, hprunedRecords⟩ := hs.pruned.from_nil
  have hcomplete : s.rawComplete.mapM (RawCompleteWitness.freeze ids.toPlannerIds) =
      .ok (s.rawComplete.map (RawCompleteWitness.witness ids.toPlannerIds)) := by
    refine mapM_of_forall fun w hw => ?_
    have hsound := complete_sound h hpolicies (hcompleteRecords w hw)
    obtain ⟨root, -, others, search, hroot, hnode⟩ := hcompleteRecords w hw
    exact completeWitness_valid hassignment hroot hnode hsound
  have hpruned : s.rawPruned.mapM (RawPrunedWitness.freeze ids.toPlannerIds selected) =
      .ok (s.rawPruned.map (RawPrunedWitness.witness ids.toPlannerIds selected)) := by
    refine mapM_of_forall fun w hw => ?_
    obtain ⟨root, -, others, search, hroot, hnode⟩ := hprunedRecords w hw
    exact prunedWitness_valid hassignment hroot hnode hpolicy
  have hroots : (sortBy id (roots.map fun root =>
      ids.assignmentId root.assignment)).Pairwise (· < ·) :=
    sortBy_id_sorted (roots_nodup hassignment h.reader_eq h.isRoot)
  have hkey : (selected.policyKey ids.toPlannerIds).Pairwise (· < ·) := hpolicy.assignments_sorted
  have hcompleteSorted : ((sortBy ids.completeWitnessId (s.rawComplete.map
      (RawCompleteWitness.witness ids.toPlannerIds))).map ids.completeWitnessId).Pairwise
        (· < ·) := by
    refine pairwise_lt_map_sortBy (nodup_map_sortBy
      (witnessIds_nodup hids.completeWitnessId hcompletePaths fun a b heq => ?_))
    have hnode := congrArg CompleteNodeWitness.toNodeWitness heq
    exact congrArg₂ List.cons (congrArg NodeWitness.rootAssignmentId hnode)
      (congrArg NodeWitness.selectedAssignmentIds hnode)
  have hprunedSorted : ((sortBy ids.prunedWitnessId (s.rawPruned.map
      (RawPrunedWitness.witness ids.toPlannerIds selected))).map ids.prunedWitnessId).Pairwise
        (· < ·) := by
    refine pairwise_lt_map_sortBy (nodup_map_sortBy
      (witnessIds_nodup hids.prunedWitnessId hprunedPaths fun a b heq => ?_))
    have hnode := congrArg PrunedNodeWitness.toNodeWitness heq
    exact congrArg₂ List.cons (congrArg NodeWitness.rootAssignmentId hnode)
      (congrArg NodeWitness.selectedAssignmentIds hnode)
  have hne : sortBy ids.completeWitnessId (s.rawComplete.map
      (RawCompleteWitness.witness ids.toPlannerIds)) ≠ [] :=
    sortBy_eq_nil.not.mpr (List.map_eq_nil_iff.not.mpr (hs.found hfound))
  have hlower := hpolicy.lower_nonneg.trans hpolicy.lower_le
  have hnonneg : ∀ value ∈ [selected.rewardLower, selected.rewardUpper, selected.failureUpper,
      upper], 0 ≤ value := by
    simp only [List.forall_mem_cons, List.not_mem_nil, false_implies, implies_true, and_true]
    exact ⟨hpolicy.lower_nonneg, hlower, hpolicy.failure_nonneg, hlower.trans hpolicy.upper_le⟩
  unfold freezeSearchProof
  rw [bind_of_ok hcomplete, bind_of_ok hpruned]
  unfold SearchProof.validate
  dsimp only
  rw [bind_of_ok (requireSortedIds_eq hroots), bind_of_ok (requireSortedIds_eq hkey),
    bind_of_ok (require_eq_ok (u := ()).mpr hcompleteSorted),
    bind_of_ok (require_eq_ok (u := ()).mpr hprunedSorted),
    bind_of_ok (require_eq_ok (u := ()).mpr hne),
    bind_of_ok (require_eq_ok (u := ()).mpr hnonneg),
    bind_of_ok (require_eq_ok (u := ()).mpr ⟨hpolicy.lower_le, hpolicy.failure_le_one⟩)]
  exact ⟨_, rfl, rfl, rfl⟩

/-- On a setting in which the best values of every root action are worth something, the lazy solver
finds the first policy, unless a limit is exceeded. -/
theorem solveCoreLazy_yields (hvalid : validateInputs model threshold solverKind = .ok ())
    (hreturn : RootsReturn ids.toPlannerIds model threshold solverKind us roots)
    (limits : ResourceLimits) (phase : SearchPhase) :
    Yields IsResource (fun solved => Optimal ids.toPlannerIds threshold policies upper solved.core ∧
      solved.proof.phase = phase ∧ solved.proof.solverKind = solverKind)
      (solveCoreLazy ids model threshold solverKind limits phase) := by
  unfold solveCoreLazy
  rw [bind_of_ok hvalid, bind_of_ok (planner_eq_ok.mpr h.units_eq),
    bind_of_ok (planner_eq_ok.mpr h.roots_eq), bind_of_ok (planner_eq_ok.mpr h.upper_eq)]
  refine (search_yields hids.planner.assignmentId h.wellFormed h.listed h.reader_eq h.sound h.states
    h.isRoot hreturn).bind fun s hs => ?_
  obtain ⟨P, hP, hoptimal⟩ := h.search_optimal hpolicies hreturn hs
  obtain ⟨proof, hproof, hphase, hkind⟩ := freeze_returns hids h hpolicies hs hoptimal.mem
    (Option.isSome_iff_exists.mpr ⟨P, hP⟩)
  rw [bind_of_ok (orRaise_eq_ok.mpr hP)]
  exact Yields.of_ok (bind_of_ok hproof) ⟨hoptimal, hphase, hkind⟩

end Setting

theorem solveCoreLazy_optimal (hids : ids.Distinct) (hmodel : WellFormed ids.toPlannerIds model)
    {limits : ResourceLimits} {phase : SearchPhase} {solved : LazyCore}
    (h : solveCoreLazy ids model threshold solverKind limits phase = .ok solved) :
    ∃ reader us roots upper policies,
      Setting ids.toPlannerIds model threshold solverKind reader us roots upper ∧
      reader.policies ids.toPlannerIds = .ok policies ∧
      RootsReturn ids.toPlannerIds model threshold solverKind us roots ∧
      Optimal ids.toPlannerIds threshold policies upper solved.core := by
  have hrun := h
  obtain ⟨_, hvalid, h⟩ := bind_eq_ok.mp h
  obtain ⟨us, hunits, h⟩ := bind_eq_ok.mp h
  obtain ⟨roots, hroots, h⟩ := bind_eq_ok.mp h
  obtain ⟨upper, hupper, h⟩ := bind_eq_ok.mp h
  obtain ⟨s, hs, -⟩ := bind_eq_ok.mp h
  have hunits := planner_eq_ok.mp hunits
  have hroots := planner_eq_ok.mp hroots
  obtain ⟨reader, hreader⟩ := exists_solverReader hunits hroots
  have hsetting : Setting ids.toPlannerIds model threshold solverKind reader us roots upper :=
    ⟨hids.planner, hmodel, hreader, hunits, hroots, planner_eq_ok.mp hupper⟩
  have hreturn := rootsReturn_of_search hs
  obtain ⟨policies, hpolicies⟩ := hsetting.policies_of_rootsReturn hreturn
  exact ⟨reader, us, roots, upper, policies, hsetting, hpolicies, hreturn,
    ((hsetting.solveCoreLazy_yields hids hpolicies hvalid hreturn limits phase).post hrun).1⟩

/-- Only a computation that returns leads to an audit. -/
theorem orExhausted_eq_solved {α : Type} {phase : SearchPhase} {x : Except LazyError α}
    {f : α → Except LazyError LazySolveResult} {audit : RobustPlanAudit} {trace : SearchTrace}
    (h : orExhausted phase x f = .ok (.solved audit trace)) :
    ∃ a, x = .ok a ∧ f a = .ok (.solved audit trace) := by
  cases x with
  | ok a => exact ⟨a, rfl, h⟩
  | error e =>
    cases e with
    | resource code observed limit counters =>
      obtain ⟨exhaustion, -, heq⟩ := map_eq_ok.mp h
      cases heq
    | planner error => cases h
    | violation message => cases h
    | valueError message => cases h

theorem solveExactLazy_spec {limits : ResourceLimits} {audit : RobustPlanAudit}
    {trace : SearchTrace} (h : solveExactLazyRobustH2 ids model threshold solverKind limits =
      .ok (.solved audit trace)) :
    ∃ solved counterfactual,
      solveCoreLazy ids model threshold solverKind limits .original = .ok solved ∧
      counterfactualAndTrace ids model threshold solverKind limits solved.core =
        .ok counterfactual ∧
      auditFromCore ids.toPlannerIds model threshold solverKind solved.core counterfactual.1 =
        .ok audit := by
  obtain ⟨_, -, h⟩ := bind_eq_ok.mp h
  obtain ⟨solved, hsolved, h⟩ := orExhausted_eq_solved h
  obtain ⟨counterfactual, hcounterfactual, h⟩ := orExhausted_eq_solved h
  obtain ⟨audit', haudit, h⟩ := bind_eq_ok.mp h
  obtain ⟨trace', -, h⟩ := bind_eq_ok.mp h
  have hsame := Except.ok.inj h
  rw [LazySolveResult.solved.injEq] at hsame
  exact ⟨solved, counterfactual, hsolved, hcounterfactual, hsame.1 ▸ planner_eq_ok.mp haudit⟩

end Acfqp.Robust
