import Acfqp.Robust.Optimism

/-!
# Branch and bound over the decisions

A visit of a node either exceeds a limit, or leaves the first policy among what was seen before and
the completions of the node as the incumbent. It records the nodes that it completes and prunes,
each once.
-/

namespace Acfqp.Robust

open Library PartialSupportIntervalModel

variable {ids : PlannerIds} {model : PartialSupportIntervalModel}
  {threshold : RobustThresholdProfile} {solverKind : RobustSolverKind} {reader : PolicyReader}
  {scope : PolicyScope}

section Keys

variable {us : List DecisionUnit} {D : List DecisionChoice} {root : RootChoice}

def assignmentIds (ids : PlannerIds) (root : RootChoice) (D : List DecisionChoice) : List String :=
  (root.assignment :: D.map DecisionChoice.assignment).map ids.assignmentId

theorem completePolicy_spec {P : PolicyEvaluation}
    (h : completePolicy ids model threshold solverKind root D = .ok P) :
    P.policyKey ids = sortBy id (assignmentIds ids root D) ∧
      ∃ value, evaluateRoot ids model threshold solverKind root
        (Dict.ofPairs (D.flatMap DecisionChoice.stateValues)) = .ok value ∧
        P.rewardLower = value.rewardLower ∧ P.rewardUpper = value.rewardUpper ∧
        P.failureUpper = value.failureUpper := by
  obtain ⟨value, hvalue, hP⟩ := bind_eq_ok.mp h
  obtain rfl := Except.ok.inj hP
  have hkey : (sortBy ids.assignmentId (root.assignment :: D.map DecisionChoice.assignment)).map
      ids.assignmentId = sortBy id (assignmentIds ids root D) :=
    @map_sortBy _ _ _ _ _ id ids.assignmentId (fun _ => rfl) _
  exact ⟨hkey, value, hvalue, rfl, rfl, rfl⟩

/-- Different decisions have different assignments. -/
theorem choiceIds_nodup (hids : Function.Injective ids.assignmentId)
    (hsound : SoundUnits threshold scope us) (hD : Selects D us) :
    (D.map fun choice => ids.assignmentId choice.assignment).Nodup := by
  have hus : us.Nodup := hsound.keys_nodup.of_map _
  have hboth := (List.forall₂_and_left _ _).mpr
    ⟨fun _ hmem => hmem, (hD.flip : List.Forall₂ (fun unit choice => _) us D)⟩
  refine Yields.nodup_of_forall₂ hboth hus fun unit hunit unit' hunit' choice choice' h h' heq => ?_
  have hassignment := hids heq
  rw [(hsound.sound unit h.1 choice h.2).assignment,
    (hsound.sound unit' h'.1 choice' h'.2).assignment] at hassignment
  exact List.inj_on_of_nodup_map hsound.keys_nodup hunit hunit'
    (congrArg RobustPolicyAssignment.scopeKey hassignment)

theorem choiceIds_of_unit (hids : Function.Injective ids.assignmentId) {unit : DecisionUnit}
    (hsound : ∀ choice ∈ unit.choices, SoundChoice threshold scope unit choice)
    (hactions : (unit.choices.map DecisionChoice.actionKey).Nodup) :
    ((orderedChoices ids unit).map fun choice => ids.assignmentId choice.assignment).Nodup := by
  refine nodup_map_sortBy ((hactions.of_map _).map_on fun choice hchoice choice' hchoice' heq => ?_)
  have hassignment := hids heq
  rw [(hsound choice hchoice).assignment, (hsound choice' hchoice').assignment] at hassignment
  exact List.inj_on_of_nodup_map hactions hchoice hchoice'
    (congrArg RobustPolicyAssignment.selectedActionKey hassignment)

theorem assignmentIds_nodup (hids : Function.Injective ids.assignmentId)
    (hsound : SoundUnits threshold scope us) (hD : Selects D us)
    (hroot : root.assignment.remainingHorizon = 2) : (assignmentIds ids root D).Nodup := by
  have hchoices := choiceIds_nodup hids hsound hD
  rw [assignmentIds, List.map_cons, List.map_map, List.nodup_cons]
  refine ⟨fun hmem => ?_, hchoices⟩
  obtain ⟨choice, hchoice, heq⟩ := List.mem_map.mp hmem
  obtain ⟨unit, hunit, hmem⟩ := exists_mem_of_forall₂ hD hchoice
  have hassignment := hids heq
  rw [(hsound.sound unit hunit choice hmem).assignment] at hassignment
  rw [← hassignment] at hroot
  cases hroot

theorem sortBy_id_sorted {l : List String} (h : l.Nodup) : (sortBy id l).Pairwise (· < ·) :=
  pairwise_lt_sortBy (by simpa using h)

theorem lexicographicDefault_spec {unit : DecisionUnit} (hne : unit.choices ≠ []) :
    ∃ choice ∈ unit.choices, unit.lexicographicDefault ids = .ok choice ∧
      ∀ choice' ∈ unit.choices,
        ids.assignmentId choice.assignment ≤ ids.assignmentId choice'.assignment := by
  obtain ⟨choice, hmem, hmin⟩ := exists_argmin (fun item : DecisionChoice =>
    ids.assignmentId item.assignment) hne
  refine ⟨choice, hmem, orRaise_eq_ok.mpr hmin, fun choice' hchoice' => ?_⟩
  have hle := List.le_of_mem_argmin hchoice' hmin
  exact hle

/-- Defaults select the least assignments. -/
structure Defaults (ids : PlannerIds) (defaults : List DecisionChoice) (us : List DecisionUnit) :
    Prop where
  selects : Selects defaults us
  least : ∀ D, Selects D us → List.Forall₂ (fun d choice : DecisionChoice =>
    ids.assignmentId d.assignment ≤ ids.assignmentId choice.assignment) defaults D

theorem defaults_returns (hne : ∀ unit ∈ us, unit.choices ≠ []) :
    ∃ defaults, us.mapM (DecisionUnit.lexicographicDefault ids) = .ok defaults ∧
      Defaults ids defaults us := by
  obtain ⟨defaults, hdefaults, hforall⟩ := exists_mapM (f := DecisionUnit.lexicographicDefault ids)
    (R := fun unit choice => choice ∈ unit.choices ∧ ∀ choice' ∈ unit.choices,
      ids.assignmentId choice.assignment ≤ ids.assignmentId choice'.assignment) (l := us)
    fun unit hunit => by
      obtain ⟨choice, hmem, hdefault, hleast⟩ := lexicographicDefault_spec (hne unit hunit)
      exact ⟨choice, hdefault, hmem, hleast⟩
  exact ⟨defaults, hdefaults, hforall.flip.imp fun _ _ h => h.1, fun D hD =>
    related_of_forall₂ (hforall.imp fun _ _ h => h.2) hD.flip⟩

/-- A selection of pointwise lesser assignments has no later key. -/
theorem key_not_lt {D' : List DecisionChoice} (h : List.Forall₂ (fun d choice : DecisionChoice =>
      ids.assignmentId d.assignment ≤ ids.assignmentId choice.assignment) D D') :
    ¬ sortBy id (assignmentIds ids root D') < sortBy id (assignmentIds ids root D) := by
  refine not_lt_of_forall₂ (forall₂_sortBy ?_)
  rw [assignmentIds, assignmentIds, List.map_cons, List.map_cons, List.map_map, List.map_map]
  refine .cons le_rfl ?_
  rw [List.forall₂_map_left_iff, List.forall₂_map_right_iff]
  exact h

end Keys

/-! ## What a visit leaves behind -/

/-- A limit is exceeded. -/
def IsResource (e : LazyError) : Prop :=
  ∃ code observed limit counters, e = .resource code observed limit counters ∧
    limit < observed ∧ 0 < limit

theorem ResourceLimits.limit_pos (limits : ResourceLimits) (code : ResourceCode) :
    0 < limits.limit code := by
  cases code with
  | maxBranchNodes => exact limits.branchNodes_pos
  | maxCompletePolicies => exact limits.completePolicies_pos
  | maxRootBoundEvaluations => exact limits.rootBoundEvaluations_pos

def SearchNode.selectedIds (ids : PlannerIds) (node : SearchNode) : List String :=
  node.selected.map fun choice => ids.assignmentId choice.assignment

section Visit

variable (ids : PlannerIds) (model : PartialSupportIntervalModel)
  (threshold : RobustThresholdProfile) (solverKind : RobustSolverKind) (search : RootSearch)

def completions (selected : List DecisionChoice) (unresolved : List DecisionUnit) :
    Set PolicyEvaluation :=
  {P | ∃ D, Selects D unresolved ∧ completePolicy ids model threshold solverKind search.root
    (selected ++ D ++ search.irrelevant) = .ok P}

/-- A completed node of the search, with its policy. -/
structure CompleteSound (w : RawCompleteWitness) : Prop where
  node : w.node = search.node w.node.selected
  selects : Selects w.node.selected search.orderedUnits
  evaluation : completePolicy ids model threshold solverKind search.root
    (w.node.selected ++ search.irrelevant) = .ok w.evaluation

/-- A pruned node of the search, with bounds that its witness accepts. -/
structure PrunedSound (w : RawPrunedWitness) : Prop where
  node : w.node = search.node w.node.selected
  selects : ∃ done rest, search.orderedUnits = done ++ rest ∧ Selects w.node.selected done
  reward_nonneg : 0 ≤ w.bounds.rewardLowerUpperBound
  failure_nonneg : 0 ≤ w.bounds.failureLowerBound
  failure_le_one : w.bounds.failureLowerBound ≤ 1
  key_sorted : w.bounds.minimumPolicyKey.Pairwise (· < ·)

/-- The incumbent takes the policies below the branches into account, and each node is recorded
once. -/
structure Visited (unrestrictedRewardUpper : ℚ) (branches : List (List String))
    (below : Set PolicyEvaluation) (s s' : SearchState) : Prop where
  best : ∀ seen, Best (policyOrderKey ids threshold unrestrictedRewardUpper) seen s.incumbent →
    Best (policyOrderKey ids threshold unrestrictedRewardUpper) (seen ∪ below) s'.incumbent
  complete : Grows (fun w => w.node.selectedIds ids)
    (CompleteSound ids model threshold solverKind search) branches s.rawComplete s'.rawComplete
  pruned : Grows (fun w => w.node.selectedIds ids) (PrunedSound search) branches s.rawPruned
    s'.rawPruned
  found : (s.incumbent.isSome → s.rawComplete ≠ []) → s'.incumbent.isSome → s'.rawComplete ≠ []

end Visit

section Steps

variable {search : RootSearch} {unrestrictedRewardUpper : ℚ} {branches : List (List String)}
  {branch : List String} {below below' : Set PolicyEvaluation} {s s' s'' : SearchState}

theorem Visited.refl : Visited ids model threshold solverKind search unrestrictedRewardUpper [] ∅ s
    s where
  best seen h := by rwa [Set.union_empty]
  complete := .refl _
  pruned := .refl _
  found h := h

/-- One branch after the others. -/
theorem Visited.append
    (h : Visited ids model threshold solverKind search unrestrictedRewardUpper branches below s s')
    (h' : Visited ids model threshold solverKind search unrestrictedRewardUpper [branch] below'
      s' s'')
    (hlength : ∀ b ∈ branches, b.length = branch.length) (hne : branch ∉ branches) :
    Visited ids model threshold solverKind search unrestrictedRewardUpper (branches ++ [branch])
      (below ∪ below') s s'' where
  best seen hbest := by
    rw [← Set.union_assoc]
    exact h'.best _ (h.best seen hbest)
  complete := h.complete.append h'.complete hlength hne
  pruned := h.pruned.append h'.pruned hlength hne
  found hfound := h'.found (h.found hfound)

theorem Visited.stem
    (h : Visited ids model threshold solverKind search unrestrictedRewardUpper branches below s s')
    (hstem : ∀ b ∈ branches, branch <+: b) (heq : below = below') :
    Visited ids model threshold solverKind search unrestrictedRewardUpper [branch] below' s s' :=
  heq ▸ ⟨h.best, h.complete.stem hstem, h.pruned.stem hstem, h.found⟩

/-- Counting work leaves the incumbent and the records alone. -/
theorem bump_yields {limits : ResourceLimits} {code : ResourceCode} :
    Yields IsResource (fun s' => s'.incumbent = s.incumbent ∧ s'.rawComplete = s.rawComplete ∧
      s'.rawPruned = s.rawPruned) (bump limits code s) := by
  by_cases hwithin : (s.counters.bump code).value code ≤ limits.limit code
  · exact Yields.of_ok (bind_of_ok (require_eq_ok (u := ()).mpr hwithin)) ⟨rfl, rfl, rfl⟩
  · have hraise : bump limits code s = .error (.resource code ((s.counters.bump code).value code)
        (limits.limit code) (s.counters.bump code)) := by
      simp only [bump, require, if_neg hwithin]
      rfl
    rw [hraise]
    exact ⟨_, _, _, _, rfl, lt_of_not_ge hwithin, limits.limit_pos code⟩

theorem Visited.congr {t : SearchState}
    (h : Visited ids model threshold solverKind search unrestrictedRewardUpper branches below t s')
    (ht : t.incumbent = s.incumbent ∧ t.rawComplete = s.rawComplete ∧ t.rawPruned = s.rawPruned) :
    Visited ids model threshold solverKind search unrestrictedRewardUpper branches below s s' := by
  obtain ⟨hincumbent, hcomplete, hpruned⟩ := ht
  exact ⟨hincumbent ▸ h.best, hcomplete ▸ h.complete, hpruned ▸ h.pruned,
    hincumbent ▸ hcomplete ▸ h.found⟩

theorem completions_nil {selected : List DecisionChoice} {P : PolicyEvaluation}
    (hP : completePolicy ids model threshold solverKind search.root
      (selected ++ search.irrelevant) = .ok P) :
    completions ids model threshold solverKind search selected [] = {P} := by
  ext Q
  constructor
  · rintro ⟨D, hD, hQ⟩
    obtain rfl := List.forall₂_nil_right_iff.mp hD
    rw [List.append_nil, hP] at hQ
    exact (Except.ok.inj hQ).symm
  · rintro rfl
    exact ⟨[], .nil, by rwa [List.append_nil]⟩

/-- A pruned node has no policy before the incumbent. -/
theorem Visited.prune {selected : List DecisionChoice} {bounds : CompletionBounds}
    (hsound : PrunedSound search ⟨search.node selected, bounds⟩)
    (hprune : canPrune ids threshold unrestrictedRewardUpper s.incumbent bounds = true)
    (hwithin : ∀ P ∈ below, Within ids bounds P) :
    Visited ids model threshold solverKind search unrestrictedRewardUpper
      [(search.node selected).selectedIds ids] below s
      (s.prune (search.node selected) bounds) where
  best _ hseen := hseen.prune fun P hP => canPrune_le hprune (hwithin P hP)
  complete := .refl _
  pruned := .concat hsound (List.prefix_refl _)
  found hfound := hfound

theorem Visited.complete_leaf {selected : List DecisionChoice} {candidate : PolicyEvaluation}
    (hsound : CompleteSound ids model threshold solverKind search
      ⟨search.node selected, candidate⟩) :
    Visited ids model threshold solverKind search unrestrictedRewardUpper
      [(search.node selected).selectedIds ids] {candidate} s
      (s.complete ids threshold unrestrictedRewardUpper (search.node selected) candidate) where
  best _ hseen := by
    rw [Set.union_singleton]
    exact hseen.keep candidate
  complete := .concat hsound (List.prefix_refl _)
  pruned := .refl _
  found _ _ := by simp [SearchState.complete]

end Steps

/-! ## One visit -/

section

variable {search : RootSearch} {unrestrictedRewardUpper : ℚ} {others done : List DecisionUnit}
  {limits : ResourceLimits}

/-- What a visit goes on with at a node that is not pruned. -/
def expand (ids : PlannerIds) (model : PartialSupportIntervalModel)
    (threshold : RobustThresholdProfile) (solverKind : RobustSolverKind) (limits : ResourceLimits)
    (unrestrictedRewardUpper : ℚ) (search : RootSearch) :
    List DecisionUnit → List DecisionChoice → SearchState → Except LazyError SearchState
  | [], selected, s => do
    let s ← bump limits .maxCompletePolicies s
    let candidate ← planner (completePolicy ids model threshold solverKind search.root
      (selected ++ search.irrelevant))
    .ok (s.complete ids threshold unrestrictedRewardUpper (search.node selected) candidate)
  | unit :: rest, selected, s => (orderedChoices ids unit).foldlM (fun s choice =>
      visit ids model threshold solverKind limits unrestrictedRewardUpper search rest
        (selected ++ [choice]) s) s

theorem visit_eq (unresolved : List DecisionUnit) (selected : List DecisionChoice)
    (s : SearchState) : visit ids model threshold solverKind limits unrestrictedRewardUpper search
      unresolved selected s = (do
    let s ← bump limits .maxBranchNodes s
    let optimisticValues ← optimisticChildValues search.orderedUnits selected unresolved
      search.irrelevant
    let s ← bump limits .maxRootBoundEvaluations s
    let optimisticRoot ← planner (evaluateRoot ids model threshold solverKind search.root
      optimisticValues)
    let bounds ← completionBounds ids search selected unresolved optimisticRoot
    if canPrune ids threshold unrestrictedRewardUpper s.incumbent bounds then
      .ok (s.prune (search.node selected) bounds)
    else
      expand ids model threshold solverKind limits unrestrictedRewardUpper search unresolved
        selected s) := by
  cases unresolved <;> rfl

variable (hids : Function.Injective ids.assignmentId)
  (h : SoundSearch model threshold solverKind reader others search)
include hids h

theorem minimumKey_spec {unresolved : List DecisionUnit} {selected : List DecisionChoice}
    (hordered : search.orderedUnits = done ++ unresolved) (hselected : Selects selected done) :
    ∃ key, minimumCompletionPolicyKey ids search.root selected unresolved search.irrelevant =
        .ok key ∧ key.Pairwise (· < ·) ∧
      ∀ P ∈ completions ids model threshold solverKind search selected unresolved,
        ¬ P.policyKey ids < key := by
  obtain ⟨action, hroot⟩ := h.root
  have hunits := hordered ▸ h.units
  obtain ⟨defaults, hdefaults, hspec⟩ := @defaults_returns ids _
    hunits.append_left.append_right.choices_ne_nil
  have hall : Selects (selected ++ defaults ++ search.irrelevant) (done ++ unresolved ++ others) :=
    List.rel_append (List.rel_append hselected hspec.selects) h.irrelevant
  refine ⟨_, bind_of_ok hdefaults, sortBy_id_sorted (assignmentIds_nodup hids hunits hall
    (by rw [hroot.assignment])), ?_⟩
  rintro P ⟨D, hD, hP⟩
  have hrefl (l : List DecisionChoice) : List.Forall₂ (fun d choice : DecisionChoice =>
      ids.assignmentId d.assignment ≤ ids.assignmentId choice.assignment) l l :=
    List.forall₂_same.mpr fun _ _ => le_rfl
  rw [(completePolicy_spec hP).1]
  exact key_not_lt (List.rel_append (List.rel_append (hrefl selected) (hspec.least D hD))
    (hrefl search.irrelevant))

variable (hmodel : WellFormed ids model) (hlisted : ActiveListed model)
  {values₀ : ChildValues} {value₀ : StateActionEvaluation}
  (htop : optimisticChildValues search.orderedUnits [] search.orderedUnits search.irrelevant =
    .ok values₀)
  (hvalue₀ : evaluateRoot ids model threshold solverKind search.root values₀ = .ok value₀)
include hmodel hlisted htop hvalue₀

/-- A visit prunes its node soundly, or expands it. -/
theorem visit_step {unresolved : List DecisionUnit} {selected : List DecisionChoice}
    (hordered : search.orderedUnits = done ++ unresolved) (hselected : Selects selected done)
    (hexpand : ∀ s, Yields IsResource (Visited ids model threshold solverKind search
      unrestrictedRewardUpper [(search.node selected).selectedIds ids]
      (completions ids model threshold solverKind search selected unresolved) s)
      (expand ids model threshold solverKind limits unrestrictedRewardUpper search unresolved
        selected s)) (s : SearchState) :
    Yields IsResource (Visited ids model threshold solverKind search unrestrictedRewardUpper
      [(search.node selected).selectedIds ids]
      (completions ids model threshold solverKind search selected unresolved) s)
      (visit ids model threshold solverKind limits unrestrictedRewardUpper search unresolved
        selected s) := by
  obtain ⟨values, value, hvalues, hvalue, hbounded, hbest⟩ :=
    node_spec h hordered hselected hmodel hlisted htop hvalue₀
  obtain ⟨key, hkey, hsorted, hleast⟩ := minimumKey_spec hids h hordered hselected
  have hbounds : completionBounds ids search selected unresolved value =
      .ok ⟨value.rewardLower, value.failureUpper, key⟩ := bind_of_ok hkey
  have hplanner : planner (evaluateRoot ids model threshold solverKind search.root values) =
      .ok value := by rw [hvalue]; rfl
  rw [visit_eq]
  refine bump_yields.bind fun s₁ hs₁ => ?_
  rw [bind_of_ok hvalues]
  refine bump_yields.bind fun s₂ hs₂ => ?_
  have hs : s₂.incumbent = s.incumbent ∧ s₂.rawComplete = s.rawComplete ∧
      s₂.rawPruned = s.rawPruned :=
    ⟨hs₂.1.trans hs₁.1, hs₂.2.1.trans hs₁.2.1, hs₂.2.2.trans hs₁.2.2⟩
  rw [bind_of_ok hplanner, bind_of_ok hbounds]
  split
  · rename_i hprune
    refine Yields.of_ok rfl ((Visited.prune ⟨rfl, ⟨done, unresolved, hordered, hselected⟩,
      hbounded.lower_nonneg, hbounded.failure_nonneg, hbounded.failure_le_one, hsorted⟩ hprune
      fun P hP => ?_).congr hs)
    obtain ⟨D, hD, hcomplete⟩ := hP
    obtain ⟨P', hP', hlower, hfailure⟩ := hbest D hD
    obtain rfl := Except.ok.inj (hP'.symm.trans hcomplete)
    exact ⟨hlower, hfailure, hleast P' ⟨D, hD, hcomplete⟩⟩
  · exact (hexpand s₂).mono fun s' hs' => hs'.congr hs

theorem visit_yields (unresolved : List DecisionUnit) : ∀ (done : List DecisionUnit)
    (selected : List DecisionChoice), search.orderedUnits = done ++ unresolved →
    Selects selected done → ∀ s, Yields IsResource
      (Visited ids model threshold solverKind search unrestrictedRewardUpper
        [(search.node selected).selectedIds ids]
        (completions ids model threshold solverKind search selected unresolved) s)
      (visit ids model threshold solverKind limits unrestrictedRewardUpper search unresolved
        selected s) := by
  induction unresolved with
  | nil =>
    intro done selected hordered hselected s
    refine visit_step hids h hmodel hlisted htop hvalue₀ hordered hselected (fun s => ?_) s
    obtain ⟨_, _, -, -, -, hbest⟩ := node_spec h hordered hselected hmodel hlisted htop hvalue₀
    obtain ⟨P, hP, -⟩ := hbest [] .nil
    rw [List.append_nil] at hP
    have hplanner : planner (completePolicy ids model threshold solverKind search.root
        (selected ++ search.irrelevant)) = .ok P := by rw [hP]; rfl
    rw [completions_nil hP]
    refine bump_yields.bind fun s₁ hs₁ => ?_
    rw [bind_of_ok hplanner]
    exact Yields.of_ok rfl ((Visited.complete_leaf
      ⟨rfl, by rwa [hordered, List.append_nil], hP⟩).congr hs₁)
  | cons unit rest ih =>
    intro done selected hordered hselected s
    refine visit_step hids h hmodel hlisted htop hvalue₀ hordered hselected (fun s => ?_) s
    have hunit : unit ∈ search.orderedUnits ++ others := by simp [hordered]
    have hpath (choice : DecisionChoice) : (search.node (selected ++ [choice])).selectedIds ids =
        (search.node selected).selectedIds ids ++ [ids.assignmentId choice.assignment] := by
      simp [RootSearch.node, SearchNode.selectedIds]
    -- The choices that were visited so far account for their completions.
    have hloop : Yields IsResource (fun s' => Visited ids model threshold solverKind search
        unrestrictedRewardUpper ((orderedChoices ids unit).map fun choice =>
          (search.node (selected ++ [choice])).selectedIds ids)
        {P | ∃ choice ∈ orderedChoices ids unit,
          P ∈ completions ids model threshold solverKind search (selected ++ [choice]) rest} s s')
        (expand ids model threshold solverKind limits unrestrictedRewardUpper search (unit :: rest)
          selected s) := by
      refine Yields.foldlM (I := fun visited s' => Visited ids model threshold solverKind search
        unrestrictedRewardUpper (visited.map fun choice =>
          (search.node (selected ++ [choice])).selectedIds ids)
        {P | ∃ choice ∈ visited,
          P ∈ completions ids model threshold solverKind search (selected ++ [choice]) rest} s s')
        ?_ fun visited choice others' s' hlist hvisited => ?_
      · simpa using Visited.refl
      · have hmem : choice ∈ unit.choices :=
          mem_sortBy.mp (hlist ▸ by simp : choice ∈ orderedChoices ids unit)
        refine (ih (done ++ [unit]) (selected ++ [choice]) (by simp [hordered])
          (List.rel_append hselected (.cons hmem .nil)) s').mono fun s'' hs'' => ?_
        have hfresh : (search.node (selected ++ [choice])).selectedIds ids ∉
            visited.map fun choice => (search.node (selected ++ [choice])).selectedIds ids := by
          intro hold
          obtain ⟨old, hold, heq⟩ := List.mem_map.mp hold
          rw [hpath, hpath] at heq
          have hids := (choiceIds_of_unit hids (h.units.sound unit hunit)
            (h.units.actions_nodup unit hunit))
          rw [hlist, List.map_append, List.map_cons, List.nodup_append] at hids
          exact hids.2.2 _ (List.mem_map_of_mem hold) _ List.mem_cons_self
            (List.cons.inj (List.append_cancel_left heq)).1
        have hlength : ∀ b ∈ visited.map fun choice =>
            (search.node (selected ++ [choice])).selectedIds ids, b.length =
              ((search.node (selected ++ [choice])).selectedIds ids).length := by
          simp [hpath]
        have hset : {P | ∃ c ∈ visited ++ [choice],
            P ∈ completions ids model threshold solverKind search (selected ++ [c]) rest} =
            {P | ∃ c ∈ visited,
              P ∈ completions ids model threshold solverKind search (selected ++ [c]) rest} ∪
              completions ids model threshold solverKind search (selected ++ [choice]) rest := by
          ext P
          simp [or_and_right, exists_or]
        rw [List.map_append, List.map_singleton, hset]
        exact hvisited.append hs'' hlength hfresh
    refine hloop.mono fun s' hs' => hs'.stem (fun b hb => ?_) ?_
    · obtain ⟨choice, -, rfl⟩ := List.mem_map.mp hb
      rw [hpath]
      exact List.prefix_append _ _
    · ext P
      constructor
      · rintro ⟨choice, hchoice, D, hD, hP⟩
        exact ⟨choice :: D, .cons (mem_sortBy.mp hchoice) hD, by simpa using hP⟩
      · rintro ⟨D, hD, hP⟩
        cases hD with
        | @cons choice _ D _ hmem hrest =>
          exact ⟨choice, mem_sortBy.mpr hmem, D, hrest, by simpa using hP⟩

end

end Acfqp.Robust

/-!
## The search over all root actions

Below a root action the decisions that it cannot reach take their least assignments. This does not
change what the policies are worth, and the other choices have later keys. So the searches of all
root actions together find the first of all policies.
-/

namespace Acfqp.Robust

open Library PartialSupportIntervalModel

variable {ids : PlannerIds} {model : PartialSupportIntervalModel}
  {threshold : RobustThresholdProfile} {solverKind : RobustSolverKind} {reader : PolicyReader}
  {scope : PolicyScope} {us : List DecisionUnit}

/-! ## The search of a root action -/

def RootChoice.reaches (root : RootChoice) (unit : DecisionUnit) : Bool :=
  unit.stateIds.any (· ∈ root.relevantStateIds)

theorem SoundUnits.perm {us' : List DecisionUnit} (h : SoundUnits threshold scope us)
    (hperm : us.Perm us') : SoundUnits threshold scope us' where
  keys_nodup := (hperm.map _).nodup_iff.mp h.keys_nodup
  states_nodup := (hperm.flatMap_right _).nodup_iff.mp h.states_nodup
  choices_ne_nil unit hunit := h.choices_ne_nil unit (hperm.mem_iff.mpr hunit)
  actions_nodup unit hunit := h.actions_nodup unit (hperm.mem_iff.mpr hunit)
  sound unit hunit := h.sound unit (hperm.mem_iff.mpr hunit)

/-- The decisions below a root action, apart from the ones that it cannot reach. -/
structure RootSearched (ids : PlannerIds) (model : PartialSupportIntervalModel)
    (threshold : RobustThresholdProfile) (solverKind : RobustSolverKind) (reader : PolicyReader)
    (us : List DecisionUnit) (root : RootChoice) (others : List DecisionUnit)
    (search : RootSearch) : Prop where
  root_eq : search.root = root
  sound : SoundSearch model threshold solverKind reader others search
  defaults : Defaults ids search.irrelevant others
  perm : us.Perm (search.orderedUnits ++ others)
  unreached : ∀ unit ∈ others, ∀ stateId ∈ unit.stateIds, stateId ∉ root.relevantStateIds

theorem rootSearch_spec (hsound : SoundUnits threshold reader.scope us)
    (hstates : ∀ stateId, stateId ∈ us.flatMap DecisionUnit.stateIds ↔ Reached model stateId)
    {action : String} {root : RootChoice}
    (hroot : IsRootChoice model solverKind reader action root) :
    ∃ search others, rootSearch ids us root = .ok search ∧
      RootSearched ids model threshold solverKind reader us root others search := by
  obtain ⟨defaults, hdefaults, hspec⟩ := @defaults_returns ids
    (us.filter fun unit => ¬ root.reaches unit) fun unit hunit =>
      hsound.choices_ne_nil unit (List.mem_filter.mp hunit).1
  have hperm : us.Perm (sortBy (fun unit : DecisionUnit =>
      (toLex (-(unit.stateIds.length : ℤ), unit.scopeKey) : ℤ ×ₗ String))
        (us.filter root.reaches) ++ us.filter fun unit => ¬ root.reaches unit) := by
    have hsplit := List.filter_append_perm root.reaches us
    simp only [decide_not, Bool.decide_eq_true]
    exact (hsplit.symm.trans ((perm_sortBy _ _).symm.append_right _))
  refine ⟨_, _, bind_of_ok hdefaults, rfl,
    ⟨hsound.perm hperm, hspec.selects, fun stateId hreached => ?_,
    action, hroot⟩, hspec, hperm, fun unit hunit stateId hstate hrelevant => ?_⟩
  · exact (hperm.flatMap_right _).mem_iff.mp ((hstates stateId).mpr hreached)
  · have hreaches := of_decide_eq_true (List.mem_filter.mp hunit).2
    exact hreaches (List.any_eq_true.mpr ⟨stateId, hstate, decide_eq_true hrelevant⟩)

/-- A selection along a rearrangement of the decisions. -/
theorem Selects.reorder {D : List DecisionChoice} {ordered others : List DecisionUnit}
    (h : Selects D us) (hperm : us.Perm (ordered ++ others)) :
    ∃ E I, D.Perm (E ++ I) ∧ Selects E ordered ∧ Selects I others := by
  obtain ⟨W, hW, hWD⟩ := List.perm_comp_forall₂ hperm.symm h.flip
  have htake := List.forall₂_take_append W ordered others hW.flip
  have hdrop := List.forall₂_drop_append W ordered others hW.flip
  exact ⟨_, _, by rw [List.take_append_drop]; exact hWD.symm, htake, hdrop⟩

section Root

variable {root : RootChoice} {others : List DecisionUnit} {search : RootSearch}
  (hmodel : WellFormed ids model) (hlisted : ActiveListed model)
  (hs : RootSearched ids model threshold solverKind reader us root others search)

/-- The root action is worth something when its states take the best values, each on its own. -/
def TopReturns (ids : PlannerIds) (model : PartialSupportIntervalModel)
    (threshold : RobustThresholdProfile) (solverKind : RobustSolverKind) (search : RootSearch) :
    Prop :=
  ∃ values value, optimisticChildValues search.orderedUnits [] search.orderedUnits
    search.irrelevant = .ok values ∧
      evaluateRoot ids model threshold solverKind search.root values = .ok value

variable (htop : TopReturns ids model threshold solverKind search)
include hmodel hlisted hs htop

/-- Any selection completes, and some completion below the root action comes no later. -/
theorem selection_le (unrestrictedRewardUpper : ℚ) {D : List DecisionChoice} (hD : Selects D us) :
    ∃ P, completePolicy ids model threshold solverKind root D = .ok P ∧
      ∃ Q ∈ completions ids model threshold solverKind search [] search.orderedUnits,
        policyOrderKey ids threshold unrestrictedRewardUpper Q ≤
          policyOrderKey ids threshold unrestrictedRewardUpper P := by
  obtain ⟨values, value, hvalues, hvalue⟩ := htop
  obtain ⟨E, I, hperm, hE, hI⟩ := hD.reorder hs.perm
  obtain ⟨action, hroot⟩ := hs.sound.root
  obtain ⟨rows, hrows, hrelevant⟩ := hroot.relevant
  obtain ⟨_, _, -, -, -, hbest⟩ := node_spec hs.sound (List.nil_append _).symm
    (.nil : Selects [] []) hmodel hlisted hvalues hvalue
  obtain ⟨Q, hQ, -⟩ := hbest E hE
  -- The same search with the other choices of the selection.
  have hsound' : SoundSearch model threshold solverKind reader others
      ⟨search.root, search.orderedUnits, I⟩ := ⟨hs.sound.units, hI, hs.sound.reached, hs.sound.root⟩
  obtain ⟨hkeysQ, hchildrenQ⟩ := completion_bounded hs.sound hE
  obtain ⟨hkeysP, hchildrenP⟩ := completion_bounded hsound' hE
  -- At the states that the root action reaches, the two selections have the same values.
  have hsame : ∀ s ∈ rows.flatMap model.reachableFrom,
      ((E ++ search.irrelevant).flatMap DecisionChoice.stateValues).lookup s =
        ((E ++ I).flatMap DecisionChoice.stateValues).lookup s := by
    intro s hmem
    have hnone : ∀ X, Selects X others →
        (X.flatMap DecisionChoice.stateValues).lookup s = none := by
      intro X hX
      rw [List.lookup_eq_none_iff]
      intro e he
      rw [bne_iff_ne]
      rintro rfl
      have hkey : e.1 ∈ (X.flatMap DecisionChoice.stateValues).map Prod.fst :=
        List.mem_map_of_mem he
      rw [hX.states hs.sound.units.append_right.sound] at hkey
      obtain ⟨unit, hunit, hstate⟩ := List.mem_flatMap.mp hkey
      refine hs.unreached unit hunit e.1 hstate ?_
      rw [← hs.root_eq, hrelevant]
      exact hmem
    rw [List.flatMap_append, List.flatMap_append, List.lookup_append, List.lookup_append,
      hnone _ hs.sound.irrelevant, hnone _ hI]
  have hnoWorse : NoWorse (rows.flatMap model.reachableFrom)
      ((E ++ I).flatMap DecisionChoice.stateValues)
      ((E ++ search.irrelevant).flatMap DecisionChoice.stateValues) := by
    intro s hmem v v' hv hv'
    rw [hsame s hmem, hv] at hv'
    obtain rfl := Option.some.inj hv'
    exact ⟨le_rfl, le_rfl⟩
  have hnoWorse' : NoWorse (rows.flatMap model.reachableFrom)
      ((E ++ search.irrelevant).flatMap DecisionChoice.stateValues)
      ((E ++ I).flatMap DecisionChoice.stateValues) := by
    intro s hmem v v' hv hv'
    rw [← hsame s hmem, hv] at hv'
    obtain rfl := Option.some.inj hv'
    exact ⟨le_rfl, le_rfl⟩
  obtain ⟨hkeyQ, vQ, hvQ, hrewardQ, -, hfailureQ⟩ := completePolicy_spec hQ
  rw [List.nil_append, Dict.ofPairs_of_nodup (hkeysQ ▸ hs.sound.units.states_nodup)] at hvQ
  obtain ⟨vP, hvP, hlower, hfailure⟩ := evaluateRoot_mono hmodel hlisted hrows hroot.actionKey
    hchildrenP hchildrenQ hnoWorse hvQ
  obtain ⟨vQ', hvQ', hlower', hfailure'⟩ := evaluateRoot_mono hmodel hlisted hrows hroot.actionKey
    hchildrenQ hchildrenP hnoWorse' hvP
  obtain rfl := Except.ok.inj (hvQ.symm.trans hvQ')
  have hnodupP : (((E ++ I).flatMap DecisionChoice.stateValues).map Prod.fst).Nodup :=
    hkeysP ▸ hs.sound.units.states_nodup
  have hpermValues := hperm.flatMap_right DecisionChoice.stateValues
  have hvD : evaluateRoot ids model threshold solverKind root
      (Dict.ofPairs (D.flatMap DecisionChoice.stateValues)) = .ok vP := by
    have hnodupD := ((hpermValues.map Prod.fst).nodup_iff).mpr hnodupP
    rw [Dict.ofPairs_of_nodup hnodupD,
      evaluateRoot_congr (lookup_of_perm hpermValues hnodupD) root, ← hs.root_eq]
    exact hvP
  obtain ⟨P, hP⟩ : ∃ P, completePolicy ids model threshold solverKind root D = .ok P :=
    ⟨_, bind_of_ok hvD⟩
  obtain ⟨hkeyP, vD, hvD', hrewardP, -, hfailureP⟩ := completePolicy_spec hP
  obtain rfl := Except.ok.inj (hvD.symm.trans hvD')
  have hsorted : sortBy id (assignmentIds ids root D) =
      sortBy id (assignmentIds ids root (E ++ I)) :=
    sortBy_eq_of_injective Function.injective_id
      (((hperm.map DecisionChoice.assignment).cons _).map ids.assignmentId)
  refine ⟨P, hP, Q, ⟨E, hE, hQ⟩, policyOrderKey_le_of_key
    ((hrewardQ.trans (le_antisymm hlower' hlower)).trans hrewardP.symm)
    ((hfailureQ.trans (le_antisymm hfailure hfailure')).trans hfailureP.symm) ?_⟩
  rw [hkeyP, hkeyQ, hsorted, hs.root_eq]
  have hrefl : List.Forall₂ (fun d choice : DecisionChoice =>
      ids.assignmentId d.assignment ≤ ids.assignmentId choice.assignment) E E :=
    List.forall₂_same.mpr fun _ _ => le_rfl
  exact key_not_lt (List.rel_append hrefl (hs.defaults.least I hI))

end Root

section Roots

variable {roots : List RootChoice} {unrestrictedRewardUpper : ℚ} {limits : ResourceLimits}

def SearchNode.path (ids : PlannerIds) (node : SearchNode) : List String :=
  ids.assignmentId node.root.assignment :: node.selectedIds ids

/-- A node that the search of some root action completed. -/
def CompleteRecord (ids : PlannerIds) (model : PartialSupportIntervalModel)
    (threshold : RobustThresholdProfile) (solverKind : RobustSolverKind) (reader : PolicyReader)
    (us : List DecisionUnit) (roots : List RootChoice) (w : RawCompleteWitness) : Prop :=
  ∃ root ∈ roots, ∃ others search,
    RootSearched ids model threshold solverKind reader us root others search ∧
      CompleteSound ids model threshold solverKind search w

/-- A node that the search of some root action pruned. -/
def PrunedRecord (ids : PlannerIds) (model : PartialSupportIntervalModel)
    (threshold : RobustThresholdProfile) (solverKind : RobustSolverKind) (reader : PolicyReader)
    (us : List DecisionUnit) (roots : List RootChoice) (w : RawPrunedWitness) : Prop :=
  ∃ root ∈ roots, ∃ others search,
    RootSearched ids model threshold solverKind reader us root others search ∧ PrunedSound search w

def searchedPolicies (ids : PlannerIds) (model : PartialSupportIntervalModel)
    (threshold : RobustThresholdProfile) (solverKind : RobustSolverKind) (us : List DecisionUnit)
    (roots : List RootChoice) : Set PolicyEvaluation :=
  {P | ∃ root ∈ roots, ∃ search, rootSearch ids us root = .ok search ∧
    P ∈ completions ids model threshold solverKind search [] search.orderedUnits}

/-- The incumbent is the first policy below the root actions, and every node is recorded once. -/
structure Searched (ids : PlannerIds) (model : PartialSupportIntervalModel)
    (threshold : RobustThresholdProfile) (solverKind : RobustSolverKind) (reader : PolicyReader)
    (us : List DecisionUnit) (unrestrictedRewardUpper : ℚ) (all roots : List RootChoice)
    (s : SearchState) : Prop where
  best : Best (policyOrderKey ids threshold unrestrictedRewardUpper)
    (searchedPolicies ids model threshold solverKind us roots) s.incumbent
  complete : Grows (fun w => w.node.path ids)
    (CompleteRecord ids model threshold solverKind reader us all)
    (roots.map fun root => [ids.assignmentId root.assignment]) [] s.rawComplete
  pruned : Grows (fun w => w.node.path ids)
    (PrunedRecord ids model threshold solverKind reader us all)
    (roots.map fun root => [ids.assignmentId root.assignment]) [] s.rawPruned
  found : s.incumbent.isSome → s.rawComplete ≠ []

def RootsReturn (ids : PlannerIds) (model : PartialSupportIntervalModel)
    (threshold : RobustThresholdProfile) (solverKind : RobustSolverKind) (us : List DecisionUnit)
    (roots : List RootChoice) : Prop :=
  ∀ root ∈ roots, ∀ search, rootSearch ids us root = .ok search →
    TopReturns ids model threshold solverKind search

theorem roots_nodup (hids : Function.Injective ids.assignmentId)
    (hreader : solverReader ids model threshold solverKind = .ok reader)
    (hroots : List.Forall₂ (IsRootChoice model solverKind reader) reader.rootActions roots) :
    (roots.map fun root => ids.assignmentId root.assignment).Nodup := by
  refine Yields.nodup_of_forall₂ hroots (solverReader_domains hreader).2.2
    fun action _ action' _ root root' h h' heq => ?_
  have hassignment := hids heq
  rw [h.assignment, h'.assignment] at hassignment
  exact congrArg RobustPolicyAssignment.selectedActionKey hassignment

variable (hids : Function.Injective ids.assignmentId) (hmodel : WellFormed ids model)
  (hlisted : ActiveListed model)
  (hreader : solverReader ids model threshold solverKind = .ok reader)
  (hsound : SoundUnits threshold reader.scope us)
  (hstates : ∀ stateId, stateId ∈ us.flatMap DecisionUnit.stateIds ↔ Reached model stateId)
  (hroots : List.Forall₂ (IsRootChoice model solverKind reader) reader.rootActions roots)
include hids hmodel hlisted hreader hsound hstates hroots

/-- The whole search finds the first policy, unless a limit is exceeded. -/
theorem search_yields (hreturn : RootsReturn ids model threshold solverKind us roots) :
    Yields IsResource (Searched ids model threshold solverKind reader us unrestrictedRewardUpper
      roots roots) (roots.foldlM (searchRoot ids model threshold solverKind limits
        unrestrictedRewardUpper us) .start) := by
  refine Yields.foldlM (I := Searched ids model threshold solverKind reader us
    unrestrictedRewardUpper roots) ⟨?_, .refl _, .refl _, by simp [SearchState.start]⟩
    fun visited root rest s hlist hvisited => ?_
  · have hempty : searchedPolicies ids model threshold solverKind us [] = ∅ := by
      simp [searchedPolicies]
    rw [hempty]
    exact Best.start
  · have hmem : root ∈ roots := hlist ▸ by simp
    obtain ⟨action, -, hroot⟩ := exists_mem_of_forall₂ hroots.flip hmem
    obtain ⟨search, others, hsearch, hspec⟩ := rootSearch_spec hsound hstates hroot
    obtain ⟨values, value, hvalues, hvalue⟩ := hreturn root hmem search hsearch
    have hrun : searchRoot ids model threshold solverKind limits unrestrictedRewardUpper us s root =
        visit ids model threshold solverKind limits unrestrictedRewardUpper search
          search.orderedUnits [] _ := bind_of_ok hsearch
    rw [hrun]
    refine (visit_yields hids hspec.sound hmodel hlisted hvalues hvalue search.orderedUnits []
      [] (List.nil_append _).symm .nil _).mono fun s' hs' => ?_
    have hfresh : [ids.assignmentId root.assignment] ∉
        visited.map fun root => [ids.assignmentId root.assignment] := by
      have hnodup := roots_nodup hids hreader hroots
      rw [hlist, List.map_append, List.map_cons, List.nodup_append] at hnodup
      intro hold
      obtain ⟨old, hold, heq⟩ := List.mem_map.mp hold
      exact hnodup.2.2 _ (List.mem_map_of_mem hold) _ List.mem_cons_self (List.cons.inj heq).1
    have hset : searchedPolicies ids model threshold solverKind us (visited ++ [root]) =
        searchedPolicies ids model threshold solverKind us visited ∪
          completions ids model threshold solverKind search [] search.orderedUnits := by
      ext P
      simp only [searchedPolicies, List.mem_append, List.mem_singleton, or_and_right, exists_or,
        Set.mem_union, Set.mem_ofPred_eq, exists_eq_left, hsearch, Except.ok.injEq]
      simp
    have hpath {w : SearchNode} (hw : w = search.node w.selected) :
        w.path ids = [ids.assignmentId root.assignment] ++ w.selectedIds ids := by
      rw [SearchNode.path, hw, ← hspec.root_eq]
      rfl
    refine ⟨?_, ?_, ?_, hs'.found hvisited.found⟩
    · rw [hset]
      exact hs'.best _ hvisited.best
    · rw [List.map_append, List.map_singleton]
      exact hvisited.complete.append (hs'.complete.lengthen fun w hw =>
        ⟨⟨root, hmem, others, search, hspec, hw⟩, hpath hw.node⟩) (by simp) hfresh
    · rw [List.map_append, List.map_singleton]
      exact hvisited.pruned.append (hs'.pruned.lengthen fun w hw =>
        ⟨⟨root, hmem, others, search, hspec, hw⟩, hpath hw.node⟩) (by simp) hfresh

end Roots

end Acfqp.Robust
