import Acfqp.Robust.Values

/-!
# Evaluated policies

A reader of decisions whose children and root evaluate enumerates nothing but sound policies: their
bounds are a reward interval and a failure probability, and they assign and read distinct things.
-/

namespace Acfqp.Robust

open Library

variable {ids : PlannerIds} {model : PartialSupportIntervalModel}
  {threshold : RobustThresholdProfile} {limit : String → ℚ} {rootLimit : ℚ}

/-- Identifiers that tell records apart. -/
structure PlannerIds.Distinct (ids : PlannerIds) : Prop where
  rowId : Function.Injective ids.rowId
  concretizerEntryId : Function.Injective ids.concretizerEntryId
  assignmentId : Function.Injective ids.assignmentId
  rowBoundId : Function.Injective ids.rowBoundId
  provenanceId : Function.Injective ids.provenanceId
  otherMassProvenanceId : Function.Injective ids.otherMassProvenanceId

/-- The decisions of the reader evaluate, with upper rewards within the limits. -/
structure Reads (ids : PlannerIds) (model : PartialSupportIntervalModel)
    (threshold : RobustThresholdProfile) (limit : String → ℚ) (rootLimit : ℚ)
    (reader : PolicyReader) : Prop where
  rootActions_ne_nil : reader.rootActions ≠ []
  domains_ne_nil : ∀ child ∈ reader.children, child.domain ≠ []
  keys_nodup : (reader.children.map ChildScope.key).Nodup
  states_nodup : (reader.children.flatMap ChildScope.stateIds).Nodup
  reached : ∀ stateId, PartialSupportIntervalModel.Reached model stateId →
    stateId ∈ reader.children.flatMap ChildScope.stateIds
  child : ∀ child ∈ reader.children, ∀ stateId ∈ child.stateIds, ∀ action ∈ child.domain,
    Yields (· = ceilingViolation) (fun value => Evaluated ids model threshold stateId 1 value ∧
      value.rewardUpper ≤ limit stateId) (reader.evaluateChild stateId action)
  root : ∀ childValues, ValuesReached ids model threshold childValues →
    (∀ stateId value, childValues.lookup stateId = some value →
      value.rewardUpper ≤ limit stateId) →
    ∀ action ∈ reader.rootActions, Yields (· = ceilingViolation) (fun value =>
      Evaluated ids model threshold model.rootStateId 2 value ∧ value.rewardUpper ≤ rootLimit)
      (reader.evaluateRoot childValues action)

/-- What the evaluation of a policy establishes. -/
structure PolicySound (ids : PlannerIds) (threshold : RobustThresholdProfile) (rootLimit : ℚ)
    (policy : PolicyEvaluation) : Prop where
  lower_nonneg : 0 ≤ policy.rewardLower
  lower_le : policy.rewardLower ≤ policy.rewardUpper
  upper_le : policy.rewardUpper ≤ rootLimit
  failure_nonneg : 0 ≤ policy.failureUpper
  failure_le_one : policy.failureUpper ≤ 1
  assignments_ne_nil : policy.assignments ≠ []
  assignments_sorted : (policy.assignments.map ids.assignmentId).Pairwise (· < ·)
  rows_ne_nil : policy.rows ≠ []
  rows_nodup : (policy.rows.map fun e => e.bound.rowId).Nodup
  rows : ∀ e ∈ policy.rows, ∃ row, RowSound ids threshold row e

/-- A table of values for distinct states, within the limits. -/
structure ChildrenSound (ids : PlannerIds) (model : PartialSupportIntervalModel)
    (threshold : RobustThresholdProfile) (limit : String → ℚ) (stateIds : List String)
    (childValues : ChildValues) : Prop where
  keys : childValues.map Prod.fst = stateIds
  evaluated : ∀ e ∈ childValues, Evaluated ids model threshold e.1 1 e.2 ∧
    e.2.rewardUpper ≤ limit e.1

section Reader

variable {reader : PolicyReader} {choice : List (ChildScope × String)} {stateIds : List String}
  {childValues : ChildValues}

/-- A choice of one action in the domain of each child. -/
def Chosen (reader : PolicyReader) (choice : List (ChildScope × String)) : Prop :=
  choice.map Prod.fst = reader.children ∧ ∀ c ∈ choice, c.2 ∈ c.1.domain

theorem ChildrenSound.append {stateIds' : List String} {childValues' : ChildValues}
    (h : ChildrenSound ids model threshold limit stateIds childValues)
    (h' : ChildrenSound ids model threshold limit stateIds' childValues') :
    ChildrenSound ids model threshold limit (stateIds ++ stateIds')
      (childValues ++ childValues') := by
  refine ⟨by rw [List.map_append, h.keys, h'.keys], fun e he => ?_⟩
  rcases List.mem_append.mp he with he | he
  · exact h.evaluated e he
  · exact h'.evaluated e he

theorem childValues_sound {evaluate : String → Except PlannerError StateActionEvaluation}
    (h : ∀ stateId ∈ stateIds, Yields (· = ceilingViolation) (fun value =>
      Evaluated ids model threshold stateId 1 value ∧ value.rewardUpper ≤ limit stateId)
      (evaluate stateId)) :
    Yields (· = ceilingViolation) (ChildrenSound ids model threshold limit stateIds)
      (stateIds.mapM fun stateId => do
        let value ← evaluate stateId
        .ok (stateId, value)) := by
  have hpairs : ∀ stateId ∈ stateIds, Yields (· = ceilingViolation)
      (fun e => ChildrenSound ids model threshold limit [stateId] [e]) (do
        let value ← evaluate stateId
        .ok (stateId, value)) := fun stateId hstate =>
    (h stateId hstate).bind fun value hvalue =>
      ⟨rfl, fun e he => by rw [List.mem_singleton.mp he]; exact hvalue⟩
  refine (Yields.mapM hpairs).mono fun values hvalues => ?_
  clear hpairs h
  induction hvalues with
  | nil => exact ⟨rfl, by simp⟩
  | cons he _ ih => exact he.append ih

theorem childPart_yields (h : Reads ids model threshold limit rootLimit reader)
    (hchosen : Chosen reader choice) :
    Yields (· = ceilingViolation) (fun part =>
      part.1 = choice.map (fun c => ⟨reader.scope, c.1.key, 1, c.2⟩) ∧
      ChildrenSound ids model threshold limit (reader.children.flatMap ChildScope.stateIds) part.2)
      (reader.childPart choice) := by
  have hmem : ∀ c ∈ choice, c.1 ∈ reader.children := fun c hc =>
    hchosen.1 ▸ List.mem_map_of_mem hc
  have heach : ∀ c ∈ choice, Yields (· = ceilingViolation)
      (ChildrenSound ids model threshold limit c.1.stateIds) (c.1.stateIds.mapM fun stateId => do
        let value ← reader.evaluateChild stateId c.2
        .ok (stateId, value)) := fun c hc =>
    childValues_sound fun stateId hstate =>
      h.child c.1 (hmem c hc) stateId hstate c.2 (hchosen.2 c hc)
  unfold PolicyReader.childPart
  refine (Yields.mapM heach).bind fun values hvalues => ⟨rfl, ?_⟩
  rw [← hchosen.1]
  clear heach hmem hchosen
  induction hvalues with
  | nil => exact ⟨rfl, by simp⟩
  | cons he _ ih => exact he.append ih

theorem ChildrenSound.lookup (h : ChildrenSound ids model threshold limit stateIds childValues)
    (hnodup : stateIds.Nodup) {stateId : String} (hmem : stateId ∈ stateIds) :
    ∃ value, childValues.lookup stateId = some value ∧ (stateId, value) ∈ childValues := by
  rw [← h.keys] at hmem hnodup
  obtain ⟨e, he, rfl⟩ := List.mem_map.mp hmem
  exact ⟨e.2, Dict.lookup_eq_some hnodup he, he⟩

theorem ChildrenSound.rows (hids : ids.Distinct)
    (h : ChildrenSound ids model threshold limit stateIds childValues) (hnodup : stateIds.Nodup) :
    ((childValues.flatMap fun child => child.2.rows).map fun e => e.bound.rowId).Nodup ∧
      ∀ e ∈ childValues.flatMap fun child => child.2.rows, ∃ row ∈ model.rows,
        row.stateId ∈ stateIds ∧ row.remainingHorizon = 1 ∧ RowSound ids threshold row e := by
  have hrow : ∀ child ∈ childValues, ∀ e ∈ child.2.rows, ∃ row ∈ model.rows,
      row.stateId = child.1 ∧ row.remainingHorizon = 1 ∧ RowSound ids threshold row e :=
    fun child hchild => (h.evaluated child hchild).1.rows
  constructor
  · rw [List.map_flatMap]
    refine List.nodup_flatMap.mpr ⟨fun child hchild => (h.evaluated child hchild).1.nodup, ?_⟩
    rw [← h.keys, List.Nodup, List.pairwise_map] at hnodup
    refine hnodup.imp_of_mem fun {child child'} hchild hchild' hne => ?_
    rw [Function.onFun, List.disjoint_left]
    intro rowId hrowId hrowId'
    obtain ⟨e, he, rfl⟩ := List.mem_map.mp hrowId
    obtain ⟨e', he', heq⟩ := List.mem_map.mp hrowId'
    obtain ⟨row, -, hstate, -, hsound⟩ := hrow child hchild e he
    obtain ⟨row', -, hstate', -, hsound'⟩ := hrow child' hchild' e' he'
    rw [hsound.bound_rowId, hsound'.bound_rowId] at heq
    exact hne (hstate.symm.trans ((congrArg _ (hids.rowId heq).symm).trans hstate'))
  · intro e he
    obtain ⟨child, hchild, he⟩ := List.mem_flatMap.mp he
    obtain ⟨row, hmem, hstate, hone, hsound⟩ := hrow child hchild e he
    exact ⟨row, hmem, hstate ▸ h.keys ▸ List.mem_map_of_mem hchild, hone, hsound⟩

theorem policy_yields (hids : ids.Distinct)
    (h : Reads ids model threshold limit rootLimit reader) (hchosen : Chosen reader choice)
    {part : List RobustPolicyAssignment × ChildValues}
    (hassignments : part.1 = choice.map (fun c => ⟨reader.scope, c.1.key, 1, c.2⟩))
    (hchildren : ChildrenSound ids model threshold limit
      (reader.children.flatMap ChildScope.stateIds) part.2) {rootAction : String}
    (haction : rootAction ∈ reader.rootActions) :
    Yields (· = ceilingViolation) (PolicySound ids threshold rootLimit)
      (reader.policy ids part rootAction) := by
  have hvalues : ValuesReached ids model threshold part.2 := fun stateId hreached => by
    obtain ⟨value, hvalue, hmem⟩ := hchildren.lookup h.states_nodup (h.reached stateId hreached)
    exact ⟨value, hvalue, (hchildren.evaluated _ hmem).1⟩
  have hlimits : ∀ stateId value, part.2.lookup stateId = some value →
      value.rewardUpper ≤ limit stateId := fun stateId value hvalue =>
    (hchildren.evaluated _ (Dict.lookup_mem hvalue)).2
  refine (h.root part.2 hvalues hlimits rootAction haction).bind fun root hroot => ?_
  obtain ⟨hevaluated, hupper⟩ := hroot
  obtain ⟨hnodup, hrows⟩ := hchildren.rows hids h.states_nodup
  have hperm := perm_sortBy (fun item => ids.provenanceId item.provenance)
    (root.rows ++ part.2.flatMap fun child => child.2.rows)
  refine ⟨hevaluated.bounded.lower_nonneg, hevaluated.bounded.lower_le, hupper,
    hevaluated.bounded.failure_nonneg, hevaluated.bounded.failure_le_one, ?_, ?_, ?_, ?_, ?_⟩
  · exact sortBy_eq_nil.not.mpr (List.cons_ne_nil _ _)
  · refine pairwise_lt_map_sortBy (nodup_map_sortBy (List.Nodup.map hids.assignmentId ?_))
    have hscopes : (choice.map fun c => c.1.key).Nodup := by
      have := h.keys_nodup
      rwa [← hchosen.1, List.map_map] at this
    refine List.nodup_cons.mpr ⟨fun hmem => ?_, hassignments ▸ ?_⟩
    · obtain ⟨c, -, heq⟩ := List.mem_map.mp (hassignments ▸ hmem)
      exact absurd (congrArg RobustPolicyAssignment.remainingHorizon heq) (by simp)
    · refine List.Nodup.of_map RobustPolicyAssignment.scopeKey ?_
      rwa [List.map_map]
  · exact sortBy_eq_nil.not.mpr fun hnil =>
      hevaluated.rows_ne_nil (List.append_eq_nil_iff.mp hnil).1
  · refine nodup_map_sortBy ?_
    rw [List.map_append]
    refine List.nodup_append'.mpr ⟨hevaluated.nodup, hnodup, List.disjoint_left.mpr ?_⟩
    intro rowId hrowId hrowId'
    obtain ⟨e, he, rfl⟩ := List.mem_map.mp hrowId
    obtain ⟨e', he', heq⟩ := List.mem_map.mp hrowId'
    obtain ⟨row, -, -, htwo, hsound⟩ := hevaluated.rows e he
    obtain ⟨row', -, -, hone, hsound'⟩ := hrows e' he'
    rw [hsound.bound_rowId, hsound'.bound_rowId] at heq
    have := hids.rowId heq
    subst this
    omega
  · intro e he
    rcases List.mem_append.mp (hperm.mem_iff.mp he) with he | he
    · obtain ⟨row, -, -, -, hsound⟩ := hevaluated.rows e he
      exact ⟨row, hsound⟩
    · obtain ⟨row, -, -, -, hsound⟩ := hrows e he
      exact ⟨row, hsound⟩

/-- Every policy of the reader is sound, and there is one. -/
theorem policies_yields (hids : ids.Distinct)
    (h : Reads ids model threshold limit rootLimit reader) :
    Yields (· = ceilingViolation) (fun policies => policies ≠ [] ∧
      ∀ policy ∈ policies, PolicySound ids threshold rootLimit policy) (reader.policies ids) := by
  have heach : ∀ actions ∈ cartesian (reader.children.map ChildScope.domain),
      Yields (· = ceilingViolation) (fun policies => policies ≠ [] ∧
        ∀ policy ∈ policies, PolicySound ids threshold rootLimit policy) (do
          let part ← reader.childPart (reader.children.zip actions)
          reader.rootActions.mapM (reader.policy ids part)) := by
    intro actions hactions
    have hforall := mem_cartesian.mp hactions
    rw [List.forall₂_map_right_iff] at hforall
    have hchosen : Chosen reader (reader.children.zip actions) :=
      ⟨List.map_fst_zip hforall.length_eq.ge, fun c hc =>
        (List.forall₂_iff_zip.mp hforall.flip).2 hc⟩
    refine (childPart_yields h hchosen).bind fun part hpart => ?_
    refine (Yields.mapM fun action haction =>
      policy_yields hids h hchosen hpart.1 hpart.2 haction).mono fun policies hpolicies => ?_
    refine ⟨?_, fun policy hpolicy => ?_⟩
    · rintro rfl
      exact h.rootActions_ne_nil (List.forall₂_nil_right_iff.mp hpolicies)
    · obtain ⟨_, -, hsound⟩ := exists_mem_of_forall₂ hpolicies.flip hpolicy
      exact hsound
  have hsome : cartesian (reader.children.map ChildScope.domain) ≠ [] := by
    obtain ⟨actions, hactions⟩ := @exists_forall₂ String (List String) (fun action domain =>
      action ∈ domain) _
      fun (domain : List String) (hdomain : domain ∈ reader.children.map ChildScope.domain) => by
        obtain ⟨child, hchild, rfl⟩ := List.mem_map.mp hdomain
        exact List.exists_mem_of_ne_nil _ (h.domains_ne_nil child hchild)
    exact List.ne_nil_of_mem (mem_cartesian.mpr hactions)
  unfold PolicyReader.policies
  refine (Yields.mapM heach).bind fun lists hlists => ?_
  have hlist : ∀ policies ∈ lists, policies ≠ [] ∧
      ∀ policy ∈ policies, PolicySound ids threshold rootLimit policy :=
        fun policies hpolicies => by
    obtain ⟨_, -, hsound⟩ := exists_mem_of_forall₂ hlists.flip hpolicies
    exact hsound
  refine ⟨?_, fun policy hpolicy => ?_⟩
  · cases lists with
    | nil => exact absurd (List.forall₂_nil_right_iff.mp hlists) hsome
    | cons policies rest =>
      exact fun hnil => (hlist policies List.mem_cons_self).1
        (List.append_eq_nil_iff.mp (List.flatten_cons.symm.trans hnil)).1
  · obtain ⟨policies, hpolicies, hmem⟩ := List.mem_flatten.mp hpolicy
    exact (hlist policies hpolicies).2 policy hmem

end Reader

end Acfqp.Robust
