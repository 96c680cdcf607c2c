import Acfqp.Robust.Rows
import Acfqp.Robust.WellFormed

/-!
# Values of states

In an accepted model a ground action and a concretized action of a state evaluate to an interval of
rewards within the ceiling and a failure probability, from distinct rows of the model. Better
children never make the upper reward of a row worse.
-/

namespace Acfqp.Robust

open Library

section Means

variable {bound bound' : RobustSelectedRowBound → ℚ} {evaluations : List RowEvaluation} {c : ℚ}

theorem meanBound_mono (h : ∀ e ∈ evaluations, bound e.bound ≤ bound' e.bound) :
    meanBound bound evaluations ≤ meanBound bound' evaluations :=
  div_le_div_of_nonneg_right (List.sum_le_sum h) (Nat.cast_nonneg _)

theorem meanBound_const (hne : evaluations ≠ []) : meanBound (fun _ => c) evaluations = c := by
  have hpos : (evaluations.length : ℚ) ≠ 0 := by simpa using hne
  rw [meanBound, List.map_const', List.sum_replicate, nsmul_eq_mul, mul_div_cancel_left₀ _ hpos]

theorem le_meanBound (hne : evaluations ≠ []) (h : ∀ e ∈ evaluations, c ≤ bound e.bound) :
    c ≤ meanBound bound evaluations :=
  (meanBound_const hne).ge.trans (meanBound_mono h)

theorem meanBound_le (hne : evaluations ≠ []) (h : ∀ e ∈ evaluations, bound e.bound ≤ c) :
    meanBound bound evaluations ≤ c :=
  (meanBound_mono h).trans (meanBound_const hne).le

end Means

variable {ids : PlannerIds} {model : PartialSupportIntervalModel}
  {threshold : RobustThresholdProfile}

/-! ## Evaluated rows -/

/-- What the evaluation of a row establishes. -/
structure RowSound (ids : PlannerIds) (threshold : RobustThresholdProfile)
    (row : IntervalSimplexRow) (e : RowEvaluation) : Prop where
  bound_rowId : e.bound.rowId = ids.rowId row
  provenance_rowId : e.provenance.rowId = ids.rowId row
  bounded : Bounded threshold e.stateAction
  other_nonneg : 0 ≤ e.bound.otherMassUpper
  other_le_one : e.bound.otherMassUpper ≤ 1

section Rows

variable {childValues childValues' : ChildValues} {row : IntervalSimplexRow}
  {category category' : SelectedRowCategory} {key key' : String} {e e' : RowEvaluation}

theorem evaluateGroundRow_yields (h : Covered model threshold childValues row) :
    Yields (· = ceilingViolation) (RowSound ids threshold row)
      (evaluateGroundRow ids model threshold childValues category key row) := by
  obtain ⟨risk, lower, upper, hrisk, hlower, hupper, heq⟩ :=
    @evaluateGroundRow_eq ids model threshold childValues row h category key
  have hvalues := fun item (hitem : item ∈ row.masses) => destinationValue_eq h hitem
  rw [heq]
  split
  · rename_i hceiling
    have hle : lower.value ≤ upper.value :=
      hlower.min_le_max hupper fun item hitem _ => (hvalues item hitem).2.2.2
    exact ⟨rfl, rfl, ⟨add_nonneg row.reward_nonneg
        (hlower.const_le fun item hitem _ => (hvalues item hitem).2.2.1),
      le_min hceiling.2 (add_le_add row.reward_le hle), min_le_left _ _,
      hrisk.const_le fun item hitem _ => (hvalues item hitem).2.1.1,
      hrisk.le_const fun item hitem _ => (hvalues item hitem).2.1.2⟩,
      row.otherMass.lower_nonneg.trans row.otherMass.lower_le_upper, row.otherMass.upper_le_one⟩
  · rfl

theorem rewardUpper_mono (h : Covered model threshold childValues row)
    (h' : Covered model threshold childValues' row)
    (he : evaluateGroundRow ids model threshold childValues category key row = .ok e)
    (he' : evaluateGroundRow ids model threshold childValues' category' key' row = .ok e')
    (hle : ∀ item ∈ row.masses, (worth model threshold childValues row item).rewardUpper ≤
      (worth model threshold childValues' row item).rewardUpper) :
    e.bound.rewardUpper ≤ e'.bound.rewardUpper := by
  obtain ⟨_, _, upper, -, -, hupper, heq⟩ :=
    @evaluateGroundRow_eq ids model threshold childValues row h category key
  obtain ⟨_, _, upper', -, -, hupper', heq'⟩ :=
    @evaluateGroundRow_eq ids model threshold childValues' row h' category' key'
  rw [heq] at he
  rw [heq'] at he'
  split at he <;> split at he' <;> try contradiction
  obtain rfl := Except.ok.inj he
  obtain rfl := Except.ok.inj he'
  have hmono := hupper.mono_max hupper' fun item hitem _ => hle item hitem
  exact min_le_min_left _ (add_le_add_right hmono _)

/-- What relates the values of the active destinations relates what is read at a destination. -/
theorem worth_related {R : DestinationValue → DestinationValue → Prop} (hrefl : ∀ x, R x x)
    (h : Covered model threshold childValues row) (h' : Covered model threshold childValues' row)
    {item : IntervalDestinationMass} (hitem : item ∈ row.masses)
    (hle : ∀ d s v v', model.destination item.destinationId = some d →
      d.category = .activeState s → childValues.lookup s = some v →
      childValues'.lookup s = some v' → R ⟨v.failureUpper, v.rewardLower, v.rewardUpper⟩
        ⟨v'.failureUpper, v'.rewardLower, v'.rewardUpper⟩) :
    R (worth model threshold childValues row item)
      (worth model threshold childValues' row item) := by
  have heq := (destinationValue_eq h hitem).1
  have heq' := (destinationValue_eq h' hitem).1
  obtain ⟨d, hd⟩ := h.registered item hitem
  unfold destinationValue at heq heq'
  rw [bind_of_ok (orRaise_eq_ok.mpr hd)] at heq heq'
  cases hcategory : d.category with
  | activeState s =>
    rw [hcategory] at heq heq'
    by_cases hroot : 1 < row.remainingHorizon
    · obtain ⟨v, hv, -⟩ := h.children hroot item hitem d s hd hcategory
      obtain ⟨v', hv', -⟩ := h'.children hroot item hitem d s hd hcategory
      simp only [hroot, if_true] at heq heq'
      rw [bind_of_ok (orRaise_eq_ok.mpr hv)] at heq
      rw [bind_of_ok (orRaise_eq_ok.mpr hv')] at heq'
      rw [← Except.ok.inj heq, ← Except.ok.inj heq']
      exact hle d s v v' hd hcategory hv hv'
    · simp only [hroot, if_false] at heq heq'
      rw [← Except.ok.inj heq, ← Except.ok.inj heq']
      exact hrefl _
  | failure =>
    rw [hcategory] at heq heq'
    rw [← Except.ok.inj heq, ← Except.ok.inj heq']
    exact hrefl _
  | successTerminal =>
    rw [hcategory] at heq heq'
    rw [← Except.ok.inj heq, ← Except.ok.inj heq']
    exact hrefl _
  | other =>
    rw [hcategory] at heq heq'
    rw [← Except.ok.inj heq, ← Except.ok.inj heq']
    exact hrefl _

theorem worth_rewardUpper_mono (h : Covered model threshold childValues row)
    (h' : Covered model threshold childValues' row)
    (hle : ∀ s v v', childValues.lookup s = some v → childValues'.lookup s = some v' →
      v.rewardUpper ≤ v'.rewardUpper) {item : IntervalDestinationMass} (hitem : item ∈ row.masses) :
    (worth model threshold childValues row item).rewardUpper ≤
      (worth model threshold childValues' row item).rewardUpper :=
  worth_related (R := fun x y => x.rewardUpper ≤ y.rewardUpper) (fun _ => le_rfl) h h' hitem
    fun _ s v v' _ _ => hle s v v'

end Rows

/-! ## Evaluated states -/

/-- The value of a state for some steps: bounds, and the distinct rows that they come from. -/
structure Evaluated (ids : PlannerIds) (model : PartialSupportIntervalModel)
    (threshold : RobustThresholdProfile) (stateId : String) (remainingHorizon : ℕ)
    (value : StateActionEvaluation) : Prop where
  bounded : Bounded threshold value
  rows_ne_nil : value.rows ≠ []
  nodup : (value.rows.map fun e => e.bound.rowId).Nodup
  rows : ∀ e ∈ value.rows, ∃ row ∈ model.rows, row.stateId = stateId ∧
    row.remainingHorizon = remainingHorizon ∧ RowSound ids threshold row e

def ValuesReached (ids : PlannerIds) (model : PartialSupportIntervalModel)
    (threshold : RobustThresholdProfile) (childValues : ChildValues) : Prop :=
  ∀ stateId, PartialSupportIntervalModel.Reached model stateId →
    ∃ value, childValues.lookup stateId = some value ∧ Evaluated ids model threshold stateId 1 value

section States

variable (hmodel : PartialSupportIntervalModel.WellFormed ids model)
  (hlisted : PartialSupportIntervalModel.ActiveListed model)
include hmodel

theorem covered_child {row : IntervalSimplexRow} (hrow : row ∈ model.rows)
    (hone : row.remainingHorizon = 1) (childValues : ChildValues) :
    Covered model threshold childValues row :=
  ⟨hmodel.registered hrow, fun hroot => absurd hroot (by omega)⟩

include hlisted

theorem covered_root {row : IntervalSimplexRow} (hrow : row ∈ model.rows)
    (htwo : row.remainingHorizon = 2) {childValues : ChildValues}
    (hvalues : ValuesReached ids model threshold childValues) :
    Covered model threshold childValues row := by
  refine ⟨hmodel.registered hrow, fun _ item hitem d s hd hcategory => ?_⟩
  obtain ⟨value, hvalue, hevaluated⟩ :=
    hvalues s (hlisted row hrow htwo item hitem d s hd hcategory)
  exact ⟨value, hvalue, hevaluated.bounded⟩

end States

section Actions

variable {childValues : ChildValues} {category : SelectedRowCategory} {stateId : String}
  {remainingHorizon : ℕ}

def RowsCovered (model : PartialSupportIntervalModel) (threshold : RobustThresholdProfile)
    (childValues : ChildValues) (stateId : String) (remainingHorizon : ℕ)
    (actionIds : List String) : Prop :=
  ∀ actionId ∈ actionIds, ∃ row, model.row (stateId, remainingHorizon, actionId) = some row ∧
    Covered model threshold childValues row

theorem RowSound.evaluated {row : IntervalSimplexRow} {e : RowEvaluation}
    (h : RowSound ids threshold row e) (hrow : row ∈ model.rows)
    (hkey : row.stateId = stateId ∧ row.remainingHorizon = remainingHorizon) :
    Evaluated ids model threshold stateId remainingHorizon e.stateAction :=
  ⟨h.bounded, List.cons_ne_nil _ _, List.nodup_singleton _, fun _ he' =>
    List.mem_singleton.mp he' ▸ ⟨row, hrow, hkey.1, hkey.2, h⟩⟩

theorem evaluateGroundAction_yields {actionId : String}
    (h : RowsCovered model threshold childValues stateId remainingHorizon [actionId]) :
    Yields (· = ceilingViolation) (Evaluated ids model threshold stateId remainingHorizon)
      (evaluateGroundAction ids model threshold childValues category stateId remainingHorizon
        actionId) := by
  obtain ⟨row, hrow, hcovered⟩ := h actionId (List.mem_singleton_self _)
  obtain ⟨hmem, hkey⟩ := PartialSupportIntervalModel.mem_of_row hrow
  simp only [IntervalSimplexRow.rowKey, Prod.mk.injEq] at hkey
  unfold evaluateGroundAction rowOf
  rw [bind_of_ok (orRaise_eq_ok.mpr hrow)]
  exact (evaluateGroundRow_yields hcovered).bind fun e he => he.evaluated hmem ⟨hkey.1, hkey.2.1⟩

/-- The mean of evaluated rows is bounded. -/
theorem averageActionEvaluations_eq {rows : List RowEvaluation} (hne : rows ≠ [])
    (hrows : ∀ e ∈ rows, Bounded threshold e.stateAction) :
    ∃ value, averageActionEvaluations rows = .ok value ∧ Bounded threshold value ∧
      value.rows = rows ∧
      value.rewardUpper = meanBound RobustSelectedRowBound.rewardUpper rows := by
  refine ⟨_, bind_eq_ok.mpr ⟨(), require_eq_ok.mpr hne, rfl⟩, ⟨?_, ?_, ?_, ?_, ?_⟩, rfl, rfl⟩
  · exact le_meanBound hne fun e he => (hrows e he).lower_nonneg
  · exact meanBound_mono fun e he => (hrows e he).lower_le
  · exact meanBound_le hne fun e he => (hrows e he).upper_le
  · exact le_meanBound hne fun e he => (hrows e he).failure_nonneg
  · exact meanBound_le hne fun e he => (hrows e he).failure_le_one

theorem evaluateConcretizedStateAction_yields (hids : Function.Injective ids.rowId)
    {catalogue : StateActionCatalogue} (hcatalogue : model.catalogue stateId = some catalogue)
    {entry : DistinctActionConcretizerEntry} {abstractActionKey : String}
    (hentry : model.concretizer (catalogue.stateCoordinateKey, stateId, abstractActionKey) =
      some entry)
    (h : RowsCovered model threshold childValues stateId remainingHorizon entry.groundActionIds) :
    Yields (· = ceilingViolation) (fun value =>
        Evaluated ids model threshold stateId remainingHorizon value ∧
        ∃ rows, value.rewardUpper = meanBound RobustSelectedRowBound.rewardUpper rows ∧
          rows ≠ [] ∧ ∀ e ∈ rows, ∃ actionId ∈ entry.groundActionIds, ∃ row,
            model.row (stateId, remainingHorizon, actionId) = some row ∧
            evaluateGroundRow ids model threshold childValues category
              catalogue.stateCoordinateKey row = .ok e)
      (evaluateConcretizedStateAction ids model threshold childValues category stateId
        remainingHorizon abstractActionKey) := by
  let Sound (actionId : String) (e : RowEvaluation) : Prop :=
    ∃ row ∈ model.rows, row.rowKey = (stateId, remainingHorizon, actionId) ∧
      RowSound ids threshold row e ∧ model.row (stateId, remainingHorizon, actionId) = some row ∧
      evaluateGroundRow ids model threshold childValues category
        catalogue.stateCoordinateKey row = .ok e
  have hrow : ∀ actionId ∈ entry.groundActionIds, Yields (· = ceilingViolation) (Sound actionId)
      (do
        let row ← rowOf model stateId remainingHorizon actionId
        evaluateGroundRow ids model threshold childValues category
          catalogue.stateCoordinateKey row) := by
    intro actionId hactionId
    obtain ⟨row, hrow, hcovered⟩ := h actionId hactionId
    obtain ⟨hmem, hkey⟩ := PartialSupportIntervalModel.mem_of_row hrow
    have hyields := @evaluateGroundRow_yields ids model threshold childValues row category
      catalogue.stateCoordinateKey hcovered
    unfold rowOf
    rw [bind_of_ok (orRaise_eq_ok.mpr hrow)]
    cases heq : evaluateGroundRow ids model threshold childValues category
        catalogue.stateCoordinateKey row with
    | error error => exact hyields.raised heq
    | ok e => exact ⟨row, hmem, hkey, hyields.post heq, hrow, heq⟩
  unfold evaluateConcretizedStateAction catalogueOf
  rw [bind_of_ok (orRaise_eq_ok.mpr hcatalogue), bind_of_ok (orRaise_eq_ok.mpr hentry)]
  refine (Yields.mapM hrow).bind fun rows hrows => ?_
  have hne : rows ≠ [] := by
    rintro rfl
    exact entry.actions_ne_nil (List.forall₂_nil_right_iff.mp hrows)
  have hsound : ∀ e ∈ rows, ∃ actionId ∈ entry.groundActionIds, Sound actionId e := fun e he =>
    exists_mem_of_forall₂ hrows.flip he
  obtain ⟨value, hvalue, hbounded, hvalueRows, hupper⟩ := averageActionEvaluations_eq hne
    fun e he => by
      obtain ⟨_, -, _, -, -, hsound, -⟩ := hsound e he
      exact hsound.bounded
  refine Yields.of_ok hvalue ⟨⟨hbounded, hvalueRows ▸ hne, ?_, fun e he => ?_⟩,
    rows, hupper, hne, fun e he => ?_⟩
  · rw [hvalueRows]
    refine Yields.nodup_of_forall₂ hrows (entry.actions_sorted.imp fun hlt => hlt.ne) ?_
    rintro a - a' - e e' ⟨row, -, hkey, hsound, -⟩ ⟨row', -, hkey', hsound', -⟩ heq
    rw [hsound.bound_rowId, hsound'.bound_rowId] at heq
    obtain rfl := hids heq
    exact congrArg (fun key : RowKey => key.2.2) (hkey.symm.trans hkey')
  · obtain ⟨_, -, row, hmem, hkey, hsound, -⟩ := hsound e (hvalueRows ▸ he)
    simp only [IntervalSimplexRow.rowKey, Prod.mk.injEq] at hkey
    exact ⟨row, hmem, hkey.1, hkey.2.1, hsound⟩
  · obtain ⟨actionId, hactionId, row, -, -, -, hrow, heq⟩ := hsound e he
    exact ⟨actionId, hactionId, row, hrow, heq⟩

end Actions

end Acfqp.Robust
