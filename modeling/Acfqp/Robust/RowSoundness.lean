import Acfqp.Robust.Kernels
import Acfqp.Robust.Values

/-!
# Rows bound their true outcomes

A consistent law of outcomes is a distribution of the row, so the extreme expectations of the row
bound the means of whatever the values of its destinations bound.
-/

namespace Acfqp.Robust

open Library PartialSupportIntervalModel

variable {σ : Type} {ids : PlannerIds} {model : PartialSupportIntervalModel}
  {threshold : RobustThresholdProfile} {row : IntervalSimplexRow} {outcomes : List (Outcome σ)}
  {f : IntervalDestinationMass → ℚ} {g h : Outcome σ → ℚ} {c : ℚ}

/-! ## Means of outcomes -/

theorem meanOutcome_add : meanOutcome outcomes (fun o => g o + h o) =
    meanOutcome outcomes g + meanOutcome outcomes h := by
  simp only [meanOutcome, mul_add, List.sum_map_add]

namespace ConsistentRow

variable (hrow : ConsistentRow row outcomes)
include hrow

theorem meanOutcome_mono (hle : ∀ o ∈ outcomes, g o ≤ h o) :
    meanOutcome outcomes g ≤ meanOutcome outcomes h :=
  List.sum_le_sum fun o ho => mul_le_mul_of_nonneg_left (hle o ho) (hrow.probability_pos o ho).le

/-- The mean of a value of the destinations is its expectation over the row. -/
theorem meanOutcome_place (f : IntervalDestinationMass → ℚ) :
    meanOutcome outcomes (fun o => entry (tableOf row f) (o.landing.place row)) =
      expected row (landingMass row outcomes) f := by
  have hlisted : ∀ e ∈ outcomes.map fun o => (o.landing.place row, o.probability),
      e.1 ∈ row.masses.map IntervalDestinationMass.destinationId ∨ e.2 = 0 := by
    intro e he
    obtain ⟨o, ho, rfl⟩ := List.mem_map.mp he
    exact .inl (hrow.listed o ho)
  have hsum := sum_mul_eq_sum_total row.ids_nodup hlisted (entry (tableOf row f))
  rw [List.map_map, List.map_map] at hsum
  refine hsum.trans (congrArg List.sum (List.map_congr_left fun item hitem => ?_))
  simp only [Function.comp_apply, landingMass, entry_tableOf hitem]

theorem meanOutcome_const : meanOutcome outcomes (fun _ => c) = c := by
  have hplace := hrow.meanOutcome_place fun _ => c
  rw [expected_const hrow.simplex] at hplace
  refine Eq.trans (congrArg List.sum (List.map_congr_left fun o ho => ?_)) hplace
  obtain ⟨item, hitem, heq⟩ := List.mem_map.mp (hrow.listed o ho)
  dsimp only
  rw [← heq, entry_tableOf hitem]

/-- What the destinations bound from above is at most their expectation. -/
theorem meanOutcome_le (hle : ∀ o ∈ outcomes, ∀ item ∈ row.masses,
    item.destinationId = o.landing.place row → g o ≤ f item) :
    meanOutcome outcomes g ≤ expected row (landingMass row outcomes) f := by
  rw [← hrow.meanOutcome_place]
  refine hrow.meanOutcome_mono fun o ho => ?_
  obtain ⟨item, hitem, heq⟩ := List.mem_map.mp (hrow.listed o ho)
  rw [← heq, entry_tableOf hitem]
  exact hle o ho item hitem heq

theorem le_meanOutcome (hle : ∀ o ∈ outcomes, ∀ item ∈ row.masses,
    item.destinationId = o.landing.place row → f item ≤ g o) :
    expected row (landingMass row outcomes) f ≤ meanOutcome outcomes g := by
  rw [← hrow.meanOutcome_place]
  refine hrow.meanOutcome_mono fun o ho => ?_
  obtain ⟨item, hitem, heq⟩ := List.mem_map.mp (hrow.listed o ho)
  rw [← heq, entry_tableOf hitem]
  exact hle o ho item hitem heq

end ConsistentRow

section Evaluated

variable {childValues : ChildValues} {category : SelectedRowCategory} {policyScopeKey : String}
  {e : RowEvaluation}

/-- The values of the destinations of a row bound what follows each outcome. -/
def Follow (model : PartialSupportIntervalModel) (threshold : RobustThresholdProfile)
    (childValues : ChildValues) (row : IntervalSimplexRow) (outcomes : List (Outcome σ))
    (bound : DestinationValue → Outcome σ → Prop) : Prop :=
  ∀ o ∈ outcomes, ∀ item ∈ row.masses, item.destinationId = o.landing.place row →
    bound (worth model threshold childValues row item) o

variable (hcovered : Covered model threshold childValues row)
  (he : evaluateGroundRow ids model threshold childValues category policyScopeKey row = .ok e)
  (hrow : ConsistentRow row outcomes)
include hcovered he

theorem rewardUpper_le_ceiling : row.rewardUpper ≤ threshold.rewardCeiling := by
  obtain ⟨_, _, _, -, -, -, heq⟩ :=
    @evaluateGroundRow_eq ids model threshold childValues row hcovered category policyScopeKey
  rw [heq] at he
  split at he
  · rename_i hceiling
    exact hceiling.1
  · cases he

include hrow

theorem rewardLower_le_meanOutcome
    (hnext : Follow model threshold childValues row outcomes fun value o =>
      value.rewardLower ≤ g o) :
    e.bound.rewardLower ≤ meanOutcome outcomes fun o => o.reward + g o := by
  obtain ⟨_, lower, _, -, hlower, -, heq⟩ :=
    @evaluateGroundRow_eq ids model threshold childValues row hcovered category policyScopeKey
  rw [heq] at he
  split at he
  · obtain rfl := Except.ok.inj he
    rw [meanOutcome_add]
    refine add_le_add ?_ ((hlower.min_le hrow.simplex).trans (hrow.le_meanOutcome hnext))
    rw [← hrow.meanOutcome_const (c := row.rewardLower)]
    exact hrow.meanOutcome_mono fun o ho => (hrow.reward o ho).1
  · cases he

/-- Within the ceiling, a row is worth at most its upper reward. -/
theorem meanOutcome_le_rewardUpper
    (hnext : Follow model threshold childValues row outcomes fun value o =>
      g o ≤ value.rewardUpper)
    (htotal : ∀ o ∈ outcomes, o.reward + g o ≤ threshold.rewardCeiling) :
    (meanOutcome outcomes fun o => o.reward + g o) ≤ e.bound.rewardUpper := by
  obtain ⟨_, _, upper, -, -, hupper, heq⟩ :=
    @evaluateGroundRow_eq ids model threshold childValues row hcovered category policyScopeKey
  rw [heq] at he
  split at he
  · obtain rfl := Except.ok.inj he
    refine le_min ?_ ?_
    · rw [← hrow.meanOutcome_const (c := threshold.rewardCeiling)]
      exact hrow.meanOutcome_mono htotal
    · rw [meanOutcome_add]
      refine add_le_add ?_ ((hrow.meanOutcome_le hnext).trans (hupper.le_max hrow.simplex))
      rw [← hrow.meanOutcome_const (c := row.rewardUpper)]
      exact hrow.meanOutcome_mono fun o ho => (hrow.reward o ho).2
  · cases he

theorem meanOutcome_le_failureUpper
    (hnext : Follow model threshold childValues row outcomes fun value o => g o ≤ value.risk) :
    meanOutcome outcomes g ≤ e.bound.failureUpper := by
  obtain ⟨risk, _, _, hrisk, -, -, heq⟩ :=
    @evaluateGroundRow_eq ids model threshold childValues row hcovered category policyScopeKey
  rw [heq] at he
  split at he
  · obtain rfl := Except.ok.inj he
    exact (hrow.meanOutcome_le hnext).trans (hrisk.le_max hrow.simplex)
  · cases he

end Evaluated

end Acfqp.Robust

/-!
## States bound their true values

The values that a row reads at its destinations are the values that a consistent kernel is held to:
failure for everything unobserved, no reward after the last step, and for an active destination the
value of its state. So an evaluated action guarantees its lower reward and its failure probability,
and in a legal policy no action passes its upper reward.
-/

namespace Acfqp.Robust

open Library PartialSupportIntervalModel

variable {σ : Type} {ids : PlannerIds} {model : PartialSupportIntervalModel}
  {threshold : RobustThresholdProfile} {kernel : TrueKernel σ} {row : IntervalSimplexRow}
  {childValues : ChildValues} {item : IntervalDestinationMass} {stateId : String}

/-! ## Destinations -/

theorem activeState_eq_some {destinationId : String} :
    model.activeState destinationId = some stateId ↔
      ∃ d, model.destination destinationId = some d ∧ d.category = .activeState stateId := by
  simp only [activeState, Option.bind_eq_some_iff, stateId_eq_some]

theorem registered_other (hmodel : WellFormed ids model) (hrow : row ∈ model.rows) :
    ∃ d, model.destination row.otherDestinationId = some d ∧ d.category = .other := by
  have hvalid := hmodel.row_valid row hrow
  simp only [validateRow, bind_eq_ok, require_eq_ok] at hvalid
  obtain ⟨-, hother, -⟩ := hvalid
  obtain ⟨d, hd, hid⟩ := Option.map_eq_some_iff.mp hother
  have hnodup : (model.destinations.map RegisteredDestination.destinationId).Nodup :=
    hmodel.destinations_sorted.imp fun hlt => hlt.ne
  refine ⟨d, ?_, by simpa using List.find?_some hd⟩
  rw [← hid]
  exact Dict.find?_eq_some hnodup (List.mem_of_find?_eq_some hd)

section Worth

variable (hcovered : Covered model threshold childValues row) (hitem : item ∈ row.masses)
include hcovered hitem

theorem worth_active (hroot : 1 < row.remainingHorizon)
    (hactive : model.activeState item.destinationId = some stateId) {v : StateActionEvaluation}
    (hv : childValues.lookup stateId = some v) : worth model threshold childValues row item =
      ⟨v.failureUpper, v.rewardLower, v.rewardUpper⟩ := by
  have heq := (destinationValue_eq hcovered hitem).1
  obtain ⟨d, hd, hcategory⟩ := activeState_eq_some.mp hactive
  unfold destinationValue at heq
  rw [bind_of_ok (orRaise_eq_ok.mpr hd), hcategory] at heq
  simp only [hroot, if_true] at heq
  rw [bind_of_ok (orRaise_eq_ok.mpr hv)] at heq
  exact (Except.ok.inj heq).symm

/-- Any other destination is worth whether it has failed, and no reward, up to the ceiling. -/
theorem worth_terminal (hterminal : row.remainingHorizon ≤ 1 ∨
      model.activeState item.destinationId = none) :
    worth model threshold childValues row item = ⟨model.terminalFailure item.destinationId, 0,
      if 1 < row.remainingHorizon ∧ ∃ d, model.destination item.destinationId = some d ∧
        d.category = .other then threshold.rewardCeiling else 0⟩ := by
  have heq := (destinationValue_eq hcovered hitem).1
  obtain ⟨d, hd⟩ := hcovered.registered item hitem
  unfold destinationValue at heq
  rw [bind_of_ok (orRaise_eq_ok.mpr hd)] at heq
  rw [terminalFailure, hd]
  cases hcategory : d.category with
  | activeState s =>
    have hlast : ¬ 1 < row.remainingHorizon := hterminal.elim not_lt.mpr fun hnone => by
      rw [activeState_eq_some.mpr ⟨d, hd, hcategory⟩] at hnone
      cases hnone
    rw [hcategory] at heq
    simp only [hlast, if_false] at heq
    simp [← Except.ok.inj heq, hcategory, hlast]
  | failure =>
    rw [hcategory] at heq
    simp [← Except.ok.inj heq, hcategory]
  | successTerminal =>
    rw [hcategory] at heq
    simp [← Except.ok.inj heq, hcategory]
  | other =>
    rw [hcategory] at heq
    simp [← Except.ok.inj heq, hcategory]

end Worth

/-- The value of everything unobserved. -/
theorem worth_hidden (hmodel : WellFormed ids model) (hrow : row ∈ model.rows)
    (hcovered : Covered model threshold childValues row) (hitem : item ∈ row.masses)
    (hother : item.destinationId = row.otherDestinationId) :
    worth model threshold childValues row item =
      ⟨1, 0, if 1 < row.remainingHorizon then threshold.rewardCeiling else 0⟩ := by
  obtain ⟨d, hd, hcategory⟩ := registered_other hmodel hrow
  rw [← hother] at hd
  have hnone : model.activeState item.destinationId = none := by
    simp [activeState, hd, RegisteredDestination.stateId, hcategory]
  rw [worth_terminal hcovered hitem (.inr hnone)]
  simp [terminalFailure, hd, hcategory]

namespace TrueKernel

variable {law : List (String × ℚ)} {destinationId : String}

theorem nextReward_none (h : model.activeState destinationId = none) :
    kernel.nextReward model law (.named destinationId) = 0 := by
  simp [nextReward, h]

theorem nextReward_some (h : model.activeState destinationId = some stateId) :
    kernel.nextReward model law (.named destinationId) =
      mixture law (kernel.lastReward stateId) := by
  simp [nextReward, h]

theorem nextFailure_none (h : model.activeState destinationId = none) :
    kernel.nextFailure model law (.named destinationId) = model.terminalFailure destinationId := by
  simp [nextFailure, h]

theorem nextFailure_some (h : model.activeState destinationId = some stateId) :
    kernel.nextFailure model law (.named destinationId) =
      mixture law (kernel.lastFailure model stateId) := by
  simp [nextFailure, h]

theorem continuations_none (h : model.activeState destinationId = none) :
    kernel.continuations model (.named destinationId) = {0} := by
  simp [continuations, h]

theorem mem_continuations_some (h : model.activeState destinationId = some stateId) {reward : ℚ} :
    reward ∈ kernel.continuations model (.named destinationId) ↔
      ∃ actionId, HasAction model stateId actionId ∧
        ∃ o ∈ kernel.outcomes (stateId, 1, actionId), o.reward = reward := by
  simp [continuations, h]

end TrueKernel

/-- An evaluated value holds for a reward and a failure probability. -/
structure Guarantees (value : StateActionEvaluation) (reward failure : ℚ) : Prop where
  reward : value.rewardLower ≤ reward
  failure : failure ≤ value.failureUpper

section Steps

variable {category : SelectedRowCategory} {policyScopeKey actionId : String} {e : RowEvaluation}
  (hmodel : WellFormed ids model) (hkernel : Consistent model kernel threshold)
include hmodel hkernel

theorem lastStep_bounds (hrow : model.row (stateId, 1, actionId) = some row)
    (he : evaluateGroundRow ids model threshold childValues category policyScopeKey row = .ok e) :
    Guarantees e.stateAction (kernel.lastReward stateId actionId)
        (kernel.lastFailure model stateId actionId) ∧
      kernel.lastReward stateId actionId ≤ e.bound.rewardUpper := by
  obtain ⟨hmem, hkey⟩ := mem_of_row hrow
  have hone : row.remainingHorizon = 1 := congrArg (fun key : RowKey => key.2.1) hkey
  have hcovered : Covered model threshold childValues row :=
    covered_child hmodel hmem hone childValues
  have hconsistent := hkernel.row row hmem
  rw [hkey] at hconsistent
  have hworth : ∀ item ∈ row.masses, worth model threshold childValues row item =
      ⟨model.terminalFailure item.destinationId, 0, 0⟩ := by
    intro item hitem
    rw [worth_terminal hcovered hitem (.inl hone.le)]
    simp [hone]
  have hreward : kernel.lastReward stateId actionId =
      meanOutcome (kernel.outcomes (stateId, 1, actionId)) fun o => o.reward + 0 := by
    simp only [TrueKernel.lastReward, add_zero]
  refine ⟨⟨?_, ?_⟩, ?_⟩
  · rw [hreward]
    refine rewardLower_le_meanOutcome hcovered he hconsistent fun o _ item hitem _ => ?_
    rw [hworth item hitem]
  · refine meanOutcome_le_failureUpper hcovered he hconsistent fun o _ item hitem hplace => ?_
    cases hlanding : o.landing with
    | named destinationId =>
      obtain rfl : item.destinationId = destinationId := by rwa [hlanding] at hplace
      simp only [hworth item hitem, hlanding, TrueKernel.endFailure, le_refl]
    | hidden state =>
      rw [hlanding] at hplace
      simp only [worth_hidden hmodel hmem hcovered hitem hplace, hlanding]
      exact hkernel.hiddenFailed_le_one state
  · rw [hreward]
    refine meanOutcome_le_rewardUpper hcovered he hconsistent (fun o _ item hitem _ => ?_)
      fun o ho => ?_
    · rw [hworth item hitem]
    · rw [add_zero]
      exact (hconsistent.reward o ho).2.trans (rewardUpper_le_ceiling hcovered he)

/-! ## The first step -/

variable {policy : GroundPolicy σ} (hrow : model.row (model.rootStateId, 2, actionId) = some row)
  (hcovered : Covered model threshold childValues row)
  (he : evaluateGroundRow ids model threshold childValues category policyScopeKey row = .ok e)
include hrow hcovered

include he in
theorem root_guarantees
    (hhidden : ∀ o state, o.landing = .hidden state →
      IsLaw (fun _ => True) (policy.next actionId o))
    (hchild : ∀ o destinationId s v, o.landing = .named destinationId →
      model.activeState destinationId = some s → childValues.lookup s = some v →
        Guarantees v (mixture (policy.next actionId o) (kernel.lastReward s))
          (mixture (policy.next actionId o) (kernel.lastFailure model s))) :
    Guarantees e.stateAction (kernel.rootReward model policy actionId)
      (kernel.rootFailure model policy actionId) := by
  obtain ⟨hmem, hkey⟩ := mem_of_row hrow
  have htwo : row.remainingHorizon = 2 := congrArg (fun key : RowKey => key.2.1) hkey
  have hroot : 1 < row.remainingHorizon := by omega
  have hconsistent := hkernel.row row hmem
  rw [hkey] at hconsistent
  have hnext : ∀ o ∈ kernel.outcomes (model.rootStateId, 2, actionId), ∀ item ∈ row.masses,
      item.destinationId = o.landing.place row →
        (worth model threshold childValues row item).rewardLower ≤
            kernel.nextReward model (policy.next actionId o) o.landing ∧
          kernel.nextFailure model (policy.next actionId o) o.landing ≤
            (worth model threshold childValues row item).risk := by
    intro o _ item hitem hplace
    cases hlanding : o.landing with
    | hidden state =>
      rw [hlanding] at hplace
      rw [worth_hidden hmodel hmem hcovered hitem hplace]
      exact ⟨(hhidden o state hlanding).le_mixture fun a _ => hkernel.hiddenReward_nonneg state a,
        (hhidden o state hlanding).mixture_le fun a _ => hkernel.hiddenFailure_le_one state a⟩
    | named destinationId =>
      obtain rfl : item.destinationId = destinationId := by rwa [hlanding] at hplace
      cases hactive : model.activeState item.destinationId with
      | none =>
        rw [worth_terminal hcovered hitem (.inr hactive), TrueKernel.nextReward_none hactive,
          TrueKernel.nextFailure_none hactive]
        exact ⟨le_rfl, le_rfl⟩
      | some s =>
        obtain ⟨d, hd, hcategory⟩ := activeState_eq_some.mp hactive
        obtain ⟨v, hv, -⟩ := hcovered.children hroot item hitem d s hd hcategory
        have hguarantees := hchild o item.destinationId s v hlanding hactive hv
        rw [worth_active hcovered hitem hroot hactive hv, TrueKernel.nextReward_some hactive,
          TrueKernel.nextFailure_some hactive]
        exact ⟨hguarantees.reward, hguarantees.failure⟩
  exact ⟨rewardLower_le_meanOutcome hcovered he hconsistent
      fun o ho item hitem hplace => (hnext o ho item hitem hplace).1,
    meanOutcome_le_failureUpper hcovered he hconsistent
      fun o ho item hitem hplace => (hnext o ho item hitem hplace).2⟩

theorem nextReward_le_worth (hlegal : policy.Legal model)
    (hchild : ∀ s v a, childValues.lookup s = some v → HasAction model s a →
      kernel.lastReward s a ≤ v.rewardUpper) {o : Outcome σ}
    (ho : o ∈ kernel.outcomes (model.rootStateId, 2, actionId)) (hitem : item ∈ row.masses)
    (hplace : item.destinationId = o.landing.place row) :
    kernel.nextReward model (policy.next actionId o) o.landing ≤
      (worth model threshold childValues row item).rewardUpper := by
  obtain ⟨hmem, hkey⟩ := mem_of_row hrow
  have htwo : row.remainingHorizon = 2 := congrArg (fun key : RowKey => key.2.1) hkey
  have hroot : 1 < row.remainingHorizon := by omega
  cases hlanding : o.landing with
  | hidden state =>
    rw [hlanding] at hplace
    rw [worth_hidden hmodel hmem hcovered hitem hplace, if_pos hroot]
    refine (hlegal.hidden actionId o state hlanding).mixture_le fun a _ => ?_
    rw [← hkey] at ho
    have hle := hkernel.total_le row hmem htwo o ho (kernel.hiddenReward state a)
      (hlanding ▸ ⟨a, rfl⟩)
    have hnonneg := row.reward_nonneg.trans ((hkernel.row row hmem).reward o ho).1
    linarith
  | named destinationId =>
    obtain rfl : item.destinationId = destinationId := by rwa [hlanding] at hplace
    cases hactive : model.activeState item.destinationId with
    | none =>
      rw [worth_terminal hcovered hitem (.inr hactive), TrueKernel.nextReward_none hactive]
      dsimp only
      split
      · exact threshold.ceiling_pos.le
      · exact le_rfl
    | some s =>
      obtain ⟨d, hd, hcategory⟩ := activeState_eq_some.mp hactive
      obtain ⟨v, hv, -⟩ := hcovered.children hroot item hitem d s hd hcategory
      rw [worth_active hcovered hitem hroot hactive hv, TrueKernel.nextReward_some hactive]
      exact (hlegal.next actionId o _ s hlanding hactive).mixture_le fun a ha => hchild s v a hv ha

include he in
theorem reward_add_nextReward_le (hlisted : ActiveListed model) (hlegal : policy.Legal model)
    {o : Outcome σ} (ho : o ∈ kernel.outcomes (model.rootStateId, 2, actionId)) :
    o.reward + kernel.nextReward model (policy.next actionId o) o.landing ≤
      threshold.rewardCeiling := by
  obtain ⟨hmem, hkey⟩ := mem_of_row hrow
  have htwo : row.remainingHorizon = 2 := congrArg (fun key : RowKey => key.2.1) hkey
  have hconsistent := hkernel.row row hmem
  have htotal := hkernel.total_le row hmem htwo
  rw [hkey] at hconsistent htotal
  rw [← le_sub_iff_add_le']
  cases hlanding : o.landing with
  | hidden state =>
    exact (hlegal.hidden actionId o state hlanding).mixture_le fun a _ =>
      le_sub_iff_add_le'.mpr (htotal o ho (kernel.hiddenReward state a) (hlanding ▸ ⟨a, rfl⟩))
  | named destinationId =>
    cases hactive : model.activeState destinationId with
    | none =>
      rw [TrueKernel.nextReward_none hactive]
      exact sub_nonneg.mpr ((hconsistent.reward o ho).2.trans (rewardUpper_le_ceiling hcovered he))
    | some s =>
      obtain ⟨d, hd, hcategory⟩ := activeState_eq_some.mp hactive
      obtain ⟨item, hitem, hplace⟩ := List.mem_map.mp (hconsistent.listed o ho)
      rw [hlanding] at hplace
      obtain rfl : item.destinationId = destinationId := hplace
      rw [TrueKernel.nextReward_some hactive]
      refine (hlegal.next actionId o _ s hlanding hactive).mixture_le fun a ha => ?_
      -- The state is reached, so the model has the row of its action.
      obtain ⟨catalogue, hcatalogue, hlistedAction⟩ := id ha
      obtain ⟨action, haction, rfl⟩ := List.mem_map.mp hlistedAction
      obtain ⟨next, hnext⟩ := hmodel.exists_childRow
        (hlisted row hmem htwo item hitem d s hd hcategory) hcatalogue haction
      obtain ⟨hnextMem, hnextKey⟩ := mem_of_row hnext
      have hlast := hkernel.row next hnextMem
      rw [hnextKey] at hlast
      rw [← hlast.meanOutcome_const (c := threshold.rewardCeiling - o.reward)]
      refine hlast.meanOutcome_mono fun o' ho' => le_sub_iff_add_le'.mpr (htotal o ho _ ?_)
      rw [hlanding, TrueKernel.mem_continuations_some hactive]
      exact ⟨action.actionId, ha, o', ho', rfl⟩

/-- No legal policy earns more from a root action than its row allows over the best children. -/
theorem rootReward_le (he : evaluateGroundRow ids model threshold childValues category
      policyScopeKey row = .ok e) (hlisted : ActiveListed model) (hlegal : policy.Legal model)
    (hchild : ∀ s v a, childValues.lookup s = some v → HasAction model s a →
      kernel.lastReward s a ≤ v.rewardUpper) :
    kernel.rootReward model policy actionId ≤ e.bound.rewardUpper := by
  obtain ⟨hmem, hkey⟩ := mem_of_row hrow
  have hconsistent := hkernel.row row hmem
  rw [hkey] at hconsistent
  exact meanOutcome_le_rewardUpper hcovered he hconsistent
    (fun o ho item hitem hplace =>
      nextReward_le_worth hmodel hkernel hrow hcovered hlegal hchild ho hitem hplace)
    fun o ho => reward_add_nextReward_le hmodel hkernel hrow hcovered he hlisted hlegal ho

end Steps

end Acfqp.Robust
