import Acfqp.Library.Outcomes
import Acfqp.Robust.Evaluation

/-!
# Rows over bounded children

Over children whose values are bounded, the evaluation of a row returns, unless its reward passes
the ceiling. Its bounds are the extreme expectations over the simplex, so they are monotone in the
values of the destinations that can carry mass.
-/

namespace Acfqp.Robust

open Library

/-! ## Extreme expectations of a row -/

section

variable {row : IntervalSimplexRow} {p : String → ℚ} {f g : IntervalDestinationMass → ℚ}

def expected (row : IntervalSimplexRow) (p : String → ℚ) (f : IntervalDestinationMass → ℚ) : ℚ :=
  (row.masses.map fun item => p item.destinationId * f item).sum

def tableOf (row : IntervalSimplexRow) (f : IntervalDestinationMass → ℚ) : List (String × ℚ) :=
  row.masses.map fun item => (item.destinationId, f item)

theorem IntervalSimplexRow.ids_nodup (row : IntervalSimplexRow) :
    (row.masses.map IntervalDestinationMass.destinationId).Nodup :=
  row.masses_sorted.imp fun h => ne_of_lt h

theorem entry_tableOf {item : IntervalDestinationMass} (hitem : item ∈ row.masses) :
    entry (tableOf row f) item.destinationId = f item := by
  have hkeys : (tableOf row f).map Prod.fst =
      row.masses.map IntervalDestinationMass.destinationId := by
    simp [tableOf, Function.comp_def]
  have hmem : (item.destinationId, f item) ∈ tableOf row f := List.mem_map.mpr ⟨item, hitem, rfl⟩
  simp [entry, Dict.lookup_eq_some (hkeys ▸ row.ids_nodup) hmem]

theorem expected_eq (row : IntervalSimplexRow) (p : String → ℚ) (f : IntervalDestinationMass → ℚ) :
    expectation row.masses (tableOf row f) p = expected row p f :=
  congrArg List.sum (List.map_congr_left fun _ hitem => by rw [entry_tableOf hitem])

theorem expected_mono (hp : InSimplex row.masses p)
    (h : ∀ item ∈ row.masses, 0 < item.upper → f item ≤ g item) :
    expected row p f ≤ expected row p g := by
  refine List.sum_le_sum fun item hitem => ?_
  obtain ⟨hlower, hupper⟩ := hp.bounds item hitem
  rcases (item.lower_nonneg.trans item.lower_le_upper).eq_or_lt with hzero | hpos
  · have hnone : p item.destinationId = 0 :=
      le_antisymm (hupper.trans hzero.ge) (item.lower_nonneg.trans hlower)
    simp [hnone]
  · exact mul_le_mul_of_nonneg_left (h item hitem hpos) (item.lower_nonneg.trans hlower)

theorem expected_const (hp : InSimplex row.masses p) (c : ℚ) : expected row p (fun _ => c) = c := by
  rw [expected, List.sum_map_mul_right, hp.mass, one_mul]

/-- An extreme expectation, with the distribution that attains it. -/
structure IsExtreme (row : IntervalSimplexRow) (f : IntervalDestinationMass → ℚ) (maximize : Bool)
    (e : ExtremeExpectation) : Prop where
  inSimplex : InSimplex row.masses (entry e.allocations)
  value_eq : e.value = expected row (entry e.allocations) f
  optimal : ∀ p, InSimplex row.masses p →
    direction maximize * expected row p f ≤ direction maximize * e.value

theorem extremeExpectation_isExtreme (row : IntervalSimplexRow) (f : IntervalDestinationMass → ℚ)
    (maximize : Bool) : ∃ e, extremeExpectation row.masses (tableOf row f) maximize = .ok e ∧
      IsExtreme row f maximize e := by
  obtain ⟨e, he, -, hsimplex, hvalue, hbest⟩ := @extremeExpectation_spec row.masses
    (tableOf row f) maximize row.ids_nodup row.admissible
    (by simp [tableOf, Function.comp_def])
  refine ⟨e, he, hsimplex, hvalue.trans (expected_eq ..), fun p hp => ?_⟩
  rw [← expected_eq]
  exact hbest p hp

namespace IsExtreme

variable {e e' : ExtremeExpectation}

theorem le_max (h : IsExtreme row f true e) (hp : InSimplex row.masses p) :
    expected row p f ≤ e.value := by
  simpa [direction] using h.optimal p hp

theorem min_le (h : IsExtreme row f false e) (hp : InSimplex row.masses p) :
    e.value ≤ expected row p f := by
  simpa [direction] using h.optimal p hp

theorem mono_max (h : IsExtreme row f true e) (h' : IsExtreme row g true e')
    (hfg : ∀ item ∈ row.masses, 0 < item.upper → f item ≤ g item) : e.value ≤ e'.value := by
  rw [h.value_eq]
  exact (expected_mono h.inSimplex hfg).trans (h'.le_max h.inSimplex)

theorem mono_min (h : IsExtreme row f false e) (h' : IsExtreme row g false e')
    (hfg : ∀ item ∈ row.masses, 0 < item.upper → f item ≤ g item) : e.value ≤ e'.value := by
  rw [h'.value_eq]
  exact (h.min_le h'.inSimplex).trans (expected_mono h'.inSimplex hfg)

theorem min_le_max (h : IsExtreme row f false e) (h' : IsExtreme row g true e')
    (hfg : ∀ item ∈ row.masses, 0 < item.upper → f item ≤ g item) : e.value ≤ e'.value :=
  (h.min_le h'.inSimplex).trans ((expected_mono h'.inSimplex hfg).trans h'.value_eq.ge)

theorem le_const {maximize : Bool} {c : ℚ} (h : IsExtreme row f maximize e)
    (hf : ∀ item ∈ row.masses, 0 < item.upper → f item ≤ c) : e.value ≤ c := by
  rw [h.value_eq, ← expected_const h.inSimplex c]
  exact expected_mono h.inSimplex hf

theorem const_le {maximize : Bool} {c : ℚ} (h : IsExtreme row f maximize e)
    (hf : ∀ item ∈ row.masses, 0 < item.upper → c ≤ f item) : c ≤ e.value := by
  rw [h.value_eq, ← expected_const h.inSimplex c]
  exact expected_mono h.inSimplex hf

/-- The unobserved mass of the attaining distribution stays in its interval. -/
theorem other_mem {maximize : Bool} (h : IsExtreme row f maximize e) :
    row.otherMass.lower ≤ entry e.allocations row.otherDestinationId ∧
      entry e.allocations row.otherDestinationId ≤ row.otherMass.upper := by
  have hfind : row.masses.find? (fun item => item.destinationId = row.otherDestinationId) =
      some row.otherMass := (Option.some_get row.isSome_other).symm
  have hmem := h.inSimplex.bounds _ (List.mem_of_find?_eq_some hfind)
  have hid : row.otherMass.destinationId = row.otherDestinationId := by
    simpa using List.find?_some hfind
  rwa [hid] at hmem

end IsExtreme

end

section Values

variable {ids : PlannerIds} {model : PartialSupportIntervalModel}
  {threshold : RobustThresholdProfile} {childValues : ChildValues} {row : IntervalSimplexRow}

/-- The bounds of a value: an interval of rewards within the ceiling, and a failure probability. -/
structure Bounded (threshold : RobustThresholdProfile) (value : StateActionEvaluation) : Prop where
  lower_nonneg : 0 ≤ value.rewardLower
  lower_le : value.rewardLower ≤ value.rewardUpper
  upper_le : value.rewardUpper ≤ threshold.rewardCeiling
  failure_nonneg : 0 ≤ value.failureUpper
  failure_le_one : value.failureUpper ≤ 1

/-- The destinations of the row are registered, and a root row finds a bounded value for every
active one. -/
structure Covered (model : PartialSupportIntervalModel) (threshold : RobustThresholdProfile)
    (childValues : ChildValues) (row : IntervalSimplexRow) : Prop where
  registered : ∀ item ∈ row.masses, ∃ d, model.destination item.destinationId = some d
  children : 1 < row.remainingHorizon → ∀ item ∈ row.masses, ∀ d s,
    model.destination item.destinationId = some d → d.category = .activeState s →
      ∃ v, childValues.lookup s = some v ∧ Bounded threshold v

/-- The value that the row reads at a destination. -/
def worth (model : PartialSupportIntervalModel) (threshold : RobustThresholdProfile)
    (childValues : ChildValues) (row : IntervalSimplexRow) (item : IntervalDestinationMass) :
    DestinationValue :=
  ((destinationValue model threshold childValues row.remainingHorizon item).toOption).getD ⟨0, 0, 0⟩

theorem destinationValue_eq (h : Covered model threshold childValues row)
    {item : IntervalDestinationMass} (hitem : item ∈ row.masses) :
    destinationValue model threshold childValues row.remainingHorizon item =
        .ok (worth model threshold childValues row item) ∧
      (0 ≤ (worth model threshold childValues row item).risk ∧
        (worth model threshold childValues row item).risk ≤ 1) ∧
      0 ≤ (worth model threshold childValues row item).rewardLower ∧
      (worth model threshold childValues row item).rewardLower ≤
        (worth model threshold childValues row item).rewardUpper := by
  obtain ⟨d, hd⟩ := h.registered item hitem
  have hceiling := threshold.ceiling_pos.le
  suffices ∃ value, destinationValue model threshold childValues row.remainingHorizon item =
      .ok value ∧ (0 ≤ value.risk ∧ value.risk ≤ 1) ∧ 0 ≤ value.rewardLower ∧
        value.rewardLower ≤ value.rewardUpper by
    obtain ⟨value, hvalue, hbounds⟩ := this
    have hworth : worth model threshold childValues row item = value := by
      simp [worth, hvalue, Except.toOption]
    rw [hworth]
    exact ⟨hvalue, hbounds⟩
  unfold destinationValue
  rw [bind_of_ok (orRaise_eq_ok.mpr hd)]
  cases hcategory : d.category with
  | activeState s =>
    by_cases hroot : 1 < row.remainingHorizon
    · obtain ⟨v, hv, hbounded⟩ := h.children hroot item hitem d s hd hcategory
      simp only [hroot, if_true]
      rw [bind_of_ok (orRaise_eq_ok.mpr hv)]
      exact ⟨_, rfl, ⟨hbounded.failure_nonneg, hbounded.failure_le_one⟩, hbounded.lower_nonneg,
        hbounded.lower_le⟩
    · simp only [hroot, if_false]
      exact ⟨_, rfl, ⟨le_rfl, zero_le_one⟩, le_rfl, le_rfl⟩
  | failure => exact ⟨_, rfl, ⟨zero_le_one, le_rfl⟩, le_rfl, le_rfl⟩
  | successTerminal => exact ⟨_, rfl, ⟨le_rfl, zero_le_one⟩, le_rfl, le_rfl⟩
  | other =>
    refine ⟨_, rfl, ⟨zero_le_one, le_rfl⟩, le_rfl, ?_⟩
    dsimp only
    split
    · exact hceiling
    · exact le_rfl

/-- The evaluation of a covered row: it returns within the ceiling, and is the typed violation
beyond it. -/
theorem evaluateGroundRow_eq (h : Covered model threshold childValues row)
    (category : SelectedRowCategory) (policyScopeKey : String) :
    ∃ risk lower upper,
      IsExtreme row (fun item => (worth model threshold childValues row item).risk) true risk ∧
      IsExtreme row (fun item => (worth model threshold childValues row item).rewardLower)
        false lower ∧
      IsExtreme row (fun item => (worth model threshold childValues row item).rewardUpper)
        true upper ∧
      evaluateGroundRow ids model threshold childValues category policyScopeKey row =
        if row.rewardUpper ≤ threshold.rewardCeiling ∧
            row.rewardLower + lower.value ≤ threshold.rewardCeiling then
          .ok ⟨rowBound ids threshold row risk lower upper,
            rowProvenance ids category policyScopeKey row⟩
        else .error ceilingViolation := by
  have hvalues := fun item (hitem : item ∈ row.masses) => destinationValue_eq h hitem
  obtain ⟨risk, hrisk, hriskExtreme⟩ := extremeExpectation_isExtreme row
    (fun item => (worth model threshold childValues row item).risk) true
  obtain ⟨lower, hlower, hlowerExtreme⟩ := extremeExpectation_isExtreme row
    (fun item => (worth model threshold childValues row item).rewardLower) false
  obtain ⟨upper, hupper, hupperExtreme⟩ := extremeExpectation_isExtreme row
    (fun item => (worth model threshold childValues row item).rewardUpper) true
  refine ⟨risk, lower, upper, hriskExtreme, hlowerExtreme, hupperExtreme, ?_⟩
  have hmapM : row.masses.mapM (fun mass => do
      let value ← destinationValue model threshold childValues row.remainingHorizon mass
      .ok (mass.destinationId, value)) =
      .ok (row.masses.map fun mass =>
        (mass.destinationId, worth model threshold childValues row mass)) :=
    mapM_of_forall fun item hitem => bind_eq_ok.mpr ⟨_, (hvalues item hitem).1, rfl⟩
  have htables : ∀ part : DestinationValue → ℚ,
      ((row.masses.map fun mass =>
        (mass.destinationId, worth model threshold childValues row mass)).map fun v =>
          (v.1, part v.2)) =
        tableOf row fun item => part (worth model threshold childValues row item) := by
    intro part
    simp [tableOf, Function.comp_def]
  have hle : lower.value ≤ upper.value :=
    hlowerExtreme.min_le_max hupperExtreme fun item hitem _ => (hvalues item hitem).2.2.2
  unfold evaluateGroundRow
  rw [bind_of_ok hmapM, htables, bind_of_ok hrisk, htables, bind_of_ok hlower, htables,
    bind_of_ok hupper]
  dsimp only
  by_cases hceiling : row.rewardUpper ≤ threshold.rewardCeiling ∧
      row.rewardLower + lower.value ≤ threshold.rewardCeiling
  · have hordered : row.rewardLower + lower.value ≤
        min threshold.rewardCeiling (row.rewardUpper + upper.value) :=
      le_min hceiling.2 (add_le_add row.reward_le hle)
    have hlowerNonneg : 0 ≤ row.rewardLower + lower.value :=
      add_nonneg row.reward_nonneg
        (hlowerExtreme.const_le fun item hitem _ => (hvalues item hitem).2.2.1)
    have hriskNonneg : 0 ≤ risk.value :=
      hriskExtreme.const_le fun item hitem _ => (hvalues item hitem).2.1.1
    have hriskLe : risk.value ≤ 1 :=
      hriskExtreme.le_const fun item hitem _ => (hvalues item hitem).2.1.2
    have hother := row.otherMass.lower_nonneg
    have hotherLe := row.otherMass.lower_le_upper
    have hvalidate : (rowBound ids threshold row risk lower upper).validate =
        .ok (rowBound ids threshold row risk lower upper) := by
      unfold RobustSelectedRowBound.validate
      rw [bind_of_ok (forM_of_forall (fun field hfield => require_eq_ok.mpr ?_)),
        bind_of_ok (require_eq_ok (u := ()).mpr ?_)]
      · refine ⟨hordered, hriskLe, hotherLe, row.otherMass.upper_le_one, ?_⟩
        simp only [List.forall_mem_cons, List.not_mem_nil, false_implies, implies_true, and_true]
        exact ⟨hlowerExtreme.other_mem, hupperExtreme.other_mem, hriskExtreme.other_mem⟩
      · simp only [List.mem_cons, List.not_mem_nil, or_false] at hfield
        rcases hfield with rfl | rfl | rfl | rfl | rfl | rfl | rfl | rfl
        · exact hlowerNonneg
        · exact hlowerNonneg.trans hordered
        · exact hriskNonneg
        · exact hother
        · exact hother.trans hotherLe
        · exact hother.trans hlowerExtreme.other_mem.1
        · exact hother.trans hupperExtreme.other_mem.1
        · exact hother.trans hriskExtreme.other_mem.1
    rw [if_pos hceiling, bind_of_ok (require_eq_ok (u := ()).mpr
      ⟨hceiling.1, hceiling.2, hordered⟩), bind_of_ok hvalidate]
  · rw [if_neg hceiling]
    have hnot : ¬ (row.rewardUpper ≤ threshold.rewardCeiling ∧
        (rowBound ids threshold row risk lower upper).rewardLower ≤ threshold.rewardCeiling ∧
        (rowBound ids threshold row risk lower upper).rewardLower ≤
          (rowBound ids threshold row risk lower upper).rewardUpper) :=
      fun hall => hceiling ⟨hall.1, hall.2.1⟩
    rw [require, if_neg hnot]
    rfl

end Values

end Acfqp.Robust
