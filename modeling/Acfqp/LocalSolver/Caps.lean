import Acfqp.LocalSolver.Solver

/-!
# Larger limits change no complete result

A limit is only ever compared with a counter, and passing it ends the search. So a search that no
limit stops runs in the same way under every larger limits, step by step.
-/

namespace Acfqp.LocalSolver

open Library

/-- The search was ended by a limit. -/
def Halt.isCap : Halt → Prop
  | .capReached _ => True
  | .raised _ => False

/-- The second search runs as the first, unless a limit ends the first. -/
abbrev Outlasts {α : Type} (x y : Search α) : Prop := Prolongs Halt.isCap x y

/-- A weaker test stops no more often. -/
theorem stopIf_outlasts {passed passed' : Prop} [Decidable passed] [Decidable passed']
    (reason : String) (h : passed' → passed) :
    Outlasts (stopIf passed reason) (stopIf passed' reason) := by
  intro s hs
  by_cases hp : passed
  · rw [stopIf, if_pos hp] at hs
    exact absurd trivial (hs _ s rfl)
  · rw [stopIf, stopIf, if_neg hp, if_neg (mt h hp)]

section Steps

variable {limits larger : SearchLimits} (hwithin : limits.Within larger)
  {capability : Capability}

include hwithin

theorem chargeTerms_outlasts (terms : ℕ) :
    Outlasts (chargeTerms limits terms) (chargeTerms larger terms) := by
  refine .bind (.refl _) fun s => .bind (stopIf_outlasts _ fun h => ?_) fun _ => .refl _
  exact hwithin.terms.trans_lt h

theorem checkBits_outlasts (values : List ℚ) :
    Outlasts (checkBits limits values) (checkBits larger values) := by
  refine stopIf_outlasts _ fun h => ?_
  obtain ⟨value, hvalue, hbits⟩ := h
  exact ⟨value, hvalue, hwithin.bits.trans_lt hbits⟩

theorem actionValue_outlasts (action : Action) :
    Outlasts (actionValue limits capability action) (actionValue larger capability action) := by
  refine .bind (.refl _) fun _ => .bind ?_ fun total => ?_
  · refine (prolongsRel _).foldlM _ _ fun total exit _ => ?_
    exact .bind (chargeTerms_outlasts hwithin 2) fun _ => .refl _
  · exact .bind (checkBits_outlasts hwithin _) fun _ => .refl _

theorem formValue_outlasts (form : SparseForm) (values : List (String × ℚ)) :
    Outlasts (formValue limits form values) (formValue larger form values) := by
  refine .bind (.refl _) fun _ => .bind (chargeTerms_outlasts hwithin _) fun _ => ?_
  exact .bind (.refl _) fun terms => .bind (checkBits_outlasts hwithin _) fun _ => .refl _

theorem evaluateAssignment_outlasts (assignment : List ((Cell × Member) × Action)) :
    Outlasts (evaluateAssignment limits capability assignment)
      (evaluateAssignment larger capability assignment) := by
  have hforms : ∀ (forms : List SparseForm) (values : List (String × ℚ)),
      Outlasts (forms.mapM fun form => formValue limits form values)
        (forms.mapM fun form => formValue larger form values) := fun forms values =>
    (prolongsRel _).mapM forms fun form _ => formValue_outlasts hwithin form values
  refine .bind ((prolongsRel _).mapM _ fun a _ => ?_) fun chosen => ?_
  · exact .bind (actionValue_outlasts hwithin a.2) fun _ => .refl _
  · refine .bind (hforms _ _) fun rewards => .bind (.refl _) fun rewardFloor => ?_
    refine .bind (hforms _ _) fun failures => .bind (.refl _) fun failureCeiling => ?_
    exact .bind (checkBits_outlasts hwithin _) fun _ => .refl _

theorem compareRootPoint_outlasts (candidate : RootPoint) (points remove : List RootPoint) :
    Outlasts (compareRootPoint limits candidate points remove)
      (compareRootPoint larger candidate points remove) := by
  induction points generalizing remove with
  | nil => exact .refl _
  | cons incumbent rest ih =>
    refine .bind (.refl _) fun s => .bind (stopIf_outlasts _ fun h => ?_) fun _ => ?_
    · exact hwithin.comparisons.trans h
    · refine .bind (.refl _) fun _ => ?_
      split
      · exact .refl _
      · split
        · exact .refl _
        · split
          · exact ih _
          · exact ih _

theorem placeRootPoint_outlasts (candidate : RootPoint) (kept : List RootPoint) :
    Outlasts (placeRootPoint limits candidate kept) (placeRootPoint larger candidate kept) := by
  refine .bind (.refl _) fun _ => .bind (.refl _) fun _ => stopIf_outlasts _ fun h => ?_
  exact hwithin.points.trans_lt h

theorem insertRootPoint_outlasts (candidate : RootPoint) :
    Outlasts (insertRootPoint limits candidate) (insertRootPoint larger candidate) := by
  refine .bind (.refl _) fun s => .bind (compareRootPoint_outlasts hwithin _ _ _) fun found => ?_
  split
  · exact .refl _
  · split
    · split
      · exact .refl _
      · exact placeRootPoint_outlasts hwithin _ _
    · exact placeRootPoint_outlasts hwithin _ _

theorem tryAssignment_outlasts (members : List (Cell × Member)) (actions : List Action) :
    Outlasts (tryAssignment limits capability members actions)
      (tryAssignment larger capability members actions) := by
  refine .bind (.refl _) fun s => .bind (stopIf_outlasts _ fun h => ?_) fun _ => ?_
  · exact hwithin.assignments.trans h
  · refine .bind (.refl _) fun _ => .bind (evaluateAssignment_outlasts hwithin _) fun point => ?_
    exact insertRootPoint_outlasts hwithin point

end Steps

theorem recordSubset_outlasts (localized : List Cell) (theoretical : ℕ) {x y : Search Unit}
    (h : Outlasts x y) :
    Outlasts (recordSubset localized theoretical x) (recordSubset localized theoretical y) := by
  refine .bind (.refl _) fun before => .bind (.refl _) fun _ => .bind ?_ fun _ => .refl _
  refine h.tryCatch fun halt s hcap => ?_
  cases halt with
  | capReached reason => exact ⟨.capReached reason, _, rfl, trivial⟩
  | raised e => exact hcap.elim

section Search

variable {limits larger : SearchLimits} (hwithin : limits.Within larger)
  {capability : Capability}

include hwithin

theorem searchSubset_outlasts (localized : List Cell) :
    Outlasts (searchSubset limits capability localized)
      (searchSubset larger capability localized) := by
  refine .bind (.refl _) fun s => .bind (stopIf_outlasts _ fun h => ?_) fun _ => ?_
  · exact hwithin.subsets.trans h
  · refine .bind (.refl _) fun _ => .bind (recordSubset_outlasts _ _ ?_) fun _ => .refl _
    exact (prolongsRel _).forM _ fun actions _ => tryAssignment_outlasts hwithin _ actions

theorem searchCardinalities_outlasts (cells : List Cell) (cardinalities : List ℕ) :
    Outlasts (searchCardinalities limits capability cells cardinalities)
      (searchCardinalities larger capability cells cardinalities) := by
  induction cardinalities with
  | nil => exact .refl _
  | cons cardinality rest ih =>
    refine .bind ((prolongsRel _).mapM _ fun localized _ =>
      searchSubset_outlasts hwithin localized) fun overlays => ?_
    split
    · exact .refl _
    · exact ih

theorem searchOverlay_outlasts (cells : List Cell) :
    Outlasts (searchOverlay limits capability cells) (searchOverlay larger capability cells) :=
  .bind (checkBits_outlasts hwithin _) fun _ => searchCardinalities_outlasts hwithin _ _

end Search

theorem not_isCap_of_complete {capability : Capability} {request : GeneralLocalRequest}
    {slice : GroundSlice} {run : Except Halt (Option (List String × RootPoint)) × SearchState}
    {result : GeneralLocalSolverResult}
    (h : resultOf capability request slice run = .ok result)
    (hcomplete : result.status ≠ .searchCapExhausted) :
    ∀ e t, run = (.error e, t) → ¬ e.isCap := by
  rintro e t rfl hcap
  cases e with
  | capReached reason =>
    cases h
    exact hcomplete rfl
  | raised e => exact hcap

theorem resultOf_relimit {capability : Capability} {request : GeneralLocalRequest}
    {slice : GroundSlice} {run : Except Halt (Option (List String × RootPoint)) × SearchState}
    {result : GeneralLocalSolverResult} (requestId : String) (limits : SearchLimits)
    (h : resultOf capability request slice run = .ok result) :
    resultOf capability (request.relimit requestId limits) slice run =
      .ok { result with requestId := requestId, searchLimits := limits } := by
  obtain ⟨(reason | error) | (_ | overlay), s⟩ := run <;> cases h <;> rfl

/-- Under larger limits a complete search gives the same result, which only names the request and
the limits that it is a result of. -/
theorem solveGeneralLocalRecovery_relimit {capability : Capability} {slice : GroundSlice}
    {request : GeneralLocalRequest} {result : GeneralLocalSolverResult}
    (h : solveGeneralLocalRecovery capability slice request = .ok result)
    (hcomplete : result.status ≠ .searchCapExhausted) {limits : SearchLimits}
    (hwithin : request.searchLimits.Within limits) (requestId : String) :
    solveGeneralLocalRecovery capability slice (request.relimit requestId limits) =
      .ok { result with requestId := requestId, searchLimits := limits } := by
  obtain ⟨_, hparse, h⟩ := bind_eq_ok.mp h
  obtain ⟨_, hslice, h⟩ := bind_eq_ok.mp h
  have hrun : attempt (searchOverlay (request.relimit requestId limits).searchLimits capability
      slice.cells) .start =
      attempt (searchOverlay request.searchLimits capability slice.cells) .start :=
    searchOverlay_outlasts hwithin slice.cells .start (not_isCap_of_complete h hcomplete)
  refine bind_eq_ok.mpr ⟨(), hparse, bind_eq_ok.mpr ⟨(), hslice, ?_⟩⟩
  rw [hrun]
  exact resultOf_relimit requestId limits h

/-- A complete result does not change when the limits grow. -/
theorem solveGeneralLocalRecovery_capMonotone {capability : Capability} {slice : GroundSlice}
    {request : GeneralLocalRequest} {result : GeneralLocalSolverResult}
    (h : solveGeneralLocalRecovery capability slice request = .ok result)
    (hcomplete : result.status ≠ .searchCapExhausted) {limits : SearchLimits}
    (hwithin : request.searchLimits.Within limits) (requestId : String) :
    ∃ result', solveGeneralLocalRecovery capability slice (request.relimit requestId limits) =
        .ok result' ∧
      result'.status = result.status ∧ result'.localizedNodeIds = result.localizedNodeIds ∧
      result'.decisions = result.decisions ∧ result'.rootRewardLower = result.rootRewardLower ∧
      result'.rootFailureUpper = result.rootFailureUpper :=
  ⟨_, solveGeneralLocalRecovery_relimit h hcomplete hwithin requestId, rfl, rfl, rfl, rfl, rfl⟩

/-! ## Two cells to patch, each held or pushed -/

theorem sides_sorted : ["left", "right"].Pairwise (· < ·) := by decide

theorem no_failure : (0 : ℚ) ≤ 0 := le_rfl

theorem port_bounds : (0 : ℚ) ≤ 0 ∧ (0 : ℚ) ≤ 1 := by norm_num

/-- The root is worth what the two cells are together. -/
def patchForm : SparseForm :=
  ⟨"root", 0, [("left", 1), ("right", 1)], sides_sorted, by simp⟩

/-- The floor needs both cells, and pushing one of them passes the ceiling. -/
def patchCapability : Capability where
  capabilityId := "capability"
  frontierId := "frontier"
  requiredRewardFloor := 1
  allowedFailureCeiling := 1 / 4
  inputPorts := ["left", "right"].map fun side => ⟨side, 0, 0, port_bounds⟩
  exitPorts := []
  rewardForms := [patchForm]
  failureForms := [patchForm]
  ceiling_mem := by norm_num
  inputs_sorted := sides_sorted
  exits_sorted := .nil
  ports_disjoint := by simp
  reward_ne_nil := by simp
  failure_ne_nil := by simp
  forms_known := by decide

def hold : Action := ⟨"hold", 1 / 2, 0, [], no_failure, .nil, by simp, by simp⟩

def push (reward : ℚ) : Action :=
  ⟨"push", reward, 1 / 2, [], by norm_num, .nil, by simp, by norm_num⟩

def patchMember (side : String) (reward : ℚ) : Member :=
  ⟨side, [hold, push reward], by simp, (by decide : ["hold", "push"].Pairwise (· < ·))⟩

def patchCell (side : String) (reward : ℚ) : Cell :=
  ⟨side, "cell", 1, side, [patchMember side reward], Nat.one_pos, rfl, by simp,
    List.pairwise_singleton _ _⟩

def patchSlice : GroundSlice :=
  ⟨"slice", "frontier", [patchCell "left" 1, patchCell "right" 2], by simp, sides_sorted,
    by decide⟩

/-- The least limits of the search below, but for the terms of its affine forms. -/
def patchLimits (terms : ℕ) (h : 0 < terms) : SearchLimits := ⟨4, 9, 3, 7, terms, 3, by simpa⟩

def patchRequest : GeneralLocalRequest :=
  ⟨"request", "occurrence", "frontier", "capability", "slice", patchLimits 36 (by decide)⟩

theorem patch_certified : GeneralLocalSolverResult.status <$>
    solveGeneralLocalRecovery patchCapability patchSlice patchRequest = .ok .certified := by
  decide +kernel

theorem solveGeneralLocalRecovery_capMonotone_patch :
    ∃ result', solveGeneralLocalRecovery patchCapability patchSlice
        (patchRequest.relimit "wider" (patchLimits 50 (by decide))) = .ok result' ∧
      result'.status = .certified := by
  obtain ⟨result, hresult, hstatus⟩ := map_eq_ok.mp patch_certified
  have hwithin : patchRequest.searchLimits.Within (patchLimits 50 (by decide)) := by
    constructor <;> decide
  obtain ⟨result', hresult', hstatus', -⟩ := solveGeneralLocalRecovery_capMonotone hresult
    (by rw [hstatus]; decide) hwithin "wider"
  exact ⟨result', hresult', hstatus'.trans hstatus⟩

example : GeneralLocalSolverResult.status <$>
    solveGeneralLocalRecovery patchCapability patchSlice
      (patchRequest.relimit "narrower" (patchLimits 35 (by decide))) = .ok .searchCapExhausted := by
  decide +kernel

end Acfqp.LocalSolver
