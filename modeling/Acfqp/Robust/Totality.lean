import Acfqp.Robust.Readers
import Acfqp.Robust.ZeroOther

/-!
# Totality of the robust solvers

On an accepted model whose listed active destinations are all reached, a solver returns an audit or
refuses in one of a few typed ways. No lookup is missing, no expectation fails, and no check of the
audit itself does.
-/

namespace Acfqp.Robust

open Library PartialSupportIntervalModel

variable {ids : PlannerIds} {model : PartialSupportIntervalModel}
  {threshold : RobustThresholdProfile}

/-! ## Refusals -/

/-- What a solved core establishes. -/
structure CoreSound (ids : PlannerIds) (threshold : RobustThresholdProfile) (core : SolvedCore) :
    Prop where
  selected : PolicySound ids threshold core.unrestrictedRewardUpper core.selected
  regret_nonneg : 0 ≤ core.normalizedRegretUpper

theorem exists_argmin {α κ : Type} [LinearOrder κ] (key : α → κ) {l : List α} (hl : l ≠ []) :
    ∃ a ∈ l, l.argmin key = some a := by
  cases h : l.argmin key with
  | none => exact absurd (List.argmin_eq_none.mp h) hl
  | some a => exact ⟨a, List.argmin_mem h, rfl⟩

theorem PolicySound.within {limit limit' : ℚ} {policy : PolicyEvaluation}
    (h : PolicySound ids threshold limit policy) (hle : policy.rewardUpper ≤ limit') :
    PolicySound ids threshold limit' policy :=
  { h with upper_le := hle }

section Audit

variable {core : SolvedCore}

theorem bounds_nodup (h : CoreSound ids threshold core) :
    ((core.selected.rows.map RowEvaluation.bound).map RobustSelectedRowBound.rowId).Nodup := by
  rw [List.map_map]
  exact h.selected.rows_nodup

end Audit

section

def unaryName {α : Type} [Encodable α] (a : α) : String :=
  String.ofList (List.replicate (Encodable.encode a) '1')

theorem unaryName_injective {α : Type} [Encodable α] :
    Function.Injective (unaryName : α → String) := by
  intro a b h
  have hlength := congrArg List.length (String.ofList_injective h)
  rw [List.length_replicate, List.length_replicate] at hlength
  exact Encodable.encode_injective hlength

def letters (s : String) : List ℕ := s.toList.map Char.toNat

theorem letters_injective : Function.Injective letters := by
  intro s t h
  refine String.toList_injective (List.map_injective_iff.mpr (fun c d hcd => ?_) h)
  exact Char.toNat_inj.mp hcd

def sampleIds : PlannerIds where
  rowId row := unaryName (letters row.stateId, row.remainingHorizon, letters row.actionId,
    row.rewardLower, row.rewardUpper, letters row.otherDestinationId,
    row.masses.map fun item => (letters item.destinationId, item.lower, item.upper))
  concretizerEntryId entry := unaryName (letters entry.stateCoordinateKey, letters entry.stateId,
    letters entry.abstractActionKey, entry.groundActionIds.map letters)
  modelId _ := "model"
  thresholdProfileId _ := "threshold"
  assignmentId item := unaryName (decide (item.scope = .groundState), letters item.scopeKey,
    item.remainingHorizon, letters item.selectedActionKey)
  rowBoundId bound := unaryName (letters bound.rowId, bound.remainingHorizon, bound.rewardLower,
    bound.rewardUpper, bound.failureUpper, bound.otherMassLower, bound.otherMassUpper,
    bound.otherMassUsedForRewardLower, bound.otherMassUsedForRewardUpper,
    bound.otherMassUsedForFailureUpper)
  provenanceId item := unaryName (letters item.rowId, decide (item.category = .rootSelected),
    decide (item.category = .continuationSelected),
    decide (item.category = .rootConcretizerComponent), letters item.policyScopeKey,
    letters item.groundStateId, letters item.groundActionId, item.remainingHorizon)
  otherMassProvenanceId item := unaryName (letters item.rowId, item.remainingHorizon,
    decide (item.category = .rootSelected), decide (item.category = .continuationSelected),
    decide (item.category = .rootConcretizerComponent), item.otherMassUpper)

theorem sampleIds_distinct : sampleIds.Distinct := by
  have hletters : ∀ s t, letters s = letters t ↔ s = t := fun _ _ => letters_injective.eq_iff
  constructor
  all_goals
    intro a b h
    have hcode := unaryName_injective h
    cases a
    cases b
    simp only [Prod.mk.injEq, hletters] at hcode
  · obtain ⟨rfl, rfl, rfl, rfl, rfl, rfl, hmasses⟩ := hcode
    have hinjective : Function.Injective fun item : IntervalDestinationMass =>
        (letters item.destinationId, item.lower, item.upper) := fun x y hxy => by
      cases x
      cases y
      simpa [hletters] using hxy
    cases List.map_injective_iff.mpr hinjective hmasses
    rfl
  · obtain ⟨rfl, rfl, rfl, hactions⟩ := hcode
    cases List.map_injective_iff.mpr letters_injective hactions
    rfl
  · rename_i scope _ _ _ scope' _ _ _
    cases scope <;> cases scope' <;> simp_all
  · simp_all
  · rename_i category _ _ _ _ _ category' _ _ _ _
    cases category <;> cases category' <;> simp_all
  · rename_i category _ _ _ category' _
    cases category <;> cases category' <;> simp_all

def goAction : CatalogueAction := ⟨"go", "advance"⟩

def startCatalogue : StateActionCatalogue :=
  ⟨"start", "cell", [goAction], List.cons_ne_nil _ _, List.pairwise_singleton _ _⟩

def elsewhere : RegisteredDestination := ⟨"elsewhere", .other⟩

theorem one_nonneg : (0 : ℚ) ≤ 1 := zero_le_one

theorem one_le_one : (1 : ℚ) ≤ 1 := le_rfl

def wholeMass : IntervalDestinationMass :=
  ⟨"elsewhere", 1, 1, one_nonneg, one_le_one, one_le_one⟩

theorem twoSteps : 2 = 1 ∨ 2 = 2 := .inr rfl

def startRow : IntervalSimplexRow where
  stateId := "start"
  remainingHorizon := 2
  actionId := "go"
  rewardLower := 0
  rewardUpper := 0
  otherDestinationId := "elsewhere"
  masses := [wholeMass]
  horizon_mem := twoSteps
  reward_nonneg := zero_le_zero
  reward_le := zero_le_zero
  masses_sorted := List.pairwise_singleton _ _
  other_mem := List.mem_singleton.mpr rfl
  admissible := by decide +kernel

def startConcretizer : DistinctActionConcretizerEntry :=
  ⟨"cell", "start", "advance", ["go"], List.cons_ne_nil _ _, List.pairwise_singleton _ _⟩

/-- One state, one action, and nothing observed of where it goes. -/
def unobservedModel (concretizerEntries : List DistinctActionConcretizerEntry) :
    PartialSupportIntervalModel :=
  ⟨"context", "start", [startCatalogue], [elsewhere], [startRow], concretizerEntries⟩

theorem ceiling_one_pos : (0 : ℚ) < 1 := zero_lt_one

theorem half_le_one : (1 / 2 : ℚ) ≤ 1 := by norm_num

def evenThreshold : RobustThresholdProfile :=
  ⟨"context", 1 / 2, 1, by norm_num, half_le_one, ceiling_one_pos⟩

def laterCatalogue : StateActionCatalogue :=
  ⟨"later", "cell", [goAction], List.cons_ne_nil _ _, List.pairwise_singleton _ _⟩

def beyond : RegisteredDestination := ⟨"beyond", .activeState "later"⟩

theorem lastStep : 1 = 1 ∨ 1 = 2 := .inl rfl

def mostMass (destinationId : String) : IntervalDestinationMass :=
  ⟨destinationId, 19 / 20, 1, by norm_num, by norm_num, one_le_one⟩

def littleMass (destinationId : String) : IntervalDestinationMass :=
  ⟨destinationId, 0, 1 / 20, zero_le_zero, by norm_num, by norm_num⟩

theorem walk_sorted {stop : String} (h : stop < "elsewhere") :
    ([mostMass stop, littleMass "elsewhere"].map
      IntervalDestinationMass.destinationId).Pairwise (· < ·) := by
  simpa [mostMass, littleMass] using h

theorem walk_mem (stop : String) : "elsewhere" ∈ [mostMass stop, littleMass "elsewhere"].map
    IntervalDestinationMass.destinationId := by
  simp [littleMass]

theorem walk_admissible (stop : String) :
    AdmissibleSimplex [mostMass stop, littleMass "elsewhere"] := by
  norm_num [AdmissibleSimplex, mostMass, littleMass]

theorem beyond_lt : "beyond" < "elsewhere" := by decide

theorem done_lt : "done" < "elsewhere" := by decide

theorem quarter_nonneg : (0 : ℚ) ≤ 1 / 4 := by norm_num

def walkRow (stateId : String) (remainingHorizon : ℕ) (stop : String)
    (horizon : remainingHorizon = 1 ∨ remainingHorizon = 2) (h : stop < "elsewhere") :
    IntervalSimplexRow where
  stateId := stateId
  remainingHorizon := remainingHorizon
  actionId := "go"
  rewardLower := 1 / 4
  rewardUpper := 1 / 4
  otherDestinationId := "elsewhere"
  masses := [mostMass stop, littleMass "elsewhere"]
  horizon_mem := horizon
  reward_nonneg := quarter_nonneg
  reward_le := le_rfl
  masses_sorted := walk_sorted h
  other_mem := walk_mem stop
  admissible := walk_admissible stop

def laterConcretizer : DistinctActionConcretizerEntry :=
  ⟨"cell", "later", "advance", ["go"], List.cons_ne_nil _ _, List.pairwise_singleton _ _⟩

/-- From the start through a later state to success, with a little mass unobserved. -/
def walkModel : PartialSupportIntervalModel :=
  ⟨"context", "start", [laterCatalogue, startCatalogue],
    [beyond, ⟨"done", .successTerminal⟩, elsewhere],
    [walkRow "later" 1 "done" lastStep done_lt, walkRow "start" 2 "beyond" twoSteps beyond_lt],
    [laterConcretizer, startConcretizer]⟩

/-- A short name on the known records, and a long one on all others. -/
def shortened {α : Type} [DecidableEq α] (known : List α) (short long : α → String) (a : α) :
    String :=
  if a ∈ known then "k" ++ short a else "u" ++ long a

theorem shortened_injective {α : Type} [DecidableEq α] {known : List α} {short long : α → String}
    (hshort : (known.map short).Nodup) (hlong : Function.Injective long) :
    Function.Injective (shortened known short long) := by
  intro a b h
  unfold shortened at h
  replace h := congrArg String.toList h
  split at h <;> split at h <;> simp only [String.toList_append] at h
  · rename_i ha hb
    exact List.inj_on_of_nodup_map hshort ha hb (String.toList_injective (by simpa using h))
  · simp at h
  · simp at h
  · exact hlong (String.toList_injective (by simpa using h))

deriving instance DecidableEq for DistinctActionConcretizerEntry

end

end Acfqp.Robust
