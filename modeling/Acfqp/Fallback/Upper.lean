import Acfqp.Fallback.Lockstep

/-!
# The pre-execution upper of a fallback attempt

Before an attempt, its work is bounded by the counts of the complete search, clipped by the caps,
with a prediction of whether a cap can deny a charge. The prediction compares the complete counts
with the caps, and the search reserves the registered number of outcomes before each step.
-/

namespace Acfqp.Fallback

open Library Planning

variable {S A : Type}

/-! ## Cardinality bounds -/

def boundNames : List String :=
  ["common.protocol_checks", "fallback.actions_evaluated", "fallback.bellman_backups",
    "fallback.composed_candidates", "fallback.ground_steps", "fallback.outcome_rows",
    "fallback.states_expanded", "control.cap_checks"]

/-- The counts of the complete search, as they were frozen before the attempt, and the checks that
the route's runtime factory makes. -/
structure GroundFallbackCardinalityBound where
  groundFallbackCapProfileId : ContentId
  bounds : List (String × ℕ)
  runtimeCapChecks : Option ℕ
  names : bounds.map Prod.fst = boundNames

def workCapBindings : List (String × (GroundFallbackCapProfile → ℕ)) :=
  [("control.cap_checks", (·.maxCapChecks)),
    ("fallback.actions_evaluated", (·.maxActionsEvaluated)),
    ("fallback.bellman_backups", (·.maxBellmanBackups)),
    ("fallback.ground_steps", (·.maxGroundSteps)), ("fallback.outcome_rows", (·.maxOutcomeRows)),
    ("fallback.states_expanded", (·.maxStatesExpanded))]

namespace GroundFallbackCardinalityBound

variable (b : GroundFallbackCardinalityBound) (cap : GroundFallbackCapProfile)

def value (name : String) : ℕ := (b.bounds.lookup name).getD 0

def validateAgainstCap (capProfileId : GroundFallbackCapProfile → ContentId) :
    Except PyError Unit := do
  require (b.groundFallbackCapProfileId = capProfileId cap)
    (.valueError "fallback cardinality/cap identity mismatch")
  require (cap.reservedRouteCapChecks = b.runtimeCapChecks.getD 0)
    (.valueError "fallback cap does not reserve the exact runtime-factory checks")
  require (b.value "fallback.ground_steps" ≤ b.value "fallback.actions_evaluated")
    (.valueError "ground-step upper cannot exceed action-evaluation upper")
  require (b.value "fallback.composed_candidates" ≤ b.value "fallback.bellman_backups")
    (.valueError "every composed candidate needs a registered Bellman-backup upper")
  require (b.value "fallback.outcome_rows" ≤
      b.value "fallback.ground_steps" * cap.maxPositiveOutcomesPerStep)
    (.valueError "outcome-row upper exceeds the preregistered per-step bound")

def rejectionCap (binding : String × (GroundFallbackCapProfile → ℕ)) : ℕ :=
  if binding.1 = "fallback.bellman_backups" then
    min cap.maxBellmanBackups cap.maxComposedCandidates
  else if binding.1 = "control.cap_checks" then cap.maxSolverCapChecks
  else binding.2 cap

/-- Some entry is beyond its cap. -/
def ExceedsCaps : Prop :=
  ∃ binding ∈ workCapBindings, rejectionCap cap binding < b.value binding.1

instance : Decidable (b.ExceedsCaps cap) := inferInstanceAs (Decidable (∃ _ ∈ _, _))

/-- The rejections implied before execution: none, or one. -/
def capRejectionUpper : ℕ := if b.ExceedsCaps cap then 1 else 0

def operationalCountValues (path : String) : ℕ :=
  if path = "control.cap_checks" then b.value path + b.runtimeCapChecks.getD 0
  else if path = "control.cap_rejections" then 0
  else b.value path

/-- The counts clipped by the caps, with the predicted rejections. -/
def operationalUpperValues (path : String) : ℕ :=
  let clipped := match workCapBindings.lookup path with
    | some limit => min (b.operationalCountValues path) (limit cap)
    | none => b.operationalCountValues path
  if path = "fallback.bellman_backups" then min clipped cap.maxComposedCandidates
  else if path = "control.cap_rejections" then b.capRejectionUpper cap
  else clipped

def comparedPaths : List String :=
  ["fallback.states_expanded", "fallback.actions_evaluated", "fallback.ground_steps",
    "fallback.outcome_rows", "fallback.bellman_backups", "control.cap_checks",
    "control.cap_rejections"]

/-- The paths on which the recorded work exceeds the upper. -/
def exceeded (execution : GroundFallbackExecution S A) : List String :=
  (comparedPaths.filter fun path =>
    b.operationalUpperValues cap path < execution.workVector path) ++
  if min (b.value "fallback.composed_candidates") cap.maxComposedCandidates <
    execution.result.composedCandidateCount then ["fallback.composed_candidates"] else []

end GroundFallbackCardinalityBound

section Execute

variable [DecidableEq S] [PyRepr S] [DecidableEq A] [PyRepr A]

/-- The execution after the chain of authorities is verified: the bound is checked against the cap,
and the work against the bound. -/
def executeGroundFallback (stateId : S → ContentId) (actionId : A → ContentId)
    (capProfileId : GroundFallbackCapProfile → ContentId) (b : GroundFallbackCardinalityBound)
    (cap : GroundFallbackCapProfile) (kernel : Kernel S A) (query : QuerySpec S) :
    Except AttemptError (GroundFallbackExecution S A) := do
  raising (b.validateAgainstCap cap capProfileId)
  let execution ← runGroundFallbackSearch stateId actionId cap kernel query
  if b.exceeded cap execution ≠ [] then
    .error (.protocolError ("actual fallback work exceeded its pre-execution cardinality bound: " ++
      ", ".intercalate (b.exceeded cap execution)) execution.workVector)
  return execution

end Execute

/-! ## The upper of the work -/

/-- Every entry is at least the count of the complete search. -/
structure CoversCounts (b : GroundFallbackCardinalityBound) (l : FallbackLedger) : Prop where
  states : l.statesExpanded ≤ b.value "fallback.states_expanded"
  actions : l.actionsEvaluated ≤ b.value "fallback.actions_evaluated"
  steps : l.groundSteps ≤ b.value "fallback.ground_steps"
  rows : l.outcomeRows ≤ b.value "fallback.outcome_rows"
  backups : l.bellmanBackups ≤ b.value "fallback.bellman_backups"
  candidates : l.composedCandidates ≤ b.value "fallback.composed_candidates"
  checks : l.capChecks ≤ b.value "control.cap_checks"

theorem CoversCounts.of_counted {b : GroundFallbackCardinalityBound} {l l' : FallbackLedger}
    (h : CoversCounts b l') (hle : l.Counted l') : CoversCounts b l :=
  ⟨hle.states.trans h.states, hle.actions.trans h.actions, hle.steps.trans h.steps,
    hle.rows.trans h.rows, hle.backups.trans h.backups, hle.candidates.trans h.candidates,
    hle.checks.trans h.checks⟩

/-- The recorded work is componentwise at most the upper. -/
def WorkWithin (b : GroundFallbackCardinalityBound) (cap : GroundFallbackCapProfile)
    (execution : GroundFallbackExecution S A) : Prop :=
  (∀ path ∈ GroundFallbackCardinalityBound.comparedPaths,
    execution.workVector path ≤ b.operationalUpperValues cap path) ∧
  execution.result.composedCandidateCount ≤
    min (b.value "fallback.composed_candidates") cap.maxComposedCandidates

section Bounds

variable {b : GroundFallbackCardinalityBound} {cap : GroundFallbackCapProfile}

theorem exceeded_eq_nil {execution : GroundFallbackExecution S A} :
    b.exceeded cap execution = [] ↔ WorkWithin b cap execution := by
  rw [GroundFallbackCardinalityBound.exceeded, List.append_eq_nil_iff, List.filter_eq_nil_iff,
    WorkWithin]
  simp

theorem one_le_capRejectionUpper : 1 ≤ b.capRejectionUpper cap ↔ b.ExceedsCaps cap := by
  unfold GroundFallbackCardinalityBound.capRejectionUpper
  split <;> simp_all

theorem withinCaps_of_not_exceedsCaps {l : FallbackLedger} (h : ¬ b.ExceedsCaps cap)
    (hcandidates : b.value "fallback.composed_candidates" ≤ b.value "fallback.bellman_backups")
    (hcovers : CoversCounts b l) : WithinCaps cap l := by
  have hle : ∀ binding ∈ workCapBindings, b.value binding.1 ≤
      GroundFallbackCardinalityBound.rejectionCap cap binding := by
    intro binding hbinding
    by_contra hlt
    exact h ⟨binding, hbinding, not_le.mp hlt⟩
  have hcaps : b.value "control.cap_checks" ≤ cap.maxSolverCapChecks ∧
      b.value "fallback.actions_evaluated" ≤ cap.maxActionsEvaluated ∧
      (b.value "fallback.bellman_backups" ≤ cap.maxBellmanBackups ∧
        b.value "fallback.bellman_backups" ≤ cap.maxComposedCandidates) ∧
      b.value "fallback.ground_steps" ≤ cap.maxGroundSteps ∧
      b.value "fallback.outcome_rows" ≤ cap.maxOutcomeRows ∧
      b.value "fallback.states_expanded" ≤ cap.maxStatesExpanded := by
    simpa [workCapBindings, GroundFallbackCardinalityBound.rejectionCap] using hle
  obtain ⟨hchecks, hactions, ⟨hbackups, hcomposed⟩, hsteps, hrows, hstates⟩ := hcaps
  exact ⟨hcovers.states.trans hstates, hcovers.actions.trans hactions,
    hcovers.steps.trans hsteps, hcovers.rows.trans hrows, hcovers.backups.trans hbackups,
    (hcovers.candidates.trans hcandidates).trans hcomposed, hcovers.checks.trans hchecks⟩

/-- Work within the caps and the bound, with no rejection beyond the predicted one, is within the
upper. -/
theorem workWithin_iff {l : FallbackLedger} {outcome : GroundFallbackOutcome}
    {execution : GroundFallbackExecution S A} (hwork : execution.workVector = workVector l outcome)
    (hcomposed : execution.result.composedCandidateCount = l.composedCandidates)
    (hcap : WithinCaps cap l) (hcovers : CoversCounts b l)
    (hpairs : l.bellmanBackups = l.composedCandidates) :
    WorkWithin b cap execution ↔ l.capRejections ≤ b.capRejectionUpper cap := by
  have hsolver : cap.maxSolverCapChecks ≤ cap.maxCapChecks := Nat.sub_le _ _
  have hchecks := hcap.checks.trans hsolver
  constructor
  · intro h
    have hrejections := h.1 "control.cap_rejections" (by decide)
    rw [hwork] at hrejections
    exact hrejections
  · intro h
    refine ⟨fun path hpath => ?_, ?_⟩
    · rw [hwork]
      simp only [GroundFallbackCardinalityBound.comparedPaths, List.mem_cons, List.not_mem_nil,
        or_false] at hpath
      rcases hpath with rfl | rfl | rfl | rfl | rfl | rfl | rfl
      · exact le_min hcovers.states hcap.states
      · exact le_min hcovers.actions hcap.actions
      · exact le_min hcovers.steps hcap.steps
      · exact le_min hcovers.rows hcap.rows
      · exact le_min (le_min hcovers.backups hcap.backups) (hpairs.trans_le hcap.candidates)
      · exact le_min (hcovers.checks.trans (Nat.le_add_right _ _)) hchecks
      · exact h
    · rw [hcomposed]
      exact le_min hcovers.candidates hcap.candidates

end Bounds

section Attempts

variable [DecidableEq S] [PyRepr S] [DecidableEq A] [PyRepr A] {stateId : S → ContentId}
  {actionId : A → ContentId} {cap : GroundFallbackCapProfile} {kernel : Kernel S A}
  {query : QuerySpec S}

omit [DecidableEq S] [PyRepr S] [DecidableEq A] [PyRepr A] in
theorem fits_start : Fits cap (.start : SearchState S A) := by
  refine ⟨withinCaps_zero cap, fun earlier e later heq => ?_⟩
  simp [SearchState.start] at heq

omit [DecidableEq S] [PyRepr S] [DecidableEq A] [PyRepr A] in
/-- An exhausted search always has a result. -/
theorem buildExecution_capExhausted (capName : String) (ledger : FallbackLedger) :
    ∃ execution, buildExecution stateId actionId ([] : List (ParetoPoint S A)) none .capExhausted
      (some capName) ledger = .ok execution :=
  ⟨_, rfl⟩

/-- What a capped search does when the complete search ends: it ends with the same state, or it is
denied a charge that the complete search outgrows, or a step overflows. -/
theorem searchFrontier_cases {horizon : ℕ} {frontier : List (ParetoPoint S A)}
    {u : SearchState S A} (hcomplete : completeFrontier kernel query horizon = (.ok frontier, u)) :
    (searchFrontier cap kernel query horizon = (.ok frontier, u) ∧ Ongoing cap kernel u ∧
      Fits cap u) ∨
    (∃ capName t, searchFrontier cap kernel query horizon = (.error (.capExhausted capName), t) ∧
      Sound cap kernel t ∧ t.ledger.capRejections = 1 ∧ t.ledger.Counted u.ledger ∧ ¬ Fits cap u) ∨
    ∃ message t, searchFrontier cap kernel query horizon = (.error (.protocolError message), t) ∧
      Reserved cap u.transitionCache ∧ Overflows cap u := by
  have hlock := (@searchFrontier_lockstep _ _ _ _ cap kernel _ _ query horizon).follows
    ongoing_start fits_start
  have hkeeping := @searchFrontier_keeping _ _ _ _ _ _ cap kernel query horizon
  obtain ⟨heq, hok⟩ | ⟨capName, t, hdenied, hone, -, hgrows⟩ | ⟨message, t, hover, hgrows⟩ := hlock
  · exact .inl ⟨heq.trans hcomplete, hok _ _ hcomplete⟩
  · obtain ⟨hcounted, hnot⟩ := hgrows _ _ hcomplete
    have hsearch : searchFrontier cap kernel query horizon = (.error (.capExhausted capName), t) :=
      hdenied
    rw [hsearch] at hkeeping
    exact .inr (.inl ⟨capName, t, hsearch, hkeeping.1, hone, hcounted, hnot⟩)
  · exact .inr (.inr ⟨message, t, hover, hgrows _ _ hcomplete⟩)

theorem executeGroundFallback_eq_iff {capProfileId : GroundFallbackCapProfile → ContentId}
    {b : GroundFallbackCardinalityBound} (hbound : b.validateAgainstCap cap capProfileId = .ok ()) :
    executeGroundFallback stateId actionId capProfileId b cap kernel query =
        runGroundFallbackSearch stateId actionId cap kernel query ↔
      ∀ execution, runGroundFallbackSearch stateId actionId cap kernel query = .ok execution →
        WorkWithin b cap execution := by
  rw [executeGroundFallback, hbound]
  cases hrun : runGroundFallbackSearch stateId actionId cap kernel query with
  | error e => exact ⟨fun _ _ h => (nomatch h), fun _ => rfl⟩
  | ok execution =>
    have hwithin := @exceeded_eq_nil _ _ b cap execution
    constructor
    · intro h other hother
      cases hother
      rw [← hwithin]
      by_contra hne
      have herror := (if_pos hne).symm.trans h
      cases herror
    · intro h
      have hnil := hwithin.mpr (h execution rfl)
      exact if_neg (not_not.mpr hnil)

theorem validateAgainstCap_candidates {capProfileId : GroundFallbackCapProfile → ContentId}
    {b : GroundFallbackCardinalityBound} (hbound : b.validateAgainstCap cap capProfileId = .ok ()) :
    b.value "fallback.composed_candidates" ≤ b.value "fallback.bellman_backups" := by
  obtain ⟨_, -, h⟩ := bind_eq_ok.mp hbound
  obtain ⟨_, -, h⟩ := bind_eq_ok.mp h
  obtain ⟨_, -, h⟩ := bind_eq_ok.mp h
  obtain ⟨_, hcandidates, -⟩ := bind_eq_ok.mp h
  exact require_eq_ok.mp hcandidates

/-- The work is within the upper exactly when a rejection is predicted, or every reservation of the
complete search fits; and then the execution is the search. -/
theorem executeGroundFallback_upper (stateId : S → ContentId) (actionId : A → ContentId)
    (capProfileId : GroundFallbackCapProfile → ContentId) (b : GroundFallbackCardinalityBound)
    (cap : GroundFallbackCapProfile) (kernel : Kernel S A) (query : QuerySpec S)
    (frontier : List (ParetoPoint S A)) (u : SearchState S A)
    (hvalid : validateQuery kernel query = .ok ())
    (hcomplete : completeFrontier kernel query query.horizon = (.ok frontier, u))
    (hbound : b.validateAgainstCap cap capProfileId = .ok ())
    (hcovers : CoversCounts b u.ledger) :
    ((∀ execution, runGroundFallbackSearch stateId actionId cap kernel query = .ok execution →
        WorkWithin b cap execution) ↔
      b.ExceedsCaps cap ∨ Reserved cap u.transitionCache) ∧
    ((∀ execution, runGroundFallbackSearch stateId actionId cap kernel query = .ok execution →
        WorkWithin b cap execution) ↔
      executeGroundFallback stateId actionId capProfileId b cap kernel query =
        runGroundFallbackSearch stateId actionId cap kernel query) := by
  refine ⟨?_, (executeGroundFallback_eq_iff hbound).symm⟩
  have hcandidates := validateAgainstCap_candidates hbound
  rw [runGroundFallbackSearch_of_valid hvalid]
  obtain ⟨hsearch, hongoing, hfits⟩ | ⟨capName, t, hsearch, hsound, hone, hcounted, hnot⟩ |
    ⟨message, t, hsearch, hreserved, -⟩ := @searchFrontier_cases _ _ _ _ _ _ cap _ _ _ _ _ hcomplete
  · refine iff_of_true (fun execution hexecution => ?_) (.inr hfits.reserved)
    rw [hsearch] at hexecution
    obtain ⟨-, hwork, hcomposed⟩ := buildExecution_eq_ok (raising_eq_ok.mp hexecution)
    rw [workWithin_iff hwork hcomposed hfits.within hcovers hongoing.paired, hongoing.not_rejected]
    exact Nat.zero_le _
  · -- the rejection has to be predicted
    have hiff : ∀ execution, buildExecution stateId actionId [] none .capExhausted (some capName)
        t.ledger = .ok execution → (WorkWithin b cap execution ↔ b.ExceedsCaps cap) := by
      intro execution hexecution
      obtain ⟨-, hwork, hcomposed⟩ := buildExecution_eq_ok hexecution
      rw [workWithin_iff hwork hcomposed (hsound.within _ hsound.current)
        (hcovers.of_counted hcounted) hsound.paired, hone, one_le_capRejectionUpper]
    rw [hsearch]
    constructor
    · intro h
      obtain ⟨execution, hexecution⟩ := @buildExecution_capExhausted _ _ stateId
        actionId capName t.ledger
      exact .inl ((hiff execution hexecution).mp (h execution (raising_eq_ok.mpr hexecution)))
    · intro h execution hexecution
      refine (hiff execution (raising_eq_ok.mp hexecution)).mpr ?_
      rcases h with h | hreserved
      · exact h
      · by_contra hnone
        exact hnot ⟨withinCaps_of_not_exceedsCaps hnone hcandidates hcovers, hreserved⟩
  · refine iff_of_true (fun execution hexecution => ?_) (.inr hreserved)
    rw [hsearch] at hexecution
    cases hexecution

end Attempts

/-! ## A bound that is met and a cap that is near -/

/-- Room for exactly the rows of one decision between two actions. -/
def nearCaps : GroundFallbackCapProfile :=
  { sampleCaps with maxOutcomeRows := 3, positive := by decide, outcome_rows_ge := by decide }

/-- The counts of the complete search of one decision between two actions. -/
def sampleBound : GroundFallbackCardinalityBound where
  groundFallbackCapProfileId := ContentId.ofNat 0
  bounds := [("common.protocol_checks", 5), ("fallback.actions_evaluated", 2),
    ("fallback.bellman_backups", 2), ("fallback.composed_candidates", 2),
    ("fallback.ground_steps", 2), ("fallback.outcome_rows", 3), ("fallback.states_expanded", 1),
    ("control.cap_checks", 7)]
  runtimeCapChecks := none
  names := rfl

def sampleActionId (action : String) : ContentId := ContentId.ofNat action.length

theorem completeFrontier_gamble : ∃ frontier u,
    completeFrontier gambleKernel gambleQuery 1 = (.ok frontier, u) ∧
      CoversCounts sampleBound u.ledger := by
  obtain ⟨frontier, hok⟩ := exists_of_isOk
    (show (completeFrontier gambleKernel gambleQuery 1).1.isOk = true by decide +kernel)
  have hledger : (completeFrontier gambleKernel gambleQuery 1).2.ledger =
      ⟨1, 2, 2, 3, 2, 2, 7, 0⟩ := by decide +kernel
  refine ⟨frontier, _, Prod.ext hok rfl, ?_⟩
  rw [hledger]
  exact ⟨by decide, by decide, by decide, by decide, by decide, by decide, by decide⟩

/-- The rows fit the cap and are the predicted ones, and still the second step is denied. -/
theorem executeGroundFallback_upper_near : ∃ frontier u execution,
    completeFrontier gambleKernel gambleQuery 1 = (.ok frontier, u) ∧
      sampleBound.validateAgainstCap nearCaps (fun _ => ContentId.ofNat 0) = .ok () ∧
      CoversCounts sampleBound u.ledger ∧
      runGroundFallbackSearch ContentId.ofNat sampleActionId nearCaps gambleKernel gambleQuery =
        .ok execution ∧
      ¬ WorkWithin sampleBound nearCaps execution := by
  obtain ⟨frontier, u, hcomplete, hcovers⟩ := completeFrontier_gamble
  obtain ⟨execution, hrun⟩ := exists_of_isOk (show (runGroundFallbackSearch ContentId.ofNat
    sampleActionId nearCaps gambleKernel gambleQuery).isOk = true by decide +kernel)
  have hrejections : (runGroundFallbackSearch ContentId.ofNat sampleActionId nearCaps gambleKernel
      gambleQuery).toOption.map (fun e => e.workVector "control.cap_rejections") = some 1 := by
    decide +kernel
  rw [hrun] at hrejections
  refine ⟨frontier, u, execution, hcomplete, by decide +kernel, hcovers, hrun, fun hwithin => ?_⟩
  have hle := hwithin.1 "control.cap_rejections" (by decide)
  have hone : execution.workVector "control.cap_rejections" = 1 := Option.some.inj hrejections
  have hzero : sampleBound.operationalUpperValues nearCaps "control.cap_rejections" = 0 := by
    decide +kernel
  omega

theorem executeGroundFallback_upper_sample : ∃ frontier u,
    completeFrontier gambleKernel gambleQuery 1 = (.ok frontier, u) ∧
      ((∀ execution, runGroundFallbackSearch ContentId.ofNat sampleActionId sampleCaps gambleKernel
          gambleQuery = .ok execution → WorkWithin sampleBound sampleCaps execution) ↔
        sampleBound.ExceedsCaps sampleCaps ∨ Reserved sampleCaps u.transitionCache) := by
  obtain ⟨frontier, u, hcomplete, hcovers⟩ := completeFrontier_gamble
  have hvalid : validateQuery gambleKernel gambleQuery = .ok () := by decide +kernel
  have hbound : sampleBound.validateAgainstCap sampleCaps (fun _ => ContentId.ofNat 0) =
      .ok () := by
    decide +kernel
  exact ⟨frontier, u, hcomplete, (executeGroundFallback_upper ContentId.ofNat sampleActionId _
    sampleBound sampleCaps gambleKernel gambleQuery frontier u hvalid hcomplete hbound hcovers).1⟩

end Acfqp.Fallback
