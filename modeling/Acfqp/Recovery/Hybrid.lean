import Acfqp.Planning.Audit
import Acfqp.Planning.Lift

/-!
# Query-scoped hybrid overlays

An overlay belongs to one query and delegates to the frozen abstract policy everywhere except at
a set of localized cell-horizon pairs, where every active member has a ground action of its own.
-/

namespace Acfqp.Recovery

open Library Abstraction Planning

variable {S A C L : Type}

/-! ## Overlays -/

/-- The ground action of one member of a localized pair. -/
structure GroundPatchDecision (S A C : Type) where
  remaining : ℕ
  cell : C
  state : S
  action : A
  remaining_pos : 0 < remaining

def GroundPatchDecision.key (d : GroundPatchDecision S A C) : ℕ × C × S :=
  (d.remaining, d.cell, d.state)

/-- Two decisions do not patch one state-time pair through two cells. -/
def GroundPatchDecision.Compatible (d e : GroundPatchDecision S A C) : Prop :=
  d.remaining = e.remaining → d.state = e.state → d.cell = e.cell

/-- Immutable direct-ground exceptions over a frozen abstract policy. -/
structure HybridPolicyOverlay (S A C L : Type) where
  basePolicy : FiniteHorizonPolicy C L
  decisions : List (GroundPatchDecision S A C)
  nodup : (decisions.map GroundPatchDecision.key).Nodup
  compatible : decisions.Pairwise GroundPatchDecision.Compatible

namespace HybridPolicyOverlay

/-- The overlay that patches nothing. -/
def empty (basePolicy : FiniteHorizonPolicy C L) : HybridPolicyOverlay S A C L :=
  ⟨basePolicy, [], List.nodup_nil, List.Pairwise.nil⟩

variable [DecidableEq C]

def patchedActions (overlay : HybridPolicyOverlay S A C L) (cell : C) (remaining : ℕ) :
    List (S × A) :=
  (overlay.decisions.filter fun d => d.cell = cell ∧ d.remaining = remaining).map fun d =>
    (d.state, d.action)

def isLocalized (overlay : HybridPolicyOverlay S A C L) (cell : C) (remaining : ℕ) : Bool :=
  !(overlay.patchedActions cell remaining).isEmpty

def groundAction [DecidableEq S] [PyRepr S] [PyRepr C] (overlay : HybridPolicyOverlay S A C L)
    (cell : C) (state : S) (remaining : ℕ) : Except PyError A :=
  orRaise ((overlay.decisions.find? fun d =>
      d.cell = cell ∧ d.state = state ∧ d.remaining = remaining).map GroundPatchDecision.action)
    (.keyError s!"overlay has no ground action for cell={pyRepr cell}, state={
      pyRepr state}, remaining={remaining}")

theorem mem_patchedActions {overlay : HybridPolicyOverlay S A C L} {cell : C} {remaining : ℕ}
    {state : S} {action : A} : (state, action) ∈ overlay.patchedActions cell remaining ↔
      ∃ d ∈ overlay.decisions, d.key = (remaining, cell, state) ∧ d.action = action := by
  simp only [patchedActions, List.mem_map, List.mem_filter, decide_eq_true_eq, Prod.mk.injEq,
    GroundPatchDecision.key]
  grind

theorem groundAction_eq_ok [DecidableEq S] [PyRepr S] [PyRepr C]
    {overlay : HybridPolicyOverlay S A C L} {cell : C} {remaining : ℕ} {state : S} {action : A} :
    overlay.groundAction cell state remaining = .ok action ↔
      (state, action) ∈ overlay.patchedActions cell remaining := by
  rw [groundAction, orRaise_eq_ok, Option.map_eq_some_iff, mem_patchedActions]
  have hkey : ∀ d : GroundPatchDecision S A C,
      (d.cell = cell ∧ d.state = state ∧ d.remaining = remaining) ↔
        d.key = (remaining, cell, state) := by
    intro d
    simp only [GroundPatchDecision.key, Prod.mk.injEq]
    grind
  constructor
  · rintro ⟨d, hd, rfl⟩
    refine ⟨d, List.mem_of_find?_eq_some hd, (hkey d).mp ?_, rfl⟩
    simpa using List.find?_some hd
  · rintro ⟨d, hd, hdkey, rfl⟩
    cases hf : overlay.decisions.find? fun d =>
        d.cell = cell ∧ d.state = state ∧ d.remaining = remaining with
    | none => exact absurd ((hkey d).mpr hdkey) (by simpa using List.find?_eq_none.mp hf d hd)
    | some e =>
      have he : e.key = d.key := by
        rw [hdkey, ← hkey]
        simpa using List.find?_some hf
      exact ⟨e, rfl, by
        rw [List.inj_on_of_nodup_map overlay.nodup (List.mem_of_find?_eq_some hf) hd he]⟩

end HybridPolicyOverlay

section Audit

variable [DecidableEq S] [PyRepr S] [DecidableEq A] [PyRepr A] [DecidableEq C] [PyRepr C]
  [DecidableEq L] [PyRepr L]

def patchIssues (kernel : Kernel S A) (partition : Partition S C) (horizon : ℕ)
    (decision : GroundPatchDecision S A C) : Except PyError (List (AuditIssue C)) :=
  let issue := fun code detail => ⟨code, decision.cell, decision.remaining, detail⟩
  match partition.cellOf decision.state with
  | .error _ => .ok [issue "PATCH_STATE_UNREGISTERED"
      s!"state {pyRepr decision.state} is outside the RAPM partition"]
  | .ok expectedCell => do
    let legal ← if kernel.isTerminal decision.state then pure true
      else (kernel.actions decision.state).map fun available => decide (decision.action ∈ available)
    return (if expectedCell = decision.cell then []
        else [issue "PATCH_CELL_MISMATCH" s!"state belongs to {pyRepr expectedCell}"]) ++
      (if decision.remaining ≤ horizon then []
        else [issue "PATCH_HORIZON_OUTSIDE_QUERY" s!"query horizon is {horizon}"]) ++
      (if legal then []
        else [issue "PATCH_ACTION_UNAVAILABLE"
          s!"illegal primitive action {pyRepr decision.action}"])

def patchedContinuation {m : Type → Type} [Monad m] [MonadLiftT (Except PyError) m]
    (kernel : Kernel S A) (goal : String) (partition : Partition S C) (remaining : ℕ)
    (continuation : C → m (Option (ℚ × ℚ))) (outcome : Outcome S) : m (Option (ℚ × ℚ)) :=
  if remaining ≤ 1 ∨ outcomeStopped kernel goal outcome then pure (some (0, 0))
  else do
    let successor ← partition.cellOf outcome.nextState
    continuation successor

def patchedMember {m : Type → Type} [Monad m] [MonadLiftT (Except PyError) m]
    (record : AuditIssue C → m Unit) (kernel : Kernel S A) (goal : String) (weights : Features)
    (partition : Partition S C) (patch : List (S × A)) (remaining : ℕ)
    (continuation : C → m (Option (ℚ × ℚ))) (cell : C) (state : S) : OptionT m (ℚ × ℚ) :=
  if kernel.isTerminal state then pure (0, 0)
  else do
    let action ← liftM (orRaise (patch.lookup state) (PyError.keyError (pyRepr state)))
    let available ← liftM (kernel.actions state)
    if action ∈ available then
      let outcomes ← liftM (Planning.iterOutcomes kernel state action)
      let branches ← outcomes.mapM fun outcome => do
        let downstream ← OptionT.mk
          (patchedContinuation kernel goal partition remaining continuation outcome)
        pure (outcome.probability * (outcomeReward outcome weights + downstream.1),
          outcome.probability * (failureCost outcome + downstream.2))
      pure ((branches.map Prod.fst).sum, (branches.map Prod.snd).sum)
    else OptionT.mk do
      record ⟨"PATCH_ACTION_UNAVAILABLE", cell, remaining,
        s!"illegal primitive action {pyRepr action} at state {pyRepr state}"⟩
      pure none

def patchedBounds {m : Type → Type} [Monad m] [MonadLiftT (Except PyError) m]
    (record : AuditIssue C → m Unit) (kernel : Kernel S A) (goal : String) (weights : Features)
    (partition : Partition S C) (patch : List (S × A)) (remaining : ℕ)
    (continuation : C → m (Option (ℚ × ℚ))) (cell : C) (members : List S) :
    m (Option (ℚ × ℚ)) :=
  let activeMembers := members.filter fun s => !kernel.isTerminal s
  let missing := activeMembers.filter fun s => s ∉ patch.map Prod.fst
  let extra := (patch.map Prod.fst).filter fun s => s ∉ activeMembers
  if missing ≠ [] ∨ extra ≠ [] then do
    record ⟨"PATCH_MEMBER_COVERAGE", cell, remaining, s!"missing={
      pyRepr (sortBy id (missing.map pyRepr))}, extra={pyRepr (sortBy id (extra.map pyRepr))}"⟩
    pure none
  else do
    let values ← (members.mapM (patchedMember record kernel goal weights partition patch remaining
      continuation cell)).run
    finishBounds record "cell has no auditable behavior" remaining cell ([] : List S) values

/-- One stage of the hybrid `bounds`, given the bounds of the next stage. -/
def hybridStage {m : Type → Type} [Monad m] [MonadLiftT (Except PyError) m]
    (record : AuditIssue C → m Unit) (kernel : Kernel S A) (goal : String) (weights : Features)
    (goals : List C) (envelope : ExactRealizationEnvelope S A C L)
    (overlay : HybridPolicyOverlay S A C L) (remaining : ℕ)
    (continuation : C → m (Option (ℚ × ℚ))) (cell : C) : m (Option (ℚ × ℚ)) := do
  let members ← envelope.partition.members cell
  if remaining = 0 ∨ cell ∈ goals ∨ ∀ state ∈ members, kernel.isTerminal state = true then
    pure (some (0, 0))
  else if overlay.isLocalized cell remaining then
    patchedBounds record kernel goal weights envelope.partition
      (overlay.patchedActions cell remaining) remaining continuation cell members
  else
    realizedBounds record "no abstract boundary action" "cell has no auditable behavior" kernel
      weights envelope overlay.basePolicy remaining continuation cell members

/-- The lower reward and the upper failure of a cell under the overlay. -/
def hybridBounds (kernel : Kernel S A) (goal : String) (weights : Features) (goals : List C)
    (envelope : ExactRealizationEnvelope S A C L) (overlay : HybridPolicyOverlay S A C L) :
    ℕ → C → StateT (AuditState C) (Except PyError) (Option (ℚ × ℚ)) :=
  stagedBounds (hybridStage recordIssue kernel goal weights goals envelope overlay)

def auditHybridPolicy (kernel : Kernel S A) (query : QuerySpec S)
    (envelope : ExactRealizationEnvelope S A C L) (overlay : HybridPolicyOverlay S A C L)
    (regretTolerance : ℚ) (goalCells : List C) (unrestrictedRewardUpper : Option ℚ) :
    Except PyError (AbstractPolicyAudit C) := do
  validateQuery kernel query
  require (envelope.horizon = kernel.horizon)
    (.valueError "envelope and kernel horizons disagree")
  let partition := envelope.partition
  let horizon ← queryHorizon kernel query
  let weights := rewardWeights query
  let found ← overlay.decisions.mapM (patchIssues kernel partition horizon)
  let (table, rootUpper) ← rootUpperTable kernel query partition unrestrictedRewardUpper
  let initial ← queryInitialDistribution kernel query
  let (roots, state) ← (initial.mapM fun p : ℚ × S => do
      let cell ← partition.cellOf p.2
      let upper ← rootUpperAt table horizon cell
      let result ← hybridBounds kernel query.goal weights goalCells envelope overlay horizon cell
      pure (p.1, upper, result) : StateT (AuditState C) (Except PyError) _)
      ([], found.flatten.foldl addIssue [])
  reportAudit query regretTolerance (found.all List.isEmpty) rootUpper roots state

end Audit

/-! ## The lift of an overlay -/

/-- A ground action of the overlay, or a semantic action of the base policy. -/
inductive HybridAction (A L : Type) where
  | ground (action : A)
  | abstract (action : L)
  deriving DecidableEq

instance [PyRepr A] [PyRepr L] : PyRepr (HybridAction A L) where
  repr
    | .ground action => s!"HybridAction(kind='ground', action={pyRepr action})"
    | .abstract action => s!"HybridAction(kind='abstract', action={pyRepr action})"

def HybridAction.isGround : HybridAction A L → Bool
  | .ground _ => true
  | .abstract _ => false

section View

variable [DecidableEq S] [PyRepr S] [PyRepr A]

def hybridAtomOrder (a : OutcomeAtom S) : String :=
  "(" ++ ", ".intercalate [pyRepr a.1, pyRepr a.2.1, pyRepr a.2.2.1, pyRepr a.2.2.2] ++ ")"

def concretizerEvents (kernel : Kernel S A) (state : S) (raw : List (ℚ × A)) :
    Except PyError (List (OutcomeAtom S × ℚ)) := do
  let events ← raw.mapM fun e => do
    require (0 < e.1) (.valueError "concretizer probabilities must be positive")
    let outcomes ← Planning.iterOutcomes kernel state e.2
    return outcomes.map fun o => (rawAtom o, e.1 * o.probability)
  return events.flatten

def abstractStep (kernel : Kernel S A) (source : ActionSource S A L) (state : S) (action : L) :
    Except PyError (List (Outcome S)) := do
  let raw ← source.concretizer state action
  require (raw ≠ []) (.valueError "abstract concretizer has empty support")
  let events ← concretizerEvents kernel state raw
  require ((raw.map Prod.fst).sum = 1) (.valueError "concretizer probabilities must sum to one")
  coalesceAtoms hybridAtomOrder events

def hybridKernelView (kernel : Kernel S A) (envelope : ExactRealizationEnvelope S A C L) :
    Kernel S (HybridAction A L) where
  horizon := kernel.horizon
  initialDistribution := kernel.initialDistribution
  actions state := do
    let ground := (← kernel.actions state).map HybridAction.ground
    let abstract := (← envelope.source.semanticActionProvider state).map HybridAction.abstract
    return ground ++ abstract
  step state
    | .ground action => Planning.iterOutcomes kernel state action
    | .abstract action => abstractStep kernel envelope.source state action
  isTerminal := kernel.isTerminal
  registeredRewardFeatures := kernel.registeredRewardFeatures
  registeredGoals := kernel.registeredGoals
  rewardUpperBound := kernel.rewardUpperBound
  isGoal := kernel.isGoal
  goalReached := kernel.goalReached

theorem isStopped_hybridKernelView (kernel : Kernel S A)
    (envelope : ExactRealizationEnvelope S A C L) (state : S) (goal : String) :
    isStopped (hybridKernelView kernel envelope) state goal = isStopped kernel state goal := rfl

theorem outcomeStopped_hybridKernelView (kernel : Kernel S A)
    (envelope : ExactRealizationEnvelope S A C L) (goal : String) (o : Outcome S) :
    outcomeStopped (hybridKernelView kernel envelope) goal o = outcomeStopped kernel goal o := rfl

end View

section Lift

variable [DecidableEq S] [PyRepr S] [DecidableEq A] [PyRepr A] [DecidableEq C] [PyRepr C]
  [DecidableEq L] [PyRepr L]

/-- The action that the overlay takes at a pair: its ground action at a localized pair, the label
of the base policy elsewhere. -/
def hybridDecision (kernel : Kernel S A) (envelope : ExactRealizationEnvelope S A C L)
    (overlay : HybridPolicyOverlay S A C L) (remaining : ℕ) (state : S) (cell : C) :
    Except PyError (HybridAction A L) :=
  if overlay.isLocalized cell remaining then do
    let action ← overlay.groundAction cell state remaining
    let available ← kernel.actions state
    require (action ∈ available)
      (.valueError s!"hybrid overlay selected illegal action {pyRepr action}")
    return .ground action
  else do
    let action ← overlay.basePolicy.action cell remaining
    let _ ← envelope.source.concretizer state action
    return .abstract action

def expandHybrid (kernel : Kernel S A) (goal : String)
    (envelope : ExactRealizationEnvelope S A C L) (overlay : HybridPolicyOverlay S A C L)
    (remaining : ℕ) (state : S) : Except PyError (Option (HybridAction A L) × List S) :=
  let view := hybridKernelView kernel envelope
  if remaining = 0 ∨ isStopped view state goal then .ok (none, [])
  else do
    let cell ← envelope.partition.cellOf state
    let action ← hybridDecision kernel envelope overlay remaining state cell
    if remaining ≤ 1 then return (some action, [])
    else
      let outcomes ← view.step state action
      return (some action,
        (outcomes.filter fun o => !outcomeStopped view goal o).map Outcome.nextState)

structure HybridPolicyLift (S A C L : Type) where
  overlay : HybridPolicyOverlay S A C L
  liftedPolicy : FiniteHorizonPolicy S (HybridAction A L)
  evaluation : PolicyEvaluation
  patchedDecisionCount : ℕ
  abstractDecisionCount : ℕ

def liftHybridPolicy (kernel : Kernel S A) (query : QuerySpec S)
    (envelope : ExactRealizationEnvelope S A C L) (overlay : HybridPolicyOverlay S A C L) :
    Except PyError (HybridPolicyLift S A C L) := do
  let view := hybridKernelView kernel envelope
  validateQuery view query
  let horizon ← queryHorizon view query
  let initial ← queryInitialDistribution view query
  let pending := (initial.filter fun p => 0 < p.1).map Prod.snd
  let trail ← exploreAll (expandHybrid kernel query.goal envelope overlay) horizon pending
  let lifted ← FiniteHorizonPolicy.fromMapping trail.records
  let evaluation ← evaluateGroundPolicy view query lifted
  return ⟨overlay, lifted, evaluation, trail.records.countP fun r => r.2.isGround,
    trail.records.countP fun r => !r.2.isGround⟩

end Lift

end Acfqp.Recovery
