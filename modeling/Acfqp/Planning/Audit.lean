import Acfqp.Abstraction.Quotient
import Acfqp.Planning.Policy

/-!
# Full-plan audits of abstract policies

The lower reward and upper failure recursions use only exact ground realizations, while the
unrestricted upper envelope considers every ground action, including those omitted by the
semantic-action concretizer. The nominal model is deliberately absent.
-/

namespace Acfqp.Planning

open Library Abstraction

variable {S A C L : Type}

structure AuditIssue (C : Type) where
  code : String
  cell : C
  remaining : ℕ
  detail : String

structure CellPolicyBound (C : Type) where
  cell : C
  remaining : ℕ
  rewardLower : ℚ
  failureUpper : ℚ

structure AbstractPolicyAudit (C : Type) where
  unrestrictedRewardUpper : ℚ
  liftedRewardLower : Option ℚ
  liftedFailureUpper : Option ℚ
  regretUpper : Option ℚ
  regretTolerance : ℚ
  riskTolerance : ℚ
  certified : Bool
  issues : List (AuditIssue C)
  reachableBounds : List (CellPolicyBound C)

/-! ## The unrestricted upper envelope -/

section

variable [DecidableEq S] [PyRepr S] [PyRepr A] [DecidableEq C] [PyRepr C]

def upperCandidates (kernel : Kernel S A) (goal : String) (weights : Features)
    (partition : Partition S C) (upper : List ((ℕ × C) × ℚ)) (remaining : ℕ) (state : S) :
    Except PyError (List ℚ) :=
  if isStopped kernel state goal then .ok [0]
  else do
    let actions ← kernel.actions state
    if actions = [] then return [0]
    else actions.mapM fun action => do
      let outcomes ← Planning.iterOutcomes kernel state action
      let branches ← outcomes.mapM fun outcome => do
        if outcomeStopped kernel goal outcome then
          return outcome.probability * outcomeReward outcome weights
        else
          let successor ← partition.cellOf outcome.nextState
          let value ← orRaise (upper.lookup (remaining - 1, successor))
            (.keyError (pyRepr (remaining - 1, successor)))
          return outcome.probability * (outcomeReward outcome weights + value)
      return branches.sum

def upperCell (kernel : Kernel S A) (goal : String) (weights : Features)
    (partition : Partition S C) (remaining : ℕ) (upper : List ((ℕ × C) × ℚ)) (cell : C) :
    Except PyError (List ((ℕ × C) × ℚ)) := do
  let members ← partition.members cell
  let candidates ← members.mapM (upperCandidates kernel goal weights partition upper remaining)
  return Dict.assign (remaining, cell) (candidates.flatten.max?.getD 0) upper

def unrestrictedUpperEnvelope (kernel : Kernel S A) (query : QuerySpec S)
    (partition : Partition S C) : Except PyError (List ((ℕ × C) × ℚ)) := do
  let horizon ← queryHorizon kernel query
  let weights := rewardWeights query
  (List.range' 1 horizon).foldlM (fun upper remaining =>
      partition.cellIds.foldlM (upperCell kernel query.goal weights partition remaining) upper)
    (partition.cellIds.map fun cell => ((0, cell), 0))

end

section Audit

variable [DecidableEq S] [PyRepr S] [DecidableEq C] [PyRepr C] [DecidableEq L] [PyRepr L]

/-- The value of one realization under the bounds of its successor cells, unless one of them
cannot be bounded. -/
def realizationBounds {m : Type → Type} [Monad m] (weights : Features)
    (continuation : C → m (Option (ℚ × ℚ))) (r : GroundRealization S C) : OptionT m (ℚ × ℚ) := do
  let branches ← r.successorProbabilities.mapM fun e => do
    let bound ← OptionT.mk (continuation e.1)
    pure (e.2 * bound.1, e.2 * bound.2)
  pure (r.reward weights + (branches.map Prod.fst).sum,
    r.failureProbability + (branches.map Prod.snd).sum)

def auditableRealizations (undefinedDetail : String) (kernel : Kernel S A)
    (envelope : ExactRealizationEnvelope S A C L)
    (policy : FiniteHorizonPolicy C L) (remaining : ℕ) (cell : C) (members : List S) :
    Except (AuditIssue C) (List (GroundRealization S C)) :=
  match policy.action cell remaining with
  | .error _ => .error ⟨"POLICY_UNDEFINED", cell, remaining, undefinedDetail⟩
  | .ok action =>
    match envelope.realizations cell action with
    | .error _ => .error ⟨"ACTION_UNAVAILABLE", cell, remaining,
        s!"semantic action {pyRepr action} lacks a common exact realization"⟩
    | .ok realizations =>
      let active := realizations.map GroundRealization.state
      match members.find? fun state => !kernel.isTerminal state && !active.contains state with
      | some state => .error ⟨"REALIZATION_MISSING", cell, remaining,
          s!"no exact realization for nonterminal state {pyRepr state}"⟩
      | none => .ok realizations

def extremeBounds (terminalMembers : List S) (values : List (ℚ × ℚ)) : Option (ℚ × ℚ) := do
  let all := terminalMembers.map (fun _ => ((0, 0) : ℚ × ℚ)) ++ values
  let reward ← (all.map Prod.fst).min?
  let failure ← (all.map Prod.snd).max?
  return (reward, failure)

def finishBounds {m : Type → Type} [Monad m] (record : AuditIssue C → m Unit)
    (emptyDetail : String) (remaining : ℕ) (cell : C) (terminalMembers : List S)
    (values : Option (List (ℚ × ℚ))) : m (Option (ℚ × ℚ)) :=
  match values with
  | none => pure none
  | some values =>
    match extremeBounds terminalMembers values with
    | some bound => pure (some bound)
    | none => do
      record ⟨"REALIZATION_MISSING", cell, remaining, emptyDetail⟩
      pure none

def realizedBounds {m : Type → Type} [Monad m] (record : AuditIssue C → m Unit)
    (undefinedDetail emptyDetail : String) (kernel : Kernel S A) (weights : Features)
    (envelope : ExactRealizationEnvelope S A C L) (policy : FiniteHorizonPolicy C L)
    (remaining : ℕ) (continuation : C → m (Option (ℚ × ℚ))) (cell : C) (members : List S) :
    m (Option (ℚ × ℚ)) :=
  match auditableRealizations undefinedDetail kernel envelope policy remaining cell members with
  | .error issue => do
    record issue
    pure none
  | .ok realizations => do
    let values ← (realizations.mapM (realizationBounds weights continuation)).run
    finishBounds record emptyDetail remaining cell (members.filter kernel.isTerminal) values

/-- One stage of `bounds`, given the bounds of the next stage. -/
def boundsStage {m : Type → Type} [Monad m] [MonadLiftT (Except PyError) m]
    (record : AuditIssue C → m Unit) (kernel : Kernel S A) (weights : Features) (goals : List C)
    (envelope : ExactRealizationEnvelope S A C L) (policy : FiniteHorizonPolicy C L)
    (remaining : ℕ) (continuation : C → m (Option (ℚ × ℚ))) (cell : C) :
    m (Option (ℚ × ℚ)) := do
  let members ← envelope.partition.members cell
  if remaining = 0 ∨ cell ∈ goals ∨ ∀ state ∈ members, kernel.isTerminal state = true then
    pure (some (0, 0))
  else
    realizedBounds record "no semantic action for reachable pair"
      "cell has no auditable realization" kernel weights envelope policy remaining continuation
      cell members

/-- The memo table of the bounds, and the issues recorded so far. -/
abbrev AuditState (C : Type) := List ((ℕ × C) × Option (ℚ × ℚ)) × List (AuditIssue C)

def addIssue (issues : List (AuditIssue C)) (issue : AuditIssue C) : List (AuditIssue C) :=
  if issues.any fun i => i.code = issue.code ∧ i.cell = issue.cell ∧ i.remaining = issue.remaining
  then issues
  else issues ++ [issue]

def recordIssue (issue : AuditIssue C) : StateT (AuditState C) (Except PyError) Unit :=
  modify fun state => (state.1, addIssue state.2 issue)

def stagedBounds (stage : ℕ → (C → StateT (AuditState C) (Except PyError) (Option (ℚ × ℚ))) → C →
    StateT (AuditState C) (Except PyError) (Option (ℚ × ℚ))) :
    ℕ → C → StateT (AuditState C) (Except PyError) (Option (ℚ × ℚ))
  | 0, cell => memoize (0, cell) (stage 0 (fun _ => pure none) cell)
  | n + 1, cell => memoize (n + 1, cell) (stage (n + 1) (stagedBounds stage n) cell)

/-- The lower reward and the upper failure of a cell under the policy. -/
def bounds (kernel : Kernel S A) (weights : Features) (goals : List C)
    (envelope : ExactRealizationEnvelope S A C L) (policy : FiniteHorizonPolicy C L) :
    ℕ → C → StateT (AuditState C) (Except PyError) (Option (ℚ × ℚ)) :=
  stagedBounds (boundsStage recordIssue kernel weights goals envelope policy)

def rootUpperTable [PyRepr A] (kernel : Kernel S A) (query : QuerySpec S)
    (partition : Partition S C) (unrestrictedRewardUpper : Option ℚ) :
    Except PyError (Option (List ((ℕ × C) × ℚ)) × ℚ) :=
  match unrestrictedRewardUpper with
  | none => do return (some (← unrestrictedUpperEnvelope kernel query partition), 0)
  | some upper => do
    require (0 ≤ upper) (.valueError "unrestricted_reward_upper must be nonnegative")
    return (none, upper)

def rootUpperAt (table : Option (List ((ℕ × C) × ℚ))) (horizon : ℕ) (cell : C) :
    Except PyError ℚ :=
  match table with
  | none => .ok 0
  | some table => orRaise (table.lookup (horizon, cell)) (.keyError (pyRepr (horizon, cell)))

def reportAudit (query : QuerySpec S) (regretTolerance : ℚ) (valid : Bool) (rootUpper : ℚ)
    (roots : List (ℚ × ℚ × Option (ℚ × ℚ))) (state : AuditState C) :
    Except PyError (AbstractPolicyAudit C) := do
  let rootUpper := rootUpper + (roots.map fun r => r.1 * r.2.1).sum
  let complete := valid && roots.all fun r => r.2.2.isSome
  let rootLower := (roots.map fun r => r.2.2.elim 0 fun b => r.1 * b.1).sum
  let rootFailure := (roots.map fun r => r.2.2.elim 0 fun b => r.1 * b.2).sum
  require (¬ (complete = true ∧ rootUpper < rootLower))
    (.valueError "unrestricted_reward_upper is below the audited policy reward lower bound")
  let regret := rootUpper - rootLower
  return {
    unrestrictedRewardUpper := rootUpper
    liftedRewardLower := if complete then some rootLower else none
    liftedFailureUpper := if complete then some rootFailure else none
    regretUpper := if complete then some regret else none
    regretTolerance := regretTolerance
    riskTolerance := query.delta
    certified := complete && decide (regret ≤ regretTolerance) && decide (rootFailure ≤ query.delta)
    issues := sortBy (fun i : AuditIssue C =>
      (toLex (-(i.remaining : ℤ), toLex (pyRepr i.cell, i.code)) : ℤ ×ₗ String ×ₗ String)) state.2
    reachableBounds := (sortBy (fun e : (ℕ × C) × Option (ℚ × ℚ) =>
      (toLex (-(e.1.1 : ℤ), pyRepr e.1.2) : ℤ ×ₗ String)) state.1).filterMap fun e =>
        e.2.map fun b => ⟨e.1.2, e.1.1, b.1, b.2⟩ }

def auditAbstractPolicy [PyRepr A] (kernel : Kernel S A) (query : QuerySpec S)
    (envelope : ExactRealizationEnvelope S A C L) (policy : FiniteHorizonPolicy C L)
    (regretTolerance : ℚ) (goalCells : List C) (unrestrictedRewardUpper : Option ℚ) :
    Except PyError (AbstractPolicyAudit C) := do
  validateQuery kernel query
  let partition := envelope.partition
  require (envelope.horizon = kernel.horizon)
    (.valueError "envelope and kernel horizons disagree")
  let horizon ← queryHorizon kernel query
  let weights := rewardWeights query
  let (table, rootUpper) ← rootUpperTable kernel query partition unrestrictedRewardUpper
  let initial ← queryInitialDistribution kernel query
  let (roots, state) ← (initial.mapM fun p : ℚ × S => do
      let cell ← partition.cellOf p.2
      let upper ← rootUpperAt table horizon cell
      let result ← bounds kernel weights goalCells envelope policy horizon cell
      pure (p.1, upper, result) : StateT (AuditState C) (Except PyError) _) ([], [])
  reportAudit query regretTolerance true rootUpper roots state

end Audit

end Acfqp.Planning
