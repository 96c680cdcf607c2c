import Acfqp.Abstraction.Quotient
import Acfqp.Planning.Ground

/-!
# Exact ground evaluation of semantic policies

The semantic selector is deterministic. Any randomness belongs to the frozen action-realization
mechanism of the semantic adapter and is integrated into the transition kernel before policy
evaluation.
-/

namespace Acfqp.Planning

open Library Abstraction

variable {S A C L : Type}

def viewActions [DecidableEq L] [PyRepr S] (kernel : Kernel S A) (adapter : SemanticAdapter S A L)
    (state : S) : Except PyError (List L) := do
  let labels ← adapter.labels kernel state
  require labels.Nodup
    (.valueError s!"semantic adapter emitted duplicate labels at state {pyRepr state}")
  return labels

section View

variable [DecidableEq S] [PyRepr S] [DecidableEq A] [PyRepr A] [DecidableEq L] [PyRepr L]

def concretizerDistribution (kernel : Kernel S A) (adapter : SemanticAdapter S A L) (state : S)
    (semanticAction : L) : Except PyError (List (ℚ × A)) := do
  let labels ← viewActions kernel adapter state
  require (semanticAction ∈ labels)
    (.valueError s!"semantic action {pyRepr semanticAction} is unavailable at state {
      pyRepr state}")
  let rawDistribution ← adapter.concretize kernel state semanticAction
  require (rawDistribution ≠ [])
    (.valueError s!"concretizer has empty support at state={pyRepr state}, action={
      pyRepr semanticAction}")
  let available ← kernel.actions state
  rawDistribution.forM fun e => do
    require (0 < e.1) (.valueError "concretizer probabilities must be positive")
    require (e.2 ∈ available)
      (.valueError s!"concretizer selected unavailable ground action {pyRepr e.2}")
  let coalesced := tally (rawDistribution.map fun e => (e.2, e.1))
  require ((coalesced.map Prod.snd).sum = 1)
    (.valueError "concretizer probabilities must sum to one")
  return sortBy (fun e => pyRepr e.2) (coalesced.map fun e => (e.2, e.1))

abbrev OutcomeAtom (S : Type) := S × Features × Bool × Bool

def canonicalRewardFeatures (outcome : Outcome S) : Features :=
  sortBy Prod.fst outcome.rewardFeatures

def outcomeAtom (outcome : Outcome S) : OutcomeAtom S :=
  (outcome.nextState, canonicalRewardFeatures outcome, outcome.failure, outcome.terminal)

def rawAtom (o : Outcome S) : OutcomeAtom S :=
  (o.nextState, o.rewardFeatures, o.failure, o.terminal)

def atomEvents (kernel : Kernel S A) (state : S) (atom : Outcome S → OutcomeAtom S)
    (distribution : List (ℚ × A)) : Except PyError (List (OutcomeAtom S × ℚ)) := do
  let events ← distribution.mapM fun e => do
    let outcomes ← Planning.iterOutcomes kernel state e.2
    return outcomes.map fun o => (atom o, e.1 * o.probability)
  return events.flatten

def coalesceAtoms {κ : Type} [LinearOrder κ] (order : OutcomeAtom S → κ)
    (events : List (OutcomeAtom S × ℚ)) : Except PyError (List (Outcome S)) :=
  (sortBy (fun e => order e.1) (tally events)).mapM fun e =>
    Outcome.make e.2 e.1.1 e.1.2.1 e.1.2.2.1 e.1.2.2.2

def atomOrder (a : OutcomeAtom S) : String ×ₗ String ×ₗ Bool ×ₗ Bool :=
  toLex (pyRepr a.1, toLex (pyRepr a.2.1, toLex (a.2.2.1, a.2.2.2)))

def viewStep (kernel : Kernel S A) (adapter : SemanticAdapter S A L) (state : S)
    (semanticAction : L) : Except PyError (List (Outcome S)) := do
  let distribution ← concretizerDistribution kernel adapter state semanticAction
  let events ← atomEvents kernel state outcomeAtom distribution
  let coalesced ← coalesceAtoms atomOrder events
  require ((coalesced.map Outcome.probability).sum = 1)
    (.assertionError "semantic transition probability mass must equal one")
  return coalesced

/-- A kernel whose actions are the semantic action labels. Its other interfaces are those of the
ground kernel. -/
def semanticKernelView (kernel : Kernel S A) (adapter : SemanticAdapter S A L) : Kernel S L where
  horizon := kernel.horizon
  initialDistribution := kernel.initialDistribution
  actions := viewActions kernel adapter
  step := viewStep kernel adapter
  isTerminal := kernel.isTerminal
  registeredRewardFeatures := kernel.registeredRewardFeatures
  registeredGoals := kernel.registeredGoals
  rewardUpperBound := kernel.rewardUpperBound
  isGoal := kernel.isGoal
  goalReached := kernel.goalReached

@[simp] theorem isStopped_semanticKernelView (kernel : Kernel S A)
    (adapter : SemanticAdapter S A L) (state : S) (goal : String) :
    isStopped (semanticKernelView kernel adapter) state goal = isStopped kernel state goal := rfl

theorem outcomeStopped_semanticKernelView (kernel : Kernel S A) (adapter : SemanticAdapter S A L)
    (goal : String) (o : Outcome S) :
    outcomeStopped (semanticKernelView kernel adapter) goal o = outcomeStopped kernel goal o := rfl

variable [DecidableEq C] [PyRepr C]

def expandSemantic (kernel : Kernel S A) (goal : String) (partition : Partition S C)
    (abstractPolicy : FiniteHorizonPolicy C L) (adapter : SemanticAdapter S A L) (remaining : ℕ)
    (state : S) : Except PyError (Option L × List S) :=
  let view := semanticKernelView kernel adapter
  if remaining = 0 ∨ isStopped view state goal then .ok (none, [])
  else do
    let labels ← view.actions state
    if labels = [] then
      let groundActions ← kernel.actions state
      require (groundActions = [])
        (.valueError s!"semantic adapter exposes no action at active state {pyRepr state}")
      return (none, [])
    else
      let cell ← partition.cellOf state
      let semanticAction ← abstractPolicy.action cell remaining
      require (semanticAction ∈ labels)
        (.valueError s!"abstract policy chose unavailable semantic action {
          pyRepr semanticAction} at state {pyRepr state}")
      let _ ← concretizerDistribution kernel adapter state semanticAction
      if remaining ≤ 1 then return (some semanticAction, [])
      else
        let outcomes ← view.step state semanticAction
        return (some semanticAction,
          (outcomes.filter fun o => !outcomeStopped view goal o).map Outcome.nextState)

def liftSemanticPolicyDecisions (kernel : Kernel S A) (query : QuerySpec S)
    (partition : Partition S C) (abstractPolicy : FiniteHorizonPolicy C L)
    (adapter : SemanticAdapter S A L) : Except PyError (FiniteHorizonPolicy S L) := do
  let view := semanticKernelView kernel adapter
  validateQuery view query
  let horizon ← queryHorizon view query
  let initial ← queryInitialDistribution view query
  let pending := (initial.filter fun p => 0 < p.1).map Prod.snd
  let trail ← exploreAll (expandSemantic kernel query.goal partition abstractPolicy adapter)
    horizon pending
  FiniteHorizonPolicy.fromMapping trail.records

def evaluateSemanticPolicy (kernel : Kernel S A) (query : QuerySpec S)
    (partition : Partition S C) (abstractPolicy : FiniteHorizonPolicy C L)
    (adapter : SemanticAdapter S A L) : Except PyError PolicyEvaluation := do
  let lifted ← liftSemanticPolicyDecisions kernel query partition abstractPolicy adapter
  evaluateGroundPolicy (semanticKernelView kernel adapter) query lifted

end View

end Acfqp.Planning
