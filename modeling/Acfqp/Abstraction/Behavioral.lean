import Acfqp.Abstraction.Nominal

/-!
# Exact behavioural quotients

The coarsest stable partition that refinement reaches when the names of primitive actions are
irrelevant. At each round an action is its exact rewards, its failure and termination
probabilities and its distribution over the cells of the previous round, and the behaviour of a
state is the set of these signatures. Primitive actions of one final signature are concretized
uniformly.
-/

namespace Acfqp.Abstraction

open Library Planning

variable {S A : Type}

/-- Canonical cell identifier of one refinement result. -/
structure BehavioralCellId where
  index : ℕ
  deriving DecidableEq

instance : PyRepr BehavioralCellId := ⟨fun c => s!"BehavioralCellId(index={c.index})"⟩

/-- The controlled behaviour of one exact action, as far as a quotient sees it. -/
structure BehavioralActionSignature where
  rewardFeatures : Features
  failureProbability : ℚ
  terminationProbability : ℚ
  successorProbabilities : List (BehavioralCellId × ℚ)
  deriving DecidableEq

instance : PyRepr BehavioralActionSignature :=
  ⟨fun s => s!"BehavioralActionSignature(reward_features={
    pyRepr s.rewardFeatures}, failure_probability={
    pyRepr s.failureProbability}, termination_probability={
    pyRepr s.terminationProbability}, successor_probabilities={
    pyRepr s.successorProbabilities})"⟩

/-- What a state is, before its behaviour is looked at. -/
inductive StateKind where
  | active
  | failure
  | terminal
  deriving DecidableEq

instance : PyRepr StateKind :=
  ⟨fun
    | .active => "'active'"
    | .failure => "'failure'"
    | .terminal => "'terminal'"⟩

/-- What separates the states of one round. -/
inductive RawSignature where
  | terminal (kind : StateKind)
  | active
  | behaviour (cell : BehavioralCellId) (actions : List BehavioralActionSignature)
  deriving DecidableEq

instance : PyRepr RawSignature :=
  ⟨fun
    | .terminal kind => s!"('terminal', {pyRepr kind})"
    | .active => "('active',)"
    | .behaviour cell actions => s!"('active', {pyRepr cell}, {pyRepr actions})"⟩

structure BehavioralRefinementStep where
  iteration : ℕ
  cellCount : ℕ
  partitionSignature : List (List String)

structure BehavioralActionAssignment (S A : Type) where
  state : S
  groundAction : A
  semanticAction : BehavioralActionSignature

def outcomes (kernel : Kernel S A) (state : S) (action : A) :
    Except PyError (List (Outcome S)) := do
  let outcomes ← kernel.step state action
  require (outcomes ≠ []) (.valueError "an exact behavioural action must have an outcome")
  require (∀ o ∈ outcomes, 0 < o.probability)
    (.valueError "exact behavioural outcomes must have positive mass")
  require ((outcomes.map Outcome.probability).sum = 1)
    (.valueError "exact behavioural outcome mass must equal one")
  return outcomes

section Adapter

variable [DecidableEq S] [DecidableEq A] [PyRepr A]

def behavioralLabels (assignments : List (BehavioralActionAssignment S A)) (kernel : Kernel S A)
    (state : S) : Except PyError (List BehavioralActionSignature) := do
  let available := (← kernel.actions state).dedup
  let records := assignments.filter fun r => r.state = state ∧ r.groundAction ∈ available
  if records.length ≠ available.length then
    if available = [] ∧ kernel.isTerminal state = true then return []
    else throw (.valueError "behavioural adapter is incomplete for the supplied kernel/state")
  else
    return deterministicOrder (records.map BehavioralActionAssignment.semanticAction).dedup

/-- The uniform distribution over the actions of a signature. -/
def behavioralConcretize (assignments : List (BehavioralActionAssignment S A))
    (kernel : Kernel S A) (state : S) (label : BehavioralActionSignature) :
    Except PyError (List (ℚ × A)) := do
  let available := (← kernel.actions state).dedup
  let actions := deterministicOrder ((assignments.filter fun r =>
    r.state = state ∧ r.groundAction ∈ available ∧ r.semanticAction = label).map
      BehavioralActionAssignment.groundAction)
  require (actions ≠ [])
    (.valueError "behavioural semantic action is unavailable at this state")
  let probability := 1 / (actions.length : ℚ)
  return actions.map fun action => (probability, action)

/-- The frozen action-signature system of a minimisation. -/
def behavioralSemanticAdapter (assignments : List (BehavioralActionAssignment S A)) :
    SemanticAdapter S A BehavioralActionSignature :=
  ⟨behavioralLabels assignments, behavioralConcretize assignments⟩

end Adapter

section Refinement

variable [DecidableEq S] [PyRepr S] [PyRepr A]

def failureTargets (kernel : Kernel S A) (states : List S) : Except PyError (List S) := do
  let rows ← (states.filter fun s => !kernel.isTerminal s).mapM fun state => do
    let targets ← (deterministicOrder (← kernel.actions state)).mapM fun action => do
      return ((← outcomes kernel state action).filter Outcome.failure).map Outcome.nextState
    return targets.flatten
  let targets := rows.flatten.dedup
  let missing := targets.filter fun s => s ∉ states
  require (missing = [])
    (.valueError s!"failure targets are absent from behavioural quotient coverage: {
      pyRepr (deterministicOrder missing)}")
  return deterministicOrder targets

def terminalKind (kernel : Kernel S A) (state : S) (failures : List S) : StateKind :=
  if kernel.isTerminal state then if state ∈ failures then .failure else .terminal
  else .active

/-- One cell for every raw signature, in their order. -/
def canonicalPartition (rawSignatures : List (S × RawSignature)) :
    Except PyError (Partition S BehavioralCellId) :=
  let unique := deterministicOrder (rawSignatures.map Prod.snd).dedup
  Partition.fromMapping (rawSignatures.map fun e => (e.1, ⟨unique.idxOf e.2⟩))

def actionSignature (kernel : Kernel S A) (partition : Partition S BehavioralCellId) (state : S)
    (action : A) : Except PyError BehavioralActionSignature := do
  let outcomes ← outcomes kernel state action
  let rewards := tally (outcomes.flatMap fun o =>
    o.rewardFeatures.map fun f => (f.1, o.probability * f.2))
  let stopped (o : Outcome S) : Bool := o.failure || o.terminal || kernel.isTerminal o.nextState
  let failure := ((outcomes.filter Outcome.failure).map Outcome.probability).sum
  let termination := ((outcomes.filter stopped).map Outcome.probability).sum
  let continuing ← (outcomes.filter fun o => !stopped o).mapM fun o => do
    let cell ← partition.cellOf o.nextState
    return (cell, o.probability)
  let successors := tally continuing
  require (termination + (successors.map Prod.snd).sum = 1)
    (.assertionError "continuation and termination mass must equal one")
  return ⟨sortBy Prod.fst rewards, failure, termination,
    sortBy (fun e => e.1.index) successors⟩

/-- The raw signature of one state in one round. -/
def behaviour (kernel : Kernel S A) (failures : List S) (partition : Partition S BehavioralCellId)
    (state : S) : Except PyError RawSignature := do
  if kernel.isTerminal state then return .terminal (terminalKind kernel state failures)
  else
    let signatures ← (deterministicOrder (← kernel.actions state)).mapM
      (actionSignature kernel partition state)
    require (signatures ≠ [])
      (.valueError "a nonterminal behavioural state has no primitive action")
    return .behaviour (← partition.cellOf state) (deterministicOrder signatures.dedup)

def refine (kernel : Kernel S A) (states failures : List S)
    (partition : Partition S BehavioralCellId) : Except PyError (Partition S BehavioralCellId) := do
  let raw ← states.mapM fun state => do
    return (state, ← behaviour kernel failures partition state)
  canonicalPartition raw

def sameBlocks (left right : Partition S BehavioralCellId) : Except PyError Bool := do
  return (← left.signature) = (← right.signature)

def refinementStep (iteration : ℕ) (partition : Partition S BehavioralCellId) :
    Except PyError BehavioralRefinementStep := do
  return ⟨iteration, partition.cellIds.length, ← partition.signature⟩

def refineUntilStable (kernel : Kernel S A) (states failures : List S) :
    ℕ → ℕ → Partition S BehavioralCellId → List BehavioralRefinementStep →
      Except PyError (Partition S BehavioralCellId × List BehavioralRefinementStep)
  | 0, _, _, _ => .error (.runtimeError "exact behavioural refinement exhausted its round cap")
  | rounds + 1, iteration, partition, trace => do
    let refined ← refine kernel states failures partition
    let trace := trace ++ [← refinementStep iteration refined]
    if ← sameBlocks partition refined then return (refined, trace)
    else
      require (¬ refined.cellIds.length < partition.cellIds.length)
        (.assertionError "behavioural refinement unexpectedly merged cells")
      refineUntilStable kernel states failures rounds (iteration + 1) refined trace

def assignSignatures (kernel : Kernel S A) (states : List S)
    (partition : Partition S BehavioralCellId) :
    Except PyError (List (BehavioralActionAssignment S A)) := do
  let rows ← (states.filter fun s => !kernel.isTerminal s).mapM fun state => do
    (deterministicOrder (← kernel.actions state)).mapM fun action => do
      return (⟨state, action, ← actionSignature kernel partition state action⟩ :
        BehavioralActionAssignment S A)
  return rows.flatten

end Refinement

structure ExactBehavioralQuotient (S A : Type) where
  partition : Partition S BehavioralCellId
  assignments : List (BehavioralActionAssignment S A)
  refinementTrace : List BehavioralRefinementStep
  failureTargets : List S
  quotientModels : QuotientModels S A BehavioralCellId BehavioralActionSignature

def GroundRealization.behaviour {C : Type} (r : GroundRealization S C) :
    Features × ℚ × ℚ × List (C × ℚ) :=
  (r.rewardFeatures, r.failureProbability, r.terminationProbability, r.successorProbabilities)

variable [DecidableEq S] [PyRepr S] [DecidableEq A] [PyRepr A]

def buildExactBehavioralQuotient (kernel : Kernel S A) (states : List S)
    (maxRefinementRounds : Option ℤ) : Except PyError (ExactBehavioralQuotient S A) := do
  let registered := deterministicOrder states
  require (registered ≠ [] ∧ registered.Nodup)
    (.valueError "behavioural quotient states must be nonempty and unique")
  let failures ← failureTargets kernel registered
  let initial ← canonicalPartition (registered.map fun state => (state,
    if kernel.isTerminal state then .terminal (terminalKind kernel state failures) else .active))
  let trace := [← refinementStep 0 initial]
  let cap := maxRefinementRounds.getD registered.length
  require (0 < cap) (.valueError "behavioural refinement round cap must be positive")
  let (partition, trace) ←
    refineUntilStable kernel registered failures cap.toNat 1 initial trace
  let assignments ← assignSignatures kernel registered partition
  let models ← buildQuotientModels kernel registered partition
    (.ofAdapter kernel (behavioralSemanticAdapter assignments))
  models.envelope.entries.forM fun entry =>
    require ((entry.realizations.map GroundRealization.behaviour).dedup.length = 1)
      (.assertionError "stable behavioural quotient produced a non-singleton exact envelope")
  return ⟨partition, assignments, trace, failures, models⟩

end Acfqp.Abstraction
