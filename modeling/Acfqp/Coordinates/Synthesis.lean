import Acfqp.Coordinates.Programs
import Mathlib.Data.List.MinMax

/-!
# Coordinate synthesis

The registry of semantically distinct programs of a source log, the alias width of each pair of
integer coordinates, and the choice of the narrowest pair.
-/

namespace Acfqp.Coordinates

open Library Acfqp.Graph

/-- The content identifiers of a log and of the programs over it. -/
structure SynthesisIds (ι : Type) extends ContentIds ι where
  programId : AnyProgram → ι
  sourceLogId : List GraphTopology → List (GraphObservedRow ι) → ι

/-! ## Rows under two coordinates -/

inductive Destination
  | failure
  | safeTerminal
  | active (remainingHorizon stateValue : ℕ)
  deriving DecidableEq

/-- A row with the values of its coordinates; an outcome has its destination, its probability and
its reward. -/
structure SupportRow (κ : Type) where
  stateKey : κ
  remainingHorizon : ℕ
  stateValue : ℕ
  actionValue : ℕ
  outcomes : List (Destination × ℚ × ℚ)

namespace SupportRow

variable {κ : Type}

def support (row : SupportRow κ) : ℕ × ℕ × ℕ :=
  (row.remainingHorizon, row.stateValue, row.actionValue)

def abstractState (row : SupportRow κ) : ℕ × ℕ := (row.remainingHorizon, row.stateValue)

def distribution (row : SupportRow κ) : List (Destination × ℚ) :=
  tally (row.outcomes.map fun outcome => (outcome.1, outcome.2.1))

def expectedReward (row : SupportRow κ) : ℚ :=
  (row.outcomes.map fun outcome => outcome.2.1 * outcome.2.2).sum

end SupportRow

structure CandidateSummary where
  stateProgram : GraphCoordinateProgram .integer
  actionProgram : GraphCoordinateProgram .integer
  groundStateCount : ℕ
  groundRowCount : ℕ
  abstractStateCount : ℕ
  abstractSupportCount : ℕ
  aliasPairCount : ℕ
  availabilityVariantCount : ℕ
  transitionAliasWidth : ℚ
  rewardAliasWidth : ℚ
  soundAliasWidth : ℚ
  admissible : Bool

section Summary

variable {κ : Type} [DecidableEq κ]

def spread (values : List ℚ) : ℚ := values.max?.getD 0 - values.min?.getD 0

/-- The widest spread of a destination's probability over the rows of a support. -/
def transitionWidth (rows : List (SupportRow κ)) : ℚ :=
  let destinations := distinct (rows.flatMap fun row => row.outcomes.map (·.1))
  (destinations.map fun destination =>
    spread (rows.map fun row => (row.distribution.lookup destination).getD 0)).foldr max 0

/-- The values of the actions of a state. -/
def availability (rows : List (SupportRow κ)) (stateKey : κ) : Finset ℕ :=
  ((rows.filter (·.stateKey = stateKey)).map (·.actionValue)).toFinset

def summarize (stateProgram actionProgram : GraphCoordinateProgram .integer)
    (rows : List (SupportRow κ)) : CandidateSummary :=
  let grouped := groupBy SupportRow.support rows
  let abstractStates := groupBy SupportRow.abstractState rows
  let rowStates := (rows.map (·.stateKey)).toFinset
  let transition := (grouped.map fun group => transitionWidth group.2).foldr max 0
  let reward := (grouped.map fun group => spread (group.2.map (·.expectedReward))).foldr max 0
  { stateProgram, actionProgram
    groundStateCount := rowStates.card
    groundRowCount := rows.length
    abstractStateCount := abstractStates.length
    abstractSupportCount := grouped.length
    aliasPairCount := (grouped.map fun group =>
      group.2.length * (group.2.length - 1) / 2).sum
    availabilityVariantCount := (abstractStates.map fun group =>
      ((group.2.map (·.stateKey)).toFinset.image (availability rows)).card - 1).sum
    transitionAliasWidth := transition
    rewardAliasWidth := reward
    soundAliasWidth := max transition reward
    admissible :=
      (1 < (rows.map (·.stateValue)).toFinset.card ∧
        (rows.map (·.stateValue)).toFinset.card < rowStates.card) ∧
      (1 < (rows.map (·.actionValue)).toFinset.card ∧
        (rows.map (·.actionValue)).toFinset.card < rows.length) ∧
      abstractStates.length < rowStates.card ∧ grouped.length < rows.length }

end Summary

/-! ## The registry of programs -/

structure GraphProgramRegistry (ι : Type) where
  sourceLogId : ι
  programs : List AnyProgram
  syntacticProgramCount : ℕ
  semanticProgramCountByDepth : List ℕ

structure CoordinateProposal (ι : Type) where
  sourceLogId : ι
  programRegistryId : ι
  stateProgram : GraphCoordinateProgram .integer
  actionProgram : GraphCoordinateProgram .integer

structure Synthesis (ι : Type) where
  registry : GraphProgramRegistry ι
  candidates : List CandidateSummary
  selected : CandidateSummary
  proposal : CoordinateProposal ι

section Registry

variable {ι : Type} [LinearOrder ι] (ids : ContentIds ι)

def catalogue (topology : GraphTopology) (state : GraphStateView ι) :
    Except GraphError (List (GraphActionView ι)) :=
  if state.failure then .ok [] else legalActionViews ids topology state

def GraphOutcomeView.destination (outcome : GraphOutcomeView ι) (values : List (ι × ℕ)) :
    Except GraphError Destination :=
  if outcome.failure then .ok .failure
  else if outcome.nextState.remainingHorizon = 0 then .ok .safeTerminal
  else do
    let value ← orRaise (values.lookup (ids.stateId outcome.nextState)) .index
    return .active outcome.nextState.remainingHorizon value

def programSignature (stateCovariates actionCovariates : List (EvaluationCovariate ι))
    (program : AnyProgram) :
    Except GraphError (GraphProgramType × GraphProgramContext × List (ValueKey ι)) := do
  let covariates :=
    if program.2.context = .state then stateCovariates else actionCovariates
  let keys ← covariates.mapM fun c => do
    let value ← evaluateProgram c program.2
    return valueKey ids program.1 value
  return (program.1, program.2.context, keys)

variable {S : Type} [DecidableEq S] (programId : AnyProgram → ι)

def keepRepresentative (signature : S) (program : AnyProgram)
    (representatives : List (S × AnyProgram)) : List (S × AnyProgram) :=
  match representatives.lookup signature with
  | none => Dict.assign signature program representatives
  | some prior =>
    if programOrderKey programId program < programOrderKey programId prior then
      Dict.assign signature program representatives
    else representatives

def representatives (stateCovariates actionCovariates : List (EvaluationCovariate ι))
    (programs : List AnyProgram) :
    Except GraphError (List ((GraphProgramType × GraphProgramContext × List (ValueKey ι)) ×
      AnyProgram)) :=
  programs.foldlM (fun representatives program => do
    let signature ← programSignature ids stateCovariates actionCovariates program
    return keepRepresentative programId signature program representatives) []

end Registry

def registryOf {ι : Type} [LinearOrder ι] (ids : SynthesisIds ι) (sourceLogId : ι)
    (stateCovariates actionCovariates : List (EvaluationCovariate ι))
    (syntactic : List AnyProgram) : Except GraphError (GraphProgramRegistry ι) := do
  let representatives ← representatives ids.toContentIds ids.programId stateCovariates
    actionCovariates syntactic
  let programs := sortBy ids.programId (representatives.map Prod.snd)
  let counts := (List.range (maxProgramDepth + 1)).map fun depth =>
    programs.countP (·.2.depth = depth)
  require (programs ≠ [] ∧ programs.Pairwise (fun p q => ids.programId p < ids.programId q) ∧
      programs.length ≤ syntactic.length ∧ counts.sum = programs.length)
    (.core "program registry coverage or ordering changed")
  return ⟨sourceLogId, programs, syntactic.length, counts⟩

namespace AnonymousGraphSourceLog

variable {ι : Type} [LinearOrder ι]

section Covariates

variable {ids : ContentIds ι} (log : AnonymousGraphSourceLog ids)

/-- A missing key and a missing index are both failed lookups. -/
def topologyAt (id : ι) : Except GraphError GraphTopology :=
  orRaise (log.topologies.find? (ids.topologyId · = id)) .index

def namedStates : List (GraphStateView ι) :=
  log.rows.flatMap fun row => row.state :: row.outcomes.map (·.nextState)

def stateCovariates : Except GraphError (List (EvaluationCovariate ι)) :=
  let states := Dict.ofPairs (log.namedStates.map fun state => (ids.stateId state, state))
  (sortBy ids.stateId (states.map Prod.snd)).mapM fun state => do
    let topology ← log.topologyAt state.topologyId
    let legal ← catalogue ids topology state
    return ⟨topology, state, none, legal⟩

def actionCovariates : Except GraphError (List (EvaluationCovariate ι)) :=
  log.rows.mapM fun row => do
    let topology ← log.topologyAt row.state.topologyId
    return ⟨topology, row.state, some row.action, row.legalActions⟩

/-! ## The summary of a pair of coordinates -/

def stateProgramValue (program : GraphCoordinateProgram .integer) (state : GraphStateView ι) :
    Except GraphError ℕ := do
  let topology ← log.topologyAt state.topologyId
  let legal ← catalogue ids topology state
  evaluateProgram ⟨topology, state, none, legal⟩ program

def actionProgramValue (program : GraphCoordinateProgram .integer) (row : GraphObservedRow ι) :
    Except GraphError ℕ := do
  let topology ← log.topologyAt row.state.topologyId
  evaluateProgram ⟨topology, row.state, some row.action, row.legalActions⟩ program

def stateValues (program : GraphCoordinateProgram .integer) : Except GraphError (List (ι × ℕ)) :=
  log.namedStates.foldlM (fun values state => do
    let value ← log.stateProgramValue program state
    return setDefault (ids.stateId state) value values) []

def supportRow (values : List (ι × ℕ)) (actionProgram : GraphCoordinateProgram .integer)
    (row : GraphObservedRow ι) : Except GraphError (SupportRow ι) := do
  let stateValue ← orRaise (values.lookup (ids.stateId row.state)) .index
  let actionValue ← log.actionProgramValue actionProgram row
  let outcomes ← row.outcomes.mapM fun outcome => do
    let destination ← outcome.destination ids values
    return (destination, outcome.probability, outcome.normalizedReward)
  return ⟨ids.stateId row.state, row.state.remainingHorizon, stateValue, actionValue, outcomes⟩

def candidateSummary (stateProgram actionProgram : GraphCoordinateProgram .integer) :
    Except GraphError CandidateSummary := do
  let values ← log.stateValues stateProgram
  let rows ← log.rows.mapM (log.supportRow values actionProgram)
  return summarize stateProgram actionProgram rows

end Covariates

variable {ids : SynthesisIds ι} (log : AnonymousGraphSourceLog ids.toContentIds)

def generateProgramRegistry : Except GraphError (GraphProgramRegistry ι) := do
  let stateCovariates ← log.stateCovariates
  let actionCovariates ← log.actionCovariates
  registryOf ids (ids.sourceLogId log.topologies log.rows) stateCovariates actionCovariates
    (syntacticProgramClosure ids.programId)

end AnonymousGraphSourceLog

section

variable {ι : Type} [LinearOrder ι] {ids : SynthesisIds ι}

def CandidateSummary.selectionKey (programId : AnyProgram → ι) (c : CandidateSummary) :
    ℚ ×ₗ ℕ ×ₗ ℕ ×ₗ ℕ ×ₗ ℕ ×ₗ String ×ₗ String ×ₗ ι ×ₗ ι :=
  toLex (c.soundAliasWidth, toLex (c.abstractSupportCount, toLex (c.abstractStateCount,
    toLex (c.stateProgram.nodeCount + c.actionProgram.nodeCount,
      toLex (max c.stateProgram.depth c.actionProgram.depth, toLex (c.stateProgram.rendered,
        toLex (c.actionProgram.rendered,
          toLex (programId c.stateProgram.any, programId c.actionProgram.any))))))))

/-- The narrowest admissible pair of the integer coordinates of a registry. -/
def selectPair (registryId : GraphProgramRegistry ι → ι)
    (log : AnonymousGraphSourceLog ids.toContentIds) (registry : GraphProgramRegistry ι) :
    Except GraphError (Synthesis ι) := do
  let integers := ofType .integer registry.programs
  let candidates ← (integers.filter (·.context = .state) ×ˢ
    integers.filter (·.context = .stateAction)).mapM fun programs =>
      log.candidateSummary programs.1 programs.2
  let selected ← orRaise
    ((candidates.filter (·.admissible)).argmin (CandidateSummary.selectionKey ids.programId))
    (.core "complete source-only candidate search found no compressive pair")
  return ⟨registry, candidates, selected, ⟨ids.sourceLogId log.topologies log.rows,
    registryId registry, selected.stateProgram, selected.actionProgram⟩⟩

def runSynthesis (registryId : GraphProgramRegistry ι → ι)
    (log : AnonymousGraphSourceLog ids.toContentIds) : Except GraphError (Synthesis ι) := do
  let registry ← log.generateProgramRegistry
  selectPair registryId log registry

end

end Acfqp.Coordinates
