import Acfqp.Abstraction.Partition

/-!
# Deterministic, duplicate-safe splits of a hard partition

A predicate thresholds a feature. A split is attempted once for every way of dividing a cell, and
the tracker remembers the attempts also when the attempt raises.
-/

namespace Acfqp.Refinement

open Library Abstraction

variable {S C : Type}

/-! ## Predicates -/

inductive Operator where
  | le
  | gt
  deriving DecidableEq

def Operator.symbol : Operator → String
  | .le => "<="
  | .gt => ">"

/-- A thresholded feature. Evaluating the feature may raise. -/
structure Predicate (S : Type) where
  featureName : String
  operator : Operator
  threshold : ℚ
  feature : S → Except PyError ℚ
  featureName_ne : featureName ≠ ""

namespace Predicate

def canonicalId (predicate : Predicate S) : String :=
  s!"{predicate.featureName}|{predicate.operator.symbol}|{predicate.threshold.num}/{predicate.threshold.den}"

def holds (predicate : Predicate S) (state : S) : Except PyError Bool := do
  let value ← predicate.feature state
  match predicate.operator with
  | .le => return decide (value ≤ predicate.threshold)
  | .gt => return decide (predicate.threshold < value)

end Predicate

/-! ## Candidates -/

structure RankedSplitCandidate (S : Type) where
  predicate : Predicate S
  auditWidthReduction : ℚ
  newlyCertifiedPairs : ℤ
  failureWidthReduction : ℚ
  rateCost : ℚ
  rateCost_pos : 0 < rateCost

def RankedSplitCandidate.score (candidate : RankedSplitCandidate S) : ℚ :=
  candidate.auditWidthReduction / candidate.rateCost

def RankedSplitCandidate.rank (candidate : RankedSplitCandidate S) :
    ℚ ×ₗ ℤ ×ₗ ℚ ×ₗ ℚ ×ₗ String :=
  toLex (-candidate.score, toLex (-candidate.newlyCertifiedPairs,
    toLex (-candidate.failureWidthReduction, toLex (candidate.rateCost,
      candidate.predicate.canonicalId))))

def rankSplitCandidates (candidates : List (RankedSplitCandidate S)) :
    List (RankedSplitCandidate S) :=
  sortBy RankedSplitCandidate.rank candidates

/-! ## The tracker -/

/-- Two blocks of printed states. -/
abbrev ChildSignature := List (List String)

/-- Mutable memory that prevents repeated split work. -/
structure RefinementTracker (C : Type) where
  pathPredicates : List (C × List String)
  evaluatedChildSignatures : List (C × List ChildSignature)

def RefinementTracker.predicatePath [DecidableEq C] (tracker : RefinementTracker C) (cell : C) :
    List String :=
  (tracker.pathPredicates.lookup cell).getD []

def childSignature [PyRepr S] (falseStates trueStates : List S) : ChildSignature :=
  let falseBlock := sortBy id (falseStates.map pyRepr)
  let trueBlock := sortBy id (trueStates.map pyRepr)
  sortBy id [falseBlock, trueBlock]

/-! ## Splits -/

inductive SplitStatus where
  | splitAccepted
  | duplicatePredicate
  | duplicatePartition
  | noOpSplit
  deriving DecidableEq

structure SplitResult (S C : Type) where
  status : SplitStatus
  partition : Partition S C
  predicateId : String
  parentCell : C
  falseCell : Option C
  trueCell : Option C
  detail : String

def SplitResult.accepted (result : SplitResult S C) : Bool := result.status = .splitAccepted

variable [DecidableEq S] [DecidableEq C] [PyRepr S] [PyRepr C]

def splitMembers (partition : Partition S C) (cell : C) (predicate : Predicate S) :
    Except PyError (List S × List S) := do
  let members ← partition.members cell
  let trueStates ← members.filterM predicate.holds
  let falseStates ← members.filterM fun state => not <$> predicate.holds state
  return (falseStates, trueStates)

/-- Apply one canonical predicate, rejecting duplicate and no-op work. `ofString` is a string as a
cell identifier. -/
def attemptSplit (ofString : String → C) (partition : Partition S C) (cell : C)
    (predicate : Predicate S) (tracker : RefinementTracker C) :
    Except PyError (SplitResult S C) × RefinementTracker C :=
  let predicateId := predicate.canonicalId
  if predicateId ∈ tracker.predicatePath cell then
    (.ok ⟨.duplicatePredicate, partition, predicateId, cell, none, none,
      "predicate already occurs on the root-to-cell path"⟩, tracker)
  else
    match splitMembers partition cell predicate with
    | .error e => (.error e, tracker)
    | .ok (falseStates, trueStates) =>
      if trueStates = [] ∨ falseStates = [] then
        (.ok ⟨.noOpSplit, partition, predicateId, cell, none, none,
          "predicate creates an empty child"⟩, tracker)
      else
        let signature := childSignature falseStates trueStates
        let evaluated := (tracker.evaluatedChildSignatures.lookup cell).getD []
        if signature ∈ evaluated then
          (.ok ⟨.duplicatePartition, partition, predicateId, cell, none, none,
            "equivalent child partition was already evaluated"⟩, tracker)
        else
          let tracker := { tracker with
            evaluatedChildSignatures :=
              Dict.assign cell (signature :: evaluated) tracker.evaluatedChildSignatures }
          let falseCell := ofString s!"{pyRepr cell}|{predicateId}|false"
          let trueCell := ofString s!"{pyRepr cell}|{predicateId}|true"
          match partition.replaceCell cell falseStates trueStates falseCell trueCell with
          | .error e => (.error e, tracker)
          | .ok refined =>
            let inheritedPath := tracker.predicatePath cell ++ [predicateId]
            (.ok ⟨.splitAccepted, refined, predicateId, cell, some falseCell, some trueCell, ""⟩,
              { tracker with
                pathPredicates := Dict.assign trueCell inheritedPath
                  (Dict.assign falseCell inheritedPath tracker.pathPredicates) })

end Acfqp.Refinement

/-!
## One step of counterexample-guided refinement

Candidates are ranked, charged against the budgets and attempted in turn until one split is
accepted. A ground fallback is charged on its own budget.
-/

namespace Acfqp.Refinement

open Library Abstraction

variable {S C : Type}

inductive CEGARStatus where
  | certified
  | splitAccepted
  | noSeparatingPredicate
  | allSplitsRejected
  | refinementBudgetExhausted
  | rateBudgetExhausted
  | groundFallback
  | infeasibleQuery
  deriving DecidableEq

structure RefinementBudget where
  maxLeaves : ℕ
  maxAcceptedSplits : ℕ
  rateBudgetBits : ℚ
  maxCandidateEvaluations : ℕ
  maxFallbackInvocations : ℕ
  maxLeaves_pos : 1 ≤ maxLeaves
  rateBudgetBits_nonneg : 0 ≤ rateBudgetBits

structure RefinementCounters where
  leaves : ℕ
  acceptedSplits : ℕ
  rateBits : ℚ
  candidateEvaluations : ℕ
  fallbackInvocations : ℕ
  deriving DecidableEq

structure CEGARResult (S C : Type) where
  status : CEGARStatus
  partition : Partition S C
  counters : RefinementCounters
  split : Option (SplitResult S C)
  consideredPredicates : List String
  detail : String

/-- What the loop over the candidates has charged and seen. -/
structure Attempts where
  evaluations : ℕ
  considered : List String
  sawRateBlock : Bool
  sawNonRateRejection : Bool

def separatingCandidates (ranked : List (RankedSplitCandidate S)) :
    Option (S × S) → Except PyError (List (RankedSplitCandidate S))
  | none => .ok ranked
  | some (left, right) => ranked.filterM fun candidate => do
    let onLeft ← candidate.predicate.holds left
    let onRight ← candidate.predicate.holds right
    return onLeft != onRight

/-- The test of an exact candidate against the current audit width. -/
def RankedSplitCandidate.QualityPasses (candidate : RankedSplitCandidate S) (width : ℚ) : Prop :=
  0 < candidate.newlyCertifiedPairs ∨ (0 < width ∧ width ≤ candidate.auditWidthReduction * 5)

instance (candidate : RankedSplitCandidate S) (width : ℚ) :
    Decidable (candidate.QualityPasses width) :=
  inferInstanceAs (Decidable (_ ∨ _ ∧ _))

variable [DecidableEq S] [DecidableEq C] [PyRepr S] [PyRepr C]

def attemptCandidates (ofString : String → C) (partition : Partition S C) (cell : C)
    (budget : RefinementBudget) (counters : RefinementCounters) (width : ℚ) (attempts : Attempts)
    (tracker : RefinementTracker C) :
    List (RankedSplitCandidate S) → Except PyError (CEGARResult S C) × RefinementTracker C
  | [] =>
    let updated := { counters with candidateEvaluations := attempts.evaluations }
    let status := if attempts.sawRateBlock ∧ ¬ attempts.sawNonRateRejection then
      CEGARStatus.rateBudgetExhausted else .allSplitsRejected
    (.ok ⟨status, partition, updated, none, attempts.considered, ""⟩, tracker)
  | candidate :: rest =>
    if budget.maxCandidateEvaluations ≤ attempts.evaluations then
      let updated := { counters with candidateEvaluations := attempts.evaluations }
      (.ok ⟨.refinementBudgetExhausted, partition, updated, none, attempts.considered,
        "candidate-evaluation budget exhausted"⟩, tracker)
    else
      let charged := { attempts with
        evaluations := attempts.evaluations + 1
        considered := attempts.considered ++ [candidate.predicate.canonicalId] }
      if ¬ candidate.QualityPasses width then
        attemptCandidates ofString partition cell budget counters width
          { charged with sawNonRateRejection := true } tracker rest
      else if budget.rateBudgetBits < counters.rateBits + candidate.rateCost then
        attemptCandidates ofString partition cell budget counters width
          { charged with sawRateBlock := true } tracker rest
      else
        match attemptSplit ofString partition cell candidate.predicate tracker with
        | (.error e, tracker) => (.error e, tracker)
        | (.ok split, tracker) =>
          if ¬ split.accepted then
            attemptCandidates ofString partition cell budget counters width
              { charged with sawNonRateRejection := true } tracker rest
          else
            let updated : RefinementCounters := ⟨counters.leaves + 1, counters.acceptedSplits + 1,
              counters.rateBits + candidate.rateCost, charged.evaluations,
              counters.fallbackInvocations⟩
            (.ok ⟨.splitAccepted, split.partition, updated, some split, charged.considered, ""⟩,
              tracker)

/-- The arguments of a refinement call, besides what a run threads through its calls. -/
structure RefineArguments (S C : Type) where
  cell : C
  candidates : List (RankedSplitCandidate S)
  currentAuditWidth : ℚ
  witness : Option (S × S)
  alreadyCertified : Bool
  queryFeasible : Bool

def refineOnce (ofString : String → C) (partition : Partition S C)
    (arguments : RefineArguments S C) (tracker : RefinementTracker C) (budget : RefinementBudget)
    (counters : RefinementCounters) : Except PyError (CEGARResult S C) × RefinementTracker C :=
  if ¬ arguments.queryFeasible then
    (.ok ⟨.infeasibleQuery, partition, counters, none, [], ""⟩, tracker)
  else if arguments.alreadyCertified then
    (.ok ⟨.certified, partition, counters, none, [], ""⟩, tracker)
  else if budget.maxLeaves ≤ counters.leaves ∨
      budget.maxAcceptedSplits ≤ counters.acceptedSplits then
    (.ok ⟨.refinementBudgetExhausted, partition, counters, none, [],
      "leaf or accepted-split budget exhausted"⟩, tracker)
  else if arguments.currentAuditWidth < 0 then
    (.error (.valueError "current audit width must be non-negative"), tracker)
  else
    match separatingCandidates (rankSplitCandidates arguments.candidates) arguments.witness with
    | .error e => (.error e, tracker)
    | .ok [] => (.ok ⟨.noSeparatingPredicate, partition, counters, none, [],
        "finite grammar contains no predicate separating the witness"⟩, tracker)
    | .ok (first :: rest) =>
      attemptCandidates ofString partition arguments.cell budget counters
        arguments.currentAuditWidth ⟨counters.candidateEvaluations, [], false, false⟩ tracker
        (first :: rest)

def recordGroundFallback (partition : Partition S C) (budget : RefinementBudget)
    (counters : RefinementCounters) : CEGARResult S C :=
  if budget.maxFallbackInvocations ≤ counters.fallbackInvocations then
    ⟨.refinementBudgetExhausted, partition, counters, none, [],
      "ground fallback/oracle budget exhausted"⟩
  else
    let updated :=
      { counters with fallbackInvocations := counters.fallbackInvocations + 1 }
    ⟨.groundFallback, partition, updated, none, [], ""⟩

end Acfqp.Refinement
