import Acfqp.Recovery.Counterfactual

/-!
# The slack-aware causal family

A capped best-first search over discharge sets. It opens the cheapest queued set, keeps it when the
certificate passes, and otherwise queues it with each eligible node added. The family is what is
inclusion-minimal among the sets that pass. A set is the list of its nodes, in order.
-/

namespace Acfqp.Recovery

open Library

inductive CausalSearchStatus where
  | certificateAlreadyPasses
  | causalFamilyFound
  | noCausalCover
  | searchCapReached
  deriving DecidableEq, Repr

structure CausalSearchRecord where
  dischargedNodeIds : List String
  activationTrace : List String
  capabilityCost : ℕ
  certificate : CounterfactualCertificate

/-- Complete capped search result and its inclusion-minimal terminal family. -/
structure SlackAwareCausalFamily where
  status : CausalSearchStatus
  evaluationCap : ℕ
  evaluationCount : ℕ
  searchComplete : Bool
  baseline : CounterfactualCertificate
  evaluations : List CausalSearchRecord
  minimalCoverNodeIds : List (List String)
  selectedNodeIds : Option (List String)
  selectedActivationTrace : Option (List String)
  candidateNodeIds : List String
  excludedCandidateNodeIds : List String

/-! ## The search -/

def capabilityCost (circuit : CausalProofCircuit) (nodeId : String) : ℕ :=
  (circuit.nodes.find? fun node => node.nodeId = nodeId).elim 0 CausalProofNode.capabilityCost

/-- `_set_cost`, which tells any two sets apart. -/
def setCost (circuit : CausalProofCircuit) (nodeIds : List String) : ℕ ×ₗ ℕ ×ₗ List String :=
  toLex ((nodeIds.map (capabilityCost circuit)).sum, toLex (nodeIds.length, nodeIds))

def addNode (discharged : List String) (nodeId : String) : List String :=
  sortBy id (distinct (discharged ++ [nodeId]))

structure CausalSearch where
  heap : List (List String)
  traces : List (List String × List String)
  queued : List (List String)
  visited : List (List String)
  records : List CausalSearchRecord
  terminals : List (List String)
  candidateNodes : List String

def CausalSearch.initial : CausalSearch where
  heap := [[]]
  traces := [([], [])]
  queued := [[]]
  visited := []
  records := []
  terminals := []
  candidateNodes := []

/-- Queue a set with one more node, once. -/
def CausalSearch.push (discharged trace : List String) (search : CausalSearch) (nodeId : String) :
    CausalSearch :=
  let child := addNode discharged nodeId
  if child ∈ search.queued then search
  else { search with
    heap := search.heap ++ [child]
    traces := (child, trace ++ [nodeId]) :: search.traces
    queued := child :: search.queued }

section Search

variable (circuit : CausalProofCircuit) (obligations : List CertificateObligation)
  (baseline : CounterfactualCertificate)

def certificateOf (discharged : List String) : Except PyError CounterfactualCertificate :=
  if discharged = [] then .ok baseline
  else evaluateCounterfactualCertificate circuit obligations discharged

def CausalSearch.record (search : CausalSearch) (discharged trace : List String)
    (certificate : CounterfactualCertificate) : CausalSearch :=
  let item : CausalSearchRecord :=
    ⟨discharged, trace, (discharged.map (capabilityCost circuit)).sum, certificate⟩
  let recorded : CausalSearch := { search with
    visited := search.visited ++ [discharged]
    records := search.records ++ [item] }
  if certificate.certified then { recorded with terminals := search.terminals ++ [discharged] }
  else certificate.eligibleNodeIds.foldl (CausalSearch.push discharged trace) { recorded with
    candidateNodes := search.candidateNodes ++ certificate.eligibleNodeIds }

def CausalSearch.openSet (search : CausalSearch) (discharged : List String) :
    Except PyError CausalSearch :=
  if discharged ∈ search.visited then .ok search
  else do
    let certificate ← certificateOf circuit obligations baseline discharged
    let trace ← orRaise (search.traces.lookup discharged) (.keyError (pyRepr discharged))
    .ok (search.record circuit discharged trace certificate)

/-- The loop of the search, and whether it stops at the cap. -/
def CausalSearch.run (maxEvaluations : ℕ) : ℕ → CausalSearch → Except PyError (Bool × CausalSearch)
  | 0, _ => .error (.runtimeError "the search did not end")
  | fuel + 1, search =>
    match search.heap.argmin (setCost circuit) with
    | none => .ok (false, search)
    | some discharged =>
      if maxEvaluations ≤ search.records.length then .ok (true, search)
      else do
        let search ← CausalSearch.openSet circuit obligations baseline
          { search with heap := search.heap.erase discharged } discharged
        CausalSearch.run maxEvaluations fuel search

def StrictlyInside (other terminal : List String) : Prop :=
  (∀ nodeId ∈ other, nodeId ∈ terminal) ∧ ∃ nodeId ∈ terminal, nodeId ∉ other

instance decidableStrictlyInside (other terminal : List String) :
    Decidable (StrictlyInside other terminal) :=
  inferInstanceAs (Decidable (_ ∧ _))

/-- The terminal sets that contain no other one, cheapest first. -/
def CausalSearch.minimal (search : CausalSearch) : List (List String) :=
  sortBy (setCost circuit) (search.terminals.filter fun terminal =>
    ¬ ∃ other ∈ search.terminals, StrictlyInside other terminal)

/-- What a search that stops at the cap reports. -/
def cappedFamily (maxEvaluations : ℕ) (search : CausalSearch) : SlackAwareCausalFamily where
  status := .searchCapReached
  evaluationCap := maxEvaluations
  evaluationCount := search.records.length
  searchComplete := false
  baseline := baseline
  evaluations := search.records
  minimalCoverNodeIds := []
  selectedNodeIds := none
  selectedActivationTrace := none
  candidateNodeIds := sortBy id (distinct search.candidateNodes)
  excludedCandidateNodeIds := []

def emptyFamily (maxEvaluations : ℕ) (search : CausalSearch) : SlackAwareCausalFamily where
  status := .noCausalCover
  evaluationCap := maxEvaluations
  evaluationCount := search.records.length
  searchComplete := true
  baseline := baseline
  evaluations := search.records
  minimalCoverNodeIds := []
  selectedNodeIds := none
  selectedActivationTrace := none
  candidateNodeIds := sortBy id (distinct search.candidateNodes)
  excludedCandidateNodeIds := sortBy id (distinct search.candidateNodes)

/-- What a search that ends with terminal sets reports. -/
def foundFamily (maxEvaluations : ℕ) (search : CausalSearch) :
    Except PyError SlackAwareCausalFamily := do
  let minimal := search.minimal circuit
  let selected ← orRaise minimal.head? (.runtimeError "tuple index out of range")
  let selectedRecord ← orRaise (search.records.find? fun record =>
    record.dischargedNodeIds = selected) (.runtimeError "StopIteration")
  .ok {
    status := .causalFamilyFound
    evaluationCap := maxEvaluations
    evaluationCount := search.records.length
    searchComplete := true
    baseline := baseline
    evaluations := search.records
    minimalCoverNodeIds := minimal
    selectedNodeIds := some selected
    selectedActivationTrace := some selectedRecord.activationTrace
    candidateNodeIds := sortBy id (distinct search.candidateNodes)
    excludedCandidateNodeIds := sortBy id (distinct (search.candidateNodes.filter fun nodeId =>
      nodeId ∉ minimal.flatten)) }

/-- What a plan that already passes reports. -/
def passingFamily (maxEvaluations : ℕ) : SlackAwareCausalFamily where
  status := .certificateAlreadyPasses
  evaluationCap := maxEvaluations
  evaluationCount := 1
  searchComplete := true
  baseline := baseline
  evaluations := [⟨[], [], 0, baseline⟩]
  minimalCoverNodeIds := []
  selectedNodeIds := some []
  selectedActivationTrace := some []
  candidateNodeIds := []
  excludedCandidateNodeIds := []

def familyOf (maxEvaluations : ℕ) (result : Bool × CausalSearch) :
    Except PyError SlackAwareCausalFamily :=
  if result.1 then .ok (cappedFamily baseline maxEvaluations result.2)
  else if result.2.terminals = [] then .ok (emptyFamily baseline maxEvaluations result.2)
  else foundFamily circuit baseline maxEvaluations result.2

/-- Enumerate the complete active and slack causal family under an exact cap. Every opened set is
recorded, so that one more round than the cap is enough. -/
def findSlackAwareCausalFamily (maxEvaluations : ℕ) : Except PyError SlackAwareCausalFamily := do
  require (0 < maxEvaluations) (.valueError "max_evaluations must be a positive integer")
  let baseline ← evaluateCounterfactualCertificate circuit obligations []
  if baseline.certified then .ok (passingFamily baseline maxEvaluations)
  else
    let result ← CausalSearch.run circuit obligations baseline maxEvaluations (maxEvaluations + 1)
      .initial
    familyOf circuit baseline maxEvaluations result

end Search

end Acfqp.Recovery
