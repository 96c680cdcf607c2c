import Acfqp.Planning.Nominal
import Acfqp.Planning.PolicyOptimum

/-!
# Portable models and queries

The reusable abstract planning models that cross a process boundary, as their documents read once
they are accepted: every identifier is content-addressed and nonempty, the nominal entries cover
the catalogue of semantic actions, and a query is bound to one model.
-/

namespace Acfqp.Portable

open Library Planning

abbrev PortableId := {id : String // id ≠ ""}

/-- Identifiers are sorted as they are. -/
instance : PyRepr PortableId := ⟨Subtype.val⟩

/-- A nominal transition of one cell under one semantic action. -/
structure PortableTransition where
  rewardFeatures : Features
  successorProbabilities : List (PortableId × ℚ)
  failureProbability : ℚ
  terminationProbability : ℚ
  features_sorted : (rewardFeatures.map Prod.fst).Pairwise (· < ·)
  successors_pos : ∀ e ∈ successorProbabilities, 0 < e.2
  successors_sorted : (successorProbabilities.map Prod.fst).Pairwise (· < ·)
  failure_nonneg : 0 ≤ failureProbability
  failure_le : failureProbability ≤ terminationProbability
  mass_eq : (successorProbabilities.map Prod.snd).sum + terminationProbability = 1

structure NominalEntry where
  cellId : PortableId
  actionId : PortableId
  model : PortableTransition

def NominalEntry.key (entry : NominalEntry) : PortableId × PortableId :=
  (entry.cellId, entry.actionId)

/-- The caps that prove a normalizer: of one feature, each step and in total. -/
structure FeatureCap where
  name : String
  perStepCap : Option ℚ
  totalCap : Option ℚ

structure NormalizerRule where
  proofId : String
  rewardBasis : Features
  featureCaps : List FeatureCap

/-- An accepted model. -/
structure PortableRAPM where
  modelId : PortableId
  horizon : ℕ
  stateCatalog : List (PortableId × String)
  partition : List (PortableId × List PortableId)
  rewardFeatures : List String
  normalizerRules : List NormalizerRule
  goalIds : List String
  semanticActionCatalog : List (PortableId × PortableId)
  nominal : List NominalEntry
  actions_unique : (semanticActionCatalog.map Prod.fst).Nodup
  nominal_unique : (nominal.map NominalEntry.key).Nodup
  nominal_scoped : ∀ e ∈ nominal, (e.actionId, e.cellId) ∈ semanticActionCatalog

/-- A query that holds cell-level planning inputs only. -/
structure PortableQuery where
  queryId : PortableId
  modelId : PortableId
  initialDistribution : List (PortableId × ℚ)
  horizon : ℕ
  rewardWeights : Features
  normalizer : ℚ
  normalizerProofId : String
  normalizedRewardWeights : Features
  goalId : String
  delta : ℚ
  initial_pos : ∀ e ∈ initialDistribution, 0 < e.2
  initial_sorted : (initialDistribution.map Prod.fst).Pairwise (· < ·)
  initial_sum : (initialDistribution.map Prod.snd).sum = 1
  weights_nonneg : ∀ w ∈ rewardWeights, 0 ≤ w.2
  normalizer_pos : 0 < normalizer
  normalized : normalizedRewardWeights = rewardWeights.map fun w => (w.1, w.2 / normalizer)
  delta_registered : delta ∈ [(0 : ℚ), 1 / 20, 1 / 10]

/-! ## A query against its model -/

/-- What the registered caps allow a feature to reach over a horizon. -/
def FeatureCap.bound (cap : FeatureCap) (horizon : ℕ) : Except PyError ℚ :=
  orRaise ((cap.perStepCap.map fun c => c * (horizon : ℚ)).toList ++ cap.totalCap.toList).min?
    (.valueError "min() iterable argument is empty")

def provedBound (rule : NormalizerRule) (rawWeights : Features) (horizon : ℕ) :
    Except PyError ℚ := do
  let terms ← (rawWeights.filter fun w => w.2 ≠ 0).mapM fun w => do
    let cap ← orRaise (rule.featureCaps.find? fun cap => cap.name = w.1)
      (.valueError s!"normalizer proof does not bound reward feature {pyRepr w.1}")
    let bound ← cap.bound horizon
    .ok (w.2 * bound)
  .ok terms.sum

def failureCells (model : PortableRAPM) : List PortableId :=
  (model.partition.filter fun cell => cell.2.all fun state =>
    model.stateCatalog.lookup state = some "failure").map Prod.fst

def validateQueryPayload (query : PortableQuery) (model : PortableRAPM) : Except PyError Unit := do
  require (∀ e ∈ query.initialDistribution, e.1 ∈ model.partition.map Prod.fst)
    (.valueError "query.initial_distribution references an unknown cell_id")
  require (query.modelId = model.modelId) (.valueError "portable query/model mismatch")
  require (query.horizon ≤ model.horizon)
    (.valueError "portable query horizon exceeds model horizon")
  let unknownFeatures := (query.normalizedRewardWeights.map Prod.fst).filter fun name =>
    name ∉ model.rewardFeatures
  require (unknownFeatures = [])
    (.valueError s!"portable query uses unknown reward features: {pyReprSet unknownFeatures}")
  let rule ← orRaise (model.normalizerRules.find? fun rule =>
    rule.proofId = query.normalizerProofId)
    (.valueError s!"portable query uses an unregistered normalizer proof: {
      pyRepr query.normalizerProofId}")
  require (query.rewardWeights = rule.rewardBasis) (.valueError
    "portable query reward weights do not match its registered normalizer proof basis")
  let bound ← provedBound rule query.rewardWeights query.horizon
  require (bound ≤ query.normalizer)
    (.valueError "portable query normalizer is below its registered deterministic bound")
  require (query.goalId ∈ model.goalIds)
    (.valueError s!"portable query uses unknown goal: {pyRepr query.goalId}")
  require (∀ e ∈ query.initialDistribution, e.1 ∉ failureCells model)
    (.valueError "portable queries cannot place initial mass on an already-failed cell")

def bindQuery (model : PortableRAPM) (query : PortableQuery) : Except PyError Unit := do
  require (query.modelId = model.modelId) (.valueError "portable query/model mismatch")
  validateQueryPayload query model

theorem PortableQuery.normalized_nonneg (query : PortableQuery) :
    ∀ w ∈ query.normalizedRewardWeights, 0 ≤ w.2 := by
  intro w hw
  rw [query.normalized] at hw
  obtain ⟨raw, hraw, rfl⟩ := List.mem_map.mp hw
  exact div_nonneg (query.weights_nonneg raw hraw) query.normalizer_pos.le

end Acfqp.Portable

/-!
## Exact planning over a portable model

The consumption side of the model boundary: a scalar Bellman table of the reward alone, and the
complete value-risk frontier of the deterministic policies. Both read the nominal entries only.
-/

namespace Acfqp.Portable

open Library Planning

abbrev PortableParetoPoint := ParetoPoint PortableId PortableId

def pointDocument (point : PortableParetoPoint) :
    (ℚ × ℚ) × List ((ℕ × PortableId) × PortableId) :=
  (point.coordinates, point.policy.asDict)

def portableParetoPrune (points : List PortableParetoPoint) : List PortableParetoPoint :=
  paretoPrune points

def portableSelectConstrained (frontier : List PortableParetoPoint) (delta : ℚ) :
    Option PortableParetoPoint :=
  selectConstrained frontier delta

def PortableTransition.reward (transition : PortableTransition) (weights : Features) : ℚ :=
  weigh weights transition.rewardFeatures

/-! ## The reward-only Bellman table -/

structure PortableRewardUpperRow where
  remaining : ℕ
  cellId : PortableId
  rewardUpper : ℚ
  remaining_pos : 0 < remaining
  reward_nonneg : 0 ≤ rewardUpper

def PortableRewardUpperRow.make (remaining : ℕ) (cellId : PortableId) (rewardUpper : ℚ) :
    Except PyError PortableRewardUpperRow :=
  if remaining_pos : 0 < remaining then
    if reward_nonneg : 0 ≤ rewardUpper then
      .ok ⟨remaining, cellId, rewardUpper, remaining_pos, reward_nonneg⟩
    else .error (.valueError "reward-upper rows must be nonnegative")
  else .error (.valueError "reward-upper rows require a positive horizon")

abbrev RewardValues := List ((ℕ × PortableId) × ℚ)

/-- A value that is not in the table counts as zero. -/
def RewardValues.get (values : RewardValues) (remaining : ℕ) (cell : PortableId) : ℚ :=
  (values.lookup (remaining, cell)).getD 0

def entriesByCell (model : PortableRAPM) (cell : PortableId) : List PortableTransition :=
  (model.nominal.filter fun e => e.cellId = cell).map NominalEntry.model

def entryCells (model : PortableRAPM) : List PortableId :=
  sortBy id (distinct (model.nominal.map NominalEntry.cellId))

def rewardCandidate (weights : Features) (values : RewardValues) (remaining : ℕ)
    (transition : PortableTransition) : ℚ :=
  transition.reward weights +
    if 1 < remaining then (transition.successorProbabilities.map fun e =>
      e.2 * values.get (remaining - 1) e.1).sum
    else 0

def rewardUpper (model : PortableRAPM) (weights : Features) (values : RewardValues)
    (remaining : ℕ) (cell : PortableId) : ℚ :=
  ((entriesByCell model cell).map (rewardCandidate weights values remaining)).max?.getD 0

/-- One entry of the table, with its row. -/
def rewardUpperStep (model : PortableRAPM) (weights : Features)
    (s : RewardValues × List PortableRewardUpperRow) (key : ℕ × PortableId) :
    Except PyError (RewardValues × List PortableRewardUpperRow) := do
  let upper := rewardUpper model weights s.1 key.1 key.2
  let row ← PortableRewardUpperRow.make key.1 key.2 upper
  .ok (Dict.assign key upper s.1, s.2 ++ [row])

def rewardUpperTable (model : PortableRAPM) (weights : Features) (horizon : ℕ) :
    Except PyError (RewardValues × List PortableRewardUpperRow) :=
  (List.range' 1 horizon).foldlM (fun s remaining => (entryCells model).foldlM
    (fun s cell => rewardUpperStep model weights s (remaining, cell)) s) ([], [])

def rewardUpperBellman (model : PortableRAPM) (query : PortableQuery) :
    Except PyError (List PortableRewardUpperRow × ℚ) := do
  bindQuery model query
  let (values, rows) ← rewardUpperTable model query.normalizedRewardWeights query.horizon
  let rootUpper := (query.initialDistribution.map fun e =>
    e.2 * values.get query.horizon e.1).sum
  .ok (rows, rootUpper)

/-! ## The frontier -/

structure PortablePlanResult where
  modelId : PortableId
  queryId : PortableId
  frontier : List PortableParetoPoint
  selected : Option PortableParetoPoint
  composedCandidateCount : ℕ

def actionsByCell (model : PortableRAPM) (cell : PortableId) : List PortableId :=
  sortBy id ((model.nominal.filter fun e => e.cellId = cell).map NominalEntry.actionId)

def transitionMove (model : PortableRAPM) (weights : Features) (cell action : PortableId) :
    Except PyError (Move PortableId) := do
  let entry ← orRaise (model.nominal.find? fun e => e.key = (cell, action))
    (.keyError (pyRepr (cell.1, action.1)))
  .ok ⟨entry.model.reward weights, entry.model.failureProbability,
    entry.model.successorProbabilities⟩

/-- The recursion of `frontier_for` over the nominal entries. -/
def portablePlanner (model : PortableRAPM) (weights : Features) :
    CellPlanner PortableId PortableId PortableParetoPoint :=
  paretoPlanner (actionsByCell model) (transitionMove model weights)

def validatePolicyReferences (frontier : List PortableParetoPoint) (model : PortableRAPM)
    (query : PortableQuery) : Except PyError Unit :=
  frontier.forM fun point => point.policy.decisions.forM fun decision => do
    require (decision.remaining ≤ query.horizon)
      (.valueError "portable policy decision exceeds query horizon")
    require (model.semanticActionCatalog.lookup decision.action = some decision.state)
      (.valueError "portable policy references an unknown or wrongly scoped action")

/-- The invariants of a result that are exercised before it is returned. -/
def PortablePlanResult.validate (result : PortablePlanResult) (model : PortableRAPM)
    (query : PortableQuery) : Except PyError PortablePlanResult := do
  require (result.modelId = model.modelId) (.valueError "portable plan result/model mismatch")
  require (result.queryId = query.queryId) (.valueError "portable plan result/query mismatch")
  require (result.modelId = query.modelId)
    (.valueError "portable plan result uses query from another model")
  require (result.frontier ≠ []) (.valueError "portable plan frontier must be a nonempty list")
  require (∀ point ∈ result.frontier,
      0 ≤ point.failureProbability ∧ point.failureProbability ≤ 1)
    (.valueError "portable Pareto failure probability lies outside [0, 1]")
  require (result.frontier.map pointDocument =
      (portableParetoPrune result.frontier).map pointDocument)
    (.valueError "portable plan frontier is not canonical/nondominated")
  require (result.selected.map pointDocument =
      (portableSelectConstrained result.frontier query.delta).map pointDocument)
    (.valueError "portable plan selected point is inconsistent with query delta")
  validatePolicyReferences result.frontier model query
  .ok result

def solvePortablePareto (model : PortableRAPM) (query : PortableQuery) :
    Except PyError PortablePlanResult := do
  bindQuery model query
  let planner := portablePlanner model query.normalizedRewardWeights
  let (frontier, _, composed) ← planner.frontierFor query.horizon
    (planner.canonical query.initialDistribution) ([], 0)
  let selected := portableSelectConstrained frontier query.delta
  PortablePlanResult.validate ⟨model.modelId, query.queryId, frontier, selected, composed⟩
    model query

end Acfqp.Portable
