import Acfqp.Route.Strict

/-!
# The guard of a route's transactions

The guard replays a strict envelope, binds every causal search to a decision point, derives the
budget of local transactions from a cap profile, and recomputes the actual comparison of every
execution from its work.
-/

namespace Acfqp.Route

open Library

structure RouteCapProfile where
  contextId : Identifier
  profileKey : Identifier
  maxLocalTransactions : ℕ
  pos : 0 < maxLocalTransactions

def negativeCausal : List RouteOutcome := [.capExhausted, .noSoundCover, .localCapImpossible]

/-- The decision that follows a causal search: with a local bound and cap exactly when a local route
was found. -/
structure DecisionPointBinding where
  contextId : Identifier
  transactionId : Identifier
  transactionIndex : ℕ
  frontierSnapshotId : Identifier
  causalEvidenceId : Identifier
  causalOutcome : RouteOutcome
  localBoundId : Option Identifier
  fallbackBoundId : Identifier
  localCapId : Option Identifier
  fallbackCapId : Identifier
  index_pos : 0 < transactionIndex
  outcome_mem : causalOutcome ∈ RouteOutcome.found :: negativeCausal
  localBound_iff : localBoundId.isSome ↔ causalOutcome = .found
  localCap_iff : localCapId.isSome ↔ causalOutcome = .found

structure ProjectionTerm where
  axis : Identifier
  workPath : Identifier
  multiplier : ℕ

def ProjectionTerm.key (t : ProjectionTerm) : String ×ₗ String ×ₗ ℕ :=
  toLex (t.axis.1, toLex (t.workPath.1, t.multiplier))

structure ActualProjection where
  counterRegistryId : Identifier
  comparisonProfileId : Identifier
  routeCandidate : RouteCandidate
  projectionKey : Identifier
  terms : List ProjectionTerm
  terms_ne : terms ≠ []
  sorted : (terms.map ProjectionTerm.key).Pairwise (· ≤ ·)
  pairs_nodup : (terms.map fun t => (t.axis, t.workPath)).Nodup

section Guard

variable (ids : Digests)

def deriveActualComparison (work : WorkVector) (contextId : Identifier)
    (registry : CounterRegistry) (profile : ComparisonProfile) (projection : ActualProjection) :
    Except RouteError ComparisonVector := do
  registry.validateVector work
  require (projection.counterRegistryId = registry.registryId)
    (.guarded "actual projection uses a different registry")
  require (projection.comparisonProfileId = ids.profileId profile)
    (.guarded "actual projection uses a different profile")
  let terms := projection.terms.map fun t => (t.axis.1, t.workPath.1, t.multiplier)
  match h : projectTerms profile.axes work.values terms
      (.guarded "actual projection names an unknown axis")
      (.guarded "actual projection names an unknown WorkVector leaf")
      (.guarded "actual projection does not cover every shared axis") with
  | .error e => throw e
  | .ok values =>
    return profile.vector (ids.profileId profile) contextId projection.routeCandidate values
      (map_fst_projectTerms h)

variable (context : RouteDecisionContext) (registry : CounterRegistry)
  (profile : ComparisonProfile) (capProfile : RouteCapProfile)
  (decisionPoints : List DecisionPointBinding)
  (localProjection fallbackProjection : ActualProjection)

def checkDecisionPoints : Except RouteError Unit := do
  require (capProfile.contextId = ids.contextId context)
    (.guarded "cap profile uses a different route context")
  require (localProjection.routeCandidate = .localAttempt)
    (.guarded "local actual projection has the wrong route")
  require (fallbackProjection.routeCandidate = .directFallback)
    (.guarded "fallback actual projection has the wrong route")
  require (decisionPoints.map (·.causalEvidenceId)).Nodup
    (.guarded "decision-point bindings repeat causal evidence")
  require (decisionPoints.map (·.transactionId)).Nodup
    (.guarded "decision-point bindings reuse a transaction ID")
  require (sortBy id (decisionPoints.map (·.transactionIndex)) =
      List.range' 1 decisionPoints.length)
    (.guarded "decision-point transaction indices are not contiguous")
  decisionPoints.forM fun point => do
    require (point.contextId = ids.contextId context)
      (.guarded "decision point uses a different context")
    require (point.transactionIndex ≤ capProfile.maxLocalTransactions)
      (.guarded "decision point exceeds local transaction cap")

/-- The active decision point, and the causal evidence seen so far. -/
structure GuardState where
  active : Option DecisionPointBinding
  seenCausal : List Identifier

def guardCausal (g : GuardState) (evidence : TransitionEvidence) :
    Except RouteError GuardState := do
  let point ← orRaise
    (decisionPoints.find? (·.causalEvidenceId = ids.evidenceId evidence))
    (.guarded "causal evidence lacks a decision-point binding")
  require (ids.evidenceId evidence ∉ g.seenCausal)
    (.guarded "causal evidence is replayed twice")
  require (evidence.transactionId = some point.transactionId)
    (.guarded "causal transaction ID differs from binding")
  require (evidence.outcome = point.causalOutcome)
    (.guarded "causal outcome differs from binding")
  require (evidence.ref "frontier_snapshot" = some point.frontierSnapshotId)
    (.guarded "causal frontier snapshot differs from binding")
  return ⟨some point, ids.evidenceId evidence :: g.seenCausal⟩

def guardSelection (g : GuardState) (evidence : TransitionEvidence) :
    Except RouteError GuardState := do
  let active ← orRaise g.active (.guarded "route selection has no active decision point")
  require (evidence.transactionId = some active.transactionId)
    (.guarded "selection transaction differs from decision point")
  require (evidence.fallbackBoundId = some active.fallbackBoundId)
    (.guarded "selection fallback bound is stale/misbound")
  (if active.causalOutcome ∈ negativeCausal then do
    require (evidence.outcome = .selectFallbackNoLocal)
      (.guarded "negative causal result selected local work")
    require (evidence.localBoundId = none)
      (.guarded "negative causal selection carries local bound")
  else
    require (evidence.localBoundId = active.localBoundId)
      (.guarded "selection local bound is stale/misbound"))
  require (evidence.ref "fallback_cap_profile" = some active.fallbackCapId)
    (.guarded "selection fallback cap differs from binding")
  require (active.localCapId = none ∨ evidence.ref "local_cap_profile" = active.localCapId)
    (.guarded "selection local cap differs from binding")
  return g

/-- The local budget that a local result claims is the one that the cap profile leaves. -/
def checkBudget (active : DecisionPointBinding) (outcome : RouteOutcome) :
    Except RouteError Unit := do
  require (outcome = .failedDeeperBudgetRemains →
      active.transactionIndex < capProfile.maxLocalTransactions)
    (.guarded "worker claims budget remains at the cap")
  require (outcome = .failedDeeperBudgetExhausted →
      capProfile.maxLocalTransactions ≤ active.transactionIndex)
    (.guarded "worker claims budget exhausted before the cap")

def guardLocal (g : GuardState) (evidence : TransitionEvidence) : Except RouteError GuardState := do
  let active ← orRaise g.active (.guarded "local result has no matching decision point")
  require (evidence.transactionId = some active.transactionId)
    (.guarded "local result has no matching decision point")
  require (active.causalOutcome = .found)
    (.guarded "local result follows a negative causal outcome")
  require (evidence.ref "local_cap_profile" = active.localCapId)
    (.guarded "local result uses a different cap")
  let recomputed ← deriveActualComparison ids evidence.workDelta (ids.contextId context) registry
    profile localProjection
  require (evidence.actualComparison = some recomputed)
    (.guarded "local actual comparison does not recompute")
  checkBudget capProfile active evidence.outcome
  return if evidence.outcome = .failedDeeperBudgetRemains then { g with active := none } else g

def guardFallback (g : GuardState) (evidence : TransitionEvidence) :
    Except RouteError GuardState := do
  let active ← orRaise g.active (.guarded "fallback result has no matching decision point")
  require (evidence.transactionId = some active.transactionId)
    (.guarded "fallback result has no matching decision point")
  require (evidence.ref "fallback_cap_profile" = some active.fallbackCapId)
    (.guarded "fallback result uses a different cap")
  let recomputed ← deriveActualComparison ids evidence.workDelta (ids.contextId context) registry
    profile fallbackProjection
  require (evidence.actualComparison = some recomputed)
    (.guarded "fallback actual comparison does not recompute")
  return { g with active := none }

def guardStep (g : GuardState) (event : RouteTraceEvent) : Except RouteError GuardState :=
  match event.evidence.role with
  | .causalSearch => guardCausal ids decisionPoints g event.evidence
  | .routeSelection => guardSelection g event.evidence
  | .localResult => guardLocal ids context registry profile capProfile localProjection g
    event.evidence
  | .fallbackResult => guardFallback ids context registry profile fallbackProjection g
    event.evidence
  | _ => return g

variable (catalog : VerifiedRouteInputCatalog ids)

def guardRouteProtocol (envelope : RouteTraceEnvelope) :
    Except RouteError (RouteState × WorkVector) := do
  let (state, work) ← replayStrictRouteEnvelope ids context catalog envelope registry
  checkDecisionPoints ids context capProfile decisionPoints localProjection fallbackProjection
  let g ← envelope.events.foldlM (guardStep ids context registry catalog.profile capProfile
    decisionPoints localProjection fallbackProjection) ⟨none, []⟩
  require (g.seenCausal.toFinset = (decisionPoints.map (·.causalEvidenceId)).toFinset)
    (.guarded "unused or missing decision-point binding")
  return (state, work)

end Guard

end Acfqp.Route
