import Acfqp.Route.Trace

/-!
# The strict replay of a route envelope

The strict verifier takes its bounds from a catalog in which every bound is recomputed, checks the
role and the context of every artifact, and keeps the fallback bound of a selection beside the
selected one.
-/

namespace Acfqp.Route

open Library

section Strict

variable (ids : Digests)

def deriveRouteUpperBound (profile : ComparisonProfile) (cardinality : CardinalityEvidence)
    (formula : ComparisonFormula) : Except RouteError RouteUpperBound := do
  require (formula.profileId = ids.profileId profile)
    (.comparison "formula uses a different profile")
  require (formula.routeCandidate = cardinality.routeCandidate)
    (.comparison "formula and cardinality route differ")
  let terms := formula.terms.map fun t => (t.axis, t.inputName, t.multiplier)
  match h : projectTerms profile.axes cardinality.counts terms
      (.comparison "formula names an unregistered axis")
      (.comparison "formula names an absent cardinality input")
      (.comparison "formula does not derive every profile axis") with
  | .error e => throw e
  | .ok values =>
    return {
      contextId := cardinality.contextId
      routeCandidate := cardinality.routeCandidate
      profileId := ids.profileId profile
      cardinalityEvidenceId := ids.cardinalityId cardinality
      formulaId := ids.formulaId formula
      vector := profile.vector (ids.profileId profile) cardinality.contextId
        cardinality.routeCandidate values (map_fst_projectTerms h)
      context_eq := rfl
      route_eq := rfl
      profile_eq := rfl }

structure ArtifactVerificationAttestation where
  artifactId : Identifier
  role : Identifier
  contextId : Identifier
  verificationId : Identifier

/-- The inputs of a route with their attestations, every bound derived from a cardinality and a
formula of the catalog. -/
structure VerifiedRouteInputCatalog where
  contextId : Identifier
  profile : ComparisonProfile
  cardinalities : List CardinalityEvidence
  formulas : List ComparisonFormula
  bounds : List RouteUpperBound
  artifactAttestations : List ArtifactVerificationAttestation
  cardinalities_ne : cardinalities ≠ []
  formulas_ne : formulas ≠ []
  bounds_ne : bounds ≠ []
  cardinalities_nodup : (cardinalities.map ids.cardinalityId).Nodup
  formulas_nodup : (formulas.map ids.formulaId).Nodup
  bounds_nodup : (bounds.map ids.boundId).Nodup
  attestations_nodup : (artifactAttestations.map (·.artifactId)).Nodup
  cardinalities_context : ∀ c ∈ cardinalities, c.contextId = contextId ∧
    c.sourceArtifactIds ⊆ artifactAttestations.map (·.artifactId)
  attestations_context : ∀ a ∈ artifactAttestations, a.contextId = contextId
  bounds_derived : ∀ b ∈ bounds, ∃ c ∈ cardinalities, ∃ f ∈ formulas,
    ids.cardinalityId c = b.cardinalityEvidenceId ∧ ids.formulaId f = b.formulaId ∧
      deriveRouteUpperBound ids profile c f = .ok b

variable {ids} in
def VerifiedRouteInputCatalog.boundMap (catalog : VerifiedRouteInputCatalog ids)
    (boundId : Identifier) : Option RouteUpperBound :=
  catalog.bounds.find? (ids.boundId · = boundId)

def derivedRoles : List String :=
  ["comparison_profile", "local_upper_bound", "fallback_upper_bound", "actual_work",
    "actual_comparison"]

variable (context : RouteDecisionContext) (catalog : VerifiedRouteInputCatalog ids)

/-- The reference of an artifact role. -/
def TransitionEvidence.ref (evidence : TransitionEvidence) (role : String) : Option Identifier :=
  evidence.artifactRefs.lookup role

def Attested (role : String) (artifactId : Identifier) : Prop :=
  ∃ a ∈ catalog.artifactAttestations,
    a.artifactId = artifactId ∧ a.role.1 = role ∧ a.contextId = ids.contextId context

instance (role : String) (artifactId : Identifier) :
    Decidable (Attested ids context catalog role artifactId) :=
  inferInstanceAs (Decidable (∃ _ ∈ _, _))

def validateArtifactRefs (evidence : TransitionEvidence) : Except RouteError Unit := do
  evidence.artifactRefs.forM fun (role, artifactId) =>
    require (role ∈ derivedRoles ∨ Attested ids context catalog role artifactId)
      (.verification s!"artifact reference lacks matching role/context attestation: {role}")
  require (∀ threshold ∈ evidence.ref "threshold_profile", threshold = context.thresholdProfileId)
    (.verification "threshold artifact differs from route context")
  if evidence.role = .routeSelection then
    require (evidence.ref "comparison_profile" = some context.comparisonProfileCandidateId)
      (.verification "selection profile artifact differs from route context")
    require (evidence.ref "fallback_upper_bound" = evidence.fallbackBoundId)
      (.verification "fallback-bound artifact reference mismatch")
    require (evidence.ref "local_upper_bound" = evidence.localBoundId)
      (.verification (if evidence.localBoundId.isNone then
        "no-local selection references a local bound"
        else "local-bound artifact reference mismatch"))
  else if evidence.role.route.isSome then
    require (evidence.ref "actual_work" = some (ids.workVectorId evidence.workDelta))
      (.verification "actual WorkVector artifact ID mismatch")
    require (evidence.ref "actual_comparison" =
        evidence.actualComparison.map ids.comparisonVectorId)
      (.verification "actual comparison-vector artifact ID mismatch")
  else return

def verifiedBound (boundId : Option Identifier) (route : RouteCandidate) (error : RouteError) :
    Except RouteError RouteUpperBound := do
  let bound ← orRaise (boundId.bind catalog.boundMap) error
  require (bound.contextId = ids.contextId context ∧
      bound.profileId = context.comparisonProfileCandidateId ∧ bound.routeCandidate = route) error
  return bound

/-- The local bound of a selection, if it has one, and the fallback's. -/
def validateStrictSelection (evidence : TransitionEvidence) :
    Except RouteError (Option RouteUpperBound × RouteUpperBound) := do
  let fallback ← verifiedBound ids context catalog evidence.fallbackBoundId .directFallback
    (.verification "verified fallback bound is absent or misbound")
  match evidence.localBoundId with
  | none => do
    require (evidence.outcome = .selectFallbackNoLocal)
      (.verification "selection omits a required local bound")
    return (none, fallback)
  | some localBoundId => do
    let localBound ← verifiedBound ids context catalog (some localBoundId) .localAttempt
      (.verification "verified local bound is absent or misbound")
    let relation ← compareRouteUpperBounds localBound fallback
    require (evidence.outcome = relation.selection)
      (.verification "selection outcome disagrees with recomputed upper bounds")
    return (some localBound, fallback)

structure StrictReplay where
  sequence : ℕ
  prevEventId : Option Identifier
  state : RouteState
  selectedBound : Option RouteUpperBound
  frozenFallbackBound : Option RouteUpperBound

def StrictReplay.initial : StrictReplay := ⟨0, none, .start, none, none⟩

def checkStrictExecution := checkExecution .verification
  "execution result has no verified selected upper bound"
  "execution result differs from selected route"

def selectStrictBounds (evidence : TransitionEvidence)
    (selected frozen : Option RouteUpperBound) :
    Except RouteError (Option RouteUpperBound × Option RouteUpperBound) :=
  match evidence.role with
  | .routeSelection => do
    let (localBound, fallback) ← validateStrictSelection ids context catalog evidence
    return (if evidence.outcome = .selectLocal then localBound else some fallback, some fallback)
  | .localResult => do
    checkStrictExecution evidence selected .localAttempt
    return (selected, frozen)
  | .fallbackResult => do
    checkStrictExecution evidence selected .directFallback
    return (selected, frozen)
  | _ => return (selected, frozen)

/-- The bounds that a transition leaves: a failed local transaction falls back to its frozen one. -/
def retainBounds (next : RouteState) (role : Role) (selected frozen : Option RouteUpperBound) :
    Except RouteError (Option RouteUpperBound × Option RouteUpperBound) :=
  if next = .nextLocalTransactionRequired then return (none, none)
  else if next = .fallbackExecutionRequired ∧ role = .localResult then do
    let fallback ← orRaise frozen
      (.verification "failed local transaction did not retain a fallback upper bound")
    return (some fallback, frozen)
  else return (selected, frozen)

def strictStep (registry : CounterRegistry) (r : StrictReplay) (event : RouteTraceEvent) :
    Except RouteError StrictReplay := do
  require (event.contextId = ids.contextId context)
    (.verification "event uses a different route context")
  require (event.sequence = r.sequence) (.verification "event sequence is not contiguous")
  require (event.prevEventId = r.prevEventId) (.verification "event hash chain is broken")
  require (event.stateBefore = r.state)
    (.verification "event state_before differs from replay")
  require (r.state.terminal = false) (.verification "event appears after terminal state")
  require (event.evidence.contextId = ids.contextId context)
    (.verification "transition evidence context mismatch")
  within .verification (registry.validateVector event.evidence.workDelta)
  validateArtifactRefs ids context catalog event.evidence
  let (selected, frozen) ← selectStrictBounds ids context catalog event.evidence r.selectedBound
    r.frozenFallbackBound
  let next ← within .verification (nextState r.state event.evidence)
  require (event.stateAfter = next) (.verification "event state_after differs from replay")
  let (selectedBound, frozenFallbackBound) ← retainBounds next event.evidence.role selected frozen
  return ⟨r.sequence + 1, some (ids.eventId event), next, selectedBound, frozenFallbackBound⟩

def replayStrictRouteEnvelope (envelope : RouteTraceEnvelope) (registry : CounterRegistry) :
    Except RouteError (RouteState × WorkVector) := do
  require (envelope.complete = true)
    (.verification "incomplete route prefix cannot be a route certificate")
  require (envelope.contextId = ids.contextId context ∧ catalog.contextId = ids.contextId context)
    (.verification "envelope/catalog/context identity mismatch")
  require (context.counterRegistryId = registry.registryId)
    (.verification "counter registry differs from route context")
  require (ids.profileId catalog.profile = context.comparisonProfileCandidateId)
    (.verification "comparison profile differs from route context")
  let r ← envelope.events.foldlM (strictStep ids context catalog registry) .initial
  require (r.state.terminal = true)
    (.verification "complete envelope ends on a nonterminal state")
  let work ← attemptWork context envelope.events
  require (envelope.finalState = r.state ∧ envelope.accumulatedWork = work)
    (.verification "envelope final state/work reconciliation mismatch")
  return (r.state, work)

end Strict

end Acfqp.Route
