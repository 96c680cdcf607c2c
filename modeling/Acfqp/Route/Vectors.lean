import Acfqp.Core

/-!
# Work vectors and route bounds

A work vector is a list of counters in the order of their paths. A comparison vector is one over the
axes of a profile, and a route bound is such a vector with the inputs it was derived from. The
identities of the documents are content digests, which are parameters.
-/

namespace Acfqp.Route

open Library

/-- The failures of a route's records, by the layer that finds them. -/
inductive RouteError where
  | counter (message : String)
  | comparison (message : String)
  | router (message : String)
  | verification (message : String)
  | guarded (message : String)
  deriving DecidableEq

def RouteError.message : RouteError → String
  | .counter m | .comparison m | .router m | .verification m | .guarded m => m

/-- A failure of an inner layer, raised again by an outer one. -/
def within {α : Type} (layer : String → RouteError) (x : Except RouteError α) :
    Except RouteError α :=
  x.mapError fun e => layer e.message

@[simp] theorem within_eq_ok {α : Type} {layer : String → RouteError} {x : Except RouteError α}
    {a : α} : within layer x = .ok a ↔ x = .ok a := by
  cases x <;> simp [within, Except.mapError]

abbrev Identifier := {s : String // s ≠ ""}

instance : LawfulBEq Identifier := inferInstance

def isLower (c : Char) : Bool := 'a' ≤ c && c ≤ 'z'

def isSegment : List Char → Bool
  | [] => false
  | c :: rest => isLower c && rest.all fun d => isLower d || d.isDigit || d == '_'

/-- At least two segments with dots between them. -/
def IsPath (s : String) : Prop :=
  2 ≤ (s.toList.splitOn '.').length ∧ (s.toList.splitOn '.').all isSegment = true

instance : DecidablePred IsPath := fun _ => inferInstanceAs (Decidable (_ ∧ _))

/-- Values by distinct keys, in the order of the keys. -/
def Increasing {α : Type} (values : List (String × α)) : Prop :=
  (values.map Prod.fst).Pairwise (· < ·)

instance {α : Type} : DecidablePred (Increasing (α := α)) := fun _ =>
  inferInstanceAs (Decidable (List.Pairwise _ _))

def valueOf (values : List (String × ℕ)) (key : String) : ℕ := (values.lookup key).getD 0

def keySet {α : Type} (values : List (String × α)) : Finset String :=
  (values.map Prod.fst).toFinset

/-- The printed form of `sorted(left - right)`. -/
def sortedDifference (left right : List String) : String :=
  pyReprList (sortBy id (left.dedup.filter (· ∉ right)))

/-! ## Work vectors -/

structure WorkVector where
  registryId : Identifier
  subjectId : Identifier
  values : List (String × ℕ)
  increasing : Increasing values
  paths : ∀ key ∈ values.map Prod.fst, IsPath key
  deriving DecidableEq

inductive CounterKind where
  | chargedOp
  | chargedByte
  | diagnosticCardinality
  | derivedAlias
  deriving DecidableEq

structure CounterLeaf where
  path : String
  kind : CounterKind

structure CounterRegistry where
  registryId : Identifier
  leaves : List CounterLeaf

def CounterRegistry.canonicalPaths (registry : CounterRegistry) : List String :=
  (registry.leaves.filter (·.kind ≠ .derivedAlias)).map CounterLeaf.path

def CounterRegistry.validateVector (registry : CounterRegistry) (vector : WorkVector) :
    Except RouteError Unit := do
  require (vector.registryId = registry.registryId)
    (.counter "work vector uses a different registry")
  require (keySet vector.values = registry.canonicalPaths.toFinset)
    (.counter s!"work vector component set mismatch; missing={
      sortedDifference registry.canonicalPaths (vector.values.map Prod.fst)}, extra={
      sortedDifference (vector.values.map Prod.fst) registry.canonicalPaths}")

theorem map_fst_addValues (left right : List (String × ℕ)) :
    (left.map fun entry => (entry.1, entry.2 + valueOf right entry.1)).map Prod.fst =
      left.map Prod.fst := by
  simp

def WorkVector.add (left right : WorkVector) (subjectId : Identifier) :
    Except RouteError WorkVector := do
  require (left.registryId = right.registryId)
    (.counter "cannot add vectors from different registries")
  require (keySet left.values = keySet right.values)
    (.counter "cannot add vectors with different components")
  return {
    registryId := left.registryId
    subjectId := subjectId
    values := left.values.map fun entry => (entry.1, entry.2 + valueOf right.values entry.1)
    increasing := by
      rw [Increasing, map_fst_addValues]
      exact left.increasing
    paths := by
      rw [map_fst_addValues]
      exact left.paths }

def sumWorkVectors (vectors : List WorkVector) (subjectId : Identifier) :
    Except RouteError WorkVector :=
  match vectors with
  | [] => .error (.counter "cannot sum an empty work-vector collection")
  | [vector] => .ok { vector with subjectId := subjectId }
  | first :: rest => rest.foldlM (fun result vector => result.add vector subjectId) first

/-! ## Comparison vectors and route bounds -/

inductive RouteCandidate where
  | localAttempt
  | directFallback
  deriving DecidableEq

structure ComparisonProfile where
  profileKey : Identifier
  version : Identifier
  axes : List String
  axes_ne : axes ≠ []
  increasing : axes.Pairwise (· < ·)
  paths : ∀ axis ∈ axes, IsPath axis

structure CardinalityEvidence where
  contextId : Identifier
  routeCandidate : RouteCandidate
  counts : List (String × ℕ)
  sourceArtifactIds : List Identifier
  counts_ne : counts ≠ []
  increasing : Increasing counts
  paths : ∀ key ∈ counts.map Prod.fst, IsPath key
  sources_ne : sourceArtifactIds ≠ []
  sources_increasing : sourceArtifactIds.Pairwise (· < ·)

structure AxisTerm where
  axis : String
  inputName : String
  multiplier : ℕ

def AxisTerm.key (t : AxisTerm) : String ×ₗ String ×ₗ ℕ :=
  toLex (t.axis, toLex (t.inputName, t.multiplier))

structure ComparisonFormula where
  profileId : Identifier
  routeCandidate : RouteCandidate
  formulaKey : Identifier
  terms : List AxisTerm
  terms_ne : terms ≠ []
  sorted : (terms.map AxisTerm.key).Pairwise (· ≤ ·)

structure ComparisonVector where
  profileId : Identifier
  contextId : Identifier
  routeCandidate : RouteCandidate
  values : List (String × ℕ)
  values_ne : values ≠ []
  increasing : Increasing values
  paths : ∀ key ∈ values.map Prod.fst, IsPath key
  deriving DecidableEq

structure RouteUpperBound where
  contextId : Identifier
  routeCandidate : RouteCandidate
  profileId : Identifier
  cardinalityEvidenceId : Identifier
  formulaId : Identifier
  vector : ComparisonVector
  context_eq : vector.contextId = contextId
  route_eq : vector.routeCandidate = routeCandidate
  profile_eq : vector.profileId = profileId

def projectTerms (axes : List String) (inputs : List (String × ℕ))
    (terms : List (String × String × ℕ)) (unknownAxis unknownInput uncovered : RouteError) :
    Except RouteError (List (String × ℕ)) := do
  terms.forM fun (axis, input, _) => do
    require (axis ∈ axes) unknownAxis
    require (input ∈ inputs.map Prod.fst) unknownInput
  require ((terms.map Prod.fst).toFinset = axes.toFinset) uncovered
  return axes.map fun axis => (axis,
    ((terms.filter (·.1 = axis)).map fun (_, input, multiplier) =>
      valueOf inputs input * multiplier).sum)

theorem map_fst_projectTerms {axes : List String} {inputs : List (String × ℕ)}
    {terms : List (String × String × ℕ)} {e₁ e₂ e₃ : RouteError} {values : List (String × ℕ)}
    (h : projectTerms axes inputs terms e₁ e₂ e₃ = .ok values) : values.map Prod.fst = axes := by
  obtain ⟨-, -, h⟩ := bind_eq_ok.mp h
  obtain ⟨-, -, h⟩ := bind_eq_ok.mp h
  rw [← pure_eq_ok.mp h, List.map_map]
  exact List.map_id axes

def ComparisonProfile.vector (profile : ComparisonProfile) (profileId contextId : Identifier)
    (route : RouteCandidate) (values : List (String × ℕ)) (h : values.map Prod.fst = profile.axes) :
    ComparisonVector where
  profileId := profileId
  contextId := contextId
  routeCandidate := route
  values := values
  values_ne := by
    rintro rfl
    exact profile.axes_ne h.symm
  increasing := by
    rw [Increasing, h]
    exact profile.increasing
  paths := by
    rw [h]
    exact profile.paths

inductive Relation where
  | leftDominates
  | rightDominates
  | equal
  | incomparable
  deriving DecidableEq

def Relation.of (left right : List (String × ℕ)) : Relation :=
  let leftLe := decide (∀ entry ∈ left, entry.2 ≤ valueOf right entry.1)
  let rightLe := decide (∀ entry ∈ left, valueOf right entry.1 ≤ entry.2)
  if leftLe ∧ rightLe then .equal
  else if leftLe then .leftDominates
  else if rightLe then .rightDominates
  else .incomparable

def compareRouteUpperBounds (left right : RouteUpperBound) : Except RouteError Relation := do
  require (left.contextId = right.contextId ∧ left.profileId = right.profileId)
    (.comparison "route bounds bind different contexts/profiles")
  require (left.routeCandidate ≠ right.routeCandidate)
    (.comparison "route comparison requires distinct candidates")
  require (keySet left.vector.values = keySet right.vector.values)
    (.comparison "route bounds use different shared axes")
  return Relation.of left.vector.values right.vector.values

end Acfqp.Route
