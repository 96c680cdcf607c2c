import Acfqp.Core

/-!
# The fixed point of output bytes

A renderer is called with a candidate for the number of bytes it is about to render. Eight blobs of
canonical JSON, one for each role, are checked and measured in memory, and their total is the next
candidate, until a candidate equals its total. The reading of canonical JSON and the content
identifiers of a profile and of a set of artifacts are parameters.
-/

namespace Acfqp.OutputBytes

open Library

/-- What a caller receives in place of a result: the error of this module with its message, or an
exception that is no `ValueError` and passes through. -/
inductive FixedPointError where
  | failed (message : String)
  | raised
  deriving DecidableEq

abbrev Bytes := List UInt8

def hardMaxRoleBytes : ℕ := 256 * 1024 * 1024
def hardMaxTotalBytes : ℕ := 1024 * 1024 * 1024
def hardMaxIterations : ℕ := 256

inductive OperationalArtifactRole where
  | businessResult
  | operationalTrace
  | terminalArtifact
  | counterRecordSet
  | workVector
  | comparisonVector
  | actualProjectionProof
  | outputManifest
  deriving DecidableEq

namespace OperationalArtifactRole

def value : OperationalArtifactRole → String
  | businessResult => "BUSINESS_RESULT"
  | operationalTrace => "OPERATIONAL_TRACE"
  | terminalArtifact => "TERMINAL_ARTIFACT"
  | counterRecordSet => "COUNTER_RECORD_SET"
  | workVector => "WORK_VECTOR"
  | comparisonVector => "COMPARISON_VECTOR"
  | actualProjectionProof => "ACTUAL_PROJECTION_PROOF"
  | outputManifest => "OUTPUT_MANIFEST"

def registered : List OperationalArtifactRole :=
  [businessResult, operationalTrace, terminalArtifact, counterRecordSet, workVector,
    comparisonVector, actualProjectionProof, outputManifest]

theorem mem_registered (role : OperationalArtifactRole) : role ∈ registered := by
  cases role <;> decide

end OperationalArtifactRole

open OperationalArtifactRole (registered)

/-! ## Profiles -/

/-- The message of a number outside its range. -/
def notPositive (fieldName : String) : FixedPointError :=
  .failed (fieldName ++ " must be a positive exact integer within its hard cap")

def WithinCap (value hardCap : ℕ) : Prop := 0 < value ∧ value ≤ hardCap

instance (value hardCap : ℕ) : Decidable (WithinCap value hardCap) :=
  inferInstanceAs (Decidable (_ ∧ _))

structure OperationalArtifactRoleCap where
  role : OperationalArtifactRole
  maxBytes : ℕ
  withinCap : WithinCap maxBytes hardMaxRoleBytes

/-- The exact roles in order, and finite limits for each role, for their total and for the
rounds. -/
structure OutputBytesFixedPointProfile where
  rendererId : ContentId
  executionIdentityId : ContentId
  roleCaps : List OperationalArtifactRoleCap
  maxTotalBytes : ℕ
  maxIterations : ℕ
  exactRoles : roleCaps.map (·.role) = registered
  totalWithinCap : WithinCap maxTotalBytes hardMaxTotalBytes
  iterationsWithinCap : WithinCap maxIterations hardMaxIterations
  capsWithinTotal : ∀ item ∈ roleCaps, item.maxBytes ≤ maxTotalBytes

namespace OutputBytesFixedPointProfile

def capByRole (profile : OutputBytesFixedPointProfile) (role : OperationalArtifactRole) : ℕ :=
  ((profile.roleCaps.find? fun item => item.role = role).map (·.maxBytes)).getD 0

end OutputBytesFixedPointProfile

/-! ## Canonical documents -/

/-- A value of a field, as far as the checks look at it. -/
inductive FieldValue where
  | integer (n : ℤ)
  | text (s : String)
  | other
  deriving DecidableEq

/-- A document: an object with its fields, or anything else. -/
inductive Document where
  | object (fields : List (String × FieldValue))
  | other

/-- What reading bytes as canonical JSON comes to. -/
inductive Loaded where
  | document (document : Document)
  | refused
  | raised

/-- Canonical JSON and the content identifiers. -/
structure Codec where
  loadsCanonicalJson : Bytes → Loaded
  profileId : OutputBytesFixedPointProfile → ContentId
  /-- The identifier of a set of artifacts covers its profile, its candidate and its bytes. -/
  artifactSetId : ContentId → ℕ → List (OperationalArtifactRole × Bytes) → ContentId

/-! ## Artifacts -/

/-- The role is the one of the mapping, and the candidate is the exact one where it is embedded. -/
def checkFields (candidate : ℕ) (role : OperationalArtifactRole)
    (fields : List (String × FieldValue)) : Except FixedPointError Unit := do
  require (fields.lookup "artifact_role" = some (.text role.value))
    (.failed "rendered artifact role differs from its mapping role")
  if role = .outputManifest then
    require (fields.lookup "io.output_bytes" = some (.integer candidate))
      (.failed "output manifest does not embed the exact candidate byte total")
  else
    require (∀ embedded ∈ fields.lookup "io.output_bytes", embedded = .integer candidate)
      (.failed "artifact embeds a stale or noninteger output-byte candidate")

def checkLoaded (candidate : ℕ) (role : OperationalArtifactRole) :
    Loaded → Except FixedPointError Unit
  | .document (.object fields) => checkFields candidate role fields
  | .document .other => .error (.failed "rendered artifact must be one canonical JSON object")
  | .refused => .error (.failed "rendered artifact is not canonical JSON bytes")
  | .raised => .error .raised

def checkArtifact (codec : Codec) (candidate : ℕ) (role : OperationalArtifactRole)
    (canonicalBytes : Bytes) : Except FixedPointError Unit := do
  require (canonicalBytes ≠ []) (.failed "rendered artifact must be nonempty immutable bytes")
  checkLoaded candidate role (codec.loadsCanonicalJson canonicalBytes)

/-- Bytes that passed the checks of their role. -/
structure RenderedOperationalArtifact (codec : Codec) where
  profileId : ContentId
  candidateOutputBytes : ℕ
  role : OperationalArtifactRole
  canonicalBytes : Bytes
  checked : checkArtifact codec candidateOutputBytes role canonicalBytes = .ok ()

variable {codec : Codec}

namespace RenderedOperationalArtifact

def make (codec : Codec) (profileId : ContentId) (candidate : ℕ) (role : OperationalArtifactRole)
    (canonicalBytes : Bytes) : Except FixedPointError (RenderedOperationalArtifact codec) :=
  match h : checkArtifact codec candidate role canonicalBytes with
  | .ok () => .ok ⟨profileId, candidate, role, canonicalBytes, h⟩
  | .error e => .error e

def byteCount (artifact : RenderedOperationalArtifact codec) : ℕ := artifact.canonicalBytes.length

end RenderedOperationalArtifact

/-- One artifact for each role, all of one profile and one candidate. -/
structure RenderedOperationalArtifactSet (codec : Codec) where
  profileId : ContentId
  candidateOutputBytes : ℕ
  artifacts : List (RenderedOperationalArtifact codec)
  exactRoles : artifacts.map (·.role) = registered
  bound : ∀ item ∈ artifacts,
    item.profileId = profileId ∧ item.candidateOutputBytes = candidateOutputBytes

namespace RenderedOperationalArtifactSet

def make (profileId : ContentId) (candidate : ℕ)
    (artifacts : List (RenderedOperationalArtifact codec)) :
    Except FixedPointError (RenderedOperationalArtifactSet codec) :=
  if hroles : artifacts.map (·.role) = registered then
    if hbound : ∀ item ∈ artifacts,
        item.profileId = profileId ∧ item.candidateOutputBytes = candidate then
      .ok ⟨profileId, candidate, artifacts, hroles, hbound⟩
    else .error (.failed "rendered artifact set changed its exact role/profile/candidate binding")
  else .error (.failed "rendered artifact set changed its exact role/profile/candidate binding")

variable (set : RenderedOperationalArtifactSet codec)

def roleByteCounts : List ℕ := set.artifacts.map (·.byteCount)

def totalBytes : ℕ := set.roleByteCounts.sum

def bytesByRole : List (OperationalArtifactRole × Bytes) :=
  set.artifacts.map fun item => (item.role, item.canonicalBytes)

def artifactSetId : ContentId :=
  codec.artifactSetId set.profileId set.candidateOutputBytes set.bytesByRole

end RenderedOperationalArtifactSet

/-! ## Rendering -/

/-- What a renderer comes to: an exception, an object that is no dictionary, or a dictionary with
its entries in order. A key that is no text and a value that is no bytes are `none`. -/
inductive Reply where
  | raised
  | other
  | dict (entries : List (Option String × Option Bytes))

/-- The reply of a renderer to a call, counted from the first, with a candidate. Between the calls
it may keep a state of its own. -/
abbrev Renderer := ℕ → ℕ → Reply

def renderRole (codec : Codec) (profile : OutputBytesFixedPointProfile) (candidate : ℕ)
    (entries : List (Option String × Option Bytes))
    (rendered : ℕ × List (RenderedOperationalArtifact codec)) (role : OperationalArtifactRole) :
    Except FixedPointError (ℕ × List (RenderedOperationalArtifact codec)) := do
  let raw ← orRaise (entries.lookup (some role.value)).join
    (.failed "renderer returned a non-bytes artifact")
  require (raw.length ≤ profile.capByRole role)
    (.failed "rendered artifact exceeds its preregistered role byte cap")
  let runningTotal := rendered.1 + raw.length
  require (runningTotal ≤ profile.maxTotalBytes)
    (.failed "rendered artifact set exceeds its preregistered total byte cap")
  let artifact ←
    RenderedOperationalArtifact.make codec (codec.profileId profile) candidate role raw
  return (runningTotal, rendered.2 ++ [artifact])

def materialize (codec : Codec) (profile : OutputBytesFixedPointProfile) (candidate : ℕ) :
    Reply → Except FixedPointError (RenderedOperationalArtifactSet codec)
  | .raised => .error
      (.failed "output renderer raised before producing the eight-role candidate set")
  | .other => .error (.failed "renderer must return one exact role-to-bytes dict")
  | .dict entries => do
    require (entries.map Prod.fst = registered.map fun role => some role.value)
      (.failed "renderer mutated, reordered, omitted, or added an artifact role")
    let rendered ← registered.foldlM (renderRole codec profile candidate entries) (0, [])
    let result ← RenderedOperationalArtifactSet.make (codec.profileId profile) candidate rendered.2
    require (result.totalBytes = rendered.1 ∧ 0 < result.totalBytes)
      (.failed "rendered output total changed during in-memory materialization")
    return result

def renderOnce (codec : Codec) (profile : OutputBytesFixedPointProfile) (renderer : Renderer)
    (call candidate : ℕ) : Except FixedPointError (RenderedOperationalArtifactSet codec) :=
  materialize codec profile candidate (renderer call candidate)

def assertSameRender (first second : RenderedOperationalArtifactSet codec) (reason : String) :
    Except FixedPointError Unit :=
  require (first.profileId = second.profileId ∧
    first.candidateOutputBytes = second.candidateOutputBytes ∧
    first.bytesByRole = second.bytesByRole ∧ first.artifactSetId = second.artifactSetId)
    (.failed reason)

/-! ## Iterations -/

/-- One round: a candidate and the total that was rendered for it. -/
structure OutputBytesFixedPointIteration where
  profileId : ContentId
  iterationIndex : ℕ
  candidateOutputBytes : ℕ
  renderedTotalBytes : ℕ
  roleByteCounts : List ℕ
  artifactSetId : ContentId
  indexWithinCap : WithinCap iterationIndex hardMaxIterations
  totalWithinCap : WithinCap renderedTotalBytes hardMaxTotalBytes
  countsSum : roleByteCounts.length = registered.length ∧ (∀ count ∈ roleByteCounts, 0 < count) ∧
    roleByteCounts.sum = renderedTotalBytes
  ascends : candidateOutputBytes ≤ renderedTotalBytes

namespace OutputBytesFixedPointIteration

def make (profileId : ContentId) (iterationIndex candidate total : ℕ) (roleByteCounts : List ℕ)
    (artifactSetId : ContentId) : Except FixedPointError OutputBytesFixedPointIteration :=
  if hindex : WithinCap iterationIndex hardMaxIterations then
    if htotal : WithinCap total hardMaxTotalBytes then
      if hcounts : roleByteCounts.length = registered.length ∧
          (∀ count ∈ roleByteCounts, 0 < count) ∧ roleByteCounts.sum = total then
        if hascends : candidate ≤ total then
          .ok ⟨profileId, iterationIndex, candidate, total, roleByteCounts, artifactSetId, hindex,
            htotal, hcounts, hascends⟩
        else .error (.failed "output-byte iteration decreased and is not monotonic")
      else .error (.failed "iteration role byte counts do not exactly sum to its total")
    else .error (notPositive "iteration rendered total")
  else .error (notPositive "iteration index")

def Converged (iteration : OutputBytesFixedPointIteration) : Prop :=
  iteration.renderedTotalBytes = iteration.candidateOutputBytes

instance (iteration : OutputBytesFixedPointIteration) : Decidable iteration.Converged :=
  inferInstanceAs (Decidable (_ = _))

/-- The next round follows an open one and starts from its total. -/
def Follows (previous current : OutputBytesFixedPointIteration) : Prop :=
  ¬ previous.Converged ∧ current.iterationIndex = previous.iterationIndex + 1 ∧
    current.candidateOutputBytes = previous.renderedTotalBytes

instance : DecidableRel Follows := fun _ _ => inferInstanceAs (Decidable (_ ∧ _))

end OutputBytesFixedPointIteration

open OutputBytesFixedPointIteration (Follows)

/-! ## Results -/

/-- The artifacts are those of the last round. -/
def IsTerminal (codec : Codec) (profile : OutputBytesFixedPointProfile)
    (terminal : OutputBytesFixedPointIteration) (fixed : RenderedOperationalArtifactSet codec) :
    Prop :=
  fixed.profileId = codec.profileId profile ∧
    fixed.candidateOutputBytes = terminal.candidateOutputBytes ∧
    fixed.totalBytes = terminal.renderedTotalBytes ∧
    fixed.artifactSetId = terminal.artifactSetId

instance (profile : OutputBytesFixedPointProfile) (terminal : OutputBytesFixedPointIteration)
    (fixed : RenderedOperationalArtifactSet codec) :
    Decidable (IsTerminal codec profile terminal fixed) :=
  inferInstanceAs (Decidable (_ ∧ _))

theorem IsTerminal.fixed {profile : OutputBytesFixedPointProfile}
    {terminal : OutputBytesFixedPointIteration} {fixed : RenderedOperationalArtifactSet codec}
    (h : IsTerminal codec profile terminal fixed) (hconverged : terminal.Converged) :
    fixed.totalBytes = fixed.candidateOutputBytes :=
  h.2.2.1.trans (hconverged.trans h.2.1.symm)

/-- A set of artifacts whose candidate is their total, with the rounds that led to it. -/
structure OutputBytesFixedPointResult (codec : Codec) where
  profile : OutputBytesFixedPointProfile
  iterations : List OutputBytesFixedPointIteration
  fixedArtifacts : RenderedOperationalArtifactSet codec
  renderInvocationCount : ℕ
  sameCandidateDeterminismReplays : ℕ
  fixedPointReplayCount : ℕ
  fixedPoint : fixedArtifacts.totalBytes = fixedArtifacts.candidateOutputBytes

namespace OutputBytesFixedPointResult

/-- The counts of the calls cover the replays of every round. -/
def checkCounts (iterations invocations replays fixedReplays : ℕ) :
    Except FixedPointError Unit := do
  require (WithinCap invocations (hardMaxIterations * 4)) (notPositive "render invocation count")
  require (WithinCap replays (hardMaxIterations * 2)) (notPositive "same-candidate replay count")
  require (replays = iterations)
    (.failed "each candidate must receive exactly one deterministic comparison replay")
  require (fixedReplays = 2)
    (.failed "the converged fixed point requires exactly two further replays")
  require (invocations = 2 * iterations + 2)
    (.failed "render invocation count does not cover all deterministic replays")

def checkTrace (codec : Codec) (profile : OutputBytesFixedPointProfile)
    (iterations : List OutputBytesFixedPointIteration) : Except FixedPointError Unit := do
  require (iterations ≠ [] ∧ iterations.length ≤ profile.maxIterations ∧
    ∀ item ∈ iterations, item.profileId = codec.profileId profile)
    (.failed "fixed-point result has an invalid iteration trace")
  require (∀ item ∈ iterations.head?, item.candidateOutputBytes = 0)
    (.failed "fixed-point iteration must begin at zero")
  require (iterations.IsChain Follows)
    (.failed "fixed-point iteration recurrence or terminal position changed")

/-- The trace ends at an exact equality of which the artifacts are. -/
def ofTerminal (profile : OutputBytesFixedPointProfile)
    (iterations : List OutputBytesFixedPointIteration)
    (terminal : OutputBytesFixedPointIteration) (fixed : RenderedOperationalArtifactSet codec)
    (invocations replays fixedReplays : ℕ) :
    Except FixedPointError (OutputBytesFixedPointResult codec) :=
  if hconverged : terminal.Converged then
    if hterminal : IsTerminal codec profile terminal fixed then do
      checkCounts iterations.length invocations replays fixedReplays
      return ⟨profile, iterations, fixed, invocations, replays, fixedReplays,
        hterminal.fixed hconverged⟩
    else .error (.failed "fixed artifact set differs from the terminal iteration")
  else .error (.failed "fixed-point result does not terminate at an exact equality")

def make (codec : Codec) (profile : OutputBytesFixedPointProfile)
    (iterations : List OutputBytesFixedPointIteration)
    (fixed : RenderedOperationalArtifactSet codec) (invocations replays fixedReplays : ℕ) :
    Except FixedPointError (OutputBytesFixedPointResult codec) := do
  checkTrace codec profile iterations
  let terminal ← orRaise iterations.getLast?
    (.failed "fixed-point result has an invalid iteration trace")
  ofTerminal profile iterations terminal fixed invocations replays fixedReplays

/-- `io.output_bytes`. -/
def outputBytes (result : OutputBytesFixedPointResult codec) : ℕ :=
  result.fixedArtifacts.totalBytes

end OutputBytesFixedPointResult

/-! ## The solver -/

variable (codec) (profile : OutputBytesFixedPointProfile) (renderer : Renderer)

def round (iterationIndex call candidate : ℕ) : Except FixedPointError
    (RenderedOperationalArtifactSet codec × OutputBytesFixedPointIteration) := do
  let first ← renderOnce codec profile renderer call candidate
  let second ← renderOnce codec profile renderer (call + 1) candidate
  assertSameRender first second "renderer is nondeterministic for the same candidate"
  require (candidate ≤ first.totalBytes)
    (.failed "output-byte iteration decreased and is not monotonic")
  let iteration ← OutputBytesFixedPointIteration.make (codec.profileId profile) iterationIndex
    candidate first.totalBytes first.roleByteCounts first.artifactSetId
  return (first, iteration)

/-- Render the fixed point twice more. -/
def replays (first : RenderedOperationalArtifactSet codec) (call candidate : ℕ)
    (iterations : List OutputBytesFixedPointIteration) :
    Except FixedPointError (OutputBytesFixedPointResult codec) := do
  let replayOne ← renderOnce codec profile renderer call candidate
  let replayTwo ← renderOnce codec profile renderer (call + 1) candidate
  assertSameRender first replayOne "fixed-point first replay changed the rendered bytes"
  assertSameRender first replayTwo "fixed-point second replay changed the rendered bytes"
  OutputBytesFixedPointResult.make codec profile iterations first (call + 2) iterations.length 2

def iterate : ℕ → ℕ → List OutputBytesFixedPointIteration → ℕ →
    Except FixedPointError (OutputBytesFixedPointResult codec)
  | 0, _, _, _ =>
    .error (.failed "output-byte fixed point did not converge within the iteration cap")
  | remaining + 1, candidate, iterations, invocations => do
    let (first, iteration) ←
      round codec profile renderer (iterations.length + 1) invocations candidate
    if first.totalBytes = candidate then
      replays codec profile renderer first (invocations + 2) candidate (iterations ++ [iteration])
    else
      iterate remaining first.totalBytes (iterations ++ [iteration]) (invocations + 2)

def solveOutputBytesFixedPoint : Except FixedPointError (OutputBytesFixedPointResult codec) :=
  iterate codec profile renderer profile.maxIterations 0 [] 0

end Acfqp.OutputBytes
