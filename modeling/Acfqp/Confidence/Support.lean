import Acfqp.Confidence.Bernoulli
import Acfqp.Library.Dict

/-!
# Supports of a row and the draws that validate them

Discovery draws propose the outcome descriptors of a row. Validation draws are counted against
the frozen descriptors, and every other descriptor falls under a single residual event.
-/

namespace Acfqp.Confidence

open Library

/-! ## Constants -/

def rowEpochBeta : ℚ := 1 / 300000

def maxSupportDescriptors : ℕ := 16

def targetHalfWidth : ℚ := 1 / 64

def boundaryGridBits : ℕ := 16

def directCheckpoints : List ℕ := [2048, 4096, 8192, 16384]

def newChildCheckpoints : List ℕ := [8192]

def promotionCheckpoints : List ℕ := [2048]

theorem isContentId_draftPreregistrationId :
    IsContentId "7639f1ee57ee2d9a8c871a5f0270d15fdd92f712a735e2ae89b6155e057ba5c2" := by
  refine ⟨by rfl, ?_⟩
  simp

def draftPreregistrationId : ContentId := ⟨_, isContentId_draftPreregistrationId⟩

def armOrder : List String :=
  ["SOURCE_CONSENSUS_PRIOR", "NO_PRIOR", "WRONG_CONSENSUS_PRIOR", "OOD_ABSTENTION",
    "MATCHED_DIRECT_GROUND"]

/-! ## Observations -/

inductive ConfidenceObservationLane where
  | discovery
  | validation
  deriving DecidableEq

inductive ConfidenceEpochPurpose where
  | initialSharedOrDirect
  | newChild
  | promotion
  deriving DecidableEq

/-- An outcome, as an identifier and the canonical bytes of its document. -/
structure OpaqueOutcomeDescriptor where
  descriptorId : ContentId
  documentBytes : List UInt8
  deriving DecidableEq

structure OpaqueConfidenceObservation where
  preregistrationId : ContentId
  contextId : ContentId
  arm : String
  physicalRowId : ContentId
  supportEpochChainId : ContentId
  streamId : ContentId
  lane : ConfidenceObservationLane
  sequenceIndex : ℕ
  sampleId : ContentId
  outcome : OpaqueOutcomeDescriptor
  arm_ne : arm ≠ ""
  sequenceIndex_pos : 0 < sequenceIndex
  deriving DecidableEq

structure ConfidencePhysicalRowBinding where
  preregistrationId : ContentId
  contextId : ContentId
  arm : String
  physicalRowId : ContentId
  registered : preregistrationId = draftPreregistrationId ∧ arm ∈ armOrder
  deriving DecidableEq

/-- The observation is one of the row, the chain, the stream and the lane. -/
def OpaqueConfidenceObservation.BoundTo (item : OpaqueConfidenceObservation)
    (rowBinding : ConfidencePhysicalRowBinding) (supportEpochChainId streamId : ContentId)
    (lane : ConfidenceObservationLane) : Prop :=
  item.preregistrationId = rowBinding.preregistrationId ∧ item.contextId = rowBinding.contextId ∧
    item.arm = rowBinding.arm ∧ item.physicalRowId = rowBinding.physicalRowId ∧
    item.supportEpochChainId = supportEpochChainId ∧ item.streamId = streamId ∧ item.lane = lane

instance (item : OpaqueConfidenceObservation) (rowBinding : ConfidencePhysicalRowBinding)
    (supportEpochChainId streamId : ContentId) (lane : ConfidenceObservationLane) :
    Decidable (item.BoundTo rowBinding supportEpochChainId streamId lane) :=
  inferInstanceAs (Decidable (_ ∧ _))

/-! ## Descriptors by identifier -/

abbrev DescriptorTable := List (ContentId × OpaqueOutcomeDescriptor)

/-- `setdefault`, and the check that an identifier keeps its document. -/
def bindDescriptor (message : String) (byId : DescriptorTable) (item : OpaqueOutcomeDescriptor) :
    Except PyError DescriptorTable :=
  match byId.lookup item.descriptorId with
  | none => .ok (byId ++ [(item.descriptorId, item)])
  | some prior => do
    require (prior.documentBytes = item.documentBytes) (.valueError message)
    return byId

/-- `tuple(by_id[key] for key in sorted(by_id))`. -/
def sortedById (byId : DescriptorTable) : List OpaqueOutcomeDescriptor :=
  (sortBy Prod.fst byId).map Prod.snd

/-- `{item.descriptor_id: item for item in items}`: a later descriptor overwrites an earlier one. -/
def descriptorsById (items : List OpaqueOutcomeDescriptor) : DescriptorTable :=
  items.foldl (fun byId item => Dict.assign item.descriptorId item byId) []

def representativeDescriptors (observations : List OpaqueConfidenceObservation) :
    Except PyError (List OpaqueOutcomeDescriptor) := do
  let byId ← (observations.map OpaqueConfidenceObservation.outcome).foldlM
    (bindDescriptor "one descriptor ID is bound to different documents") []
  return sortedById byId

def validateBoundPrefix (observations : List OpaqueConfidenceObservation)
    (rowBinding : ConfidencePhysicalRowBinding) (supportEpochChainId streamId : ContentId)
    (lane : ConfidenceObservationLane) : Except PyError Unit := do
  require (observations ≠ [] ∧
      observations.map OpaqueConfidenceObservation.sequenceIndex =
        List.range' 1 observations.length ∧
      (observations.map OpaqueConfidenceObservation.sampleId).Nodup ∧
      ∀ item ∈ observations, item.BoundTo rowBinding supportEpochChainId streamId lane)
    (.valueError "observation prefix has a gap, reorder, duplicate, or identity transplant")
  let _ ← (observations.map OpaqueConfidenceObservation.outcome).foldlM
    (bindDescriptor "one descriptor ID is bound to different documents") []
  return ()

/-! ## Profiles -/

/-- The preregistered profile, whose fields are the constants above. -/
structure PartialSupportConfidenceProfile where
  preregistrationId : ContentId
  rowEpochBeta : ℚ
  maximumSupportDescriptors : ℕ
  directCheckpoints : List ℕ
  newChildCheckpoints : List ℕ
  promotionCheckpoints : List ℕ
  targetHalfWidth : ℚ
  boundaryGridBits : ℕ
  registered : preregistrationId = draftPreregistrationId ∧
    rowEpochBeta = Confidence.rowEpochBeta ∧
    maximumSupportDescriptors = maxSupportDescriptors ∧
    directCheckpoints = Confidence.directCheckpoints ∧
    newChildCheckpoints = Confidence.newChildCheckpoints ∧
    promotionCheckpoints = Confidence.promotionCheckpoints ∧
    targetHalfWidth = Confidence.targetHalfWidth ∧
    boundaryGridBits = Confidence.boundaryGridBits
  deriving DecidableEq

namespace PartialSupportConfidenceProfile

def checkpointsFor (profile : PartialSupportConfidenceProfile) : ConfidenceEpochPurpose → List ℕ
  | .initialSharedOrDirect => profile.directCheckpoints
  | .newChild => profile.newChildCheckpoints
  | .promotion => profile.promotionCheckpoints

def sequentialProfile (profile : PartialSupportConfidenceProfile) (eventCount : ℕ)
    (purpose : ConfidenceEpochPurpose) : Except PyError SequentialBernoulliProfile := do
  require (1 ≤ eventCount ∧ eventCount ≤ maxSupportDescriptors + 1)
    (.valueError "event count exceeds support plus one OTHER")
  SequentialBernoulliProfile.make (profile.rowEpochBeta / eventCount) profile.targetHalfWidth
    (profile.checkpointsFor purpose) profile.boundaryGridBits

end PartialSupportConfidenceProfile

def v0072PartialSupportConfidenceProfile : PartialSupportConfidenceProfile :=
  ⟨draftPreregistrationId, rowEpochBeta, maxSupportDescriptors, directCheckpoints,
    newChildCheckpoints, promotionCheckpoints, targetHalfWidth, boundaryGridBits,
    ⟨rfl, rfl, rfl, rfl, rfl, rfl, rfl, rfl⟩⟩

/-- The state of the counting loop: counts of the support, of everything else, and the novel
descriptors. -/
structure SupportCounts where
  counts : List (ContentId × ℕ)
  other : ℕ
  novel : DescriptorTable

def SupportCounts.observe (supportIds : List ContentId) (s : SupportCounts)
    (item : OpaqueOutcomeDescriptor) : Except PyError SupportCounts :=
  if item.descriptorId ∈ supportIds then
    .ok { s with counts := s.counts.map fun entry =>
      if entry.1 = item.descriptorId then (entry.1, entry.2 + 1) else entry }
  else do
    let novel ← bindDescriptor "novel descriptor changed within validation" s.novel item
    return { s with other := s.other + 1, novel := novel }

def countsAndNovel (supportIds : List ContentId)
    (observations : List OpaqueConfidenceObservation) :
    Except PyError (List ℕ × List OpaqueOutcomeDescriptor) := do
  let counted ← (observations.map OpaqueConfidenceObservation.outcome).foldlM
    (SupportCounts.observe supportIds) ⟨supportIds.map fun key => (key, 0), 0, []⟩
  return (supportIds.map (fun key => (counted.counts.lookup key).getD 0) ++ [counted.other],
    sortedById counted.novel)

/-! ## Event intervals -/

/-- A support descriptor, or the single event of everything else. -/
inductive PartialSupportEvent where
  | support (descriptorId : ContentId)
  | other
  deriving DecidableEq

structure PartialSupportEventInterval where
  supportEpochId : ContentId
  validationPrefixId : ContentId
  sequentialProfileId : ContentId
  eventOrdinal : ℕ
  event : PartialSupportEvent
  successCount : ℕ
  checkpoint : AnytimeBernoulliCheckpoint
  bound : checkpoint.successCount = successCount
  deriving DecidableEq

namespace PartialSupportEventInterval

def make (supportEpochId validationPrefixId sequentialProfileId : ContentId) (eventOrdinal : ℕ)
    (event : PartialSupportEvent) (successCount : ℕ) (checkpoint : AnytimeBernoulliCheckpoint) :
    Except PyError PartialSupportEventInterval :=
  if h : checkpoint.successCount = successCount then
    .ok ⟨supportEpochId, validationPrefixId, sequentialProfileId, eventOrdinal, event,
      successCount, checkpoint, h⟩
  else .error (.valueError "event interval is malformed or does not bind its checkpoint")

def lowerProbability (item : PartialSupportEventInterval) : ℚ := item.checkpoint.lowerProbability

def upperProbability (item : PartialSupportEventInterval) : ℚ := item.checkpoint.upperProbability

end PartialSupportEventInterval

/-- The simplex has a point: its bounds straddle a distribution, whose last coordinate is the
residual event. -/
def SimplexFeasible (eventIntervalIds : List ContentId) (lowerProbabilities upperProbabilities :
    List ℚ) (otherCoordinateOrdinal : ℕ) : Prop :=
  eventIntervalIds ≠ [] ∧ eventIntervalIds.Nodup ∧
    lowerProbabilities.length = eventIntervalIds.length ∧
    upperProbabilities.length = eventIntervalIds.length ∧
    (∀ bounds ∈ lowerProbabilities.zip upperProbabilities,
      0 ≤ bounds.1 ∧ bounds.1 ≤ bounds.2 ∧ bounds.2 ≤ 1) ∧
    lowerProbabilities.sum ≤ 1 ∧ 1 ≤ upperProbabilities.sum ∧
    otherCoordinateOrdinal = eventIntervalIds.length - 1

instance (eventIntervalIds : List ContentId) (lowerProbabilities upperProbabilities : List ℚ)
    (otherCoordinateOrdinal : ℕ) : Decidable (SimplexFeasible eventIntervalIds lowerProbabilities
      upperProbabilities otherCoordinateOrdinal) :=
  inferInstanceAs (Decidable (_ ∧ _))

structure PartialSupportJointSimplex where
  supportEpochId : ContentId
  validationPrefixId : ContentId
  eventIntervalIds : List ContentId
  lowerProbabilities : List ℚ
  upperProbabilities : List ℚ
  otherCoordinateOrdinal : ℕ
  feasible : SimplexFeasible eventIntervalIds lowerProbabilities upperProbabilities
    otherCoordinateOrdinal
  deriving DecidableEq

def PartialSupportJointSimplex.make (supportEpochId validationPrefixId : ContentId)
    (eventIntervalIds : List ContentId) (lowerProbabilities upperProbabilities : List ℚ)
    (otherCoordinateOrdinal : ℕ) : Except PyError PartialSupportJointSimplex :=
  if h : SimplexFeasible eventIntervalIds lowerProbabilities upperProbabilities
      otherCoordinateOrdinal then
    .ok ⟨supportEpochId, validationPrefixId, eventIntervalIds, lowerProbabilities,
      upperProbabilities, otherCoordinateOrdinal, h⟩
  else .error (.valueError "joint simplex is infeasible, tampered, or lacks exactly one OTHER")

end Acfqp.Confidence
