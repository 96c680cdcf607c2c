import Acfqp.Confidence.Support

/-!
# Support epochs and their confidence snapshots

An initial epoch freezes a discovered support. A snapshot of an epoch bounds the event
probabilities from one validation prefix, and promotion adds every novel descriptor of a snapshot
to the support of the next epoch, which may use none of the earlier draws.
-/

namespace Acfqp.Confidence

open Library

/-! ## Data -/

structure DiscoveryProposalEvidence where
  rowBinding : ConfidencePhysicalRowBinding
  discoverySupportEpochChainId : ContentId
  discoveryStreamId : ContentId
  observations : List OpaqueConfidenceObservation
  proposedSupport : List OpaqueOutcomeDescriptor
  valid : validateBoundPrefix observations rowBinding discoverySupportEpochChainId
      discoveryStreamId .discovery = .ok () ∧
    representativeDescriptors observations = .ok proposedSupport ∧
    1 ≤ proposedSupport.length ∧ proposedSupport.length ≤ maxSupportDescriptors

def DiscoveryProposalEvidence.sampleIds (evidence : DiscoveryProposalEvidence) : List ContentId :=
  evidence.observations.map OpaqueConfidenceObservation.sampleId

/-- What the two kinds of support epoch have in common. -/
structure SupportEpochFields where
  rowBinding : ConfidencePhysicalRowBinding
  profileId : ContentId
  epochIndex : ℕ
  purpose : ConfidenceEpochPurpose
  supportEpochChainId : ContentId
  validationStreamId : ContentId
  supportDescriptors : List OpaqueOutcomeDescriptor
  excludedProbabilitySampleIds : List ContentId
  forbiddenValidationStreamIds : List ContentId

structure ValidationPrefix where
  rowBindingId : ContentId
  supportEpochId : ContentId
  supportEpochChainId : ContentId
  validationStreamId : ContentId
  selectedCheckpointDrawCount : ℕ
  observations : List OpaqueConfidenceObservation
  complete : 0 < selectedCheckpointDrawCount ∧ selectedCheckpointDrawCount = observations.length

def ValidationPrefix.sampleIds (validation : ValidationPrefix) : List ContentId :=
  validation.observations.map OpaqueConfidenceObservation.sampleId

structure PartialSupportConfidenceSnapshot (Epoch : Type) where
  supportEpoch : Epoch
  profile : PartialSupportConfidenceProfile
  validationPrefix : ValidationPrefix
  sequentialProfile : SequentialBernoulliProfile
  eventIntervals : List PartialSupportEventInterval
  jointSimplex : PartialSupportJointSimplex
  novelDescriptors : List OpaqueOutcomeDescriptor
  rowConfidenceEpochId : ContentId
  perEventAlpha : ℚ

def PartialSupportConfidenceSnapshot.novelDescriptorIds {Epoch : Type}
    (snapshot : PartialSupportConfidenceSnapshot Epoch) : List ContentId :=
  snapshot.novelDescriptors.map OpaqueOutcomeDescriptor.descriptorId

structure PromotionEvidence where
  parentSnapshotId : ContentId
  parentSupportEpochId : ContentId
  parentValidationPrefixId : ContentId
  parentSupportDescriptorIds : List ContentId
  parentNovelDescriptorIds : List ContentId
  promotedSupportDescriptorIds : List ContentId
  excludedProbabilitySampleIds : List ContentId
  forbiddenValidationStreamIds : List ContentId

/-- A support epoch: a discovered one, or one promoted from a snapshot of its parent. -/
inductive SupportEpoch where
  | initial (fields : SupportEpochFields) (discoveryEvidence : DiscoveryProposalEvidence)
  | promoted (fields : SupportEpochFields)
      (parentSnapshot : PartialSupportConfidenceSnapshot SupportEpoch)
      (promotionEvidence : PromotionEvidence)

namespace SupportEpoch

def fields : SupportEpoch → SupportEpochFields
  | initial fields _ => fields
  | promoted fields _ _ => fields

def supportDescriptorIds (epoch : SupportEpoch) : List ContentId :=
  epoch.fields.supportDescriptors.map OpaqueOutcomeDescriptor.descriptorId

def eventCount (epoch : SupportEpoch) : ℕ := epoch.fields.supportDescriptors.length + 1

def eventKeys (epoch : SupportEpoch) : List PartialSupportEvent :=
  epoch.supportDescriptorIds.map .support ++ [.other]

end SupportEpoch

abbrev Snapshot := PartialSupportConfidenceSnapshot SupportEpoch

/-- The content digests of this layer. -/
structure ConfidenceIds where
  row : ConfidencePhysicalRowBinding → ContentId
  profile : PartialSupportConfidenceProfile → ContentId
  sequentialProfile : SequentialBernoulliProfile → ContentId
  supportEpoch : SupportEpoch → ContentId
  validationPrefix : ValidationPrefix → ContentId
  event : PartialSupportEventInterval → ContentId
  simplex : PartialSupportJointSimplex → ContentId
  rowConfidenceEpoch : SupportEpoch → PartialSupportConfidenceProfile → ContentId
  snapshot : Snapshot → ContentId

def DiscoveryProposalEvidence.make (rowBinding : ConfidencePhysicalRowBinding)
    (discoverySupportEpochChainId discoveryStreamId : ContentId)
    (observations : List OpaqueConfidenceObservation)
    (proposedSupport : List OpaqueOutcomeDescriptor) :
    Except PyError DiscoveryProposalEvidence := do
  validateBoundPrefix observations rowBinding discoverySupportEpochChainId discoveryStreamId
    .discovery
  let _ ← representativeDescriptors observations
  if h : validateBoundPrefix observations rowBinding discoverySupportEpochChainId
        discoveryStreamId .discovery = .ok () ∧
      representativeDescriptors observations = .ok proposedSupport ∧
      1 ≤ proposedSupport.length ∧ proposedSupport.length ≤ maxSupportDescriptors then
    .ok ⟨rowBinding, discoverySupportEpochChainId, discoveryStreamId, observations,
      proposedSupport, h⟩
  else .error (.valueError "discovery must be bounded proposal-only support evidence")

/-- The checks of `InitialSupportEpochV2.__post_init__`. -/
def checkInitialSupportEpoch (ids : ConfidenceIds) (fields : SupportEpochFields)
    (discovery : DiscoveryProposalEvidence) : Except PyError Unit :=
  require (fields.profileId = ids.profile v0072PartialSupportConfidenceProfile ∧
      fields.epochIndex = 1 ∧
      (fields.purpose = .initialSharedOrDirect ∨ fields.purpose = .newChild) ∧
      discovery.rowBinding = fields.rowBinding ∧
      fields.supportDescriptors = discovery.proposedSupport ∧
      fields.excludedProbabilitySampleIds = sortBy id discovery.sampleIds ∧
      fields.forbiddenValidationStreamIds = [discovery.discoveryStreamId] ∧
      fields.validationStreamId ∉ fields.forbiddenValidationStreamIds ∧
      fields.supportEpochChainId ≠ discovery.discoverySupportEpochChainId)
    (.valueError "initial support epoch is stale, reused, or not preregistered")

def freezeInitialSupportEpoch (ids : ConfidenceIds) (rowBinding : ConfidencePhysicalRowBinding)
    (purpose : ConfidenceEpochPurpose) (discoverySupportEpochChainId discoveryStreamId : ContentId)
    (discoveryObservations : List OpaqueConfidenceObservation)
    (validationSupportEpochChainId validationStreamId : ContentId)
    (profile : Option PartialSupportConfidenceProfile) : Except PyError SupportEpoch := do
  let canonicalProfile := profile.getD v0072PartialSupportConfidenceProfile
  let proposed ← representativeDescriptors discoveryObservations
  let discovery ← DiscoveryProposalEvidence.make rowBinding discoverySupportEpochChainId
    discoveryStreamId discoveryObservations proposed
  let fields : SupportEpochFields := {
    rowBinding := rowBinding
    profileId := ids.profile canonicalProfile
    epochIndex := 1
    purpose := purpose
    supportEpochChainId := validationSupportEpochChainId
    validationStreamId := validationStreamId
    supportDescriptors := discovery.proposedSupport
    excludedProbabilitySampleIds := sortBy id discovery.sampleIds
    forbiddenValidationStreamIds := [discoveryStreamId] }
  checkInitialSupportEpoch ids fields discovery
  return .initial fields discovery

/-! ## Snapshots -/

def ValidationPrefix.make (rowBindingId supportEpochId supportEpochChainId
    validationStreamId : ContentId) (selectedCheckpointDrawCount : ℕ)
    (observations : List OpaqueConfidenceObservation) : Except PyError ValidationPrefix :=
  if h : 0 < selectedCheckpointDrawCount ∧ selectedCheckpointDrawCount = observations.length then
    .ok ⟨rowBindingId, supportEpochId, supportEpochChainId, validationStreamId,
      selectedCheckpointDrawCount, observations, h⟩
  else .error (.valueError "validation prefix is not one complete checkpoint")

def validateEpochAndPrefix (ids : ConfidenceIds) (epoch : SupportEpoch)
    (validation : ValidationPrefix) (profile : PartialSupportConfidenceProfile) :
    Except PyError Unit := do
  require (epoch.fields.profileId = ids.profile profile ∧
      validation.rowBindingId = ids.row epoch.fields.rowBinding ∧
      validation.supportEpochId = ids.supportEpoch epoch ∧
      validation.supportEpochChainId = epoch.fields.supportEpochChainId ∧
      validation.validationStreamId = epoch.fields.validationStreamId ∧
      validation.validationStreamId ∉ epoch.fields.forbiddenValidationStreamIds ∧
      (∀ sample ∈ validation.sampleIds, sample ∉ epoch.fields.excludedProbabilitySampleIds) ∧
      validation.selectedCheckpointDrawCount ∈ profile.checkpointsFor epoch.fields.purpose ∧
      1 ≤ epoch.fields.supportDescriptors.length ∧
      epoch.fields.supportDescriptors.length ≤ maxSupportDescriptors)
    (.valueError "validation prefix is stale, reused, or outside its registered checkpoint")
  validateBoundPrefix validation.observations epoch.fields.rowBinding
    epoch.fields.supportEpochChainId epoch.fields.validationStreamId .validation
  let known := descriptorsById epoch.fields.supportDescriptors
  require (∀ observation ∈ validation.observations,
      ∀ expected ∈ known.lookup observation.outcome.descriptorId,
        expected.documentBytes = observation.outcome.documentBytes)
    (.valueError "validation changed a frozen support descriptor document")

def eventIntervals {Z : Type} (platform : Platform Z) (ids : ConfidenceIds) (epoch : SupportEpoch)
    (validation : ValidationPrefix) (sequential : SequentialBernoulliProfile) (counts : List ℕ) :
    Except PyError (List PartialSupportEventInterval) :=
  ((epoch.eventKeys.zip counts).zipIdx).mapM fun entry => do
    let checkpoint ← buildAnytimeBernoulliCheckpoint platform
      validation.selectedCheckpointDrawCount entry.1.2 sequential
    PartialSupportEventInterval.make (ids.supportEpoch epoch) (ids.validationPrefix validation)
      (ids.sequentialProfile sequential) entry.2 entry.1.1 entry.1.2 checkpoint

def expectedEvents {Z : Type} (platform : Platform Z) (ids : ConfidenceIds) (epoch : SupportEpoch)
    (validation : ValidationPrefix) (sequential : SequentialBernoulliProfile) :
    Except PyError (List PartialSupportEventInterval) := do
  let counted ← countsAndNovel epoch.supportDescriptorIds validation.observations
  eventIntervals platform ids epoch validation sequential counted.1

def expectedSimplex (ids : ConfidenceIds) (epoch : SupportEpoch) (validation : ValidationPrefix)
    (events : List PartialSupportEventInterval) : Except PyError PartialSupportJointSimplex :=
  PartialSupportJointSimplex.make (ids.supportEpoch epoch) (ids.validationPrefix validation)
    (events.map ids.event) (events.map PartialSupportEventInterval.lowerProbability)
    (events.map PartialSupportEventInterval.upperProbability) (events.length - 1)

/-- `_validate_snapshot_structure`, the checks of the snapshot's constructor. -/
def validateSnapshotStructure {Z : Type} (platform : Platform Z) (ids : ConfidenceIds)
    (snapshot : Snapshot) : Except PyError Unit := do
  let epoch := snapshot.supportEpoch
  validateEpochAndPrefix ids epoch snapshot.validationPrefix snapshot.profile
  let expectedSequential ←
    snapshot.profile.sequentialProfile epoch.eventCount epoch.fields.purpose
  let events ← expectedEvents platform ids epoch snapshot.validationPrefix expectedSequential
  let counted ← countsAndNovel epoch.supportDescriptorIds snapshot.validationPrefix.observations
  let simplex ← expectedSimplex ids epoch snapshot.validationPrefix events
  require (snapshot.sequentialProfile = expectedSequential ∧
      snapshot.perEventAlpha = rowEpochBeta / epoch.eventCount ∧
      snapshot.sequentialProfile.confidenceAlpha = rowEpochBeta / epoch.eventCount ∧
      snapshot.eventIntervals = events ∧
      snapshot.eventIntervals.length = epoch.eventCount ∧
      (snapshot.eventIntervals.map PartialSupportEventInterval.successCount).sum =
        snapshot.validationPrefix.selectedCheckpointDrawCount ∧
      (snapshot.eventIntervals.map PartialSupportEventInterval.event).count .other = 1 ∧
      snapshot.eventIntervals.getLast?.map PartialSupportEventInterval.event = some .other ∧
      snapshot.novelDescriptors = counted.2 ∧
      snapshot.rowConfidenceEpochId = ids.rowConfidenceEpoch epoch snapshot.profile ∧
      epoch.eventCount * snapshot.perEventAlpha = rowEpochBeta ∧
      snapshot.jointSimplex = simplex)
    (.valueError "counts, alpha, OTHER, novel set, or exact simplex was transplanted")

def buildPartialSupportConfidenceSnapshot {Z : Type} (platform : Platform Z) (ids : ConfidenceIds)
    (epoch : SupportEpoch) (validationObservations : List OpaqueConfidenceObservation)
    (profile : Option PartialSupportConfidenceProfile) : Except PyError Snapshot := do
  let canonicalProfile := profile.getD v0072PartialSupportConfidenceProfile
  let validation ← ValidationPrefix.make (ids.row epoch.fields.rowBinding) (ids.supportEpoch epoch)
    epoch.fields.supportEpochChainId epoch.fields.validationStreamId validationObservations.length
    validationObservations
  validateEpochAndPrefix ids epoch validation canonicalProfile
  let sequential ← canonicalProfile.sequentialProfile epoch.eventCount epoch.fields.purpose
  let events ← expectedEvents platform ids epoch validation sequential
  let counted ← countsAndNovel epoch.supportDescriptorIds validationObservations
  let simplex ← expectedSimplex ids epoch validation events
  let snapshot : Snapshot := {
    supportEpoch := epoch
    profile := canonicalProfile
    validationPrefix := validation
    sequentialProfile := sequential
    eventIntervals := events
    jointSimplex := simplex
    novelDescriptors := counted.2
    rowConfidenceEpochId := ids.rowConfidenceEpoch epoch canonicalProfile
    perEventAlpha := rowEpochBeta / epoch.eventCount }
  validateSnapshotStructure platform ids snapshot
  return snapshot

/-! ## Verification -/

/-- `tuple(sorted(set(values)))`. -/
def sortedSet (values : List ContentId) : List ContentId := values.toFinset.sort (· ≤ ·)

def promotedSupport (parent : Snapshot) : List OpaqueOutcomeDescriptor :=
  sortedById (descriptorsById
    (parent.supportEpoch.fields.supportDescriptors ++ parent.novelDescriptors))

/-- The samples that no descendant of a snapshot may use. -/
def promotedExcluded (parent : Snapshot) : List ContentId :=
  sortedSet (parent.supportEpoch.fields.excludedProbabilitySampleIds ++
    parent.validationPrefix.sampleIds)

/-- The streams that no descendant of a snapshot may use. -/
def promotedForbidden (parent : Snapshot) : List ContentId :=
  sortedSet (parent.supportEpoch.fields.forbiddenValidationStreamIds ++
    [parent.supportEpoch.fields.validationStreamId])

structure PartialSupportConfidenceVerification where
  snapshotId : ContentId
  rowConfidenceEpochId : ContentId
  supportEpochId : ContentId
  validationPrefixId : ContentId
  jointSimplexId : ContentId
  selectedCheckpointDrawCount : ℕ
  eventCount : ℕ
  perEventAlpha : ℚ

def PartialSupportConfidenceVerification.check
    (verification : PartialSupportConfidenceVerification) : Except PyError Unit :=
  require (0 < verification.selectedCheckpointDrawCount ∧ 2 ≤ verification.eventCount ∧
      verification.eventCount ≤ maxSupportDescriptors + 1 ∧
      verification.perEventAlpha = rowEpochBeta / verification.eventCount)
    (.valueError "confidence verification artifact is inconsistent")

def replaySnapshot {Z : Type} (platform : Platform Z) (ids : ConfidenceIds) (snapshot : Snapshot) :
    Except PyError PartialSupportConfidenceVerification := do
  let epoch := snapshot.supportEpoch
  let validation := snapshot.validationPrefix
  validateEpochAndPrefix ids epoch validation snapshot.profile
  let counted ← countsAndNovel epoch.supportDescriptorIds validation.observations
  let expectedSequential ←
    snapshot.profile.sequentialProfile epoch.eventCount epoch.fields.purpose
  let events ← eventIntervals platform ids epoch validation expectedSequential counted.1
  let simplex ← expectedSimplex ids epoch validation events
  require (snapshot.profile.preregistrationId = draftPreregistrationId ∧
      snapshot.perEventAlpha = rowEpochBeta / epoch.eventCount ∧
      snapshot.sequentialProfile = expectedSequential ∧
      snapshot.eventIntervals = events ∧
      snapshot.jointSimplex = simplex ∧
      snapshot.novelDescriptors = counted.2 ∧
      snapshot.rowConfidenceEpochId = ids.rowConfidenceEpoch epoch snapshot.profile ∧
      counted.1.sum = validation.selectedCheckpointDrawCount ∧
      events.length = epoch.fields.supportDescriptors.length + 1 ∧
      events.getLast?.map PartialSupportEventInterval.event = some .other ∧
      ∀ item ∈ events.dropLast, item.event ≠ .other)
    (.valueError "independent confidence replay differs from the supplied snapshot")
  let verification : PartialSupportConfidenceVerification := ⟨ids.snapshot snapshot,
    snapshot.rowConfidenceEpochId, ids.supportEpoch epoch, ids.validationPrefix validation,
    ids.simplex snapshot.jointSimplex, validation.selectedCheckpointDrawCount, epoch.eventCount,
    rowEpochBeta / epoch.eventCount⟩
  verification.check
  return verification

theorem sizeOf_parentEpoch_lt (fields : SupportEpochFields) (parent : Snapshot)
    (evidence : PromotionEvidence) :
    sizeOf parent.supportEpoch < sizeOf (SupportEpoch.promoted fields parent evidence) := by
  cases parent
  simp
  omega

/-- `_independently_verify_epoch_lineage`: replay an epoch's lineage. -/
def verifyEpochLineage {Z : Type} (platform : Platform Z) (ids : ConfidenceIds) :
    SupportEpoch → Except PyError Unit
  | .initial fields discovery => do
    validateBoundPrefix discovery.observations fields.rowBinding
      discovery.discoverySupportEpochChainId discovery.discoveryStreamId .discovery
    let expectedSupport ← representativeDescriptors discovery.observations
    require (discovery.proposedSupport = expectedSupport ∧
        fields.supportDescriptors = expectedSupport ∧
        fields.excludedProbabilitySampleIds = sortBy id discovery.sampleIds ∧
        fields.forbiddenValidationStreamIds = [discovery.discoveryStreamId])
      (.valueError "independent replay rejected initial discovery lineage")
  | .promoted fields parent evidence => do
    verifyEpochLineage platform ids parent.supportEpoch
    let _ ← replaySnapshot platform ids parent
    let expectedNovelIds := sortedSet
      ((parent.validationPrefix.observations.map fun item => item.outcome.descriptorId).filter
        (· ∉ parent.supportEpoch.supportDescriptorIds))
    require (parent.novelDescriptorIds = expectedNovelIds ∧
        expectedNovelIds ≠ [] ∧
        fields.supportDescriptors = promotedSupport parent ∧
        fields.excludedProbabilitySampleIds = promotedExcluded parent ∧
        fields.forbiddenValidationStreamIds = promotedForbidden parent ∧
        evidence.parentNovelDescriptorIds = expectedNovelIds ∧
        evidence.promotedSupportDescriptorIds =
          (promotedSupport parent).map OpaqueOutcomeDescriptor.descriptorId)
      (.valueError "independent replay rejected promoted support lineage")
  termination_by epoch => sizeOf epoch
  decreasing_by exact sizeOf_parentEpoch_lt _ _ _

/-- Independently replay counts, intervals, simplex, prefix, and lineage. -/
def verifyPartialSupportConfidenceSnapshot {Z : Type} (platform : Platform Z) (ids : ConfidenceIds)
    (snapshot : Snapshot) : Except PyError PartialSupportConfidenceVerification := do
  verifyEpochLineage platform ids snapshot.supportEpoch
  replaySnapshot platform ids snapshot

/-! ## Promotion -/

def requireSortedSet (label : String) (sequence : List ContentId) : Except PyError Unit :=
  require (sortedSet sequence = sequence)
    (.valueError s!"{label} must be content-ID sorted and unique")

/-- The checks of `PromotionEvidenceV2.__post_init__`. -/
def PromotionEvidence.check (evidence : PromotionEvidence) : Except PyError Unit := do
  requireSortedSet "parent support descriptors" evidence.parentSupportDescriptorIds
  requireSortedSet "parent novel descriptors" evidence.parentNovelDescriptorIds
  requireSortedSet "promoted support descriptors" evidence.promotedSupportDescriptorIds
  requireSortedSet "excluded samples" evidence.excludedProbabilitySampleIds
  requireSortedSet "forbidden streams" evidence.forbiddenValidationStreamIds
  let expected :=
    sortedSet (evidence.parentSupportDescriptorIds ++ evidence.parentNovelDescriptorIds)
  require (evidence.parentNovelDescriptorIds ≠ [] ∧
      evidence.promotedSupportDescriptorIds = expected ∧
      expected.length ≤ maxSupportDescriptors)
    (.valueError "promotion omitted a novel descriptor or performed fresh discovery")

/-- The checks of `PromotedSupportEpochV2.__post_init__`. -/
def checkPromotedSupportEpoch (ids : ConfidenceIds) (fields : SupportEpochFields)
    (parent : Snapshot) (evidence : PromotionEvidence) : Except PyError Unit :=
  let parentEpoch := parent.supportEpoch
  require (fields.rowBinding = parentEpoch.fields.rowBinding ∧
      fields.profileId = parentEpoch.fields.profileId ∧
      fields.epochIndex = parentEpoch.fields.epochIndex + 1 ∧
      fields.purpose = .promotion ∧
      fields.supportEpochChainId ≠ parentEpoch.fields.supportEpochChainId ∧
      fields.validationStreamId ∉ promotedForbidden parent ∧
      fields.supportDescriptors = promotedSupport parent ∧
      fields.excludedProbabilitySampleIds = promotedExcluded parent ∧
      fields.forbiddenValidationStreamIds = promotedForbidden parent ∧
      evidence.parentSnapshotId = ids.snapshot parent ∧
      evidence.parentSupportEpochId = ids.supportEpoch parentEpoch ∧
      evidence.parentValidationPrefixId = ids.validationPrefix parent.validationPrefix ∧
      evidence.parentSupportDescriptorIds = sortBy id parentEpoch.supportDescriptorIds ∧
      evidence.parentNovelDescriptorIds = sortBy id parent.novelDescriptorIds ∧
      evidence.promotedSupportDescriptorIds =
        (promotedSupport parent).map OpaqueOutcomeDescriptor.descriptorId ∧
      evidence.excludedProbabilitySampleIds = promotedExcluded parent ∧
      evidence.forbiddenValidationStreamIds = promotedForbidden parent)
    (.valueError "promoted epoch lineage is partial, stale, or reuses old evidence")

def promoteSupportEpoch {Z : Type} (platform : Platform Z) (ids : ConfidenceIds) (parent : Snapshot)
    (nextSupportEpochChainId nextValidationStreamId : ContentId) :
    Except PyError SupportEpoch := do
  let _ ← verifyPartialSupportConfidenceSnapshot platform ids parent
  let parentEpoch := parent.supportEpoch
  require (parent.novelDescriptors ≠ [])
    (.valueError "promotion requires at least one parent novel descriptor")
  let evidence : PromotionEvidence := {
    parentSnapshotId := ids.snapshot parent
    parentSupportEpochId := ids.supportEpoch parentEpoch
    parentValidationPrefixId := ids.validationPrefix parent.validationPrefix
    parentSupportDescriptorIds := sortBy id parentEpoch.supportDescriptorIds
    parentNovelDescriptorIds := sortBy id parent.novelDescriptorIds
    promotedSupportDescriptorIds :=
      (promotedSupport parent).map OpaqueOutcomeDescriptor.descriptorId
    excludedProbabilitySampleIds := promotedExcluded parent
    forbiddenValidationStreamIds := promotedForbidden parent }
  evidence.check
  let fields : SupportEpochFields := {
    rowBinding := parentEpoch.fields.rowBinding
    profileId := parentEpoch.fields.profileId
    epochIndex := parentEpoch.fields.epochIndex + 1
    purpose := .promotion
    supportEpochChainId := nextSupportEpochChainId
    validationStreamId := nextValidationStreamId
    supportDescriptors := promotedSupport parent
    excludedProbabilitySampleIds := promotedExcluded parent
    forbiddenValidationStreamIds := promotedForbidden parent }
  checkPromotedSupportEpoch ids fields parent evidence
  return .promoted fields parent evidence

end Acfqp.Confidence
