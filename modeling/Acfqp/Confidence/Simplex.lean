import Acfqp.Confidence.Coverage
import Acfqp.Confidence.Descriptors
import Acfqp.Confidence.Epochs

/-!
# Feasibility and coverage of the joint simplex

Every event interval contains its empirical frequency, and the frequencies add up to one. The
events split a fixed error budget, so that the true event probabilities leave the simplex of some
checkpoint with probability at most the budget.
-/

namespace Acfqp.Confidence

open Library

variable {Z : Type} {platform : Platform Z} {value : Z → ℤ} {ids : ConfidenceIds}
  {epoch : SupportEpoch}
  {profile : PartialSupportConfidenceProfile} {validation : ValidationPrefix}
  {sequential : SequentialBernoulliProfile} {events : List PartialSupportEventInterval}

/-! ## Constructed epochs -/

def SupportEpoch.check (ids : ConfidenceIds) : SupportEpoch → Except PyError Unit
  | .initial fields discovery => checkInitialSupportEpoch ids fields discovery
  | .promoted fields parent evidence => do
    evidence.check
    checkPromotedSupportEpoch ids fields parent evidence

theorem check_of_freeze {rowBinding : ConfidencePhysicalRowBinding}
    {purpose : ConfidenceEpochPurpose} {discoverySupportEpochChainId discoveryStreamId
      validationSupportEpochChainId validationStreamId : ContentId}
    {discoveryObservations : List OpaqueConfidenceObservation}
    {given : Option PartialSupportConfidenceProfile}
    (h : freezeInitialSupportEpoch ids rowBinding purpose discoverySupportEpochChainId
      discoveryStreamId discoveryObservations validationSupportEpochChainId validationStreamId
      given = .ok epoch) : epoch.check ids = .ok () := by
  obtain ⟨proposed, -, h⟩ := bind_eq_ok.mp h
  obtain ⟨discovery, -, h⟩ := bind_eq_ok.mp h
  obtain ⟨_, hfields, h⟩ := bind_eq_ok.mp h
  obtain rfl := pure_eq_ok.mp h
  exact hfields

theorem check_of_promote {parent : Snapshot} {chainId streamId : ContentId}
    (h : promoteSupportEpoch platform ids parent chainId streamId = .ok epoch) :
    epoch.check ids = .ok () := by
  obtain ⟨_, -, h⟩ := bind_eq_ok.mp h
  obtain ⟨_, -, h⟩ := bind_eq_ok.mp h
  obtain ⟨_, hevidence, h⟩ := bind_eq_ok.mp h
  obtain ⟨_, hfields, h⟩ := bind_eq_ok.mp h
  obtain rfl := pure_eq_ok.mp h
  exact bind_eq_ok.mpr ⟨(), hevidence, hfields⟩

theorem representativeDescriptors_increasing {observations : List OpaqueConfidenceObservation}
    {support : List OpaqueOutcomeDescriptor}
    (h : representativeDescriptors observations = .ok support) :
    (support.map OpaqueOutcomeDescriptor.descriptorId).Pairwise (· < ·) := by
  obtain ⟨byId, hbyId, h⟩ := bind_eq_ok.mp h
  obtain rfl := pure_eq_ok.mp h
  exact sortedById_increasing (bindDescriptors_spec .nil hbyId).1

theorem SupportEpoch.support_increasing (h : epoch.check ids = .ok ()) :
    epoch.supportDescriptorIds.Pairwise (· < ·) := by
  cases epoch with
  | initial fields discovery =>
    obtain ⟨-, -, -, -, hsupport, -⟩ := require_eq_ok.mp h
    have := representativeDescriptors_increasing discovery.valid.2.1
    rwa [SupportEpoch.supportDescriptorIds, SupportEpoch.fields, hsupport]
  | promoted fields parent evidence =>
    obtain ⟨_, -, h⟩ := bind_eq_ok.mp h
    obtain ⟨-, -, -, -, -, -, hsupport, -⟩ := require_eq_ok.mp h
    rw [SupportEpoch.supportDescriptorIds, SupportEpoch.fields, hsupport]
    exact sortedById_increasing (descriptorsById_wellFormed _)

theorem SupportEpoch.support_nodup (h : epoch.check ids = .ok ()) :
    epoch.supportDescriptorIds.Nodup := (support_increasing h).imp ne_of_lt

theorem length_eventKeys (epoch : SupportEpoch) : epoch.eventKeys.length = epoch.eventCount := by
  simp [SupportEpoch.eventKeys, SupportEpoch.supportDescriptorIds, SupportEpoch.eventCount]

/-! ## The profile of an epoch -/

theorem SequentialBernoulliProfile.make_eq_ok {α w : ℚ} {checkpoints : List ℕ} {bits : ℕ}
    (h : SequentialBernoulliProfile.make α w checkpoints bits = .ok sequential) :
    sequential.confidenceAlpha = α ∧ sequential.targetHalfWidth = w ∧
      sequential.checkpoints = checkpoints ∧ sequential.boundaryGridBits = bits := by
  unfold SequentialBernoulliProfile.make at h
  split at h
  · split at h
    · split at h
      · cases h
        exact ⟨rfl, rfl, rfl, rfl⟩
      · cases h
    · cases h
  · cases h

theorem sequentialProfile_eq_ok {m : ℕ} {purpose : ConfidenceEpochPurpose}
    (h : profile.sequentialProfile m purpose = .ok sequential) :
    1 ≤ m ∧ sequential.confidenceAlpha = rowEpochBeta / m ∧
      sequential.boundaryGridBits = boundaryGridBits := by
  obtain ⟨_, hm, h⟩ := bind_eq_ok.mp h
  obtain ⟨-, hbeta, -, -, -, -, -, hbits⟩ := profile.registered
  obtain ⟨halpha, -, -, hgrid⟩ := SequentialBernoulliProfile.make_eq_ok h
  rw [halpha, hgrid, hbeta, hbits]
  exact ⟨(require_eq_ok.mp hm).1, rfl, rfl⟩

theorem checkpointsFor_lt {purpose : ConfidenceEpochPurpose} {n : ℕ}
    (h : n ∈ profile.checkpointsFor purpose) : n < 2 ^ 64 := by
  obtain ⟨-, -, -, hdirect, hchild, hpromotion, -, -⟩ := profile.registered
  have hall : ∀ m ∈ profile.checkpointsFor purpose, m < 2 ^ 64 := by
    cases purpose <;> simp only [PartialSupportConfidenceProfile.checkpointsFor, hdirect, hchild,
      hpromotion] <;> decide
  exact hall n h

theorem sequentialProfile_returns (profile : PartialSupportConfidenceProfile) {m : ℕ}
    (hm : 1 ≤ m ∧ m ≤ maxSupportDescriptors + 1) (purpose : ConfidenceEpochPurpose) :
    ∃ sequential, profile.sequentialProfile m purpose = .ok sequential := by
  obtain ⟨-, hbeta, -, hdirect, hchild, hpromotion, hwidth, hbits⟩ := profile.registered
  have hcheckpoints : profile.checkpointsFor purpose ≠ [] ∧
      (∀ n ∈ profile.checkpointsFor purpose, 0 < n) ∧
      (profile.checkpointsFor purpose).Pairwise (· < ·) := by
    cases purpose <;> simp only [PartialSupportConfidenceProfile.checkpointsFor, hdirect, hchild,
      hpromotion] <;> decide
  have hmq : (1 : ℚ) ≤ m := by exact_mod_cast hm.1
  have halpha : 0 < profile.rowEpochBeta / m ∧ profile.rowEpochBeta / m < 1 := by
    rw [hbeta, rowEpochBeta]
    refine ⟨by positivity, ?_⟩
    rw [div_lt_one (by linarith)]
    linarith
  have hw : 0 < profile.targetHalfWidth ∧ profile.targetHalfWidth < 1 / 2 := by
    rw [hwidth, targetHalfWidth]
    norm_num
  have hgrid : (8 ≤ profile.boundaryGridBits ∧ profile.boundaryGridBits ≤ 48) ∧
      1 / 2 ^ profile.boundaryGridBits ≤ profile.targetHalfWidth / 8 := by
    rw [hbits, hwidth, boundaryGridBits, targetHalfWidth]
    norm_num
  have hmake : ∃ sequential, SequentialBernoulliProfile.make (profile.rowEpochBeta / m)
      profile.targetHalfWidth (profile.checkpointsFor purpose) profile.boundaryGridBits =
        .ok sequential := by
    unfold SequentialBernoulliProfile.make
    rw [dif_pos halpha, dif_pos hw, dif_pos ⟨hcheckpoints.1, hcheckpoints.2.1, hcheckpoints.2.2,
      hgrid.1, hgrid.2⟩]
    exact ⟨_, rfl⟩
  obtain ⟨sequential, hsequential⟩ := hmake
  exact ⟨sequential, bind_eq_ok.mpr ⟨(), require_eq_ok.mpr hm, hsequential⟩⟩

/-! ## The intervals of the events -/

theorem zip_counts (keys : List PartialSupportEvent) (counts : PartialSupportEvent → ℕ) :
    keys.zip (keys.map counts) = keys.map fun event => (event, counts event) := by
  have h := List.zip_map' (f := id) (g := counts) (l := keys)
  rwa [List.map_id] at h

theorem count_of_mem_zipIdx {keys : List PartialSupportEvent} {counts : PartialSupportEvent → ℕ}
    {entry : (PartialSupportEvent × ℕ) × ℕ} (h : entry ∈ (keys.zip (keys.map counts)).zipIdx) :
    entry.1.2 = counts entry.1.1 := by
  rw [zip_counts] at h
  have hmem : entry.1 ∈ keys.map fun event => (event, counts event) := by
    rw [← List.zipIdx_map_fst 0 (keys.map fun event => (event, counts event))]
    exact List.mem_map_of_mem h
  obtain ⟨event, -, hevent⟩ := List.mem_map.mp hmem
  rw [← hevent]

/-- The intervals are those of the event keys, in order, on the counts of each event. -/
structure Measures (platform : Platform Z) (epoch : SupportEpoch) (n : ℕ)
    (sequential : SequentialBernoulliProfile) (counts : PartialSupportEvent → ℕ)
    (events : List PartialSupportEventInterval) : Prop where
  keys : events.map PartialSupportEventInterval.event = epoch.eventKeys
  successCount : ∀ item ∈ events, item.successCount = counts item.event
  checkpoint : ∀ item ∈ events, buildAnytimeBernoulliCheckpoint platform n (counts item.event)
    sequential = .ok item.checkpoint

theorem eventIntervals_measures {counts : PartialSupportEvent → ℕ}
    (h : eventIntervals platform ids epoch validation sequential (epoch.eventKeys.map counts) =
      .ok events) :
    Measures platform epoch validation.selectedCheckpointDrawCount sequential counts events := by
  have hmake : ∀ entry ∈ (epoch.eventKeys.zip (epoch.eventKeys.map counts)).zipIdx, ∀ item,
      (do
        let checkpoint ← buildAnytimeBernoulliCheckpoint platform
          validation.selectedCheckpointDrawCount entry.1.2 sequential
        PartialSupportEventInterval.make (ids.supportEpoch epoch) (ids.validationPrefix validation)
          (ids.sequentialProfile sequential) entry.2 entry.1.1 entry.1.2 checkpoint) = .ok item →
      item.event = entry.1.1 ∧ item.successCount = counts entry.1.1 ∧
        buildAnytimeBernoulliCheckpoint platform validation.selectedCheckpointDrawCount
          (counts entry.1.1) sequential = .ok item.checkpoint := by
    intro entry hmem item h
    obtain ⟨checkpoint, hcheckpoint, h⟩ := bind_eq_ok.mp h
    rw [count_of_mem_zipIdx hmem] at hcheckpoint h
    unfold PartialSupportEventInterval.make at h
    split at h
    · cases h
      exact ⟨rfl, rfl, hcheckpoint⟩
    · cases h
  refine ⟨?_, fun item hitem => ?_, fun item hitem => ?_⟩
  · rw [map_of_mapM h fun entry hmem item hitem => (hmake entry hmem item hitem).1,
      zip_counts]
    have hfst := List.zipIdx_map_fst 0 (epoch.eventKeys.map fun event => (event, counts event))
    calc (epoch.eventKeys.map fun event => (event, counts event)).zipIdx.map
            (fun entry => entry.1.1)
        = ((epoch.eventKeys.map fun event => (event, counts event)).zipIdx.map Prod.fst).map
            Prod.fst := by rw [List.map_map]; rfl
      _ = epoch.eventKeys := by rw [hfst, List.map_map]; exact List.map_id _
  · obtain ⟨entry, hmem, hitem⟩ := mem_of_mapM h hitem
    obtain ⟨hevent, hsuccess, -⟩ := hmake entry hmem item hitem
    rw [hevent, hsuccess]
  · obtain ⟨entry, hmem, hitem⟩ := mem_of_mapM h hitem
    obtain ⟨hevent, -, hcheckpoint⟩ := hmake entry hmem item hitem
    rw [hevent, hcheckpoint]

theorem Measures.getLast_event {n : ℕ} {counts : PartialSupportEvent → ℕ}
    (h : Measures platform epoch n sequential counts events) :
    events.getLast?.map PartialSupportEventInterval.event = some .other := by
  rw [← List.getLast?_map, h.keys]
  simp [SupportEpoch.eventKeys]

theorem eventIntervals_returns (hexact : ExactBackend platform.gmp value) (ids : ConfidenceIds)
    (sequential : SequentialBernoulliProfile)
    (hword : platform.gmp = none ∨ validation.selectedCheckpointDrawCount < 2 ^ 64)
    {counts : PartialSupportEvent → ℕ}
    (hcounts : ∀ event, counts event ≤ validation.selectedCheckpointDrawCount) :
    ∃ events, eventIntervals platform ids epoch validation sequential
      (epoch.eventKeys.map counts) = .ok events := by
  refine mapM_returns fun entry hentry => ?_
  have hle : entry.1.2 ≤ validation.selectedCheckpointDrawCount := by
    rw [count_of_mem_zipIdx hentry]
    exact hcounts _
  obtain ⟨checkpoint, hcheckpoint⟩ :=
    buildAnytimeBernoulliCheckpoint_returns hexact sequential validation.complete.1 hle hword
  obtain ⟨-, -, -, hsuccess, -⟩ := buildAnytimeBernoulliCheckpoint_bounds hcheckpoint
  have hmake : ∃ item, PartialSupportEventInterval.make (ids.supportEpoch epoch)
      (ids.validationPrefix validation) (ids.sequentialProfile sequential) entry.2 entry.1.1
      entry.1.2 checkpoint = .ok item := ⟨_, dif_pos hsuccess⟩
  obtain ⟨item, hitem⟩ := hmake
  exact ⟨item, bind_eq_ok.mpr ⟨checkpoint, hcheckpoint, hitem⟩⟩

section Feasibility

variable {n : ℕ} {counts : PartialSupportEvent → ℕ}

/-- Each interval contains the empirical frequency of its event. -/
theorem Measures.interval (h : Measures platform epoch n sequential counts events)
    {item : PartialSupportEventInterval} (hitem : item ∈ events) :
    0 ≤ item.lowerProbability ∧ item.lowerProbability ≤ (counts item.event : ℚ) / n ∧
      (counts item.event : ℚ) / n ≤ item.upperProbability ∧ item.upperProbability ≤ 1 := by
  obtain ⟨-, -, hcount, hsuccess, -⟩ :=
    buildAnytimeBernoulliCheckpoint_bounds (h.checkpoint item hitem)
  have hempirical := item.checkpoint.empirical_eq
  rw [hcount, hsuccess] at hempirical
  rw [← hempirical]
  exact ⟨item.checkpoint.lower_nonneg, item.checkpoint.lower_le_empirical,
    item.checkpoint.empirical_le_upper, item.checkpoint.upper_le_one⟩

theorem Measures.sum_frequencies (h : Measures platform epoch n sequential counts events)
    (hn : 0 < n) (hsum : (epoch.eventKeys.map counts).sum = n) :
    (events.map fun item => (counts item.event : ℚ) / n).sum = 1 := by
  have hnq : (n : ℚ) ≠ 0 := by exact_mod_cast hn.ne'
  have hcast : (events.map fun item => (counts item.event : ℚ)).sum = n := by
    rw [← hsum, ← h.keys, List.map_map]
    push_cast
    simp [Function.comp_def]
  simp only [div_eq_mul_inv, List.sum_map_mul_right, hcast]
  exact mul_inv_cancel₀ hnq

theorem Measures.feasible (h : Measures platform epoch n sequential counts events)
    (hn : 0 < n) (hsum : (epoch.eventKeys.map counts).sum = n) :
    (events.map PartialSupportEventInterval.lowerProbability).sum ≤ 1 ∧
      1 ≤ (events.map PartialSupportEventInterval.upperProbability).sum ∧
      ∀ item ∈ events, 0 ≤ item.lowerProbability ∧
        item.lowerProbability ≤ item.upperProbability ∧ item.upperProbability ≤ 1 := by
  have hone := h.sum_frequencies hn hsum
  refine ⟨?_, ?_, fun item hitem => ?_⟩
  · rw [← hone]
    exact List.sum_le_sum fun item hitem => (h.interval hitem).2.1
  · rw [← hone]
    exact List.sum_le_sum fun item hitem => (h.interval hitem).2.2.1
  obtain ⟨h0, hlower, hupper, h1⟩ := h.interval hitem
  exact ⟨h0, hlower.trans hupper, h1⟩

theorem expectedSimplex_returns (validation : ValidationPrefix)
    (h : Measures platform epoch n sequential counts events)
    (hepoch : epoch.supportDescriptorIds.Nodup) (hn : 0 < n)
    (hsum : (epoch.eventKeys.map counts).sum = n)
    (hids : Set.InjOn ids.event {item | item ∈ events}) :
    ∃ simplex, expectedSimplex ids epoch validation events = .ok simplex := by
  obtain ⟨hlower, hupper, hbounds⟩ := h.feasible hn hsum
  have hkeys : (events.map PartialSupportEventInterval.event).Nodup := by
    rw [h.keys]
    exact nodup_supportEvents hepoch
  have hne : events ≠ [] := by
    rintro rfl
    have := h.keys
    simp [SupportEpoch.eventKeys] at this
  refine ⟨_, dif_pos ⟨by simpa using hne, hkeys.of_map.map_on fun a ha b hb heq => hids ha hb heq,
    by simp, by simp, ?_, hlower, hupper, by simp⟩⟩
  rw [List.zip_map']
  rintro bounds hbounds'
  obtain ⟨item, hitem, rfl⟩ := List.mem_map.mp hbounds'
  exact hbounds item hitem

end Feasibility

/-! ## Snapshots -/

/-- Everything in a snapshot is recomputed from its epoch and its validation prefix. -/
structure Computed (platform : Platform Z) (ids : ConfidenceIds) (snapshot : Snapshot) :
    Prop where
  valid : validateEpochAndPrefix ids snapshot.supportEpoch snapshot.validationPrefix
    snapshot.profile = .ok ()
  sequential : snapshot.profile.sequentialProfile snapshot.supportEpoch.eventCount
    snapshot.supportEpoch.fields.purpose = .ok snapshot.sequentialProfile
  counted : countsAndNovel snapshot.supportEpoch.supportDescriptorIds
    snapshot.validationPrefix.observations = .ok (snapshot.supportEpoch.eventKeys.map (eventCounts
      snapshot.supportEpoch.supportDescriptorIds snapshot.validationPrefix.observations),
      snapshot.novelDescriptors)
  events : eventIntervals platform ids snapshot.supportEpoch snapshot.validationPrefix
    snapshot.sequentialProfile (snapshot.supportEpoch.eventKeys.map (eventCounts
      snapshot.supportEpoch.supportDescriptorIds snapshot.validationPrefix.observations)) =
    .ok snapshot.eventIntervals
  simplex : expectedSimplex ids snapshot.supportEpoch snapshot.validationPrefix
    snapshot.eventIntervals = .ok snapshot.jointSimplex
  alpha : snapshot.perEventAlpha = rowEpochBeta / snapshot.supportEpoch.eventCount
  rowConfidenceEpochId : snapshot.rowConfidenceEpochId =
    ids.rowConfidenceEpoch snapshot.supportEpoch snapshot.profile

theorem Computed.measures {snapshot : Snapshot} (h : Computed platform ids snapshot) :
    Measures platform snapshot.supportEpoch
      snapshot.validationPrefix.selectedCheckpointDrawCount snapshot.sequentialProfile
      (eventCounts snapshot.supportEpoch.supportDescriptorIds
        snapshot.validationPrefix.observations) snapshot.eventIntervals :=
  eventIntervals_measures h.events

theorem expectedEvents_eq {counts : List ℕ} {novel : List OpaqueOutcomeDescriptor}
    (h : countsAndNovel epoch.supportDescriptorIds validation.observations =
      .ok (counts, novel)) :
    expectedEvents platform ids epoch validation sequential =
      eventIntervals platform ids epoch validation sequential (epoch.eventKeys.map
        (eventCounts epoch.supportDescriptorIds validation.observations)) := by
  obtain rfl := countsAndNovel_counts h
  unfold expectedEvents
  rw [h]
  rfl

theorem sum_counts (hepoch : epoch.supportDescriptorIds.Nodup) (validation : ValidationPrefix) :
    (epoch.eventKeys.map (eventCounts epoch.supportDescriptorIds validation.observations)).sum =
      validation.selectedCheckpointDrawCount :=
  (sum_eventCounts hepoch).trans validation.complete.2.symm

theorem Computed.validateSnapshotStructure {snapshot : Snapshot}
    (h : Computed platform ids snapshot)
    (hepoch : snapshot.supportEpoch.supportDescriptorIds.Nodup) :
    validateSnapshotStructure platform ids snapshot = .ok () := by
  have hmeasures := h.measures
  obtain ⟨hpos, halpha, -⟩ := sequentialProfile_eq_ok h.sequential
  have hposq : ((snapshot.supportEpoch.eventCount : ℕ) : ℚ) ≠ 0 := by
    exact_mod_cast (show snapshot.supportEpoch.eventCount ≠ 0 by omega)
  have hlength : snapshot.eventIntervals.length = snapshot.supportEpoch.eventCount := by
    rw [← length_eventKeys, ← hmeasures.keys, List.length_map]
  have hsuccess : (snapshot.eventIntervals.map PartialSupportEventInterval.successCount).sum =
      snapshot.validationPrefix.selectedCheckpointDrawCount := by
    rw [← sum_counts hepoch, ← hmeasures.keys, List.map_map]
    exact congrArg List.sum (List.map_congr_left hmeasures.successCount)
  have hother : (snapshot.eventIntervals.map PartialSupportEventInterval.event).count .other =
      1 := by
    rw [hmeasures.keys]
    exact List.count_eq_one_of_mem (nodup_supportEvents hepoch) (by simp [SupportEpoch.eventKeys])
  refine bind_eq_ok.mpr ⟨(), h.valid, bind_eq_ok.mpr ⟨_, h.sequential, bind_eq_ok.mpr
    ⟨_, (expectedEvents_eq h.counted).trans h.events, bind_eq_ok.mpr ⟨_, h.counted, bind_eq_ok.mpr
    ⟨_, h.simplex, require_eq_ok.mpr ⟨rfl, h.alpha, halpha, rfl, hlength, hsuccess, hother,
      hmeasures.getLast_event, rfl, h.rowConfidenceEpochId, ?_, rfl⟩⟩⟩⟩⟩⟩
  rw [h.alpha]
  exact mul_div_cancel₀ _ hposq

theorem build_computed {observations : List OpaqueConfidenceObservation}
    {given : Option PartialSupportConfidenceProfile} {snapshot : Snapshot}
    (h : buildPartialSupportConfidenceSnapshot platform ids epoch observations given =
      .ok snapshot) :
    Computed platform ids snapshot ∧ snapshot.supportEpoch = epoch ∧
      snapshot.validationPrefix.observations = observations := by
  obtain ⟨validation, hvalidation, h⟩ := bind_eq_ok.mp h
  obtain ⟨_, hvalid, h⟩ := bind_eq_ok.mp h
  obtain ⟨sequential, hsequential, h⟩ := bind_eq_ok.mp h
  obtain ⟨events, hevents, h⟩ := bind_eq_ok.mp h
  obtain ⟨⟨counts, novel⟩, hcounted, h⟩ := bind_eq_ok.mp h
  obtain ⟨simplex, hsimplex, h⟩ := bind_eq_ok.mp h
  obtain ⟨_, -, h⟩ := bind_eq_ok.mp h
  obtain rfl := pure_eq_ok.mp h
  have hobservations : validation.observations = observations := by
    unfold ValidationPrefix.make at hvalidation
    split at hvalidation
    · cases hvalidation
      rfl
    · cases hvalidation
  rw [← hobservations] at hcounted
  rw [expectedEvents_eq hcounted] at hevents
  have hcounts := countsAndNovel_counts hcounted
  exact ⟨⟨hvalid, hsequential, by rw [hcounted, hcounts]; rfl, hevents, hsimplex, rfl, rfl⟩, rfl,
    hobservations⟩

/-- No two events of a prefix have one digest. -/
def DistinctEventIds (platform : Platform Z) (ids : ConfidenceIds) (epoch : SupportEpoch)
    (validation : ValidationPrefix) : Prop :=
  ∀ sequential events, expectedEvents platform ids epoch validation sequential = .ok events →
    Set.InjOn ids.event {item | item ∈ events}

/-- A snapshot of a valid prefix is built. -/
theorem build_returns {observations : List OpaqueConfidenceObservation}
    {given : Option PartialSupportConfidenceProfile} (hexact : ExactBackend platform.gmp value)
    (hepoch : epoch.supportDescriptorIds.Nodup)
    (hvalidation : ValidationPrefix.make (ids.row epoch.fields.rowBinding) (ids.supportEpoch epoch)
      epoch.fields.supportEpochChainId epoch.fields.validationStreamId observations.length
      observations = .ok validation)
    (hvalid : validateEpochAndPrefix ids epoch validation
      (given.getD v0072PartialSupportConfidenceProfile) = .ok ())
    (hids : DistinctEventIds platform ids epoch validation) :
    ∃ snapshot, buildPartialSupportConfidenceSnapshot platform ids epoch observations given =
      .ok snapshot := by
  have hobservations : validation.observations = observations := by
    unfold ValidationPrefix.make at hvalidation
    split at hvalidation
    · cases hvalidation
      rfl
    · cases hvalidation
  obtain ⟨_, hsize, hbound⟩ := bind_eq_ok.mp hvalid
  obtain ⟨-, -, -, -, -, -, -, hcheckpoint, -, hsize16⟩ := require_eq_ok.mp hsize
  obtain ⟨_, hbound, -⟩ := bind_eq_ok.mp hbound
  obtain ⟨_, -, hbound⟩ := bind_eq_ok.mp hbound
  obtain ⟨found, hfound, -⟩ := bind_eq_ok.mp hbound
  obtain ⟨counts, novel, hcounted⟩ :=
    countsAndNovel_returns epoch.supportDescriptorIds hfound
  obtain ⟨sequential, hsequential⟩ := sequentialProfile_returns
    (given.getD v0072PartialSupportConfidenceProfile)
    (show 1 ≤ epoch.eventCount ∧ epoch.eventCount ≤ maxSupportDescriptors + 1 from
      ⟨by simp [SupportEpoch.eventCount], by simpa [SupportEpoch.eventCount] using hsize16⟩)
    epoch.fields.purpose
  have hcounts := countsAndNovel_counts hcounted
  have hle : ∀ event, eventCounts epoch.supportDescriptorIds validation.observations event ≤
      validation.selectedCheckpointDrawCount := by
    intro event
    rw [validation.complete.2]
    exact List.count_le_length.trans_eq (List.length_map _)
  obtain ⟨events, hevents⟩ := eventIntervals_returns hexact ids sequential
    (.inr (checkpointsFor_lt hcheckpoint)) hle
  have hexpected := (expectedEvents_eq hcounted).trans hevents
  obtain ⟨simplex, hsimplex⟩ := expectedSimplex_returns validation
    (eventIntervals_measures hevents) hepoch validation.complete.1 (sum_counts hepoch validation)
    (hids sequential events hexpected)
  let snapshot : Snapshot := {
    supportEpoch := epoch
    profile := given.getD v0072PartialSupportConfidenceProfile
    validationPrefix := validation
    sequentialProfile := sequential
    eventIntervals := events
    jointSimplex := simplex
    novelDescriptors := novel
    rowConfidenceEpochId := ids.rowConfidenceEpoch epoch
      (given.getD v0072PartialSupportConfidenceProfile)
    perEventAlpha := rowEpochBeta / epoch.eventCount }
  have hcomputed : Computed platform ids snapshot :=
    ⟨hvalid, hsequential, by rw [hcounted, hcounts]; rfl, hevents, hsimplex, rfl, rfl⟩
  rw [hobservations] at hcounted
  exact ⟨snapshot, bind_eq_ok.mpr ⟨validation, hvalidation, bind_eq_ok.mpr ⟨(), hvalid,
    bind_eq_ok.mpr ⟨sequential, hsequential, bind_eq_ok.mpr ⟨events, hexpected, bind_eq_ok.mpr
    ⟨_, hcounted, bind_eq_ok.mpr ⟨simplex, hsimplex, bind_eq_ok.mpr
    ⟨(), hcomputed.validateSnapshotStructure hepoch, rfl⟩⟩⟩⟩⟩⟩⟩⟩

end Acfqp.Confidence
