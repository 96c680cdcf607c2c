import Acfqp.Confidence.Simplex
import Acfqp.Confidence.Runs
import Acfqp.Library.Grouping

/-!
# Promotion lineages

Each promotion excludes the draws and forbids the stream of its parent on top of what the parent
already excludes and forbids, and enlarges the support by everything the parent observed.
-/

namespace Acfqp.Confidence

open Library

variable {Z : Type} {platform : Platform Z} {ids : ConfidenceIds}

/-- The epochs that promotion reaches from an initial epoch, with the snapshots of their ancestors,
the latest first. -/
inductive PromotionChain (platform : Platform Z) (ids : ConfidenceIds)
    (discoveryStreamId : ContentId) (discoveryObservations : List OpaqueConfidenceObservation) :
    SupportEpoch → List Snapshot → Prop
  | initial {rowBinding purpose discoverySupportEpochChainId validationSupportEpochChainId
        validationStreamId given epoch}
      (freeze : freezeInitialSupportEpoch ids rowBinding purpose discoverySupportEpochChainId
        discoveryStreamId discoveryObservations validationSupportEpochChainId validationStreamId
        given = .ok epoch) :
      PromotionChain platform ids discoveryStreamId discoveryObservations epoch []
  | promote {epoch ancestors observations given snapshot nextSupportEpochChainId
        nextValidationStreamId next}
      (chain : PromotionChain platform ids discoveryStreamId discoveryObservations epoch
        ancestors)
      (build : buildPartialSupportConfidenceSnapshot platform ids epoch observations given =
        .ok snapshot)
      (promote : promoteSupportEpoch platform ids snapshot nextSupportEpochChainId
        nextValidationStreamId = .ok next) :
      PromotionChain platform ids discoveryStreamId discoveryObservations next
        (snapshot :: ancestors)

/-! ## The support of a promoted epoch -/

theorem mem_sortedSet {values : List ContentId} {value : ContentId} :
    value ∈ sortedSet values ↔ value ∈ values := by
  rw [sortedSet, Finset.mem_sort, List.mem_toFinset]

section Promotion

variable {snapshot : Snapshot}

/-- The support and the novel descriptors have distinct identifiers. -/
theorem Computed.nodup_append (h : Computed platform ids snapshot)
    (hepoch : snapshot.supportEpoch.supportDescriptorIds.Nodup) :
    ((snapshot.supportEpoch.fields.supportDescriptors ++ snapshot.novelDescriptors).map
      OpaqueOutcomeDescriptor.descriptorId).Nodup := by
  obtain ⟨hincreasing, hnovel⟩ := countsAndNovel_novel h.counted
  rw [List.map_append]
  refine hepoch.append (hincreasing.imp ne_of_lt) fun id hsupport hid => ?_
  obtain ⟨item, hitem, rfl⟩ := List.mem_map.mp hid
  exact ((hnovel item).mp hitem).2 hsupport

theorem Computed.mem_promotedSupport (h : Computed platform ids snapshot)
    (hepoch : snapshot.supportEpoch.supportDescriptorIds.Nodup) {item : OpaqueOutcomeDescriptor} :
    item ∈ promotedSupport snapshot ↔
      item ∈ snapshot.supportEpoch.fields.supportDescriptors ∨
        item ∈ snapshot.novelDescriptors := by
  rw [promotedSupport, mem_sortedById (descriptorsById_wellFormed _),
    descriptorsById_of_nodup (h.nodup_append hepoch)]
  simp

theorem Computed.length_promotedSupport (h : Computed platform ids snapshot)
    (hepoch : snapshot.supportEpoch.supportDescriptorIds.Nodup) :
    (promotedSupport snapshot).length =
      snapshot.supportEpoch.fields.supportDescriptors.length +
        snapshot.novelDescriptors.length := by
  rw [promotedSupport, sortedById, descriptorsById_of_nodup (h.nodup_append hepoch)]
  simp

theorem Computed.observed_mem (h : Computed platform ids snapshot)
    (hepoch : snapshot.supportEpoch.supportDescriptorIds.Nodup)
    {observation : OpaqueConfidenceObservation}
    (hobservation : observation ∈ snapshot.validationPrefix.observations) :
    observation.outcome ∈ promotedSupport snapshot := by
  rw [h.mem_promotedSupport hepoch]
  by_cases hmem : observation.outcome.descriptorId ∈ snapshot.supportEpoch.supportDescriptorIds
  · obtain ⟨item, hitem, hid⟩ := List.mem_map.mp hmem
    obtain ⟨_, -, hvalid⟩ := bind_eq_ok.mp h.valid
    obtain ⟨_, -, hknown⟩ := bind_eq_ok.mp hvalid
    have hlookup : (descriptorsById snapshot.supportEpoch.fields.supportDescriptors).lookup
        observation.outcome.descriptorId = some item := by
      refine Dict.lookup_eq_some (descriptorsById_wellFormed _).nodup ?_
      rw [descriptorsById_of_nodup hepoch, ← hid]
      exact List.mem_map_of_mem hitem
    have hbytes := require_eq_ok.mp hknown observation hobservation item hlookup
    rw [← descriptor_ext hid hbytes]
    exact .inl hitem
  · exact .inr (((countsAndNovel_novel h.counted).2 _).mpr ⟨⟨observation, hobservation, rfl⟩, hmem⟩)

theorem promoteSupportEpoch_eq_ok {chainId streamId : ContentId} {next : SupportEpoch}
    (h : promoteSupportEpoch platform ids snapshot chainId streamId = .ok next) :
    snapshot.novelDescriptors ≠ [] ∧
      next.fields = {
        rowBinding := snapshot.supportEpoch.fields.rowBinding
        profileId := snapshot.supportEpoch.fields.profileId
        epochIndex := snapshot.supportEpoch.fields.epochIndex + 1
        purpose := .promotion
        supportEpochChainId := chainId
        validationStreamId := streamId
        supportDescriptors := promotedSupport snapshot
        excludedProbabilitySampleIds := promotedExcluded snapshot
        forbiddenValidationStreamIds := promotedForbidden snapshot } ∧
      streamId ∉ promotedForbidden snapshot ∧
      (promotedSupport snapshot).length ≤ maxSupportDescriptors := by
  obtain ⟨_, -, h⟩ := bind_eq_ok.mp h
  obtain ⟨_, hnovel, h⟩ := bind_eq_ok.mp h
  obtain ⟨_, hevidence, h⟩ := bind_eq_ok.mp h
  obtain ⟨_, hfields, h⟩ := bind_eq_ok.mp h
  obtain rfl := pure_eq_ok.mp h
  obtain ⟨-, -, -, -, -, hfresh, -⟩ := require_eq_ok.mp hfields
  obtain ⟨_, -, hevidence⟩ := bind_eq_ok.mp hevidence
  obtain ⟨_, -, hevidence⟩ := bind_eq_ok.mp hevidence
  obtain ⟨_, -, hevidence⟩ := bind_eq_ok.mp hevidence
  obtain ⟨_, -, hevidence⟩ := bind_eq_ok.mp hevidence
  obtain ⟨_, -, hevidence⟩ := bind_eq_ok.mp hevidence
  obtain ⟨-, hexpected, hlength⟩ := require_eq_ok.mp hevidence
  refine ⟨require_eq_ok.mp hnovel, rfl, hfresh, ?_⟩
  rw [← hexpected, List.length_map] at hlength
  exact hlength

/-! ## When a promotion is built -/

theorem sortedSet_eq {values sorted : List ContentId} (hsorted : sorted.Pairwise (· < ·))
    (h : ∀ value, value ∈ values ↔ value ∈ sorted) : sortedSet values = sorted :=
  (Finset.sortedLT_sort _).eq_of_mem_iff hsorted.sortedLT fun value => by
    rw [Finset.mem_sort, List.mem_toFinset, h]

theorem requireSortedSet_returns {label : String} {sequence : List ContentId}
    (h : sequence.Pairwise (· < ·)) : requireSortedSet label sequence = .ok () :=
  require_eq_ok.mpr (sortedSet_eq h fun _ => Iff.rfl)

theorem sortedSet_increasing (values : List ContentId) : (sortedSet values).Pairwise (· < ·) :=
  (Finset.sortedLT_sort _).pairwise

theorem sortBy_id_increasing {ids : List ContentId} (h : ids.Nodup) :
    (sortBy id ids).Pairwise (· < ·) :=
  pairwise_lt_sortBy (by simpa using h)

theorem Computed.replaySnapshot_returns (h : Computed platform ids snapshot)
    (hepoch : snapshot.supportEpoch.supportDescriptorIds.Nodup) :
    ∃ verification, replaySnapshot platform ids snapshot = .ok verification := by
  have hmeasures := h.measures
  obtain ⟨_, hshape, -⟩ := bind_eq_ok.mp h.valid
  obtain ⟨-, -, -, -, -, -, -, -, hsize1, hsize16⟩ := require_eq_ok.mp hshape
  have hlength : snapshot.eventIntervals.length =
      snapshot.supportEpoch.fields.supportDescriptors.length + 1 := by
    rw [← List.length_map PartialSupportEventInterval.event, hmeasures.keys, length_eventKeys]
    rfl
  have hother : ∀ item ∈ snapshot.eventIntervals.dropLast, item.event ≠ .other := by
    intro item hitem heq
    have hmem : item.event ∈ snapshot.supportEpoch.eventKeys.dropLast := by
      rw [← hmeasures.keys, ← List.map_dropLast]
      exact List.mem_map_of_mem hitem
    rw [heq, SupportEpoch.eventKeys, List.dropLast_concat] at hmem
    simp at hmem
  exact ⟨_, bind_eq_ok.mpr ⟨(), h.valid, bind_eq_ok.mpr ⟨_, h.counted, bind_eq_ok.mpr
    ⟨_, h.sequential, bind_eq_ok.mpr ⟨_, h.events, bind_eq_ok.mpr ⟨_, h.simplex, bind_eq_ok.mpr
    ⟨(), require_eq_ok.mpr ⟨snapshot.profile.registered.1, h.alpha, rfl, rfl, rfl, rfl,
      h.rowConfidenceEpochId, sum_counts hepoch _, hlength, hmeasures.getLast_event, hother⟩,
    bind_eq_ok.mpr ⟨(), require_eq_ok.mpr ⟨snapshot.validationPrefix.complete.1,
      Nat.succ_le_succ hsize1, Nat.succ_le_succ hsize16, rfl⟩, rfl⟩⟩⟩⟩⟩⟩⟩⟩

theorem verifyEpochLineage_of_freeze {rowBinding : ConfidencePhysicalRowBinding}
    {purpose : ConfidenceEpochPurpose} {discoverySupportEpochChainId discoveryStreamId
      validationSupportEpochChainId validationStreamId : ContentId}
    {discoveryObservations : List OpaqueConfidenceObservation}
    {given : Option PartialSupportConfidenceProfile} {epoch : SupportEpoch}
    (h : freezeInitialSupportEpoch ids rowBinding purpose discoverySupportEpochChainId
      discoveryStreamId discoveryObservations validationSupportEpochChainId validationStreamId
      given = .ok epoch) : verifyEpochLineage platform ids epoch = .ok () := by
  obtain ⟨proposed, -, h⟩ := bind_eq_ok.mp h
  obtain ⟨discovery, -, h⟩ := bind_eq_ok.mp h
  obtain ⟨_, hfields, h⟩ := bind_eq_ok.mp h
  obtain rfl := pure_eq_ok.mp h
  obtain ⟨-, -, -, hrow, hsupport, hexcluded, hforbidden, -⟩ := require_eq_ok.mp hfields
  rw [verifyEpochLineage]
  exact bind_eq_ok.mpr ⟨(), by rw [← hrow]; exact discovery.valid.1, bind_eq_ok.mpr
    ⟨_, discovery.valid.2.1, require_eq_ok.mpr ⟨rfl, hsupport, hexcluded, hforbidden⟩⟩⟩

/-- A computed snapshot with novel descriptors is promoted, onto a chain and a stream that its
lineage has not used. -/
theorem promoteSupportEpoch_returns (h : Computed platform ids snapshot)
    (hepoch : snapshot.supportEpoch.supportDescriptorIds.Nodup)
    (hlineage : verifyEpochLineage platform ids snapshot.supportEpoch = .ok ())
    (hnovel : snapshot.novelDescriptors ≠ [])
    (hsize : snapshot.supportEpoch.fields.supportDescriptors.length +
      snapshot.novelDescriptors.length ≤ maxSupportDescriptors)
    (chainId streamId : ContentId)
    (hchain : chainId ≠ snapshot.supportEpoch.fields.supportEpochChainId)
    (hstream : streamId ∉ promotedForbidden snapshot) :
    ∃ next, promoteSupportEpoch platform ids snapshot chainId streamId = .ok next := by
  obtain ⟨verification, hreplay⟩ := h.replaySnapshot_returns hepoch
  have hnovelIds : snapshot.novelDescriptorIds.Nodup :=
    (countsAndNovel_novel h.counted).1.imp ne_of_lt
  have hpromoted : ((promotedSupport snapshot).map
      OpaqueOutcomeDescriptor.descriptorId).Pairwise (· < ·) :=
    sortedById_increasing (descriptorsById_wellFormed _)
  have hexpected : sortedSet (sortBy id snapshot.supportEpoch.supportDescriptorIds ++
      sortBy id snapshot.novelDescriptorIds) =
      (promotedSupport snapshot).map OpaqueOutcomeDescriptor.descriptorId := by
    refine sortedSet_eq hpromoted fun value => ?_
    simp only [List.mem_append, mem_sortBy, List.mem_map, h.mem_promotedSupport hepoch,
      or_and_right,
      exists_or]
    simp only [SupportEpoch.supportDescriptorIds,
      PartialSupportConfidenceSnapshot.novelDescriptorIds,
      List.mem_map]
  have hlength : ((promotedSupport snapshot).map
      OpaqueOutcomeDescriptor.descriptorId).length ≤ maxSupportDescriptors := by
    rw [List.length_map, h.length_promotedSupport hepoch]
    exact hsize
  have hne : sortBy id snapshot.novelDescriptorIds ≠ [] := by
    simpa [PartialSupportConfidenceSnapshot.novelDescriptorIds] using hnovel
  have hevidence : ∀ evidence : PromotionEvidence,
      evidence.parentSupportDescriptorIds =
        sortBy id snapshot.supportEpoch.supportDescriptorIds →
      evidence.parentNovelDescriptorIds = sortBy id snapshot.novelDescriptorIds →
      evidence.promotedSupportDescriptorIds =
        (promotedSupport snapshot).map OpaqueOutcomeDescriptor.descriptorId →
      evidence.excludedProbabilitySampleIds = promotedExcluded snapshot →
      evidence.forbiddenValidationStreamIds = promotedForbidden snapshot →
      evidence.check = .ok () := by
    rintro ⟨⟩ rfl rfl rfl rfl rfl
    exact bind_eq_ok.mpr ⟨(), requireSortedSet_returns (sortBy_id_increasing hepoch),
      bind_eq_ok.mpr ⟨(), requireSortedSet_returns (sortBy_id_increasing hnovelIds),
      bind_eq_ok.mpr ⟨(), requireSortedSet_returns hpromoted,
      bind_eq_ok.mpr ⟨(), requireSortedSet_returns (sortedSet_increasing _),
      bind_eq_ok.mpr ⟨(), requireSortedSet_returns (sortedSet_increasing _),
      require_eq_ok.mpr ⟨hne, hexpected.symm, hexpected ▸ hlength⟩⟩⟩⟩⟩⟩
  exact ⟨_, bind_eq_ok.mpr ⟨verification, bind_eq_ok.mpr ⟨(), hlineage, hreplay⟩, bind_eq_ok.mpr
    ⟨(), require_eq_ok.mpr hnovel, bind_eq_ok.mpr ⟨(), hevidence _ rfl rfl rfl rfl rfl,
    bind_eq_ok.mpr ⟨(), require_eq_ok.mpr ⟨rfl, rfl, rfl, rfl, hchain, hstream, rfl, rfl, rfl, rfl,
      rfl, rfl, rfl, rfl, rfl, rfl, rfl⟩, rfl⟩⟩⟩⟩⟩

end Promotion

/-! ## What every chain keeps -/

/-- What an epoch has excluded, forbidden and learned from its ancestors. -/
structure Quarantined (discoveryStreamId : ContentId)
    (discoveryObservations : List OpaqueConfidenceObservation) (epoch : SupportEpoch)
    (ancestors : List Snapshot) : Prop where
  nodup : epoch.supportDescriptorIds.Nodup
  discoverySamples : ∀ observation ∈ discoveryObservations,
    observation.sampleId ∈ epoch.fields.excludedProbabilitySampleIds
  samples : ∀ ancestor ∈ ancestors, ∀ sample ∈ ancestor.validationPrefix.sampleIds,
    sample ∈ epoch.fields.excludedProbabilitySampleIds
  discoveryStream : discoveryStreamId ∈ epoch.fields.forbiddenValidationStreamIds
  streams : ∀ ancestor ∈ ancestors, ancestor.supportEpoch.fields.validationStreamId ∈
    epoch.fields.forbiddenValidationStreamIds
  fresh : epoch.fields.validationStreamId ∉ epoch.fields.forbiddenValidationStreamIds
  support : ∀ ancestor ∈ ancestors, ∀ item ∈ ancestor.supportEpoch.fields.supportDescriptors,
    item ∈ epoch.fields.supportDescriptors
  observed : ∀ ancestor ∈ ancestors, ∀ observation ∈ ancestor.validationPrefix.observations,
    observation.outcome ∈ epoch.fields.supportDescriptors
  strict : ∀ ancestor ∈ ancestors, ∃ item ∈ epoch.fields.supportDescriptors,
    item.descriptorId ∉ ancestor.supportEpoch.supportDescriptorIds
  length_lt : ancestors.length < epoch.fields.supportDescriptors.length
  length_le : epoch.fields.supportDescriptors.length ≤ maxSupportDescriptors

theorem quarantined_initial {discoveryStreamId : ContentId}
    {discoveryObservations : List OpaqueConfidenceObservation}
    {rowBinding : ConfidencePhysicalRowBinding} {purpose : ConfidenceEpochPurpose}
    {discoverySupportEpochChainId validationSupportEpochChainId validationStreamId : ContentId}
    {given : Option PartialSupportConfidenceProfile} {epoch : SupportEpoch}
    (h : freezeInitialSupportEpoch ids rowBinding purpose discoverySupportEpochChainId
      discoveryStreamId discoveryObservations validationSupportEpochChainId validationStreamId
      given = .ok epoch) :
    Quarantined discoveryStreamId discoveryObservations epoch [] := by
  have hcheck := check_of_freeze h
  obtain ⟨proposed, -, h⟩ := bind_eq_ok.mp h
  obtain ⟨discovery, hdiscovery, h⟩ := bind_eq_ok.mp h
  obtain ⟨_, hfields, h⟩ := bind_eq_ok.mp h
  obtain rfl := pure_eq_ok.mp h
  have hobservations : discovery.observations = discoveryObservations := by
    obtain ⟨_, -, hdiscovery⟩ := bind_eq_ok.mp hdiscovery
    obtain ⟨_, -, hdiscovery⟩ := bind_eq_ok.mp hdiscovery
    split at hdiscovery
    · cases hdiscovery
      rfl
    · cases hdiscovery
  have hsize := discovery.valid.2.2
  obtain ⟨-, -, -, -, hsupport, hexcluded, hforbidden, hfresh, -⟩ := require_eq_ok.mp hfields
  exact {
    nodup := SupportEpoch.support_nodup hcheck
    discoverySamples := by
      rw [← hobservations]
      exact fun observation h => mem_sortBy.mpr (List.mem_map_of_mem h)
    samples := by simp
    discoveryStream := by simp [SupportEpoch.fields]
    streams := by simp
    fresh := hfresh
    support := by simp
    observed := by simp
    strict := by simp
    length_lt := hsize.1
    length_le := hsize.2 }

theorem Quarantined.promote {discoveryStreamId : ContentId}
    {discoveryObservations : List OpaqueConfidenceObservation} {ancestors : List Snapshot}
    {snapshot : Snapshot} {chainId streamId : ContentId} {next : SupportEpoch}
    (h : Quarantined discoveryStreamId discoveryObservations snapshot.supportEpoch ancestors)
    (hcomputed : Computed platform ids snapshot)
    (hpromote : promoteSupportEpoch platform ids snapshot chainId streamId = .ok next) :
    Quarantined discoveryStreamId discoveryObservations next (snapshot :: ancestors) := by
  obtain ⟨hnovel, hfields, hfresh, hsize⟩ := promoteSupportEpoch_eq_ok hpromote
  have hsupport : next.fields.supportDescriptors = promotedSupport snapshot := by rw [hfields]
  have hexcluded : next.fields.excludedProbabilitySampleIds = promotedExcluded snapshot := by
    rw [hfields]
  have hforbidden : next.fields.forbiddenValidationStreamIds = promotedForbidden snapshot := by
    rw [hfields]
  have hparent : ∀ item ∈ snapshot.supportEpoch.fields.supportDescriptors,
      item ∈ next.fields.supportDescriptors := by
    intro item hitem
    rw [hsupport, hcomputed.mem_promotedSupport h.nodup]
    exact .inl hitem
  have hold : ∀ sample ∈ snapshot.supportEpoch.fields.excludedProbabilitySampleIds,
      sample ∈ next.fields.excludedProbabilitySampleIds := by
    intro sample hsample
    rw [hexcluded, promotedExcluded, mem_sortedSet]
    exact List.mem_append_left _ hsample
  have holdStream : ∀ stream ∈ snapshot.supportEpoch.fields.forbiddenValidationStreamIds,
      stream ∈ next.fields.forbiddenValidationStreamIds := by
    intro stream hstream
    rw [hforbidden, promotedForbidden, mem_sortedSet]
    exact List.mem_append_left _ hstream
  exact {
    nodup := SupportEpoch.support_nodup (check_of_promote hpromote)
    discoverySamples := fun observation hobservation =>
      hold _ (h.discoverySamples observation hobservation)
    samples := by
      refine List.forall_mem_cons.mpr ⟨fun sample hsample => ?_, fun ancestor hancestor sample
        hsample => hold sample (h.samples ancestor hancestor sample hsample)⟩
      rw [hexcluded, promotedExcluded, mem_sortedSet]
      exact List.mem_append_right _ hsample
    discoveryStream := holdStream _ h.discoveryStream
    streams := by
      refine List.forall_mem_cons.mpr ⟨?_, fun ancestor hancestor =>
        holdStream _ (h.streams ancestor hancestor)⟩
      rw [hforbidden, promotedForbidden, mem_sortedSet]
      exact List.mem_append_right _ (List.mem_singleton.mpr rfl)
    fresh := by
      rw [hfields]
      exact hfresh
    support := List.forall_mem_cons.mpr ⟨hparent, fun ancestor hancestor item hitem =>
      hparent item (h.support ancestor hancestor item hitem)⟩
    observed := by
      refine List.forall_mem_cons.mpr ⟨fun observation hobservation => ?_,
        fun ancestor hancestor observation hobservation =>
          hparent _ (h.observed ancestor hancestor observation hobservation)⟩
      rw [hsupport]
      exact hcomputed.observed_mem h.nodup hobservation
    strict := by
      refine List.forall_mem_cons.mpr ⟨?_, fun ancestor hancestor => ?_⟩
      · obtain ⟨item, hitem⟩ := List.exists_mem_of_ne_nil _ hnovel
        refine ⟨item, ?_, (((countsAndNovel_novel hcomputed.counted).2 item).mp hitem).2⟩
        rw [hsupport, hcomputed.mem_promotedSupport h.nodup]
        exact .inr hitem
      · obtain ⟨item, hitem, hnew⟩ := h.strict ancestor hancestor
        exact ⟨item, hparent item hitem, hnew⟩
    length_lt := by
      have hpos := List.length_pos_iff.mpr hnovel
      have hlt := h.length_lt
      rw [hsupport, hcomputed.length_promotedSupport h.nodup, List.length_cons]
      omega
    length_le := by
      rw [hsupport]
      exact hsize }

theorem PromotionChain.quarantined {discoveryStreamId : ContentId}
    {discoveryObservations : List OpaqueConfidenceObservation} {epoch : SupportEpoch}
    {ancestors : List Snapshot}
    (h : PromotionChain platform ids discoveryStreamId discoveryObservations epoch ancestors) :
    Quarantined discoveryStreamId discoveryObservations epoch ancestors := by
  induction h with
  | initial freeze => exact quarantined_initial freeze
  | promote chain build promote ih =>
    obtain ⟨hcomputed, rfl, -⟩ := build_computed build
    exact ih.promote hcomputed promote

/-- No sample is used twice along a chain: the samples and the stream of an epoch are new, its
support is larger than that of every ancestor and has everything that an ancestor observed, and
there are at most sixteen epochs. -/
theorem promotion_chain_fresh {discoveryStreamId : ContentId}
    {discoveryObservations : List OpaqueConfidenceObservation} {epoch : SupportEpoch}
    {ancestors : List Snapshot}
    (h : PromotionChain platform ids discoveryStreamId discoveryObservations epoch ancestors) :
    (∀ observations given snapshot,
      buildPartialSupportConfidenceSnapshot platform ids epoch observations given =
        .ok snapshot →
      ∀ sample ∈ snapshot.validationPrefix.sampleIds,
        sample ∉ discoveryObservations.map OpaqueConfidenceObservation.sampleId ∧
        ∀ ancestor ∈ ancestors, sample ∉ ancestor.validationPrefix.sampleIds) ∧
    epoch.fields.validationStreamId ≠ discoveryStreamId ∧
    (∀ ancestor ∈ ancestors,
      epoch.fields.validationStreamId ≠ ancestor.supportEpoch.fields.validationStreamId) ∧
    (∀ ancestor ∈ ancestors,
      (∀ item ∈ ancestor.supportEpoch.fields.supportDescriptors,
        item ∈ epoch.fields.supportDescriptors) ∧
      (∃ item ∈ epoch.fields.supportDescriptors,
        item.descriptorId ∉ ancestor.supportEpoch.supportDescriptorIds) ∧
      ∀ observation ∈ ancestor.validationPrefix.observations,
        observation.outcome ∈ epoch.fields.supportDescriptors) ∧
    ancestors.length + 1 ≤ maxSupportDescriptors := by
  have hquarantined := h.quarantined
  refine ⟨?_, fun heq => hquarantined.fresh (heq ▸ hquarantined.discoveryStream),
    fun ancestor hancestor heq => hquarantined.fresh
      (heq ▸ hquarantined.streams ancestor hancestor),
    fun ancestor hancestor => ⟨hquarantined.support ancestor hancestor,
      hquarantined.strict ancestor hancestor, hquarantined.observed ancestor hancestor⟩, ?_⟩
  · intro observations given snapshot hbuild sample hsample
    obtain ⟨hcomputed, rfl, -⟩ := build_computed hbuild
    obtain ⟨_, hvalid, -⟩ := bind_eq_ok.mp hcomputed.valid
    obtain ⟨-, -, -, -, -, -, hexcluded, -⟩ := require_eq_ok.mp hvalid
    have hnew := hexcluded sample hsample
    refine ⟨fun hdiscovery => ?_, fun ancestor hancestor hmem =>
      hnew (hquarantined.samples ancestor hancestor sample hmem)⟩
    obtain ⟨observation, hobservation, rfl⟩ := List.mem_map.mp hdiscovery
    exact hnew (hquarantined.discoverySamples observation hobservation)
  · have hlt := hquarantined.length_lt
    have hle := hquarantined.length_le
    omega

/-! ### An epoch of one discovered descriptor -/

def sampleRow : ConfidencePhysicalRowBinding :=
  ⟨draftPreregistrationId, ContentId.ofNat 1, "NO_PRIOR", ContentId.ofNat 2, by decide⟩

def sampleObservation : OpaqueConfidenceObservation :=
  ⟨draftPreregistrationId, ContentId.ofNat 1, "NO_PRIOR", ContentId.ofNat 2, ContentId.ofNat 3,
    ContentId.ofNat 4, .discovery, 1, ContentId.ofNat 5, ⟨ContentId.ofNat 6, []⟩, by decide,
    Nat.one_pos⟩

def sampleIds : ConfidenceIds where
  row _ := ContentId.ofNat 0
  profile _ := ContentId.ofNat 0
  sequentialProfile _ := ContentId.ofNat 0
  supportEpoch _ := ContentId.ofNat 0
  validationPrefix _ := ContentId.ofNat 0
  event item := ContentId.ofNat item.eventOrdinal
  simplex _ := ContentId.ofNat 0
  rowConfidenceEpoch _ _ := ContentId.ofNat 0
  snapshot _ := ContentId.ofNat 0

theorem ofNat_ne {m n : ℕ} (hne : m ≠ n) (hm : m < 16 ^ 64) (hn : n < 16 ^ 64) :
    ContentId.ofNat m ≠ ContentId.ofNat n := fun h => hne (ContentId.ofNat_injective hm hn h)

def sampleFields : SupportEpochFields :=
  ⟨sampleRow, ContentId.ofNat 0, 1, .newChild, ContentId.ofNat 7, ContentId.ofNat 8,
    [sampleObservation.outcome], [ContentId.ofNat 5], [ContentId.ofNat 4]⟩

theorem freeze_sample : ∃ epoch, freezeInitialSupportEpoch sampleIds sampleRow .newChild
      (ContentId.ofNat 3) (ContentId.ofNat 4) [sampleObservation] (ContentId.ofNat 7)
      (ContentId.ofNat 8) none = .ok epoch ∧
    epoch.fields = sampleFields := by
  have hvalid : validateBoundPrefix [sampleObservation] sampleRow (ContentId.ofNat 3)
      (ContentId.ofNat 4) .discovery = .ok () := by
    refine bind_eq_ok.mpr ⟨(), require_eq_ok.mpr ⟨by simp, rfl, by simp, ?_⟩, rfl⟩
    simp [OpaqueConfidenceObservation.BoundTo, sampleObservation, sampleRow]
  have hrepresentative : representativeDescriptors [sampleObservation] =
      .ok [sampleObservation.outcome] := rfl
  have hchain : ContentId.ofNat 7 ≠ ContentId.ofNat 3 :=
    ofNat_ne (by decide) (by norm_num) (by norm_num)
  have hstream : ContentId.ofNat 8 ≠ ContentId.ofNat 4 :=
    ofNat_ne (by decide) (by norm_num) (by norm_num)
  have hdiscovery : ∃ discovery, DiscoveryProposalEvidence.make sampleRow (ContentId.ofNat 3)
      (ContentId.ofNat 4) [sampleObservation] [sampleObservation.outcome] = .ok discovery ∧
      discovery.rowBinding = sampleRow ∧ discovery.discoveryStreamId = ContentId.ofNat 4 ∧
      discovery.discoverySupportEpochChainId = ContentId.ofNat 3 ∧
      discovery.proposedSupport = [sampleObservation.outcome] ∧
      sortBy id discovery.sampleIds = [ContentId.ofNat 5] :=
    ⟨_, bind_eq_ok.mpr ⟨(), hvalid, bind_eq_ok.mpr ⟨_, hrepresentative,
      dif_pos ⟨hvalid, hrepresentative, by decide⟩⟩⟩, rfl, rfl, rfl, rfl, rfl⟩
  obtain ⟨discovery, hdiscovery, hrow, hstreamId, hchainId, hsupport, hsamples⟩ := hdiscovery
  refine ⟨_, bind_eq_ok.mpr ⟨_, hrepresentative, bind_eq_ok.mpr ⟨discovery, hdiscovery,
    bind_eq_ok.mpr ⟨(), require_eq_ok.mpr ⟨rfl, rfl, .inr rfl, hrow, rfl, rfl, ?_, ?_, ?_⟩,
      rfl⟩⟩⟩, ?_⟩
  · rw [hstreamId]
  · simpa using hstream
  · rw [hchainId]
    exact hchain
  · simp only [SupportEpoch.fields, hsupport, hsamples]
    rfl

/-- A validating draw: every second one is of a descriptor that was not discovered. -/
def sampleDraw (chain stream offset k : ℕ) : OpaqueConfidenceObservation :=
  ⟨draftPreregistrationId, ContentId.ofNat 1, "NO_PRIOR", ContentId.ofNat 2, ContentId.ofNat chain,
    ContentId.ofNat stream, .validation, k + 1, ContentId.ofNat (offset + k),
    ⟨ContentId.ofNat (if k % 2 = 0 then 6 else 9), []⟩, by decide, Nat.succ_pos k⟩

def sampleDraws (chain stream offset count : ℕ) : List OpaqueConfidenceObservation :=
  (List.range count).map (sampleDraw chain stream offset)

section Draws

variable {chain stream offset count : ℕ}

theorem mem_sampleDraws {observation : OpaqueConfidenceObservation} :
    observation ∈ sampleDraws chain stream offset count ↔
      ∃ k < count, sampleDraw chain stream offset k = observation := by
  simp [sampleDraws]

theorem validateBoundPrefix_sampleDraws (hcount : 0 < count) (hsmall : offset + count < 16 ^ 64) :
    validateBoundPrefix (sampleDraws chain stream offset count) sampleRow (ContentId.ofNat chain)
      (ContentId.ofNat stream) .validation = .ok () := by
  have hindices : (sampleDraws chain stream offset count).map
      OpaqueConfidenceObservation.sequenceIndex =
        List.range' 1 (sampleDraws chain stream offset count).length := by
    simp [sampleDraws, List.range'_eq_map_range, sampleDraw, Function.comp_def, Nat.add_comm]
  have hsamples : ((sampleDraws chain stream offset count).map
      OpaqueConfidenceObservation.sampleId).Nodup := by
    rw [sampleDraws, List.map_map]
    refine List.nodup_range.map_on fun i hi j hj h => ?_
    rw [List.mem_range] at hi hj
    have := ContentId.ofNat_injective (by omega) (by omega) h
    omega
  have hbound : ∀ item ∈ sampleDraws chain stream offset count, item.BoundTo sampleRow
      (ContentId.ofNat chain) (ContentId.ofNat stream) .validation := by
    intro item hitem
    obtain ⟨k, -, rfl⟩ := mem_sampleDraws.mp hitem
    exact ⟨rfl, rfl, rfl, rfl, rfl, rfl, rfl⟩
  have hne : sampleDraws chain stream offset count ≠ [] := by
    simpa [sampleDraws] using hcount.ne'
  let known : DescriptorTable := [(ContentId.ofNat 6, ⟨ContentId.ofNat 6, []⟩),
    (ContentId.ofNat 9, ⟨ContentId.ofNat 9, []⟩)]
  have hknown : DescriptorTable.WellFormed known := by
    refine ⟨by simp [known], ?_⟩
    simpa [known] using ofNat_ne (m := 6) (n := 9) (by decide) (by norm_num) (by norm_num)
  have hreturns : ∃ found, ((sampleDraws chain stream offset count).map
      OpaqueConfidenceObservation.outcome).foldlM
        (bindDescriptor "one descriptor ID is bound to different documents") [] = .ok found := by
    refine bindDescriptors_returns hknown (fun item hitem => ?_) .nil (by simp)
    obtain ⟨observation, hobservation, rfl⟩ := List.mem_map.mp hitem
    obtain ⟨k, -, rfl⟩ := mem_sampleDraws.mp hobservation
    by_cases heven : k % 2 = 0 <;> simp [known, sampleDraw, heven]
  obtain ⟨found, hfound⟩ := hreturns
  exact bind_eq_ok.mpr ⟨(), require_eq_ok.mpr ⟨hne, hindices, hsamples, hbound⟩,
    bind_eq_ok.mpr ⟨found, hfound, rfl⟩⟩

theorem distinctEventIds_sample {epoch : SupportEpoch} {validation : ValidationPrefix}
    (hsize : epoch.eventCount < 16 ^ 64) :
    DistinctEventIds platform sampleIds epoch validation := by
  intro sequential events h a ha b hb heq
  obtain ⟨⟨counts, _⟩, -, h⟩ := bind_eq_ok.mp h
  have hentry : ∀ item ∈ events, ∃ entry ∈ (epoch.eventKeys.zip counts).zipIdx,
      item.eventOrdinal = entry.2 ∧ (do
        let checkpoint ← buildAnytimeBernoulliCheckpoint platform
          validation.selectedCheckpointDrawCount entry.1.2 sequential
        PartialSupportEventInterval.make (sampleIds.supportEpoch epoch)
          (sampleIds.validationPrefix validation) (sampleIds.sequentialProfile sequential) entry.2
          entry.1.1 entry.1.2 checkpoint) = .ok item := by
    intro item hitem
    obtain ⟨entry, hentry, hitem⟩ := mem_of_mapM h hitem
    refine ⟨entry, hentry, ?_, hitem⟩
    obtain ⟨checkpoint, -, hitem⟩ := bind_eq_ok.mp hitem
    unfold PartialSupportEventInterval.make at hitem
    split at hitem
    · cases hitem
      rfl
    · cases hitem
  have hkeys : (epoch.eventKeys.zip counts).length ≤ epoch.eventCount := by
    rw [List.length_zip, length_eventKeys]
    exact min_le_left _ _
  obtain ⟨⟨x, i⟩, hx, hi, ha⟩ := hentry a ha
  obtain ⟨⟨y, j⟩, hy, hj, hb⟩ := hentry b hb
  have hxi := List.mem_zipIdx hx
  have hyj := List.mem_zipIdx hy
  change a.eventOrdinal = i at hi
  change b.eventOrdinal = j at hj
  have hordinals := ContentId.ofNat_injective (by omega) (by omega) heq
  obtain rfl : i = j := hi.symm.trans (hordinals.trans hj)
  obtain rfl : x = y := hxi.2.2.trans hyj.2.2.symm
  exact Except.ok.inj (ha.symm.trans hb)

variable (chain stream offset count) in
/-- The draws validate any epoch of the row whose lineage has used neither them nor their stream. -/
theorem build_sampleDraws {epoch : SupportEpoch} (hrow : epoch.fields.rowBinding = sampleRow)
    (hprofile : epoch.fields.profileId = ContentId.ofNat 0)
    (hchain : epoch.fields.supportEpochChainId = ContentId.ofNat chain)
    (hstream : epoch.fields.validationStreamId = ContentId.ofNat stream)
    (hfresh : ContentId.ofNat stream ∉ epoch.fields.forbiddenValidationStreamIds)
    (hsamples : ∀ k < count,
      ContentId.ofNat (offset + k) ∉ epoch.fields.excludedProbabilitySampleIds)
    (hcount : count ∈ v0072PartialSupportConfidenceProfile.checkpointsFor epoch.fields.purpose)
    (hpos : 0 < count) (hsmall : offset + count < 16 ^ 64)
    (hnodup : epoch.supportDescriptorIds.Nodup)
    (hdocuments : ∀ item ∈ epoch.fields.supportDescriptors, item.documentBytes = [])
    (hsize : 1 ≤ epoch.fields.supportDescriptors.length ∧
      epoch.fields.supportDescriptors.length ≤ maxSupportDescriptors) :
    ∃ snapshot, buildPartialSupportConfidenceSnapshot exactPlatform sampleIds epoch
      (sampleDraws chain stream offset count) none = .ok snapshot := by
  have hlength : (sampleDraws chain stream offset count).length = count := by simp [sampleDraws]
  have hdraws : 0 < (sampleDraws chain stream offset count).length := by
    rw [hlength]
    exact hpos
  have hcheckpoint : (sampleDraws chain stream offset count).length ∈
      v0072PartialSupportConfidenceProfile.checkpointsFor epoch.fields.purpose := by rwa [hlength]
  have hvalidation : ∃ validation, ValidationPrefix.make (ContentId.ofNat 0) (ContentId.ofNat 0)
      epoch.fields.supportEpochChainId epoch.fields.validationStreamId
      (sampleDraws chain stream offset count).length (sampleDraws chain stream offset count) =
        .ok validation ∧ validation = ⟨ContentId.ofNat 0, ContentId.ofNat 0,
          epoch.fields.supportEpochChainId, epoch.fields.validationStreamId,
          (sampleDraws chain stream offset count).length, sampleDraws chain stream offset count,
          ⟨hdraws, rfl⟩⟩ := ⟨_, dif_pos ⟨hdraws, rfl⟩, rfl⟩
  obtain ⟨validation, hvalidation, rfl⟩ := hvalidation
  refine build_returns exactPlatform_exact hnodup hvalidation (bind_eq_ok.mpr ⟨(),
    require_eq_ok.mpr ⟨hprofile, rfl, rfl, rfl, rfl, by rwa [hstream], ?_, hcheckpoint,
      hsize⟩, bind_eq_ok.mpr ⟨(), ?_, require_eq_ok.mpr ?_⟩⟩) (distinctEventIds_sample ?_)
  · intro sample hsample
    obtain ⟨observation, hobservation, rfl⟩ := List.mem_map.mp hsample
    obtain ⟨k, hk, rfl⟩ := mem_sampleDraws.mp hobservation
    exact hsamples k hk
  · dsimp only
    rw [hrow, hchain, hstream]
    exact validateBoundPrefix_sampleDraws hpos hsmall
  · intro observation hobservation expected hexpected
    obtain ⟨k, -, rfl⟩ := mem_sampleDraws.mp hobservation
    have hmem := Dict.lookup_mem hexpected
    rw [descriptorsById_of_nodup hnodup] at hmem
    obtain ⟨item, hitem, heq⟩ := List.mem_map.mp hmem
    obtain rfl : item = expected := congrArg Prod.snd heq
    exact hdocuments item hitem
  · have hle := hsize.2
    simp only [SupportEpoch.eventCount, maxSupportDescriptors] at hle ⊢
    omega

end Draws

theorem build_freeze_sample {epoch : SupportEpoch} (hfields : epoch.fields = sampleFields)
    (hnodup : epoch.supportDescriptorIds.Nodup) :
    ∃ snapshot, buildPartialSupportConfidenceSnapshot exactPlatform sampleIds epoch
      (sampleDraws 7 8 10 8192) none = .ok snapshot := by
  refine build_sampleDraws _ _ _ _ (by rw [hfields]; rfl) (by rw [hfields]; rfl)
    (by rw [hfields]; rfl)
    (by rw [hfields]; rfl) ?_ (fun k hk => ?_) (by rw [hfields]; exact List.mem_singleton.mpr rfl)
    (by decide) (by norm_num) hnodup (by simp [hfields, sampleFields, sampleObservation])
    (by simp [hfields, sampleFields, maxSupportDescriptors])
  · rw [hfields, sampleFields, List.mem_singleton]
    exact ofNat_ne (by decide) (by norm_num) (by norm_num)
  · rw [hfields, sampleFields, List.mem_singleton]
    exact ofNat_ne (by omega) (by omega) (by norm_num)

/-- A snapshot of the discovered epoch is promoted, and the promoted epoch has one of its own. -/
theorem promotion_chain_fresh_sample : ∃ epoch parent next,
    PromotionChain exactPlatform sampleIds (ContentId.ofNat 4) [sampleObservation] epoch [parent] ∧
    parent.validationPrefix.observations = sampleDraws 7 8 10 8192 ∧
    buildPartialSupportConfidenceSnapshot exactPlatform sampleIds epoch
      (sampleDraws 12 11 10000 2048) none = .ok next ∧
    (∀ sample ∈ next.validationPrefix.sampleIds, sample ≠ ContentId.ofNat 5 ∧
      sample ∉ parent.validationPrefix.sampleIds) ∧
    epoch.fields.validationStreamId ≠ ContentId.ofNat 4 ∧
    epoch.fields.validationStreamId ≠ parent.supportEpoch.fields.validationStreamId ∧
    (∀ item ∈ parent.supportEpoch.fields.supportDescriptors,
      item ∈ epoch.fields.supportDescriptors) ∧
    ⟨ContentId.ofNat 9, []⟩ ∈ epoch.fields.supportDescriptors := by
  obtain ⟨origin, hfreeze, hfields⟩ := freeze_sample
  have hnodup := SupportEpoch.support_nodup (check_of_freeze hfreeze)
  obtain ⟨parent, hbuild⟩ := build_freeze_sample hfields hnodup
  obtain ⟨hcomputed, rfl, hobservations⟩ := build_computed hbuild
  have hsix : ContentId.ofNat 9 ≠ ContentId.ofNat 6 :=
    ofNat_ne (by decide) (by norm_num) (by norm_num)
  -- the only novel descriptor is that of the odd draws
  have hnovel : ∀ item, item ∈ parent.novelDescriptors ↔ item = ⟨ContentId.ofNat 9, []⟩ := by
    intro item
    rw [(countsAndNovel_novel hcomputed.counted).2, hobservations,
      SupportEpoch.supportDescriptorIds,
      hfields, sampleFields]
    constructor
    · rintro ⟨⟨observation, hobservation, rfl⟩, hnew⟩
      obtain ⟨k, -, rfl⟩ := mem_sampleDraws.mp hobservation
      by_cases heven : k % 2 = 0 <;> simp_all [sampleDraw, sampleObservation]
    · rintro rfl
      exact ⟨⟨_, mem_sampleDraws.mpr ⟨1, by decide, rfl⟩, rfl⟩, by
        simpa [sampleObservation] using hsix⟩
  have hlength : parent.novelDescriptors.length ≤ 1 := by
    have hdistinct : parent.novelDescriptors.Nodup :=
      List.Nodup.of_map OpaqueOutcomeDescriptor.descriptorId
        ((countsAndNovel_novel hcomputed.counted).1.imp ne_of_lt)
    exact (hdistinct.subperm fun item hitem =>
      List.mem_singleton.mpr ((hnovel item).mp hitem)).length_le
  obtain ⟨epoch, hpromote⟩ := promoteSupportEpoch_returns hcomputed hnodup
    (verifyEpochLineage_of_freeze hfreeze) (List.ne_nil_of_mem ((hnovel _).mpr rfl))
    (by
      rw [hfields, sampleFields]
      simp only [List.length_singleton, maxSupportDescriptors]
      omega)
    (.ofNat 12) (.ofNat 11)
    (by rw [hfields]; exact ofNat_ne (by decide) (by norm_num) (by norm_num))
    (by
      rw [promotedForbidden, mem_sortedSet, hfields, sampleFields]
      simpa using ⟨ofNat_ne (m := 11) (n := 4) (by decide) (by norm_num) (by norm_num),
        ofNat_ne (m := 11) (n := 8) (by decide) (by norm_num) (by norm_num)⟩)
  have hchain : PromotionChain exactPlatform sampleIds (ContentId.ofNat 4) [sampleObservation]
      epoch [parent] := .promote (.initial hfreeze) hbuild hpromote
  obtain ⟨-, hnext, hfresh, hsize⟩ := promoteSupportEpoch_eq_ok hpromote
  have hpromoted : ∀ item, item ∈ epoch.fields.supportDescriptors ↔
      item = sampleObservation.outcome ∨ item = ⟨ContentId.ofNat 9, []⟩ := by
    intro item
    rw [hnext, hcomputed.mem_promotedSupport hnodup, hnovel, hfields, sampleFields,
      List.mem_singleton]
  obtain ⟨next, hsecond⟩ := build_sampleDraws 12 11 10000 2048
    (by rw [hnext, hfields]; rfl) (by rw [hnext, hfields]; rfl) (by rw [hnext]) (by rw [hnext])
    (by rwa [hnext])
    (fun k hk hmem => by
      rw [hnext, promotedExcluded, mem_sortedSet, hfields, sampleFields, ValidationPrefix.sampleIds,
        hobservations] at hmem
      rcases List.mem_append.mp hmem with hmem | hmem
      · exact ofNat_ne (by omega) (by omega) (by norm_num) (List.mem_singleton.mp hmem)
      · obtain ⟨_, hdraw, hid⟩ := List.mem_map.mp hmem
        obtain ⟨j, hj, rfl⟩ := mem_sampleDraws.mp hdraw
        exact ofNat_ne (by omega) (by omega) (by omega) hid)
    (by rw [hnext]; exact List.mem_singleton.mpr rfl) (by decide) (by norm_num)
    (SupportEpoch.support_nodup (check_of_promote hpromote))
    (fun item hitem => by
      rcases (hpromoted item).mp hitem with rfl | rfl <;> rfl)
    ⟨List.length_pos_of_mem ((hpromoted _).mpr (.inr rfl)), by rw [hnext]; exact hsize⟩
  obtain ⟨hsamples, hdiscovery, hstreams, hsupport, -⟩ := promotion_chain_fresh hchain
  refine ⟨epoch, parent, next, hchain, hobservations, hsecond, fun sample hsample => ?_, hdiscovery,
    hstreams parent (by simp), (hsupport parent (by simp)).1, (hpromoted _).mpr (.inr rfl)⟩
  obtain ⟨hnew, hparent⟩ := hsamples _ _ _ hsecond sample hsample
  exact ⟨by simpa [sampleObservation] using hnew, hparent parent (by simp)⟩

end Acfqp.Confidence
