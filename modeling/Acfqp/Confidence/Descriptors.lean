import Acfqp.Confidence.Support

/-!
# Descriptor tables and event counts

A table binds each identifier to one descriptor. Every observed descriptor falls under exactly one
event of a support, so that the event counts add up to the number of draws.
-/

namespace Acfqp.Confidence

open Library

/-! ## Tables -/

/-- The entries are under their own identifiers, each of which occurs once. -/
structure DescriptorTable.WellFormed (byId : DescriptorTable) : Prop where
  keyed : ∀ entry ∈ byId, entry.2.descriptorId = entry.1
  nodup : (byId.map Prod.fst).Nodup

theorem DescriptorTable.WellFormed.nil : DescriptorTable.WellFormed [] := ⟨by simp, by simp⟩

variable {message : String} {byId found : DescriptorTable} {item : OpaqueOutcomeDescriptor}
  {items : List OpaqueOutcomeDescriptor}

theorem descriptor_ext {a b : OpaqueOutcomeDescriptor} (hid : a.descriptorId = b.descriptorId)
    (hbytes : a.documentBytes = b.documentBytes) : a = b := by
  cases a
  cases b
  simp_all

/-- An item is bound as it is, and nothing else is. -/
theorem bindDescriptor_spec (hbyId : byId.WellFormed)
    (h : bindDescriptor message byId item = .ok found) :
    found.WellFormed ∧ ∀ entry, entry ∈ found ↔ entry ∈ byId ∨
      entry = (item.descriptorId, item) := by
  unfold bindDescriptor at h
  cases hlookup : byId.lookup item.descriptorId with
  | none =>
    rw [hlookup] at h
    cases h
    have hnew : item.descriptorId ∉ byId.map Prod.fst := by
      intro hmem
      obtain ⟨entry, hentry, hkey⟩ := List.mem_map.mp hmem
      have := Dict.lookup_eq_some hbyId.nodup (show (item.descriptorId, entry.2) ∈ byId by
        rwa [← hkey])
      rw [this] at hlookup
      cases hlookup
    refine ⟨⟨?_, ?_⟩, by simp⟩
    · intro entry hentry
      rcases List.mem_append.mp hentry with hentry | hentry
      · exact hbyId.keyed entry hentry
      · rw [List.mem_singleton.mp hentry]
    · rw [List.map_append]
      exact hbyId.nodup.append (by simp) (by simpa [List.disjoint_singleton] using hnew)
  | some prior =>
    rw [hlookup] at h
    obtain ⟨_, hbytes, h⟩ := bind_eq_ok.mp h
    obtain rfl := pure_eq_ok.mp h
    have hmem := Dict.lookup_mem hlookup
    have hprior : prior = item :=
      descriptor_ext (hbyId.keyed _ hmem) (require_eq_ok.mp hbytes)
    refine ⟨hbyId, fun entry => ⟨.inl, ?_⟩⟩
    rintro (hentry | rfl)
    · exact hentry
    · rw [← hprior] at hmem ⊢
      exact hmem

theorem bindDescriptors_spec (hbyId : byId.WellFormed)
    (h : items.foldlM (bindDescriptor message) byId = .ok found) :
    found.WellFormed ∧ ∀ entry, entry ∈ found ↔
      entry ∈ byId ∨ ∃ item ∈ items, entry = (item.descriptorId, item) := by
  induction items generalizing byId with
  | nil =>
    obtain rfl := pure_eq_ok.mp h
    exact ⟨hbyId, by simp⟩
  | cons item items ih =>
    rw [List.foldlM_cons] at h
    obtain ⟨next, hnext, h⟩ := bind_eq_ok.mp h
    obtain ⟨hwell, hentries⟩ := bindDescriptor_spec hbyId hnext
    obtain ⟨hfound, hall⟩ := ih hwell h
    refine ⟨hfound, fun entry => ?_⟩
    rw [hall, hentries]
    simp [or_assoc]

theorem bindDescriptors_returns {known : DescriptorTable} (hknown : known.WellFormed)
    (hitems : ∀ item ∈ items, (item.descriptorId, item) ∈ known) (hbyId : byId.WellFormed)
    (hsub : ∀ entry ∈ byId, entry ∈ known) :
    ∃ found, items.foldlM (bindDescriptor message) byId = .ok found := by
  induction items generalizing byId with
  | nil => exact ⟨byId, rfl⟩
  | cons item items ih =>
    have hitem := hitems item (by simp)
    have hbind : ∃ next, bindDescriptor message byId item = .ok next := by
      unfold bindDescriptor
      cases hlookup : byId.lookup item.descriptorId with
      | none => exact ⟨_, rfl⟩
      | some prior =>
        have hprior := hsub _ (Dict.lookup_mem hlookup)
        have heq : some prior = some item := by
          rw [← Dict.lookup_eq_some hknown.nodup hprior, Dict.lookup_eq_some hknown.nodup hitem]
        cases heq
        exact ⟨byId, bind_eq_ok.mpr ⟨(), require_eq_ok.mpr rfl, rfl⟩⟩
    obtain ⟨next, hnext⟩ := hbind
    obtain ⟨hwell, hentries⟩ := bindDescriptor_spec hbyId hnext
    obtain ⟨found, hfound⟩ := ih (fun item h => hitems item (by simp [h])) hwell
      (fun entry hentry => by
        rcases (hentries entry).mp hentry with hentry | rfl
        · exact hsub entry hentry
        · exact hitem)
    exact ⟨found, by rw [List.foldlM_cons]; exact bind_eq_ok.mpr ⟨next, hnext, hfound⟩⟩

theorem mem_sortedById (hbyId : byId.WellFormed) :
    item ∈ sortedById byId ↔ (item.descriptorId, item) ∈ byId := by
  unfold sortedById
  rw [List.mem_map]
  constructor
  · rintro ⟨entry, hentry, rfl⟩
    rw [mem_sortBy] at hentry
    rwa [hbyId.keyed entry hentry]
  · exact fun h => ⟨_, mem_sortBy.mpr h, rfl⟩

theorem sortedById_increasing (hbyId : byId.WellFormed) :
    ((sortedById byId).map OpaqueOutcomeDescriptor.descriptorId).Pairwise (· < ·) := by
  have hkeys : (sortedById byId).map OpaqueOutcomeDescriptor.descriptorId =
      (sortBy Prod.fst byId).map Prod.fst := by
    rw [sortedById, List.map_map]
    refine List.map_congr_left fun entry hentry => ?_
    rw [mem_sortBy] at hentry
    exact hbyId.keyed entry hentry
  rw [hkeys]
  have hsorted : ((sortBy Prod.fst byId).map Prod.fst).Pairwise (· ≤ ·) :=
    List.pairwise_map.mpr (pairwise_sortBy Prod.fst byId)
  exact (hsorted.and (nodup_map_sortBy hbyId.nodup)).imp fun h => lt_of_le_of_ne h.1 h.2

theorem descriptorsById_wellFormed (items : List OpaqueOutcomeDescriptor) :
    DescriptorTable.WellFormed (descriptorsById items) := by
  have key : ∀ (items : List OpaqueOutcomeDescriptor) (byId : DescriptorTable),
      byId.WellFormed → DescriptorTable.WellFormed
        (items.foldl (fun byId item => Dict.assign item.descriptorId item byId) byId) := by
    intro items
    induction items with
    | nil => exact fun _ h => h
    | cons item items ih =>
      refine fun byId h => ih _ ⟨fun entry hentry => ?_, Dict.nodup_keys_assign h.nodup⟩
      rcases Dict.mem_assign hentry with rfl | hentry
      · rfl
      · exact h.keyed entry hentry
  exact key items [] .nil

theorem descriptorsById_of_nodup {items : List OpaqueOutcomeDescriptor}
    (h : (items.map OpaqueOutcomeDescriptor.descriptorId).Nodup) :
    descriptorsById items = items.map fun item => (item.descriptorId, item) := by
  have key : ∀ (items : List OpaqueOutcomeDescriptor) (byId : DescriptorTable),
      (byId.map Prod.fst ++ items.map OpaqueOutcomeDescriptor.descriptorId).Nodup →
      items.foldl (fun byId item => Dict.assign item.descriptorId item byId) byId =
        byId ++ items.map fun item => (item.descriptorId, item) := by
    intro items
    induction items with
    | nil => simp
    | cons item items ih =>
      intro byId h
      have hnew : item.descriptorId ∉ byId.map Prod.fst := by
        intro hmem
        exact (List.nodup_append.mp h).2.2 _ hmem _ (by simp) rfl
      rw [List.foldl_cons, Dict.assign_of_notMem hnew, ih _ (by simpa using h)]
      simp
  exact (key items [] (by simpa using h)).trans (List.nil_append _)

/-! ## Events -/

def eventOf (supportIds : List ContentId) (item : OpaqueOutcomeDescriptor) :
    PartialSupportEvent :=
  if item.descriptorId ∈ supportIds then .support item.descriptorId else .other

def supportEvents (supportIds : List ContentId) : List PartialSupportEvent :=
  supportIds.map .support ++ [.other]

theorem nodup_supportEvents {supportIds : List ContentId} (h : supportIds.Nodup) :
    (supportEvents supportIds).Nodup := by
  refine (h.map fun a b hab => ?_).append (by simp) (by simp [List.disjoint_singleton])
  simpa using hab

theorem eventOf_mem (supportIds : List ContentId) (item : OpaqueOutcomeDescriptor) :
    eventOf supportIds item ∈ supportEvents supportIds := by
  unfold eventOf supportEvents
  split
  · simp_all
  · simp

variable {supportIds : List ContentId} {observations : List OpaqueConfidenceObservation}

/-- The counting loop counts each event, and binds the novel descriptors. -/
theorem observe_spec (s : SupportCounts) :
    items.foldlM (SupportCounts.observe supportIds) s = do
      let novel ← (items.filter (·.descriptorId ∉ supportIds)).foldlM
        (bindDescriptor "novel descriptor changed within validation") s.novel
      return ⟨s.counts.map fun entry => (entry.1, entry.2 +
          (items.map (eventOf supportIds)).count (.support entry.1)),
        s.other + (items.map (eventOf supportIds)).count .other, novel⟩ := by
  induction items generalizing s with
  | nil => simp [bind, Except.bind, pure, Except.pure]
  | cons item items ih =>
    rw [List.foldlM_cons, SupportCounts.observe]
    by_cases hmem : item.descriptorId ∈ supportIds
    · have hevent : eventOf supportIds item = .support item.descriptorId := if_pos hmem
      have hcounts : ∀ entry : ContentId × ℕ,
          (if entry.1 = item.descriptorId then (entry.1, entry.2 + 1) else entry) =
            (entry.1, entry.2 + [eventOf supportIds item].count (.support entry.1)) := by
        intro entry
        by_cases hkey : entry.1 = item.descriptorId
        · simp [hkey, hevent]
        · simp [hkey, hevent, Ne.symm hkey]
      rw [if_pos hmem, List.filter_cons_of_neg (by simpa using hmem)]
      simp only [hcounts]
      refine (ih _).trans ?_
      simp [hevent, Function.comp_def, List.count_cons, Nat.add_assoc, Nat.add_comm]
    · have hevent : eventOf supportIds item = .other := if_neg hmem
      rw [if_neg hmem, List.filter_cons_of_pos (by simpa using hmem), List.foldlM_cons]
      cases bindDescriptor "novel descriptor changed within validation" s.novel item with
      | error e => rfl
      | ok novel =>
        refine (ih _).trans ?_
        simp [hevent, bind, Except.bind, Nat.add_assoc, Nat.add_comm 1]

def eventCounts (supportIds : List ContentId) (observations : List OpaqueConfidenceObservation)
    (event : PartialSupportEvent) : ℕ :=
  (observations.map fun item => eventOf supportIds item.outcome).count event

theorem countsAndNovel_counts {counts : List ℕ} {novel : List OpaqueOutcomeDescriptor}
    (h : countsAndNovel supportIds observations = .ok (counts, novel)) :
    counts = (supportEvents supportIds).map (eventCounts supportIds observations) := by
  obtain ⟨counted, hcounted, h⟩ := bind_eq_ok.mp h
  rw [observe_spec] at hcounted
  obtain ⟨bound, -, hcounted⟩ := bind_eq_ok.mp hcounted
  obtain rfl := pure_eq_ok.mp hcounted
  have heq := pure_eq_ok.mp h
  rw [Prod.mk.injEq] at heq
  obtain ⟨rfl, -⟩ := heq
  simp only [supportEvents, List.map_append, List.map_map, List.map_singleton]
  congr 1
  · refine List.map_congr_left fun key hkey => ?_
    have hcount := Dict.lookup_map (f := fun key => 0 +
      (observations.map fun item => eventOf supportIds item.outcome).count (.support key)) hkey
    simp_all [eventCounts, Function.comp_def]
  · simp [eventCounts, Function.comp_def]

/-- Every draw falls under one event. -/
theorem sum_eventCounts (h : supportIds.Nodup) :
    ((supportEvents supportIds).map (eventCounts supportIds observations)).sum =
      observations.length := by
  set events := observations.map fun item => eventOf supportIds item.outcome with hevents
  have hmem : ∀ event ∈ (events : Multiset PartialSupportEvent),
      event ∈ (supportEvents supportIds).toFinset := by
    intro event hevent
    obtain ⟨item, -, rfl⟩ := List.mem_map.mp (Multiset.mem_coe.mp hevent)
    exact List.mem_toFinset.mpr (eventOf_mem supportIds item.outcome)
  calc ((supportEvents supportIds).map (eventCounts supportIds observations)).sum
      = ∑ event ∈ (supportEvents supportIds).toFinset, events.count event :=
        (List.sum_toFinset _ (nodup_supportEvents h)).symm
    _ = (events : Multiset PartialSupportEvent).card := by
        rw [← Multiset.sum_count_eq_card hmem]
        simp only [Multiset.coe_count]
    _ = observations.length := by simp [hevents]

/-- The novel descriptors are the observed ones outside the support, by identifier. -/
theorem countsAndNovel_novel {counts : List ℕ} {novel : List OpaqueOutcomeDescriptor}
    (h : countsAndNovel supportIds observations = .ok (counts, novel)) :
    (novel.map OpaqueOutcomeDescriptor.descriptorId).Pairwise (· < ·) ∧
      ∀ item, item ∈ novel ↔
        (∃ observation ∈ observations, observation.outcome = item) ∧
          item.descriptorId ∉ supportIds := by
  obtain ⟨counted, hcounted, h⟩ := bind_eq_ok.mp h
  rw [observe_spec] at hcounted
  obtain ⟨bound, hbound, hcounted⟩ := bind_eq_ok.mp hcounted
  obtain rfl := pure_eq_ok.mp hcounted
  have heq := pure_eq_ok.mp h
  rw [Prod.mk.injEq] at heq
  obtain ⟨-, rfl⟩ := heq
  obtain ⟨hwell, hentries⟩ := bindDescriptors_spec .nil hbound
  refine ⟨sortedById_increasing hwell, fun item => ?_⟩
  rw [mem_sortedById hwell, hentries]
  constructor
  · rintro (h | ⟨item', hitem', heq⟩)
    · cases h
    · obtain rfl : item = item' := congrArg Prod.snd heq
      simpa using hitem'
  · intro hitem
    exact .inr ⟨item, by simpa using hitem, rfl⟩

theorem countsAndNovel_returns (supportIds : List ContentId) {found : DescriptorTable}
    {message : String}
    (h : (observations.map OpaqueConfidenceObservation.outcome).foldlM (bindDescriptor message) [] =
      .ok found) : ∃ counts novel, countsAndNovel supportIds observations =
        .ok (counts, novel) := by
  obtain ⟨hwell, hentries⟩ := bindDescriptors_spec .nil h
  have hnovel : ∃ novel, ((observations.map OpaqueConfidenceObservation.outcome).filter
      (·.descriptorId ∉ supportIds)).foldlM
        (bindDescriptor "novel descriptor changed within validation") [] = .ok novel :=
    bindDescriptors_returns hwell
      (fun item hitem => (hentries _).mpr (.inr ⟨item, (List.mem_filter.mp hitem).1, rfl⟩)) .nil
      (by simp)
  have hcounted : ∃ counted, (observations.map OpaqueConfidenceObservation.outcome).foldlM
      (SupportCounts.observe supportIds) ⟨supportIds.map fun key => (key, 0), 0, []⟩ =
        .ok counted := by
    obtain ⟨novel, hnovel⟩ := hnovel
    rw [observe_spec]
    exact ⟨_, bind_eq_ok.mpr ⟨novel, hnovel, rfl⟩⟩
  obtain ⟨counted, hcounted⟩ := hcounted
  exact ⟨_, _, bind_eq_ok.mpr ⟨counted, hcounted, rfl⟩⟩

end Acfqp.Confidence
