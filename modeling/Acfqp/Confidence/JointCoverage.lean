import Acfqp.Confidence.Lineage

/-!
# Joint coverage

For any law of the outcomes, each event of a support is a coin with a real success probability, so
that the per-event error bounds add up to the budget of the row.
-/

namespace Acfqp.Confidence

open Library

/-! ## Real success probabilities -/

theorem le_of_rat_outside {f : ℝ → ℝ} (hf : Continuous f) {lower upper : ℚ} {c p : ℝ}
    (h0 : 0 ≤ p) (h1 : p ≤ 1) (hlower : lower ≤ 1) (hupper : 0 ≤ upper)
    (h : ∀ x : ℚ, 0 ≤ x → x ≤ 1 → ¬ (lower ≤ x ∧ x ≤ upper) → f x ≤ c)
    (hout : ¬ ((lower : ℝ) ≤ p ∧ p ≤ upper)) : f p ≤ c := by
  by_contra hlt
  rw [not_le] at hlt
  obtain ⟨l, u, ⟨hl, hu⟩, hsub⟩ := mem_nhds_iff_exists_Ioo_subset.mp
    (hf.continuousAt.eventually (lt_mem_nhds hlt))
  rcases not_and_or.mp hout with hbelow | habove
  · rw [not_le] at hbelow
    obtain ⟨x, hpx, hx⟩ := exists_rat_btwn (lt_min hu hbelow)
    obtain ⟨hxu, hxl⟩ := lt_min_iff.mp hx
    have hxlower : x < lower := by exact_mod_cast hxl
    have hx0 : (0 : ℚ) ≤ x := by exact_mod_cast h0.trans hpx.le
    exact absurd (h x hx0 (hxlower.le.trans hlower) fun hin => absurd hin.1 (not_le.mpr hxlower))
      (not_le.mpr (hsub ⟨hl.trans hpx, hxu⟩))
  · rw [not_le] at habove
    obtain ⟨x, hx, hxp⟩ := exists_rat_btwn (max_lt hl habove)
    obtain ⟨hlx, hux⟩ := max_lt_iff.mp hx
    have hupperx : upper < x := by exact_mod_cast hux
    have hx1 : x ≤ 1 := by exact_mod_cast hxp.le.trans h1
    exact absurd (h x (hupper.trans hupperx.le) hx1 fun hin => absurd hin.2 (not_le.mpr hupperx))
      (not_le.mpr (hsub ⟨hlx, hxp.trans hu⟩))

variable {Z : Type} {platform : Platform Z} {value : Z → ℤ}

theorem likelihood_le_of_outside (hexact : ExactBackend platform.gmp value) {n s bits : ℕ} {α : ℚ}
    {bounds : OuterBounds} (hα : 0 < α ∧ α < 1) (hbits : bits < 64)
    (hbounds : outerConfidenceBounds platform n s α bits = .ok bounds) {p : ℝ} (h0 : 0 ≤ p)
    (h1 : p ≤ 1) (hout : ¬ ((bounds.lower : ℝ) ≤ p ∧ p ≤ bounds.upper)) :
    p ^ s * (1 - p) ^ (n - s) ≤ (α : ℝ) * mixtureMass n s := by
  obtain ⟨⟨hpos, hs⟩, -, hlower, hupper, -⟩ := outerConfidenceBounds_mem hbounds
  have hfrequency : (s : ℚ) / n ≤ 1 := div_le_one_of_le₀ (by exact_mod_cast hs) (by positivity)
  refine le_of_rat_outside (f := fun x => x ^ s * (1 - x) ^ (n - s)) (by fun_prop) h0 h1
    (hlower.trans hfrequency) (le_trans (by positivity) hupper) (fun x hx0 hx1 hx => ?_) hout
  have hrejects := rejects_of_not_mem_bounds hexact hα (.inr hbits) hbounds ⟨hx0, hx1⟩ hx
  have hlikelihood := (bernoulliMixtureRejects_eq_ok.mp hrejects).2.2.2
  unfold sequenceLikelihood at hlikelihood
  exact_mod_cast hlikelihood

variable {Ω : Type} [Fintype Ω]

open scoped Classical in
/-- The exact probability of an event of `N` independent draws with law `q`. -/
noncomputable def drawProbability (q : Ω → ℝ) (N : ℕ) (event : List Ω → Prop) : ℝ :=
  probability q N event

theorem drawProbability_eq (q : Ω → ℝ) (N : ℕ) (event : List Ω → Prop) [DecidablePred event] :
    drawProbability q N event = probability q N event := by
  unfold drawProbability probability
  exact Finset.sum_congr (Finset.filter_congr_decidable _ _ _) fun ω _ => rfl

theorem drawProbability_mono {q : Ω → ℝ} (hq : ∀ o, 0 ≤ q o) {N : ℕ} {event event' : List Ω → Prop}
    (h : ∀ l, l.length = N → event l → event' l) :
    drawProbability q N event ≤ drawProbability q N event' := by
  classical
  exact probability_mono hq h

/-- The probability that a draw satisfies `g`. -/
noncomputable def successProbability (q : Ω → ℝ) (g : Ω → Bool) : ℝ := pushforward q g true

/-- The interval of a success count of the first `n` draws misses its probability. -/
def SuccessMisses (platform : Platform Z) (α : ℚ) (bits : ℕ) (q : Ω → ℝ) (g : Ω → Bool) (n : ℕ)
    (draws : List Ω) : Prop :=
  ∃ bounds, outerConfidenceBounds platform n (successes ((draws.take n).map g)) α bits =
      .ok bounds ∧
    ¬ ((bounds.lower : ℝ) ≤ successProbability q g ∧ successProbability q g ≤ bounds.upper)

theorem likelihood_bool (q : Bool → ℝ) (hq : q true + q false = 1) (draws : List Bool) :
    likelihood q draws =
      q true ^ successes draws * (1 - q true) ^ (draws.length - successes draws) := by
  have hfalse : q false = 1 - q true := by linarith
  induction draws with
  | nil => simp [successes]
  | cons b draws ih =>
    have hle := successes_le draws
    cases b with
    | true =>
      have hs : successes (true :: draws) = successes draws + 1 := by simp [successes]
      rw [likelihood_cons, ih, hs, List.length_cons, Nat.add_sub_add_right, pow_succ', mul_assoc]
    | false =>
      have hs : successes (false :: draws) = successes draws := by simp [successes]
      rw [likelihood_cons, ih, hs, List.length_cons, Nat.succ_sub hle, pow_succ', hfalse]
      ring

/-- Some interval of the first draws misses the success probability, with probability at most
`α`. -/
theorem drawProbability_misses_le {q : Ω → ℝ} (hexact : ExactBackend platform.gmp value)
    (hq : ∀ o, 0 ≤ q o) (hsum : ∑ o, q o = 1) {α : ℚ} (hα : 0 < α ∧ α < 1) {bits : ℕ}
    (hbits : bits < 64) (g : Ω → Bool) (N : ℕ) :
    drawProbability q N (fun ω => ∃ n ≤ N, SuccessMisses platform α bits q g n ω) ≤ α := by
  classical
  set q' := pushforward q g with hq'
  have hq'0 : ∀ b, 0 ≤ q' b := fun b => Finset.sum_nonneg fun o _ => hq o
  have hq'sum : ∑ b, q' b = 1 := by
    rw [← hsum]
    exact Finset.sum_fiberwise Finset.univ g q
  have htrue : q' true + q' false = 1 := by rw [← hq'sum]; simp
  let rejected : List Bool → Prop := fun past => ∃ bounds,
    outerConfidenceBounds platform past.length (successes past) α bits = .ok bounds ∧
      ¬ ((bounds.lower : ℝ) ≤ q' true ∧ q' true ≤ bounds.upper)
  have hpass := probability_passes_le q' (α : ℝ)
    (fun past => (mixtureMass past.length (successes past) : ℝ)) rejected
    hq'0 hq'sum (fun past => by exact_mod_cast (mixtureMass_pos (successes_le past)).le)
    (by simp [mixtureMass, successes]) (by exact_mod_cast hα.1.le)
    (fun past => by
      have := sum_mixtureMass past
      exact_mod_cast this.le)
    (fun past ⟨bounds, hbounds, hout⟩ => by
      rw [likelihood_bool q' htrue]
      exact likelihood_le_of_outside hexact hα hbits hbounds (hq'0 true) (by linarith [hq'0 false])
        hout) N
  refine le_trans ?_ hpass
  rw [← probability_map g, ← drawProbability_eq]
  refine drawProbability_mono hq ?_
  rintro ω rfl ⟨n, hn, bounds, hbounds, hout⟩
  refine ⟨n, by simpa using hn, bounds, ?_, hout⟩
  simpa [List.map_take, hn] using hbounds

/-! ## The events of a support -/

/-- The true probability of an event, when `describe` is the descriptor of an outcome. -/
noncomputable def eventProbability (q : Ω → ℝ) (describe : Ω → OpaqueOutcomeDescriptor)
    (supportIds : List ContentId) (event : PartialSupportEvent) : ℝ :=
  ∑ o with eventOf supportIds (describe o) = event, q o

/-- A vector of probabilities lies in the simplex. -/
def PartialSupportJointSimplex.Contains (simplex : PartialSupportJointSimplex)
    (vector : List ℝ) : Prop :=
  vector.sum = 1 ∧ List.Forall₂ (fun bounds p => (bounds.1 : ℝ) ≤ p ∧ p ≤ bounds.2)
    (simplex.lowerProbabilities.zip simplex.upperProbabilities) vector

/-- A snapshot on the first `n` draws misses the true probabilities. -/
def SnapshotMisses (platform : Platform Z) (ids : ConfidenceIds) (epoch : SupportEpoch)
    (q : Ω → ℝ) (describe : Ω → OpaqueOutcomeDescriptor) (n : ℕ) (draws : List Ω) : Prop :=
  ∃ observations given snapshot,
    observations.map OpaqueConfidenceObservation.outcome = (draws.take n).map describe ∧
    buildPartialSupportConfidenceSnapshot platform ids epoch observations given = .ok snapshot ∧
    ¬ snapshot.jointSimplex.Contains
      (epoch.eventKeys.map (eventProbability q describe epoch.supportDescriptorIds))

variable {ids : ConfidenceIds} {epoch : SupportEpoch} {q : Ω → ℝ}
  {describe : Ω → OpaqueOutcomeDescriptor}

theorem sum_eventProbability (hepoch : epoch.supportDescriptorIds.Nodup) (hsum : ∑ o, q o = 1) :
    (epoch.eventKeys.map (eventProbability q describe epoch.supportDescriptorIds)).sum = 1 := by
  have hnodup : epoch.eventKeys.Nodup := nodup_supportEvents hepoch
  rw [← List.sum_toFinset _ hnodup, ← hsum]
  exact Finset.sum_fiberwise_of_maps_to
    (fun o _ => List.mem_toFinset.mpr (eventOf_mem epoch.supportDescriptorIds (describe o))) q

theorem expectedSimplex_bounds {validation : ValidationPrefix}
    {events : List PartialSupportEventInterval} {simplex : PartialSupportJointSimplex}
    (h : expectedSimplex ids epoch validation events = .ok simplex) :
    simplex.lowerProbabilities = events.map PartialSupportEventInterval.lowerProbability ∧
      simplex.upperProbabilities = events.map PartialSupportEventInterval.upperProbability := by
  unfold expectedSimplex PartialSupportJointSimplex.make at h
  split at h
  · cases h
    exact ⟨rfl, rfl⟩
  · cases h

theorem exists_successMisses {n : ℕ} {draws : List Ω} (hn : n ≤ draws.length)
    (hepoch : epoch.supportDescriptorIds.Nodup) (hsum : ∑ o, q o = 1)
    (h : SnapshotMisses platform ids epoch q describe n draws) :
    ∃ event ∈ epoch.eventKeys.toFinset,
      SuccessMisses platform (rowEpochBeta / epoch.eventCount) boundaryGridBits q
        (fun o => eventOf epoch.supportDescriptorIds (describe o) = event) n draws := by
  obtain ⟨observations, given, snapshot, houtcomes, hbuild, hmisses⟩ := h
  obtain ⟨hcomputed, rfl, hobservations⟩ := build_computed hbuild
  have hmeasures := hcomputed.measures
  have hlength : snapshot.validationPrefix.selectedCheckpointDrawCount = n := by
    rw [snapshot.validationPrefix.complete.2, hobservations,
      ← List.length_map OpaqueConfidenceObservation.outcome, houtcomes]
    simpa using hn
  obtain ⟨hlower, hupper⟩ := expectedSimplex_bounds hcomputed.simplex
  -- the vector is read on the intervals themselves, whose events are the keys
  have hout : ∃ item ∈ snapshot.eventIntervals, ¬ ((item.lowerProbability : ℝ) ≤
      eventProbability q describe snapshot.supportEpoch.supportDescriptorIds item.event ∧
      eventProbability q describe snapshot.supportEpoch.supportDescriptorIds item.event ≤
        item.upperProbability) := by
    by_contra hin
    push Not at hin
    refine hmisses ⟨sum_eventProbability hepoch hsum, ?_⟩
    rw [hlower, hupper, List.zip_map', ← hmeasures.keys, List.map_map, List.forall₂_map_left_iff,
      List.forall₂_map_right_iff, List.forall₂_same]
    exact hin
  obtain ⟨item, hitem, hout⟩ := hout
  have hkey : item.event ∈ snapshot.supportEpoch.eventKeys := by
    rw [← hmeasures.keys]
    exact List.mem_map_of_mem hitem
  obtain ⟨bounds, hbounds, -, -, hitemLower, hitemUpper⟩ :=
    buildAnytimeBernoulliCheckpoint_bounds (hmeasures.checkpoint item hitem)
  obtain ⟨-, halpha, hbits⟩ := sequentialProfile_eq_ok hcomputed.sequential
  have hcount : eventCounts snapshot.supportEpoch.supportDescriptorIds
      snapshot.validationPrefix.observations item.event = successes ((draws.take n).map fun o =>
        decide (eventOf snapshot.supportEpoch.supportDescriptorIds (describe o) = item.event)) := by
    rw [eventCounts, hobservations]
    have hevents : (observations.map fun item => eventOf
        snapshot.supportEpoch.supportDescriptorIds item.outcome) =
        ((draws.take n).map describe).map (eventOf snapshot.supportEpoch.supportDescriptorIds) := by
      rw [← houtcomes, List.map_map]
      rfl
    rw [hevents, successes, List.map_map, List.count_eq_countP, List.count_eq_countP,
      List.countP_map, List.countP_map]
    exact List.countP_congr fun o _ => by simp
  have hprobability : successProbability q (fun o =>
      decide (eventOf snapshot.supportEpoch.supportDescriptorIds (describe o) = item.event)) =
      eventProbability q describe snapshot.supportEpoch.supportDescriptorIds item.event := by
    simp [successProbability, pushforward, eventProbability]
  refine ⟨item.event, List.mem_toFinset.mpr hkey, bounds, ?_, ?_⟩
  · rw [← halpha, ← hbits, ← hcount, ← hlength]
    exact hbounds
  · rw [hprobability, ← hitemLower, ← hitemUpper]
    exact hout

theorem drawProbability_snapshotMisses_le (hexact : ExactBackend platform.gmp value)
    (ids : ConfidenceIds)
    (hepoch : epoch.supportDescriptorIds.Nodup) (hq : ∀ o, 0 ≤ q o) (hsum : ∑ o, q o = 1)
    (describe : Ω → OpaqueOutcomeDescriptor) (N : ℕ) :
    drawProbability q N (fun ω => ∃ n ≤ N,
      SnapshotMisses platform ids epoch q describe n ω) ≤ rowEpochBeta := by
  classical
  set misses : PartialSupportEvent → List Ω → Prop := fun event ω => ∃ n ≤ N,
    SuccessMisses platform (rowEpochBeta / epoch.eventCount) boundaryGridBits q
      (fun o => eventOf epoch.supportDescriptorIds (describe o) = event) n ω with hmisses
  have hm : (0 : ℚ) < epoch.eventCount := by
    exact_mod_cast show 0 < epoch.eventCount by simp [SupportEpoch.eventCount]
  have hm1 : (1 : ℚ) ≤ epoch.eventCount := by exact_mod_cast hm
  have halpha : 0 < rowEpochBeta / epoch.eventCount ∧ rowEpochBeta / epoch.eventCount < 1 := by
    rw [rowEpochBeta]
    refine ⟨by positivity, ?_⟩
    rw [div_lt_one hm]
    linarith
  have hcard : epoch.eventKeys.toFinset.card = epoch.eventCount := by
    have hnodup : epoch.eventKeys.Nodup := nodup_supportEvents hepoch
    rw [List.toFinset_card_of_nodup hnodup, length_eventKeys]
  calc drawProbability q N (fun ω => ∃ n ≤ N, SnapshotMisses platform ids epoch q describe n ω)
      ≤ drawProbability q N (fun ω => ∃ event ∈ epoch.eventKeys.toFinset, misses event ω) := by
        refine drawProbability_mono hq ?_
        rintro ω rfl ⟨n, hn, h⟩
        obtain ⟨event, hevent, h⟩ := exists_successMisses hn hepoch hsum h
        exact ⟨event, hevent, n, hn, h⟩
    _ ≤ ∑ event ∈ epoch.eventKeys.toFinset, drawProbability q N (misses event) := by
        have hunion := probability_exists_le (n := N) epoch.eventKeys.toFinset hq misses
        simpa only [drawProbability_eq] using hunion
    _ ≤ ∑ _event ∈ epoch.eventKeys.toFinset, ((rowEpochBeta / epoch.eventCount : ℚ) : ℝ) :=
        Finset.sum_le_sum fun event _ =>
          drawProbability_misses_le hexact hq hsum halpha (by decide) _ N
    _ = rowEpochBeta := by
        rw [Finset.sum_const, hcard, nsmul_eq_mul]
        have hne : (epoch.eventCount : ℚ) ≠ 0 := hm.ne'
        exact_mod_cast mul_div_cancel₀ rowEpochBeta hne

/-- For every constructed epoch the event counts add up to the draws, the intervals straddle a
distribution (with the native backend, at each registered checkpoint) and a snapshot of a valid
prefix is built; and for every law of the outcomes, some snapshot on the first draws misses the true
event probabilities with probability at most the budget of the row. -/
theorem joint_simplex_feasible_and_covers (hexact : ExactBackend platform.gmp value)
    (ids : ConfidenceIds) (epoch : SupportEpoch) (hepoch : epoch.check ids = .ok ()) :
    (∀ validation counts novel,
      countsAndNovel epoch.supportDescriptorIds validation.observations = .ok (counts, novel) →
      counts.length = epoch.eventCount ∧ counts.sum = validation.selectedCheckpointDrawCount ∧
      ((platform.gmp = none ∨ ∃ (profile : PartialSupportConfidenceProfile)
          (purpose : ConfidenceEpochPurpose),
          validation.selectedCheckpointDrawCount ∈ profile.checkpointsFor purpose) →
        ∀ sequential, ∃ events,
          expectedEvents platform ids epoch validation sequential = .ok events ∧
          events.map PartialSupportEventInterval.event = epoch.eventKeys ∧
          events.map PartialSupportEventInterval.successCount = counts ∧
          (events.map PartialSupportEventInterval.lowerProbability).sum ≤ 1 ∧
          1 ≤ (events.map PartialSupportEventInterval.upperProbability).sum ∧
          ∀ item ∈ events, 0 ≤ item.lowerProbability ∧
            item.lowerProbability ≤ item.upperProbability ∧ item.upperProbability ≤ 1)) ∧
    (∀ observations given validation,
      ValidationPrefix.make (ids.row epoch.fields.rowBinding) (ids.supportEpoch epoch)
        epoch.fields.supportEpochChainId epoch.fields.validationStreamId observations.length
        observations = .ok validation →
      validateEpochAndPrefix ids epoch validation
        (given.getD v0072PartialSupportConfidenceProfile) = .ok () →
      DistinctEventIds platform ids epoch validation →
      ∃ snapshot,
        buildPartialSupportConfidenceSnapshot platform ids epoch observations given =
          .ok snapshot) ∧
    ∀ (Ω : Type) [Fintype Ω] (q : Ω → ℝ) (describe : Ω → OpaqueOutcomeDescriptor),
      (∀ o, 0 ≤ q o) → ∑ o, q o = 1 → ∀ N, drawProbability q N (fun ω => ∃ n ≤ N,
        SnapshotMisses platform ids epoch q describe n ω) ≤ rowEpochBeta := by
  have hnodup := SupportEpoch.support_nodup hepoch
  refine ⟨?_, fun observations given validation => build_returns hexact hnodup,
    fun Ω _ q describe hq hsum N =>
      drawProbability_snapshotMisses_le hexact ids hnodup hq hsum describe N⟩
  intro validation counts novel hcounted
  have hcounts := countsAndNovel_counts hcounted
  have hle : ∀ event, eventCounts epoch.supportDescriptorIds validation.observations event ≤
      validation.selectedCheckpointDrawCount := by
    intro event
    rw [validation.complete.2]
    exact List.count_le_length.trans_eq (List.length_map _)
  refine ⟨?_, ?_, fun hword sequential => ?_⟩
  · rw [hcounts, List.length_map]
    exact length_eventKeys epoch
  · rw [hcounts]
    exact sum_counts hnodup validation
  · obtain ⟨events, hevents⟩ := eventIntervals_returns hexact ids sequential
      (hword.imp_right fun ⟨_, _, hmem⟩ => checkpointsFor_lt hmem) hle
    have hmeasures := eventIntervals_measures hevents
    refine ⟨events, (expectedEvents_eq hcounted).trans hevents, hmeasures.keys, ?_,
      hmeasures.feasible validation.complete.1 (sum_counts hnodup validation)⟩
    rw [hcounts]
    calc events.map PartialSupportEventInterval.successCount
        = events.map (eventCounts epoch.supportDescriptorIds validation.observations ∘
            PartialSupportEventInterval.event) := List.map_congr_left hmeasures.successCount
      _ = _ := by rw [← List.map_map, hmeasures.keys]; rfl

/-- Of 8192 draws half are of the discovered descriptor, and half of another one. -/
theorem joint_simplex_feasible_and_covers_sample : ∃ epoch snapshot events,
    freezeInitialSupportEpoch sampleIds sampleRow .newChild (ContentId.ofNat 3)
      (ContentId.ofNat 4) [sampleObservation] (ContentId.ofNat 7) (ContentId.ofNat 8) none =
        .ok epoch ∧
    buildPartialSupportConfidenceSnapshot exactPlatform sampleIds epoch
      (sampleDraws 7 8 10 8192) none = .ok snapshot ∧
    expectedEvents exactPlatform sampleIds epoch snapshot.validationPrefix
      snapshot.sequentialProfile = .ok events ∧
    (events.map PartialSupportEventInterval.successCount).sum = 8192 ∧
    (events.map PartialSupportEventInterval.lowerProbability).sum ≤ 1 ∧
    1 ≤ (events.map PartialSupportEventInterval.upperProbability).sum ∧
    drawProbability (fun _ : Bool => (1 / 2 : ℝ)) 8192 (fun ω => ∃ n ≤ 8192,
      SnapshotMisses exactPlatform sampleIds epoch (fun _ => 1 / 2)
        (fun b => ⟨ContentId.ofNat (if b then 6 else 9), []⟩) n ω) ≤ rowEpochBeta := by
  obtain ⟨epoch, hepoch, hfields⟩ := freeze_sample
  have hcheck := check_of_freeze hepoch
  obtain ⟨hevents, -, hcovers⟩ :=
    joint_simplex_feasible_and_covers exactPlatform_exact sampleIds epoch hcheck
  obtain ⟨snapshot, hbuild⟩ := build_freeze_sample hfields (SupportEpoch.support_nodup hcheck)
  obtain ⟨hcomputed, rfl, hobservations⟩ := build_computed hbuild
  have hlength : snapshot.validationPrefix.selectedCheckpointDrawCount = 8192 := by
    rw [snapshot.validationPrefix.complete.2, hobservations, sampleDraws, List.length_map,
      List.length_range]
  obtain ⟨-, hsum, hfeasible⟩ := hevents _ _ _ hcomputed.counted
  obtain ⟨events, hexpected, -, hcounts, hlower, hupper, -⟩ :=
    hfeasible (.inr ⟨v0072PartialSupportConfidenceProfile, .newChild, by rw [hlength]; decide⟩)
      snapshot.sequentialProfile
  exact ⟨_, snapshot, events, hepoch, hbuild, hexpected, by rw [hcounts, hsum, hlength], hlower,
    hupper, hcovers Bool _ _ (by norm_num) (by norm_num) 8192⟩

end Acfqp.Confidence
