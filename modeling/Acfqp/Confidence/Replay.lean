import Acfqp.Confidence.Acquisition
import Acfqp.Confidence.Coverage

/-!
# What the acquisition verifier accepts

Everything in a result is determined by its transcript, its outcome and its poll count, and the
verifier's conditions are conditions on those.
-/

namespace Acfqp.Confidence

open Library SequentialBernoulliAcquisition

variable {Z : Type} {platform : Platform Z} {value : Z → ℤ} {ids : AcquisitionIds}
  {binding : TargetLocalBernoulliRowBinding} {profile : SequentialBernoulliProfile}

/-! ## The intervals of a transcript -/

/-- The interval of the first `n` draws. -/
def intervalAt (platform : Platform Z) (profile : SequentialBernoulliProfile) (draws : List Bool)
    (n : ℕ) : Except PyError AnytimeBernoulliCheckpoint :=
  buildAnytimeBernoulliCheckpoint platform n (successes (draws.take n)) profile

theorem intervalAt_append {draws more : List Bool} {n : ℕ} (h : n ≤ draws.length) :
    intervalAt platform profile (draws ++ more) n = intervalAt platform profile draws n := by
  rw [intervalAt, intervalAt, List.take_append_of_le_length h]

theorem intervalAt_returns (hexact : ExactBackend platform.gmp value)
    (profile : SequentialBernoulliProfile) {draws : List Bool} {n : ℕ} (hn : 0 < n)
    (h : n ≤ draws.length) (hword : platform.gmp = none ∨ n < 2 ^ 64) :
    ∃ checkpoint, intervalAt platform profile draws n = .ok checkpoint := by
  have hs : successes (draws.take n) ≤ n := by
    simpa [h] using successes_le (draws.take n)
  exact buildAnytimeBernoulliCheckpoint_returns hexact profile hn hs hword

theorem intervalAt_pos {draws : List Bool} {n : ℕ} {checkpoint : AnytimeBernoulliCheckpoint}
    (h : intervalAt platform profile draws n = .ok checkpoint) : 0 < n := by
  obtain ⟨mass, hmass, -⟩ := bind_eq_ok.mp h
  exact (betaBinomialSequenceMass_eq_ok.mp hmass).1.1

/-- The width of the interval of the first `n` draws satisfies a test. -/
def WidthAt (platform : Platform Z) (profile : SequentialBernoulliProfile) (draws : List Bool)
    (n : ℕ) (test : ℚ → Prop) : Prop :=
  ∃ checkpoint, intervalAt platform profile draws n = .ok checkpoint ∧
    test checkpoint.intervalWidth

/-- The interval of the first `n` draws is still too wide. -/
abbrev WideAt (platform : Platform Z) (profile : SequentialBernoulliProfile)
    (draws : List Bool) (n : ℕ) : Prop :=
  WidthAt platform profile draws n (targetWidth profile < ·)

/-- The interval of the first `n` draws is narrow enough. -/
abbrev NarrowAt (platform : Platform Z) (profile : SequentialBernoulliProfile)
    (draws : List Bool) (n : ℕ) : Prop :=
  WidthAt platform profile draws n (· ≤ targetWidth profile)

theorem WideAt.not_narrowAt {draws : List Bool} {n : ℕ}
    (h : WideAt platform profile draws n) : ¬ NarrowAt platform profile draws n := by
  obtain ⟨c, hc, hwide⟩ := h
  rintro ⟨c', hc', hnarrow⟩
  obtain rfl : c = c' := Except.ok.inj (hc.symm.trans hc')
  exact absurd hwide (not_lt.mpr hnarrow)

/-! ## The schedule -/

/-- The expected checkpoints are the scheduled ones before the end, and the end. -/
theorem expectedCheckpointDrawCounts_eq (n : ℕ) (profile : SequentialBernoulliProfile) :
    expectedCheckpointDrawCounts n profile =
      profile.checkpoints.filter (· < n) ++ if n = 0 then [] else [n] := by
  have hsplit : ∀ l : List ℕ, l.Pairwise (· < ·) →
      l.filter (· ≤ n) = l.filter (· < n) ++ if n ∈ l then [n] else [] := by
    intro l hl
    induction l with
    | nil => simp
    | cons m l ih =>
      obtain ⟨hm, hl⟩ := List.pairwise_cons.mp hl
      have := ih hl
      rcases lt_trichotomy m n with hlt | rfl | hgt
      · simp [hlt, hlt.le, this, hlt.ne']
      · have hle : l.filter (· ≤ m) = [] := by
          rw [List.filter_eq_nil_iff]
          exact fun k hk => by simpa using hm k hk
        have hlt : l.filter (· < m) = [] := by
          rw [List.filter_eq_nil_iff]
          exact fun k hk => by simpa using (hm k hk).le
        simp [hle, hlt]
      · have hmem : n ∉ l := fun hn => absurd (hm n hn) (by omega)
        simp [this, hgt.not_ge, hgt.not_gt, hgt.ne, hmem]
  have hall := hsplit _ profile.checkpoints_increasing
  unfold expectedCheckpointDrawCounts
  dsimp only
  rcases Nat.eq_zero_or_pos n with rfl | hn
  · have hzero : (0 : ℕ) ∉ profile.checkpoints := fun h =>
      absurd (profile.checkpoints_pos 0 h) (lt_irrefl 0)
    simpa [hzero] using hall
  · rw [hall]
    by_cases hmem : n ∈ profile.checkpoints
    · simp [hmem, hn.ne']
    · have hlast : ¬ (n = 0 ∨
          (profile.checkpoints.filter (· < n) ++ []).getLast? = some n) := by
        rintro (h | h)
        · exact hn.ne' h
        · have := List.mem_of_getLast? h
          simp at this
      rw [if_neg hmem, if_neg hlast, if_neg hn.ne', List.append_nil]

theorem expectedCheckpointDrawCounts_increasing (n : ℕ) (profile : SequentialBernoulliProfile) :
    (0 :: expectedCheckpointDrawCounts n profile).Pairwise (· ≤ ·) := by
  have hscheduled : (profile.checkpoints.filter (· < n)).Pairwise (· ≤ ·) :=
    (profile.checkpoints_increasing.filter _).imp le_of_lt
  rw [expectedCheckpointDrawCounts_eq, List.pairwise_cons]
  refine ⟨fun _ _ => Nat.zero_le _, ?_⟩
  split
  · simpa using hscheduled
  · refine List.pairwise_append.mpr ⟨hscheduled, List.pairwise_singleton _ _, fun m hm k hk => ?_⟩
    rw [List.mem_singleton.mp hk]
    have hlt : m < n := by simpa using (List.mem_filter.mp hm).2
    exact hlt.le

theorem maxDraws_mem : profile.maxDraws ∈ profile.checkpoints := List.getLast_mem _

theorem le_maxDraws {n : ℕ} (h : n ∈ profile.checkpoints) : n ≤ profile.maxDraws := by
  have hdrop := profile.checkpoints.dropLast_append_getLast profile.checkpoints_ne_nil
  have hincreasing := profile.checkpoints_increasing
  rw [← hdrop] at h hincreasing
  rcases List.mem_append.mp h with h | h
  · exact ((List.pairwise_append.mp hincreasing).2.2 n h _ (List.mem_singleton.mpr rfl)).le
  · rw [List.mem_singleton.mp h]
    exact le_rfl

theorem replayCheckpoints_eq (draws : List Bool) (counts : List ℕ) (cursor : ℕ)
    (hincreasing : (cursor :: counts).Pairwise (· ≤ ·)) :
    replayCheckpoints platform profile draws (successes (draws.take cursor)) cursor counts =
      counts.mapM (intervalAt platform profile draws) := by
  induction counts generalizing cursor with
  | nil => rfl
  | cons n counts ih =>
    obtain ⟨hcursor, hrest⟩ := List.pairwise_cons.mp hincreasing
    have hn : cursor ≤ n := hcursor n (by simp)
    have hcount : successes (draws.take cursor) + ((draws.take n).drop cursor).count true =
        successes (draws.take n) := by
      calc successes (draws.take cursor) + ((draws.take n).drop cursor).count true
          = successes ((draws.take n).take cursor) + successes ((draws.take n).drop cursor) := by
            rw [List.take_take, min_eq_left hn, successes]
            rfl
        _ = successes (draws.take n) := by
            rw [← successes_append, List.take_append_drop]
    rw [replayCheckpoints, List.mapM_cons]
    simp only [hcount, ih n hrest]
    rfl

/-! ## What the verifier recomputes -/

theorem intervalAt_drawCount {draws : List Bool} {n : ℕ} {checkpoint : AnytimeBernoulliCheckpoint}
    (h : intervalAt platform profile draws n = .ok checkpoint) : checkpoint.drawCount = n :=
  (buildAnytimeBernoulliCheckpoint_bounds h).choose_spec.2.1

/-- The checkpoints of a nonempty transcript: those before its end, and the one at its end. -/
theorem checkpoints_eq_ok {draws : List Bool} (hne : draws ≠ [])
    {checkpoints : List AnytimeBernoulliCheckpoint} :
    (expectedCheckpointDrawCounts draws.length profile).mapM
        (intervalAt platform profile draws) = .ok checkpoints ↔
      ∃ earlier final, (profile.checkpoints.filter (· < draws.length)).mapM
          (intervalAt platform profile draws) = .ok earlier ∧
        intervalAt platform profile draws draws.length = .ok final ∧
        checkpoints = earlier ++ [final] := by
  rw [expectedCheckpointDrawCounts_eq, if_neg (by simpa using hne), mapM_append_singleton]

/-- Everything in a result that the transcript determines. -/
structure Recorded (platform : Platform Z) (draws : List Bool)
    (result : SequentialBernoulliAcquisition) : Prop where
  packs : Packs result.packedDraws draws
  drawCount_eq : result.drawCount = draws.length
  successCount_eq : result.successCount = successes draws
  checkpoints_eq : (expectedCheckpointDrawCounts draws.length result.profile).mapM
    (intervalAt platform result.profile draws) = .ok result.checkpoints
  counters_eq : counters draws.length result.counters.sourcePollCalls result.checkpoints =
    .ok result.counters

theorem counters_eq_ok {n polls : ℕ} {checkpoints : List AnytimeBernoulliCheckpoint}
    {counted : SequentialBernoulliCounters} (h : counters n polls checkpoints = .ok counted) :
    n ≤ polls ∧ counted.targetDrawCalls = n ∧ counted.sourcePollCalls = polls ∧
      counted.checkpointEvaluations = checkpoints.length ∧
      counted.exactLikelihoodComparisons =
        (checkpoints.map AnytimeBernoulliCheckpoint.exactLikelihoodComparisons).sum ∧
      counted.logSearchEvaluations =
        (checkpoints.map AnytimeBernoulliCheckpoint.logSearchEvaluations).sum := by
  unfold counters at h
  split at h
  next hle =>
    cases h
    exact ⟨hle, rfl, rfl, rfl, rfl, rfl⟩
  next => cases h

theorem counters_returns {n polls : ℕ} (h : n ≤ polls)
    (checkpoints : List AnytimeBernoulliCheckpoint) :
    ∃ counted, counters n polls checkpoints = .ok counted := ⟨_, dif_pos h⟩

theorem mem_expectedCheckpointDrawCounts {n m : ℕ} :
    m ∈ expectedCheckpointDrawCounts n profile ↔
      (m ∈ profile.checkpoints ∧ m < n) ∨ (m = n ∧ n ≠ 0) := by
  rw [expectedCheckpointDrawCounts_eq]
  by_cases hn : n = 0 <;> simp [hn]

namespace Recorded

variable {draws : List Bool} {result : SequentialBernoulliAcquisition}

theorem checkpoints_nil (h : Recorded platform [] result) : result.checkpoints = [] := by
  have := h.checkpoints_eq
  rw [List.length_nil, expectedCheckpointDrawCounts_eq] at this
  simpa using this

/-- Every interval that a result records was found. -/
theorem exists_interval (h : Recorded platform draws result) {n : ℕ}
    (hn : n ∈ expectedCheckpointDrawCounts draws.length result.profile) :
    ∃ checkpoint, intervalAt platform result.profile draws n = .ok checkpoint := by
  obtain ⟨checkpoint, -, hcheckpoint⟩ := exists_of_mapM h.checkpoints_eq hn
  exact ⟨checkpoint, hcheckpoint⟩

/-- The last interval of a result is that of its whole transcript. -/
theorem finalWidth_iff (h : Recorded platform draws result) {test : ℚ → Prop} :
    result.FinalWidth test ↔ WidthAt platform result.profile draws draws.length test := by
  unfold FinalWidth finalCheckpoint WidthAt
  rcases eq_or_ne draws [] with rfl | hne
  · constructor
    · rintro ⟨final, hfinal, -⟩
      rw [h.checkpoints_nil] at hfinal
      cases hfinal
    · rintro ⟨final, hfinal, -⟩
      exact absurd (intervalAt_pos hfinal) (lt_irrefl 0)
  · obtain ⟨earlier, final, -, hfinal, hcheckpoints⟩ := (checkpoints_eq_ok hne).mp h.checkpoints_eq
    simp [hcheckpoints, hfinal]

/-- The check of the earlier intervals of a result is one of its transcript. -/
theorem earlier_iff (h : Recorded platform draws result) :
    (∀ item ∈ result.checkpoints.dropLast, item.drawCount ∈ result.profile.checkpoints →
        ¬ item.intervalWidth ≤ targetWidth result.profile) ↔
      ∀ n ∈ result.profile.checkpoints, n < draws.length →
        WideAt platform result.profile draws n := by
  rcases eq_or_ne draws [] with rfl | hne
  · simp [h.checkpoints_nil]
  · obtain ⟨earlier, final, hearlier, -, hcheckpoints⟩ :=
      (checkpoints_eq_ok hne).mp h.checkpoints_eq
    rw [hcheckpoints, List.dropLast_concat]
    constructor
    · intro hwide n hn hlt
      obtain ⟨item, hitem, hinterval⟩ := exists_of_mapM hearlier (List.mem_filter.mpr
        ⟨hn, by simpa using hlt⟩)
      refine ⟨item, hinterval, not_le.mp (hwide item hitem ?_)⟩
      rwa [intervalAt_drawCount hinterval]
    · intro hwide item hitem _
      obtain ⟨n, hn, hinterval⟩ := mem_of_mapM hearlier hitem
      obtain ⟨hn, hlt⟩ := List.mem_filter.mp hn
      obtain ⟨item', hinterval', hwidth⟩ := hwide n hn (by simpa using hlt)
      obtain rfl : item = item' := Except.ok.inj (hinterval.symm.trans hinterval')
      exact not_le.mpr hwidth

end Recorded

/-! ## The stopping conditions of the verifier -/

/-- The condition on the end of the transcript, for each outcome. -/
def StopsWith (platform : Platform Z) (profile : SequentialBernoulliProfile) (draws : List Bool)
    (sourcePollCalls : ℕ) : SequentialBernoulliOutcome → Prop
  | .certifiedTargetLocalInterval =>
    draws.length ∈ profile.checkpoints ∧ NarrowAt platform profile draws draws.length ∧
      sourcePollCalls = draws.length
  | .capExhausted =>
    draws.length = profile.maxDraws ∧ WideAt platform profile draws draws.length ∧
      sourcePollCalls = draws.length
  | .sourceExhausted =>
    draws.length < profile.maxDraws ∧ sourcePollCalls = draws.length + 1

/-- What the verifier asks of a result that records a transcript. -/
structure Stops (platform : Platform Z) (draws : List Bool)
    (result : SequentialBernoulliAcquisition) : Prop where
  within : draws.length ≤ result.profile.maxDraws
  earlier : ∀ n ∈ result.profile.checkpoints, n < draws.length →
    WideAt platform result.profile draws n
  stopped : StopsWith platform result.profile draws result.counters.sourcePollCalls result.outcome

theorem Recorded.check_iff {draws : List Bool} {result : SequentialBernoulliAcquisition}
    (h : Recorded platform draws result) :
    check result = .ok () ↔ Stops platform draws result := by
  obtain ⟨-, htarget, -, hevaluations, hcomparisons, hsearches⟩ := counters_eq_ok h.counters_eq
  have hcounts : result.checkpoints.map AnytimeBernoulliCheckpoint.drawCount =
      expectedCheckpointDrawCounts result.drawCount result.profile := by
    rw [map_of_mapM h.checkpoints_eq fun n _ c hc => intervalAt_drawCount hc, List.map_id',
      h.drawCount_eq]
  have hunpack : unpackDraws result.packedDraws result.drawCount = .ok draws :=
    unpackDraws_eq_ok.mpr ⟨h.drawCount_eq.symm, h.packs⟩
  have hsuccesses : result.successCount ≤ result.drawCount := by
    rw [h.successCount_eq, h.drawCount_eq]
    exact successes_le draws
  have hwidth : ∀ test : ℚ → Prop, result.FinalWidth test ↔
      WidthAt platform result.profile draws draws.length test := fun _ => h.finalWidth_iff
  have hshape : (result.drawCount ≤ result.profile.maxDraws ∧
      result.successCount ≤ result.drawCount ∧
      result.checkpoints.map AnytimeBernoulliCheckpoint.drawCount =
        expectedCheckpointDrawCounts result.drawCount result.profile ∧
      result.counters.targetDrawCalls = result.drawCount ∧
      result.counters.checkpointEvaluations = result.checkpoints.length ∧
      result.counters.exactLikelihoodComparisons =
        (result.checkpoints.map AnytimeBernoulliCheckpoint.exactLikelihoodComparisons).sum ∧
      result.counters.logSearchEvaluations =
        (result.checkpoints.map AnytimeBernoulliCheckpoint.logSearchEvaluations).sum) ↔
      draws.length ≤ result.profile.maxDraws := by
    rw [← h.drawCount_eq] at htarget ⊢
    exact ⟨fun hshape => hshape.1, fun hle =>
      ⟨hle, hsuccesses, hcounts, htarget, hevaluations, hcomparisons, hsearches⟩⟩
  constructor
  · intro hcheck
    obtain ⟨_, hle, hcheck⟩ := bind_eq_ok.mp hcheck
    obtain ⟨_, -, hcheck⟩ := bind_eq_ok.mp hcheck
    obtain ⟨_, -, hcheck⟩ := bind_eq_ok.mp hcheck
    obtain ⟨_, hearlier, hstop⟩ := bind_eq_ok.mp hcheck
    refine ⟨hshape.mp (require_eq_ok.mp hle), h.earlier_iff.mp (require_eq_ok.mp hearlier), ?_⟩
    cases houtcome : result.outcome <;>
      simpa only [houtcome, StopsWith, require_eq_ok, hwidth, h.drawCount_eq] using hstop
  · rintro ⟨hle, hearlier, hstop⟩
    refine bind_eq_ok.mpr ⟨(), require_eq_ok.mpr (hshape.mpr hle), bind_eq_ok.mpr ⟨draws, hunpack,
      bind_eq_ok.mpr ⟨(), require_eq_ok.mpr h.successCount_eq.symm, bind_eq_ok.mpr
        ⟨(), require_eq_ok.mpr (h.earlier_iff.mpr hearlier), ?_⟩⟩⟩⟩
    cases houtcome : result.outcome <;>
      simpa only [houtcome, StopsWith, require_eq_ok, hwidth, h.drawCount_eq] using hstop

theorem replayCheckpoints_expected (draws : List Bool) :
    replayCheckpoints platform profile draws 0 0
        (expectedCheckpointDrawCounts draws.length profile) =
      (expectedCheckpointDrawCounts draws.length profile).mapM
        (intervalAt platform profile draws) :=
  replayCheckpoints_eq draws _ 0 (expectedCheckpointDrawCounts_increasing _ _)

/-! ## The rendered integers -/

def WithinCeiling (k : ℤ) : Prop :=
  (Nat.toDigits 10 k.natAbs).length ≤ Encoding.maxCanonicalIntegerDecimalDigits

theorem contentId_eq_ok {integers : List ℤ} {digest id : ContentId} :
    contentId integers digest = .ok id ↔ (∀ k ∈ integers, WithinCeiling k) ∧ id = digest := by
  have hrender : (∃ texts, integers.mapM Encoding.unlimitedDecimalInteger = .ok texts) ↔
      ∀ k ∈ integers, WithinCeiling k := by
    constructor
    · rintro ⟨texts, htexts⟩ k hk
      obtain ⟨text, -, htext⟩ := exists_of_mapM htexts hk
      exact (Encoding.unlimitedDecimalInteger_eq_ok.mp htext).1
    · exact fun h => mapM_returns fun k hk =>
        ⟨_, Encoding.unlimitedDecimalInteger_eq_ok.mpr ⟨h k hk, rfl⟩⟩
  rw [← hrender, contentId]
  cases integers.mapM Encoding.unlimitedDecimalInteger with
  | ok texts => simp [eq_comm]
  | error e => cases e <;> simp

/-- Every integer of a result's documents is within the ceiling. -/
def Renders (result : SequentialBernoulliAcquisition) : Prop :=
  ∀ k ∈ result.profile.payload ++ result.identityPayload, WithinCeiling k

variable (ids) in
theorem bindingId_returns (binding : TargetLocalBernoulliRowBinding) :
    ∃ id, ids.bindingId binding = .ok id :=
  ⟨_, contentId_eq_ok.mpr ⟨by simp [WithinCeiling, Encoding.maxCanonicalIntegerDecimalDigits], rfl⟩⟩

variable (ids) in
theorem acquisitionId_returns_iff {result : SequentialBernoulliAcquisition} :
    (∃ id, ids.acquisitionId result = .ok id) ↔ Renders result := by
  obtain ⟨bindingId, hbinding⟩ := bindingId_returns ids result.binding
  simp only [AcquisitionIds.acquisitionId, bind_eq_ok, hbinding, AcquisitionIds.profileId,
    contentId_eq_ok, Renders, List.mem_append, or_imp, forall_and]
  constructor
  · rintro ⟨_, _, -, _, ⟨hprofile, -⟩, hresult, -⟩
    exact ⟨hprofile, hresult⟩
  · rintro ⟨hprofile, hresult⟩
    exact ⟨_, _, rfl, _, ⟨hprofile, rfl⟩, hresult, rfl⟩

/-- The verifier accepts exactly the results that record a transcript and stop with it, and whose
integers are all rendered. -/
theorem verify_iff {result : SequentialBernoulliAcquisition} :
    (∃ v, verifySequentialBernoulliAcquisition platform ids result = .ok v) ↔
      Renders result ∧ ∃ draws, Recorded platform draws result ∧ Stops platform draws result := by
  constructor
  · rintro ⟨v, h⟩
    obtain ⟨draws, hunpack, h⟩ := bind_eq_ok.mp h
    obtain ⟨_, hsuccesses, h⟩ := bind_eq_ok.mp h
    obtain ⟨replayed, hreplayed, h⟩ := bind_eq_ok.mp h
    obtain ⟨_, hcheckpoints, h⟩ := bind_eq_ok.mp h
    obtain ⟨counted, hcounted, h⟩ := bind_eq_ok.mp h
    obtain ⟨_, hcounters, h⟩ := bind_eq_ok.mp h
    obtain ⟨replayResult, hmake, h⟩ := bind_eq_ok.mp h
    obtain ⟨_, -, h⟩ := bind_eq_ok.mp h
    obtain ⟨acquisitionId, hid, -⟩ := bind_eq_ok.mp h
    obtain ⟨hlength, hpacks⟩ := unpackDraws_eq_ok.mp hunpack
    obtain rfl := require_eq_ok.mp hcheckpoints
    obtain rfl := require_eq_ok.mp hcounters
    rw [← hlength] at hreplayed hcounted
    have hrecorded : Recorded platform draws result :=
      ⟨hpacks, hlength.symm, (require_eq_ok.mp hsuccesses).symm,
        by rw [← replayCheckpoints_expected, hreplayed], hcounted⟩
    obtain ⟨_, hcheck, -⟩ := bind_eq_ok.mp hmake
    exact ⟨(acquisitionId_returns_iff ids).mp ⟨_, hid⟩, draws, hrecorded,
      hrecorded.check_iff.mp hcheck⟩
  · rintro ⟨hrenders, draws, hrecorded, hstops⟩
    have hunpack : unpackDraws result.packedDraws result.drawCount = .ok draws :=
      unpackDraws_eq_ok.mpr ⟨hrecorded.drawCount_eq.symm, hrecorded.packs⟩
    have hreplayed := hrecorded.checkpoints_eq
    have hcounted := hrecorded.counters_eq
    rw [← replayCheckpoints_expected] at hreplayed
    rw [← hrecorded.drawCount_eq] at hreplayed hcounted
    obtain ⟨acquisitionId, hid⟩ := (acquisitionId_returns_iff ids).mpr hrenders
    obtain ⟨bindingId, hbinding⟩ := bindingId_returns ids result.binding
    have hprofile : ids.profileId result.profile = .ok (ids.profile result.profile) :=
      contentId_eq_ok.mpr ⟨fun k hk => hrenders k (List.mem_append_left _ hk), rfl⟩
    refine ⟨_, bind_eq_ok.mpr ⟨draws, hunpack, bind_eq_ok.mpr
      ⟨(), require_eq_ok.mpr hrecorded.successCount_eq.symm, bind_eq_ok.mpr
      ⟨result.checkpoints, hreplayed, bind_eq_ok.mpr ⟨(), require_eq_ok.mpr rfl, bind_eq_ok.mpr
      ⟨result.counters, hcounted, bind_eq_ok.mpr ⟨(), require_eq_ok.mpr rfl, bind_eq_ok.mpr
      ⟨result, bind_eq_ok.mpr ⟨(), hrecorded.check_iff.mpr hstops, rfl⟩, bind_eq_ok.mpr
      ⟨acquisitionId, hid, bind_eq_ok.mpr ⟨acquisitionId, hid, bind_eq_ok.mpr
      ⟨(), require_eq_ok.mpr rfl, bind_eq_ok.mpr ⟨bindingId, hbinding, bind_eq_ok.mpr
      ⟨_, hprofile, rfl⟩⟩⟩⟩⟩⟩⟩⟩⟩⟩⟩⟩⟩

end Acfqp.Confidence
