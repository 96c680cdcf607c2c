import Acfqp.Confidence.Replay

/-!
# Acquisition against replay

The acquirer's loop and the verifier's structural conditions describe the same stopping rule, except
that the verifier does not look at the last interval of a source that ended on a checkpoint.
-/

namespace Acfqp.Confidence

open Library SequentialBernoulliAcquisition

variable {Z : Type} {platform : Platform Z} {value : Z → ℤ}
  {binding : TargetLocalBernoulliRowBinding}
  {profile : SequentialBernoulliProfile}

/-! ## The runs of the acquirer -/

/-- The source yields these draws before anything else. -/
def Yields (source : ℕ → Option Bool) (draws : List Bool) : Prop :=
  ∀ k (h : k < draws.length), source k = some draws[k]

theorem yields_append {source : ℕ → Option Bool} {draws : List Bool} {draw : Bool} :
    Yields source (draws ++ [draw]) ↔ Yields source draws ∧ source draws.length = some draw := by
  unfold Yields
  grind

/-- The condition on the end of a run, for each outcome. -/
def EndsWith (platform : Platform Z) (profile : SequentialBernoulliProfile)
    (source : ℕ → Option Bool) (draws : List Bool) : SequentialBernoulliOutcome → Prop
  | .certifiedTargetLocalInterval =>
    draws.length ∈ profile.checkpoints ∧ NarrowAt platform profile draws draws.length
  | .capExhausted =>
    draws.length = profile.maxDraws ∧ WideAt platform profile draws draws.length
  | .sourceExhausted =>
    draws.length < profile.maxDraws ∧ source draws.length = none ∧
      (draws.length ∈ profile.checkpoints → WideAt platform profile draws draws.length)

/-- What a run of the acquirer leaves. -/
structure Acquired (platform : Platform Z) (source : ℕ → Option Bool) (draws : List Bool)
    (result : SequentialBernoulliAcquisition) : Prop where
  recorded : Recorded platform draws result
  stops : Stops platform draws result
  yields : Yields source draws
  ends : EndsWith platform result.profile source draws result.outcome

/-- What the loop has observed is the first draws of the source. -/
structure Reads (source : ℕ → Option Bool) (observed : Observed) : Prop where
  yields : Yields source observed.draws
  successCount_eq : observed.successCount = successes observed.draws

/-- What polling a number of draws leaves, and whether the source ended. -/
structure Polled (source : ℕ → Option Bool) (observed : Observed) (missing : ℕ)
    (found : Observed × Bool) : Prop where
  reads : Reads source found.1
  checkpoints_eq : found.1.checkpoints = observed.checkpoints
  draws_eq : ∃ more, found.1.draws = observed.draws ++ more
  ended : found.2 = true → found.1.draws.length < observed.draws.length + missing ∧
    source found.1.draws.length = none ∧ found.1.sourcePollCalls = found.1.draws.length + 1
  continued : found.2 = false → found.1.draws.length = observed.draws.length + missing ∧
    found.1.sourcePollCalls = found.1.draws.length

theorem poll_spec {source : ℕ → Option Bool} (missing : ℕ) {observed : Observed}
    (h : Reads source observed) (hpolls : observed.sourcePollCalls = observed.draws.length) :
    Polled source observed missing (poll source observed missing) := by
  induction missing generalizing observed with
  | zero => exact ⟨h, rfl, ⟨[], by simp [poll]⟩, by simp [poll], by simp [poll, hpolls]⟩
  | succ missing ih =>
    rw [poll, hpolls]
    cases hsource : source observed.draws.length with
    | none =>
      exact ⟨⟨h.yields, h.successCount_eq⟩, rfl, ⟨[], by simp⟩, by simp [hsource], by simp⟩
    | some draw =>
      have hnext : Reads source ⟨observed.draws ++ [draw], observed.checkpoints,
          observed.successCount + if draw then 1 else 0, observed.draws.length + 1⟩ := by
        refine ⟨yields_append.mpr ⟨h.yields, hsource⟩, ?_⟩
        cases draw <;> simp [h.successCount_eq, successes]
      obtain ⟨hreads, hcheckpoints, ⟨more, hdraws⟩, hended, hcontinued⟩ := ih hnext (by simp)
      refine ⟨hreads, hcheckpoints, ⟨draw :: more, by simpa using hdraws⟩, fun htrue => ?_,
        fun hfalse => ?_⟩
      · obtain ⟨hlt, hend⟩ := hended htrue
        exact ⟨by simpa [Nat.add_assoc, Nat.add_comm 1] using hlt, hend⟩
      · obtain ⟨hlength, hend⟩ := hcontinued hfalse
        exact ⟨by simpa [Nat.add_assoc, Nat.add_comm 1] using hlength, hend⟩

/-! ## What a run returns -/

/-- The intervals of the checkpoints `done` have been evaluated, and are all too wide. -/
structure Judged (platform : Platform Z) (profile : SequentialBernoulliProfile) (done : List ℕ)
    (draws : List Bool) (checkpoints : List AnytimeBernoulliCheckpoint) : Prop where
  within : ∀ n ∈ done, n ≤ draws.length
  intervals : done.mapM (intervalAt platform profile draws) = .ok checkpoints
  wide : ∀ n ∈ done, WideAt platform profile draws n

namespace Judged

variable {done : List ℕ} {draws : List Bool} {checkpoints : List AnytimeBernoulliCheckpoint}

theorem append (h : Judged platform profile done draws checkpoints) (more : List Bool) :
    Judged platform profile done (draws ++ more) checkpoints := by
  have hsame : ∀ n ∈ done, intervalAt platform profile (draws ++ more) n =
      intervalAt platform profile draws n := fun n hn => intervalAt_append (h.within n hn)
  refine ⟨fun n hn => (h.within n hn).trans (by simp), ?_, fun n hn => ?_⟩
  · rw [← h.intervals]
    exact mapM_congr hsame
  · unfold WideAt WidthAt
    rw [hsame n hn]
    exact h.wide n hn

theorem drawCounts (h : Judged platform profile done draws checkpoints) :
    checkpoints.map AnytimeBernoulliCheckpoint.drawCount = done := by
  rw [map_of_mapM h.intervals fun n _ c hc => intervalAt_drawCount hc, List.map_id']

/-- One more interval that is too wide. -/
theorem snoc (h : Judged platform profile done draws checkpoints)
    {final : AnytimeBernoulliCheckpoint}
    (hfinal : intervalAt platform profile draws draws.length = .ok final)
    (hwide : ¬ final.intervalWidth ≤ targetWidth profile) :
    Judged platform profile (done ++ [draws.length]) draws (checkpoints ++ [final]) := by
  refine ⟨?_, mapM_append_singleton.mpr ⟨_, _, h.intervals, hfinal, rfl⟩, ?_⟩
  · simpa [or_imp, forall_and] using h.within
  · intro n hn
    rcases List.mem_append.mp hn with hn | hn
    · exact h.wide n hn
    · rw [List.mem_singleton.mp hn]
      exact ⟨final, hfinal, not_le.mp hwide⟩

end Judged

theorem expectedCheckpointDrawCounts_split {done rest : List ℕ} {n : ℕ}
    (hschedule : profile.checkpoints = done ++ rest) (hdone : ∀ m ∈ done, m ≤ n)
    (hrest : ∀ m ∈ rest, n < m) :
    expectedCheckpointDrawCounts n profile =
      if n = 0 ∨ done.getLast? = some n then done else done ++ [n] := by
  have hfilter : profile.checkpoints.filter (· ≤ n) = done := by
    rw [hschedule, List.filter_append, List.filter_eq_self.mpr (by simpa using hdone),
      List.filter_eq_nil_iff.mpr (by simpa using hrest), List.append_nil]
  rw [expectedCheckpointDrawCounts, hfilter]

/-- A result that satisfies the stopping conditions is built. -/
theorem acquisitionResult_returns (binding : TargetLocalBernoulliRowBinding)
    (outcome : SequentialBernoulliOutcome) (observed : Observed) {source : ℕ → Option Bool}
    (hcheckpoints : (expectedCheckpointDrawCounts observed.draws.length profile).mapM
      (intervalAt platform profile observed.draws) = .ok observed.checkpoints)
    (hyields : Yields source observed.draws)
    (hwithin : observed.draws.length ≤ profile.maxDraws)
    (hearlier : ∀ n ∈ profile.checkpoints, n < observed.draws.length →
      WideAt platform profile observed.draws n)
    (hstopped : StopsWith platform profile observed.draws observed.sourcePollCalls outcome)
    (hends : EndsWith platform profile source observed.draws outcome) :
    ∃ result, acquisitionResult binding profile outcome observed = .ok result ∧
      result.binding = binding ∧ result.profile = profile ∧
      Acquired platform source observed.draws result := by
  have hpolls : observed.draws.length ≤ observed.sourcePollCalls := by
    cases outcome <;> simp only [StopsWith] at hstopped <;> omega
  obtain ⟨counted, hcounted⟩ := counters_returns hpolls observed.checkpoints
  obtain ⟨-, -, hcalls, -⟩ := counters_eq_ok hcounted
  let result : SequentialBernoulliAcquisition :=
    ⟨binding, profile, outcome, observed.draws.length, observed.draws.count true,
      packDraws observed.draws, observed.checkpoints, counted⟩
  have hrecorded : Recorded platform observed.draws result :=
    ⟨packs_packDraws _, rfl, rfl, hcheckpoints, by rw [← hcounted, ← hcalls]⟩
  have hstops : Stops platform observed.draws result :=
    ⟨hwithin, hearlier, by rw [← hcalls] at hstopped; exact hstopped⟩
  refine ⟨result, ?_, rfl, rfl, hrecorded, hstops, hyields, hends⟩
  exact bind_eq_ok.mpr ⟨counted, hcounted, bind_eq_ok.mpr
    ⟨(), hrecorded.check_iff.mpr hstops, rfl⟩⟩

theorem evaluateCheckpoint_eq {observed : Observed}
    (h : observed.successCount = successes observed.draws) :
    evaluateCheckpoint platform profile observed =
      intervalAt platform profile observed.draws observed.draws.length := by
  rw [evaluateCheckpoint, intervalAt, List.take_length, h]

/-- The first draws of the source, at a checkpoint or at its end, whose interval is not found. -/
structure Fails (platform : Platform Z) (profile : SequentialBernoulliProfile)
    (source : ℕ → Option Bool) (draws : List Bool) : Prop where
  yields : Yields source draws
  nonempty : draws ≠ []
  within : draws.length ≤ profile.maxDraws
  reached : draws.length ∈ profile.checkpoints ∨ source draws.length = none
  error : ∃ e, intervalAt platform profile draws draws.length = .error e

theorem closeCheckpoints_cases {done rest : List ℕ} {observed : Observed}
    (hschedule : profile.checkpoints = done ++ rest)
    (hjudged : Judged platform profile done observed.draws observed.checkpoints)
    (hrest : ∀ m ∈ rest, observed.draws.length < m)
    (hsuccesses : observed.successCount = successes observed.draws) :
    (∃ checkpoints, closeCheckpoints platform profile observed = .ok checkpoints ∧
      (expectedCheckpointDrawCounts observed.draws.length profile).mapM
        (intervalAt platform profile observed.draws) = .ok checkpoints) ∨
    ∃ e, closeCheckpoints platform profile observed = .error e ∧ observed.draws ≠ [] ∧
      intervalAt platform profile observed.draws observed.draws.length = .error e := by
  rw [expectedCheckpointDrawCounts_split hschedule hjudged.within hrest, closeCheckpoints,
    ← List.getLast?_map, hjudged.drawCounts, evaluateCheckpoint_eq hsuccesses]
  by_cases hclosed : observed.draws.length = 0 ∨ done.getLast? = some observed.draws.length
  · rw [if_pos hclosed, if_neg (by simpa [← or_iff_not_imp_left] using hclosed)]
    exact .inl ⟨_, rfl, hjudged.intervals⟩
  · have hne : observed.draws ≠ [] := fun h => hclosed (.inl (by simp [h]))
    rw [if_neg hclosed, if_pos (by simpa [not_or] using hclosed)]
    cases hfinal : intervalAt platform profile observed.draws observed.draws.length with
    | error e => exact .inr ⟨e, rfl, hne, rfl⟩
    | ok final =>
      exact .inl ⟨_, rfl, mapM_append_singleton.mpr ⟨_, _, hjudged.intervals, hfinal, rfl⟩⟩

/-- The loop is past the checkpoints `done` of the schedule. -/
structure Progress (platform : Platform Z) (profile : SequentialBernoulliProfile)
    (source : ℕ → Option Bool) (done rest : List ℕ) (observed : Observed) : Prop where
  schedule : profile.checkpoints = done ++ rest
  reads : Reads source observed
  polls : observed.sourcePollCalls = observed.draws.length
  length_eq : observed.draws.length = done.getLast?.getD 0
  judged : Judged platform profile done observed.draws observed.checkpoints

theorem Progress.le_of_mem {source : ℕ → Option Bool} {done rest : List ℕ} {observed : Observed}
    (h : Progress platform profile source done rest observed) {n : ℕ} (hn : n ∈ rest) :
    observed.draws.length < n := by
  have hincreasing := profile.checkpoints_increasing
  have hpos := profile.checkpoints_pos
  rw [h.schedule] at hincreasing hpos
  rw [h.length_eq]
  cases hlast : done.getLast? with
  | none => exact hpos n (by simp [hn])
  | some m => exact (List.pairwise_append.mp hincreasing).2.2 m (List.mem_of_getLast? hlast) n hn

theorem acquireFrom_cases {source : ℕ → Option Bool} (rest : List ℕ) {done : List ℕ}
    {observed : Observed} (h : Progress platform profile source done rest observed) :
    (∃ draws result, acquireFrom platform binding profile source observed rest = .ok result ∧
      result.binding = binding ∧ result.profile = profile ∧
      Acquired platform source draws result) ∨
    ∃ e draws, acquireFrom platform binding profile source observed rest = .error e ∧
      Fails platform profile source draws := by
  induction rest generalizing done observed with
  | nil =>
    have hdone : profile.checkpoints = done := by simpa using h.schedule
    have hlast : done.getLast? = some profile.maxDraws := by
      rw [← hdone]
      exact List.getLast?_eq_getLast_of_ne_nil profile.checkpoints_ne_nil
    have hlength : observed.draws.length = profile.maxDraws := by rw [h.length_eq, hlast]; rfl
    have hwide : ∀ n ∈ profile.checkpoints, WideAt platform profile observed.draws n := by
      rw [hdone]
      exact h.judged.wide
    have hexpected : expectedCheckpointDrawCounts observed.draws.length profile = done := by
      rw [expectedCheckpointDrawCounts_split h.schedule h.judged.within (by simp),
        if_pos (.inr (by rw [hlast, hlength]))]
    have hend : WideAt platform profile observed.draws observed.draws.length :=
      hwide _ (by rw [hlength]; exact maxDraws_mem)
    exact .inl ⟨observed.draws, acquisitionResult_returns binding .capExhausted observed
      (by rw [hexpected, h.judged.intervals]) h.reads.yields hlength.le (fun n hn _ => hwide n hn)
      ⟨hlength, hend, h.polls⟩ ⟨hlength, hend⟩⟩
  | cons scheduled rest ih =>
    have hlt : observed.draws.length < scheduled := h.le_of_mem (by simp)
    have hlater : ∀ m ∈ rest, scheduled < m := by
      have hincreasing := profile.checkpoints_increasing
      rw [h.schedule] at hincreasing
      exact (List.pairwise_cons.mp (List.pairwise_append.mp hincreasing).2.1).1
    have hmem : scheduled ∈ profile.checkpoints := by simp [h.schedule]
    obtain ⟨hreads, hcheckpoints, ⟨more, hdraws⟩, hended, hcontinued⟩ :=
      poll_spec (scheduled - observed.draws.length) h.reads h.polls
    rw [acquireFrom]
    generalize poll source observed (scheduled - observed.draws.length) = found at *
    obtain ⟨found, sourceEnded⟩ := found
    dsimp only at *
    have hjudged : Judged platform profile done found.draws found.checkpoints := by
      rw [hdraws, hcheckpoints]
      exact h.judged.append more
    -- every checkpoint before the end of what was polled is one of those already judged
    have hearlier : found.draws.length ≤ scheduled → ∀ n ∈ profile.checkpoints,
        n < found.draws.length → WideAt platform profile found.draws n := by
      intro hle n hn hn'
      rw [h.schedule] at hn
      rcases List.mem_append.mp hn with hn | hn
      · exact hjudged.wide n hn
      · rcases List.mem_cons.mp hn with rfl | hn
        · omega
        · have := hlater n hn
          omega
    cases sourceEnded with
    | true =>
      obtain ⟨hlength, hsource, hpolls⟩ := hended rfl
      have hbefore : found.draws.length < scheduled := by omega
      have hrest : ∀ m ∈ scheduled :: rest, found.draws.length < m := by
        intro m hm
        rcases List.mem_cons.mp hm with rfl | hm
        · exact hbefore
        · exact hbefore.trans (hlater m hm)
      have hmax : found.draws.length < profile.maxDraws := hbefore.trans_le (le_maxDraws hmem)
      obtain ⟨checkpoints, hclose, hintervals⟩ | ⟨e, hclose, hne, herror⟩ :=
        closeCheckpoints_cases h.schedule hjudged hrest hreads.successCount_eq
      swap
      · exact .inr ⟨e, _, by simp [bind, Except.bind, hclose],
          hreads.yields, hne, hmax.le, .inr hsource, e, herror⟩
      obtain ⟨result, hresult, hacquired⟩ := acquisitionResult_returns binding .sourceExhausted
        { found with checkpoints := checkpoints } hintervals
         hreads.yields hmax.le (hearlier hbefore.le) ⟨hmax, hpolls⟩
        ⟨hmax, hsource, fun hscheduled => by
          rw [h.schedule] at hscheduled
          rcases List.mem_append.mp hscheduled with hn | hn
          · exact hjudged.wide _ hn
          · exact absurd (hrest _ hn) (lt_irrefl _)⟩
      exact .inl ⟨_, result, bind_eq_ok.mpr ⟨checkpoints, hclose, hresult⟩, hacquired⟩
    | false =>
      obtain ⟨hlength, hpolls⟩ := hcontinued rfl
      have hat : found.draws.length = scheduled := by omega
      have hscheduled : found.draws.length ∈ profile.checkpoints := by rw [hat]; exact hmem
      have hevaluate := @evaluateCheckpoint_eq _ platform profile _ hreads.successCount_eq
      rw [if_neg Bool.false_ne_true, hevaluate]
      cases hcurrent : intervalAt platform profile found.draws found.draws.length with
      | error e =>
        have hne : found.draws ≠ [] := List.ne_nil_of_length_pos (by omega)
        exact .inr ⟨e, _, rfl, hreads.yields, hne, le_maxDraws hscheduled, .inl hscheduled, e,
          hcurrent⟩
      | ok current =>
        have hschedule : profile.checkpoints = (done ++ [found.draws.length]) ++ rest := by
          rw [h.schedule, hat, List.append_assoc]
          rfl
        have hintervals : (done ++ [found.draws.length]).mapM
            (intervalAt platform profile found.draws) = .ok (found.checkpoints ++ [current]) :=
          mapM_append_singleton.mpr ⟨_, _, hjudged.intervals, hcurrent, rfl⟩
        have hexpected : expectedCheckpointDrawCounts found.draws.length profile =
            done ++ [found.draws.length] := by
          rw [expectedCheckpointDrawCounts_split hschedule
            (by simpa [or_imp, forall_and] using hjudged.within)
            (fun m hm => hat.trans_lt (hlater m hm)), if_pos (.inr (by simp))]
        by_cases hnarrow : current.intervalWidth ≤ targetWidth profile
        · obtain ⟨result, hresult, hacquired⟩ := acquisitionResult_returns binding
            .certifiedTargetLocalInterval
            { found with checkpoints := found.checkpoints ++ [current] }
            (by rw [hexpected]; exact hintervals)
            hreads.yields (le_maxDraws hscheduled) (hearlier hat.le)
            ⟨hscheduled, ⟨current, hcurrent, hnarrow⟩, hpolls⟩
            ⟨hscheduled, current, hcurrent, hnarrow⟩
          exact .inl ⟨_, result, by simpa [bind, Except.bind, hnarrow] using hresult, hacquired⟩
        · have hprogress : Progress platform profile source (done ++ [found.draws.length]) rest
              { found with checkpoints := found.checkpoints ++ [current] } :=
            ⟨hschedule, ⟨hreads.yields, hreads.successCount_eq⟩, hpolls, by simp,
              hjudged.snoc hcurrent hnarrow⟩
          simpa [bind, Except.bind, hnarrow] using ih hprogress

theorem acquireSequentialBernoulliRow_cases (platform : Platform Z)
    (binding : TargetLocalBernoulliRowBinding) (profile : SequentialBernoulliProfile)
    (source : ℕ → Option Bool) :
    (∃ draws result, acquireSequentialBernoulliRow platform binding profile source = .ok result ∧
      result.binding = binding ∧ result.profile = profile ∧
      Acquired platform source draws result) ∨
    ∃ e draws, acquireSequentialBernoulliRow platform binding profile source = .error e ∧
      Fails platform profile source draws :=
  acquireFrom_cases profile.checkpoints
    (⟨rfl, ⟨fun k h => absurd h (Nat.not_lt_zero k), rfl⟩, rfl, rfl, ⟨by simp, rfl, by simp⟩⟩ :
      Progress platform profile source [] profile.checkpoints ⟨[], [], 0, 0⟩)

theorem acquired_of_eq_ok {source : ℕ → Option Bool} {result : SequentialBernoulliAcquisition}
    (h : acquireSequentialBernoulliRow platform binding profile source = .ok result) :
    result.binding = binding ∧ result.profile = profile ∧
      ∃ draws, Acquired platform source draws result := by
  obtain ⟨draws, result', hresult, hbinding, hprofile, hacquired⟩ | ⟨e, _, herror, -⟩ :=
    acquireSequentialBernoulliRow_cases platform binding profile source
  · obtain rfl : result = result' := Except.ok.inj (h.symm.trans hresult)
    exact ⟨hbinding, hprofile, draws, hacquired⟩
  · cases h.symm.trans herror

theorem acquireSequentialBernoulliRow_returns (hexact : ExactBackend platform.gmp value)
    (binding : TargetLocalBernoulliRowBinding) (source : ℕ → Option Bool)
    (hword : platform.gmp = none ∨ profile.maxDraws < 2 ^ 64) :
    ∃ result, acquireSequentialBernoulliRow platform binding profile source = .ok result := by
  obtain ⟨_, result, hresult, -⟩ | ⟨_, draws, -, hfails⟩ :=
    acquireSequentialBernoulliRow_cases platform binding profile source
  · exact ⟨result, hresult⟩
  · obtain ⟨e, herror⟩ := hfails.error
    obtain ⟨checkpoint, hcheckpoint⟩ := intervalAt_returns hexact profile
      (List.length_pos_of_ne_nil hfails.nonempty) le_rfl
      (hword.imp_right hfails.within.trans_lt)
    cases herror.symm.trans hcheckpoint

/-! ## A source has one run -/

section

variable {source : ℕ → Option Bool} {draws draws' : List Bool}
  {result result' : SequentialBernoulliAcquisition}

theorem WidthAt.of_prefix {more : List Bool} {n : ℕ} {test : ℚ → Prop} (hn : n ≤ draws.length) :
    WidthAt platform profile (draws ++ more) n test ↔
      WidthAt platform profile draws n test := by
  unfold WidthAt
  rw [intervalAt_append hn]

/-- A run does not stop before another one on the same source. -/
theorem Acquired.le_length (h : Acquired platform source draws result)
    (h' : Acquired platform source draws' result') (hprofile : result.profile = result'.profile) :
    draws'.length ≤ draws.length := by
  by_contra hlt
  rw [not_le] at hlt
  have hpre : draws' = draws ++ draws'.drop draws.length := by
    refine List.ext_getElem (by simp; omega) fun k hk hk' => ?_
    rcases lt_or_ge k draws.length with hlow | hhigh
    · have := (h.yields k hlow).symm.trans (h'.yields k hk)
      rw [List.getElem_append_left hlow, Option.some.inj this]
    · grind
  have hwide : draws.length ∈ result.profile.checkpoints →
      WideAt platform result.profile draws draws.length := by
    intro hmem
    rw [hprofile] at hmem ⊢
    have := h'.stops.earlier _ hmem hlt
    rwa [WideAt, hpre, WidthAt.of_prefix le_rfl] at this
  have hends := h.ends
  cases houtcome : result.outcome <;> rw [houtcome] at hends
  case certifiedTargetLocalInterval => exact (hwide hends.1).not_narrowAt hends.2
  case capExhausted =>
    have hwithin := h'.stops.within
    rw [← hprofile, ← hends.1] at hwithin
    exact absurd hwithin (not_le.mpr hlt)
  case sourceExhausted =>
    have hsome := h'.yields draws.length hlt
    rw [hends.2.1] at hsome
    cases hsome

/-- The transcript and the source decide the outcome. -/
theorem EndsWith.unique {outcome outcome' : SequentialBernoulliOutcome}
    (h : EndsWith platform profile source draws outcome)
    (h' : EndsWith platform profile source draws outcome') : outcome = outcome' := by
  cases outcome <;> cases outcome' <;> first | rfl | exfalso
  · exact h'.2.not_narrowAt h.2
  · exact (h'.2.2 h.1).not_narrowAt h.2
  · exact h.2.not_narrowAt h'.2
  · exact absurd h.1 h'.1.ne
  · exact (h.2.2 h'.1).not_narrowAt h'.2
  · exact absurd h'.1 h.1.ne

theorem StopsWith.polls_unique {polls polls' : ℕ} {outcome : SequentialBernoulliOutcome}
    (h : StopsWith platform profile draws polls outcome)
    (h' : StopsWith platform profile draws polls' outcome) : polls = polls' := by
  cases outcome
  · exact h.2.2.trans h'.2.2.symm
  · exact h.2.2.trans h'.2.2.symm
  · exact h.2.trans h'.2.symm

theorem Acquired.unique (h : Acquired platform source draws result)
    (h' : Acquired platform source draws' result') (hbinding : result.binding = result'.binding)
    (hprofile : result.profile = result'.profile) : result = result' := by
  have hlength : draws.length = draws'.length :=
    le_antisymm (h'.le_length h hprofile.symm) (h.le_length h' hprofile)
  have hdraws : draws = draws' := List.ext_getElem hlength fun k hk hk' =>
    Option.some.inj ((h.yields k hk).symm.trans (h'.yields k hk'))
  subst hdraws
  obtain ⟨binding, profile, outcome, drawCount, successCount, packed, checkpoints, counted⟩ :=
    result
  obtain ⟨binding', profile', outcome', drawCount', successCount', packed', checkpoints',
    counted'⟩ := result'
  dsimp only at hbinding hprofile
  subst hbinding hprofile
  obtain ⟨hpacks, hcount, hsuccesses, hcheckpoints, hcounters⟩ := h.recorded
  obtain ⟨hpacks', hcount', hsuccesses', hcheckpoints', hcounters'⟩ := h'.recorded
  have houtcome : outcome = outcome' := h.ends.unique h'.ends
  subst houtcome
  have hpolls := h.stops.stopped.polls_unique h'.stops.stopped
  dsimp only at *
  obtain rfl : checkpoints = checkpoints' :=
    Except.ok.inj (hcheckpoints.symm.trans hcheckpoints')
  rw [hpolls] at hcounters
  obtain rfl : counted = counted' := Except.ok.inj (hcounters.symm.trans hcounters')
  obtain rfl : packed = packed' := hpacks.unique hpacks'
  rw [hcount, hcount', hsuccesses, hsuccesses']

end

/-! ## The verifier against the acquirer -/

/-- A source that ended on a scheduled checkpoint whose interval was narrow enough to stop. -/
def EndsCertified (result : SequentialBernoulliAcquisition) : Prop :=
  result.outcome = .sourceExhausted ∧ result.drawCount ∈ result.profile.checkpoints ∧
    result.FinalWidth (· ≤ targetWidth result.profile)

instance (result : SequentialBernoulliAcquisition) : Decidable (EndsCertified result) :=
  inferInstanceAs (Decidable (_ ∧ _ ∧ _))

theorem not_acquired_of_endsCertified {source : ℕ → Option Bool}
    {result : SequentialBernoulliAcquisition} (h : EndsCertified result) :
    acquireSequentialBernoulliRow platform result.binding result.profile source ≠ .ok result := by
  intro hresult
  obtain ⟨houtcome, hmem, hwidth⟩ := h
  obtain ⟨-, -, draws, hacquired⟩ := acquired_of_eq_ok hresult
  have hends := hacquired.ends
  rw [houtcome] at hends
  rw [hacquired.recorded.drawCount_eq] at hmem
  exact (hends.2.2 hmem).not_narrowAt (hacquired.recorded.finalWidth_iff.mp hwidth)

def replaySource (draws : List Bool) (k : ℕ) : Option Bool := draws[k]?

theorem yields_replaySource (draws : List Bool) : Yields (replaySource draws) draws :=
  fun _ hk => List.getElem?_eq_getElem hk

theorem Recorded.not_fails {draws draws' : List Bool} {result : SequentialBernoulliAcquisition}
    (h : Recorded platform draws result) :
    ¬ Fails platform result.profile (replaySource draws) draws' := by
  rintro ⟨hyields, hne, -, hreached, e, herror⟩
  have hpos : 0 < draws'.length := List.length_pos_of_ne_nil hne
  have hget : ∀ k (hk : k < draws'.length), draws[k]? = some draws'[k] := hyields
  have hle : draws'.length ≤ draws.length := by
    have hlast := hget (draws'.length - 1) (by omega)
    have := (List.getElem?_eq_some_iff.mp hlast).1
    omega
  have hpre : draws' = draws.take draws'.length := by
    refine List.ext_getElem (by simp [hle]) fun k hk hk' => ?_
    rw [List.getElem_take, ← Option.some_inj, ← hget k hk, List.getElem?_eq_getElem]
  have hmem : draws'.length ∈ expectedCheckpointDrawCounts draws.length result.profile := by
    rw [mem_expectedCheckpointDrawCounts]
    rcases hle.eq_or_lt with heq | hlt
    · exact .inr ⟨heq, by omega⟩
    · refine .inl ⟨hreached.resolve_right fun hend => ?_, hlt⟩
      exact absurd (List.getElem?_eq_none_iff.mp hend) (not_le.mpr hlt)
  obtain ⟨checkpoint, hcheckpoint⟩ := h.exists_interval hmem
  have hsame : intervalAt platform result.profile draws' draws'.length =
      intervalAt platform result.profile draws draws'.length := by
    rw [intervalAt, intervalAt, List.take_length, ← hpre]
  cases herror.symm.trans (hsame.trans hcheckpoint)

/-- A recorded transcript that stops is acquired from the source that yields it, unless the source
ended on a certified interval. -/
theorem Recorded.acquired {draws : List Bool} {result : SequentialBernoulliAcquisition}
    (hrecorded : Recorded platform draws result) (hstops : Stops platform draws result)
    (hends : ¬ EndsCertified result) :
    acquireSequentialBernoulliRow platform result.binding result.profile (replaySource draws) =
      .ok result := by
  have hacquired : Acquired platform (replaySource draws) draws result := by
    refine ⟨hrecorded, hstops, yields_replaySource draws, ?_⟩
    have hstopped := hstops.stopped
    cases houtcome : result.outcome <;> rw [houtcome] at hstopped
    case certifiedTargetLocalInterval => exact ⟨hstopped.1, hstopped.2.1⟩
    case capExhausted => exact ⟨hstopped.1, hstopped.2.1⟩
    case sourceExhausted =>
      refine ⟨hstopped.1, by simp [replaySource], fun hmem => ?_⟩
      have hpos := result.profile.checkpoints_pos _ hmem
      obtain ⟨final, hfinal⟩ := hrecorded.exists_interval
        (mem_expectedCheckpointDrawCounts.mpr (.inr ⟨rfl, hpos.ne'⟩))
      refine ⟨final, hfinal, not_le.mp fun hnarrow => hends ⟨houtcome, ?_, ?_⟩⟩
      · rwa [hrecorded.drawCount_eq]
      · exact hrecorded.finalWidth_iff.mpr ⟨final, hfinal, hnarrow⟩
  obtain ⟨_, result', hresult', hbinding, hprofile, hacquired'⟩ | ⟨_, _, -, hfails⟩ :=
    acquireSequentialBernoulliRow_cases platform result.binding result.profile (replaySource draws)
  · rw [hresult', hacquired.unique hacquired' hbinding.symm hprofile.symm]
  · exact absurd hfails hrecorded.not_fails

/-- The verifier accepts a result of the acquirer exactly when the integers of its documents can be
rendered, and a result that it accepts is that of a run over the recorded transcript exactly when
its source did not end on a certified interval. The acquirer returns on every source, where no
schedule is longer than a machine word counts. -/
theorem verify_iff_acquired (hexact : ExactBackend platform.gmp value) (ids : AcquisitionIds) :
    (∀ binding profile source,
      (platform.gmp = none ∨ profile.maxDraws < 2 ^ 64 → ∃ result,
        acquireSequentialBernoulliRow platform binding profile source = .ok result) ∧
      ∀ result, acquireSequentialBernoulliRow platform binding profile source = .ok result →
        ((∃ v, verifySequentialBernoulliAcquisition platform ids result = .ok v) ↔
          Renders result)) ∧
    ∀ result v, verifySequentialBernoulliAcquisition platform ids result = .ok v →
      ((∃ source draws,
        acquireSequentialBernoulliRow platform result.binding result.profile source =
          .ok result ∧
        unpackDraws result.packedDraws result.drawCount = .ok draws ∧ Yields source draws) ↔
      ¬ EndsCertified result) := by
  refine ⟨fun binding profile source => ⟨fun hword =>
    acquireSequentialBernoulliRow_returns hexact binding source hword, fun result hresult => ?_⟩,
    fun result v hv => ?_⟩
  · obtain ⟨-, -, draws, hacquired⟩ := acquired_of_eq_ok hresult
    rw [verify_iff]
    exact and_iff_left ⟨draws, hacquired.recorded, hacquired.stops⟩
  · obtain ⟨-, draws, hrecorded, hstops⟩ := verify_iff.mp ⟨v, hv⟩
    constructor
    · rintro ⟨source, _, hresult, -, -⟩ hends
      exact not_acquired_of_endsCertified hends hresult
    · intro hends
      exact ⟨_, draws, hrecorded.acquired hstops hends, unpackDraws_eq_ok.mpr
        ⟨hrecorded.drawCount_eq.symm, hrecorded.packs⟩, yields_replaySource draws⟩

/-! ### A source that ends on a certified interval -/

theorem rowKey_named : "row" ≠ "" ∧ "row".length ≤ 512 := by decide

def zeroId : ContentId := ContentId.ofNat 0

def zeroIds : AcquisitionIds := ⟨fun _ => zeroId, fun _ => zeroId, fun _ => zeroId⟩

def zeroBinding : TargetLocalBernoulliRowBinding :=
  ⟨zeroId, zeroId, zeroId, zeroId, zeroId, "row", rowKey_named⟩

/-- The result of two draws, then the end of the source, although the interval of the two draws is
narrow enough. -/
def endedOnCheckpoint : Except PyError SequentialBernoulliAcquisition := do
  let profile ← SequentialBernoulliProfile.make (9 / 10) (49 / 100) [2, 3] 8
  let final ← buildAnytimeBernoulliCheckpoint exactPlatform 2 1 profile
  acquisitionResult zeroBinding profile .sourceExhausted ⟨[true, false], [final], 1, 3⟩

def endedOnCheckpointVerified : Bool :=
  match endedOnCheckpoint with
  | .ok result =>
    (verifySequentialBernoulliAcquisition exactPlatform zeroIds result).isOk ∧ EndsCertified result
  | .error _ => false

theorem endedOnCheckpointVerified_eq : endedOnCheckpointVerified = true := by decide +kernel

theorem endedOnCheckpoint_verified : ∃ result, endedOnCheckpoint = .ok result ∧
    (verifySequentialBernoulliAcquisition exactPlatform zeroIds result).isOk = true ∧
    EndsCertified result := by
  have h := endedOnCheckpointVerified_eq
  unfold endedOnCheckpointVerified at h
  split at h
  next result hresult => exact ⟨result, hresult, by simpa using h⟩
  next => cases h

/-- The verifier accepts a result that the acquirer returns on no source. -/
theorem verify_accepts_endedOnCheckpoint : ∃ result v, endedOnCheckpoint = .ok result ∧
    verifySequentialBernoulliAcquisition exactPlatform zeroIds result = .ok v ∧
    ¬ ∃ source, acquireSequentialBernoulliRow exactPlatform result.binding result.profile source =
      .ok result := by
  obtain ⟨result, hresult, hok, hends⟩ := endedOnCheckpoint_verified
  obtain ⟨v, hv⟩ := exists_of_isOk hok
  exact ⟨result, v, hresult, hv, fun ⟨_, h⟩ => not_acquired_of_endsCertified hends h⟩

def certifiedOnCheckpoint : Except PyError SequentialBernoulliAcquisition := do
  let profile ← SequentialBernoulliProfile.make (9 / 10) (49 / 100) [2, 3] 8
  acquireSequentialBernoulliRow exactPlatform zeroBinding profile (replaySource [true, false])

theorem verify_iff_acquired_endedOnCheckpoint :
    (∃ result, certifiedOnCheckpoint = .ok result ∧ Renders result ∧ ¬ EndsCertified result) ∧
    ∃ result, endedOnCheckpoint = .ok result ∧ EndsCertified result ∧
      ((∃ source draws, acquireSequentialBernoulliRow exactPlatform result.binding result.profile
          source = .ok result ∧
        unpackDraws result.packedDraws result.drawCount = .ok draws ∧ Yields source draws) ↔
      ¬ EndsCertified result) := by
  obtain ⟨hforward, hbackward⟩ := verify_iff_acquired exactPlatform_exact zeroIds
  have hcertified : (certifiedOnCheckpoint >>=
      verifySequentialBernoulliAcquisition exactPlatform zeroIds).isOk = true := by decide +kernel
  obtain ⟨v, hv⟩ := exists_of_isOk hcertified
  obtain ⟨certified, hcertified, hv⟩ := bind_eq_ok.mp hv
  obtain ⟨profile, -, hacquire⟩ := bind_eq_ok.mp hcertified
  have hrenders := ((hforward zeroBinding profile _).2 certified hacquire).mp ⟨v, hv⟩
  obtain ⟨hbinding, hprofile, draws, hacquired⟩ := acquired_of_eq_ok hacquire
  have hrun : ∃ source draws, acquireSequentialBernoulliRow exactPlatform certified.binding
      certified.profile source = .ok certified ∧
      unpackDraws certified.packedDraws certified.drawCount = .ok draws ∧ Yields source draws := by
    rw [hbinding, hprofile]
    exact ⟨_, draws, hacquire, unpackDraws_eq_ok.mpr
      ⟨hacquired.recorded.drawCount_eq.symm, hacquired.recorded.packs⟩, hacquired.yields⟩
  obtain ⟨result, hresult, hok, hends⟩ := endedOnCheckpoint_verified
  obtain ⟨w, hw⟩ := exists_of_isOk hok
  exact ⟨⟨certified, hcertified, hrenders, (hbackward certified v hv).mp hrun⟩,
    result, hresult, hends, hbackward result w hw⟩

end Acfqp.Confidence
