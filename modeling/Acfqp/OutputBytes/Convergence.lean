import Acfqp.Library.Ascent
import Acfqp.OutputBytes.FixedPoint

/-!
# Rounds and their runs

What a rendered set embeds, what a round records, and the run of totals that the rounds go through:
it returns where a total is repeated within the limit, and is given up otherwise.
-/

namespace Acfqp.OutputBytes

open Library
open OperationalArtifactRole (registered)
open OutputBytesFixedPointIteration (Follows)

variable {codec : Codec} {profile : OutputBytesFixedPointProfile} {renderer : Renderer}

/-! ## What a rendered set satisfies -/

/-- The value that bytes embed for `io.output_bytes`. -/
def embedded (codec : Codec) (canonicalBytes : Bytes) : Option FieldValue :=
  match codec.loadsCanonicalJson canonicalBytes with
  | .document (.object fields) => fields.lookup "io.output_bytes"
  | _ => none

/-- The manifest embeds the number, and no artifact embeds anything else. -/
def Embeds (set : RenderedOperationalArtifactSet codec) (n : ℕ) : Prop :=
  (∃ manifest ∈ set.artifacts, manifest.role = .outputManifest ∧
    embedded codec manifest.canonicalBytes = some (.integer n)) ∧
  ∀ item ∈ set.artifacts, ∀ value ∈ embedded codec item.canonicalBytes, value = .integer n

theorem RenderedOperationalArtifact.byteCount_pos (item : RenderedOperationalArtifact codec) :
    0 < item.byteCount := by
  obtain ⟨_, hne, -⟩ := bind_eq_ok.mp item.checked
  exact List.length_pos_of_ne_nil (require_eq_ok.mp hne)

theorem RenderedOperationalArtifact.embedded_of_checked (item : RenderedOperationalArtifact codec) :
    (item.role = .outputManifest →
      embedded codec item.canonicalBytes = some (.integer item.candidateOutputBytes)) ∧
    ∀ value ∈ embedded codec item.canonicalBytes, value = .integer item.candidateOutputBytes := by
  obtain ⟨_, -, hloaded⟩ := bind_eq_ok.mp item.checked
  unfold embedded
  cases hload : codec.loadsCanonicalJson item.canonicalBytes with
  | refused => simp [checkLoaded, hload] at hloaded
  | raised => simp [checkLoaded, hload] at hloaded
  | document document =>
    cases document with
    | other => simp [checkLoaded, hload] at hloaded
    | object fields =>
      rw [hload] at hloaded
      obtain ⟨_, -, hembedded⟩ := bind_eq_ok.mp hloaded
      by_cases hrole : item.role = .outputManifest
      · rw [if_pos hrole, require_eq_ok] at hembedded
        refine ⟨fun _ => hembedded, fun value hvalue => ?_⟩
        exact Option.some_injective _ (hvalue.symm.trans hembedded)
      · rw [if_neg hrole, require_eq_ok] at hembedded
        exact ⟨fun h => absurd h hrole, hembedded⟩

theorem RenderedOperationalArtifactSet.embeds (set : RenderedOperationalArtifactSet codec) :
    Embeds set set.candidateOutputBytes := by
  constructor
  · have hmem : OperationalArtifactRole.outputManifest ∈ set.artifacts.map (·.role) := by
      rw [set.exactRoles]
      exact OperationalArtifactRole.mem_registered _
    obtain ⟨manifest, hmanifest, hrole⟩ := List.mem_map.mp hmem
    refine ⟨manifest, hmanifest, hrole, ?_⟩
    rw [← (set.bound manifest hmanifest).2]
    exact manifest.embedded_of_checked.1 hrole
  · intro item hitem
    rw [← (set.bound item hitem).2]
    exact item.embedded_of_checked.2

theorem RenderedOperationalArtifactSet.roleByteCounts_length
    (set : RenderedOperationalArtifactSet codec) :
    set.roleByteCounts.length = registered.length := by
  rw [roleByteCounts, List.length_map, ← List.length_map (·.role), set.exactRoles]

theorem RenderedOperationalArtifactSet.roleByteCounts_pos
    (set : RenderedOperationalArtifactSet codec) : ∀ count ∈ set.roleByteCounts, 0 < count := by
  intro count hcount
  obtain ⟨item, -, rfl⟩ := List.mem_map.mp hcount
  exact item.byteCount_pos

theorem RenderedOperationalArtifactSet.make_eq_ok {profileId : ContentId} {candidate : ℕ}
    {artifacts : List (RenderedOperationalArtifact codec)}
    {set : RenderedOperationalArtifactSet codec}
    (h : RenderedOperationalArtifactSet.make profileId candidate artifacts = .ok set) :
    set.profileId = profileId ∧ set.candidateOutputBytes = candidate ∧
      set.artifacts = artifacts := by
  unfold RenderedOperationalArtifactSet.make at h
  split at h
  · split at h
    · cases h
      exact ⟨rfl, rfl, rfl⟩
    · cases h
  · cases h

theorem renderRole_total_le {candidate : ℕ} {entries : List (Option String × Option Bytes)}
    {rendered next : ℕ × List (RenderedOperationalArtifact codec)}
    {role : OperationalArtifactRole}
    (h : renderRole codec profile candidate entries rendered role = .ok next) :
    next.1 ≤ profile.maxTotalBytes := by
  obtain ⟨raw, -, h⟩ := bind_eq_ok.mp h
  obtain ⟨_, -, h⟩ := bind_eq_ok.mp h
  obtain ⟨_, htotal, h⟩ := bind_eq_ok.mp h
  obtain ⟨artifact, -, h⟩ := bind_eq_ok.mp h
  cases pure_eq_ok.mp h
  exact require_eq_ok.mp htotal

/-- A render binds its profile and its candidate, and its total is within the limit. -/
theorem renderOnce_eq_ok {call candidate : ℕ} {set : RenderedOperationalArtifactSet codec}
    (h : renderOnce codec profile renderer call candidate = .ok set) :
    set.profileId = codec.profileId profile ∧ set.candidateOutputBytes = candidate ∧
      WithinCap set.totalBytes profile.maxTotalBytes := by
  unfold renderOnce at h
  cases hreply : renderer call candidate with
  | raised => simp [materialize, hreply] at h
  | other => simp [materialize, hreply] at h
  | dict entries =>
    rw [hreply] at h
    obtain ⟨_, -, h⟩ := bind_eq_ok.mp h
    obtain ⟨rendered, hrendered, h⟩ := bind_eq_ok.mp h
    obtain ⟨result, hmake, h⟩ := bind_eq_ok.mp h
    obtain ⟨_, htotal, h⟩ := bind_eq_ok.mp h
    cases pure_eq_ok.mp h
    obtain ⟨hprofile, hcandidate, -⟩ := RenderedOperationalArtifactSet.make_eq_ok hmake
    obtain ⟨heq, hpos⟩ := require_eq_ok.mp htotal
    refine ⟨hprofile, hcandidate, hpos, ?_⟩
    have hle : rendered.1 ≤ profile.maxTotalBytes :=
      foldlM_invariant (P := fun st => st.1 ≤ profile.maxTotalBytes)
        (fun _ _ _ _ _ hstep => renderRole_total_le hstep) (Nat.zero_le _) hrendered
    rw [heq]
    exact hle

/-! ## Rounds -/

/-- Every call with one candidate has one reply. -/
def Deterministic (renderer : Renderer) : Prop :=
  ∀ call call' candidate, renderer call candidate = renderer call' candidate

theorem Deterministic.renderOnce_eq (h : Deterministic renderer) (call candidate : ℕ) :
    renderOnce codec profile renderer call candidate =
      renderOnce codec profile renderer 0 candidate := by
  rw [renderOnce, renderOnce, h call 0]

/-- The candidate is rendered to a set of the total. -/
def RendersTo (codec : Codec) (profile : OutputBytesFixedPointProfile) (renderer : Renderer)
    (candidate total : ℕ) : Prop :=
  ∃ set, renderOnce codec profile renderer 0 candidate = .ok set ∧ set.totalBytes = total

theorem assertSameRender_self (set : RenderedOperationalArtifactSet codec) (reason : String) :
    assertSameRender set set reason = .ok () :=
  require_eq_ok.mpr ⟨rfl, rfl, rfl, rfl⟩

theorem OutputBytesFixedPointIteration.make_of {profileId artifactSetId : ContentId}
    {index candidate total : ℕ} {counts : List ℕ} (hindex : WithinCap index hardMaxIterations)
    (htotal : WithinCap total hardMaxTotalBytes)
    (hcounts : counts.length = registered.length ∧ (∀ count ∈ counts, 0 < count) ∧
      counts.sum = total) (hascends : candidate ≤ total) :
    OutputBytesFixedPointIteration.make profileId index candidate total counts artifactSetId =
      .ok ⟨profileId, index, candidate, total, counts, artifactSetId, hindex, htotal, hcounts,
        hascends⟩ := by
  rw [make, dif_pos hindex, dif_pos htotal, dif_pos hcounts, dif_pos hascends]

structure Records (codec : Codec) (profile : OutputBytesFixedPointProfile) (index candidate : ℕ)
    (first : RenderedOperationalArtifactSet codec) (iteration : OutputBytesFixedPointIteration) :
    Prop where
  profileId : iteration.profileId = codec.profileId profile
  iterationIndex : iteration.iterationIndex = index
  candidate : iteration.candidateOutputBytes = candidate
  total : iteration.renderedTotalBytes = first.totalBytes
  artifactSetId : iteration.artifactSetId = first.artifactSetId

theorem round_eq_ok {index call candidate : ℕ} {first : RenderedOperationalArtifactSet codec}
    {iteration : OutputBytesFixedPointIteration}
    (h : round codec profile renderer index call candidate = .ok (first, iteration)) :
    renderOnce codec profile renderer call candidate = .ok first := by
  obtain ⟨set, hset, h⟩ := bind_eq_ok.mp h
  obtain ⟨second, -, h⟩ := bind_eq_ok.mp h
  obtain ⟨_, -, h⟩ := bind_eq_ok.mp h
  obtain ⟨_, -, h⟩ := bind_eq_ok.mp h
  obtain ⟨made, -, h⟩ := bind_eq_ok.mp h
  cases pure_eq_ok.mp h
  exact hset

/-- A round of a deterministic renderer whose total does not descend returns. -/
theorem round_of_renderOnce (hdet : Deterministic renderer) {index call candidate : ℕ}
    {first : RenderedOperationalArtifactSet codec}
    (hfirst : renderOnce codec profile renderer 0 candidate = .ok first)
    (hle : candidate ≤ first.totalBytes) (hindex : WithinCap index hardMaxIterations) :
    ∃ iteration, round codec profile renderer index call candidate = .ok (first, iteration) ∧
      Records codec profile index candidate first iteration := by
  have htotal : WithinCap first.totalBytes hardMaxTotalBytes := by
    obtain ⟨hpos, hcap⟩ := (renderOnce_eq_ok hfirst).2.2
    exact ⟨hpos, hcap.trans profile.totalWithinCap.2⟩
  have hcounts : first.roleByteCounts.length = registered.length ∧
      (∀ count ∈ first.roleByteCounts, 0 < count) ∧
      first.roleByteCounts.sum = first.totalBytes :=
    ⟨first.roleByteCounts_length, first.roleByteCounts_pos, rfl⟩
  refine ⟨⟨codec.profileId profile, index, candidate, first.totalBytes, first.roleByteCounts,
    first.artifactSetId, hindex, htotal, hcounts, hle⟩, ?_, ⟨rfl, rfl, rfl, rfl, rfl⟩⟩
  rw [round, bind_of_ok ((hdet.renderOnce_eq call candidate).trans hfirst),
    bind_of_ok ((hdet.renderOnce_eq (call + 1) candidate).trans hfirst),
    bind_of_ok (assertSameRender_self first _), bind_of_ok (require_eq_ok (u := ()).mpr hle),
    bind_of_ok (OutputBytesFixedPointIteration.make_of hindex htotal hcounts hle)]
  rfl

theorem OutputBytesFixedPointResult.make_eq_ok {iterations : List OutputBytesFixedPointIteration}
    {fixed : RenderedOperationalArtifactSet codec} {invocations replays fixedReplays : ℕ}
    {result : OutputBytesFixedPointResult codec}
    (h : OutputBytesFixedPointResult.make codec profile iterations fixed invocations replays
      fixedReplays = .ok result) : result.profile = profile ∧ result.fixedArtifacts = fixed := by
  obtain ⟨_, -, h⟩ := bind_eq_ok.mp h
  obtain ⟨terminal, -, h⟩ := bind_eq_ok.mp h
  unfold OutputBytesFixedPointResult.ofTerminal at h
  split at h
  · split at h
    · obtain ⟨_, -, h⟩ := bind_eq_ok.mp h
      cases pure_eq_ok.mp h
      exact ⟨rfl, rfl⟩
    · cases h
  · cases h

theorem replays_eq_ok {first : RenderedOperationalArtifactSet codec} {call candidate : ℕ}
    {iterations : List OutputBytesFixedPointIteration} {result : OutputBytesFixedPointResult codec}
    (h : replays codec profile renderer first call candidate iterations = .ok result) :
    result.profile = profile ∧ result.fixedArtifacts = first := by
  obtain ⟨one, -, h⟩ := bind_eq_ok.mp h
  obtain ⟨two, -, h⟩ := bind_eq_ok.mp h
  obtain ⟨_, -, h⟩ := bind_eq_ok.mp h
  obtain ⟨_, -, h⟩ := bind_eq_ok.mp h
  exact OutputBytesFixedPointResult.make_eq_ok h

/-- A run that returns has gone from total to total, and its artifacts are those of a candidate that
equals its total. -/
theorem iterate_eq_ok (hdet : Deterministic renderer) {remaining candidate invocations : ℕ}
    {iterations : List OutputBytesFixedPointIteration} {result : OutputBytesFixedPointResult codec}
    (h : iterate codec profile renderer remaining candidate iterations invocations = .ok result) :
    result.profile = profile ∧ Relation.ReflTransGen (RendersTo codec profile renderer) candidate
      result.outputBytes ∧
      renderOnce codec profile renderer 0 result.outputBytes = .ok result.fixedArtifacts := by
  induction remaining generalizing candidate iterations invocations with
  | zero => cases h
  | succ remaining ih =>
    obtain ⟨⟨first, iteration⟩, hround, h⟩ := bind_eq_ok.mp h
    have hfirst := round_eq_ok hround
    rw [hdet.renderOnce_eq] at hfirst
    dsimp only at h
    split at h
    case isTrue heq =>
      obtain ⟨hprofile, hfixed⟩ := replays_eq_ok h
      have hout : result.outputBytes = candidate := by
        rw [OutputBytesFixedPointResult.outputBytes, hfixed, heq]
      rw [hout, hfixed]
      exact ⟨hprofile, .refl, hfirst⟩
    case isFalse =>
      obtain ⟨hprofile, hrun, hfixed⟩ := ih h
      exact ⟨hprofile, .head ⟨first, hfirst, rfl⟩ hrun, hfixed⟩

/-! ## Runs that converge -/

/-- The iterations before a candidate that no round has settled. -/
structure Traced (codec : Codec) (profile : OutputBytesFixedPointProfile) (candidate : ℕ)
    (iterations : List OutputBytesFixedPointIteration) : Prop where
  profileId : ∀ item ∈ iterations, item.profileId = codec.profileId profile
  start : ∀ item ∈ iterations.head?, item.candidateOutputBytes = 0
  empty : iterations = [] → candidate = 0
  chain : iterations.IsChain Follows
  last : ∀ item ∈ iterations.getLast?, ¬ item.Converged ∧
    item.iterationIndex = iterations.length ∧ item.renderedTotalBytes = candidate

theorem Traced.nil : Traced codec profile 0 [] where
  profileId := by simp
  start := by simp
  empty := fun _ => rfl
  chain := .nil
  last := by simp

variable {candidate : ℕ} {iterations : List OutputBytesFixedPointIteration}
  {iteration : OutputBytesFixedPointIteration} {first : RenderedOperationalArtifactSet codec}

theorem Traced.checkTrace (h : Traced codec profile candidate iterations)
    (hrecords : Records codec profile (iterations.length + 1) candidate first iteration)
    (hlength : iterations.length < profile.maxIterations) :
    OutputBytesFixedPointResult.checkTrace codec profile (iterations ++ [iteration]) = .ok () := by
  have hprofile : ∀ item ∈ iterations ++ [iteration],
      item.profileId = codec.profileId profile := by
    intro item hitem
    rcases List.mem_append.mp hitem with hmem | hmem
    · exact h.profileId item hmem
    · rw [List.mem_singleton.mp hmem, hrecords.profileId]
  have hstart : ∀ item ∈ (iterations ++ [iteration]).head?, item.candidateOutputBytes = 0 := by
    intro item hitem
    cases hiterations : iterations with
    | nil =>
      simp only [hiterations, List.nil_append, List.head?_cons, Option.mem_def,
        Option.some.injEq] at hitem
      rw [← hitem, hrecords.candidate, h.empty hiterations]
    | cons head tail =>
      simp only [hiterations, List.cons_append, List.head?_cons] at hitem
      exact h.start item (by rw [hiterations]; exact hitem)
  have hchain : (iterations ++ [iteration]).IsChain Follows := by
    refine List.isChain_append.mpr ⟨h.chain, .singleton _, ?_⟩
    intro previous hprevious current hcurrent
    simp only [List.head?_cons, Option.mem_def, Option.some.injEq] at hcurrent
    obtain ⟨hopen, hindex, htotal⟩ := h.last previous hprevious
    rw [← hcurrent]
    exact ⟨hopen, by rw [hrecords.iterationIndex, hindex], by rw [hrecords.candidate, htotal]⟩
  have hwhole : iterations ++ [iteration] ≠ [] ∧
      (iterations ++ [iteration]).length ≤ profile.maxIterations ∧
      ∀ item ∈ iterations ++ [iteration], item.profileId = codec.profileId profile :=
    ⟨by simp, by simpa using hlength, hprofile⟩
  rw [OutputBytesFixedPointResult.checkTrace, bind_of_ok (require_eq_ok (u := ()).mpr hwhole),
    bind_of_ok (require_eq_ok (u := ()).mpr hstart), require_eq_ok]
  exact hchain

/-- An open round is one more of the trace. -/
theorem Traced.concat (h : Traced codec profile candidate iterations)
    (hrecords : Records codec profile (iterations.length + 1) candidate first iteration)
    (hlength : iterations.length < profile.maxIterations) (hopen : first.totalBytes ≠ candidate) :
    Traced codec profile first.totalBytes (iterations ++ [iteration]) := by
  have hcheck := h.checkTrace hrecords hlength
  obtain ⟨_, hwhole, hcheck⟩ := bind_eq_ok.mp hcheck
  obtain ⟨_, hstart, hchain⟩ := bind_eq_ok.mp hcheck
  refine ⟨(require_eq_ok.mp hwhole).2.2, require_eq_ok.mp hstart, by simp,
    require_eq_ok.mp hchain, ?_⟩
  intro item hitem
  simp only [List.getLast?_concat, Option.mem_def, Option.some.injEq] at hitem
  rw [← hitem]
  refine ⟨?_, by simp [hrecords.iterationIndex], hrecords.total⟩
  rw [OutputBytesFixedPointIteration.Converged, hrecords.total, hrecords.candidate]
  exact hopen

theorem replays_of_traced (hdet : Deterministic renderer)
    (h : Traced codec profile candidate iterations)
    (hrecords : Records codec profile (iterations.length + 1) candidate first iteration)
    (hlength : iterations.length < profile.maxIterations)
    (hfirst : renderOnce codec profile renderer 0 candidate = .ok first)
    (hfixed : first.totalBytes = candidate) :
    ∃ result, replays codec profile renderer first (2 * iterations.length + 2) candidate
      (iterations ++ [iteration]) = .ok result := by
  have hconverged : iteration.Converged := by
    rw [OutputBytesFixedPointIteration.Converged, hrecords.total, hrecords.candidate, hfixed]
  obtain ⟨hprofile, hcandidate, -⟩ := renderOnce_eq_ok hfirst
  have hterminal : IsTerminal codec profile iteration first :=
    ⟨hprofile, hcandidate.trans hrecords.candidate.symm, hrecords.total.symm,
      hrecords.artifactSetId.symm⟩
  have hlast : (iterations ++ [iteration]).getLast? = some iteration := by simp
  have hcap := profile.iterationsWithinCap.2
  have hlen : (iterations ++ [iteration]).length = iterations.length + 1 := by simp
  have hcounts : OutputBytesFixedPointResult.checkCounts (iterations ++ [iteration]).length
      (2 * iterations.length + 2 + 2) (iterations ++ [iteration]).length 2 = .ok () := by
    have hinvocations : WithinCap (2 * iterations.length + 2 + 2) (hardMaxIterations * 4) := by
      rw [WithinCap]
      omega
    have hreplays : WithinCap (iterations ++ [iteration]).length (hardMaxIterations * 2) := by
      rw [WithinCap]
      omega
    rw [OutputBytesFixedPointResult.checkCounts,
      bind_of_ok (require_eq_ok (u := ()).mpr hinvocations),
      bind_of_ok (require_eq_ok (u := ()).mpr hreplays),
      bind_of_ok (require_eq_ok (u := ()).mpr rfl), bind_of_ok (require_eq_ok (u := ()).mpr rfl),
      require_eq_ok]
    omega
  rw [replays, bind_of_ok ((hdet.renderOnce_eq _ candidate).trans hfirst),
    bind_of_ok ((hdet.renderOnce_eq _ candidate).trans hfirst),
    bind_of_ok (assertSameRender_self first _), bind_of_ok (assertSameRender_self first _),
    OutputBytesFixedPointResult.make, bind_of_ok (h.checkTrace hrecords hlength),
    bind_of_ok (orRaise_eq_ok.mpr hlast), OutputBytesFixedPointResult.ofTerminal,
    dif_pos hconverged, dif_pos hterminal, bind_of_ok hcounts]
  exact ⟨_, rfl⟩

/-- A run of totals that never descends and repeats one of them within the rounds that remain
returns a result. -/
theorem iterate_returns (hdet : Deterministic renderer) {remaining k : ℕ} {c : ℕ → ℕ}
    (hrun : ∀ i, RendersTo codec profile renderer (c i) (c (i + 1))) (hmono : ∀ i, c i ≤ c (i + 1))
    (hrepeat : c (k + 1) = c k) (hk : k < remaining)
    (htraced : Traced codec profile (c 0) iterations)
    (hremaining : iterations.length + remaining = profile.maxIterations) :
    ∃ result, iterate codec profile renderer remaining (c 0) iterations (2 * iterations.length) =
      .ok result := by
  induction remaining generalizing c k iterations with
  | zero => omega
  | succ remaining ih =>
    obtain ⟨first, hfirst, htotal⟩ := hrun 0
    have hcap := profile.iterationsWithinCap.2
    have hindex : WithinCap (iterations.length + 1) hardMaxIterations :=
      ⟨by omega, by omega⟩
    have hle : c 0 ≤ first.totalBytes := by rw [htotal]; exact hmono 0
    obtain ⟨iteration, hround, hrecords⟩ : ∃ iteration, round codec profile renderer
        (iterations.length + 1) (2 * iterations.length) (c 0) = .ok (first, iteration) ∧
        Records codec profile (iterations.length + 1) (c 0) first iteration :=
      round_of_renderOnce hdet hfirst hle hindex
    rw [iterate, bind_of_ok hround]
    dsimp only
    split
    case isTrue hfixed => exact replays_of_traced hdet htraced hrecords (by omega) hfirst hfixed
    case isFalse hopen =>
      have hnext := htraced.concat hrecords (by omega) hopen
      have hlen : (iterations ++ [iteration]).length = iterations.length + 1 := by simp
      cases k with
      | zero => exact absurd (htotal.trans hrepeat) hopen
      | succ k =>
        rw [htotal] at hnext ⊢
        have hcalls : 2 * iterations.length + 2 = 2 * (iterations ++ [iteration]).length := by omega
        rw [hcalls]
        exact ih (c := fun i => c (i + 1)) (k := k) (fun i => hrun (i + 1)) (fun i => hmono (i + 1))
          hrepeat (by omega) hnext (by omega)

theorem iterate_of_open (hdet : Deterministic renderer) {remaining : ℕ} {c : ℕ → ℕ}
    (hrun : ∀ i, RendersTo codec profile renderer (c i) (c (i + 1))) (hmono : ∀ i, c i ≤ c (i + 1))
    (hopen : ∀ k < remaining, c (k + 1) ≠ c k)
    (hremaining : iterations.length + remaining = profile.maxIterations) (invocations : ℕ) :
    iterate codec profile renderer remaining (c 0) iterations invocations =
      .error (.failed "output-byte fixed point did not converge within the iteration cap") := by
  induction remaining generalizing c iterations invocations with
  | zero => rfl
  | succ remaining ih =>
    obtain ⟨first, hfirst, htotal⟩ := hrun 0
    have hcap := profile.iterationsWithinCap.2
    have hindex : WithinCap (iterations.length + 1) hardMaxIterations := ⟨by omega, by omega⟩
    have hle : c 0 ≤ first.totalBytes := by rw [htotal]; exact hmono 0
    obtain ⟨iteration, hround, -⟩ : ∃ iteration, round codec profile renderer
        (iterations.length + 1) invocations (c 0) = .ok (first, iteration) ∧
        Records codec profile (iterations.length + 1) (c 0) first iteration :=
      round_of_renderOnce hdet hfirst hle hindex
    have hne : first.totalBytes ≠ c 0 := by rw [htotal]; exact hopen 0 (by omega)
    have hlen : (iterations ++ [iteration]).length = iterations.length + 1 := by simp
    rw [iterate, bind_of_ok hround]
    dsimp only
    rw [if_neg hne, htotal]
    exact ih (c := fun i => c (i + 1)) (fun i => hrun (i + 1)) (fun i => hmono (i + 1))
      (fun k hk => hopen (k + 1) (by omega)) (by omega) _

/-! ## Totals that grow with the digits -/

/-- Every candidate within the limit is rendered to the base and a fixed contribution of each of its
decimal digits. -/
def GrowsWithDigits (codec : Codec) (profile : OutputBytesFixedPointProfile) (renderer : Renderer)
    (base perDigit : ℤ) : Prop :=
  ∀ candidate ≤ profile.maxTotalBytes, ∃ total, RendersTo codec profile renderer candidate total ∧
    (total : ℤ) = base + perDigit * decimalLength candidate

theorem RendersTo.le_maxTotalBytes {candidate total : ℕ}
    (h : RendersTo codec profile renderer candidate total) : total ≤ profile.maxTotalBytes := by
  obtain ⟨set, hset, rfl⟩ := h
  exact (renderOnce_eq_ok hset).2.2.2

/-- The totals from zero on. -/
theorem GrowsWithDigits.exists_run {base perDigit : ℤ}
    (h : GrowsWithDigits codec profile renderer base perDigit) :
    ∃ c, DigitRun base perDigit c ∧
      ∀ i, RendersTo codec profile renderer (c i) (c (i + 1)) := by
  choose! next hnext using h
  have hle : ∀ i, next^[i] 0 ≤ profile.maxTotalBytes := by
    intro i
    induction i with
    | zero => exact Nat.zero_le _
    | succ i ih =>
      rw [Function.iterate_succ_apply']
      exact (hnext _ ih).1.le_maxTotalBytes
  refine ⟨fun i => next^[i] 0, ⟨rfl, fun i => ?_⟩, fun i => ?_⟩
  · rw [Function.iterate_succ_apply']
    exact (hnext _ (hle i)).2
  · simp only [Function.iterate_succ_apply']
    exact (hnext _ (hle i)).1

theorem monotone_run (hascends : Ascending (RendersTo codec profile renderer)) {c : ℕ → ℕ}
    (hstart : c 0 = 0) (hrun : ∀ i, RendersTo codec profile renderer (c i) (c (i + 1))) (i : ℕ) :
    c i ≤ c (i + 1) := by
  induction i with
  | zero => rw [hstart]; exact Nat.zero_le _
  | succ i ih => exact hascends (hrun i) (hrun (i + 1)) ih

/-- A run of totals that does not repeat one within the limit is given up. -/
theorem solve_of_open (hdet : Deterministic renderer)
    (hascends : Ascending (RendersTo codec profile renderer)) {c : ℕ → ℕ} (hstart : c 0 = 0)
    (hrun : ∀ i, RendersTo codec profile renderer (c i) (c (i + 1)))
    (hopen : ∀ k < profile.maxIterations, c (k + 1) ≠ c k) :
    solveOutputBytesFixedPoint codec profile renderer =
      .error (.failed "output-byte fixed point did not converge within the iteration cap") := by
  have hgiven : iterate codec profile renderer profile.maxIterations (c 0) [] 0 = _ :=
    iterate_of_open hdet hrun (monotone_run hascends hstart hrun) hopen (by simp) 0
  rw [hstart] at hgiven
  exact hgiven

end Acfqp.OutputBytes
