import Acfqp.Confidence.Bernoulli
import Acfqp.Encoding.Integers

/-!
# Packed boolean transcripts

Draws are recorded eight to a byte, the first one in the lowest bit, and the bits after the last
draw are zero. A transcript has exactly one packed form.
-/

namespace Acfqp.Confidence

open Library

abbrev Packed := List (BitVec 8)

def bitAt (packed : Packed) (index : ℕ) : Bool :=
  (packed.getD (index / 8) 0).getLsbD (index % 8)

/-! ## Packing -/

/-- The state of the packing loop. -/
structure Packing where
  output : Packed
  byte : BitVec 8
  width : ℕ

def Packing.push (s : Packing) (draw : Bool) : Packing :=
  let byte := if draw then s.byte ||| (1#8 <<< s.width) else s.byte
  if s.width + 1 = 8 then ⟨s.output ++ [byte], 0, 0⟩ else ⟨s.output, byte, s.width + 1⟩

def packDraws (draws : List Bool) : Packed :=
  let s := draws.foldl Packing.push ⟨[], 0, 0⟩
  if s.width = 0 then s.output else s.output ++ [s.byte]

/-- The number of bytes that hold a number of draws. -/
def packedLength (drawCount : ℕ) : ℕ := (drawCount + 7) / 8

def unpackDraws (packed : Packed) (drawCount : ℕ) : Except PyError (List Bool) := do
  require (packed.length = packedLength drawCount)
    (.valueError "packed Bernoulli transcript shape is invalid")
  let draws := (List.range drawCount).map (bitAt packed)
  let trailing := drawCount % 8
  require (¬ (trailing ≠ 0 ∧ (packed.getLast?.getD 0) >>> trailing ≠ 0))
    (.valueError "packed Bernoulli transcript has nonzero trailing bits")
  return draws

/-! ## The packed form of a transcript -/

/-- The bytes hold the draws, and nothing after them. -/
structure Packs (packed : Packed) (draws : List Bool) : Prop where
  length_eq : packed.length = packedLength draws.length
  bits : ∀ i, bitAt packed i = draws.getD i false

theorem bitAt_append (output : Packed) (byte : BitVec 8) (i : ℕ) :
    bitAt (output ++ [byte]) i =
      if i / 8 < output.length then bitAt output i
      else if i / 8 = output.length then byte.getLsbD (i % 8) else false := by
  unfold bitAt
  grind

/-- The packing loop has recorded the draws so far. -/
structure Packing.Holds (s : Packing) (draws : List Bool) : Prop where
  width_eq : s.width = draws.length % 8
  length_eq : s.output.length = draws.length / 8
  bits : ∀ i, bitAt (s.output ++ [s.byte]) i = draws.getD i false

theorem Packing.Holds.push {s : Packing} {draws : List Bool} (h : s.Holds draws) (draw : Bool) :
    (s.push draw).Holds (draws ++ [draw]) := by
  obtain ⟨hwidth, hlength, hbits⟩ := h
  set byte := if draw then s.byte ||| (1#8 <<< s.width) else s.byte with hbyte
  have hbit : ∀ k < 8, byte.getLsbD k = (s.byte.getLsbD k || (draw && decide (k = s.width))) := by
    intro k hk
    cases draw
    · simp [hbyte]
    · simp [hbyte, BitVec.getLsbD_or, BitVec.getLsbD_shiftLeft]
      grind
  have hnext : ∀ i, bitAt (s.output ++ [byte]) i = (draws ++ [draw]).getD i false := by
    intro i
    have hi := hbits i
    rw [bitAt_append] at hi ⊢
    rw [hbit (i % 8) (Nat.mod_lt _ (by omega))]
    grind
  unfold Packing.push
  dsimp only
  split
  · refine ⟨by simp; omega, by simp; omega, fun i => ?_⟩
    rw [← hnext i, bitAt_append]
    rw [bitAt_append]
    grind
  · exact ⟨by simp; omega, by simp; omega, hnext⟩

theorem packs_packDraws (draws : List Bool) : Packs (packDraws draws) draws := by
  have key : ∀ (l past : List Bool) (s : Packing), s.Holds past →
      (l.foldl Packing.push s).Holds (past ++ l) := by
    intro l
    induction l with
    | nil => exact fun past s h => by simpa using h
    | cons draw l ih => exact fun past s h => by simpa using ih _ _ (h.push draw)
  obtain ⟨hwidth, hlength, hbits⟩ := key draws [] ⟨[], 0, 0⟩
    ⟨rfl, rfl, fun i => by simp [bitAt]⟩
  rw [List.nil_append] at hwidth hlength hbits
  unfold packDraws
  set s := draws.foldl Packing.push ⟨[], 0, 0⟩
  dsimp only
  split
  · refine ⟨by unfold packedLength; omega, fun i => ?_⟩
    rw [← hbits i, bitAt_append]
    have hlow := hbits i
    rw [bitAt_append] at hlow
    unfold bitAt
    grind
  · exact ⟨by simp [packedLength]; omega, hbits⟩

theorem shiftRight_eq_zero {byte : BitVec 8} {k : ℕ} :
    byte >>> k = 0 ↔ ∀ j, k ≤ j → byte.getLsbD j = false := by
  constructor
  · intro h j hj
    have hbit := congrArg (fun b : BitVec 8 => b.getLsbD (j - k)) h
    simpa [BitVec.getLsbD_ushiftRight, Nat.add_sub_cancel' hj] using hbit
  · intro h
    refine BitVec.eq_of_getLsbD_eq fun j _ => ?_
    simpa [BitVec.getLsbD_ushiftRight] using h (k + j) (by omega)

/-- The bits after the last draw are those of the last byte. -/
theorem trailing_eq_zero {packed : Packed} {n : ℕ} (h : packed.length = packedLength n) :
    ¬ (n % 8 ≠ 0 ∧ (packed.getLast?.getD 0) >>> (n % 8) ≠ 0) ↔
      ∀ i, n ≤ i → bitAt packed i = false := by
  unfold packedLength at h
  have hlast : ∀ i, n ≤ i → i / 8 < packed.length →
      n % 8 ≠ 0 ∧ n % 8 ≤ i % 8 ∧ bitAt packed i = (packed.getLast?.getD 0).getLsbD (i % 8) := by
    intro i hi hlt
    refine ⟨by omega, by omega, ?_⟩
    rw [bitAt, List.getLast?_eq_getElem?, List.getD_eq_getElem?_getD,
      show i / 8 = packed.length - 1 by omega]
  constructor
  · intro htrailing i hi
    by_cases hlt : i / 8 < packed.length
    · obtain ⟨hne, hle, hbit⟩ := hlast i hi hlt
      rw [hbit]
      exact shiftRight_eq_zero.mp (not_not.mp fun hz => htrailing ⟨hne, hz⟩) _ hle
    · unfold bitAt
      grind
  · rintro hbits ⟨hne, htrailing⟩
    refine htrailing (shiftRight_eq_zero.mpr fun j hj => ?_)
    by_cases hj8 : j < 8
    · have hi := hbits (8 * (n / 8) + j) (by omega)
      obtain ⟨-, -, hbit⟩ := hlast (8 * (n / 8) + j) (by omega) (by omega)
      rwa [hbit, show (8 * (n / 8) + j) % 8 = j by omega] at hi
    · exact BitVec.getLsbD_of_ge _ _ (by omega)

theorem unpackDraws_eq_ok {packed : Packed} {n : ℕ} {draws : List Bool} :
    unpackDraws packed n = .ok draws ↔ draws.length = n ∧ Packs packed draws := by
  constructor
  · intro h
    obtain ⟨_, hlength, h⟩ := bind_eq_ok.mp h
    obtain ⟨_, htrailing, h⟩ := bind_eq_ok.mp h
    obtain rfl := pure_eq_ok.mp h
    rw [require_eq_ok] at hlength htrailing
    have hzero := (trailing_eq_zero hlength).mp htrailing
    refine ⟨by simp, by simpa using hlength, fun i => ?_⟩
    by_cases hi : i < n
    · simp [hi]
    · simp [hi, hzero i (by omega)]
  · rintro ⟨rfl, hlength, hbits⟩
    refine bind_eq_ok.mpr ⟨(), require_eq_ok.mpr hlength, bind_eq_ok.mpr
      ⟨(), require_eq_ok.mpr ((trailing_eq_zero hlength).mpr fun i hi => ?_), ?_⟩⟩
    · simp [hbits i, hi]
    · refine congrArg Except.ok (List.ext_getElem (by simp) fun i hi hi' => ?_)
      simp [hbits i, hi']

theorem Packs.unique {packed packed' : Packed} {draws : List Bool} (h : Packs packed draws)
    (h' : Packs packed' draws) : packed = packed' := by
  refine List.ext_getElem (h.length_eq.trans h'.length_eq.symm) fun k hk hk' => ?_
  refine BitVec.eq_of_getLsbD_eq fun j hj => ?_
  have hbit := (h.bits (8 * k + j)).trans (h'.bits (8 * k + j)).symm
  have hdiv : (8 * k + j) / 8 = k := by omega
  have hmod : (8 * k + j) % 8 = j := by omega
  simpa [bitAt, hdiv, hmod, hk, hk'] using hbit

end Acfqp.Confidence

/-!
## Bounded acquisition of one Bernoulli row

Draws are polled from a source up to each scheduled checkpoint in turn, until an interval is narrow
enough, the schedule ends or the source does. A result records the packed draws, and the verifier
rebuilds every checkpoint from them.
-/

namespace Acfqp.Confidence

open Library

/-- Identity chain for one target-local Bernoulli proof obligation. -/
structure TargetLocalBernoulliRowBinding where
  structuralId : ContentId
  targetContextId : ContentId
  targetRowId : ContentId
  drawSourceId : ContentId
  outcomeSemanticsId : ContentId
  rowKey : String
  rowKey_named : rowKey ≠ "" ∧ rowKey.length ≤ 512
  deriving DecidableEq

inductive SequentialBernoulliOutcome where
  | certifiedTargetLocalInterval
  | capExhausted
  | sourceExhausted
  deriving DecidableEq

structure SequentialBernoulliCounters where
  targetDrawCalls : ℕ
  sourcePollCalls : ℕ
  checkpointEvaluations : ℕ
  exactLikelihoodComparisons : ℕ
  logSearchEvaluations : ℕ
  capChecks : ℕ
  transcriptBitsRecorded : ℕ
  packedTranscriptBytes : ℕ
  polled : targetDrawCalls ≤ sourcePollCalls
  checked : checkpointEvaluations = capChecks
  recorded : transcriptBitsRecorded = targetDrawCalls
  packed : packedTranscriptBytes = packedLength targetDrawCalls
  deriving DecidableEq

/-- `_counters`: the counters of a replayed transcript. -/
def counters (drawCount sourcePollCalls : ℕ) (checkpoints : List AnytimeBernoulliCheckpoint) :
    Except PyError SequentialBernoulliCounters :=
  if h : drawCount ≤ sourcePollCalls then
    .ok ⟨drawCount, sourcePollCalls, checkpoints.length,
      (checkpoints.map AnytimeBernoulliCheckpoint.exactLikelihoodComparisons).sum,
      (checkpoints.map AnytimeBernoulliCheckpoint.logSearchEvaluations).sum,
      checkpoints.length, drawCount, packedLength drawCount, h, rfl, rfl, rfl⟩
  else .error (.valueError "sequential Bernoulli counters do not reconcile")

/-! ## Results -/

def expectedCheckpointDrawCounts (drawCount : ℕ) (profile : SequentialBernoulliProfile) :
    List ℕ :=
  let scheduled := profile.checkpoints.filter (· ≤ drawCount)
  if drawCount = 0 ∨ scheduled.getLast? = some drawCount then scheduled
  else scheduled ++ [drawCount]

structure SequentialBernoulliAcquisition where
  binding : TargetLocalBernoulliRowBinding
  profile : SequentialBernoulliProfile
  outcome : SequentialBernoulliOutcome
  drawCount : ℕ
  successCount : ℕ
  packedDraws : Packed
  checkpoints : List AnytimeBernoulliCheckpoint
  counters : SequentialBernoulliCounters
  deriving DecidableEq

namespace SequentialBernoulliAcquisition

def targetWidth (profile : SequentialBernoulliProfile) : ℚ := 2 * profile.targetHalfWidth

def finalCheckpoint (result : SequentialBernoulliAcquisition) :
    Option AnytimeBernoulliCheckpoint :=
  result.checkpoints.getLast?

def FinalWidth (result : SequentialBernoulliAcquisition) (test : ℚ → Prop) : Prop :=
  ∃ final ∈ result.finalCheckpoint, test final.intervalWidth

instance (result : SequentialBernoulliAcquisition) (test : ℚ → Prop) [DecidablePred test] :
    Decidable (result.FinalWidth test) :=
  match h : result.finalCheckpoint with
  | none => isFalse fun ⟨_, hmem, _⟩ => by simp [h] at hmem
  | some final => decidable_of_iff (test final.intervalWidth) (by simp [FinalWidth, h])

/-- The checks of `SequentialBernoulliAcquisitionV1.__post_init__`. -/
def check (result : SequentialBernoulliAcquisition) : Except PyError Unit := do
  let profile := result.profile
  require (result.drawCount ≤ profile.maxDraws ∧ result.successCount ≤ result.drawCount ∧
      result.checkpoints.map AnytimeBernoulliCheckpoint.drawCount =
        expectedCheckpointDrawCounts result.drawCount profile ∧
      result.counters.targetDrawCalls = result.drawCount ∧
      result.counters.checkpointEvaluations = result.checkpoints.length ∧
      result.counters.exactLikelihoodComparisons =
        (result.checkpoints.map AnytimeBernoulliCheckpoint.exactLikelihoodComparisons).sum ∧
      result.counters.logSearchEvaluations =
        (result.checkpoints.map AnytimeBernoulliCheckpoint.logSearchEvaluations).sum)
    (.valueError "sequential acquisition structure or claim scope changed")
  let draws ← unpackDraws result.packedDraws result.drawCount
  require (draws.count true = result.successCount)
    (.valueError "transcript successes do not match result counts")
  require (∀ item ∈ result.checkpoints.dropLast, item.drawCount ∈ profile.checkpoints →
      ¬ item.intervalWidth ≤ targetWidth profile)
    (.valueError "acquisition continued after its first certified checkpoint")
  match result.outcome with
  | .certifiedTargetLocalInterval =>
    require (result.drawCount ∈ profile.checkpoints ∧
        result.FinalWidth (· ≤ targetWidth profile) ∧
        result.counters.sourcePollCalls = result.drawCount)
      (.valueError "certified acquisition did not meet the stopping rule")
  | .capExhausted =>
    require (result.drawCount = profile.maxDraws ∧
        result.FinalWidth (targetWidth profile < ·) ∧
        result.counters.sourcePollCalls = result.drawCount)
      (.valueError "cap exhaustion is not fail-closed")
  | .sourceExhausted =>
    require (result.drawCount < profile.maxDraws ∧
        result.counters.sourcePollCalls = result.drawCount + 1)
      (.valueError "source exhaustion chronology is invalid")

/-- A checked result. -/
def make (result : SequentialBernoulliAcquisition) :
    Except PyError SequentialBernoulliAcquisition := do
  check result
  return result

end SequentialBernoulliAcquisition

/-! ## The acquirer -/

structure Observed where
  draws : List Bool
  checkpoints : List AnytimeBernoulliCheckpoint
  successCount : ℕ
  sourcePollCalls : ℕ

/-- `_result`: the result of what was observed. -/
def acquisitionResult (binding : TargetLocalBernoulliRowBinding)
    (profile : SequentialBernoulliProfile) (outcome : SequentialBernoulliOutcome)
    (observed : Observed) : Except PyError SequentialBernoulliAcquisition := do
  let packed := packDraws observed.draws
  let counted ← counters observed.draws.length observed.sourcePollCalls observed.checkpoints
  SequentialBernoulliAcquisition.make ⟨binding, profile, outcome, observed.draws.length,
    observed.draws.count true, packed, observed.checkpoints, counted⟩

/-- Poll a number of draws from the source, whose answer to each poll is a draw or its end. Returns
what was observed, and whether the source ended. -/
def poll (source : ℕ → Option Bool) (observed : Observed) : ℕ → Observed × Bool
  | 0 => (observed, false)
  | missing + 1 =>
    let polled := { observed with sourcePollCalls := observed.sourcePollCalls + 1 }
    match source observed.sourcePollCalls with
    | none => (polled, true)
    | some draw => poll source { polled with
        draws := observed.draws ++ [draw]
        successCount := observed.successCount + if draw then 1 else 0 } missing

section Acquirer

variable {Z : Type}

def evaluateCheckpoint (platform : Platform Z) (profile : SequentialBernoulliProfile)
    (observed : Observed) : Except PyError AnytimeBernoulliCheckpoint :=
  buildAnytimeBernoulliCheckpoint platform observed.draws.length observed.successCount profile

def closeCheckpoints (platform : Platform Z) (profile : SequentialBernoulliProfile)
    (observed : Observed) : Except PyError (List AnytimeBernoulliCheckpoint) :=
  if observed.draws ≠ [] ∧ observed.checkpoints.getLast?.map AnytimeBernoulliCheckpoint.drawCount ≠
      some observed.draws.length then do
    let final ← evaluateCheckpoint platform profile observed
    return observed.checkpoints ++ [final]
  else .ok observed.checkpoints

/-- The loop over the checkpoints still scheduled. -/
def acquireFrom (platform : Platform Z) (binding : TargetLocalBernoulliRowBinding)
    (profile : SequentialBernoulliProfile) (source : ℕ → Option Bool) (observed : Observed) :
    List ℕ → Except PyError SequentialBernoulliAcquisition
  | [] => acquisitionResult binding profile .capExhausted observed
  | scheduledDrawCount :: rest =>
    let polled := poll source observed (scheduledDrawCount - observed.draws.length)
    if polled.2 then do
      let checkpoints ← closeCheckpoints platform profile polled.1
      acquisitionResult binding profile .sourceExhausted
        { polled.1 with checkpoints := checkpoints }
    else do
      let current ← evaluateCheckpoint platform profile polled.1
      let observed := { polled.1 with checkpoints := polled.1.checkpoints ++ [current] }
      if current.intervalWidth ≤ SequentialBernoulliAcquisition.targetWidth profile then
        acquisitionResult binding profile .certifiedTargetLocalInterval observed
      else acquireFrom platform binding profile source observed rest

def acquireSequentialBernoulliRow (platform : Platform Z)
    (binding : TargetLocalBernoulliRowBinding) (profile : SequentialBernoulliProfile)
    (source : ℕ → Option Bool) : Except PyError SequentialBernoulliAcquisition :=
  acquireFrom platform binding profile source ⟨[], [], 0, 0⟩ profile.checkpoints

end Acquirer

/-! ## Content ids -/

/-- The digests of the canonical bytes of an acquisition's documents. -/
structure AcquisitionIds where
  binding : TargetLocalBernoulliRowBinding → ContentId
  profile : SequentialBernoulliProfile → ContentId
  result : SequentialBernoulliAcquisition → ContentId

/-- `_content_id`: the digest of a payload with these integers, each of which is rendered. -/
def contentId (integers : List ℤ) (digest : ContentId) : Except PyError ContentId :=
  match integers.mapM Encoding.unlimitedDecimalInteger with
  | .ok _ => .ok digest
  | .error (.identity message) | .error (.valueError message) =>
    .error (.valueError ("value is not canonical UTF-8 JSON: " ++ message))

def fdoc (value : ℚ) : List ℤ := [value.num, value.den]

namespace SequentialBernoulliProfile

def minDraws (profile : SequentialBernoulliProfile) : ℕ :=
  profile.checkpoints.head profile.checkpoints_ne_nil

def payload (profile : SequentialBernoulliProfile) : List ℤ :=
  fdoc profile.confidenceAlpha ++ fdoc profile.targetHalfWidth ++
    profile.checkpoints.map Nat.cast ++
    [(profile.minDraws : ℤ), (profile.maxDraws : ℤ), (profile.boundaryGridBits : ℤ)]

end SequentialBernoulliProfile

def AnytimeBernoulliCheckpoint.toDocument (item : AnytimeBernoulliCheckpoint) : List ℤ :=
  [(item.drawCount : ℤ), (item.successCount : ℤ)] ++ fdoc item.empiricalProbability ++
    fdoc item.mixtureSequenceMass ++ fdoc item.rejectionLikelihoodThreshold ++
    fdoc item.lowerProbability ++ fdoc item.upperProbability ++ fdoc item.intervalWidth ++
    [(item.exactLikelihoodComparisons : ℤ), (item.logSearchEvaluations : ℤ)]

def SequentialBernoulliCounters.toDocument (counters : SequentialBernoulliCounters) : List ℤ :=
  [counters.targetDrawCalls, counters.sourcePollCalls, counters.checkpointEvaluations,
    counters.exactLikelihoodComparisons, counters.logSearchEvaluations, counters.capChecks,
    counters.transcriptBitsRecorded, counters.packedTranscriptBytes, 0, 0, 0].map Nat.cast

namespace SequentialBernoulliAcquisition

def identityPayload (result : SequentialBernoulliAcquisition) : List ℤ :=
  [(result.drawCount : ℤ), (result.successCount : ℤ), (result.packedDraws.length : ℤ)] ++
    result.checkpoints.flatMap AnytimeBernoulliCheckpoint.toDocument ++ result.counters.toDocument

end SequentialBernoulliAcquisition

namespace AcquisitionIds

variable (ids : AcquisitionIds)

/-- A binding's only integers are its three zero counts. -/
def bindingId (binding : TargetLocalBernoulliRowBinding) : Except PyError ContentId :=
  contentId [0, 0, 0] (ids.binding binding)

def profileId (profile : SequentialBernoulliProfile) : Except PyError ContentId :=
  contentId profile.payload (ids.profile profile)

def acquisitionId (result : SequentialBernoulliAcquisition) : Except PyError ContentId := do
  let _ ← ids.bindingId result.binding
  let _ ← ids.profileId result.profile
  contentId result.identityPayload (ids.result result)

end AcquisitionIds

structure SequentialBernoulliVerification where
  acquisitionId : ContentId
  bindingId : ContentId
  profileId : ContentId
  outcome : SequentialBernoulliOutcome
  replayedDraws : ℕ
  replayedCheckpoints : ℕ

section Verifier

variable {Z : Type}

/-- Rebuild the checkpoints at the given draw counts, after `cursor` draws with
`runningSuccesses` successes. -/
def replayCheckpoints (platform : Platform Z) (profile : SequentialBernoulliProfile)
    (draws : List Bool) (runningSuccesses cursor : ℕ) :
    List ℕ → Except PyError (List AnytimeBernoulliCheckpoint)
  | [] => .ok []
  | checkpointDrawCount :: rest => do
    let successes :=
      runningSuccesses + ((draws.take checkpointDrawCount).drop cursor).count true
    let checkpoint ←
      buildAnytimeBernoulliCheckpoint platform checkpointDrawCount successes profile
    let replayed ←
      replayCheckpoints platform profile draws successes checkpointDrawCount rest
    return checkpoint :: replayed

def verifySequentialBernoulliAcquisition (platform : Platform Z) (ids : AcquisitionIds)
    (result : SequentialBernoulliAcquisition) :
    Except PyError SequentialBernoulliVerification := do
  let draws ← unpackDraws result.packedDraws result.drawCount
  require (draws.count true = result.successCount)
    (.valueError "verification transcript count mismatch")
  let replayed ← replayCheckpoints platform result.profile draws 0 0
    (expectedCheckpointDrawCounts result.drawCount result.profile)
  require (replayed = result.checkpoints)
    (.valueError "confidence boundaries failed exact transcript replay")
  let expectedCounters ← counters result.drawCount result.counters.sourcePollCalls replayed
  require (expectedCounters = result.counters)
    (.valueError "acquisition counters failed replay")
  let replayResult ← SequentialBernoulliAcquisition.make
    { result with checkpoints := replayed, counters := expectedCounters }
  let replayId ← ids.acquisitionId replayResult
  let acquisitionId ← ids.acquisitionId result
  require (replayId = acquisitionId)
    (.valueError "acquisition identity failed deterministic replay")
  let bindingId ← ids.bindingId result.binding
  let profileId ← ids.profileId result.profile
  return ⟨acquisitionId, bindingId, profileId, result.outcome, result.drawCount, replayed.length⟩

end Verifier

end Acfqp.Confidence
