import Acfqp.Library.Grouping
import Acfqp.Voi.Predictive

/-!
# Fantasies of a row

The base value of information of a candidate row averages a gap reduction over all count vectors of
the next block. The artifacts check that the masses of each fantasy and the probabilities of all
fantasies add up to one.
-/

namespace Acfqp.Voi

open Library

variable {ι : Type} [LinearOrder ι]

def maxDevelopmentNextBlockSize : ℕ := 8

/-! ## Artifacts -/

structure CurrentRowCountEvidence (ι : Type) [LinearOrder ι] where
  evidenceId : ι
  destinationIds : List ι
  counts : List ℕ
  otherDestinationId : ι
  sorted : destinationIds.Pairwise (· < ·)
  length_eq : counts.length = destinationIds.length
  observed : 0 < counts.sum
  other_mem : destinationIds.count otherDestinationId = 1

structure DevelopmentKTFantasy (ι : Type) where
  candidateId : ι
  rowEvidenceId : ι
  nextBlockSize : ℕ
  destinationIds : List ι
  additionalCounts : List ℕ
  predictiveProbability : ℚ
  posteriorPredictiveMasses : List ℚ
  fantasyModelId : ι
  fantasyAuditId : ι
  proofGapAfter : ℚ
  proofGapReduction : ℚ
  wouldCertifyInProposalFantasy : Bool
  otherDestinationId : ι

/-- The checks of `DevelopmentKTFantasyV1.__post_init__`. -/
def DevelopmentKTFantasy.check (f : DevelopmentKTFantasy ι) : Except VoiError Unit :=
  require (f.destinationIds ≠ [] ∧ f.destinationIds.Pairwise (· < ·) ∧
      (1 ≤ f.nextBlockSize ∧ f.nextBlockSize ≤ maxDevelopmentNextBlockSize) ∧
      f.additionalCounts.length = f.destinationIds.length ∧
      f.additionalCounts.sum = f.nextBlockSize ∧
      (0 < f.predictiveProbability ∧ f.predictiveProbability ≤ 1) ∧
      f.posteriorPredictiveMasses.length = f.destinationIds.length ∧
      (∀ value ∈ f.posteriorPredictiveMasses, 0 ≤ value ∧ value ≤ 1) ∧
      f.posteriorPredictiveMasses.sum = 1 ∧
      0 ≤ min f.proofGapAfter f.proofGapReduction ∧
      f.destinationIds.count f.otherDestinationId = 1)
    (.invariant "KT fantasy is inexact, introduces support, or claims authority")

structure DevelopmentTargetOnlyBoundaryVoi (ι : Type) where
  candidateId : ι
  candidateRowEvidenceId : ι
  proofDagId : ι
  nextBlockSize : ℕ
  fantasies : List (DevelopmentKTFantasy ι)
  currentProofGap : ℚ
  expectedGapReduction : ℚ
  baseVoiPerDraw : ℚ
  certifyingFantasyProbability : ℚ

/-- The checks of `DevelopmentTargetOnlyBoundaryVOIV1.__post_init__`. -/
def DevelopmentTargetOnlyBoundaryVoi.check (fantasyId : DevelopmentKTFantasy ι → ι)
    (v : DevelopmentTargetOnlyBoundaryVoi ι) : Except VoiError Unit :=
  require ((1 ≤ v.nextBlockSize ∧ v.nextBlockSize ≤ maxDevelopmentNextBlockSize) ∧
      v.fantasies ≠ [] ∧ (v.fantasies.map fantasyId).Pairwise (· < ·) ∧
      (∀ f ∈ v.fantasies, f.candidateId = v.candidateId ∧
        f.rowEvidenceId = v.candidateRowEvidenceId ∧ f.nextBlockSize = v.nextBlockSize) ∧
      (v.fantasies.map (·.predictiveProbability)).sum = 1 ∧
      0 < v.currentProofGap ∧
      v.expectedGapReduction =
        (v.fantasies.map fun f => f.predictiveProbability * f.proofGapReduction).sum ∧
      v.baseVoiPerDraw = v.expectedGapReduction / v.nextBlockSize ∧
      v.certifyingFantasyProbability = ((v.fantasies.filter
        (·.wouldCertifyInProposalFantasy)).map (·.predictiveProbability)).sum)
    (.invariant "target-only base VOI is stale or source-contaminated")

/-! ## The base value -/

/-- The audit of the model whose row has given point masses. -/
structure FantasyAudit (ι : Type) where
  modelId : ι
  auditId : ι
  proofGap : ℚ
  certified : Bool
  proofGap_nonneg : 0 ≤ proofGap

/-- The failed proof whose gap the fantasies are compared with. -/
structure FailedProof (ι : Type) where
  dagId : ι
  currentProofGap : ℚ
  currentProofGap_pos : 0 < currentProofGap

section BaseVoi

variable (fantasyId : DevelopmentKTFantasy ι → ι)
  (solveLikeCurrentAudit : List ℚ → Except VoiError (FantasyAudit ι))
  (proof : FailedProof ι) (candidateId : ι) (evidence : CurrentRowCountEvidence ι)
  (nextBlockSize : ℕ)

def fantasyOf (additional : List ℕ) : Except VoiError (DevelopmentKTFantasy ι) := do
  let probability ← ktFantasyProbability evidence.counts additional
  let pointMasses := posteriorPredictiveMasses evidence.counts additional
  let audit ← solveLikeCurrentAudit pointMasses
  let reduction := max 0 (proof.currentProofGap - audit.proofGap)
  let fantasy : DevelopmentKTFantasy ι := {
    candidateId := candidateId
    rowEvidenceId := evidence.evidenceId
    nextBlockSize := nextBlockSize
    destinationIds := evidence.destinationIds
    additionalCounts := additional
    predictiveProbability := probability
    posteriorPredictiveMasses := pointMasses
    fantasyModelId := audit.modelId
    fantasyAuditId := audit.auditId
    proofGapAfter := audit.proofGap
    proofGapReduction := reduction
    wouldCertifyInProposalFantasy := audit.certified && audit.proofGap = 0
    otherDestinationId := evidence.otherDestinationId }
  fantasy.check
  return fantasy

def candidateBaseVoi : Except VoiError (DevelopmentTargetOnlyBoundaryVoi ι) := do
  let vectors ← compositions nextBlockSize evidence.destinationIds.length
  let fantasies ← vectors.mapM
    (fantasyOf solveLikeCurrentAudit proof candidateId evidence nextBlockSize)
  let fantasies := sortBy fantasyId fantasies
  let expected := (fantasies.map fun f => f.predictiveProbability * f.proofGapReduction).sum
  let voi : DevelopmentTargetOnlyBoundaryVoi ι := {
    candidateId := candidateId
    candidateRowEvidenceId := evidence.evidenceId
    proofDagId := proof.dagId
    nextBlockSize := nextBlockSize
    fantasies := fantasies
    currentProofGap := proof.currentProofGap
    expectedGapReduction := expected
    baseVoiPerDraw := expected / nextBlockSize
    certifyingFantasyProbability := ((fantasies.filter
      (·.wouldCertifyInProposalFantasy)).map (·.predictiveProbability)).sum }
  voi.check fantasyId
  return voi

end BaseVoi

/-! ## The law of the blocks -/

/-- The probabilities and the masses of all blocks of a length. -/
structure PredictiveLaw (counts : List ℕ) (n : ℕ) (vectors : List (List ℕ)) (p : List ℕ → ℚ) :
    Prop where
  nodup : vectors.Nodup
  mem_iff : ∀ a, a ∈ vectors ↔ a.length = counts.length ∧ a.sum = n
  probability : ∀ a ∈ vectors, ktFantasyProbability counts a = .ok (p a)
  positive : ∀ a ∈ vectors, 0 < p a
  normalized : (vectors.map p).sum = 1
  exchangeable : ∀ a ∈ vectors, p a =
    ∑ s ∈ Urn.words (Fin counts.length) n with List.ofFn (Urn.counts s) = a,
      sequenceProbability counts (s.map Fin.val)
  tower : ∀ j < counts.length,
    (vectors.map fun a => p a * (posteriorPredictiveMasses counts a).getD j 0).sum =
      (posteriorPredictiveMasses counts (List.replicate counts.length 0)).getD j 0

theorem exists_ofFn {k : ℕ} {l : List ℕ} (h : l.length = k) : ∃ f : Fin k → ℕ, l = List.ofFn f := by
  subst h
  exact ⟨l.get, (List.ofFn_get l).symm⟩

theorem posteriorPredictiveMasses_distribution {counts a : List ℕ} (hne : counts ≠ [])
    (hlength : a.length = counts.length) :
    (posteriorPredictiveMasses counts a).length = counts.length ∧
      (∀ value ∈ posteriorPredictiveMasses counts a, 0 ≤ value ∧ value ≤ 1) ∧
      (posteriorPredictiveMasses counts a).sum = 1 := by
  obtain ⟨c, hc⟩ := exists_ofFn (rfl : counts.length = counts.length)
  obtain ⟨b, rfl⟩ := exists_ofFn hlength
  have hk : 0 < counts.length := List.length_pos_iff.mpr hne
  have hfilled : Urn.Filled fun i => weights c i + b i :=
    ⟨(filled_weights hk c).nonempty, fun i =>
      add_pos_of_pos_of_nonneg ((filled_weights hk c).pos i) (Nat.cast_nonneg _)⟩
  have hmasses : posteriorPredictiveMasses counts (List.ofFn b) =
      List.ofFn (Urn.mass fun i => weights c i + b i) := by
    rw [← posteriorPredictiveMasses_eq, ← hc]
  rw [hmasses]
  refine ⟨List.length_ofFn, fun value hvalue => ?_, by rw [List.sum_ofFn, hfilled.sum_mass]⟩
  obtain ⟨i, rfl⟩ := List.mem_ofFn.mp hvalue
  refine ⟨(hfilled.mass_pos i).le, ?_⟩
  rw [← hfilled.sum_mass]
  exact Finset.single_le_sum (fun j _ => (hfilled.mass_pos j).le) (Finset.mem_univ i)

theorem exists_predictiveLaw {counts : List ℕ} (hne : counts ≠ []) (n : ℕ) :
    ∃ vectors p, compositions n counts.length = .ok vectors ∧ PredictiveLaw counts n vectors p := by
  have hpos : 0 < counts.length := List.length_pos_iff.mpr hne
  obtain ⟨c, hc⟩ := exists_ofFn (rfl : counts.length = counts.length)
  have hfilled := filled_weights hpos c
  obtain ⟨vectors, hvectors, hnodup, hmem⟩ := compositions_returns n (counts.length - 1)
  rw [Nat.sub_add_cancel hpos] at hvectors hmem
  -- the probability of a vector, read through its entries
  let p : List ℕ → ℚ := fun a => Urn.blockMass (weights c) fun i => a.getD i 0
  have hp : ∀ b : Fin counts.length → ℕ, p (List.ofFn b) = Urn.blockMass (weights c) b :=
    fun b => congrArg (Urn.blockMass (weights c)) (funext fun i => getD_ofFn b i 0)
  have hprobability : ∀ b : Fin counts.length → ℕ, ktFantasyProbability counts (List.ofFn b) =
      .ok (p (List.ofFn b)) := by
    intro b
    rw [hp, ← ktFantasyProbability_eq hpos c b, ← hc]
  have hmasses : ∀ b : Fin counts.length → ℕ, posteriorPredictiveMasses counts (List.ofFn b) =
      List.ofFn (Urn.mass fun i => weights c i + b i) := by
    intro b
    rw [← posteriorPredictiveMasses_eq, ← hc]
  refine ⟨vectors, p, hvectors, ⟨hnodup, hmem, fun a ha => ?_, fun a _ => ?_, ?_, fun a ha => ?_,
    fun j hj => ?_⟩⟩
  · obtain ⟨b, rfl⟩ := exists_ofFn ((hmem a).mp ha).1
    exact hprobability b
  · exact hfilled.blockMass_pos _
  · rw [sum_compositions hnodup hmem, Finset.sum_congr rfl fun b _ => hp b]
    exact hfilled.sum_blockMass n
  · obtain ⟨hlength, rfl⟩ := (hmem a).mp ha
    obtain ⟨b, rfl⟩ := exists_ofFn hlength
    rw [hp, ← hfilled.sum_wordMass b, List.sum_ofFn]
    refine Finset.sum_congr (Finset.filter_congr fun s _ => List.ofFn_injective.eq_iff.symm)
      fun s _ => ?_
    rw [← sequenceProbability_eq, ← hc]
  · have hnow : (posteriorPredictiveMasses counts (List.replicate counts.length 0)).getD j 0 =
        Urn.mass (weights c) ⟨j, hj⟩ := by
      rw [← predictive_getD, ← hc]
    have hterm : ∀ b : Fin counts.length → ℕ, p (List.ofFn b) *
        (posteriorPredictiveMasses counts (List.ofFn b)).getD j 0 =
          Urn.blockMass (weights c) b * Urn.mass (fun i => weights c i + b i) ⟨j, hj⟩ := by
      intro b
      rw [hp, hmasses]
      exact congrArg _ (getD_ofFn _ ⟨j, hj⟩ 0)
    rw [sum_compositions hnodup hmem, Finset.sum_congr rfl fun b _ => hterm b, hnow]
    exact hfilled.sum_blockMass_mass n ⟨j, hj⟩

theorem PredictiveLaw.le_one {counts : List ℕ} {n : ℕ} {vectors : List (List ℕ)} {p : List ℕ → ℚ}
    (h : PredictiveLaw counts n vectors p) {a : List ℕ} (ha : a ∈ vectors) : p a ≤ 1 := by
  rw [← h.normalized]
  refine List.single_le_sum (fun x hx => ?_) _ (List.mem_map_of_mem ha)
  obtain ⟨b, hb, rfl⟩ := List.mem_map.mp hx
  exact (h.positive b hb).le

/-! ## No check fails -/

section

variable {fantasyId : DevelopmentKTFantasy ι → ι}
  {solveLikeCurrentAudit : List ℚ → Except VoiError (FantasyAudit ι)} {proof : FailedProof ι}
  {candidateId : ι} {evidence : CurrentRowCountEvidence ι} {nextBlockSize : ℕ}

theorem CurrentRowCountEvidence.counts_ne (evidence : CurrentRowCountEvidence ι) :
    evidence.counts ≠ [] := by
  intro h
  have := evidence.observed
  simp [h] at this

/-- The fantasy of a block of counts, under the probability of the block. -/
def IsFantasy (candidateId : ι) (evidence : CurrentRowCountEvidence ι) (nextBlockSize : ℕ)
    (p : List ℕ → ℚ) (a : List ℕ) (f : DevelopmentKTFantasy ι) : Prop :=
  f.candidateId = candidateId ∧ f.rowEvidenceId = evidence.evidenceId ∧
    f.nextBlockSize = nextBlockSize ∧ f.additionalCounts = a ∧
    f.predictiveProbability = p a

theorem fantasyOf_returns (hblock : 1 ≤ nextBlockSize ∧ nextBlockSize ≤ maxDevelopmentNextBlockSize)
    {vectors : List (List ℕ)} {p : List ℕ → ℚ}
    (hlaw : PredictiveLaw evidence.counts nextBlockSize vectors p) {a : List ℕ} (ha : a ∈ vectors)
    {audit : FantasyAudit ι}
    (haudit : solveLikeCurrentAudit (posteriorPredictiveMasses evidence.counts a) = .ok audit) :
    ∃ f, fantasyOf solveLikeCurrentAudit proof candidateId evidence nextBlockSize a = .ok f ∧
      IsFantasy candidateId evidence nextBlockSize p a f := by
  obtain ⟨hlength, hsum⟩ := (hlaw.mem_iff a).mp ha
  obtain ⟨hmasses, hrange, htotal⟩ :=
    posteriorPredictiveMasses_distribution evidence.counts_ne hlength
  have hdestinations : evidence.destinationIds ≠ [] := by
    rw [ne_eq, ← List.length_eq_zero_iff, ← evidence.length_eq, List.length_eq_zero_iff]
    exact evidence.counts_ne
  refine ⟨_, bind_eq_ok.mpr ⟨_, hlaw.probability a ha, bind_eq_ok.mpr ⟨_, haudit,
    bind_eq_ok.mpr ⟨(), require_eq_ok.mpr ?_, rfl⟩⟩⟩, rfl, rfl, rfl, rfl, rfl⟩
  exact ⟨hdestinations, evidence.sorted, hblock, hlength.trans evidence.length_eq, hsum,
    ⟨hlaw.positive a ha, hlaw.le_one ha⟩, hmasses.trans evidence.length_eq, hrange, htotal,
    le_min audit.proofGap_nonneg (le_max_left _ _), evidence.other_mem⟩

theorem candidateBaseVoi_returns (hid : fantasyId.Injective)
    (hblock : 1 ≤ nextBlockSize ∧ nextBlockSize ≤ maxDevelopmentNextBlockSize)
    (haudits : ∀ a, a.length = evidence.counts.length → a.sum = nextBlockSize →
      ∃ audit, solveLikeCurrentAudit (posteriorPredictiveMasses evidence.counts a) = .ok audit) :
    ∃ voi, candidateBaseVoi fantasyId solveLikeCurrentAudit proof candidateId evidence
      nextBlockSize = .ok voi := by
  obtain ⟨vectors, p, hvectors, hlaw⟩ := exists_predictiveLaw evidence.counts_ne nextBlockSize
  have hfantasy : ∀ a ∈ vectors, ∃ f,
      fantasyOf solveLikeCurrentAudit proof candidateId evidence nextBlockSize a = .ok f ∧
      IsFantasy candidateId evidence nextBlockSize p a f := by
    intro a ha
    obtain ⟨hlength, hsum⟩ := (hlaw.mem_iff a).mp ha
    obtain ⟨audit, haudit⟩ := haudits a hlength hsum
    exact fantasyOf_returns hblock hlaw ha haudit
  obtain ⟨fantasies, hfantasies⟩ := mapM_returns fun a ha => (hfantasy a ha).imp fun _ h => h.1
  have hof : ∀ a ∈ vectors, ∀ f,
      fantasyOf solveLikeCurrentAudit proof candidateId evidence nextBlockSize a = .ok f →
      IsFantasy candidateId evidence nextBlockSize p a f := by
    intro a ha f hf
    obtain ⟨f', hf', h⟩ := hfantasy a ha
    cases hf'.symm.trans hf
    exact h
  have hcounts : fantasies.map (·.additionalCounts) = vectors := by
    rw [← List.map_id vectors]
    exact map_of_mapM hfantasies fun a ha f hf => (hof a ha f hf).2.2.2.1
  have hprobabilities : fantasies.map (·.predictiveProbability) = vectors.map p :=
    map_of_mapM hfantasies fun a ha f hf => (hof a ha f hf).2.2.2.2
  have hdistinct : (fantasies.map fantasyId).Nodup :=
    (List.Nodup.of_map _ (hcounts ▸ hlaw.nodup)).map hid
  have hne : fantasies ≠ [] := by
    rintro rfl
    have := hlaw.normalized
    rw [← hprobabilities] at this
    simp at this
  refine ⟨_, bind_eq_ok.mpr ⟨vectors, by rwa [← evidence.length_eq], bind_eq_ok.mpr
    ⟨fantasies, hfantasies, bind_eq_ok.mpr ⟨(), require_eq_ok.mpr ?_, rfl⟩⟩⟩⟩
  refine ⟨hblock, by simpa using hne, List.pairwise_map.mpr (pairwise_lt_sortBy hdistinct),
    fun f hf => ?_, ?_, proof.currentProofGap_pos, rfl, rfl, rfl⟩
  · obtain ⟨a, ha, hfantasyOf⟩ := mem_of_mapM hfantasies (mem_sortBy.mp hf)
    obtain ⟨hcandidate, hevidence, hsize, -⟩ := hof a ha f hfantasyOf
    exact ⟨hcandidate, hevidence, hsize⟩
  · rw [sum_map_sortBy, hprobabilities]
    exact hlaw.normalized

end

/-- For every count vector and block size, the predictive law of the block is a positive,
normalized, exchangeable and tower-consistent distribution over all its count vectors; and whatever
the audits of the fantasies return, no check of the fantasies or of their base value fails. -/
theorem ktPredictive_law :
    (∀ (counts : List ℕ) (n : ℕ), counts ≠ [] → ∃ vectors p,
      compositions n counts.length = .ok vectors ∧ PredictiveLaw counts n vectors p) ∧
    ∀ (fantasyId : DevelopmentKTFantasy ι → ι)
      (solveLikeCurrentAudit : List ℚ → Except VoiError (FantasyAudit ι)) (proof : FailedProof ι)
      (candidateId : ι) (evidence : CurrentRowCountEvidence ι) (nextBlockSize : ℕ),
      fantasyId.Injective →
      1 ≤ nextBlockSize ∧ nextBlockSize ≤ maxDevelopmentNextBlockSize →
      (∀ a, a.length = evidence.counts.length → a.sum = nextBlockSize → ∃ audit,
        solveLikeCurrentAudit (posteriorPredictiveMasses evidence.counts a) = .ok audit) →
      ∃ voi, candidateBaseVoi fantasyId solveLikeCurrentAudit proof candidateId evidence
        nextBlockSize = .ok voi :=
  ⟨fun _ n hne => exists_predictiveLaw hne n,
    fun _ _ _ _ _ _ hid hblock haudits => candidateBaseVoi_returns hid hblock haudits⟩

/-! ## A row with two destinations -/

instance : Countable (DevelopmentKTFantasy ℕ) := by
  let fields : DevelopmentKTFantasy ℕ → _ := fun f =>
    (f.candidateId, f.rowEvidenceId, f.nextBlockSize, f.destinationIds, f.additionalCounts,
      f.predictiveProbability, f.posteriorPredictiveMasses, f.fantasyModelId, f.fantasyAuditId,
      f.proofGapAfter, f.proofGapReduction, f.wouldCertifyInProposalFantasy, f.otherDestinationId)
  refine Function.Injective.countable (f := fields) fun f g h => ?_
  cases f
  cases g
  simpa [fields] using h

def sampleEvidence : CurrentRowCountEvidence ℕ where
  evidenceId := 7
  destinationIds := [0, 1]
  counts := [2, 0]
  otherDestinationId := 1
  sorted := by simp
  length_eq := rfl
  observed := by simp
  other_mem := rfl

theorem ktPredictive_law_sample :
    (∃ vectors p, compositions 2 2 = .ok vectors ∧ PredictiveLaw [2, 0] 2 vectors p) ∧
    ∃ fantasyId : DevelopmentKTFantasy ℕ → ℕ, fantasyId.Injective ∧
      ∃ voi, candidateBaseVoi fantasyId (fun _ => .ok ⟨3, 4, 0, true, le_rfl⟩)
        ⟨5, 1 / 4, by norm_num⟩ 6 sampleEvidence 2 = .ok voi := by
  obtain ⟨fantasyId, hid⟩ := Countable.exists_injective_nat (DevelopmentKTFantasy ℕ)
  exact ⟨(ktPredictive_law (ι := ℕ)).1 [2, 0] 2 (by simp), fantasyId, hid,
    ktPredictive_law.2 _ _ _ _ sampleEvidence 2 hid ⟨by decide, by decide⟩
      fun _ _ _ => ⟨_, rfl⟩⟩

end Acfqp.Voi
