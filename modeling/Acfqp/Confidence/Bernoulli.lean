import Acfqp.Core
import Mathlib.Data.Nat.Size

/-!
# Anytime confidence intervals for one Bernoulli row

The interval inverts the uniform-beta likelihood mixture on a dyadic grid. A logarithmic search
only locates the boundary cells; every endpoint is settled by exact integer comparisons. They run
on a library of big integers where there is one, which takes some arguments as machine words.
-/

namespace Acfqp.Confidence

open Library

/-! ## The likelihood mixture -/

/-- Exact uniform-beta mixture likelihood of one Bernoulli sequence. -/
def betaBinomialSequenceMass (drawCount successCount : ℕ) : Except PyError ℚ := do
  require (0 < drawCount ∧ successCount ≤ drawCount)
    (.valueError "beta-binomial sequence counts are invalid")
  return 1 / ((drawCount + 1) * drawCount.choose successCount)

def bernoulliLikelihood (drawCount successCount : ℕ) (probability : ℚ) : Except PyError ℚ := do
  require (0 ≤ probability ∧ probability ≤ 1)
    (.valueError "candidate probability must be an exact Fraction in [0,1]")
  let _ ← betaBinomialSequenceMass drawCount successCount
  return probability ^ successCount * (1 - probability) ^ (drawCount - successCount)

/-- The check of an exact fraction in an open interval. -/
def strictFraction (value : ℚ) (field : String) (lower upper : ℚ) (lowerText upperText : String) :
    Except PyError Unit :=
  require (lower < value ∧ value < upper)
    (.valueError s!"{field} must be an exact Fraction in ({lowerText}, {upperText})")

def bernoulliMixtureRejects (drawCount successCount : ℕ) (probability confidenceAlpha : ℚ) :
    Except PyError Bool := do
  strictFraction confidenceAlpha "confidence alpha" 0 1 "0" "1"
  let mixtureMass ← betaBinomialSequenceMass drawCount successCount
  let likelihood ← bernoulliLikelihood drawCount successCount probability
  return decide (likelihood ≤ confidenceAlpha * mixtureMass)

/-- Preregistered stopping, confidence, resolution and hard-cap profile. -/
structure SequentialBernoulliProfile where
  confidenceAlpha : ℚ
  targetHalfWidth : ℚ
  checkpoints : List ℕ
  boundaryGridBits : ℕ
  alpha_mem : 0 < confidenceAlpha ∧ confidenceAlpha < 1
  halfWidth_mem : 0 < targetHalfWidth ∧ targetHalfWidth < 1 / 2
  checkpoints_ne_nil : checkpoints ≠ []
  checkpoints_pos : ∀ n ∈ checkpoints, 0 < n
  checkpoints_increasing : checkpoints.Pairwise (· < ·)
  bits_mem : 8 ≤ boundaryGridBits ∧ boundaryGridBits ≤ 48
  resolution : 1 / 2 ^ boundaryGridBits ≤ targetHalfWidth / 8
  deriving DecidableEq

namespace SequentialBernoulliProfile

/-- The checks of `SequentialBernoulliProfileV1.__post_init__`. -/
def make (confidenceAlpha targetHalfWidth : ℚ) (checkpoints : List ℕ) (boundaryGridBits : ℕ) :
    Except PyError SequentialBernoulliProfile :=
  if halpha : 0 < confidenceAlpha ∧ confidenceAlpha < 1 then
    if hwidth : 0 < targetHalfWidth ∧ targetHalfWidth < 1 / 2 then
      if h : checkpoints ≠ [] ∧ (∀ n ∈ checkpoints, 0 < n) ∧ checkpoints.Pairwise (· < ·) ∧
          (8 ≤ boundaryGridBits ∧ boundaryGridBits ≤ 48) ∧
          1 / 2 ^ boundaryGridBits ≤ targetHalfWidth / 8 then
        .ok ⟨confidenceAlpha, targetHalfWidth, checkpoints, boundaryGridBits, halpha, hwidth,
          h.1, h.2.1, h.2.2.1, h.2.2.2.1, h.2.2.2.2⟩
      else .error (.valueError "sequential Bernoulli profile is not preregistered or sound")
    else .error (.valueError "target half width must be an exact Fraction in (0, 1/2)")
  else .error (.valueError "confidence alpha must be an exact Fraction in (0, 1)")

def maxDraws (profile : SequentialBernoulliProfile) : ℕ :=
  profile.checkpoints.getLast profile.checkpoints_ne_nil

end SequentialBernoulliProfile

/-! ## The native comparison -/

/-- The functions of the big-integer library, on its numbers `Z`. -/
structure GmpBackend (Z : Type) where
  uiPowUi : ℕ → ℕ → Z
  mul : Z → Z → Z
  setStr : String → ℕ → Option Z
  setUi : ℕ → Z
  mul2exp : Z → ℕ → Z
  cmp : Z → Z → ℤ

def hexText (n : ℕ) : String := String.ofList (Nat.toDigits 16 n)

/-- An integer passed as an unsigned long. -/
def cUlong (k : ℤ) : ℕ := (k % 2 ^ 64).toNat

section Search

variable {Z : Type}

def gmpExactLikelihoodRejects (backend : Option (GmpBackend Z))
    (gridIndex successCount drawCount denominator : ℕ) (leftCoefficientHex : String)
    (confidenceAlphaNumerator : ℤ) : Option Bool := do
  let library ← backend
  guard (0 < denominator ∧ denominator &&& (denominator - 1) = 0 ∧ 0 ≤ confidenceAlphaNumerator)
  let successes := library.uiPowUi (cUlong gridIndex) (cUlong successCount)
  let failures := library.uiPowUi (cUlong ((denominator : ℤ) - gridIndex))
    (cUlong ((drawCount : ℤ) - successCount))
  let coefficient ← library.setStr leftCoefficientHex 16
  let left := library.mul (library.mul successes failures) coefficient
  let right := library.mul2exp (library.setUi (cUlong confidenceAlphaNumerator))
    (cUlong ((denominator.size - 1) * drawCount : ℕ))
  return library.cmp left right ≤ 0

/-! ## The boundary search -/

/-- The approximate search predicate `_log_rejects`, in floating point: its arguments are the draw
count, the success count, the grid index, the grid denominator and the rejection threshold. -/
abbrev LogSearch := ℕ → ℕ → ℕ → ℕ → ℚ → Bool

/-- What the comparisons run on: the library that was loaded, if any, and the floating point. -/
structure Platform (Z : Type) where
  gmp : Option (GmpBackend Z)
  logRejects : LogSearch

/-- Integer comparison for dyadic likelihood boundaries. -/
structure ExactGridRejection (Z : Type) where
  gmp : Option (GmpBackend Z)
  drawCount : ℕ
  successCount : ℕ
  denominator : ℕ
  leftCoefficient : ℕ
  leftCoefficientHex : String
  confidenceAlphaNumerator : ℤ
  rightHandSide : ℤ

def ExactGridRejection.make (gmp : Option (GmpBackend Z)) (drawCount successCount : ℕ)
    (confidenceAlpha : ℚ) (denominator : ℕ) : ExactGridRejection Z :=
  let leftCoefficient := confidenceAlpha.den * (drawCount + 1) * drawCount.choose successCount
  { gmp, drawCount, successCount, denominator, leftCoefficient
    leftCoefficientHex := hexText leftCoefficient
    confidenceAlphaNumerator := confidenceAlpha.num
    rightHandSide := confidenceAlpha.num * denominator ^ drawCount }

def ExactGridRejection.compares (exact : ExactGridRejection Z) (gridIndex : ℕ) : Bool :=
  let likelihoodNumerator := gridIndex ^ exact.successCount *
    (exact.denominator - gridIndex) ^ (exact.drawCount - exact.successCount)
  ((likelihoodNumerator * exact.leftCoefficient : ℕ) : ℤ) ≤ exact.rightHandSide

/-- The native verdict where there is one, and the plain comparison otherwise. -/
def ExactGridRejection.rejects (exact : ExactGridRejection Z) (gridIndex : ℕ) : Bool :=
  (gmpExactLikelihoodRejects exact.gmp gridIndex exact.successCount exact.drawCount
    exact.denominator exact.leftCoefficientHex exact.confidenceAlphaNumerator).getD
    (exact.compares gridIndex)

/-- Halve the gap between two grid indices until they are adjacent: `raiseLow` says which end moves
to the middle. Counts its evaluations; the fuel is a bound on the gap. -/
def bisect (raiseLow : ℕ → Bool) : ℕ → ℕ → ℕ → ℕ × ℕ × ℕ
  | 0, low, high => (low, high, 0)
  | fuel + 1, low, high =>
    if 1 < high - low then
      let middle := (low + high) / 2
      let found :=
        if raiseLow middle then bisect raiseLow fuel middle high
        else bisect raiseLow fuel low middle
      (found.1, found.2.1, found.2.2 + 1)
    else (low, high, 0)

/-- The number of steps of a loop that goes on while `go` holds, at most `limit` of them, and the
number of its tests. -/
def walk (go : ℕ → Bool) (steps : ℕ) : ℕ → ℕ × ℕ
  | 0 => (steps, 0)
  | limit + 1 =>
    if go steps then
      let rest := walk go (steps + 1) limit
      (rest.1, rest.2 + 1)
    else (steps, 1)

/-- A located boundary: its grid index, the exact comparisons and the search evaluations. -/
structure Boundary where
  index : ℕ
  comparisons : ℕ
  logEvaluations : ℕ

def correctLower (exact : ExactGridRejection Z) (upper low logEvaluations : ℕ) :
    Except PyError Boundary := do
  let down := walk (fun i => !exact.rejects (low - i)) 0 low
  let start := low - down.1
  let up := walk (fun i => exact.rejects (start + i + 1)) 0 (upper - start)
  let candidate := start + up.1
  require (exact.rejects candidate = true) (.valueError "exact lower boundary correction failed")
  require (¬ (candidate < upper ∧ exact.rejects (candidate + 1) = true))
    (.valueError "lower confidence boundary is not an outer bracket")
  return ⟨candidate, down.2 + up.2 + 1 + if candidate < upper then 1 else 0, logEvaluations⟩

def lastRejectedLowerGridIndex (logRejects : ℕ → Bool) (exact : ExactGridRejection Z) :
    Except PyError Boundary :=
  let upper := exact.successCount * exact.denominator / exact.drawCount
  if exact.successCount = 0 ∨ upper = 0 then .ok ⟨0, 0, 0⟩
  else
    let found := bisect logRejects upper 0 upper
    correctLower exact upper found.1 found.2.2

def correctUpper (exact : ExactGridRejection Z) (lower high logEvaluations : ℕ) :
    Except PyError Boundary := do
  let up := walk (fun i => !exact.rejects (high + i)) 0 (exact.denominator - high)
  let start := high + up.1
  let down := walk (fun i => exact.rejects (start - i - 1)) 0 (start - lower)
  let candidate := start - down.1
  require (exact.rejects candidate = true) (.valueError "exact upper boundary correction failed")
  require (¬ (lower < candidate ∧ exact.rejects (candidate - 1) = true))
    (.valueError "upper confidence boundary is not an outer bracket")
  return ⟨candidate, up.2 + down.2 + 1 + if lower < candidate then 1 else 0, logEvaluations⟩

def firstRejectedUpperGridIndex (logRejects : ℕ → Bool) (exact : ExactGridRejection Z) :
    Except PyError Boundary :=
  let lower := (exact.successCount * exact.denominator + exact.drawCount - 1) / exact.drawCount
  if exact.successCount = exact.drawCount ∨ exact.denominator ≤ lower then
    .ok ⟨exact.denominator, 0, 0⟩
  else
    let found :=
      bisect (fun i => !logRejects i) (exact.denominator - lower) lower exact.denominator
    correctUpper exact lower found.2.1 found.2.2

/-- An interval on the grid, the exact comparisons and the search evaluations it took. -/
structure OuterBounds where
  lower : ℚ
  upper : ℚ
  exactLikelihoodComparisons : ℕ
  logSearchEvaluations : ℕ

/-- The outward-rounded interval of the grid points that are not rejected. -/
def outerConfidenceBounds (platform : Platform Z) (drawCount successCount : ℕ)
    (confidenceAlpha : ℚ) (boundaryGridBits : ℕ) : Except PyError OuterBounds := do
  let mixtureMass ← betaBinomialSequenceMass drawCount successCount
  let threshold := confidenceAlpha * mixtureMass
  let denominator := 2 ^ boundaryGridBits
  let exact := ExactGridRejection.make platform.gmp drawCount successCount confidenceAlpha
    denominator
  let search := fun i => platform.logRejects drawCount successCount i denominator threshold
  let lower ← lastRejectedLowerGridIndex search exact
  let upper ← firstRejectedUpperGridIndex search exact
  let lowerProbability : ℚ := lower.index / denominator
  let upperProbability : ℚ := upper.index / denominator
  require (lowerProbability ≤ upperProbability)
    (.valueError "confidence sequence boundaries crossed")
  return ⟨lowerProbability, upperProbability, lower.comparisons + upper.comparisons,
    lower.logEvaluations + upper.logEvaluations⟩

/-- The interval after a number of draws. -/
structure AnytimeBernoulliCheckpoint where
  drawCount : ℕ
  successCount : ℕ
  empiricalProbability : ℚ
  mixtureSequenceMass : ℚ
  rejectionLikelihoodThreshold : ℚ
  lowerProbability : ℚ
  upperProbability : ℚ
  intervalWidth : ℚ
  exactLikelihoodComparisons : ℕ
  logSearchEvaluations : ℕ
  mass_eq : betaBinomialSequenceMass drawCount successCount = .ok mixtureSequenceMass
  empirical_eq : empiricalProbability = successCount / drawCount
  lower_nonneg : 0 ≤ lowerProbability
  lower_le_empirical : lowerProbability ≤ empiricalProbability
  empirical_le_upper : empiricalProbability ≤ upperProbability
  upper_le_one : upperProbability ≤ 1
  width_eq : intervalWidth = upperProbability - lowerProbability
  deriving DecidableEq

/-- The checks of `AnytimeBernoulliCheckpointV1.__post_init__`, on the fields that
`build_anytime_bernoulli_checkpoint_v1` computes. -/
def AnytimeBernoulliCheckpoint.make (drawCount successCount : ℕ) (mass alpha : ℚ)
    (bounds : OuterBounds) : Except PyError AnytimeBernoulliCheckpoint :=
  let empirical : ℚ := successCount / drawCount
  if h : betaBinomialSequenceMass drawCount successCount = .ok mass ∧ 0 ≤ bounds.lower ∧
      bounds.lower ≤ empirical ∧ empirical ≤ bounds.upper ∧ bounds.upper ≤ 1 then
    .ok ⟨drawCount, successCount, empirical, mass, alpha * mass, bounds.lower, bounds.upper,
      bounds.upper - bounds.lower, bounds.exactLikelihoodComparisons,
      bounds.logSearchEvaluations, h.1, rfl, h.2.1, h.2.2.1, h.2.2.2.1, h.2.2.2.2, rfl⟩
  else .error (.valueError "anytime Bernoulli checkpoint is inconsistent")

def buildAnytimeBernoulliCheckpoint (platform : Platform Z) (drawCount successCount : ℕ)
    (profile : SequentialBernoulliProfile) : Except PyError AnytimeBernoulliCheckpoint := do
  let mass ← betaBinomialSequenceMass drawCount successCount
  let bounds ← outerConfidenceBounds platform drawCount successCount profile.confidenceAlpha
    profile.boundaryGridBits
  AnytimeBernoulliCheckpoint.make drawCount successCount mass profile.confidenceAlpha bounds

end Search

end Acfqp.Confidence
