import Acfqp.Confidence.Bernoulli

/-!
# What a comparison decides

The plain comparison evaluates an integer inequality. The native one evaluates it with the arguments
that it takes as machine words reduced modulo the word: it agrees where they fit, and on a grid of
fewer points than a word it never rejects what the inequality does not.
-/

namespace Acfqp.Confidence

variable {Z : Type}

/-- The library computes exact integers, on arguments that are machine words. -/
structure GmpBackend.Exact (backend : GmpBackend Z) (value : Z → ℤ) : Prop where
  uiPowUi : ∀ a < 2 ^ 64, ∀ b < 2 ^ 64, value (backend.uiPowUi a b) = a ^ b
  mul : ∀ x y, value (backend.mul x y) = value x * value y
  setStr : ∀ n, ∃ z, backend.setStr (hexText n) 16 = some z ∧ value z = n
  setUi : ∀ a < 2 ^ 64, value (backend.setUi a) = a
  mul2exp : ∀ x, ∀ b < 2 ^ 64, value (backend.mul2exp x b) = value x * 2 ^ b
  cmp : ∀ x y, backend.cmp x y ≤ 0 ↔ value x ≤ value y

/-- The library that was loaded, if any, computes exact integers. -/
def ExactBackend (gmp : Option (GmpBackend Z)) (value : Z → ℤ) : Prop :=
  ∀ library ∈ gmp, library.Exact value

theorem cUlong_natCast (k : ℕ) : cUlong k = k % 2 ^ 64 := by
  unfold cUlong
  omega

theorem cUlong_lt (k : ℤ) : cUlong k < 2 ^ 64 := by
  unfold cUlong
  omega

/-- The integer inequality of a comparison. -/
def GridRejects (n s D : ℕ) (α : ℚ) (i : ℕ) : Prop :=
  ((i ^ s * (D - i) ^ (n - s) * (α.den * (n + 1) * n.choose s) : ℕ) : ℤ) ≤ α.num * D ^ n

/-- The counts and the shift fit in a machine word. -/
structure CountsFit (n s bits i : ℕ) : Prop where
  gridIndex : i < 2 ^ 64
  coGridIndex : 2 ^ bits - i < 2 ^ 64
  successes : s < 2 ^ 64
  failures : n - s < 2 ^ 64
  shift : bits * n < 2 ^ 64

/-- Every argument that is passed as a machine word fits in one. -/
structure WordsFit (α : ℚ) (n s bits i : ℕ) : Prop extends CountsFit n s bits i where
  numerator : α.num < 2 ^ 64

section Verdict

variable {gmp : Option (GmpBackend Z)} {backend : GmpBackend Z} {value : Z → ℤ} {α : ℚ}
  {n s bits i : ℕ}

theorem rejects_none_iff {D : ℕ} :
    (ExactGridRejection.make (none : Option (GmpBackend Z)) n s α D).rejects i = true ↔
      GridRejects n s D α i := by
  change (ExactGridRejection.make none n s α D).compares i = true ↔ _
  rw [ExactGridRejection.compares, decide_eq_true_eq, GridRejects]
  simp only [ExactGridRejection.make]

/-- The native verdict, with the reduced arguments. -/
theorem rejects_some_iff (hexact : backend.Exact value) (hα : 0 ≤ α) (hs : s ≤ n)
    (hi : i ≤ 2 ^ bits) (hindex : i < 2 ^ 64) (hcoIndex : 2 ^ bits - i < 2 ^ 64) :
    (ExactGridRejection.make (some backend) n s α (2 ^ bits)).rejects i = true ↔
      ((i ^ (s % 2 ^ 64) * (2 ^ bits - i) ^ ((n - s) % 2 ^ 64) *
        (α.den * (n + 1) * n.choose s) : ℕ) : ℤ) ≤
        α.num % 2 ^ 64 * 2 ^ (bits * n % 2 ^ 64) := by
  have hnum : 0 ≤ α.num := Rat.num_nonneg.mpr hα
  have hsize : Nat.size (2 ^ bits) - 1 = bits := by rw [Nat.size_pow, Nat.add_sub_cancel]
  have hpower : 2 ^ bits &&& (2 ^ bits - 1) = 0 := by
    rw [Nat.and_two_pow_sub_one_eq_mod, Nat.mod_self]
  have hco : cUlong (((2 ^ bits : ℕ) : ℤ) - i) = 2 ^ bits - i := by
    rw [← Nat.cast_sub hi, cUlong_natCast, Nat.mod_eq_of_lt hcoIndex]
  have hfailures : cUlong ((n : ℤ) - s) = (n - s) % 2 ^ 64 := by
    rw [← Nat.cast_sub hs, cUlong_natCast]
  have hword : ((cUlong α.num : ℕ) : ℤ) = α.num % 2 ^ 64 := by
    unfold cUlong
    omega
  obtain ⟨z, hz, hvalue⟩ := hexact.setStr (α.den * (n + 1) * n.choose s)
  have hguard : 0 < 2 ^ bits ∧ 2 ^ bits &&& (2 ^ bits - 1) = 0 ∧ 0 ≤ α.num :=
    ⟨Nat.two_pow_pos bits, hpower, hnum⟩
  have hverdict : gmpExactLikelihoodRejects (some backend) i s n (2 ^ bits)
      (hexText (α.den * (n + 1) * n.choose s)) α.num =
      some (decide (backend.cmp (backend.mul (backend.mul (backend.uiPowUi i (s % 2 ^ 64))
        (backend.uiPowUi (2 ^ bits - i) ((n - s) % 2 ^ 64))) z)
        (backend.mul2exp (backend.setUi (cUlong α.num)) (bits * n % 2 ^ 64)) ≤ 0)) := by
    simp only [gmpExactLikelihoodRejects, hsize, hco, hfailures, cUlong_natCast,
      Nat.mod_eq_of_lt hindex]
    rw [guard, if_pos hguard]
    change (backend.setStr (hexText (α.den * (n + 1) * n.choose s)) 16 >>= _) = _
    rw [hz]
    rfl
  have hmod : ∀ k : ℕ, k % 2 ^ 64 < 2 ^ 64 := fun k => Nat.mod_lt k (by decide)
  change (gmpExactLikelihoodRejects (some backend) i s n (2 ^ bits)
      (hexText (α.den * (n + 1) * n.choose s)) α.num).getD _ = true ↔ _
  rw [hverdict, Option.getD_some, decide_eq_true_eq, hexact.cmp, hexact.mul, hexact.mul,
    hexact.uiPowUi _ hindex _ (hmod s), hexact.uiPowUi _ hcoIndex _ (hmod (n - s)), hvalue,
    hexact.mul2exp _ _ (hmod (bits * n)), hexact.setUi _ (cUlong_lt _), hword]
  push_cast
  rfl

theorem CountsFit.rejects_iff (hfit : CountsFit n s bits i) (hexact : backend.Exact value)
    (hα : 0 ≤ α) (hs : s ≤ n) (hi : i ≤ 2 ^ bits) :
    (ExactGridRejection.make (some backend) n s α (2 ^ bits)).rejects i = true ↔
      ((i ^ s * (2 ^ bits - i) ^ (n - s) * (α.den * (n + 1) * n.choose s) : ℕ) : ℤ) ≤
        α.num % 2 ^ 64 * 2 ^ (bits * n) := by
  rw [rejects_some_iff hexact hα hs hi hfit.gridIndex hfit.coGridIndex,
    Nat.mod_eq_of_lt hfit.successes, Nat.mod_eq_of_lt hfit.failures, Nat.mod_eq_of_lt hfit.shift]

/-- Where the arguments fit, a comparison evaluates the inequality. -/
theorem rejects_iff (hexact : ExactBackend gmp value) (hα : 0 ≤ α) (hs : s ≤ n) (hi : i ≤ 2 ^ bits)
    (hfit : gmp = none ∨ WordsFit α n s bits i) :
    (ExactGridRejection.make gmp n s α (2 ^ bits)).rejects i = true ↔
      GridRejects n s (2 ^ bits) α i := by
  cases hgmp : gmp with
  | none => exact rejects_none_iff
  | some library =>
    have hwords : WordsFit α n s bits i := hfit.resolve_left (by simp [hgmp])
    rw [hwords.rejects_iff (hexact library hgmp) hα hs hi, GridRejects,
      Int.emod_eq_of_lt (Rat.num_nonneg.mpr hα) hwords.numerator, pow_mul]
    push_cast
    rfl

theorem gridRejects_of_reduced (hs : s ≤ n) (hi : i ≤ 2 ^ bits) {L : ℕ} {a a' : ℤ} (ha : a' ≤ a)
    (ha' : 0 ≤ a')
    (h : ((i ^ (s % 2 ^ 64) * (2 ^ bits - i) ^ ((n - s) % 2 ^ 64) * L : ℕ) : ℤ) ≤
      a' * 2 ^ (bits * n % 2 ^ 64)) :
    ((i ^ s * (2 ^ bits - i) ^ (n - s) * L : ℕ) : ℤ) ≤ a * (2 ^ bits) ^ n := by
  set s' := s % 2 ^ 64
  set f' := (n - s) % 2 ^ 64
  have hs' : s' ≤ s := Nat.mod_le _ _
  have hf' : f' ≤ n - s := Nat.mod_le _ _
  -- The shift is the remainder of the bits of what the reduced exponents leave.
  have hshift : bits * n % 2 ^ 64 ≤ bits * (s' + f') := by
    have hsum : n % 2 ^ 64 = (s' + f') % 2 ^ 64 := by
      rw [Nat.add_mod, Nat.mod_mod, Nat.mod_mod, ← Nat.add_mod, Nat.add_sub_cancel' hs]
    rw [Nat.mul_mod, hsum, ← Nat.mul_mod]
    exact Nat.mod_le _ _
  have hsplit : ∀ {b k k' : ℕ}, k' ≤ k → b ≤ 2 ^ bits →
      b ^ k ≤ b ^ k' * 2 ^ (bits * (k - k')) := by
    intro b k k' hk hb
    calc b ^ k = b ^ k' * b ^ (k - k') := by rw [← pow_add, Nat.add_sub_cancel' hk]
      _ ≤ b ^ k' * (2 ^ bits) ^ (k - k') := by gcongr
      _ = b ^ k' * 2 ^ (bits * (k - k')) := by rw [pow_mul]
  have hpow : i ^ s * (2 ^ bits - i) ^ (n - s) * L ≤
      i ^ s' * (2 ^ bits - i) ^ f' * L * 2 ^ (bits * (n - s' - f')) := by
    have hbits : bits * (n - s' - f') = bits * (s - s') + bits * (n - s - f') := by
      rw [← mul_add]
      congr 1
      omega
    calc i ^ s * (2 ^ bits - i) ^ (n - s) * L ≤ (i ^ s' * 2 ^ (bits * (s - s'))) *
          ((2 ^ bits - i) ^ f' * 2 ^ (bits * (n - s - f'))) * L := by
          gcongr
          · exact hsplit hs' hi
          · exact hsplit hf' (Nat.sub_le _ _)
      _ = _ := by
        rw [hbits, pow_add]
        ring
  have hexponent : bits * n % 2 ^ 64 + bits * (n - s' - f') ≤ bits * n := by
    calc _ ≤ bits * (s' + f') + bits * (n - s' - f') := by gcongr
      _ = bits * n := by
        rw [← mul_add]
        congr 1
        omega
  calc ((i ^ s * (2 ^ bits - i) ^ (n - s) * L : ℕ) : ℤ)
      ≤ ((i ^ s' * (2 ^ bits - i) ^ f' * L : ℕ) : ℤ) * 2 ^ (bits * (n - s' - f')) := by
        exact_mod_cast hpow
    _ ≤ a' * 2 ^ (bits * n % 2 ^ 64) * 2 ^ (bits * (n - s' - f')) := by gcongr
    _ = a' * 2 ^ (bits * n % 2 ^ 64 + bits * (n - s' - f')) := by rw [mul_assoc, ← pow_add]
    _ ≤ a * 2 ^ (bits * n) := by gcongr <;> omega
    _ = a * (2 ^ bits) ^ n := by rw [pow_mul]

/-- On a grid of fewer points than a word, whatever is rejected satisfies the inequality. -/
theorem gridRejects_of_rejects (hexact : ExactBackend gmp value) (hα : 0 ≤ α) (hs : s ≤ n)
    (hi : i ≤ 2 ^ bits) (hbits : gmp = none ∨ bits < 64)
    (h : (ExactGridRejection.make gmp n s α (2 ^ bits)).rejects i = true) :
    GridRejects n s (2 ^ bits) α i := by
  cases hgmp : gmp with
  | none =>
    rw [hgmp] at h
    exact rejects_none_iff.mp h
  | some library =>
    have hgrid : 2 ^ bits < 2 ^ 64 :=
      Nat.pow_lt_pow_right (by decide) (hbits.resolve_left (by simp [hgmp]))
    have hnum : 0 ≤ α.num := Rat.num_nonneg.mpr hα
    rw [hgmp, rejects_some_iff (hexact library hgmp) hα hs hi (by omega) (by omega)] at h
    rw [GridRejects]
    exact_mod_cast gridRejects_of_reduced hs hi (by omega) (by omega) h

/-- A grid point of no likelihood is rejected. -/
theorem rejects_of_zero (hexact : ExactBackend gmp value) (hα : 0 ≤ α) (hs : s ≤ n)
    (hi : i ≤ 2 ^ bits) (hfit : gmp = none ∨ bits < 64 ∧ s < 2 ^ 64 ∧ n - s < 2 ^ 64)
    (h : i ^ s * (2 ^ bits - i) ^ (n - s) = 0) :
    (ExactGridRejection.make gmp n s α (2 ^ bits)).rejects i = true := by
  have hnum : 0 ≤ α.num := Rat.num_nonneg.mpr hα
  cases hgmp : gmp with
  | none =>
    rw [rejects_none_iff, GridRejects, h, zero_mul, Nat.cast_zero]
    positivity
  | some library =>
    obtain ⟨hbits, hsuccesses, hfailures⟩ := hfit.resolve_left (by simp [hgmp])
    have hgrid : 2 ^ bits < 2 ^ 64 := Nat.pow_lt_pow_right (by decide) hbits
    have hword : 0 ≤ α.num % 2 ^ 64 := by omega
    rw [rejects_some_iff (hexact library hgmp) hα hs hi (by omega) (by omega),
      Nat.mod_eq_of_lt hsuccesses, Nat.mod_eq_of_lt hfailures, h, zero_mul, Nat.cast_zero]
    positivity

end Verdict

/-! ## A library that computes on the integers -/

def digitValue (c : Char) : Option ℕ :=
  if '0' ≤ c ∧ c ≤ '9' then some (c.toNat - 48)
  else if 'a' ≤ c ∧ c ≤ 'f' then some (c.toNat - 87)
  else none

def pushDigit (base value : ℕ) (c : Char) : Option ℕ := do
  let digit ← digitValue c
  guard (digit < base)
  return base * value + digit

def parseDigits (base : ℕ) (digits : List Char) : Option ℕ := digits.foldlM (pushDigit base) 0

theorem pushDigit_digitChar {d : ℕ} (hd : d < 16) (value : ℕ) :
    pushDigit 16 value (Nat.digitChar d) = some (16 * value + d) := by
  have hchar : ∀ d < 16, digitValue (Nat.digitChar d) = some d := by decide
  rw [pushDigit, hchar d hd]
  simp [hd]

theorem parseDigits_toDigits (n : ℕ) : parseDigits 16 (Nat.toDigits 16 n) = some n := by
  induction n using Nat.strong_induction_on with
  | _ n ih =>
    rw [parseDigits, Nat.toDigits_eq_if (by decide)]
    split
    · rename_i hn
      simp [pushDigit_digitChar hn]
    · rename_i hn
      have hquotient := ih (n / 16) (by omega)
      rw [parseDigits] at hquotient
      simp [hquotient, pushDigit_digitChar (Nat.mod_lt n (by decide : 0 < 16)), Nat.div_add_mod]

def integerBackend : GmpBackend ℤ where
  uiPowUi a b := a ^ b
  mul x y := x * y
  setStr text base := (parseDigits base text.toList).map Int.ofNat
  setUi a := a
  mul2exp x b := x * 2 ^ b
  cmp x y := x - y

theorem integerBackend_exact : integerBackend.Exact id where
  uiPowUi _ _ _ _ := rfl
  mul _ _ := rfl
  setStr n := by
    refine ⟨n, ?_, rfl⟩
    simp only [integerBackend, hexText, String.toList_ofList, parseDigits_toDigits,
      Option.map_some, Int.ofNat_eq_natCast]
  setUi _ _ := rfl
  mul2exp _ _ _ := rfl
  cmp x y := by simp [integerBackend]

def exactSearch : LogSearch := fun drawCount successCount gridIndex denominator threshold =>
  ((gridIndex : ℚ) / denominator) ^ successCount *
    (1 - (gridIndex : ℚ) / denominator) ^ (drawCount - successCount) ≤ threshold

def exactPlatform : Platform ℤ := ⟨some integerBackend, exactSearch⟩

theorem exactPlatform_exact : ExactBackend exactPlatform.gmp id := by
  rintro library ⟨⟩
  exact integerBackend_exact

end Acfqp.Confidence
