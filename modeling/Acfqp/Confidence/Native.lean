import Acfqp.Confidence.Coverage

/-!
# The native comparison

The comparison of a grid point runs on a library of big integers where there is one. What the
library takes as a machine word is reduced modulo the word silently; everything else is exact.
-/

namespace Acfqp.Confidence

open Library

section Native

variable {Z : Type} {backend : GmpBackend Z} {value : Z → ℤ} {n s bits i : ℕ} {α : ℚ}

theorem bernoulliMixtureRejects_eq {p : ℚ} (hα : 0 < α ∧ α < 1) (hn : 0 < n) (hs : s ≤ n)
    (hp : 0 ≤ p ∧ p ≤ 1) :
    bernoulliMixtureRejects n s p α =
      .ok (decide (sequenceLikelihood n s p ≤ α * mixtureMass n s)) := by
  have hmass := betaBinomialSequenceMass_eq_ok.mpr ⟨⟨hn, hs⟩, rfl⟩
  have hlikelihood : bernoulliLikelihood n s p = .ok (sequenceLikelihood n s p) :=
    bind_eq_ok.mpr ⟨(), require_eq_ok.mpr hp, bind_eq_ok.mpr ⟨_, hmass, rfl⟩⟩
  exact bind_eq_ok.mpr ⟨(), require_eq_ok.mpr hα, bind_eq_ok.mpr ⟨_, hmass,
    bind_eq_ok.mpr ⟨_, hlikelihood, rfl⟩⟩⟩

/-- Without the library the comparison is the exact predicate at the grid point. -/
theorem bernoulliMixtureRejects_eq_plain (hα : 0 < α ∧ α < 1) (hn : 0 < n) (hs : s ≤ n)
    (hi : i ≤ 2 ^ bits) :
    bernoulliMixtureRejects n s (i / 2 ^ bits) α =
      .ok ((ExactGridRejection.make (none : Option (GmpBackend Z)) n s α (2 ^ bits)).rejects
        i) := by
  have hD : (0 : ℚ) < 2 ^ bits := by positivity
  have h1 : (i / 2 ^ bits : ℚ) ≤ 1 := (div_le_one hD).mpr (by exact_mod_cast hi)
  have hverdict := gridRejects_iff (α := α) hs (Nat.two_pow_pos bits) hi
  push_cast at hverdict
  rw [bernoulliMixtureRejects_eq hα hn hs ⟨by positivity, h1⟩]
  exact congrArg _ (Bool.eq_iff_iff.mpr (by
    rw [rejects_none_iff, hverdict, decide_eq_true_eq]))

/-! ## When a numerator of alpha does not fit -/

theorem two_mul_add_one_le_two_pow {m : ℕ} (hm : 3 ≤ m) : 2 * m + 1 ≤ 2 ^ m := by
  induction m, hm using Nat.le_induction with
  | base => decide
  | succ m hm ih =>
    rw [pow_succ]
    omega

/-- Some draw count has the likelihood of a fair coin, times its length, between half of alpha and
alpha: the likelihood falls by less than half from one count to the next. -/
theorem exists_fairCoin (hα : 0 < α ∧ α < 1) {m : ℕ} (hm : 3 ≤ m) (hsize : (1 / 2 : ℚ) ^ m ≤ α) :
    ∃ n : ℕ, 0 < n ∧ n ≤ 2 * m ∧ (n + 1 : ℚ) / 2 ^ n ≤ α ∧ α / 2 < (n + 1 : ℚ) / 2 ^ n := by
  have hsmall : ((2 * m : ℕ) + 1 : ℚ) / 2 ^ (2 * m) ≤ α := by
    have hpow : ((2 * m : ℕ) + 1 : ℚ) ≤ 2 ^ m := by
      exact_mod_cast two_mul_add_one_le_two_pow hm
    calc ((2 * m : ℕ) + 1 : ℚ) / 2 ^ (2 * m) ≤ 2 ^ m / 2 ^ (2 * m) := by gcongr
      _ = (1 / 2) ^ m := by
        rw [two_mul, pow_add, div_mul_eq_div_div, div_self (by positivity), one_div_pow]
      _ ≤ α := hsize
  have hexists : ∃ n : ℕ, (n + 1 : ℚ) / 2 ^ n ≤ α := ⟨_, hsmall⟩
  classical
  obtain ⟨k, hk⟩ : ∃ k, Nat.find hexists = k + 1 := by
    refine Nat.exists_eq_succ_of_ne_zero fun hzero => ?_
    have hfirst := Nat.find_spec hexists
    rw [hzero] at hfirst
    norm_num at hfirst
    linarith [hα.2]
  refine ⟨k + 1, Nat.succ_pos k, hk ▸ Nat.find_le hsmall, hk ▸ Nat.find_spec hexists, ?_⟩
  have hbefore : α < (k + 1 : ℚ) / 2 ^ k := not_le.mp (Nat.find_min hexists (by omega))
  calc α / 2 < (k + 1 : ℚ) / 2 ^ k / 2 := by linarith
    _ = (k + 1 : ℚ) / 2 ^ (k + 1) := by rw [div_div, pow_succ]
    _ ≤ _ := by
      push_cast
      gcongr
      linarith

theorem two_mul_word_le {a : ℤ} (h : 2 ^ 64 ≤ a) : 2 * (a % 2 ^ 64) ≤ a := by
  omega

theorem fairCoin_le_iff (α : ℚ) (k n : ℕ) (c : ℤ) :
    (((2 ^ k) ^ 0 * (2 ^ (k + 1) - 2 ^ k) ^ (n - 0) * (α.den * (n + 1) * n.choose 0) : ℕ) : ℤ) ≤
      c * (2 ^ (k + 1)) ^ n ↔ (n + 1 : ℚ) / 2 ^ n ≤ c / α.den := by
  have hden : (0 : ℚ) < α.den := by exact_mod_cast α.den_pos
  have hhalf : 2 ^ (k + 1) - 2 ^ k = 2 ^ k := by
    rw [pow_succ]
    omega
  have hpos : (0 : ℚ) < (2 ^ k) ^ n := by positivity
  rw [hhalf, div_le_div_iff₀ (by positivity) hden, ← Int.cast_le (R := ℚ)]
  push_cast
  have hright : (c : ℚ) * (2 ^ (k + 1)) ^ n = (2 ^ k) ^ n * (c * 2 ^ n) := by
    rw [pow_succ, mul_pow]
    ring
  rw [hright]
  simp only [pow_zero, one_mul, Nat.sub_zero, Nat.choose_zero_right, Nat.cast_one, mul_one]
  rw [mul_comm (α.den : ℚ)]
  exact mul_le_mul_iff_of_pos_left hpos

/-- On every grid the fair coin then has a draw count at which only the native verdict accepts. -/
theorem exists_nativeAccepts (hexact : backend.Exact value) (hα : 0 < α ∧ α < 1)
    (hnum : 2 ^ 64 ≤ α.num) (hbits : 1 ≤ bits ∧ bits ≤ 48) {m : ℕ} (hm : m ≤ 2 ^ 56)
    (hsize : (1 / 2 : ℚ) ^ m ≤ α) :
    ∃ n, 0 < n ∧ bits * n < 2 ^ 64 ∧
      (ExactGridRejection.make (some backend) n 0 α (2 ^ bits)).rejects (2 ^ (bits - 1)) ≠ true ∧
      GridRejects n 0 (2 ^ bits) α (2 ^ (bits - 1)) := by
  obtain ⟨n, hn, hnm, hle, hlt⟩ := exists_fairCoin hα (le_max_left 3 m)
    ((pow_le_pow_of_le_one (by norm_num) (by norm_num) (le_max_right 3 m)).trans hsize)
  have hn56 : n ≤ 2 ^ 57 := by omega
  have hshift : bits * n < 2 ^ 64 := by nlinarith
  obtain ⟨k, rfl⟩ : ∃ k, bits = k + 1 := ⟨bits - 1, by omega⟩
  have hgrid : 2 ^ (k + 1) ≤ 2 ^ 48 := Nat.pow_le_pow_right (by decide) hbits.2
  have hle' : 2 ^ k ≤ 2 ^ (k + 1) := Nat.pow_le_pow_right (by decide) (Nat.le_succ k)
  have hfit : CountsFit n 0 (k + 1) (2 ^ k) :=
    ⟨by omega, by omega, by decide, by omega, hshift⟩
  have hcoin := fun c => fairCoin_le_iff α k n c
  refine ⟨n, hn, hshift, ?_, ?_⟩
  · rw [Nat.add_sub_cancel, Ne, hfit.rejects_iff hexact hα.1.le (Nat.zero_le n) hle', pow_mul,
      hcoin]
    have hword := two_mul_word_le hnum
    generalize α.num % 2 ^ 64 = c at hword ⊢
    have hc : (c : ℚ) / α.den ≤ α / 2 := by
      have htwo : 2 * (c : ℚ) ≤ α.num := by exact_mod_cast hword
      calc (c : ℚ) / α.den ≤ (α.num / 2) / α.den := by gcongr; linarith
        _ = α / 2 := by rw [div_right_comm, Rat.num_div_den]
    exact not_le.mpr (hc.trans_lt hlt)
  · have hplain := (hcoin α.num).mpr (by rwa [Rat.num_div_den])
    rw [Nat.add_sub_cancel, GridRejects]
    exact_mod_cast hplain

theorem nativeRejects_eq_plain (hexact : backend.Exact value) (hα : 0 < α) (hs : s ≤ n)
    (hi : i ≤ 2 ^ bits) (hfit : WordsFit α n s bits i) :
    (ExactGridRejection.make (some backend) n s α (2 ^ bits)).rejects i =
      (ExactGridRejection.make (none : Option (GmpBackend Z)) n s α (2 ^ bits)).rejects i := by
  have hlibrary : ExactBackend (some backend) value := by
    rintro library ⟨⟩
    exact hexact
  rw [Bool.eq_iff_iff, rejects_iff hlibrary hα.le hs hi (.inr hfit), rejects_none_iff]

theorem countsFit_of_shift (hbits : 1 ≤ bits ∧ bits ≤ 48) (hs : s ≤ n) (hi : i ≤ 2 ^ bits)
    (hshift : bits * n < 2 ^ 64) : CountsFit n s bits i := by
  have hgrid : 2 ^ bits ≤ 2 ^ 48 := Nat.pow_le_pow_right (by decide) hbits.2
  have hn : n < 2 ^ 64 := (Nat.le_mul_of_pos_left n hbits.1).trans_lt hshift
  exact ⟨by omega, by omega, by omega, by omega, hshift⟩

/-- The two paths. Without the library the comparison is the exact predicate; with it, it is the
same wherever the arguments fit in a machine word, and on a registered grid the numerator of alpha
is the one that has to. -/
theorem nativeRejects_agrees (hexact : backend.Exact value) (hα : 0 < α ∧ α < 1) :
    (∀ n s bits i : ℕ, 0 < n → s ≤ n → i ≤ 2 ^ bits →
      bernoulliMixtureRejects n s (i / 2 ^ bits) α = .ok
        ((ExactGridRejection.make (none : Option (GmpBackend Z)) n s α (2 ^ bits)).rejects i)) ∧
    (∀ n s bits i, s ≤ n → i ≤ 2 ^ bits → WordsFit α n s bits i →
      (ExactGridRejection.make (some backend) n s α (2 ^ bits)).rejects i =
        (ExactGridRejection.make (none : Option (GmpBackend Z)) n s α (2 ^ bits)).rejects i) ∧
    ∀ bits, 1 ≤ bits → bits ≤ 48 → ∀ m ≤ 2 ^ 56, (1 / 2 : ℚ) ^ m ≤ α →
      ((∀ n s i, 0 < n → s ≤ n → i ≤ 2 ^ bits → bits * n < 2 ^ 64 →
        (ExactGridRejection.make (some backend) n s α (2 ^ bits)).rejects i =
          (ExactGridRejection.make (none : Option (GmpBackend Z)) n s α (2 ^ bits)).rejects i) ↔
        α.num < 2 ^ 64) := by
  refine ⟨fun n s bits i hn hs hi => bernoulliMixtureRejects_eq_plain hα hn hs hi,
    fun n s bits i hs hi hfit => nativeRejects_eq_plain hexact hα.1 hs hi hfit,
    fun bits hpos hle m hm hsize => ⟨fun h => ?_, fun hnum n s i _ hs hi hshift => ?_⟩⟩
  · by_contra hnum
    obtain ⟨n, hn, hshift, haccepts, hplain⟩ :=
      exists_nativeAccepts hexact hα (not_lt.mp hnum) ⟨hpos, hle⟩ hm hsize
    have hmiddle : 2 ^ (bits - 1) ≤ 2 ^ bits := Nat.pow_le_pow_right (by decide) (Nat.sub_le bits 1)
    rw [h n 0 _ hn (Nat.zero_le n) hmiddle hshift] at haccepts
    exact haccepts (rejects_none_iff.mpr hplain)
  · exact nativeRejects_eq_plain hexact hα.1 hs hi
      ⟨countsFit_of_shift ⟨hpos, hle⟩ hs hi hshift, hnum⟩

end Native

theorem nativeRejects_agrees_sample :
    (∀ n s bits i : ℕ, 0 < n → s ≤ n → i ≤ 2 ^ bits →
      bernoulliMixtureRejects n s (i / 2 ^ bits) (1 / 20) = .ok
        ((ExactGridRejection.make (none : Option (GmpBackend ℤ)) n s (1 / 20)
          (2 ^ bits)).rejects i)) ∧
    (∀ n s bits i, s ≤ n → i ≤ 2 ^ bits → WordsFit (1 / 20) n s bits i →
      (ExactGridRejection.make (some integerBackend) n s (1 / 20) (2 ^ bits)).rejects i =
        (ExactGridRejection.make (none : Option (GmpBackend ℤ)) n s (1 / 20)
          (2 ^ bits)).rejects i) ∧
    ∀ bits, 1 ≤ bits → bits ≤ 48 → ∀ m ≤ 2 ^ 56, (1 / 2 : ℚ) ^ m ≤ 1 / 20 →
      ((∀ n s i, 0 < n → s ≤ n → i ≤ 2 ^ bits → bits * n < 2 ^ 64 →
        (ExactGridRejection.make (some integerBackend) n s (1 / 20) (2 ^ bits)).rejects i =
          (ExactGridRejection.make (none : Option (GmpBackend ℤ)) n s (1 / 20)
            (2 ^ bits)).rejects i) ↔ (1 / 20 : ℚ).num < 2 ^ 64) :=
  nativeRejects_agrees integerBackend_exact (by norm_num)

/-- With the numerator `2 ^ 64`, which is zero as a machine word, the native path accepts a fair
coin of no successes in four draws that the integer path rejects. -/
theorem nativeRejects_wordAlpha :
    (ExactGridRejection.make (some integerBackend) 4 0 (2 ^ 64 / (2 ^ 64 + 1))
      (2 ^ 8)).rejects 128 = false ∧
    (ExactGridRejection.make (none : Option (GmpBackend ℤ)) 4 0 (2 ^ 64 / (2 ^ 64 + 1))
      (2 ^ 8)).rejects 128 = true ∧
    bernoulliMixtureRejects 4 0 (128 / 2 ^ 8) (2 ^ 64 / (2 ^ 64 + 1)) = .ok true := by
  have hplain : (ExactGridRejection.make (none : Option (GmpBackend ℤ)) 4 0
      (2 ^ 64 / (2 ^ 64 + 1)) (2 ^ 8)).rejects 128 = true := by
    decide +kernel
  refine ⟨by decide +kernel, hplain, ?_⟩
  rw [← hplain]
  exact @bernoulliMixtureRejects_eq_plain _ _ _ 8 128 _ (by norm_num) (by decide)
    (by decide) (by decide)

end Acfqp.Confidence
