import Acfqp.Library.Checked
import Acfqp.Library.Decimal

/-!
# Unlimited decimal integers

Canonical integers are rendered and parsed by chunks of nine digits, up to a ceiling of decimal
digits. Texts are lists of characters.
-/

namespace Acfqp.Encoding

open Library Decimal

/-- A violated identity contract, or a `ValueError`. -/
inductive IdentityError where
  | identity (message : String)
  | valueError (message : String)
  deriving DecidableEq

def maxCanonicalIntegerDecimalDigits : ℕ := 100000

/-- No more bits are needed for the digits of the ceiling. -/
def maxCanonicalIntegerBits : ℕ := 332193

def unlimitedDecimalInteger (value : ℤ) : Except IdentityError (List Char) :=
  if value = 0 then return ['0']
  else do
    require (Nat.size value.natAbs ≤ maxCanonicalIntegerBits)
      (.identity "canonical integer exceeds the local decimal-digit ceiling")
    let sign := if value < 0 then ['-'] else []
    let rendered := sign ++ render 9 (chunks (10 ^ 9) value.natAbs).reverse
    require (rendered.length - sign.length ≤ maxCanonicalIntegerDecimalDigits)
      (.identity "canonical integer exceeds the local decimal-digit ceiling")
    return rendered

def parseUnlimitedDecimalInteger (token : List Char) : Except IdentityError ℤ := do
  require (token ≠ []) (.valueError "empty canonical integer")
  let negative := token.head? = some '-'
  let digits := if negative then token.tail else token
  require (digits ≠ [] ∧ ∀ c ∈ digits, c.isDigit) (.valueError "invalid canonical integer")
  require (digits.length ≤ maxCanonicalIntegerDecimalDigits)
    (.valueError "canonical integer exceeds the local digit ceiling")
  let first := digits.length % 9
  let value := readChunks 9 (Nat.ofDigitChars 10 (digits.take first) 0) (digits.drop first)
  return if negative then -(value : ℤ) else value

/-! ## Rendering -/

def numeral (n : ℤ) : List Char :=
  (if n < 0 then ['-'] else []) ++ Nat.toDigits 10 n.natAbs

theorem pow_ceiling_lt : 10 ^ maxCanonicalIntegerDecimalDigits < 2 ^ maxCanonicalIntegerBits := by
  decide +kernel

/-- The bits never reject a number whose digits are within the ceiling. -/
theorem size_le_of_digits {n : ℕ}
    (h : (Nat.toDigits 10 n).length ≤ maxCanonicalIntegerDecimalDigits) :
    Nat.size n ≤ maxCanonicalIntegerBits := by
  have hlt : n < 10 ^ maxCanonicalIntegerDecimalDigits :=
    (Nat.length_toDigits_le_iff (by norm_num) (by decide)).mp h
  exact Nat.size_le.mpr (hlt.trans pow_ceiling_lt)

theorem unlimitedDecimalInteger_eq_ok {n : ℤ} {text : List Char} :
    unlimitedDecimalInteger n = .ok text ↔
      (Nat.toDigits 10 n.natAbs).length ≤ maxCanonicalIntegerDecimalDigits ∧ text = numeral n := by
  unfold unlimitedDecimalInteger
  split
  · next hzero =>
    subst hzero
    rw [pure_eq_ok, eq_comm (a := text)]
    exact ⟨fun h => ⟨by decide, h⟩, fun h => h.2⟩
  · next hne =>
    have hpos : 0 < n.natAbs := Int.natAbs_pos.mpr hne
    have hrender := render_chunks (by norm_num : 0 < 9) hpos
    simp only [bind_eq_ok, require_eq_ok, pure_eq_ok, hrender, List.length_append,
      Nat.add_sub_cancel_left]
    constructor
    · rintro ⟨-, -, -, hlength, rfl⟩
      exact ⟨hlength, rfl⟩
    · rintro ⟨hlength, rfl⟩
      exact ⟨(), size_le_of_digits hlength, (), hlength, rfl⟩

/-! ## Parsing -/

/-- The integer that a sign and digits denote in base ten. -/
def denote (negative : Bool) (digits : List Char) : ℤ :=
  if negative then -(Nat.ofDigitChars 10 digits 0 : ℤ) else Nat.ofDigitChars 10 digits 0

theorem readChunks_first (digits : List Char) :
    readChunks 9 (Nat.ofDigitChars 10 (digits.take (digits.length % 9)) 0)
      (digits.drop (digits.length % 9)) = Nat.ofDigitChars 10 digits 0 := by
  rw [readChunks_eq (by norm_num) ?_, ← Nat.ofDigitChars_append, List.take_append_drop]
  rw [List.length_drop]
  exact (Nat.modEq_iff_dvd' (Nat.mod_le _ _)).mp (Nat.mod_modEq _ _)

/-- The parser accepts a sign and a nonempty list of digits within the ceiling, and returns what
they denote. -/
theorem parseUnlimitedDecimalInteger_eq_ok {token : List Char} {value : ℤ} :
    parseUnlimitedDecimalInteger token = .ok value ↔
      ∃ negative digits, token = (if negative then ['-'] else []) ++ digits ∧ digits ≠ [] ∧
        (∀ c ∈ digits, c.isDigit) ∧ digits.length ≤ maxCanonicalIntegerDecimalDigits ∧
        value = denote negative digits := by
  simp only [parseUnlimitedDecimalInteger, bind_eq_ok, require_eq_ok, pure_eq_ok]
  constructor
  · rintro ⟨-, hne, -, ⟨hdigits, hall⟩, -, hlength, rfl⟩
    refine ⟨token.head? = some '-', _, ?_, hdigits, hall, hlength, ?_⟩
    · cases token with
      | nil => exact absurd rfl hne
      | cons c rest => by_cases hc : c = '-' <;> simp [hc]
    · rw [readChunks_first]
      by_cases h : token.head? = some '-' <;> simp [denote, h]
  · rintro ⟨negative, digits, rfl, hne, hall, hlength, rfl⟩
    have hhead : digits.head? ≠ some '-' := by
      intro h
      obtain ⟨rest, rfl⟩ := List.head?_eq_some_iff.mp h
      exact absurd (hall '-' List.mem_cons_self) (by decide)
    cases negative
    · exact ⟨(), by simpa using hne, (), by simpa [hhead] using ⟨hne, hall⟩, (),
        by simpa [hhead] using hlength, by simp [hhead, readChunks_first, denote]⟩
    · exact ⟨(), by simp, (), by simpa using ⟨hne, hall⟩, (), by simpa using hlength,
        by simp [readChunks_first, denote]⟩

theorem parse_numeral {n : ℤ}
    (h : (Nat.toDigits 10 n.natAbs).length ≤ maxCanonicalIntegerDecimalDigits) :
    parseUnlimitedDecimalInteger (numeral n) = .ok n := by
  refine parseUnlimitedDecimalInteger_eq_ok.mpr ⟨n < 0, Nat.toDigits 10 n.natAbs, ?_,
    Nat.toDigits_ne_nil, fun c hc => Nat.isDigit_of_mem_toDigits (by norm_num) le_rfl hc, h, ?_⟩
  · simp [numeral]
  · rw [denote, Nat.ofDigitChars_ten_toDigits]
    by_cases hneg : n < 0
    · rw [if_pos (by simpa using hneg)]
      omega
    · rw [if_neg (by simpa using hneg)]
      omega

theorem head_toDigits {n : ℕ} (hn : 0 < n) : (Nat.toDigits 10 n).head? ≠ some '0' := by
  induction n using Nat.strong_induction_on with
  | _ n ih =>
    rcases lt_or_ge n 10 with hlt | hge
    · rw [Nat.toDigits_of_lt_base hlt]
      interval_cases n <;> decide
    · rw [Nat.toDigits_of_base_le (by norm_num) hge,
        List.head?_append_of_ne_nil _ Nat.toDigits_ne_nil]
      exact ih _ (by omega) (by omega)

/-- Integers are rendered exactly up to the ceiling, as their standard numerals, and parsed back;
and every accepted token is parsed as what its digits denote. -/
theorem unlimitedDecimalInteger_exact :
    (∀ n : ℤ, (∃ text, unlimitedDecimalInteger n = .ok text) ↔
      (Nat.toDigits 10 n.natAbs).length ≤ maxCanonicalIntegerDecimalDigits) ∧
    (∀ n : ℤ, (Nat.toDigits 10 n.natAbs).length ≤ maxCanonicalIntegerDecimalDigits →
      Nat.size n.natAbs ≤ maxCanonicalIntegerBits) ∧
    (∀ (n : ℤ) text, unlimitedDecimalInteger n = .ok text →
      text = (if n < 0 then ['-'] else []) ++ Nat.toDigits 10 n.natAbs ∧
      (n ≠ 0 → (Nat.toDigits 10 n.natAbs).head? ≠ some '0') ∧
      parseUnlimitedDecimalInteger text = .ok n) ∧
    ∀ token value, parseUnlimitedDecimalInteger token = .ok value →
      ∃ negative digits, token = (if negative then ['-'] else []) ++ digits ∧
        (∀ c ∈ digits, c.isDigit) ∧ value = denote negative digits := by
  refine ⟨fun n => ?_, fun n => size_le_of_digits, fun n text h => ?_, fun token value h => ?_⟩
  · simp [unlimitedDecimalInteger_eq_ok]
  · obtain ⟨hlength, rfl⟩ := unlimitedDecimalInteger_eq_ok.mp h
    exact ⟨rfl, fun hne => head_toDigits (Int.natAbs_pos.mpr hne), parse_numeral hlength⟩
  · obtain ⟨negative, digits, htoken, -, hall, -, hvalue⟩ :=
      parseUnlimitedDecimalInteger_eq_ok.mp h
    exact ⟨negative, digits, htoken, hall, hvalue⟩

end Acfqp.Encoding
