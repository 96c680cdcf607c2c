import Mathlib.Order.Bounds.Basic
import Mathlib.Logic.Function.Iterate
import Mathlib.Tactic.Linarith
import Mathlib.Tactic.Ring

/-!
# Ascent to a fixed point

A partial step that respects an order is run from the least element. Every state it visits lies
below every fixed point, so the first fixed point it meets is the least one. A step that counts the
decimal digits of its argument meets one after few rounds.
-/

namespace Acfqp.Library

variable {α : Type*} [Preorder α] {R : α → α → Prop} {a b : α}

/-- A relation between arguments and values that respects the order. -/
def Ascending (R : α → α → Prop) : Prop :=
  ∀ ⦃a b c d⦄, R a c → R b d → a ≤ b → c ≤ d

theorem Ascending.le_fixed {x : α} (hR : Ascending R) (h : Relation.ReflTransGen R a b)
    (hx : R x x) (ha : a ≤ x) : b ≤ x := by
  induction h with
  | refl => exact ha
  | tail _ hstep ih => exact hR hstep hx ih

theorem Ascending.isLeast_fixed [OrderBot α] (hR : Ascending R)
    (h : Relation.ReflTransGen R ⊥ b) (hb : R b b) : IsLeast {x | R x x} b :=
  ⟨hb, fun _ hx => hR.le_fixed h hx bot_le⟩

/-! ## Decimal lengths -/

def decimalLength (n : ℕ) : ℕ := (Nat.toDigits 10 n).length

theorem decimalLength_pos (n : ℕ) : 0 < decimalLength n := Nat.length_toDigits_pos

theorem decimalLength_le_iff {n k : ℕ} (hk : 0 < k) : decimalLength n ≤ k ↔ n < 10 ^ k :=
  Nat.length_toDigits_le_iff (by omega) hk

theorem lt_pow_decimalLength (n : ℕ) : n < 10 ^ decimalLength n :=
  (decimalLength_le_iff (decimalLength_pos n)).mp le_rfl

theorem decimalLength_zero : decimalLength 0 = 1 := by decide

theorem decimalLength_mono : Monotone decimalLength := fun _ n h =>
  (decimalLength_le_iff (decimalLength_pos n)).mpr (h.trans_lt (lt_pow_decimalLength n))

/-- A run of `base + perDigit * digits` from zero. -/
structure DigitRun (base perDigit : ℤ) (c : ℕ → ℕ) : Prop where
  start : c 0 = 0
  step : ∀ i, (c (i + 1) : ℤ) = base + perDigit * decimalLength (c i)

namespace DigitRun

variable {base perDigit : ℤ} {c : ℕ → ℕ}

theorem value_succ (h : DigitRun base perDigit c) {i n m : ℕ} (hn : c i = n)
    (hm : (m : ℤ) = base + perDigit * decimalLength n) : c (i + 1) = m := by
  have hstep := h.step i
  rw [hn, ← hm] at hstep
  exact_mod_cast hstep

/-- Two steps differ by what their lengths contribute. -/
theorem step_sub (h : DigitRun base perDigit c) (i j : ℕ) :
    (c (i + 1) : ℤ) - c (j + 1) = perDigit * (decimalLength (c i) - decimalLength (c j)) := by
  rw [h.step i, h.step j]
  ring

/-- The second step adds what the digits of the first total contribute past one. -/
theorem second_sub (h : DigitRun base perDigit c) :
    (c 2 : ℤ) - c 1 = perDigit * (decimalLength (c 1) - 1) := by
  simpa [h.start, decimalLength_zero] using h.step_sub 1 0

/-- Equal lengths end the run. -/
theorem settles (h : DigitRun base perDigit c) {i : ℕ}
    (heq : decimalLength (c (i + 1)) = decimalLength (c i)) : c (i + 2) = c (i + 1) := by
  have hsub := h.step_sub (i + 1) i
  rw [heq, sub_self, mul_zero, sub_eq_zero] at hsub
  exact_mod_cast hsub

theorem monotone (h : DigitRun base perDigit c) (hpos : 0 ≤ perDigit) : Monotone c := by
  refine monotone_nat_of_le_succ fun i => ?_
  induction i with
  | zero => rw [h.start]; exact Nat.zero_le _
  | succ i ih =>
    have hsub := h.step_sub (i + 1) i
    have hlength : (decimalLength (c i) : ℤ) ≤ decimalLength (c (i + 1)) := by
      exact_mod_cast decimalLength_mono ih
    have := mul_nonneg hpos (sub_nonneg.mpr hlength)
    omega

/-- Where the first length exceeds one and the run does not descend, the digits contribute. -/
theorem perDigit_nonneg (h : DigitRun base perDigit c) (hle : c 1 ≤ c 2)
    (hlong : 1 < decimalLength (c 1)) : 0 ≤ perDigit := by
  have hsub := h.second_sub
  by_contra hneg
  push Not at hneg
  have hlength : (0 : ℤ) < decimalLength (c 1) - 1 := by omega
  have := mul_neg_of_neg_of_pos hneg hlength
  omega

/-- A run whose lengths stay within ten digits repeats a value by its fifth step. -/
theorem repeats (h : DigitRun base perDigit c) (hle : c 1 ≤ c 2) (hbound : ∀ i, c i < 10 ^ 10) :
    ∃ k < 5, c (k + 1) = c k := by
  by_contra hnone
  push Not at hnone
  have hne : ∀ i < 4, decimalLength (c (i + 1)) ≠ decimalLength (c i) := fun i hi heq =>
    hnone (i + 1) (by omega) (h.settles heq)
  have hfirst : 1 < decimalLength (c 1) := by
    have hone : decimalLength (c 1) ≠ 1 := by
      simpa [h.start, decimalLength_zero] using hne 0 (by omega)
    have := decimalLength_pos (c 1)
    omega
  have hpos := h.perDigit_nonneg hle hfirst
  have hlt : ∀ i < 4, decimalLength (c i) < decimalLength (c (i + 1)) := fun i hi =>
    lt_of_le_of_ne (decimalLength_mono (h.monotone hpos (Nat.le_succ i))) (hne i hi).symm
  have hten := (decimalLength_le_iff (by omega)).mpr (hbound 4)
  have h12 : decimalLength (c 1) < decimalLength (c 2) := hlt 1 (by omega)
  have h23 : decimalLength (c 2) < decimalLength (c 3) := hlt 2 (by omega)
  have h34 : decimalLength (c 3) < decimalLength (c 4) := hlt 3 (by omega)
  -- Before the second jump the total is below this power, and so is what one digit contributes.
  have hsecond : (c 2 : ℤ) < 10 ^ decimalLength (c 2) := by
    exact_mod_cast lt_pow_decimalLength (c 2)
  have hdigit : perDigit < 10 ^ decimalLength (c 2) := by
    have hsub := h.second_sub
    have hone : perDigit * 1 ≤ perDigit * (decimalLength (c 1) - 1) :=
      mul_le_mul_of_nonneg_left (by omega) hpos
    omega
  have hgrows : ∀ i, decimalLength (c i) ≤ 9 →
      (c (i + 1) : ℤ) < 10 ^ (decimalLength (c 2) + 1) := by
    intro i hi
    have hsub : (c (i + 1) : ℤ) - c 2 = _ := h.step_sub i 1
    have hmul : perDigit * (decimalLength (c i) - decimalLength (c 1)) ≤ perDigit * 7 :=
      mul_le_mul_of_nonneg_left (by omega) hpos
    rw [pow_succ]
    omega
  have hthree : decimalLength (c 3) ≤ decimalLength (c 2) + 1 :=
    (decimalLength_le_iff (by omega)).mpr (by exact_mod_cast hgrows 2 (by omega))
  have hfour : decimalLength (c 4) ≤ decimalLength (c 2) + 1 :=
    (decimalLength_le_iff (by omega)).mpr (by exact_mod_cast hgrows 3 (by omega))
  omega

theorem repeats_of_base_nonneg (h : DigitRun base perDigit c) (hbase : 0 ≤ base) (hle : c 1 ≤ c 2)
    (hbound : ∀ i, c i < 10 ^ 10) : ∃ k < 4, c (k + 1) = c k := by
  by_contra hnone
  push Not at hnone
  have hne : ∀ i < 3, decimalLength (c (i + 1)) ≠ decimalLength (c i) := fun i hi heq =>
    hnone (i + 1) (by omega) (h.settles heq)
  have hfirst : 1 < decimalLength (c 1) := by
    have hone : decimalLength (c 1) ≠ 1 := by
      simpa [h.start, decimalLength_zero] using hne 0 (by omega)
    have := decimalLength_pos (c 1)
    omega
  have hpos := h.perDigit_nonneg hle hfirst
  have hlt : ∀ i < 3, decimalLength (c i) < decimalLength (c (i + 1)) := fun i hi =>
    lt_of_le_of_ne (decimalLength_mono (h.monotone hpos (Nat.le_succ i))) (hne i hi).symm
  have hten := (decimalLength_le_iff (by omega)).mpr (hbound 3)
  have h12 : decimalLength (c 1) < decimalLength (c 2) := hlt 1 (by omega)
  have h23 : decimalLength (c 2) < decimalLength (c 3) := hlt 2 (by omega)
  have hstart : (c 1 : ℤ) < 10 ^ decimalLength (c 1) := by
    exact_mod_cast lt_pow_decimalLength (c 1)
  have hone : (c 1 : ℤ) = base + perDigit := by
    simpa [h.start, decimalLength_zero] using h.step 0
  -- Each later total is at most ten times the first.
  have hgrows : ∀ i, decimalLength (c i) ≤ 10 →
      (c (i + 1) : ℤ) < 10 ^ (decimalLength (c 1) + 1) := by
    intro i hi
    have hstep := h.step i
    have hmul : perDigit * decimalLength (c i) ≤ perDigit * 10 :=
      mul_le_mul_of_nonneg_left (by omega) hpos
    rw [pow_succ]
    omega
  have htwo : decimalLength (c 2) ≤ decimalLength (c 1) + 1 :=
    (decimalLength_le_iff (by omega)).mpr (by exact_mod_cast hgrows 1 (by omega))
  have hthree : decimalLength (c 3) ≤ decimalLength (c 1) + 1 :=
    (decimalLength_le_iff (by omega)).mpr (by exact_mod_cast hgrows 2 (by omega))
  omega

end DigitRun

end Acfqp.Library
