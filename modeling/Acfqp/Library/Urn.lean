import Mathlib

/-!
# Reinforced urns

A draw from an urn takes a colour with probability proportional to its weight and adds one to that
weight. The mass of a word of draws is the product of its step probabilities. The words with given
counts have a total mass in closed form, and the mass of a colour averages to itself over any block
of draws.
-/

namespace Acfqp.Library.Urn

open Finset

variable {ι : Type} [Fintype ι] [DecidableEq ι]

/-! ## Rising products -/

/-- The product `x * (x + 1) * … * (x + n - 1)`. -/
def rising (x : ℚ) (n : ℕ) : ℚ := ∏ j ∈ range n, (x + j)

@[simp] theorem rising_zero (x : ℚ) : rising x 0 = 1 := prod_range_zero _

theorem rising_succ (x : ℚ) (n : ℕ) : rising x (n + 1) = x * rising (x + 1) n := by
  rw [rising, prod_range_succ', mul_comm]
  simp [rising, add_assoc, add_comm (1 : ℚ)]

theorem rising_pos {x : ℚ} (hx : 0 < x) (n : ℕ) : 0 < rising x n :=
  prod_pos fun j _ => by positivity

/-! ## Draws -/

/-- The probability of a colour. -/
def mass (w : ι → ℚ) (i : ι) : ℚ := w i / ∑ j, w j

def single (i : ι) : ι → ℕ := fun j => if j = i then 1 else 0

/-- The urn after the colour was drawn. -/
def reinforce (w : ι → ℚ) (i : ι) : ι → ℚ := fun j => w j + single i j

def wordMass : (ι → ℚ) → List ι → ℚ
  | _, [] => 1
  | w, i :: s => mass w i * wordMass (reinforce w i) s

def words (ι : Type) [Fintype ι] [DecidableEq ι] : ℕ → Finset (List ι)
  | 0 => {[]}
  | n + 1 => (univ ×ˢ words ι n).image fun p => p.1 :: p.2

/-- How often each colour is in the word. -/
def counts (s : List ι) : ι → ℕ := fun i => s.count i

/-- The total mass of the words with given counts. -/
def blockMass (w : ι → ℚ) (a : ι → ℕ) : ℚ :=
  ((∑ i, a i).factorial : ℚ) / (∏ i, ((a i).factorial : ℚ)) * (∏ i, rising (w i) (a i)) /
    rising (∑ i, w i) (∑ i, a i)

omit [Fintype ι] in
@[simp] theorem single_self (i : ι) : single i i = 1 := if_pos rfl

omit [Fintype ι] in
theorem single_of_ne {i j : ι} (h : j ≠ i) : single i j = 0 := if_neg h

@[simp] theorem sum_single (i : ι) : ∑ j, single i j = 1 := by simp [single]

theorem mem_words {n : ℕ} {s : List ι} : s ∈ words ι n ↔ s.length = n := by
  induction n generalizing s with
  | zero => simp [words]
  | succ n ih =>
    cases s with
    | nil => simp [words]
    | cons i s => simp [words, ih]

theorem sum_words_succ {M : Type} [AddCommMonoid M] (f : List ι → M) (n : ℕ) :
    ∑ s ∈ words ι (n + 1), f s = ∑ i, ∑ s ∈ words ι n, f (i :: s) := by
  rw [words, sum_image (by intro p _ q _ h; simpa [Prod.ext_iff] using h), sum_product]

omit [Fintype ι] in
theorem counts_cons (i : ι) (s : List ι) : counts (i :: s) = counts s + single i := by
  funext j
  by_cases h : j = i
  · subst h
    simp [counts]
  · simp [counts, single_of_ne h, List.count_cons_of_ne (Ne.symm h)]

theorem sum_counts (s : List ι) : ∑ i, counts s i = s.length := by
  induction s with
  | nil => simp [counts]
  | cons i s ih => rw [counts_cons]; simp [sum_add_distrib, ih]

/-- The weights of an urn are positive and there is a colour. -/
structure Filled (w : ι → ℚ) : Prop where
  nonempty : Nonempty ι
  pos : ∀ i, 0 < w i

section Filled

variable {w : ι → ℚ}

theorem sum_reinforce (w : ι → ℚ) (i : ι) : ∑ j, reinforce w i j = (∑ j, w j) + 1 := by
  have hone : ∑ j, (single i j : ℚ) = 1 := by exact_mod_cast sum_single i
  rw [← hone, ← sum_add_distrib]
  rfl

omit [DecidableEq ι] in
theorem Filled.sum_pos (h : Filled w) : 0 < ∑ i, w i :=
  have := h.nonempty
  Finset.sum_pos (fun i _ => h.pos i) univ_nonempty

omit [Fintype ι] in
theorem Filled.reinforce (h : Filled w) (i : ι) : Filled (reinforce w i) where
  nonempty := h.nonempty
  pos j := add_pos_of_pos_of_nonneg (h.pos j) (Nat.cast_nonneg _)

omit [DecidableEq ι] in
theorem Filled.sum_mass (h : Filled w) : ∑ i, mass w i = 1 := by
  simp only [mass]
  rw [← sum_div, div_self h.sum_pos.ne']

omit [DecidableEq ι] in
theorem Filled.mass_pos (h : Filled w) (i : ι) : 0 < mass w i := div_pos (h.pos i) h.sum_pos

omit [DecidableEq ι] in
theorem Filled.blockMass_pos (h : Filled w) (a : ι → ℕ) : 0 < blockMass w a := by
  have hnum : 0 < ∏ i, rising (w i) (a i) := prod_pos fun i _ => rising_pos (h.pos i) _
  have hfactorial : 0 < ∏ i, ((a i).factorial : ℚ) :=
    prod_pos fun i _ => by exact_mod_cast (a i).factorial_pos
  have hden := rising_pos h.sum_pos (∑ i, a i)
  have htotal : 0 < ((∑ i, a i).factorial : ℚ) := by exact_mod_cast Nat.factorial_pos _
  exact div_pos (mul_pos (div_pos htotal hfactorial) hnum) hden

omit [DecidableEq ι] in
theorem blockMass_zero (w : ι → ℚ) : blockMass w 0 = 1 := by simp [blockMass]

/-! ## Blocks -/

theorem Filled.mass_mul_blockMass (h : Filled w) (b : ι → ℕ) (i : ι) :
    mass w i * blockMass (Urn.reinforce w i) b =
      blockMass w (b + single i) * ((b i + 1) / ((∑ j, b j) + 1)) := by
  have hsum : ∑ j, (b + single i) j = (∑ j, b j) + 1 := by simp [sum_add_distrib]
  have hfactorials : ∏ j, (((b + single i) j).factorial : ℚ) =
      (b i + 1) * ∏ j, ((b j).factorial : ℚ) := by
    rw [← mul_prod_erase univ _ (mem_univ i), ← mul_prod_erase univ _ (mem_univ i), ← mul_assoc]
    congr 1
    · simp [Nat.factorial_succ]
    · refine prod_congr rfl fun j hj => ?_
      simp [single_of_ne (mem_erase.mp hj).1]
  have hrisings : w i * ∏ j, rising (Urn.reinforce w i j) (b j) =
      ∏ j, rising (w j) ((b + single i) j) := by
    rw [← mul_prod_erase univ _ (mem_univ i), ← mul_prod_erase univ _ (mem_univ i), ← mul_assoc]
    congr 1
    · simp [Urn.reinforce, rising_succ]
    · refine prod_congr rfl fun j hj => ?_
      simp [Urn.reinforce, single_of_ne (mem_erase.mp hj).1]
  have hne : (∏ j, ((b j).factorial : ℚ)) ≠ 0 :=
    prod_ne_zero_iff.mpr fun j _ => by exact_mod_cast (b j).factorial_ne_zero
  have hbi : (b i : ℚ) + 1 ≠ 0 := by positivity
  have htotal : (∑ j, (b j : ℚ)) + 1 ≠ 0 := by positivity
  have hw := h.sum_pos.ne'
  have hrising := (rising_pos (h.reinforce i).sum_pos (∑ j, b j)).ne'
  rw [sum_reinforce] at hrising
  simp only [blockMass, mass]
  rw [hsum, hfactorials, ← hrisings, rising_succ, Nat.factorial_succ, sum_reinforce]
  push_cast
  field_simp

theorem Filled.sum_wordMass (h : Filled w) (a : ι → ℕ) :
    ∑ s ∈ words ι (∑ i, a i) with counts s = a, wordMass w s = blockMass w a := by
  generalize hn : ∑ i, a i = n
  induction n generalizing w a with
  | zero =>
    obtain rfl : a = 0 := funext fun i => (sum_eq_zero_iff.mp hn) i (mem_univ i)
    have hcounts : counts ([] : List ι) = 0 := funext fun i => by simp [counts]
    simp [words, wordMass, blockMass_zero, filter_singleton, hcounts]
  | succ n ih =>
    have hfirst : ∀ i, (∑ s ∈ words ι n, if counts (i :: s) = a then wordMass w (i :: s) else 0) =
        blockMass w a * (a i / (n + 1)) := by
      intro i
      rcases Nat.eq_zero_or_pos (a i) with hzero | hpos
      · rw [hzero, Nat.cast_zero, zero_div, mul_zero]
        refine sum_eq_zero fun s _ => if_neg fun heq => ?_
        have := congrFun heq i
        simp [counts_cons, hzero] at this
      · obtain ⟨b, rfl⟩ : ∃ b, a = b + single i := by
          refine ⟨a - single i, funext fun j => ?_⟩
          by_cases hj : j = i
          · subst hj
            simp only [Pi.add_apply, Pi.sub_apply, single_self]
            omega
          · simp [single_of_ne hj]
        have hb : ∑ j, b j = n := by
          simpa [sum_add_distrib] using hn
        have hstep := ih (h.reinforce i) b hb
        rw [sum_filter] at hstep
        have hshare := h.mass_mul_blockMass b i
        rw [← hstep, mul_sum] at hshare
        simp only [counts_cons, add_left_inj, wordMass]
        rw [Pi.add_apply, single_self, Nat.cast_add, Nat.cast_one]
        rw [hb] at hshare
        rw [← hshare]
        exact sum_congr rfl fun s _ => by rw [mul_ite, mul_zero]
    rw [sum_filter, sum_words_succ, sum_congr rfl fun i _ => hfirst i, ← mul_sum, ← sum_div]
    have hcast : (∑ i, (a i : ℚ)) = n + 1 := by exact_mod_cast hn
    rw [hcast, div_self (by positivity), mul_one]

theorem Filled.sum_blockMass_mul (h : Filled w) (n : ℕ) (g : (ι → ℕ) → ℚ) :
    ∑ a ∈ piAntidiag univ n, blockMass w a * g a =
      ∑ s ∈ words ι n, wordMass w s * g (counts s) := by
  have hmaps : ∀ s ∈ words ι n, counts s ∈ piAntidiag (univ : Finset ι) n := by
    intro s hs
    simp [mem_piAntidiag, sum_counts, mem_words.mp hs]
  rw [← sum_fiberwise_of_maps_to hmaps]
  refine sum_congr rfl fun a ha => ?_
  obtain ⟨rfl, -⟩ := mem_piAntidiag.mp ha
  rw [← h.sum_wordMass, sum_mul]
  exact sum_congr rfl fun s hs => by rw [(mem_filter.mp hs).2]

theorem Filled.sum_words (h : Filled w) (n : ℕ) : ∑ s ∈ words ι n, wordMass w s = 1 := by
  induction n generalizing w with
  | zero => simp [words, wordMass]
  | succ n ih =>
    simp only [sum_words_succ, wordMass, ← mul_sum, ih (h.reinforce _), mul_one]
    exact h.sum_mass

theorem Filled.sum_mass_reinforce (h : Filled w) (j : ι) :
    ∑ i, mass w i * mass (Urn.reinforce w i) j = mass w j := by
  have hne := h.sum_pos.ne'
  have hne' : (∑ i, w i) + 1 ≠ 0 := by have := h.sum_pos; positivity
  have hterm : ∀ i, mass w i * mass (Urn.reinforce w i) j =
      (mass w i * w j + mass w i * single i j) / ((∑ i, w i) + 1) := by
    intro i
    rw [mass, mass, sum_reinforce, Urn.reinforce]
    ring
  have hsingle : ∑ i, mass w i * (single i j : ℚ) = mass w j := by
    rw [sum_eq_single j (fun i _ hij => by simp [single_of_ne hij.symm]) (by simp)]
    simp
  rw [sum_congr rfl fun i _ => hterm i, ← sum_div, sum_add_distrib, ← sum_mul, h.sum_mass, hsingle,
    mass]
  field_simp

theorem Filled.sum_words_mass (h : Filled w) (n : ℕ) (j : ι) :
    ∑ s ∈ words ι n, wordMass w s * mass (fun i => w i + counts s i) j = mass w j := by
  induction n generalizing w with
  | zero => simp [words, wordMass, counts]
  | succ n ih =>
    have hshift : ∀ i s, (fun k => w k + counts (i :: s) k) =
        fun k => Urn.reinforce w i k + counts s k := by
      intro i s
      funext k
      rw [counts_cons, Urn.reinforce]
      push_cast [Pi.add_apply]
      ring
    simp only [sum_words_succ, wordMass, hshift, mul_assoc, ← mul_sum, ih (h.reinforce _)]
    exact h.sum_mass_reinforce j

theorem Filled.sum_blockMass (h : Filled w) (n : ℕ) :
    ∑ a ∈ piAntidiag univ n, blockMass w a = 1 := by
  simpa [h.sum_words] using h.sum_blockMass_mul n fun _ => 1

theorem Filled.sum_blockMass_mass (h : Filled w) (n : ℕ) (j : ι) :
    ∑ a ∈ piAntidiag univ n, blockMass w a * mass (fun i => w i + a i) j = mass w j := by
  rw [h.sum_blockMass_mul n fun a => mass (fun i => w i + a i) j, h.sum_words_mass]

end Filled

end Acfqp.Library.Urn
