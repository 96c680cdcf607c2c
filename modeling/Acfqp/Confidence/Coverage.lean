import Acfqp.Confidence.Comparison
import Acfqp.Library.Sampling

/-!
# Time-uniform coverage of the Bernoulli confidence sequence

The mixture mass of a sequence is a consistent alternative likelihood, so that first passage
bounds the probability that a prefix is ever rejected. The likelihood is monotone on either side
of the empirical frequency, so that a probability outside an outward-rounded interval is rejected.
-/

namespace Acfqp.Confidence

open Library

/-! ## The mixture as an alternative mass -/

def mixtureMass (n s : ℕ) : ℚ := 1 / ((n + 1) * n.choose s)

theorem betaBinomialSequenceMass_eq_ok {n s : ℕ} {mass : ℚ} :
    betaBinomialSequenceMass n s = .ok mass ↔ (0 < n ∧ s ≤ n) ∧ mass = mixtureMass n s := by
  constructor
  · intro h
    obtain ⟨_, hcounts, h⟩ := bind_eq_ok.mp h
    exact ⟨require_eq_ok.mp hcounts, (pure_eq_ok.mp h).symm⟩
  · rintro ⟨hcounts, rfl⟩
    exact bind_eq_ok.mpr ⟨(), require_eq_ok.mpr hcounts, rfl⟩

theorem mixtureMass_pos {n s : ℕ} (h : s ≤ n) : 0 < mixtureMass n s := by
  have : (0 : ℚ) < n.choose s := by exact_mod_cast Nat.choose_pos h
  unfold mixtureMass
  positivity

theorem mixtureMass_split {n s : ℕ} (h : s ≤ n) :
    mixtureMass (n + 1) s + mixtureMass (n + 1) (s + 1) = mixtureMass n s := by
  have hs : ((n + 1 - s : ℕ) : ℚ) = n + 1 - s := by
    rw [Nat.cast_sub (by omega)]
    push_cast
    ring
  have hfail : (n.choose s : ℚ) * (n + 1) = (n + 1).choose s * (n + 1 - s) := by
    rw [← hs]
    exact_mod_cast Nat.choose_mul_succ_eq n s
  have hsucc : (n.choose s : ℚ) * (n + 1) = (n + 1).choose (s + 1) * (s + 1) := by
    rw [mul_comm]
    exact_mod_cast Nat.add_one_mul_choose_eq n s
  have hpos : (0 : ℚ) < n.choose s := by exact_mod_cast Nat.choose_pos h
  have hposFail : (0 : ℚ) < (n + 1).choose s := by exact_mod_cast Nat.choose_pos (by omega)
  have hposSucc : (0 : ℚ) < (n + 1).choose (s + 1) := by exact_mod_cast Nat.choose_pos (by omega)
  have hgap : (0 : ℚ) < n + 1 - s := by
    rw [← hs]
    exact_mod_cast Nat.sub_pos_of_lt (by omega)
  calc mixtureMass (n + 1) s + mixtureMass (n + 1) (s + 1)
      = (n + 1 - s) / ((n + 2) * (n.choose s * (n + 1))) +
          (s + 1) / ((n + 2) * (n.choose s * (n + 1))) := by
        congr 1
        · rw [hfail, mixtureMass]
          push_cast
          field_simp
          ring
        · rw [hsucc, mixtureMass]
          push_cast
          field_simp
          ring
    _ = mixtureMass n s := by
        rw [← add_div, mixtureMass]
        field_simp
        ring

/-! ## Bernoulli sequences -/

def successes (draws : List Bool) : ℕ := draws.count true

theorem successes_le (draws : List Bool) : successes draws ≤ draws.length := List.count_le_length

@[simp] theorem successes_append (past draws : List Bool) :
    successes (past ++ draws) = successes past + successes draws := List.count_append

/-- The two outcomes of one draw. -/
def coin (p : ℚ) : Bool → ℚ
  | true => p
  | false => 1 - p

theorem coin_nonneg {p : ℚ} (h0 : 0 ≤ p) (h1 : p ≤ 1) (b : Bool) : 0 ≤ coin p b := by
  cases b with
  | true => exact h0
  | false => exact sub_nonneg.mpr h1

theorem sum_coin (p : ℚ) : ∑ b, coin p b = 1 := by simp [coin]

theorem likelihood_coin (p : ℚ) (draws : List Bool) :
    likelihood (coin p) draws =
      p ^ successes draws * (1 - p) ^ (draws.length - successes draws) := by
  induction draws with
  | nil => simp [successes]
  | cons b draws ih =>
    have hle := successes_le draws
    cases b with
    | true =>
      have hs : successes (true :: draws) = successes draws + 1 := by simp [successes]
      rw [likelihood_cons, ih, hs, List.length_cons, Nat.add_sub_add_right, pow_succ']
      simp only [coin, mul_assoc]
    | false =>
      have hs : successes (false :: draws) = successes draws := by simp [successes]
      rw [likelihood_cons, ih, hs, List.length_cons, Nat.succ_sub hle, pow_succ']
      simp only [coin]
      ring

open scoped Classical in
/-- The exact probability of an event on the boolean sequences of a length. -/
noncomputable def bernoulliProbability (p : ℚ) (N : ℕ) (event : List Bool → Prop) : ℚ :=
  ∑ ω : Fin N → Bool with event (List.ofFn ω),
    p ^ successes (List.ofFn ω) * (1 - p) ^ (N - successes (List.ofFn ω))

theorem bernoulliProbability_eq (p : ℚ) (N : ℕ) (event : List Bool → Prop)
    [DecidablePred event] : bernoulliProbability p N event = probability (coin p) N event := by
  unfold bernoulliProbability probability
  refine Finset.sum_congr (Finset.filter_congr_decidable _ _ _) fun ω _ => ?_
  rw [likelihood_coin, List.length_ofFn]

theorem bernoulliProbability_mono {p : ℚ} (h0 : 0 ≤ p) (h1 : p ≤ 1) {N : ℕ}
    {event event' : List Bool → Prop} (h : ∀ l, l.length = N → event l → event' l) :
    bernoulliProbability p N event ≤ bernoulliProbability p N event' := by
  classical
  rw [bernoulliProbability_eq, bernoulliProbability_eq]
  exact probability_mono (coin_nonneg h0 h1) h

/-! ## Rejection -/

/-- The likelihood of a sequence with `s` successes in `n` draws. -/
def sequenceLikelihood (n s : ℕ) (p : ℚ) : ℚ := p ^ s * (1 - p) ^ (n - s)

theorem bernoulliMixtureRejects_eq_ok {n s : ℕ} {p α : ℚ} :
    bernoulliMixtureRejects n s p α = .ok true ↔ (0 < α ∧ α < 1) ∧ (0 < n ∧ s ≤ n) ∧
      (0 ≤ p ∧ p ≤ 1) ∧ sequenceLikelihood n s p ≤ α * mixtureMass n s := by
  constructor
  · intro h
    obtain ⟨_, hα, h⟩ := bind_eq_ok.mp h
    obtain ⟨mass, hmass, h⟩ := bind_eq_ok.mp h
    obtain ⟨hcounts, rfl⟩ := betaBinomialSequenceMass_eq_ok.mp hmass
    obtain ⟨value, hvalue, h⟩ := bind_eq_ok.mp h
    obtain ⟨_, hp, hvalue⟩ := bind_eq_ok.mp hvalue
    obtain ⟨_, -, hvalue⟩ := bind_eq_ok.mp hvalue
    obtain rfl := pure_eq_ok.mp hvalue
    exact ⟨require_eq_ok.mp hα, hcounts, require_eq_ok.mp hp,
      of_decide_eq_true (pure_eq_ok.mp h)⟩
  · rintro ⟨hα, hcounts, hp, hle⟩
    have hmass := betaBinomialSequenceMass_eq_ok.mpr ⟨hcounts, rfl⟩
    refine bind_eq_ok.mpr ⟨(), require_eq_ok.mpr hα, bind_eq_ok.mpr ⟨_, hmass, ?_⟩⟩
    refine bind_eq_ok.mpr ⟨sequenceLikelihood n s p, ?_, pure_eq_ok.mpr (decide_eq_true hle)⟩
    exact bind_eq_ok.mpr ⟨(), require_eq_ok.mpr hp, bind_eq_ok.mpr ⟨_, hmass, rfl⟩⟩

/-- The mixture, read on sequences, is consistent. -/
theorem sum_mixtureMass (past : List Bool) :
    ∑ b, mixtureMass (past ++ [b]).length (successes (past ++ [b])) =
      mixtureMass past.length (successes past) := by
  rw [← mixtureMass_split (successes_le past)]
  simp [successes, add_comm]

/-- A true probability is ever rejected with probability at most `α`. -/
theorem bernoulliProbability_rejects_le {p α : ℚ} (hp : 0 ≤ p ∧ p ≤ 1) (hα : 0 < α ∧ α < 1)
    (N : ℕ) :
    bernoulliProbability p N (fun ω => ∃ n ≤ N,
      bernoulliMixtureRejects n (successes (ω.take n)) p α = .ok true) ≤ α := by
  classical
  have hpass := probability_passes_le (coin p) α
    (fun past => mixtureMass past.length (successes past))
    (fun past =>
      bernoulliMixtureRejects past.length (successes past) p α = .ok true)
    (coin_nonneg hp.1 hp.2) (sum_coin p) (fun past => (mixtureMass_pos (successes_le past)).le)
    (by simp [mixtureMass, successes]) hα.1.le (fun past => (sum_mixtureMass past).le)
    (fun past h => by
      rw [likelihood_coin]
      exact (bernoulliMixtureRejects_eq_ok.mp h).2.2.2) N
  refine le_trans ?_ hpass
  rw [← bernoulliProbability_eq]
  refine bernoulliProbability_mono hp.1 hp.2 ?_
  rintro ω rfl ⟨n, hn, hrejects⟩
  refine ⟨n, hn, ?_⟩
  change bernoulliMixtureRejects (ω.take n).length _ p α = _
  rwa [List.length_take, min_eq_left hn]

/-! ## The likelihood on either side of the empirical frequency -/

/-- The likelihood grows up to the frequency of successes: compare with the exponential of the
linear bound on its logarithm. -/
theorem pow_mul_pow_le {a b : ℝ} {s f : ℕ} (ha : 0 ≤ a) (hab : a ≤ b) (hb : b ≤ 1)
    (h : (s + f) * b ≤ s) : a ^ s * (1 - a) ^ f ≤ b ^ s * (1 - b) ^ f := by
  rcases hab.eq_or_lt with rfl | hlt
  · rfl
  have hb0 : 0 < b := ha.trans_lt hlt
  rcases hb.eq_or_lt with rfl | hb1
  · have hf : (f : ℝ) ≤ 0 := by linarith
    obtain rfl : f = 0 := by exact_mod_cast le_antisymm hf f.cast_nonneg
    simpa using pow_le_one₀ ha hab
  have hb1' : 0 < 1 - b := sub_pos.mpr hb1
  have hpow : ∀ (x : ℝ) (k : ℕ), 0 ≤ x → x ^ k ≤ Real.exp (k * (x - 1)) := by
    intro x k hx
    rw [Real.exp_nat_mul]
    exact pow_le_pow_left₀ hx (by linarith [Real.add_one_le_exp (x - 1)]) k
  have hslope : s * (a / b - 1) + f * ((1 - a) / (1 - b) - 1) =
      (b - a) * ((s + f) * b - s) / (b * (1 - b)) := by
    field_simp
    ring
  have hexp : s * (a / b - 1) + f * ((1 - a) / (1 - b) - 1) ≤ 0 := by
    rw [hslope]
    exact div_nonpos_of_nonpos_of_nonneg (by nlinarith) (by positivity)
  have hratio : (a / b) ^ s * ((1 - a) / (1 - b)) ^ f ≤ 1 := by
    have ha1 : 0 ≤ (1 - a) / (1 - b) := div_nonneg (by linarith) hb1'.le
    calc _ ≤ Real.exp (s * (a / b - 1)) * Real.exp (f * ((1 - a) / (1 - b) - 1)) :=
          mul_le_mul (hpow _ s (by positivity)) (hpow _ f ha1) (by positivity) (by positivity)
      _ = Real.exp (s * (a / b - 1) + f * ((1 - a) / (1 - b) - 1)) := (Real.exp_add _ _).symm
      _ ≤ 1 := Real.exp_le_one_iff.mpr hexp
  rwa [div_pow, div_pow, div_mul_div_comm, div_le_one (by positivity)] at hratio

theorem sequenceLikelihood_le {n s : ℕ} {a b : ℚ} (hs : s ≤ n) (ha : 0 ≤ a) (hab : a ≤ b)
    (hb : b ≤ 1) (h : b * n ≤ s) : sequenceLikelihood n s a ≤ sequenceLikelihood n s b := by
  obtain ⟨f, rfl⟩ := Nat.exists_eq_add_of_le hs
  have hreal : ((s + f : ℕ) : ℝ) * (b : ℝ) ≤ s := by
    rw [mul_comm]
    exact_mod_cast h
  push_cast at hreal
  have hle := pow_mul_pow_le (a := a) (b := b) (by exact_mod_cast ha) (by exact_mod_cast hab)
    (by exact_mod_cast hb) hreal
  simp only [sequenceLikelihood, Nat.add_sub_cancel_left]
  exact_mod_cast hle

theorem sequenceLikelihood_mirror {n s : ℕ} (hs : s ≤ n) (p : ℚ) :
    sequenceLikelihood n s p = sequenceLikelihood n (n - s) (1 - p) := by
  rw [sequenceLikelihood, sequenceLikelihood, Nat.sub_sub_self hs, sub_sub_cancel, mul_comm]

theorem sequenceLikelihood_ge {n s : ℕ} {a b : ℚ} (hs : s ≤ n) (ha : 0 ≤ a) (hab : a ≤ b)
    (hb : b ≤ 1) (h : s ≤ a * n) : sequenceLikelihood n s b ≤ sequenceLikelihood n s a := by
  rw [sequenceLikelihood_mirror hs, sequenceLikelihood_mirror hs a]
  refine sequenceLikelihood_le (by omega) (by linarith) (by linarith) (by linarith) ?_
  rw [Nat.cast_sub hs]
  linarith

/-! ## The search -/

theorem bisect_mem (raiseLow : ℕ → Bool) (fuel low high : ℕ) (h : low ≤ high) :
    low ≤ (bisect raiseLow fuel low high).1 ∧
      (bisect raiseLow fuel low high).1 ≤ (bisect raiseLow fuel low high).2.1 ∧
      (bisect raiseLow fuel low high).2.1 ≤ high := by
  induction fuel generalizing low high with
  | zero => simp [bisect, h]
  | succ fuel ih =>
    have hhigh := ih ((low + high) / 2) high (by omega)
    have hlow := ih low ((low + high) / 2) (by omega)
    unfold bisect
    dsimp only
    split
    · split <;> simp only <;> omega
    · exact ⟨le_rfl, h, le_rfl⟩

/-- A loop stops at its limit or at the first step that fails its test. -/
theorem walk_spec (go : ℕ → Bool) (steps limit : ℕ) :
    steps ≤ (walk go steps limit).1 ∧ (walk go steps limit).1 ≤ steps + limit ∧
      (∀ i, steps ≤ i → i < (walk go steps limit).1 → go i = true) ∧
      ((walk go steps limit).1 < steps + limit → go (walk go steps limit).1 = false) := by
  induction limit generalizing steps with
  | zero => exact ⟨le_rfl, le_rfl, by simp [walk]; omega, by simp [walk]⟩
  | succ limit ih =>
    obtain ⟨hle, hlimit, hgo, hstop⟩ := ih (steps + 1)
    unfold walk
    split
    · rename_i hsteps
      dsimp only
      refine ⟨by omega, by omega, fun i hi hlt => ?_, fun hlt => hstop (by omega)⟩
      rcases hi.eq_or_lt with rfl | hi
      · exact hsteps
      · exact hgo i hi hlt
    · rename_i hsteps
      exact ⟨le_rfl, by omega, by simp; omega, fun _ => by simpa using hsteps⟩

section Correction

variable {Z : Type} {exact : ExactGridRejection Z} {b : Boundary}

/-- A correction that returns ends within its limit, at a rejected index next to one that is not. -/
theorem correctLower_eq_ok {upper low logEvaluations : ℕ} (hle : low ≤ upper)
    (h : correctLower exact upper low logEvaluations = .ok b) :
    b.index ≤ upper ∧ exact.rejects b.index = true ∧
      (b.index < upper → exact.rejects (b.index + 1) ≠ true) := by
  obtain ⟨-, hdown, -⟩ := walk_spec (fun i => !exact.rejects (low - i)) 0 low
  obtain ⟨-, hup, -⟩ := walk_spec (fun i => exact.rejects
    (low - (walk (fun i => !exact.rejects (low - i)) 0 low).1 + i + 1)) 0
    (upper - (low - (walk (fun i => !exact.rejects (low - i)) 0 low).1))
  simp only [correctLower, bind_eq_ok, require_eq_ok, pure_eq_ok] at h
  obtain ⟨_, hrejects, _, hnext, rfl⟩ := h
  exact ⟨by dsimp only; omega, hrejects, fun hlt hr => hnext ⟨hlt, hr⟩⟩

theorem correctUpper_eq_ok {lower high logEvaluations : ℕ} (hlow : lower ≤ high)
    (hhigh : high ≤ exact.denominator)
    (h : correctUpper exact lower high logEvaluations = .ok b) :
    (lower ≤ b.index ∧ b.index ≤ exact.denominator) ∧ exact.rejects b.index = true ∧
      (lower < b.index → exact.rejects (b.index - 1) ≠ true) := by
  obtain ⟨-, hup, -⟩ := walk_spec (fun i => !exact.rejects (high + i)) 0 (exact.denominator - high)
  obtain ⟨-, hdown, -⟩ := walk_spec (fun i => exact.rejects
    (high + (walk (fun i => !exact.rejects (high + i)) 0 (exact.denominator - high)).1 - i - 1)) 0
    (high + (walk (fun i => !exact.rejects (high + i)) 0 (exact.denominator - high)).1 - lower)
  simp only [correctUpper, bind_eq_ok, require_eq_ok, pure_eq_ok] at h
  obtain ⟨_, hrejects, _, hnext, rfl⟩ := h
  exact ⟨by dsimp only; omega, hrejects, fun hlt hr => hnext ⟨hlt, hr⟩⟩

theorem correctLower_returns (hzero : exact.rejects 0 = true) (upper low logEvaluations : ℕ) :
    ∃ b, correctLower exact upper low logEvaluations = .ok b := by
  obtain ⟨-, hdown, -, hdownStop⟩ := walk_spec (fun i => !exact.rejects (low - i)) 0 low
  set down := (walk (fun i => !exact.rejects (low - i)) 0 low).1
  have hstart : exact.rejects (low - down) = true := by
    rcases (show down ≤ low by omega).eq_or_lt with heq | hlt
    · simpa [heq] using hzero
    · simpa using hdownStop (by omega)
  obtain ⟨-, hup, hupGo, hupStop⟩ :=
    walk_spec (fun i => exact.rejects (low - down + i + 1)) 0 (upper - (low - down))
  set up := (walk (fun i => exact.rejects (low - down + i + 1)) 0 (upper - (low - down))).1
  have hrejects : exact.rejects (low - down + up) = true := by
    cases hsteps : up with
    | zero => exact hstart
    | succ k => exact hupGo k (Nat.zero_le _) (by omega)
  refine ⟨_, bind_eq_ok.mpr ⟨(), require_eq_ok.mpr hrejects, bind_eq_ok.mpr
    ⟨(), require_eq_ok.mpr ?_, rfl⟩⟩⟩
  rintro ⟨hlt, hnext⟩
  have hlt' : low - down + up < upper := hlt
  exact Bool.false_ne_true ((hupStop (by omega)).symm.trans hnext)

theorem correctUpper_returns (hone : exact.rejects exact.denominator = true) {lower high : ℕ}
    (hlow : lower ≤ high) (hhigh : high ≤ exact.denominator) (logEvaluations : ℕ) :
    ∃ b, correctUpper exact lower high logEvaluations = .ok b := by
  obtain ⟨-, hup, -, hupStop⟩ :=
    walk_spec (fun i => !exact.rejects (high + i)) 0 (exact.denominator - high)
  set up := (walk (fun i => !exact.rejects (high + i)) 0 (exact.denominator - high)).1
  have hstart : exact.rejects (high + up) = true := by
    rcases (show high + up ≤ exact.denominator by omega).eq_or_lt with heq | hlt
    · simpa [heq] using hone
    · simpa using hupStop (by omega)
  obtain ⟨-, hdown, hdownGo, hdownStop⟩ :=
    walk_spec (fun i => exact.rejects (high + up - i - 1)) 0 (high + up - lower)
  set down := (walk (fun i => exact.rejects (high + up - i - 1)) 0 (high + up - lower)).1
  have hrejects : exact.rejects (high + up - down) = true := by
    cases hsteps : down with
    | zero => exact hstart
    | succ k =>
      have hgo := hdownGo k (Nat.zero_le _) (by omega)
      rwa [Nat.sub_sub] at hgo
  refine ⟨_, bind_eq_ok.mpr ⟨(), require_eq_ok.mpr hrejects, bind_eq_ok.mpr
    ⟨(), require_eq_ok.mpr ?_, rfl⟩⟩⟩
  rintro ⟨hgt, hprev⟩
  have hgt' : lower < high + up - down := hgt
  exact Bool.false_ne_true ((hdownStop (by omega)).symm.trans hprev)

end Correction

section Grid

variable {Z : Type} {gmp : Option (GmpBackend Z)} {value : Z → ℤ} {n s D : ℕ} {α : ℚ}

theorem gridRejects_iff (hs : s ≤ n) (hD : 0 < D) {i : ℕ} (hi : i ≤ D) :
    GridRejects n s D α i ↔ sequenceLikelihood n s (i / D) ≤ α * mixtureMass n s := by
  have hchoose : (0 : ℚ) < n.choose s := by exact_mod_cast Nat.choose_pos hs
  have hden : (0 : ℚ) < α.den := by exact_mod_cast α.den_pos
  have hDq : (0 : ℚ) < D := by exact_mod_cast hD
  have hlikelihood : sequenceLikelihood n s (i / D) = i ^ s * (D - i) ^ (n - s) / D ^ n := by
    have hfail : (1 : ℚ) - i / D = (D - i) / D := by field_simp
    rw [sequenceLikelihood, hfail, div_pow, div_pow, div_mul_div_comm, ← pow_add,
      Nat.add_sub_cancel' hs]
  have hthreshold : α * mixtureMass n s = α.num / (α.den * (n + 1) * n.choose s) := by
    rw [mixtureMass, mul_one_div]
    nth_rewrite 1 [← Rat.num_div_den α]
    rw [div_div, mul_assoc]
  have hnat : ((D - i : ℕ) : ℚ) = D - i := Nat.cast_sub hi
  rw [hlikelihood, hthreshold, div_le_div_iff₀ (by positivity) (by positivity), ← hnat,
    GridRejects, ← Int.cast_le (R := ℚ)]
  push_cast
  rfl

/-- The lower boundary is at most at the empirical frequency, and it is rejected unless it is
zero. -/
theorem lastRejectedLowerGridIndex_eq_ok {search : ℕ → Bool} {b : Boundary}
    (h : lastRejectedLowerGridIndex search (.make gmp n s α D) = .ok b) :
    b.index * n ≤ s * D ∧
      (b.index = 0 ∨ (ExactGridRejection.make gmp n s α D).rejects b.index = true) := by
  unfold lastRejectedLowerGridIndex at h
  dsimp only at h
  split at h
  · cases h
    exact ⟨by simp, .inl rfl⟩
  · obtain ⟨-, hlow, hhigh⟩ := bisect_mem search (s * D / n) 0 (s * D / n) (Nat.zero_le _)
    obtain ⟨hle, hrejects, -⟩ := correctLower_eq_ok (hlow.trans hhigh) h
    exact ⟨(Nat.mul_le_mul_right n hle).trans (Nat.div_mul_le_self _ _), .inr hrejects⟩

theorem lastRejectedLowerGridIndex_returns
    (hzero : s ≠ 0 → (ExactGridRejection.make gmp n s α D).rejects 0 = true)
    (search : ℕ → Bool) :
    ∃ b, lastRejectedLowerGridIndex search (.make gmp n s α D) = .ok b := by
  unfold lastRejectedLowerGridIndex
  dsimp only
  split
  · exact ⟨_, rfl⟩
  · rename_i hcases
    exact correctLower_returns (hzero fun h => hcases (.inl h)) _ _ _

/-- The upper boundary is at least at the empirical frequency, and it is rejected unless it is
one. -/
theorem firstRejectedUpperGridIndex_eq_ok (hn : 0 < n) (hs : s ≤ n) {search : ℕ → Bool}
    {b : Boundary} (h : firstRejectedUpperGridIndex search (.make gmp n s α D) = .ok b) :
    s * D ≤ b.index * n ∧ b.index ≤ D ∧
      (b.index = D ∨ (ExactGridRejection.make gmp n s α D).rejects b.index = true) := by
  have hlower : s * D ≤ (s * D + n - 1) / n * n := by
    have hmod := Nat.div_add_mod' (s * D + n - 1) n
    have hlt := Nat.mod_lt (s * D + n - 1) hn
    omega
  unfold firstRejectedUpperGridIndex at h
  dsimp only at h
  split at h
  · cases h
    exact ⟨by rw [mul_comm]; exact Nat.mul_le_mul_left D hs, le_rfl, .inl rfl⟩
  · rename_i hcases
    have hlt : (s * D + n - 1) / n < D := not_le.mp fun h => hcases (.inr h)
    obtain ⟨hlow, hmid, hhigh⟩ := bisect_mem (fun i => !search i) (D - (s * D + n - 1) / n)
      ((s * D + n - 1) / n) D hlt.le
    obtain ⟨⟨hge, hle⟩, hrejects, -⟩ := correctUpper_eq_ok (hlow.trans hmid) hhigh h
    exact ⟨hlower.trans (Nat.mul_le_mul_right n hge), hle, .inr hrejects⟩

theorem firstRejectedUpperGridIndex_returns
    (hone : s ≠ n → (ExactGridRejection.make gmp n s α D).rejects D = true)
    (search : ℕ → Bool) :
    ∃ b, firstRejectedUpperGridIndex search (.make gmp n s α D) = .ok b := by
  unfold firstRejectedUpperGridIndex
  dsimp only
  split
  · exact ⟨_, rfl⟩
  · rename_i hcases
    have hlt : (s * D + n - 1) / n < D := not_le.mp fun h => hcases (.inr h)
    obtain ⟨hlow, hmid, hhigh⟩ := bisect_mem (fun i => !search i) (D - (s * D + n - 1) / n)
      ((s * D + n - 1) / n) D hlt.le
    exact correctUpper_returns (hone fun h => hcases (.inl h)) (hlow.trans hmid) hhigh _

end Grid

section Interval

variable {Z : Type} {platform : Platform Z} {value : Z → ℤ} {n s bits : ℕ} {α : ℚ}

/-- The interval lies in the unit interval around the empirical frequency. -/
theorem outerConfidenceBounds_mem {bounds : OuterBounds}
    (h : outerConfidenceBounds platform n s α bits = .ok bounds) :
    (0 < n ∧ s ≤ n) ∧ 0 ≤ bounds.lower ∧ bounds.lower ≤ s / n ∧ s / n ≤ bounds.upper ∧
      bounds.upper ≤ 1 := by
  obtain ⟨_, hmass, h⟩ := bind_eq_ok.mp h
  obtain ⟨⟨hn, hs⟩, -⟩ := betaBinomialSequenceMass_eq_ok.mp hmass
  obtain ⟨lower, hlower, h⟩ := bind_eq_ok.mp h
  obtain ⟨upper, hupper, h⟩ := bind_eq_ok.mp h
  obtain ⟨_, -, h⟩ := bind_eq_ok.mp h
  obtain rfl := pure_eq_ok.mp h
  have hD : (0 : ℚ) < 2 ^ bits := by positivity
  have hnq : (0 : ℚ) < n := by exact_mod_cast hn
  obtain ⟨hle, -⟩ := lastRejectedLowerGridIndex_eq_ok hlower
  obtain ⟨hge, hleD, -⟩ := firstRejectedUpperGridIndex_eq_ok hn hs hupper
  refine ⟨⟨hn, hs⟩, by positivity, ?_, ?_, ?_⟩
  · rw [div_le_div_iff₀ (by positivity) hnq]
    exact_mod_cast hle
  · rw [div_le_div_iff₀ hnq (by positivity)]
    exact_mod_cast hge
  · rw [div_le_one (by positivity)]
    exact_mod_cast hleD

/-- Every probability outside the interval is rejected. -/
theorem rejects_of_not_mem_bounds (hexact : ExactBackend platform.gmp value)
    (hα : 0 < α ∧ α < 1) (hbits : platform.gmp = none ∨ bits < 64) {bounds : OuterBounds}
    (h : outerConfidenceBounds platform n s α bits = .ok bounds) {p : ℚ} (hp : 0 ≤ p ∧ p ≤ 1)
    (hout : ¬ (bounds.lower ≤ p ∧ p ≤ bounds.upper)) :
    bernoulliMixtureRejects n s p α = .ok true := by
  obtain ⟨⟨hn, hs⟩, -, hlowerEmp, hupperEmp, hupperOne⟩ := outerConfidenceBounds_mem h
  have hempOne : (s : ℚ) / n ≤ 1 :=
    (div_le_one (by exact_mod_cast hn)).mpr (by exact_mod_cast hs)
  have hnq : (0 : ℚ) < n := by exact_mod_cast hn
  obtain ⟨_, -, h⟩ := bind_eq_ok.mp h
  obtain ⟨lower, hlower, h⟩ := bind_eq_ok.mp h
  obtain ⟨upper, hupper, h⟩ := bind_eq_ok.mp h
  obtain ⟨_, -, h⟩ := bind_eq_ok.mp h
  obtain rfl := pure_eq_ok.mp h
  dsimp only at hout hlowerEmp hupperEmp hupperOne
  push_cast at hout hlowerEmp hupperEmp hupperOne
  obtain ⟨-, hlowerRejects⟩ := lastRejectedLowerGridIndex_eq_ok hlower
  obtain ⟨-, -, hupperRejects⟩ := firstRejectedUpperGridIndex_eq_ok hn hs hupper
  have hD : (0 : ℚ) < 2 ^ bits := by positivity
  have hlikelihood : ∀ {i : ℕ}, (i : ℚ) / 2 ^ bits ≤ 1 →
      (ExactGridRejection.make platform.gmp n s α (2 ^ bits)).rejects i = true →
      sequenceLikelihood n s (i / 2 ^ bits) ≤ α * mixtureMass n s := by
    intro i hi hrejects
    have hi : i ≤ 2 ^ bits := by exact_mod_cast (div_le_one hD).mp hi
    have hgrid := (gridRejects_iff hs (Nat.two_pow_pos bits) hi).mp
      (gridRejects_of_rejects hexact hα.1.le hs hi hbits hrejects)
    exact_mod_cast hgrid
  refine bernoulliMixtureRejects_eq_ok.mpr ⟨hα, ⟨hn, hs⟩, hp, ?_⟩
  rcases not_and_or.mp hout with hbelow | habove
  · -- below the interval: the lower boundary is at least as likely and is rejected
    have hlt : p < lower.index / 2 ^ bits := not_le.mp hbelow
    rcases hlowerRejects with hzero | hrejects
    · rw [hzero, Nat.cast_zero, zero_div] at hlt
      exact absurd hlt (not_lt.mpr hp.1)
    · have hone := hlowerEmp.trans hempOne
      exact (sequenceLikelihood_le hs hp.1 hlt.le hone ((le_div_iff₀ hnq).mp hlowerEmp)).trans
        (hlikelihood hone hrejects)
  · have hlt : upper.index / 2 ^ bits < p := not_le.mp habove
    rcases hupperRejects with hone | hrejects
    · rw [hone, Nat.cast_pow, Nat.cast_ofNat, div_self hD.ne'] at hlt
      exact absurd hlt (not_lt.mpr hp.2)
    · exact (sequenceLikelihood_ge hs (by positivity) hlt.le hp.2
        ((div_le_iff₀ hnq).mp hupperEmp)).trans (hlikelihood hupperOne hrejects)

/-- The interval is found, unless the counts or the grid do not fit in a machine word. -/
theorem outerConfidenceBounds_returns (hexact : ExactBackend platform.gmp value)
    (hα : 0 < α ∧ α < 1) (hn : 0 < n) (hs : s ≤ n)
    (hfit : platform.gmp = none ∨ bits < 64 ∧ s < 2 ^ 64 ∧ n - s < 2 ^ 64) :
    ∃ bounds, outerConfidenceBounds platform n s α bits = .ok bounds := by
  obtain ⟨lower, hlower⟩ := @lastRejectedLowerGridIndex_returns _ platform.gmp n s (2 ^ bits) α
    (fun hs0 => rejects_of_zero hexact hα.1.le hs (Nat.zero_le _) hfit (by simp [hs0]))
    (fun i => platform.logRejects n s i (2 ^ bits) (α * mixtureMass n s))
  obtain ⟨upper, hupper⟩ := @firstRejectedUpperGridIndex_returns _ platform.gmp n s (2 ^ bits) α
    (fun hsn => rejects_of_zero hexact hα.1.le hs le_rfl hfit (by
      rw [Nat.sub_self, zero_pow (by omega), mul_zero]))
    (fun i => platform.logRejects n s i (2 ^ bits) (α * mixtureMass n s))
  obtain ⟨hle, -⟩ := lastRejectedLowerGridIndex_eq_ok hlower
  obtain ⟨hge, -⟩ := firstRejectedUpperGridIndex_eq_ok hn hs hupper
  have horder : lower.index ≤ upper.index := Nat.le_of_mul_le_mul_right (hle.trans hge) hn
  refine ⟨_, bind_eq_ok.mpr ⟨_, betaBinomialSequenceMass_eq_ok.mpr ⟨⟨hn, hs⟩, rfl⟩,
    bind_eq_ok.mpr ⟨lower, hlower, bind_eq_ok.mpr ⟨upper, hupper,
    bind_eq_ok.mpr ⟨(), require_eq_ok.mpr ?_, rfl⟩⟩⟩⟩⟩
  gcongr

end Interval

section Checkpoint

variable {Z : Type} {platform : Platform Z} {value : Z → ℤ}
  {profile : SequentialBernoulliProfile} {n s : ℕ}

theorem buildAnytimeBernoulliCheckpoint_bounds {checkpoint : AnytimeBernoulliCheckpoint}
    (h : buildAnytimeBernoulliCheckpoint platform n s profile = .ok checkpoint) :
    ∃ bounds, outerConfidenceBounds platform n s profile.confidenceAlpha
        profile.boundaryGridBits = .ok bounds ∧
      checkpoint.drawCount = n ∧ checkpoint.successCount = s ∧
      checkpoint.lowerProbability = bounds.lower ∧ checkpoint.upperProbability = bounds.upper := by
  obtain ⟨mass, -, h⟩ := bind_eq_ok.mp h
  obtain ⟨bounds, hbounds, h⟩ := bind_eq_ok.mp h
  refine ⟨bounds, hbounds, ?_⟩
  unfold AnytimeBernoulliCheckpoint.make at h
  dsimp only at h
  split at h
  · cases h
    exact ⟨rfl, rfl, rfl, rfl⟩
  · cases h

theorem SequentialBernoulliProfile.bits_lt (profile : SequentialBernoulliProfile) :
    profile.boundaryGridBits < 64 := profile.bits_mem.2.trans_lt (by decide)

/-- A checkpoint is built from any counts of a nonempty sequence that is no longer than a machine
word counts. -/
theorem buildAnytimeBernoulliCheckpoint_returns (hexact : ExactBackend platform.gmp value)
    (profile : SequentialBernoulliProfile) (hn : 0 < n) (hs : s ≤ n)
    (hfit : platform.gmp = none ∨ n < 2 ^ 64) :
    ∃ checkpoint, buildAnytimeBernoulliCheckpoint platform n s profile = .ok checkpoint := by
  have hmass := betaBinomialSequenceMass_eq_ok.mpr ⟨⟨hn, hs⟩, rfl⟩
  obtain ⟨bounds, hbounds⟩ := outerConfidenceBounds_returns hexact profile.alpha_mem hn hs
    (hfit.imp_right fun hn => ⟨profile.bits_lt, by omega, by omega⟩)
  obtain ⟨-, h0, hlower, hupper, h1⟩ := outerConfidenceBounds_mem hbounds
  have hmake : ∃ checkpoint, AnytimeBernoulliCheckpoint.make n s (mixtureMass n s)
      profile.confidenceAlpha bounds = .ok checkpoint :=
    ⟨_, dif_pos ⟨hmass, h0, hlower, hupper, h1⟩⟩
  obtain ⟨checkpoint, hcheckpoint⟩ := hmake
  exact ⟨checkpoint, bind_eq_ok.mpr ⟨_, hmass, bind_eq_ok.mpr ⟨bounds, hbounds, hcheckpoint⟩⟩⟩

end Checkpoint

section Coverage

variable {Z : Type}

/-- The interval of the first `n` draws misses `p`. -/
def Misses (platform : Platform Z) (α p : ℚ) (bits n : ℕ) (draws : List Bool) : Prop :=
  ∃ bounds, outerConfidenceBounds platform n (successes (draws.take n)) α bits = .ok bounds ∧
    ¬ (bounds.lower ≤ p ∧ p ≤ bounds.upper)

/-- The checkpoint of the first `n` draws misses `p`. -/
def CheckpointMisses (platform : Platform Z) (profile : SequentialBernoulliProfile) (p : ℚ)
    (n : ℕ) (draws : List Bool) : Prop :=
  ∃ checkpoint, buildAnytimeBernoulliCheckpoint platform n (successes (draws.take n)) profile =
      .ok checkpoint ∧ ¬ (checkpoint.lowerProbability ≤ p ∧ p ≤ checkpoint.upperProbability)

theorem misses_of_checkpointMisses {platform : Platform Z} {profile : SequentialBernoulliProfile}
    {p : ℚ} {n : ℕ} {draws : List Bool} (h : CheckpointMisses platform profile p n draws) :
    Misses platform profile.confidenceAlpha p profile.boundaryGridBits n draws := by
  obtain ⟨checkpoint, hcheckpoint, hout⟩ := h
  obtain ⟨bounds, hbounds, -, -, hlower, hupper⟩ :=
    buildAnytimeBernoulliCheckpoint_bounds hcheckpoint
  exact ⟨bounds, hbounds, by rwa [← hlower, ← hupper]⟩

/-- Time-uniform coverage: over all boolean sequences of length `N`, the true probability is ever
rejected with probability at most `α`, so that it lies outside the interval of some prefix, or
outside that of a prefix chosen by the data, with probability at most `α`. A profile's grid has far
fewer points than a machine word; without the library every grid will do. -/
theorem bernoulli_coverage {value : Z → ℤ} {p α : ℚ} (hp : 0 ≤ p ∧ p ≤ 1) (hα : 0 < α ∧ α < 1)
    (N : ℕ) :
    bernoulliProbability p N (fun ω => ∃ n ≤ N,
      bernoulliMixtureRejects n (successes (ω.take n)) p α = .ok true) ≤ α ∧
    ∀ platform : Platform Z, ExactBackend platform.gmp value →
      (∀ bits : ℕ, platform.gmp = none ∨ bits < 64 →
        bernoulliProbability p N (fun ω => ∃ n ≤ N, Misses platform α p bits n ω) ≤ α) ∧
      ∀ profile : SequentialBernoulliProfile, profile.confidenceAlpha = α →
        bernoulliProbability p N (fun ω => ∃ n ≤ N, CheckpointMisses platform profile p n ω) ≤
          α ∧
        ∀ stop : List Bool → ℕ, bernoulliProbability p N (fun ω =>
          stop ω ≤ N ∧ CheckpointMisses platform profile p (stop ω) ω) ≤ α := by
  have hrejects := bernoulliProbability_rejects_le hp hα N
  refine ⟨hrejects, fun platform hexact => ?_⟩
  have hmisses : ∀ bits : ℕ, platform.gmp = none ∨ bits < 64 →
      bernoulliProbability p N (fun ω => ∃ n ≤ N, Misses platform α p bits n ω) ≤ α := by
    intro bits hbits
    refine (bernoulliProbability_mono hp.1 hp.2 ?_).trans hrejects
    rintro ω rfl ⟨n, hn, bounds, hbounds, hout⟩
    exact ⟨n, hn, rejects_of_not_mem_bounds hexact hα hbits hbounds hp hout⟩
  refine ⟨hmisses, ?_⟩
  rintro profile rfl
  have hcheckpoint : bernoulliProbability p N (fun ω =>
      ∃ n ≤ N, CheckpointMisses platform profile p n ω) ≤ profile.confidenceAlpha := by
    refine (bernoulliProbability_mono hp.1 hp.2 ?_).trans
      (hmisses profile.boundaryGridBits (.inr profile.bits_lt))
    rintro ω - ⟨n, hn, h⟩
    exact ⟨n, hn, misses_of_checkpointMisses h⟩
  refine ⟨hcheckpoint, fun stop => ?_⟩
  refine (bernoulliProbability_mono hp.1 hp.2 ?_).trans hcheckpoint
  rintro ω - ⟨hstop, h⟩
  exact ⟨stop ω, hstop, h⟩

end Coverage

def fifthProfile : SequentialBernoulliProfile where
  confidenceAlpha := 1 / 5
  targetHalfWidth := 49 / 100
  checkpoints := [1, 3]
  boundaryGridBits := 8
  alpha_mem := by norm_num
  halfWidth_mem := by norm_num
  checkpoints_ne_nil := by simp
  checkpoints_pos := by simp
  checkpoints_increasing := by simp
  bits_mem := by decide
  resolution := by norm_num

/-- Three successes leave the true probability of a third below the interval. -/
theorem bernoulli_coverage_third :
    CheckpointMisses exactPlatform fifthProfile (1 / 3) 3 [true, true, true] ∧
    bernoulliMixtureRejects 3 3 (1 / 3) (1 / 5) = .ok true ∧
    bernoulliProbability (1 / 3) 3 (fun ω => ∃ n ≤ 3,
      bernoulliMixtureRejects n (successes (ω.take n)) (1 / 3) (1 / 5) = .ok true) ≤ 1 / 5 ∧
    bernoulliProbability (1 / 3) 3 (fun ω => ∃ n ≤ 3,
      CheckpointMisses exactPlatform fifthProfile (1 / 3) n ω) ≤ 1 / 5 ∧
    ∀ stop : List Bool → ℕ, bernoulliProbability (1 / 3) 3 (fun ω => stop ω ≤ 3 ∧
      CheckpointMisses exactPlatform fifthProfile (1 / 3) (stop ω) ω) ≤ 1 / 5 := by
  have hlower : (buildAnytimeBernoulliCheckpoint exactPlatform 3 3 fifthProfile).map
      AnytimeBernoulliCheckpoint.lowerProbability = .ok (47 / 128) := by decide +kernel
  obtain ⟨checkpoint, hcheckpoint, hlower⟩ := map_eq_ok.mp hlower
  have hmisses : CheckpointMisses exactPlatform fifthProfile (1 / 3) 3 [true, true, true] := by
    refine ⟨checkpoint, hcheckpoint, fun h => ?_⟩
    rw [hlower] at h
    norm_num at h
  have hcoverage := @bernoulli_coverage ℤ id (1 / 3) (1 / 5) (by norm_num) (by norm_num) 3
  obtain ⟨-, hprofile⟩ := hcoverage.2 exactPlatform exactPlatform_exact
  exact ⟨hmisses, by decide +kernel, hcoverage.1, (hprofile fifthProfile rfl).1,
    (hprofile fifthProfile rfl).2⟩

end Acfqp.Confidence
