import Acfqp.Confidence.Native

/-!
# The confidence boundaries are exact

On either side of the empirical frequency the rejected grid points are those far enough from it.
Where the comparisons evaluate the inequality, the corrections therefore end at one point, wherever
the approximate search starts them. A numerator of alpha that is no machine word moves them.
-/

namespace Acfqp.Confidence

open Library

section Boundaries

variable {Z : Type} {gmp : Option (GmpBackend Z)} {value : Z → ℤ} {n s bits D : ℕ} {α : ℚ}

/-! ## The rejected grid points on one side -/

theorem gridRejects_of_le (hn : 0 < n) (hs : s ≤ n) (hD : 0 < D) {i j : ℕ} (hij : i ≤ j)
    (hj : j * n ≤ s * D) (h : GridRejects n s D α j) : GridRejects n s D α i := by
  have hjD : j ≤ D := Nat.le_of_mul_le_mul_right
    (hj.trans (by rw [mul_comm]; exact Nat.mul_le_mul_left _ hs)) hn
  have hDq : (0 : ℚ) < D := by exact_mod_cast hD
  have hle : (i / D : ℚ) ≤ j / D := by gcongr
  have hjS : (j / D : ℚ) * n ≤ s := by
    rw [div_mul_eq_mul_div, div_le_iff₀ hDq]
    exact_mod_cast hj
  have hj1 : (j / D : ℚ) ≤ 1 := (div_le_one hDq).mpr (by exact_mod_cast hjD)
  rw [gridRejects_iff hs hD (hij.trans hjD)]
  exact (sequenceLikelihood_le hs (by positivity) hle hj1 hjS).trans
    ((gridRejects_iff hs hD hjD).mp h)

theorem gridRejects_of_ge (hs : s ≤ n) (hD : 0 < D) {i j : ℕ} (hij : i ≤ j) (hjD : j ≤ D)
    (hi : s * D ≤ i * n) (h : GridRejects n s D α i) : GridRejects n s D α j := by
  have hDq : (0 : ℚ) < D := by exact_mod_cast hD
  have hle : (i / D : ℚ) ≤ j / D := by gcongr
  have hiS : (s : ℚ) ≤ i / D * n := by
    rw [div_mul_eq_mul_div, le_div_iff₀ hDq]
    exact_mod_cast hi
  have hj1 : (j / D : ℚ) ≤ 1 := (div_le_one hDq).mpr (by exact_mod_cast hjD)
  rw [gridRejects_iff hs hD hjD]
  exact (sequenceLikelihood_ge hs (by positivity) hle hj1 hiS).trans
    ((gridRejects_iff hs hD (hij.trans hjD)).mp h)

theorem gridRejects_zero (hα : 0 ≤ α) (hs : s ≠ 0) : GridRejects n s D α 0 := by
  have hnum : 0 ≤ α.num := Rat.num_nonneg.mpr hα
  rw [GridRejects, zero_pow hs, zero_mul, zero_mul, Nat.cast_zero]
  positivity

theorem gridRejects_one (hα : 0 ≤ α) (hs : n - s ≠ 0) : GridRejects n s D α D := by
  have hnum : 0 ≤ α.num := Rat.num_nonneg.mpr hα
  rw [GridRejects, Nat.sub_self, zero_pow hs, mul_zero, zero_mul, Nat.cast_zero]
  positivity

/-! ## The two boundaries -/

/-- The comparison evaluates the inequality at every point of its grid. -/
def Decides (gmp : Option (GmpBackend Z)) (n s bits : ℕ) (α : ℚ) : Prop :=
  ∀ i ≤ 2 ^ bits, (ExactGridRejection.make gmp n s α (2 ^ bits)).rejects i = true ↔
    GridRejects n s (2 ^ bits) α i

theorem decides_of_fit (hexact : ExactBackend gmp value) (hα : 0 ≤ α) (hs : s ≤ n)
    (hfit : gmp = none ∨ ∀ i ≤ 2 ^ bits, WordsFit α n s bits i) : Decides gmp n s bits α :=
  fun i hi => rejects_iff hexact hα hs hi (hfit.imp_right fun h => h i hi)

theorem lastRejectedLowerGridIndex_greatest (hdecides : Decides gmp n s bits α) (hα : 0 ≤ α)
    (hn : 0 < n) (hs : s ≤ n) (hs0 : s ≠ 0) {search : ℕ → Bool} {b : Boundary}
    (h : lastRejectedLowerGridIndex search (.make gmp n s α (2 ^ bits)) = .ok b) :
    IsGreatest {i | GridRejects n s (2 ^ bits) α i ∧ i * n ≤ s * 2 ^ bits} b.index := by
  have hle : b.index * n ≤ s * 2 ^ bits := (lastRejectedLowerGridIndex_eq_ok h).1
  have hgrid : ∀ i, i * n ≤ s * 2 ^ bits → i ≤ 2 ^ bits := fun i hi =>
    Nat.le_of_mul_le_mul_right
      (hi.trans (by rw [mul_comm]; exact Nat.mul_le_mul_left _ hs)) hn
  rw [lastRejectedLowerGridIndex] at h
  dsimp only at h
  split at h
  · rename_i hcases
    cases h
    refine ⟨⟨gridRejects_zero hα hs0, by simp⟩, fun i hi => ?_⟩
    obtain hs | hupper := hcases
    · exact absurd hs hs0
    · have hi' : i ≤ s * 2 ^ bits / n := (Nat.le_div_iff_mul_le hn).mpr hi.2
      change s * 2 ^ bits / n = 0 at hupper
      exact hi'.trans hupper.le
  · obtain ⟨-, hlow, hhigh⟩ := bisect_mem search (s * 2 ^ bits / n) 0 (s * 2 ^ bits / n)
      (Nat.zero_le _)
    obtain ⟨-, hrejects, hnext⟩ := correctLower_eq_ok (hlow.trans hhigh) h
    refine ⟨⟨(hdecides _ (hgrid _ hle)).mp hrejects, hle⟩, fun i hi => ?_⟩
    by_contra hlt
    have hi' : i ≤ s * 2 ^ bits / n := (Nat.le_div_iff_mul_le hn).mpr hi.2
    have hi₂ := hgrid i hi.2
    exact hnext (by omega) ((hdecides _ (by omega)).mpr
      (gridRejects_of_le hn hs (Nat.two_pow_pos bits) (by omega) hi.2 hi.1))

theorem firstRejectedUpperGridIndex_least (hdecides : Decides gmp n s bits α) (hα : 0 ≤ α)
    (hn : 0 < n) (hs : s ≤ n) (hsn : s ≠ n) {search : ℕ → Bool} {b : Boundary}
    (h : firstRejectedUpperGridIndex search (.make gmp n s α (2 ^ bits)) = .ok b) :
    IsLeast {i | GridRejects n s (2 ^ bits) α i ∧ s * 2 ^ bits ≤ i * n} b.index := by
  obtain ⟨hge, hleD, -⟩ := firstRejectedUpperGridIndex_eq_ok hn hs h
  have hceil : ∀ i, s * 2 ^ bits ≤ i * n → (s * 2 ^ bits + n - 1) / n ≤ i := by
    intro i hi
    rw [mul_comm i n] at hi
    rw [Nat.div_le_iff_le_mul_add_pred hn]
    omega
  rw [firstRejectedUpperGridIndex] at h
  dsimp only at h
  split at h
  · rename_i hcases
    cases h
    refine ⟨⟨gridRejects_one hα (by omega), by rw [mul_comm]; exact Nat.mul_le_mul_left _ hs⟩,
      fun i hi => ?_⟩
    obtain hs | hlower := hcases
    · exact absurd hs hsn
    · exact hlower.trans (hceil i hi.2)
  · rename_i hcases
    have hlt : (s * 2 ^ bits + n - 1) / n < 2 ^ bits := not_le.mp fun h => hcases (.inr h)
    obtain ⟨hlow, hmid, hhigh⟩ := bisect_mem (fun i => !search i)
      (2 ^ bits - (s * 2 ^ bits + n - 1) / n) ((s * 2 ^ bits + n - 1) / n) (2 ^ bits) hlt.le
    obtain ⟨-, hrejects, hnext⟩ := correctUpper_eq_ok (hlow.trans hmid) hhigh h
    refine ⟨⟨(hdecides _ hleD).mp hrejects, hge⟩, fun i hi => ?_⟩
    by_contra hgt
    have hi' := hceil i hi.2
    exact hnext (by omega) ((hdecides _ (by omega)).mpr
      (gridRejects_of_ge hs (Nat.two_pow_pos bits) (by omega) (by omega) hi.2 hi.1))

end Boundaries

/-! ## The interval -/

/-- A grid point of resolution `2 ^ bits` that the exact predicate rejects. -/
def RejectedGridPoint (n s bits : ℕ) (α p : ℚ) : Prop :=
  (∃ i : ℕ, i ≤ 2 ^ bits ∧ p = i / 2 ^ bits) ∧ bernoulliMixtureRejects n s p α = .ok true

/-- The lower endpoint is the last rejected grid point up to the frequency, and zero when no draw
succeeds or there is none. -/
structure IsLowerEndpoint (n s bits : ℕ) (α lower : ℚ) : Prop where
  zero : s = 0 ∨ ¬ (∃ p, RejectedGridPoint n s bits α p ∧ p ≤ s / n) → lower = 0
  greatest : s ≠ 0 → (∃ p, RejectedGridPoint n s bits α p ∧ p ≤ s / n) →
    IsGreatest {p | RejectedGridPoint n s bits α p ∧ p ≤ s / n} lower

/-- The upper endpoint is the first rejected grid point from the frequency on, and one when every
draw succeeds or there is none. -/
structure IsUpperEndpoint (n s bits : ℕ) (α upper : ℚ) : Prop where
  one : s = n ∨ ¬ (∃ p, RejectedGridPoint n s bits α p ∧ s / n ≤ p) → upper = 1
  least : s ≠ n → (∃ p, RejectedGridPoint n s bits α p ∧ s / n ≤ p) →
    IsLeast {p | RejectedGridPoint n s bits α p ∧ s / n ≤ p} upper

section Interval

variable {Z : Type} {gmp : Option (GmpBackend Z)} {value : Z → ℤ} {n s bits : ℕ} {α : ℚ}

theorem rejectedGridPoint_iff (hα : 0 < α ∧ α < 1) (hn : 0 < n) (hs : s ≤ n) {i : ℕ}
    (hi : i ≤ 2 ^ bits) :
    RejectedGridPoint n s bits α (i / 2 ^ bits) ↔ GridRejects n s (2 ^ bits) α i := by
  have hD : (0 : ℚ) < 2 ^ bits := by positivity
  have h1 : (i / 2 ^ bits : ℚ) ≤ 1 := (div_le_one hD).mpr (by exact_mod_cast hi)
  have hrejects := gridRejects_iff (α := α) hs (Nat.two_pow_pos bits) hi
  push_cast at hrejects
  rw [hrejects, RejectedGridPoint, bernoulliMixtureRejects_eq_ok]
  exact ⟨fun h => h.2.2.2.2, fun h => ⟨⟨i, hi, rfl⟩, hα, ⟨hn, hs⟩, ⟨by positivity, h1⟩, h⟩⟩

theorem probability_of_mixtureRejects {p : ℚ} {verdict : Bool}
    (h : bernoulliMixtureRejects n s p α = .ok verdict) : 0 ≤ p ∧ p ≤ 1 := by
  obtain ⟨_, -, h⟩ := bind_eq_ok.mp h
  obtain ⟨_, -, h⟩ := bind_eq_ok.mp h
  obtain ⟨_, hvalue, -⟩ := bind_eq_ok.mp h
  obtain ⟨_, hp, -⟩ := bind_eq_ok.mp hvalue
  exact require_eq_ok.mp hp

theorem IsLowerEndpoint.unique {p q : ℚ} (hp : IsLowerEndpoint n s bits α p)
    (hq : IsLowerEndpoint n s bits α q) : p = q := by
  by_cases h : s = 0 ∨ ¬ ∃ p, RejectedGridPoint n s bits α p ∧ p ≤ s / n
  · rw [hp.zero h, hq.zero h]
  · push Not at h
    exact (hp.greatest h.1 h.2).unique (hq.greatest h.1 h.2)

theorem IsUpperEndpoint.unique {p q : ℚ} (hp : IsUpperEndpoint n s bits α p)
    (hq : IsUpperEndpoint n s bits α q) : p = q := by
  by_cases h : s = n ∨ ¬ ∃ p, RejectedGridPoint n s bits α p ∧ s / n ≤ p
  · rw [hp.one h, hq.one h]
  · push Not at h
    exact (hp.least h.1 h.2).unique (hq.least h.1 h.2)

theorem isLowerEndpoint_of_boundary (hdecides : Decides gmp n s bits α) (hα : 0 < α ∧ α < 1)
    (hn : 0 < n) (hs : s ≤ n) {search : ℕ → Bool} {b : Boundary}
    (h : lastRejectedLowerGridIndex search (.make gmp n s α (2 ^ bits)) = .ok b) :
    IsLowerEndpoint n s bits α (b.index / 2 ^ bits) := by
  have hDq : (0 : ℚ) < 2 ^ bits := by positivity
  have hnq : (0 : ℚ) < n := by exact_mod_cast hn
  have hle : ∀ i : ℕ, (i / 2 ^ bits : ℚ) ≤ s / n ↔ i * n ≤ s * 2 ^ bits := by
    intro i
    rw [div_le_div_iff₀ hDq hnq]
    exact_mod_cast Iff.rfl
  have hbits : ∀ i : ℕ, i * n ≤ s * 2 ^ bits → i ≤ 2 ^ bits := fun i hi =>
    Nat.le_of_mul_le_mul_right
      (hi.trans (by rw [mul_comm]; exact Nat.mul_le_mul_left _ hs)) hn
  by_cases hs0 : s = 0
  · subst hs0
    rw [lastRejectedLowerGridIndex, if_pos (.inl rfl)] at h
    cases h
    exact ⟨fun _ => by simp, fun h => absurd rfl h⟩
  · obtain ⟨⟨hrejects, hfrequency⟩, hgreatest⟩ :=
      lastRejectedLowerGridIndex_greatest hdecides hα.1.le hn hs hs0 h
    have hpoint : RejectedGridPoint n s bits α (b.index / 2 ^ bits) :=
      (rejectedGridPoint_iff hα hn hs (hbits _ hfrequency)).mpr hrejects
    have hmem := (hle b.index).mpr hfrequency
    refine ⟨fun hnone => ?_, fun _ _ => ⟨⟨hpoint, hmem⟩, ?_⟩⟩
    · exact absurd ⟨_, hpoint, hmem⟩ (hnone.resolve_left hs0)
    · rintro p ⟨hp, hps⟩
      obtain ⟨⟨i, hi, rfl⟩, -⟩ := id hp
      have := hgreatest ⟨(rejectedGridPoint_iff hα hn hs hi).mp hp, (hle i).mp hps⟩
      gcongr

theorem isUpperEndpoint_of_boundary (hdecides : Decides gmp n s bits α) (hα : 0 < α ∧ α < 1)
    (hn : 0 < n) (hs : s ≤ n) {search : ℕ → Bool} {b : Boundary}
    (h : firstRejectedUpperGridIndex search (.make gmp n s α (2 ^ bits)) = .ok b) :
    IsUpperEndpoint n s bits α (b.index / 2 ^ bits) := by
  have hb : b.index ≤ 2 ^ bits := (firstRejectedUpperGridIndex_eq_ok hn hs h).2.1
  have hDq : (0 : ℚ) < 2 ^ bits := by positivity
  have hnq : (0 : ℚ) < n := by exact_mod_cast hn
  have hle : ∀ i : ℕ, (s / n : ℚ) ≤ i / 2 ^ bits ↔ s * 2 ^ bits ≤ i * n := by
    intro i
    rw [div_le_div_iff₀ hnq hDq]
    exact_mod_cast Iff.rfl
  by_cases hsn : s = n
  · subst hsn
    rw [firstRejectedUpperGridIndex, if_pos (.inl rfl)] at h
    cases h
    refine ⟨fun _ => ?_, fun h => absurd rfl h⟩
    simp [ExactGridRejection.make]
  · obtain ⟨⟨hrejects, hfrequency⟩, hleast⟩ :=
      firstRejectedUpperGridIndex_least hdecides hα.1.le hn hs hsn h
    have hpoint : RejectedGridPoint n s bits α (b.index / 2 ^ bits) :=
      (rejectedGridPoint_iff hα hn hs hb).mpr hrejects
    have hmem := (hle b.index).mpr hfrequency
    refine ⟨fun hnone => ?_, fun _ _ => ⟨⟨hpoint, hmem⟩, ?_⟩⟩
    · exact absurd ⟨_, hpoint, hmem⟩ (hnone.resolve_left hsn)
    · rintro p ⟨hp, hps⟩
      obtain ⟨⟨i, hi, rfl⟩, -⟩ := id hp
      have := hleast ⟨(rejectedGridPoint_iff hα hn hs hi).mp hp, (hle i).mp hps⟩
      gcongr

/-- Whatever the approximate search answers, the interval is found and it is the same: its ends are
the outermost rejected grid points on either side of the frequency, and every accepted probability
lies in it. -/
def BoundsExact (gmp : Option (GmpBackend Z)) (n s bits : ℕ) (α : ℚ) : Prop :=
  ∃ lower upper, IsLowerEndpoint n s bits α lower ∧ IsUpperEndpoint n s bits α upper ∧
    lower ≤ s / n ∧ s / n ≤ upper ∧
    (∀ p, bernoulliMixtureRejects n s p α = .ok false → lower ≤ p ∧ p ≤ upper) ∧
    ∀ logRejects : LogSearch, ∃ bounds,
      outerConfidenceBounds ⟨gmp, logRejects⟩ n s α bits = .ok bounds ∧
        bounds.lower = lower ∧ bounds.upper = upper

/-- The ends of the interval where the comparisons evaluate the inequality. -/
theorem boundsExact_of_fit (hexact : ExactBackend gmp value) (hα : 0 < α ∧ α < 1) (hn : 0 < n)
    (hs : s ≤ n) (hfit : gmp = none ∨ ∀ i ≤ 2 ^ bits, WordsFit α n s bits i) :
    BoundsExact gmp n s bits α := by
  have hdecides := decides_of_fit hexact hα.1.le hs hfit
  have hwords : gmp = none ∨ bits < 64 ∧ s < 2 ^ 64 ∧ n - s < 2 ^ 64 :=
    hfit.imp_right fun h => ⟨(Nat.pow_lt_pow_iff_right (by decide)).mp (h _ le_rfl).gridIndex,
      (h _ le_rfl).successes, (h _ le_rfl).failures⟩
  have hends : ∀ logRejects : LogSearch, ∃ bounds,
      outerConfidenceBounds ⟨gmp, logRejects⟩ n s α bits = .ok bounds ∧
        IsLowerEndpoint n s bits α bounds.lower ∧ IsUpperEndpoint n s bits α bounds.upper := by
    intro logRejects
    have hreturns : ∃ bounds, outerConfidenceBounds ⟨gmp, logRejects⟩ n s α bits = .ok bounds :=
      outerConfidenceBounds_returns hexact hα hn hs hwords
    obtain ⟨bounds, hbounds⟩ := hreturns
    refine ⟨bounds, hbounds, ?_⟩
    simp only [outerConfidenceBounds, bind_eq_ok, require_eq_ok, pure_eq_ok] at hbounds
    obtain ⟨_, -, lower, hlower, upper, hupper, _, -, rfl⟩ := hbounds
    constructor
    · simpa using isLowerEndpoint_of_boundary hdecides hα hn hs hlower
    · simpa using isUpperEndpoint_of_boundary hdecides hα hn hs hupper
  obtain ⟨bounds, hbounds, hlower, hupper⟩ := hends fun _ _ _ _ _ => false
  obtain ⟨-, -, hlowerLe, hupperGe, -⟩ := outerConfidenceBounds_mem hbounds
  refine ⟨bounds.lower, bounds.upper, hlower, hupper, hlowerLe, hupperGe, fun p hp => ?_,
    fun logRejects => ?_⟩
  · by_contra hout
    have hrejects := rejects_of_not_mem_bounds hexact hα (hwords.imp_right And.left) hbounds
      (probability_of_mixtureRejects hp) hout
    cases hrejects.symm.trans hp
  · obtain ⟨other, hother, hlower', hupper'⟩ := hends logRejects
    exact ⟨other, hother, hlower'.unique hlower, hupper'.unique hupper⟩

/-- Without successes a grid point that only the inequality rejects is a missed upper endpoint: the
native verdict accepts every point below it as well. -/
theorem not_boundsExact {backend : GmpBackend Z} (hexact : backend.Exact value)
    (hα : 0 < α ∧ α < 1) (hn : 0 < n) (hbits : 1 ≤ bits ∧ bits ≤ 48) (hshift : bits * n < 2 ^ 64)
    {i : ℕ} (hi : i < 2 ^ bits)
    (haccepts : (ExactGridRejection.make (some backend) n 0 α (2 ^ bits)).rejects i ≠ true)
    (hrejects : GridRejects n 0 (2 ^ bits) α i) : ¬ BoundsExact (some backend) n 0 bits α := by
  rintro ⟨lower, upper, -, hupper, -, -, -, hends⟩
  obtain ⟨bounds, hbounds, -, rfl⟩ := hends fun _ _ _ _ _ => false
  simp only [outerConfidenceBounds, bind_eq_ok, require_eq_ok, pure_eq_ok] at hbounds
  obtain ⟨_, -, _, -, boundary, hboundary, _, -, rfl⟩ := hbounds
  have hpoint : RejectedGridPoint n 0 bits α (i / 2 ^ bits) :=
    (rejectedGridPoint_iff hα hn (Nat.zero_le n) hi.le).mpr hrejects
  have hfrequency : ((0 : ℕ) / n : ℚ) ≤ i / 2 ^ bits := by
    rw [Nat.cast_zero, zero_div]
    positivity
  have hle := (hupper.least hn.ne ⟨_, hpoint, hfrequency⟩).2 ⟨hpoint, hfrequency⟩
  have hD : (0 : ℚ) < 2 ^ bits := by positivity
  have hindex : boundary.index ≤ i := by
    push_cast at hle
    exact_mod_cast (div_le_div_iff_of_pos_right hD).mp hle
  obtain ⟨-, hgrid, hend⟩ := firstRejectedUpperGridIndex_eq_ok hn (Nat.zero_le n) hboundary
  have hfit : ∀ j ≤ 2 ^ bits, CountsFit n 0 bits j := fun j hj =>
    countsFit_of_shift hbits (Nat.zero_le n) hj hshift
  have hnative := hend.resolve_left (by omega)
  rw [(hfit _ hgrid).rejects_iff hexact hα.1.le (Nat.zero_le n) hgrid] at hnative
  refine haccepts (((hfit i hi.le).rejects_iff hexact hα.1.le (Nat.zero_le n) hi.le).mpr
    (le_trans ?_ hnative))
  rw [pow_zero, pow_zero]
  gcongr

/-- The interval where the comparisons' arguments fit. On a registered grid the numerator of alpha
is the one that has to: any other moves the interval of some draw count. -/
theorem outerConfidenceBounds_exact_iff (hexact : ExactBackend gmp value) (hα : 0 < α ∧ α < 1) :
    (∀ n s bits, 0 < n → s ≤ n → (gmp = none ∨ ∀ i ≤ 2 ^ bits, WordsFit α n s bits i) →
      BoundsExact gmp n s bits α) ∧
    ∀ bits, 1 ≤ bits → bits ≤ 48 → ∀ m ≤ 2 ^ 56, (1 / 2 : ℚ) ^ m ≤ α →
      ((∀ n s, 0 < n → s ≤ n → bits * n < 2 ^ 64 → BoundsExact gmp n s bits α) ↔
        gmp = none ∨ α.num < 2 ^ 64) := by
  refine ⟨fun n s bits hn hs hfit => boundsExact_of_fit hexact hα hn hs hfit,
    fun bits hpos hle m hm hsize => ⟨fun h => ?_, fun hnum n s hn hs hshift => ?_⟩⟩
  · by_contra hneither
    obtain ⟨hsome, hnum⟩ := not_or.mp hneither
    obtain ⟨backend, rfl⟩ := Option.ne_none_iff_exists'.mp hsome
    have hbackend : backend.Exact value := hexact backend rfl
    obtain ⟨n, hn, hshift, haccepts, hrejects⟩ :=
      exists_nativeAccepts hbackend hα (not_lt.mp hnum) ⟨hpos, hle⟩ hm hsize
    have hmiddle : 2 ^ (bits - 1) < 2 ^ bits := Nat.pow_lt_pow_right (by decide) (by omega)
    exact not_boundsExact hbackend hα hn ⟨hpos, hle⟩ hshift hmiddle haccepts hrejects
      (h n 0 hn (Nat.zero_le n) hshift)
  · exact boundsExact_of_fit hexact hα hn hs (hnum.imp_right fun hnum i hi =>
      ⟨countsFit_of_shift ⟨hpos, hle⟩ hs hi hshift, hnum⟩)

end Interval

theorem outerConfidenceBounds_exact_iff_twentieth :
    (∀ n s bits, 0 < n → s ≤ n →
      (some integerBackend = none ∨ ∀ i ≤ 2 ^ bits, WordsFit (1 / 20) n s bits i) →
        BoundsExact (some integerBackend) n s bits (1 / 20)) ∧
    BoundsExact (some integerBackend) 40 10 24 (1 / 20) ∧
    ∀ bits, 1 ≤ bits → bits ≤ 48 → ∀ m ≤ 2 ^ 56, (1 / 2 : ℚ) ^ m ≤ 1 / 20 →
      ((∀ n s, 0 < n → s ≤ n → bits * n < 2 ^ 64 →
        BoundsExact (some integerBackend) n s bits (1 / 20)) ↔
          some integerBackend = none ∨ (1 / 20 : ℚ).num < 2 ^ 64) := by
  have hexact := outerConfidenceBounds_exact_iff exactPlatform_exact (α := 1 / 20) (by norm_num)
  have hnum : (1 / 20 : ℚ).num < 2 ^ 64 := by norm_num
  refine ⟨hexact.1, ?_, hexact.2⟩
  exact (hexact.2 24 (by decide) (by decide) 5 (by norm_num) (by norm_num)).mpr (.inr hnum) 40 10
    (by decide) (by decide) (by norm_num)

/-- With the numerator `2 ^ 64`, which is zero as a machine word, one success in two draws bounds
nothing, where the inequality rejects the grid from 27/128 down and from 101/128 up. -/
theorem outerConfidenceBounds_wordAlpha :
    ¬ BoundsExact (some integerBackend) 2 1 8 (2 ^ 64 / (2 ^ 64 + 1)) ∧
    (outerConfidenceBounds exactPlatform 2 1 (2 ^ 64 / (2 ^ 64 + 1)) 8).map
      (fun bounds => (bounds.lower, bounds.upper)) = .ok (0, 1) ∧
    IsLowerEndpoint 2 1 8 (2 ^ 64 / (2 ^ 64 + 1)) (27 / 128) ∧
    IsUpperEndpoint 2 1 8 (2 ^ 64 / (2 ^ 64 + 1)) (101 / 128) := by
  have hα : (0 : ℚ) < 2 ^ 64 / (2 ^ 64 + 1) ∧ (2 ^ 64 / (2 ^ 64 + 1) : ℚ) < 1 := by norm_num
  have hnone : ExactBackend (none : Option (GmpBackend ℤ)) id := by simp [ExactBackend]
  have hdecides : Decides none 2 1 8 (2 ^ 64 / (2 ^ 64 + 1)) :=
    decides_of_fit hnone hα.1.le (by decide) (.inl rfl)
  have hlower : (lastRejectedLowerGridIndex (fun _ => false) (.make (none : Option (GmpBackend ℤ))
      2 1 (2 ^ 64 / (2 ^ 64 + 1)) (2 ^ 8))).map Boundary.index = .ok 54 := by decide +kernel
  have hupper : (firstRejectedUpperGridIndex (fun _ => false) (.make (none : Option (GmpBackend ℤ))
      2 1 (2 ^ 64 / (2 ^ 64 + 1)) (2 ^ 8))).map Boundary.index = .ok 202 := by decide +kernel
  obtain ⟨lower, hlower, hlowerIndex⟩ := map_eq_ok.mp hlower
  obtain ⟨upper, hupper, hupperIndex⟩ := map_eq_ok.mp hupper
  have hlowerEnd := isLowerEndpoint_of_boundary hdecides hα (by decide) (by decide) hlower
  have hupperEnd := isUpperEndpoint_of_boundary hdecides hα (by decide) (by decide) hupper
  rw [hlowerIndex, show ((54 : ℕ) : ℚ) / 2 ^ 8 = 27 / 128 by norm_num] at hlowerEnd
  rw [hupperIndex, show ((202 : ℕ) : ℚ) / 2 ^ 8 = 101 / 128 by norm_num] at hupperEnd
  have hnative : (outerConfidenceBounds exactPlatform 2 1 (2 ^ 64 / (2 ^ 64 + 1)) 8).map
      (fun bounds => (bounds.lower, bounds.upper)) = .ok (0, 1) := by decide +kernel
  refine ⟨?_, hnative, hlowerEnd, hupperEnd⟩
  rintro ⟨lower', _, hlower', -, -, -, -, hends⟩
  obtain ⟨bounds, hbounds, rfl, -⟩ := hends exactSearch
  have hzero : bounds.lower = 0 := by
    rw [exactPlatform, hbounds] at hnative
    exact congrArg Prod.fst (Except.ok.inj hnative)
  have hlast := hlower'.unique hlowerEnd
  rw [hzero] at hlast
  norm_num at hlast

end Acfqp.Confidence
