import Mathlib

/-!
# Independent draws

Exact probabilities of events on finitely many independent draws from a finite outcome set, and
the first-passage inequality: when every rejected prefix is at most `bound` times as likely as
under a consistent alternative mass, some prefix is rejected with probability at most `bound`.
-/

namespace Acfqp.Library

variable {Ω Θ R : Type}

/-! ## Sums over sequences of draws -/

section

variable {n : ℕ}

/-- Sequences of `n + 1` draws are a draw followed by `n` draws. -/
theorem sum_draws_succ [Fintype Ω] [AddCommMonoid R] (f : List Ω → R) :
    ∑ ω : Fin (n + 1) → Ω, f (List.ofFn ω) =
      ∑ a, ∑ ω : Fin n → Ω, f (a :: List.ofFn ω) := by
  rw [← (Fin.consEquiv fun _ => Ω).sum_comp, Fintype.sum_prod_type]
  simp [List.ofFn_succ, Fin.consEquiv]

variable [CommSemiring R] {q : Ω → R}

def likelihood (q : Ω → R) (draws : List Ω) : R := (draws.map q).prod

@[simp] theorem likelihood_nil : likelihood q [] = 1 := rfl

@[simp] theorem likelihood_cons (a : Ω) (draws : List Ω) :
    likelihood q (a :: draws) = q a * likelihood q draws := by
  simp [likelihood]

@[simp] theorem likelihood_append (past draws : List Ω) :
    likelihood q (past ++ draws) = likelihood q past * likelihood q draws := by
  simp [likelihood]

theorem likelihood_nonneg [PartialOrder R] [IsOrderedRing R] (hq : ∀ a, 0 ≤ q a)
    (draws : List Ω) : 0 ≤ likelihood q draws :=
  List.prod_nonneg (by simpa using fun a _ => hq a)

variable [Fintype Ω]

theorem sum_likelihood (hq : ∑ a, q a = 1) :
    ∑ ω : Fin n → Ω, likelihood q (List.ofFn ω) = 1 := by
  induction n with
  | zero => simp
  | succ n ih =>
    rw [sum_draws_succ]
    simp only [likelihood_cons, ← Finset.mul_sum, ih, mul_one, hq]

/-- The mass that `q` gives to the outcomes with image `b`. -/
def pushforward [DecidableEq Θ] (q : Ω → R) (g : Ω → Θ) (b : Θ) : R := ∑ a with g a = b, q a

/-- Draws read through `g` are draws from the pushforward. -/
theorem sum_pushforward [Fintype Θ] [DecidableEq Θ] (g : Ω → Θ) (f : List Θ → R) :
    ∑ ω : Fin n → Ω, likelihood q (List.ofFn ω) * f ((List.ofFn ω).map g) =
      ∑ θ : Fin n → Θ, likelihood (pushforward q g) (List.ofFn θ) * f (List.ofFn θ) := by
  induction n generalizing f with
  | zero => simp
  | succ n ih =>
    have hleft := sum_draws_succ (n := n) fun l => likelihood q l * f (l.map g)
    have hright := sum_draws_succ (n := n) fun l => likelihood (pushforward q g) l * f l
    rw [hleft, hright, ← Finset.sum_fiberwise Finset.univ g]
    refine Finset.sum_congr rfl fun b _ => ?_
    simp only [likelihood_cons, List.map_cons, mul_assoc, ← Finset.mul_sum]
    rw [pushforward, Finset.sum_mul]
    refine Finset.sum_congr rfl fun a ha => ?_
    rw [(Finset.mem_filter.mp ha).2, ih fun l => f (b :: l)]

end

section Probability

variable [Fintype Ω] [CommSemiring R] {q : Ω → R} {n : ℕ}

/-- The probability that `n` independent draws satisfy an event. -/
def probability (q : Ω → R) (n : ℕ) (event : List Ω → Prop) [DecidablePred event] : R :=
  ∑ ω : Fin n → Ω with event (List.ofFn ω), likelihood q (List.ofFn ω)

theorem probability_eq (event : List Ω → Prop) [DecidablePred event] :
    probability q n event =
      ∑ ω : Fin n → Ω, likelihood q (List.ofFn ω) * if event (List.ofFn ω) then 1 else 0 := by
  simp [probability, Finset.sum_filter]

/-- The probability of an event that only reads the draws through `g`. -/
theorem probability_map [Fintype Θ] [DecidableEq Θ] (g : Ω → Θ) (event : List Θ → Prop)
    [DecidablePred event] :
    probability q n (fun l => event (l.map g)) = probability (pushforward q g) n event := by
  rw [probability_eq, probability_eq, ← sum_pushforward g fun l => if event l then 1 else 0]

variable [PartialOrder R] [IsOrderedRing R]

/-- A larger event is more likely. -/
theorem probability_mono (hq : ∀ a, 0 ≤ q a) {event event' : List Ω → Prop}
    [DecidablePred event] [DecidablePred event']
    (h : ∀ l, l.length = n → event l → event' l) :
    probability q n event ≤ probability q n event' := by
  refine Finset.sum_le_sum_of_subset_of_nonneg (fun ω hω => ?_) fun ω _ _ =>
    likelihood_nonneg hq _
  simp only [Finset.mem_filter, Finset.mem_univ, true_and] at hω ⊢
  exact h _ (by simp) hω

/-- The union bound. -/
theorem probability_exists_le {ι : Type} (s : Finset ι) (hq : ∀ a, 0 ≤ q a)
    (event : ι → List Ω → Prop) [∀ i, DecidablePred (event i)] :
    probability q n (fun l => ∃ i ∈ s, event i l) ≤ ∑ i ∈ s, probability q n (event i) := by
  simp only [probability_eq]
  rw [Finset.sum_comm]
  refine Finset.sum_le_sum fun ω _ => ?_
  rw [← Finset.mul_sum]
  refine mul_le_mul_of_nonneg_left ?_ (likelihood_nonneg hq _)
  split
  · rename_i h
    obtain ⟨i, hi, hevent⟩ := h
    calc (1 : R) = if event i (List.ofFn ω) then 1 else 0 := (if_pos hevent).symm
      _ ≤ _ := Finset.single_le_sum (f := fun i => if event i (List.ofFn ω) then (1 : R) else 0)
        (fun j _ => by split <;> simp) hi
  · exact Finset.sum_nonneg fun j _ => by split <;> simp

end Probability

section FirstPassage

variable [Fintype Ω] [CommSemiring R] [PartialOrder R] [IsOrderedRing R] {q : Ω → R} {bound : R}
  {mass : List Ω → R} {rejected : List Ω → Prop}

/-- Some prefix of the draws after `past` is rejected. -/
def Passes (rejected : List Ω → Prop) (past draws : List Ω) : Prop :=
  ∃ k ≤ draws.length, rejected (past ++ draws.take k)

instance [DecidablePred rejected] (past : List Ω) : DecidablePred (Passes rejected past) :=
  fun draws => inferInstanceAs (Decidable (∃ k ≤ draws.length, rejected (past ++ draws.take k)))

omit [Fintype Ω] in
theorem passes_cons {past draws : List Ω} {a : Ω} (h : ¬ rejected past) :
    Passes rejected past (a :: draws) ↔ Passes rejected (past ++ [a]) draws := by
  constructor
  · rintro ⟨k, hk, hrejected⟩
    cases k with
    | zero => exact absurd (by simpa using hrejected) h
    | succ k => exact ⟨k, by simpa using hk, by simpa using hrejected⟩
  · rintro ⟨k, hk, hrejected⟩
    exact ⟨k + 1, by simpa using hk, by simpa using hrejected⟩

/-- The first-passage decomposition: a rejected past stops the recursion, any other past splits
its mass over the next draw. -/
theorem sum_passes_le [DecidablePred rejected] (hq : ∀ a, 0 ≤ q a) (hsum : ∑ a, q a = 1)
    (hmass : ∀ past, 0 ≤ mass past) (hbound : 0 ≤ bound)
    (hstep : ∀ past, ∑ a, mass (past ++ [a]) ≤ mass past)
    (hrejected : ∀ past, rejected past → likelihood q past ≤ bound * mass past) (n : ℕ)
    (past : List Ω) :
    likelihood q past *
      ∑ ω : Fin n → Ω, likelihood q (List.ofFn ω) *
        (if Passes rejected past (List.ofFn ω) then 1 else 0) ≤ bound * mass past := by
  induction n generalizing past with
  | zero =>
    by_cases hpast : Passes rejected past []
    · have hrejected' : rejected past := by
        obtain ⟨k, -, h⟩ := hpast
        simpa using h
      simpa [hpast] using hrejected past hrejected'
    · simpa [hpast] using mul_nonneg hbound (hmass past)
  | succ n ih =>
    by_cases hpast : rejected past
    · calc _ ≤ likelihood q past * ∑ ω : Fin (n + 1) → Ω, likelihood q (List.ofFn ω) := by
            refine mul_le_mul_of_nonneg_left (Finset.sum_le_sum fun ω _ => ?_)
              (likelihood_nonneg hq _)
            refine mul_le_of_le_one_right (likelihood_nonneg hq _) ?_
            split <;> simp
        _ = likelihood q past := by rw [sum_likelihood hsum, mul_one]
        _ ≤ _ := hrejected past hpast
    · have hdraws := sum_draws_succ (n := n) fun l => likelihood q l *
        (if Passes rejected past l then (1 : R) else 0)
      rw [hdraws]
      calc _ = ∑ a, likelihood q (past ++ [a]) * ∑ ω : Fin n → Ω, likelihood q (List.ofFn ω) *
              (if Passes rejected (past ++ [a]) (List.ofFn ω) then 1 else 0) := by
            simp [passes_cons hpast, mul_assoc, Finset.mul_sum]
        _ ≤ ∑ a, bound * mass (past ++ [a]) := Finset.sum_le_sum fun a _ => ih (past ++ [a])
        _ = bound * ∑ a, mass (past ++ [a]) := by rw [Finset.mul_sum]
        _ ≤ bound * mass past := mul_le_mul_of_nonneg_left (hstep past) hbound

variable (q bound mass rejected) in
/-- Rejecting only what is `bound` times as likely under a consistent alternative mass, some
prefix is rejected with probability at most `bound`. -/
theorem probability_passes_le [DecidablePred rejected] (hq : ∀ a, 0 ≤ q a) (hsum : ∑ a, q a = 1)
    (hmass : ∀ past, 0 ≤ mass past) (hnil : mass [] = 1) (hbound : 0 ≤ bound)
    (hstep : ∀ past, ∑ a, mass (past ++ [a]) ≤ mass past)
    (hrejected : ∀ past, rejected past → likelihood q past ≤ bound * mass past) (n : ℕ) :
    probability q n (Passes rejected []) ≤ bound := by
  have h := sum_passes_le hq hsum hmass hbound hstep hrejected n []
  rwa [likelihood_nil, one_mul, hnil, mul_one, ← probability_eq] at h

end FirstPassage

end Acfqp.Library
