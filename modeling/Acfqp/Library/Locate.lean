import Mathlib

/-!
# Locating a token among cumulative weights

A token below the total weight lies in exactly one of the consecutive intervals that the weights cut
out. A word below a multiple of `cells * total` splits into a cell and a token, and every pair of a
cell and a key is met in proportion to the key's weight.
-/

namespace Acfqp.Library

variable {α : Type}

/-- The key whose interval holds a token. -/
def locate : List (α × ℕ) → ℕ → Option α
  | [], _ => none
  | (key, weight) :: rest, token => if token < weight then some key else locate rest
    (token - weight)

@[simp] theorem locate_nil (token : ℕ) : locate ([] : List (α × ℕ)) token = none := rfl

theorem locate_of_lt {key : α} {weight token : ℕ} {rest : List (α × ℕ)} (h : token < weight) :
    locate ((key, weight) :: rest) token = some key := if_pos h

theorem locate_add (key : α) (weight token : ℕ) (rest : List (α × ℕ)) :
    locate ((key, weight) :: rest) (weight + token) = locate rest token := by
  rw [locate, if_neg (by omega), Nat.add_sub_cancel_left]

/-- Every token below the total weight is located. -/
theorem exists_locate {entries : List (α × ℕ)} {token : ℕ}
    (h : token < (entries.map Prod.snd).sum) :
    ∃ entry ∈ entries, locate entries token = some entry.1 := by
  induction entries generalizing token with
  | nil => simp at h
  | cons entry rest ih =>
    obtain ⟨key, weight⟩ := entry
    by_cases hlt : token < weight
    · exact ⟨(key, weight), List.mem_cons_self, locate_of_lt hlt⟩
    · obtain ⟨found, hfound, hlocate⟩ := ih (show token - weight < _ by simp at h; omega)
      refine ⟨found, List.mem_cons_of_mem _ hfound, ?_⟩
      rw [locate, if_neg hlt, hlocate]

/-- Counting looks at the numbers below its bound only. -/
theorem count_congr {p q : ℕ → Prop} [DecidablePred p] [DecidablePred q] {n : ℕ}
    (h : ∀ k < n, p k ↔ q k) : Nat.count p n = Nat.count q n :=
  le_antisymm (Nat.count_mono_left fun k hk => (h k hk).mp)
    (Nat.count_mono_left fun k hk => (h k hk).mpr)

variable [DecidableEq α]

theorem count_locate (entries : List (α × ℕ)) (key : α) :
    Nat.count (fun token => locate entries token = some key) (entries.map Prod.snd).sum =
      ((entries.filter (·.1 = key)).map Prod.snd).sum := by
  induction entries with
  | nil => rfl
  | cons entry rest ih =>
    obtain ⟨other, weight⟩ := entry
    rw [List.map_cons, List.sum_cons, Nat.count_add]
    simp only [locate_add, ih]
    by_cases heq : other = key
    · subst heq
      have hall : Nat.count (fun token => locate ((other, weight) :: rest) token = some other)
          weight = weight := Nat.count_of_forall fun token htoken => locate_of_lt htoken
      simp [hall]
    · have hnone : Nat.count (fun token => locate ((other, weight) :: rest) token = some key)
        weight =
          0 := Nat.count_iff_forall_not.mpr fun token htoken => by
        simpa [locate_of_lt htoken] using heq
      simp [hnone, heq]

/-- With distinct keys, as many tokens find a key as it weighs. -/
theorem count_locate_of_mem {entries : List (α × ℕ)} (hnodup : (entries.map Prod.fst).Nodup)
    {entry : α × ℕ} (hentry : entry ∈ entries) :
    Nat.count (fun token => locate entries token = some entry.1) (entries.map Prod.snd).sum =
      entry.2 := by
  rw [count_locate]
  induction entries with
  | nil => cases hentry
  | cons head rest ih =>
    simp only [List.map_cons, List.nodup_cons, List.mem_map, not_exists, not_and] at hnodup
    obtain ⟨hfresh, hrest⟩ := hnodup
    rcases List.mem_cons.mp hentry with rfl | hmem
    · have hnone : rest.filter (fun other => decide (other.1 = entry.1)) = [] :=
        List.filter_eq_nil_iff.mpr fun other hother => by simpa using hfresh other hother
      simp [hnone]
    · have hne : head.1 ≠ entry.1 := fun heq => hfresh entry hmem heq.symm
      simpa [hne] using ih hrest hmem

omit [DecidableEq α]

/-- Over whole periods, a property of the remainder is met equally often in each. -/
theorem count_mod (p : ℕ → Prop) [DecidablePred p] (period times : ℕ) :
    Nat.count (fun n => p (n % period)) (period * times) = times * Nat.count p period := by
  induction times with
  | zero => simp
  | succ times ih =>
    have hlast : Nat.count (fun n => p ((period * times + n) % period)) period =
        Nat.count p period := count_congr fun n hn => by
      rw [Nat.mul_add_mod, Nat.mod_eq_of_lt hn]
    rw [Nat.mul_succ, Nat.count_add, ih, hlast]
    ring

/-- In one of `cells` intervals of a length, a property of the remainder is met as in any other. -/
theorem count_div_mod (p : ℕ → Prop) [DecidablePred p] {cell cells : ℕ} (length : ℕ)
    (hcell : cell < cells) :
    Nat.count (fun n => n / length = cell ∧ p (n % length)) (cells * length) =
      Nat.count p length := by
  obtain ⟨rest, rfl⟩ := Nat.exists_eq_add_of_lt hcell
  rcases Nat.eq_zero_or_pos length with rfl | hlength
  · simp
  have hsplit : (cell + rest + 1) * length = cell * length + (length + rest * length) := by ring
  have hbefore : Nat.count (fun n => n / length = cell ∧ p (n % length)) (cell * length) = 0 := by
    refine Nat.count_iff_forall_not.mpr fun n hn h => ?_
    have := Nat.div_lt_of_lt_mul (by rwa [Nat.mul_comm] at hn)
    omega
  have hwithin : Nat.count (fun n => (cell * length + n) / length = cell ∧
      p ((cell * length + n) % length)) length = Nat.count p length := by
    refine count_congr fun n hn => ?_
    rw [Nat.mul_comm, Nat.mul_add_div hlength, Nat.mul_add_mod, Nat.div_eq_of_lt hn,
      Nat.mod_eq_of_lt hn, Nat.add_zero, eq_self, true_and]
  have hafter : Nat.count (fun n => (cell * length + (length + n)) / length = cell ∧
      p ((cell * length + (length + n)) % length)) (rest * length) = 0 := by
    refine Nat.count_iff_forall_not.mpr fun n hn h => ?_
    have hle : (cell + 1) * length ≤ cell * length + (length + n) := by ring_nf; omega
    have := (Nat.le_div_iff_mul_le hlength).mpr hle
    omega
  rw [hsplit, Nat.count_add, Nat.count_add, hbefore, hwithin, hafter]
  omega

end Acfqp.Library
