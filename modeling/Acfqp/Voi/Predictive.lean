import Acfqp.Library.Checked
import Acfqp.Library.Urn

/-!
# The predictive law of the fantasies

The counts of a block of further draws from a row, under the Jeffreys prior: the code enumerates all
count vectors of the block, gives each its closed-form probability, and predicts the row's masses
after it. These are the blocks of a reinforced urn whose weights are the counts plus one half.
-/

namespace Acfqp.Voi

open Library

/-- A violated invariant of the scores. -/
inductive VoiError where
  | invariant (message : String)
  deriving DecidableEq

def jeffreysAlpha : ℚ := 1 / 2

/-- The vectors of a width with a total. -/
def compositions (total : ℕ) : ℕ → Except VoiError (List (List ℕ))
  | 0 => .error (.invariant "fantasy composition dimensions are invalid")
  | 1 => return [[total]]
  | width + 2 => do
    let output ← (List.range (total + 1)).mapM fun first => do
      let suffixes ← compositions (total - first) (width + 1)
      return suffixes.map (first :: ·)
    return output.flatten

def risingFraction (start : ℚ) (count : ℕ) : ℚ :=
  (List.range count).foldl (fun value (offset : ℕ) => value * (start + offset)) 1

def ktFantasyProbability (currentCounts additionalCounts : List ℕ) : Except VoiError ℚ := do
  require (currentCounts.length = additionalCounts.length ∧ currentCounts ≠ [])
    (.invariant "KT count vectors are malformed")
  let n := additionalCounts.sum
  let coefficient := additionalCounts.foldl (fun c value => c / (value.factorial : ℚ))
    (n.factorial : ℚ)
  let numerator := (currentCounts.zip additionalCounts).foldl
    (fun c e => c * risingFraction (e.1 + jeffreysAlpha) e.2) coefficient
  let denominator := risingFraction (currentCounts.sum + currentCounts.length * jeffreysAlpha) n
  return numerator / denominator

def posteriorPredictiveMasses (currentCounts additionalCounts : List ℕ) : List ℚ :=
  let denominator := currentCounts.sum + additionalCounts.sum + currentCounts.length * jeffreysAlpha
  (currentCounts.zip additionalCounts).map fun e => (e.1 + e.2 + jeffreysAlpha) / denominator

/-- The probability of drawing the destinations of a sequence one after the other, each from the
masses that the draws before it predict. -/
def sequenceProbability : List ℕ → List ℕ → ℚ
  | _, [] => 1
  | counts, i :: draws =>
    (posteriorPredictiveMasses counts (List.replicate counts.length 0)).getD i 0 *
      sequenceProbability (counts.modify i (· + 1)) draws

/-! ## Compositions -/

theorem compositions_returns (total width : ℕ) :
    ∃ vectors, compositions total (width + 1) = .ok vectors ∧ vectors.Nodup ∧
      ∀ a, a ∈ vectors ↔ a.length = width + 1 ∧ a.sum = total := by
  induction width generalizing total with
  | zero =>
    refine ⟨[[total]], rfl, List.nodup_singleton _, fun a => ?_⟩
    rw [List.mem_singleton]
    constructor
    · rintro rfl
      simp
    · rintro ⟨hlength, hsum⟩
      obtain ⟨x, rfl⟩ := List.length_eq_one_iff.mp hlength
      simpa using hsum
  | succ width ih =>
    choose suffixes hsuffixes hnodup hmem using fun first => ih (total - first)
    have houtput : ((List.range (total + 1)).mapM fun first => do
        let suffixes ← compositions (total - first) (width + 1)
        return suffixes.map (first :: ·)) =
          .ok ((List.range (total + 1)).map fun first => (suffixes first).map (first :: ·)) :=
      mapM_of_forall fun first _ => bind_eq_ok.mpr ⟨_, hsuffixes first, rfl⟩
    refine ⟨_, bind_eq_ok.mpr ⟨_, houtput, rfl⟩, ?_, fun a => ?_⟩
    · rw [← List.flatMap_def, List.nodup_flatMap]
      refine ⟨fun first _ => (hnodup first).map (List.cons_injective), ?_⟩
      refine (List.nodup_range (n := total + 1)).imp fun {x y} hxy => ?_
      intro a hx hy
      obtain ⟨b, -, rfl⟩ := List.mem_map.mp hx
      obtain ⟨b', -, heq⟩ := List.mem_map.mp hy
      exact hxy (List.cons.inj heq).1.symm
    · simp only [List.mem_flatten, List.mem_map, List.mem_range]
      constructor
      · rintro ⟨_, ⟨first, hfirst, rfl⟩, ha⟩
        obtain ⟨b, hb, rfl⟩ := List.mem_map.mp ha
        obtain ⟨hlength, hsum⟩ := (hmem first b).mp hb
        rw [List.length_cons, List.sum_cons]
        omega
      · rintro ⟨hlength, hsum⟩
        obtain ⟨first, b, rfl⟩ := List.exists_cons_of_length_eq_add_one hlength
        rw [List.length_cons] at hlength
        rw [List.sum_cons] at hsum
        refine ⟨_, ⟨first, by omega, rfl⟩, List.mem_map_of_mem ((hmem first b).mpr ?_)⟩
        omega

section Urn

variable {k : ℕ}

def weights (c : Fin k → ℕ) : Fin k → ℚ := fun i => c i + jeffreysAlpha

theorem filled_weights (hk : 0 < k) (c : Fin k → ℕ) : Urn.Filled (weights c) where
  nonempty := ⟨⟨0, hk⟩⟩
  pos i := by
    have hcount : (0 : ℚ) ≤ c i := Nat.cast_nonneg _
    simp only [weights, jeffreysAlpha]
    linarith

theorem sum_weights (c : Fin k → ℕ) : ∑ i, weights c i = (List.ofFn c).sum + k * jeffreysAlpha := by
  simp [weights, Finset.sum_add_distrib, List.sum_ofFn]

theorem risingFraction_eq (x : ℚ) (n : ℕ) : risingFraction x n = Urn.rising x n := by
  induction n with
  | zero => rfl
  | succ n ih =>
    rw [risingFraction, List.range_succ, List.foldl_append, ← risingFraction, ih, Urn.rising,
      Urn.rising, Finset.prod_range_succ]
    rfl

theorem foldl_mul {α : Type} (f : α → ℚ) (c : ℚ) (l : List α) :
    l.foldl (fun c e => c * f e) c = c * (l.map f).prod := by
  induction l generalizing c with
  | nil => simp
  | cons e l ih => simp [ih, mul_assoc]

theorem foldl_div {α : Type} (f : α → ℚ) (c : ℚ) (l : List α) :
    l.foldl (fun c e => c / f e) c = c / (l.map f).prod := by
  induction l generalizing c with
  | nil => simp
  | cons e l ih => simp [ih, div_div]

theorem zip_ofFn (c a : Fin k → ℕ) :
    (List.ofFn c).zip (List.ofFn a) = List.ofFn fun i => (c i, a i) := by
  apply List.ext_getElem <;> simp

theorem ktFantasyProbability_eq (hk : 0 < k) (c a : Fin k → ℕ) :
    ktFantasyProbability (List.ofFn c) (List.ofFn a) = .ok (Urn.blockMass (weights c) a) := by
  refine bind_eq_ok.mpr ⟨(), require_eq_ok.mpr ⟨by simp, ?_⟩, ?_⟩
  · exact List.ne_nil_of_length_pos (by simpa using hk)
  · refine congrArg Except.ok ?_
    simp only [foldl_mul, foldl_div, zip_ofFn, List.map_ofFn, List.prod_ofFn, risingFraction_eq,
      List.length_ofFn]
    rw [← sum_weights, Urn.blockMass, List.sum_ofFn]
    rfl

theorem posteriorPredictiveMasses_eq (c a : Fin k → ℕ) :
    posteriorPredictiveMasses (List.ofFn c) (List.ofFn a) =
      List.ofFn (Urn.mass fun i => weights c i + a i) := by
  have hsum : (∑ i, (weights c i + a i)) =
      (List.ofFn c).sum + (List.ofFn a).sum + k * jeffreysAlpha := by
    rw [Finset.sum_add_distrib, sum_weights, List.sum_ofFn (f := a)]
    push_cast
    ring
  simp only [posteriorPredictiveMasses, zip_ofFn, List.map_ofFn, List.length_ofFn]
  refine congrArg List.ofFn (funext fun i => ?_)
  rw [Urn.mass, hsum]
  simp only [Function.comp_apply, weights]
  ring

theorem getD_ofFn {α : Type} (f : Fin k → α) (i : Fin k) (d : α) :
    (List.ofFn f).getD i d = f i := by
  simp [List.getD]

theorem predictive_getD (c : Fin k → ℕ) (i : Fin k) :
    (posteriorPredictiveMasses (List.ofFn c) (List.replicate k 0)).getD i 0 =
      Urn.mass (weights c) i := by
  have hzero : List.replicate k 0 = List.ofFn fun _ : Fin k => 0 := by simp
  rw [hzero, posteriorPredictiveMasses_eq, getD_ofFn]
  simp

theorem modify_ofFn (c : Fin k → ℕ) (i : Fin k) :
    (List.ofFn c).modify i (· + 1) = List.ofFn fun j => c j + Urn.single i j := by
  apply List.ext_getElem
  · simp
  · intro n hn hn'
    simp [List.getElem_modify, Urn.single, Fin.ext_iff, eq_comm]
    split <;> rfl

theorem sequenceProbability_eq (c : Fin k → ℕ) (s : List (Fin k)) :
    sequenceProbability (List.ofFn c) (s.map Fin.val) = Urn.wordMass (weights c) s := by
  induction s generalizing c with
  | nil => rfl
  | cons i s ih =>
    have hweights : weights (fun j => c j + Urn.single i j) = Urn.reinforce (weights c) i := by
      funext j
      simp only [weights, Urn.reinforce]
      push_cast
      ring
    rw [List.map_cons, sequenceProbability, modify_ofFn, ih, hweights, List.length_ofFn,
      predictive_getD]
    rfl

theorem sum_compositions {n : ℕ} {vectors : List (List ℕ)} (hnodup : vectors.Nodup)
    (hmem : ∀ a, a ∈ vectors ↔ a.length = k ∧ a.sum = n) (f : List ℕ → ℚ) :
    (vectors.map f).sum = ∑ a ∈ Finset.piAntidiag (Finset.univ : Finset (Fin k)) n,
      f (List.ofFn a) := by
  let blocks := (Finset.piAntidiag (Finset.univ : Finset (Fin k)) n).toList.map List.ofFn
  have hperm : vectors.Perm blocks := by
    refine (List.perm_ext_iff_of_nodup hnodup ((Finset.nodup_toList _).map
      List.ofFn_injective)).mpr fun a => ?_
    rw [hmem, List.mem_map]
    constructor
    · rintro ⟨rfl, rfl⟩
      refine ⟨a.get, ?_, List.ofFn_get a⟩
      simp [Finset.mem_piAntidiag, ← List.sum_ofFn]
    · rintro ⟨b, hb, rfl⟩
      obtain ⟨hsum, -⟩ := Finset.mem_piAntidiag.mp (Finset.mem_toList.mp hb)
      exact ⟨List.length_ofFn, by rw [List.sum_ofFn]; exact hsum⟩
  rw [(hperm.map f).sum_eq, List.map_map]
  exact Finset.sum_map_toList _ _

end Urn

end Acfqp.Voi
