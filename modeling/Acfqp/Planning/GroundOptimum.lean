import Acfqp.Library.Optimal
import Acfqp.Planning.Exactness

/-!
# The extremes of the ground frontier

The largest reward on the ground frontier is the best reward of the ground process, and the
smallest failure on it is the best failure.
-/

namespace Acfqp.Planning

open Library

variable {S A : Type}

section Process

variable [PyRepr S] [PyRepr A]

def groundProcess (kernel : Kernel S A) (goal : String) (gain : Outcome S → ℚ) : Process ℚ S A where
  options s := if isStopped kernel s goal then [] else (kernel.actions s).toOption.getD []
  branches s a := outcomeBranches kernel goal gain ((iterOutcomes kernel s a).toOption.getD [])

variable {kernel : Kernel S A} {goal : String} {gain : Outcome S → ℚ} {select : Selector S A}
  {n : ℕ} {s : S}

theorem options_of_idle (h : Idle kernel goal s) : (groundProcess kernel goal gain).options s =
    [] := by
  rcases h with h | h
  · simp [groundProcess, h]
  · simp [groundProcess, h, Except.toOption]

theorem options_of_active (h : isStopped kernel s goal = false) {actions : List A}
    (hactions : kernel.actions s = .ok actions) :
    (groundProcess kernel goal gain).options s = actions := by
  simp [groundProcess, h, hactions, Except.toOption]

theorem branches_groundProcess {a : A} {outcomes : List (Outcome S)}
    (h : iterOutcomes kernel s a = .ok outcomes) :
    (groundProcess kernel goal gain).branches s a = outcomeBranches kernel goal gain outcomes := by
  simp [groundProcess, h, Except.toOption]

theorem groundProcess_weight (s : S) (a : A) :
    ∀ b ∈ (groundProcess kernel goal gain).branches s a, 0 ≤ b.weight :=
  weight_outcomeBranches

theorem obeys_of_follows :
    (groundProcess kernel goal gain).Obeys (Follows kernel goal select)
      (selectorLaw kernel goal gain select) := by
  constructor
  · intro n s hf hlaw
    exact options_of_idle (hf.idle_of_law hlaw)
  · intro n s bs hf hlaw
    obtain ⟨a, outcomes, ht, rfl, -⟩ := hf.takes_of_law hlaw
    obtain ⟨actions, hactions, ha⟩ := ht.available
    refine ⟨a, ?_, (branches_groundProcess ht.outcomes).symm⟩
    rwa [options_of_active ht.active hactions]
  · intro n s bs hf hlaw b hb t hbt
    obtain ⟨a, outcomes, ht, rfl, hnext⟩ := hf.takes_of_law hlaw
    obtain ⟨o, ho, hs, rfl⟩ := next_outcomeBranches hb hbt
    exact hnext o ho hs

theorem value_le_best (h : Follows kernel goal select n s) :
    value (selectorLaw kernel goal gain select) n s ≤ (groundProcess kernel goal gain).best n s :=
  obeys_of_follows.value_le_best (fun s a _ => groundProcess_weight s a) h

theorem value_greedy
    (h : Follows kernel goal (groundProcess kernel goal gain).greedySelector n s) :
    value (selectorLaw kernel goal gain (groundProcess kernel goal gain).greedySelector) n s =
      (groundProcess kernel goal gain).best n s := by
  apply le_antisymm
  · exact value_le_best h
  · refine obeys_of_follows.best_le_value (fun s a _ => groundProcess_weight s a) ?_ h
    intro n s bs hf hlaw
    obtain ⟨a, outcomes, ht, rfl, -⟩ := hf.takes_of_law hlaw
    exact ⟨a, ht.selected, (branches_groundProcess ht.outcomes).symm⟩

theorem decides_greedy [DecidableEq S] (cover : ℕ → S → Prop) :
    Decides kernel goal cover (groundProcess kernel goal gain).greedySelector := by
  intro n s _ hidle actions hactions
  have hactive : isStopped kernel s goal = false := by
    simpa using fun hstop => hidle (.inl hstop)
  have hopen : (groundProcess kernel goal gain).options s = actions :=
    options_of_active hactive hactions
  have hsome : (groundProcess kernel goal gain).greedy
      ((groundProcess kernel goal gain).best n) s ≠ none := by
    intro hnone
    refine hidle (.inr ?_)
    rw [hactions, ← hopen, Process.greedy_eq_none.mp hnone]
  obtain ⟨a, ha⟩ := Option.ne_none_iff_exists'.mp hsome
  exact ⟨a, hopen ▸ Process.greedy_mem ha, ha⟩

theorem value_selectorLaw_neg (gain : Outcome S → ℚ) (select : Selector S A) (n : ℕ) :
    value (selectorLaw kernel goal (fun o => -gain o) select) n =
      fun s => -value (selectorLaw kernel goal gain select) n s := by
  rw [← value_neg]
  congr 1
  funext n s
  have hbranches : outcomeBranches kernel goal (fun o => -gain o) =
      List.map Branch.neg ∘ outcomeBranches kernel goal gain := by
    funext outcomes
    rw [Function.comp_apply, outcomeBranches, outcomeBranches, List.map_map]
    rfl
  unfold selectorLaw
  split
  · rfl
  · split
    · cases select n s with
      | none => rfl
      | some a => rw [hbranches, Option.bind_some, Option.bind_some, Option.map_map]
    · rfl

end Process

section Extremes

variable [DecidableEq S] [PyRepr S] [DecidableEq A] [PyRepr A] {kernel : Kernel S A}
  {query : QuerySpec S} {result : GroundParetoResult S A}

def bestInitial (kernel : Kernel S A) (query : QuerySpec S) (gain : Outcome S → ℚ) : ℚ :=
  (query.initialDistribution.map fun p =>
    p.1 * (groundProcess kernel query.goal gain).best query.horizon p.2).sum

def selectorInitial (kernel : Kernel S A) (query : QuerySpec S) (gain : Outcome S → ℚ)
    (select : Selector S A) : ℚ :=
  (query.initialDistribution.map fun p =>
    p.1 * value (selectorLaw kernel query.goal gain select) query.horizon p.2).sum

omit [DecidableEq S] [DecidableEq A] in
theorem selectorInitial_le {gain : Outcome S → ℚ} {select : Selector S A}
    (h : ∀ p ∈ query.initialDistribution, Follows kernel query.goal select query.horizon p.2) :
    selectorInitial kernel query gain select ≤ bestInitial kernel query gain :=
  List.sum_le_sum fun p hp =>
    mul_le_mul_of_nonneg_left (value_le_best (h p hp)) (query.initial_pos p hp).le

omit [DecidableEq S] [DecidableEq A] in
theorem selectorInitial_greedy {gain : Outcome S → ℚ}
    (h : ∀ p ∈ query.initialDistribution, Follows kernel query.goal
      (groundProcess kernel query.goal gain).greedySelector query.horizon p.2) :
    selectorInitial kernel query gain (groundProcess kernel query.goal gain).greedySelector =
      bestInitial kernel query gain := by
  unfold selectorInitial bestInitial
  congr 1
  exact List.map_congr_left fun p hp => by rw [value_greedy (h p hp)]

omit [DecidableEq S] [DecidableEq A] in
theorem selectorInitial_neg (gain : Outcome S → ℚ) (select : Selector S A) :
    selectorInitial kernel query (fun o => -gain o) select =
      -selectorInitial kernel query gain select := by
  simp only [selectorInitial, value_selectorLaw_neg]
  induction query.initialDistribution with
  | nil => simp
  | cons p l ih =>
    simp only [List.map_cons, List.sum_cons, ih]
    ring

/-- The points are policies of their own values, and a deciding selector is below one of them. -/
structure Spanned (kernel : Kernel S A) (query : QuerySpec S) (cover : ℕ → S → Prop)
    (frontier : List (ParetoPoint S A)) : Prop where
  points : ∀ p ∈ frontier,
    (∀ q ∈ query.initialDistribution, Follows kernel query.goal p.policy.select query.horizon q.2) ∧
    p.expectedReward = selectorInitial kernel query
      (fun o => outcomeReward o (rewardWeights query)) p.policy.select ∧
    p.failureProbability = selectorInitial kernel query failureCost p.policy.select
  covers : ∀ select, Decides kernel query.goal cover select →
    (∀ q ∈ query.initialDistribution, Follows kernel query.goal select query.horizon q.2) ∧
    ∃ p ∈ frontier, selectorInitial kernel query
        (fun o => outcomeReward o (rewardWeights query)) select ≤ p.expectedReward ∧
      p.failureProbability ≤ selectorInitial kernel query failureCost select

theorem solveGroundPareto_spanned {cover : ℕ → S → Prop}
    (hclosed : ClosedCover kernel query.goal cover)
    (hinitial : ∀ p ∈ query.initialDistribution, cover query.horizon p.2)
    (h : solveGroundPareto kernel query .none = .ok result) :
    Spanned kernel query cover result.frontier := by
  obtain ⟨-, initial, hvalue, hstates, hsolves⟩ := solveGroundPareto_solves_cover hclosed hinitial
    (by intro k a hl; cases hl) h
  have hfollows : ∀ select : Selector S A,
      (∀ e ∈ initial, Follows kernel query.goal select query.horizon e.1) →
      ∀ p ∈ query.initialDistribution, Follows kernel query.goal select query.horizon p.2 := by
    intro select hf p hp
    obtain ⟨e, he, heq⟩ := List.mem_map.mp ((hstates p.2).mpr (List.mem_map_of_mem hp))
    exact heq ▸ hf e he
  have hmass : ∀ select, massValue kernel query.goal (rewardWeights query) select query.horizon
      initial = (selectorInitial kernel query (fun o => outcomeReward o (rewardWeights query))
        select,
        OrderDual.toDual (selectorInitial kernel query failureCost select)) := by
    intro select
    rw [hvalue]
    simp only [massValue, massSum, List.map_map]
    rfl
  constructor
  · intro p hp
    have hval := (hsolves.value p hp).trans (hmass _)
    rw [ParetoPoint.value, Prod.mk.injEq] at hval
    exact ⟨hfollows _ (hsolves.follows p hp), hval.1, OrderDual.toDual.injective hval.2⟩
  · intro select hdecides
    obtain ⟨hf, p, hp, hle⟩ := hsolves.covers select hdecides (by intro k s a b hl; cases hl)
    rw [hmass] at hle
    exact ⟨hfollows select hf, p, hp, hle.1, hle.2⟩

omit [DecidableEq A] in
theorem Spanned.isGreatest_reward {cover : ℕ → S → Prop} {frontier : List (ParetoPoint S A)}
    (h : Spanned kernel query cover frontier) :
    IsGreatest {r | ∃ p ∈ frontier, p.expectedReward = r}
      (bestInitial kernel query fun o => outcomeReward o (rewardWeights query)) := by
  have hle : ∀ p ∈ frontier, p.expectedReward ≤
      bestInitial kernel query fun o => outcomeReward o (rewardWeights query) := by
    intro p hp
    obtain ⟨hf, hreward, -⟩ := h.points p hp
    exact hreward.trans_le (selectorInitial_le hf)
  refine ⟨?_, ?_⟩
  · obtain ⟨hf, p, hp, hge, -⟩ := h.covers _ (decides_greedy cover)
    rw [selectorInitial_greedy hf] at hge
    exact ⟨p, hp, le_antisymm (hle p hp) hge⟩
  · rintro _ ⟨p, hp, rfl⟩
    exact hle p hp

omit [DecidableEq A] in
theorem Spanned.isLeast_failure {cover : ℕ → S → Prop} {frontier : List (ParetoPoint S A)}
    (h : Spanned kernel query cover frontier) :
    IsLeast {f | ∃ p ∈ frontier, p.failureProbability = f}
      (-bestInitial kernel query fun o => -failureCost o) := by
  have hle : ∀ p ∈ frontier,
      -bestInitial kernel query (fun o => -failureCost o) ≤ p.failureProbability := by
    intro p hp
    obtain ⟨hf, -, hfailure⟩ := h.points p hp
    have hbest : selectorInitial kernel query (fun o => -failureCost o) p.policy.select ≤
        bestInitial kernel query fun o => -failureCost o := selectorInitial_le hf
    rw [selectorInitial_neg] at hbest
    rw [hfailure]
    exact neg_le.mp hbest
  refine ⟨?_, ?_⟩
  · have hdecides : Decides kernel query.goal cover
        (groundProcess kernel query.goal fun o => -failureCost o).greedySelector :=
      decides_greedy cover
    obtain ⟨hf, p, hp, -, hge⟩ := h.covers _ hdecides
    have hgreedy := selectorInitial_greedy hf
    rw [selectorInitial_neg] at hgreedy
    refine ⟨p, hp, le_antisymm ?_ (hle p hp)⟩
    rw [← hgreedy, neg_neg]
    exact hge
  · rintro _ ⟨p, hp, rfl⟩
    exact hle p hp

end Extremes

end Acfqp.Planning
