import Acfqp.Library.Bellman
import Acfqp.Planning.Ground

/-!
# Meaning of a policy evaluation

The memoized evaluator computes a direct recursion, and the direct recursion is the value of
the law that the policy induces on the kernel, once for the rewards and once for the failures.
-/

namespace Acfqp.Planning

open Library

variable {S A : Type}

/-! ## Outcomes as branches -/

def outcomeBranch (kernel : Kernel S A) (goal : String) (gain : Outcome S → ℚ) (o : Outcome S) :
    Branch ℚ S :=
  ⟨o.probability, gain o, if outcomeStopped kernel goal o then none else some o.nextState⟩

def outcomeBranches (kernel : Kernel S A) (goal : String) (gain : Outcome S → ℚ)
    (outcomes : List (Outcome S)) : List (Branch ℚ S) :=
  outcomes.map (outcomeBranch kernel goal gain)

theorem weight_outcomeBranches {kernel : Kernel S A} {goal : String} {gain : Outcome S → ℚ}
    {outcomes : List (Outcome S)} :
    ∀ b ∈ outcomeBranches kernel goal gain outcomes, 0 ≤ b.weight := by
  intro b hb
  obtain ⟨o, -, rfl⟩ := List.mem_map.mp hb
  exact o.probability_pos.le

theorem next_outcomeBranches {kernel : Kernel S A} {goal : String} {gain : Outcome S → ℚ}
    {outcomes : List (Outcome S)} {b : Branch ℚ S}
    (hb : b ∈ outcomeBranches kernel goal gain outcomes) {t : S} (ht : b.next = some t) :
    ∃ o ∈ outcomes, outcomeStopped kernel goal o = false ∧ o.nextState = t := by
  obtain ⟨o, ho, rfl⟩ := List.mem_map.mp hb
  unfold outcomeBranch at ht
  by_cases hs : outcomeStopped kernel goal o = true
  · simp [hs] at ht
  · simp only [hs, Bool.false_eq_true, if_false, Option.some.injEq] at ht
    exact ⟨o, ho, by simpa using hs, ht⟩

theorem backup_outcomeBranches (kernel : Kernel S A) (goal : String) (gain : Outcome S → ℚ)
    (outcomes : List (Outcome S)) (V : S → ℚ) :
    backup (outcomeBranches kernel goal gain outcomes) V = (outcomes.map fun o =>
      o.probability * (gain o + if outcomeStopped kernel goal o then 0 else V
        o.nextState)).sum := by
  rw [backup, outcomeBranches, List.map_map]
  congr 1
  refine List.map_congr_left fun o _ => ?_
  by_cases hs : outcomeStopped kernel goal o = true <;> simp [Branch.gain, outcomeBranch, hs]

theorem failureCost_of_active {kernel : Kernel S A} {goal : String} {o : Outcome S}
    (h : outcomeStopped kernel goal o = false) : failureCost o = 0 := by
  have hf : o.failure = false := by
    simp only [outcomeStopped, Bool.or_eq_false_iff] at h
    exact h.1.1
  simp [failureCost, hf]

/-! ## The law of a selector -/

/-- A selector takes at most one action at every state-time pair. -/
abbrev Selector (S A : Type) := ℕ → S → Option A

def FiniteHorizonPolicy.select [DecidableEq S] [PyRepr S] (policy : FiniteHorizonPolicy S A) :
    Selector S A := fun n s => (policy.action s n).toOption

theorem FiniteHorizonPolicy.select_eq_some [DecidableEq S] [PyRepr S]
    {policy : FiniteHorizonPolicy S A} {n : ℕ} {s : S} {a : A} :
    policy.select n s = some a ↔ policy.action s n = .ok a := by
  unfold FiniteHorizonPolicy.select
  cases policy.action s n <;> simp [Except.toOption]

theorem select_fromMapping [DecidableEq S] [PyRepr S] [PyRepr A]
    {mapping : List ((ℕ × S) × A)} {policy : FiniteHorizonPolicy S A}
    (h : FiniteHorizonPolicy.fromMapping mapping = .ok policy) {n : ℕ} {s : S} {a : A} :
    policy.select n s = some a ↔ ((n, s), a) ∈ mapping := by
  rw [FiniteHorizonPolicy.select_eq_some, FiniteHorizonPolicy.action_eq_ok,
    FiniteHorizonPolicy.mem_asDict_of_fromMapping h]

theorem mem_asDict_iff_select [DecidableEq S] [PyRepr S] {policy : FiniteHorizonPolicy S A}
    {n : ℕ} {s : S} {a : A} : ((n, s), a) ∈ policy.asDict ↔ policy.select n s = some a := by
  rw [FiniteHorizonPolicy.select_eq_some, FiniteHorizonPolicy.action_eq_ok]

section Laws

variable [PyRepr S] [PyRepr A]

/-- One step of the process that a selector induces on the kernel, seen through a channel. -/
def selectorLaw (kernel : Kernel S A) (goal : String) (gain : Outcome S → ℚ)
    (select : Selector S A) : Law ℚ S := fun n s =>
  if isStopped kernel s goal then none
  else
    match kernel.actions s with
    | .ok (_ :: _) => (select n s).bind fun a =>
        (iterOutcomes kernel s a).toOption.map (outcomeBranches kernel goal gain)
    | _ => none

/-- The pair takes no decision. -/
def Idle (kernel : Kernel S A) (goal : String) (s : S) : Prop :=
  isStopped kernel s goal = true ∨ kernel.actions s = .ok []

/-- The selector takes the action `a`, whose outcomes are `outcomes`. -/
structure Takes (kernel : Kernel S A) (goal : String) (select : Selector S A) (n : ℕ) (s : S)
    (a : A) (outcomes : List (Outcome S)) : Prop where
  active : isStopped kernel s goal = false
  available : ∃ actions, kernel.actions s = .ok actions ∧ a ∈ actions
  selected : select n s = some a
  outcomes : iterOutcomes kernel s a = .ok outcomes

/-- The selector takes an available action at the pair and at every pair reachable from it. -/
def Follows (kernel : Kernel S A) (goal : String) (select : Selector S A) : ℕ → S → Prop
  | 0, _ => True
  | n + 1, s => Idle kernel goal s ∨ ∃ a outcomes, Takes kernel goal select (n + 1) s a outcomes ∧
      ∀ o ∈ outcomes, outcomeStopped kernel goal o = false →
        Follows kernel goal select n o.nextState

variable {kernel : Kernel S A} {goal : String} {gain : Outcome S → ℚ} {select : Selector S A}
  {n : ℕ} {s : S} {a : A} {outcomes : List (Outcome S)}

theorem selectorLaw_idle (h : Idle kernel goal s) :
    selectorLaw kernel goal gain select n s = none := by
  rcases h with h | h
  · simp [selectorLaw, h]
  · simp [selectorLaw, h]

theorem selectorLaw_takes (h : Takes kernel goal select n s a outcomes) :
    selectorLaw kernel goal gain select n s = some (outcomeBranches kernel goal gain outcomes) := by
  obtain ⟨actions, hactions, ha⟩ := h.available
  cases actions with
  | nil => simp at ha
  | cons b bs =>
    simp [selectorLaw, h.active, hactions, h.selected, h.outcomes, Except.toOption]

theorem Takes.not_idle (h : Takes kernel goal select n s a outcomes) : ¬ Idle kernel goal s := by
  rintro (hs | hs)
  · simp [h.active] at hs
  · obtain ⟨actions, hactions, ha⟩ := h.available
    rw [hs] at hactions
    cases hactions
    simp at ha

theorem value_idle (h : Idle kernel goal s) :
    value (selectorLaw kernel goal gain select) n s = 0 := by
  cases n with
  | zero => rfl
  | succ n => exact value_stopped (selectorLaw_idle h)

theorem value_takes (h : Takes kernel goal select (n + 1) s a outcomes) :
    value (selectorLaw kernel goal gain select) (n + 1) s =
      backup (outcomeBranches kernel goal gain outcomes)
        (value (selectorLaw kernel goal gain select) n) :=
  value_step (selectorLaw_takes h)

theorem Follows.takes_of_law {bs : List (Branch ℚ S)}
    (h : Follows kernel goal select (n + 1) s)
    (hlaw : selectorLaw kernel goal gain select (n + 1) s = some bs) :
    ∃ a outcomes, Takes kernel goal select (n + 1) s a outcomes ∧
      bs = outcomeBranches kernel goal gain outcomes ∧
      ∀ o ∈ outcomes, outcomeStopped kernel goal o = false →
        Follows kernel goal select n o.nextState := by
  rcases h with hidle | ⟨a, outcomes, ht, hf⟩
  · rw [selectorLaw_idle hidle] at hlaw
    cases hlaw
  · rw [selectorLaw_takes ht] at hlaw
    exact ⟨a, outcomes, ht, (Option.some.inj hlaw).symm, hf⟩

theorem Follows.idle_of_law (h : Follows kernel goal select (n + 1) s)
    (hlaw : selectorLaw kernel goal gain select (n + 1) s = none) : Idle kernel goal s := by
  rcases h with hidle | ⟨a, outcomes, ht, -⟩
  · exact hidle
  · rw [selectorLaw_takes ht] at hlaw
    cases hlaw

/-- Selectors that agree wherever the first one acts give the same followed process. -/
theorem Follows.congr (kernel : Kernel S A) (goal : String) (select select' : Selector S A)
    (P : ℕ → S → Prop)
    (hclosed : ∀ n s a outcomes, P (n + 1) s → Takes kernel goal select (n + 1) s a outcomes →
      ∀ o ∈ outcomes, outcomeStopped kernel goal o = false → P n o.nextState)
    (hagree : ∀ n s a outcomes, P (n + 1) s → Takes kernel goal select (n + 1) s a outcomes →
      select' (n + 1) s = some a) :
    ∀ n s, P n s → Follows kernel goal select n s → Follows kernel goal select' n s ∧
      ∀ gain, value (selectorLaw kernel goal gain select') n s =
        value (selectorLaw kernel goal gain select) n s := by
  intro n
  induction n with
  | zero => exact fun s _ _ => ⟨trivial, fun _ => rfl⟩
  | succ n ih =>
    rintro s hP (hidle | ⟨a, outcomes, ht, hf⟩)
    · exact ⟨.inl hidle, fun gain => by rw [value_idle hidle, value_idle hidle]⟩
    · have ht' : Takes kernel goal select' (n + 1) s a outcomes :=
        { ht with selected := hagree n s a outcomes hP ht }
      have hnext := fun o ho hs =>
        ih o.nextState (hclosed n s a outcomes hP ht o ho hs) (hf o ho hs)
      refine ⟨.inr ⟨a, outcomes, ht', fun o ho hs => (hnext o ho hs).1⟩, fun gain => ?_⟩
      rw [value_takes ht, value_takes ht']
      refine backup_congr fun b hb t hbt => ?_
      obtain ⟨o, ho, hs, rfl⟩ := next_outcomeBranches hb hbt
      exact (hnext o ho hs).2 gain

end Laws

/-! ## The evaluator computes the values of the law -/

section

variable [DecidableEq S] [PyRepr S] [DecidableEq A] [PyRepr A] {kernel : Kernel S A}
  {goal : String} {weights : Features} {policy : FiniteHorizonPolicy S A}

/-- `evaluate_state` without its memo table. -/
def evaluateDirect (kernel : Kernel S A) (goal : String) (weights : Features)
    (policy : FiniteHorizonPolicy S A) : ℕ → S → Except PyError PolicyEvaluation
  | 0, _ => .ok ⟨0, 0⟩
  | n + 1, state => evaluateStage kernel goal weights policy (n + 1)
      (evaluateDirect kernel goal weights policy n) state

theorem evaluateStage_computes {σ : Type} {I : σ → Prop} {n : ℕ}
    {f : S → StateT σ (Except PyError) PolicyEvaluation} {g : S → Except PyError PolicyEvaluation}
    (h : ∀ s, Computes I (f s) (g s)) (s : S) :
    Computes I (evaluateStage kernel goal weights policy n f s)
      (evaluateStage kernel goal weights policy n g s) := by
  unfold evaluateStage
  split
  · exact .pure
  · refine .bind .lift fun actions _ => ?_
    split
    · exact .pure
    · refine .bind .lift fun action _ => .bind .lift fun _ _ => .bind .lift fun outcomes _ => ?_
      refine .bind (.mapM fun o _ => ?_) fun _ _ => .pure
      split
      · exact .pure
      · exact .bind (h _) fun _ _ => .pure

theorem evaluateState_computes (n : ℕ) (s : S) :
    Computes (fun t => Agrees (fun k : ℕ × S => evaluateDirect kernel goal weights policy k.1 k.2)
        t.1 ∧ True)
      (evaluateState kernel goal weights policy n s)
      (evaluateDirect kernel goal weights policy n s) := by
  induction n generalizing s with
  | zero => exact Computes.memoize (J := fun _ => True) .pure
  | succ n ih => exact Computes.memoize (J := fun _ => True) (evaluateStage_computes ih s)

def selectorValue (kernel : Kernel S A) (goal : String) (weights : Features)
    (select : Selector S A) (n : ℕ) (s : S) : PolicyEvaluation :=
  ⟨value (selectorLaw kernel goal (fun o => outcomeReward o weights) select) n s,
    value (selectorLaw kernel goal failureCost select) n s⟩

theorem evaluateStage_eq_ok {n : ℕ} {s : S} {v : PolicyEvaluation}
    {continuation : S → Except PyError PolicyEvaluation}
    (h : evaluateStage kernel goal weights policy n continuation s = .ok v) :
    Idle kernel goal s ∧ v = ⟨0, 0⟩ ∨
      ∃ a outcomes, Takes kernel goal policy.select n s a outcomes ∧
        ∃ next : S → PolicyEvaluation,
          (∀ o ∈ outcomes, outcomeStopped kernel goal o = false →
            continuation o.nextState = .ok (next o.nextState)) ∧
          v = ⟨backup (outcomeBranches kernel goal (fun o => outcomeReward o weights) outcomes)
              (fun t => (next t).expectedReward),
            backup (outcomeBranches kernel goal failureCost outcomes)
              (fun t => (next t).failureProbability)⟩ := by
  unfold evaluateStage at h
  split at h
  · exact .inl ⟨.inl ‹_›, (pure_eq_ok.mp h).symm⟩
  · rename_i hstop
    obtain ⟨actions, hactions, h⟩ := bind_eq_ok.mp h
    split at h
    · rename_i hnil
      exact .inl ⟨.inr (hnil ▸ hactions), (pure_eq_ok.mp h).symm⟩
    · right
      obtain ⟨a, ha, h⟩ := bind_eq_ok.mp h
      obtain ⟨_, hmem, h⟩ := bind_eq_ok.mp h
      obtain ⟨outcomes, hout, h⟩ := bind_eq_ok.mp h
      obtain ⟨branches, hbranches, h⟩ := bind_eq_ok.mp h
      let next : S → PolicyEvaluation := fun t => (continuation t).toOption.getD ⟨0, 0⟩
      have hnext : ∀ o ∈ outcomes, outcomeStopped kernel goal o = false →
          continuation o.nextState = .ok (next o.nextState) := by
        intro o ho hs
        obtain ⟨b, -, hb⟩ := exists_of_mapM hbranches ho
        rw [hs] at hb
        obtain ⟨v, hv, -⟩ := bind_eq_ok.mp hb
        simp [next, hv, Except.toOption]
      have hpair : branches.map id = outcomes.map fun o =>
          (o.probability * (outcomeReward o weights +
              if outcomeStopped kernel goal o then 0 else (next o.nextState).expectedReward),
            o.probability * (failureCost o +
              if outcomeStopped kernel goal
                o then 0 else (next o.nextState).failureProbability)) := by
        refine map_of_mapM hbranches fun o ho b hb => ?_
        by_cases hs : outcomeStopped kernel goal o = true
        · rw [if_pos hs] at hb
          simp [← pure_eq_ok.mp hb, hs]
        · rw [if_neg hs] at hb
          obtain ⟨v, hv, hb⟩ := bind_eq_ok.mp hb
          have hs' : outcomeStopped kernel goal o = false := by simpa using hs
          have hvn : next o.nextState = v := by
            have := hnext o ho hs'
            rw [hv] at this
            exact (Except.ok.inj this).symm
          simp [← pure_eq_ok.mp hb, hs', hvn, failureCost_of_active hs']
      have hactive : isStopped kernel s goal = false := by simpa using hstop
      refine ⟨a, outcomes, ⟨hactive, ⟨actions, hactions, require_eq_ok.mp hmem⟩,
        FiniteHorizonPolicy.select_eq_some.mpr ha, hout⟩, next, hnext, ?_⟩
      rw [List.map_id] at hpair
      rw [← pure_eq_ok.mp h, hpair, backup_outcomeBranches, backup_outcomeBranches]
      simp [List.map_map, Function.comp_def]

theorem evaluateStage_returns {n : ℕ} {s : S}
    {continuation : S → Except PyError PolicyEvaluation}
    (h : Idle kernel goal s ∨ ∃ a outcomes, Takes kernel goal policy.select n s a outcomes ∧
      ∀ o ∈ outcomes, outcomeStopped kernel goal o = false →
        ∃ v, continuation o.nextState = .ok v) :
    ∃ v, evaluateStage kernel goal weights policy n continuation s = .ok v := by
  unfold evaluateStage
  by_cases hstop : isStopped kernel s goal = true
  · exact ⟨⟨0, 0⟩, by rw [if_pos hstop]; rfl⟩
  · rw [if_neg hstop]
    rcases h with (hs | hs) | ⟨a, outcomes, ht, hcont⟩
    · exact absurd hs hstop
    · exact ⟨⟨0, 0⟩, bind_eq_ok.mpr ⟨[], hs, rfl⟩⟩
    · obtain ⟨actions, hactions, ha⟩ := ht.available
      have hbranch : ∀ o ∈ outcomes, ∃ b : ℚ × ℚ,
          (if outcomeStopped kernel goal o = true then
            pure (o.probability * outcomeReward o weights, o.probability * failureCost o)
          else do
            let value ← continuation o.nextState
            pure (o.probability * (outcomeReward o weights + value.expectedReward),
              o.probability * value.failureProbability) : Except PyError (ℚ × ℚ)) = .ok b := by
        intro o ho
        by_cases hs : outcomeStopped kernel goal o = true
        · exact ⟨_, by rw [if_pos hs]; rfl⟩
        · obtain ⟨v, hv⟩ := hcont o ho (by simpa using hs)
          exact ⟨_, by rw [if_neg hs, hv]; rfl⟩
      obtain ⟨branches, hbranches⟩ := mapM_returns hbranch
      refine ⟨⟨(branches.map Prod.fst).sum, (branches.map Prod.snd).sum⟩,
        bind_eq_ok.mpr ⟨actions, hactions, ?_⟩⟩
      rw [if_neg (List.ne_nil_of_mem ha)]
      refine bind_eq_ok.mpr ⟨a, FiniteHorizonPolicy.select_eq_some.mp ht.selected, ?_⟩
      refine bind_eq_ok.mpr ⟨(), require_eq_ok.mpr ha, ?_⟩
      exact bind_eq_ok.mpr ⟨outcomes, ht.outcomes, bind_eq_ok.mpr ⟨branches, hbranches, rfl⟩⟩

/-- The direct recursion returns exactly where the policy is followed, with the law's values. -/
theorem evaluateDirect_eq_ok {n : ℕ} {s : S} {v : PolicyEvaluation} :
    evaluateDirect kernel goal weights policy n s = .ok v ↔
      Follows kernel goal policy.select n s ∧
        v = selectorValue kernel goal weights policy.select n s := by
  induction n generalizing s v with
  | zero => simp [evaluateDirect, Follows, selectorValue, eq_comm]
  | succ n ih =>
    have forward : ∀ {v}, evaluateDirect kernel goal weights policy (n + 1) s = .ok v →
        Follows kernel goal policy.select (n + 1) s ∧
          v = selectorValue kernel goal weights policy.select (n + 1) s := by
      intro v h
      rcases evaluateStage_eq_ok h with ⟨hidle, rfl⟩ | ⟨a, outcomes, ht, next, hnext, rfl⟩
      · exact ⟨.inl hidle, by simp [selectorValue, value_idle hidle]⟩
      · have hv := fun o ho hs => ih.mp (hnext o ho hs)
        refine ⟨.inr ⟨a, outcomes, ht, fun o ho hs => (hv o ho hs).1⟩, ?_⟩
        rw [selectorValue, value_takes ht, value_takes ht]
        congr 1
        · refine backup_congr fun b hb t hbt => ?_
          obtain ⟨o, ho, hs, rfl⟩ := next_outcomeBranches hb hbt
          rw [(hv o ho hs).2, selectorValue]
        · refine backup_congr fun b hb t hbt => ?_
          obtain ⟨o, ho, hs, rfl⟩ := next_outcomeBranches hb hbt
          rw [(hv o ho hs).2, selectorValue]
    refine ⟨forward, ?_⟩
    rintro ⟨hf, rfl⟩
    have hreturns : ∃ v, evaluateDirect kernel goal weights policy (n + 1) s = .ok v := by
      refine evaluateStage_returns (hf.imp_right ?_)
      rintro ⟨a, outcomes, ht, hnext⟩
      exact ⟨a, outcomes, ht, fun o ho hs => ⟨_, ih.mpr ⟨hnext o ho hs, rfl⟩⟩⟩
    obtain ⟨v, hv⟩ := hreturns
    rw [hv, (forward hv).2]

def expectedValue (kernel : Kernel S A) (goal : String) (weights : Features)
    (select : Selector S A) (n : ℕ) (initial : List (ℚ × S)) : PolicyEvaluation :=
  ⟨(initial.map fun p => p.1 * (selectorValue kernel goal weights select n p.2).expectedReward).sum,
    (initial.map fun p =>
      p.1 * (selectorValue kernel goal weights select n p.2).failureProbability).sum⟩

theorem evaluateStates_eq (n : ℕ) (initial : List (ℚ × S)) :
    (initial.mapM fun p : ℚ × S => do
      let value ← evaluateState kernel goal weights policy n p.2
      pure (p.1 * value.expectedReward, p.1 * value.failureProbability) :
        StateT _ (Except PyError) (List (ℚ × ℚ))).run' ([], ()) =
    (initial.mapM fun p : ℚ × S => do
      let value ← evaluateDirect kernel goal weights policy n p.2
      pure (p.1 * value.expectedReward, p.1 * value.failureProbability) :
        Except PyError (List (ℚ × ℚ))) := by
  refine Computes.run' (I := fun t => Agrees (fun k : ℕ × S =>
    evaluateDirect kernel goal weights policy k.1 k.2) t.1 ∧ True) ?_ ⟨by simp [Agrees], trivial⟩
  exact .mapM fun p _ => .bind (evaluateState_computes n p.2) fun _ _ => .pure

/-- A policy evaluation returns exactly when the query is valid and the policy is followed from
every initial state, and it returns the values of the policy's law. -/
theorem evaluateGroundPolicy_eq_ok {query : QuerySpec S} {v : PolicyEvaluation} :
    evaluateGroundPolicy kernel query policy = .ok v ↔
      validateQuery kernel query = .ok () ∧
      (∀ p ∈ query.initialDistribution,
        Follows kernel query.goal policy.select query.horizon p.2) ∧
      v = expectedValue kernel query.goal (rewardWeights query) policy.select query.horizon
        query.initialDistribution := by
  have hmap : ∀ values : List (ℚ × ℚ),
      (query.initialDistribution.mapM fun p : ℚ × S => do
        let value ← evaluateDirect kernel query.goal (rewardWeights query) policy query.horizon p.2
        pure (p.1 * value.expectedReward, p.1 * value.failureProbability) :
          Except PyError (List (ℚ × ℚ))) = .ok values ↔
      (∀ p ∈ query.initialDistribution,
        Follows kernel query.goal policy.select query.horizon p.2) ∧
      values = query.initialDistribution.map fun p =>
        (p.1 * (selectorValue kernel query.goal (rewardWeights query) policy.select
            query.horizon p.2).expectedReward,
          p.1 * (selectorValue kernel query.goal (rewardWeights query) policy.select
            query.horizon p.2).failureProbability) := by
    intro values
    constructor
    · intro h
      have hfollows : ∀ p ∈ query.initialDistribution,
          Follows kernel query.goal policy.select query.horizon p.2 := by
        intro p hp
        obtain ⟨y, -, hy⟩ := exists_of_mapM h hp
        obtain ⟨value, hvalue, -⟩ := bind_eq_ok.mp hy
        exact (evaluateDirect_eq_ok.mp hvalue).1
      refine ⟨hfollows, ?_⟩
      rw [← List.map_id values]
      refine map_of_mapM h fun p _ y hy => ?_
      obtain ⟨value, hvalue, hy⟩ := bind_eq_ok.mp hy
      rw [← pure_eq_ok.mp hy, (evaluateDirect_eq_ok.mp hvalue).2]
      rfl
    · rintro ⟨hfollows, rfl⟩
      exact mapM_of_forall fun p hp => bind_eq_ok.mpr
        ⟨_, evaluateDirect_eq_ok.mpr ⟨hfollows p hp, rfl⟩, rfl⟩
  constructor
  · intro h
    obtain ⟨⟨⟩, hvalid, h⟩ := bind_eq_ok.mp h
    obtain ⟨horizon, hhorizon, h⟩ := bind_eq_ok.mp h
    obtain rfl := queryHorizon_eq_ok hhorizon
    obtain ⟨initial, hinitial, h⟩ := bind_eq_ok.mp h
    rw [queryInitialDistribution_eq] at hinitial
    cases hinitial
    obtain ⟨values, hvalues, h⟩ := bind_eq_ok.mp h
    rw [evaluateStates_eq] at hvalues
    obtain ⟨hfollows, rfl⟩ := (hmap values).mp hvalues
    refine ⟨hvalid, hfollows, ?_⟩
    rw [← pure_eq_ok.mp h]
    simp [expectedValue, List.map_map, Function.comp_def]
  · rintro ⟨hvalid, hfollows, rfl⟩
    refine bind_eq_ok.mpr ⟨(), hvalid, ?_⟩
    refine bind_eq_ok.mpr ⟨query.horizon, queryHorizon_of_valid hvalid, ?_⟩
    refine bind_eq_ok.mpr ⟨_, queryInitialDistribution_eq kernel query, ?_⟩
    refine bind_eq_ok.mpr ⟨_, (evaluateStates_eq ..).trans ((hmap _).mpr ⟨hfollows, rfl⟩), ?_⟩
    simp [expectedValue, List.map_map, Function.comp_def]

end

end Acfqp.Planning
