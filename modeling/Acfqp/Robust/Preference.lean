import Acfqp.Robust.Lazy
import Acfqp.Library.BranchAndBound

/-!
# The order of preference

The choice of the exhaustive solver, in three stages, is the first policy in one order: certified
ones, those within the risk tolerance, and the others. A branch that the prune test leaves out has
no completion before the incumbent.
-/

namespace Acfqp.Robust

open Library

variable {ids : PlannerIds} {threshold : RobustThresholdProfile} {unrestrictedRewardUpper : ℚ}
  {P Q : PolicyEvaluation}

theorem regretTolerance_pos : 0 < normalizedRegretTolerance := by
  norm_num [normalizedRegretTolerance]

/-! ## The three stages -/

def stage (threshold : RobustThresholdProfile) (unrestrictedRewardUpper : ℚ)
    (item : PolicyEvaluation) : ℕ :=
  if meetsTolerances threshold unrestrictedRewardUpper item then 0
  else if riskFeasible threshold item then 1
  else 2

theorem policyOrderKey_certified (h : meetsTolerances threshold unrestrictedRewardUpper P) :
    policyOrderKey ids threshold unrestrictedRewardUpper P =
      toLex (0, toLex (-P.rewardLower, toLex (P.failureUpper, toLex (0, P.policyKey ids)))) :=
  if_pos h

theorem policyOrderKey_feasible (h : ¬ meetsTolerances threshold unrestrictedRewardUpper P)
    (hrisk : riskFeasible threshold P) : policyOrderKey ids threshold unrestrictedRewardUpper P =
      toLex (1, toLex (normalizedRegret threshold unrestrictedRewardUpper P,
        toLex (P.failureUpper, toLex (-P.rewardLower, P.policyKey ids)))) :=
  (if_neg h).trans (if_pos hrisk)

theorem policyOrderKey_risky (hrisk : ¬ riskFeasible threshold P) :
    policyOrderKey ids threshold unrestrictedRewardUpper P =
      toLex (2, toLex (P.failureUpper, toLex (P.failureUpper,
        toLex (-P.rewardLower, P.policyKey ids)))) :=
  (if_neg fun h => hrisk h.1).trans (if_neg hrisk)

theorem policyOrderKey_fst : (ofLex (policyOrderKey ids threshold unrestrictedRewardUpper P)).1 =
    stage threshold unrestrictedRewardUpper P := by
  unfold stage
  by_cases h : meetsTolerances threshold unrestrictedRewardUpper P
  · rw [if_pos h, policyOrderKey_certified h]
    rfl
  · rw [if_neg h]
    by_cases hrisk : riskFeasible threshold P
    · rw [if_pos hrisk, policyOrderKey_feasible h hrisk]
      rfl
    · rw [if_neg hrisk, policyOrderKey_risky hrisk]
      rfl

theorem stage_eq_zero : stage threshold unrestrictedRewardUpper P = 0 ↔
    meetsTolerances threshold unrestrictedRewardUpper P := by
  unfold stage
  split
  · simp [*]
  · split <;> simp [*]

theorem policyOrderKey_le_of_stage
    (h : stage threshold unrestrictedRewardUpper P < stage threshold unrestrictedRewardUpper Q) :
    policyOrderKey ids threshold unrestrictedRewardUpper P ≤
      policyOrderKey ids threshold unrestrictedRewardUpper Q := by
  rw [Prod.Lex.le_iff]
  refine .inl ?_
  rw [policyOrderKey_fst, policyOrderKey_fst]
  exact h

theorem policyKey_of_policyOrderKey (h : policyOrderKey ids threshold unrestrictedRewardUpper P =
    policyOrderKey ids threshold unrestrictedRewardUpper Q) : P.policyKey ids =
      Q.policyKey ids := by
  have hlast : ∀ R : PolicyEvaluation, (ofLex (ofLex (ofLex (ofLex
      (policyOrderKey ids threshold unrestrictedRewardUpper R)).2).2).2).2 = R.policyKey ids := by
    intro R
    unfold policyOrderKey
    dsimp only
    split
    · rfl
    · split <;> rfl
  rw [← hlast P, h, hlast Q]

theorem policyOrderKey_le_of_key (hreward : P.rewardLower = Q.rewardLower)
    (hfailure : P.failureUpper = Q.failureUpper) (hkey : ¬ Q.policyKey ids < P.policyKey ids) :
    policyOrderKey ids threshold unrestrictedRewardUpper P ≤
      policyOrderKey ids threshold unrestrictedRewardUpper Q := by
  have hregret : normalizedRegret threshold unrestrictedRewardUpper P =
      normalizedRegret threshold unrestrictedRewardUpper Q := by
    simp only [normalizedRegret, hreward]
  have hrisk : riskFeasible threshold P ↔ riskFeasible threshold Q := by
    simp only [riskFeasible, hfailure]
  have hle := not_lt.mp hkey
  unfold policyOrderKey
  simp only [hregret, hrisk, hreward, hfailure]
  split
  · simpa [Prod.Lex.toLex_le_toLex] using hle
  · split
    · simpa [Prod.Lex.toLex_le_toLex] using hle
    · simpa [Prod.Lex.toLex_le_toLex] using hle

/-- The three stages of the choice find the first policy, and its status. -/
theorem selectPolicy_first {evaluations : List PolicyEvaluation} {item : PolicyEvaluation}
    {status : RobustAuditStatus}
    (h : selectPolicy ids threshold unrestrictedRewardUpper evaluations = some (item, status)) :
    item ∈ evaluations ∧ (∀ Q ∈ evaluations,
      policyOrderKey ids threshold unrestrictedRewardUpper item ≤
        policyOrderKey ids threshold unrestrictedRewardUpper Q) ∧
      status = if stage threshold unrestrictedRewardUpper item = 0 then .certified
        else .failedProofFrontier := by
  unfold selectPolicy at h
  dsimp only at h
  split at h
  · obtain ⟨best, hbest, heq⟩ := Option.map_eq_some_iff.mp h
    obtain ⟨rfl, rfl⟩ := Prod.mk.inj heq
    obtain ⟨hmem, hmeets⟩ := List.mem_filter.mp (List.argmin_mem hbest)
    have hmeets := of_decide_eq_true hmeets
    refine ⟨hmem, fun Q hQ => ?_, by rw [if_pos (stage_eq_zero.mpr hmeets)]⟩
    by_cases hQmeets : meetsTolerances threshold unrestrictedRewardUpper Q
    · have hle := List.le_of_mem_argmin (List.mem_filter.mpr ⟨hQ, decide_eq_true hQmeets⟩) hbest
      rw [policyOrderKey_certified hmeets, policyOrderKey_certified hQmeets]
      simp only [certifiedKey, Prod.Lex.toLex_le_toLex] at hle ⊢
      simpa using hle
    · refine policyOrderKey_le_of_stage ?_
      rw [stage_eq_zero.mpr hmeets]
      exact Nat.pos_of_ne_zero fun hzero => hQmeets (stage_eq_zero.mp hzero)
  · rename_i hnone
    have hnone : ∀ Q ∈ evaluations, ¬ meetsTolerances threshold unrestrictedRewardUpper Q :=
      fun Q hQ hmeets => hnone (List.ne_nil_of_mem
        (List.mem_filter.mpr ⟨hQ, decide_eq_true hmeets⟩))
    obtain ⟨best, hbest, heq⟩ := Option.map_eq_some_iff.mp h
    obtain ⟨rfl, rfl⟩ := Prod.mk.inj heq
    split at hbest
    · obtain ⟨hmem, hrisk⟩ := List.mem_filter.mp (List.argmin_mem hbest)
      have hrisk := of_decide_eq_true hrisk
      refine ⟨hmem, fun Q hQ => ?_,
        by rw [if_neg fun hzero => hnone _ hmem (stage_eq_zero.mp hzero)]⟩
      by_cases hQrisk : riskFeasible threshold Q
      · have hle := List.le_of_mem_argmin (List.mem_filter.mpr ⟨hQ, decide_eq_true hQrisk⟩) hbest
        rw [policyOrderKey_feasible (hnone _ hmem) hrisk,
          policyOrderKey_feasible (hnone Q hQ) hQrisk]
        simp only [failedKey, Prod.Lex.toLex_le_toLex] at hle ⊢
        simpa using hle
      · refine policyOrderKey_le_of_stage ?_
        rw [stage, if_neg (hnone _ hmem), if_pos hrisk, stage, if_neg (hnone Q hQ), if_neg hQrisk]
        exact Nat.lt_succ_self 1
    · rename_i hrisky
      have hrisky : ∀ Q ∈ evaluations, ¬ riskFeasible threshold Q := fun Q hQ hrisk =>
        hrisky (List.ne_nil_of_mem (List.mem_filter.mpr ⟨hQ, decide_eq_true hrisk⟩))
      have hmem := List.argmin_mem hbest
      refine ⟨hmem, fun Q hQ => ?_,
        by rw [if_neg fun hzero => hnone _ hmem (stage_eq_zero.mp hzero)]⟩
      have hle := List.le_of_mem_argmin hQ hbest
      rw [policyOrderKey_risky (hrisky _ hmem), policyOrderKey_risky (hrisky Q hQ)]
      simp only [failedKey, Prod.Lex.toLex_le_toLex] at hle ⊢
      grind

/-! ## The prune test -/

theorem normalizedRegret_lt (hP : normalizedRegretTolerance <
    normalizedRegret threshold unrestrictedRewardUpper P) (hlt : Q.rewardLower < P.rewardLower) :
    normalizedRegret threshold unrestrictedRewardUpper P <
      normalizedRegret threshold unrestrictedRewardUpper Q := by
  have hpos : 0 < max 0 (unrestrictedRewardUpper - P.rewardLower) := by
    have := regretTolerance_pos.trans hP
    exact (div_pos_iff_of_pos_right threshold.ceiling_pos).mp this
  have hgap : 0 < unrestrictedRewardUpper - P.rewardLower := by
    by_contra hle
    rw [max_eq_left (not_lt.mp hle)] at hpos
    exact lt_irrefl _ hpos
  refine div_lt_div_of_pos_right ?_ threshold.ceiling_pos
  rw [max_eq_right hgap.le]
  exact lt_max_of_lt_right (by linarith)

/-- What a policy of a branch is within. -/
structure Within (ids : PlannerIds) (bounds : CompletionBounds) (P : PolicyEvaluation) : Prop where
  reward : P.rewardLower ≤ bounds.rewardLowerUpperBound
  failure : bounds.failureLowerBound ≤ P.failureUpper
  key : ¬ P.policyKey ids < bounds.minimumPolicyKey

section Prune

variable {bounds : CompletionBounds}

def CompletionBounds.optimisticRegret (bounds : CompletionBounds)
    (threshold : RobustThresholdProfile) (unrestrictedRewardUpper : ℚ) : ℚ :=
  max 0 (unrestrictedRewardUpper - bounds.rewardLowerUpperBound) / threshold.rewardCeiling

theorem Within.riskFeasible (hQ : Within ids bounds Q) (h : riskFeasible threshold Q) :
    bounds.failureLowerBound ≤ threshold.riskTolerance :=
  hQ.failure.trans h

theorem Within.possibleCertificate (hQ : Within ids bounds Q)
    (h : meetsTolerances threshold unrestrictedRewardUpper Q) :
    bounds.failureLowerBound ≤ threshold.riskTolerance ∧
      bounds.optimisticRegret threshold unrestrictedRewardUpper ≤ normalizedRegretTolerance :=
  ⟨hQ.riskFeasible h.1, le_trans (div_le_div_of_nonneg_right
    (max_le_max_left 0 (by linarith [hQ.reward])) threshold.ceiling_pos.le) h.2⟩

/-- Within one stage, a policy that is as good as the bounds of a branch is as good as its
completions. -/
theorem key_le_of_byKey (hQ : Within ids bounds Q)
    (h : ¬ bounds.minimumPolicyKey < P.policyKey ids) :
    P.policyKey ids ≤ Q.policyKey ids :=
  le_trans (not_lt.mp h) (not_lt.mp hQ.key)

theorem canPrune_certified (hP : meetsTolerances threshold unrestrictedRewardUpper P)
    (h : canPrune ids threshold unrestrictedRewardUpper (some P) bounds = true)
    (hQ : Within ids bounds Q) : policyOrderKey ids threshold unrestrictedRewardUpper P ≤
      policyOrderKey ids threshold unrestrictedRewardUpper Q := by
  by_cases hQmeets : meetsTolerances threshold unrestrictedRewardUpper Q
  · have hkey := @key_le_of_byKey ids P Q bounds hQ
    have hreward := hQ.reward
    have hfailure := hQ.failure
    have hpossible := hQ.possibleCertificate hQmeets
    simp only [CompletionBounds.optimisticRegret] at hpossible
    simp only [canPrune, policyOrderKey_fst, stage, hP, if_true, hpossible, decide_true,
      Bool.and_self, not_true, if_false] at h
    rw [policyOrderKey_certified hP, policyOrderKey_certified hQmeets]
    simp only [Prod.Lex.toLex_le_toLex]
    grind
  · refine policyOrderKey_le_of_stage ?_
    rw [stage_eq_zero.mpr hP]
    exact Nat.pos_of_ne_zero fun hzero => hQmeets (stage_eq_zero.mp hzero)

/-- The incumbent is within the risk tolerance only, so that its regret is positive and orders
policies as their rewards do. -/
theorem canPrune_feasible (hP : ¬ meetsTolerances threshold unrestrictedRewardUpper P)
    (hrisk : riskFeasible threshold P)
    (h : canPrune ids threshold unrestrictedRewardUpper (some P) bounds = true)
    (hQ : Within ids bounds Q) : policyOrderKey ids threshold unrestrictedRewardUpper P ≤
      policyOrderKey ids threshold unrestrictedRewardUpper Q := by
  have hstage : stage threshold unrestrictedRewardUpper P = 1 := by simp [stage, hP, hrisk]
  simp only [canPrune, policyOrderKey_fst, hstage] at h
  have hQmeets : ¬ meetsTolerances threshold unrestrictedRewardUpper Q := by
    intro hmeets
    have hpossible := hQ.possibleCertificate hmeets
    simp only [CompletionBounds.optimisticRegret] at hpossible
    simp [hpossible] at h
  by_cases hQrisk : riskFeasible threshold Q
  · have hkey := @key_le_of_byKey ids P Q bounds hQ
    have hreward := hQ.reward
    have hfailure := hQ.failure
    have hpossible := hQ.riskFeasible hQrisk
    have hregret : normalizedRegretTolerance <
        normalizedRegret threshold unrestrictedRewardUpper P :=
      not_le.mp fun hle => hP ⟨hrisk, hle⟩
    have hlt := @normalizedRegret_lt threshold unrestrictedRewardUpper P Q hregret
    have heq : Q.rewardLower = P.rewardLower →
        normalizedRegret threshold unrestrictedRewardUpper P =
          normalizedRegret threshold unrestrictedRewardUpper Q := fun he => by
      simp [normalizedRegret, he]
    rw [policyOrderKey_feasible hP hrisk, policyOrderKey_feasible hQmeets hQrisk]
    simp only [Prod.Lex.toLex_le_toLex]
    grind
  · refine policyOrderKey_le_of_stage ?_
    rw [hstage, stage, if_neg hQmeets, if_neg hQrisk]
    exact Nat.lt_succ_self 1

theorem canPrune_risky (hrisk : ¬ riskFeasible threshold P)
    (h : canPrune ids threshold unrestrictedRewardUpper (some P) bounds = true)
    (hQ : Within ids bounds Q) : policyOrderKey ids threshold unrestrictedRewardUpper P ≤
      policyOrderKey ids threshold unrestrictedRewardUpper Q := by
  have hstage : stage threshold unrestrictedRewardUpper P = 2 := by
    simp [stage, hrisk, meetsTolerances]
  simp only [canPrune, policyOrderKey_fst, hstage] at h
  have hQrisk : ¬ riskFeasible threshold Q := fun hfeasible => by
    simp [hQ.riskFeasible hfeasible] at h
  have hkey := @key_le_of_byKey ids P Q bounds hQ
  have hreward := hQ.reward
  have hfailure := hQ.failure
  rw [policyOrderKey_risky hrisk, policyOrderKey_risky hQrisk]
  simp only [Prod.Lex.toLex_le_toLex]
  grind

/-- A pruned branch has no policy before the incumbent. -/
theorem canPrune_le {incumbent : Option PolicyEvaluation}
    (h : canPrune ids threshold unrestrictedRewardUpper incumbent bounds = true)
    (hQ : Within ids bounds Q) : ∃ P ∈ incumbent,
      policyOrderKey ids threshold unrestrictedRewardUpper P ≤
        policyOrderKey ids threshold unrestrictedRewardUpper Q := by
  cases incumbent with
  | none => cases h
  | some P =>
    refine ⟨P, rfl, ?_⟩
    by_cases hmeets : meetsTolerances threshold unrestrictedRewardUpper P
    · exact canPrune_certified hmeets h hQ
    · by_cases hrisk : riskFeasible threshold P
      · exact canPrune_feasible hmeets hrisk h hQ
      · exact canPrune_risky hrisk h hQ

end Prune

end Acfqp.Robust
