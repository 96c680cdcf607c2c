import Acfqp.Planning.AuditBounds
import Acfqp.Planning.Exactness

/-!
# Bounds that one step respects

Bounds on the states that one step of a selector's process respects are bounds on its values:
`Subsolution` and `Supersolution` carry them over the horizon.
-/

namespace Acfqp.Planning

open Library

variable {S A : Type} [PyRepr S] [PyRepr A] {kernel : Kernel S A} {goal : String}
  {weights : Features} {select : Selector S A} {bound : ℕ → S → Option (ℚ × ℚ)}

/-- Lower rewards and upper failures that one step of a selector's process respects. -/
structure StepBounds (kernel : Kernel S A) (goal : String) (weights : Features)
    (select : Selector S A) (bound : ℕ → S → Option (ℚ × ℚ)) : Prop where
  zero : ∀ s b, bound 0 s = some b → b.1 ≤ 0 ∧ 0 ≤ b.2
  idle : ∀ n s b, bound (n + 1) s = some b → Idle kernel goal s → b.1 ≤ 0 ∧ 0 ≤ b.2
  step : ∀ n s b a outcomes, bound (n + 1) s = some b →
    Takes kernel goal select (n + 1) s a outcomes → ∃ next : S → ℚ × ℚ,
      (∀ o ∈ outcomes, outcomeStopped kernel goal o = false →
        bound n o.nextState = some (next o.nextState)) ∧
      b.1 ≤ backup (outcomeBranches kernel goal (fun o => outcomeReward o weights) outcomes)
        (fun t => (next t).1) ∧
      backup (outcomeBranches kernel goal failureCost outcomes) (fun t => (next t).2) ≤ b.2

def Bounded (kernel : Kernel S A) (goal : String) (select : Selector S A)
    (bound : ℕ → S → Option (ℚ × ℚ)) (n : ℕ) (s : S) : Prop :=
  Follows kernel goal select n s ∧ ∃ b, bound n s = some b

namespace StepBounds

/-- A bounded pair continues into bounded pairs, and its bound is below one backup. -/
theorem backup_le (h : StepBounds kernel goal weights select bound) {n : ℕ} {s : S}
    (hs : Bounded kernel goal select bound (n + 1) s) {a : A} {outcomes : List (Outcome S)}
    (ht : Takes kernel goal select (n + 1) s a outcomes) :
    (∀ o ∈ outcomes, outcomeStopped kernel goal o = false → ∃ b, bound n o.nextState = some b) ∧
    ((bound (n + 1) s).getD 0).1 ≤
      backup (outcomeBranches kernel goal (fun o => outcomeReward o weights) outcomes)
        (fun t => ((bound n t).getD 0).1) ∧
    backup (outcomeBranches kernel goal failureCost outcomes) (fun t => ((bound n t).getD 0).2) ≤
      ((bound (n + 1) s).getD 0).2 := by
  obtain ⟨-, b, hb⟩ := hs
  obtain ⟨next, hnext, hlo, hhi⟩ := h.step n s b a outcomes hb ht
  have hsame : ∀ (p : ℚ × ℚ → ℚ) (gain : Outcome S → ℚ),
      backup (outcomeBranches kernel goal gain outcomes) (fun t => p (next t)) =
        backup (outcomeBranches kernel goal gain outcomes) (fun t => p ((bound n t).getD 0)) := by
    intro p gain
    refine backup_congr fun br hbr t ht' => ?_
    obtain ⟨o, ho, hs', rfl⟩ := next_outcomeBranches hbr ht'
    rw [hnext o ho hs', Option.getD_some]
  rw [hb, Option.getD_some, ← hsame Prod.fst, ← hsame Prod.snd]
  exact ⟨fun o ho hs' => ⟨_, hnext o ho hs'⟩, hlo, hhi⟩

theorem closed (h : StepBounds kernel goal weights select bound) {n : ℕ} {s : S}
    {gain : Outcome S → ℚ} {bs : List (Branch ℚ S)}
    (hs : Bounded kernel goal select bound (n + 1) s)
    (hlaw : selectorLaw kernel goal gain select (n + 1) s = some bs) :
    ∀ b ∈ bs, ∀ t, b.next = some t → Bounded kernel goal select bound n t := by
  obtain ⟨a, outcomes, ht, rfl, hf⟩ := hs.1.takes_of_law hlaw
  intro b hb t hbt
  obtain ⟨o, ho, hs', rfl⟩ := next_outcomeBranches hb hbt
  exact ⟨hf o ho hs', (h.backup_le hs ht).1 o ho hs'⟩

theorem subsolution (h : StepBounds kernel goal weights select bound) :
    Subsolution (selectorLaw kernel goal (fun o => outcomeReward o weights) select)
      (Bounded kernel goal select bound) (fun n s => ((bound n s).getD 0).1) where
  zero := by
    rintro s ⟨-, b, hb⟩
    rw [hb]
    exact (h.zero s b hb).1
  stopped := by
    rintro n s ⟨hf, b, hb⟩ hlaw
    rw [hb]
    exact (h.idle n s b hb (hf.idle_of_law hlaw)).1
  weight_nonneg := by
    intro n s bs hs hlaw
    obtain ⟨a, outcomes, -, rfl, -⟩ := hs.1.takes_of_law hlaw
    exact weight_outcomeBranches
  closed := fun n s bs hs hlaw => h.closed hs hlaw
  step := by
    intro n s bs hs hlaw
    obtain ⟨a, outcomes, ht, rfl, -⟩ := hs.1.takes_of_law hlaw
    exact (h.backup_le hs ht).2.1

theorem supersolution (h : StepBounds kernel goal weights select bound) :
    Supersolution (selectorLaw kernel goal failureCost select) (Bounded kernel goal select bound)
      (fun n s => ((bound n s).getD 0).2) where
  zero := by
    rintro s ⟨-, b, hb⟩
    rw [hb]
    exact (h.zero s b hb).2
  stopped := by
    rintro n s ⟨hf, b, hb⟩ hlaw
    rw [hb]
    exact (h.idle n s b hb (hf.idle_of_law hlaw)).2
  weight_nonneg := by
    intro n s bs hs hlaw
    obtain ⟨a, outcomes, -, rfl, -⟩ := hs.1.takes_of_law hlaw
    exact weight_outcomeBranches
  closed := fun n s bs hs hlaw => h.closed hs hlaw
  step := by
    intro n s bs hs hlaw
    obtain ⟨a, outcomes, ht, rfl, -⟩ := hs.1.takes_of_law hlaw
    exact (h.backup_le hs ht).2.2

/-- A bound that steps respect holds for the value of a followed pair. -/
theorem sound (h : StepBounds kernel goal weights select bound) {n : ℕ} {s : S} {b : ℚ × ℚ}
    (hf : Follows kernel goal select n s) (hb : bound n s = some b) :
    b.1 ≤ (selectorValue kernel goal weights select n s).expectedReward ∧
      (selectorValue kernel goal weights select n s).failureProbability ≤ b.2 := by
  have hs : Bounded kernel goal select bound n s := ⟨hf, b, hb⟩
  constructor
  · have hlow := h.subsolution.le_value n s hs
    rwa [hb] at hlow
  · have hhigh := h.supersolution.value_le n s hs
    rwa [hb] at hhigh

end StepBounds

end Acfqp.Planning

/-!
## Soundness of audits

The lower and upper bounds of a cell hold for every member, whatever horizon remains, because one
step of the lifted process respects them. The upper envelope is above every ground policy.
-/

namespace Acfqp.Planning

open Library Abstraction

variable {S A C L : Type}

section Lifted

variable [DecidableEq S] [PyRepr S] [DecidableEq A] [PyRepr A] [DecidableEq C] [PyRepr C]
  [DecidableEq L] [PyRepr L] {kernel : Kernel S A} {query : QuerySpec S}
  {partition : Partition S C} {policy : FiniteHorizonPolicy C L} {adapter : SemanticAdapter S A L}

theorem select_liftSemantic {lifted : FiniteHorizonPolicy S L}
    (h : liftSemanticPolicyDecisions kernel query partition policy adapter = .ok lifted) {n : ℕ}
    {s : S} {label : L} (hl : lifted.select n s = some label) :
    ∃ c, partition.cellOf s = .ok c ∧ policy.action c n = .ok label := by
  obtain ⟨_, -, h⟩ := bind_eq_ok.mp h
  obtain ⟨horizon, -, h⟩ := bind_eq_ok.mp h
  obtain ⟨initial, -, h⟩ := bind_eq_ok.mp h
  obtain ⟨trail, htrail, h⟩ := bind_eq_ok.mp h
  obtain ⟨next, hexpand⟩ := exploreAll_emitted htrail ((select_fromMapping h).mp hl)
  unfold expandSemantic at hexpand
  dsimp only at hexpand
  split at hexpand
  · cases hexpand
  · obtain ⟨labels, -, hexpand⟩ := bind_eq_ok.mp hexpand
    split at hexpand
    · obtain ⟨_, -, hexpand⟩ := bind_eq_ok.mp hexpand
      obtain ⟨_, -, hexpand⟩ := bind_eq_ok.mp hexpand
      cases pure_eq_ok.mp hexpand
    · obtain ⟨c, hc, hexpand⟩ := bind_eq_ok.mp hexpand
      obtain ⟨action, haction, hexpand⟩ := bind_eq_ok.mp hexpand
      obtain ⟨_, -, hexpand⟩ := bind_eq_ok.mp hexpand
      obtain ⟨_, -, hexpand⟩ := bind_eq_ok.mp hexpand
      refine ⟨c, hc, ?_⟩
      split at hexpand
      · cases pure_eq_ok.mp hexpand
        exact haction
      · obtain ⟨outcomes, -, hexpand⟩ := bind_eq_ok.mp hexpand
        cases pure_eq_ok.mp hexpand
        exact haction

def cellBound (partition : Partition S C) (bound : C → Except PyError (Option (ℚ × ℚ))) (s : S) :
    Option (ℚ × ℚ) :=
  (partition.cellOf s).toOption.bind fun c => (bound c).toOption.join

omit [DecidableEq C] [PyRepr C] in
theorem cellBound_eq_some {bound : C → Except PyError (Option (ℚ × ℚ))} {s : S} {b : ℚ × ℚ} :
    cellBound partition bound s = some b ↔
      ∃ c, partition.cellOf s = .ok c ∧ bound c = .ok (some b) := by
  unfold cellBound
  cases hc : partition.cellOf s with
  | error e => simp [Except.toOption]
  | ok c => cases hb : bound c <;> simp [Except.toOption, hb]

/-- Realizations respect one step of any process whose actions mix the raw concretizers. -/
theorem RealizedBound.step {V : Type} [PyRepr V] {view : Kernel S V} {states : List S}
    {weights : Features} {goal : String} {source : ActionSource S A L}
    {envelope : ExactRealizationEnvelope S A C L} {n : ℕ}
    {continuation : C → Except PyError (Option (ℚ × ℚ))} {cell : C} {members : List S} {lo hi : ℚ}
    {action : L} {realizations : List (GroundRealization S C)}
    (hview : ∀ o, outcomeStopped view goal o = outcomeStopped kernel goal o)
    (hgoal : GoalFree kernel goal)
    (henvelope : buildExactRealizationEnvelope kernel states partition source = .ok envelope)
    (h : RealizedBound kernel weights envelope policy n continuation cell members lo hi action
      realizations)
    {s : S} (hs : s ∈ members) (hactive : kernel.isTerminal s = false) {raw : List (ℚ × A)}
    (hraw : source.concretizer s action = .ok raw) {outcomes : List (Outcome S)}
    (hmixes : Mixes kernel goal weights s raw outcomes) :
    ∃ next : S → ℚ × ℚ,
      (∀ o ∈ outcomes, outcomeStopped view goal o = false → ∃ c,
        partition.cellOf o.nextState = .ok c ∧
          continuation c = .ok (some (next o.nextState))) ∧
      lo ≤ backup (outcomeBranches view goal (fun o => outcomeReward o weights) outcomes)
        (fun t => (next t).1) ∧
      backup (outcomeBranches view goal failureCost outcomes) (fun t => (next t).2) ≤ hi := by
  obtain ⟨r, hr, rfl⟩ := h.covered s hs hactive
  obtain ⟨_, _, _, hexact⟩ := realizations_of_build henvelope h.realized
  obtain ⟨s', -, -, hrealization⟩ := hexact r hr
  obtain rfl : r.state = s' := (realization_backup hrealization).1
  obtain ⟨hreached, htotal⟩ := realization_mixes hrealization hgoal hraw hmixes
  obtain ⟨next, hnext, hlo, hhi⟩ := h.bounded r hr
  have hbranches : ∀ gain, outcomeBranches view goal gain outcomes =
      outcomeBranches kernel goal gain outcomes := fun gain =>
    List.map_congr_left fun o _ => by simp only [outcomeBranch, hview]
  refine ⟨fun t => (cellValue partition (fun c => (next c).1) t,
    cellValue partition (fun c => (next c).2) t), fun o ho hstop => ?_, ?_, ?_⟩
  · obtain ⟨c, hc, hmem⟩ := hreached o ho ((hview o).symm.trans hstop)
    obtain ⟨e, he, rfl⟩ := List.mem_map.mp hmem
    refine ⟨e.1, hc, ?_⟩
    simpa only [cellValue_eq hc] using hnext e he
  · rw [hbranches]
    exact hlo.trans (htotal fun c => (next c).1).1.le
  · rw [hbranches]
    exact (htotal fun c => (next c).2).2.ge.trans hhi

theorem boundsStep_stepBounds {states : List S} {weights : Features} {goal : String}
    {envelope : ExactRealizationEnvelope S A C L} {select : Selector S L}
    (hgoal : GoalFree kernel goal)
    (henvelope : buildExactRealizationEnvelope kernel states partition
      (.ofAdapter kernel adapter) = .ok envelope)
    (hselect : ∀ n s l, select n s = some l →
      ∃ c, partition.cellOf s = .ok c ∧ policy.action c n = .ok l) :
    StepBounds (semanticKernelView kernel adapter) goal weights select
      (fun n => cellBound partition
        (stagedDirect (boundsStep kernel weights [] envelope policy) n)) where
  zero := by
    intro s b hb
    obtain ⟨c, -, hb⟩ := cellBound_eq_some.mp hb
    obtain ⟨-, -, ⟨-, hlo, hhi⟩ | ⟨hn, -⟩⟩ := boundsStage_eq_some hb
    · exact ⟨hlo.le, hhi.ge⟩
    · exact absurd rfl hn
  idle := by
    intro n s b hb hidle
    obtain ⟨c, hc, hb⟩ := cellBound_eq_some.mp hb
    obtain ⟨members, hmembers, ⟨-, hlo, hhi⟩ | ⟨-, action, rs, hrs⟩⟩ := boundsStage_eq_some hb
    · exact ⟨hlo.le, hhi.ge⟩
    · rw [buildExactRealizationEnvelope_partition henvelope] at hmembers
      have hs : s ∈ members :=
        (Partition.mem_of_members hmembers).mpr (Partition.cellOf_eq_ok.mp hc)
      cases hactive : kernel.isTerminal s with
      | true => exact hrs.terminal s hs hactive
      | false =>
        -- an active member of an audited cell has labels
        obtain ⟨members', hmembers', hlabels, -⟩ := realizations_of_build henvelope hrs.realized
        rw [hmembers] at hmembers'
        cases hmembers'
        obtain ⟨labels, hprovider, hmem⟩ := hlabels s hs hactive
        rcases hidle with hstop | hnone
        · simp [hgoal s, hactive] at hstop
        · obtain ⟨labels', hlabels', hnone⟩ := bind_eq_ok.mp hnone
          obtain ⟨_, -, hnone⟩ := bind_eq_ok.mp hnone
          obtain rfl := pure_eq_ok.mp hnone
          rw [show adapter.labels kernel s = .ok labels from hprovider] at hlabels'
          cases hlabels'
          simp at hmem
  step := by
    intro n s b l outcomes hb ht
    obtain ⟨c, hc, hb⟩ := cellBound_eq_some.mp hb
    have hactive : kernel.isTerminal s = false := (hgoal s).symm.trans ht.active
    obtain ⟨members, hmembers, hcase⟩ := boundsStage_eq_some hb
    rw [buildExactRealizationEnvelope_partition henvelope] at hmembers
    have hs : s ∈ members :=
      (Partition.mem_of_members hmembers).mpr (Partition.cellOf_eq_ok.mp hc)
    rcases hcase with ⟨hdone, -, -⟩ | ⟨-, action, rs, hrs⟩
    · simp only [Nat.add_eq_zero_iff, one_ne_zero, and_false, List.not_mem_nil, false_or] at hdone
      simp [hdone s hs] at hactive
    · obtain ⟨c', hc', hl⟩ := hselect (n + 1) s l ht.selected
      obtain rfl : c' = c := Except.ok.inj (hc'.symm.trans hc)
      obtain rfl : l = action := Except.ok.inj (hl.symm.trans hrs.chosen)
      obtain ⟨raw, hraw, hmixes⟩ := viewStep_mixes (iterOutcomes_eq_ok.mp ht.outcomes).1
      obtain ⟨next, hnext, hlo, hhi⟩ := hrs.step
        (outcomeStopped_semanticKernelView kernel adapter goal) hgoal henvelope hs hactive hraw
          (hmixes goal weights)
      exact ⟨next, fun o ho hstop => cellBound_eq_some.mpr (hnext o ho hstop), hlo, hhi⟩

end Lifted

/-! ## The unrestricted upper envelope -/

section

variable [DecidableEq S] [PyRepr S] [DecidableEq A] [PyRepr A] [DecidableEq C] [PyRepr C]
  {kernel : Kernel S A} {goal : String} {weights : Features} {partition : Partition S C}

/-- Every entry of the table is above the reward of every selector at every member. -/
def UpperTable (kernel : Kernel S A) (goal : String) (weights : Features)
    (partition : Partition S C) (table : List ((ℕ × C) × ℚ)) : Prop :=
  ∀ n c v, ((n, c), v) ∈ table → ∀ s select, partition.cellOf s = .ok c →
    Follows kernel goal select n s →
      (selectorValue kernel goal weights select n s).expectedReward ≤ v

omit [DecidableEq A] in
theorem exists_upperCandidate {table : List ((ℕ × C) × ℚ)}
    (htable : UpperTable kernel goal weights partition table) {n : ℕ} {s : S} {candidates : List ℚ}
    (h : upperCandidates kernel goal weights partition table (n + 1) s = .ok candidates)
    {select : Selector S A} (hf : Follows kernel goal select (n + 1) s) :
    ∃ v ∈ candidates, (selectorValue kernel goal weights select (n + 1) s).expectedReward ≤ v := by
  unfold upperCandidates at h
  rcases hf with hidle | ⟨a, outcomes, ht, hf⟩
  · have hzero : candidates = [0] := by
      split at h
      · exact (Except.ok.inj h).symm
      · rename_i hactive
        obtain ⟨actions, hactions, h⟩ := bind_eq_ok.mp h
        rw [hidle.resolve_left hactive] at hactions
        cases hactions
        exact (pure_eq_ok.mp h).symm
    exact ⟨0, by simp [hzero], (value_idle hidle).le⟩
  · obtain ⟨actions, hactions, ha⟩ := ht.available
    rw [if_neg (by simp [ht.active]), hactions] at h
    obtain ⟨_, hactions', h⟩ := bind_eq_ok.mp h
    cases hactions'
    rw [if_neg (List.ne_nil_of_mem ha)] at h
    obtain ⟨v, hv, h⟩ := exists_of_mapM h ha
    obtain ⟨os, hos, h⟩ := bind_eq_ok.mp h
    rw [ht.outcomes] at hos
    cases hos
    obtain ⟨branches, hbranches, h⟩ := bind_eq_ok.mp h
    refine ⟨v, hv, ?_⟩
    rw [← pure_eq_ok.mp h, selectorValue, value_takes ht, backup_outcomeBranches,
      ← List.map_id branches]
    refine le_sum_of_mapM hbranches fun o ho y _ hy => ?_
    by_cases hs : outcomeStopped kernel goal o = true
    · rw [if_pos hs] at hy
      simp [← pure_eq_ok.mp hy, hs]
    · rw [if_neg hs] at hy
      obtain ⟨c, hc, hy⟩ := bind_eq_ok.mp hy
      obtain ⟨u, hu, hy⟩ := bind_eq_ok.mp hy
      rw [orRaise_eq_ok] at hu
      have hnext := htable n c u (Dict.lookup_mem hu) o.nextState select hc
        (hf o ho (by simpa using hs))
      rw [← pure_eq_ok.mp hy, if_neg hs]
      exact mul_le_mul_of_nonneg_left (add_le_add_right hnext _) o.probability_pos.le

omit [DecidableEq A] in
theorem upperTable_upperCell {table table' : List ((ℕ × C) × ℚ)}
    (htable : UpperTable kernel goal weights partition table) {n : ℕ} {cell : C}
    (h : upperCell kernel goal weights partition (n + 1) table cell = .ok table') :
    UpperTable kernel goal weights partition table' := by
  obtain ⟨members, hmembers, h⟩ := bind_eq_ok.mp h
  obtain ⟨rows, hrows, h⟩ := bind_eq_ok.mp h
  obtain rfl := pure_eq_ok.mp h
  intro m c v hv s select hc hf
  rcases Dict.mem_assign hv with heq | hv
  · cases heq
    have hs : s ∈ members :=
      (Partition.mem_of_members hmembers).mpr (Partition.cellOf_eq_ok.mp hc)
    obtain ⟨row, hrow, hcandidates⟩ := exists_of_mapM hrows hs
    obtain ⟨u, hu, hle⟩ := exists_upperCandidate htable hcandidates hf
    have hu' : u ∈ rows.flatten := List.mem_flatten.mpr ⟨row, hrow, hu⟩
    obtain ⟨hi, hhi⟩ := Option.isSome_iff_exists.mp
      (List.isSome_max?_of_mem hu')
    rw [hhi]
    exact hle.trans (le_max? hhi hu')
  · exact htable m c v hv s select hc hf

omit [DecidableEq A] in
theorem upperTable_unrestricted {query : QuerySpec S} {table : List ((ℕ × C) × ℚ)}
    (h : unrestrictedUpperEnvelope kernel query partition = .ok table) :
    UpperTable kernel query.goal (rewardWeights query) partition table := by
  obtain ⟨horizon, -, h⟩ := bind_eq_ok.mp h
  refine foldlM_invariant (P := UpperTable kernel query.goal (rewardWeights query) partition)
    (fun table htable n hn table' hcells => ?_) ?_ h
  · obtain ⟨n, rfl⟩ : ∃ m, n = m + 1 := ⟨n - 1, by have := (List.mem_range'_1.mp hn).1; omega⟩
    exact foldlM_invariant (fun t ht c _ t' ht' => upperTable_upperCell ht ht') htable hcells
  · intro n c v hv s select _ _
    obtain ⟨c', -, heq⟩ := List.mem_map.mp hv
    cases heq
    exact le_rfl

end

section Sound

variable [DecidableEq S] [PyRepr S] [DecidableEq A] [PyRepr A] [DecidableEq C] [PyRepr C]
  {kernel : Kernel S A} {query : QuerySpec S} {partition : Partition S C}

/-- The bounds of an audit hold for the evaluation of the policy that it audits. -/
structure BoundsHold (query : QuerySpec S) (audit : AbstractPolicyAudit C)
    (lift : PolicyEvaluation) : Prop where
  risk : audit.certified = true → lift.failureProbability ≤ query.delta
  lower : ∀ lower, audit.liftedRewardLower = some lower → lower ≤ lift.expectedReward
  upper : ∀ upper, audit.liftedFailureUpper = some upper → lift.failureProbability ≤ upper

/-- What an audit promises about the evaluation of the policy that it audits. -/
structure AuditSound (kernel : Kernel S A) (query : QuerySpec S) (tolerance : ℚ)
    (audit : AbstractPolicyAudit C) (lift : PolicyEvaluation) : Prop
    extends BoundsHold query audit lift where
  regret : audit.certified = true → ∀ ground v, evaluateGroundPolicy kernel query ground = .ok v →
    v.expectedReward - lift.expectedReward ≤ tolerance

section Roots

variable {table : Option (List ((ℕ × C) × ℚ))} {roots : List (ℚ × ℚ × Option (ℚ × ℚ))}
  {bound : ℕ → C → Except PyError (Option (ℚ × ℚ))}

theorem evaluateGroundPolicy_le_upper {base : ℚ}
    (htable : rootUpperTable kernel query partition none = .ok (table, base))
    (hroots : query.initialDistribution.mapM (auditRoot partition table query.horizon bound) =
      .ok roots)
    {ground : FiniteHorizonPolicy S A} {v : PolicyEvaluation}
    (h : evaluateGroundPolicy kernel query ground = .ok v) :
    v.expectedReward ≤ base + (roots.map fun r => r.1 * r.2.1).sum := by
  obtain ⟨entries, hentries, htable⟩ := bind_eq_ok.mp htable
  cases pure_eq_ok.mp htable
  obtain ⟨-, hfollows, rfl⟩ := evaluateGroundPolicy_eq_ok.mp h
  rw [zero_add]
  refine le_sum_of_mapM hroots fun p hp r _ hr => ?_
  obtain ⟨c, hc, hu, -, hmass⟩ := auditRoot_eq_ok hr
  rw [hmass]
  exact mul_le_mul_of_nonneg_left (upperTable_unrestricted hentries _ c r.2.1
    (Dict.lookup_mem (orRaise_eq_ok.mp hu)) p.2 _ hc (hfollows p hp)) (query.initial_pos p hp).le

/-- The bounds of the initial cells hold of their states under a selection. -/
def RootsBounded {V : Type} [PyRepr V] (query : QuerySpec S) (partition : Partition S C)
    (bound : ℕ → C → Except PyError (Option (ℚ × ℚ))) (view : Kernel S V) (select : Selector S V) :
    Prop :=
  ∀ p ∈ query.initialDistribution, ∀ c b, partition.cellOf p.2 = .ok c →
    bound query.horizon c = .ok (some b) →
    b.1 ≤ (selectorValue view query.goal (rewardWeights query) select query.horizon
      p.2).expectedReward ∧
    (selectorValue view query.goal (rewardWeights query) select query.horizon
      p.2).failureProbability ≤ b.2

omit [DecidableEq A] [PyRepr A] in
/-- Bounds that hold at every initial state total to bounds on the evaluation. -/
theorem roots_bounded {V : Type} [PyRepr V] {view : Kernel S V} {select : Selector S V}
    (hroots : query.initialDistribution.mapM (auditRoot partition table query.horizon bound) =
      .ok roots)
    (hbounded : RootsBounded query partition bound view select)
    (hcomplete : (roots.all fun r => r.2.2.isSome) = true) :
    (roots.map fun r => r.2.2.elim 0 fun b => r.1 * b.1).sum ≤
      (expectedValue view query.goal (rewardWeights query) select query.horizon
        query.initialDistribution).expectedReward ∧
    (expectedValue view query.goal (rewardWeights query) select query.horizon
        query.initialDistribution).failureProbability ≤
      (roots.map fun r => r.2.2.elim 0 fun b => r.1 * b.2).sum := by
  have hroot : ∀ r ∈ roots, ∃ b, r.2.2 = some b := fun r hr =>
    Option.isSome_iff_exists.mp (List.all_eq_true.mp hcomplete r hr)
  constructor
  · refine sum_le_of_mapM hroots fun p hp r hrmem hr => ?_
    obtain ⟨c, hc, -, hbound, hmass⟩ := auditRoot_eq_ok hr
    obtain ⟨b, hb⟩ := hroot r hrmem
    rw [hb, hmass]
    exact mul_le_mul_of_nonneg_left (hbounded p hp c b hc (hb ▸ hbound)).1
      (query.initial_pos p hp).le
  · refine le_sum_of_mapM hroots fun p hp r hrmem hr => ?_
    obtain ⟨c, hc, -, hbound, hmass⟩ := auditRoot_eq_ok hr
    obtain ⟨b, hb⟩ := hroot r hrmem
    rw [hb, hmass]
    exact mul_le_mul_of_nonneg_left (hbounded p hp c b hc (hb ▸ hbound)).2
      (query.initial_pos p hp).le

section Report

variable {V : Type} [PyRepr V] {view : Kernel S V} {select : Selector S V} {tolerance base : ℚ}
  {valid : Bool} {state : AuditState C} {audit : AbstractPolicyAudit C}

omit [DecidableEq A] [PyRepr A] in
theorem reportAudit_bounds
    (hroots : query.initialDistribution.mapM (auditRoot partition table query.horizon bound) =
      .ok roots)
    (haudit : reportAudit query tolerance valid base roots state = .ok audit)
    (hbounded : RootsBounded query partition bound view select) :
    BoundsHold query audit (expectedValue view query.goal (rewardWeights query)
      select query.horizon query.initialDistribution) := by
  obtain ⟨hupper, hcertified, hlower, hfailure⟩ := reportAudit_eq_ok haudit
  refine ⟨fun hc => ?_, fun lower hl => ?_, fun upper hu => ?_⟩
  · obtain ⟨hcomplete, -, hrisk⟩ := hcertified hc
    exact (roots_bounded hroots hbounded hcomplete).2.trans hrisk
  · obtain ⟨hcomplete, rfl⟩ := hlower lower hl
    exact (roots_bounded hroots hbounded hcomplete).1
  · obtain ⟨hcomplete, rfl⟩ := hfailure upper hu
    exact (roots_bounded hroots hbounded hcomplete).2

/-- A report on roots whose bounds hold is sound when it computed its own upper envelope. -/
theorem reportAudit_sound
    (htable : rootUpperTable kernel query partition none = .ok (table, base))
    (hroots : query.initialDistribution.mapM (auditRoot partition table query.horizon bound) =
      .ok roots)
    (haudit : reportAudit query tolerance valid base roots state = .ok audit)
    (hbounded : RootsBounded query partition bound view select) :
    AuditSound kernel query tolerance audit (expectedValue view query.goal (rewardWeights query)
      select query.horizon query.initialDistribution) := by
  refine ⟨reportAudit_bounds hroots haudit hbounded, fun hc ground v hv => ?_⟩
  obtain ⟨hupper, hcertified, -, -⟩ := reportAudit_eq_ok haudit
  obtain ⟨hcomplete, hregret, -⟩ := hcertified hc
  have hreward := (roots_bounded hroots hbounded hcomplete).1
  have hground := evaluateGroundPolicy_le_upper htable hroots hv
  linarith

end Report

end Roots

variable [DecidableEq L] [PyRepr L] {states : List S} {adapter : SemanticAdapter S A L}
  {envelope : ExactRealizationEnvelope S A C L} {policy : FiniteHorizonPolicy C L} {tolerance : ℚ}
  {audit : AbstractPolicyAudit C}

/-- A certified audit bounds the failure and the regret of the lifted policy, and what an audit
reports bounds the lifted policy and every ground policy, certified or not. -/
theorem auditAbstractPolicy_sound (hgoal : GoalFree kernel query.goal)
    (henvelope : buildExactRealizationEnvelope kernel states partition
      (.ofAdapter kernel adapter) = .ok envelope)
    (haudit : auditAbstractPolicy kernel query envelope policy tolerance [] none = .ok audit) :
    (∀ lift, evaluateSemanticPolicy kernel query partition policy adapter = .ok lift →
      AuditSound kernel query tolerance audit lift) ∧
    ∀ ground v, evaluateGroundPolicy kernel query ground = .ok v →
      v.expectedReward ≤ audit.unrestrictedRewardUpper := by
  obtain ⟨table, base, roots, state, htable, hroots, hreport⟩ := auditAbstractPolicy_eq_ok haudit
  rw [buildExactRealizationEnvelope_partition henvelope] at htable hroots
  refine ⟨fun lift hlift => ?_, fun ground v hv => ?_⟩
  · obtain ⟨lifted, hlifted, heval⟩ := bind_eq_ok.mp hlift
    obtain ⟨-, hfollows, rfl⟩ := evaluateGroundPolicy_eq_ok.mp heval
    exact reportAudit_sound htable hroots hreport fun p hp c b hc hb =>
      (boundsStep_stepBounds hgoal henvelope fun n s l => select_liftSemantic hlifted).sound
        (hfollows p hp) (cellBound_eq_some.mpr ⟨c, hc, hb⟩)
  · rw [(reportAudit_eq_ok hreport).1]
    exact evaluateGroundPolicy_le_upper htable hroots hv

end Sound

def primitiveAdapter : SemanticAdapter ℕ String String where
  labels kernel state := kernel.actions state
  concretize _ _ label := .ok [(1, label)]

def gamblePartition : Partition ℕ ℕ where
  assignments := [(0, 0), (1, 1), (2, 2)]
  nodup := by decide
  nonempty := by decide

def rootPolicy (action : String) : FiniteHorizonPolicy ℕ String :=
  ⟨[⟨1, 0, action, Nat.one_pos⟩], List.nodup_singleton _⟩

theorem gambleKernel_goalFree : GoalFree gambleKernel gambleQuery.goal := by
  intro s
  by_cases hs : s = 0 <;> simp [isStopped, gambleKernel, hs]

theorem auditAbstractPolicy_sound_gamble : ∃ envelope audit lift,
    buildExactRealizationEnvelope gambleKernel [0, 1, 2] gamblePartition
      (.ofAdapter gambleKernel primitiveAdapter) = .ok envelope ∧
    auditAbstractPolicy gambleKernel gambleQuery envelope (rootPolicy "safe") (1 / 4) [] none =
      .ok audit ∧
    audit.certified = true ∧
    evaluateSemanticPolicy gambleKernel gambleQuery gamblePartition (rootPolicy "safe")
      primitiveAdapter = .ok lift ∧
    lift.failureProbability ≤ gambleQuery.delta := by
  obtain ⟨lift, hlift⟩ := exists_of_isOk
    (show (evaluateSemanticPolicy gambleKernel gambleQuery gamblePartition (rootPolicy "safe")
      primitiveAdapter).isOk = true by decide +kernel)
  have hcertified : (do
      let envelope ← buildExactRealizationEnvelope gambleKernel [0, 1, 2] gamblePartition
        (.ofAdapter gambleKernel primitiveAdapter)
      let audit ← auditAbstractPolicy gambleKernel gambleQuery envelope (rootPolicy "safe") (1 / 4)
        [] none
      return audit.certified) = .ok true := by decide +kernel
  obtain ⟨envelope, henvelope, hcertified⟩ := bind_eq_ok.mp hcertified
  obtain ⟨audit, haudit, hcertified⟩ := bind_eq_ok.mp hcertified
  have hsound := (auditAbstractPolicy_sound gambleKernel_goalFree henvelope haudit).1 lift hlift
  exact ⟨envelope, audit, lift, henvelope, haudit, pure_eq_ok.mp hcertified, hlift,
    hsound.risk (pure_eq_ok.mp hcertified)⟩

end Acfqp.Planning
