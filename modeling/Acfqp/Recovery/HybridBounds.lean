import Acfqp.Planning.Soundness
import Acfqp.Recovery.Hybrid

/-!
# What the bounds of a hybrid audit say

A localized pair is bounded by the backups of its members' own actions, every other pair by the
realizations of the base policy's label.
-/

namespace Acfqp.Recovery

open Library Abstraction Planning

variable {S A C L : Type} [DecidableEq S] [PyRepr S] [DecidableEq A] [PyRepr A] [DecidableEq C]
  [PyRepr C] [DecidableEq L] [PyRepr L] {kernel : Kernel S A} {goal : String} {weights : Features}
  {goals : List C} {partition : Partition S C} {envelope : ExactRealizationEnvelope S A C L}
  {overlay : HybridPolicyOverlay S A C L}

/-! ## The recursion without its table -/

abbrev hybridStep (kernel : Kernel S A) (goal : String) (weights : Features) (goals : List C)
    (envelope : ExactRealizationEnvelope S A C L) (overlay : HybridPolicyOverlay S A C L) :
    ℕ → (C → Except PyError (Option (ℚ × ℚ))) → C → Except PyError (Option (ℚ × ℚ)) :=
  hybridStage (fun _ => pure ()) kernel goal weights goals envelope overlay

section Stage

variable {σ : Type} {I : σ → Prop} {n : ℕ} {f : C → StateT σ (Except PyError) (Option (ℚ × ℚ))}
  {g : C → Except PyError (Option (ℚ × ℚ))} {record : AuditIssue C → StateT σ (Except PyError) Unit}
  {patch : List (S × A)}

omit [DecidableEq C] [PyRepr C] in
theorem patchedMember_computes (hrecord : ∀ i, Computes I (record i) (pure ()))
    (h : ∀ c, Computes I (f c) (g c)) (cell : C) (s : S) :
    Computes I (patchedMember record kernel goal weights partition patch n f cell s).run
      (patchedMember (fun _ => pure ()) kernel goal weights partition patch n g cell s).run := by
  unfold patchedMember
  split
  · exact .pure
  · refine .optionBind (.optionLift .lift) fun action _ => ?_
    refine .optionBind (.optionLift .lift) fun available _ => ?_
    split
    · refine .optionBind (.optionLift .lift) fun outcomes _ => ?_
      refine .optionBind (.optionMapM fun o _ => ?_) fun _ _ => .pure
      refine .optionBind ?_ fun _ _ => .pure
      unfold patchedContinuation
      dsimp only [OptionT.run, OptionT.mk]
      split
      · exact .pure
      · exact .bind .lift fun c _ => h c
    · exact .bind (hrecord _) fun _ _ => .pure

omit [DecidableEq C] [PyRepr C] in
theorem patchedBounds_computes (hrecord : ∀ i, Computes I (record i) (pure ()))
    (h : ∀ c, Computes I (f c) (g c)) (cell : C) (members : List S) :
    Computes I (patchedBounds record kernel goal weights partition patch n f cell members)
      (patchedBounds (fun _ => pure ()) kernel goal weights partition patch n g cell members) := by
  unfold patchedBounds
  dsimp only
  split
  · exact .bind (hrecord _) fun _ _ => .pure
  · exact .bind (.optionMapM fun s _ => patchedMember_computes hrecord h cell s)
      fun values _ => finishBounds_computes hrecord values

theorem hybridStage_computes (hrecord : ∀ i, Computes I (record i) (pure ()))
    (h : ∀ c, Computes I (f c) (g c)) (cell : C) :
    Computes I (hybridStage record kernel goal weights goals envelope overlay n f cell)
      (hybridStep kernel goal weights goals envelope overlay n g cell) := by
  refine .bind .lift fun members _ => ?_
  split
  · exact .pure
  · split
    · exact patchedBounds_computes hrecord h cell members
    · exact realizedBounds_computes hrecord h cell members

end Stage

theorem hybridBounds_computes (n : ℕ) (cell : C) :
    Computes (StagedTable (hybridStep kernel goal weights goals envelope overlay))
      (hybridBounds kernel goal weights goals envelope overlay n cell)
      (stagedDirect (hybridStep kernel goal weights goals envelope overlay) n cell) := by
  unfold hybridBounds
  apply stagedBounds_computes
  intro n f g h c
  exact hybridStage_computes recordIssue_computes h c

/-! ## Reading a bound -/

/-- The bound of a state: nothing is gained with no stage left, otherwise that of its cell. -/
def nextBound (partition : Partition S C) (n : ℕ)
    (continuation : C → Except PyError (Option (ℚ × ℚ))) (s : S) : Option (ℚ × ℚ) :=
  if n = 0 then some 0 else cellBound partition continuation s

omit [PyRepr A] [DecidableEq A] [DecidableEq C] [PyRepr C] in
theorem patchedContinuation_eq_some {n : ℕ}
    {continuation : C → Except PyError (Option (ℚ × ℚ))} {o : Outcome S} {b : ℚ × ℚ}
    (h : patchedContinuation kernel goal partition (n + 1) continuation o = .ok (some b)) :
    if outcomeStopped kernel goal o then b = 0
    else nextBound partition n continuation o.nextState = some b := by
  unfold patchedContinuation at h
  unfold nextBound
  by_cases hs : outcomeStopped kernel goal o = true
  · rw [if_pos (.inr hs)] at h
    cases h
    simp [hs]
  · rw [if_neg hs]
    by_cases hn : n = 0
    · rw [if_pos (.inl (by omega))] at h
      cases h
      rw [if_pos hn]
      rfl
    · rw [if_neg (by simp [hs, hn])] at h
      obtain ⟨c, hc, h⟩ := bind_eq_ok.mp h
      rw [if_neg hn]
      exact cellBound_eq_some.mpr ⟨c, hc, h⟩

omit [DecidableEq C] [PyRepr C] in
theorem patchedMember_eq_some {patch : List (S × A)} {n : ℕ}
    {continuation : C → Except PyError (Option (ℚ × ℚ))} {cell : C} {s : S} {v : ℚ × ℚ}
    (h : (patchedMember (m := Except PyError) (fun _ => pure ()) kernel goal weights partition patch
      (n + 1) continuation cell s).run = .ok (some v)) :
    kernel.isTerminal s = true ∧ v = 0 ∨
    ∃ action outcomes, patch.lookup s = some action ∧
      (∃ available, kernel.actions s = .ok available ∧ action ∈ available) ∧
      Planning.iterOutcomes kernel s action = .ok outcomes ∧ ∃ next : S → ℚ × ℚ,
        (∀ o ∈ outcomes, outcomeStopped kernel goal o = false →
          nextBound partition n continuation o.nextState = some (next o.nextState)) ∧
        v.1 = backup (outcomeBranches kernel goal (fun o => outcomeReward o weights) outcomes)
          (fun t => (next t).1) ∧
        v.2 = backup (outcomeBranches kernel goal failureCost outcomes) (fun t => (next t).2) := by
  unfold patchedMember at h
  split at h
  · rename_i hterm
    exact .inl ⟨hterm, (optionPure_eq_some.mp h).symm⟩
  · right
    obtain ⟨action, haction, h⟩ := optionBind_eq_some.mp h
    obtain ⟨available, havailable, h⟩ := optionBind_eq_some.mp h
    split at h
    · rename_i hlegal
      obtain ⟨outcomes, houtcomes, h⟩ := optionBind_eq_some.mp h
      obtain ⟨branches, hbranches, h⟩ := optionBind_eq_some.mp h
      obtain rfl := optionPure_eq_some.mp h
      rw [optionMapM_eq_some] at hbranches
      let next : S → ℚ × ℚ := fun t => (nextBound partition n continuation t).getD 0
      have hone : ∀ {o : Outcome S} {b : ℚ × ℚ}, (do
          let downstream ← OptionT.mk
            (patchedContinuation kernel goal partition (n + 1) continuation o)
          pure (o.probability * (outcomeReward o weights + downstream.1),
            o.probability * (failureCost o + downstream.2)) :
              OptionT (Except PyError) (ℚ × ℚ)).run = .ok (some b) →
          (outcomeStopped kernel goal o = false →
            nextBound partition n continuation o.nextState = some (next o.nextState)) ∧
          b.1 = o.probability * (outcomeReward o weights +
            if outcomeStopped kernel goal o then 0 else (next o.nextState).1) ∧
          b.2 = o.probability * (failureCost o +
            if outcomeStopped kernel goal o then 0 else (next o.nextState).2) := by
        intro o b hb
        obtain ⟨downstream, hdown, hb⟩ := optionBind_eq_some.mp hb
        obtain rfl := optionPure_eq_some.mp hb
        have hnext := patchedContinuation_eq_some hdown
        by_cases hs : outcomeStopped kernel goal o = true
        · rw [if_pos hs] at hnext
          simp [hs, hnext]
        · rw [if_neg hs] at hnext
          have hd : next o.nextState = downstream := by simp [next, hnext]
          simp [hs, hd, hnext]
      refine ⟨action, outcomes, ?_, ?_, ?_, next, fun o ho hs => ?_, ?_, ?_⟩
      · exact orRaise_eq_ok.mp (optionLift_eq_some.mp haction)
      · exact ⟨available, optionLift_eq_some.mp havailable, hlegal⟩
      · exact optionLift_eq_some.mp houtcomes
      · obtain ⟨b, -, hb⟩ := exists_mem_of_forall₂ hbranches ho
        exact (hone hb).1 hs
      · rw [backup_outcomeBranches]
        rw [map_of_forall₂ hbranches fun o _ b hb => (hone hb).2.1]
      · rw [backup_outcomeBranches]
        rw [map_of_forall₂ hbranches fun o _ b hb => (hone hb).2.2]
    · obtain ⟨_, -, h⟩ := bind_eq_ok.mp h
      cases h

/-- What a patch has bounded: every terminal member, and every active member under its own
action. -/
structure PatchedBound (kernel : Kernel S A) (goal : String) (weights : Features)
    (partition : Partition S C) (patch : List (S × A)) (n : ℕ)
    (continuation : C → Except PyError (Option (ℚ × ℚ))) (members : List S) (lo hi : ℚ) : Prop where
  terminal : ∀ s ∈ members, kernel.isTerminal s = true → lo ≤ 0 ∧ 0 ≤ hi
  bounded : ∀ s ∈ members, kernel.isTerminal s = false → ∃ action outcomes,
    (s, action) ∈ patch ∧ (∃ available, kernel.actions s = .ok available ∧ action ∈ available) ∧
    Planning.iterOutcomes kernel s action = .ok outcomes ∧
    ∃ next : S → ℚ × ℚ,
      (∀ o ∈ outcomes, outcomeStopped kernel goal o = false →
        nextBound partition n continuation o.nextState = some (next o.nextState)) ∧
      lo ≤ backup (outcomeBranches kernel goal (fun o => outcomeReward o weights) outcomes)
        (fun t => (next t).1) ∧
      backup (outcomeBranches kernel goal failureCost outcomes) (fun t => (next t).2) ≤ hi

omit [DecidableEq C] [PyRepr C] in
theorem patchedBounds_eq_some {patch : List (S × A)} {n : ℕ}
    {continuation : C → Except PyError (Option (ℚ × ℚ))} {cell : C} {members : List S} {lo hi : ℚ}
    (h : patchedBounds (m := Except PyError) (fun _ => pure ()) kernel goal weights partition patch
      (n + 1) continuation cell members = .ok (some (lo, hi))) :
    PatchedBound kernel goal weights partition patch n continuation members lo hi := by
  unfold patchedBounds at h
  dsimp only at h
  split at h
  · obtain ⟨_, -, h⟩ := bind_eq_ok.mp h
    cases h
  · obtain ⟨values, hvalues, h⟩ := bind_eq_ok.mp h
    obtain ⟨vs, rfl, -, hbound⟩ := finishBounds_eq_some h
    have hmember : ∀ s ∈ members, ∃ v, (lo ≤ v.1 ∧ v.2 ≤ hi) ∧
        (patchedMember (m := Except PyError) (fun _ => pure ()) kernel goal weights partition patch
          (n + 1) continuation cell s).run = .ok (some v) := by
      intro s hs
      obtain ⟨v, hv, hrun⟩ := exists_mem_of_forall₂ (optionMapM_eq_some.mp hvalues) hs
      exact ⟨v, hbound v hv, hrun⟩
    constructor
    · intro s hs hterm
      obtain ⟨v, hle, hrun⟩ := hmember s hs
      rw [patchedMember, if_pos hterm] at hrun
      obtain rfl := optionPure_eq_some.mp hrun
      exact hle
    · intro s hs hactive
      obtain ⟨v, hle, hrun⟩ := hmember s hs
      obtain ⟨hterm, -⟩ |
          ⟨action, outcomes, hlookup, hlegal, houtcomes, next, hnext, h1, h2⟩ :=
        patchedMember_eq_some hrun
      · rw [hterm] at hactive
        cases hactive
      · exact ⟨action, outcomes, Dict.lookup_mem hlookup, hlegal, houtcomes, next, hnext,
          h1 ▸ hle.1, h2 ▸ hle.2⟩

/-- What a stage has bounded: nothing is left to do, or the patch or the realizations give the
bound. -/
theorem hybridStage_eq_some {n : ℕ} {continuation : C → Except PyError (Option (ℚ × ℚ))} {cell : C}
    {lo hi : ℚ} (h : hybridStep kernel goal weights goals envelope overlay (n + 1) continuation
      cell = .ok (some (lo, hi))) :
    ∃ members, envelope.partition.members cell = .ok members ∧
      ((cell ∈ goals ∨ ∀ s ∈ members, kernel.isTerminal s = true) ∧ lo = 0 ∧ hi = 0 ∨
      overlay.isLocalized cell (n + 1) = true ∧
        PatchedBound kernel goal weights envelope.partition (overlay.patchedActions cell (n + 1)) n
          continuation members lo hi ∨
      overlay.isLocalized cell (n + 1) = false ∧ ∃ action realizations,
        RealizedBound kernel weights envelope overlay.basePolicy (n + 1) continuation cell members
          lo hi action realizations) := by
  obtain ⟨members, hmembers, h⟩ := bind_eq_ok.mp h
  refine ⟨members, hmembers, ?_⟩
  split at h
  · rename_i hdone
    cases h
    exact .inl ⟨hdone.resolve_left n.succ_ne_zero, rfl, rfl⟩
  · split at h
    · rename_i hlocalized
      exact .inr (.inl ⟨hlocalized, patchedBounds_eq_some h⟩)
    · rename_i hlocalized
      exact .inr (.inr ⟨by simpa using hlocalized, realizedBounds_eq_some h⟩)

/-- A lifted decision is the one that the overlay takes in the state's cell. -/
theorem select_liftHybrid {query : QuerySpec S} {lift : HybridPolicyLift S A C L}
    (h : liftHybridPolicy kernel query envelope overlay = .ok lift) {n : ℕ} {s : S}
    {action : HybridAction A L} (ha : lift.liftedPolicy.select n s = some action) :
    ∃ c, envelope.partition.cellOf s = .ok c ∧
      hybridDecision kernel envelope overlay n s c = .ok action := by
  obtain ⟨_, -, h⟩ := bind_eq_ok.mp h
  obtain ⟨horizon, -, h⟩ := bind_eq_ok.mp h
  obtain ⟨initial, -, h⟩ := bind_eq_ok.mp h
  obtain ⟨trail, htrail, h⟩ := bind_eq_ok.mp h
  obtain ⟨lifted, hlifted, h⟩ := bind_eq_ok.mp h
  obtain ⟨evaluation, -, h⟩ := bind_eq_ok.mp h
  obtain rfl := pure_eq_ok.mp h
  obtain ⟨next, hexpand⟩ := exploreAll_emitted htrail ((select_fromMapping hlifted).mp ha)
  unfold expandHybrid at hexpand
  dsimp only at hexpand
  split at hexpand
  · cases hexpand
  · obtain ⟨c, hc, hexpand⟩ := bind_eq_ok.mp hexpand
    obtain ⟨action', haction, hexpand⟩ := bind_eq_ok.mp hexpand
    refine ⟨c, hc, ?_⟩
    split at hexpand
    · cases pure_eq_ok.mp hexpand
      exact haction
    · obtain ⟨outcomes, -, hexpand⟩ := bind_eq_ok.mp hexpand
      cases pure_eq_ok.mp hexpand
      exact haction

theorem evaluation_liftHybrid {query : QuerySpec S} {lift : HybridPolicyLift S A C L}
    (h : liftHybridPolicy kernel query envelope overlay = .ok lift) :
    (∀ p ∈ query.initialDistribution, Follows (hybridKernelView kernel envelope) query.goal
      lift.liftedPolicy.select query.horizon p.2) ∧
    lift.evaluation = expectedValue (hybridKernelView kernel envelope) query.goal
      (rewardWeights query) lift.liftedPolicy.select query.horizon query.initialDistribution := by
  obtain ⟨_, -, h⟩ := bind_eq_ok.mp h
  obtain ⟨horizon, -, h⟩ := bind_eq_ok.mp h
  obtain ⟨initial, -, h⟩ := bind_eq_ok.mp h
  obtain ⟨trail, -, h⟩ := bind_eq_ok.mp h
  obtain ⟨lifted, -, h⟩ := bind_eq_ok.mp h
  obtain ⟨evaluation, heval, h⟩ := bind_eq_ok.mp h
  obtain rfl := pure_eq_ok.mp h
  exact (evaluateGroundPolicy_eq_ok.mp heval).2

omit [DecidableEq L] [PyRepr L] in
theorem hybridDecision_eq_ok {n : ℕ} {s : S} {c : C} {action : HybridAction A L}
    (h : hybridDecision kernel envelope overlay n s c = .ok action) :
    overlay.isLocalized c n = true ∧ (∃ a, action = .ground a ∧
        (s, a) ∈ overlay.patchedActions c n) ∨
      overlay.isLocalized c n = false ∧ ∃ l, action = .abstract l ∧
        overlay.basePolicy.action c n = .ok l := by
  unfold hybridDecision at h
  split at h
  · rename_i hlocalized
    obtain ⟨a, ha, h⟩ := bind_eq_ok.mp h
    obtain ⟨_, -, h⟩ := bind_eq_ok.mp h
    obtain ⟨_, -, h⟩ := bind_eq_ok.mp h
    exact .inl ⟨hlocalized, a, (pure_eq_ok.mp h).symm,
      HybridPolicyOverlay.groundAction_eq_ok.mp ha⟩
  · rename_i hlocalized
    obtain ⟨l, hl, h⟩ := bind_eq_ok.mp h
    obtain ⟨_, -, h⟩ := bind_eq_ok.mp h
    exact .inr ⟨by simpa using hlocalized, l, (pure_eq_ok.mp h).symm, hl⟩

end Acfqp.Recovery
