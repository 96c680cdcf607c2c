import Acfqp.Recovery.HybridBounds

/-!
# Soundness of hybrid audits

The recursion alternates between cell-level bounds and member-level ground decisions, and the lift
dispatches on the same pairs: one step of the lifted process respects the bounds either way. An
overlay that patches nothing is audited exactly like its base policy.
-/

namespace Acfqp.Recovery

open Library Abstraction Planning

variable {S A C L : Type} [DecidableEq S] [PyRepr S] [DecidableEq A] [PyRepr A] [DecidableEq C]
  [PyRepr C] [DecidableEq L] [PyRepr L] {kernel : Kernel S A} {query : QuerySpec S}
  {states : List S} {partition : Partition S C} {source : ActionSource S A L}
  {envelope : ExactRealizationEnvelope S A C L} {overlay : HybridPolicyOverlay S A C L}
  {tolerance : ℚ}

omit [DecidableEq L] [PyRepr L] [PyRepr S] [PyRepr A] [DecidableEq A] in
theorem HybridPolicyOverlay.patchedActions_unique [PyRepr S] {c : C} {n : ℕ} {s : S} {a b : A}
    (ha : (s, a) ∈ overlay.patchedActions c n) (hb : (s, b) ∈ overlay.patchedActions c n) :
    a = b :=
  Except.ok.inj ((groundAction_eq_ok.mpr ha).symm.trans (groundAction_eq_ok.mpr hb))

omit [DecidableEq A] [DecidableEq L] [PyRepr L] in
theorem abstractStep_mixes {state : S} {label : L} {outcomes : List (Outcome S)}
    (h : abstractStep kernel source state label = .ok outcomes) :
    ∃ raw, source.concretizer state label = .ok raw ∧
      ∀ goal weights, Mixes kernel goal weights state raw outcomes := by
  obtain ⟨raw, hraw, h⟩ := bind_eq_ok.mp h
  obtain ⟨_, -, h⟩ := bind_eq_ok.mp h
  obtain ⟨events, hevents, h⟩ := bind_eq_ok.mp h
  obtain ⟨_, -, h⟩ := bind_eq_ok.mp h
  have hatoms : atomEvents kernel state rawAtom raw = .ok events := by
    obtain ⟨rows, hrows, hevents⟩ := bind_eq_ok.mp hevents
    refine bind_eq_ok.mpr ⟨rows, mapM_eq_ok.mpr ((mapM_eq_ok.mp hrows).imp fun e row he => ?_),
      hevents⟩
    obtain ⟨_, -, he⟩ := bind_eq_ok.mp he
    exact he
  refine ⟨raw, hraw, fun goal weights => ?_⟩
  have hreward := coalesceAtoms_backup hatoms h goal (rawAtom_key_reward weights)
  exact ⟨hreward.1, hreward.2, (coalesceAtoms_backup hatoms h goal rawAtom_key_failure).2⟩

/-- With no stage left every cell is worth nothing, like a pair that is not continued. -/
theorem nextBound_of_cellBound {goal : String} {weights : Features} {goals : List C} {n : ℕ} {s : S}
    {b : ℚ × ℚ} (h : cellBound partition (stagedDirect
      (hybridStep kernel goal weights goals envelope overlay) n) s = some b) :
    nextBound partition n (stagedDirect
      (hybridStep kernel goal weights goals envelope overlay) n) s = some b := by
  unfold nextBound
  split
  · rename_i hn
    subst hn
    obtain ⟨c, -, hb⟩ := cellBound_eq_some.mp h
    obtain ⟨members, -, hb⟩ := bind_eq_ok.mp hb
    rw [if_pos (.inl rfl)] at hb
    exact Except.ok.inj hb
  · exact h

theorem hybridStep_stepBounds {weights : Features} (hgoal : GoalFree kernel query.goal)
    (henvelope : buildExactRealizationEnvelope kernel states partition source = .ok envelope)
    {lift : HybridPolicyLift S A C L}
    (hlift : liftHybridPolicy kernel query envelope overlay = .ok lift) :
    StepBounds (hybridKernelView kernel envelope) query.goal weights lift.liftedPolicy.select
      (fun n => nextBound partition n (stagedDirect
        (hybridStep kernel query.goal weights [] envelope overlay) n)) where
  zero := by
    intro s b hb
    cases hb
    exact ⟨le_rfl, le_rfl⟩
  idle := by
    intro n s b hb hidle
    obtain ⟨c, hc, hb⟩ := cellBound_eq_some.mp hb
    obtain ⟨members, hmembers, hcase⟩ := hybridStage_eq_some hb
    rw [buildExactRealizationEnvelope_partition henvelope] at hmembers hcase
    have hs : s ∈ members :=
      (Partition.mem_of_members hmembers).mpr (Partition.cellOf_eq_ok.mp hc)
    have hnone : kernel.isTerminal s = false → ∃ abstract, kernel.actions s = .ok [] ∧
        source.semanticActionProvider s = .ok abstract ∧ abstract = [] := by
      intro hactive
      rcases hidle with hstop | hnone
      · simp [isStopped_hybridKernelView, hgoal s, hactive] at hstop
      · obtain ⟨ground, hground, hnone⟩ := bind_eq_ok.mp hnone
        obtain ⟨abstract, habstract, hnone⟩ := bind_eq_ok.mp hnone
        rw [buildExactRealizationEnvelope_source henvelope] at habstract
        obtain ⟨hg, ha⟩ := List.append_eq_nil_iff.mp (pure_eq_ok.mp hnone)
        exact ⟨abstract, by rw [hground, List.map_eq_nil_iff.mp hg], habstract,
          List.map_eq_nil_iff.mp ha⟩
    rcases hcase with ⟨-, hlo, hhi⟩ | ⟨-, hpatch⟩ | ⟨-, label, rs, hrs⟩
    · exact ⟨hlo.le, hhi.ge⟩
    · cases hactive : kernel.isTerminal s with
      | true => exact hpatch.terminal s hs hactive
      | false =>
        obtain ⟨-, hground, -⟩ := hnone hactive
        obtain ⟨action, -, -, ⟨available, havailable, hmem⟩, -⟩ := hpatch.bounded s hs hactive
        rw [hground] at havailable
        cases havailable
        simp at hmem
    · cases hactive : kernel.isTerminal s with
      | true => exact hrs.terminal s hs hactive
      | false =>
        obtain ⟨abstract, -, habstract, rfl⟩ := hnone hactive
        obtain ⟨members', hmembers', hlabels, -⟩ := realizations_of_build henvelope hrs.realized
        rw [hmembers] at hmembers'
        cases hmembers'
        obtain ⟨labels, hprovider, hmem⟩ := hlabels s hs hactive
        rw [habstract] at hprovider
        cases hprovider
        simp at hmem
  step := by
    intro n s b action outcomes hb ht
    obtain ⟨c, hc, hb⟩ := cellBound_eq_some.mp hb
    have hpartition := buildExactRealizationEnvelope_partition henvelope
    have hactive : kernel.isTerminal s = false := (hgoal s).symm.trans ht.active
    obtain ⟨members, hmembers, hcase⟩ := hybridStage_eq_some hb
    rw [hpartition] at hmembers hcase
    have hs : s ∈ members :=
      (Partition.mem_of_members hmembers).mpr (Partition.cellOf_eq_ok.mp hc)
    obtain ⟨c', hc', hdecision⟩ := select_liftHybrid hlift ht.selected
    rw [hpartition] at hc'
    obtain rfl : c' = c := Except.ok.inj (hc'.symm.trans hc)
    obtain ⟨hstep, -⟩ := iterOutcomes_eq_ok.mp ht.outcomes
    rcases hcase with ⟨hdone, -, -⟩ | ⟨hlocal, hpatch⟩ | ⟨hlocal, label, rs, hrs⟩
    · simp only [List.not_mem_nil, false_or] at hdone
      simp [hdone s hs] at hactive
    · -- a localized pair: the member's own ground action
      obtain ⟨a, os, ha, -, hos, next, hnext, hlo, hhi⟩ := hpatch.bounded s hs hactive
      obtain ⟨-, a', rfl, ha'⟩ | ⟨hother, -⟩ := hybridDecision_eq_ok hdecision
      · obtain rfl := HybridPolicyOverlay.patchedActions_unique ha ha'
        obtain rfl : os = outcomes := Except.ok.inj (hos.symm.trans hstep)
        exact ⟨next, hnext, hlo, hhi⟩
      · simp [hlocal] at hother
    · -- any other pair: the realizations of the label
      obtain ⟨hother, -⟩ | ⟨-, l, rfl, hl⟩ := hybridDecision_eq_ok hdecision
      · simp [hlocal] at hother
      · obtain rfl : l = label := Except.ok.inj (hl.symm.trans hrs.chosen)
        obtain ⟨raw, hraw, hmixes⟩ := abstractStep_mixes hstep
        rw [buildExactRealizationEnvelope_source henvelope] at hraw
        obtain ⟨next, hnext, hlo, hhi⟩ := hrs.step
          (outcomeStopped_hybridKernelView kernel envelope query.goal)
          hgoal henvelope hs hactive hraw (hmixes query.goal weights)
        exact ⟨next, fun o ho hstop =>
          nextBound_of_cellBound (cellBound_eq_some.mpr (hnext o ho hstop)), hlo, hhi⟩

/-! ## The audit -/

theorem auditHybridPolicy_eq_ok {goals : List C} {given : Option ℚ} {audit : AbstractPolicyAudit C}
    (h : auditHybridPolicy kernel query envelope overlay tolerance goals given = .ok audit) :
    ∃ table base roots valid state,
      rootUpperTable kernel query envelope.partition given = .ok (table, base) ∧
      query.initialDistribution.mapM (auditRoot envelope.partition table query.horizon
        (stagedDirect (hybridStep kernel query.goal (rewardWeights query) goals envelope
          overlay))) = .ok roots ∧
      reportAudit query tolerance valid base roots state = .ok audit := by
  obtain ⟨_, -, h⟩ := bind_eq_ok.mp h
  obtain ⟨_, -, h⟩ := bind_eq_ok.mp h
  obtain ⟨horizon, hhorizon, h⟩ := bind_eq_ok.mp h
  obtain rfl := queryHorizon_eq_ok hhorizon
  obtain ⟨found, -, h⟩ := bind_eq_ok.mp h
  obtain ⟨⟨table, base⟩, htable, h⟩ := bind_eq_ok.mp h
  obtain ⟨initial, hinitial, h⟩ := bind_eq_ok.mp h
  rw [queryInitialDistribution_eq] at hinitial
  cases hinitial
  obtain ⟨⟨roots, state⟩, hroots, h⟩ := bind_eq_ok.mp h
  refine ⟨table, base, roots, found.all List.isEmpty, state, htable, ?_, h⟩
  refine (Computes.eq_ok (I := StagedTable (hybridStep kernel query.goal (rewardWeights query) goals
    envelope overlay)) (.mapM fun p _ => ?_) (stagedTable_nil _) hroots).1
  exact .bind .lift fun cell _ => .bind .lift fun _ _ =>
    .bind (hybridBounds_computes query.horizon cell) fun _ _ => .pure

/-! ## The empty overlay

The two audits word some issues differently, so that they are compared up to these details. -/

def withoutDetail (issue : AuditIssue C) : AuditIssue C := { issue with detail := "" }

def withoutDetails (audit : AbstractPolicyAudit C) : AbstractPolicyAudit C :=
  { audit with issues := audit.issues.map withoutDetail }

abbrev auditLook : AuditState C → AuditState C := Prod.map id (List.map withoutDetail)

omit [PyRepr C] in
theorem map_addIssue (issues : List (AuditIssue C)) (issue : AuditIssue C) :
    (addIssue issues issue).map withoutDetail =
      addIssue (issues.map withoutDetail) (withoutDetail issue) := by
  unfold addIssue
  simp only [List.any_map]
  split
  · rename_i h
    exact (if_pos h).symm
  · rename_i h
    rw [List.map_append]
    exact (if_neg h).symm

omit [PyRepr C] in
theorem recordIssue_alike {issue issue' : AuditIssue C}
    (h : withoutDetail issue = withoutDetail issue') :
    Alike auditLook (recordIssue issue) (recordIssue issue') := by
  refine .update fun state state' hs => ?_
  obtain ⟨htable, hissues⟩ : state.1 = state'.1 ∧
      state.2.map withoutDetail = state'.2.map withoutDetail := by
    simpa [auditLook, Prod.ext_iff] using hs
  simp [auditLook, htable, map_addIssue, hissues, h]

section Alike

variable {policy : FiniteHorizonPolicy C L} {weights : Features} {goals : List C} {n : ℕ}
  {f g : C → StateT (AuditState C) (Except PyError) (Option (ℚ × ℚ))}

omit [DecidableEq S] [PyRepr S] [PyRepr C] in
theorem finishBounds_alike {empty empty' : String} {cell : C} {terminalMembers : List S}
    (values : Option (List (ℚ × ℚ))) :
    Alike auditLook (finishBounds recordIssue empty n cell terminalMembers values)
      (finishBounds recordIssue empty' n cell terminalMembers values) := by
  cases values with
  | none => exact .pure
  | some values =>
    unfold finishBounds
    dsimp only
    cases extremeBounds terminalMembers values with
    | none => exact .bind (recordIssue_alike rfl) fun _ => .pure
    | some bound => exact .pure

omit [DecidableEq A] [PyRepr A] in
theorem realizedBounds_alike {undefined undefined' empty empty' : String}
    (h : ∀ c, Alike auditLook (f c) (g c)) (cell : C) (members : List S) :
    Alike auditLook
      (realizedBounds recordIssue undefined empty kernel weights envelope policy n f cell members)
      (realizedBounds recordIssue undefined' empty' kernel weights envelope policy n g cell
        members) := by
  have hvalues : ∀ realizations : List (GroundRealization S C), Alike auditLook
      (do
        let values ← (realizations.mapM (realizationBounds weights f)).run
        finishBounds recordIssue empty n cell (members.filter kernel.isTerminal) values)
      (do
        let values ← (realizations.mapM (realizationBounds weights g)).run
        finishBounds recordIssue empty' n cell (members.filter kernel.isTerminal) values) := by
    intro realizations
    refine .bind (.optionMapM fun r => ?_) fun values => finishBounds_alike values
    refine .optionBind (.optionMapM fun e => ?_) fun _ => .pure
    exact .optionBind (h e.1) fun _ => .pure
  unfold realizedBounds auditableRealizations
  cases policy.action cell n with
  | error e => exact .bind (recordIssue_alike rfl) fun _ => .pure
  | ok action =>
    dsimp only
    cases envelope.realizations cell action with
    | error e => exact .bind (recordIssue_alike rfl) fun _ => .pure
    | ok realizations =>
      dsimp only
      split
      · exact .bind (recordIssue_alike rfl) fun _ => .pure
      · exact hvalues _

/-- A stage of an overlay that patches nothing is a stage of its base policy. -/
theorem hybridStage_empty {goal : String} (h : ∀ c, Alike auditLook (f c) (g c)) (cell : C) :
    Alike auditLook
      (hybridStage recordIssue kernel goal weights goals envelope (.empty policy) n f cell)
      (boundsStage recordIssue kernel weights goals envelope policy n g cell) := by
  refine .bind .lift fun members => ?_
  split
  · exact .pure
  · exact realizedBounds_alike h cell members

theorem hybridBounds_empty {goal : String} (n : ℕ) (cell : C) :
    Alike auditLook (hybridBounds kernel goal weights goals envelope (.empty policy) n cell)
      (bounds kernel weights goals envelope policy n cell) := by
  unfold hybridBounds bounds
  induction n generalizing cell with
  | zero => exact .memoize (hybridStage_empty (fun _ => .pure) cell)
  | succ n ih => exact .memoize (hybridStage_empty ih cell)

end Alike

omit [DecidableEq S] [PyRepr S] [DecidableEq C] in
theorem reportAudit_alike {valid : Bool} {base : ℚ} {roots : List (ℚ × ℚ × Option (ℚ × ℚ))}
    {state state' : AuditState C} (h : auditLook state = auditLook state') :
    (reportAudit query tolerance valid base roots state).map withoutDetails =
      (reportAudit query tolerance valid base roots state').map withoutDetails := by
  obtain ⟨htable, hissues⟩ : state.1 = state'.1 ∧
      state.2.map withoutDetail = state'.2.map withoutDetail := by
    simpa [auditLook, Prod.ext_iff] using h
  have hsorted : ∀ issues : List (AuditIssue C),
      (sortBy (fun i : AuditIssue C => (toLex (-(i.remaining : ℤ), toLex (pyRepr i.cell, i.code)) :
        ℤ ×ₗ String ×ₗ String)) issues).map withoutDetail = sortBy (fun i : AuditIssue C =>
          toLex (-(i.remaining : ℤ), toLex (pyRepr i.cell, i.code))) (issues.map withoutDetail) :=
    map_sortBy fun _ => rfl
  refine map_bind_congr fun _ _ => congrArg Except.ok ?_
  simp only [withoutDetails, hsorted, htable, hissues]

theorem auditHybridPolicy_empty (policy : FiniteHorizonPolicy C L) (goals : List C)
    (given : Option ℚ) :
    (auditHybridPolicy kernel query envelope (.empty policy) tolerance goals given).map
        withoutDetails =
      (auditAbstractPolicy kernel query envelope policy tolerance goals given).map
        withoutDetails := by
  refine map_bind_congr fun _ _ => map_bind_congr fun _ _ => map_bind_congr fun horizon _ => ?_
  change (rootUpperTable kernel query envelope.partition given >>= _).map withoutDetails = _
  refine map_bind_congr fun table _ => map_bind_congr fun initial _ => ?_
  refine Alike.map_bind_congr (.mapM fun p => ?_) fun roots state state' h => reportAudit_alike h
  exact .bind .lift fun cell => .bind .lift fun _ =>
    .bind (hybridBounds_empty horizon cell) fun _ => .pure

/-! ## Soundness -/

/-- The bounds of a hybrid audit hold for the lifted overlay, a certified one bounds its regret
against every ground policy, and an overlay that patches nothing is audited like its base policy. -/
theorem auditHybridPolicy_sound (hgoal : GoalFree kernel query.goal)
    (henvelope : buildExactRealizationEnvelope kernel states partition source = .ok envelope) :
    (∀ (overlay : HybridPolicyOverlay S A C L) given audit lift,
      auditHybridPolicy kernel query envelope overlay tolerance [] given = .ok audit →
      liftHybridPolicy kernel query envelope overlay = .ok lift →
      BoundsHold query audit lift.evaluation ∧
        (given = none → AuditSound kernel query tolerance audit lift.evaluation)) ∧
    ∀ policy goals given,
      (auditHybridPolicy kernel query envelope (.empty policy) tolerance goals given).map
          withoutDetails =
        (auditAbstractPolicy kernel query envelope policy tolerance goals given).map
          withoutDetails := by
  refine ⟨fun overlay given audit lift haudit hlift => ?_, auditHybridPolicy_empty⟩
  obtain ⟨table, base, roots, valid, state, htable, hroots, hreport⟩ :=
    auditHybridPolicy_eq_ok haudit
  rw [buildExactRealizationEnvelope_partition henvelope] at htable hroots
  obtain ⟨hfollows, hevaluation⟩ := evaluation_liftHybrid hlift
  have hbounded : ∀ p ∈ query.initialDistribution, ∀ c b, partition.cellOf p.2 = .ok c →
      stagedDirect (hybridStep kernel query.goal (rewardWeights query) [] envelope overlay)
        query.horizon c = .ok (some b) →
      b.1 ≤ (selectorValue (hybridKernelView kernel envelope) query.goal (rewardWeights query)
        lift.liftedPolicy.select query.horizon p.2).expectedReward ∧
      (selectorValue (hybridKernelView kernel envelope) query.goal (rewardWeights query)
        lift.liftedPolicy.select query.horizon p.2).failureProbability ≤ b.2 :=
          fun p hp c b hc hb =>
    (hybridStep_stepBounds hgoal henvelope hlift).sound (hfollows p hp)
      (nextBound_of_cellBound (cellBound_eq_some.mpr ⟨c, hc, hb⟩))
  rw [hevaluation]
  refine ⟨reportAudit_bounds hroots hreport hbounded, ?_⟩
  rintro rfl
  exact reportAudit_sound htable hroots hreport hbounded

def safeOverlay : HybridPolicyOverlay ℕ String ℕ String where
  basePolicy := rootPolicy "risky"
  decisions := [⟨1, 0, 0, "safe", Nat.one_pos⟩]
  nodup := List.nodup_singleton _
  compatible := List.pairwise_singleton _ _

theorem auditHybridPolicy_sound_gamble : ∃ envelope audit lift,
    buildExactRealizationEnvelope gambleKernel [0, 1, 2] gamblePartition
      (.ofAdapter gambleKernel primitiveAdapter) = .ok envelope ∧
    auditHybridPolicy gambleKernel gambleQuery envelope safeOverlay (1 / 4) [] none = .ok audit ∧
    audit.certified = true ∧
    liftHybridPolicy gambleKernel gambleQuery envelope safeOverlay = .ok lift ∧
    AuditSound gambleKernel gambleQuery (1 / 4) audit lift.evaluation := by
  have hcertified : (do
      let envelope ← buildExactRealizationEnvelope gambleKernel [0, 1, 2] gamblePartition
        (.ofAdapter gambleKernel primitiveAdapter)
      let audit ← auditHybridPolicy gambleKernel gambleQuery envelope safeOverlay (1 / 4) [] none
      let _ ← liftHybridPolicy gambleKernel gambleQuery envelope safeOverlay
      return audit.certified) = .ok true := by decide +kernel
  obtain ⟨envelope, henvelope, hcertified⟩ := bind_eq_ok.mp hcertified
  obtain ⟨audit, haudit, hcertified⟩ := bind_eq_ok.mp hcertified
  obtain ⟨lift, hlift, hcertified⟩ := bind_eq_ok.mp hcertified
  exact ⟨envelope, audit, lift, henvelope, haudit, pure_eq_ok.mp hcertified, hlift,
    ((auditHybridPolicy_sound gambleKernel_goalFree henvelope).1 _ _ _ _ haudit hlift).2 rfl⟩

end Acfqp.Recovery
