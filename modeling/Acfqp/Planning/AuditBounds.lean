import Acfqp.Planning.Audit
import Acfqp.Planning.Mixture

/-!
# What an audit's bounds say

The memoized recursion of the audit computes a direct recursion over the cells. A bound of a cell
bounds every exact realization of the chosen action, and the envelope holds one realization for
every active member.
-/

namespace Acfqp.Planning

open Library Abstraction

variable {S A C L : Type}

/-! ## The recursion without its table -/

section

/-- A recursion by stages without a table. -/
def stagedDirect (stage : ℕ → (C → Except PyError (Option (ℚ × ℚ))) → C →
    Except PyError (Option (ℚ × ℚ))) : ℕ → C → Except PyError (Option (ℚ × ℚ))
  | 0, cell => stage 0 (fun _ => .ok none) cell
  | n + 1, cell => stage (n + 1) (stagedDirect stage n) cell

def StagedTable (stage : ℕ → (C → Except PyError (Option (ℚ × ℚ))) → C →
    Except PyError (Option (ℚ × ℚ))) (state : AuditState C) : Prop :=
  Agrees (fun k => stagedDirect stage k.1 k.2) state.1 ∧ True

variable {stage : ℕ → (C → Except PyError (Option (ℚ × ℚ))) → C →
    Except PyError (Option (ℚ × ℚ))}

theorem stagedTable_nil (issues : List (AuditIssue C)) : StagedTable stage ([], issues) :=
  ⟨by simp [Agrees], trivial⟩

variable [DecidableEq C]

theorem recordIssue_computes (issue : AuditIssue C) :
    Computes (StagedTable stage) (recordIssue issue) (pure ()) :=
  .update fun _ hstate => ⟨hstate.1, trivial⟩

theorem stagedBounds_computes
    {memoStage : ℕ → (C → StateT (AuditState C) (Except PyError) (Option (ℚ × ℚ))) → C →
      StateT (AuditState C) (Except PyError) (Option (ℚ × ℚ))}
    (hstage : ∀ n f g, (∀ c, Computes (StagedTable stage) (f c) (g c)) →
      ∀ c, Computes (StagedTable stage) (memoStage n f c) (stage n g c)) (n : ℕ) (cell : C) :
    Computes (StagedTable stage) (stagedBounds memoStage n cell) (stagedDirect stage n cell) := by
  induction n generalizing cell with
  | zero => exact Computes.memoize (J := fun _ => True) (hstage 0 _ _ (fun _ => .pure) cell)
  | succ n ih => exact Computes.memoize (J := fun _ => True) (hstage (n + 1) _ _ ih cell)

end

section Direct

variable [DecidableEq S] [PyRepr S] [DecidableEq C] [PyRepr C] [DecidableEq L] [PyRepr L]
  {kernel : Kernel S A} {weights : Features} {goals : List C}
  {envelope : ExactRealizationEnvelope S A C L} {policy : FiniteHorizonPolicy C L}

abbrev boundsStep (kernel : Kernel S A) (weights : Features) (goals : List C)
    (envelope : ExactRealizationEnvelope S A C L) (policy : FiniteHorizonPolicy C L) :
    ℕ → (C → Except PyError (Option (ℚ × ℚ))) → C → Except PyError (Option (ℚ × ℚ)) :=
  boundsStage (fun _ => pure ()) kernel weights goals envelope policy

section Stage

variable {σ : Type} {I : σ → Prop} {n : ℕ} {f : C → StateT σ (Except PyError) (Option (ℚ × ℚ))}
  {g : C → Except PyError (Option (ℚ × ℚ))} {record : AuditIssue C → StateT σ (Except PyError) Unit}

omit [DecidableEq S] [PyRepr S] [DecidableEq C] [PyRepr C] in
theorem realizationBounds_computes (h : ∀ c, Computes I (f c) (g c)) (r : GroundRealization S C) :
    Computes I (realizationBounds weights f r).run (realizationBounds weights g r).run := by
  refine .optionBind (.optionMapM fun e _ => ?_) fun _ _ => .pure
  exact .optionBind (h e.1) fun _ _ => .pure

omit [DecidableEq S] [PyRepr S] [DecidableEq C] [PyRepr C] in
theorem finishBounds_computes (hrecord : ∀ i, Computes I (record i) (pure ())) {empty : String}
    {cell : C} {terminalMembers : List S} (values : Option (List (ℚ × ℚ))) :
    Computes I (finishBounds record empty n cell terminalMembers values)
      (finishBounds (fun _ => pure ()) empty n cell terminalMembers values) := by
  cases values with
  | none => exact .pure
  | some values =>
    unfold finishBounds
    dsimp only
    cases extremeBounds terminalMembers values with
    | none => exact .bind (hrecord _) fun _ _ => .pure
    | some bound => exact .pure

theorem realizedBounds_computes (hrecord : ∀ i, Computes I (record i) (pure ()))
    {undefined empty : String} (h : ∀ c, Computes I (f c) (g c)) (cell : C) (members : List S) :
    Computes I
      (realizedBounds record undefined empty kernel weights envelope policy n f cell members)
      (realizedBounds (fun _ => pure ()) undefined empty kernel weights envelope policy n g cell
        members) := by
  unfold realizedBounds
  cases auditableRealizations undefined kernel envelope policy n cell members with
  | error issue => exact .bind (hrecord issue) fun _ _ => .pure
  | ok realizations =>
    exact .bind (.optionMapM fun r _ => realizationBounds_computes h r) fun values _ =>
      finishBounds_computes hrecord values

theorem boundsStage_computes (hrecord : ∀ i, Computes I (record i) (pure ()))
    (h : ∀ c, Computes I (f c) (g c)) (cell : C) :
    Computes I (boundsStage record kernel weights goals envelope policy n f cell)
      (boundsStep kernel weights goals envelope policy n g cell) := by
  refine .bind .lift fun members _ => ?_
  split
  · exact .pure
  · exact realizedBounds_computes hrecord h cell members

end Stage

theorem bounds_computes (n : ℕ) (cell : C) :
    Computes (StagedTable (boundsStep kernel weights goals envelope policy))
      (bounds kernel weights goals envelope policy n cell)
      (stagedDirect (boundsStep kernel weights goals envelope policy) n cell) := by
  unfold bounds
  apply stagedBounds_computes
  intro n f g h c
  exact boundsStage_computes recordIssue_computes h c

/-! ## Reading a bound -/

theorem auditableRealizations_eq_ok {undefined : String} {n : ℕ} {cell : C} {members : List S}
    {realizations : List (GroundRealization S C)}
    (h : auditableRealizations undefined kernel envelope policy n cell members =
      .ok realizations) :
    ∃ action, policy.action cell n = .ok action ∧
      envelope.realizations cell action = .ok realizations ∧
      ∀ s ∈ members, kernel.isTerminal s = false → ∃ r ∈ realizations, r.state = s := by
  unfold auditableRealizations at h
  split at h
  · cases h
  · rename_i action hpolicy
    split at h
    · cases h
    · rename_i realizations' hrealizations
      dsimp only at h
      split at h
      · cases h
      · rename_i hmissing
        cases h
        refine ⟨action, hpolicy, hrealizations, fun s hs hactive => ?_⟩
        have := List.find?_eq_none.mp hmissing s hs
        simpa [hactive] using this

omit [DecidableEq S] [PyRepr S] in
theorem extremeBounds_eq_some {terminalMembers : List S} {values : List (ℚ × ℚ)} {lo hi : ℚ}
    (h : extremeBounds terminalMembers values = some (lo, hi)) :
    (terminalMembers ≠ [] → lo ≤ 0 ∧ 0 ≤ hi) ∧ ∀ v ∈ values, lo ≤ v.1 ∧ v.2 ≤ hi := by
  obtain ⟨reward, hmin, h⟩ := Option.bind_eq_some_iff.mp h
  obtain ⟨failure, hmax, h⟩ := Option.bind_eq_some_iff.mp h
  cases h
  have hmem : ∀ v ∈ terminalMembers.map (fun _ => ((0, 0) : ℚ × ℚ)) ++ values,
      lo ≤ v.1 ∧ v.2 ≤ hi := fun v hv =>
    ⟨min?_le hmin (List.mem_map_of_mem hv), le_max? hmax (List.mem_map_of_mem hv)⟩
  refine ⟨fun hne => ?_, fun v hv => hmem v (List.mem_append_right _ hv)⟩
  obtain ⟨s, hs⟩ := List.exists_mem_of_ne_nil _ hne
  exact hmem (0, 0) (List.mem_append_left _ (List.mem_map.mpr ⟨s, hs, rfl⟩))

omit [DecidableEq S] [PyRepr S] [DecidableEq C] [PyRepr C] in
theorem realizationBounds_eq_some {continuation : C → Except PyError (Option (ℚ × ℚ))}
    {r : GroundRealization S C} {v : ℚ × ℚ}
    (h : (realizationBounds weights continuation r).run = .ok (some v)) :
    ∃ next : C → ℚ × ℚ,
      (∀ e ∈ r.successorProbabilities, continuation e.1 = .ok (some (next e.1))) ∧
      v.1 = r.reward weights + (r.successorProbabilities.map fun e => e.2 * (next e.1).1).sum ∧
      v.2 = r.failureProbability +
        (r.successorProbabilities.map fun e => e.2 * (next e.1).2).sum := by
  obtain ⟨branches, hbranches, h⟩ := optionBind_eq_some.mp h
  obtain rfl := optionPure_eq_some.mp h
  rw [optionMapM_eq_some] at hbranches
  let next : C → ℚ × ℚ := fun c => (continuation c).toOption.join.getD (0, 0)
  have hone : ∀ {e : C × ℚ} {b : ℚ × ℚ}, (do
      let bound ← OptionT.mk (continuation e.1)
      pure (e.2 * bound.1, e.2 * bound.2) : OptionT (Except PyError) (ℚ × ℚ)).run =
        .ok (some b) → continuation e.1 = .ok (some (next e.1)) ∧
          b = (e.2 * (next e.1).1, e.2 * (next e.1).2) := by
    intro e b hb
    obtain ⟨bound, hbound, hb⟩ := optionBind_eq_some.mp hb
    have hc : continuation e.1 = .ok (some bound) := hbound
    have hn : next e.1 = bound := by simp [next, hc, Except.toOption]
    exact ⟨hn ▸ hc, by rw [hn, ← optionPure_eq_some.mp hb]⟩
  refine ⟨next, fun e he => ?_, ?_, ?_⟩
  · obtain ⟨b, -, hb⟩ := exists_mem_of_forall₂ hbranches he
    exact (hone hb).1
  · rw [map_of_forall₂ hbranches fun e _ b hb => congrArg Prod.fst (hone hb).2]
  · rw [map_of_forall₂ hbranches fun e _ b hb => congrArg Prod.snd (hone hb).2]

omit [DecidableEq S] [PyRepr S] [DecidableEq C] [PyRepr C] in
theorem finishBounds_eq_some {empty : String} {n : ℕ} {cell : C} {terminalMembers : List S}
    {values : Option (List (ℚ × ℚ))} {lo hi : ℚ}
    (h : finishBounds (m := Except PyError) (fun _ => pure ()) empty n cell terminalMembers values =
      .ok (some (lo, hi))) :
    ∃ vs, values = some vs ∧ (terminalMembers ≠ [] → lo ≤ 0 ∧ 0 ≤ hi) ∧
      ∀ v ∈ vs, lo ≤ v.1 ∧ v.2 ≤ hi := by
  cases values with
  | none => cases h
  | some values =>
    unfold finishBounds at h
    cases hextreme : extremeBounds terminalMembers values with
    | none =>
      simp only [hextreme] at h
      obtain ⟨_, -, h⟩ := bind_eq_ok.mp h
      cases h
    | some bound =>
      simp only [hextreme] at h
      cases h
      exact ⟨values, rfl, extremeBounds_eq_some hextreme⟩

/-- What realizations have bounded: every terminal member, and every realization of the chosen
action under the bounds of its successor cells. -/
structure RealizedBound (kernel : Kernel S A) (weights : Features)
    (envelope : ExactRealizationEnvelope S A C L) (policy : FiniteHorizonPolicy C L) (n : ℕ)
    (continuation : C → Except PyError (Option (ℚ × ℚ))) (cell : C) (members : List S) (lo hi : ℚ)
    (action : L) (realizations : List (GroundRealization S C)) : Prop where
  chosen : policy.action cell n = .ok action
  realized : envelope.realizations cell action = .ok realizations
  covered : ∀ s ∈ members, kernel.isTerminal s = false → ∃ r ∈ realizations, r.state = s
  terminal : ∀ s ∈ members, kernel.isTerminal s = true → lo ≤ 0 ∧ 0 ≤ hi
  bounded : ∀ r ∈ realizations, ∃ next : C → ℚ × ℚ,
    (∀ e ∈ r.successorProbabilities, continuation e.1 = .ok (some (next e.1))) ∧
    lo ≤ r.reward weights + (r.successorProbabilities.map fun e => e.2 * (next e.1).1).sum ∧
    r.failureProbability + (r.successorProbabilities.map fun e => e.2 * (next e.1).2).sum ≤ hi

theorem realizedBounds_eq_some {undefined empty : String} {n : ℕ}
    {continuation : C → Except PyError (Option (ℚ × ℚ))} {cell : C} {members : List S} {lo hi : ℚ}
    (h : realizedBounds (fun _ => pure ()) undefined empty kernel weights envelope policy n
      continuation cell members = .ok (some (lo, hi))) :
    ∃ action realizations, RealizedBound kernel weights envelope policy n continuation cell members
      lo hi action realizations := by
  unfold realizedBounds at h
  cases hall : auditableRealizations undefined kernel envelope policy n cell members with
  | error issue =>
    rw [hall] at h
    obtain ⟨_, -, h⟩ := bind_eq_ok.mp h
    cases h
  | ok realizations =>
    rw [hall] at h
    obtain ⟨values, hvalues, h⟩ := bind_eq_ok.mp h
    obtain ⟨vs, rfl, hterminal, hvalue⟩ := finishBounds_eq_some h
    obtain ⟨action, hpolicy, hrealizations, hactive⟩ := auditableRealizations_eq_ok hall
    refine ⟨action, realizations, hpolicy, hrealizations, hactive, fun s hs hterm => ?_,
      fun r hr => ?_⟩
    · exact hterminal (List.ne_nil_of_mem (List.mem_filter.mpr ⟨hs, hterm⟩))
    · obtain ⟨v, hv, hrun⟩ := exists_mem_of_forall₂ (optionMapM_eq_some.mp hvalues) hr
      obtain ⟨next, hnext, hlo, hhi⟩ := realizationBounds_eq_some hrun
      exact ⟨next, hnext, hlo ▸ (hvalue v hv).1, hhi ▸ (hvalue v hv).2⟩

theorem boundsStage_eq_some {n : ℕ} {continuation : C → Except PyError (Option (ℚ × ℚ))} {cell : C}
    {lo hi : ℚ} (h : boundsStep kernel weights goals envelope policy n continuation cell =
      .ok (some (lo, hi))) :
    ∃ members, envelope.partition.members cell = .ok members ∧
      ((n = 0 ∨ cell ∈ goals ∨ ∀ s ∈ members, kernel.isTerminal s = true) ∧ lo = 0 ∧ hi = 0 ∨
      n ≠ 0 ∧ ∃ action realizations, RealizedBound kernel weights envelope policy n continuation
        cell members lo hi action realizations) := by
  obtain ⟨members, hmembers, h⟩ := bind_eq_ok.mp h
  refine ⟨members, hmembers, ?_⟩
  split at h
  · rename_i hdone
    cases h
    exact .inl ⟨hdone, rfl, rfl⟩
  · rename_i hleft
    exact .inr ⟨fun hn => hleft (.inl hn), realizedBounds_eq_some h⟩

/-! ## Reading a report -/

def auditRoot (partition : Partition S C) (table : Option (List ((ℕ × C) × ℚ))) (horizon : ℕ)
    (bound : ℕ → C → Except PyError (Option (ℚ × ℚ))) (p : ℚ × S) :
    Except PyError (ℚ × ℚ × Option (ℚ × ℚ)) := do
  let cell ← partition.cellOf p.2
  let upper ← rootUpperAt table horizon cell
  let result ← bound horizon cell
  pure (p.1, upper, result)

theorem auditRoot_eq_ok {partition : Partition S C} {table : Option (List ((ℕ × C) × ℚ))}
    {horizon : ℕ} {bound : ℕ → C → Except PyError (Option (ℚ × ℚ))} {p : ℚ × S}
    {r : ℚ × ℚ × Option (ℚ × ℚ)} (h : auditRoot partition table horizon bound p = .ok r) :
    ∃ c, partition.cellOf p.2 = .ok c ∧ rootUpperAt table horizon c = .ok r.2.1 ∧
      bound horizon c = .ok r.2.2 ∧ r.1 = p.1 := by
  obtain ⟨c, hc, h⟩ := bind_eq_ok.mp h
  obtain ⟨u, hu, h⟩ := bind_eq_ok.mp h
  obtain ⟨result, hresult, h⟩ := bind_eq_ok.mp h
  obtain rfl := pure_eq_ok.mp h
  exact ⟨c, hc, hu, hresult, rfl⟩

omit [DecidableEq S] [PyRepr S] [DecidableEq C] in
theorem reportAudit_eq_ok {query : QuerySpec S} {tolerance base : ℚ} {valid : Bool}
    {roots : List (ℚ × ℚ × Option (ℚ × ℚ))} {state : AuditState C} {audit : AbstractPolicyAudit C}
    (h : reportAudit query tolerance valid base roots state = .ok audit) :
    audit.unrestrictedRewardUpper = base + (roots.map fun r => r.1 * r.2.1).sum ∧
      (audit.certified = true → (roots.all fun r => r.2.2.isSome) = true ∧
        audit.unrestrictedRewardUpper - (roots.map fun r => r.2.2.elim 0 fun b => r.1 * b.1).sum ≤
          tolerance ∧
        (roots.map fun r => r.2.2.elim 0 fun b => r.1 * b.2).sum ≤ query.delta) ∧
      (∀ lower, audit.liftedRewardLower = some lower →
        (roots.all fun r => r.2.2.isSome) = true ∧
          lower = (roots.map fun r => r.2.2.elim 0 fun b => r.1 * b.1).sum) ∧
      ∀ upper, audit.liftedFailureUpper = some upper →
        (roots.all fun r => r.2.2.isSome) = true ∧
          upper = (roots.map fun r => r.2.2.elim 0 fun b => r.1 * b.2).sum := by
  obtain ⟨_, -, h⟩ := bind_eq_ok.mp h
  obtain rfl := pure_eq_ok.mp h
  refine ⟨rfl, ?_, ?_, ?_⟩
  · simp only [Bool.and_eq_true, decide_eq_true_eq]
    exact fun hc => ⟨hc.1.1.2, hc.1.2, hc.2⟩
  · intro lower hlower
    dsimp only at hlower
    split at hlower
    · rename_i hcomplete
      exact ⟨(Bool.and_eq_true_iff.mp hcomplete).2, (Option.some.inj hlower).symm⟩
    · cases hlower
  · intro upper hupper
    dsimp only at hupper
    split at hupper
    · rename_i hcomplete
      exact ⟨(Bool.and_eq_true_iff.mp hcomplete).2, (Option.some.inj hupper).symm⟩
    · cases hupper

/-- The roots of an audit are those of the recursion without its table. -/
theorem auditAbstractPolicy_eq_ok [PyRepr A] {query : QuerySpec S} {tolerance : ℚ}
    {given : Option ℚ} {audit : AbstractPolicyAudit C}
    (h : auditAbstractPolicy kernel query envelope policy tolerance goals given = .ok audit) :
    ∃ table base roots state,
      rootUpperTable kernel query envelope.partition given = .ok (table, base) ∧
      query.initialDistribution.mapM (auditRoot envelope.partition table query.horizon
        (stagedDirect (boundsStep kernel (rewardWeights query) goals envelope policy))) =
          .ok roots ∧
      reportAudit query tolerance true base roots state = .ok audit := by
  obtain ⟨_, -, h⟩ := bind_eq_ok.mp h
  obtain ⟨_, -, h⟩ := bind_eq_ok.mp h
  obtain ⟨horizon, hhorizon, h⟩ := bind_eq_ok.mp h
  obtain rfl := queryHorizon_eq_ok hhorizon
  obtain ⟨⟨table, base⟩, htable, h⟩ := bind_eq_ok.mp h
  obtain ⟨initial, hinitial, h⟩ := bind_eq_ok.mp h
  rw [queryInitialDistribution_eq] at hinitial
  cases hinitial
  obtain ⟨⟨roots, state⟩, hroots, h⟩ := bind_eq_ok.mp h
  refine ⟨table, base, roots, state, htable, ?_, h⟩
  refine (Computes.eq_ok (I := StagedTable (boundsStep kernel (rewardWeights query) goals envelope
    policy)) (.mapM fun p _ => ?_) (stagedTable_nil []) hroots).1
  exact .bind .lift fun cell _ => .bind .lift fun _ _ =>
    .bind (bounds_computes query.horizon cell) fun _ _ => .pure

end Direct

end Acfqp.Planning
