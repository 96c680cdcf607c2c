import Acfqp.Planning.BehavioralLift

/-!
# Audits and optima of a behavioural quotient

The members of a cell realize one behaviour, so that an audit bounds a nominal policy by its nominal
value from both sides. The extremes of the nominal frontier are those of the ground frontier.
-/

namespace Acfqp.Planning

open Library Abstraction

variable {S A : Type} [DecidableEq S] [PyRepr S] [DecidableEq A] [PyRepr A]

/-! ## Bounds that agree -/

section

variable {C : Type} {weights : Features}

omit [DecidableEq S] [PyRepr S] in
theorem extremeBounds_const {values : List (ℚ × ℚ)} {b : ℚ × ℚ} (hne : values ≠ [])
    (h : ∀ v ∈ values, v = b) : extremeBounds ([] : List S) values = some b := by
  obtain ⟨v, hv⟩ := List.exists_mem_of_ne_nil _ hne
  obtain rfl := h v hv
  have hmin : (values.map Prod.fst).min? = some v.1 := by
    refine List.min?_eq_some_iff.mpr ⟨List.mem_map_of_mem hv, fun q hq => ?_⟩
    obtain ⟨w, hw, rfl⟩ := List.mem_map.mp hq
    rw [h w hw]
  have hmax : (values.map Prod.snd).max? = some v.2 := by
    refine List.max?_eq_some_iff.mpr ⟨List.mem_map_of_mem hv, fun q hq => ?_⟩
    obtain ⟨w, hw, rfl⟩ := List.mem_map.mp hq
    rw [h w hw]
  simp [extremeBounds, hmin, hmax]

omit [DecidableEq S] [PyRepr S] in
theorem realizationBounds_returns {continuation : C → Except PyError (Option (ℚ × ℚ))}
    {r : GroundRealization S C} {V W : C → ℚ}
    (h : ∀ e ∈ r.successorProbabilities, continuation e.1 = .ok (some (V e.1, W e.1))) :
    (realizationBounds weights continuation r).run =
      .ok (some (r.reward weights + massSum V r.successorProbabilities,
        r.failureProbability + massSum W r.successorProbabilities)) := by
  refine optionBind_eq_some.mpr
    ⟨r.successorProbabilities.map fun e => (e.2 * V e.1, e.2 * W e.1), ?_, ?_⟩
  · rw [optionMapM_eq_some, List.forall₂_map_right_iff, List.forall₂_same]
    exact fun e he => optionBind_eq_some.mpr ⟨(V e.1, W e.1), h e he, by simp⟩
  · simp [massSum, Function.comp_def]

end

namespace Minimised

variable {kernel : Kernel S A} {goal : String} {weights : Features} {states : List S}
  {partition : Partition S BehavioralCellId}
  {assignments : List (BehavioralActionAssignment S A)}
  {models : QuotientModels S A BehavioralCellId BehavioralActionSignature}
  {s : S} {c : BehavioralCellId} {σ : BehavioralActionSignature}

theorem envelope_partition (h : Minimised kernel states partition assignments models) :
    models.envelope.partition = partition :=
  buildExactRealizationEnvelope_partition h.built

theorem realized_successor (h : Minimised kernel states partition assignments models)
    (hgoal : GoalFree kernel goal)
    {e : EnvelopeEntry S BehavioralCellId BehavioralActionSignature}
    (he : e ∈ models.envelope.entries) (hs : (s, e.cell) ∈ partition.assignments)
    {model : NominalActionModel BehavioralCellId}
    (hmodel : models.nominal.transition e.cell e.action = .ok model)
    {r : GroundRealization S BehavioralCellId} (hr : r ∈ e.realizations)
    {x : BehavioralCellId × ℚ} (hx : x ∈ r.successorProbabilities) :
    (∃ t, (t, x.1) ∈ partition.assignments) ∧
      ∃ y ∈ model.successorProbabilities, y.1 = x.1 := by
  obtain ⟨⟨a, ha⟩, -, hrealized, -⟩ := h.entry_spec he hs
  obtain ⟨t, ht, -, hrealization⟩ := hrealized r hr
  obtain ⟨b, hb⟩ := h.carries_of_same hs ht ha
  obtain ⟨distribution, hdistribution, -, -, hspec⟩ := h.concretize_returns ht hb
  have hpos : ∀ e ∈ r.successorProbabilities, 0 < e.2 := by
    refine successors_of_realization (Q := fun q => 0 < q) (fun _ _ hq hp => mul_pos hq hp)
      (fun _ _ => add_pos) (fun d hd x hx => ?_) hrealization
    have hraw := (normaliseConcretizer_eq_ok hd).1
    cases (show _ = _ from hdistribution).symm.trans hraw
    exact (hspec x hx).1
  obtain ⟨u, hu⟩ := registered_of_realization hrealization x hx
  refine ⟨⟨u, Partition.cellOf_eq_ok.mp hu⟩, h.successor_mem hgoal hs hmodel ?_⟩
  have hmass : 0 < massSum (fun d => if d = x.1 then (1 : ℚ) else 0) r.successorProbabilities := by
    refine (hpos x hx).trans_le ?_
    have hle := List.single_le_sum (l := r.successorProbabilities.map fun y =>
        y.2 * if y.1 = x.1 then (1 : ℚ) else 0)
      (fun q hq => by
        obtain ⟨y, hy, rfl⟩ := List.mem_map.mp hq
        exact mul_nonneg (hpos y hy).le (by split <;> simp)) _
      (List.mem_map_of_mem (f := fun y : BehavioralCellId × ℚ =>
        y.2 * if y.1 = x.1 then (1 : ℚ) else 0) hx)
    simpa [massSum] using hle
  have hboth := ((h.entry_backs hgoal he hs r hr).2 [] fun d => if d = x.1 then 1 else 0).2
  have hnull := ((h.entry_backs hgoal he hs r hr).2 [] fun _ => 0).2
  rw [massSum_zero, massSum_zero] at hnull
  dsimp only [signatureMove] at hboth hnull
  linarith

omit [DecidableEq S] [PyRepr S] [DecidableEq A] [PyRepr A] in
theorem realizations_returns {envelope : ExactRealizationEnvelope S A BehavioralCellId
      BehavioralActionSignature}
    (h : ∃ e ∈ envelope.entries, e.cell = c ∧ e.action = σ) :
    ∃ e ∈ envelope.entries, e.cell = c ∧ e.action = σ ∧
      envelope.realizations c σ = .ok e.realizations := by
  obtain ⟨x, hx, hcell, haction⟩ := h
  cases hfind : envelope.entries.find? fun e => e.cell = c ∧ e.action = σ with
  | none => simpa [hcell, haction] using List.find?_eq_none.mp hfind x hx
  | some e =>
    obtain ⟨hcell, haction⟩ : e.cell = c ∧ e.action = σ := by simpa using List.find?_some hfind
    exact ⟨e, List.mem_of_find?_eq_some hfind, hcell, haction, by
      rw [ExactRealizationEnvelope.realizations, hfind]
      rfl⟩

theorem auditableRealizations_returns (h : Minimised kernel states partition assignments models)
    {policy : FiniteHorizonPolicy BehavioralCellId BehavioralActionSignature} {n : ℕ}
    (undefinedDetail : String) {members : List S} (hmembers : partition.members c = .ok members)
    (hs : (s, c) ∈ partition.assignments) {a : A} (ha : Carries kernel partition s a σ)
    (hsel : policy.select n c = some σ) :
    ∃ e ∈ models.envelope.entries, e.cell = c ∧ e.action = σ ∧
      auditableRealizations undefinedDetail kernel models.envelope policy n c members =
        .ok e.realizations := by
  obtain ⟨e, he, rfl, rfl, hrealizations⟩ := realizations_returns (h.exists_entry hs ha)
  refine ⟨e, he, rfl, rfl, ?_⟩
  have hnone : members.find? (fun state => !kernel.isTerminal state &&
      !(e.realizations.map GroundRealization.state).contains state) = none := by
    refine List.find?_eq_none.mpr fun t ht => ?_
    obtain ⟨r, hr, rfl⟩ := (h.entry_spec he hs).2.2.2 t ((Partition.mem_of_members hmembers).mp ht)
    simp [List.mem_map_of_mem (f := GroundRealization.state) hr]
  unfold auditableRealizations
  rw [FiniteHorizonPolicy.select_eq_some.mp hsel]
  dsimp only
  rw [hrealizations]
  dsimp only
  rw [hnone]

theorem audited_value (h : Minimised kernel states partition assignments models)
    (hgoal : GoalFree kernel goal)
    {policy : FiniteHorizonPolicy BehavioralCellId BehavioralActionSignature} (n : ℕ) (s : S)
    (c : BehavioralCellId) (hs : (s, c) ∈ partition.assignments)
    (hf : (planner models weights).Follows policy.select n c) :
    stagedDirect (boundsStep kernel weights [] models.envelope policy) n c =
      .ok (some (value ((planner models weights).law Move.reward policy.select) n c,
        value ((planner models weights).law Move.failure policy.select) n c)) := by
  induction n generalizing s c with
  | zero =>
    obtain ⟨members, -, hmembers, -⟩ :=
      available_of_build h.built (Partition.mem_cellIds.mpr ⟨s, hs⟩)
    refine bind_eq_ok.mpr ⟨members, h.envelope_partition ▸ hmembers, ?_⟩
    rw [if_pos (.inl rfl)]
    rfl
  | succ n ih =>
    obtain ⟨members, -, hmembers, -⟩ :=
      available_of_build h.built (Partition.mem_cellIds.mpr ⟨s, hs⟩)
    have hmem : ∀ t, t ∈ members ↔ (t, c) ∈ partition.assignments :=
      fun _ => Partition.mem_of_members hmembers
    have hsame : ∀ t ∈ members, kernel.isTerminal t = kernel.isTerminal s := fun t ht =>
      h.stable.terminal t s ⟨c, (hmem t).mp ht, hs⟩
    refine bind_eq_ok.mpr ⟨members, h.envelope_partition ▸ hmembers, ?_⟩
    cases hactive : kernel.isTerminal s with
    | true =>
      rw [if_pos (.inr (.inr fun t ht => (hsame t ht).trans hactive))]
      have hnone : (planner models weights).actions c = [] := h.actions_terminal hs hactive
      rw [CellPlanner.value_idle hnone, CellPlanner.value_idle hnone]
      rfl
    | false =>
      obtain ⟨σ, a, model, hsel, ha, hσ, hmodel, hnext⟩ := h.exists_taken hs hactive hf
      have hleft : ¬ (n + 1 = 0 ∨ c ∈ ([] : List BehavioralCellId) ∨
          ∀ t ∈ members, kernel.isTerminal t = true) := by
        rintro (hzero | hgoal | hall)
        · omega
        · cases hgoal
        · simp [hall s ((hmem s).mpr hs)] at hactive
      obtain ⟨e, he, rfl, rfl, hauditable⟩ :=
        h.auditableRealizations_returns "no semantic action for reachable pair" hmembers hs ha
          hsel
      have hbound : ∀ r ∈ e.realizations, (realizationBounds weights (stagedDirect
          (boundsStep kernel weights [] models.envelope policy) n) r).run =
            .ok (some (value ((planner models weights).law Move.reward policy.select)
              (n + 1) e.cell,
              value ((planner models weights).law Move.failure policy.select) (n + 1) e.cell)) := by
        intro r hr
        refine (realizationBounds_returns
          (V := value ((planner models weights).law Move.reward policy.select) n)
          (W := value ((planner models weights).law Move.failure policy.select) n)
          fun x hx => ?_).trans ?_
        · obtain ⟨⟨t, ht⟩, y, hy, heq⟩ := h.realized_successor hgoal he hs hmodel hr hx
          exact ih t x.1 ht (heq ▸ hnext y hy)
        · have htakes : ∀ gain : Move BehavioralCellId → ℚ,
              value ((planner models weights).law gain policy.select) (n + 1) e.cell = _ :=
            fun _ => CellPlanner.value_takes hσ hsel (move_planner hmodel)
          have hentry := (h.entry_backs hgoal he hs r hr).2 weights
          have hnominal := h.nominal_backs hgoal hs hmodel weights
          rw [htakes, htakes, (hentry _).1, (hentry _).2]
          exact congrArg Except.ok (congrArg some
            (Prod.ext (hnominal _).1.symm (hnominal _).2.symm))
      have hvalues : ((e.realizations.mapM (realizationBounds weights (stagedDirect
          (boundsStep kernel weights [] models.envelope policy) n))).run) =
            .ok (some (e.realizations.map fun _ =>
              (value ((planner models weights).law Move.reward policy.select) (n + 1) e.cell,
                value ((planner models weights).law Move.failure policy.select) (n + 1)
                  e.cell))) := by
        rw [optionMapM_eq_some, List.forall₂_map_right_iff, List.forall₂_same]
        exact hbound
      have hterminals : members.filter kernel.isTerminal = [] := by
        refine List.filter_eq_nil_iff.mpr fun t ht => ?_
        rw [hsame t ht, hactive]
        simp
      rw [if_neg hleft, realizedBounds, hauditable]
      refine bind_eq_ok.mpr ⟨_, hvalues, ?_⟩
      rw [hterminals, finishBounds, extremeBounds_const (by simpa using (h.entry_spec he hs).2.1)
        fun v hv => by
        obtain ⟨-, -, rfl⟩ := List.mem_map.mp hv
        rfl]
      rfl

end Minimised

/-! ## The optima of a behavioural quotient -/

section

variable {kernel : Kernel S A} {query : QuerySpec S} {states : List S}
  {maxRefinementRounds : Option ℤ} {quotient : ExactBehavioralQuotient S A}

theorem minimised_of_build
    (h : buildExactBehavioralQuotient kernel states maxRefinementRounds = .ok quotient) :
    Minimised kernel (deterministicOrder states) quotient.partition quotient.assignments
      quotient.quotientModels := by
  obtain ⟨hstable, hassigned, hmodels⟩ := buildExactBehavioralQuotient_spec h
  obtain ⟨envelope, henvelope, hmodels⟩ := bind_eq_ok.mp hmodels
  rw [← pure_eq_ok.mp hmodels]
  exact ⟨hstable, hassigned, henvelope, rfl⟩

omit [DecidableEq S] [PyRepr S] [DecidableEq A] [PyRepr A] in
theorem reportAudit_complete {tolerance base : ℚ} {roots : List (ℚ × ℚ × Option (ℚ × ℚ))}
    {state : AuditState BehavioralCellId} {audit : AbstractPolicyAudit BehavioralCellId}
    (h : reportAudit query tolerance true base roots state = .ok audit)
    (hroots : ∀ r ∈ roots, ∃ b, r.2.2 = some b) :
    audit.liftedRewardLower = some (roots.map fun r => r.2.2.elim 0 fun b => r.1 * b.1).sum ∧
      audit.liftedFailureUpper = some (roots.map fun r => r.2.2.elim 0 fun b => r.1 * b.2).sum := by
  obtain ⟨_, -, h⟩ := bind_eq_ok.mp h
  obtain rfl := pure_eq_ok.mp h
  have hall : (roots.all fun r => r.2.2.isSome) = true := by
    refine List.all_eq_true.mpr fun r hr => ?_
    obtain ⟨b, hb⟩ := hroots r hr
    simp [hb]
  simp [hall]

theorem Minimised.audit_eq {partition : Partition S BehavioralCellId}
    {assignments : List (BehavioralActionAssignment S A)}
    {models : QuotientModels S A BehavioralCellId BehavioralActionSignature}
    (h : Minimised kernel states partition assignments models) (hgoal : GoalFree kernel query.goal)
    {policy : FiniteHorizonPolicy BehavioralCellId BehavioralActionSignature}
    {initial : List (BehavioralCellId × ℚ)} (hinitial : initialCells partition query = .ok initial)
    (hf : ∀ p ∈ query.initialDistribution, Planned models (rewardWeights query) partition
      policy.select query.horizon p.2)
    {tolerance : ℚ} {given : Option ℚ} {audit : AbstractPolicyAudit BehavioralCellId}
    (haudit : auditAbstractPolicy kernel query models.envelope policy tolerance [] given =
      .ok audit) :
    audit.liftedRewardLower =
        some (massSum (value ((planner models (rewardWeights query)).law Move.reward policy.select)
          query.horizon) (canonicalDistribution (tally initial))) ∧
      audit.liftedFailureUpper =
        some (massSum (value ((planner models (rewardWeights query)).law Move.failure policy.select)
          query.horizon) (canonicalDistribution (tally initial))) := by
  obtain ⟨table, base, roots, state, -, hroots, hreport⟩ := auditAbstractPolicy_eq_ok haudit
  rw [h.envelope_partition] at hroots
  have hroot : ∀ p ∈ query.initialDistribution, ∀ r, auditRoot partition table query.horizon
      (stagedDirect (boundsStep kernel (rewardWeights query) [] models.envelope policy)) p = .ok r →
      ∃ c, partition.cellOf p.2 = .ok c ∧ r.1 = p.1 ∧ r.2.2 = some
        (value ((planner models (rewardWeights query)).law Move.reward policy.select)
            query.horizon c,
          value ((planner models (rewardWeights query)).law Move.failure policy.select)
            query.horizon c) := by
    intro p hp r hr
    obtain ⟨c, hc, -, hbound, hmass⟩ := auditRoot_eq_ok hr
    obtain ⟨d, hd, hfollows⟩ := hf p hp
    obtain rfl := Partition.cell_unique hd (Partition.cellOf_eq_ok.mp hc)
    rw [h.audited_value hgoal query.horizon p.2 d hd hfollows] at hbound
    exact ⟨d, hc, hmass, (Except.ok.inj hbound).symm⟩
  obtain ⟨hlower, hupper⟩ := reportAudit_complete hreport fun r hr => by
    obtain ⟨p, hp, hpr⟩ := mem_of_mapM hroots hr
    obtain ⟨c, -, -, hb⟩ := hroot p hp r hpr
    exact ⟨_, hb⟩
  have htotal : ∀ (gain : Move BehavioralCellId → ℚ) (pick : ℚ × ℚ × Option (ℚ × ℚ) → ℚ),
      (∀ p ∈ query.initialDistribution, ∀ r, auditRoot partition table query.horizon
        (stagedDirect (boundsStep kernel (rewardWeights query) [] models.envelope policy)) p =
          .ok r → ∀ c, partition.cellOf p.2 = .ok c → pick r = p.1 *
            value ((planner models (rewardWeights query)).law gain policy.select)
              query.horizon c) →
      (roots.map pick).sum =
        massSum (value ((planner models (rewardWeights query)).law gain policy.select)
          query.horizon) (canonicalDistribution (tally initial)) := by
    intro gain pick hpick
    rw [massSum_initialCells (W := cellValue partition
      (value ((planner models (rewardWeights query)).law gain policy.select) query.horizon))
      hinitial fun p hp c hc => (cellValue_eq hc).symm]
    congr 1
    refine map_of_mapM hroots fun p hp r hr => ?_
    obtain ⟨c, hc, -⟩ := hroot p hp r hr
    rw [hpick p hp r hr c hc, cellValue_eq hc]
  rw [hlower, hupper]
  constructor
  · refine congrArg some (htotal Move.reward _ fun p hp r hr c hc => ?_)
    obtain ⟨d, hd, hmass, hb⟩ := hroot p hp r hr
    cases hc.symm.trans hd
    rw [hb, hmass]
    rfl
  · refine congrArg some (htotal Move.failure _ fun p hp r hr c hc => ?_)
    obtain ⟨d, hd, hmass, hb⟩ := hroot p hp r hr
    cases hc.symm.trans hd
    rw [hb, hmass]
    rfl

theorem Minimised.solved_of_solve {partition : Partition S BehavioralCellId}
    {assignments : List (BehavioralActionAssignment S A)}
    {models : QuotientModels S A BehavioralCellId BehavioralActionSignature}
    (h : Minimised kernel states partition assignments models)
    {result : NominalParetoResult BehavioralCellId BehavioralActionSignature}
    (hsolve : solveNominalPareto models.nominal query [] = .ok result) :
    ∃ initial, initialCells partition query = .ok initial ∧
      (planner models (rewardWeights query)).Solved paretoView query.horizon
        (canonicalDistribution (tally initial)) result.frontier := by
  have hpositive : Positive models.nominal := h.nominal ▸ positive_buildNominalQuotient _
  obtain ⟨_, hhorizon, hrun⟩ := bind_eq_ok.mp hsolve
  obtain ⟨cells, hcells, -⟩ := bind_eq_ok.mp hrun
  have hregistered : ∀ p ∈ query.initialDistribution,
      ∃ c, models.nominal.partition.cellOf p.2 = .ok c := by
    intro p hp
    obtain ⟨e, -, he⟩ := exists_of_mapM hcells hp
    obtain ⟨c, hc, -⟩ := bind_eq_ok.mp he
    exact ⟨c, hc⟩
  obtain ⟨result', initial, hresult, hinitial, hsolved⟩ :=
    solveNominalPareto_solves hpositive [] (require_eq_ok.mp hhorizon) hregistered
  cases hresult.symm.trans hsolve
  exact ⟨initial, h.partition_eq ▸ hinitial, hsolved⟩

/-- Both frontiers of a behavioural quotient have the same best reward and the same best failure,
and a nominal point keeps its value when it is lifted and when it is audited. -/
theorem behavioralQuotient_optima
    (hbuild : buildExactBehavioralQuotient kernel states maxRefinementRounds = .ok quotient)
    (hgoal : GoalFree kernel query.goal) {ground : GroundParetoResult S A}
    (hground : solveGroundPareto kernel query .none = .ok ground)
    {nominal : NominalParetoResult BehavioralCellId BehavioralActionSignature}
    (hnominal : solveNominalPareto quotient.quotientModels.nominal query [] = .ok nominal) :
    (∃ reward, IsGreatest {r | ∃ p ∈ ground.frontier, p.expectedReward = r} reward ∧
      IsGreatest {r | ∃ p ∈ nominal.frontier, p.expectedReward = r} reward) ∧
    (∃ failure, IsLeast {f | ∃ p ∈ ground.frontier, p.failureProbability = f} failure ∧
      IsLeast {f | ∃ p ∈ nominal.frontier, p.failureProbability = f} failure) ∧
    ∀ p ∈ nominal.frontier,
      evaluateSemanticPolicy kernel query quotient.partition p.policy
          (behavioralSemanticAdapter quotient.assignments) =
        .ok ⟨p.expectedReward, p.failureProbability⟩ ∧
      ∀ tolerance given audit,
        auditAbstractPolicy kernel query quotient.quotientModels.envelope p.policy tolerance []
          given = .ok audit →
        audit.liftedRewardLower = some p.expectedReward ∧
          audit.liftedFailureUpper = some p.failureProbability := by
  have h := minimised_of_build hbuild
  obtain ⟨initial, hinitial, hsolved⟩ := h.solved_of_solve hnominal
  obtain ⟨⟨⟩, hvalid, -⟩ := bind_eq_ok.mp hground
  have hcell : ∀ p ∈ query.initialDistribution, ∃ e ∈ canonicalDistribution (tally initial),
      (p.2, e.1) ∈ quotient.partition.assignments := by
    intro p hp
    obtain ⟨e, he, hpe⟩ := exists_of_mapM hinitial hp
    obtain ⟨c, hc, hpe⟩ := bind_eq_ok.mp hpe
    obtain rfl := pure_eq_ok.mp hpe
    obtain ⟨x, hx, hxc⟩ := List.mem_map.mp (mem_keys_tally.mpr (List.mem_map_of_mem he))
    refine ⟨x, mem_canonicalDistribution.mpr ⟨hx, ?_⟩, hxc ▸ Partition.cellOf_eq_ok.mp hc⟩
    exact tally_totals (P := fun q : ℚ => 0 < q) (fun _ _ => add_pos) (initialCells_pos hinitial) x
      hx
  have hpos : ∀ e ∈ canonicalDistribution (tally initial), 0 < e.2 :=
    fun e he => (mem_canonicalDistribution.mp he).2
  have htotal := nominalPlanner_total (h.nominal ▸ positive_buildNominalQuotient _ :
    Positive quotient.quotientModels.nominal) (rewardWeights query) []
  have hspanned := solveGroundPareto_spanned (h.closedCover hgoal)
    (fun p hp => (hcell p hp).elim fun e he => ⟨e.1, he.2⟩) hground
  have hsimulates := h.simulates hgoal (rewardWeights query)
  have hbest : ∀ (V : BehavioralCellId → ℚ) (W : S → ℚ),
      (∀ s c, (s, c) ∈ quotient.partition.assignments → W s = V c) →
      massSum V (canonicalDistribution (tally initial)) =
        (query.initialDistribution.map fun p => p.1 * W p.2).sum := fun V W hVW =>
    massSum_initialCells hinitial fun p hp c hc =>
      (hVW p.2 c (Partition.cellOf_eq_ok.mp hc)).symm
  refine ⟨⟨_, hspanned.isGreatest_reward, ?_⟩, ⟨_, hspanned.isLeast_failure, ?_⟩, fun p hp => ?_⟩
  · have hgreatest := hsolved.isGreatest_reward htotal hpos
    rwa [hbest _ _ fun s c hs => hsimulates.best_reward (n := query.horizon) hs] at hgreatest
  · have hleast := hsolved.isLeast_failure htotal hpos
    rwa [hbest _ _ fun s c hs => hsimulates.best_failure (n := query.horizon) hs] at hleast
  · have hf : ∀ q ∈ query.initialDistribution, Minimised.Planned
        quotient.quotientModels (rewardWeights query) quotient.partition p.policy.select
        query.horizon q.2 := by
      intro q hq
      obtain ⟨e, he, hs⟩ := hcell q hq
      exact ⟨e.1, hs, hsolved.follows p hp e he⟩
    have hvalue := hsolved.value_eq p hp
    have hreward : p.expectedReward = _ := congrArg Prod.fst hvalue
    have hfailure : p.failureProbability = _ :=
      congrArg (fun v => OrderDual.ofDual (Prod.snd v)) hvalue
    rw [hreward, hfailure]
    exact ⟨h.evaluate_lifted hgoal hvalid hinitial hf,
      fun tolerance given audit haudit => h.audit_eq hgoal hinitial hf haudit⟩

/-- Two states that lead to each other, with a safe and a failing action in both. -/
def twinKernel : Kernel ℕ String where
  horizon := 2
  initialDistribution := [(1 / 2, 0), (1 / 2, 1)]
  actions _ := .ok ["stay", "dash"]
  step state action := .ok [sureOutcome (1 - state) (if action = "stay" then 1 else 2)
    (action = "dash") false]
  isTerminal _ := false
  registeredRewardFeatures := none
  registeredGoals := none
  rewardUpperBound := none
  isGoal := none
  goalReached _ _ := false

def twinQuery : QuerySpec ℕ := { gambleQuery with
  initialDistribution := [(1 / 2, 0), (1 / 2, 1)]
  horizon := 2
  normalizer := 4
  initial_pos := by simp
  initial_nodup := by simp
  initial_sum := by norm_num
  normalizer_pos := by norm_num }

/-- The two states are merged, and what is best for one part of the initial mass is best for
all of it: the ground frontier has one more point than the nominal one, between its extremes. -/
theorem behavioralQuotient_optima_twin : ∃ quotient ground nominal,
    buildExactBehavioralQuotient twinKernel [0, 1] none = .ok quotient ∧
    quotient.partition.assignments = [(0, ⟨0⟩), (1, ⟨0⟩)] ∧
    solveGroundPareto twinKernel twinQuery .none = .ok ground ∧
    ground.frontier.map (fun p => (p.expectedReward, p.failureProbability)) =
      [(1 / 2, 0), (5 / 8, 1 / 2), (3 / 4, 1)] ∧
    solveNominalPareto quotient.quotientModels.nominal twinQuery [] = .ok nominal ∧
    IsGreatest {r | ∃ p ∈ nominal.frontier, p.expectedReward = r} (3 / 4) ∧
    IsLeast {f | ∃ p ∈ nominal.frontier, p.failureProbability = f} 0 ∧
    ∀ p ∈ nominal.frontier,
      evaluateSemanticPolicy twinKernel twinQuery quotient.partition p.policy
          (behavioralSemanticAdapter quotient.assignments) =
        .ok ⟨p.expectedReward, p.failureProbability⟩ ∧
      ∀ tolerance given audit,
        auditAbstractPolicy twinKernel twinQuery quotient.quotientModels.envelope p.policy
          tolerance [] given = .ok audit →
        audit.liftedRewardLower = some p.expectedReward ∧
          audit.liftedFailureUpper = some p.failureProbability := by
  have hgoal : GoalFree twinKernel twinQuery.goal := fun s => by simp [isStopped, twinKernel]
  have hbuilt : (do
      let quotient ← buildExactBehavioralQuotient twinKernel [0, 1] none
      return (quotient.partition.assignments, quotient.quotientModels.nominal.horizon)) =
      .ok ([(0, ⟨0⟩), (1, ⟨0⟩)], 2) := by decide +kernel
  have hsolved : (do
      let ground ← solveGroundPareto twinKernel twinQuery .none
      return ground.frontier.map fun p : ParetoPoint ℕ String =>
        (p.expectedReward, p.failureProbability)) =
      .ok [(1 / 2, 0), (5 / 8, 1 / 2), (3 / 4, 1)] := by decide +kernel
  obtain ⟨quotient, hquotient, hbuilt⟩ := bind_eq_ok.mp hbuilt
  obtain ⟨hmerged, hhorizon⟩ := Prod.mk.inj (pure_eq_ok.mp hbuilt)
  obtain ⟨ground, hground, hsolved⟩ := bind_eq_ok.mp hsolved
  have hpoints := pure_eq_ok.mp hsolved
  have hquotients := minimised_of_build hquotient
  obtain ⟨nominal, -, hnominal, -⟩ := solveNominalPareto_solves
    (hquotients.nominal ▸ positive_buildNominalQuotient _ :
      Positive quotient.quotientModels.nominal) []
    (show twinQuery.horizon ≤ _ from hhorizon.ge) fun p hp => by
        refine ⟨⟨0⟩, Partition.cellOf_eq_ok.mpr ?_⟩
        rw [hquotients.partition_eq, hmerged]
        rcases List.mem_pair.mp hp with rfl | rfl <;> simp
  obtain ⟨⟨reward, hbest, hreward⟩, ⟨failure, hleast, hfailure⟩, hpoint⟩ :=
    behavioralQuotient_optima hquotient hgoal hground hnominal
  have hrewards : {r | ∃ p ∈ ground.frontier, p.expectedReward = r} = {1 / 2, 5 / 8, 3 / 4} := by
    ext r
    have := congrArg (fun l => r ∈ l.map Prod.fst) hpoints
    simpa using this
  have hfailures : {f | ∃ p ∈ ground.frontier, p.failureProbability = f} = {0, 1 / 2, 1} := by
    ext f
    have := congrArg (fun l => f ∈ l.map Prod.snd) hpoints
    simpa using this
  obtain rfl : reward = 3 / 4 := by
    rw [hrewards] at hbest
    exact hbest.unique ⟨by simp, by rintro r (rfl | rfl | rfl) <;> norm_num⟩
  obtain rfl : failure = 0 := by
    rw [hfailures] at hleast
    exact hleast.unique ⟨by simp, by rintro f (rfl | rfl | rfl) <;> norm_num⟩
  exact ⟨quotient, ground, nominal, hquotient, hmerged, hground, hpoints, hnominal, hreward,
    hfailure, hpoint⟩

end

end Acfqp.Planning
