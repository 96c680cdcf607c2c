import Acfqp.Planning.BehavioralExact

/-!
# Lifted nominal policies of a behavioural quotient

A step of the semantic view is worth the signature that it takes, so that lifting a nominal policy
changes neither its reward nor its failure.
-/

namespace Acfqp.Planning

open Library Abstraction

variable {S A : Type} [DecidableEq S] [PyRepr S] [DecidableEq A] [PyRepr A]

/-! ## Steps of the semantic view return -/

section

variable {kernel : Kernel S A} {s : S}

omit [DecidableEq S] [PyRepr S] [DecidableEq A] [PyRepr A] in
theorem wellNamed_canonical (o : Outcome S) : (canonicalRewardFeatures o).WellNamed := by
  obtain ⟨hnames, hnodup⟩ := o.wellNamed
  exact ⟨fun f hf => hnames f (mem_sortBy.mp hf), nodup_map_sortBy hnodup⟩

omit [DecidableEq A] in
theorem coalesceAtoms_returns {κ : Type} [LinearOrder κ] {order : OutcomeAtom S → κ}
    {distribution : List (ℚ × A)} (hpos : ∀ e ∈ distribution, 0 < e.1)
    (hsum : (distribution.map Prod.fst).sum = 1)
    (houtcomes : ∀ e ∈ distribution, ∃ os, iterOutcomes kernel s e.2 = .ok os) :
    ∃ events coalesced, atomEvents kernel s outcomeAtom distribution = .ok events ∧
      coalesceAtoms order events = .ok coalesced ∧
      (coalesced.map Outcome.probability).sum = 1 := by
  obtain ⟨rows, hrows⟩ : ∃ rows, (distribution.mapM fun e => do
      let outcomes ← Planning.iterOutcomes kernel s e.2
      return outcomes.map fun o => (outcomeAtom o, e.1 * o.probability)) = .ok rows := by
    refine mapM_returns fun e he => ?_
    obtain ⟨os, hos⟩ := houtcomes e he
    exact ⟨_, bind_eq_ok.mpr ⟨os, hos, rfl⟩⟩
  have hevent : ∀ x ∈ rows.flatten, 0 < x.2 ∧ x.1.2.1.WellNamed := by
    intro x hx
    obtain ⟨row, hrow, hx⟩ := List.mem_flatten.mp hx
    obtain ⟨e, he, hy⟩ := mem_of_mapM hrows hrow
    obtain ⟨os, -, hy⟩ := bind_eq_ok.mp hy
    rw [← pure_eq_ok.mp hy] at hx
    obtain ⟨o, -, rfl⟩ := List.mem_map.mp hx
    exact ⟨mul_pos (hpos e he) o.probability_pos, wellNamed_canonical o⟩
  have htotal : ((tally rows.flatten).map Prod.snd).sum = 1 := by
    have hrow : (rows.map fun row => (row.map Prod.snd).sum) = distribution.map Prod.fst := by
      refine map_of_mapM hrows fun e _ row hy => ?_
      obtain ⟨os, hos, hy⟩ := bind_eq_ok.mp hy
      rw [← pure_eq_ok.mp hy, List.map_map]
      have hmul := List.sum_map_mul_left (l := os) Outcome.probability e.1
      rw [(iterOutcomes_eq_ok.mp hos).2, mul_one] at hmul
      exact hmul
    have hflat := sum_tally_mul (fun _ => (1 : ℚ)) rows.flatten
    simp only [mul_one] at hflat
    refine hflat.trans ?_
    rw [List.map_flatten, List.sum_flatten, List.map_map, ← hsum, ← hrow]
    rfl
  have hmass : ∀ e ∈ tally rows.flatten, 0 < e.2 :=
    tally_totals (fun _ _ => add_pos) fun e he => (hevent e he).1
  have hmake : ∀ e ∈ sortBy (fun e => order e.1) (tally rows.flatten), ∃ o,
      Outcome.make e.2 e.1.1 e.1.2.1 e.1.2.2.1 e.1.2.2.2 = .ok o := by
    intro e he
    have he := mem_sortBy.mp he
    have hle : e.2 ≤ 1 := by
      rw [← htotal]
      refine List.single_le_sum (fun q hq => ?_) _ (List.mem_map_of_mem he)
      obtain ⟨x, hx, rfl⟩ := List.mem_map.mp hq
      exact (hmass x hx).le
    have hnamed : e.1.2.1.WellNamed := by
      obtain ⟨x, hx, hxe⟩ := List.mem_map.mp (mem_keys_tally.mp (List.mem_map_of_mem he))
      exact hxe ▸ (hevent x hx).2
    exact ⟨⟨e.2, e.1.1, e.1.2.1, e.1.2.2.1, e.1.2.2.2, hmass e he, hle, hnamed⟩, by
      simp [Outcome.make, hmass e he, hle, hnamed]⟩
  obtain ⟨coalesced, hcoalesced⟩ := mapM_returns hmake
  refine ⟨rows.flatten, coalesced, bind_eq_ok.mpr ⟨rows, hrows, rfl⟩, hcoalesced, ?_⟩
  rw [map_of_mapM hcoalesced fun e _ o ho => (Outcome.make_eq_ok ho).1, sum_map_sortBy]
  exact htotal

end

section View

variable {L : Type} [DecidableEq L] [PyRepr L] {kernel : Kernel S A}
  {adapter : SemanticAdapter S A L} {s : S} {label : L} {labels : List L} {raw : List (ℚ × A)}
  {actions : List A}

theorem viewStep_returns (hlabels : adapter.labels kernel s = .ok labels) (hnodup : labels.Nodup)
    (hlabel : label ∈ labels) (hraw : adapter.concretize kernel s label = .ok raw)
    (hne : raw ≠ []) (hsum : (raw.map Prod.fst).sum = 1) (hpos : ∀ e ∈ raw, 0 < e.1)
    (hactions : kernel.actions s = .ok actions) (havailable : ∀ e ∈ raw, e.2 ∈ actions)
    (houtcomes : ∀ e ∈ raw, ∃ os, iterOutcomes kernel s e.2 = .ok os) :
    viewActions kernel adapter s = .ok labels ∧
      (∃ distribution, concretizerDistribution kernel adapter s label = .ok distribution) ∧
      ∃ outcomes, viewStep kernel adapter s label = .ok outcomes ∧
        (outcomes.map Outcome.probability).sum = 1 := by
  have hview : viewActions kernel adapter s = .ok labels :=
    bind_eq_ok.mpr ⟨labels, hlabels, bind_eq_ok.mpr ⟨(), require_eq_ok.mpr hnodup, rfl⟩⟩
  let events := raw.map fun e => (e.2, e.1)
  let distribution := sortBy (fun e => pyRepr e.2) ((tally events).map fun e => (e.2, e.1))
  have htotal : ((tally events).map Prod.snd).sum = 1 := by
    have hflat := sum_tally_mul (fun _ => (1 : ℚ)) events
    simp only [mul_one] at hflat
    refine hflat.trans ?_
    rw [List.map_map]
    exact hsum
  have hdistribution : concretizerDistribution kernel adapter s label = .ok distribution := by
    refine bind_eq_ok.mpr ⟨labels, hview, bind_eq_ok.mpr ⟨(), require_eq_ok.mpr hlabel, ?_⟩⟩
    refine bind_eq_ok.mpr ⟨raw, hraw, bind_eq_ok.mpr ⟨(), require_eq_ok.mpr hne, ?_⟩⟩
    refine bind_eq_ok.mpr ⟨actions, hactions, bind_eq_ok.mpr ⟨(), forM_of_forall ?_, ?_⟩⟩
    · intro e he
      exact bind_eq_ok.mpr ⟨(), require_eq_ok.mpr (hpos e he), require_eq_ok.mpr (havailable e he)⟩
    · exact bind_eq_ok.mpr ⟨(), require_eq_ok.mpr htotal, rfl⟩
  have hmem : ∀ e ∈ distribution, (e.2, e.1) ∈ tally events := by
    intro e he
    obtain ⟨x, hx, rfl⟩ := List.mem_map.mp (mem_sortBy.mp he)
    exact hx
  have hraw' : ∀ e ∈ distribution, ∃ x ∈ raw, x.2 = e.2 := by
    intro e he
    obtain ⟨y, hy, hye⟩ := List.mem_map.mp
      (mem_keys_tally.mp (List.mem_map_of_mem (f := Prod.fst) (hmem e he)))
    obtain ⟨x, hx, rfl⟩ := List.mem_map.mp hy
    exact ⟨x, hx, hye⟩
  obtain ⟨atoms, coalesced, hatoms, hcoalesced, hone⟩ : ∃ events coalesced,
      atomEvents kernel s outcomeAtom distribution = .ok events ∧
      coalesceAtoms atomOrder events = .ok coalesced ∧
      (coalesced.map Outcome.probability).sum = 1 :=
    coalesceAtoms_returns (fun e he => by
        refine tally_totals (P := fun q : ℚ => 0 < q) (fun _ _ => add_pos) (fun x hx => ?_) _
          (hmem e he)
        obtain ⟨y, hy, rfl⟩ := List.mem_map.mp hx
        exact hpos y hy)
      (by
        rw [sum_map_sortBy, List.map_map]
        exact htotal)
      (fun e he => by
        obtain ⟨x, hx, hxe⟩ := hraw' e he
        exact hxe ▸ houtcomes x hx)
  refine ⟨hview, ⟨distribution, hdistribution⟩, coalesced, ?_, hone⟩
  refine bind_eq_ok.mpr ⟨distribution, hdistribution, bind_eq_ok.mpr ⟨atoms, hatoms, ?_⟩⟩
  exact bind_eq_ok.mpr ⟨coalesced, hcoalesced, bind_eq_ok.mpr ⟨(), require_eq_ok.mpr hone, rfl⟩⟩

end View

namespace Minimised

variable {kernel : Kernel S A} {goal : String} {weights : Features} {states : List S}
  {partition : Partition S BehavioralCellId}
  {assignments : List (BehavioralActionAssignment S A)}
  {models : QuotientModels S A BehavioralCellId BehavioralActionSignature}
  {s : S} {c : BehavioralCellId} {σ : BehavioralActionSignature}

structure ViewStep (kernel : Kernel S A) (goal : String) (partition : Partition S BehavioralCellId)
    (assignments : List (BehavioralActionAssignment S A)) (s : S) (σ : BehavioralActionSignature)
    (outcomes : List (Outcome S)) : Prop where
  concretized : ∃ distribution, concretizerDistribution kernel
    (behavioralSemanticAdapter assignments) s σ = .ok distribution
  step : viewStep kernel (behavioralSemanticAdapter assignments) s σ = .ok outcomes
  takes : iterOutcomes (semanticKernelView kernel (behavioralSemanticAdapter assignments)) s σ =
    .ok outcomes
  reached : ∀ o ∈ outcomes, outcomeStopped kernel goal o = false →
    ∃ d, (o.nextState, d) ∈ partition.assignments
  backs : ∀ weights W, Backs (semanticKernelView kernel (behavioralSemanticAdapter assignments))
    goal
    weights outcomes (cellValue partition W) W (signatureMove weights σ)

theorem view_step (h : Minimised kernel states partition assignments models)
    (hgoal : GoalFree kernel goal) (hs : (s, c) ∈ partition.assignments) {a : A}
    (ha : Carries kernel partition s a σ) :
    (∃ labels, viewActions kernel (behavioralSemanticAdapter assignments) s = .ok labels ∧
      σ ∈ labels) ∧ ∃ outcomes, ViewStep kernel goal partition assignments s σ outcomes := by
  obtain ⟨hactive, ⟨actions, hactions, -⟩, -⟩ := id ha
  obtain ⟨labels, hlabels⟩ := h.labels_returns hs hactive
  obtain ⟨hnodup, -⟩ := behavioralLabels_spec h.assigned (h.registered hs) hactive hlabels
  have hlabel : σ ∈ labels := (h.mem_labels hs hactive hlabels).mpr ⟨a, ha⟩
  obtain ⟨raw, hraw, hne, hsum, hspec⟩ := h.concretize_returns hs ha
  have havailable : ∀ e ∈ raw, e.2 ∈ actions := by
    intro e he
    obtain ⟨-, -, ⟨actions', hactions', hmem⟩, -⟩ := hspec e he
    cases hactions.symm.trans hactions'
    exact hmem
  have hsigned := fun e he => actionSignature_backs hgoal (hspec e he).2.2.2
  have hprovided : (behavioralSemanticAdapter assignments).labels kernel s = .ok labels := hlabels
  obtain ⟨hview, hconcretized, outcomes, hstep, hone⟩ := viewStep_returns hprovided hnodup hlabel
    hraw hne hsum (fun e he => (hspec e he).1) hactions havailable fun e he =>
      (hsigned e he).imp fun _ h => h.1
  obtain ⟨raw', hraw', hmixes⟩ := viewStep_mixes hstep
  cases hraw.symm.trans hraw'
  refine ⟨⟨labels, hview, hlabel⟩, outcomes, hconcretized, hstep,
    iterOutcomes_eq_ok.mpr ⟨hstep, hone⟩, ?_, ?_⟩
  · intro o ho hstop
    obtain ⟨e, he, os, hos, o', ho', hnext, hstopped⟩ := (hmixes goal []).reached o ho
    obtain ⟨os', hos', hreached, -⟩ := hsigned e he
    cases hos.symm.trans hos'
    obtain ⟨d, hd⟩ := hreached o' ho' (hstopped.trans hstop)
    exact ⟨d, hnext ▸ Partition.cellOf_eq_ok.mp hd⟩
  · intro weights W
    obtain ⟨hreward, hfailure⟩ :=
      mixtureBackup_signed hgoal hsum (fun e he => (hspec e he).2.2.2) weights W
    exact ⟨((hmixes goal weights).reward _).trans hreward,
      ((hmixes goal weights).failure _).trans hfailure⟩

/-! ## Lifted decisions -/

theorem massSum_zero {T : Type} (d : Distribution T) : massSum (fun _ => 0) d = 0 := by
  simp [massSum]

theorem successor_mem (h : Minimised kernel states partition assignments models)
    (hgoal : GoalFree kernel goal) (hs : (s, c) ∈ partition.assignments)
    {model : NominalActionModel BehavioralCellId}
    (hmodel : models.nominal.transition c σ = .ok model) {d : BehavioralCellId}
    (hd : 0 < massSum (fun x => if x = d then 1 else 0) σ.successorProbabilities) :
    ∃ e ∈ model.successorProbabilities, e.1 = d := by
  by_contra hnone
  have hzero : massSum (fun x => if x = d then 1 else 0) model.successorProbabilities = 0 := by
    rw [massSum_congr (W := fun _ => 0) fun e he => if_neg fun heq => hnone ⟨e, he, heq⟩,
      massSum_zero]
  have hboth := (h.nominal_backs hgoal hs hmodel [] fun x => if x = d then 1 else 0).2
  have hnull := (h.nominal_backs hgoal hs hmodel [] fun _ => 0).2
  rw [hzero] at hboth
  rw [massSum_zero, massSum_zero] at hnull
  dsimp only [signatureMove] at hboth hnull
  linarith

theorem ViewStep.successor_mem {outcomes : List (Outcome S)}
    (hstep : ViewStep kernel goal partition assignments s σ outcomes)
    (h : Minimised kernel states partition assignments models) (hgoal : GoalFree kernel goal)
    (hs : (s, c) ∈ partition.assignments) {model : NominalActionModel BehavioralCellId}
    (hmodel : models.nominal.transition c σ = .ok model) {o : Outcome S} (ho : o ∈ outcomes)
    (hactive : outcomeStopped kernel goal o = false) {d : BehavioralCellId}
    (hd : (o.nextState, d) ∈ partition.assignments) :
    ∃ e ∈ model.successorProbabilities, e.1 = d := by
  refine h.successor_mem hgoal hs hmodel ?_
  have hboth := (hstep.backs [] fun x => if x = d then 1 else 0).2
  have hnull := (hstep.backs [] fun _ => 0).2
  rw [backup_split] at hboth hnull
  have hzero : ∀ t : S, cellValue partition (fun _ => (0 : ℚ)) t = 0 := by
    intro t
    rw [cellValue]
    cases partition.cellOf t <;> rfl
  have hnonneg : ∀ t : S,
      0 ≤ cellValue partition (fun x => if x = d then (1 : ℚ) else 0) t := by
    intro t
    rw [cellValue]
    cases partition.cellOf t with
    | error e => exact le_rfl
    | ok x => by_cases hx : x = d <;> simp [Except.toOption, hx]
  have hone : cellValue partition (fun x => if x = d then (1 : ℚ) else 0) o.nextState = 1 := by
    rw [cellValue_eq (Partition.cellOf_eq_ok.mpr hd), if_pos rfl]
  have hle : o.probability ≤ ((outcomes.filter fun o => !outcomeStopped
      (semanticKernelView kernel (behavioralSemanticAdapter assignments)) goal o).map fun o =>
        o.probability * cellValue partition (fun x => if x = d then 1 else 0) o.nextState).sum := by
    have hmem := List.single_le_sum (l := (outcomes.filter fun o => !outcomeStopped
      (semanticKernelView kernel (behavioralSemanticAdapter assignments)) goal o).map fun o =>
        o.probability * cellValue partition (fun x => if x = d then 1 else 0) o.nextState)
      (fun q hq => by
        obtain ⟨x, -, rfl⟩ := List.mem_map.mp hq
        exact mul_nonneg x.probability_pos.le (hnonneg _))
      (o.probability * cellValue partition (fun x => if x = d then 1 else 0) o.nextState)
      (List.mem_map_of_mem (f := fun o : Outcome S =>
        o.probability * cellValue partition (fun x => if x = d then 1 else 0) o.nextState)
        (List.mem_filter.mpr ⟨ho, by
          rw [outcomeStopped_semanticKernelView, hactive]
          rfl⟩))
    rwa [hone, mul_one] at hmem
  simp only [hzero, mul_zero, List.map_const', List.sum_replicate, smul_zero, add_zero, massSum,
    signatureMove] at hnull hboth ⊢
  have hpos := o.probability_pos
  linarith

theorem actions_terminal (h : Minimised kernel states partition assignments models)
    (hs : (s, c) ∈ partition.assignments) (hterminal : kernel.isTerminal s = true) :
    (planner models weights).actions c = [] := by
  rw [actions_planner]
  by_contra hne
  obtain ⟨σ, hσ⟩ := List.exists_mem_of_ne_nil _ hne
  obtain ⟨a, hactive, -⟩ := (h.mem_nominal_actions hs).mp hσ
  rw [hterminal] at hactive
  cases hactive

/-- A followed policy takes a nominal action at every active pair. -/
theorem exists_taken (h : Minimised kernel states partition assignments models)
    {select : Selector BehavioralCellId BehavioralActionSignature} {n : ℕ}
    (hs : (s, c) ∈ partition.assignments) (hactive : kernel.isTerminal s = false)
    (hf : (planner models weights).Follows select (n + 1) c) :
    ∃ σ a model, select (n + 1) c = some σ ∧ Carries kernel partition s a σ ∧
      σ ∈ (planner models weights).actions c ∧ models.nominal.transition c σ = .ok model ∧
      ∀ e ∈ model.successorProbabilities, (planner models weights).Follows select n e.1 := by
  rcases hf with hnil | ⟨σ, hσ, hsel, hnext⟩
  · obtain ⟨actions, hactions, hne⟩ := h.stable.actions s (h.registered hs) hactive
    obtain ⟨a, ha⟩ := List.exists_mem_of_ne_nil _ hne
    obtain ⟨σ, hσ⟩ := h.exists_carries hs hactive hactions ha
    rw [actions_planner] at hnil
    have hmem := (h.mem_nominal_actions hs).mpr ⟨a, hσ⟩
    rw [hnil] at hmem
    cases hmem
  · have hmem : σ ∈ models.nominal.actions c := (actions_planner models weights c) ▸ hσ
    obtain ⟨a, ha⟩ := (h.mem_nominal_actions hs).mp hmem
    obtain ⟨model, hmodel⟩ := NominalQuotient.transition_returns hmem
    exact ⟨σ, a, model, hsel, ha, hσ, hmodel, hnext _ (move_planner hmodel)⟩

/-- What the lift expands a followed pair to. -/
theorem expandSemantic_taken (h : Minimised kernel states partition assignments models)
    (hgoal : GoalFree kernel goal)
    {policy : FiniteHorizonPolicy BehavioralCellId BehavioralActionSignature} {n : ℕ}
    (hs : (s, c) ∈ partition.assignments) (hactive : kernel.isTerminal s = false) {a : A}
    (hsel : policy.select (n + 1) c = some σ) (ha : Carries kernel partition s a σ) :
    ∃ outcomes, ViewStep kernel goal partition assignments s σ outcomes ∧
      expandSemantic kernel goal partition policy (behavioralSemanticAdapter assignments) (n + 1)
        s =
        .ok (some σ, if n = 0 then [] else
          (outcomes.filter fun o => !outcomeStopped kernel goal o).map Outcome.nextState) := by
  obtain ⟨⟨labels, hlabels, hlabel⟩, outcomes, hstep⟩ := h.view_step hgoal hs ha
  obtain ⟨distribution, hdistribution⟩ := hstep.concretized
  refine ⟨outcomes, hstep, ?_⟩
  have hstop : isStopped (semanticKernelView kernel (behavioralSemanticAdapter assignments)) s
    goal =
      false := (hgoal s).trans hactive
  unfold expandSemantic
  dsimp only
  rw [if_neg (by simp [hstop])]
  refine bind_eq_ok.mpr ⟨labels, hlabels, ?_⟩
  rw [if_neg (List.ne_nil_of_mem hlabel)]
  refine bind_eq_ok.mpr ⟨c, Partition.cellOf_eq_ok.mpr hs, bind_eq_ok.mpr
    ⟨σ, FiniteHorizonPolicy.select_eq_some.mp hsel, bind_eq_ok.mpr ⟨(), require_eq_ok.mpr hlabel,
      bind_eq_ok.mpr ⟨distribution, hdistribution, ?_⟩⟩⟩⟩
  by_cases hn : n = 0
  · rw [if_pos (by omega), if_pos hn]
    rfl
  · rw [if_neg (by omega), if_neg hn]
    exact bind_eq_ok.mpr ⟨outcomes, hstep.step, rfl⟩

omit [DecidableEq A] in
theorem expandSemantic_idle [DecidableEq A] (hgoal : GoalFree kernel goal)
    {policy : FiniteHorizonPolicy BehavioralCellId BehavioralActionSignature} {n : ℕ}
    (hidle : n = 0 ∨ kernel.isTerminal s = true) :
    expandSemantic kernel goal partition policy (behavioralSemanticAdapter assignments) n s =
      .ok (none, []) := by
  have hstop : n = 0 ∨ isStopped (semanticKernelView kernel
      (behavioralSemanticAdapter assignments)) s goal = true :=
    hidle.imp_right fun hterminal => (hgoal s).trans hterminal
  unfold expandSemantic
  dsimp only
  rw [if_pos hstop]

/-- The pair lies in the partition, and the policy is followed from its cell. -/
def Planned (models : QuotientModels S A BehavioralCellId BehavioralActionSignature)
    (weights : Features) (partition : Partition S BehavioralCellId)
    (select : Selector BehavioralCellId BehavioralActionSignature) (n : ℕ) (s : S) : Prop :=
  ∃ c, (s, c) ∈ partition.assignments ∧ (planner models weights).Follows select n c

theorem expandSemantic_planned (h : Minimised kernel states partition assignments models)
    (hgoal : GoalFree kernel goal)
    {policy : FiniteHorizonPolicy BehavioralCellId BehavioralActionSignature} (n : ℕ) (s : S)
    (hs : Planned models weights partition policy.select n s) :
    ∃ d cs, expandSemantic kernel goal partition policy (behavioralSemanticAdapter assignments) n
      s =
      .ok (d, cs) ∧ ∀ m, n = m + 1 → ∀ t ∈ cs,
        Planned models weights partition policy.select m t := by
  obtain ⟨c, hs, hf⟩ := hs
  cases n with
  | zero => exact ⟨none, [], expandSemantic_idle hgoal (.inl rfl), by simp⟩
  | succ n =>
    cases hactive : kernel.isTerminal s with
    | true => exact ⟨none, [], expandSemantic_idle hgoal (.inr hactive), by simp⟩
    | false =>
      obtain ⟨σ, a, model, hsel, ha, -, hmodel, hnext⟩ := h.exists_taken hs hactive hf
      obtain ⟨outcomes, hstep, hexpand⟩ := h.expandSemantic_taken hgoal hs hactive hsel ha
      refine ⟨_, _, hexpand, fun m hm t ht => ?_⟩
      obtain rfl : n = m := by omega
      split at ht
      · cases ht
      · obtain ⟨o, ho, rfl⟩ := List.mem_map.mp ht
        obtain ⟨ho, hstop⟩ := List.mem_filter.mp ho
        have hstop : outcomeStopped kernel goal o = false := by simpa using hstop
        obtain ⟨d, hd⟩ := hstep.reached o ho hstop
        obtain ⟨e, he, rfl⟩ := hstep.successor_mem h hgoal hs hmodel ho hstop hd
        exact ⟨e.1, hd, hnext e he⟩

theorem lifted_value (h : Minimised kernel states partition assignments models)
    (hgoal : GoalFree kernel goal)
    {policy : FiniteHorizonPolicy BehavioralCellId BehavioralActionSignature} {horizon : ℕ}
    {roots : List S} {trail : Trail S BehavioralActionSignature}
    (htrail : exploreAll (expandSemantic kernel goal partition policy
      (behavioralSemanticAdapter assignments)) horizon roots = .ok trail)
    {lifted : FiniteHorizonPolicy S BehavioralActionSignature}
    (hlifted : FiniteHorizonPolicy.fromMapping trail.records = .ok lifted) (n : ℕ) (s : S)
    (c : BehavioralCellId) (hs : (s, c) ∈ partition.assignments)
    (hf : (planner models weights).Follows policy.select n c)
    (hvisited : n = 0 ∨ (n, s) ∈ trail.visited) :
    Follows (semanticKernelView kernel (behavioralSemanticAdapter assignments)) goal lifted.select
      n s ∧
    value (selectorLaw (semanticKernelView kernel (behavioralSemanticAdapter assignments)) goal
        (fun o => outcomeReward o weights) lifted.select) n s =
      value ((planner models weights).law Move.reward policy.select) n c ∧
    value (selectorLaw (semanticKernelView kernel (behavioralSemanticAdapter assignments)) goal
        failureCost lifted.select) n s =
      value ((planner models weights).law Move.failure policy.select) n c := by
  induction n generalizing s c with
  | zero => exact ⟨trivial, rfl, rfl⟩
  | succ n ih =>
    cases hactive : kernel.isTerminal s with
    | true =>
      have hidle : Idle (semanticKernelView kernel (behavioralSemanticAdapter assignments)) goal
          s :=
        .inl ((hgoal s).trans hactive)
      have hnone : (planner models weights).actions c = [] := h.actions_terminal hs hactive
      exact ⟨.inl hidle, by rw [value_idle hidle, CellPlanner.value_idle hnone],
        by rw [value_idle hidle, CellPlanner.value_idle hnone]⟩
    | false =>
      obtain ⟨σ, a, model, hsel, ha, hσ, hmodel, hnext⟩ := h.exists_taken hs hactive hf
      obtain ⟨outcomes, hstep, hexpand⟩ := h.expandSemantic_taken hgoal hs hactive hsel ha
      obtain ⟨⟨labels, hlabels, hlabel⟩, -⟩ := h.view_step hgoal hs ha
      obtain ⟨d, cs, hexpand', hrecord, hreached⟩ :=
        exploreAll_complete htrail (hvisited.resolve_left (by omega))
      obtain ⟨rfl, rfl⟩ := Prod.mk.inj (Except.ok.inj (hexpand.symm.trans hexpand'))
      have ht : Takes (semanticKernelView kernel (behavioralSemanticAdapter assignments)) goal
          lifted.select (n + 1) s σ outcomes :=
        ⟨(hgoal s).trans hactive, ⟨labels, hlabels, hlabel⟩,
          (select_fromMapping hlifted).mpr (hrecord σ rfl), hstep.takes⟩
      have hbelow : ∀ o ∈ outcomes, outcomeStopped kernel goal o = false →
          ∃ d, (o.nextState, d) ∈ partition.assignments ∧
            (planner models weights).Follows policy.select n d ∧
            (n = 0 ∨ (n, o.nextState) ∈ trail.visited) := by
        intro o ho hstop
        obtain ⟨d, hd⟩ := hstep.reached o ho hstop
        obtain ⟨e, he, rfl⟩ := hstep.successor_mem h hgoal hs hmodel ho hstop hd
        refine ⟨e.1, hd, hnext e he, ?_⟩
        by_cases hn : n = 0
        · exact .inl hn
        · refine .inr (hreached n rfl _ ?_)
          rw [if_neg hn]
          exact List.mem_map_of_mem (List.mem_filter.mpr ⟨ho, by simp [hstop]⟩)
      have hvalue : ∀ (gain : Outcome S → ℚ) (W : BehavioralCellId → ℚ),
          (∀ t d, (t, d) ∈ partition.assignments →
            (planner models weights).Follows policy.select n d →
            (n = 0 ∨ (n, t) ∈ trail.visited) →
            value (selectorLaw (semanticKernelView kernel (behavioralSemanticAdapter assignments))
              goal gain lifted.select) n t = W d) →
          value (selectorLaw (semanticKernelView kernel (behavioralSemanticAdapter assignments))
            goal
            gain lifted.select) (n + 1) s =
          backup (outcomeBranches (semanticKernelView kernel
            (behavioralSemanticAdapter assignments)) goal gain outcomes)
              (cellValue partition W) := by
        intro gain W hW
        rw [value_takes ht]
        refine backup_congr fun b hb t hbt => ?_
        obtain ⟨o, ho, hstop, rfl⟩ := next_outcomeBranches hb hbt
        obtain ⟨d, hd, hfd, hv⟩ := hbelow o ho hstop
        rw [hW _ d hd hfd hv, cellValue_eq (Partition.cellOf_eq_ok.mpr hd)]
      have htakes : ∀ gain : Move BehavioralCellId → ℚ,
          value ((planner models weights).law gain policy.select) (n + 1) c = _ :=
        fun _ => CellPlanner.value_takes hσ hsel (move_planner hmodel)
      refine ⟨.inr ⟨σ, outcomes, ht, fun o ho hstop => ?_⟩, ?_, ?_⟩
      · obtain ⟨d, hd, hfd, hv⟩ := hbelow o ho hstop
        exact (ih _ d hd hfd hv).1
      · rw [hvalue _ _ fun t d hd hfd hv => (ih t d hd hfd hv).2.1, (hstep.backs weights _).1,
          htakes]
        exact (h.nominal_backs hgoal hs hmodel weights _).1.symm
      · rw [hvalue _ _ fun t d hd hfd hv => (ih t d hd hfd hv).2.2, (hstep.backs weights _).2,
          htakes]
        exact (h.nominal_backs hgoal hs hmodel weights _).2.symm

/-- The lift of a policy that is followed from the initial cells evaluates to its nominal value. -/
theorem evaluate_lifted (h : Minimised kernel states partition assignments models)
    {query : QuerySpec S} (hgoal : GoalFree kernel query.goal)
    (hvalid : validateQuery kernel query = .ok ())
    {policy : FiniteHorizonPolicy BehavioralCellId BehavioralActionSignature}
    {initial : List (BehavioralCellId × ℚ)} (hinitial : initialCells partition query = .ok initial)
    (hf : ∀ p ∈ query.initialDistribution, Planned models (rewardWeights query) partition
      policy.select query.horizon p.2) :
    evaluateSemanticPolicy kernel query partition policy (behavioralSemanticAdapter assignments) =
      .ok ⟨massSum (value ((planner models (rewardWeights query)).law Move.reward policy.select)
          query.horizon) (canonicalDistribution (tally initial)),
        massSum (value ((planner models (rewardWeights query)).law Move.failure policy.select)
          query.horizon) (canonicalDistribution (tally initial))⟩ := by
  let roots := (query.initialDistribution.filter fun p => 0 < p.1).map Prod.snd
  have hroots : ∀ s ∈ roots, Planned models (rewardWeights query) partition policy.select
      query.horizon s := by
    intro s hs
    obtain ⟨p, hp, rfl⟩ := List.mem_map.mp hs
    exact hf p (List.mem_filter.mp hp).1
  obtain ⟨trail, htrail⟩ := exploreAll_returns (h.expandSemantic_planned hgoal) hroots
  have hrecords : ∀ x ∈ trail.records, 0 < x.1.1 := by
    intro x hx
    obtain ⟨cs, hexpand⟩ := exploreAll_emitted htrail (p := x.1) (d := x.2) hx
    by_contra hzero
    rw [expandSemantic_idle hgoal (.inl (by omega))] at hexpand
    cases hexpand
  obtain ⟨lifted, hlifted⟩ :=
    FiniteHorizonPolicy.fromMapping_returns hrecords (exploreAll_tidy htrail).nodup
  have hlift : liftSemanticPolicyDecisions kernel query partition policy
      (behavioralSemanticAdapter assignments) = .ok lifted := by
    refine bind_eq_ok.mpr ⟨(), hvalid, bind_eq_ok.mpr
      ⟨query.horizon, queryHorizon_of_valid hvalid, bind_eq_ok.mpr
        ⟨_, queryInitialDistribution_eq _ query, bind_eq_ok.mpr ⟨trail, htrail, hlifted⟩⟩⟩⟩
  have hvalue : ∀ p ∈ query.initialDistribution, ∀ c, partition.cellOf p.2 = .ok c → _ :=
    fun p hp c hc => h.lifted_value hgoal htrail hlifted query.horizon p.2 c
      (Partition.cellOf_eq_ok.mp hc)
      (by
        obtain ⟨d, hd, hfd⟩ := hf p hp
        exact Partition.cell_unique hd (Partition.cellOf_eq_ok.mp hc) ▸ hfd)
      (.inr ((exploreAll_explored htrail).2 p.2 (List.mem_map_of_mem
        (List.mem_filter.mpr ⟨hp, by simpa using query.initial_pos p hp⟩))))
  refine bind_eq_ok.mpr ⟨lifted, hlift, evaluateGroundPolicy_eq_ok.mpr ⟨hvalid, ?_, ?_⟩⟩
  · intro p hp
    obtain ⟨c, hc, -⟩ := hf p hp
    exact (hvalue p hp c (Partition.cellOf_eq_ok.mpr hc)).1
  · rw [massSum_initialCells hinitial fun p hp c hc => (hvalue p hp c hc).2.1.symm,
      massSum_initialCells hinitial fun p hp c hc => (hvalue p hp c hc).2.2.symm]
    rfl

end Minimised

end Acfqp.Planning
