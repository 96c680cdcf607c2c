import Acfqp.Coordinates.RelabelledLog
import Acfqp.Coordinates.Representatives
import Mathlib.Data.Rat.Encodable

/-!
# Synthesis is invariant under relabelling

The covariates of a relabelled log are the relabelled covariates, so the registry, the summary of
every pair of coordinates and the choice among them stay the same.
-/

namespace Acfqp.Coordinates

open Library Acfqp.Graph

variable {ι : Type} [LinearOrder ι]

namespace AnonymousGraphSourceLog

section Covariates

variable {ids : ContentIds ι} {log : AnonymousGraphSourceLog ids}
  {π : ∀ t : GraphTopology, Equiv.Perm (Fin t.vertexCount)} (hids : ids.Injective)
  (h : log.Admits π)

/-- A topology and a state under the permutation of the topology. -/
theorem StateOf.relabelled {s : GraphStateView ι} {t : GraphTopology} (hs : log.StateOf π s t)
    {action action' : Option (GraphActionView ι)} {legal legal' : List (GraphActionView ι)}
    (haction : action'.map (·.move) = action.map fun a => relabelAction (cells (π t)) a.move)
    (hlegal : legal'.length = legal.length) :
    Relabelled (cells (π t)) ⟨t, s, action, legal⟩
      ⟨permuted π t, s.relabel (ids.topologyId (permuted π t)) (cells (π t)), action', legal'⟩ where
  vertexCount := rfl
  keeps := keeps_cells (π t)
  neighbors := neighbors_relabelTopology (keeps_cells (π t))
  keepsRanks := hs.keeps
  ranks := rfl
  action := haction
  legalActions := hlegal

theorem relabel_topologyAt {s : GraphStateView ι} {t : GraphTopology} (hs : log.StateOf π s t) :
    (log.relabel hids h).topologyAt (log.relabelState π s).topologyId = .ok (permuted π t) := by
  rw [hs.relabelState_eq hids]
  exact topologyAt_eq hids (mem_sortBy.mpr (List.mem_map_of_mem hs.mem))

omit [LinearOrder ι] in
variable (ids) in
theorem catalogue_relabel {s : GraphStateView ι} {t : GraphTopology}
    (hs : Keeps (cells (π t)) s.ranks.length) :
    Agree (fun legal legal' => legal'.length = legal.length) GraphError.index (catalogue ids t s)
      (catalogue ids (permuted π t)
        (s.relabel (ids.topologyId (permuted π t)) (cells (π t)))) := by
  have hsame : (s.relabel (ids.topologyId (permuted π t)) (cells (π t))).failure = s.failure := rfl
  unfold catalogue
  rw [hsame]
  by_cases hfailure : s.failure = true
  · rw [if_pos hfailure, if_pos hfailure]
    exact .inr ⟨[], [], rfl, rfl, rfl⟩
  · rw [if_neg hfailure, if_neg hfailure]
    obtain ⟨he, he'⟩ | ⟨legal, legal', hl, hl', heq⟩ := legalActionViews_relabel ids hs
    · exact .inl ⟨he, he'⟩
    · exact .inr ⟨legal, legal', hl, hl', by simp [heq]⟩

theorem mem_namedStates_relabel {s' : GraphStateView ι} :
    s' ∈ (log.relabel hids h).namedStates ↔ ∃ s ∈ log.namedStates, log.relabelState π s = s' := by
  constructor
  · intro hs'
    obtain ⟨row', hrow', hs'⟩ := mem_namedStates.mp hs'
    obtain ⟨row, hrow, rfl⟩ := List.mem_map.mp (mem_sortBy.mp hrow')
    obtain ⟨t, -, hstate, hnext⟩ := exists_topology h hrow
    obtain rfl | ⟨outcome', houtcome', rfl⟩ := hs'
    · exact ⟨row.state, state_mem_namedStates hrow, (state_relabelRow row).symm⟩
    · rw [hstate.relabelRow_eq hids] at houtcome'
      obtain ⟨outcome, houtcome, rfl⟩ := List.mem_map.mp houtcome'
      exact ⟨outcome.nextState, nextState_mem_namedStates hrow houtcome,
        (hnext outcome houtcome).relabelState_eq hids⟩
  · rintro ⟨s, hs, rfl⟩
    obtain ⟨row, hrow, hs⟩ := mem_namedStates.mp hs
    obtain ⟨t, -, hstate, hnext⟩ := exists_topology h hrow
    refine mem_namedStates.mpr ⟨log.relabelRow π row,
      mem_sortBy.mpr (List.mem_map_of_mem hrow), ?_⟩
    obtain rfl | ⟨outcome, houtcome, rfl⟩ := hs
    · exact .inl (state_relabelRow row).symm
    · refine .inr ⟨outcome.relabel (ids.topologyId (permuted π t)) (cells (π t)), ?_, ?_⟩
      · rw [hstate.relabelRow_eq hids]
        exact List.mem_map_of_mem houtcome
      · rw [(hnext outcome houtcome).relabelState_eq hids]
        rfl

theorem stateCovariate_relabel {s : GraphStateView ι} (hs : s ∈ log.namedStates) :
    Agree (fun c c' => ∃ σ, Relabelled σ c c') GraphError.index
      (do
        let topology ← log.topologyAt s.topologyId
        let legal ← catalogue ids topology s
        return (⟨topology, s, none, legal⟩ : EvaluationCovariate ι))
      (do
        let topology ← (log.relabel hids h).topologyAt (log.relabelState π s).topologyId
        let legal ← catalogue ids topology (log.relabelState π s)
        return (⟨topology, log.relabelState π s, none, legal⟩ : EvaluationCovariate ι)) := by
  obtain ⟨t, ht⟩ := exists_stateOf h hs
  rw [relabel_topologyAt hids h ht, ← ht.topologyId, topologyAt_eq hids ht.mem,
    ht.relabelState_eq hids]
  exact (catalogue_relabel ids ht.keeps).bind fun legal legal' hlegal =>
    .inr ⟨_, _, rfl, rfl, _, ht.relabelled rfl hlegal⟩

theorem stateCovariates_relabel : Agree (Covers fun c c' => ∃ σ, Relabelled σ c c')
    GraphError.index log.stateCovariates (log.relabel hids h).stateCovariates := by
  have hcovers : Covers (fun s s' => s ∈ log.namedStates ∧ log.relabelState π s = s')
      (sortBy ids.stateId ((Dict.ofPairs (log.namedStates.map fun s => (ids.stateId s, s))).map
        Prod.snd))
      (sortBy ids.stateId ((Dict.ofPairs ((log.relabel hids h).namedStates.map
        fun s => (ids.stateId s, s))).map Prod.snd)) := by
    refine ⟨fun s hs => ?_, fun s' hs' => ?_⟩
    · rw [mem_sortBy, mem_values_ofPairs hids.stateId] at hs
      refine ⟨log.relabelState π s, ?_, hs, rfl⟩
      rw [mem_sortBy, mem_values_ofPairs hids.stateId, mem_namedStates_relabel]
      exact ⟨s, hs, rfl⟩
    · rw [mem_sortBy, mem_values_ofPairs hids.stateId, mem_namedStates_relabel] at hs'
      obtain ⟨s, hs, rfl⟩ := hs'
      refine ⟨s, ?_, hs, rfl⟩
      rwa [mem_sortBy, mem_values_ofPairs hids.stateId]
  refine hcovers.mapM fun s _ s' _ hss' => ?_
  obtain ⟨hs, rfl⟩ := hss'
  exact stateCovariate_relabel hids h hs

theorem actionCovariates_relabel : Agree (Covers fun c c' => ∃ σ, Relabelled σ c c')
    GraphError.index log.actionCovariates (log.relabel hids h).actionCovariates := by
  have hcovers : Covers (fun row row' => row ∈ log.rows ∧ log.relabelRow π row = row') log.rows
      (log.relabel hids h).rows := by
    refine ⟨fun row hrow => ⟨_, mem_sortBy.mpr (List.mem_map_of_mem hrow), hrow, rfl⟩,
      fun row' hrow' => ?_⟩
    obtain ⟨row, hrow, rfl⟩ := List.mem_map.mp (mem_sortBy.mp hrow')
    exact ⟨row, hrow, hrow, rfl⟩
  refine hcovers.mapM fun row _ row' _ hrr' => ?_
  obtain ⟨hrow, rfl⟩ := hrr'
  obtain ⟨t, -, ht, -⟩ := exists_topology h hrow
  rw [state_relabelRow, relabel_topologyAt hids h ht, ← ht.topologyId, topologyAt_eq hids ht.mem,
    ht.relabelRow_eq hids, ht.relabelState_eq hids]
  exact .inr ⟨_, _, rfl, rfl, _, ht.relabelled rfl (by simp [GraphObservedRow.relabel])⟩

theorem action_of_actionCovariates {cs : List (EvaluationCovariate ι)}
    (hcs : log.actionCovariates = .ok cs) : ∀ c ∈ cs, c.action.isSome := by
  intro c hc
  obtain ⟨row, -, hrow⟩ := mem_of_mapM hcs hc
  obtain ⟨_, -, hc⟩ := bind_eq_ok.mp hrow
  cases hc
  rfl

/-! ## The summary of a pair of coordinates -/

theorem stateProgramValue_relabel {p : GraphCoordinateProgram .integer} (hp : p.context = .state)
    {s : GraphStateView ι} (hs : s ∈ log.namedStates) :
    (log.relabel hids h).stateProgramValue p (log.relabelState π s) =
      log.stateProgramValue p s := by
  obtain ⟨t, ht⟩ := exists_stateOf h hs
  unfold stateProgramValue
  rw [relabel_topologyAt hids h ht, ← ht.topologyId, topologyAt_eq hids ht.mem,
    ht.relabelState_eq hids]
  change (catalogue _ _ _ >>= _) = (catalogue _ _ _ >>= _)
  obtain ⟨he, he'⟩ | ⟨legal, legal', hl, hl', hlength⟩ := catalogue_relabel ids ht.keeps
  · rw [he, he']
    rfl
  · rw [hl, hl']
    have hrelabelled : Relabelled (cells (π t)) ⟨t, s, none, legal⟩ ⟨permuted π t,
        s.relabel (ids.topologyId (permuted π t)) (cells (π t)), none, legal'⟩ :=
      ht.relabelled rfl hlength
    have hvalue := evaluateProgram_relabelled hrelabelled p
      fun hcontext => (by rw [hp] at hcontext; cases hcontext)
    obtain ⟨he, he'⟩ | ⟨v, _, hv, hv', rfl⟩ := hvalue
    · exact he'.trans he.symm
    · exact hv'.trans hv.symm

theorem actionProgramValue_relabel {p : GraphCoordinateProgram .integer}
    {row : GraphObservedRow ι} (hrow : row ∈ log.rows) :
    (log.relabel hids h).actionProgramValue p (log.relabelRow π row) =
      log.actionProgramValue p row := by
  obtain ⟨t, -, ht, -⟩ := exists_topology h hrow
  unfold actionProgramValue
  rw [state_relabelRow, relabel_topologyAt hids h ht, ← ht.topologyId, topologyAt_eq hids ht.mem,
    ht.relabelRow_eq hids, ht.relabelState_eq hids]
  have hrelabelled : Relabelled (cells (π t)) ⟨t, row.state, some row.action, row.legalActions⟩
      ⟨permuted π t, row.state.relabel (ids.topologyId (permuted π t)) (cells (π t)),
        some (row.relabel ids (ids.topologyId (permuted π t)) (cells (π t))).action,
        (row.relabel ids (ids.topologyId (permuted π t)) (cells (π t))).legalActions⟩ :=
    ht.relabelled rfl (by simp [GraphObservedRow.relabel])
  have hvalue := evaluateProgram_relabelled hrelabelled p fun _ => rfl
  obtain ⟨he, he'⟩ | ⟨v, _, hv, hv', rfl⟩ := hvalue
  · exact he'.trans he.symm
  · exact hv'.trans hv.symm

end Covariates

section Summary

variable {ids : ContentIds ι} {log : AnonymousGraphSourceLog ids}

def destinationOf (value : GraphStateView ι → ℕ) (outcome : GraphOutcomeView ι) : Destination :=
  if outcome.failure then .failure
  else if outcome.nextState.remainingHorizon = 0 then .safeTerminal
  else .active outcome.nextState.remainingHorizon (value outcome.nextState)

variable (ids) in
def rowOf (stateValue : GraphStateView ι → ℕ) (actionValue : GraphObservedRow ι → ℕ)
    (row : GraphObservedRow ι) : SupportRow ι :=
  ⟨ids.stateId row.state, row.state.remainingHorizon, stateValue row.state, actionValue row,
    row.outcomes.map fun outcome =>
      (destinationOf stateValue outcome, outcome.probability, outcome.normalizedReward)⟩

/-- Coordinates with a value everywhere have a summary. -/
theorem candidateSummary_eq (hids : ids.Injective) {p q : GraphCoordinateProgram .integer}
    {stateValue : GraphStateView ι → ℕ} {actionValue : GraphObservedRow ι → ℕ}
    (hstate : ∀ s ∈ log.namedStates, log.stateProgramValue p s = .ok (stateValue s))
    (haction : ∀ row ∈ log.rows, log.actionProgramValue q row = .ok (actionValue row)) :
    log.candidateSummary p q =
      .ok (summarize p q (log.rows.map (rowOf ids stateValue actionValue))) := by
  obtain ⟨values, hvalues, hlookup⟩ := lookup_foldlM_setDefault ids.stateId hstate
    fun a _ b _ hab => congrArg stateValue (hids.stateId hab)
  have hrows : log.rows.mapM (log.supportRow values q) =
      .ok (log.rows.map (rowOf ids stateValue actionValue)) := by
    refine mapM_of_forall fun row hrow => ?_
    have houtcomes : row.outcomes.mapM (fun outcome => do
        let destination ← outcome.destination ids values
        return (destination, outcome.probability, outcome.normalizedReward)) =
          .ok (row.outcomes.map fun outcome =>
            (destinationOf stateValue outcome, outcome.probability, outcome.normalizedReward)) := by
      refine mapM_of_forall fun outcome houtcome => ?_
      have hdestination : outcome.destination ids values =
          .ok (destinationOf stateValue outcome) := by
        unfold GraphOutcomeView.destination destinationOf
        split
        · rfl
        · split
          · rfl
          · rw [hlookup _ (nextState_mem_namedStates hrow houtcome)]
            rfl
      rw [hdestination]
      rfl
    unfold supportRow
    rw [hlookup _ (state_mem_namedStates hrow), haction row hrow, houtcomes]
    rfl
  unfold candidateSummary stateValues
  rw [hvalues]
  change (log.rows.mapM (log.supportRow values q) >>= _) = _
  rw [hrows]
  rfl

theorem candidateSummary_relabel {π : ∀ t : GraphTopology, Equiv.Perm (Fin t.vertexCount)}
    (hids : ids.Injective) (h : log.Admits π) {p q : GraphCoordinateProgram .integer}
    (hcontext : p.context = .state)
    (hp : ∀ s ∈ log.namedStates, ∃ v, log.stateProgramValue p s = .ok v)
    (hq : ∀ row ∈ log.rows, ∃ v, log.actionProgramValue q row = .ok v) :
    (log.relabel hids h).candidateSummary p q = log.candidateSummary p q := by
  let log' := log.relabel hids h
  let value (log : AnonymousGraphSourceLog ids) s := (log.stateProgramValue p s).toOption.getD 0
  let action (log : AnonymousGraphSourceLog ids) row :=
    (log.actionProgramValue q row).toOption.getD 0
  have hvalue : ∀ s ∈ log.namedStates, log.stateProgramValue p s = .ok (value log s) := by
    intro s hs
    obtain ⟨v, hv⟩ := hp s hs
    simp only [value, hv]
    rfl
  have haction : ∀ row ∈ log.rows, log.actionProgramValue q row = .ok (action log row) := by
    intro row hrow
    obtain ⟨v, hv⟩ := hq row hrow
    simp only [action, hv]
    rfl
  have hsame : ∀ s ∈ log.namedStates, value log' (log.relabelState π s) = value log s :=
    fun s hs => congrArg (fun x => x.toOption.getD 0) (stateProgramValue_relabel hids h hcontext hs)
  have hsameAction : ∀ row ∈ log.rows, action log' (log.relabelRow π row) = action log row :=
    fun row hrow => congrArg (fun x => x.toOption.getD 0) (actionProgramValue_relabel hids h hrow)
  have hvalue' : ∀ s' ∈ log'.namedStates, log'.stateProgramValue p s' = .ok (value log' s') := by
    intro s' hs'
    obtain ⟨s, hs, rfl⟩ := (mem_namedStates_relabel hids h).mp hs'
    rw [hsame s hs, ← hvalue s hs]
    exact stateProgramValue_relabel hids h hcontext hs
  have haction' : ∀ row' ∈ log'.rows, log'.actionProgramValue q row' = .ok (action log' row') := by
    intro row' hrow'
    obtain ⟨row, hrow, rfl⟩ := List.mem_map.mp (mem_sortBy.mp hrow')
    rw [hsameAction row hrow, ← haction row hrow]
    exact actionProgramValue_relabel hids h hrow
  -- New names of states, as a function of their identifiers.
  let rename := Function.extend ids.stateId (fun s => ids.stateId (log.relabelState π s)) id
  have hrename : ∀ s, rename (ids.stateId s) = ids.stateId (log.relabelState π s) :=
    fun s => hids.stateId.extend_apply _ _ s
  have hrow : ∀ row ∈ log.rows, rowOf ids (value log') (action log') (log.relabelRow π row) =
      (rowOf ids (value log) (action log) row).rename rename := by
    intro row hrow
    obtain ⟨t, -, ht, hnext⟩ := exists_topology h hrow
    have hdestination : ∀ outcome ∈ row.outcomes, destinationOf (value log')
        (outcome.relabel (ids.topologyId (permuted π t)) (cells (π t))) =
          destinationOf (value log) outcome := by
      intro outcome houtcome
      have := hsame _ (nextState_mem_namedStates hrow houtcome)
      rw [(hnext outcome houtcome).relabelState_eq hids] at this
      simp only [destinationOf, GraphOutcomeView.relabel, this]
      rfl
    unfold rowOf SupportRow.rename
    rw [hsameAction row hrow, state_relabelRow, hsame _ (state_mem_namedStates hrow)]
    simp only [hrename, SupportRow.mk.injEq, true_and]
    rw [ht.relabelRow_eq hids, ht.relabelState_eq hids]
    refine ⟨rfl, ?_⟩
    simp only [GraphObservedRow.relabel, List.map_map]
    exact List.map_congr_left fun outcome houtcome =>
      Prod.ext (hdestination outcome houtcome) rfl
  have hperm : (log'.rows.map (rowOf ids (value log') (action log'))).Perm
      ((log.rows.map (rowOf ids (value log) (action log))).map (SupportRow.rename rename)) := by
    refine ((perm_sortBy _ _).map _).trans (List.Perm.of_eq ?_)
    rw [List.map_map, List.map_map]
    exact List.map_congr_left hrow
  rw [candidateSummary_eq hids hvalue haction, candidateSummary_eq hids hvalue' haction',
    summarize_rename p q hperm]
  intro a ha b hb hab
  obtain ⟨row, hrow, rfl⟩ := List.mem_map.mp ha
  obtain ⟨row', hrow', rfl⟩ := List.mem_map.mp hb
  have heq : log.relabelState π row.state = log.relabelState π row'.state := by
    refine hids.stateId ?_
    rw [← hrename, ← hrename]
    exact hab
  exact congrArg ids.stateId (relabelState_inj hids h (state_mem_namedStates hrow)
    (state_mem_namedStates hrow') heq)

end Summary

end AnonymousGraphSourceLog

/-! ## The registry -/

theorem mem_ofType {τ : GraphProgramType} {programs : List AnyProgram}
    {p : GraphCoordinateProgram τ} (h : p ∈ ofType τ programs) : p.any ∈ programs := by
  obtain ⟨⟨τ', q⟩, hq, heq⟩ := List.mem_filterMap.mp h
  by_cases hτ : τ' = τ
  · subst hτ
    simp only [dite_true, Option.some.injEq] at heq
    exact heq ▸ hq
  · simp [hτ] at heq

theorem programSignature_of_representatives {ids : ContentIds ι} {programId : AnyProgram → ι}
    {states actions : List (EvaluationCovariate ι)} {programs : List AnyProgram}
    {d : List ((GraphProgramType × GraphProgramContext × List (ValueKey ι)) × AnyProgram)}
    (h : representatives ids programId states actions programs = .ok d) :
    ∀ e ∈ d, ∃ signature, programSignature ids states actions e.2 = .ok signature := by
  refine foldlM_invariant (P := fun d => ∀ e ∈ d, ∃ signature,
    programSignature ids states actions e.2 = .ok signature) ?_ (by simp) h
  intro d hd program _ d' hstep e he
  obtain ⟨signature, hsignature, hd'⟩ := bind_eq_ok.mp hstep
  cases hd'
  have hassign : ∀ {e}, e ∈ Dict.assign signature program d →
      ∃ signature, programSignature ids states actions e.2 = .ok signature := by
    intro e he
    rcases Dict.mem_assign he with rfl | he
    · exact ⟨signature, hsignature⟩
    · exact hd e he
  unfold keepRepresentative at he
  split at he
  · exact hassign he
  · split at he
    · exact hassign he
    · exact hd e he

namespace AnonymousGraphSourceLog

variable {ids : SynthesisIds ι} {log : AnonymousGraphSourceLog ids.toContentIds}

theorem generateProgramRegistry_eq_ok {registry : GraphProgramRegistry ι}
    (h : log.generateProgramRegistry = .ok registry) : ∃ states actions,
      log.stateCovariates = .ok states ∧ log.actionCovariates = .ok actions ∧
      ∀ p ∈ registry.programs, ∃ signature,
        programSignature ids.toContentIds states actions p = .ok signature := by
  unfold generateProgramRegistry at h
  obtain ⟨states, hstates, h⟩ := bind_eq_ok.mp h
  obtain ⟨actions, hactions, h⟩ := bind_eq_ok.mp h
  unfold registryOf at h
  obtain ⟨d, hd, h⟩ := bind_eq_ok.mp h
  obtain ⟨_, -, h⟩ := bind_eq_ok.mp h
  cases h
  refine ⟨states, actions, hstates, hactions, fun p hp => ?_⟩
  obtain ⟨e, he, rfl⟩ := List.mem_map.mp (mem_sortBy.mp hp)
  exact programSignature_of_representatives hd e he

theorem stateProgramValue_of_registry (hids : ids.Injective) {registry : GraphProgramRegistry ι}
    (h : log.generateProgramRegistry = .ok registry) {p : GraphCoordinateProgram .integer}
    (hp : p.any ∈ registry.programs) (hcontext : p.context = .state) {s : GraphStateView ι}
    (hs : s ∈ log.namedStates) : ∃ v, log.stateProgramValue p s = .ok v := by
  obtain ⟨states, actions, hstates, -, hsignatures⟩ := generateProgramRegistry_eq_ok h
  obtain ⟨signature, hsignature⟩ := hsignatures _ hp
  obtain ⟨keys, hkeys, -⟩ := (programSignature_eq_ok ids.toContentIds).mp hsignature
  obtain ⟨c, hc, hbuild⟩ := exists_of_mapM hstates
    (mem_sortBy.mpr ((mem_values_ofPairs hids.stateId).mpr hs))
  obtain ⟨t, ht, hbuild⟩ := bind_eq_ok.mp hbuild
  obtain ⟨legal, hlegal, hbuild⟩ := bind_eq_ok.mp hbuild
  cases hbuild
  have hmem : (⟨t, s, none, legal⟩ : EvaluationCovariate ι) ∈
      covariatesOf states actions p.any.2.context := by
    rw [covariatesOf, if_pos (show p.any.2.context = .state from hcontext)]
    exact hc
  obtain ⟨_, -, hkey⟩ := exists_of_mapM hkeys hmem
  obtain ⟨v, hv, -⟩ := bind_eq_ok.mp hkey
  exact ⟨v, bind_eq_ok.mpr ⟨t, ht, bind_eq_ok.mpr ⟨legal, hlegal, hv⟩⟩⟩

theorem actionProgramValue_of_registry {registry : GraphProgramRegistry ι}
    (h : log.generateProgramRegistry = .ok registry) {p : GraphCoordinateProgram .integer}
    (hp : p.any ∈ registry.programs) (hcontext : p.context = .stateAction)
    {row : GraphObservedRow ι} (hrow : row ∈ log.rows) :
    ∃ v, log.actionProgramValue p row = .ok v := by
  obtain ⟨states, actions, -, hactions, hsignatures⟩ := generateProgramRegistry_eq_ok h
  obtain ⟨signature, hsignature⟩ := hsignatures _ hp
  obtain ⟨keys, hkeys, -⟩ := (programSignature_eq_ok ids.toContentIds).mp hsignature
  obtain ⟨c, hc, hbuild⟩ := exists_of_mapM hactions hrow
  obtain ⟨t, ht, hbuild⟩ := bind_eq_ok.mp hbuild
  cases hbuild
  have hmem : (⟨t, row.state, some row.action, row.legalActions⟩ : EvaluationCovariate ι) ∈
      covariatesOf states actions p.any.2.context := by
    rw [covariatesOf, show p.any.2.context = .stateAction from hcontext, if_neg (by decide)]
    exact hc
  obtain ⟨_, -, hkey⟩ := exists_of_mapM hkeys hmem
  obtain ⟨v, hv, -⟩ := bind_eq_ok.mp hkey
  exact ⟨v, bind_eq_ok.mpr ⟨t, ht, hv⟩⟩

end AnonymousGraphSourceLog

def GraphProgramRegistry.content (registry : GraphProgramRegistry ι) :
    List AnyProgram × ℕ × List ℕ :=
  (registry.programs, registry.syntacticProgramCount, registry.semanticProgramCountByDepth)

/-- A synthesis without the identifiers of its log and of its registry. -/
def Synthesis.content (s : Synthesis ι) :
    (List AnyProgram × ℕ × List ℕ) × List CandidateSummary × CandidateSummary ×
      GraphCoordinateProgram .integer × GraphCoordinateProgram .integer :=
  (s.registry.content, s.candidates, s.selected, s.proposal.stateProgram, s.proposal.actionProgram)

section Invariance

variable {ids : SynthesisIds ι} {log : AnonymousGraphSourceLog ids.toContentIds}
  {π : ∀ t : GraphTopology, Equiv.Perm (Fin t.vertexCount)}

theorem registryOf_relabelled {states actions states' actions' : List (EvaluationCovariate ι)}
    (h : RelabelledCovariates states actions states' actions') (sourceLogId sourceLogId' : ι)
    (syntactic : List AnyProgram) :
    (registryOf ids sourceLogId' states' actions' syntactic).map GraphProgramRegistry.content =
      (registryOf ids sourceLogId states actions syntactic).map GraphProgramRegistry.content := by
  unfold registryOf
  obtain ⟨he, he'⟩ | ⟨d, d', hd, hd', heq⟩ :=
    representatives_relabelled ids.toContentIds ids.programId h syntactic
  · rw [he, he']
    rfl
  · rw [hd, hd']
    simp only [bind, Except.bind]
    rw [← heq]
    unfold require
    split <;> rfl

theorem generateProgramRegistry_relabel (hids : ids.Injective) (h : log.Admits π) :
    (log.relabel hids h).generateProgramRegistry.map GraphProgramRegistry.content =
      log.generateProgramRegistry.map GraphProgramRegistry.content := by
  unfold AnonymousGraphSourceLog.generateProgramRegistry
  generalize syntacticProgramClosure ids.programId = syntactic
  obtain ⟨he, he'⟩ | ⟨states, states', hs, hs', hcovers⟩ :=
    AnonymousGraphSourceLog.stateCovariates_relabel hids h
  · rw [he, he']
    rfl
  · obtain ⟨he, he'⟩ | ⟨actions, actions', ha, ha', hcovers'⟩ :=
      AnonymousGraphSourceLog.actionCovariates_relabel hids h
    · rw [hs, hs', he, he']
      rfl
    · rw [hs, hs', ha, ha']
      exact registryOf_relabelled ⟨hcovers, hcovers',
        AnonymousGraphSourceLog.action_of_actionCovariates ha⟩ _ _ _

theorem candidateSummaries_relabel (hids : ids.Injective) (h : log.Admits π)
    {registry : GraphProgramRegistry ι} (hregistry : log.generateProgramRegistry = .ok registry) :
    ((ofType .integer registry.programs).filter (·.context = .state) ×ˢ
      (ofType .integer registry.programs).filter (·.context = .stateAction)).mapM
        (fun programs => (log.relabel hids h).candidateSummary programs.1 programs.2) =
    ((ofType .integer registry.programs).filter (·.context = .state) ×ˢ
      (ofType .integer registry.programs).filter (·.context = .stateAction)).mapM
        (fun programs => log.candidateSummary programs.1 programs.2) := by
  refine mapM_congr fun programs hmem => ?_
  obtain ⟨hp, hq⟩ := List.mem_product.mp hmem
  obtain ⟨hp, hcontext⟩ := List.mem_filter.mp hp
  obtain ⟨hq, hcontext'⟩ := List.mem_filter.mp hq
  have hcontext : programs.1.context = .state := by simpa using hcontext
  have hcontext' : programs.2.context = .stateAction := by simpa using hcontext'
  exact AnonymousGraphSourceLog.candidateSummary_relabel hids h hcontext
    (fun s hs => AnonymousGraphSourceLog.stateProgramValue_of_registry hids hregistry
      (mem_ofType hp) hcontext hs)
    (fun row hrow => AnonymousGraphSourceLog.actionProgramValue_of_registry hregistry
      (mem_ofType hq) hcontext' hrow)

theorem runSynthesis_relabel (hids : ids.Injective) (h : log.Admits π)
    (registryId : GraphProgramRegistry ι → ι) :
    (runSynthesis registryId (log.relabel hids h)).map Synthesis.content =
      (runSynthesis registryId log).map Synthesis.content := by
  have hregistry := generateProgramRegistry_relabel hids h
  unfold runSynthesis
  cases hr : log.generateProgramRegistry with
  | error e =>
    rw [hr] at hregistry
    cases hr' : (log.relabel hids h).generateProgramRegistry with
    | error e' =>
      rw [hr'] at hregistry
      cases hregistry
      rfl
    | ok registry' =>
      rw [hr'] at hregistry
      cases hregistry
  | ok registry =>
    rw [hr] at hregistry
    cases hr' : (log.relabel hids h).generateProgramRegistry with
    | error e' =>
      rw [hr'] at hregistry
      cases hregistry
    | ok registry' =>
      rw [hr'] at hregistry
      have hcontent : registry'.content = registry.content := Except.ok.inj hregistry
      have hprograms : registry'.programs = registry.programs := congrArg Prod.fst hcontent
      change (selectPair registryId (log.relabel hids h) registry').map _ =
        (selectPair registryId log registry).map _
      unfold selectPair
      rw [hprograms]
      dsimp only
      rw [candidateSummaries_relabel hids h hr]
      refine map_bind_congr fun candidates _ => map_bind_congr fun selected _ => ?_
      change Except.ok (registry'.content, _) = Except.ok (registry.content, _)
      rw [hcontent]

/-- Relabelling an accepted log gives an accepted log, whose synthesis makes the same choice from
the same candidates, or fails alike. -/
theorem synthesis_relabelling_invariant (hids : ids.Injective) (h : log.Admits π)
    (registryId : GraphProgramRegistry ι → ι) :
    ∃ log', AnonymousGraphSourceLog.make ids.toContentIds
        (sortBy ids.topologyId (log.topologies.map (permuted π)))
        (sortBy ids.rowId (log.rows.map (log.relabelRow π))) = .ok log' ∧
      (runSynthesis registryId log').map Synthesis.content =
        (runSynthesis registryId log).map Synthesis.content ∧
      ∀ e, runSynthesis registryId log' = .error e ↔ runSynthesis registryId log = .error e := by
  have hcontent := runSynthesis_relabel hids h registryId
  refine ⟨log.relabel hids h, (log.relabel hids h).make_eq_ok, hcontent, fun e => ?_⟩
  cases hr : runSynthesis registryId log with
  | error e' =>
    cases hr' : runSynthesis registryId (log.relabel hids h) with
    | error e'' =>
      rw [hr, hr'] at hcontent
      rw [Except.error.inj hcontent]
    | ok s =>
      rw [hr, hr'] at hcontent
      cases hcontent
  | ok s =>
    cases hr' : runSynthesis registryId (log.relabel hids h) with
    | error e' =>
      rw [hr, hr'] at hcontent
      cases hcontent
    | ok s' => simp

end Invariance

/-! ## Encoded contents -/

section

def encodeState (s : GraphStateView ℕ) : ℕ := Encodable.encode s.payload

def encodeAction (a : GraphActionView ℕ) : ℕ := Encodable.encode (a.stateId, a.move.triple)

def encodeOutcome (o : GraphOutcomeView ℕ) : ℕ :=
  Encodable.encode (encodeState o.nextState, o.probability, o.normalizedReward,
    o.failure, o.terminal)

def encodeRow (row : GraphObservedRow ℕ) : ℕ :=
  Encodable.encode (encodeState row.state, encodeAction row.action,
    row.legalActions.map encodeAction, row.outcomes.map encodeOutcome)

def sampleIds : SynthesisIds ℕ where
  topologyId t := Encodable.encode (t.vertexCount, t.edges.map fun e => (e.first, e.second))
  stateId := encodeState
  actionId := encodeAction
  rowId := encodeRow
  programId p := Encodable.encode (p.2.rendered.toList.map Char.toNat)
  sourceLogId _ rows := Encodable.encode (rows.map encodeRow)

theorem encodeState_injective : Function.Injective encodeState :=
  Encodable.encode_injective.comp GraphStateView.payload_injective

theorem encodeAction_injective : Function.Injective encodeAction := by
  rintro ⟨s, m⟩ ⟨s', m'⟩ h
  obtain ⟨hs, hm⟩ := Prod.mk.inj (Encodable.encode_injective h)
  exact congrArg₂ GraphActionView.mk hs (GraphAction.triple_injective hm)

theorem encodeOutcome_injective : Function.Injective encodeOutcome := by
  rintro ⟨s, p, r, f, t, _, _, _, _⟩ ⟨s', p', r', f', t', _, _, _, _⟩ h
  have h := Encodable.encode_injective h
  simp only [Prod.mk.injEq] at h
  obtain ⟨hs, rfl, rfl, rfl, rfl⟩ := h
  obtain rfl := encodeState_injective hs
  rfl

theorem encodeRow_injective : Function.Injective encodeRow := by
  rintro ⟨s, a, l, o⟩ ⟨s', a', l', o'⟩ h
  have h := Encodable.encode_injective h
  simp only [Prod.mk.injEq] at h
  obtain ⟨hs, ha, hl, ho⟩ := h
  rw [encodeState_injective hs, encodeAction_injective ha,
    encodeAction_injective.list_map hl, encodeOutcome_injective.list_map ho]

theorem sampleIds_injective : sampleIds.Injective where
  topologyId := by
    rintro ⟨n, edges, _, _, _, _⟩ ⟨n', edges', _, _, _, _⟩ h
    obtain ⟨rfl, hedges⟩ := Prod.mk.inj (Encodable.encode_injective h)
    have hinj : Function.Injective fun e : Edge => (e.first, e.second) := by
      rintro ⟨_, _, _⟩ ⟨_, _, _⟩ h
      cases h
      rfl
    obtain rfl := hinj.list_map hedges
    rfl
  stateId := encodeState_injective
  actionId := encodeAction_injective
  rowId := encodeRow_injective

def sampleTopology : GraphTopology where
  vertexCount := 2
  edges := [⟨0, 1, Nat.zero_lt_one⟩]
  vertexCount_gt := Nat.one_lt_two
  edges_ne := by simp
  edges_lt := by decide
  sorted := by decide

end

end Acfqp.Coordinates
