import Acfqp.Coordinates.Boards
import Acfqp.Coordinates.Registry

/-!
# Optimality of the synthesis

The representatives of two coordinates of the grammar make a pair with the same summary, which comes
first in the selection order. The one exception is the number of legal actions, whose representative
is a cell count with a later text.
-/

namespace Acfqp.Coordinates

open Library Acfqp.Graph GraphCoordinateProgram

/-! ## The selection order -/

theorem lex_le_of_le {α β γ : Type} [PartialOrder α] [Preorder β] [Preorder γ] {a b : α} {x y : β}
    {x' y' : γ} (h : toLex (a, x) ≤ toLex (b, y)) (hxy : x ≤ y → x' ≤ y') :
    toLex (a, x') ≤ toLex (b, y') := by
  rw [Prod.Lex.toLex_le_toLex] at h ⊢
  obtain h | ⟨h, h'⟩ := h
  · exact .inl h
  · exact .inr ⟨h, hxy h'⟩

namespace CandidateSummary

/-- The selection key up to the rendered texts. -/
def rank (c : CandidateSummary) : ℚ ×ₗ ℕ ×ₗ ℕ ×ₗ ℕ ×ₗ ℕ ×ₗ String ×ₗ String :=
  toLex (c.soundAliasWidth, toLex (c.abstractSupportCount, toLex (c.abstractStateCount,
    toLex (c.stateProgram.nodeCount + c.actionProgram.nodeCount,
      toLex (max c.stateProgram.depth c.actionProgram.depth,
        toLex (c.stateProgram.rendered, c.actionProgram.rendered))))))

theorem rank_le_of_selectionKey_le {ι : Type} [LinearOrder ι] {programId : AnyProgram → ι}
    {c c' : CandidateSummary} (h : c.selectionKey programId ≤ c'.selectionKey programId) :
    c.rank ≤ c'.rank := by
  refine lex_le_of_le h fun h => lex_le_of_le h fun h => lex_le_of_le h fun h =>
    lex_le_of_le h fun h => lex_le_of_le h fun h => lex_le_of_le h fun h => ?_
  rw [Prod.Lex.toLex_le_toLex] at h
  obtain h | ⟨h, -⟩ := h
  · exact h.le
  · exact h.le

def withPrograms (c : CandidateSummary) (p q : GraphCoordinateProgram .integer) :
    CandidateSummary := { c with stateProgram := p, actionProgram := q }

end CandidateSummary

section Order

variable {ι : Type} [LinearOrder ι] {programId : AnyProgram → ι}

/-- An integer program that comes earlier in the program order is no larger. Of the same size its
text comes first, unless the later program is the number of legal actions. -/
theorem earlier_integer {p q : GraphCoordinateProgram .integer} (hp : p.depth ≤ maxProgramDepth)
    (hq : q.depth ≤ maxProgramDepth)
    (h : programOrderKey programId p.any ≤ programOrderKey programId q.any) :
    p.depth ≤ q.depth ∧
      (p.depth = q.depth → p.rendered ≤ q.rendered ∨ q = actionCount ∧ p ≠ actionCount) := by
  have hnodes : p.any.2.nodeCount = 2 * p.depth := nodeCount_integer hp
  have hnodes' : q.any.2.nodeCount = 2 * q.depth := nodeCount_integer hq
  have hdepth : p.any.2.depth = p.depth := rfl
  have hdepth' : q.any.2.depth = q.depth := rfl
  simp only [programOrderKey, Prod.Lex.toLex_le_toLex, hnodes, hnodes', hdepth, hdepth'] at h
  obtain h | ⟨-, h | ⟨heq, h⟩⟩ := h
  · exact ⟨by omega, fun _ => by omega⟩
  · exact ⟨h.le, fun heq => absurd heq h.ne⟩
  · refine ⟨heq.le, fun _ => ?_⟩
    obtain h | ⟨-, h | ⟨h, -⟩⟩ := h
    · right
      have hlt : p.operationOrder < q.operationOrder := h
      by_cases hq' : q = actionCount
      · refine ⟨hq', fun hp' => ?_⟩
        rw [hp', hq'] at hlt
        exact lt_irrefl _ hlt
      · rw [operationOrder_integer hq'] at hlt
        by_cases hp' : p = actionCount
        · rw [hp'] at hlt
          exact absurd hlt (by decide)
        · rw [operationOrder_integer hp'] at hlt
          exact absurd hlt (lt_irrefl _)
    · exact .inl (le_of_lt h)
    · exact .inl (le_of_eq h)

theorem rank_le_of_earlier {c : CandidateSummary} {p q : GraphCoordinateProgram .integer}
    (hp : p.depth ≤ maxProgramDepth) (hq : q.depth ≤ maxProgramDepth)
    (hstate : c.stateProgram.depth ≤ maxProgramDepth)
    (haction : c.actionProgram.depth ≤ maxProgramDepth)
    (hp' : programOrderKey programId p.any ≤ programOrderKey programId c.stateProgram.any)
    (hq' : programOrderKey programId q.any ≤ programOrderKey programId c.actionProgram.any)
    (hne : c.stateProgram = actionCount → p = actionCount) (hne' : c.actionProgram ≠ actionCount) :
    (c.withPrograms p q).rank ≤ c.rank := by
  obtain ⟨hdepth, htext⟩ := earlier_integer hp hstate hp'
  obtain ⟨hdepth', htext'⟩ := earlier_integer hq haction hq'
  unfold CandidateSummary.rank CandidateSummary.withPrograms
  simp only [Prod.Lex.toLex_le_toLex, nodeCount_integer hp, nodeCount_integer hq,
    nodeCount_integer hstate, nodeCount_integer haction, true_and]
  refine .inr (.inr (.inr ?_))
  by_cases hsize : p.depth = c.stateProgram.depth ∧ q.depth = c.actionProgram.depth
  · obtain ⟨hsize, hsize'⟩ := hsize
    refine .inr ⟨by rw [hsize, hsize'], .inr ⟨by rw [hsize, hsize'], ?_⟩⟩
    have hp : p.rendered ≤ c.stateProgram.rendered :=
      (htext hsize).resolve_right fun h => h.2 (hne h.1)
    have hq : q.rendered ≤ c.actionProgram.rendered :=
      (htext' hsize').resolve_right fun h => hne' h.1
    obtain hlt | heq := hp.lt_or_eq
    · exact .inl hlt
    · exact .inr ⟨heq, hq⟩
  · exact .inl (by omega)

end Order

/-! ## Pairs of the grammar -/

variable {ι : Type} [LinearOrder ι]

namespace AnonymousGraphSourceLog

section Pairs

variable {ids : ContentIds ι} {log : AnonymousGraphSourceLog ids}

/-- The summary of an admissible pair of integer coordinates of the grammar. -/
structure AdmissiblePair (log : AnonymousGraphSourceLog ids) (c : CandidateSummary) : Prop where
  stateContext : c.stateProgram.context = .state
  actionContext : c.actionProgram.context = .stateAction
  stateDepth : c.stateProgram.depth ≤ maxProgramDepth
  actionDepth : c.actionProgram.depth ≤ maxProgramDepth
  summary : log.candidateSummary c.stateProgram c.actionProgram = .ok c
  admissible : c.admissible = true

theorem AdmissiblePair.action_ne {c : CandidateSummary} (h : log.AdmissiblePair c) :
    c.actionProgram ≠ actionCount := by
  intro heq
  have hcontext := h.actionContext
  rw [heq] at hcontext
  cases hcontext

theorem candidateSummary_programs {p q : GraphCoordinateProgram .integer} {c : CandidateSummary}
    (h : log.candidateSummary p q = .ok c) : c.stateProgram = p ∧ c.actionProgram = q := by
  obtain ⟨values, -, h⟩ := bind_eq_ok.mp h
  obtain ⟨rows, -, h⟩ := bind_eq_ok.mp h
  cases h
  exact ⟨rfl, rfl⟩

theorem candidateSummary_congr {p p' q q' : GraphCoordinateProgram .integer}
    (hp : ∀ s ∈ log.namedStates, log.stateProgramValue p s = log.stateProgramValue p' s)
    (hq : ∀ row ∈ log.rows, log.actionProgramValue q row = log.actionProgramValue q' row)
    {c : CandidateSummary} (h : log.candidateSummary p q = .ok c) :
    log.candidateSummary p' q' = .ok (c.withPrograms p' q') := by
  have hvalues : log.stateValues p = log.stateValues p' := by
    unfold stateValues
    generalize ([] : List (ι × ℕ)) = values
    revert hp
    generalize log.namedStates = states
    intro hp
    induction states generalizing values with
    | nil => rfl
    | cons s states ih =>
      rw [List.foldlM_cons, List.foldlM_cons, hp s (by simp)]
      exact congrArg _ (funext fun values => ih values fun s hs => hp s (by simp [hs]))
  have hrows : ∀ values, log.rows.mapM (log.supportRow values q) =
      log.rows.mapM (log.supportRow values q') := by
    intro values
    refine mapM_congr fun row hrow => ?_
    unfold supportRow
    rw [hq row hrow]
  obtain ⟨values, hv, h⟩ := bind_eq_ok.mp h
  obtain ⟨rows, hr, h⟩ := bind_eq_ok.mp h
  cases h
  exact bind_eq_ok.mpr ⟨values, hvalues ▸ hv, bind_eq_ok.mpr ⟨rows, hrows values ▸ hr, rfl⟩⟩

theorem stateCovariates_of_summary (hids : ids.Injective) {p q : GraphCoordinateProgram .integer}
    {c : CandidateSummary} (h : log.candidateSummary p q = .ok c) :
    ∃ states, log.stateCovariates = .ok states := by
  obtain ⟨values, hvalues, -⟩ := bind_eq_ok.mp h
  have hvalue := exists_of_foldlM hvalues
  refine mapM_returns fun s hs => ?_
  obtain ⟨v, hv⟩ := hvalue s ((mem_values_ofPairs hids.stateId).mp (mem_sortBy.mp hs))
  obtain ⟨t, ht, hv⟩ := bind_eq_ok.mp hv
  obtain ⟨legal, hlegal, -⟩ := bind_eq_ok.mp hv
  exact ⟨_, bind_eq_ok.mpr ⟨t, ht, bind_eq_ok.mpr ⟨legal, hlegal, rfl⟩⟩⟩

theorem actionProgramValue_returns (hids : ids.Injective) (q : GraphCoordinateProgram .integer)
    {row : GraphObservedRow ι} (hrow : row ∈ log.rows) :
    log.actionProgramValue q row = .ok ((log.actionProgramValue q row).toOption.getD 0) := by
  obtain ⟨t, ht, hsurvivor⟩ := topologyAt_row hids hrow
  obtain ⟨v, hv⟩ := evaluateProgram_returns
    ⟨t, row.state, some row.action, row.legalActions⟩ q nofun fun _ =>
      ⟨row.action, rfl, hsurvivor⟩
  have hvalue : log.actionProgramValue q row = .ok v := bind_eq_ok.mpr ⟨t, ht, hv⟩
  rw [hvalue]
  rfl

theorem candidateSummary_returns (hids : ids.Injective) {states : List (EvaluationCovariate ι)}
    (h : log.stateCovariates = .ok states) {p q : GraphCoordinateProgram .integer}
    (hp : p.context = .state) : ∃ c, log.candidateSummary p q = .ok c := by
  have hstate : ∀ s ∈ log.namedStates, log.stateProgramValue p s =
      .ok ((log.stateProgramValue p s).toOption.getD 0) := by
    intro s hs
    obtain ⟨c, -, hof⟩ := exists_stateCovariate hids h hs
    obtain ⟨v, hv⟩ := evaluateProgram_returns c p nofun fun hcontext => (by
      rw [hp] at hcontext
      cases hcontext)
    rw [hof.value, hv]
    rfl
  exact ⟨_, candidateSummary_eq hids hstate fun row hrow => actionProgramValue_returns hids q hrow⟩

theorem not_admissible_of_constant (hids : ids.Injective) {p q : GraphCoordinateProgram .integer}
    {v : ℕ} (hp : ∀ s ∈ log.namedStates, log.stateProgramValue p s = .ok v)
    {c : CandidateSummary} (h : log.candidateSummary p q = .ok c) : c.admissible = false := by
  rw [candidateSummary_eq hids hp fun row hrow => actionProgramValue_returns hids q hrow] at h
  cases h
  have hvalues : ((log.rows.map (rowOf ids (fun _ => v)
      fun row => (log.actionProgramValue q row).toOption.getD 0)).map (·.stateValue)).toFinset ⊆
        {v} := by
    intro w hw
    simp only [List.mem_toFinset, List.mem_map] at hw
    obtain ⟨_, ⟨row, -, rfl⟩, rfl⟩ := hw
    exact Finset.mem_singleton_self v
  have hcard := Finset.card_le_card hvalues
  rw [Finset.card_singleton] at hcard
  exact decide_eq_false fun hadmissible => absurd hadmissible.1.1 (not_lt.mpr hcard)

/-! ## The registry of a log -/

/-- Every positive rank of a logged state stands at a vertex of its topology. -/
def Ranked (log : AnonymousGraphSourceLog ids) : Prop :=
  ∀ s ∈ log.namedStates, ∀ t, log.topologyAt s.topologyId = .ok t →
    ∀ e ∈ occupied s.ranks, e.2 < t.vertexCount

/-- The size of a cell set is the number of legal actions on every logged state. -/
def CountsActions (log : AnonymousGraphSourceLog ids) (cells : GraphCoordinateProgram .cellSet) :
    Prop :=
  ∀ s ∈ log.namedStates,
    log.stateProgramValue (cardinalityCells cells) s = log.stateProgramValue actionCount s

theorem context_signature (p : GraphCoordinateProgram .signature) : p.context = .state := by
  cases p
  rfl

theorem programSignatures_return (hids : ids.Injective)
    {states actions : List (EvaluationCovariate ι)} (hstates : log.stateCovariates = .ok states)
    (hactions : log.actionCovariates = .ok actions) {programs : List AnyProgram}
    (hprograms : GraphCoordinateProgram.any .rankDegreeSignature ∈ programs) :
    (∀ p ∈ programs, ∃ signature, programSignature ids states actions p = .ok signature) ↔
      log.Ranked := by
  constructor
  · intro h s hs t ht
    obtain ⟨c, hc, hof⟩ := exists_stateCovariate hids hstates hs
    obtain ⟨v, hv⟩ := programSignature_returns.mp (h _ hprograms) c hc
    have htopology : c.topology = t := Except.ok.inj (hof.topology.symm.trans ht)
    rw [← hof.state, ← htopology]
    exact rankDegreeSignature_returns.mp ⟨v, hv⟩
  · rintro h ⟨τ, p⟩ -
    refine programSignature_returns.mpr fun c hc => ?_
    by_cases hcontext : p.context = .state
    · have hc : c ∈ states := by
        rw [covariatesOf, if_pos hcontext] at hc
        exact hc
      obtain ⟨s, hs, hof⟩ := exists_state hids hstates hc
      refine evaluateProgram_returns c p (fun _ => ?_) fun haction => ?_
      · rw [hof.state]
        exact h s hs _ hof.topology
      · rw [hcontext] at haction
        cases haction
    · have hc : c ∈ actions := by
        rw [covariatesOf, if_neg hcontext] at hc
        exact hc
      obtain ⟨hsurvivor, -⟩ := mem_actionCovariates hids hactions hc
      refine evaluateProgram_returns c p (fun hτ => ?_) fun _ => hsurvivor
      subst hτ
      exact absurd (context_signature p) hcontext

end Pairs

/-! ## Representatives of coordinates -/

section

variable {ids : SynthesisIds ι} {log : AnonymousGraphSourceLog ids.toContentIds}

/-- What a registry of a log holds: for each coordinate of the grammar the earliest one with the
same values, and nothing else. -/
structure Represented (log : AnonymousGraphSourceLog ids.toContentIds)
    (registry : GraphProgramRegistry ι) : Prop where
  depth : ∀ p ∈ registry.programs, p.2.depth ≤ maxProgramDepth
  state : ∀ p : GraphCoordinateProgram .integer, p.context = .state → p.depth ≤ maxProgramDepth →
    ∃ p', p'.any ∈ registry.programs ∧ p'.context = .state ∧
      programOrderKey ids.programId p'.any ≤ programOrderKey ids.programId p.any ∧
      ∀ s ∈ log.namedStates, log.stateProgramValue p s = log.stateProgramValue p' s
  action : ∀ q : GraphCoordinateProgram .integer, q.context = .stateAction →
    q.depth ≤ maxProgramDepth → ∃ q', q'.any ∈ registry.programs ∧ q'.context = .stateAction ∧
      programOrderKey ids.programId q'.any ≤ programOrderKey ids.programId q.any ∧
      ∀ row ∈ log.rows, log.actionProgramValue q row = log.actionProgramValue q' row
  least : ∀ p p' : GraphCoordinateProgram .integer, p.any ∈ registry.programs →
    p.context = .state → p'.context = .state → p'.depth ≤ maxProgramDepth →
    (∀ s ∈ log.namedStates, log.stateProgramValue p s = log.stateProgramValue p' s) →
    programOrderKey ids.programId p.any ≤ programOrderKey ids.programId p'.any

theorem mem_closure {p : AnyProgram} (hprogram : Function.Injective ids.programId) :
    p ∈ syntacticProgramClosure ids.programId ↔ p.2.depth ≤ maxProgramDepth :=
  mem_syntacticProgramClosure hprogram

theorem represented_of_registry (hids : ids.Injective) (hprogram : Function.Injective ids.programId)
    {registry : GraphProgramRegistry ι} (h : log.generateProgramRegistry = .ok registry) :
    log.Represented registry := by
  obtain ⟨states, hstates, h⟩ := bind_eq_ok.mp h
  obtain ⟨actions, hactions, h⟩ := bind_eq_ok.mp h
  obtain ⟨hsignatures, d, hd, hmem⟩ := registryOf_eq_ok h
  -- A coordinate and its representative have one type, one context and one value everywhere.
  have hrepresentative : ∀ p : GraphCoordinateProgram .integer, p.depth ≤ maxProgramDepth →
      ∃ p', p'.any ∈ registry.programs ∧ p'.context = p.context ∧
        programOrderKey ids.programId p'.any ≤ programOrderKey ids.programId p.any ∧
        ∀ c ∈ covariatesOf states actions p.context, evaluateProgram c p =
          evaluateProgram c p' := by
    intro p hp
    have hclosure := (mem_closure hprogram (p := p.any)).mpr hp
    obtain ⟨⟨τ, p'⟩, hp', hle⟩ := hd.least _ hclosure
    obtain ⟨hmem', hclass⟩ := hd.mem _ hp'
    obtain ⟨htype, hcontext⟩ :=
      @classOf_context _ ids.toContentIds states actions (⟨τ, p'⟩ : AnyProgram)
    dsimp only at hclass
    rw [hclass, (classOf_context p.any).1] at htype
    rw [hclass, (classOf_context p.any).2] at hcontext
    obtain rfl : GraphProgramType.integer = τ := htype
    have hcontext : p.context = p'.context := hcontext
    exact ⟨p', (hmem _).mpr (List.mem_map_of_mem (f := Prod.snd) hp'), hcontext.symm, hle,
      (classOf_integer hcontext (hsignatures _ hclosure) (hsignatures _ hmem')).mp hclass.symm⟩
  refine ⟨fun p hp => ?_, fun p hcontext hp => ?_, fun q hcontext hq => ?_,
    fun p p' hp hcontext hcontext' hp' hvalues => ?_⟩
  · obtain ⟨e, he, rfl⟩ := List.mem_map.mp ((hmem p).mp hp)
    exact (mem_closure hprogram).mp (hd.mem e he).1
  · obtain ⟨p', hp', hcontext', hle, hvalues⟩ := hrepresentative p hp
    rw [covariatesOf, if_pos hcontext] at hvalues
    exact ⟨p', hp', hcontext'.trans hcontext, hle,
      (stateProgramValue_eq_iff hids hstates).mpr hvalues⟩
  · obtain ⟨q', hq', hcontext', hle, hvalues⟩ := hrepresentative q hq
    rw [covariatesOf, hcontext, if_neg (by decide)] at hvalues
    exact ⟨q', hq', hcontext'.trans hcontext, hle,
      (actionProgramValue_eq_iff hids hactions).mpr hvalues⟩
  · have hclosure := (mem_closure hprogram (p := p'.any)).mpr hp'
    obtain ⟨e, he, heq⟩ := List.mem_map.mp ((hmem _).mp hp)
    have hmemClosure : p.any ∈ syntacticProgramClosure ids.programId := heq ▸ (hd.mem e he).1
    refine hd.le ((hmem _).mp hp) hclosure ?_
    refine (classOf_integer (hcontext.trans hcontext'.symm) (hsignatures _ hmemClosure)
      (hsignatures _ hclosure)).mpr ?_
    rw [covariatesOf, if_pos hcontext]
    exact (stateProgramValue_eq_iff hids hstates).mp hvalues

/-- A log with covariates has a registry exactly when it is ranked. -/
theorem generateProgramRegistry_returns (hids : ids.Injective)
    (hprogram : Function.Injective ids.programId) {states : List (EvaluationCovariate ι)}
    (hstates : log.stateCovariates = .ok states) :
    (∃ registry, log.generateProgramRegistry = .ok registry) ↔ log.Ranked := by
  obtain ⟨actions, hactions⟩ := @actionCovariates_returns _ _ _ log hids
  have hrank : GraphCoordinateProgram.any .rankDegreeSignature ∈ syntacticProgramClosure
      ids.programId :=
    (mem_closure hprogram).mpr (Nat.zero_le _)
  rw [← programSignatures_return hids hstates hactions hrank]
  constructor
  · rintro ⟨registry, h⟩
    obtain ⟨states', hstates', h⟩ := bind_eq_ok.mp h
    obtain ⟨actions', hactions', h⟩ := bind_eq_ok.mp h
    obtain rfl := Except.ok.inj (hstates.symm.trans hstates')
    obtain rfl := Except.ok.inj (hactions.symm.trans hactions')
    exact (registryOf_eq_ok h).1
  · intro h
    obtain ⟨registry, hregistry⟩ := registryOf_returns (ids.sourceLogId log.topologies log.rows)
      hprogram (List.ne_nil_of_mem hrank) (fun p hp => (mem_closure hprogram).mp hp) h
    exact ⟨registry, bind_eq_ok.mpr ⟨states, hstates, bind_eq_ok.mpr ⟨actions, hactions,
      hregistry⟩⟩⟩

end

end AnonymousGraphSourceLog

section Choice

open AnonymousGraphSourceLog

variable {ids : SynthesisIds ι} {log : AnonymousGraphSourceLog ids.toContentIds}
  {registry : GraphProgramRegistry ι} {registryId : GraphProgramRegistry ι → ι}

def registryPairs (registry : GraphProgramRegistry ι) :
    List (GraphCoordinateProgram .integer × GraphCoordinateProgram .integer) :=
  (ofType .integer registry.programs).filter (·.context = .state) ×ˢ
    (ofType .integer registry.programs).filter (·.context = .stateAction)

omit [LinearOrder ι] in
theorem mem_registryPairs {p q : GraphCoordinateProgram .integer} :
    (p, q) ∈ registryPairs registry ↔ (p.any ∈ registry.programs ∧ p.context = .state) ∧
      q.any ∈ registry.programs ∧ q.context = .stateAction := by
  rw [registryPairs, List.mem_product, List.mem_filter, List.mem_filter, mem_ofType_iff,
    mem_ofType_iff, decide_eq_true_iff, decide_eq_true_iff]

theorem selectPair_eq_ok {s : Synthesis ι} (h : selectPair registryId log registry = .ok s) :
    (s.selected.stateProgram, s.selected.actionProgram) ∈ registryPairs registry ∧
      log.candidateSummary s.selected.stateProgram s.selected.actionProgram = .ok s.selected ∧
      s.selected.admissible = true ∧ s.proposal.stateProgram = s.selected.stateProgram ∧
      s.proposal.actionProgram = s.selected.actionProgram ∧
      ∀ p q c, (p, q) ∈ registryPairs registry → log.candidateSummary p q = .ok c →
        c.admissible = true → s.selected.rank ≤ c.rank := by
  obtain ⟨candidates, hcandidates, h⟩ := bind_eq_ok.mp h
  obtain ⟨selected, hselected, h⟩ := bind_eq_ok.mp h
  cases h
  have hargmin := Option.mem_def.mpr (orRaise_eq_ok.mp hselected)
  obtain ⟨hmem, hadmissible⟩ := List.mem_filter.mp (List.argmin_mem hargmin)
  obtain ⟨⟨p, q⟩, hpair, hsummary⟩ := mem_of_mapM hcandidates hmem
  obtain ⟨hp, hq⟩ := candidateSummary_programs hsummary
  refine ⟨by rw [hp, hq]; exact hpair, by rw [hp, hq]; exact hsummary, hadmissible, rfl, rfl,
    fun p q c hpair hsummary hadmissible => ?_⟩
  obtain ⟨c', hc', hsummary'⟩ := exists_of_mapM hcandidates hpair
  obtain rfl := Except.ok.inj (hsummary.symm.trans hsummary')
  exact CandidateSummary.rank_le_of_selectionKey_le
    (List.le_of_mem_argmin (List.mem_filter.mpr ⟨hc', hadmissible⟩) hargmin)

theorem selectPair_returns (registryId : GraphProgramRegistry ι → ι) (hids : ids.Injective)
    {states : List (EvaluationCovariate ι)}
    (hstates : log.stateCovariates = .ok states) {p q : GraphCoordinateProgram .integer}
    {c : CandidateSummary} (hpair : (p, q) ∈ registryPairs registry)
    (hsummary : log.candidateSummary p q = .ok c) (hadmissible : c.admissible = true) :
    ∃ s, selectPair registryId log registry = .ok s := by
  obtain ⟨candidates, hcandidates⟩ := mapM_returns (l := registryPairs registry)
    (f := fun programs => log.candidateSummary programs.1 programs.2) fun programs hprograms =>
      candidateSummary_returns hids hstates (mem_registryPairs.mp hprograms).1.2
  obtain ⟨c', hc', hsummary'⟩ := exists_of_mapM hcandidates hpair
  obtain rfl := Except.ok.inj (hsummary.symm.trans hsummary')
  have hne : candidates.filter (·.admissible) ≠ [] :=
    List.ne_nil_of_mem (List.mem_filter.mpr ⟨hc', hadmissible⟩)
  have hsome : (candidates.filter (·.admissible)).argmin
      (CandidateSummary.selectionKey ids.programId) ≠ none :=
    fun hnone => hne (List.argmin_eq_none.mp hnone)
  obtain ⟨selected, hselected⟩ := Option.ne_none_iff_exists'.mp hsome
  exact ⟨_, bind_eq_ok.mpr ⟨candidates, hcandidates, bind_eq_ok.mpr ⟨selected,
    orRaise_eq_ok.mpr hselected, rfl⟩⟩⟩

end Choice

/-! ## Optimality over the whole grammar -/

section

open AnonymousGraphSourceLog

variable {ids : SynthesisIds ι} {log : AnonymousGraphSourceLog ids.toContentIds}

/-- The synthesis returns an admissible pair that no admissible pair of the grammar precedes, and
fails when there is none. -/
structure OptimalSynthesis (registryId : GraphProgramRegistry ι → ι)
    (log : AnonymousGraphSourceLog ids.toContentIds) : Prop where
  optimal : ∀ c, log.AdmissiblePair c → ∃ s, runSynthesis registryId log = .ok s ∧
    log.AdmissiblePair s.selected ∧ s.proposal.stateProgram = s.selected.stateProgram ∧
    s.proposal.actionProgram = s.selected.actionProgram ∧
    ∀ c', log.AdmissiblePair c' → s.selected.rank ≤ c'.rank
  fails : (∀ c, ¬ log.AdmissiblePair c) → ∃ e, runSynthesis registryId log = .error e

/-- The number of legal actions differs on the log from the number of cells and from the number of
occupied cells, or an admissible pair without it precedes every admissible pair with it. -/
def AnonymousGraphSourceLog.ActionCountSeen (log : AnonymousGraphSourceLog ids.toContentIds) :
    Prop :=
  (¬ log.CountsActions .allCells ∧ ¬ log.CountsActions .occupiedCells) ∨
    ∃ c, log.AdmissiblePair c ∧ c.stateProgram ≠ actionCount ∧
      ∀ c', log.AdmissiblePair c' → c'.stateProgram = actionCount → c.rank < c'.rank

variable {registryId : GraphProgramRegistry ι → ι}

theorem runSynthesis_eq_ok (hids : ids.Injective) (hprogram : Function.Injective ids.programId)
    {s : Synthesis ι} (h : runSynthesis registryId log = .ok s) :
    ∃ registry, log.generateProgramRegistry = .ok registry ∧ log.Represented registry ∧
      s.selected.stateProgram.any ∈ registry.programs ∧ log.AdmissiblePair s.selected ∧
      s.proposal.stateProgram = s.selected.stateProgram ∧
      s.proposal.actionProgram = s.selected.actionProgram ∧
      ∀ p q c, (p, q) ∈ registryPairs registry → log.candidateSummary p q = .ok c →
        c.admissible = true → s.selected.rank ≤ c.rank := by
  obtain ⟨registry, hregistry, h⟩ := bind_eq_ok.mp h
  obtain ⟨hpair, hsummary, hadmissible, hproposal, hproposal', hleast⟩ := selectPair_eq_ok h
  have hrepresented := represented_of_registry hids hprogram hregistry
  obtain ⟨⟨hp, hcontext⟩, hq, hcontext'⟩ := mem_registryPairs.mp hpair
  exact ⟨registry, hregistry, hrepresented, hp, ⟨hcontext, hcontext', hrepresented.depth _ hp,
    hrepresented.depth _ hq, hsummary, hadmissible⟩, hproposal, hproposal', hleast⟩

/-- The representatives of an admissible pair are an admissible pair of the registry, and come first
unless they stand for the number of legal actions. -/
theorem exists_represented {registry : GraphProgramRegistry ι}
    (h : log.Represented registry) {c : CandidateSummary} (hc : log.AdmissiblePair c) :
    ∃ p q, (p, q) ∈ registryPairs registry ∧
      log.candidateSummary p q = .ok (c.withPrograms p q) ∧
      (∀ s ∈ log.namedStates,
        log.stateProgramValue c.stateProgram s = log.stateProgramValue p s) ∧
      ((c.stateProgram = actionCount → p = actionCount) → (c.withPrograms p q).rank ≤ c.rank) ∧
      p.depth ≤ c.stateProgram.depth := by
  obtain ⟨p, hp, hcontext, hle, hvalues⟩ := h.state _ hc.stateContext hc.stateDepth
  obtain ⟨q, hq, hcontext', hle', hvalues'⟩ := h.action _ hc.actionContext hc.actionDepth
  exact ⟨p, q, mem_registryPairs.mpr ⟨⟨hp, hcontext⟩, hq, hcontext'⟩,
    candidateSummary_congr hvalues hvalues' hc.summary, hvalues,
    fun hne => rank_le_of_earlier (h.depth _ hp) (h.depth _ hq) hc.stateDepth hc.actionDepth hle
      hle' hne hc.action_ne,
    (earlier_integer (h.depth _ hp) hc.stateDepth hle).1⟩

theorem cells_of_depth_one {p : GraphCoordinateProgram .integer} (hcontext : p.context = .state)
    (hdepth : p.depth ≤ 1) :
    p = actionCount ∨ p = cardinalityCells .allCells ∨ p = cardinalityCells .occupiedCells := by
  obtain rfl | ⟨cells, rfl⟩ := p.integer_cases
  · exact .inl rfl
  · cases cells with
    | allCells => exact .inr (.inl rfl)
    | occupiedCells => exact .inr (.inr rfl)
    | pairCells => cases hcontext
    | adjacentFilter vertex cells =>
      simp only [GraphCoordinateProgram.depth] at hdepth
      omega
    | setDifference first second =>
      simp only [GraphCoordinateProgram.depth] at hdepth
      omega

theorem rendered_ne_actionCount (cells : GraphCoordinateProgram .cellSet) :
    (cardinalityCells cells).rendered ≠ actionCount.rendered := by
  have hcells : (cardinalityCells cells).rendered.toList[12]? = some 'c' := by
    unfold rendered
    rw [String.toList_append, String.toList_append, List.append_assoc,
      List.getElem?_append_left (by decide)]
    decide
  intro h
  rw [h] at hcells
  exact absurd hcells (by decide)

theorem lt_actionCount {programId : AnyProgram → ι} {cells : GraphCoordinateProgram .cellSet}
    (h : cells.depth = 0) : programOrderKey programId (cardinalityCells cells).any <
      programOrderKey programId actionCount.any := by
  have hnodes : (cardinalityCells cells).any.2.nodeCount = actionCount.any.2.nodeCount := by
    change 1 + cells.nodeCount = 2
    rw [nodeCount_cells (by omega), h]
  have hdepth : (cardinalityCells cells).any.2.depth = actionCount.any.2.depth := by
    change 1 + cells.depth = 1
    rw [h]
  unfold programOrderKey
  simp only [Prod.Lex.toLex_lt_toLex, hnodes, hdepth, true_and]
  exact .inr (.inr (.inl (show 6 < 7 by decide)))

/-- The synthesis is optimal only when the registry exists and no cell count stands for the number
of legal actions in the first admissible pair. -/
theorem seen_of_optimal (hids : ids.Injective) (hprogram : Function.Injective ids.programId)
    (h : OptimalSynthesis registryId log) {c : CandidateSummary} (hc : log.AdmissiblePair c) :
    log.Ranked ∧ log.ActionCountSeen := by
  obtain ⟨s, hs, hselected, -, -, hleast⟩ := h.optimal c hc
  obtain ⟨registry, hregistry, hrepresented, hp, -⟩ := runSynthesis_eq_ok hids hprogram hs
  obtain ⟨states, hstates⟩ := stateCovariates_of_summary hids hc.summary
  refine ⟨(generateProgramRegistry_returns hids hprogram hstates).mp ⟨registry, hregistry⟩, ?_⟩
  -- A cell count with the values of the number of legal actions keeps it out of the registry.
  have hcounted : ∀ cells : GraphCoordinateProgram .cellSet, cells.context = .state →
      cells.depth = 0 → log.CountsActions cells → log.ActionCountSeen := by
    intro cells hcontext hdepth hcounts
    have hne : s.selected.stateProgram ≠ actionCount := by
      intro heq
      have hbound : (cardinalityCells cells).depth ≤ maxProgramDepth := by
        change 1 + cells.depth ≤ 2
        omega
      exact absurd (hrepresented.least actionCount (cardinalityCells cells) (heq ▸ hp) rfl hcontext
        hbound fun s hs => (hcounts s hs).symm) (not_le.mpr (lt_actionCount hdepth))
    refine .inr ⟨s.selected, hselected, hne, fun c' hc' hcount => ?_⟩
    refine lt_of_le_of_ne (hleast c' hc') fun heq => ?_
    obtain heq' | ⟨cells', hcells'⟩ := s.selected.stateProgram.integer_cases
    · exact hne heq'
    · have htext : s.selected.stateProgram.rendered = c'.stateProgram.rendered := by
        simp only [CandidateSummary.rank, toLex_inj, Prod.mk.injEq] at heq
        exact heq.2.2.2.2.2.1
      rw [hcells', hcount] at htext
      exact rendered_ne_actionCount cells' htext
  by_cases hall : log.CountsActions .allCells
  · exact hcounted .allCells rfl rfl hall
  · by_cases hoccupied : log.CountsActions .occupiedCells
    · exact hcounted .occupiedCells rfl rfl hoccupied
    · exact .inl ⟨hall, hoccupied⟩

/-- A ranked log with an admissible pair has a synthesis, which no admissible pair precedes whose
representative is not a cell count for the number of legal actions. -/
theorem exists_synthesis (registryId : GraphProgramRegistry ι → ι) (hids : ids.Injective)
    (hprogram : Function.Injective ids.programId)
    (hranked : log.Ranked) {c : CandidateSummary} (hc : log.AdmissiblePair c) :
    ∃ s registry, runSynthesis registryId log = .ok s ∧ log.Represented registry ∧
      log.AdmissiblePair s.selected ∧ s.proposal.stateProgram = s.selected.stateProgram ∧
      s.proposal.actionProgram = s.selected.actionProgram ∧
      ∀ p q c', (p, q) ∈ registryPairs registry → log.candidateSummary p q = .ok c' →
        c'.admissible = true → s.selected.rank ≤ c'.rank := by
  obtain ⟨states, hstates⟩ := stateCovariates_of_summary hids hc.summary
  obtain ⟨registry, hregistry⟩ :=
    (generateProgramRegistry_returns hids hprogram hstates).mpr hranked
  have hrepresented := represented_of_registry hids hprogram hregistry
  obtain ⟨p, q, hpair, hsummary, -⟩ := exists_represented hrepresented hc
  obtain ⟨s, hs⟩ := selectPair_returns registryId hids hstates hpair hsummary
    hc.admissible
  have hrun : runSynthesis registryId log = .ok s := bind_eq_ok.mpr ⟨registry, hregistry, hs⟩
  obtain ⟨registry', hregistry', hrepresented', -, hselected, hproposal, hproposal', hleast⟩ :=
    runSynthesis_eq_ok hids hprogram hrun
  exact ⟨s, registry', hrun, hrepresented', hselected, hproposal, hproposal', hleast⟩

theorem optimal_of_seen (hids : ids.Injective) (hprogram : Function.Injective ids.programId)
    (h : ∀ c, log.AdmissiblePair c → log.Ranked ∧ log.ActionCountSeen) :
    OptimalSynthesis registryId log where
  optimal c hc := by
    obtain ⟨hranked, hseen⟩ := h c hc
    obtain ⟨s, registry, hrun, hrepresented, hselected, hproposal, hproposal', hleast⟩ :=
      exists_synthesis registryId hids hprogram hranked hc
    refine ⟨s, hrun, hselected, hproposal, hproposal', fun c' hc' => ?_⟩
    have hdirect : ∀ c', log.AdmissiblePair c' → c'.stateProgram ≠ actionCount →
        s.selected.rank ≤ c'.rank := by
      intro c' hc' hne
      obtain ⟨p, q, hpair, hsummary, -, hle, -⟩ := exists_represented hrepresented hc'
      exact (hleast p q _ hpair hsummary hc'.admissible).trans (hle fun heq => absurd heq hne)
    by_cases hcount : c'.stateProgram = actionCount
    · obtain ⟨hall, hoccupied⟩ | ⟨c'', hc'', hne, hlt⟩ := hseen
      · -- No cell count has the values of the number of legal actions, which represents itself.
        obtain ⟨p, q, hpair, hsummary, hvalues, hle, hdepth⟩ := exists_represented hrepresented hc'
        refine (hleast p q _ hpair hsummary hc'.admissible).trans (hle fun _ => ?_)
        rw [hcount] at hvalues hdepth
        obtain rfl | rfl | rfl := cells_of_depth_one (mem_registryPairs.mp hpair).1.2 hdepth
        · rfl
        · exact absurd (fun s hs => (hvalues s hs).symm) hall
        · exact absurd (fun s hs => (hvalues s hs).symm) hoccupied
      · exact (hdirect c'' hc'' hne).trans (hlt c' hc' hcount).le
    · exact hdirect c' hc' hcount
  fails hnone := by
    cases hrun : runSynthesis registryId log with
    | error e => exact ⟨e, rfl⟩
    | ok s =>
      obtain ⟨_, -, -, -, hselected, -⟩ := runSynthesis_eq_ok hids hprogram hrun
      exact absurd hselected (hnone s.selected)

/-- On a log of full boards, which have as many legal actions as cells, some admissible pair
precedes the choice. -/
theorem not_optimal_of_full (hids : ids.Injective) (hprogram : Function.Injective ids.programId)
    (hfull : ∀ s ∈ log.namedStates, ∀ t, log.topologyAt s.topologyId = .ok t →
      ((occupied s.ranks).map (·.2)).toFinset = Finset.range t.vertexCount)
    (hcounts : log.CountsActions .allCells) {c : CandidateSummary} (hc : log.AdmissiblePair c) :
    ¬ OptimalSynthesis registryId log := by
  intro h
  obtain ⟨states, hstates⟩ := stateCovariates_of_summary hids hc.summary
  obtain ⟨-, ⟨hall, -⟩ | ⟨c, hc, hne, hleast⟩⟩ := seen_of_optimal hids hprogram h hc
  · exact hall hcounts
  -- Both cell sets have the same cells, so a difference of them is empty.
  have hcells : ∀ (cells : GraphCoordinateProgram .cellSet) (s : GraphStateView ι),
      s ∈ log.namedStates → cells.context = .state → cells.depth = 0 →
      ∀ c, log.CovariateOf s c →
        evaluateProgram c cells = .ok (Finset.range c.topology.vertexCount : Finset ℕ) := by
    intro cells s hs hcontext hdepth c hof
    cases cells with
    | allCells => rfl
    | occupiedCells =>
      have hset := hfull s hs _ hof.topology
      rw [← hof.state] at hset
      exact congrArg Except.ok hset
    | pairCells => cases hcontext
    | adjacentFilter vertex cells =>
      simp only [GraphCoordinateProgram.depth] at hdepth
      omega
    | setDifference first second =>
      simp only [GraphCoordinateProgram.depth] at hdepth
      omega
  obtain heq | ⟨cells, heq⟩ := c.stateProgram.integer_cases
  · exact hne heq
  have hcontext : cells.context = .state := by
    have hcontext := hc.stateContext
    rwa [heq] at hcontext
  have hdepth : cells.depth ≤ 1 := by
    have hdepth : (cardinalityCells cells).depth ≤ 2 := heq ▸ hc.stateDepth
    simp only [GraphCoordinateProgram.depth] at hdepth
    omega
  have hsummary := hc.summary
  rw [heq] at hsummary
  by_cases hzero : cells.depth = 0
  · -- The number of legal actions has the values of the cell count, and an earlier text.
    have hvalues : ∀ s ∈ log.namedStates, log.stateProgramValue (cardinalityCells cells) s =
        log.stateProgramValue actionCount s := by
      intro s hs
      obtain ⟨c, -, hof⟩ := exists_stateCovariate hids hstates hs
      rw [← hcounts s hs, hof.value, hof.value]
      simp only [evaluateProgram]
      rw [hcells cells s hs hcontext hzero c hof]
    have hpair : log.AdmissiblePair (c.withPrograms actionCount c.actionProgram) :=
      ⟨rfl, hc.actionContext, show actionCount.depth ≤ 2 by decide, hc.actionDepth,
        candidateSummary_congr hvalues (fun _ _ => rfl) hsummary, hc.admissible⟩
    refine absurd (hleast _ hpair rfl) (not_lt.mpr (le_of_lt ?_))
    have hnodes : c.stateProgram.nodeCount = actionCount.nodeCount := by
      rw [heq]
      change 1 + cells.nodeCount = 2
      rw [nodeCount_cells hdepth, hzero]
    have hdepth' : c.stateProgram.depth = actionCount.depth := by
      rw [heq]
      change 1 + cells.depth = 1
      rw [hzero]
    have htext : actionCount.rendered < c.stateProgram.rendered := by
      rw [heq]
      cases cells with
      | allCells | occupiedCells => decide
      | pairCells => cases hcontext
      | adjacentFilter vertex cells =>
        simp only [GraphCoordinateProgram.depth] at hzero
        omega
      | setDifference first second =>
        simp only [GraphCoordinateProgram.depth] at hzero
        omega
    simp only [CandidateSummary.rank, CandidateSummary.withPrograms, Prod.Lex.toLex_lt_toLex,
      hnodes, hdepth', htext, true_and, true_or, or_true]
  · have hconstant : ∀ s ∈ log.namedStates,
        log.stateProgramValue (cardinalityCells cells) s = .ok 0 := by
      intro s hs
      obtain ⟨c, -, hof⟩ := exists_stateCovariate hids hstates hs
      rw [hof.value]
      cases cells with
      | allCells | occupiedCells | pairCells => exact absurd rfl hzero
      | adjacentFilter vertex cells =>
        obtain rfl := vertex.eq_survivorCell
        cases hcontext
      | setDifference first second =>
        simp only [GraphCoordinateProgram.depth] at hdepth
        have hfirst : first.context = .state ∧ second.context = .state := by
          simp only [GraphCoordinateProgram.context] at hcontext
          cases hf : first.context <;> cases hs : second.context <;> simp_all
        simp only [evaluateProgram]
        rw [hcells first s hs hfirst.1 (by omega) c hof,
          hcells second s hs hfirst.2 (by omega) c hof]
        change Except.ok (Finset.card (Finset.range _ \ Finset.range _)) = _
        rw [sdiff_self]
        rfl
    exact absurd hc.admissible (by
      rw [not_admissible_of_constant hids hconstant hsummary]
      decide)

/-- The closure holds the programs of depth at most two. The synthesis is optimal over all their
pairs exactly when an admissible pair leaves the log ranked and its number of legal actions seen. -/
theorem synthesis_optimal_iff (hids : ids.Injective) (hprogram : Function.Injective ids.programId)
    (registryId : GraphProgramRegistry ι → ι) (log : AnonymousGraphSourceLog ids.toContentIds) :
    ((∀ p : AnyProgram, p ∈ syntacticProgramClosure ids.programId ↔ p.2.depth ≤ maxProgramDepth) ∧
      OptimalSynthesis registryId log) ↔
    ∀ c, log.AdmissiblePair c → log.Ranked ∧ log.ActionCountSeen := by
  constructor
  · exact fun h c hc => seen_of_optimal hids hprogram h.2 hc
  · exact fun h => ⟨fun p => mem_syntacticProgramClosure hprogram,
      optimal_of_seen hids hprogram h⟩

end

/-! ## Three full boards -/

section

def programCode : {τ : GraphProgramType} → GraphCoordinateProgram τ → ℕ
  | _, .allCells => 0
  | _, .occupiedCells => 1
  | _, .legalActions => 2
  | _, .survivorCell => 3
  | _, .pairCells => 4
  | _, .rankDegreeSignature => 5
  | _, .cardinalityCells cells => 6 + 4 * programCode cells
  | _, .cardinalityActions actions => 7 + 4 * programCode actions
  | _, .adjacentFilter vertex cells => 8 + 4 * Nat.pair (programCode vertex) (programCode cells)
  | _, .setDifference first second => 9 + 4 * Nat.pair (programCode first) (programCode second)

theorem programCode_injective {τ σ : GraphProgramType} (p : GraphCoordinateProgram τ)
    (q : GraphCoordinateProgram σ) (h : programCode p = programCode q) : p.any = q.any := by
  induction p generalizing σ with
  | allCells | occupiedCells | legalActions | survivorCell | pairCells | rankDegreeSignature =>
    cases q <;> simp only [programCode] at h <;> first | rfl | omega
  | cardinalityCells cells ih =>
    cases q with
    | cardinalityCells cells' =>
      simp only [programCode] at h
      cases ih cells' (by omega)
      rfl
    | _ => simp only [programCode] at h; omega
  | cardinalityActions actions ih =>
    cases q with
    | cardinalityActions actions' =>
      simp only [programCode] at h
      cases ih actions' (by omega)
      rfl
    | _ => simp only [programCode] at h; omega
  | adjacentFilter vertex cells ih ih' =>
    cases q with
    | adjacentFilter vertex' cells' =>
      simp only [programCode] at h
      obtain ⟨hvertex, hcells⟩ := Nat.pair_eq_pair.mp (show Nat.pair (programCode vertex)
        (programCode cells) = Nat.pair (programCode vertex') (programCode cells') by omega)
      cases ih vertex' hvertex
      cases ih' cells' hcells
      rfl
    | _ => simp only [programCode] at h; omega
  | setDifference first second ih ih' =>
    cases q with
    | setDifference first' second' =>
      simp only [programCode] at h
      obtain ⟨hfirst, hsecond⟩ := Nat.pair_eq_pair.mp (show Nat.pair (programCode first)
        (programCode second) = Nat.pair (programCode first') (programCode second') by omega)
      cases ih first' hfirst
      cases ih' second' hsecond
      rfl
    | _ => simp only [programCode] at h; omega

def boardIds : SynthesisIds ℕ := { sampleIds with programId := fun p => programCode p.2 }

theorem boardIds_injective : boardIds.Injective := sampleIds_injective

theorem boardIds_programId : Function.Injective boardIds.programId :=
  fun p q h => programCode_injective p.2 q.2 h

def pathTopology : GraphTopology where
  vertexCount := 4
  edges := [⟨0, 1, Nat.zero_lt_one⟩, ⟨1, 2, Nat.one_lt_two⟩, ⟨2, 3, by decide⟩]
  vertexCount_gt := by decide
  edges_ne := by simp
  edges_lt := by decide
  sorted := by decide

/-- Two cells of one rank. -/
def pairBoard (rank : ℕ) (h : rank = 1 ∨ rank = 2) : Board where
  topology := sampleTopology
  ranks := [rank, rank]
  moves := Edge.actions ⟨0, 1, Nat.zero_lt_one⟩
  ranks_length := rfl
  ranks_le := by obtain rfl | rfl := h <;> decide
  legal := by obtain rfl | rfl := h <;> rfl
  merges := by obtain rfl | rfl := h <;> decide
  ordered := by simp [Edge.actions, actionKey, Prod.Lex.toLex_lt_toLex]

def pathBoard : Board where
  topology := pathTopology
  ranks := [1, 1, 2, 2]
  moves := Edge.actions ⟨0, 1, Nat.zero_lt_one⟩ ++ Edge.actions ⟨2, 3, by decide⟩
  ranks_length := rfl
  ranks_le := by decide
  legal := rfl
  merges := by decide
  ordered := by decide

def fullBoards : List Board := [pairBoard 1 (.inl rfl), pairBoard 2 (.inr rfl), pathBoard]

theorem distinct_fullBoards : Distinct fullBoards := by
  have hlength : ∀ rank h, (pairBoard rank h).ranks ≠ pathBoard.ranks := fun rank h heq =>
    absurd (congrArg List.length heq) (show 2 ≠ 4 by decide)
  refine .cons ?_ (.cons ?_ (.cons (by simp) .nil))
  · simp only [List.mem_cons, List.not_mem_nil, or_false]
    rintro _ (rfl | rfl) ⟨-, hranks⟩
    · exact absurd hranks (by decide)
    · exact hlength _ _ hranks
  · simp only [List.mem_cons, List.not_mem_nil, or_false]
    rintro _ rfl ⟨-, hranks⟩
    exact hlength _ _ hranks

theorem nodup_topologies : [sampleTopology, pathTopology].Nodup := by
  rw [List.nodup_cons, List.mem_singleton]
  exact ⟨fun h => absurd (congrArg GraphTopology.vertexCount h) (by decide),
    List.nodup_singleton _⟩

theorem topology_fullBoards : ∀ b ∈ fullBoards, b.topology ∈ [sampleTopology, pathTopology] := by
  simp [fullBoards, pairBoard, pathBoard]

theorem exists_fullBoard : ∃ b ∈ fullBoards, b.moves ≠ [] :=
  ⟨pathBoard, by simp [fullBoards], by simp [pathBoard, Edge.actions]⟩

/-- As many merges as cells on each of three boards without empty cells. -/
def fullLog : AnonymousGraphSourceLog boardIds.toContentIds :=
  boardLog boardIds_injective [sampleTopology, pathTopology] fullBoards nodup_topologies
    distinct_fullBoards topology_fullBoards exists_fullBoard

theorem fullBoards_full : ∀ b ∈ fullBoards, b.moves.length = b.topology.vertexCount ∧
    ((occupied b.ranks).map (·.2)).toFinset = Finset.range b.topology.vertexCount := by
  simp only [fullBoards, List.forall_mem_cons, List.not_mem_nil, false_implies, implies_true,
    and_true]
  exact ⟨⟨rfl, rfl⟩, ⟨rfl, rfl⟩, ⟨rfl, rfl⟩⟩

theorem fullLog_values {s : GraphStateView ℕ} (hs : s ∈ fullLog.namedStates) :
    fullLog.stateProgramValue actionCount s = .ok s.ranks.length := by
  obtain ⟨b, hb, n, h, rfl⟩ := mem_namedStates_boardLog hs
  have htopology : fullLog.topologyAt (b.state boardIds.toContentIds n h).topologyId =
      .ok b.topology := topologyAt_boardLog hb
  have hlength : b.moves.length = b.ranks.length :=
    (fullBoards_full b hb).1.trans b.ranks_length.symm
  refine bind_eq_ok.mpr ⟨_, htopology, bind_eq_ok.mpr ⟨_, b.legalActionViews_eq h, ?_⟩⟩
  change Except.ok (List.length (List.map _ b.moves)) = Except.ok b.ranks.length
  rw [List.length_map, hlength]

def survivorDegree : GraphCoordinateProgram .integer :=
  cardinalityCells (adjacentFilter survivorCell allCells)

def degreeOf (b : Board) (move : GraphAction) : ℕ :=
  if b.ranks.length = 4 ∧ (move.survivor = 1 ∨ move.survivor = 2) then 2 else 1

theorem fullBoards_degree : ∀ b ∈ fullBoards, ∀ move ∈ b.moves,
    (b.topology.neighbors move.survivor).map
      (fun neighbors => (neighbors ∩ Finset.range b.topology.vertexCount).card) =
        .ok (degreeOf b move) := by
  simp only [fullBoards, pairBoard, pathBoard, Edge.actions, List.forall_mem_cons,
    List.not_mem_nil, false_implies, implies_true, and_true, List.cons_append, List.nil_append]
  exact ⟨⟨rfl, rfl⟩, ⟨rfl, rfl⟩, rfl, rfl, rfl, rfl⟩

/-- The rows of the log under the number of legal actions and the degree of the survivor, with the
states numbered. -/
def fullRows : List (SupportRow ℕ) :=
  fullBoards.zipIdx.flatMap fun b => b.1.moves.map fun move =>
    ⟨b.2, 1, b.1.ranks.length, degreeOf b.1 move, [(.safeTerminal, 1, 0)]⟩

theorem fullRows_admissible :
    (summarize actionCount survivorDegree fullRows).admissible = true := by
  decide

theorem fullLog_admissible : ∃ c, fullLog.AdmissiblePair c := by
  let degree (row : GraphObservedRow ℕ) : ℕ :=
    if row.state.ranks.length = 4 ∧
      (row.action.move.survivor = 1 ∨ row.action.move.survivor = 2) then 2 else 1
  have haction : ∀ row ∈ fullLog.rows,
      fullLog.actionProgramValue survivorDegree row = .ok (degree row) := by
    intro row hrow
    obtain ⟨b, hb, move, hmove, rfl⟩ := mem_boardRows.mp (mem_sortBy.mp hrow)
    have htopology : fullLog.topologyAt (b.row boardIds.toContentIds move).state.topologyId =
        .ok b.topology := topologyAt_boardLog hb
    refine bind_eq_ok.mpr ⟨_, htopology, ?_⟩
    obtain ⟨neighbors, hneighbors, hcard⟩ := map_eq_ok.mp (fullBoards_degree b hb move hmove)
    exact bind_eq_ok.mpr ⟨_, bind_eq_ok.mpr ⟨_, rfl, bind_eq_ok.mpr ⟨_, rfl,
      bind_eq_ok.mpr ⟨neighbors, hneighbors, rfl⟩⟩⟩, congrArg Except.ok hcard⟩
  have hsummary := AnonymousGraphSourceLog.candidateSummary_eq boardIds_injective
    (fun s hs => fullLog_values hs) haction
  let name (k : ℕ) : ℕ := boardIds.stateId ((fullBoards.getD k pathBoard).source
    boardIds.toContentIds)
  have hrows : (fullLog.rows.map (AnonymousGraphSourceLog.rowOf boardIds.toContentIds
      (fun s => s.ranks.length) degree)).Perm (fullRows.map (SupportRow.rename name)) :=
    ((perm_sortBy _ _).map _).trans (List.Perm.of_eq rfl)
  have hkeys : ∀ a ∈ fullRows, a.stateKey < 3 := by decide
  have hranks : ∀ k < 3, ∀ k' < 3, (fullBoards.getD k pathBoard).ranks =
      (fullBoards.getD k' pathBoard).ranks → k = k' := by decide
  rw [summarize_rename _ _ hrows fun a ha b hb hab =>
    hranks _ (hkeys a ha) _ (hkeys b hb) (stateId_source boardIds_injective hab).2] at hsummary
  exact ⟨_, rfl, rfl, by decide, by decide, hsummary, fullRows_admissible⟩

/-- Among three full boards the synthesis overlooks the number of legal actions. -/
theorem synthesis_not_optimal_fullBoards :
    ¬ ((∀ p : AnyProgram, p ∈ syntacticProgramClosure boardIds.programId ↔
        p.2.depth ≤ maxProgramDepth) ∧
      OptimalSynthesis (·.syntacticProgramCount) fullLog) := by
  obtain ⟨c, hc⟩ := fullLog_admissible
  rintro ⟨-, hoptimal⟩
  refine not_optimal_of_full boardIds_injective boardIds_programId ?_ ?_ hc hoptimal
  · intro s hs t ht
    obtain ⟨b, hb, n, h, rfl⟩ := mem_namedStates_boardLog hs
    obtain rfl := Except.ok.inj ((topologyAt_boardLog hb).symm.trans ht)
    exact (fullBoards_full b hb).2
  · intro s hs
    obtain ⟨b, hb, n, h, rfl⟩ := mem_namedStates_boardLog hs
    rw [fullLog_values hs]
    refine bind_eq_ok.mpr ⟨_, topologyAt_boardLog hb, bind_eq_ok.mpr ⟨_, b.legalActionViews_eq h,
      ?_⟩⟩
    change Except.ok (Finset.range b.topology.vertexCount).card = Except.ok b.ranks.length
    rw [Finset.card_range, b.ranks_length]

theorem synthesis_optimal_iff_sample :
    ((∀ p : AnyProgram, p ∈ syntacticProgramClosure boardIds.programId ↔
        p.2.depth ≤ maxProgramDepth) ∧
      OptimalSynthesis (·.syntacticProgramCount) fullLog) ↔
    ∀ c, fullLog.AdmissiblePair c → fullLog.Ranked ∧ fullLog.ActionCountSeen :=
  synthesis_optimal_iff boardIds_injective boardIds_programId _ fullLog

theorem fullLog_ranked : fullLog.Ranked := by
  intro s hs t ht e he
  obtain ⟨b, hb, n, h, rfl⟩ := mem_namedStates_boardLog hs
  obtain rfl := Except.ok.inj ((topologyAt_boardLog hb).symm.trans ht)
  have hfull := (fullBoards_full b hb).2
  rw [← Finset.mem_range, ← hfull]
  exact List.mem_toFinset.mpr (List.mem_map_of_mem he)

/-- The vertices of each topology turn by one place, which the path does not survive. -/
def turned (t : GraphTopology) : Equiv.Perm (Fin t.vertexCount) := finRotate t.vertexCount

theorem fullLog_admits : fullLog.Admits turned where
  distinct := by
    refine List.Nodup.of_map GraphTopology.vertexCount ?_
    rw [List.map_map]
    exact ((perm_sortBy _ _).map _).nodup_iff.mpr (by decide)
  keeps row hrow t ht htopology outcome houtcome v hv := by
    obtain ⟨b, hb, move, -, rfl⟩ := mem_boardRows.mp (mem_sortBy.mp hrow)
    obtain rfl := List.mem_singleton.mp houtcome
    obtain rfl : t = b.topology := boardIds_injective.topologyId htopology
    have hlength : ((b.outcome boardIds.toContentIds).nextState.ranks).length =
        b.topology.vertexCount := b.ranks_length
    rw [hlength] at hv ⊢
    exact (keeps_cells (turned b.topology) v).mpr hv

/-- The full boards and their turned copies lead to one choice. -/
theorem synthesis_relabelling_invariant_fullBoards : ∃ log' s s',
    AnonymousGraphSourceLog.make boardIds.toContentIds
      (sortBy boardIds.topologyId (fullLog.topologies.map (permuted turned)))
      (sortBy boardIds.rowId (fullLog.rows.map (fullLog.relabelRow turned))) = .ok log' ∧
    (permuted turned pathTopology).edges ≠ pathTopology.edges ∧
    runSynthesis (·.syntacticProgramCount) fullLog = .ok s ∧ fullLog.AdmissiblePair s.selected ∧
    runSynthesis (·.syntacticProgramCount) log' = .ok s' ∧ s'.content = s.content := by
  obtain ⟨log', hmake, hcontent, -⟩ := synthesis_relabelling_invariant boardIds_injective
    fullLog_admits (·.syntacticProgramCount)
  obtain ⟨c, hc⟩ := fullLog_admissible
  obtain ⟨s, -, hs, -, hselected, -⟩ := exists_synthesis (·.syntacticProgramCount)
    boardIds_injective boardIds_programId fullLog_ranked hc
  rw [hs] at hcontent
  obtain ⟨s', hs', hsame⟩ := map_eq_ok.mp hcontent
  exact ⟨log', s, s', hmake, by decide, hs, hselected, hs', hsame⟩

end

end Acfqp.Coordinates
