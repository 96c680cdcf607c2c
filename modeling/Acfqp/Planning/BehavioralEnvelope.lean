import Acfqp.Abstraction.BehavioralCoarsest
import Acfqp.Planning.BehavioralExact

/-!
# A stable quotient has a singleton envelope

Primitive actions of one final signature realize one behaviour, whatever their mixture, so that
every entry of the envelope holds one behaviour and minimisation always ends in its quotient.
-/

namespace Acfqp.Planning

open Library Abstraction

variable {S A : Type} [DecidableEq S] [PyRepr S] [PyRepr A]

/-! ## The atoms of one action -/

section

variable {kernel : Kernel S A} {partition : Partition S BehavioralCellId} {q : ℚ}
  {os : List (Outcome S)} {row : List (RealizationAtom S BehavioralCellId)}

/-- The atom of one outcome of an action that is chosen with probability `q`. -/
def realizationAtom (kernel : Kernel S A) (partition : Partition S BehavioralCellId) (q : ℚ)
    (outcome : Outcome S) : Except PyError (RealizationAtom S BehavioralCellId) := do
  if outcome.failure || outcome.terminal || kernel.isTerminal outcome.nextState then
    return ⟨q * outcome.probability, outcome, none⟩
  else
    let cell ← partition.cellOf outcome.nextState
    return ⟨q * outcome.probability, outcome, some cell⟩

/-- What the atoms of an action total, before they are mixed. -/
structure AtomRow (kernel : Kernel S A) (partition : Partition S BehavioralCellId) (q : ℚ)
    (os : List (Outcome S)) (row : List (RealizationAtom S BehavioralCellId)) : Prop where
  features : (row.flatMap fun atom => atom.outcome.rewardFeatures.map fun f =>
      (f.1, atom.probability * f.2)) =
    (os.flatMap fun o => o.rewardFeatures.map fun f => (f.1, o.probability * f.2)).map
      fun x => (x.1, q * x.2)
  successors : ∀ events, continuing kernel partition os = .ok events →
    (row.filterMap fun atom => atom.successor.map fun cell => (cell, atom.probability)) =
      events.map fun x => (x.1, q * x.2)
  failure : ((row.filter fun atom => atom.outcome.failure).map RealizationAtom.probability).sum =
    q * ((os.filter Outcome.failure).map Outcome.probability).sum
  termination : ((row.filter fun atom => atom.successor.isNone).map
      RealizationAtom.probability).sum =
    q * ((os.filter (outcomeEnds kernel)).map Outcome.probability).sum

omit [PyRepr A] in
theorem atomRow (h : os.mapM (realizationAtom kernel partition q) = .ok row) :
    AtomRow kernel partition q os row := by
  induction os generalizing row with
  | nil =>
    obtain rfl := pure_eq_ok.mp h
    refine ⟨rfl, fun events hevents => ?_, by simp, by simp⟩
    obtain rfl := pure_eq_ok.mp hevents
    rfl
  | cons o os ih =>
    obtain ⟨atom, row, hatom, hrow, rfl⟩ := List.forall₂_cons_left_iff.mp (mapM_eq_ok.mp h)
    have ih := ih (mapM_eq_ok.mpr hrow)
    unfold realizationAtom at hatom
    change (if outcomeEnds kernel o = true then _ else _) = _ at hatom
    split at hatom
    · next hends =>
      obtain rfl := pure_eq_ok.mp hatom
      constructor
      · simp [ih.features, mul_assoc]
      · intro events hevents
        rw [continuing, List.filter_cons_of_neg (by simp [hends])] at hevents
        simpa using ih.successors events hevents
      · cases hfailure : o.failure <;> simp [hfailure, ih.failure, mul_add]
      · simp [hends, ih.termination, mul_add]
    · next hends =>
      obtain ⟨cell, hcell, hatom⟩ := bind_eq_ok.mp hatom
      obtain rfl := pure_eq_ok.mp hatom
      have hfailure : o.failure = false := by
        by_contra hfailure
        simp [outcomeEnds, hfailure] at hends
      constructor
      · simp [ih.features, mul_assoc]
      · intro events hevents
        rw [continuing, List.filter_cons_of_pos (by simp [hends])] at hevents
        obtain ⟨e, rest, he, hrest, rfl⟩ := List.forall₂_cons_left_iff.mp (mapM_eq_ok.mp hevents)
        obtain ⟨cell', hcell', he⟩ := bind_eq_ok.mp he
        cases hcell.symm.trans hcell'
        obtain rfl := pure_eq_ok.mp he
        simp [ih.successors rest (mapM_eq_ok.mpr hrest)]
      · simp [hfailure, ih.failure]
      · simp [hends, ih.termination]

end

/-! ## Realizations of one signature -/

section

variable {kernel : Kernel S A} {partition : Partition S BehavioralCellId} {s : S}
  {σ : BehavioralActionSignature}

def outcomesOf (kernel : Kernel S A) (s : S) (a : A) : List (Outcome S) :=
  (iterOutcomes kernel s a).toOption.getD []

/-- Where the outcomes of an action continue. -/
def eventsOf (kernel : Kernel S A) (partition : Partition S BehavioralCellId) (s : S) (a : A) :
    List (BehavioralCellId × ℚ) :=
  (continuing kernel partition (outcomesOf kernel s a)).toOption.getD []

def featuresOf (kernel : Kernel S A) (s : S) (a : A) : Features :=
  (outcomesOf kernel s a).flatMap fun o => o.rewardFeatures.map fun f => (f.1, o.probability * f.2)

theorem signs_of {a : A} (h : actionSignature kernel partition s a = .ok σ) :
    iterOutcomes kernel s a = .ok (outcomesOf kernel s a) ∧
      continuing kernel partition (outcomesOf kernel s a) = .ok (eventsOf kernel partition s a) ∧
      Signs kernel (outcomesOf kernel s a) (eventsOf kernel partition s a) σ := by
  obtain ⟨os, events, hos, hevents, hsigns⟩ := actionSignature_eq_ok.mp h
  have hos' : outcomesOf kernel s a = os := by rw [outcomesOf, hos]; rfl
  have hevents' : eventsOf kernel partition s a = events := by
    rw [eventsOf, hos', hevents]
    rfl
  rw [hevents', hos']
  exact ⟨hos, hevents, hsigns⟩

def realized (σ : BehavioralActionSignature) :
    Features × ℚ × ℚ × List (BehavioralCellId × ℚ) :=
  (σ.rewardFeatures, σ.failureProbability, σ.terminationProbability,
    sortBy (fun e => pyRepr e.1) σ.successorProbabilities)

theorem atomRow_of {q : ℚ} {a : A} {row : List (RealizationAtom S BehavioralCellId)}
    (h : actionSignature kernel partition s a = .ok σ)
    (hrow : (do
      let outcomes ← Abstraction.iterOutcomes kernel s a
      outcomes.mapM (realizationAtom kernel partition q)) = .ok row) :
    AtomRow kernel partition q (outcomesOf kernel s a) row := by
  obtain ⟨os, hos, hrow⟩ := bind_eq_ok.mp hrow
  cases (signs_of h).1.symm.trans (Abstraction.iterOutcomes_eq_ok.mp hos)
  exact atomRow hrow

theorem realization_signed [DecidableEq A] {source : ActionSource S A BehavioralActionSignature}
    {distribution : List (ℚ × A)} {label : BehavioralActionSignature}
    {r : GroundRealization S BehavioralCellId}
    (hdistribution : source.concretizer s label = .ok distribution) (hne : distribution ≠ [])
    (hsum : (distribution.map Prod.fst).sum = 1)
    (hsigned : ∀ e ∈ distribution, actionSignature kernel partition s e.2 = .ok σ)
    (h : realization kernel partition source s label = .ok r) : r.behaviour = realized σ := by
  obtain ⟨distribution', hnormal, h⟩ := bind_eq_ok.mp h
  cases hdistribution.symm.trans (normaliseConcretizer_eq_ok hnormal).1
  obtain ⟨atoms, hatoms, h⟩ := bind_eq_ok.mp h
  obtain ⟨_, -, h⟩ := bind_eq_ok.mp h
  obtain rfl := pure_eq_ok.mp h
  obtain ⟨rows, hrows, hatoms⟩ := bind_eq_ok.mp hatoms
  obtain rfl := pure_eq_ok.mp hatoms
  have hspec : ∀ e ∈ distribution, ∀ row, (do
      let outcomes ← Abstraction.iterOutcomes kernel s e.2
      outcomes.mapM (realizationAtom kernel partition e.1)) = .ok row →
      AtomRow kernel partition e.1 (outcomesOf kernel s e.2) row :=
    fun e he row hrow => atomRow_of (hsigned e he) hrow
  have hmix : ∀ {f : List (RealizationAtom S BehavioralCellId) → ℚ} {x : ℚ},
      (∀ e ∈ distribution, ∀ row, AtomRow kernel partition e.1 (outcomesOf kernel s e.2) row →
        f row = e.1 * x) → (rows.map f).sum = x := by
    intro f x hf
    have hrow : rows.map f = distribution.map fun e => e.1 * x :=
      map_of_mapM hrows fun e he row hrow => hf e he row (hspec e he row hrow)
    rw [hrow, List.sum_map_mul_right, hsum, one_mul]
  have hfeatures : rows.flatten.flatMap (fun atom => atom.outcome.rewardFeatures.map fun f =>
      (f.1, atom.probability * f.2)) = distribution.flatMap fun e =>
        (featuresOf kernel s e.2).map fun x => (x.1, e.1 * x.2) := by
    rw [List.flatMap_def, List.map_flatten, List.flatten_flatten, List.map_map, List.flatMap_def]
    exact congrArg List.flatten
      (map_of_mapM hrows fun e he row hrow => (hspec e he row hrow).features)
  have hsuccessors : rows.flatten.filterMap (fun atom => atom.successor.map fun cell =>
      (cell, atom.probability)) = distribution.flatMap fun e =>
        (eventsOf kernel partition s e.2).map fun x => (x.1, e.1 * x.2) := by
    rw [List.filterMap_flatten, List.flatMap_def]
    exact congrArg List.flatten (map_of_mapM hrows fun e he row hrow =>
      (hspec e he row hrow).successors _ (signs_of (hsigned e he)).2.1)
  have hmember : ∀ e ∈ distribution, Signs kernel (outcomesOf kernel s e.2)
      (eventsOf kernel partition s e.2) σ := fun e he => (signs_of (hsigned e he)).2.2
  have hreward : ∀ e ∈ distribution,
      SameTotals (featuresOf kernel s e.2) σ.rewardFeatures := by
    intro e he
    rw [(hmember e he).rewards]
    exact (SameTotals.tally _).symm.trans (.of_perm (perm_sortBy _ _).symm)
  have hevent : ∀ e ∈ distribution,
      SameTotals (eventsOf kernel partition s e.2) σ.successorProbabilities := by
    intro e he
    rw [(hmember e he).successors]
    exact (SameTotals.tally _).symm.trans (.of_perm (perm_sortBy _ _).symm)
  obtain ⟨e, he⟩ := List.exists_mem_of_ne_nil _ hne
  have hnames : (σ.rewardFeatures.map Prod.fst).Nodup := by
    rw [(hmember e he).rewards]
    exact nodup_map_sortBy (nodup_keys_tally _)
  have hcells : (σ.successorProbabilities.map Prod.fst).Nodup := by
    rw [(hmember e he).successors]
    exact nodup_map_sortBy (nodup_keys_tally _)
  have hsorted : sortBy Prod.fst σ.rewardFeatures = σ.rewardFeatures := by
    rw [(hmember e he).rewards, sortBy_sortBy]
  refine Prod.ext ?_ (Prod.ext ?_ (Prod.ext ?_ ?_))
  · change sortBy Prod.fst (tally _) = σ.rewardFeatures
    rw [hfeatures, ← hsorted]
    exact (SameTotals.mixture hne hsum hreward).sortBy_tally Function.injective_id hnames
  · change (List.map _ (List.filter _ rows.flatten)).sum = σ.failureProbability
    rw [List.filter_flatten, List.map_flatten, List.sum_flatten, List.map_map, List.map_map]
    refine hmix fun e he row hrow => ?_
    rw [(hmember e he).failure]
    exact hrow.failure
  · change (List.map _ (List.filter _ rows.flatten)).sum = σ.terminationProbability
    rw [List.filter_flatten, List.map_flatten, List.sum_flatten, List.map_map, List.map_map]
    refine hmix fun e he row hrow => ?_
    rw [(hmember e he).termination]
    exact hrow.termination
  · change sortBy (fun e => pyRepr e.1) (tally _) = sortBy (fun e => pyRepr e.1) _
    rw [hsuccessors]
    exact (SameTotals.mixture hne hsum hevent).sortBy_tally unambiguous_cellId.injective hcells

end

/-! ## The envelope of a stable quotient -/

section

variable [DecidableEq A] {kernel : Kernel S A} {states : List S}
  {partition : Partition S BehavioralCellId}
  {assignments : List (BehavioralActionAssignment S A)}
  {models : QuotientModels S A BehavioralCellId BehavioralActionSignature}

/-- Every entry of a stable quotient holds one behaviour. -/
theorem Minimised.singleton (h : Minimised kernel states partition assignments models)
    {e : EnvelopeEntry S BehavioralCellId BehavioralActionSignature}
    (he : e ∈ models.envelope.entries) :
    (e.realizations.map GroundRealization.behaviour).dedup.length = 1 := by
  obtain ⟨s, hs⟩ := Partition.mem_cellIds.mp ((mem_entries_of_build h.built).mp he).1
  obtain ⟨⟨a, ha⟩, hne, hrealized, -⟩ := h.entry_spec he hs
  have hbehaviour : ∀ r ∈ e.realizations, r.behaviour = realized e.action := by
    intro r hr
    obtain ⟨t, ht, -, hrealization⟩ := hrealized r hr
    obtain ⟨b, hb⟩ := h.carries_of_same hs ht ha
    obtain ⟨distribution, hdistribution, hsome, hsum, hspec⟩ := h.concretize_returns ht hb
    exact realization_signed hdistribution hsome hsum (fun x hx => (hspec x hx).2.2.2) hrealization
  obtain ⟨r, rest, hcons⟩ := List.exists_cons_of_ne_nil hne
  have hconst : e.realizations.map GroundRealization.behaviour =
      List.replicate (rest.length + 1) (realized e.action) := by
    rw [List.map_congr_left hbehaviour, List.map_const', hcons, List.length_cons]
  rw [hconst, List.replicate_dedup (by omega)]
  rfl

end

section Minimisation

variable [DecidableEq A] {kernel : Kernel S A} {states failures : List S}
  {partition : Partition S BehavioralCellId}

omit [DecidableEq A] in
theorem failureTargets_returns (h : TransitionClosed kernel states) :
    ∃ failures, failureTargets kernel states = .ok failures := by
  have htargets : ∀ s ∈ states.filter (fun s => !kernel.isTerminal s), ∃ row, (do
      let targets ← (deterministicOrder (← kernel.actions s)).mapM fun action => do
        return ((← outcomes kernel s action).filter Outcome.failure).map Outcome.nextState
      return targets.flatten : Except PyError (List S)) = .ok row := by
    intro s hs
    obtain ⟨hs, hactive⟩ := List.mem_filter.mp hs
    obtain ⟨actions, hactions, -, hclosed⟩ := h.closed s hs (by simpa using hactive)
    have hrow : ∀ a ∈ deterministicOrder actions, ∃ row, (do
        return ((← outcomes kernel s a).filter Outcome.failure).map Outcome.nextState :
          Except PyError (List S)) = .ok row := by
      intro a ha
      obtain ⟨os, hos, -⟩ := hclosed a (mem_sortBy.mp ha)
      exact ⟨_, bind_eq_ok.mpr ⟨os, outcomes_eq_ok.mpr hos, rfl⟩⟩
    obtain ⟨targets, htargets⟩ := mapM_returns hrow
    exact ⟨_, bind_eq_ok.mpr ⟨actions, hactions, bind_eq_ok.mpr ⟨targets, htargets, rfl⟩⟩⟩
  obtain ⟨rows, hrows⟩ := mapM_returns htargets
  have hregistered : ∀ s ∈ rows.flatten, s ∈ states := by
    intro t ht
    obtain ⟨row, hrow, ht⟩ := List.mem_flatten.mp ht
    obtain ⟨s, hs, hrow⟩ := mem_of_mapM hrows hrow
    obtain ⟨hs, hactive⟩ := List.mem_filter.mp hs
    obtain ⟨actions, hactions, hrow⟩ := bind_eq_ok.mp hrow
    obtain ⟨targets, htargets, hrow⟩ := bind_eq_ok.mp hrow
    obtain rfl := pure_eq_ok.mp hrow
    obtain ⟨target, htarget, ht⟩ := List.mem_flatten.mp ht
    obtain ⟨a, ha, htarget⟩ := mem_of_mapM htargets htarget
    obtain ⟨os, hos, htarget⟩ := bind_eq_ok.mp htarget
    obtain rfl := pure_eq_ok.mp htarget
    obtain ⟨o, ho, rfl⟩ := List.mem_map.mp ht
    obtain ⟨actions', hactions', -, hclosed⟩ := h.closed s hs (by simpa using hactive)
    cases hactions.symm.trans hactions'
    obtain ⟨os', hos', hnext⟩ := hclosed a (mem_sortBy.mp ha)
    cases hos'.symm.trans (outcomes_eq_ok.mp hos)
    exact hnext o (List.mem_filter.mp ho).1
  have hmissing : rows.flatten.dedup.filter (fun s => s ∉ states) = [] := by
    simpa [List.filter_eq_nil_iff] using fun s row hrow hs =>
      hregistered s (List.mem_flatten.mpr ⟨row, hrow, hs⟩)
  exact ⟨_, bind_eq_ok.mpr ⟨rows, hrows, bind_eq_ok.mpr ⟨(), require_eq_ok.mpr hmissing, rfl⟩⟩⟩

omit [DecidableEq A] in
theorem assignSignatures_returns (h : TransitionClosed kernel states)
    (hcovers : ∀ s ∈ states, s ∈ partition.states) :
    ∃ assignments, assignSignatures kernel states partition = .ok assignments := by
  have hreturns : ∀ s ∈ states.filter (fun s => !kernel.isTerminal s), ∃ row, (do
      (deterministicOrder (← kernel.actions s)).mapM fun action => do
        return (⟨s, action, ← actionSignature kernel partition s action⟩ :
          BehavioralActionAssignment S A)) = (.ok row : Except PyError _) := by
    intro s hs
    obtain ⟨hs, hactive⟩ := List.mem_filter.mp hs
    have hactive : kernel.isTerminal s = false := by simpa using hactive
    obtain ⟨actions, hactions, -, -⟩ := h.closed s hs hactive
    have hrow : ∀ a ∈ deterministicOrder actions, ∃ r, (do
        return (⟨s, a, ← actionSignature kernel partition s a⟩ :
          BehavioralActionAssignment S A)) = (.ok r : Except PyError _) := by
      intro a ha
      obtain ⟨σ, hσ⟩ := h.actionSignature_returns hcovers hs hactive hactions (mem_sortBy.mp ha)
      exact ⟨_, bind_eq_ok.mpr ⟨σ, hσ, rfl⟩⟩
    obtain ⟨row, hrow⟩ := mapM_returns hrow
    exact ⟨row, bind_eq_ok.mpr ⟨actions, hactions, hrow⟩⟩
  obtain ⟨rows, hrows⟩ := mapM_returns hreturns
  exact ⟨_, bind_eq_ok.mpr ⟨rows, hrows, rfl⟩⟩

omit [PyRepr A] [DecidableEq A] in
theorem stable_ordered :
    Stable kernel (deterministicOrder states) partition ↔ Stable kernel states partition := by
  constructor <;> rintro ⟨hcovers, hterminal, hactions, hmatched⟩ <;>
    exact ⟨by simpa [deterministicOrder] using hcovers, hterminal,
      by simpa [deterministicOrder] using hactions, hmatched⟩

/-- The raw signature of a state before the first round. -/
def kindSignature (kernel : Kernel S A) (failures : List S) (state : S) : RawSignature :=
  if kernel.isTerminal state then .terminal (terminalKind kernel state failures) else .active

omit [PyRepr S] [PyRepr A] [DecidableEq A] in
theorem kindSignature_eq_iff {s t : S} : kindSignature kernel failures s =
    kindSignature kernel failures t ↔
      terminalKind kernel s failures = terminalKind kernel t failures := by
  unfold kindSignature terminalKind
  split_ifs <;> simp

omit [DecidableEq A] in
theorem separates_refine {refined : Partition S BehavioralCellId}
    (h : refine kernel states failures partition = .ok refined) :
    Separates kernel failures refined := by
  obtain ⟨hstates, hreturns, hsame⟩ := refine_spec h
  rintro s t ⟨c, hs, ht⟩
  have hs' : s ∈ states := (hstates s).mp (List.mem_map_of_mem (f := Prod.fst) hs)
  have ht' : t ∈ states := (hstates t).mp (List.mem_map_of_mem (f := Prod.fst) ht)
  have heq := (hsame s hs' t ht').mp ⟨c, hs, ht⟩
  obtain ⟨r, hr⟩ := hreturns s hs'
  cases hactive : kernel.isTerminal s with
  | true =>
    rw [behaviour_terminal hactive] at heq
    cases hactive' : kernel.isTerminal t with
    | true =>
      rw [behaviour_terminal hactive'] at heq
      exact RawSignature.terminal.inj (Except.ok.inj heq)
    | false =>
      obtain ⟨_, _, _, -, -, -, hr', -⟩ := behaviour_active hactive' heq.symm
      cases hr'
  | false =>
    rw [hr] at heq
    obtain ⟨_, _, _, -, -, -, rfl, -⟩ := behaviour_active hactive hr
    cases hactive' : kernel.isTerminal t with
    | true =>
      rw [behaviour_terminal hactive'] at heq
      cases heq
    | false => simp [terminalKind, hactive, hactive']

omit [DecidableEq A] in
theorem refinement_coarsest (h : TransitionClosed kernel states) (failures : List S) :
    ∃ initial step partition trace,
      canonicalPartition (states.map fun state => (state, kindSignature kernel failures state)) =
        .ok initial ∧
      refinementStep 0 initial = .ok step ∧
      refineUntilStable kernel states failures states.length 1 initial [step] =
        .ok (partition, trace) ∧
      Stable kernel states partition ∧ Separates kernel failures partition ∧
      ∀ other, Stable kernel states other → Separates kernel failures other →
        Refines other partition := by
  obtain ⟨initial, hinitial⟩ : ∃ initial, canonicalPartition (states.map fun state =>
      (state, kindSignature kernel failures state)) = .ok initial :=
    canonicalPartition_returns (by simpa [List.map_map, Function.comp_def] using h.nodup)
      (by simpa using h.nonempty)
  obtain ⟨step, hstep⟩ := refinementStep_returns 0 initial
  have hkinds : Kinds kernel states failures initial := kinds_initial hinitial
  obtain ⟨-, hsame⟩ := canonicalPartition_spec hinitial
  have hcell : 0 < initial.cellIds.length := by
    obtain ⟨e, he⟩ := List.exists_mem_of_ne_nil _ initial.nonempty
    exact List.length_pos_of_mem (Partition.mem_cellIds.mpr ⟨e.1, he⟩)
  have hinitialSame : ∀ s ∈ states, ∀ t ∈ states, initial.Same s t ↔
      terminalKind kernel s failures = terminalKind kernel t failures := by
    intro s hs t ht
    exact (hsame _ (List.mem_map_of_mem hs) _ (List.mem_map_of_mem ht)).trans kindSignature_eq_iff
  have hmem : ∀ {p : Partition S BehavioralCellId}, (∀ s, s ∈ p.states ↔ s ∈ states) →
      ∀ {s c}, (s, c) ∈ p.assignments → s ∈ states := by
    intro p hcovers s c hs
    exact (hcovers s).mp (List.mem_map_of_mem (f := Prod.fst) hs)
  have hrounds : ∃ partition trace, refineUntilStable kernel states failures states.length 1
      initial [step] = .ok (partition, trace) :=
    h.refineUntilStable_returns hkinds (by omega)
  obtain ⟨partition, trace, hrounds⟩ := hrounds
  refine ⟨initial, step, partition, trace, hinitial, hstep, hrounds,
    refineUntilStable_stable hkinds hrounds, ?_, fun other hstable hseparates => ?_⟩
  · refine refineUntilStable_invariant (fun p q _ => separates_refine) ?_ hrounds
    rintro s t ⟨c, hs, ht⟩
    exact (hinitialSame s (hmem hkinds.covers hs) t (hmem hkinds.covers ht)).mp ⟨c, hs, ht⟩
  · refine refineUntilStable_invariant (fun p q => hstable.refines_refine hseparates) ?_ hrounds
    intro s t c hs ht
    exact (hinitialSame s (hmem hstable.covers hs) t (hmem hstable.covers ht)).mpr
      (hseparates s t ⟨c, hs, ht⟩)

/-- On a transition-closed set refinement stabilises within its default cap, at the coarsest stable
partition that separates the kinds of states, and nothing after it fails but the envelope's own
checks. -/
theorem buildExactBehavioralQuotient_coarsest (h : TransitionClosed kernel states) :
    ∃ failures partition assignments trace,
      failureTargets kernel (deterministicOrder states) = .ok failures ∧
      assignSignatures kernel (deterministicOrder states) partition = .ok assignments ∧
      buildExactBehavioralQuotient kernel states none = (do
        let models ← buildQuotientModels kernel (deterministicOrder states) partition
          (.ofAdapter kernel (behavioralSemanticAdapter assignments))
        return ⟨partition, assignments, trace, failures, models⟩) ∧
      Stable kernel states partition ∧ Separates kernel failures partition ∧
      ∀ other, Stable kernel states other → Separates kernel failures other →
        Refines other partition := by
  have hordered := h.ordered
  obtain ⟨failures, hfailures⟩ := failureTargets_returns hordered
  obtain ⟨initial, step, partition, trace, hinitial, hstep, hrounds, hstable, hseparates,
    hcoarsest⟩ := refinement_coarsest hordered failures
  obtain ⟨assignments, hassignments⟩ :=
    assignSignatures_returns hordered fun s hs => (hstable.covers s).mpr hs
  refine ⟨failures, partition, assignments, trace, hfailures, hassignments, ?_,
    stable_ordered.mp hstable, hseparates,
    fun other hother => hcoarsest other (stable_ordered.mpr hother)⟩
  have hcap : require ((0 : ℤ) < (deterministicOrder states).length)
      (PyError.valueError "behavioural refinement round cap must be positive") = .ok () :=
    require_eq_ok.mpr (by exact_mod_cast List.length_pos_iff.mpr hordered.nonempty)
  have hregistered : require (deterministicOrder states ≠ [] ∧ (deterministicOrder states).Nodup)
      (PyError.valueError "behavioural quotient states must be nonempty and unique") = .ok () :=
    require_eq_ok.mpr ⟨hordered.nonempty, hordered.nodup⟩
  unfold buildExactBehavioralQuotient
  dsimp only
  rw [bind_of_ok hregistered, bind_of_ok hfailures]
  change (canonicalPartition ((deterministicOrder states).map fun state =>
    (state, kindSignature kernel failures state)) >>= _) = _
  rw [bind_of_ok hinitial, bind_of_ok hstep]
  rw [Option.getD_none, bind_of_ok hcap, Int.toNat_natCast, bind_of_ok hrounds]
  dsimp only
  rw [bind_of_ok hassignments]
  cases hmodels : buildQuotientModels kernel (deterministicOrder states) partition
      (.ofAdapter kernel (behavioralSemanticAdapter assignments)) with
  | error e => rfl
  | ok models =>
    obtain ⟨envelope, henvelope, hpure⟩ := bind_eq_ok.mp hmodels
    obtain rfl := pure_eq_ok.mp hpure
    have hminimised : Minimised kernel (deterministicOrder states) partition assignments
        ⟨buildNominalQuotient envelope, envelope⟩ := ⟨hstable, hassignments, henvelope, rfl⟩
    exact bind_of_ok (forM_of_forall fun e he => require_eq_ok.mpr (hminimised.singleton he))

end Minimisation

theorem transitionClosed_gamble : TransitionClosed gambleKernel [0, 1, 2] where
  nonempty := by simp
  nodup := by decide
  closed := by
    intro s hs hactive
    obtain rfl : s = 0 := by simpa [gambleKernel] using hactive
    refine ⟨["safe", "risky"], rfl, by simp, fun a ha => ?_⟩
    rcases List.mem_pair.mp ha with rfl | rfl
    · refine ⟨[sureOutcome 1 1 false true], ?_, ?_⟩
      · exact iterOutcomes_eq_ok.mpr ⟨rfl, by norm_num [sureOutcome]⟩
      · simp [sureOutcome]
    · refine ⟨[evenOutcome 1 2 false true, evenOutcome 2 1 true true], ?_, ?_⟩
      · exact iterOutcomes_eq_ok.mpr ⟨rfl, by norm_num [evenOutcome]⟩
      · simp [evenOutcome]

theorem buildExactBehavioralQuotient_coarsest_gamble : ∃ failures partition,
    failureTargets gambleKernel (deterministicOrder [0, 1, 2]) = .ok failures ∧
    Stable gambleKernel [0, 1, 2] partition ∧ Separates gambleKernel failures partition ∧
    ∀ other, Stable gambleKernel [0, 1, 2] other → Separates gambleKernel failures other →
      Refines other partition := by
  obtain ⟨failures, partition, -, -, hfailures, -, -, hstable, hseparates, hcoarsest⟩ :=
    buildExactBehavioralQuotient_coarsest transitionClosed_gamble
  exact ⟨failures, partition, hfailures, hstable, hseparates, hcoarsest⟩

end Acfqp.Planning
