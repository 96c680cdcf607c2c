import Acfqp.Abstraction.Behavioral

/-!
# The final behavioural partition is stable

Refinement stops at a partition whose blocks are those of the round before, so that two active
states of one cell have the same final action signatures.
-/

namespace Acfqp.Abstraction

open Library Planning

variable {S A : Type}

theorem outcomes_eq_ok [PyRepr S] [PyRepr A] {kernel : Kernel S A} {state : S} {action : A}
    {os : List (Outcome S)} :
    outcomes kernel state action = .ok os ↔
      Planning.iterOutcomes kernel state action = .ok os := by
  rw [Planning.iterOutcomes_eq_ok]
  constructor
  · intro h
    obtain ⟨os', hstep, h⟩ := bind_eq_ok.mp h
    obtain ⟨_, -, h⟩ := bind_eq_ok.mp h
    obtain ⟨_, -, h⟩ := bind_eq_ok.mp h
    obtain ⟨_, hsum, h⟩ := bind_eq_ok.mp h
    rw [← pure_eq_ok.mp h]
    exact ⟨hstep, require_eq_ok.mp hsum⟩
  · rintro ⟨hstep, hsum⟩
    have hne : os ≠ [] := by
      rintro rfl
      simp at hsum
    refine bind_eq_ok.mpr ⟨os, hstep, bind_eq_ok.mpr ⟨(), require_eq_ok.mpr hne, ?_⟩⟩
    refine bind_eq_ok.mpr ⟨(), require_eq_ok.mpr fun o _ => o.probability_pos, ?_⟩
    exact bind_eq_ok.mpr ⟨(), require_eq_ok.mpr hsum, rfl⟩

/-! ## Canonical partitions -/

/-- The states share a cell. -/
def Partition.Same {C : Type} (partition : Partition S C) (s t : S) : Prop :=
  ∃ c, (s, c) ∈ partition.assignments ∧ (t, c) ∈ partition.assignments

section Canonical

variable [DecidableEq S] [PyRepr S] {raw : List (S × RawSignature)}
  {partition : Partition S BehavioralCellId}

/-- Two states share a canonical cell just when their raw signatures are equal. -/
theorem canonicalPartition_spec (h : canonicalPartition raw = .ok partition) :
    (∀ s, s ∈ partition.states ↔ s ∈ raw.map Prod.fst) ∧
      ∀ e ∈ raw, ∀ x ∈ raw, partition.Same e.1 x.1 ↔ e.2 = x.2 := by
  have hperm := Partition.fromMapping_eq_ok h
  have hkeys : (raw.map Prod.fst).Nodup := by
    have hnodup := (hperm.map Prod.fst).nodup_iff.mp partition.nodup
    rwa [List.map_map] at hnodup
  have hmem : ∀ e ∈ raw, (e.1, (⟨(deterministicOrder (raw.map Prod.snd).dedup).idxOf e.2⟩ :
      BehavioralCellId)) ∈ partition.assignments := fun e he =>
    hperm.mem_iff.mpr (List.mem_map.mpr ⟨e, he, rfl⟩)
  constructor
  · intro s
    rw [Partition.states, (hperm.map Prod.fst).mem_iff, List.map_map]
    rfl
  · intro e he x hx
    constructor
    · rintro ⟨c, hc, hc'⟩
      have heq := (Partition.cell_unique (hmem e he) hc).trans
        (Partition.cell_unique hc' (hmem x hx))
      refine (List.idxOf_inj ?_).mp (BehavioralCellId.mk.inj heq)
      simpa [deterministicOrder] using ⟨e.1, he⟩
    · intro heq
      exact ⟨_, hmem e he, heq ▸ hmem x hx⟩

end Canonical

section Round

variable [DecidableEq S] [PyRepr S] [PyRepr A] {kernel : Kernel S A} {states failures : List S}
  {partition refined : Partition S BehavioralCellId}

theorem refine_spec (h : refine kernel states failures partition = .ok refined) :
    (∀ s, s ∈ refined.states ↔ s ∈ states) ∧
      (∀ s ∈ states, ∃ r, behaviour kernel failures partition s = .ok r) ∧
      ∀ s ∈ states, ∀ t ∈ states, refined.Same s t ↔
        behaviour kernel failures partition s = behaviour kernel failures partition t := by
  obtain ⟨raw, hraw, h⟩ := bind_eq_ok.mp h
  obtain ⟨hstates, hsame⟩ := canonicalPartition_spec h
  have hrow : ∀ s ∈ states, ∃ r, behaviour kernel failures partition s = .ok r ∧ (s, r) ∈ raw := by
    intro s hs
    obtain ⟨e, he, hrow⟩ := exists_of_mapM hraw hs
    obtain ⟨r, hr, hrow⟩ := bind_eq_ok.mp hrow
    exact ⟨r, hr, (pure_eq_ok.mp hrow).symm ▸ he⟩
  refine ⟨fun s => ?_, fun s hs => (hrow s hs).imp fun _ h => h.1, fun s hs t ht => ?_⟩
  · rw [hstates]
    constructor
    · intro hs
      obtain ⟨e, he, rfl⟩ := List.mem_map.mp hs
      obtain ⟨t, ht, hrow⟩ := mem_of_mapM hraw he
      obtain ⟨r, -, hrow⟩ := bind_eq_ok.mp hrow
      rwa [← pure_eq_ok.mp hrow]
    · intro hs
      obtain ⟨r, -, hr⟩ := hrow s hs
      exact List.mem_map_of_mem hr
  · obtain ⟨r, hr, hs⟩ := hrow s hs
    obtain ⟨q, hq, ht⟩ := hrow t ht
    rw [hsame _ hs _ ht, hr, hq]
    simp

theorem behaviour_active {s : S} {r : RawSignature} (hactive : kernel.isTerminal s = false)
    (h : behaviour kernel failures partition s = .ok r) :
    ∃ actions cell signatures, kernel.actions s = .ok actions ∧ actions ≠ [] ∧
      partition.cellOf s = .ok cell ∧ r = .behaviour cell signatures ∧
      (∀ a ∈ actions, ∃ σ ∈ signatures, actionSignature kernel partition s a = .ok σ) ∧
      ∀ σ ∈ signatures, ∃ a ∈ actions, actionSignature kernel partition s a = .ok σ := by
  unfold behaviour at h
  rw [hactive] at h
  obtain ⟨actions, hactions, h⟩ := bind_eq_ok.mp h
  obtain ⟨signatures, hsignatures, h⟩ := bind_eq_ok.mp h
  obtain ⟨_, hsome, h⟩ := bind_eq_ok.mp h
  obtain ⟨cell, hcell, h⟩ := bind_eq_ok.mp h
  have hne : actions ≠ [] := by
    rintro rfl
    exact require_eq_ok.mp hsome (pure_eq_ok.mp hsignatures).symm
  refine ⟨actions, cell, _, hactions, hne, hcell, (pure_eq_ok.mp h).symm, fun a ha => ?_,
    fun σ hσ => ?_⟩
  · obtain ⟨σ, hσ, hsig⟩ := exists_of_mapM hsignatures (mem_sortBy.mpr ha)
    exact ⟨σ, by simpa [deterministicOrder] using hσ, hsig⟩
  · obtain ⟨a, ha, hsig⟩ := mem_of_mapM hsignatures
      (show σ ∈ signatures by simpa [deterministicOrder] using hσ)
    exact ⟨a, mem_sortBy.mp ha, hsig⟩

omit [DecidableEq S] in
theorem behaviour_terminal [DecidableEq S] {s : S} (hterminal : kernel.isTerminal s = true) :
    behaviour kernel failures partition s = .ok (.terminal (terminalKind kernel s failures)) := by
  rw [behaviour, if_pos hterminal]
  rfl

/-- The partition covers the states, and does not separate terminal states of one kind. -/
structure Kinds (kernel : Kernel S A) (states failures : List S)
    (partition : Partition S BehavioralCellId) : Prop where
  covers : ∀ s, s ∈ partition.states ↔ s ∈ states
  kinds : ∀ s ∈ states, ∀ t ∈ states, kernel.isTerminal s = true → kernel.isTerminal t = true →
    terminalKind kernel s failures = terminalKind kernel t failures → partition.Same s t

omit [PyRepr A] in
theorem kinds_initial (h : canonicalPartition (states.map fun state => (state,
      if kernel.isTerminal state then .terminal
        (terminalKind kernel state failures) else .active)) =
    .ok partition) : Kinds kernel states failures partition := by
  obtain ⟨hstates, hsame⟩ := canonicalPartition_spec h
  constructor
  · intro s
    rw [hstates, List.map_map]
    simp
  · intro s hs t ht hterminal hterminal' hkind
    refine (hsame _ (List.mem_map_of_mem hs) _ (List.mem_map_of_mem ht)).mpr ?_
    simp [hterminal, hterminal', hkind]

/-- A round keeps the kinds, refines the partition and separates active from terminal states. -/
theorem Kinds.refine (hkinds : Kinds kernel states failures partition)
    (h : Abstraction.refine kernel states failures partition = .ok refined) :
    Kinds kernel states failures refined ∧ Refines refined partition ∧
      ∀ s t, refined.Same s t → kernel.isTerminal s = kernel.isTerminal t := by
  obtain ⟨hstates, hreturns, hsame⟩ := refine_spec h
  have hmem : ∀ {s c}, (s, c) ∈ refined.assignments → s ∈ states := fun hs =>
    (hstates _).mp (List.mem_map_of_mem (f := Prod.fst) hs)
  have hterminal : ∀ s t, refined.Same s t → kernel.isTerminal s = true →
      kernel.isTerminal t = true := by
    rintro s t hst hs
    obtain ⟨c, hc, hc'⟩ := id hst
    by_contra ht
    obtain ⟨r, hr⟩ := hreturns t (hmem hc')
    obtain ⟨actions, cell, signatures, -, -, -, rfl, -⟩ := behaviour_active (by simpa using ht) hr
    have heq := (hsame s (hmem hc) t (hmem hc')).mp hst
    rw [behaviour_terminal hs, hr] at heq
    cases heq
  have hseparated : ∀ s t, refined.Same s t → kernel.isTerminal s = kernel.isTerminal t := by
    rintro s t ⟨c, hc, hc'⟩
    rw [Bool.eq_iff_iff]
    exact ⟨hterminal s t ⟨c, hc, hc'⟩, hterminal t s ⟨c, hc', hc⟩⟩
  refine ⟨⟨hstates, fun s hs t ht hs' ht' hkind => ?_⟩, fun s t c hc hc' => ?_, hseparated⟩
  · rw [hsame s hs t ht, behaviour_terminal hs', behaviour_terminal ht', hkind]
  · have hs := hmem hc
    have ht := hmem hc'
    have heq := (hsame s hs t ht).mp ⟨c, hc, hc'⟩
    by_cases hactive : kernel.isTerminal s = true
    · have hactive' := hterminal s t ⟨c, hc, hc'⟩ hactive
      rw [behaviour_terminal hactive, behaviour_terminal hactive'] at heq
      exact hkinds.kinds s hs t ht hactive hactive' (RawSignature.terminal.inj (Except.ok.inj heq))
    · have hactive' : kernel.isTerminal t = false := by
        rw [← hseparated s t ⟨c, hc, hc'⟩]
        simpa using hactive
      obtain ⟨r, hr⟩ := hreturns s hs
      rw [hr] at heq
      obtain ⟨_, cell, _, -, -, hcell, rfl, -⟩ := behaviour_active (by simpa using hactive) hr
      obtain ⟨_, cell', _, -, -, hcell', hr', -⟩ := behaviour_active hactive' heq.symm
      obtain ⟨rfl, -⟩ := RawSignature.behaviour.inj hr'
      exact ⟨cell, Partition.cellOf_eq_ok.mp hcell, Partition.cellOf_eq_ok.mp hcell'⟩

end Round

/-! ## Signatures under new names of the cells -/

section

variable [DecidableEq S] [PyRepr S] [PyRepr A] {kernel : Kernel S A}
  {partition renamed : Partition S BehavioralCellId} {s : S} {a : A}

def BehavioralActionSignature.rename (f : BehavioralCellId → BehavioralCellId)
    (σ : BehavioralActionSignature) : BehavioralActionSignature :=
  { σ with successorProbabilities :=
      sortBy (fun e => e.1.index) (σ.successorProbabilities.map fun e => (f e.1, e.2)) }

def outcomeEnds (kernel : Kernel S A) (o : Outcome S) : Bool :=
  o.failure || o.terminal || kernel.isTerminal o.nextState

def continuing (kernel : Kernel S A) (partition : Partition S BehavioralCellId)
    (os : List (Outcome S)) : Except PyError (List (BehavioralCellId × ℚ)) :=
  (os.filter fun o => !outcomeEnds kernel o).mapM fun o => do
    let cell ← partition.cellOf o.nextState
    return (cell, o.probability)

structure Signs (kernel : Kernel S A) (os : List (Outcome S))
    (events : List (BehavioralCellId × ℚ)) (σ : BehavioralActionSignature) : Prop where
  rewards : σ.rewardFeatures = sortBy Prod.fst (tally (os.flatMap fun o =>
    o.rewardFeatures.map fun f => (f.1, o.probability * f.2)))
  failure : σ.failureProbability = ((os.filter Outcome.failure).map Outcome.probability).sum
  termination : σ.terminationProbability =
    ((os.filter (outcomeEnds kernel)).map Outcome.probability).sum
  successors : σ.successorProbabilities = sortBy (fun e => e.1.index) (tally events)
  total : σ.terminationProbability + ((tally events).map Prod.snd).sum = 1

theorem actionSignature_eq_ok {σ : BehavioralActionSignature} :
    actionSignature kernel partition s a = .ok σ ↔
      ∃ os events, Planning.iterOutcomes kernel s a = .ok os ∧
        continuing kernel partition os = .ok events ∧ Signs kernel os events σ := by
  constructor
  · intro h
    obtain ⟨os, hos, h⟩ := bind_eq_ok.mp h
    obtain ⟨events, hevents, h⟩ := bind_eq_ok.mp h
    obtain ⟨_, htotal, h⟩ := bind_eq_ok.mp h
    obtain rfl := pure_eq_ok.mp h
    exact ⟨os, events, outcomes_eq_ok.mp hos, hevents,
      ⟨rfl, rfl, rfl, rfl, require_eq_ok.mp htotal⟩⟩
  · rintro ⟨os, events, hos, hevents, hsigns⟩
    refine bind_eq_ok.mpr ⟨os, outcomes_eq_ok.mpr hos, bind_eq_ok.mpr ⟨events, hevents, ?_⟩⟩
    have htotal := hsigns.total
    rw [hsigns.termination] at htotal
    refine bind_eq_ok.mpr ⟨(), require_eq_ok.mpr htotal, pure_eq_ok.mpr ?_⟩
    obtain ⟨rewards, failure, termination, successors⟩ := σ
    obtain ⟨rfl, rfl, rfl, rfl, -⟩ := hsigns
    rfl

theorem index_injective : Function.Injective BehavioralCellId.index := by
  rintro ⟨i⟩ ⟨j⟩ rfl
  rfl

omit [PyRepr A] in
theorem continuing_rename {f : BehavioralCellId → BehavioralCellId}
    (hf : ∀ s c, (s, c) ∈ partition.assignments → (s, f c) ∈ renamed.assignments)
    {os : List (Outcome S)} {events : List (BehavioralCellId × ℚ)}
    (hevents : continuing kernel partition os = .ok events) :
    continuing kernel renamed os = .ok (events.map fun e => (f e.1, e.2)) := by
  refine mapM_eq_ok.mpr (List.forall₂_map_right_iff.mpr ((mapM_eq_ok.mp hevents).imp ?_))
  intro o e hrow
  obtain ⟨c, hc, hrow⟩ := bind_eq_ok.mp hrow
  rw [← pure_eq_ok.mp hrow]
  exact bind_eq_ok.mpr
    ⟨f c, Partition.cellOf_eq_ok.mpr (hf _ _ (Partition.cellOf_eq_ok.mp hc)), rfl⟩

/-- A partition with the same blocks has the same signatures, up to the names of the cells. -/
theorem actionSignature_rename {f : BehavioralCellId → BehavioralCellId}
    (hf : ∀ s c, (s, c) ∈ partition.assignments → (s, f c) ∈ renamed.assignments)
    (hinj : ∀ c ∈ partition.cellIds, ∀ c' ∈ partition.cellIds, f c = f c' → c = c')
    {σ : BehavioralActionSignature} (h : actionSignature kernel partition s a = .ok σ) :
    actionSignature kernel renamed s a = .ok (σ.rename f) := by
  obtain ⟨os, events, hos, hevents, hsigns⟩ := actionSignature_eq_ok.mp h
  have hcells : ∀ e ∈ events, e.1 ∈ partition.cellIds := by
    intro e he
    obtain ⟨o, -, hrow⟩ := mem_of_mapM hevents he
    obtain ⟨c, hc, hrow⟩ := bind_eq_ok.mp hrow
    rw [← pure_eq_ok.mp hrow]
    exact Partition.mem_cellIds.mpr ⟨_, Partition.cellOf_eq_ok.mp hc⟩
  have htally : tally (events.map fun e => (f e.1, e.2)) =
      (tally events).map fun e => (f e.1, e.2) :=
    tally_map events fun e he x hx => hinj e.1 (hcells e he) x.1 (hcells x hx)
  have hkeys : (((tally events).map fun e => (f e.1, e.2)).map fun e => e.1.index).Nodup := by
    have hnodup := nodup_keys_tally (events.map fun e => (f e.1, e.2))
    rw [htally] at hnodup
    simpa [List.map_map, Function.comp_def] using hnodup.map index_injective
  refine actionSignature_eq_ok.mpr ⟨os, _, hos, continuing_rename hf hevents, ?_⟩
  constructor
  · exact hsigns.rewards
  · exact hsigns.failure
  · exact hsigns.termination
  · rw [htally, BehavioralActionSignature.rename, hsigns.successors]
    exact (sortBy_eq_of_perm ((perm_sortBy _ _).symm.map _) hkeys).symm
  · rw [htally, List.map_map]
    exact hsigns.total

end

/-! ## Stability -/

section

variable [DecidableEq S] [PyRepr S] [PyRepr A] {kernel : Kernel S A} {states failures : List S}
  {partition refined : Partition S BehavioralCellId}

/-- Active states of one cell match each other's action signatures. -/
structure Stable (kernel : Kernel S A) (states : List S)
    (partition : Partition S BehavioralCellId) : Prop where
  covers : ∀ s, s ∈ partition.states ↔ s ∈ states
  terminal : ∀ s t, partition.Same s t → kernel.isTerminal s = kernel.isTerminal t
  actions : ∀ s ∈ states, kernel.isTerminal s = false →
    ∃ actions, kernel.actions s = .ok actions ∧ actions ≠ []
  matched : ∀ s t, partition.Same s t → kernel.isTerminal s = false → ∀ actions,
    kernel.actions s = .ok actions → ∀ a ∈ actions, ∃ actions' b σ,
      kernel.actions t = .ok actions' ∧ b ∈ actions' ∧
        actionSignature kernel partition s a = .ok σ ∧
        actionSignature kernel partition t b = .ok σ

omit [DecidableEq S] [PyRepr S] in
theorem Refines.same {fine coarse : Partition S BehavioralCellId}
    (h : Refines fine coarse) {s t : S}
    (hst : fine.Same s t) : coarse.Same s t := by
  obtain ⟨c, hs, ht⟩ := hst
  exact h s t c hs ht

theorem stable_of_refine (hkinds : Kinds kernel states failures partition)
    (h : refine kernel states failures partition = .ok refined)
    (hkeeps : Refines partition refined) : Stable kernel states refined := by
  obtain ⟨hkinds', hrefines, hseparated⟩ := hkinds.refine h
  obtain ⟨-, hreturns, hsame⟩ := refine_spec h
  obtain ⟨f, hf⟩ := hkeeps.exists_map
  have hinj : ∀ c ∈ partition.cellIds, ∀ c' ∈ partition.cellIds, f c = f c' → c = c' := by
    intro c hc c' hc' heq
    obtain ⟨s, hs⟩ := Partition.mem_cellIds.mp hc
    obtain ⟨t, ht⟩ := Partition.mem_cellIds.mp hc'
    obtain ⟨d, hd, hd'⟩ := hrefines.same ⟨f c, hf s c hs, heq ▸ hf t c' ht⟩
    exact (Partition.cell_unique hs hd).trans (Partition.cell_unique hd' ht)
  have hmem : ∀ {s c}, (s, c) ∈ refined.assignments → s ∈ states := fun hs =>
    (hkinds'.covers _).mp (List.mem_map_of_mem (f := Prod.fst) hs)
  refine ⟨hkinds'.covers, hseparated, fun s hs hactive => ?_, ?_⟩
  · obtain ⟨r, hr⟩ := hreturns s hs
    obtain ⟨actions, -, -, hactions, hne, -⟩ := behaviour_active hactive hr
    exact ⟨actions, hactions, hne⟩
  · intro s t hst hactive actions hactions a ha
    obtain ⟨c, hc, hc'⟩ := id hst
    have hactive' := (hseparated s t hst).symm.trans hactive
    obtain ⟨r, hr⟩ := hreturns s (hmem hc)
    have heq := (hsame s (hmem hc) t (hmem hc')).mp hst
    rw [hr] at heq
    obtain ⟨_, cell, signatures, hactions', -, -, rfl, hsigned, -⟩ := behaviour_active hactive hr
    obtain ⟨actions', cell', signatures', havailable, -, -, hr', -, hsigns⟩ :=
      behaviour_active hactive' heq.symm
    obtain ⟨-, rfl⟩ := RawSignature.behaviour.inj hr'
    cases hactions.symm.trans hactions'
    obtain ⟨σ, hσ, hsig⟩ := hsigned a ha
    obtain ⟨b, hb, hsig'⟩ := hsigns σ hσ
    exact ⟨actions', b, σ.rename f, havailable, hb, actionSignature_rename hf hinj hsig,
      actionSignature_rename hf hinj hsig'⟩

/-- The rounds end in a stable partition. -/
theorem refineUntilStable_stable {rounds iteration : ℕ}
    {trace trace' : List BehavioralRefinementStep}
    (hkinds : Kinds kernel states failures partition)
    (h : refineUntilStable kernel states failures rounds iteration partition trace =
      .ok (refined, trace')) : Stable kernel states refined := by
  induction rounds generalizing iteration partition trace with
  | zero => cases h
  | succ rounds ih =>
    obtain ⟨next, hnext, h⟩ := bind_eq_ok.mp h
    obtain ⟨step, -, h⟩ := bind_eq_ok.mp h
    obtain ⟨same, hsame, h⟩ := bind_eq_ok.mp h
    obtain ⟨hkinds', hrefines, -⟩ := hkinds.refine hnext
    split at h
    · rename_i htrue
      cases pure_eq_ok.mp h
      obtain ⟨left, hleft, hsame⟩ := bind_eq_ok.mp hsame
      obtain ⟨right, hright, hsame⟩ := bind_eq_ok.mp hsame
      have hblocks : left = right := by
        rw [← pure_eq_ok.mp hsame] at htrue
        simpa using htrue
      refine stable_of_refine hkinds hnext (hrefines.symm_of_length (fun s hs => ?_) ?_)
      · exact (hkinds'.covers s).mpr ((hkinds.covers s).mp hs)
      · rw [← Partition.length_signature hleft, ← Partition.length_signature hright, hblocks]
    · obtain ⟨_, -, h⟩ := bind_eq_ok.mp h
      exact ih hkinds' h

end

section Adapter

variable [DecidableEq S] [PyRepr S] [DecidableEq A] [PyRepr A] {kernel : Kernel S A}
  {states : List S} {partition : Partition S BehavioralCellId}
  {assignments : List (BehavioralActionAssignment S A)} {s : S} {actions : List A}

omit [DecidableEq A] in
theorem mem_assignSignatures (h : assignSignatures kernel states partition = .ok assignments)
    {r : BehavioralActionAssignment S A} :
    r ∈ assignments ↔ r.state ∈ states ∧ kernel.isTerminal r.state = false ∧
      ∃ actions, kernel.actions r.state = .ok actions ∧ r.groundAction ∈ actions ∧
        actionSignature kernel partition r.state r.groundAction = .ok r.semanticAction := by
  obtain ⟨rows, hrows, h⟩ := bind_eq_ok.mp h
  obtain rfl := pure_eq_ok.mp h
  constructor
  · intro hr
    obtain ⟨row, hrow, hr⟩ := List.mem_flatten.mp hr
    obtain ⟨s, hs, hrow⟩ := mem_of_mapM hrows hrow
    obtain ⟨actions, hactions, hrow⟩ := bind_eq_ok.mp hrow
    obtain ⟨a, ha, hr⟩ := mem_of_mapM hrow hr
    obtain ⟨σ, hσ, hr⟩ := bind_eq_ok.mp hr
    obtain rfl := pure_eq_ok.mp hr
    obtain ⟨hs, hactive⟩ := List.mem_filter.mp hs
    exact ⟨hs, by simpa using hactive, actions, hactions, mem_sortBy.mp ha, hσ⟩
  · rintro ⟨hs, hactive, actions, hactions, ha, hσ⟩
    obtain ⟨row, hrow, hr⟩ := exists_of_mapM hrows (List.mem_filter.mpr ⟨hs, by simp [hactive]⟩)
    obtain ⟨actions', hactions', hr⟩ := bind_eq_ok.mp hr
    cases hactions.symm.trans hactions'
    obtain ⟨x, hx, hr⟩ := exists_of_mapM hr (mem_sortBy.mpr ha)
    obtain ⟨τ, hτ, hr⟩ := bind_eq_ok.mp hr
    cases hσ.symm.trans hτ
    obtain rfl := pure_eq_ok.mp hr
    exact List.mem_flatten.mpr ⟨row, hrow, hx⟩

/-- The labels of an active state are the signatures of its actions. -/
theorem behavioralLabels_spec (h : assignSignatures kernel states partition = .ok assignments)
    (hs : s ∈ states) (hactive : kernel.isTerminal s = false)
    {labels : List BehavioralActionSignature}
    (hlabels : behavioralLabels assignments kernel s = .ok labels) :
    labels.Nodup ∧ ∃ actions, kernel.actions s = .ok actions ∧
      ∀ σ, σ ∈ labels ↔ ∃ a ∈ actions, actionSignature kernel partition s a = .ok σ := by
  obtain ⟨actions, hactions, hlabels⟩ := bind_eq_ok.mp hlabels
  dsimp only at hlabels
  split at hlabels
  · rw [hactive] at hlabels
    simp only [Bool.false_eq_true, and_false, if_false] at hlabels
    cases hlabels
  · obtain rfl := pure_eq_ok.mp hlabels
    refine ⟨(perm_sortBy _ _).nodup_iff.mpr (List.nodup_dedup _), actions, hactions, fun σ => ?_⟩
    simp only [deterministicOrder, mem_sortBy, List.mem_dedup, List.mem_map, List.mem_filter,
      mem_assignSignatures h, decide_eq_true_eq]
    constructor
    · rintro ⟨r, ⟨⟨-, -, actions', hactions', ha, hσ⟩, rfl, -⟩, rfl⟩
      cases hactions.symm.trans hactions'
      exact ⟨_, ha, hσ⟩
    · rintro ⟨a, ha, hσ⟩
      exact ⟨⟨s, a, σ⟩, ⟨⟨hs, hactive, actions, hactions, ha, hσ⟩, rfl, ha⟩, rfl⟩

/-- The concretizer mixes the actions of the signature. -/
theorem behavioralConcretize_returns
    (h : assignSignatures kernel states partition = .ok assignments) (hs : s ∈ states)
    (hactive : kernel.isTerminal s = false) (hactions : kernel.actions s = .ok actions) {a : A}
    (ha : a ∈ actions) {σ : BehavioralActionSignature}
    (hσ : actionSignature kernel partition s a = .ok σ) :
    ∃ distribution, behavioralConcretize assignments kernel s σ = .ok distribution ∧
      distribution ≠ [] ∧ (distribution.map Prod.fst).sum = 1 ∧
      ∀ e ∈ distribution, 0 < e.1 ∧ e.2 ∈ actions ∧
        actionSignature kernel partition s e.2 = .ok σ := by
  let matching := deterministicOrder ((assignments.filter fun r =>
    r.state = s ∧ r.groundAction ∈ actions.dedup ∧ r.semanticAction = σ).map
      BehavioralActionAssignment.groundAction)
  have hmem : ∀ b, b ∈ matching ↔ b ∈ actions ∧ actionSignature kernel partition s b = .ok σ := by
    intro b
    simp only [matching, deterministicOrder, mem_sortBy, List.mem_map, List.mem_filter,
      mem_assignSignatures h, List.mem_dedup, decide_eq_true_eq]
    constructor
    · rintro ⟨r, ⟨⟨-, -, actions', hactions', -, hr⟩, rfl, hmem, rfl⟩, rfl⟩
      exact ⟨hmem, hr⟩
    · rintro ⟨hb, hr⟩
      exact ⟨⟨s, b, σ⟩, ⟨⟨hs, hactive, actions, hactions, hb, hr⟩, rfl, hb, rfl⟩, rfl⟩
  have hne : matching ≠ [] := List.ne_nil_of_mem ((hmem a).mpr ⟨ha, hσ⟩)
  have hlength : (0 : ℚ) < matching.length := by
    exact_mod_cast List.length_pos_iff.mpr hne
  refine ⟨matching.map fun b => (1 / (matching.length : ℚ), b), ?_, ?_, ?_, ?_⟩
  · exact bind_eq_ok.mpr ⟨actions, hactions, bind_eq_ok.mpr ⟨(), require_eq_ok.mpr hne, rfl⟩⟩
  · simpa using hne
  · rw [List.map_map]
    have hconst : (Prod.fst ∘ fun b : A => (1 / (matching.length : ℚ), b)) =
        fun _ => 1 / (matching.length : ℚ) := rfl
    rw [hconst, List.map_const', List.sum_replicate, nsmul_eq_mul]
    field_simp
  · intro e he
    obtain ⟨b, hb, rfl⟩ := List.mem_map.mp he
    exact ⟨by positivity, (hmem b).mp hb⟩

end Adapter

theorem buildExactBehavioralQuotient_spec [DecidableEq S] [PyRepr S] [DecidableEq A] [PyRepr A]
    {kernel : Kernel S A} {states : List S} {maxRefinementRounds : Option ℤ}
    {quotient : ExactBehavioralQuotient S A}
    (h : buildExactBehavioralQuotient kernel states maxRefinementRounds = .ok quotient) :
    Stable kernel (deterministicOrder states) quotient.partition ∧
      assignSignatures kernel (deterministicOrder states) quotient.partition =
        .ok quotient.assignments ∧
      buildQuotientModels kernel (deterministicOrder states) quotient.partition
        (.ofAdapter kernel (behavioralSemanticAdapter quotient.assignments)) =
          .ok quotient.quotientModels := by
  obtain ⟨_, -, h⟩ := bind_eq_ok.mp h
  obtain ⟨failures, -, h⟩ := bind_eq_ok.mp h
  obtain ⟨initial, hinitial, h⟩ := bind_eq_ok.mp h
  obtain ⟨step, -, h⟩ := bind_eq_ok.mp h
  obtain ⟨_, -, h⟩ := bind_eq_ok.mp h
  obtain ⟨⟨partition, trace⟩, hrounds, h⟩ := bind_eq_ok.mp h
  obtain ⟨assignments, hassignments, h⟩ := bind_eq_ok.mp h
  obtain ⟨models, hmodels, h⟩ := bind_eq_ok.mp h
  obtain ⟨_, -, h⟩ := bind_eq_ok.mp h
  obtain rfl := pure_eq_ok.mp h
  exact ⟨refineUntilStable_stable (kinds_initial hinitial) hrounds, hassignments, hmodels⟩

end Acfqp.Abstraction
