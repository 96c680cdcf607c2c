import Acfqp.Abstraction.BehavioralStable
import Acfqp.Library.Grouping
import Acfqp.Library.Totals
import Acfqp.Printing

/-!
# Refinement reaches the coarsest stable partition

On a transition-closed set of states every round returns, a round that does not keep the blocks
adds a cell, and every stable partition that separates the kinds of states refines every round. So
refinement stops within as many rounds as there are states, at the coarsest stable partition, and
the actions of one signature realize one behaviour.
-/

namespace Acfqp.Abstraction

open Library Planning

variable {S A : Type}

/-! ## Printed signatures -/

theorem unambiguous_cellId : Unambiguous BehavioralCellId := by
  have hcode := ((prefixFree_nat ')' (by decide)).comap index_injective).append_left
    "BehavioralCellId(index=".toList
  have hprinted : (printed : BehavioralCellId → List Char) = fun c =>
      "BehavioralCellId(index=".toList ++ (Nat.toDigits 10 c.index ++ [')']) := by
    funext c
    simp [printed, pyRepr, PyRepr.repr, toList_toString]
  rw [Unambiguous, hprinted]
  exact hcode

theorem unambiguous_pairs {α β : Type} [PyRepr α] [PyRepr β] (h : Unambiguous α)
    (h' : Unambiguous β) : Unambiguous (List (α × β)) := by
  apply (h.prod h').list
  rintro ⟨a, b⟩ s t heq
  simp [printed, pyRepr, PyRepr.repr, toList_toString] at heq

theorem unambiguous_signature : Unambiguous BehavioralActionSignature := by
  have hinj : Function.Injective fun σ : BehavioralActionSignature => (σ.rewardFeatures,
      σ.failureProbability, σ.terminationProbability, σ.successorProbabilities) := by
    rintro ⟨_, _, _, _⟩ ⟨_, _, _, _⟩ heq
    simpa using heq
  have hsuccessors := (unambiguous_pairs unambiguous_cellId unambiguous_rat).append_left
    ", successor_probabilities=".toList
  have htermination := (unambiguous_rat.append hsuccessors).append_left
    ", termination_probability=".toList
  have hfailure := (unambiguous_rat.append htermination).append_left ", failure_probability=".toList
  have hrewards := ((unambiguous_pairs unambiguous_string unambiguous_rat).append
    hfailure).append_left "BehavioralActionSignature(reward_features=".toList
  have hcode := (hrewards.comap hinj).append_right [')']
  have hprinted : (printed : BehavioralActionSignature → List Char) = fun σ =>
      "BehavioralActionSignature(reward_features=".toList ++ (printed σ.rewardFeatures ++
        (", failure_probability=".toList ++ (printed σ.failureProbability ++
          (", termination_probability=".toList ++ (printed σ.terminationProbability ++
            (", successor_probabilities=".toList ++ printed σ.successorProbabilities)))))) ++
        [')'] := by
    funext σ
    simp only [printed]
    simp only [pyRepr, PyRepr.repr]
    simp [toList_toString]
  rw [Unambiguous, hprinted]
  exact hcode

/-! ## Transition-closed states -/

/-- Every active state has actions, every action has an exact distribution, and every outcome is
registered. -/
structure TransitionClosed [PyRepr S] [PyRepr A] (kernel : Kernel S A) (states : List S) :
    Prop where
  nonempty : states ≠ []
  nodup : states.Nodup
  closed : ∀ s ∈ states, kernel.isTerminal s = false → ∃ actions, kernel.actions s = .ok actions ∧
    actions ≠ [] ∧ ∀ a ∈ actions, ∃ os, Planning.iterOutcomes kernel s a = .ok os ∧
      ∀ o ∈ os, o.nextState ∈ states

section Returns

variable [DecidableEq S] [PyRepr S] [PyRepr A] {kernel : Kernel S A} {states failures : List S}
  {partition : Partition S BehavioralCellId} {s : S} {a : A}

omit [DecidableEq S] in
theorem TransitionClosed.ordered (h : TransitionClosed kernel states) :
    TransitionClosed kernel (deterministicOrder states) := by
  constructor
  · simpa [deterministicOrder] using h.nonempty
  · exact (perm_sortBy _ _).nodup_iff.mpr h.nodup
  · simpa [deterministicOrder] using h.closed

omit [PyRepr S] [DecidableEq S] [PyRepr A] in
theorem ending_add_continuing (os : List (Outcome S)) :
    ((os.filter (outcomeEnds kernel)).map Outcome.probability).sum +
      ((os.filter fun o => !outcomeEnds kernel o).map Outcome.probability).sum =
        (os.map Outcome.probability).sum := by
  induction os with
  | nil => simp
  | cons o os ih =>
    cases h : outcomeEnds kernel o <;> simp [h, ← ih] <;> ring

omit [PyRepr A] in
theorem continuing_returns (kernel : Kernel S A) (hcovers : ∀ s ∈ states, s ∈ partition.states)
    {os : List (Outcome S)}
    (hos : ∀ o ∈ os, o.nextState ∈ states) :
    ∃ events, continuing kernel partition os = .ok events ∧ events.map Prod.snd =
      (os.filter fun o => !outcomeEnds kernel o).map Outcome.probability := by
  have hreturns : ∀ o ∈ os.filter fun o => !outcomeEnds kernel o, ∃ e, (do
      let cell ← partition.cellOf o.nextState
      return (cell, o.probability) : Except PyError (BehavioralCellId × ℚ)) = .ok e := by
    intro o ho
    obtain ⟨c, hc⟩ := Partition.mem_states.mp (hcovers _ (hos o (List.mem_filter.mp ho).1))
    exact ⟨(c, o.probability), bind_eq_ok.mpr ⟨c, hc, rfl⟩⟩
  obtain ⟨events, hevents⟩ := mapM_returns hreturns
  refine ⟨events, hevents, map_of_mapM hevents fun o _ e he => ?_⟩
  obtain ⟨c, -, he⟩ := bind_eq_ok.mp he
  rw [← pure_eq_ok.mp he]

def signed (kernel : Kernel S A) (os : List (Outcome S)) (events : List (BehavioralCellId × ℚ)) :
    BehavioralActionSignature where
  rewardFeatures := sortBy Prod.fst (tally (os.flatMap fun o =>
    o.rewardFeatures.map fun f => (f.1, o.probability * f.2)))
  failureProbability := ((os.filter Outcome.failure).map Outcome.probability).sum
  terminationProbability := ((os.filter (outcomeEnds kernel)).map Outcome.probability).sum
  successorProbabilities := sortBy (fun e => e.1.index) (tally events)

omit [PyRepr S] [DecidableEq S] [PyRepr A] in
theorem signs_signed {os : List (Outcome S)} {events : List (BehavioralCellId × ℚ)}
    (htotal : ((os.filter (outcomeEnds kernel)).map Outcome.probability).sum +
      ((tally events).map Prod.snd).sum = 1) : Signs kernel os events (signed kernel os events) :=
  ⟨rfl, rfl, rfl, rfl, htotal⟩

theorem TransitionClosed.actionSignature_returns (h : TransitionClosed kernel states)
    (hcovers : ∀ s ∈ states, s ∈ partition.states) (hs : s ∈ states)
    (hactive : kernel.isTerminal s = false) {actions : List A}
    (hactions : kernel.actions s = .ok actions) (ha : a ∈ actions) :
    ∃ σ, actionSignature kernel partition s a = .ok σ := by
  obtain ⟨actions', hactions', -, hclosed⟩ := h.closed s hs hactive
  cases hactions.symm.trans hactions'
  obtain ⟨os, hos, hnext⟩ := hclosed a ha
  obtain ⟨events, hevents, hmass⟩ := continuing_returns kernel hcovers hnext
  have htotal : ((os.filter (outcomeEnds kernel)).map Outcome.probability).sum +
      ((tally events).map Prod.snd).sum = 1 := by
    rw [sum_tally_snd, hmass, ending_add_continuing]
    exact (Planning.iterOutcomes_eq_ok.mp hos).2
  exact ⟨_, actionSignature_eq_ok.mpr ⟨os, events, hos, hevents, signs_signed htotal⟩⟩

theorem TransitionClosed.signatures_return (h : TransitionClosed kernel states)
    (hcovers : ∀ s ∈ states, s ∈ partition.states) (hs : s ∈ states)
    (hactive : kernel.isTerminal s = false) {actions : List A}
    (hactions : kernel.actions s = .ok actions) : ∃ signatures,
      (deterministicOrder actions).mapM (actionSignature kernel partition s) = .ok signatures :=
  mapM_returns fun _ ha => h.actionSignature_returns hcovers hs hactive hactions (mem_sortBy.mp ha)

theorem TransitionClosed.behaviour_returns (h : TransitionClosed kernel states) (failures : List S)
    (hcovers : ∀ s ∈ states, s ∈ partition.states) (hs : s ∈ states) :
    ∃ r, behaviour kernel failures partition s = .ok r := by
  cases hactive : kernel.isTerminal s with
  | true => exact ⟨_, behaviour_terminal hactive⟩
  | false =>
    obtain ⟨actions, hactions, hne, -⟩ := h.closed s hs hactive
    obtain ⟨signatures, hsignatures⟩ := h.signatures_return hcovers hs hactive hactions
    obtain ⟨cell, hcell⟩ := Partition.mem_states.mp (hcovers s hs)
    have hsome : signatures ≠ [] := by
      rintro rfl
      have hlength := (mapM_eq_ok.mp hsignatures).length_eq
      exact hne (by simpa [deterministicOrder] using hlength)
    rw [behaviour, hactive]
    exact ⟨_, bind_eq_ok.mpr ⟨actions, hactions, bind_eq_ok.mpr ⟨signatures, hsignatures,
      bind_eq_ok.mpr ⟨(), require_eq_ok.mpr hsome, bind_eq_ok.mpr ⟨cell, hcell, rfl⟩⟩⟩⟩⟩

omit [PyRepr A] in
theorem canonicalPartition_returns {raw : List (S × RawSignature)}
    (hnodup : (raw.map Prod.fst).Nodup) (hne : raw ≠ []) :
    ∃ partition, canonicalPartition raw = .ok partition := by
  unfold canonicalPartition Partition.fromMapping Partition.make
  rw [dif_pos ?_, dif_pos ?_]
  · exact ⟨_, rfl⟩
  · simpa using hne
  · rw [((perm_sortBy _ _).map Prod.fst).nodup_iff, List.map_map]
    exact hnodup

theorem TransitionClosed.refine_returns (h : TransitionClosed kernel states) (failures : List S)
    (hcovers : ∀ s ∈ states, s ∈ partition.states) :
    ∃ refined, Abstraction.refine kernel states failures partition = .ok refined := by
  have hreturns : ∀ s ∈ states, ∃ e, (do
      return (s, ← behaviour kernel failures partition s) :
        Except PyError (S × RawSignature)) = .ok e := by
    intro s hs
    obtain ⟨r, hr⟩ := h.behaviour_returns failures hcovers hs
    exact ⟨(s, r), bind_eq_ok.mpr ⟨r, hr, rfl⟩⟩
  obtain ⟨raw, hraw⟩ := mapM_returns hreturns
  have hkeys : raw.map Prod.fst = states := by
    rw [← List.map_id states]
    refine map_of_mapM hraw fun s _ e he => ?_
    obtain ⟨r, -, he⟩ := bind_eq_ok.mp he
    rw [← pure_eq_ok.mp he]
    rfl
  obtain ⟨refined, hrefined⟩ := canonicalPartition_returns (hkeys ▸ h.nodup) (by
    rintro rfl
    exact h.nonempty hkeys.symm)
  exact ⟨refined, bind_eq_ok.mpr ⟨raw, hraw, hrefined⟩⟩

end Returns

/-! ## Partitions with the same blocks -/

section

variable [PyRepr S] {C : Type} [DecidableEq C] [PyRepr C] {fine coarse partition : Partition S C}

omit [PyRepr S] in
theorem Partition.nodup_cellIds : partition.cellIds.Nodup :=
  (perm_sortBy _ _).nodup_iff.mpr (List.nodup_dedup _)

/-- The printed states of a cell. -/
def Partition.block (partition : Partition S C) (cell : C) : List String :=
  sortBy id (((partition.assignments.filter fun a => a.2 = cell).map Prod.fst).map pyRepr)

theorem Partition.signature_eq : partition.signature =
    .ok (sortBy id (partition.cellIds.map partition.block)) := by
  refine bind_eq_ok.mpr ⟨_, mapM_of_forall fun c hc => ?_, rfl⟩
  obtain ⟨s, hs⟩ := Partition.mem_cellIds.mp hc
  have hne : (partition.assignments.filter fun a => a.2 = c).map Prod.fst ≠ [] :=
    List.ne_nil_of_mem (List.mem_map.mpr ⟨(s, c), List.mem_filter.mpr ⟨hs, by simp⟩, rfl⟩)
  exact bind_eq_ok.mpr ⟨_, bind_eq_ok.mpr ⟨(), require_eq_ok.mpr hne, rfl⟩, rfl⟩

omit [PyRepr S] [DecidableEq C] [PyRepr C] in
/-- Where the blocks are the same, a cell has the members of its image. -/
theorem Refines.mem_image (h : Refines coarse fine) {f : C → C}
    (hf : ∀ s d, (s, d) ∈ fine.assignments → (s, f d) ∈ coarse.assignments) {t : S} {d : C}
    (ht : (t, d) ∈ fine.assignments) {s : S} :
    (s, f d) ∈ coarse.assignments ↔ (s, d) ∈ fine.assignments := by
  constructor
  · intro hs
    obtain ⟨d', hs', ht'⟩ := h s t (f d) hs (hf t d ht)
    rwa [Partition.cell_unique ht ht']
  · exact hf s d

theorem signature_eq_of_refines (h : Refines fine coarse) (h' : Refines coarse fine)
    (hstates : ∀ s, s ∈ coarse.states ↔ s ∈ fine.states) : fine.signature = coarse.signature := by
  obtain ⟨f, hf⟩ := h.exists_map
  have himage : ∀ {t d}, (t, d) ∈ fine.assignments → ∀ s,
      (s, f d) ∈ coarse.assignments ↔ (s, d) ∈ fine.assignments := fun ht s =>
    h'.mem_image hf ht
  have hcells : coarse.cellIds.Perm (fine.cellIds.map f) := by
    have hnodup : (fine.cellIds.map f).Nodup := by
      refine List.Nodup.map_on (fun c hc d hd heq => ?_) Partition.nodup_cellIds
      obtain ⟨s, hs⟩ := Partition.mem_cellIds.mp hc
      obtain ⟨t, ht⟩ := Partition.mem_cellIds.mp hd
      exact Partition.cell_unique hs ((himage ht s).mp (heq ▸ hf s c hs))
    apply (List.perm_ext_iff_of_nodup Partition.nodup_cellIds hnodup).mpr
    intro c
    rw [Partition.mem_cellIds, List.mem_map]
    constructor
    · rintro ⟨s, hs⟩
      obtain ⟨e, he, rfl⟩ := List.mem_map.mp ((hstates s).mp (List.mem_map_of_mem hs))
      exact ⟨e.2, Partition.mem_cellIds.mpr ⟨e.1, he⟩, Partition.cell_unique (hf e.1 e.2 he) hs⟩
    · rintro ⟨d, hd, rfl⟩
      obtain ⟨s, hs⟩ := Partition.mem_cellIds.mp hd
      exact ⟨s, hf s d hs⟩
  have hblock : ∀ d ∈ fine.cellIds, coarse.block (f d) = fine.block d := by
    intro d hd
    obtain ⟨t, ht⟩ := Partition.mem_cellIds.mp hd
    have hmembers : ((coarse.assignments.filter fun a => a.2 = f d).map Prod.fst).Perm
        ((fine.assignments.filter fun a => a.2 = d).map Prod.fst) := by
      apply (List.perm_ext_iff_of_nodup (coarse.nodup.sublist (List.filter_sublist.map _))
        (fine.nodup.sublist (List.filter_sublist.map _))).mpr
      intro s
      simp [himage ht s]
    exact sortBy_eq_of_injective Function.injective_id (hmembers.map pyRepr)
  have hblocks : (coarse.cellIds.map coarse.block).Perm (fine.cellIds.map fine.block) := by
    have hmap : (fine.cellIds.map f).map coarse.block = fine.cellIds.map fine.block := by
      rw [List.map_map]
      exact List.map_congr_left hblock
    exact hmap ▸ hcells.map coarse.block
  rw [Partition.signature_eq, Partition.signature_eq,
    sortBy_eq_of_injective Function.injective_id hblocks]

omit [PyRepr S] in
theorem Refines.length_cellIds_le (h : Refines fine coarse)
    (hstates : ∀ s ∈ coarse.states, s ∈ fine.states) :
    coarse.cellIds.length ≤ fine.cellIds.length := by
  by_contra hlt
  obtain ⟨f, hf⟩ := h.exists_map
  have hsub : coarse.cellIds ⊆ fine.cellIds.map f := by
    intro c hc
    obtain ⟨s, hs⟩ := Partition.mem_cellIds.mp hc
    obtain ⟨e, he, rfl⟩ := List.mem_map.mp (hstates s (List.mem_map_of_mem hs))
    exact List.mem_map.mpr
      ⟨e.2, Partition.mem_cellIds.mpr ⟨e.1, he⟩, Partition.cell_unique (hf e.1 e.2 he) hs⟩
  have hlength := (List.subperm_of_subset Partition.nodup_cellIds hsub).length_le
  rw [List.length_map] at hlength
  omega

omit [PyRepr S] in
theorem Partition.length_cellIds_le {states : List S}
    (hstates : ∀ s ∈ partition.states, s ∈ states) :
    partition.cellIds.length ≤ states.length := by
  have hcells : partition.cellIds.length ≤ partition.states.length := by
    rw [Partition.cellIds, deterministicOrder, length_sortBy, Partition.states, List.length_map,
      ← @List.length_map _ _ partition.assignments Prod.snd]
    exact (List.dedup_sublist _).length_le
  exact hcells.trans (List.subperm_of_subset partition.nodup hstates).length_le

end

/-! ## Coarser cells -/

section

variable [DecidableEq S] [PyRepr S] [PyRepr A] {kernel : Kernel S A} {states failures : List S}
  {fine coarse partition refined : Partition S BehavioralCellId} {s t : S} {a b : A}

theorem actionSignature_coarser (h : Refines fine coarse) {σ : BehavioralActionSignature}
    (hs : actionSignature kernel fine s a = .ok σ) (ht : actionSignature kernel fine t b = .ok σ) :
    ∃ τ, actionSignature kernel coarse s a = .ok τ ∧ actionSignature kernel coarse t b = .ok τ := by
  obtain ⟨f, hf⟩ := h.exists_map
  obtain ⟨os, events, hos, hevents, hsigns⟩ := actionSignature_eq_ok.mp hs
  obtain ⟨os', events', hos', hevents', hsigns'⟩ := actionSignature_eq_ok.mp ht
  have hsame : SameTotals events events' :=
    .of_sortBy (hsigns.successors.symm.trans hsigns'.successors)
  have hmerge : ∀ events : List (BehavioralCellId × ℚ),
      ((tally (events.map fun e => (f e.1, e.2))).map Prod.snd).sum =
        ((tally events).map Prod.snd).sum := by
    intro events
    rw [sum_tally_snd, sum_tally_snd, List.map_map]
    rfl
  let successors := sortBy (fun e => e.1.index) (tally (events.map fun e => (f e.1, e.2)))
  refine ⟨{ σ with successorProbabilities := successors }, ?_, ?_⟩
  · refine actionSignature_eq_ok.mpr ⟨os, _, hos, continuing_rename hf hevents, ?_⟩
    exact ⟨hsigns.rewards, hsigns.failure, hsigns.termination, rfl,
      (hmerge events).symm ▸ hsigns.total⟩
  · refine actionSignature_eq_ok.mpr ⟨os', _, hos', continuing_rename hf hevents', ?_⟩
    exact ⟨hsigns'.rewards, hsigns'.failure, hsigns'.termination,
      (hsame.map f).sortBy_eq index_injective, (hmerge events').symm ▸ hsigns'.total⟩

/-- The signatures of an active state are listed once, in their order. -/
theorem behaviour_signatures {cell : BehavioralCellId}
    {signatures : List BehavioralActionSignature} (hactive : kernel.isTerminal s = false)
    (h : behaviour kernel failures partition s = .ok (.behaviour cell signatures)) :
    signatures.Nodup ∧ deterministicOrder signatures = signatures := by
  unfold behaviour at h
  rw [hactive] at h
  obtain ⟨actions, -, h⟩ := bind_eq_ok.mp h
  obtain ⟨listed, -, h⟩ := bind_eq_ok.mp h
  obtain ⟨_, -, h⟩ := bind_eq_ok.mp h
  obtain ⟨_, -, h⟩ := bind_eq_ok.mp h
  obtain ⟨-, rfl⟩ := RawSignature.behaviour.inj (pure_eq_ok.mp h)
  exact ⟨(perm_sortBy _ _).nodup_iff.mpr (List.nodup_dedup _), sortBy_sortBy _ _⟩

/-- The partition separates active, terminal and failure states. -/
def Separates (kernel : Kernel S A) (failures : List S)
    (partition : Partition S BehavioralCellId) : Prop :=
  ∀ s t, partition.Same s t → terminalKind kernel s failures = terminalKind kernel t failures

/-- The signatures of a state are among those of a state of its stable cell. -/
theorem signature_mem_of_stable (hstable : Stable kernel states fine)
    (hrefines : Refines fine coarse)
    (hst : fine.Same s t) (hactive : kernel.isTerminal s = false) {actions actions' : List A}
    (hactions : kernel.actions s = .ok actions) (hactions' : kernel.actions t = .ok actions')
    {σ : BehavioralActionSignature} (ha : a ∈ actions)
    (hσ : actionSignature kernel coarse s a = .ok σ) :
    ∃ b ∈ actions', actionSignature kernel coarse t b = .ok σ := by
  obtain ⟨actions'', b, ρ, hb', hb, hs, ht⟩ :=
    hstable.matched s t hst hactive actions hactions a ha
  cases hactions'.symm.trans hb'
  obtain ⟨τ, hs', ht'⟩ := actionSignature_coarser hrefines hs ht
  cases hσ.symm.trans hs'
  exact ⟨b, hb, ht'⟩

theorem Stable.refines_refine (hstable : Stable kernel states fine)
    (hseparates : Separates kernel failures fine) (hrefines : Refines fine partition)
    (h : refine kernel states failures partition = .ok refined) : Refines fine refined := by
  obtain ⟨-, hreturns, hsame⟩ := refine_spec h
  intro s t c hs ht
  have hst : fine.Same s t := ⟨c, hs, ht⟩
  have hmem : ∀ {s c}, (s, c) ∈ fine.assignments → s ∈ states := fun hs =>
    (hstable.covers _).mp (List.mem_map_of_mem (f := Prod.fst) hs)
  apply (hsame s (hmem hs) t (hmem ht)).mpr
  cases hactive : kernel.isTerminal s with
  | true =>
    rw [behaviour_terminal hactive,
      behaviour_terminal ((hstable.terminal s t hst).symm.trans hactive),
      hseparates s t hst]
  | false =>
    have hactive' := (hstable.terminal s t hst).symm.trans hactive
    obtain ⟨r, hr⟩ := hreturns s (hmem hs)
    obtain ⟨r', hr'⟩ := hreturns t (hmem ht)
    obtain ⟨actions, cell, signatures, hactions, -, hcell, rfl, hsigned, hsigns⟩ :=
      behaviour_active hactive hr
    obtain ⟨actions', cell', signatures', hactions', -, hcell', rfl, hsigned', hsigns'⟩ :=
      behaviour_active hactive' hr'
    obtain ⟨d, hd, hd'⟩ := hrefines s t c hs ht
    have hcells : cell = cell' := by
      rw [Partition.cell_unique (Partition.cellOf_eq_ok.mp hcell) hd]
      exact Partition.cell_unique hd' (Partition.cellOf_eq_ok.mp hcell')
    have hiff : ∀ σ, σ ∈ signatures ↔ σ ∈ signatures' := by
      intro σ
      constructor
      · intro hσ
        obtain ⟨a, ha, hσ⟩ := hsigns σ hσ
        obtain ⟨b, hb, hσ'⟩ :=
          signature_mem_of_stable hstable hrefines hst hactive hactions hactions' ha hσ
        obtain ⟨τ, hτ, hb⟩ := hsigned' b hb
        cases hσ'.symm.trans hb
        exact hτ
      · intro hσ
        obtain ⟨b, hb, hσ⟩ := hsigns' σ hσ
        obtain ⟨a, ha, hσ'⟩ := signature_mem_of_stable hstable hrefines ⟨c, ht, hs⟩ hactive'
          hactions' hactions hb hσ
        obtain ⟨τ, hτ, ha⟩ := hsigned a ha
        cases hσ'.symm.trans ha
        exact hτ
    obtain ⟨hnodup, horder⟩ := behaviour_signatures hactive hr
    obtain ⟨hnodup', horder'⟩ := behaviour_signatures hactive' hr'
    have hperm : signatures.Perm signatures' :=
      (List.perm_ext_iff_of_nodup hnodup hnodup').mpr hiff
    have hsignatures : signatures = signatures' := by
      rw [← horder, ← horder']
      exact sortBy_eq_of_injective unambiguous_signature.injective hperm
    rw [hr, hr', hcells, hsignatures]

/-! ## The rounds -/

omit [DecidableEq S] in
theorem sameBlocks_eq : sameBlocks partition refined = .ok (decide (
    sortBy id (partition.cellIds.map partition.block) =
      sortBy id (refined.cellIds.map refined.block))) := by
  refine bind_eq_ok.mpr ⟨_, Partition.signature_eq, bind_eq_ok.mpr ⟨_, Partition.signature_eq, ?_⟩⟩
  simp

omit [DecidableEq S] in
theorem refinementStep_returns (iteration : ℕ) (partition : Partition S BehavioralCellId) :
    ∃ step, refinementStep iteration partition = .ok step :=
  ⟨_, bind_eq_ok.mpr ⟨_, Partition.signature_eq, rfl⟩⟩

/-- A round that does not keep the blocks adds a cell. -/
theorem Kinds.length_lt (hkinds : Kinds kernel states failures partition)
    (h : Abstraction.refine kernel states failures partition = .ok refined)
    (hblocks : sortBy id (partition.cellIds.map partition.block) ≠
      sortBy id (refined.cellIds.map refined.block)) :
    partition.cellIds.length < refined.cellIds.length := by
  obtain ⟨hkinds', hrefines, -⟩ := hkinds.refine h
  have hstates : ∀ s, s ∈ partition.states ↔ s ∈ refined.states := fun s =>
    (hkinds.covers s).trans (hkinds'.covers s).symm
  apply lt_of_le_of_ne (hrefines.length_cellIds_le fun s => (hstates s).mp)
  intro hlength
  have hback := hrefines.symm_of_length (fun s => (hstates s).mp) hlength.ge
  have hsignature := signature_eq_of_refines hrefines hback hstates
  rw [Partition.signature_eq, Partition.signature_eq] at hsignature
  exact hblocks (Except.ok.inj hsignature).symm

/-- The rounds return as long as they outnumber the cells that can still be added. -/
theorem TransitionClosed.refineUntilStable_returns (h : TransitionClosed kernel states)
    {rounds iteration : ℕ} {trace : List BehavioralRefinementStep}
    (hkinds : Kinds kernel states failures partition)
    (hrounds : states.length < rounds + partition.cellIds.length) : ∃ refined trace',
      refineUntilStable kernel states failures rounds iteration partition trace =
        .ok (refined, trace') := by
  induction rounds generalizing iteration partition trace with
  | zero =>
    have hle : partition.cellIds.length ≤ states.length :=
      Partition.length_cellIds_le fun s hs => (hkinds.covers s).mp hs
    omega
  | succ rounds ih =>
    obtain ⟨refined, hrefined⟩ :=
      h.refine_returns failures fun s hs => (hkinds.covers s).mpr hs
    obtain ⟨step, hstep⟩ := refinementStep_returns iteration refined
    by_cases hblocks : sortBy id (partition.cellIds.map partition.block) =
        sortBy id (refined.cellIds.map refined.block)
    · refine ⟨refined, trace ++ [step], bind_eq_ok.mpr ⟨refined, hrefined, bind_eq_ok.mpr
        ⟨step, hstep, bind_eq_ok.mpr ⟨_, sameBlocks_eq, ?_⟩⟩⟩⟩
      rw [decide_eq_true hblocks]
      rfl
    · have hlt := hkinds.length_lt hrefined hblocks
      obtain ⟨last, trace', hlast⟩ := ih (hkinds.refine hrefined).1 (by omega)
      refine ⟨last, trace', bind_eq_ok.mpr ⟨refined, hrefined, bind_eq_ok.mpr
        ⟨step, hstep, bind_eq_ok.mpr ⟨_, sameBlocks_eq, ?_⟩⟩⟩⟩
      rw [decide_eq_false hblocks]
      exact bind_eq_ok.mpr ⟨(), require_eq_ok.mpr (by omega), hlast⟩

/-- What every round keeps holds of the partition that the rounds end in. -/
theorem refineUntilStable_invariant {P : Partition S BehavioralCellId → Prop}
    (hstep : ∀ p q, P p → refine kernel states failures p = .ok q → P q)
    {rounds iteration : ℕ} {trace trace' : List BehavioralRefinementStep} (hP : P partition)
    (h : refineUntilStable kernel states failures rounds iteration partition trace =
      .ok (refined, trace')) : P refined := by
  induction rounds generalizing iteration partition trace with
  | zero => cases h
  | succ rounds ih =>
    obtain ⟨next, hnext, h⟩ := bind_eq_ok.mp h
    obtain ⟨step, -, h⟩ := bind_eq_ok.mp h
    obtain ⟨same, -, h⟩ := bind_eq_ok.mp h
    split at h
    · cases pure_eq_ok.mp h
      exact hstep _ _ hP hnext
    · obtain ⟨_, -, h⟩ := bind_eq_ok.mp h
      exact ih (hstep _ _ hP hnext) h

end

end Acfqp.Abstraction
