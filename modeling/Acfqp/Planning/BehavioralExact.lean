import Acfqp.Planning.BehavioralMoves
import Acfqp.Planning.Soundness

/-!
# The behavioural quotient preserves optima

The nominal planner of a behavioural quotient simulates the ground kernel, so that the extremes of
both frontiers agree. A nominal policy is worth the same when it is lifted and when it is audited.
-/

namespace Acfqp.Planning

open Library Abstraction

variable {S A : Type} [DecidableEq S] [PyRepr S] [DecidableEq A] [PyRepr A]

/-- What the parts of a behavioural quotient have in common. -/
structure Minimised (kernel : Kernel S A) (states : List S)
    (partition : Partition S BehavioralCellId)
    (assignments : List (BehavioralActionAssignment S A))
    (models : QuotientModels S A BehavioralCellId BehavioralActionSignature) : Prop where
  stable : Stable kernel states partition
  assigned : assignSignatures kernel states partition = .ok assignments
  built : buildExactRealizationEnvelope kernel states partition
    (.ofAdapter kernel (behavioralSemanticAdapter assignments)) = .ok models.envelope
  nominal : models.nominal = buildNominalQuotient models.envelope

namespace Minimised

variable {kernel : Kernel S A} {goal : String} {weights : Features} {states : List S}
  {partition : Partition S BehavioralCellId}
  {assignments : List (BehavioralActionAssignment S A)}
  {models : QuotientModels S A BehavioralCellId BehavioralActionSignature}
  {s : S} {c : BehavioralCellId} {σ : BehavioralActionSignature}

theorem partition_eq (h : Minimised kernel states partition assignments models) :
    models.nominal.partition = partition := by
  rw [h.nominal, buildNominalQuotient]
  exact buildExactRealizationEnvelope_partition h.built

theorem registered (h : Minimised kernel states partition assignments models)
    (hs : (s, c) ∈ partition.assignments) : s ∈ states :=
  (h.stable.covers s).mp (List.mem_map_of_mem (f := Prod.fst) hs)

/-- The action of the state has the signature. -/
def Carries (kernel : Kernel S A) (partition : Partition S BehavioralCellId) (s : S) (a : A)
    (σ : BehavioralActionSignature) : Prop :=
  kernel.isTerminal s = false ∧ (∃ actions, kernel.actions s = .ok actions ∧ a ∈ actions) ∧
    actionSignature kernel partition s a = .ok σ

/-- Every action of an active state has a signature. -/
theorem exists_carries (h : Minimised kernel states partition assignments models)
    (hs : (s, c) ∈ partition.assignments) (hactive : kernel.isTerminal s = false)
    {actions : List A} (hactions : kernel.actions s = .ok actions) {a : A} (ha : a ∈ actions) :
    ∃ σ, Carries kernel partition s a σ := by
  obtain ⟨-, -, σ, -, -, hσ, -⟩ := h.stable.matched s s ⟨c, hs, hs⟩ hactive actions hactions a ha
  exact ⟨σ, hactive, ⟨actions, hactions, ha⟩, hσ⟩

/-- Active states of one cell have the same signatures. -/
theorem carries_of_same (h : Minimised kernel states partition assignments models) {t : S}
    (hs : (s, c) ∈ partition.assignments) (ht : (t, c) ∈ partition.assignments) {a : A}
    (ha : Carries kernel partition s a σ) : ∃ b, Carries kernel partition t b σ := by
  obtain ⟨hactive, ⟨actions, hactions, hmem⟩, hσ⟩ := ha
  obtain ⟨actions', b, τ, hactions', hb, hτ, hbτ⟩ :=
    h.stable.matched s t ⟨c, hs, ht⟩ hactive actions hactions a hmem
  cases hσ.symm.trans hτ
  exact ⟨b, (h.stable.terminal s t ⟨c, hs, ht⟩).symm.trans hactive,
    ⟨actions', hactions', hb⟩, hbτ⟩

theorem mem_labels (h : Minimised kernel states partition assignments models)
    (hs : (s, c) ∈ partition.assignments) (hactive : kernel.isTerminal s = false)
    {labels : List BehavioralActionSignature}
    (hlabels : behavioralLabels assignments kernel s = .ok labels) :
    σ ∈ labels ↔ ∃ a, Carries kernel partition s a σ := by
  obtain ⟨-, actions, hactions, hmem⟩ :=
    behavioralLabels_spec h.assigned (h.registered hs) hactive hlabels
  rw [hmem]
  constructor
  · rintro ⟨a, ha, hσ⟩
    exact ⟨a, hactive, ⟨actions, hactions, ha⟩, hσ⟩
  · rintro ⟨a, -, ⟨actions', hactions', ha⟩, hσ⟩
    cases hactions.symm.trans hactions'
    exact ⟨a, ha, hσ⟩

theorem labels_returns (h : Minimised kernel states partition assignments models)
    (hs : (s, c) ∈ partition.assignments) (hactive : kernel.isTerminal s = false) :
    ∃ labels, behavioralLabels assignments kernel s = .ok labels := by
  obtain ⟨members, -, hmembers, -, -, hlabels⟩ :=
    available_of_build h.built (Partition.mem_cellIds.mpr ⟨s, hs⟩)
  exact hlabels s ((Partition.mem_of_members hmembers).mpr hs) hactive

/-- The concretizer mixes the actions that carry the signature. -/
theorem concretize_returns (h : Minimised kernel states partition assignments models)
    (hs : (s, c) ∈ partition.assignments) {a : A} (ha : Carries kernel partition s a σ) :
    ∃ distribution, behavioralConcretize assignments kernel s σ = .ok distribution ∧
      distribution ≠ [] ∧ (distribution.map Prod.fst).sum = 1 ∧
      ∀ e ∈ distribution, 0 < e.1 ∧ Carries kernel partition s e.2 σ := by
  obtain ⟨hactive, ⟨actions, hactions, hmem⟩, hσ⟩ := ha
  obtain ⟨distribution, hdistribution, hne, hsum, hspec⟩ :=
    behavioralConcretize_returns h.assigned (h.registered hs) hactive hactions hmem hσ
  refine ⟨distribution, hdistribution, hne, hsum, fun e he => ?_⟩
  obtain ⟨hpos, hmem, hσ⟩ := hspec e he
  exact ⟨hpos, hactive, ⟨actions, hactions, hmem⟩, hσ⟩

/-! ## The entries -/

/-- The entries of a cell carry the signatures of every active member, with all realizations. -/
theorem entry_spec (h : Minimised kernel states partition assignments models)
    {e : EnvelopeEntry S BehavioralCellId BehavioralActionSignature}
    (he : e ∈ models.envelope.entries) (hs : (s, e.cell) ∈ partition.assignments) :
    (∃ a, Carries kernel partition s a e.action) ∧ e.realizations ≠ [] ∧
      (∀ r ∈ e.realizations, ∃ t, (t, e.cell) ∈ partition.assignments ∧
        kernel.isTerminal t = false ∧ realization kernel partition
          (.ofAdapter kernel (behavioralSemanticAdapter assignments)) t e.action = .ok r) ∧
      ∀ t, (t, e.cell) ∈ partition.assignments → ∃ r ∈ e.realizations, r.state = t := by
  obtain ⟨-, members, actions, hmembers, hactions, haction, hrs⟩ :=
    (mem_entries_of_build h.built).mp he
  have hmem : ∀ t, t ∈ members ↔ (t, e.cell) ∈ partition.assignments :=
    fun _ => Partition.mem_of_members hmembers
  obtain ⟨⟨t, ht, hactive⟩, hlabels⟩ := (mem_availableSemanticActions_iff hactions).mp haction
  have hall : ∀ u, (u, e.cell) ∈ partition.assignments → kernel.isTerminal u = false := by
    intro u hu
    exact (h.stable.terminal t u ⟨_, (hmem t).mp ht, hu⟩).symm.trans hactive
  obtain ⟨labels, hprovider, hlabel⟩ := hlabels s ((hmem s).mpr hs) (hall s hs)
  have hexists : ∀ u, (u, e.cell) ∈ partition.assignments → ∃ r ∈ e.realizations,
      realization kernel partition (.ofAdapter kernel (behavioralSemanticAdapter assignments)) u
        e.action = .ok r := by
    intro u hu
    exact exists_of_mapM hrs (List.mem_filter.mpr ⟨(hmem u).mpr hu, by simp [hall u hu]⟩)
  refine ⟨(h.mem_labels hs (hall s hs) hprovider).mp hlabel, ?_, fun r hr => ?_, fun u hu => ?_⟩
  · obtain ⟨r, hr, -⟩ := hexists s hs
    exact List.ne_nil_of_mem hr
  · obtain ⟨u, hu, hrealization⟩ := mem_of_mapM hrs hr
    obtain ⟨hu, -⟩ := List.mem_filter.mp hu
    exact ⟨u, (hmem u).mp hu, hall u ((hmem u).mp hu), hrealization⟩
  · obtain ⟨r, hr, hrealization⟩ := hexists u hu
    exact ⟨r, hr, (realization_backup hrealization).1⟩

/-- Every signature that a state carries has its entry. -/
theorem exists_entry (h : Minimised kernel states partition assignments models)
    (hs : (s, c) ∈ partition.assignments) {a : A} (ha : Carries kernel partition s a σ) :
    ∃ e ∈ models.envelope.entries, e.cell = c ∧ e.action = σ := by
  obtain ⟨members, actions, hmembers, hactions, hentries, hlabels⟩ :=
    available_of_build h.built (Partition.mem_cellIds.mpr ⟨s, hs⟩)
  have hmem : ∀ t, t ∈ members ↔ (t, c) ∈ partition.assignments :=
    fun _ => Partition.mem_of_members hmembers
  refine hentries σ ((mem_availableSemanticActions_iff hactions).mpr
    ⟨⟨s, (hmem s).mpr hs, ha.1⟩, fun t ht hactive => ?_⟩)
  obtain ⟨labels, hprovider⟩ := hlabels t ht hactive
  exact ⟨labels, hprovider, (h.mem_labels ((hmem t).mp ht) hactive hprovider).mpr
    (h.carries_of_same hs ((hmem t).mp ht) ha)⟩

/-- Every realization of an entry is worth its signature. -/
theorem entry_backs (h : Minimised kernel states partition assignments models)
    (hgoal : GoalFree kernel goal)
    {e : EnvelopeEntry S BehavioralCellId BehavioralActionSignature}
    (he : e ∈ models.envelope.entries) (hs : (s, e.cell) ∈ partition.assignments) :
    ∀ r ∈ e.realizations, r.Canonical ∧ ∀ weights W,
      r.reward weights + massSum W r.successorProbabilities =
          (signatureMove weights e.action).reward +
            massSum W (signatureMove weights e.action).successors ∧
        r.failureProbability + massSum W r.successorProbabilities =
          (signatureMove weights e.action).failure +
            massSum W (signatureMove weights e.action).successors := by
  obtain ⟨⟨a, ha⟩, -, hrealized, -⟩ := h.entry_spec he hs
  intro r hr
  obtain ⟨t, ht, -, hrealization⟩ := hrealized r hr
  obtain ⟨b, hb⟩ := h.carries_of_same hs ht ha
  obtain ⟨distribution, hdistribution, -, hsum, hspec⟩ := h.concretize_returns ht hb
  exact ⟨canonical_of_realization hrealization, realization_backs hgoal hrealization hdistribution
    hsum fun x hx => (hspec x hx).2.2.2⟩

/-! ## The nominal transitions -/

theorem mem_nominal_actions (h : Minimised kernel states partition assignments models)
    (hs : (s, c) ∈ partition.assignments) :
    σ ∈ models.nominal.actions c ↔ ∃ a, Carries kernel partition s a σ := by
  rw [h.nominal, NominalQuotient.mem_actions]
  constructor
  · rintro ⟨x, hx, rfl, rfl⟩
    obtain ⟨e, he, -, rfl⟩ := mem_entries_buildNominalQuotient.mp hx
    exact (h.entry_spec he hs).1
  · rintro ⟨a, ha⟩
    obtain ⟨e, he, rfl, rfl⟩ := h.exists_entry hs ha
    exact ⟨_, mem_entries_buildNominalQuotient.mpr ⟨e, he, (h.entry_spec he hs).2.1, rfl⟩, rfl, rfl⟩

/-- A nominal transition is worth its signature. -/
theorem nominal_backs (h : Minimised kernel states partition assignments models)
    (hgoal : GoalFree kernel goal) (hs : (s, c) ∈ partition.assignments)
    {model : NominalActionModel BehavioralCellId}
    (hmodel : models.nominal.transition c σ = .ok model) (weights : Features)
    (W : BehavioralCellId → ℚ) :
    model.reward weights + massSum W model.successorProbabilities =
        (signatureMove weights σ).reward + massSum W (signatureMove weights σ).successors ∧
      model.failureProbability + massSum W model.successorProbabilities =
        (signatureMove weights σ).failure + massSum W (signatureMove weights σ).successors := by
  obtain ⟨x, hx, rfl, rfl, rfl⟩ := NominalQuotient.transition_eq_ok hmodel
  rw [h.nominal] at hx
  obtain ⟨e, he, hne, rfl⟩ := mem_entries_buildNominalQuotient.mp hx
  have hentry := h.entry_backs hgoal he hs
  exact averageModel_backs hne (fun r hr => (hentry r hr).1) fun r hr => (hentry r hr).2 weights W

abbrev planner (models : QuotientModels S A BehavioralCellId BehavioralActionSignature)
    (weights : Features) : CellPlanner BehavioralCellId BehavioralActionSignature
      (ParetoPoint BehavioralCellId BehavioralActionSignature) :=
  nominalPlanner models.nominal weights []

omit [DecidableEq S] [PyRepr S] [DecidableEq A] [PyRepr A] in
theorem actions_planner (models : QuotientModels S A BehavioralCellId BehavioralActionSignature)
    (weights : Features) (c : BehavioralCellId) :
    (planner models weights).actions c = models.nominal.actions c := by
  simp [nominalPlanner, paretoPlanner]

omit [DecidableEq S] [PyRepr S] [DecidableEq A] [PyRepr A] in
theorem move_planner {model : NominalActionModel BehavioralCellId}
    (hmodel : models.nominal.transition c σ = .ok model) :
    (planner models weights).move c σ = .ok (NominalActionModel.move weights model) :=
  map_eq_ok.mpr ⟨model, hmodel, rfl⟩

/-- The nominal planner simulates the ground kernel, every state in its cell. -/
theorem simulates (h : Minimised kernel states partition assignments models)
    (hgoal : GoalFree kernel goal) (weights : Features) :
    Simulates kernel goal weights (planner models weights)
      fun _ s c => (s, c) ∈ partition.assignments := by
  have hmatched : ∀ {s c a σ}, (s, c) ∈ partition.assignments → Carries kernel partition s a σ →
      Matched kernel goal weights (planner models weights)
        (fun t d => (t, d) ∈ partition.assignments) s a c σ := by
    intro s c a σ hs ha
    obtain ⟨model, hmodel⟩ :=
      NominalQuotient.transition_returns ((h.mem_nominal_actions hs).mpr ⟨a, ha⟩)
    obtain ⟨outcomes, ho, hreached, hbacks⟩ := actionSignature_backs hgoal ha.2.2
    refine ⟨outcomes, _, ho, move_planner hmodel, fun V W hVW => ?_⟩
    have hV : ∀ gain, backup (outcomeBranches kernel goal gain outcomes) V =
        backup (outcomeBranches kernel goal gain outcomes) (cellValue partition W) := by
      intro gain
      refine backup_congr fun b hb t ht => ?_
      obtain ⟨o, ho, hactive, rfl⟩ := next_outcomeBranches hb ht
      obtain ⟨d, hd⟩ := hreached o ho hactive
      rw [cellValue_eq hd, hVW _ d (Partition.cellOf_eq_ok.mp hd)]
    have hmove := h.nominal_backs hgoal hs hmodel weights W
    exact ⟨(hV _).trans ((hbacks weights W).1.trans hmove.1.symm),
      (hV _).trans ((hbacks weights W).2.trans hmove.2.symm)⟩
  constructor
  · rintro - s c hs a ⟨hactive, actions, hactions, ha⟩
    obtain ⟨σ, hσ⟩ := h.exists_carries hs ((hgoal s).symm.trans hactive) hactions ha
    refine ⟨σ, ?_, hmatched hs hσ⟩
    rw [actions_planner, h.mem_nominal_actions hs]
    exact ⟨a, hσ⟩
  · intro _ s c hs σ hσ
    rw [actions_planner, h.mem_nominal_actions hs] at hσ
    obtain ⟨a, ha⟩ := hσ
    obtain ⟨hactive, hoffered, -⟩ := id ha
    exact ⟨a, ⟨(hgoal s).trans hactive, hoffered⟩, hmatched hs ha⟩

theorem closedCover (h : Minimised kernel states partition assignments models)
    (hgoal : GoalFree kernel goal) :
    ClosedCover kernel goal fun _ s => ∃ c, (s, c) ∈ partition.assignments := by
  rintro _ s actions a outcomes ⟨c, hs⟩ hactive hactions ha ho o hmem hstop
  obtain ⟨σ, -, -, hσ⟩ := h.exists_carries hs ((hgoal s).symm.trans hactive) hactions ha
  obtain ⟨outcomes', ho', hreached, -⟩ := actionSignature_backs hgoal hσ
  cases ho.symm.trans ho'
  obtain ⟨d, hd⟩ := hreached o hmem hstop
  exact ⟨d, Partition.cellOf_eq_ok.mp hd⟩

end Minimised

end Acfqp.Planning
