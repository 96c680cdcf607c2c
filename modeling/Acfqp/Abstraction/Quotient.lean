import Acfqp.Abstraction.Partition
import Acfqp.Planning.Common

/-!
# Exact realization envelopes

The certificate object of a quotient: for every cell and common semantic action, the exact
one-step behaviour of each active member, with no averaging over the members.
-/

namespace Acfqp.Abstraction

open Library Planning

variable {S A C L : Type}

/-- The outcomes of one action, with this module's own checks. -/
def iterOutcomes [PyRepr S] [PyRepr A] (kernel : Kernel S A) (state : S) (action : A) :
    Except PyError (List (Outcome S)) := do
  let outcomes ← kernel.step state action
  require (outcomes ≠ [])
    (.valueError s!"action {pyRepr action} at state {pyRepr state} has no outcomes")
  require ((outcomes.map Outcome.probability).sum = 1 ∧ ∀ o ∈ outcomes, 0 ≤ o.probability)
    (.valueError "outcome probabilities must be non-negative and sum to one")
  return outcomes

theorem iterOutcomes_eq_ok [PyRepr S] [PyRepr A] {kernel : Kernel S A} {state : S} {action : A}
    {outcomes : List (Outcome S)} :
    iterOutcomes kernel state action = .ok outcomes ↔
      Planning.iterOutcomes kernel state action = .ok outcomes := by
  rw [Planning.iterOutcomes_eq_ok]
  constructor
  · intro h
    obtain ⟨os, hstep, h⟩ := bind_eq_ok.mp h
    obtain ⟨_, -, h⟩ := bind_eq_ok.mp h
    obtain ⟨_, hsum, h⟩ := bind_eq_ok.mp h
    rw [← pure_eq_ok.mp h]
    exact ⟨hstep, (require_eq_ok.mp hsum).1⟩
  · rintro ⟨hstep, hsum⟩
    have hne : outcomes ≠ [] := by
      rintro rfl
      simp at hsum
    refine bind_eq_ok.mpr ⟨outcomes, hstep, bind_eq_ok.mpr ⟨(), require_eq_ok.mpr hne, ?_⟩⟩
    exact bind_eq_ok.mpr
      ⟨(), require_eq_ok.mpr ⟨hsum, fun o _ => o.probability_pos.le⟩, rfl⟩

/-- A semantic action interface over a ground kernel: the labels of a state, and the exact
distribution over primitive actions that realizes a label. -/
structure SemanticAdapter (S A L : Type) where
  labels : Kernel S A → S → Except PyError (List L)
  concretize : Kernel S A → S → L → Except PyError (List (ℚ × A))

/-- Where the semantic actions of an envelope come from. -/
structure ActionSource (S A L : Type) where
  actionLabeler : Option (S → A → L)
  semanticActionProvider : S → Except PyError (List L)
  concretizer : S → L → Except PyError (List (ℚ × A))

def ActionSource.ofAdapter (kernel : Kernel S A) (adapter : SemanticAdapter S A L) :
    ActionSource S A L :=
  ⟨none, adapter.labels kernel, adapter.concretize kernel⟩

/-- Exact one-step behaviour of one ground state under a semantic action. -/
structure GroundRealization (S C : Type) where
  state : S
  rewardFeatures : Features
  successorProbabilities : List (C × ℚ)
  failureProbability : ℚ
  terminationProbability : ℚ

def GroundRealization.reward (r : GroundRealization S C) (weights : Features) : ℚ :=
  weigh weights r.rewardFeatures

structure EnvelopeEntry (S C L : Type) where
  cell : C
  action : L
  realizations : List (GroundRealization S C)

/-- All correlated ground realizations. -/
structure ExactRealizationEnvelope (S A C L : Type) where
  partition : Partition S C
  horizon : ℕ
  entries : List (EnvelopeEntry S C L)
  source : ActionSource S A L

def ExactRealizationEnvelope.realizations [DecidableEq C] [DecidableEq L] [PyRepr C] [PyRepr L]
    (envelope : ExactRealizationEnvelope S A C L) (cell : C) (action : L) :
    Except PyError (List (GroundRealization S C)) :=
  orRaise ((envelope.entries.find? fun e => e.cell = cell ∧ e.action = action).map
      EnvelopeEntry.realizations)
    (.keyError s!"no exact realization envelope for cell={pyRepr cell}, action={pyRepr action}")

section Construction

variable [DecidableEq S] [PyRepr S] [DecidableEq A] [PyRepr A] [DecidableEq C] [PyRepr C]
  [DecidableEq L] [PyRepr L]

def normaliseConcretizer (kernel : Kernel S A) (source : ActionSource S A L) (state : S)
    (semanticAction : L) : Except PyError (List (ℚ × A)) := do
  let distribution ← source.concretizer state semanticAction
  require (distribution ≠ [])
    (.valueError s!"concretizer has empty support at state={pyRepr state}, action={
      pyRepr semanticAction}")
  require (∀ e ∈ distribution, 0 ≤ e.1)
    (.valueError "concretizer probabilities must be non-negative")
  require ((distribution.map Prod.fst).sum = 1)
    (.valueError "concretizer probabilities must sum to one")
  let available ← kernel.actions state
  distribution.forM fun e => do
    require (e.2 ∈ available)
      (.valueError s!"concretizer selected unavailable ground action {pyRepr e.2}")
    if let some labeler := source.actionLabeler then
      require (labeler state e.2 = semanticAction)
        (.valueError "concretizer action does not map to the requested semantic action")
  return distribution

/-- The labels that all active states share. -/
def availableSemanticActions (kernel : Kernel S A) (states : List S)
    (provider : S → Except PyError (List L)) : Except PyError (List L) := do
  let labels ← (states.filter fun s => !kernel.isTerminal s).mapM provider
  match labels with
  | [] => return []
  | first :: rest =>
    let common := first.dedup.filter fun label => ∀ l ∈ rest, label ∈ l
    return deterministicOrder common

def validateFailureCellIsolation (kernel : Kernel S A) (states : List S)
    (partition : Partition S C) : Except PyError Unit := do
  let targets ← (states.filter fun s => !kernel.isTerminal s).mapM fun state => do
    let targets ← (← kernel.actions state).mapM fun action => do
      return ((← iterOutcomes kernel state action).filter Outcome.failure).map Outcome.nextState
    return targets.flatten
  let failureTargets := targets.flatten.dedup
  let unknown := failureTargets.filter fun s => s ∉ states
  require (unknown = [])
    (.valueError s!"failure targets are absent from the registered state set: {pyReprSet unknown}")
  failureTargets.forM fun failureState => do
    let cell ← partition.cellOf failureState
    let nonfailureMembers := (← partition.members cell).filter fun s => s ∉ failureTargets
    require (nonfailureMembers = [])
      (.valueError s!"failure state must be isolated from non-failure states; cell={
        pyRepr cell}, failure_state={pyRepr failureState}, nonfailure_members={
        pyReprSet nonfailureMembers}")

/-- One outcome of a realized label: its probability, and the cell where it continues. -/
structure RealizationAtom (S C : Type) where
  probability : ℚ
  outcome : Outcome S
  successor : Option C

def realizationAtoms (kernel : Kernel S A) (partition : Partition S C) (state : S)
    (groundDistribution : List (ℚ × A)) : Except PyError (List (RealizationAtom S C)) := do
  let atoms ← groundDistribution.mapM fun e => do
    let outcomes ← iterOutcomes kernel state e.2
    outcomes.mapM fun outcome => do
      if outcome.failure || outcome.terminal || kernel.isTerminal outcome.nextState then
        return (⟨e.1 * outcome.probability, outcome, none⟩ : RealizationAtom S C)
      else
        let cell ← partition.cellOf outcome.nextState
        return ⟨e.1 * outcome.probability, outcome, some cell⟩
  return atoms.flatten

def realization (kernel : Kernel S A) (partition : Partition S C) (source : ActionSource S A L)
    (state : S) (semanticAction : L) : Except PyError (GroundRealization S C) := do
  let groundDistribution ← normaliseConcretizer kernel source state semanticAction
  let atoms ← realizationAtoms kernel partition state groundDistribution
  let featureTotals := tally (atoms.flatMap fun atom =>
    atom.outcome.rewardFeatures.map fun f => (f.1, atom.probability * f.2))
  let successorTotals := tally (atoms.filterMap fun atom =>
    atom.successor.map fun cell => (cell, atom.probability))
  let failureProbability :=
    ((atoms.filter fun atom => atom.outcome.failure).map RealizationAtom.probability).sum
  let terminationProbability :=
    ((atoms.filter fun atom => atom.successor.isNone).map RealizationAtom.probability).sum
  require (terminationProbability + (successorTotals.map Prod.snd).sum = 1)
    (.assertionError "realization continuation and termination mass must sum to one")
  return ⟨state, sortBy Prod.fst featureTotals, sortBy (fun e => pyRepr e.1) successorTotals,
    failureProbability, terminationProbability⟩

/-- The certificate object, without nominal averages. -/
def buildExactRealizationEnvelope (kernel : Kernel S A) (states : List S)
    (partition : Partition S C) (source : ActionSource S A L) :
    Except PyError (ExactRealizationEnvelope S A C L) := do
  let missing := states.filter fun s => s ∉ partition.states
  let extra := partition.states.filter fun s => s ∉ states
  require (missing = [] ∧ extra = [])
    (.valueError s!"partition/state mismatch; missing={pyReprSet missing}, extra={
      pyReprSet extra}")
  validateFailureCellIsolation kernel states partition
  let entries ← partition.cellIds.mapM fun cell => do
    let members ← partition.members cell
    let actions ← availableSemanticActions kernel members source.semanticActionProvider
    actions.mapM fun semanticAction => do
      let realizations ← (members.filter fun s => !kernel.isTerminal s).mapM fun state =>
        realization kernel partition source state semanticAction
      return (⟨cell, semanticAction, realizations⟩ : EnvelopeEntry S C L)
  let ordered := sortBy (fun e : EnvelopeEntry S C L =>
    (toLex (pyRepr e.cell, pyRepr e.action) : String ×ₗ String)) entries.flatten
  return ⟨partition, kernel.horizon, ordered, source⟩

/-! ## What a built envelope holds -/

omit [DecidableEq S] [PyRepr S] [DecidableEq A] [PyRepr A] in
/-- The common labels are the labels of every active state, where there is one. -/
theorem mem_availableSemanticActions_iff {kernel : Kernel S A} {states : List S}
    {provider : S → Except PyError (List L)} {actions : List L}
    (h : availableSemanticActions kernel states provider = .ok actions) {action : L} :
    action ∈ actions ↔ (∃ s ∈ states, kernel.isTerminal s = false) ∧
      ∀ s ∈ states, kernel.isTerminal s = false → ∃ labels, provider s = .ok labels ∧
        action ∈ labels := by
  obtain ⟨rows, hrows, h⟩ := bind_eq_ok.mp h
  have hall : (∀ row ∈ rows, action ∈ row) ↔ ∀ s ∈ states, kernel.isTerminal s = false →
      ∃ labels, provider s = .ok labels ∧ action ∈ labels := by
    constructor
    · intro hmem s hs hactive
      obtain ⟨labels, hlabels, hprovider⟩ :=
        exists_of_mapM hrows (List.mem_filter.mpr ⟨hs, by simp [hactive]⟩)
      exact ⟨labels, hprovider, hmem labels hlabels⟩
    · intro hmem row hrow
      obtain ⟨s, hs, hprovider⟩ := mem_of_mapM hrows hrow
      obtain ⟨hs, hactive⟩ := List.mem_filter.mp hs
      obtain ⟨labels, hlabels, ha⟩ := hmem s hs (by simpa using hactive)
      cases hprovider.symm.trans hlabels
      exact ha
  rw [← hall]
  cases rows with
  | nil =>
    obtain rfl := pure_eq_ok.mp h
    have hnil : states.filter (fun s => !kernel.isTerminal s) = [] :=
      List.eq_nil_of_length_eq_zero (mapM_eq_ok.mp hrows).length_eq
    have hnone : ∀ s ∈ states, kernel.isTerminal s = true := by
      simpa using List.filter_eq_nil_iff.mp hnil
    simpa using hnone
  | cons first rest =>
    obtain rfl := pure_eq_ok.mp h
    obtain ⟨s, hs, -⟩ := mem_of_mapM hrows (List.mem_cons_self (a := first))
    obtain ⟨hs, hactive⟩ := List.mem_filter.mp hs
    have hsome : ∃ s ∈ states, kernel.isTerminal s = false := ⟨s, hs, by simpa using hactive⟩
    simp [deterministicOrder, hsome]

omit [DecidableEq S] [PyRepr S] [DecidableEq A] [PyRepr A] in
theorem mem_availableSemanticActions {kernel : Kernel S A} {states : List S}
    {provider : S → Except PyError (List L)} {actions : List L}
    (h : availableSemanticActions kernel states provider = .ok actions) {action : L}
    (ha : action ∈ actions) {s : S} (hs : s ∈ states) (hactive : kernel.isTerminal s = false) :
    ∃ labels, provider s = .ok labels ∧ action ∈ labels :=
  ((mem_availableSemanticActions_iff h).mp ha).2 s hs hactive

variable {kernel : Kernel S A} {states : List S} {partition : Partition S C}
  {source : ActionSource S A L} {envelope : ExactRealizationEnvelope S A C L}

theorem buildExactRealizationEnvelope_partition
    (h : buildExactRealizationEnvelope kernel states partition source = .ok envelope) :
    envelope.partition = partition := by
  obtain ⟨_, -, h⟩ := bind_eq_ok.mp h
  obtain ⟨_, -, h⟩ := bind_eq_ok.mp h
  obtain ⟨entries, -, h⟩ := bind_eq_ok.mp h
  rw [← pure_eq_ok.mp h]

theorem buildExactRealizationEnvelope_source
    (h : buildExactRealizationEnvelope kernel states partition source = .ok envelope) :
    envelope.source = source := by
  obtain ⟨_, -, h⟩ := bind_eq_ok.mp h
  obtain ⟨_, -, h⟩ := bind_eq_ok.mp h
  obtain ⟨entries, -, h⟩ := bind_eq_ok.mp h
  rw [← pure_eq_ok.mp h]

/-- The entries of a built envelope: one for every cell and common label, with the exact
realization of every active member. -/
theorem mem_entries_of_build
    (h : buildExactRealizationEnvelope kernel states partition source = .ok envelope)
    {e : EnvelopeEntry S C L} :
    e ∈ envelope.entries ↔ e.cell ∈ partition.cellIds ∧ ∃ members actions,
      partition.members e.cell = .ok members ∧
      availableSemanticActions kernel members source.semanticActionProvider = .ok actions ∧
      e.action ∈ actions ∧
      (members.filter fun s => !kernel.isTerminal s).mapM (fun s =>
        realization kernel partition source s e.action) = .ok e.realizations := by
  obtain ⟨_, -, h⟩ := bind_eq_ok.mp h
  obtain ⟨_, -, h⟩ := bind_eq_ok.mp h
  obtain ⟨entries, hentries, h⟩ := bind_eq_ok.mp h
  obtain rfl := pure_eq_ok.mp h
  rw [mem_sortBy]
  constructor
  · intro he
    obtain ⟨row, hrow, he⟩ := List.mem_flatten.mp he
    obtain ⟨c, hcell, hc⟩ := mem_of_mapM hentries hrow
    obtain ⟨members, hmembers, hc⟩ := bind_eq_ok.mp hc
    obtain ⟨actions, hactions, hc⟩ := bind_eq_ok.mp hc
    obtain ⟨a, ha, hentry⟩ := mem_of_mapM hc he
    obtain ⟨rs, hrs, hentry⟩ := bind_eq_ok.mp hentry
    obtain rfl := pure_eq_ok.mp hentry
    exact ⟨hcell, members, actions, hmembers, hactions, ha, hrs⟩
  · rintro ⟨hcell, members, actions, hmembers, hactions, ha, hrs⟩
    obtain ⟨row, hrow, hc⟩ := exists_of_mapM hentries hcell
    obtain ⟨members', hmembers', hc⟩ := bind_eq_ok.mp hc
    cases hmembers.symm.trans hmembers'
    obtain ⟨actions', hactions', hc⟩ := bind_eq_ok.mp hc
    cases hactions.symm.trans hactions'
    obtain ⟨x, hx, hentry⟩ := exists_of_mapM hc ha
    obtain ⟨rs', hrs', hentry⟩ := bind_eq_ok.mp hentry
    cases hrs.symm.trans hrs'
    obtain rfl := pure_eq_ok.mp hentry
    exact List.mem_flatten.mpr ⟨row, hrow, hx⟩

/-- A built envelope has read the labels of every active member of every cell. -/
theorem available_of_build
    (h : buildExactRealizationEnvelope kernel states partition source = .ok envelope) {cell : C}
    (hcell : cell ∈ partition.cellIds) : ∃ members actions, partition.members cell = .ok members ∧
      availableSemanticActions kernel members source.semanticActionProvider = .ok actions ∧
      (∀ a ∈ actions, ∃ e ∈ envelope.entries, e.cell = cell ∧ e.action = a) ∧
      ∀ s ∈ members, kernel.isTerminal s = false →
        ∃ labels, source.semanticActionProvider s = .ok labels := by
  have hbuild := h
  obtain ⟨_, -, h⟩ := bind_eq_ok.mp h
  obtain ⟨_, -, h⟩ := bind_eq_ok.mp h
  obtain ⟨entries, hentries, -⟩ := bind_eq_ok.mp h
  obtain ⟨row, -, hrow⟩ := exists_of_mapM hentries hcell
  obtain ⟨members, hmembers, hrow⟩ := bind_eq_ok.mp hrow
  obtain ⟨actions, hactions, hrow⟩ := bind_eq_ok.mp hrow
  refine ⟨members, actions, hmembers, hactions, fun a ha => ?_, fun s hs hactive => ?_⟩
  · obtain ⟨e, -, he⟩ := exists_of_mapM hrow ha
    obtain ⟨rs, hrs, -⟩ := bind_eq_ok.mp he
    exact ⟨⟨cell, a, rs⟩, (mem_entries_of_build hbuild).mpr
      ⟨hcell, members, actions, hmembers, hactions, ha, hrs⟩, rfl, rfl⟩
  · obtain ⟨rows, hrows, -⟩ := bind_eq_ok.mp hactions
    obtain ⟨labels, -, hlabels⟩ :=
      exists_of_mapM hrows (List.mem_filter.mpr ⟨hs, by simp [hactive]⟩)
    exact ⟨labels, hlabels⟩

/-- The realizations of a built envelope are exact, and their label is one of every active
member. -/
theorem realizations_of_build
    (h : buildExactRealizationEnvelope kernel states partition source = .ok envelope) {cell : C}
    {action : L} {realizations : List (GroundRealization S C)}
    (hr : envelope.realizations cell action = .ok realizations) :
    ∃ members, partition.members cell = .ok members ∧
      (∀ s ∈ members, kernel.isTerminal s = false →
        ∃ labels, source.semanticActionProvider s = .ok labels ∧ action ∈ labels) ∧
      ∀ r ∈ realizations, ∃ s ∈ members, kernel.isTerminal s = false ∧
        realization kernel partition source s action = .ok r := by
  rw [ExactRealizationEnvelope.realizations, orRaise_eq_ok, Option.map_eq_some_iff] at hr
  obtain ⟨e, hfind, rfl⟩ := hr
  obtain ⟨rfl, rfl⟩ : e.cell = cell ∧ e.action = action := by simpa using List.find?_some hfind
  obtain ⟨-, members, actions, hmembers, hactions, ha, hrs⟩ :=
    (mem_entries_of_build h).mp (List.mem_of_find?_eq_some hfind)
  refine ⟨members, hmembers, fun s hs hactive =>
    mem_availableSemanticActions hactions ha hs hactive, fun r hr => ?_⟩
  obtain ⟨s, hs, hrealization⟩ := mem_of_mapM hrs hr
  obtain ⟨hs, hactive⟩ := List.mem_filter.mp hs
  exact ⟨s, hs, by simpa using hactive, hrealization⟩

end Construction

end Acfqp.Abstraction
