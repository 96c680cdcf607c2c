import Acfqp.Refinement.Split

/-!
# Invariants of refinement runs

An accepted split replaces one cell by two, and every other call keeps the partition, so that the
leaf counter counts the cells and the partition only becomes finer, in every run.
-/

namespace Acfqp.Refinement

open Library Abstraction

variable {S C : Type}

/-! ## Splits of a partition -/

variable [DecidableEq S] [DecidableEq C] [PyRepr S] [PyRepr C]

/-- One cell has been divided in two. -/
structure IsSplit (refined partition : Partition S C) : Prop where
  states : refined.states.Perm partition.states
  refines : Refines refined partition
  length_cellIds : refined.cellIds.length = partition.cellIds.length + 1

/-- The cell of a state after a split. -/
def relabel (falseStates trueStates : List S) (falseCell trueCell : C) (e : S × C) : S × C :=
  if e.1 ∈ trueStates then (e.1, trueCell) else if e.1 ∈ falseStates then (e.1, falseCell) else e

section Replace

variable {partition refined : Partition S C} {cell falseCell trueCell : C}
  {falseStates trueStates : List S}

/-- The children partition the members of the cell, and everything else stays. -/
structure Replaced (partition refined : Partition S C) (cell : C) (falseStates trueStates : List S)
    (falseCell trueCell : C) : Prop where
  assignments : refined.assignments.Perm
    (partition.assignments.map (relabel falseStates trueStates falseCell trueCell))
  members : ∀ s, s ∈ falseStates ∨ s ∈ trueStates ↔ (s, cell) ∈ partition.assignments
  disjoint : ∀ s ∈ falseStates, s ∉ trueStates
  falseStates_ne : falseStates ≠ []
  trueStates_ne : trueStates ≠ []
  cells_ne : falseCell ≠ trueCell
  falseCell_fresh : ∀ s, (s, falseCell) ∈ partition.assignments → falseCell = cell
  trueCell_fresh : ∀ s, (s, trueCell) ∈ partition.assignments → trueCell = cell

theorem replaceCell_eq_ok
    (h : partition.replaceCell cell falseStates trueStates falseCell trueCell =
    .ok refined) :
    Replaced partition refined cell falseStates trueStates falseCell trueCell := by
  obtain ⟨expected, hexpected, h⟩ := bind_eq_ok.mp h
  obtain ⟨_, hne, h⟩ := bind_eq_ok.mp h
  obtain ⟨_, hdisjoint, h⟩ := bind_eq_ok.mp h
  obtain ⟨_, hcover, h⟩ := bind_eq_ok.mp h
  obtain ⟨_, hcells, h⟩ := bind_eq_ok.mp h
  obtain ⟨_, hfresh, h⟩ := bind_eq_ok.mp h
  rw [require_eq_ok] at hne hdisjoint hcover hcells hfresh
  have hmembers : ∀ s, s ∈ falseStates ∨ s ∈ trueStates ↔ (s, cell) ∈ partition.assignments := by
    intro s
    rw [← Partition.mem_of_members hexpected, ← List.mem_append]
    exact ⟨hcover.1 s, hcover.2 s⟩
  have hkey : ∀ s, s ∈ falseStates ∨ s ∈ trueStates → s ∈ partition.assignments.map Prod.fst :=
    fun s hs => List.mem_map.mpr ⟨(s, cell), (hmembers s).mp hs, rfl⟩
  have hfreshOf : ∀ c, c ∉ partition.cellIds.filter (· ≠ cell) →
      ∀ s, (s, c) ∈ partition.assignments → c = cell := by
    intro c hc s hs
    by_contra hne
    exact hc (List.mem_filter.mpr ⟨Partition.mem_cellIds.mpr ⟨s, hs⟩, by simpa using hne⟩)
  have hassign : ∀ (d : List (S × C)) (states : List S) (c : C),
      d.map Prod.fst = partition.assignments.map Prod.fst →
      (∀ s ∈ states, s ∈ falseStates ∨ s ∈ trueStates) →
      states.foldl (fun d s => Dict.assign s c d) d =
        d.map fun e => if e.1 ∈ states then (e.1, c) else e := by
    intro d states c hd hstates
    refine Dict.foldl_assign_of_mem (by rw [hd]; exact partition.nodup) fun s hs => ?_
    rw [hd]
    exact hkey s (hstates s hs)
  have hfst : (partition.assignments.map fun e =>
      if e.1 ∈ falseStates then (e.1, falseCell) else e).map Prod.fst =
        partition.assignments.map Prod.fst := by
    rw [List.map_map]
    exact List.map_congr_left fun e _ => by simp only [Function.comp_apply]; split <;> rfl
  dsimp only at h
  rw [hassign _ _ _ rfl fun s hs => .inl hs, hassign _ _ _ hfst fun s hs => .inr hs,
    List.map_map] at h
  refine ⟨?_, hmembers, hdisjoint, hne.1, hne.2, hcells, hfreshOf _ hfresh.1, hfreshOf _ hfresh.2⟩
  refine (Partition.fromMapping_eq_ok h).trans (List.Perm.of_eq (List.map_congr_left fun e _ => ?_))
  by_cases hf : e.1 ∈ falseStates
  · simp [relabel, hf, hdisjoint _ hf]
  · simp [relabel, hf]

omit [DecidableEq C] [PyRepr S] [PyRepr C] in
theorem relabel_fst (e : S × C) :
    (relabel falseStates trueStates falseCell trueCell e).1 = e.1 := by
  unfold relabel
  split
  · rfl
  · split <;> rfl

omit [DecidableEq C] [PyRepr S] [PyRepr C] in
theorem Replaced.mem_iff
    (h : Replaced partition refined cell falseStates trueStates falseCell trueCell) {s : S}
    {c : C} : (s, c) ∈ refined.assignments ↔ (s ∈ trueStates ∧ c = trueCell) ∨
      (s ∈ falseStates ∧ c = falseCell) ∨ ((s, c) ∈ partition.assignments ∧ c ≠ cell) := by
  rw [h.assignments.mem_iff, List.mem_map]
  have hunique : ∀ c c', (s, c) ∈ partition.assignments → (s, c') ∈ partition.assignments →
      c = c' := by
    intro c c' hc hc'
    have := (Dict.lookup_eq_some partition.nodup hc).symm.trans
      (Dict.lookup_eq_some partition.nodup hc')
    exact Option.some.inj this
  constructor
  · rintro ⟨⟨s', c'⟩, hmem, heq⟩
    obtain rfl : s' = s := (relabel_fst (s', c')).symm.trans (congrArg Prod.fst heq)
    unfold relabel at heq
    split at heq
    · rename_i ht
      exact .inl ⟨ht, (congrArg Prod.snd heq).symm⟩
    · rename_i ht
      split at heq
      · rename_i hf
        exact .inr (.inl ⟨hf, (congrArg Prod.snd heq).symm⟩)
      · rename_i hf
        cases heq
        refine .inr (.inr ⟨hmem, ?_⟩)
        rintro rfl
        exact ((h.members s').mpr hmem).elim hf ht
  · rintro (⟨ht, rfl⟩ | ⟨hf, rfl⟩ | ⟨hmem, hne⟩)
    · exact ⟨(s, cell), (h.members s).mp (.inr ht), by simp [relabel, ht]⟩
    · exact ⟨(s, cell), (h.members s).mp (.inl hf), by simp [relabel, hf, h.disjoint s hf]⟩
    · refine ⟨(s, c), hmem, ?_⟩
      have hout : ¬ (s ∈ falseStates ∨ s ∈ trueStates) := fun hin =>
        hne (hunique _ _ hmem ((h.members s).mp hin))
      rw [not_or] at hout
      simp [relabel, hout.1, hout.2]

omit [PyRepr S] [PyRepr C] in
/-- The cell that a state had before the split. -/
theorem Replaced.origin
    (h : Replaced partition refined cell falseStates trueStates falseCell trueCell) {s : S} {c : C}
    (hs : (s, c) ∈ refined.assignments) :
    (s, if c = falseCell ∨ c = trueCell then cell else c) ∈ partition.assignments := by
  rcases h.mem_iff.mp hs with ⟨hs, rfl⟩ | ⟨hs, rfl⟩ | ⟨hs, hne⟩
  · rw [if_pos (.inr rfl)]
    exact (h.members s).mp (.inr hs)
  · rw [if_pos (.inl rfl)]
    exact (h.members s).mp (.inl hs)
  · rw [if_neg]
    · exact hs
    · rintro (rfl | rfl)
      · exact hne (h.falseCell_fresh s hs)
      · exact hne (h.trueCell_fresh s hs)

omit [PyRepr S] [PyRepr C] in
theorem Replaced.cells
    (h : Replaced partition refined cell falseStates trueStates falseCell trueCell) :
    (refined.assignments.map Prod.snd).toFinset = insert trueCell
      (insert falseCell ((partition.assignments.map Prod.snd).toFinset.erase cell)) := by
  ext c
  simp only [Finset.mem_insert, Finset.mem_erase, List.mem_toFinset, List.mem_map]
  constructor
  · rintro ⟨⟨s, c⟩, hs, rfl⟩
    rcases h.mem_iff.mp hs with ⟨-, hc⟩ | ⟨-, hc⟩ | ⟨hs, hne⟩
    · exact .inl hc
    · exact .inr (.inl hc)
    · exact .inr (.inr ⟨hne, (s, c), hs, rfl⟩)
  · rintro (rfl | rfl | ⟨hne, ⟨s, c⟩, hs, rfl⟩)
    · obtain ⟨s, hs⟩ := List.exists_mem_of_ne_nil _ h.trueStates_ne
      exact ⟨(s, c), h.mem_iff.mpr (.inl ⟨hs, rfl⟩), rfl⟩
    · obtain ⟨s, hs⟩ := List.exists_mem_of_ne_nil _ h.falseStates_ne
      exact ⟨(s, c), h.mem_iff.mpr (.inr (.inl ⟨hs, rfl⟩)), rfl⟩
    · exact ⟨(s, c), h.mem_iff.mpr (.inr (.inr ⟨hs, hne⟩)), rfl⟩

omit [PyRepr S] in
theorem Replaced.isSplit
    (h : Replaced partition refined cell falseStates trueStates falseCell trueCell) :
    IsSplit refined partition := by
  refine ⟨?_, ?_, ?_⟩
  · have hperm := h.assignments.map Prod.fst
    rw [List.map_map] at hperm
    refine hperm.trans (List.Perm.of_eq (List.map_congr_left fun e _ => ?_))
    exact relabel_fst e
  · intro s t c hs ht
    exact ⟨_, h.origin hs, h.origin ht⟩
  · rw [Partition.length_cellIds_eq_card, Partition.length_cellIds_eq_card]
    obtain ⟨s, hs⟩ := List.exists_mem_of_ne_nil _ h.trueStates_ne
    have hcell : cell ∈ (partition.assignments.map Prod.snd).toFinset :=
      List.mem_toFinset.mpr (List.mem_map.mpr ⟨_, (h.members s).mp (.inr hs), rfl⟩)
    have hfalse : falseCell ∉ (partition.assignments.map Prod.snd).toFinset.erase cell := by
      intro hmem
      obtain ⟨hne, hmem⟩ := Finset.mem_erase.mp hmem
      obtain ⟨⟨s, c⟩, he, rfl⟩ := List.mem_map.mp (List.mem_toFinset.mp hmem)
      exact hne (h.falseCell_fresh s he)
    have htrue : trueCell ∉
        insert falseCell ((partition.assignments.map Prod.snd).toFinset.erase cell) := by
      intro hmem
      rcases Finset.mem_insert.mp hmem with heq | hmem
      · exact h.cells_ne heq.symm
      · obtain ⟨hne, hmem⟩ := Finset.mem_erase.mp hmem
        obtain ⟨⟨s, c⟩, he, rfl⟩ := List.mem_map.mp (List.mem_toFinset.mp hmem)
        exact hne (h.trueCell_fresh s he)
    rw [h.cells, Finset.card_insert_of_notMem htrue, Finset.card_insert_of_notMem hfalse,
      Finset.card_erase_add_one hcell]

end Replace

/-! ## What one call can do -/

structure WithinBudget (budget : RefinementBudget) (counters : RefinementCounters) : Prop where
  leaves : counters.leaves ≤ budget.maxLeaves
  acceptedSplits : counters.acceptedSplits ≤ budget.maxAcceptedSplits
  rateBits : counters.rateBits ≤ budget.rateBudgetBits
  candidateEvaluations : counters.candidateEvaluations ≤ budget.maxCandidateEvaluations
  fallbackInvocations : counters.fallbackInvocations ≤ budget.maxFallbackInvocations

/-- A call keeps the partition and charges at most its evaluations and fallbacks. -/
structure Keeps (partition : Partition S C) (counters : RefinementCounters)
    (result : CEGARResult S C) : Prop where
  partition_eq : result.partition = partition
  leaves_eq : result.counters.leaves = counters.leaves
  acceptedSplits_eq : result.counters.acceptedSplits = counters.acceptedSplits
  rateBits_eq : result.counters.rateBits = counters.rateBits

/-- A call accepts one split. -/
structure Accepts (partition : Partition S C) (counters : RefinementCounters)
    (result : CEGARResult S C) : Prop where
  isSplit : IsSplit result.partition partition
  leaves_eq : result.counters.leaves = counters.leaves + 1
  acceptedSplits_eq : result.counters.acceptedSplits = counters.acceptedSplits + 1

/-- Everything a call can do, told apart by its status. -/
structure Effect (budget : RefinementBudget) (partition : Partition S C)
    (counters : RefinementCounters) (result : CEGARResult S C) : Prop where
  within : WithinBudget budget result.counters
  accepts : result.status = .splitAccepted → Accepts partition counters result
  keeps : result.status ≠ .splitAccepted → Keeps partition counters result

variable {ofString : String → C} {partition : Partition S C} {cell : C} {budget : RefinementBudget}
  {counters : RefinementCounters}

theorem attemptSplit_spec {predicate : Predicate S} {tracker tracker' : RefinementTracker C}
    {result : SplitResult S C}
    (h : attemptSplit ofString partition cell predicate tracker = (.ok result, tracker'))
    (haccepted : result.accepted = true) : IsSplit result.partition partition := by
  unfold attemptSplit at h
  dsimp only at h
  split at h
  · cases h
    cases haccepted
  · split at h
    · cases h
    · split at h
      · cases h
        cases haccepted
      · split at h
        · cases h
          cases haccepted
        · split at h
          · cases h
          · rename_i refined hrefined
            cases h
            exact (replaceCell_eq_ok hrefined).isSplit

theorem attemptCandidates_spec {width : ℚ} {candidates : List (RankedSplitCandidate S)}
    {attempts : Attempts} {tracker tracker' : RefinementTracker C} {result : CEGARResult S C}
    (hbudget : WithinBudget budget counters) (hleaves : counters.leaves < budget.maxLeaves)
    (hsplits : counters.acceptedSplits < budget.maxAcceptedSplits)
    (hattempts : attempts.evaluations ≤ budget.maxCandidateEvaluations)
    (h : attemptCandidates ofString partition cell budget counters width attempts tracker
      candidates = (.ok result, tracker')) : Effect budget partition counters result := by
  have hkept : ∀ evaluations ≤ budget.maxCandidateEvaluations, ∀ status split considered detail,
      status ≠ CEGARStatus.splitAccepted →
      Effect budget partition counters ⟨status, partition,
        { counters with candidateEvaluations := evaluations }, split, considered, detail⟩ :=
    fun evaluations hle _ _ _ _ hstatus =>
      ⟨⟨hbudget.leaves, hbudget.acceptedSplits, hbudget.rateBits, hle,
        hbudget.fallbackInvocations⟩, fun heq => absurd heq hstatus,
        fun _ => ⟨rfl, rfl, rfl, rfl⟩⟩
  induction candidates generalizing attempts tracker with
  | nil =>
    cases h
    refine hkept _ hattempts _ _ _ _ ?_
    split <;> simp
  | cons candidate rest ih =>
    rw [attemptCandidates] at h
    dsimp only at h
    split at h
    · cases h
      exact hkept _ hattempts _ _ _ _ (by simp)
    · rename_i hroom
      rw [not_le] at hroom
      split at h
      · exact ih (by exact hroom) h
      · split at h
        · exact ih (by exact hroom) h
        · rename_i hrate
          split at h
          · cases h
          · rename_i split' next hsplit
            split at h
            · exact ih (by exact hroom) h
            · rename_i haccepted
              rw [Bool.not_eq_true, Bool.not_eq_false] at haccepted
              cases h
              refine ⟨⟨hleaves, hsplits, not_lt.mp hrate, hroom, hbudget.fallbackInvocations⟩,
                fun _ => ⟨attemptSplit_spec hsplit haccepted, rfl, rfl⟩, fun hne => absurd rfl hne⟩

theorem refineOnce_spec {arguments : RefineArguments S C} {tracker : RefinementTracker C}
    {result : CEGARResult S C} (hbudget : WithinBudget budget counters)
    (h : (refineOnce ofString partition arguments tracker budget counters).1 = .ok result) :
    Effect budget partition counters result := by
  have hkept : ∀ status split considered detail, status ≠ CEGARStatus.splitAccepted →
      Effect budget partition counters ⟨status, partition, counters, split, considered, detail⟩ :=
    fun _ _ _ _ hstatus => ⟨hbudget, fun heq => absurd heq hstatus,
      fun _ => ⟨rfl, rfl, rfl, rfl⟩⟩
  unfold refineOnce at h
  split at h
  · cases h
    exact hkept _ _ _ _ (by simp)
  · split at h
    · cases h
      exact hkept _ _ _ _ (by simp)
    · split at h
      · cases h
        exact hkept _ _ _ _ (by simp)
      · rename_i hroom
        rw [not_or, not_le, not_le] at hroom
        split at h
        · cases h
        · split at h
          · cases h
          · cases h
            exact hkept _ _ _ _ (by simp)
          · exact attemptCandidates_spec hbudget hroom.1 hroom.2 hbudget.candidateEvaluations
              (Prod.ext h rfl)

omit [DecidableEq S] [PyRepr S] in
theorem recordGroundFallback_spec (partition : Partition S C)
    (hbudget : WithinBudget budget counters) :
    Effect budget partition counters (recordGroundFallback partition budget counters) ∧
      (recordGroundFallback partition budget counters).status ≠ .splitAccepted := by
  unfold recordGroundFallback
  split
  · exact ⟨⟨hbudget, fun heq => (by cases heq), fun _ => ⟨rfl, rfl, rfl, rfl⟩⟩, by simp⟩
  · rename_i hroom
    exact ⟨⟨⟨hbudget.leaves, hbudget.acceptedSplits, hbudget.rateBits,
      hbudget.candidateEvaluations, not_le.mp hroom⟩, fun heq => (by cases heq),
      fun _ => ⟨rfl, rfl, rfl, rfl⟩⟩, by simp⟩

/-! ## Runs -/

/-- A call, with the tracker that it is given. -/
inductive Call (S C : Type) where
  | refine (arguments : RefineArguments S C) (tracker : RefinementTracker C)
  | fallback

/-- What a run threads through its calls, and how many splits it has accepted. -/
structure RunState (S C : Type) where
  partition : Partition S C
  counters : RefinementCounters
  accepted : ℕ

def Call.result (ofString : String → C) (budget : RefinementBudget) (s : RunState S C) :
    Call S C → Except PyError (CEGARResult S C)
  | .refine arguments tracker =>
    (refineOnce ofString s.partition arguments tracker budget s.counters).1
  | .fallback => .ok (recordGroundFallback s.partition budget s.counters)

/-- A run goes on with the partition and the counters of each result. -/
def RunState.call (ofString : String → C) (budget : RefinementBudget) (s : RunState S C)
    (call : Call S C) : RunState S C :=
  match call.result ofString budget s with
  | .error _ => s
  | .ok result => ⟨result.partition, result.counters,
      s.accepted + if result.status = .splitAccepted then 1 else 0⟩

def run (ofString : String → C) (budget : RefinementBudget) (start : RunState S C)
    (calls : List (Call S C)) : RunState S C :=
  calls.foldl (RunState.call ofString budget) start

def AcceptsSplit (ofString : String → C) (budget : RefinementBudget) (s : RunState S C)
    (call : Call S C) : Prop :=
  ∃ result, call.result ofString budget s = .ok result ∧ result.status = .splitAccepted

/-- What holds in every state of a run. -/
structure Sound (budget : RefinementBudget) (start s : RunState S C) : Prop where
  within : WithinBudget budget s.counters
  leaves_eq : s.counters.leaves = s.partition.cellIds.length
  acceptedSplits_eq : s.counters.acceptedSplits + start.accepted =
    start.counters.acceptedSplits + s.accepted
  states : s.partition.states.Perm start.partition.states
  refines : Refines s.partition start.partition

theorem result_spec {s : RunState S C} {call : Call S C} {result : CEGARResult S C}
    (hbudget : WithinBudget budget s.counters)
    (h : call.result ofString budget s = .ok result) :
    Effect budget s.partition s.counters result := by
  cases call with
  | refine arguments tracker => exact refineOnce_spec hbudget h
  | fallback =>
    cases h
    exact (recordGroundFallback_spec s.partition hbudget).1

theorem Sound.call {start s : RunState S C} (h : Sound budget start s) (call : Call S C) :
    Sound budget start (s.call ofString budget call) := by
  unfold RunState.call
  cases hresult : call.result ofString budget s with
  | error e => exact h
  | ok result =>
    obtain ⟨hwithin, haccepts, hkeeps⟩ := result_spec h.within hresult
    dsimp only
    by_cases hstatus : result.status = .splitAccepted
    · obtain ⟨hsplit, hleaves, hsplits⟩ := haccepts hstatus
      rw [if_pos hstatus]
      refine ⟨hwithin, ?_, ?_, hsplit.states.trans h.states, hsplit.refines.trans h.refines⟩
      · rw [hleaves, hsplit.length_cellIds, h.leaves_eq]
      · have := h.acceptedSplits_eq
        dsimp only
        omega
    · obtain ⟨hpartition, hleaves, hsplits, -⟩ := hkeeps hstatus
      rw [if_neg hstatus]
      refine ⟨hwithin, ?_, ?_, ?_, ?_⟩
      · rw [hleaves, hpartition, h.leaves_eq]
      · rw [hsplits]
        exact h.acceptedSplits_eq
      · rw [hpartition]
        exact h.states
      · rw [hpartition]
        exact h.refines

theorem Sound.run {start s : RunState S C} (h : Sound budget start s) (calls : List (Call S C)) :
    Sound budget start (run ofString budget s calls) := by
  induction calls generalizing s with
  | nil => exact h
  | cons call calls ih => exact ih (h.call call)

/-- In every state of a run that starts within its budgets with as many leaves as cells: the
counters are within their budgets, the leaf counter counts the cells, the accepted splits have been
counted, and the partition refines the first one on the same states. A call that does not accept a
split keeps the partition, the leaves, the accepted splits and the rate. -/
theorem run_invariants (ofString : String → C) (budget : RefinementBudget)
    (partition : Partition S C) (counters : RefinementCounters)
    (hbudget : WithinBudget budget counters)
    (hleaves : counters.leaves = partition.cellIds.length) (calls : List (Call S C)) :
    let s := run ofString budget ⟨partition, counters, 0⟩ calls
    WithinBudget budget s.counters ∧ s.counters.leaves = s.partition.cellIds.length ∧
      s.counters.acceptedSplits = counters.acceptedSplits + s.accepted ∧
      s.partition.states.Perm partition.states ∧ Refines s.partition partition ∧
      ∀ call, ¬ AcceptsSplit ofString budget s call →
        let next := s.call ofString budget call
        next.partition = s.partition ∧ next.counters.leaves = s.counters.leaves ∧
          next.counters.acceptedSplits = s.counters.acceptedSplits ∧
          next.counters.rateBits = s.counters.rateBits := by
  have hstart : Sound budget ⟨partition, counters, 0⟩ ⟨partition, counters, 0⟩ :=
    ⟨hbudget, hleaves, rfl, .refl _, .refl _⟩
  intro s
  have hsound : Sound budget ⟨partition, counters, 0⟩ s := hstart.run calls
  refine ⟨hsound.within, hsound.leaves_eq, hsound.acceptedSplits_eq, hsound.states,
    hsound.refines, fun call hcall => ?_⟩
  unfold RunState.call
  cases hresult : call.result ofString budget s with
  | error e => exact ⟨rfl, rfl, rfl, rfl⟩
  | ok result =>
    have hstatus : result.status ≠ .splitAccepted := fun heq => hcall ⟨result, hresult, heq⟩
    obtain ⟨hpartition, hleaves, hsplits, hrate⟩ :=
      (result_spec hsound.within hresult).keeps hstatus
    exact ⟨hpartition, hleaves, hsplits, hrate⟩

/-- Two states in one cell. -/
def samplePair : Partition ℕ ℕ := ⟨[(0, 0), (1, 0)], by decide, by decide⟩

def sampleBudget : RefinementBudget := ⟨2, 1, 1, 2, 1, by decide, by decide⟩

/-- A candidate that splits the cell, a fallback, and the same candidate again. -/
def sampleCalls : List (Call ℕ ℕ) :=
  let candidate : RankedSplitCandidate ℕ :=
    ⟨⟨"n", .le, 0, fun n => .ok n, by decide⟩, 1, 1, 0, 1, by decide⟩
  [.refine ⟨0, [candidate], 1, some (0, 1), false, true⟩ ⟨[], []⟩, .fallback,
    .refine ⟨0, [candidate], 1, none, false, true⟩ ⟨[], []⟩]

theorem run_invariants_sample :
    let s := run String.length sampleBudget ⟨samplePair, ⟨1, 0, 0, 0, 0⟩, 0⟩ sampleCalls
    s.accepted = 1 ∧ WithinBudget sampleBudget s.counters ∧
      s.counters.leaves = s.partition.cellIds.length ∧
      s.counters.acceptedSplits = 0 + s.accepted ∧ Refines s.partition samplePair := by
  have hrun := run_invariants String.length sampleBudget samplePair ⟨1, 0, 0, 0, 0⟩
    ⟨by decide, by decide, by decide, by decide, by decide⟩ (by decide +kernel) sampleCalls
  obtain ⟨hwithin, hleaves, hsplits, -, hrefines, -⟩ := hrun
  exact ⟨by decide +kernel, hwithin, hleaves, hsplits, hrefines⟩

end Acfqp.Refinement
