import Acfqp.Core
import Acfqp.Library.Dict

/-!
# Hard partitions of finite state sets
-/

namespace Acfqp.Abstraction

open Library

variable {S C : Type}

/-- A total, hard assignment from each registered state to one cell. -/
structure Partition (S C : Type) where
  assignments : List (S × C)
  nodup : (assignments.map Prod.fst).Nodup
  nonempty : assignments ≠ []

namespace Partition

/-- The checks of `Partition.__post_init__`. -/
def make [DecidableEq S] [PyRepr S] (assignments : List (S × C)) :
    Except PyError (Partition S C) :=
  if hn : (assignments.map Prod.fst).Nodup then
    if he : assignments ≠ [] then .ok ⟨assignments, hn, he⟩
    else .error (.valueError "partition must contain at least one state")
  else .error (.valueError ("state " ++
    ((repeated? [] (assignments.map Prod.fst)).map pyRepr).getD "" ++
      " appears more than once in partition"))

def cellIds [DecidableEq C] [PyRepr C] (partition : Partition S C) : List C :=
  deterministicOrder (partition.assignments.map Prod.snd).dedup

def states (partition : Partition S C) : List S := partition.assignments.map Prod.fst

def cellOf [DecidableEq S] [PyRepr S] (partition : Partition S C) (state : S) : Except PyError C :=
  orRaise (partition.assignments.lookup state)
    (.keyError s!"state {pyRepr state} is not registered in partition")

def members [DecidableEq C] [PyRepr C] (partition : Partition S C) (cell : C) :
    Except PyError (List S) := do
  let states := (partition.assignments.filter fun a => a.2 = cell).map Prod.fst
  require (states ≠ []) (.keyError s!"unknown or empty cell {pyRepr cell}")
  return states

def fromMapping [DecidableEq S] [PyRepr S] (mapping : List (S × C)) :
    Except PyError (Partition S C) :=
  make (sortBy (fun item => pyRepr item.1) mapping)

/-- The blocks of the partition, without the names of the cells. -/
def signature [DecidableEq C] [PyRepr S] [PyRepr C] (partition : Partition S C) :
    Except PyError (List (List String)) := do
  let blocks ← partition.cellIds.mapM fun cell => do
    return sortBy id ((← partition.members cell).map pyRepr)
  return sortBy id blocks

def replaceCell [DecidableEq S] [DecidableEq C] [PyRepr S] [PyRepr C] (partition : Partition S C)
    (cell : C) (falseStates trueStates : List S) (falseCell trueCell : C) :
    Except PyError (Partition S C) := do
  let expected ← partition.members cell
  require (falseStates ≠ [] ∧ trueStates ≠ [])
    (.valueError "a hard split must create two non-empty children")
  require (∀ state ∈ falseStates, state ∉ trueStates) (.valueError "split children overlap")
  require ((∀ state ∈ falseStates ++ trueStates, state ∈ expected) ∧
      ∀ state ∈ expected, state ∈ falseStates ++ trueStates)
    (.valueError "split children do not exactly cover the parent cell")
  require (falseCell ≠ trueCell) (.valueError "split children require distinct identifiers")
  let unaffectedCells := partition.cellIds.filter (· ≠ cell)
  require (falseCell ∉ unaffectedCells ∧ trueCell ∉ unaffectedCells)
    (.valueError "split child identifier collides with an existing cell")
  let mapping := falseStates.foldl (fun mapping state => Dict.assign state falseCell mapping)
    partition.assignments
  fromMapping (trueStates.foldl (fun mapping state => Dict.assign state trueCell mapping) mapping)

theorem cellOf_eq_ok [DecidableEq S] [PyRepr S] {partition : Partition S C} {state : S} {cell : C} :
    partition.cellOf state = .ok cell ↔ (state, cell) ∈ partition.assignments := by
  rw [cellOf, orRaise_eq_ok]
  exact ⟨Dict.lookup_mem, Dict.lookup_eq_some partition.nodup⟩

/-- The members of a cell are the states that the partition sends to it. -/
theorem mem_of_members [DecidableEq C] [PyRepr C] {partition : Partition S C} {cell : C}
    {states : List S} (h : partition.members cell = .ok states) {state : S} :
    state ∈ states ↔ (state, cell) ∈ partition.assignments := by
  obtain ⟨_, -, h⟩ := bind_eq_ok.mp h
  rw [← pure_eq_ok.mp h]
  simp

theorem mem_states [DecidableEq S] [PyRepr S] {partition : Partition S C} {state : S} :
    state ∈ partition.states ↔ ∃ cell, partition.cellOf state = .ok cell := by
  simp [states, cellOf_eq_ok]

theorem mem_cellIds [DecidableEq C] [PyRepr C] {partition : Partition S C} {cell : C} :
    cell ∈ partition.cellIds ↔ ∃ state, (state, cell) ∈ partition.assignments := by
  simp [cellIds, deterministicOrder]

theorem length_cellIds_eq_card [DecidableEq C] [PyRepr C] (partition : Partition S C) :
    partition.cellIds.length = (partition.assignments.map Prod.snd).toFinset.card := by
  rw [Partition.cellIds, deterministicOrder, length_sortBy, List.card_toFinset]

theorem fromMapping_eq_ok [DecidableEq S] [PyRepr S] {mapping : List (S × C)}
    {partition : Partition S C} (h : Partition.fromMapping mapping = .ok partition) :
    partition.assignments.Perm mapping := by
  unfold Partition.fromMapping Partition.make at h
  split at h
  · split at h
    · cases h
      exact perm_sortBy _ mapping
    · cases h
  · cases h

theorem length_signature [DecidableEq C] [PyRepr S] [PyRepr C] {partition : Partition S C}
    {blocks : List (List String)} (h : partition.signature = .ok blocks) :
    blocks.length = partition.cellIds.length := by
  obtain ⟨rows, hrows, h⟩ := bind_eq_ok.mp h
  rw [← pure_eq_ok.mp h, length_sortBy]
  exact (mapM_eq_ok.mp hrows).length_eq.symm

end Partition

/-! ## Refinement -/

/-- States that share a cell of `fine` share a cell of `coarse`. -/
def Refines (fine coarse : Partition S C) : Prop :=
  ∀ s t cell, (s, cell) ∈ fine.assignments → (t, cell) ∈ fine.assignments →
    ∃ cell', (s, cell') ∈ coarse.assignments ∧ (t, cell') ∈ coarse.assignments

theorem Refines.refl (partition : Partition S C) : Refines partition partition :=
  fun _ _ cell hs ht => ⟨cell, hs, ht⟩

theorem Refines.trans {fine middle coarse : Partition S C} (h : Refines fine middle)
    (h' : Refines middle coarse) : Refines fine coarse := by
  intro s t cell hs ht
  obtain ⟨cell', hs', ht'⟩ := h s t cell hs ht
  exact h' s t cell' hs' ht'

theorem Partition.cell_unique {partition : Partition S C} {s : S} {c c' : C}
    (h : (s, c) ∈ partition.assignments) (h' : (s, c') ∈ partition.assignments) : c = c' :=
  congrArg Prod.snd (List.inj_on_of_nodup_map partition.nodup h h' rfl)

/-- A finer cell lies in one coarser cell. -/
theorem Refines.exists_map {fine coarse : Partition S C} (h : Refines fine coarse) :
    ∃ f : C → C, ∀ s d, (s, d) ∈ fine.assignments → (s, f d) ∈ coarse.assignments := by
  have hcoarse : ∀ d, ∃ c, ∀ s, (s, d) ∈ fine.assignments → (s, c) ∈ coarse.assignments := by
    intro d
    by_cases hd : ∃ s, (s, d) ∈ fine.assignments
    · obtain ⟨s, hs⟩ := hd
      obtain ⟨c, hc, -⟩ := h s s d hs hs
      refine ⟨c, fun t ht => ?_⟩
      obtain ⟨c', hs', ht'⟩ := h s t d hs ht
      exact Partition.cell_unique hs' hc ▸ ht'
    · obtain ⟨e, -⟩ := List.exists_mem_of_ne_nil _ coarse.nonempty
      exact ⟨e.2, fun s hs => absurd ⟨s, hs⟩ hd⟩
  choose f hf using hcoarse
  exact ⟨f, fun s d => hf d s⟩

/-- A partition that refines one with no fewer cells has the same blocks. -/
theorem Refines.symm_of_length [DecidableEq C] [PyRepr C] {fine coarse : Partition S C}
    (h : Refines fine coarse) (hstates : ∀ s ∈ coarse.states, s ∈ fine.states)
    (hlength : fine.cellIds.length ≤ coarse.cellIds.length) : Refines coarse fine := by
  obtain ⟨f, hf⟩ := h.exists_map
  have himage : (fine.assignments.map Prod.snd).toFinset.image f =
      (coarse.assignments.map Prod.snd).toFinset := by
    ext c
    simp only [Finset.mem_image, List.mem_toFinset, List.mem_map]
    constructor
    · rintro ⟨_, ⟨e, he, rfl⟩, rfl⟩
      exact ⟨_, hf e.1 e.2 he, rfl⟩
    · rintro ⟨e, he, rfl⟩
      obtain ⟨x, hx, hxe⟩ := List.mem_map.mp (hstates e.1 (List.mem_map_of_mem he))
      exact ⟨x.2, ⟨x, hx, rfl⟩, Partition.cell_unique (hf x.1 x.2 hx) (hxe ▸ he)⟩
  have hinj : Set.InjOn f ((fine.assignments.map Prod.snd).toFinset : Set C) := by
    apply Finset.card_image_iff.mp
    apply le_antisymm Finset.card_image_le
    rw [himage, ← Partition.length_cellIds_eq_card, ← Partition.length_cellIds_eq_card]
    exact hlength
  intro s t c hs ht
  obtain ⟨x, hx, rfl⟩ := List.mem_map.mp (hstates s (List.mem_map_of_mem hs))
  obtain ⟨y, hy, rfl⟩ := List.mem_map.mp (hstates t (List.mem_map_of_mem ht))
  have hcell : ∀ e ∈ fine.assignments, e.2 ∈ (fine.assignments.map Prod.snd).toFinset :=
    fun e he => List.mem_toFinset.mpr (List.mem_map_of_mem he)
  have heq : x.2 = y.2 := by
    apply hinj (hcell x hx) (hcell y hy)
    exact (Partition.cell_unique (hf x.1 x.2 hx) hs).trans
      (Partition.cell_unique ht (hf y.1 y.2 hy))
  exact ⟨x.2, hx, heq ▸ hy⟩

end Acfqp.Abstraction
