import Acfqp.Library.Loops
import Acfqp.Refinement.Invariants

/-!
# What a split attempt leaves behind

An attempt that is not accepted gives back the partition and the tracker it was given, unless the
name of a child is already taken. The children are then refused after the tracker has noted them.
-/

namespace Acfqp.Refinement

open Library Abstraction

variable {S C : Type} [DecidableEq S] [DecidableEq C] [PyRepr S] [PyRepr C]

/-! ## Dividing a cell -/

section

variable {partition : Partition S C} {cell : C} {predicate : Predicate S}
  {falseStates trueStates : List S}

omit [DecidableEq S] [PyRepr S] in
theorem splitMembers_eq_ok (h : splitMembers partition cell predicate =
    .ok (falseStates, trueStates)) :
    (∃ states, partition.members cell = .ok states) ∧
      (∀ s, s ∈ falseStates ↔ (s, cell) ∈ partition.assignments ∧ predicate.holds s = .ok false) ∧
      (∀ s, s ∈ trueStates ↔ (s, cell) ∈ partition.assignments ∧ predicate.holds s = .ok true) ∧
      ∀ s, (s, cell) ∈ partition.assignments → s ∈ falseStates ∨ s ∈ trueStates := by
  obtain ⟨states, hstates, h⟩ := bind_eq_ok.mp h
  obtain ⟨trues, htrues, h⟩ := bind_eq_ok.mp h
  obtain ⟨falses, hfalses, h⟩ := bind_eq_ok.mp h
  cases pure_eq_ok.mp h
  have hmembers : ∀ s, s ∈ states ↔ (s, cell) ∈ partition.assignments :=
    fun s => Partition.mem_of_members hstates
  have hfalse : ∀ s, s ∈ falseStates ↔
      (s, cell) ∈ partition.assignments ∧ predicate.holds s = .ok false := by
    intro s
    rw [mem_filterM hfalses, hmembers, map_eq_ok]
    simp
  have htrue : ∀ s, s ∈ trueStates ↔
      (s, cell) ∈ partition.assignments ∧ predicate.holds s = .ok true := by
    intro s
    rw [mem_filterM htrues, hmembers]
  refine ⟨⟨states, hstates⟩, hfalse, htrue, fun s hs => ?_⟩
  obtain ⟨holds, hholds⟩ := exists_of_filterM htrues ((hmembers s).mpr hs)
  cases holds
  · exact .inl ((hfalse s).mpr ⟨hs, hholds⟩)
  · exact .inr ((htrue s).mpr ⟨hs, hholds⟩)

end

section Naming

variable (ofString : String → C) (partition : Partition S C) (cell : C) (predicate : Predicate S)

def falseName : C := ofString s!"{pyRepr cell}|{predicate.canonicalId}|false"

def trueName : C := ofString s!"{pyRepr cell}|{predicate.canonicalId}|true"

/-- Another cell has the name of a child. -/
def NameTaken : Prop :=
  ∃ child ∈ [falseName ofString cell predicate, trueName ofString cell predicate],
    child ∈ partition.cellIds ∧ child ≠ cell

variable {ofString partition cell predicate} {falseStates trueStates : List S}

omit [DecidableEq S] [DecidableEq C] [PyRepr S] in
theorem falseName_ne_trueName (hstring : Function.Injective ofString) :
    falseName ofString cell predicate ≠ trueName ofString cell predicate := by
  intro heq
  have hlength := congrArg String.length (hstring heq)
  simp only [String.length_append] at hlength
  exact absurd (Nat.add_left_cancel hlength) (by decide)

omit [PyRepr S] [PyRepr C] [DecidableEq C] in
theorem keys_foldl_assign {states : List S} {d : List (S × C)} (child : C)
    (h : ∀ s ∈ states, s ∈ d.map Prod.fst) :
    (states.foldl (fun d s => Dict.assign s child d) d).map Prod.fst = d.map Prod.fst := by
  induction states generalizing d with
  | nil => rfl
  | cons s states ih =>
    have hkeys : (Dict.assign s child d).map Prod.fst = d.map Prod.fst := by
      rw [Dict.keys_assign, if_pos (h s (by simp))]
    rw [List.foldl_cons, ih fun t ht => by rw [hkeys]; exact h t (by simp [ht]), hkeys]

omit [PyRepr C] [DecidableEq C] in
/-- A mapping of the states of a partition is a partition. -/
theorem fromMapping_returns {mapping : List (S × C)}
    (h : mapping.map Prod.fst = partition.assignments.map Prod.fst) :
    ∃ refined, Partition.fromMapping mapping = .ok refined := by
  have hperm := (perm_sortBy (fun item : S × C => pyRepr item.1) mapping).map Prod.fst
  have hnodup := hperm.nodup_iff.mpr (h ▸ partition.nodup)
  have hne : sortBy (fun item : S × C => pyRepr item.1) mapping ≠ [] := by
    intro hnil
    have hlength := congrArg List.length h
    have := congrArg List.length hnil
    rw [length_sortBy] at this
    simp [this] at hlength
    exact partition.nonempty (by simpa using hlength.symm)
  exact ⟨⟨_, hnodup, hne⟩, by rw [Partition.fromMapping, Partition.make, dif_pos hnodup,
    dif_pos hne]⟩

theorem replaceCell_isOk_iff (hstring : Function.Injective ofString)
    (hmembers : splitMembers partition cell predicate = .ok (falseStates, trueStates))
    (hfalse : falseStates ≠ []) (htrue : trueStates ≠ []) :
    (∃ refined, partition.replaceCell cell falseStates trueStates
      (falseName ofString cell predicate) (trueName ofString cell predicate) =
        .ok refined) ↔ ¬ NameTaken ofString partition cell predicate := by
  obtain ⟨⟨states, hstates⟩, hfalses, htrues, hall⟩ := splitMembers_eq_ok hmembers
  have hmem : ∀ s, s ∈ states ↔ (s, cell) ∈ partition.assignments :=
    fun s => Partition.mem_of_members hstates
  have hfree : (falseName ofString cell predicate ∉
        partition.cellIds.filter (· ≠ cell) ∧
      trueName ofString cell predicate ∉ partition.cellIds.filter (· ≠ cell)) ↔
      ¬ NameTaken ofString partition cell predicate := by
    simp [NameTaken]
  constructor
  · rintro ⟨refined, h⟩
    have hreplaced := replaceCell_eq_ok h
    rintro ⟨child, hchild, htaken, hne⟩
    obtain ⟨s, hs⟩ := Partition.mem_cellIds.mp htaken
    rcases List.mem_pair.mp hchild with rfl | rfl
    · exact hne (hreplaced.falseCell_fresh s hs)
    · exact hne (hreplaced.trueCell_fresh s hs)
  · intro hfresh
    have hkeys : ∀ s, s ∈ falseStates ∨ s ∈ trueStates → s ∈ partition.states := by
      rintro s (hs | hs)
      · exact List.mem_map.mpr ⟨_, ((hfalses s).mp hs).1, rfl⟩
      · exact List.mem_map.mpr ⟨_, ((htrues s).mp hs).1, rfl⟩
    have hmapping : (trueStates.foldl
        (fun d s => Dict.assign s (trueName ofString cell predicate) d)
        (falseStates.foldl (fun d s => Dict.assign s (falseName ofString cell predicate) d)
          partition.assignments)).map Prod.fst = partition.assignments.map Prod.fst := by
      have hfirst := keys_foldl_assign (falseName ofString cell predicate)
        fun s hs => hkeys s (.inl hs)
      rw [keys_foldl_assign _ fun s hs => hfirst.symm ▸ hkeys s (.inr hs), hfirst]
    obtain ⟨refined, hrefined⟩ := fromMapping_returns hmapping
    refine ⟨refined, bind_eq_ok.mpr ⟨states, hstates, bind_eq_ok.mpr ⟨(), ?_,
      bind_eq_ok.mpr ⟨(), ?_, bind_eq_ok.mpr ⟨(), ?_, bind_eq_ok.mpr ⟨(), ?_,
        bind_eq_ok.mpr ⟨(), ?_, hrefined⟩⟩⟩⟩⟩⟩⟩
    · exact require_eq_ok.mpr ⟨hfalse, htrue⟩
    · refine require_eq_ok.mpr fun s hs hs' => ?_
      have hanswer := ((hfalses s).mp hs).2.symm.trans ((htrues s).mp hs').2
      cases hanswer
    · refine require_eq_ok.mpr ⟨fun s hs => (hmem s).mpr ?_, fun s hs => ?_⟩
      · rcases List.mem_append.mp hs with hs | hs
        · exact ((hfalses s).mp hs).1
        · exact ((htrues s).mp hs).1
      · exact List.mem_append.mpr (hall s ((hmem s).mp hs))
    · exact require_eq_ok.mpr (falseName_ne_trueName hstring)
    · exact require_eq_ok.mpr (hfree.mpr hfresh)

end Naming

section Attempts

variable (ofString : String → C) (partition : Partition S C) (cell : C) (predicate : Predicate S)
  (tracker : RefinementTracker C)

/-- The attempt splits exactly its cell, or leaves everything as it was. -/
def SplitAtomic : Prop :=
  match attemptSplit ofString partition cell predicate tracker with
  | (.error _, after) => after = tracker
  | (.ok result, after) =>
    if result.status = .splitAccepted then
      ∃ falseStates trueStates falseCell trueCell,
        splitMembers partition cell predicate = .ok (falseStates, trueStates) ∧
        result.falseCell = some falseCell ∧ result.trueCell = some trueCell ∧
        Replaced partition result.partition cell falseStates trueStates falseCell trueCell
    else after = tracker ∧ result.partition = partition

/-- The predicate divides the cell in a way that was not tried on its path. -/
def DividesAnew : Prop :=
  predicate.canonicalId ∉ tracker.predicatePath cell ∧
    ∃ falseStates trueStates,
      splitMembers partition cell predicate = .ok (falseStates, trueStates) ∧
      trueStates ≠ [] ∧ falseStates ≠ [] ∧
      childSignature falseStates trueStates ∉
        (tracker.evaluatedChildSignatures.lookup cell).getD []

variable {ofString partition cell predicate tracker}

/-- An attempt leaves nothing behind unless it is accepted, except where it divides the cell anew
and another cell has the name of a child. -/
theorem attemptSplit_atomic_iff (hstring : Function.Injective ofString) :
    SplitAtomic ofString partition cell predicate tracker ↔
      ¬ (DividesAnew partition cell predicate tracker ∧
        NameTaken ofString partition cell predicate) := by
  unfold SplitAtomic DividesAnew attemptSplit
  dsimp only
  by_cases hpath : predicate.canonicalId ∈ tracker.predicatePath cell
  · simp [hpath]
  rw [if_neg hpath]
  cases hmembers : splitMembers partition cell predicate with
  | error e => simp
  | ok children =>
    obtain ⟨falseStates, trueStates⟩ := children
    dsimp only
    by_cases hempty : trueStates = [] ∨ falseStates = []
    · rw [if_pos hempty]
      refine iff_of_true (by simp) ?_
      rintro ⟨⟨-, _, _, heq, htrue, hfalse, -⟩, -⟩
      cases heq
      exact hempty.elim htrue hfalse
    rw [if_neg hempty]
    rw [not_or] at hempty
    by_cases hknown : childSignature falseStates trueStates ∈
        (tracker.evaluatedChildSignatures.lookup cell).getD []
    · rw [if_pos hknown]
      refine iff_of_true (by simp) ?_
      rintro ⟨⟨-, _, _, heq, -, -, hnew⟩, -⟩
      cases heq
      exact hnew hknown
    rw [if_neg hknown]
    have hanew : predicate.canonicalId ∉ tracker.predicatePath cell ∧
        ∃ f t, Except.ok (falseStates, trueStates) = (Except.ok (f, t) : Except PyError _) ∧
          t ≠ [] ∧ f ≠ [] ∧ childSignature f t ∉
            (tracker.evaluatedChildSignatures.lookup cell).getD [] :=
      ⟨hpath, _, _, rfl, hempty.1, hempty.2, hknown⟩
    have hreplace := replaceCell_isOk_iff hstring hmembers hempty.2 hempty.1
    rw [and_iff_right hanew, ← hreplace]
    unfold falseName trueName
    cases hrefined : partition.replaceCell cell falseStates trueStates
        (ofString s!"{pyRepr cell}|{predicate.canonicalId}|false")
        (ofString s!"{pyRepr cell}|{predicate.canonicalId}|true") with
    | error e =>
      dsimp only
      rw [iff_false_right (by simp)]
      intro heq
      have hlookup := congrArg
        (fun t : RefinementTracker C => (t.evaluatedChildSignatures.lookup cell).getD []) heq
      dsimp only at hlookup
      rw [Dict.lookup_assign, if_pos rfl, Option.getD_some] at hlookup
      exact hknown (hlookup ▸ List.mem_cons_self)
    | ok refined =>
      refine iff_of_true ?_ ⟨refined, rfl⟩
      dsimp only
      rw [if_pos rfl]
      exact ⟨_, _, _, _, rfl, rfl, rfl, replaceCell_eq_ok hrefined⟩

end Attempts

/-- A cell that is divided at zero, beside one that has the name of its lower child. -/
def takenPartition : Partition ℕ String :=
  ⟨[(0, "root"), (1, "root"), (2, "'root'|x|<=|0/1|true")], by decide, by decide⟩

def belowZero : Predicate ℕ := ⟨"x", .le, 0, fun s => .ok s, by decide⟩

/-- The refused division is remembered as tried. -/
theorem attemptSplit_taken_sample :
    (attemptSplit id takenPartition "root" belowZero ⟨[], []⟩).2.evaluatedChildSignatures =
        [("root", [[["0"], ["1"]]])] ∧
      ¬ SplitAtomic id takenPartition "root" belowZero ⟨[], []⟩ := by
  have hrun : attemptSplit id takenPartition "root" belowZero ⟨[], []⟩ =
      (.error (.valueError "split child identifier collides with an existing cell"),
        ⟨[], [("root", [[["0"], ["1"]]])]⟩) := by
    rfl
  refine ⟨congrArg (fun r => r.2.evaluatedChildSignatures) hrun, ?_⟩
  unfold SplitAtomic
  rw [hrun]
  simp

/-- An attempt whose children have free names. -/
theorem attemptSplit_atomic_iff_sample :
    SplitAtomic id (⟨[(0, "root"), (1, "root")], by decide, by decide⟩ : Partition ℕ String) "root"
      belowZero ⟨[], []⟩ := by
  refine (attemptSplit_atomic_iff Function.injective_id).mpr ?_
  rintro ⟨-, child, hchild, htaken, hne⟩
  obtain ⟨state, hstate⟩ := Partition.mem_cellIds.mp htaken
  have hroot : child = "root" := by
    simp only [List.mem_cons, Prod.mk.injEq, List.not_mem_nil, or_false] at hstate
    exact hstate.elim And.right And.right
  exact hne hroot

end Acfqp.Refinement
