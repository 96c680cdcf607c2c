import Mathlib

/-!
# Searching a graph for a goal

A stack of nodes is popped, marked and expanded until a goal is popped or nothing is left. The
answer is whether some goal can be reached from the stack, however often nodes are pushed.
-/

namespace Acfqp.Library

variable {M : Type} [DecidableEq M]

/-- Whether a goal is met before the stack runs out, within a number of pops. -/
def search (next : M → List M) (goal : M → Bool) : ℕ → List M → List M → Option Bool
  | 0, _, _ => none
  | _ + 1, _, [] => some false
  | fuel + 1, seen, m :: rest =>
    if m ∈ seen then search next goal fuel seen rest
    else if goal m then some true
    else search next goal fuel (m :: seen) ((next m).reverse ++ rest)

variable {next : M → List M} {goal : M → Bool}

/-- A goal can be reached from one of the nodes. -/
def GoalFrom (next : M → List M) (goal : M → Bool) (nodes : List M) : Prop :=
  ∃ s ∈ nodes, ∃ m, Relation.ReflTransGen (fun a b => b ∈ next a) s m ∧ goal m = true

omit [DecidableEq M] in
theorem GoalFrom.mono {l l' : List M} (h : GoalFrom next goal l)
    (hsub : ∀ s ∈ l, s ∈ l') : GoalFrom next goal l' := by
  obtain ⟨s, hs, hm⟩ := h
  exact ⟨s, hsub s hs, hm⟩

omit [DecidableEq M] in
theorem goalFrom_cons {m : M} {l : List M} (hm : goal m = false) :
    GoalFrom next goal (m :: l) → GoalFrom next goal (next m ++ l) := by
  rintro ⟨s, hs, t, hst, ht⟩
  rcases List.mem_cons.mp hs with rfl | hs
  · rcases hst.cases_head with rfl | ⟨c, hc, hct⟩
    · simp [hm] at ht
    · exact ⟨c, List.mem_append.mpr (.inl hc), t, hct, ht⟩
  · exact ⟨s, List.mem_append.mpr (.inr hs), t, hst, ht⟩

/-- What holds between pops: no marked node is a goal, and the successors of a marked node are
marked or on the stack. -/
def Explored (next : M → List M) (goal : M → Bool) (seen pending : List M) : Prop :=
  ∀ m ∈ seen, goal m = false ∧ ∀ t ∈ next m, t ∈ seen ∨ t ∈ pending

omit [DecidableEq M] in
theorem Explored.goalFrom {seen pending : List M} (h : Explored next goal seen pending)
    (hgoal : GoalFrom next goal seen) : GoalFrom next goal pending := by
  obtain ⟨s, hs, t, hst, ht⟩ := hgoal
  induction hst using Relation.ReflTransGen.head_induction_on with
  | refl => simp [(h t hs).1] at ht
  | head hab hbt ih =>
    rcases (h _ hs).2 _ hab with hb | hb
    · exact ih hb
    · exact ⟨_, hb, t, hbt, ht⟩

/-- How much the unmarked nodes of a list can still push. -/
def pushes (next : M → List M) (nodes seen : List M) : ℕ :=
  (nodes.map fun m => if m ∈ seen then 0 else (next m).length).sum

theorem pushes_cons_le (next : M → List M) (nodes seen : List M) (m : M) :
    pushes next nodes (m :: seen) ≤ pushes next nodes seen := by
  refine List.sum_le_sum fun a _ => ?_
  by_cases ha : a ∈ seen
  · simp [ha]
  · by_cases ham : a = m <;> simp [ha, ham]

/-- Marking a node takes away what it could push. -/
theorem pushes_cons {nodes seen : List M} {m : M} (hm : m ∈ nodes) (hseen : m ∉ seen) :
    pushes next nodes (m :: seen) + (next m).length ≤ pushes next nodes seen := by
  induction nodes with
  | nil => cases hm
  | cons a nodes ih =>
    have hsplit : ∀ seen, pushes next (a :: nodes) seen =
        (if a ∈ seen then 0 else (next a).length) + pushes next nodes seen := fun _ => rfl
    rw [hsplit, hsplit]
    by_cases ham : a = m
    · subst ham
      have hrest := pushes_cons_le next nodes seen a
      simp only [List.mem_cons, true_or, if_true, hseen, if_false]
      omega
    · have hrest := ih ((List.mem_cons.mp hm).resolve_left (Ne.symm ham))
      simp only [List.mem_cons, ham, false_or]
      omega

theorem pushes_le (nodes seen : List M) (bound : ℕ) (h : ∀ m, (next m).length ≤ bound) :
    pushes next nodes seen ≤ nodes.length * bound := by
  induction nodes with
  | nil => simp [pushes]
  | cons a nodes ih =>
    have hsplit : pushes next (a :: nodes) seen =
        (if a ∈ seen then 0 else (next a).length) + pushes next nodes seen := rfl
    have ha : (if a ∈ seen then 0 else (next a).length) ≤ bound := by
      split
      · exact Nat.zero_le _
      · exact h a
    rw [hsplit, List.length_cons, Nat.succ_mul]
    omega

/-- With fuel for everything that can still be pushed, the search answers. -/
theorem search_eq {nodes : List M} (hclosed : ∀ m ∈ nodes, ∀ t ∈ next m, t ∈ nodes)
    (fuel : ℕ) {seen pending : List M} (hpending : ∀ m ∈ pending, m ∈ nodes)
    (hfuel : pending.length + pushes next nodes seen < fuel)
    (h : Explored next goal seen pending) :
    ∃ found, search next goal fuel seen pending = some found ∧
      (found = true ↔ GoalFrom next goal pending) := by
  induction fuel generalizing seen pending with
  | zero => omega
  | succ fuel ih =>
    cases pending with
    | nil =>
      refine ⟨false, rfl, ?_⟩
      simp [GoalFrom]
    | cons m rest =>
      unfold search
      have hrest : ∀ t ∈ rest, t ∈ nodes := fun t ht => hpending t (by simp [ht])
      simp only [List.length_cons] at hfuel
      by_cases hseen : m ∈ seen
      · rw [if_pos hseen]
        have hkeep : Explored next goal seen rest := by
          refine fun s hs => ⟨(h s hs).1, fun t ht => ?_⟩
          rcases (h s hs).2 t ht with ht | ht
          · exact .inl ht
          · rcases List.mem_cons.mp ht with rfl | ht
            · exact .inl hseen
            · exact .inr ht
        obtain ⟨found, hfound, hiff⟩ := ih hrest (by omega) hkeep
        refine ⟨found, hfound, hiff.trans ⟨fun hg => hg.mono fun s hs => by simp [hs],
          fun hg => ?_⟩⟩
        obtain ⟨s, hs, t, hst, ht⟩ := hg
        rcases List.mem_cons.mp hs with rfl | hs
        · exact hkeep.goalFrom ⟨s, hseen, t, hst, ht⟩
        · exact ⟨s, hs, t, hst, ht⟩
      · rw [if_neg hseen]
        by_cases hgoal : goal m = true
        · rw [if_pos hgoal]
          exact ⟨true, rfl, by simpa using ⟨m, by simp, m, .refl, hgoal⟩⟩
        · rw [if_neg hgoal]
          have hfalse : goal m = false := by simpa using hgoal
          have hm := hpending m (by simp)
          have hdrop : pushes next nodes (m :: seen) + (next m).length ≤ pushes next nodes seen :=
            pushes_cons hm hseen
          have hpush : Explored next goal (m :: seen) ((next m).reverse ++ rest) := by
            intro s hs
            rcases List.mem_cons.mp hs with rfl | hs
            · exact ⟨hfalse, fun t ht => .inr (by simp [ht])⟩
            · refine ⟨(h s hs).1, fun t ht => ?_⟩
              have := (h s hs).2 t ht
              simp only [List.mem_cons] at this ⊢
              simp only [List.mem_append]
              tauto
          have hnodes : ∀ t ∈ (next m).reverse ++ rest, t ∈ nodes := by
            intro t ht
            rcases List.mem_append.mp ht with ht | ht
            · exact hclosed m hm t (by simpa using ht)
            · exact hrest t ht
          obtain ⟨found, hfound, hiff⟩ := ih hnodes
            (by simp only [List.length_append, List.length_reverse]; omega) hpush
          refine ⟨found, hfound, hiff.trans ⟨fun hg => ?_, fun hg => ?_⟩⟩
          · obtain ⟨s, hs, t, hst, ht⟩ := hg
            rcases List.mem_append.mp hs with hs | hs
            · exact ⟨m, by simp, t, hst.head (by simpa using hs), ht⟩
            · exact ⟨s, by simp [hs], t, hst, ht⟩
          · exact (goalFrom_cons hfalse hg).mono (by simp)

/-! ## Marking everything -/

/-- Mark everything that the stack reaches, within a number of pops. -/
def sweep (next : M → List M) : ℕ → List M → List M → Option (List M)
  | 0, _, _ => none
  | _ + 1, seen, [] => some seen
  | fuel + 1, seen, m :: rest =>
    if m ∈ seen then sweep next fuel seen rest
    else sweep next fuel (m :: seen) ((next m).reverse ++ rest)

/-- What a sweep leaves behind: the marks of before and what the stack reaches, closed under
successors. -/
structure Swept (next : M → List M) (seen pending marked : List M) : Prop where
  kept : ∀ m ∈ seen, m ∈ marked
  swept : ∀ m ∈ pending, m ∈ marked
  closed : ∀ m ∈ marked, ∀ t ∈ next m, t ∈ marked
  sourced : ∀ m ∈ marked, m ∈ seen ∨
    ∃ s ∈ pending, Relation.ReflTransGen (fun a b => b ∈ next a) s m

/-- With fuel for everything that can still be pushed, the sweep ends. -/
theorem sweep_returns {nodes : List M} (hclosed : ∀ m ∈ nodes, ∀ t ∈ next m, t ∈ nodes)
    (fuel : ℕ) {seen pending : List M} (hpending : ∀ m ∈ pending, m ∈ nodes)
    (hfuel : pending.length + pushes next nodes seen < fuel)
    (h : ∀ m ∈ seen, ∀ t ∈ next m, t ∈ seen ∨ t ∈ pending) :
    ∃ marked, sweep next fuel seen pending = some marked ∧ Swept next seen pending marked := by
  induction fuel generalizing seen pending with
  | zero => omega
  | succ fuel ih =>
    cases pending with
    | nil =>
      refine ⟨seen, rfl, fun _ => id, by simp, fun m hm t ht => ?_, fun _ => .inl⟩
      simpa using h m hm t ht
    | cons m rest =>
      unfold sweep
      have hrest : ∀ t ∈ rest, t ∈ nodes := fun t ht => hpending t (by simp [ht])
      simp only [List.length_cons] at hfuel
      by_cases hseen : m ∈ seen
      · rw [if_pos hseen]
        have hkeep : ∀ s ∈ seen, ∀ t ∈ next s, t ∈ seen ∨ t ∈ rest := by
          intro s hs t ht
          rcases h s hs t ht with ht | ht
          · exact .inl ht
          · rcases List.mem_cons.mp ht with rfl | ht
            · exact .inl hseen
            · exact .inr ht
        obtain ⟨marked, hmarked, hs⟩ := ih hrest (by omega) hkeep
        refine ⟨marked, hmarked, hs.kept, fun t ht => ?_, hs.closed, fun t ht => ?_⟩
        · rcases List.mem_cons.mp ht with rfl | ht
          · exact hs.kept t hseen
          · exact hs.swept t ht
        · refine (hs.sourced t ht).imp_right ?_
          rintro ⟨s, hs, hst⟩
          exact ⟨s, by simp [hs], hst⟩
      · rw [if_neg hseen]
        have hm := hpending m (by simp)
        have hdrop : pushes next nodes (m :: seen) + (next m).length ≤ pushes next nodes seen :=
          pushes_cons hm hseen
        have hpush : ∀ s ∈ m :: seen, ∀ t ∈ next s,
            t ∈ m :: seen ∨ t ∈ (next m).reverse ++ rest := by
          intro s hs t ht
          rcases List.mem_cons.mp hs with rfl | hs
          · exact .inr (by simp [ht])
          · have := h s hs t ht
            simp only [List.mem_cons, List.mem_append] at this ⊢
            tauto
        have hnodes : ∀ t ∈ (next m).reverse ++ rest, t ∈ nodes := by
          intro t ht
          rcases List.mem_append.mp ht with ht | ht
          · exact hclosed m hm t (by simpa using ht)
          · exact hrest t ht
        obtain ⟨marked, hmarked, hs⟩ := ih hnodes
          (by simp only [List.length_append, List.length_reverse]; omega) hpush
        refine ⟨marked, hmarked, fun t ht => hs.kept t (by simp [ht]), fun t ht => ?_, hs.closed,
          fun t ht => ?_⟩
        · rcases List.mem_cons.mp ht with rfl | ht
          · exact hs.kept t (by simp)
          · exact hs.swept t (by simp [ht])
        · rcases hs.sourced t ht with ht | ⟨s, hs, hst⟩
          · rcases List.mem_cons.mp ht with rfl | ht
            · exact .inr ⟨t, by simp, .refl⟩
            · exact .inl ht
          · rcases List.mem_append.mp hs with hs | hs
            · exact .inr ⟨m, by simp, hst.head (by simpa using hs)⟩
            · exact .inr ⟨s, by simp [hs], hst⟩

end Acfqp.Library
