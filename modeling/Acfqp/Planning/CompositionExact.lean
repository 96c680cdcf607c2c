import Acfqp.Library.Optimal
import Acfqp.Planning.Frontier

/-!
# Joint composition over abstract transitions

The planners of abstract models share one recursion: at every remaining horizon an action is chosen
jointly for the cells that carry mass, the successor distribution is solved first, and the composed
candidates are pruned. A planner says what the actions, the transitions and the points are.
-/

namespace Acfqp.Planning

open Library

variable {C L P : Type}

/-- One abstract transition: its immediate value, and what it sends to each successor. -/
structure Move (C : Type) where
  reward : ℚ
  failure : ℚ
  successors : Distribution C

/-- A transition under the mass of its cell. -/
def Move.weighted (mass : ℚ) (move : Move C) : (ℚ × ℚ) × Distribution C :=
  ((mass * move.reward, mass * move.failure), move.successors.map fun e => (e.1, mass * e.2))

/-- What a planner over abstract transitions is made of. -/
structure CellPlanner (C L P : Type) where
  actions : C → List L
  move : C → L → Except PyError (Move C)
  canonical : Distribution C → Distribution C
  zero : P
  combine : ℚ × ℚ → List ((ℕ × C) × L) → P → Except PyError (Option P)
  prune : List P → List P

namespace CellPlanner

/-- The cells of a distribution that take a decision, with their masses and actions. -/
def choices (planner : CellPlanner C L P) (distribution : Distribution C) :
    List ((C × ℚ) × List L) :=
  ((distribution.filter fun e => ¬ e.2 ≤ 0).map fun e => (e, planner.actions e.1)).filter
    fun c => c.2 ≠ []

section Recursion

variable [DecidableEq C]

def compose (planner : CellPlanner C L P) (chosen : List ((C × ℚ) × L)) :
    Except PyError ((ℚ × ℚ) × Distribution C) := do
  let steps ← chosen.mapM fun c => Move.weighted c.1.2 <$> planner.move c.1.1 c.2
  return (((steps.map fun s => s.1.1).sum, (steps.map fun s => s.1.2).sum),
    tally (steps.flatMap Prod.snd))

variable {m : Type → Type} [Monad m] [MonadLiftT (Except PyError) m]

def candidates (tick : m Unit) (planner : CellPlanner C L P) (remaining : ℕ)
    (continuation : Distribution C → m (List P)) (chosen : List ((C × ℚ) × L)) : m (List P) := do
  let (immediate, successorMass) ← planner.compose chosen
  let currentDecisions := chosen.map fun c => ((remaining, c.1.1), c.2)
  let continuationFrontier ← continuation (planner.canonical successorMass)
  let points ← continuationFrontier.mapM fun point => do
    tick
    planner.combine immediate currentDecisions point
  pure (points.filterMap id)

/-- One stage of `frontier_for`, given the frontier of the next stage. -/
def stage (tick : m Unit) (planner : CellPlanner C L P) (remaining : ℕ)
    (continuation : Distribution C → m (List P)) (distribution : Distribution C) :
    m (List P) := do
  if distribution = [] then pure [planner.zero]
  else
    let choices := planner.choices distribution
    if choices = [] then pure [planner.zero]
    else
      let rows ← (cartesian (choices.map Prod.snd)).mapM fun chosenActions =>
        candidates tick planner remaining continuation ((choices.map Prod.fst).zip chosenActions)
      pure (planner.prune rows.flatten)

/-- `frontier_for`, with its memo table and the counter of composed candidates. -/
def frontierFor (planner : CellPlanner C L P) : ℕ → Distribution C →
    StateT (List ((ℕ × Distribution C) × List P) × ℕ) (Except PyError) (List P)
  | 0, distribution => memoize (0, distribution) (pure [planner.zero])
  | n + 1, distribution => memoize (n + 1, distribution)
      (stage (modify fun s => (s.1, s.2 + 1)) planner (n + 1) (planner.frontierFor n) distribution)

/-- `frontier_for` without its memo table and counter. -/
def direct (planner : CellPlanner C L P) : ℕ → Distribution C → Except PyError (List P)
  | 0, _ => .ok [planner.zero]
  | n + 1, distribution => stage (pure ()) planner (n + 1) (planner.direct n) distribution

end Recursion

section Table

variable [DecidableEq C] {planner : CellPlanner C L P} {σ : Type} {I : σ → Prop}
  {tick : StateT σ (Except PyError) Unit}

theorem stage_computes {n : ℕ} {f : Distribution C → StateT σ (Except PyError) (List P)}
    {g : Distribution C → Except PyError (List P)} (htick : Computes I tick (pure ()))
    (h : ∀ d, Computes I (f d) (g d)) (distribution : Distribution C) :
    Computes I (stage tick planner n f distribution)
      (stage (pure ()) planner n g distribution) := by
  unfold stage
  split
  · exact .pure
  · dsimp only
    split
    · exact .pure
    · refine .bind (.mapM fun chosen _ => ?_) fun _ _ => .pure
      refine .bind .lift fun composed _ => .bind (h _) fun points _ => ?_
      exact .bind (.mapM fun point _ => .bind htick fun _ _ => .lift) fun _ _ => .pure

def Table (planner : CellPlanner C L P) (t : List ((ℕ × Distribution C) × List P) × ℕ) : Prop :=
  Agrees (fun k => planner.direct k.1 k.2) t.1 ∧ True

theorem frontierFor_computes (n : ℕ) (distribution : Distribution C) :
    Computes planner.Table (planner.frontierFor n distribution)
      (planner.direct n distribution) := by
  have htick : Computes (ε := PyError) planner.Table (modify fun t => (t.1, t.2 + 1))
      (pure ()) := fun t ht => ⟨(t.1, t.2 + 1), ht, rfl⟩
  induction n generalizing distribution with
  | zero => exact Computes.memoize (J := fun _ => True) .pure
  | succ n ih => exact Computes.memoize (J := fun _ => True) (stage_computes htick ih distribution)

theorem frontierFor_returns {n : ℕ} {distribution : Distribution C} {points : List P}
    (h : planner.direct n distribution = .ok points) :
    ∃ t, planner.frontierFor n distribution ([], 0) = .ok (points, t) := by
  obtain ⟨t, -, hrun⟩ :=
    frontierFor_computes (P := P) n distribution ([], 0) ⟨by simp [Agrees], trivial⟩
  rw [h] at hrun
  exact ⟨t, hrun⟩

end Table

end CellPlanner

end Acfqp.Planning

/-!
## The composed frontier is exact

A lawful planner's recursion returns the frontier of the values of all selectors. In particular the
largest reward and the smallest failure on it are the optimal ones.
-/

namespace Acfqp.Planning

open Library

variable {C L P : Type}

/-! ## Transitions as branches -/

/-- A transition seen through one channel. -/
def Move.branches (gain : Move C → ℚ) (move : Move C) : List (Branch ℚ C) :=
  ⟨1, gain move, none⟩ :: move.successors.map fun e => ⟨e.2, 0, some e.1⟩

theorem Move.backup_branches (gain : Move C → ℚ) (move : Move C) (V : C → ℚ) :
    backup (move.branches gain) V = gain move + massSum V move.successors := by
  rw [branches, backup_cons, backup, List.map_map]
  simp [massSum, Branch.gain, Function.comp_def]

theorem massSum_scale (V : C → ℚ) (q : ℚ) (d : Distribution C) :
    massSum V (d.map fun e => (e.1, q * e.2)) = q * massSum V d := by
  simp only [massSum, List.map_map, ← List.sum_map_mul_left]
  congr 1
  exact List.map_congr_left fun e _ => mul_assoc _ _ _

theorem massSum_perm {V : C → ℚ} {d e : Distribution C} (h : d.Perm e) :
    massSum V d = massSum V e := (h.map _).sum_eq

namespace CellPlanner

def process (planner : CellPlanner C L P) (gain : Move C → ℚ) : Process ℚ C L where
  options := planner.actions
  branches c l := (planner.move c l).toOption.elim [] (Move.branches gain)

variable {planner : CellPlanner C L P}

theorem branches_process {gain : Move C → ℚ} {c : C} {l : L} {move : Move C}
    (h : planner.move c l = .ok move) : (planner.process gain).branches c l =
      move.branches gain := by
  simp [process, h, Except.toOption]

/-- Every action has a transition, and transitions carry positive mass. -/
structure Total (planner : CellPlanner C L P) : Prop where
  returns : ∀ c, ∀ l ∈ planner.actions c, ∃ move, planner.move c l = .ok move
  positive : ∀ c, ∀ l ∈ planner.actions c, ∀ move, planner.move c l = .ok move →
    ∀ e ∈ move.successors, 0 < e.2

theorem Total.weight_nonneg (h : planner.Total) (gain : Move C → ℚ) :
    ∀ c, ∀ l ∈ (planner.process gain).options c, ∀ b ∈ (planner.process gain).branches c l,
      0 ≤ b.weight := by
  intro c l hl b hb
  obtain ⟨move, hmove⟩ := h.returns c l hl
  rw [branches_process hmove] at hb
  rcases List.mem_cons.mp hb with rfl | hb
  · exact zero_le_one
  · obtain ⟨e, he, rfl⟩ := List.mem_map.mp hb
    exact (h.positive c l hl move hmove e he).le

/-! ## Selectors -/

/-- The selector takes an action wherever there is one. -/
def Decides (planner : CellPlanner C L P) (select : Selector C L) : Prop :=
  ∀ n c, planner.actions c ≠ [] → ∃ l ∈ planner.actions c, select (n + 1) c = some l

/-- The selector takes an action at the cell and at every cell reachable from it. -/
def Follows (planner : CellPlanner C L P) (select : Selector C L) : ℕ → C → Prop
  | 0, _ => True
  | n + 1, c => planner.actions c = [] ∨ ∃ l ∈ planner.actions c, select (n + 1) c = some l ∧
      ∀ move, planner.move c l = .ok move → ∀ e ∈ move.successors, Follows planner select n e.1

variable [DecidableEq L]

/-- One step of the process that a selector induces. -/
def law (planner : CellPlanner C L P) (gain : Move C → ℚ) (select : Selector C L) : Law ℚ C :=
  fun n c => (select n c).bind fun l =>
    if l ∈ planner.actions c then some ((planner.process gain).branches c l) else none

def massValue (planner : CellPlanner C L P) (select : Selector C L) (n : ℕ)
    (d : Distribution C) : ℚ × ℚᵒᵈ :=
  (massSum (value (planner.law Move.reward select) n) d,
    OrderDual.toDual (massSum (value (planner.law Move.failure select) n) d))

section Values

variable {gain : Move C → ℚ} {select select' : Selector C L} {n : ℕ}

theorem value_idle {c : C} (h : planner.actions c = []) :
    value (planner.law gain select) n c = 0 := by
  cases n with
  | zero => rfl
  | succ n => exact value_stopped (by cases hs : select (n + 1) c <;> simp [law, hs, h])

theorem law_takes {c : C} {l : L} {move : Move C} (hl : l ∈ planner.actions c)
    (hsel : select n c = some l) (hmove : planner.move c l = .ok move) :
    planner.law gain select n c = some (move.branches gain) := by
  simp [law, hsel, hl, branches_process hmove]

theorem value_takes {c : C} {l : L} {move : Move C} (hl : l ∈ planner.actions c)
    (hsel : select (n + 1) c = some l) (hmove : planner.move c l = .ok move) :
    value (planner.law gain select) (n + 1) c =
      gain move + massSum (value (planner.law gain select) n) move.successors := by
  rw [value_step (law_takes hl hsel hmove), Move.backup_branches]

/-- Selectors that agree on what one of them reaches have the same values there. -/
theorem Follows.congr (htotal : planner.Total) (h : ∀ k c l, select k c = some l →
    select' k c = some l) (c : C) (hf : planner.Follows select n c) :
    planner.Follows select' n c ∧ ∀ gain,
      value (planner.law gain select') n c = value (planner.law gain select) n c := by
  induction n generalizing c with
  | zero => exact ⟨trivial, fun _ => rfl⟩
  | succ n ih =>
    rcases hf with hnil | ⟨l, hl, hsel, hf⟩
    · exact ⟨.inl hnil, fun _ => by rw [value_idle hnil, value_idle hnil]⟩
    · obtain ⟨move, hmove⟩ := htotal.returns c l hl
      refine ⟨.inr ⟨l, hl, h _ _ _ hsel, fun move' hmove' e he => ?_⟩, fun gain => ?_⟩
      · exact (ih e.1 (hf move' hmove' e he)).1
      · rw [value_takes hl hsel hmove, value_takes hl (h _ _ _ hsel) hmove,
          massSum_congr fun e he => (ih e.1 (hf move hmove e he)).2 gain]

theorem massValue_congr {d : Distribution C}
    (h : ∀ e ∈ d, ∀ gain, value (planner.law gain select') n e.1 =
      value (planner.law gain select) n e.1) :
    planner.massValue select' n d = planner.massValue select n d := by
  simp only [massValue, massSum_congr fun e he => h e he _]

theorem massValue_append (d e : Distribution C) :
    planner.massValue select n (d ++ e) =
      planner.massValue select n d + planner.massValue select n e := by
  simp only [massValue, massSum_append]
  rfl

/-- One joint stage of a selector that takes the listed actions. -/
theorem massValue_stage {picks : List ((C × ℚ) × L)} {moves : (C × ℚ) × L → Move C}
    (htakes : ∀ c ∈ picks, c.2 ∈ planner.actions c.1.1 ∧ select (n + 1) c.1.1 = some c.2 ∧
      planner.move c.1.1 c.2 = .ok (moves c)) :
    planner.massValue select (n + 1) (picks.map Prod.fst) =
      (picks.map fun c =>
        immediatePart (c.1.2 * (moves c).reward, c.1.2 * (moves c).failure)).sum +
      planner.massValue select n
        (picks.flatMap fun c => (moves c).successors.map fun e => (e.1, c.1.2 * e.2)) := by
  induction picks with
  | nil => simp [massValue, massSum]
  | cons c picks ih =>
    have ih := ih fun d hd => htakes d (by simp [hd])
    obtain ⟨hl, hsel, hmove⟩ := htakes c (by simp)
    have hone : planner.massValue select (n + 1) [c.1] =
        immediatePart (c.1.2 * (moves c).reward, c.1.2 * (moves c).failure) +
          planner.massValue select n
            ((moves c).successors.map fun e => (e.1, c.1.2 * e.2)) := by
      simp only [massValue, massSum_scale]
      simp only [massSum, List.map_cons, List.map_nil, List.sum_cons, List.sum_nil, add_zero,
        value_takes hl hsel hmove, mul_add]
      rfl
    rw [List.map_cons, List.flatMap_cons, massValue_append, List.map_cons, List.sum_cons,
      show c.1 :: picks.map Prod.fst = [c.1] ++ picks.map Prod.fst from rfl, massValue_append,
      hone, ih]
    abel

end Values

/-! ## Solved distributions -/

/-- How a planner's points are read: their values, and their policies as selectors. -/
structure PointView (C L P : Type) where
  value : P → ℚ × ℚᵒᵈ
  select : P → Selector C L

/-- What the recursion needs of the planner's own operations. -/
structure Lawful (planner : CellPlanner C L P) (view : PointView C L P) : Prop where
  zero_value : view.value planner.zero = 0
  zero_select : ∀ n c, view.select planner.zero n c = none
  canonical : ∀ d, (planner.canonical d).Perm (d.filter fun e => 0 < e.2)
  combine_returns : ∀ immediate current p, (∀ x ∈ current, 0 < x.1.1) →
    (∀ x ∈ current, view.select p x.1.1 x.1.2 = none) → (current.map Prod.fst).Nodup →
    ∃ q, planner.combine immediate current p = .ok (some q) ∧
      view.value q = immediatePart immediate + view.value p ∧
      ∀ n c l, view.select q n c = some l ↔ view.select p n c = some l ∨ ((n, c), l) ∈ current
  prune_mem : ∀ points, ∀ p ∈ planner.prune points, p ∈ points
  prune_frontier : ∀ points, Frontier {v | ∃ p ∈ planner.prune points, view.value p = v}
    {v | ∃ p ∈ points, view.value p = v}

/-- The points are policies of their own values, and no selector is better than all of them. -/
structure Solved (planner : CellPlanner C L P) (view : PointView C L P) (n : ℕ)
    (d : Distribution C) (points : List P) : Prop where
  covers : ∀ select, planner.Decides select →
    ∃ p ∈ points, planner.massValue select n d ≤ view.value p
  follows : ∀ p ∈ points, ∀ e ∈ d, planner.Follows (view.select p) n e.1
  value_eq : ∀ p ∈ points, view.value p = planner.massValue (view.select p) n d
  bounded : ∀ p ∈ points, ∀ k c l, view.select p k c = some l → k ≤ n
  antichain : ∀ p ∈ points, ∀ q ∈ points, ¬ view.value p < view.value q

section Solving

variable {view : PointView C L P} {n : ℕ}

omit [DecidableEq L] in
theorem Lawful.canonical_nodup (h : planner.Lawful view) {d : Distribution C}
    (hd : (d.map Prod.fst).Nodup) : ((planner.canonical d).map Prod.fst).Nodup :=
  ((h.canonical d).map _).nodup_iff.mpr (hd.sublist (List.filter_sublist.map _))

omit [DecidableEq L] in
theorem Lawful.mem_canonical (h : planner.Lawful view) {d : Distribution C} {e : C × ℚ} :
    e ∈ planner.canonical d ↔ e ∈ d ∧ 0 < e.2 := by
  rw [(h.canonical d).mem_iff, List.mem_filter, decide_eq_true_iff]

theorem massValue_choices (planner : CellPlanner C L P) (select : Selector C L)
    {d : Distribution C} (hpos : ∀ e ∈ d, 0 < e.2) :
    planner.massValue select n ((planner.choices d).map Prod.fst) =
      planner.massValue select n d := by
  have hsum : ∀ V : C → ℚ, (∀ c, planner.actions c = [] → V c = 0) →
      massSum V ((planner.choices d).map Prod.fst) = massSum V d := by
    intro V hV
    unfold choices
    induction d with
    | nil => rfl
    | cons e d ih =>
      have ih := ih fun x hx => hpos x (by simp [hx])
      have he := hpos e (by simp)
      by_cases hnil : planner.actions e.1 = []
      · simpa [he, hnil, massSum, hV e.1 hnil] using ih
      · simpa [he, hnil, massSum] using ih
  simp only [massValue, hsum _ fun c hc => value_idle hc]

omit [DecidableEq L] in
theorem mem_choices {d : Distribution C} {c : (C × ℚ) × List L} (h : c ∈ planner.choices d) :
    c.1 ∈ d ∧ c.2 = planner.actions c.1.1 ∧ c.2 ≠ [] := by
  simp only [choices, List.mem_filter, List.mem_map] at h
  obtain ⟨⟨e, ⟨he, -⟩, rfl⟩, hne⟩ := h
  exact ⟨he, rfl, by simpa using hne⟩

omit [DecidableEq L] in
theorem mem_choices_of {d : Distribution C} {e : C × ℚ} (he : e ∈ d) (hpos : 0 < e.2)
    (hne : planner.actions e.1 ≠ []) : (e, planner.actions e.1) ∈ planner.choices d := by
  refine List.mem_filter.mpr ⟨List.mem_map.mpr ⟨e, List.mem_filter.mpr ⟨he, ?_⟩, rfl⟩, ?_⟩
  · simpa using hpos
  · simpa using hne

omit [DecidableEq L] in
theorem choices_sublist (d : Distribution C) :
    ((planner.choices d).map Prod.fst).Sublist d := by
  have hmap : ((d.filter fun e => decide (¬ e.2 ≤ 0)).map fun e => (e, planner.actions e.1)).map
      Prod.fst = d.filter fun e => decide (¬ e.2 ≤ 0) := by
    rw [List.map_map]
    exact List.map_id _
  refine (List.filter_sublist.map _).trans ?_
  rw [hmap]
  exact List.filter_sublist

theorem solved_zero (h : planner.Lawful view) {d : Distribution C}
    (hidle : n = 0 ∨ ∀ e ∈ d, planner.actions e.1 = []) :
    planner.Solved view n d [planner.zero] := by
  have hzero : ∀ select : Selector C L, planner.massValue select n d = 0 := by
    intro select
    have hsum : ∀ gain, massSum (value (planner.law gain select) n) d = 0 := by
      intro gain
      rw [massSum_congr (W := fun _ => 0) fun e he => ?_]
      · simp [massSum]
      · rcases hidle with rfl | hidle
        · rfl
        · exact value_idle (hidle e he)
    simp only [massValue, hsum]
    rfl
  have hfollows : ∀ select : Selector C L, ∀ e ∈ d, planner.Follows select n e.1 := by
    intro select e he
    rcases hidle with rfl | hidle
    · exact trivial
    · cases n with
      | zero => exact trivial
      | succ n => exact .inl (hidle e he)
  constructor
  · intro select _
    exact ⟨planner.zero, by simp, (hzero select).trans h.zero_value.symm |>.le⟩
  · exact fun p _ => hfollows _
  · intro p hp
    obtain rfl : p = planner.zero := by simpa using hp
    rw [h.zero_value, hzero]
  · intro p hp k c l hl
    obtain rfl : p = planner.zero := by simpa using hp
    rw [h.zero_select] at hl
    cases hl
  · intro p hp q hq
    obtain rfl : p = planner.zero := by simpa using hp
    obtain rfl : q = planner.zero := by simpa using hq
    exact lt_irrefl _

theorem solved_prune (hlawful : planner.Lawful view) {d : Distribution C} {points : List P}
    (hcovers : ∀ select, planner.Decides select →
      ∃ p ∈ points, planner.massValue select n d ≤ view.value p)
    (hpoints : ∀ p ∈ points, (∀ e ∈ d, planner.Follows (view.select p) n e.1) ∧
      view.value p = planner.massValue (view.select p) n d ∧
      ∀ k c l, view.select p k c = some l → k ≤ n) :
    planner.Solved view n d (planner.prune points) := by
  have hmem := hlawful.prune_mem points
  have hfrontier := hlawful.prune_frontier points
  constructor
  · intro select hdecides
    obtain ⟨p, hp, hle⟩ := hcovers select hdecides
    obtain ⟨v, ⟨q, hq, rfl⟩, hpq⟩ := hfrontier.covers _ ⟨p, hp, rfl⟩
    exact ⟨q, hq, hle.trans hpq⟩
  · exact fun p hp => (hpoints p (hmem p hp)).1
  · exact fun p hp => (hpoints p (hmem p hp)).2.1
  · exact fun p hp => (hpoints p (hmem p hp)).2.2
  · intro p hp q hq hlt
    have heq := hfrontier.maximal _ ⟨p, hp, rfl⟩ _ ⟨q, hmem q hq, rfl⟩ hlt.le
    exact hlt.ne heq.symm

theorem Solved.of_choices {d : Distribution C} (hpos : ∀ e ∈ d, 0 < e.2) {points : List P}
    (h : planner.Solved view (n + 1) ((planner.choices d).map Prod.fst) points) :
    planner.Solved view (n + 1) d points := by
  have hvalue := fun select => massValue_choices (n := n + 1) planner select hpos
  constructor
  · intro select hdecides
    rw [← hvalue]
    exact h.covers select hdecides
  · intro p hp e he
    by_cases hnil : planner.actions e.1 = []
    · exact .inl hnil
    · exact h.follows p hp e (List.mem_map_of_mem (mem_choices_of he (hpos e he) hnil))
  · intro p hp
    rw [← hvalue]
    exact h.value_eq p hp
  · exact h.bounded
  · exact h.antichain

section Stage

variable [DecidableEq C]

def successorMass (moves : (C × ℚ) × L → Move C) (chosen : List ((C × ℚ) × L)) : Distribution C :=
  chosen.flatMap fun c => (moves c).successors.map fun e => (e.1, c.1.2 * e.2)

omit [DecidableEq L] in
theorem compose_returns (htotal : planner.Total) {chosen : List ((C × ℚ) × L)}
    (hchosen : ∀ c ∈ chosen, c.2 ∈ planner.actions c.1.1) :
    ∃ immediate moves, planner.compose chosen =
      .ok (immediate, tally (successorMass moves chosen)) ∧
      (∀ c ∈ chosen, planner.move c.1.1 c.2 = .ok (moves c)) ∧
      immediatePart immediate = (chosen.map fun c =>
        immediatePart (c.1.2 * (moves c).reward, c.1.2 * (moves c).failure)).sum := by
  have hmove : ∀ c ∈ chosen, ∃ move, planner.move c.1.1 c.2 = .ok move := fun c hc =>
    htotal.returns _ _ (hchosen c hc)
  let moves : (C × ℚ) × L → Move C := fun c =>
    (planner.move c.1.1 c.2).toOption.getD ⟨0, 0, []⟩
  have hmoves : ∀ c ∈ chosen, planner.move c.1.1 c.2 = .ok (moves c) := by
    intro c hc
    obtain ⟨move, hmove⟩ := hmove c hc
    simp [moves, hmove, Except.toOption]
  have hsteps : chosen.mapM (fun c => Move.weighted c.1.2 <$> planner.move c.1.1 c.2) =
      .ok (chosen.map fun c => (moves c).weighted c.1.2) :=
    mapM_of_forall fun c hc => map_eq_ok.mpr ⟨_, hmoves c hc, rfl⟩
  refine ⟨((chosen.map fun c => c.1.2 * (moves c).reward).sum,
    (chosen.map fun c => c.1.2 * (moves c).failure).sum), moves,
    bind_eq_ok.mpr ⟨_, hsteps, ?_⟩, hmoves, ?_⟩
  · rw [List.flatMap_map, List.map_map, List.map_map]
    rfl
  · exact immediatePart_sum chosen fun c => (c.1.2 * (moves c).reward, c.1.2 * (moves c).failure)

/-- The canonical successor distribution is worth what the successor masses are. -/
theorem massValue_canonical_tally (hlawful : planner.Lawful view) {events : Distribution C}
    (hpos : ∀ e ∈ events, 0 < e.2) (select : Selector C L) :
    planner.massValue select n (planner.canonical (tally events)) =
      planner.massValue select n events := by
  have htally : ∀ e ∈ tally events, 0 < e.2 := tally_totals (fun _ _ => add_pos) hpos
  have hfilter : (tally events).filter (fun e => decide (0 < e.2)) = tally events :=
    List.filter_eq_self.mpr fun e he => by simpa using htally e he
  have hsum : ∀ V : C → ℚ, massSum V (planner.canonical (tally events)) = massSum V events := by
    intro V
    rw [massSum_perm (hlawful.canonical _), hfilter]
    exact sum_tally_mul V events
  simp only [massValue, hsum]

omit [DecidableEq L] in
theorem mem_canonical_tally (hlawful : planner.Lawful view) {events : Distribution C}
    (hpos : ∀ e ∈ events, 0 < e.2) {c : C} :
    c ∈ (planner.canonical (tally events)).map Prod.fst ↔ c ∈ events.map Prod.fst := by
  refine Iff.trans ?_ mem_keys_tally
  constructor
  · intro hc
    obtain ⟨e, he, rfl⟩ := List.mem_map.mp hc
    exact List.mem_map_of_mem (hlawful.mem_canonical.mp he).1
  · intro hc
    obtain ⟨e, he, rfl⟩ := List.mem_map.mp hc
    exact List.mem_map_of_mem
      (hlawful.mem_canonical.mpr ⟨he, tally_totals (fun _ _ => add_pos) hpos e he⟩)

/-- A joint choice: one action for every deciding cell. -/
structure Joint (planner : CellPlanner C L P) (cells : Distribution C)
    (chosen : List ((C × ℚ) × L)) : Prop where
  cells_eq : chosen.map Prod.fst = cells
  available : ∀ c ∈ chosen, c.2 ∈ planner.actions c.1.1

/-- A candidate row: policies of their own values that start with the joint choice, and cover every
selector that does. -/
structure Row (planner : CellPlanner C L P) (view : PointView C L P) (n : ℕ)
    (cells : Distribution C) (chosen : List ((C × ℚ) × L)) (row : List P) : Prop where
  covers : ∀ select, planner.Decides select → (∀ c ∈ chosen, select n c.1.1 = some c.2) →
    ∃ q ∈ row, planner.massValue select n cells ≤ view.value q
  follows : ∀ q ∈ row, ∀ e ∈ cells, planner.Follows (view.select q) n e.1
  value_eq : ∀ q ∈ row, view.value q = planner.massValue (view.select q) n cells
  bounded : ∀ q ∈ row, ∀ k c l, view.select q k c = some l → k ≤ n

theorem Joint.row (htotal : planner.Total) (hlawful : planner.Lawful view)
    {cells : Distribution C} {chosen : List ((C × ℚ) × L)} (hjoint : planner.Joint cells chosen)
    (hpos : ∀ e ∈ cells, 0 < e.2) (hnodup : (cells.map Prod.fst).Nodup)
    {continuation : Distribution C → Except PyError (List P)}
    (hcont : ∀ d, (d.map Prod.fst).Nodup → (∀ e ∈ d, 0 < e.2) →
      ∃ points, continuation d = .ok points ∧ planner.Solved view n d points) :
    ∃ row, candidates (m := Except PyError) (pure ()) planner (n + 1) continuation chosen =
      .ok row ∧
      planner.Row view (n + 1) cells chosen row := by
  obtain ⟨immediate, moves, hcompose, hmoves, himmediate⟩ :=
    compose_returns htotal hjoint.available
  have hevents : ∀ e ∈ successorMass moves chosen, 0 < e.2 := by
    intro e he
    obtain ⟨c, hc, he⟩ := List.mem_flatMap.mp he
    obtain ⟨x, hx, rfl⟩ := List.mem_map.mp he
    have hcell : c.1 ∈ cells := hjoint.cells_eq ▸ List.mem_map_of_mem hc
    exact mul_pos (hpos _ hcell)
      (htotal.positive _ _ (hjoint.available c hc) _ (hmoves c hc) x hx)
  obtain ⟨points, hpoints, hsolved⟩ := hcont
    (planner.canonical (tally (successorMass moves chosen)))
    (hlawful.canonical_nodup (nodup_keys_tally _)) fun e he => (hlawful.mem_canonical.mp he).2
  let current := chosen.map fun c => (((n + 1, c.1.1), c.2) : (ℕ × C) × L)
  have hkeys : (current.map Prod.fst).Nodup := by
    have hcells : (chosen.map fun c => c.1.1).Nodup := by
      rw [← hjoint.cells_eq, List.map_map] at hnodup
      exact hnodup
    have hinj := hcells.map (f := fun c => (n + 1, c)) fun a b h => (Prod.mk.inj h).2
    simpa [current, List.map_map, Function.comp_def] using hinj
  have hstage : ∀ x ∈ current, x.1.1 = n + 1 := by
    intro x hx
    obtain ⟨c, -, rfl⟩ := List.mem_map.mp hx
    rfl
  have hcombine : ∀ p ∈ points, ∃ q, planner.combine immediate current p = .ok (some q) ∧
      view.value q = immediatePart immediate + view.value p ∧
      ∀ k c l, view.select q k c = some l ↔
        view.select p k c = some l ∨ ((k, c), l) ∈ current := by
    intro p hp
    refine hlawful.combine_returns immediate current p (fun x hx => ?_) (fun x hx => ?_) hkeys
    · rw [hstage x hx]
      omega
    · by_contra hsome
      obtain ⟨l, hl⟩ := Option.ne_none_iff_exists'.mp hsome
      have := hsolved.bounded p hp _ _ l hl
      rw [hstage x hx] at this
      omega
  obtain ⟨combined, hcombined⟩ := mapM_returns fun p hp =>
    (hcombine p hp).elim fun q hq => ⟨some q, hq.1⟩
  have hrow : candidates (m := Except PyError) (pure ()) planner (n + 1) continuation chosen =
      .ok (combined.filterMap id) :=
    bind_eq_ok.mpr ⟨_, hcompose, bind_eq_ok.mpr ⟨points, hpoints,
      bind_eq_ok.mpr ⟨combined, hcombined, rfl⟩⟩⟩
  have hvalue : ∀ select : Selector C L, (∀ c ∈ chosen, select (n + 1) c.1.1 = some c.2) →
      planner.massValue select (n + 1) cells = immediatePart immediate +
        planner.massValue select n (planner.canonical (tally (successorMass moves chosen))) := by
    intro select hsel
    rw [massValue_canonical_tally hlawful hevents, himmediate, ← hjoint.cells_eq]
    exact massValue_stage fun c hc => ⟨hjoint.available c hc, hsel c hc, hmoves c hc⟩
  refine ⟨_, hrow, ?_⟩
  have hread : ∀ q ∈ combined.filterMap id, ∃ p ∈ points,
      view.value q = immediatePart immediate + view.value p ∧
      ∀ k c l, view.select q k c = some l ↔
        view.select p k c = some l ∨ ((k, c), l) ∈ current := by
    intro q hq
    obtain ⟨o, ho, rfl⟩ : ∃ o ∈ combined, o = some q := by simpa using hq
    obtain ⟨p, hp, ho⟩ := mem_of_mapM hcombined ho
    obtain ⟨q', hq', hspec⟩ := hcombine p hp
    cases hq'.symm.trans ho
    exact ⟨p, hp, hspec⟩
  have hnew : ∀ q p, (∀ k c l, view.select q k c = some l ↔
      view.select p k c = some l ∨ ((k, c), l) ∈ current) →
      ∀ c ∈ chosen, view.select q (n + 1) c.1.1 = some c.2 := fun q p hsel c hc =>
    (hsel _ _ _).mpr (.inr (List.mem_map.mpr ⟨c, hc, rfl⟩))
  -- what follows from the successor distribution follows from every successor
  have hbelow : ∀ select : Selector C L,
      (∀ e ∈ planner.canonical (tally (successorMass moves chosen)),
        planner.Follows select n e.1) →
      ∀ e ∈ successorMass moves chosen, planner.Follows select n e.1 := by
    intro select hf e he
    obtain ⟨e', he', heq⟩ := List.mem_map.mp
      ((mem_canonical_tally hlawful hevents).mpr (List.mem_map_of_mem he))
    exact heq ▸ hf e' he'
  constructor
  · intro select hdecides hsel
    obtain ⟨p, hp, hle⟩ := hsolved.covers select hdecides
    obtain ⟨q, hq, hval, -⟩ := hcombine p hp
    obtain ⟨o, ho, hpo⟩ := exists_of_mapM hcombined hp
    cases hq.symm.trans hpo
    refine ⟨q, List.mem_filterMap.mpr ⟨_, ho, rfl⟩, ?_⟩
    rw [hvalue select hsel, hval]
    exact add_le_add_right hle _
  · intro q hq e he
    obtain ⟨p, hp, -, hsel⟩ := hread q hq
    obtain ⟨c, hc, rfl⟩ := List.mem_map.mp (hjoint.cells_eq.symm ▸ he)
    refine .inr ⟨c.2, hjoint.available c hc, hnew q p hsel c hc, fun move hmove x hx => ?_⟩
    cases (hmoves c hc).symm.trans hmove
    refine hbelow _ (fun y hy => ?_) (x.1, c.1.2 * x.2) (List.mem_flatMap.mpr
      ⟨c, hc, List.mem_map.mpr ⟨x, hx, rfl⟩⟩)
    exact (Follows.congr htotal (fun k d l hl => (hsel k d l).mpr (.inl hl)) y.1
      (hsolved.follows p hp y hy)).1
  · intro q hq
    obtain ⟨p, hp, hval, hsel⟩ := hread q hq
    rw [hval, hvalue _ (hnew q p hsel), hsolved.value_eq p hp]
    congr 1
    refine (massValue_congr fun e he => ?_).symm
    exact (Follows.congr htotal (fun k d l hl => (hsel k d l).mpr (.inl hl)) e.1
      (hsolved.follows p hp e he)).2
  · intro q hq k c l hl
    obtain ⟨p, hp, -, hsel⟩ := hread q hq
    rcases (hsel k c l).mp hl with hl | hl
    · exact (hsolved.bounded p hp k c l hl).trans (Nat.le_succ n)
    · exact (hstage _ hl).le

omit [DecidableEq L] [DecidableEq C] in
theorem joint_zip {d : Distribution C} {actions : List L}
    (h : actions ∈ cartesian ((planner.choices d).map Prod.snd)) :
    planner.Joint ((planner.choices d).map Prod.fst)
      (((planner.choices d).map Prod.fst).zip actions) := by
  rw [mem_cartesian, List.forall₂_map_right_iff] at h
  refine ⟨List.map_fst_zip (by simp [h.length_eq]), fun c hc => ?_⟩
  rw [List.zip_map_left, List.mem_map] at hc
  obtain ⟨⟨x, l⟩, hx, rfl⟩ := hc
  have hl := (List.forall₂_iff_zip.mp h.flip).2 hx
  rw [(mem_choices (List.of_mem_zip hx).1).2.1] at hl
  exact hl

omit [DecidableEq L] [DecidableEq C] in
theorem Decides.exists_joint {select : Selector C L} (h : planner.Decides select)
    (d : Distribution C) : ∃ actions ∈ cartesian ((planner.choices d).map Prod.snd),
      ∀ c ∈ ((planner.choices d).map Prod.fst).zip actions,
        select (n + 1) c.1.1 = some c.2 := by
  obtain ⟨actions, hactions⟩ : ∃ actions, List.Forall₂ (fun l (c : (C × ℚ) × List L) =>
      l ∈ c.2 ∧ select (n + 1) c.1.1 = some l) actions (planner.choices d) := by
    refine exists_forall₂ fun c hc => ?_
    obtain ⟨-, hc, hne⟩ := mem_choices hc
    rw [hc] at hne ⊢
    exact h n c.1.1 hne
  refine ⟨actions, ?_, fun c hc => ?_⟩
  · rw [mem_cartesian, List.forall₂_map_right_iff]
    exact hactions.imp fun _ _ h => h.1
  · rw [List.zip_map_left, List.mem_map] at hc
    obtain ⟨⟨x, l⟩, hx, rfl⟩ := hc
    exact ((List.forall₂_iff_zip.mp hactions.flip).2 hx).2

theorem stage_solves (htotal : planner.Total) (hlawful : planner.Lawful view)
    {continuation : Distribution C → Except PyError (List P)}
    (hcont : ∀ d, (d.map Prod.fst).Nodup → (∀ e ∈ d, 0 < e.2) →
      ∃ points, continuation d = .ok points ∧ planner.Solved view n d points)
    {d : Distribution C} (hnodup : (d.map Prod.fst).Nodup) (hpos : ∀ e ∈ d, 0 < e.2) :
    ∃ points, stage (m := Except PyError) (pure ()) planner (n + 1) continuation d = .ok points ∧
      planner.Solved view (n + 1) d points := by
  unfold stage
  split
  · rename_i hnil
    exact ⟨_, rfl, solved_zero hlawful (.inr (by simp [hnil]))⟩
  · dsimp only
    split
    · rename_i hnil
      refine ⟨_, rfl, solved_zero hlawful (.inr fun e he => ?_)⟩
      by_contra hne
      have hmem := mem_choices_of he (hpos e he) hne
      rw [hnil] at hmem
      cases hmem
    · have hsub : ((planner.choices d).map Prod.fst).Sublist d := choices_sublist d
      have hrows := fun (actions : List L)
          (hactions : actions ∈ cartesian ((planner.choices d).map Prod.snd)) =>
        (joint_zip hactions).row htotal hlawful (fun e he => hpos e (hsub.subset he))
          (hnodup.sublist (hsub.map Prod.fst)) hcont
      obtain ⟨rows, hmapM⟩ := mapM_returns fun actions hactions =>
        (hrows actions hactions).elim fun row hrow => ⟨row, hrow.1⟩
      have hrow : ∀ actions ∈ cartesian ((planner.choices d).map Prod.snd), ∃ row ∈ rows,
          planner.Row view (n + 1) ((planner.choices d).map Prod.fst)
            (((planner.choices d).map Prod.fst).zip actions) row := by
        intro actions hactions
        obtain ⟨row, hcandidates, hspec⟩ := hrows actions hactions
        obtain ⟨row', hmem, hrow'⟩ := exists_of_mapM hmapM hactions
        cases hcandidates.symm.trans hrow'
        exact ⟨row, hmem, hspec⟩
      refine ⟨_, bind_eq_ok.mpr ⟨rows, hmapM, rfl⟩, Solved.of_choices hpos
        (solved_prune hlawful (fun select hdecides => ?_) fun p hp => ?_)⟩
      · obtain ⟨actions, hactions, hsel⟩ := hdecides.exists_joint d
        obtain ⟨row, hmem, hspec⟩ := hrow actions hactions
        obtain ⟨q, hq, hle⟩ := hspec.covers select hdecides hsel
        exact ⟨q, List.mem_flatten.mpr ⟨row, hmem, hq⟩, hle⟩
      · obtain ⟨row, hmem, hp⟩ := List.mem_flatten.mp hp
        obtain ⟨actions, hactions, hcandidates⟩ := mem_of_mapM hmapM hmem
        obtain ⟨row', hrow', hspec⟩ := hrows actions hactions
        cases hrow'.symm.trans hcandidates
        exact ⟨hspec.follows p hp, hspec.value_eq p hp, hspec.bounded p hp⟩

/-- The recursion returns, and solves every distribution. -/
theorem direct_solves (htotal : planner.Total) (hlawful : planner.Lawful view) (n : ℕ)
    (d : Distribution C) (hnodup : (d.map Prod.fst).Nodup) (hpos : ∀ e ∈ d, 0 < e.2) :
    ∃ points, planner.direct n d = .ok points ∧ planner.Solved view n d points := by
  induction n generalizing d with
  | zero => exact ⟨_, rfl, solved_zero hlawful (.inl rfl)⟩
  | succ n ih => exact stage_solves htotal hlawful ih hnodup hpos

omit [DecidableEq L] in
/-- What the zero point has, and combining with available actions keeps, every point has. -/
theorem direct_invariant {Q : P → Prop} (hzero : Q planner.zero)
    (hprune : ∀ points, ∀ p ∈ planner.prune points, p ∈ points)
    (hcombine : ∀ immediate current p q, (∀ x ∈ current, x.2 ∈ planner.actions x.1.2) → Q p →
      planner.combine immediate current p = .ok (some q) → Q q)
    {d : Distribution C} {points : List P} (h : planner.direct n d = .ok points) :
    ∀ p ∈ points, Q p := by
  have hone : ∀ p ∈ [planner.zero], Q p := by simpa using hzero
  induction n generalizing d points with
  | zero =>
    cases h
    exact hone
  | succ n ih =>
    rw [direct, stage] at h
    split at h
    · cases h
      exact hone
    · dsimp only at h
      split at h
      · cases h
        exact hone
      · obtain ⟨rows, hrows, h⟩ := bind_eq_ok.mp h
        rw [← pure_eq_ok.mp h]
        intro q hq
        obtain ⟨row, hrow, hq⟩ := List.mem_flatten.mp (hprune _ q hq)
        obtain ⟨actions, hactions, hcandidates⟩ := mem_of_mapM hrows hrow
        obtain ⟨⟨immediate, successors⟩, -, hcandidates⟩ := bind_eq_ok.mp hcandidates
        obtain ⟨continuation, hcontinuation, hcandidates⟩ := bind_eq_ok.mp hcandidates
        obtain ⟨combined, hcombined, hcandidates⟩ := bind_eq_ok.mp hcandidates
        rw [← pure_eq_ok.mp hcandidates] at hq
        obtain ⟨o, ho, rfl⟩ : ∃ o ∈ combined, o = some q := by simpa using hq
        obtain ⟨p, hp, hpoint⟩ := mem_of_mapM hcombined ho
        refine hcombine _ _ p q (fun x hx => ?_) (ih hcontinuation p hp) hpoint
        obtain ⟨c, hc, rfl⟩ := List.mem_map.mp hx
        exact (joint_zip hactions).available c hc

omit [DecidableEq L] in
/-- The points are the zero point alone, or pruned. -/
theorem direct_pruned {d : Distribution C} {points : List P}
    (h : planner.direct n d = .ok points) :
    points = [planner.zero] ∨ ∃ candidates, points = planner.prune candidates := by
  cases n with
  | zero =>
    cases h
    exact .inl rfl
  | succ n =>
    rw [direct, stage] at h
    split at h
    · cases h
      exact .inl rfl
    · dsimp only at h
      split at h
      · cases h
        exact .inl rfl
      · obtain ⟨rows, -, h⟩ := bind_eq_ok.mp h
        exact .inr ⟨rows.flatten, (pure_eq_ok.mp h).symm⟩

end Stage

/-! ## The extremes of a frontier -/

theorem obeys_of_follows (htotal : planner.Total) (gain : Move C → ℚ) (select : Selector C L) :
    (planner.process gain).Obeys (planner.Follows select) (planner.law gain select) := by
  constructor
  · rintro n c (hnil | ⟨l, hl, hsel, -⟩) hlaw
    · exact hnil
    · obtain ⟨move, hmove⟩ := htotal.returns c l hl
      rw [law_takes hl hsel hmove] at hlaw
      cases hlaw
  · rintro n c bs (hnil | ⟨l, hl, hsel, -⟩) hlaw
    · cases hsel : select (n + 1) c <;> simp [law, hsel, hnil] at hlaw
    · exact ⟨l, hl, by simpa [law, hsel, hl] using hlaw.symm⟩
  · rintro n c bs (hnil | ⟨l, hl, hsel, hf⟩) hlaw b hb t ht
    · cases hsel : select (n + 1) c <;> simp [law, hsel, hnil] at hlaw
    · obtain ⟨move, hmove⟩ := htotal.returns c l hl
      rw [law_takes hl hsel hmove] at hlaw
      cases hlaw
      rcases List.mem_cons.mp hb with rfl | hb
      · cases ht
      · obtain ⟨e, he, rfl⟩ := List.mem_map.mp hb
        cases ht
        exact hf move hmove e he

theorem value_le_best (htotal : planner.Total) {gain : Move C → ℚ} {select : Selector C L} {c : C}
    (h : planner.Follows select n c) :
    value (planner.law gain select) n c ≤ (planner.process gain).best n c :=
  (obeys_of_follows htotal gain select).value_le_best (htotal.weight_nonneg gain) h

omit [DecidableEq L] in
theorem decides_greedy (planner : CellPlanner C L P) (gain : Move C → ℚ) :
    planner.Decides (planner.process gain).greedySelector := by
  intro n c hne
  have hsome : (planner.process gain).greedy ((planner.process gain).best n) c ≠ none :=
    mt Process.greedy_eq_none.mp hne
  obtain ⟨l, hl⟩ := Option.ne_none_iff_exists'.mp hsome
  exact ⟨l, Process.greedy_mem hl, hl⟩

theorem value_greedy (planner : CellPlanner C L P) (gain : Move C → ℚ) (n : ℕ) :
    value (planner.law gain (planner.process gain).greedySelector) n =
      (planner.process gain).best n := by
  refine Process.value_eq_best (fun n c => ?_) n
  rw [law, Process.greedySelector]
  cases hl : (planner.process gain).greedy ((planner.process gain).best n) c with
  | none => rfl
  | some l => simp [show l ∈ planner.actions c from Process.greedy_mem hl]

theorem massSum_mono {V W : C → ℚ} {d : Distribution C} (hpos : ∀ e ∈ d, 0 < e.2)
    (h : ∀ e ∈ d, V e.1 ≤ W e.1) : massSum V d ≤ massSum W d :=
  List.sum_le_sum fun e he => mul_le_mul_of_nonneg_left (h e he) (hpos e he).le

theorem massSum_nonneg {V : C → ℚ} {d : Distribution C} (hpos : ∀ e ∈ d, 0 < e.2)
    (h : ∀ e ∈ d, 0 ≤ V e.1) : 0 ≤ massSum V d := by
  simpa [massSum] using massSum_mono (V := fun _ => 0) hpos h

theorem massSum_le_mass {V : C → ℚ} {d : Distribution C} (hpos : ∀ e ∈ d, 0 < e.2)
    (h : ∀ e ∈ d, V e.1 ≤ 1) : massSum V d ≤ (d.map Prod.snd).sum := by
  simpa [massSum] using massSum_mono (W := fun _ => 1) hpos h

theorem massSum_neg (V : C → ℚ) (d : Distribution C) :
    massSum (fun c => -V c) d = -massSum V d := by
  induction d with
  | nil => simp [massSum]
  | cons e d ih =>
    simp only [massSum, List.map_cons, List.sum_cons] at ih ⊢
    rw [ih]
    ring

theorem law_neg_failure (planner : CellPlanner C L P) (select : Selector C L) :
    planner.law (fun move => -move.failure) select =
      fun n c => (planner.law Move.failure select n c).map (List.map Branch.neg) := by
  funext n c
  cases hsel : select n c with
  | none => simp [law, hsel]
  | some l =>
    by_cases hl : l ∈ planner.actions c
    · cases hmove : planner.move c l <;>
        simp [law, hsel, hl, process, hmove, Except.toOption, Move.branches, Branch.neg]
    · simp [law, hsel, hl]

theorem value_neg_failure (planner : CellPlanner C L P) (select : Selector C L) (n : ℕ) :
    value (planner.law (fun move => -move.failure) select) n =
      fun c => -value (planner.law Move.failure select) n c := by
  rw [law_neg_failure, value_neg]

/-- Where failing and continuing share at most the whole mass, failure is a probability. -/
theorem value_failure_mem (htotal : planner.Total)
    (hmass : ∀ c, ∀ l ∈ planner.actions c, ∀ move, planner.move c l = .ok move →
      0 ≤ move.failure ∧ move.failure + (move.successors.map Prod.snd).sum ≤ 1)
    {select : Selector C L} {c : C} (h : planner.Follows select n c) :
    0 ≤ value (planner.law Move.failure select) n c ∧
      value (planner.law Move.failure select) n c ≤ 1 := by
  induction n generalizing c with
  | zero => exact ⟨le_rfl, zero_le_one⟩
  | succ n ih =>
    rcases h with hnil | ⟨l, hl, hsel, hnext⟩
    · rw [value_idle hnil]
      exact ⟨le_rfl, zero_le_one⟩
    · obtain ⟨move, hmove⟩ := htotal.returns c l hl
      obtain ⟨hnonneg, hle⟩ := hmass c l hl move hmove
      have hpos := htotal.positive c l hl move hmove
      rw [value_takes hl hsel hmove]
      constructor
      · exact add_nonneg hnonneg
          (massSum_nonneg hpos fun e he => (ih (hnext move hmove e he)).1)
      · exact (add_le_add_right (massSum_le_mass hpos fun e he =>
          (ih (hnext move hmove e he)).2) _).trans hle

/-- The largest reward of a frontier is the best one. -/
theorem Solved.isGreatest_reward (htotal : planner.Total) {d : Distribution C} {points : List P}
    (h : planner.Solved view n d points) (hpos : ∀ e ∈ d, 0 < e.2) :
    IsGreatest {r | ∃ p ∈ points, (view.value p).1 = r}
      (massSum ((planner.process Move.reward).best n) d) := by
  have hle : ∀ p ∈ points, (view.value p).1 ≤ massSum ((planner.process Move.reward).best n) d := by
    intro p hp
    rw [h.value_eq p hp]
    exact massSum_mono hpos fun e he => value_le_best htotal (h.follows p hp e he)
  refine ⟨?_, ?_⟩
  · obtain ⟨p, hp, hge⟩ := h.covers _ (decides_greedy planner Move.reward)
    refine ⟨p, hp, le_antisymm (hle p hp) ?_⟩
    rw [← value_greedy]
    exact hge.1
  · rintro _ ⟨p, hp, rfl⟩
    exact hle p hp

/-- The smallest failure of a frontier is the best one. -/
theorem Solved.isLeast_failure (htotal : planner.Total) {d : Distribution C} {points : List P}
    (h : planner.Solved view n d points) (hpos : ∀ e ∈ d, 0 < e.2) :
    IsLeast {f | ∃ p ∈ points, OrderDual.ofDual (view.value p).2 = f}
      (-massSum ((planner.process fun move => -move.failure).best n) d) := by
  have hfailure : ∀ select : Selector C L, -massSum (value (planner.law Move.failure select) n) d =
      massSum (value (planner.law (fun move => -move.failure) select) n) d := by
    intro select
    rw [value_neg_failure, massSum_neg]
  have hle : ∀ p ∈ points, -massSum ((planner.process fun move => -move.failure).best n) d ≤
      OrderDual.ofDual (view.value p).2 := by
    intro p hp
    rw [h.value_eq p hp]
    refine neg_le.mp ((hfailure _).trans_le ?_)
    exact massSum_mono hpos fun e he => value_le_best htotal (h.follows p hp e he)
  refine ⟨?_, ?_⟩
  · obtain ⟨p, hp, hge⟩ := h.covers _ (decides_greedy planner fun move => -move.failure)
    refine ⟨p, hp, le_antisymm ?_ (hle p hp)⟩
    rw [← value_greedy, ← hfailure, neg_neg]
    exact hge.2
  · rintro _ ⟨p, hp, rfl⟩
    exact hle p hp

end Solving

end CellPlanner

end Acfqp.Planning
