import Acfqp.Library.Pareto

/-!
# Pruned searches by stages

A search extends its points by the options of one stage after another and prunes after each stage.
When an option adds the same gain to every point, and pruning keeps something at least as good as
each candidate, every list of picks is at most as good as some point of the last frontier.
-/

namespace Acfqp.Library

section Stages

variable {P B O : Type} (prune : List P → List P) (options : B → List O) (extend : P → B → O → P)

def stageCandidates (frontier : List P) (stage : B) : List P :=
  frontier.flatMap fun p => (options stage).map (extend p stage)

/-- One option for every stage. -/
def Picks (stages : List B) (picks : List (B × O)) : Prop :=
  picks.map Prod.fst = stages ∧ ∀ pick ∈ picks, pick.2 ∈ options pick.1

variable {prune options extend}

variable {M : Type} [AddCommMonoid M] {value : P → M} {gain : B → O → M}

variable [PartialOrder M] [IsOrderedAddMonoid M]

end Stages

section

variable {P V : Type} [DecidableEq V] (value : P → V) (better : P → P → Prop) [DecidableRel better]

def keepBetter (table : List (V × P)) (p : P) : List (V × P) :=
  match table.lookup (value p) with
  | none => Dict.assign (value p) p table
  | some incumbent => if better p incumbent then Dict.assign (value p) p table else table

/-- One point of each value. -/
def keepUniqueBy (points : List P) : List P :=
  (points.foldl (keepBetter value better) []).map Prod.snd

/-- The table holds points under their values, and each of the points' values. -/
structure HoldsValues (points : List P) (table : List (V × P)) : Prop where
  sound : ∀ e ∈ table, e.2 ∈ points ∧ value e.2 = e.1
  complete : ∀ p ∈ points, ∃ e ∈ table, e.1 = value p

variable {value better}

theorem HoldsValues.assign {points : List P} {table : List (V × P)}
    (h : HoldsValues value points table) (p : P) :
    HoldsValues value (points ++ [p]) (Dict.assign (value p) p table) where
  sound e he := by
    rcases Dict.mem_assign he with rfl | he
    · simp
    · exact ⟨by simp [(h.sound e he).1], (h.sound e he).2⟩
  complete q hq := by
    by_cases hvalue : value q = value p
    · exact ⟨_, Dict.mem_assign_self .., hvalue.symm⟩
    · rcases List.mem_append.mp hq with hq | hq
      · obtain ⟨e, he, hkey⟩ := h.complete q hq
        exact ⟨e, Dict.mem_assign_of_ne (hkey ▸ hvalue) he, hkey⟩
      · simp_all

theorem HoldsValues.keepBetter {points : List P} {table : List (V × P)}
    (h : HoldsValues value points table) (p : P) :
    HoldsValues value (points ++ [p]) (keepBetter value better table p) := by
  unfold Library.keepBetter
  split
  · exact h.assign p
  · rename_i incumbent hlookup
    split
    · exact h.assign p
    · refine ⟨fun e he => ⟨by simp [(h.sound e he).1], (h.sound e he).2⟩, fun q hq => ?_⟩
      rcases List.mem_append.mp hq with hq | hq
      · exact h.complete q hq
      · obtain rfl : q = p := by simpa using hq
        exact ⟨_, Dict.lookup_mem hlookup, rfl⟩

end

end Acfqp.Library
