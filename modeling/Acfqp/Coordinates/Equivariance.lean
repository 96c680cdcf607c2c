import Acfqp.Coordinates.Programs
import Acfqp.Coordinates.Relabelling

/-!
# Equivariant programs

A program of the grammar takes a relabelled covariate to the relabelled value, and tells programs
apart on it exactly when it tells them apart on the covariate.
-/

namespace Acfqp.Coordinates

open Library Acfqp.Graph

variable {ι : Type} {σ : Equiv.Perm ℕ}

/-- A covariate under the new names of its vertices. -/
structure Relabelled (σ : Equiv.Perm ℕ) (c c' : EvaluationCovariate ι) : Prop where
  vertexCount : c'.topology.vertexCount = c.topology.vertexCount
  keeps : Keeps σ c.topology.vertexCount
  neighbors : ∀ v, c'.topology.neighbors (σ v) =
    (Finset.map σ.toEmbedding) <$> c.topology.neighbors v
  keepsRanks : Keeps σ c.state.ranks.length
  ranks : c'.state.ranks = relabelRanks σ c.state.ranks
  action : c'.action.map (·.move) = c.action.map fun a => relabelAction σ a.move
  legalActions : c'.legalActions.length = c.legalActions.length

theorem Relabelled.actions {c c' : EvaluationCovariate ι} (h : Relabelled σ c c')
    (hsome : c.action.isSome) : ∃ action action', c.action = some action ∧
      c'.action = some action' ∧ action'.move = relabelAction σ action.move := by
  obtain ⟨action, haction⟩ := Option.isSome_iff_exists.mp hsome
  have hmap := h.action
  rw [haction, Option.map_some, Option.map_eq_some_iff] at hmap
  obtain ⟨action', haction', hmove⟩ := hmap
  exact ⟨action, action', haction, haction', hmove⟩

/-- The only exception of a program whose context has an action. -/
def neighborError : GraphError := .core "neighbor lookup vertex is outside the graph"

theorem neighbors_raises (topology : GraphTopology) (v : ℕ) :
    Raises (· = neighborError) (topology.neighbors v) :=
  .bind (.require rfl) fun _ _ => .pure

/-! ## The signature of ranks and degrees -/

theorem occupied_relabelRanks {ranks : List ℕ} (h : Keeps σ ranks.length) :
    (occupied (relabelRanks σ ranks)).Perm ((occupied ranks).map fun e => (e.1, σ e.2)) := by
  refine ((zipIdx_relabelRanks h).filter _).trans (List.Perm.of_eq ?_)
  rw [List.filter_map]
  rfl

theorem rankDegreeSignature_relabelled {c c' : EvaluationCovariate ι} (h : Relabelled σ c c') :
    Agree Eq neighborError (rankDegreeSignature c.topology c.state.ranks)
      (rankDegreeSignature c'.topology c'.state.ranks) := by
  unfold rankDegreeSignature
  rw [h.ranks, min?_of_perm ((perm_relabelRanks h.keepsRanks).filter _)]
  generalize ((c.state.ranks.filter (0 < ·)).min?).getD 0 = minimum
  have hraises : ∀ topology : GraphTopology, ∀ v : ℕ × ℕ, Raises (· = neighborError)
      (do
        let neighbors ← topology.neighbors v.2
        return (v.1 - minimum, neighbors.card)) :=
    fun topology v => .bind (neighbors_raises topology v.2) fun _ _ => .pure
  have hdegree : ∀ v : ℕ × ℕ, (do
      let neighbors ← c'.topology.neighbors (σ v.2)
      return (v.1 - minimum, neighbors.card)) = (do
      let neighbors ← c.topology.neighbors v.2
      return (v.1 - minimum, neighbors.card) : Except GraphError (ℕ × ℕ)) := by
    intro v
    rw [h.neighbors]
    cases c.topology.neighbors v.2 with
    | error e => rfl
    | ok neighbors => exact congrArg (fun n => Except.ok (v.1 - minimum, n)) (Finset.card_map _)
  have hmap : ((occupied c.state.ranks).map fun e => (e.1, σ e.2)).mapM (fun v => do
      let neighbors ← c'.topology.neighbors v.2
      return (v.1 - minimum, neighbors.card)) = (occupied c.state.ranks).mapM (fun v => do
      let neighbors ← c.topology.neighbors v.2
      return (v.1 - minimum, neighbors.card)) := by
    rw [List.mapM_map]
    exact mapM_congr fun v _ => hdegree v
  have hperm := mapM_perm (occupied_relabelRanks h.keepsRanks).symm fun v _ =>
    hraises c'.topology v
  rw [hmap] at hperm
  refine hperm.bind fun degrees degrees' hdegrees => .inr ⟨_, _, rfl, rfl, ?_⟩
  exact sortBy_eq_of_injective (fun d d' hd => toLex.injective hd) hdegrees

/-- A value under the new names of the vertices. -/
def Corresponds (σ : Equiv.Perm ℕ) (c c' : EvaluationCovariate ι) :
    (τ : GraphProgramType) → Value ι τ → Value ι τ → Prop
  | .cellSet, cells, cells' => cells' = Finset.map σ.toEmbedding cells
  | .actionSet, actions, actions' => actions = c.legalActions ∧ actions' = c'.legalActions
  | .cell, cell, cell' => cell' = σ cell
  | .integer, value, value' => value' = value
  | .signature, value, value' => value' = value

theorem adjacent_relabelled {c c' : EvaluationCovariate ι} (h : Relabelled σ c c') (v : ℕ)
    (s : Finset ℕ) : Agree (Corresponds σ c c' .cellSet) neighborError
      (do
        let neighbors ← c.topology.neighbors v
        .ok (neighbors ∩ s : Finset ℕ))
      (do
        let neighbors ← c'.topology.neighbors (σ v)
        .ok (neighbors ∩ s.map σ.toEmbedding : Finset ℕ)) := by
  rw [h.neighbors]
  cases hn : c.topology.neighbors v with
  | error e =>
    obtain rfl := neighbors_raises _ _ e hn
    exact .inl ⟨rfl, rfl⟩
  | ok neighbors => exact .inr ⟨_, _, rfl, rfl, (Finset.map_inter _ _).symm⟩

theorem evaluateProgram_relabelled {c c' : EvaluationCovariate ι} (h : Relabelled σ c c')
    {τ : GraphProgramType} (program : GraphCoordinateProgram τ)
    (hcontext : program.context = .stateAction → c.action.isSome) :
    Agree (Corresponds σ c c' τ) neighborError (evaluateProgram c program)
      (evaluateProgram c' program) := by
  induction program with
  | allCells =>
    refine .inr ⟨_, _, rfl, rfl, ?_⟩
    change Finset.range _ = Finset.map _ (Finset.range _)
    rw [h.vertexCount]
    ext v
    obtain ⟨u, rfl⟩ := σ.surjective v
    simp [h.keeps u]
  | occupiedCells =>
    refine .inr ⟨_, _, rfl, rfl, ?_⟩
    change List.toFinset _ = Finset.map _ (List.toFinset _)
    ext v
    obtain ⟨u, rfl⟩ := σ.surjective v
    rw [h.ranks, List.mem_toFinset, ((occupied_relabelRanks h.keepsRanks).map _).mem_iff]
    simp
  | legalActions => exact .inr ⟨_, _, rfl, rfl, rfl, rfl⟩
  | survivorCell =>
    obtain ⟨action, action', haction, haction', hmove⟩ := h.actions (hcontext rfl)
    refine .inr ⟨action.move.survivor, action'.move.survivor, ?_, ?_, ?_⟩
    · simp [evaluateProgram, haction, orRaise]
      rfl
    · simp [evaluateProgram, haction', orRaise]
      rfl
    · rw [hmove]
      rfl
  | pairCells =>
    obtain ⟨action, action', haction, haction', hmove⟩ := h.actions (hcontext rfl)
    refine .inr ⟨({action.move.edge.first, action.move.edge.second} : Finset ℕ),
      ({action'.move.edge.first, action'.move.edge.second} : Finset ℕ), ?_, ?_, ?_⟩
    · simp [evaluateProgram, haction, orRaise]
      rfl
    · simp [evaluateProgram, haction', orRaise]
      rfl
    · change ({_, _} : Finset ℕ) = Finset.map _ {_, _}
      rw [hmove]
      obtain ⟨hfirst, hsecond⟩ | ⟨hfirst, hsecond⟩ := relabelEdge_cases σ action.move.edge
      · simp [relabelAction, hfirst, hsecond, Finset.map_insert]
      · simp [relabelAction, hfirst, hsecond, Finset.map_insert, Finset.pair_comm]
  | rankDegreeSignature =>
    obtain herror | ⟨value, _, hvalue, hvalue', rfl⟩ := rankDegreeSignature_relabelled h
    · exact .inl herror
    · exact .inr ⟨value, value, hvalue, hvalue', rfl⟩
  | cardinalityCells cells ih =>
    refine (ih hcontext).bind fun value value' hvalue => .inr ⟨_, _, rfl, rfl, ?_⟩
    obtain rfl := hvalue
    exact Finset.card_map _
  | cardinalityActions actions ih =>
    refine (ih hcontext).bind fun value value' hvalue => .inr ⟨_, _, rfl, rfl, ?_⟩
    obtain ⟨rfl, rfl⟩ := hvalue
    exact h.legalActions
  | adjacentFilter vertex cells ihv ihc =>
    simp only [GraphCoordinateProgram.context] at hcontext
    refine (ihv fun hv => hcontext (if_pos (.inl hv))).bind fun v v' hv => ?_
    refine (ihc fun hc => hcontext (if_pos (.inr hc))).bind fun s s' hs => ?_
    obtain rfl := hv
    obtain rfl := hs
    exact adjacent_relabelled h v s
  | setDifference first second ih₁ ih₂ =>
    simp only [GraphCoordinateProgram.context] at hcontext
    refine (ih₁ fun h₁ => hcontext (if_pos (.inl h₁))).bind fun s s' hs => ?_
    refine (ih₂ fun h₂ => hcontext (if_pos (.inr h₂))).bind fun t t' ht => ?_
    obtain rfl := hs
    obtain rfl := ht
    exact .inr ⟨_, _, rfl, rfl, (Finset.map_sdiff _ _).symm⟩

/-! ## Signatures -/

section

variable (ids : ContentIds ι)

theorem valueKey_relabelled {c c' : EvaluationCovariate ι} {τ : GraphProgramType}
    {a a' b b' : Value ι τ} (ha : Corresponds σ c c' τ a a') (hb : Corresponds σ c c' τ b b') :
    valueKey ids τ a' = valueKey ids τ b' ↔ valueKey ids τ a = valueKey ids τ b := by
  cases τ with
  | cellSet =>
    obtain rfl := ha
    obtain rfl := hb
    have hsort : ∀ s t : Finset ℕ, (ValueKey.cellSet (Finset.sort s) : ValueKey ι) =
        .cellSet (Finset.sort t) ↔ s = t := by
      intro s t
      rw [ValueKey.cellSet.injEq]
      refine ⟨fun h => ?_, fun h => h ▸ rfl⟩
      have := congrArg List.toFinset h
      rwa [Finset.sort_toFinset, Finset.sort_toFinset] at this
    exact (hsort _ _).trans (Finset.map_inj.trans (hsort a b).symm)
  | actionSet =>
    obtain ⟨rfl, rfl⟩ := ha
    obtain ⟨rfl, rfl⟩ := hb
    exact ⟨fun _ => rfl, fun _ => rfl⟩
  | cell =>
    obtain rfl := ha
    obtain rfl := hb
    have hcell : ∀ v w : ℕ, (ValueKey.cell (σ v) : ValueKey ι) = .cell (σ w) ↔
        (ValueKey.cell v : ValueKey ι) = .cell w := by
      intro v w
      rw [ValueKey.cell.injEq, ValueKey.cell.injEq, σ.injective.eq_iff]
    exact hcell a b
  | integer =>
    obtain rfl := ha
    obtain rfl := hb
    rfl
  | signature =>
    obtain rfl := ha
    obtain rfl := hb
    rfl

def programKey (c : EvaluationCovariate ι) {τ : GraphProgramType}
    (program : GraphCoordinateProgram τ) : Except GraphError (ValueKey ι) := do
  let value ← evaluateProgram c program
  return valueKey ids τ value

theorem programKey_agree {c c' : EvaluationCovariate ι} (h : Relabelled σ c c')
    {τ : GraphProgramType} {program : GraphCoordinateProgram τ}
    (hcontext : program.context = .stateAction → c.action.isSome) :
    Agree (fun _ _ => True) neighborError (programKey ids c program) (programKey ids c' program) :=
  (evaluateProgram_relabelled h program hcontext).bind fun _ _ _ => .inr ⟨_, _, rfl, rfl, trivial⟩

theorem programKey_relabelled {c c' : EvaluationCovariate ι} (h : Relabelled σ c c')
    {τ : GraphProgramType} {p q : GraphCoordinateProgram τ}
    (hp : p.context = .stateAction → c.action.isSome)
    (hq : q.context = .stateAction → c.action.isSome) :
    programKey ids c' p = programKey ids c' q ↔ programKey ids c p = programKey ids c q := by
  unfold programKey
  obtain ⟨h₁, h₂⟩ | ⟨a, a', h₁, h₂, ha⟩ := evaluateProgram_relabelled h p hp <;>
    obtain ⟨h₃, h₄⟩ | ⟨b, b', h₃, h₄, hb⟩ := evaluateProgram_relabelled h q hq <;>
    rw [h₁, h₂, h₃, h₄]
  · exact ⟨fun h => (by cases h), fun h => (by cases h)⟩
  · exact ⟨fun h => (by cases h), fun h => (by cases h)⟩
  · change Except.ok _ = Except.ok _ ↔ Except.ok _ = Except.ok _
    rw [Except.ok.injEq, Except.ok.injEq]
    exact valueKey_relabelled ids ha hb

end

end Acfqp.Coordinates
