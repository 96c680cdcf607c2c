import Acfqp.Abstraction.Nominal
import Acfqp.Planning.CompositionExact
import Acfqp.Planning.Occupancy

/-!
# Policy proposal on the nominal quotient

The planner composes the nominal transitions jointly over the cells that carry mass. Its result is
exact for the nominal model, and still requires an audit.
-/

namespace Acfqp.Planning

open Library Abstraction

variable {S A C L : Type}

structure NominalParetoResult (C L : Type) where
  frontier : List (ParetoPoint C L)
  selected : Option (ParetoPoint C L)
  composedCandidateCount : ℕ

section Solver

variable [DecidableEq C] [PyRepr C] [DecidableEq L] [PyRepr L]

def paretoPlanner (actions : C → List L) (move : C → L → Except PyError (Move C)) :
    CellPlanner C L (ParetoPoint C L) where
  actions := actions
  move := move
  canonical := canonicalDistribution
  zero := zeroPoint
  combine := combinePoint
  prune := paretoPrune

def NominalActionModel.move (weights : Features) (m : NominalActionModel C) : Move C :=
  ⟨m.reward weights, m.failureProbability, m.successorProbabilities⟩

def nominalPlanner (nominal : NominalQuotient S C L) (weights : Features) (goalCells : List C) :
    CellPlanner C L (ParetoPoint C L) :=
  paretoPlanner (fun cell => if cell ∈ goalCells then [] else nominal.actions cell)
    fun cell action => NominalActionModel.move weights <$> nominal.transition cell action

def solveNominalPareto [DecidableEq S] [PyRepr S] (nominal : NominalQuotient S C L)
    (query : QuerySpec S) (goalCells : List C) : Except PyError (NominalParetoResult C L) := do
  require (query.horizon ≤ nominal.horizon)
    (.valueError "query horizon lies outside the nominal model horizon")
  let planner := nominalPlanner nominal (rewardWeights query) goalCells
  let initial ← query.initialDistribution.mapM fun p => do
    let cell ← nominal.partition.cellOf p.2
    return (cell, p.1)
  let initialMass := tally initial
  require (initialMass ≠ []) (.valueError "query initial distribution must not be empty")
  require ((initialMass.map Prod.snd).sum = 1)
    (.valueError "query initial probabilities must sum to one")
  let (frontier, _, composed) ←
    planner.frontierFor query.horizon (planner.canonical initialMass) ([], 0)
  return ⟨frontier, selectConstrained frontier query.delta, composed⟩

end Solver

/-! ## The planner is lawful -/

section

variable [DecidableEq C] [PyRepr C] [DecidableEq L] [PyRepr L]

def paretoView : CellPlanner.PointView C L (ParetoPoint C L) where
  value := ParetoPoint.value
  select p := p.policy.select

theorem paretoPlanner_lawful (actions : C → List L) (move : C → L → Except PyError (Move C)) :
    (paretoPlanner actions move).Lawful paretoView where
  zero_value := rfl
  zero_select _ _ := rfl
  canonical d := perm_sortBy _ _
  prune_mem _ _ := mem_paretoPrune
  prune_frontier points := paretoPrune_frontier points
  combine_returns := by
    intro immediate current p hpos hfresh hnodup
    have hnot : ∀ x ∈ current, x.1 ∉ p.policy.asDict.map Prod.fst := by
      intro x hx hmem
      obtain ⟨y, hy, heq⟩ := List.mem_map.mp hmem
      have hsome : p.policy.select x.1.1 x.1.2 = some y.2 := by
        rw [← heq]
        exact mem_asDict_iff_select.mp hy
      rw [show p.policy.select x.1.1 x.1.2 = none from hfresh x hx] at hsome
      cases hsome
    have hpositive : ∀ x ∈ p.policy.asDict ++ current, 0 < x.1.1 := by
      intro x hx
      rcases List.mem_append.mp hx with hx | hx
      · obtain ⟨d, -, rfl⟩ := List.mem_map.mp hx
        exact d.remaining_pos
      · exact hpos x hx
    have hkeys : ((p.policy.asDict ++ current).map Prod.fst).Nodup := by
      rw [List.map_append, List.nodup_append]
      refine ⟨p.policy.nodup_keys_asDict, hnodup, ?_⟩
      rintro k hk _ hmem rfl
      obtain ⟨x, hx, rfl⟩ := List.mem_map.mp hmem
      exact hnot x hx hk
    obtain ⟨policy, hpolicy⟩ := FiniteHorizonPolicy.fromMapping_returns hpositive hkeys
    refine ⟨⟨immediate.1 + p.expectedReward, immediate.2 + p.failureProbability, policy⟩, ?_, rfl,
      fun n c l => ?_⟩
    · change combinePoint immediate current p = _
      rw [combinePoint, mergeDecisions_fresh hnot hnodup]
      exact bind_eq_ok.mpr ⟨policy, hpolicy, rfl⟩
    · exact (select_fromMapping hpolicy).trans
        (List.mem_append.trans (or_congr_left mem_asDict_iff_select))

variable {actions : C → List L} {move : C → L → Except PyError (Move C)}

/-- Every decision of a point takes an action of its own cell. -/
theorem paretoPlanner_available {n : ℕ} {d : Distribution C} {points : List (ParetoPoint C L)}
    (h : (paretoPlanner actions move).direct n d = .ok points) :
    ∀ p ∈ points, ∀ x ∈ p.policy.asDict, x.2 ∈ actions x.1.2 := by
  refine CellPlanner.direct_invariant (fun x hx => nomatch hx) (fun _ _ => mem_paretoPrune)
    (fun immediate current p q hcurrent hp hq x hx => ?_) h
  rcases mem_combinePoint hq hx with hx | hx
  · exact hp x hx
  · exact hcurrent x hx

end

/-! ## The solver is exact for the nominal model -/

section

variable [DecidableEq S] [PyRepr S] [DecidableEq C] [PyRepr C] [DecidableEq L] [PyRepr L]

/-- The successor masses of every nominal transition are positive. -/
def Positive (nominal : NominalQuotient S C L) : Prop :=
  ∀ e ∈ nominal.entries, ∀ x ∈ e.model.successorProbabilities, 0 < x.2

omit [DecidableEq S] [PyRepr S] [DecidableEq L] in
theorem positive_buildNominalQuotient (envelope : ExactRealizationEnvelope S A C L) :
    Positive (buildNominalQuotient envelope) := by
  intro e he x hx
  obtain ⟨y, -, -, rfl⟩ := mem_entries_buildNominalQuotient.mp he
  simpa using (List.mem_filter.mp hx).2

omit [DecidableEq S] [PyRepr S] in
theorem nominalPlanner_total {nominal : NominalQuotient S C L} (h : Positive nominal)
    (weights : Features) (goalCells : List C) :
    (nominalPlanner nominal weights goalCells).Total := by
  have hopen : ∀ c, ∀ l ∈ (nominalPlanner nominal weights goalCells).actions c,
      l ∈ nominal.actions c := by
    intro c l hl
    by_cases hc : c ∈ goalCells
    · simp [nominalPlanner, paretoPlanner, hc] at hl
    · simpa [nominalPlanner, paretoPlanner, hc] using hl
  constructor
  · intro c l hl
    obtain ⟨model, hmodel⟩ := NominalQuotient.transition_returns (hopen c l hl)
    exact ⟨_, map_eq_ok.mpr ⟨model, hmodel, rfl⟩⟩
  · intro c l hl move hmove e he
    obtain ⟨model, hmodel, rfl⟩ := map_eq_ok.mp hmove
    obtain ⟨x, hx, -, -, rfl⟩ := NominalQuotient.transition_eq_ok hmodel
    exact h x hx e he

def initialCells (partition : Partition S C) (query : QuerySpec S) :
    Except PyError (List (C × ℚ)) :=
  query.initialDistribution.mapM fun p => do
    let cell ← partition.cellOf p.2
    return (cell, p.1)

omit [DecidableEq C] [PyRepr C] in
theorem initialCells_pos {partition : Partition S C} {query : QuerySpec S}
    {initial : List (C × ℚ)} (h : initialCells partition query = .ok initial) :
    ∀ e ∈ initial, 0 < e.2 := by
  intro e he
  obtain ⟨p, hp, he⟩ := mem_of_mapM h he
  obtain ⟨c, -, he⟩ := bind_eq_ok.mp he
  rw [← pure_eq_ok.mp he]
  exact query.initial_pos p hp

omit [DecidableEq C] [PyRepr C] in
theorem sum_initialCells {partition : Partition S C} {query : QuerySpec S}
    {initial : List (C × ℚ)} (h : initialCells partition query = .ok initial) {V : C → ℚ}
    {W : S → ℚ} (hVW : ∀ p ∈ query.initialDistribution, ∀ c,
      partition.cellOf p.2 = .ok c → V c = W p.2) :
    (initial.map fun e => e.2 * V e.1).sum =
      (query.initialDistribution.map fun p => p.1 * W p.2).sum := by
  congr 1
  refine map_of_mapM h fun p hp e he => ?_
  obtain ⟨c, hc, he⟩ := bind_eq_ok.mp he
  rw [← pure_eq_ok.mp he, hVW p hp c hc]

theorem massSum_initialCells {partition : Partition S C} {query : QuerySpec S}
    {initial : List (C × ℚ)} (h : initialCells partition query = .ok initial) {V : C → ℚ}
    {W : S → ℚ} (hVW : ∀ p ∈ query.initialDistribution, ∀ c,
      partition.cellOf p.2 = .ok c → V c = W p.2) :
    massSum V (canonicalDistribution (tally initial)) =
      (query.initialDistribution.map fun p => p.1 * W p.2).sum := by
  have hpos : ∀ e ∈ tally initial, 0 < e.2 :=
    tally_totals (fun _ _ => add_pos) (initialCells_pos h)
  rw [massSum_canonicalDistribution V hpos, massSum, sum_tally_mul, sum_initialCells h hVW]

/-- The solver returns on every registered query of a registered horizon, and its frontier is that
of the initial cells. -/
theorem solveNominalPareto_solves {nominal : NominalQuotient S C L} (hpos : Positive nominal)
    {query : QuerySpec S} (goalCells : List C) (hhorizon : query.horizon ≤ nominal.horizon)
    (hregistered : ∀ p ∈ query.initialDistribution, ∃ c, nominal.partition.cellOf p.2 = .ok c) :
    ∃ result initial, solveNominalPareto nominal query goalCells = .ok result ∧
      initialCells nominal.partition query = .ok initial ∧
      (nominalPlanner nominal (rewardWeights query) goalCells).Solved paretoView query.horizon
        (canonicalDistribution (tally initial)) result.frontier := by
  obtain ⟨initial, hinitial⟩ : ∃ initial, initialCells nominal.partition query = .ok initial := by
    refine mapM_returns fun p hp => ?_
    obtain ⟨c, hc⟩ := hregistered p hp
    exact ⟨(c, p.1), bind_eq_ok.mpr ⟨c, hc, rfl⟩⟩
  obtain ⟨points, hpoints, hsolved⟩ := CellPlanner.direct_solves
    (nominalPlanner_total hpos (rewardWeights query) goalCells) (paretoPlanner_lawful _ _)
    query.horizon (canonicalDistribution (tally initial))
    (nodup_canonicalDistribution (nodup_keys_tally initial))
    fun e he => (mem_canonicalDistribution.mp he).2
  obtain ⟨table, htable⟩ := CellPlanner.frontierFor_returns hpoints
  have hsum : ((tally initial).map Prod.snd).sum = 1 := by
    have htally := sum_tally_mul (fun _ => (1 : ℚ)) initial
    have hcells := sum_initialCells (W := fun _ => 1) (V := fun _ => 1) hinitial fun _ _ _ _ => rfl
    simp only [mul_one] at htally hcells
    exact htally.trans (hcells.trans query.initial_sum)
  have hne : tally initial ≠ [] := by
    intro hnil
    simp [hnil] at hsum
  refine ⟨⟨points, selectConstrained points query.delta, table.2⟩, initial, ?_, hinitial, hsolved⟩
  refine bind_eq_ok.mpr ⟨(), require_eq_ok.mpr hhorizon, bind_eq_ok.mpr ⟨initial, hinitial, ?_⟩⟩
  refine bind_eq_ok.mpr ⟨(), require_eq_ok.mpr hne, bind_eq_ok.mpr ⟨(), require_eq_ok.mpr hsum, ?_⟩⟩
  exact bind_eq_ok.mpr ⟨(points, table), htable, rfl⟩

end

end Acfqp.Planning
