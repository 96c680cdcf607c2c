import Acfqp.Library.Loops
import Acfqp.Portable.Model

/-!
# The reward table is the optimum of the frontier

The scalar table holds the best values of the planner's own process, and the largest reward on the
frontier is the best one. So the root of the table is the largest reward on the frontier, whenever
features are nonnegative; then both computations return.
-/

namespace Acfqp.Portable

open Library Planning

variable {model : PortableRAPM} {weights : Features}

/-! ## The planner's process -/

theorem mem_actionsByCell {cell action : PortableId} :
    action ∈ actionsByCell model cell ↔ ∃ e ∈ model.nominal, e.key = (cell, action) := by
  simp only [actionsByCell, mem_sortBy, List.mem_map, List.mem_filter, decide_eq_true_eq,
    NominalEntry.key, Prod.mk.injEq]
  constructor
  · rintro ⟨e, ⟨he, hcell⟩, haction⟩
    exact ⟨e, he, hcell, haction⟩
  · rintro ⟨e, he, hcell, haction⟩
    exact ⟨e, ⟨he, hcell⟩, haction⟩

def NominalEntry.move (weights : Features) (e : NominalEntry) : Move PortableId :=
  ⟨e.model.reward weights, e.model.failureProbability, e.model.successorProbabilities⟩

theorem transitionMove_entry {e : NominalEntry} (he : e ∈ model.nominal) :
    transitionMove model weights e.cellId e.actionId = .ok (e.move weights) := by
  have hfind : model.nominal.find? (fun e' => e'.key = (e.cellId, e.actionId)) = some e := by
    obtain ⟨e', he'⟩ := Option.isSome_iff_exists.mp (List.find?_isSome (p := fun e' =>
      decide (e'.key = (e.cellId, e.actionId))) |>.mpr ⟨e, he, by simp [NominalEntry.key]⟩)
    have hkey : e'.key = e.key := by simpa [NominalEntry.key] using List.find?_some he'
    rw [he', List.inj_on_of_nodup_map model.nominal_unique (List.mem_of_find?_eq_some he') he hkey]
  unfold transitionMove
  rw [bind_of_ok (orRaise_eq_ok.mpr hfind)]
  rfl

theorem transitionMove_eq_ok {cell action : PortableId} {move : Move PortableId}
    (h : transitionMove model weights cell action = .ok move) :
    ∃ e ∈ model.nominal, e.key = (cell, action) ∧ move = e.move weights := by
  obtain ⟨e, he, h⟩ := bind_eq_ok.mp h
  cases h
  have hfind := orRaise_eq_ok.mp he
  exact ⟨e, List.mem_of_find?_eq_some hfind, by simpa using List.find?_some hfind, rfl⟩

/-- The planner has a transition for every action, of positive successor masses. -/
theorem portablePlanner_total (model : PortableRAPM) (weights : Features) :
    (portablePlanner model weights).Total where
  returns := by
    intro cell action haction
    obtain ⟨e, he, hkey⟩ := mem_actionsByCell.mp haction
    obtain ⟨rfl, rfl⟩ := Prod.mk.inj hkey
    exact ⟨_, transitionMove_entry he⟩
  positive := by
    intro cell action _ move hmove x hx
    obtain ⟨e, -, -, rfl⟩ := transitionMove_eq_ok hmove
    exact e.model.successors_pos x hx

def bestReward (model : PortableRAPM) (weights : Features) : ℕ → PortableId → ℚ :=
  ((portablePlanner model weights).process Move.reward).best

theorem backup_entry {e : NominalEntry} (he : e ∈ model.nominal) (V : PortableId → ℚ) :
    backup (((portablePlanner model weights).process Move.reward).branches e.cellId e.actionId) V =
      e.model.reward weights + massSum V e.model.successorProbabilities := by
  rw [CellPlanner.branches_process (transitionMove_entry he), Move.backup_branches]
  rfl

/-- A Bellman step over the entries of a cell. -/
theorem bestReward_succ (n : ℕ) (cell : PortableId) :
    bestReward model weights (n + 1) cell = ((entriesByCell model cell).map fun transition =>
      transition.reward weights +
        massSum (bestReward model weights n) transition.successorProbabilities).max?.getD 0 := by
  by_cases hnil : actionsByCell model cell = []
  · have hentries : entriesByCell model cell = [] := by
      simpa [actionsByCell, entriesByCell] using hnil
    rw [hentries]
    exact Process.best_stopped hnil
  · obtain ⟨action, haction, hbest⟩ := Process.exists_best
      (P := (portablePlanner model weights).process Move.reward) (n := n) hnil
    obtain ⟨e, he, hkey⟩ := mem_actionsByCell.mp haction
    obtain ⟨rfl, rfl⟩ := Prod.mk.inj hkey
    rw [backup_entry he] at hbest
    have hmax : ((entriesByCell model e.cellId).map fun transition =>
        transition.reward weights + massSum (bestReward model weights n)
          transition.successorProbabilities).max? =
            some (bestReward model weights (n + 1) e.cellId) := by
      refine List.max?_eq_some_iff.mpr ⟨?_, ?_⟩
      · refine List.mem_map.mpr ⟨e.model, ?_, hbest.symm⟩
        exact List.mem_map_of_mem (List.mem_filter.mpr ⟨he, by simp⟩)
      · intro x hx
        obtain ⟨transition, htransition, rfl⟩ := List.mem_map.mp hx
        obtain ⟨e', he', rfl⟩ := List.mem_map.mp htransition
        obtain ⟨he', hcell⟩ := List.mem_filter.mp he'
        have hcell : e'.cellId = e.cellId := by simpa using hcell
        rw [← backup_entry he', ← hcell]
        exact Process.backup_le_best (mem_actionsByCell.mpr ⟨e', he', rfl⟩)
    rw [hmax]
    rfl

theorem bestReward_zero (cell : PortableId) : bestReward model weights 0 cell = 0 := rfl

theorem bestReward_of_no_entry {n : ℕ} {cell : PortableId} (h : cell ∉ entryCells model) :
    bestReward model weights n cell = 0 := by
  cases n with
  | zero => rfl
  | succ n =>
    have hnone : entriesByCell model cell = [] := by
      refine List.map_eq_nil_iff.mpr (List.filter_eq_nil_iff.mpr fun e he hcell => h ?_)
      have hcell : e.cellId = cell := by simpa using hcell
      exact mem_sortBy.mpr (mem_distinct.mpr (hcell ▸ List.mem_map_of_mem he))
    rw [bestReward_succ, hnone]
    rfl

/-! ## The table -/

def NonnegativeFeatures (model : PortableRAPM) : Prop :=
  ∀ e ∈ model.nominal, ∀ f ∈ e.model.rewardFeatures, 0 ≤ f.2

theorem weightOf_nonneg (h : ∀ w ∈ weights, 0 ≤ w.2) (name : String) :
    0 ≤ weightOf weights name := by
  unfold weightOf
  cases hl : weights.lookup name with
  | none => exact le_rfl
  | some v => exact h _ (Dict.lookup_mem hl)

theorem reward_nonneg (hweights : ∀ w ∈ weights, 0 ≤ w.2) (hfeatures : NonnegativeFeatures model)
    {e : NominalEntry} (he : e ∈ model.nominal) : 0 ≤ e.model.reward weights := by
  refine List.sum_nonneg fun x hx => ?_
  obtain ⟨f, hf, rfl⟩ := List.mem_map.mp hx
  exact mul_nonneg (weightOf_nonneg hweights f.1) (hfeatures e he f hf)

theorem bestReward_nonneg (hweights : ∀ w ∈ weights, 0 ≤ w.2)
    (hfeatures : NonnegativeFeatures model) (n : ℕ) (cell : PortableId) :
    0 ≤ bestReward model weights n cell := by
  induction n generalizing cell with
  | zero => exact le_rfl
  | succ n ih =>
    rw [bestReward_succ]
    cases hmax : ((entriesByCell model cell).map fun transition =>
        transition.reward weights + massSum (bestReward model weights n)
          transition.successorProbabilities).max? with
    | none => exact le_rfl
    | some x =>
      obtain ⟨transition, htransition, rfl⟩ := List.mem_map.mp (max?_mem hmax)
      obtain ⟨e, he, rfl⟩ := List.mem_map.mp htransition
      exact add_nonneg (reward_nonneg hweights hfeatures (List.mem_filter.mp he).1)
        (CellPlanner.massSum_nonneg e.model.successors_pos fun x _ => ih x.1)

theorem rewardUpper_eq {values : RewardValues} {n : ℕ}
    (h : ∀ cell, values.get n cell = bestReward model weights n cell) (cell : PortableId) :
    rewardUpper model weights values (n + 1) cell = bestReward model weights (n + 1) cell := by
  rw [bestReward_succ, rewardUpper]
  congr 2
  refine List.map_congr_left fun transition _ => ?_
  unfold rewardCandidate
  by_cases hn : 1 < n + 1
  · rw [if_pos hn, massSum]
    congr 2
    exact List.map_congr_left fun e _ => by rw [Nat.add_sub_cancel, h]
  · obtain rfl : n = 0 := by omega
    rw [if_neg hn, massSum]
    simp [bestReward_zero]

/-- The table holds the best rewards up to a stage, and nothing beyond it. -/
structure Filled (model : PortableRAPM) (weights : Features) (n : ℕ) (values : RewardValues) :
    Prop where
  done : ∀ k ≤ n, ∀ cell, values.get k cell = bestReward model weights k cell
  fresh : ∀ k, n < k → ∀ cell, values.get k cell = 0

theorem get_assign {values : RewardValues} {k k' : ℕ} {cell cell' : PortableId} {x : ℚ} :
    RewardValues.get (Dict.assign (k', cell') x values) k cell =
      if k = k' ∧ cell = cell' then x else values.get k cell := by
  unfold RewardValues.get
  rw [Dict.lookup_assign]
  by_cases h : k = k' ∧ cell = cell'
  · simp [h]
  · rw [if_neg (by simpa using h), if_neg h]

theorem stage_filled (hweights : ∀ w ∈ weights, 0 ≤ w.2) (hfeatures : NonnegativeFeatures model)
    {n : ℕ} {s : RewardValues × List PortableRewardUpperRow}
    (h : Filled model weights n s.1) :
    ∃ s', (entryCells model).foldlM (fun s cell =>
        rewardUpperStep model weights s (n + 1, cell)) s = .ok s' ∧
      Filled model weights (n + 1) s'.1 := by
  obtain ⟨s', hs', hlow, hstage, hhigh⟩ := foldlM_exists (b := s)
    (f := fun s cell => rewardUpperStep model weights s (n + 1, cell)) (l := entryCells model)
    (fun read s => (∀ k ≤ n, ∀ cell, s.1.get k cell = bestReward model weights k cell) ∧
      (∀ cell, s.1.get (n + 1) cell =
        if cell ∈ read then bestReward model weights (n + 1) cell else 0) ∧
      ∀ k, n + 1 < k → ∀ cell, s.1.get k cell = 0)
    ⟨h.done, fun cell => by simpa using h.fresh (n + 1) (Nat.lt_succ_self n) cell,
      fun k hk => h.fresh k (by omega)⟩ (by
      rintro pre cell post s - ⟨hlow, hstage, hhigh⟩
      have hupper := rewardUpper_eq (hlow n le_rfl) cell
      have hnonneg := bestReward_nonneg hweights hfeatures (n + 1) cell
      refine ⟨(Dict.assign (n + 1, cell) (rewardUpper model weights s.1 (n + 1) cell) s.1,
        s.2 ++ [⟨n + 1, cell, _, Nat.succ_pos n, hupper ▸ hnonneg⟩]), ?_, fun k hk c => ?_,
        fun c => ?_, fun k hk c => ?_⟩
      · unfold rewardUpperStep
        refine bind_eq_ok.mpr ⟨_, ?_, rfl⟩
        simp only [PortableRewardUpperRow.make, Nat.succ_pos, hupper, hnonneg, dite_true]
      · rw [get_assign, if_neg (by omega)]
        exact hlow k hk c
      · rw [get_assign, hupper]
        by_cases hc : c = cell
        · simp [hc]
        · simpa [hc] using hstage c
      · rw [get_assign, if_neg (by omega)]
        exact hhigh k hk c)
  refine ⟨s', hs', fun k hk cell => ?_, hhigh⟩
  rcases Nat.lt_or_eq_of_le hk with hk | rfl
  · exact hlow k (by omega) cell
  · rw [hstage cell]
    split
    · rfl
    · exact (bestReward_of_no_entry ‹_›).symm

theorem rewardUpperTable_filled (hweights : ∀ w ∈ weights, 0 ≤ w.2)
    (hfeatures : NonnegativeFeatures model) (horizon : ℕ) :
    ∃ s, rewardUpperTable model weights horizon = .ok s ∧ Filled model weights horizon s.1 := by
  obtain ⟨s, hs, hfilled⟩ := foldlM_exists (b := (([], []) : RewardValues × _))
    (f := fun s remaining => (entryCells model).foldlM (fun s cell =>
      rewardUpperStep model weights s (remaining, cell)) s) (l := List.range' 1 horizon)
    (fun read s => Filled model weights read.length s.1)
    ⟨fun k hk cell => by
      obtain rfl : k = 0 := by simpa using hk
      rfl, fun _ _ _ => rfl⟩ (by
      intro pre remaining post s hsplit hs
      have hremaining : remaining = pre.length + 1 := by
        have hget : (List.range' 1 horizon)[pre.length]? = some remaining := by
          rw [hsplit]
          simp
        have hlength : pre.length < horizon := by
          have hall := congrArg List.length hsplit
          simp only [List.length_range', List.length_append, List.length_cons] at hall
          omega
        rw [List.getElem?_range' hlength] at hget
        have := Option.some.inj hget
        omega
      obtain ⟨s', hs', hfilled⟩ := stage_filled hweights hfeatures hs
      exact ⟨s', hremaining ▸ hs', by simpa using hfilled⟩)
  exact ⟨s, hs, by simpa using hfilled⟩

end Acfqp.Portable

/-!
## Accepted queries are solved

On an accepted query the recursion returns a frontier that passes every check of a result. Its
largest reward is the root of the reward table.
-/

namespace Acfqp.Portable

open Library Planning

variable {model : PortableRAPM} {weights : Features}

/-- The frontier of an accepted query: what the recursion and the rows of its table say of it. -/
structure SolvedFrontier (model : PortableRAPM) (query : PortableQuery)
    (frontier : List PortableParetoPoint) : Prop where
  solved : (portablePlanner model query.normalizedRewardWeights).Solved paretoView query.horizon
    (canonicalDistribution query.initialDistribution) frontier
  sorted : frontier.Pairwise ParetoPoint.Precedes
  available : ∀ p ∈ frontier, ∀ x ∈ p.policy.asDict, x.2 ∈ actionsByCell model x.1.2

theorem initial_nodup (query : PortableQuery) :
    (query.initialDistribution.map Prod.fst).Nodup :=
  query.initial_sorted.imp fun h => ne_of_lt h

theorem frontierFor_solved (model : PortableRAPM) (query : PortableQuery) :
    ∃ frontier table, (portablePlanner model query.normalizedRewardWeights).frontierFor
        query.horizon (canonicalDistribution query.initialDistribution) ([], 0) =
          .ok (frontier, table) ∧ SolvedFrontier model query frontier := by
  obtain ⟨frontier, hfrontier, hsolved⟩ := CellPlanner.direct_solves
    (portablePlanner_total model query.normalizedRewardWeights) (paretoPlanner_lawful _ _)
    query.horizon (canonicalDistribution query.initialDistribution)
    (nodup_canonicalDistribution (initial_nodup query))
    fun e he => (mem_canonicalDistribution.mp he).2
  obtain ⟨table, htable⟩ := CellPlanner.frontierFor_returns hfrontier
  refine ⟨frontier, table, htable, hsolved, ?_, paretoPlanner_available hfrontier⟩
  rcases CellPlanner.direct_pruned hfrontier with rfl | ⟨candidates, rfl⟩
  · exact List.pairwise_singleton _ _
  · exact paretoPrune_sorted candidates

namespace SolvedFrontier

variable {query : PortableQuery} {frontier : List PortableParetoPoint}

/-- The largest reward is the best reward of the initial cells. -/
theorem isGreatest (h : SolvedFrontier model query frontier) :
    IsGreatest {r | ∃ p ∈ frontier, p.expectedReward = r}
      (massSum (bestReward model query.normalizedRewardWeights query.horizon)
        query.initialDistribution) := by
  rw [← massSum_canonicalDistribution _ query.initial_pos]
  exact h.solved.isGreatest_reward (portablePlanner_total model _)
    fun e he => (mem_canonicalDistribution.mp he).2

theorem ne_nil (h : SolvedFrontier model query frontier) : frontier ≠ [] := by
  obtain ⟨⟨p, hp, -⟩, -⟩ := h.isGreatest
  exact List.ne_nil_of_mem hp

theorem portablePlanner_mass (cell : PortableId) :
    ∀ action ∈ (portablePlanner model weights).actions cell, ∀ move,
      (portablePlanner model weights).move cell action = .ok move →
        0 ≤ move.failure ∧ move.failure + (move.successors.map Prod.snd).sum ≤ 1 := by
  intro action _ move hmove
  obtain ⟨e, -, -, rfl⟩ := transitionMove_eq_ok hmove
  refine ⟨e.model.failure_nonneg, ?_⟩
  have hle := e.model.failure_le
  have hsum := e.model.mass_eq
  simp only [NominalEntry.move]
  linarith

theorem failure_mem (h : SolvedFrontier model query frontier) :
    ∀ p ∈ frontier, 0 ≤ p.failureProbability ∧ p.failureProbability ≤ 1 := by
  intro p hp
  have hpos : ∀ e ∈ canonicalDistribution query.initialDistribution, 0 < e.2 :=
    fun e he => (mem_canonicalDistribution.mp he).2
  have hvalue := fun e he => CellPlanner.value_failure_mem (n := query.horizon)
    (portablePlanner_total model query.normalizedRewardWeights) portablePlanner_mass
    (h.solved.follows p hp e he)
  have hfailure : p.failureProbability = massSum (value
      ((portablePlanner model query.normalizedRewardWeights).law Move.failure (paretoView.select p))
        query.horizon) (canonicalDistribution query.initialDistribution) :=
    congrArg (fun v : ℚ × ℚᵒᵈ => OrderDual.ofDual v.2) (h.solved.value_eq p hp)
  have hmass : ((canonicalDistribution query.initialDistribution).map Prod.snd).sum = 1 := by
    have hsum := massSum_canonicalDistribution (fun _ => 1) query.initial_pos
    simpa [massSum, query.initial_sum] using hsum
  rw [hfailure]
  constructor
  · exact CellPlanner.massSum_nonneg hpos fun e he => (hvalue e he).1
  · exact (CellPlanner.massSum_le_mass hpos fun e he => (hvalue e he).2).trans hmass.le

theorem lookup_catalog {cell action : PortableId} (h : action ∈ actionsByCell model cell) :
    model.semanticActionCatalog.lookup action = some cell := by
  obtain ⟨e, he, hkey⟩ := mem_actionsByCell.mp h
  obtain ⟨rfl, rfl⟩ := Prod.mk.inj hkey
  exact Dict.lookup_eq_some model.actions_unique (model.nominal_scoped e he)

theorem references (h : SolvedFrontier model query frontier) :
    validatePolicyReferences frontier model query = .ok () := by
  refine forM_of_forall fun p hp => forM_of_forall fun decision hdecision => ?_
  have hmem : (decision.key, decision.action) ∈ p.policy.asDict := List.mem_map_of_mem hdecision
  have hremaining : decision.remaining ≤ query.horizon :=
    h.solved.bounded p hp _ _ _ (mem_asDict_iff_select.mp hmem)
  refine bind_eq_ok.mpr ⟨(), require_eq_ok.mpr hremaining, require_eq_ok.mpr ?_⟩
  exact lookup_catalog (h.available p hp _ hmem)

theorem validates (h : SolvedFrontier model query frontier) (hmodel : query.modelId = model.modelId)
    (composed : ℕ) :
    (PortablePlanResult.mk model.modelId query.queryId frontier
      (portableSelectConstrained frontier query.delta) composed).validate model query =
        .ok ⟨model.modelId, query.queryId, frontier,
          portableSelectConstrained frontier query.delta, composed⟩ := by
  have hpruned : portableParetoPrune frontier = frontier :=
    paretoPrune_of_sorted h.sorted h.solved.antichain
  unfold PortablePlanResult.validate
  rw [bind_of_ok (require_eq_ok (u := ()).mpr rfl), bind_of_ok (require_eq_ok (u := ()).mpr rfl),
    bind_of_ok (require_eq_ok (u := ()).mpr hmodel.symm),
    bind_of_ok (require_eq_ok (u := ()).mpr h.ne_nil),
    bind_of_ok (require_eq_ok (u := ()).mpr h.failure_mem),
    bind_of_ok (require_eq_ok (u := ()).mpr (by rw [hpruned])),
    bind_of_ok (require_eq_ok (u := ()).mpr rfl), bind_of_ok h.references]

end SolvedFrontier

theorem solvePortablePareto_returns {query : PortableQuery}
    (haccepted : bindQuery model query = .ok ()) :
    ∃ result, solvePortablePareto model query = .ok result ∧
      SolvedFrontier model query result.frontier := by
  obtain ⟨frontier, table, hfrontier, hsolved⟩ := frontierFor_solved model query
  have hmodel : query.modelId = model.modelId := by
    obtain ⟨_, hid, -⟩ := bind_eq_ok.mp haccepted
    exact require_eq_ok.mp hid
  refine ⟨⟨model.modelId, query.queryId, frontier,
    portableSelectConstrained frontier query.delta, table.2⟩, ?_, hsolved⟩
  unfold solvePortablePareto
  rw [bind_of_ok haccepted]
  exact bind_eq_ok.mpr ⟨(frontier, table), hfrontier, hsolved.validates hmodel table.2⟩

/-- The root of the reward table is the largest reward on the frontier. -/
theorem rewardUpperBellman_isGreatest {query : PortableQuery}
    (haccepted : bindQuery model query = .ok ()) (hfeatures : NonnegativeFeatures model) :
    ∃ rows root result, rewardUpperBellman model query = .ok (rows, root) ∧
      solvePortablePareto model query = .ok result ∧
      IsGreatest {r | ∃ p ∈ result.frontier, p.expectedReward = r} root := by
  obtain ⟨s, htable, hfilled⟩ := rewardUpperTable_filled query.normalized_nonneg hfeatures
    query.horizon
  obtain ⟨result, hresult, hsolved⟩ := solvePortablePareto_returns haccepted
  refine ⟨s.2, _, result, bind_eq_ok.mpr ⟨(), haccepted, bind_eq_ok.mpr ⟨s, htable, rfl⟩⟩,
    hresult, ?_⟩
  have hroot : (query.initialDistribution.map fun e =>
      e.2 * s.1.get query.horizon e.1).sum =
      massSum (bestReward model query.normalizedRewardWeights query.horizon)
        query.initialDistribution := by
    simp only [massSum, hfilled.done query.horizon le_rfl]
  rw [hroot]
  exact hsolved.isGreatest

/-! ## A cell with a bold and a careful action -/

def steady : PortableId := ⟨"steady", by decide⟩

def bold : PortableId := ⟨"bold", by decide⟩

def careful : PortableId := ⟨"careful", by decide⟩

theorem steady_sorted (mass : ℚ) : ([(steady, mass)].map Prod.fst).Pairwise (· < ·) :=
  List.pairwise_singleton _ _

/-- Score in full, and stay with probability one half. -/
def boldTransition : PortableTransition where
  rewardFeatures := [("score", 1)]
  successorProbabilities := [(steady, 1 / 2)]
  failureProbability := 1 / 4
  terminationProbability := 1 / 2
  features_sorted := List.pairwise_singleton _ _
  successors_pos := by simp
  successors_sorted := steady_sorted (1 / 2)
  failure_nonneg := by norm_num
  failure_le := by norm_num
  mass_eq := by norm_num

theorem no_failure : (0 : ℚ) ≤ 0 := le_rfl

theorem steady_normalizer : (0 : ℚ) < 2 := two_pos

theorem steady_delta : (0 : ℚ) ∈ [(0 : ℚ), 1 / 20, 1 / 10] := List.mem_cons_self

/-- Score half as much, stay more often, and never fail. -/
def carefulTransition : PortableTransition where
  rewardFeatures := [("score", 1 / 2)]
  successorProbabilities := [(steady, 3 / 4)]
  failureProbability := 0
  terminationProbability := 1 / 4
  features_sorted := List.pairwise_singleton _ _
  successors_pos := by simp
  successors_sorted := steady_sorted (3 / 4)
  failure_nonneg := no_failure
  failure_le := by norm_num
  mass_eq := by norm_num

def steadyModel : PortableRAPM where
  modelId := steady
  horizon := 2
  stateCatalog := [(steady, "active")]
  partition := [(steady, [steady])]
  rewardFeatures := ["score"]
  normalizerRules := [⟨"caps", [("score", 1)], [⟨"score", some 1, none⟩]⟩]
  goalIds := ["score"]
  semanticActionCatalog := [(bold, steady), (careful, steady)]
  nominal := [⟨steady, bold, boldTransition⟩, ⟨steady, careful, carefulTransition⟩]
  actions_unique := by decide
  nominal_unique := by decide
  nominal_scoped := by simp

def steadyQuery : PortableQuery where
  queryId := steady
  modelId := steady
  initialDistribution := [(steady, 1)]
  horizon := 2
  rewardWeights := [("score", 1)]
  normalizer := 2
  normalizerProofId := "caps"
  normalizedRewardWeights := [("score", 1 / 2)]
  goalId := "score"
  delta := 0
  initial_pos := by simp
  initial_sorted := steady_sorted 1
  initial_sum := by norm_num
  weights_nonneg := by simp
  normalizer_pos := steady_normalizer
  normalized := rfl
  delta_registered := steady_delta

theorem steady_accepted : bindQuery steadyModel steadyQuery = .ok () := by decide +kernel

theorem steady_nonnegative : NonnegativeFeatures steadyModel := by
  simp [NonnegativeFeatures, steadyModel, boldTransition, carefulTransition]

theorem rewardUpperBellman_isGreatest_steady :
    ∃ rows root result, rewardUpperBellman steadyModel steadyQuery = .ok (rows, root) ∧
      solvePortablePareto steadyModel steadyQuery = .ok result ∧
      IsGreatest {r | ∃ p ∈ result.frontier, p.expectedReward = r} root :=
  rewardUpperBellman_isGreatest steady_accepted steady_nonnegative

end Acfqp.Portable
