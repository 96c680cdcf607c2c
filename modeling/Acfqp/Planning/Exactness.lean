import Acfqp.Planning.Occupancy

/-!
# The ground planner is exact

The reachable decision pairs are closed under every action, so that the enumerated policies
decide every pair that any policy can reach. The solver's frontier is the set of nondominated
values of those policies.
-/

namespace Acfqp.Planning

open Library

variable {S A : Type}

section ActionSets

variable {kernel : Kernel S A}

def AvailableFor (kernel : Kernel S A) (actions : List A) (pairs : List (ℕ × S)) : Prop :=
  List.Forall₂ (fun a (p : ℕ × S) => ∃ available, kernel.actions p.2 = .ok available ∧
    a ∈ available) actions pairs

theorem mem_cartesian_actionSets [PyRepr A] {pairs : List (ℕ × S)} {sets : List (List A)}
    (h : (pairs.mapM fun p => deterministicOrder <$> kernel.actions p.2) = .ok sets)
    (actions : List A) : actions ∈ cartesian sets ↔ AvailableFor kernel actions pairs := by
  rw [mem_cartesian, AvailableFor]
  rw [mapM_eq_ok] at h
  induction h generalizing actions with
  | nil => simp
  | cons hp _ ih =>
    obtain ⟨available, hav, rfl⟩ := map_eq_ok.mp hp
    cases actions with
    | nil => simp
    | cons a actions =>
      rw [List.forall₂_cons, List.forall₂_cons, ih actions]
      simp [hav, deterministicOrder]

end ActionSets

section Reachable

variable [PyRepr S] [PyRepr A] {kernel : Kernel S A} {goal : String} {query : QuerySpec S}

theorem expandDecision_decides {n : ℕ} {s : S} {cs : List S}
    (h : expandDecision kernel goal n s = .ok (some (), cs)) :
    0 < n ∧ ¬ Idle kernel goal s ∧ ∃ actions, kernel.actions s = .ok actions ∧ actions ≠ [] := by
  unfold expandDecision at h
  split at h
  · cases h
  · rename_i hn
    rw [not_or] at hn
    obtain ⟨actions, hactions, h⟩ := bind_eq_ok.mp h
    dsimp only at h
    split at h
    · cases h
    · rename_i hne
      have hne : actions ≠ [] := fun h => hne (by simp [h, deterministicOrder])
      refine ⟨by omega, ?_, actions, hactions, hne⟩
      rintro (hs | hs)
      · exact hn.2 hs
      · rw [hactions] at hs
        cases hs
        exact hne rfl

theorem expandDecision_active {n : ℕ} {s : S} {d : Option Unit} {cs : List S}
    (h : expandDecision kernel goal (n + 1) s = .ok (d, cs)) (hidle : ¬ Idle kernel goal s) :
    d = some () ∧ (n ≠ 0 → ∀ actions, kernel.actions s = .ok actions → ∀ a ∈ actions,
      ∀ outcomes, iterOutcomes kernel s a = .ok outcomes → ∀ o ∈ outcomes,
        outcomeStopped kernel goal o = false → o.nextState ∈ cs) := by
  unfold expandDecision at h
  split at h
  · rename_i hs
    exact absurd (.inl (hs.resolve_left (by omega))) hidle
  · obtain ⟨actions, hactions, h⟩ := bind_eq_ok.mp h
    dsimp only at h
    split at h
    · rename_i hnil
      obtain rfl : actions = [] := by simpa [deterministicOrder] using hnil
      exact absurd (.inr hactions) hidle
    · split at h
      · cases h
        exact ⟨rfl, by omega⟩
      · obtain ⟨successors, hsucc, h⟩ := bind_eq_ok.mp h
        cases h
        refine ⟨rfl, fun _ actions' hactions' a ha outcomes ho o hmem hs => ?_⟩
        rw [hactions] at hactions'
        cases hactions'
        obtain ⟨row, hrow, hy⟩ := exists_of_mapM hsucc
          (show a ∈ deterministicOrder actions by simpa [deterministicOrder] using ha)
        obtain ⟨outcomes', ho', hy⟩ := bind_eq_ok.mp hy
        rw [ho] at ho'
        cases ho'
        refine List.mem_flatten.mpr ⟨row, hrow, ?_⟩
        rw [← pure_eq_ok.mp hy]
        exact List.mem_map_of_mem (List.mem_filter.mpr ⟨hmem, by simp [hs]⟩)

/-- The decision pairs are those of a closed cover of the initial states. -/
structure CoveredBy (kernel : Kernel S A) (query : QuerySpec S) (pairs : List (ℕ × S))
    (cover : ℕ → S → Prop) : Prop where
  closed : ClosedCover kernel query.goal cover
  initial : ∀ p ∈ query.initialDistribution, cover query.horizon p.2
  complete : ∀ n s, cover (n + 1) s → ¬ Idle kernel query.goal s → (n + 1, s) ∈ pairs
  decided : ∀ p ∈ pairs, 0 < p.1 ∧ ∃ actions, kernel.actions p.2 = .ok actions ∧ actions ≠ []
  nodup : pairs.Nodup

variable [DecidableEq S]

theorem reachableDecisionPairs_covered {pairs : List (ℕ × S)}
    (h : reachableDecisionPairs kernel query = .ok pairs) :
    ∃ cover, CoveredBy kernel query pairs cover := by
  obtain ⟨horizon, hhorizon, h⟩ := bind_eq_ok.mp h
  obtain rfl := queryHorizon_eq_ok hhorizon
  obtain ⟨initial, hinitial, h⟩ := bind_eq_ok.mp h
  rw [queryInitialDistribution_eq] at hinitial
  cases hinitial
  obtain ⟨trail, htrail, h⟩ := bind_eq_ok.mp h
  obtain rfl := pure_eq_ok.mp h
  refine ⟨fun n s => n = 0 ∨ (n, s) ∈ trail.visited, ?_, ?_, ?_, ?_, ?_⟩
  · intro n s actions a outcomes hv hactive hactions ha ho o hmem hs
    have hidle : ¬ Idle kernel query.goal s := by
      rintro (h | h)
      · simp [hactive] at h
      · rw [hactions] at h
        cases h
        simp at ha
    obtain ⟨d, cs, he, -, hnext⟩ := exploreAll_complete htrail (hv.resolve_left (by omega))
    by_cases hn : n = 0
    · exact .inl hn
    · exact .inr (hnext n rfl _ ((expandDecision_active he hidle).2 hn actions hactions a ha
        outcomes ho o hmem hs))
  · intro p hp
    refine .inr ((exploreAll_explored htrail).2 p.2 (List.mem_map.mpr ⟨p, ?_, rfl⟩))
    simpa using ⟨hp, query.initial_pos p hp⟩
  · intro n s hv hidle
    obtain ⟨d, cs, he, hd, -⟩ := exploreAll_complete htrail (hv.resolve_left (by omega))
    have := hd () (expandDecision_active he hidle).1
    simpa using List.mem_map_of_mem (f := Prod.fst) this
  · intro p hp
    rw [mem_sortBy] at hp
    obtain ⟨⟨p, d⟩, hr, rfl⟩ := List.mem_map.mp hp
    obtain ⟨cs, he⟩ := exploreAll_emitted htrail hr
    obtain ⟨hpos, -, hactions⟩ := expandDecision_decides he
    exact ⟨hpos, hactions⟩
  · exact (perm_sortBy _ _).nodup_iff.mpr (exploreAll_tidy htrail).nodup

/-! ## Enumerated policies -/

theorem enumerateDeterministicPolicies_spec {policies : List (FiniteHorizonPolicy S A)}
    (h : enumerateDeterministicPolicies kernel query = .ok policies) :
    ∃ pairs cover, reachableDecisionPairs kernel query = .ok pairs ∧
      CoveredBy kernel query pairs cover ∧
      (∀ π ∈ policies, ∃ actions, AvailableFor kernel actions pairs ∧
        ∀ d ∈ pairs.zip actions, π.select d.1.1 d.1.2 = some d.2) ∧
      ∀ actions, AvailableFor kernel actions pairs →
        ∃ π ∈ policies, ∀ d ∈ pairs.zip actions, π.select d.1.1 d.1.2 = some d.2 := by
  obtain ⟨pairs, hpairs, h⟩ := bind_eq_ok.mp h
  obtain ⟨cover, hcover⟩ := reachableDecisionPairs_covered hpairs
  obtain ⟨sets, hsets, h⟩ := bind_eq_ok.mp h
  have hmem := mem_cartesian_actionSets hsets
  refine ⟨pairs, cover, hpairs, hcover, ?_⟩
  have hsome : ¬ ∃ actions ∈ sets, actions = [] := by
    rintro ⟨actions, ha, rfl⟩
    obtain ⟨p, hp, hpa⟩ := mem_of_mapM hsets ha
    obtain ⟨available, hav, hnil⟩ := map_eq_ok.mp hpa
    obtain ⟨-, available', hav', hne⟩ := hcover.decided p hp
    rw [hav] at hav'
    cases hav'
    exact hne (by simpa [deterministicOrder] using hnil)
  rw [if_neg hsome] at h
  split at h
  · rename_i hnil
    subst hnil
    cases h
    refine ⟨fun π _ => ⟨[], .nil, by simp⟩, fun actions ha => ⟨.empty, by simp, ?_⟩⟩
    cases ha
    simp
  · have hselect : ∀ (actions : List A) (π : FiniteHorizonPolicy S A),
        FiniteHorizonPolicy.fromMapping (pairs.zip actions) = .ok π → ∀ d ∈ pairs.zip actions,
          π.select d.1.1 d.1.2 = some d.2 :=
      fun actions π hπ d hd => (select_fromMapping hπ).mpr hd
    constructor
    · intro π hπ
      obtain ⟨actions, ha, hπ⟩ := mem_of_mapM h hπ
      exact ⟨actions, (hmem actions).mp ha, hselect actions π hπ⟩
    · intro actions ha
      obtain ⟨π, hmemπ, hπ⟩ := exists_of_mapM h ((hmem actions).mpr ha)
      exact ⟨π, hmemπ, hselect actions π hπ⟩

theorem decides_of_available {cover : ℕ → S → Prop} {pairs : List (ℕ × S)}
    (hcover : CoveredBy kernel query pairs cover) {actions : List A}
    (hav : AvailableFor kernel actions pairs) {π : FiniteHorizonPolicy S A}
    (hπ : ∀ d ∈ pairs.zip actions, π.select d.1.1 d.1.2 = some d.2) :
    Decides kernel query.goal cover π.select := by
  intro n s hc hidle available havail
  obtain ⟨a, ha⟩ := exists_mem_zip hav (hcover.complete n s hc hidle)
  obtain ⟨available', hav', hmem⟩ := (List.forall₂_iff_zip.mp hav.flip).2 ha
  rw [havail] at hav'
  cases hav'
  exact ⟨a, hmem, hπ _ ha⟩

end Reachable

/-! ## Nondominated values -/

/-- At least as good in both coordinates and better in one. -/
def PolicyEvaluation.Dominates (v w : PolicyEvaluation) : Prop :=
  w.expectedReward ≤ v.expectedReward ∧ v.failureProbability ≤ w.failureProbability ∧
    (w.expectedReward < v.expectedReward ∨ v.failureProbability < w.failureProbability)

def nondominated (V : Set PolicyEvaluation) : Set PolicyEvaluation :=
  {v | v ∈ V ∧ ∀ w ∈ V, ¬ w.Dominates v}

/-- A set of values that lies in another, covers it and is not dominated within itself consists
of the nondominated values. -/
theorem eq_nondominated {F V : Set PolicyEvaluation} (hsub : F ⊆ V)
    (hcovers : ∀ v ∈ V, ∃ f ∈ F, v.expectedReward ≤ f.expectedReward ∧
      f.failureProbability ≤ v.failureProbability)
    (hanti : ∀ f ∈ F, ∀ g ∈ F, ¬ g.Dominates f) : F = nondominated V := by
  ext v
  constructor
  · intro hv
    refine ⟨hsub hv, fun w hw hdom => ?_⟩
    obtain ⟨f, hf, h1, h2⟩ := hcovers w hw
    refine hanti v hv f hf ⟨hdom.1.trans h1, h2.trans hdom.2.1, ?_⟩
    exact hdom.2.2.imp (fun h => h.trans_le h1) fun h => h2.trans_lt h
  · rintro ⟨hv, hmax⟩
    obtain ⟨f, hf, h1, h2⟩ := hcovers v hv
    by_contra hne
    refine hmax f (hsub hf) ⟨h1, h2, ?_⟩
    by_contra hnot
    push Not at hnot
    have : v = f := by
      cases v; cases f
      simp only [PolicyEvaluation.mk.injEq]
      exact ⟨le_antisymm h1 hnot.1, le_antisymm hnot.2 h2⟩
    exact hne (this ▸ hf)

def ParetoPoint.evaluation (p : ParetoPoint S A) : PolicyEvaluation :=
  ⟨p.expectedReward, p.failureProbability⟩

section Selection

variable [PyRepr S] [PyRepr A] {frontier : List (ParetoPoint S A)} {delta : ℚ}

/-- The selection is feasible, reward-maximal, and among those failure-minimal. -/
theorem selectConstrained_spec {p : ParetoPoint S A}
    (h : selectConstrained frontier delta = some p) :
    p ∈ frontier ∧ p.failureProbability ≤ delta ∧
      ∀ q ∈ frontier, q.failureProbability ≤ delta → q.expectedReward < p.expectedReward ∨
        q.expectedReward = p.expectedReward ∧ p.failureProbability ≤ q.failureProbability := by
  have hp : p ∈ _ := List.argmin_mem h
  obtain ⟨hmem, hfeasible⟩ := List.mem_filter.mp hp
  refine ⟨hmem, by simpa using hfeasible, fun q hq hqd => ?_⟩
  have hle := List.le_of_mem_argmin (List.mem_filter.mpr ⟨hq, by simpa using hqd⟩) h
  rw [Prod.Lex.le_iff] at hle
  simp only [ofLex_toLex, neg_lt_neg_iff, neg_inj] at hle
  rcases hle with hlt | ⟨heq, hle⟩
  · exact .inl hlt
  · rw [Prod.Lex.le_iff] at hle
    simp only [ofLex_toLex] at hle
    exact .inr ⟨heq.symm, hle.elim le_of_lt fun h => h.1.le⟩

theorem selectConstrained_eq_none :
    selectConstrained frontier delta = none ↔ ∀ q ∈ frontier, delta < q.failureProbability := by
  simp [selectConstrained, List.filter_eq_nil_iff]

end Selection

/-! ## Exactness -/

theorem massValue_initial [PyRepr S] [PyRepr A] (kernel : Kernel S A) (query : QuerySpec S)
    (weights : Features) (select : Selector S A) (n : ℕ)
    (initial : List (ℚ × S)) :
    massValue kernel query.goal weights select n (initial.map fun p => (p.2, p.1)) =
      ((expectedValue kernel query.goal weights select n initial).expectedReward,
        OrderDual.toDual
          (expectedValue kernel query.goal weights select n initial).failureProbability) := by
  simp only [massValue, massSum, expectedValue, List.map_map, Function.comp_def, selectorValue]

section Exactness

variable [DecidableEq S] [PyRepr S] [DecidableEq A] [PyRepr A] {kernel : Kernel S A}
  {query : QuerySpec S} {requirements : Requirements S A}

/-- The policy takes every required decision. -/
def MeetsRequirements (requirements : Requirements S A) (policy : FiniteHorizonPolicy S A) : Prop :=
  ∀ e ∈ requirements.entries, policy.action e.1.2 e.1.1 = .ok e.2

theorem validateRequirements_spec {pairs : List (ℕ × S)}
    (hpairs : reachableDecisionPairs kernel query = .ok pairs)
    (h : validateRequirements kernel query query.horizon requirements = .ok ()) :
    ∀ e ∈ requirements.entries, e.1 ∈ pairs ∧
      ∃ actions, kernel.actions e.1.2 = .ok actions ∧ e.2 ∈ actions := by
  intro e he
  unfold validateRequirements at h
  split at h
  · rename_i hnil
    simp [hnil] at he
  · obtain ⟨pairs', hpairs', h⟩ := bind_eq_ok.mp h
    rw [hpairs] at hpairs'
    cases hpairs'
    have he' := forM_eq_ok h e he
    obtain ⟨_, -, he'⟩ := bind_eq_ok.mp he'
    obtain ⟨_, hmem, he'⟩ := bind_eq_ok.mp he'
    obtain ⟨actions, hactions, he'⟩ := bind_eq_ok.mp he'
    exact ⟨by simpa using require_eq_ok.mp hmem, actions, hactions, require_eq_ok.mp he'⟩

/-- The solver returns the frontier of the recursion without its table, and selects from it. -/
theorem solveGroundPareto_direct {result : GroundParetoResult S A}
    (h : solveGroundPareto kernel query requirements = .ok result) :
    validateQuery kernel query = .ok () ∧
      result.selected = selectConstrained result.frontier query.delta ∧
      occupancyDirect kernel query.goal (rewardWeights query) requirements query.horizon
        (canonicalDistribution (tally (query.initialDistribution.map fun p => (p.2, p.1)))) =
          .ok result.frontier := by
  obtain ⟨⟨⟩, hvalid, h⟩ := bind_eq_ok.mp h
  obtain ⟨horizon, hhorizon, h⟩ := bind_eq_ok.mp h
  obtain rfl := queryHorizon_eq_ok hhorizon
  obtain ⟨⟨⟩, -, h⟩ := bind_eq_ok.mp h
  obtain ⟨initial, hquery, h⟩ := bind_eq_ok.mp h
  rw [queryInitialDistribution_eq] at hquery
  cases hquery
  obtain ⟨⟨frontier, table, composed⟩, hfrontier, h⟩ := bind_eq_ok.mp h
  obtain rfl := pure_eq_ok.mp h
  have htable : FrontierTable kernel query.goal (rewardWeights query) requirements ([], 0) :=
    ⟨by simp [Agrees], trivial⟩
  refine ⟨hvalid, rfl, ?_⟩
  rw [← (occupancyFrontier_computes query.horizon _).run' htable, StateT.run', hfrontier]
  rfl

/-- The frontier of the query's initial distribution, coalesced over its states. -/
def SolvesQuery (kernel : Kernel S A) (query : QuerySpec S) (requirements : Requirements S A)
    (cover : ℕ → S → Prop) (frontier : List (ParetoPoint S A)) : Prop :=
  ∃ initial, (∀ select, massValue kernel query.goal (rewardWeights query) select query.horizon
      initial = massValue kernel query.goal (rewardWeights query) select query.horizon
        (query.initialDistribution.map fun p => (p.2, p.1))) ∧
    (∀ s, s ∈ initial.map Prod.fst ↔ s ∈ query.initialDistribution.map Prod.snd) ∧
    Solves kernel query.goal (rewardWeights query) requirements cover query.horizon initial frontier

theorem solveGroundPareto_solves_cover {cover : ℕ → S → Prop}
    (hclosed : ClosedCover kernel query.goal cover)
    (hinitial : ∀ p ∈ query.initialDistribution, cover query.horizon p.2)
    (hreq : ValidRequirements kernel requirements) {result : GroundParetoResult S A}
    (h : solveGroundPareto kernel query requirements = .ok result) :
    result.selected = selectConstrained result.frontier query.delta ∧
      SolvesQuery kernel query requirements cover result.frontier := by
  obtain ⟨-, hselected, hdirect⟩ := solveGroundPareto_direct h
  have hpos : ∀ e ∈ query.initialDistribution.map fun p => (p.2, p.1), 0 < e.2 := by
    intro e he
    obtain ⟨p, hp, rfl⟩ := List.mem_map.mp he
    exact query.initial_pos p hp
  refine ⟨hselected, canonicalDistribution (tally (query.initialDistribution.map
    fun p => (p.2, p.1))), fun select => massValue_canonical_tally hpos select, fun s => ?_, ?_⟩
  · rw [mem_canonical_tally hpos, List.map_map]
    rfl
  · refine solves_occupancyDirect hclosed hreq _ _ _
      (nodup_canonicalDistribution (nodup_keys_tally _))
      (fun e he => (mem_canonicalDistribution.mp he).2) (fun e he => ?_) hdirect
    obtain ⟨e', he', heq⟩ := List.mem_map.mp
      ((mem_canonical_tally hpos).mp (List.mem_map_of_mem he))
    obtain ⟨p, hp, rfl⟩ := List.mem_map.mp he'
    exact heq ▸ hinitial p hp

theorem solveGroundPareto_solves {cover : ℕ → S → Prop} {pairs : List (ℕ × S)}
    (hpairs : reachableDecisionPairs kernel query = .ok pairs)
    (hcover : CoveredBy kernel query pairs cover) {result : GroundParetoResult S A}
    (h : solveGroundPareto kernel query requirements = .ok result) :
    validateQuery kernel query = .ok () ∧
      result.selected = selectConstrained result.frontier query.delta ∧
      (∀ e ∈ requirements.entries, e.1 ∈ pairs ∧
        ∃ actions, kernel.actions e.1.2 = .ok actions ∧ e.2 ∈ actions) ∧
      SolvesQuery kernel query requirements cover result.frontier := by
  obtain ⟨⟨⟩, hvalid, hrest⟩ := bind_eq_ok.mp h
  obtain ⟨horizon, hhorizon, hrest⟩ := bind_eq_ok.mp hrest
  obtain rfl := queryHorizon_eq_ok hhorizon
  obtain ⟨⟨⟩, hreq, -⟩ := bind_eq_ok.mp hrest
  have hspec := validateRequirements_spec hpairs hreq
  have hvalidReq : ValidRequirements kernel requirements := by
    intro k a hl actions hactions
    obtain ⟨-, actions', hactions', hmem⟩ := hspec _ (Dict.lookup_mem hl)
    rw [hactions] at hactions'
    cases hactions'
    exact hmem
  obtain ⟨hselected, hsolves⟩ :=
    solveGroundPareto_solves_cover hcover.closed hcover.initial hvalidReq h
  exact ⟨hvalid, hselected, hspec, hsolves⟩

/-- A deterministic policy that decides every pair, agrees with the requirements, and takes the
point's decisions wherever these are available. -/
theorem exists_completion {cover : ℕ → S → Prop} {pairs : List (ℕ × S)}
    (hcover : CoveredBy kernel query pairs cover)
    (hreq : ∀ e ∈ requirements.entries, e.1 ∈ pairs ∧
      ∃ actions, kernel.actions e.1.2 = .ok actions ∧ e.2 ∈ actions)
    {select : Selector S A} (hrespects : Respects requirements select) :
    ∃ actions, AvailableFor kernel actions pairs ∧ ∀ d ∈ pairs.zip actions,
      (∀ b, requirements.entries.lookup d.1 = some b → d.2 = b) ∧
      ∀ available, kernel.actions d.1.2 = .ok available → ∀ b ∈ available,
        select d.1.1 d.1.2 = some b → d.2 = b := by
  have hone : ∀ p ∈ pairs, ∃ a, (∃ available, kernel.actions p.2 = .ok available ∧ a ∈ available) ∧
      (∀ b, requirements.entries.lookup p = some b → a = b) ∧
      ∀ available, kernel.actions p.2 = .ok available → ∀ b ∈ available,
        select p.1 p.2 = some b → a = b := by
    intro p hp
    obtain ⟨-, available, hav, hne⟩ := hcover.decided p hp
    have hfun : ∀ {P : List A → Prop}, P available → ∀ available',
        kernel.actions p.2 = .ok available' → P available' := by
      intro P h available' h'
      rw [hav] at h'
      cases h'
      exact h
    cases hl : requirements.entries.lookup p with
    | some b =>
      obtain ⟨-, available', hav', hb⟩ := hreq _ (Dict.lookup_mem hl)
      refine ⟨b, ⟨available', hav', hb⟩, fun b' h => Option.some.inj h, ?_⟩
      exact fun _ _ b' _ hsel => (hrespects p.1 p.2 b b' hl hsel).symm
    | none =>
      by_cases hsel : ∃ b ∈ available, select p.1 p.2 = some b
      · obtain ⟨b, hb, hsel⟩ := hsel
        refine ⟨b, ⟨available, hav, hb⟩, by simp, fun _ _ b' _ hsel' => ?_⟩
        exact Option.some.inj (hsel.symm.trans hsel')
      · obtain ⟨a, ha⟩ := List.exists_mem_of_ne_nil _ hne
        refine ⟨a, ⟨available, hav, ha⟩, by simp, ?_⟩
        exact hfun (P := fun l => ∀ b ∈ l, select p.1 p.2 = some b → a = b)
          fun b hb hsel' => absurd ⟨b, hb, hsel'⟩ hsel
  obtain ⟨actions, hactions⟩ := exists_forall₂ hone
  refine ⟨actions, hactions.imp fun _ _ h => h.1, fun d hd => ?_⟩
  exact ((List.forall₂_iff_zip.mp hactions.flip).2 hd).2

/-- The frontier consists of the nondominated values of the enumerated policies that meet the
requirements; its points carry policies of exactly these values; and the selection is the
reward-maximal feasible point. -/
theorem solveGroundPareto_exact {result : GroundParetoResult S A}
    {policies : List (FiniteHorizonPolicy S A)}
    (hsolve : solveGroundPareto kernel query requirements = .ok result)
    (henum : enumerateDeterministicPolicies kernel query = .ok policies) :
    (∀ π ∈ policies, MeetsRequirements requirements π →
      ∃ v, evaluateGroundPolicy kernel query π = .ok v) ∧
    {v | ∃ p ∈ result.frontier, p.evaluation = v} = nondominated {v | ∃ π ∈ policies,
      MeetsRequirements requirements π ∧ evaluateGroundPolicy kernel query π = .ok v} ∧
    (∀ p ∈ result.frontier, evaluateGroundPolicy kernel query p.policy = .ok p.evaluation) ∧
    (∀ p, result.selected = some p → p ∈ result.frontier ∧ p.failureProbability ≤ query.delta ∧
      ∀ q ∈ result.frontier, q.failureProbability ≤ query.delta →
        q.expectedReward < p.expectedReward ∨
        q.expectedReward = p.expectedReward ∧ p.failureProbability ≤ q.failureProbability) ∧
    (result.selected = none ↔ ∀ q ∈ result.frontier, query.delta < q.failureProbability) := by
  obtain ⟨pairs, cover, hpairs, hcover, hpolicies, hcomplete⟩ :=
    enumerateDeterministicPolicies_spec henum
  obtain ⟨hvalid, hselected, hreq, initial, hmass, hstates, hsolves⟩ :=
    solveGroundPareto_solves hpairs hcover hsolve
  -- a selector that follows from the solved distribution evaluates to its mass value
  have heval : ∀ π : FiniteHorizonPolicy S A,
      (∀ e ∈ initial, Follows kernel query.goal π.select query.horizon e.1) →
      ∃ v, evaluateGroundPolicy kernel query π = .ok v ∧
        massValue kernel query.goal (rewardWeights query) π.select query.horizon initial =
          (v.expectedReward, OrderDual.toDual v.failureProbability) := by
    intro π hf
    refine ⟨_, evaluateGroundPolicy_eq_ok.mpr ⟨hvalid, fun p hp => ?_, rfl⟩, ?_⟩
    · obtain ⟨e, he, heq⟩ := List.mem_map.mp ((hstates p.2).mpr (List.mem_map_of_mem hp))
      exact heq ▸ hf e he
    · rw [hmass, massValue_initial]
  have henumerated : ∀ π ∈ policies, MeetsRequirements requirements π →
      Decides kernel query.goal cover π.select ∧ Respects requirements π.select := by
    intro π hπ hmeets
    obtain ⟨actions, hav, hsel⟩ := hpolicies π hπ
    refine ⟨decides_of_available hcover hav hsel, fun n s a b hl hb => ?_⟩
    have ha := FiniteHorizonPolicy.select_eq_some.mpr (hmeets _ (Dict.lookup_mem hl))
    exact Option.some.inj (hb.symm.trans ha)
  have hpoint : ∀ p ∈ result.frontier,
      evaluateGroundPolicy kernel query p.policy = .ok p.evaluation := by
    intro p hp
    obtain ⟨v, hv, hval⟩ := heval p.policy (hsolves.follows p hp)
    have := (hsolves.value p hp).trans hval
    simp only [ParetoPoint.value, Prod.mk.injEq, EmbeddingLike.apply_eq_iff_eq] at this
    rw [hv, ParetoPoint.evaluation, this.1, this.2]
  refine ⟨fun π hπ hmeets => ?_, eq_nondominated ?_ ?_ ?_, hpoint,
    fun p hp => selectConstrained_spec (hselected ▸ hp), hselected ▸ selectConstrained_eq_none⟩
  · obtain ⟨hd, hr⟩ := henumerated π hπ hmeets
    obtain ⟨v, hv, -⟩ := heval π (hsolves.covers _ hd hr).1
    exact ⟨v, hv⟩
  · rintro v ⟨p, hp, rfl⟩
    obtain ⟨actions, hav, hcompletion⟩ := exists_completion hcover hreq (hsolves.respects p hp)
    obtain ⟨π, hπ, hsel⟩ := hcomplete actions hav
    refine ⟨π, hπ, fun e he => ?_, ?_⟩
    · obtain ⟨a, ha⟩ := exists_mem_zip hav (hreq e he).1
      have := (hcompletion _ ha).1 e.2 (Dict.lookup_eq_some requirements.nodup he)
      exact this ▸ FiniteHorizonPolicy.select_eq_some.mp (hsel _ ha)
    · -- the completion agrees with the point's policy wherever that policy is followed
      have hagree := Follows.congr kernel query.goal p.policy.select π.select cover
        (fun n s a outcomes hc ht o ho hs => by
          obtain ⟨available, hactions, ha⟩ := ht.available
          exact hcover.closed n s available a outcomes hc ht.active hactions ha ht.outcomes o ho hs)
        (fun n s a outcomes hc ht => by
          obtain ⟨available, hactions, ha⟩ := ht.available
          obtain ⟨b, hb⟩ := exists_mem_zip hav (hcover.complete n s hc ht.not_idle)
          have := (hcompletion _ hb).2 available hactions a ha ht.selected
          exact this ▸ hsel _ hb)
      have hinit : ∀ e ∈ initial, cover query.horizon e.1 := fun e he => by
        obtain ⟨q, hq, heq⟩ := List.mem_map.mp ((hstates e.1).mp (List.mem_map_of_mem he))
        exact heq ▸ hcover.initial q hq
      have hkeep := fun e he => hagree query.horizon e.1 (hinit e he) (hsolves.follows p hp e he)
      obtain ⟨v, hv, hval⟩ := heval π fun e he => (hkeep e he).1
      rw [massValue_congr fun e he => (hkeep e he).2, ← hsolves.value p hp] at hval
      simp only [ParetoPoint.value, Prod.mk.injEq, EmbeddingLike.apply_eq_iff_eq] at hval
      rw [hv, ParetoPoint.evaluation, hval.1, hval.2]
  · rintro v ⟨π, hπ, hmeets, hv⟩
    obtain ⟨hd, hr⟩ := henumerated π hπ hmeets
    obtain ⟨hf, p, hp, hle⟩ := hsolves.covers _ hd hr
    obtain ⟨v', hv', hval⟩ := heval π hf
    rw [hv] at hv'
    cases hv'
    rw [hval] at hle
    exact ⟨p.evaluation, ⟨p, hp, rfl⟩, hle.1, hle.2⟩
  · rintro _ ⟨p, hp, rfl⟩ _ ⟨q, hq, rfl⟩ hdom
    exact hsolves.antichain p hp q hq (ParetoPoint.dominatedBy_iff.mp hdom)

end Exactness

theorem reward_wellNamed (reward : ℚ) : Features.WellNamed [("reward", reward)] := by
  simp [Features.WellNamed]

/-- The only outcome of a step, with the single feature `reward`. -/
def sureOutcome (nextState : S) (reward : ℚ) (failure terminal : Bool) : Outcome S :=
  ⟨1, nextState, [("reward", reward)], failure, terminal, one_pos, le_rfl, reward_wellNamed reward⟩

/-- One of the two outcomes of a fair coin. -/
def evenOutcome (nextState : S) (reward : ℚ) (failure terminal : Bool) : Outcome S :=
  ⟨1 / 2, nextState, [("reward", reward)], failure, terminal, one_half_pos, one_half_lt_one.le,
    reward_wellNamed reward⟩

/-- One decision between a safe action and a risky one. -/
def gambleKernel : Kernel ℕ String where
  horizon := 1
  initialDistribution := [(1, 0)]
  actions state := .ok (if state = 0 then ["safe", "risky"] else [])
  step _ action := .ok (if action = "safe" then [sureOutcome 1 1 false true]
    else [evenOutcome 1 2 false true, evenOutcome 2 1 true true])
  isTerminal state := decide (state ≠ 0)
  registeredRewardFeatures := none
  registeredGoals := none
  rewardUpperBound := none
  isGoal := none
  goalReached _ _ := false

/-- One step from one state, for the single feature `reward`. -/
def rewardQuery (start : S) : QuerySpec S where
  initialDistribution := [(1, start)]
  horizon := 1
  rewardWeights := [("reward", 1)]
  goal := "none"
  delta := 0
  normalizer := 2
  normalizerProofId := "two"
  initial_pos := by simp
  initial_nodup := by simp
  initial_sum := by simp
  weights_wellNamed := by decide
  delta_registered := by simp
  normalizer_pos := by norm_num
  proof_named := by decide

def gambleQuery : QuerySpec ℕ := rewardQuery 0

theorem solveGroundPareto_exact_gamble : ∃ result policies,
    solveGroundPareto gambleKernel gambleQuery .none = .ok result ∧
    enumerateDeterministicPolicies gambleKernel gambleQuery = .ok policies ∧
    {v | ∃ p ∈ result.frontier, p.evaluation = v} = nondominated {v | ∃ π ∈ policies,
      MeetsRequirements .none π ∧ evaluateGroundPolicy gambleKernel gambleQuery π = .ok v} := by
  obtain ⟨result, hsolve⟩ := exists_of_isOk
    (show (solveGroundPareto gambleKernel gambleQuery .none).isOk = true by decide +kernel)
  obtain ⟨policies, henum⟩ := exists_of_isOk
    (show (enumerateDeterministicPolicies gambleKernel gambleQuery).isOk = true by decide +kernel)
  exact ⟨result, policies, hsolve, henum, (solveGroundPareto_exact hsolve henum).2.1⟩

end Acfqp.Planning
