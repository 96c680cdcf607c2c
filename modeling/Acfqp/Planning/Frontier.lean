import Acfqp.Planning.Evaluation

/-!
# Frontiers of the occupancy recursion

Pruning keeps the Pareto frontier of the candidate values. The occupancy recursion returns, for
every distribution, policies whose values are the frontier of the values of all selectors: the
selectors choose jointly at one stage, and independently of that at the stages below.
-/

namespace Acfqp.Planning

open Library

variable {S A : Type}

/-! ## Pruning -/

/-- The point in the order in which larger is better: more reward, less failure. -/
def ParetoPoint.value (p : ParetoPoint S A) : ℚ × ℚᵒᵈ :=
  (p.expectedReward, OrderDual.toDual p.failureProbability)

def ParetoPoint.coordinates (p : ParetoPoint S A) : ℚ × ℚ :=
  (p.expectedReward, p.failureProbability)

theorem ParetoPoint.value_eq_iff {p q : ParetoPoint S A} :
    p.value = q.value ↔ p.coordinates = q.coordinates := by
  simp [value, coordinates]

theorem ParetoPoint.dominatedBy_iff {p q : ParetoPoint S A} :
    p.dominatedBy q ↔ p.value < q.value := by
  simp only [dominatedBy, value, Prod.lt_iff, OrderDual.toDual_le_toDual,
    OrderDual.toDual_lt_toDual, ge_iff_le, gt_iff_lt]
  constructor
  · rintro ⟨h1, h2, h | h⟩
    · exact .inl ⟨h, h2⟩
    · exact .inr ⟨h1, h⟩
  · rintro (⟨h1, h2⟩ | ⟨h1, h2⟩)
    · exact ⟨h1.le, h2, .inl h1⟩
    · exact ⟨h1, h2.le, .inr h2⟩

def pointValues (points : List (ParetoPoint S A)) : Set (ℚ × ℚᵒᵈ) :=
  {v | ∃ p ∈ points, p.value = v}

/-- What the deduplication table holds after reading some points. -/
structure Deduplicated (points : List (ParetoPoint S A))
    (unique : List ((ℚ × ℚ) × ParetoPoint S A)) : Prop where
  sound : ∀ e ∈ unique, e.2 ∈ points ∧ e.2.coordinates = e.1
  complete : ∀ p ∈ points, ∃ e ∈ unique, e.1 = p.coordinates

theorem Deduplicated.assign {points : List (ParetoPoint S A)}
    {unique : List ((ℚ × ℚ) × ParetoPoint S A)} (h : Deduplicated points unique)
    (p : ParetoPoint S A) :
    Deduplicated (points ++ [p]) (Dict.assign p.coordinates p unique) where
  sound e he := by
    rcases Dict.mem_assign he with rfl | he
    · simp
    · exact ⟨by simp [(h.sound e he).1], (h.sound e he).2⟩
  complete q hq := by
    by_cases hc : q.coordinates = p.coordinates
    · exact ⟨_, Dict.mem_assign_self .., hc.symm⟩
    · rcases List.mem_append.mp hq with hq | hq
      · obtain ⟨e, he, hek⟩ := h.complete q hq
        exact ⟨e, Dict.mem_assign_of_ne (hek ▸ hc) he, hek⟩
      · simp_all

section Prune

variable [PyRepr S] [PyRepr A]

theorem Deduplicated.keepUnique {points : List (ParetoPoint S A)}
    {unique : List ((ℚ × ℚ) × ParetoPoint S A)} (h : Deduplicated points unique)
    (p : ParetoPoint S A) : Deduplicated (points ++ [p]) (keepUnique unique p) := by
  unfold Planning.keepUnique
  dsimp only
  split
  · exact h.assign p
  · rename_i incumbent hl
    split
    · exact h.assign p
    · refine ⟨fun e he => ⟨by simp [(h.sound e he).1], (h.sound e he).2⟩, fun q hq => ?_⟩
      rcases List.mem_append.mp hq with hq | hq
      · exact h.complete q hq
      · obtain rfl : q = p := by simpa using hq
        exact ⟨_, Dict.lookup_mem hl, rfl⟩

theorem deduplicated_foldl (points : List (ParetoPoint S A)) :
    Deduplicated points (points.foldl keepUnique []) := by
  have key : ∀ (seen : List (ParetoPoint S A)) (unique : List ((ℚ × ℚ) × ParetoPoint S A)),
      Deduplicated seen unique →
        Deduplicated (seen ++ points) (points.foldl keepUnique unique) := by
    induction points with
    | nil => intro seen unique h; simpa using h
    | cons p points ih => intro seen unique h; simpa using ih _ _ (h.keepUnique p)
  simpa using key [] [] ⟨by simp, by simp⟩

theorem mem_paretoPrune {points : List (ParetoPoint S A)} {p : ParetoPoint S A}
    (h : p ∈ paretoPrune points) : p ∈ points := by
  simp only [paretoPrune, mem_sortBy, List.mem_filter, List.mem_map] at h
  obtain ⟨⟨e, he, rfl⟩, -⟩ := h
  exact ((deduplicated_foldl points).sound e he).1

theorem paretoPrune_frontier (points : List (ParetoPoint S A)) :
    Frontier (pointValues (paretoPrune points)) (pointValues points) := by
  have hd := deduplicated_foldl points
  let candidates := (points.foldl keepUnique []).map Prod.snd
  have hvalues : {v | v ∈ candidates.map ParetoPoint.value} = pointValues points := by
    ext v
    simp only [pointValues, candidates, Set.mem_ofPred_eq, List.mem_map]
    constructor
    · rintro ⟨_, ⟨e, he, rfl⟩, rfl⟩
      exact ⟨e.2, (hd.sound e he).1, rfl⟩
    · rintro ⟨p, hp, rfl⟩
      obtain ⟨e, he, hk⟩ := hd.complete p hp
      exact ⟨e.2, ⟨e, he, rfl⟩, ParetoPoint.value_eq_iff.mpr ((hd.sound e he).2.trans hk)⟩
  have hprune : pointValues (paretoPrune points) = {v | v ∈ candidates.map ParetoPoint.value ∧
      ∀ w ∈ candidates.map ParetoPoint.value, ¬ v < w} := by
    ext v
    simp only [pointValues, paretoPrune, mem_sortBy, List.mem_filter, decide_eq_true_eq,
      Set.mem_ofPred_eq, List.forall_mem_map, ParetoPoint.dominatedBy_iff]
    constructor
    · rintro ⟨p, ⟨hp, hmax⟩, rfl⟩
      refine ⟨List.mem_map_of_mem hp, fun q hq => ?_⟩
      obtain ⟨e, he, rfl⟩ := List.mem_map.mp hq
      exact hmax e he
    · rintro ⟨hv, hmax⟩
      obtain ⟨p, hp, rfl⟩ := List.mem_map.mp hv
      exact ⟨p, ⟨hp, fun e he => hmax e.2 (List.mem_map_of_mem he)⟩, rfl⟩
  rw [hprune, ← hvalues]
  exact frontier_of_list _

end Prune

/-! ## Values of a distribution -/

/-- The expected continuation value of a distribution. -/
def massSum (V : S → ℚ) (distribution : Distribution S) : ℚ :=
  (distribution.map fun e => e.2 * V e.1).sum

theorem massSum_congr {V W : S → ℚ} {distribution : Distribution S}
    (h : ∀ e ∈ distribution, V e.1 = W e.1) : massSum V distribution = massSum W distribution := by
  unfold massSum
  congr 1
  exact List.map_congr_left fun e he => by rw [h e he]

theorem massSum_append (V : S → ℚ) (d e : Distribution S) :
    massSum V (d ++ e) = massSum V d + massSum V e := by simp [massSum]

/-- The states of a sublist carry the whole value when the other states are worth nothing. -/
theorem massSum_sublist {V : S → ℚ} {d e : Distribution S} (h : d.Sublist e) (he : e.Nodup)
    (hV : ∀ x ∈ e, x ∉ d → V x.1 = 0) : massSum V e = massSum V d := by
  induction h with
  | slnil => rfl
  | @cons d e x h ih =>
    rw [List.nodup_cons] at he
    have hx : V x.1 = 0 := hV x (by simp) fun hd => he.1 (h.subset hd)
    have := ih he.2 fun y hy => hV y (by simp [hy])
    simpa [massSum, hx] using this
  | @cons_cons d e x h ih =>
    rw [List.nodup_cons] at he
    have := ih he.2 fun y hy hyd => hV y (by simp [hy]) (by
      simp only [List.mem_cons, hyd, or_false]
      rintro rfl
      exact he.1 hy)
    simpa [massSum] using this

section Mass

variable [PyRepr S]

theorem mem_canonicalDistribution {d : Distribution S} {e : S × ℚ} :
    e ∈ canonicalDistribution d ↔ e ∈ d ∧ 0 < e.2 := by
  simp [canonicalDistribution]

theorem massSum_canonicalDistribution (V : S → ℚ) {d : Distribution S} (h : ∀ e ∈ d, 0 < e.2) :
    massSum V (canonicalDistribution d) = massSum V d := by
  rw [massSum, canonicalDistribution, sum_map_sortBy,
    List.filter_eq_self.mpr fun e he => by simpa using h e he, massSum]

theorem nodup_canonicalDistribution {d : Distribution S} (h : (d.map Prod.fst).Nodup) :
    ((canonicalDistribution d).map Prod.fst).Nodup :=
  nodup_map_sortBy (h.sublist (List.filter_sublist.map _))

end Mass

theorem mem_successorEvents {kernel : Kernel S A} {goal : String} {mass : ℚ}
    {outcomes : List (Outcome S)} {e : S × ℚ} (he : e ∈ successorEvents kernel goal mass outcomes) :
    ∃ o ∈ outcomes, outcomeStopped kernel goal o = false ∧ o.nextState = e.1 ∧
      e.2 = mass * o.probability := by
  simp only [successorEvents, List.mem_map, List.mem_filter, Bool.not_eq_true'] at he
  obtain ⟨o, ⟨ho, hs⟩, rfl⟩ := he
  exact ⟨o, ho, hs, rfl, rfl⟩

theorem mul_backup (kernel : Kernel S A) (goal : String) (gain : Outcome S → ℚ) (mass : ℚ)
    (outcomes : List (Outcome S)) (V : S → ℚ) :
    mass * backup (outcomeBranches kernel goal gain outcomes) V =
      (outcomes.map fun o => mass * o.probability * gain o).sum +
        massSum V (successorEvents kernel goal mass outcomes) := by
  induction outcomes with
  | nil => simp [outcomeBranches, massSum, successorEvents]
  | cons o outcomes ih =>
    simp only [outcomeBranches, List.map_cons, backup_cons] at ih ⊢
    rw [mul_add, ih]
    by_cases hs : outcomeStopped kernel goal o = true
    · simp [Branch.gain, outcomeBranch, successorEvents, massSum, hs]
      ring
    · simp [Branch.gain, outcomeBranch, successorEvents, massSum, hs]
      ring

section Values

variable [PyRepr S] [PyRepr A]

/-- The value of a selector from a distribution, in the order of `ParetoPoint.value`. -/
def massValue (kernel : Kernel S A) (goal : String) (weights : Features) (select : Selector S A)
    (n : ℕ) (distribution : Distribution S) : ℚ × ℚᵒᵈ :=
  (massSum (value (selectorLaw kernel goal (fun o => outcomeReward o weights) select) n)
      distribution,
    OrderDual.toDual
      (massSum (value (selectorLaw kernel goal failureCost select) n) distribution))

def immediatePart (immediate : ℚ × ℚ) : ℚ × ℚᵒᵈ := (immediate.1, OrderDual.toDual immediate.2)

omit [PyRepr S] [PyRepr A] in
theorem immediatePart_sum {ι : Type} (l : List ι) (f : ι → ℚ × ℚ) :
    immediatePart ((l.map fun i => (f i).1).sum, (l.map fun i => (f i).2).sum) =
      (l.map fun i => immediatePart (f i)).sum := by
  induction l with
  | nil => rfl
  | cons i l ih =>
    simp only [List.map_cons, List.sum_cons, ← ih]
    rfl

variable {kernel : Kernel S A} {goal : String} {weights : Features} {select : Selector S A}
  {n : ℕ}

theorem massValue_append (d e : Distribution S) :
    massValue kernel goal weights select n (d ++ e) =
      massValue kernel goal weights select n d + massValue kernel goal weights select n e := by
  simp only [massValue, massSum_append]
  rfl

theorem massValue_congr {select' : Selector S A} {d : Distribution S}
    (h : ∀ e ∈ d, ∀ gain, value (selectorLaw kernel goal gain select') n e.1 =
      value (selectorLaw kernel goal gain select) n e.1) :
    massValue kernel goal weights select' n d = massValue kernel goal weights select n d := by
  simp only [massValue, massSum_congr fun e he => h e he _]

/-- One joint stage of a selector that takes the listed actions. -/
theorem massValue_stage (weights : Features) {picks : List ((S × ℚ) × A)}
    {outs : (S × ℚ) × A → List (Outcome S)}
    (ht : ∀ c ∈ picks, Takes kernel goal select (n + 1) c.1.1 c.2 (outs c)) :
    massValue kernel goal weights select (n + 1) (picks.map Prod.fst) =
      (picks.map fun c => immediatePart (immediateValue weights c.1.2 (outs c))).sum +
        massValue kernel goal weights select n
          (picks.flatMap fun c => successorEvents kernel goal c.1.2 (outs c)) := by
  induction picks with
  | nil => simp [massValue, massSum]
  | cons c picks ih =>
    have hc := ht c (by simp)
    have ih := ih fun d hd => ht d (by simp [hd])
    have hone : massValue kernel goal weights select (n + 1) [c.1] =
        immediatePart (immediateValue weights c.1.2 (outs c)) +
          massValue kernel goal weights select n
            (successorEvents kernel goal c.1.2 (outs c)) := by
      simp only [massValue, massSum, List.map_cons, List.map_nil, List.sum_cons, List.sum_nil,
        add_zero, value_takes hc, mul_backup]
      rfl
    rw [List.map_cons, List.flatMap_cons, massValue_append, List.map_cons, List.sum_cons,
      show c.1 :: picks.map Prod.fst = [c.1] ++ picks.map Prod.fst from rfl, massValue_append,
      hone, ih]
    abel

end Values

/-! ## What a solved distribution is -/

section

variable [DecidableEq S] [PyRepr S] [PyRepr A]

/-- The selector takes an available action at every covered pair that needs one. -/
def Decides (kernel : Kernel S A) (goal : String) (cover : ℕ → S → Prop)
    (select : Selector S A) : Prop :=
  ∀ n s, cover (n + 1) s → ¬ Idle kernel goal s →
    ∀ actions, kernel.actions s = .ok actions → ∃ a ∈ actions, select (n + 1) s = some a

/-- The selector takes no action other than a required one where it is required. -/
def Respects (requirements : Requirements S A) (select : Selector S A) : Prop :=
  ∀ n s a b, requirements.entries.lookup (n, s) = some a → select n s = some b → b = a

/-- Covered pairs continue into covered pairs, under any action. -/
def ClosedCover (kernel : Kernel S A) (goal : String) (cover : ℕ → S → Prop) : Prop :=
  ∀ n s actions a outcomes, cover (n + 1) s → isStopped kernel s goal = false →
    kernel.actions s = .ok actions → a ∈ actions → iterOutcomes kernel s a = .ok outcomes →
    ∀ o ∈ outcomes, outcomeStopped kernel goal o = false → cover n o.nextState

/-- The points are policies of their own values, and their values are the frontier of the values
of all selectors that respect the requirements. -/
structure Solves (kernel : Kernel S A) (goal : String) (weights : Features)
    (requirements : Requirements S A) (cover : ℕ → S → Prop) (n : ℕ)
    (distribution : Distribution S) (points : List (ParetoPoint S A)) : Prop where
  covers : ∀ select, Decides kernel goal cover select → Respects requirements select →
    (∀ e ∈ distribution, Follows kernel goal select n e.1) ∧
      ∃ p ∈ points, massValue kernel goal weights select n distribution ≤ p.value
  follows : ∀ p ∈ points, ∀ e ∈ distribution, Follows kernel goal p.policy.select n e.1
  respects : ∀ p ∈ points, Respects requirements p.policy.select
  value : ∀ p ∈ points,
    p.value = massValue kernel goal weights p.policy.select n distribution
  decided : ∀ p ∈ points, ∀ d ∈ p.policy.asDict, d.1.1 ≤ n ∧ cover d.1.1 d.1.2
  antichain : ∀ p ∈ points, ∀ q ∈ points, ¬ p.value < q.value

variable {kernel : Kernel S A} {goal : String} {weights : Features}
  {requirements : Requirements S A} {cover : ℕ → S → Prop} {n : ℕ}

theorem solves_zeroPoint {distribution : Distribution S}
    (h : ∀ select : Selector S A, ∀ e ∈ distribution, Follows kernel goal select n e.1 ∧
      ∀ gain, Library.value (selectorLaw kernel goal gain select) n e.1 = 0) :
    Solves kernel goal weights requirements cover n distribution [zeroPoint] := by
  have hzero : ∀ select : Selector S A,
      massValue kernel goal weights select n distribution =
        (zeroPoint : ParetoPoint S A).value := by
    intro select
    have hsum : ∀ gain,
        massSum (Library.value (selectorLaw kernel goal gain select) n) distribution = 0 := by
      intro gain
      rw [massSum_congr (W := fun _ => 0) fun e he => (h select e he).2 gain]
      simp [massSum]
    simp only [massValue, hsum]
    rfl
  refine ⟨fun select _ _ => ⟨fun e he => (h select e he).1, zeroPoint, by simp, (hzero _).le⟩,
    fun p _ e he => (h _ e he).1, ?_, ?_, ?_, ?_⟩
  · rintro p hp n s a b - hb
    obtain rfl : p = zeroPoint := by simpa using hp
    cases (show (none : Option A) = some b from hb)
  · intro p hp
    obtain rfl : p = zeroPoint := by simpa using hp
    exact (hzero _).symm
  · intro p hp d hd
    obtain rfl : p = zeroPoint := by simpa using hp
    simp [zeroPoint, FiniteHorizonPolicy.asDict, FiniteHorizonPolicy.empty] at hd
  · intro p hp q hq
    obtain rfl : p = zeroPoint := by simpa using hp
    obtain rfl : q = zeroPoint := by simpa using hq
    exact lt_irrefl _

/-- Pruning a list of candidates that covers every selector solves the distribution. -/
theorem solves_paretoPrune {distribution : Distribution S} {points : List (ParetoPoint S A)}
    (hcovers : ∀ select, Decides kernel goal cover select → Respects requirements select →
      (∀ e ∈ distribution, Follows kernel goal select n e.1) ∧
        ∃ p ∈ points, massValue kernel goal weights select n distribution ≤ p.value)
    (hpoints : ∀ p ∈ points, (∀ e ∈ distribution, Follows kernel goal p.policy.select n e.1) ∧
      Respects requirements p.policy.select ∧
      p.value = massValue kernel goal weights p.policy.select n distribution ∧
      ∀ d ∈ p.policy.asDict, d.1.1 ≤ n ∧ cover d.1.1 d.1.2) :
    Solves kernel goal weights requirements cover n distribution (paretoPrune points) where
  covers select hd hr := by
    obtain ⟨hf, p, hp, hle⟩ := hcovers select hd hr
    obtain ⟨v, ⟨q, hq, rfl⟩, hpq⟩ := (paretoPrune_frontier points).covers p.value ⟨p, hp, rfl⟩
    exact ⟨hf, q, hq, hle.trans hpq⟩
  follows p hp := (hpoints p (mem_paretoPrune hp)).1
  respects p hp := (hpoints p (mem_paretoPrune hp)).2.1
  value p hp := (hpoints p (mem_paretoPrune hp)).2.2.1
  decided p hp := (hpoints p (mem_paretoPrune hp)).2.2.2
  antichain p hp q hq hlt := hlt.ne ((paretoPrune_frontier points).maximal p.value ⟨p, hp, rfl⟩
    q.value ⟨q, mem_paretoPrune hq, rfl⟩ hlt.le).symm

/-- States that need no decision may be left out. -/
theorem Solves.of_sublist {d e : Distribution S} {points : List (ParetoPoint S A)}
    (h : Solves kernel goal weights requirements cover (n + 1) d points) (hsub : d.Sublist e)
    (he : e.Nodup) (hidle : ∀ x ∈ e, x ∉ d → Idle kernel goal x.1) :
    Solves kernel goal weights requirements cover (n + 1) e points := by
  have hvalue : ∀ select : Selector S A, massValue kernel goal weights select (n + 1) e =
      massValue kernel goal weights select (n + 1) d := fun select => by
    simp only [massValue]
    rw [massSum_sublist hsub he fun x hx hd => value_idle (hidle x hx hd),
      massSum_sublist hsub he fun x hx hd => value_idle (hidle x hx hd)]
  have hfollows : ∀ select : Selector S A, (∀ x ∈ d, Follows kernel goal select (n + 1) x.1) →
      ∀ x ∈ e, Follows kernel goal select (n + 1) x.1 := fun select hd x hx => by
    by_cases hxd : x ∈ d
    · exact hd x hxd
    · exact .inl (hidle x hx hxd)
  refine ⟨fun select hd hr => ?_, fun p hp => hfollows _ (h.follows p hp), h.respects,
    fun p hp => (h.value p hp).trans (hvalue _).symm, h.decided, h.antichain⟩
  obtain ⟨hf, p, hp, hle⟩ := h.covers select hd hr
  exact ⟨hfollows _ hf, p, hp, (hvalue select).trans_le hle⟩

end

end Acfqp.Planning
