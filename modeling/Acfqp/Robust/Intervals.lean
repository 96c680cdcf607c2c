import Acfqp.Library.BoxSimplex
import Acfqp.Library.Dict
import Acfqp.Library.Ordered

/-!
# Interval simplices and their extreme expectations

A transition row knows each destination's mass only up to an interval, one joint simplex with
an explicit destination for everything unobserved. A robust expectation starts from the lower
bounds and gives the remaining mass to the best, or to the worst, destinations first.
-/

namespace Acfqp.Robust

open Library

/-- What the planner raises: its own typed violation, or a missing key. -/
inductive PlannerError where
  | violation (message : String)
  | keyError (key : String)
  deriving DecidableEq, Repr

@[ext] structure IntervalDestinationMass where
  destinationId : String
  lower : ℚ
  upper : ℚ
  lower_nonneg : 0 ≤ lower
  lower_le_upper : lower ≤ upper
  upper_le_one : upper ≤ 1

instance : DecidableEq IntervalDestinationMass := fun _ _ =>
  decidable_of_iff _ IntervalDestinationMass.ext_iff.symm

def AdmissibleSimplex (masses : List IntervalDestinationMass) : Prop :=
  (masses.map IntervalDestinationMass.lower).sum ≤ 1 ∧
    1 ≤ (masses.map IntervalDestinationMass.upper).sum

instance (masses : List IntervalDestinationMass) : Decidable (AdmissibleSimplex masses) :=
  inferInstanceAs (Decidable (_ ∧ _))

structure ExtremeExpectation where
  value : ℚ
  allocations : List (String × ℚ)

def entry (table : List (String × ℚ)) (destinationId : String) : ℚ :=
  (table.lookup destinationId).getD 0

/-- Give the residual mass to the destinations in order, each up to its upper bound. -/
def allocate : List IntervalDestinationMass → List (String × ℚ) → ℚ → List (String × ℚ) × ℚ
  | [], allocations, residual => (allocations, residual)
  | item :: rest, allocations, residual =>
    if residual = 0 then (allocations, residual)
    else
      let added := min residual (item.upper - item.lower)
      allocate rest (bump item.destinationId added allocations) (residual - added)

def fillOrder (values : List (String × ℚ)) (maximize : Bool)
    (masses : List IntervalDestinationMass) : List IntervalDestinationMass :=
  sortBy (fun item => toLex ((if maximize then -entry values item.destinationId
    else entry values item.destinationId), item.destinationId)) masses

def extremeExpectation (masses : List IntervalDestinationMass) (values : List (String × ℚ))
    (maximize : Bool) : Except PlannerError ExtremeExpectation := do
  require ((masses.map IntervalDestinationMass.destinationId).toFinset =
      (values.map Prod.fst).toFinset)
    (.violation "robust expectation value registry differs from row destinations")
  let allocations := Dict.ofPairs (masses.map fun item => (item.destinationId, item.lower))
  let residual := 1 - (allocations.map Prod.snd).sum
  let (allocations, residual) := allocate (fillOrder values maximize masses) allocations residual
  require (residual = 0)
    (.violation "joint interval simplex optimizer could not allocate unit mass")
  .ok ⟨(masses.map fun item => entry allocations item.destinationId *
    entry values item.destinationId).sum, allocations⟩

/-! ## The loop fills greedily -/

@[simp] theorem entry_bump_self (k : String) (v : ℚ) (table : List (String × ℚ)) :
    entry (bump k v table) k = entry table k + v := by
  induction table with
  | nil => simp [entry, bump]
  | cons e table ih =>
    obtain ⟨k', w⟩ := e
    by_cases hk : k' = k
    · simp [entry, bump, hk]
    · have hne : (k == k') = false := beq_false_of_ne (Ne.symm hk)
      simpa [entry, bump, hk, List.lookup_cons, hne] using ih

theorem entry_bump_of_ne {k x : String} (hx : x ≠ k) (v : ℚ) (table : List (String × ℚ)) :
    entry (bump k v table) x = entry table x := by
  induction table with
  | nil => simp [entry, bump, List.lookup_cons, beq_false_of_ne hx]
  | cons e table ih =>
    obtain ⟨k', w⟩ := e
    by_cases hk : k' = k
    · subst hk
      simp [entry, bump, List.lookup_cons, beq_false_of_ne hx]
    · by_cases hxk : x = k'
      · subst hxk
        simp [entry, bump, hk]
      · simpa [entry, bump, hk, List.lookup_cons, beq_false_of_ne hxk] using ih

def IntervalDestinationMass.width (item : IntervalDestinationMass) : ℚ := item.upper - item.lower

theorem IntervalDestinationMass.width_nonneg (item : IntervalDestinationMass) : 0 ≤ item.width :=
  sub_nonneg.mpr item.lower_le_upper

/-- The loop adds to each entry what the greedy filling gives its destination, changes no other
entry and no key, and leaves what the filling leaves. -/
theorem allocate_spec {order : List IntervalDestinationMass} {table : List (String × ℚ)} {r : ℚ}
    (hids : (order.map IntervalDestinationMass.destinationId).Nodup)
    (hkeys : ∀ item ∈ order, item.destinationId ∈ table.map Prod.fst) :
    (∀ item ∈ order, entry (allocate order table r).1 item.destinationId =
      entry table item.destinationId + fill IntervalDestinationMass.width r order item) ∧
    (∀ x, x ∉ order.map IntervalDestinationMass.destinationId →
      entry (allocate order table r).1 x = entry table x) ∧
    (allocate order table r).1.map Prod.fst = table.map Prod.fst ∧
    (allocate order table r).2 =
      r - (order.map (fill IntervalDestinationMass.width r order)).sum := by
  induction order generalizing table r with
  | nil => simp [allocate]
  | cons item order ih =>
    have hitem : item ∉ order := fun h =>
      (List.nodup_cons.mp hids).1 (List.mem_map_of_mem h)
    have hnodup : (item :: order).Nodup := hids.of_map
    have hwidth : ∀ x ∈ item :: order, 0 ≤ x.width := fun x _ => x.width_nonneg
    unfold allocate
    by_cases hr : r = 0
    · subst hr
      have hzero : fill IntervalDestinationMass.width 0 (item :: order) = fun _ => 0 :=
        funext fun _ => fill_zero hwidth
      simp [hzero]
    · obtain ⟨hmem, hnot⟩ := List.nodup_cons.mp hids
      have hkeysBump : (bump item.destinationId (min r item.width) table).map Prod.fst =
          table.map Prod.fst := by
        rw [keys_bump, if_pos (hkeys item (by simp))]
      obtain ⟨hin, hout, hkeep, hleft⟩ := @ih (bump item.destinationId (min r item.width) table)
        (r - min r item.width) hnot
        (fun x hx => by rw [hkeysBump]; exact hkeys x (by simp [hx]))
      simp only [hr, if_false]
      refine ⟨fun x hx => ?_, fun x hx => ?_, hkeep.trans hkeysBump, ?_⟩
      · rcases List.mem_cons.mp hx with rfl | hx
        · rw [fill_head]
          exact (hout _ hmem).trans (entry_bump_self _ _ _)
        · have hne : x ≠ item := fun h => hitem (h ▸ hx)
          have hid : x.destinationId ≠ item.destinationId := fun h =>
            hmem (h ▸ List.mem_map_of_mem hx)
          rw [fill_of_ne hne]
          exact (hin x hx).trans (by rw [entry_bump_of_ne hid])
      · obtain ⟨hne, hx⟩ : x ≠ item.destinationId ∧
            x ∉ order.map IntervalDestinationMass.destinationId := by simpa using hx
        exact (hout x (by simpa using hx)).trans (entry_bump_of_ne hne _ _)
      · have hsplit := sum_fill_cons IntervalDestinationMass.width r hnodup fun _ q => q
        exact hleft.trans (by linarith)

/-! ## The filling is extreme -/

/-- A distribution on a row's destinations that respects every interval. -/
structure InSimplex (masses : List IntervalDestinationMass) (p : String → ℚ) : Prop where
  bounds : ∀ item ∈ masses, item.lower ≤ p item.destinationId ∧ p item.destinationId ≤ item.upper
  mass : (masses.map fun item => p item.destinationId).sum = 1

/-- The expected value of a row under a distribution. -/
def expectation (masses : List IntervalDestinationMass) (values : List (String × ℚ))
    (p : String → ℚ) : ℚ :=
  (masses.map fun item => p item.destinationId * entry values item.destinationId).sum

/-- The sign under which an extreme expectation is a largest one. -/
def direction (maximize : Bool) : ℚ := if maximize then 1 else -1

variable {masses : List IntervalDestinationMass} {values : List (String × ℚ)} {maximize : Bool}
  {p : String → ℚ}

theorem fillOrder_perm : (fillOrder values maximize masses).Perm masses := perm_sortBy _ _

theorem fillOrder_sorted : (fillOrder values maximize masses).Pairwise fun x y =>
    direction maximize * entry values y.destinationId ≤
      direction maximize * entry values x.destinationId := by
  refine (pairwise_sortBy _ _).imp fun {x y} h => ?_
  have hle := (Prod.Lex.toLex_le_toLex.mp h).elim le_of_lt fun h => h.1.le
  cases maximize <;> simpa [direction] using hle

theorem InSimplex.inBoxSimplex {order : List IntervalDestinationMass} (hperm : order.Perm masses)
    (h : InSimplex masses p) : InBoxSimplex IntervalDestinationMass.lower
      IntervalDestinationMass.upper order fun item => p item.destinationId where
  bounds item hitem := h.bounds item (hperm.mem_iff.mp hitem)
  mass := by rw [(hperm.map _).sum_eq, h.mass]

theorem AdmissibleSimplex.admissible {order : List IntervalDestinationMass}
    (hperm : order.Perm masses) (h : AdmissibleSimplex masses) :
    Admissible IntervalDestinationMass.lower IntervalDestinationMass.upper order where
  ordered item _ := item.lower_le_upper
  lower_le := by rw [(hperm.map _).sum_eq]; exact h.1
  le_upper := by rw [(hperm.map _).sum_eq]; exact h.2

/-- The extreme expectation exists, its allocation is a distribution of the simplex on the row's
own destinations, and no distribution of the simplex does better. -/
theorem extremeExpectation_spec
    (hids : (masses.map IntervalDestinationMass.destinationId).Nodup)
    (hadmissible : AdmissibleSimplex masses)
    (hvalues : (masses.map IntervalDestinationMass.destinationId).toFinset =
      (values.map Prod.fst).toFinset) :
    ∃ e, extremeExpectation masses values maximize = .ok e ∧
      e.allocations.map Prod.fst = masses.map IntervalDestinationMass.destinationId ∧
      InSimplex masses (entry e.allocations) ∧
      e.value = expectation masses values (entry e.allocations) ∧
      ∀ p, InSimplex masses p →
        direction maximize * expectation masses values p ≤ direction maximize * e.value := by
  set order := fillOrder values maximize masses with horder
  have hperm : order.Perm masses := fillOrder_perm
  set start := masses.map fun item => (item.destinationId, item.lower) with hstart
  have hkeys : start.map Prod.fst = masses.map IntervalDestinationMass.destinationId := by
    simp [hstart, Function.comp_def]
  have hofPairs : Dict.ofPairs start = start := Dict.ofPairs_of_nodup (by rwa [hkeys])
  have hresidual : 1 - (start.map Prod.snd).sum =
      1 - (order.map IntervalDestinationMass.lower).sum := by
    rw [(hperm.map _).sum_eq]
    simp [hstart, Function.comp_def]
  have hentry : ∀ item ∈ masses, entry start item.destinationId = item.lower := by
    intro item hitem
    have hmem : (item.destinationId, item.lower) ∈ start := List.mem_map.mpr ⟨item, hitem, rfl⟩
    simp [entry, Dict.lookup_eq_some (by rwa [hkeys]) hmem]
  obtain ⟨hin, -, hkeep, hleft⟩ := @allocate_spec order start
    (1 - (order.map IntervalDestinationMass.lower).sum)
    ((hperm.map _).nodup_iff.mpr hids)
    (fun item hitem => by
      rw [hkeys]
      exact List.mem_map_of_mem (hperm.mem_iff.mp hitem))
  set allocations := (allocate order start (1 - (order.map IntervalDestinationMass.lower).sum)).1
    with hallocations
  have horderNodup : order.Nodup := (hids.of_map).perm hperm.symm
  have hadm := hadmissible.admissible hperm
  have hbox := greedy_inBoxSimplex horderNodup hadm
  have hgreedy : ∀ item ∈ order, entry allocations item.destinationId =
      greedy IntervalDestinationMass.lower IntervalDestinationMass.upper order item := by
    intro item hitem
    rw [hin item hitem, hentry item (hperm.mem_iff.mp hitem)]
    rfl
  have hsimplex : InSimplex masses (entry allocations) := by
    refine ⟨fun item hitem => ?_, ?_⟩
    · rw [hgreedy item (hperm.mem_iff.mpr hitem)]
      exact hbox.bounds item (hperm.mem_iff.mpr hitem)
    · rw [← (hperm.map _).sum_eq, List.map_congr_left hgreedy]
      exact hbox.mass
  have hspent : (allocate order start (1 - (order.map IntervalDestinationMass.lower).sum)).2 =
      0 := by
    have hfill := hbox.mass
    unfold greedy at hfill
    rw [List.sum_map_add] at hfill
    rw [hleft]
    unfold IntervalDestinationMass.width
    linarith
  refine ⟨⟨expectation masses values (entry allocations), allocations⟩, ?_,
    hkeep.trans hkeys, hsimplex, rfl, fun q hq => ?_⟩
  · unfold extremeExpectation
    rw [bind_of_ok (require_eq_ok (u := ()).mpr hvalues)]
    simp only [← hstart, hofPairs, hresidual, ← horder, hspent, ← hallocations]
    rw [bind_of_ok (require_eq_ok (u := ()).mpr trivial)]
    rfl
  · -- Every distribution is beaten by the filling, in the order of falling values.
    have hbest := sum_mul_le_greedy horderNodup hadm fillOrder_sorted (hq.inBoxSimplex hperm)
    have hexpect : ∀ q : String → ℚ, direction maximize * expectation masses values q =
        (order.map fun item => q item.destinationId *
          (direction maximize * entry values item.destinationId)).sum := by
      intro q
      rw [expectation, ← List.sum_map_mul_left, (hperm.map _).sum_eq]
      exact congrArg _ (List.map_congr_left fun item _ => by ring)
    rw [hexpect, hexpect]
    refine hbest.trans (le_of_eq (congrArg _ (List.map_congr_left fun item hitem => ?_)))
    rw [hgreedy item hitem]

def expectations (masses : List IntervalDestinationMass) (values : List (String × ℚ)) : Set ℚ :=
  {x | ∃ p, InSimplex masses p ∧ expectation masses values p = x}

/-- On distinct destinations whose intervals admit a unit mass, the extreme expectation is the
largest, or the smallest, over the whole simplex, and its allocation attains it. -/
theorem extremeExpectation_optimal (masses : List IntervalDestinationMass)
    (values : List (String × ℚ)) (maximize : Bool)
    (hids : (masses.map IntervalDestinationMass.destinationId).Nodup)
    (hadmissible : AdmissibleSimplex masses)
    (hvalues : (masses.map IntervalDestinationMass.destinationId).toFinset =
      (values.map Prod.fst).toFinset) :
    ∃ e, extremeExpectation masses values maximize = .ok e ∧
      (if maximize then IsGreatest (expectations masses values) e.value
        else IsLeast (expectations masses values) e.value) ∧
      e.allocations.map Prod.fst = masses.map IntervalDestinationMass.destinationId ∧
      InSimplex masses (entry e.allocations) ∧
      expectation masses values (entry e.allocations) = e.value := by
  obtain ⟨e, he, hkeys, hsimplex, hvalue, hbest⟩ :=
    @extremeExpectation_spec masses values maximize hids hadmissible hvalues
  refine ⟨e, he, ?_, hkeys, hsimplex, hvalue.symm⟩
  cases maximize with
  | true =>
    refine ⟨⟨_, hsimplex, hvalue.symm⟩, ?_⟩
    rintro x ⟨p, hp, rfl⟩
    simpa [direction] using hbest p hp
  | false =>
    refine ⟨⟨_, hsimplex, hvalue.symm⟩, ?_⟩
    rintro x ⟨p, hp, rfl⟩
    simpa [direction] using hbest p hp

/-- A destination that may take anything between a third and two thirds of a row. -/
def middleThird (destinationId : String) : IntervalDestinationMass :=
  ⟨destinationId, 1 / 3, 2 / 3, by norm_num, by norm_num, by norm_num⟩

theorem extremeExpectation_middleThird :
    ∃ e, extremeExpectation [middleThird "active", middleThird "other"]
        [("other", 1), ("active", 0)] true = .ok e ∧ e.value = 2 / 3 ∧
      IsGreatest (expectations [middleThird "active", middleThird "other"]
        [("other", 1), ("active", 0)]) e.value := by
  obtain ⟨e, he, hgreatest, -⟩ := extremeExpectation_optimal
    [middleThird "active", middleThird "other"] [("other", 1), ("active", 0)] true
    (by decide) (by norm_num [AdmissibleSimplex, middleThird]) (by decide)
  have hvalue : (extremeExpectation [middleThird "active", middleThird "other"]
      [("other", 1), ("active", 0)] true).map (·.value) = .ok (2 / 3) := by decide +kernel
  rw [he] at hvalue
  exact ⟨e, he, Except.ok.inj hvalue, hgreatest⟩

end Acfqp.Robust
