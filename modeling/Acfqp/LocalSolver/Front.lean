import Acfqp.Library.Fronts
import Acfqp.LocalSolver.Caps

/-!
# The root frontier grows to one front

Inserting root points one after the other, within the limits, leaves the front of all of them: one
point for each value that no inserted point dominates, with the least policy signature, in the order
of the solver. The order of the insertions leaves no trace in it.
-/

namespace Acfqp.LocalSolver

open Library

variable {limits : SearchLimits} {candidate : RootPoint} {s t : SearchState}
  {inserted : Set RootPoint}

/-- The worth of a root point: more reward, and less failure. -/
def rootWorth (point : RootPoint) : ℚ × ℚᵒᵈ :=
  (point.rewardFloor, OrderDual.toDual point.failureCeiling)

theorem rootWorth_lt {p q : RootPoint} : rootWorth p < rootWorth q ↔ dominates q p := by
  rw [lt_iff_le_not_ge]
  simp only [rootWorth, Prod.mk_le_mk, OrderDual.toDual_le_toDual, dominates]
  constructor
  · rintro ⟨⟨hreward, hfailure⟩, hnot⟩
    refine ⟨hreward, hfailure, ?_⟩
    by_contra hnone
    push Not at hnone
    exact hnot ⟨hnone.1, hnone.2⟩
  · rintro ⟨hreward, hfailure, hstrict⟩
    refine ⟨⟨hreward, hfailure⟩, fun hback => ?_⟩
    rcases hstrict with hlt | hlt
    · exact absurd hback.1 (not_le_of_gt hlt)
    · exact absurd hback.2 (not_le_of_gt hlt)

theorem rootWorth_eq {p q : RootPoint} : rootWorth p = rootWorth q ↔
    p.rewardFloor = q.rewardFloor ∧ p.failureCeiling = q.failureCeiling := by
  simp [rootWorth]

/-- The order of the frontier shows the value and the signature. -/
theorem frontierKey_eq {p q : RootPoint} : frontierKey p = frontierKey q ↔
    rootWorth p = rootWorth q ∧ p.policySignature = q.policySignature := by
  rw [rootWorth_eq, frontierKey, frontierKey, toLex_inj, Prod.mk.injEq, toLex_inj, Prod.mk.injEq,
    neg_inj]
  tauto

instance decidableLTWorth : DecidableLT (ℚ × ℚᵒᵈ) := fun _ _ => decidable_of_iff' _ Prod.lt_iff

/-! ## Comparisons -/

/-- What the comparison of a candidate establishes about the points. -/
inductive Compares (candidate : RootPoint) (points remove : List RootPoint) : Comparison → Prop
  | dominated (p : RootPoint) (hp : p ∈ points) (hlt : rootWorth candidate < rootWorth p)
      (removed : List RootPoint) : Compares candidate points remove ⟨none, true, removed⟩
  | duplicate (d : RootPoint) (hd : d ∈ points) (heq : rootWorth d = rootWorth candidate)
      (removed : List RootPoint) : Compares candidate points remove ⟨some d, false, removed⟩
  | new (hnew : ∀ p ∈ points, ¬ rootWorth candidate ≤ rootWorth p) :
      Compares candidate points remove ⟨none, false, remove ++ points.filter fun p =>
        rootWorth p < rootWorth candidate⟩

theorem Compares.skip {p : RootPoint} {points remove : List RootPoint} {c : Comparison}
    (h : Compares candidate points
      (remove ++ if rootWorth p < rootWorth candidate then [p] else []) c)
    (hp : ¬ rootWorth candidate ≤ rootWorth p) : Compares candidate (p :: points) remove c := by
  cases h with
  | dominated q hq hlt removed => exact .dominated q (List.mem_cons_of_mem _ hq) hlt removed
  | duplicate d hd heq removed => exact .duplicate d (List.mem_cons_of_mem _ hd) heq removed
  | new hnew =>
    have hfilter : (p :: points).filter (fun p => rootWorth p < rootWorth candidate) =
        (if rootWorth p < rootWorth candidate then [p] else []) ++
          points.filter fun p => rootWorth p < rootWorth candidate := by
      rw [List.filter_cons]
      split <;> simp_all
    rw [List.append_assoc, ← hfilter]
    exact .new (List.forall_mem_cons.mpr ⟨hp, hnew⟩)

theorem stopIf_eq_ok {passed : Prop} [Decidable passed] {reason : String} {u : Unit}
    (h : attempt (stopIf passed reason) s = (.ok u, t)) : s = t := by
  unfold stopIf at h
  split at h
  · cases h
  · exact congrArg Prod.snd h

theorem compareRootPoint_spec {points remove : List RootPoint} {c : Comparison}
    (h : attempt (compareRootPoint limits candidate points remove) s = (.ok c, t)) :
    t.rootFrontier = s.rootFrontier ∧ Compares candidate points remove c := by
  induction points generalizing remove s with
  | nil =>
    cases h
    exact ⟨rfl, by simpa using @Compares.new candidate [] remove (by simp)⟩
  | cons p points ih =>
    obtain ⟨_, _, hget, h⟩ := attempt_bind_eq_ok.mp h
    cases hget
    obtain ⟨_, u, hstop, h⟩ := attempt_bind_eq_ok.mp h
    obtain rfl := stopIf_eq_ok hstop
    obtain ⟨_, v, hcount, h⟩ := attempt_bind_eq_ok.mp h
    have hv : v.rootFrontier = s.rootFrontier := by
      cases hcount
      rfl
    rw [← hv]
    by_cases hequal : p.rewardFloor = candidate.rewardFloor ∧
        p.failureCeiling = candidate.failureCeiling
    · rw [if_pos hequal] at h
      cases h
      exact ⟨rfl, .duplicate p List.mem_cons_self (rootWorth_eq.mpr hequal) remove⟩
    · rw [if_neg hequal] at h
      by_cases hbetter : dominates p candidate
      · rw [if_pos hbetter] at h
        cases h
        exact ⟨rfl, .dominated p List.mem_cons_self (rootWorth_lt.mpr hbetter) remove⟩
      · rw [if_neg hbetter] at h
        have hskip : ¬ rootWorth candidate ≤ rootWorth p := fun hle =>
          (eq_or_lt_of_le hle).elim (fun heq => hequal (rootWorth_eq.mp heq.symm))
            fun hlt => hbetter (rootWorth_lt.mp hlt)
        have hrest : attempt (compareRootPoint limits candidate points
            (remove ++ if rootWorth p < rootWorth candidate then [p] else [])) v = (.ok c, t) := by
          by_cases hworse : dominates candidate p
          · rw [if_pos hworse] at h
            rwa [if_pos (rootWorth_lt.mpr hworse)]
          · rw [if_neg hworse] at h
            rwa [if_neg fun hlt => hworse (rootWorth_lt.mp hlt), List.append_nil]
        exact ⟨(ih hrest).1, (ih hrest).2.skip hskip⟩

/-! ## Insertions -/

/-- The root frontier is the front of the inserted points, in its order. -/
structure HoldsFront (inserted : Set RootPoint) (frontier : List RootPoint) : Prop where
  front : IsFront rootWorth RootPoint.policySignature inserted frontier
  sorted : (frontier.map frontierKey).Pairwise (· < ·)

theorem HoldsFront.nil : HoldsFront ∅ [] := ⟨.nil, List.Pairwise.nil⟩

theorem HoldsFront.of_perm {frontier kept : List RootPoint}
    (h : IsFront rootWorth RootPoint.policySignature inserted frontier)
    (hperm : frontier.Perm kept) : HoldsFront inserted (sortBy frontierKey kept) := by
  have hfront := h.perm (hperm.trans (perm_sortBy frontierKey kept).symm)
  refine ⟨hfront, pairwise_lt_map_sortBy ?_⟩
  have hnodup := hfront.nodup
  rw [List.Nodup, List.pairwise_map] at hnodup ⊢
  exact hnodup.imp fun hne heq => hne (frontierKey_eq.mp heq).1

theorem placeRootPoint_spec {kept : List RootPoint} {u : Unit}
    (h : attempt (placeRootPoint limits candidate kept) s = (.ok u, t)) :
    t.rootFrontier = sortBy frontierKey (kept ++ [candidate]) := by
  obtain ⟨_, _, hmodify, h⟩ := attempt_bind_eq_ok.mp h
  cases hmodify
  obtain ⟨_, _, hcount, h⟩ := attempt_bind_eq_ok.mp h
  cases hcount
  rw [← stopIf_eq_ok h]

theorem insertRootPoint_holds {u : Unit} (hs : HoldsFront inserted s.rootFrontier)
    (h : attempt (insertRootPoint limits candidate) s = (.ok u, t)) :
    HoldsFront (insert candidate inserted) t.rootFrontier := by
  obtain ⟨_, _, hget, h⟩ := attempt_bind_eq_ok.mp h
  cases hget
  obtain ⟨c, v, hcompare, h⟩ := attempt_bind_eq_ok.mp h
  obtain ⟨hv, hcompares⟩ := compareRootPoint_spec hcompare
  cases hcompares with
  | dominated p hp hlt removed =>
    cases h
    rw [hv]
    exact ⟨hs.front.insert_dominated hp hlt, hs.sorted⟩
  | duplicate d hd heq removed =>
    simp only [Bool.false_eq_true, if_false] at h
    split at h
    · rename_i hkey
      cases h
      rw [hv]
      exact ⟨hs.front.insert_repeated hd heq hkey, hs.sorted⟩
    · rename_i hkey
      rw [placeRootPoint_spec h]
      exact .of_perm (hs.front.insert_smaller hd heq (le_of_not_ge hkey))
        (List.perm_append_singleton _ _).symm
  | new hnew =>
    simp only [Bool.false_eq_true, if_false, List.nil_append] at h
    have hkept : (s.rootFrontier.filter fun p => rootWorth p < rootWorth candidate).foldl
        List.erase s.rootFrontier =
          s.rootFrontier.filter fun p => ¬ rootWorth p < rootWorth candidate := by
      rw [← List.diff_eq_foldl, (List.Nodup.of_map rootWorth hs.front.nodup).sdiff_eq_filter]
      refine List.filter_congr fun p hp => ?_
      simp [List.mem_filter, hp]
    rw [placeRootPoint_spec h, hkept]
    exact .of_perm (hs.front.insert_new hnew) (List.perm_append_singleton _ _).symm

theorem insertRootPoints_hold {points : List RootPoint} {u : Unit}
    (hs : HoldsFront inserted s.rootFrontier)
    (h : attempt (points.forM (insertRootPoint limits)) s = (.ok u, t)) :
    HoldsFront (inserted ∪ {p | p ∈ points}) t.rootFrontier := by
  induction points generalizing inserted s with
  | nil =>
    cases h
    simpa using hs
  | cons p points ih =>
    obtain ⟨_, v, hinsert, h⟩ := attempt_bind_eq_ok.mp h
    have hrest := ih (insertRootPoint_holds hs hinsert) h
    have hunion : insert p inserted ∪ {q | q ∈ points} = inserted ∪ {q | q ∈ p :: points} := by
      ext q
      simp
      tauto
    rwa [hunion] at hrest

/-! ## The canonical front -/

def RootPoint.shown (point : RootPoint) : ℚ × ℚ × List DecisionSignature :=
  (point.rewardFloor, point.failureCeiling, point.policySignature)

/-- The values that no inserted point dominates, each with the least signature of its points. -/
def canonicalFront (points : List RootPoint) : Set (ℚ × ℚ × List DecisionSignature) :=
  {v | ∃ p ∈ points, p.shown = v ∧ (∀ q ∈ points, ¬ dominates q p) ∧
    ∀ q ∈ points, q.rewardFloor = p.rewardFloor → q.failureCeiling = p.failureCeiling →
      p.policySignature ≤ q.policySignature}

theorem shown_eq {p q : RootPoint} : p.shown = q.shown ↔ frontierKey p = frontierKey q := by
  rw [frontierKey_eq, rootWorth_eq, RootPoint.shown, RootPoint.shown, Prod.mk.injEq, Prod.mk.injEq,
    and_assoc]

theorem HoldsFront.shown {points frontier : List RootPoint}
    (h : HoldsFront {p | p ∈ points} frontier) :
    {v | ∃ p ∈ frontier, p.shown = v} = canonicalFront points := by
  have hshows : ∀ p ∈ points, (∃ r ∈ frontier, r.shown = p.shown) ↔
      (∀ q ∈ points, ¬ dominates q p) ∧ ∀ q ∈ points, q.rewardFloor = p.rewardFloor →
        q.failureCeiling = p.failureCeiling → p.policySignature ≤ q.policySignature := by
    intro p hp
    have hiff := @IsFront.shows_iff _ _ _ _ _ _ _ _ _ h.front (rootWorth p) p.policySignature
    simp only [shown_eq, frontierKey_eq, hiff, rootWorth_lt]
    constructor
    · rintro ⟨-, hmaximal, hleast⟩
      exact ⟨hmaximal, fun q hq hreward hfailure =>
        hleast q hq (rootWorth_eq.mpr ⟨hreward, hfailure⟩)⟩
    · rintro ⟨hmaximal, hleast⟩
      exact ⟨⟨p, hp, rfl, rfl⟩, hmaximal, fun q hq heq =>
        hleast q hq (rootWorth_eq.mp heq).1 (rootWorth_eq.mp heq).2⟩
  ext v
  constructor
  · rintro ⟨r, hr, rfl⟩
    have hmem := h.front.mem r hr
    exact ⟨r, hmem, rfl, (hshows r hmem).mp ⟨r, hr, rfl⟩⟩
  · rintro ⟨p, hp, rfl, hcanonical⟩
    exact (hshows p hp).mpr hcanonical

/-- Whatever points are inserted within the limits, and in whatever order, the root frontier is
their canonical front in the order of the solver. -/
theorem insertRootPoints_canonical {points : List RootPoint} {u : Unit}
    (hs : s.rootFrontier = [])
    (h : attempt (points.forM (insertRootPoint limits)) s = (.ok u, t)) :
    ({v | ∃ p ∈ t.rootFrontier, p.shown = v} = canonicalFront points ∧
      (∀ p ∈ t.rootFrontier, p ∈ points) ∧
      (t.rootFrontier.map fun p => (p.rewardFloor, p.failureCeiling)).Nodup ∧
      (t.rootFrontier.map frontierKey).Pairwise (· < ·)) ∧
    ∀ (limits' : SearchLimits) (points' : List RootPoint) (s' t' : SearchState) (u' : Unit),
      points'.Perm points → s'.rootFrontier = [] →
      attempt (points'.forM (insertRootPoint limits')) s' = (.ok u', t') →
        t'.rootFrontier.map RootPoint.shown = t.rootFrontier.map RootPoint.shown ∧
        ((∀ p ∈ points, ∀ q ∈ points, p.shown = q.shown → p = q) →
          t'.rootFrontier = t.rootFrontier) := by
  have hholds : ∀ {limits : SearchLimits} {points : List RootPoint} {s t : SearchState} {u : Unit},
      s.rootFrontier = [] → attempt (points.forM (insertRootPoint limits)) s = (.ok u, t) →
        HoldsFront {p | p ∈ points} t.rootFrontier := by
    intro limits points s t u hs h
    have := @insertRootPoints_hold limits s t ∅ points u (hs ▸ .nil) h
    rwa [Set.empty_union] at this
  have hfront := hholds hs h
  have hshown : ∀ l l' : List RootPoint, l.map frontierKey = l'.map frontierKey →
      l.map RootPoint.shown = l'.map RootPoint.shown := fun l l' hl => by
    rw [← List.forall₂_eq_eq_eq, List.forall₂_map_left_iff, List.forall₂_map_right_iff] at hl ⊢
    exact hl.imp fun _ _ heq => shown_eq.mpr heq
  refine ⟨⟨hfront.shown, fun p hp => hfront.front.mem p hp, ?_, hfront.sorted⟩, ?_⟩
  · have hnodup := hfront.front.nodup
    rw [List.Nodup, List.pairwise_map] at hnodup ⊢
    exact hnodup.imp fun hne heq => hne (rootWorth_eq.mpr (Prod.mk.inj heq))
  · intro limits' points' s' t' u' hperm hs' h'
    have hfront' := hholds hs' h'
    have hsame : {p | p ∈ points'} = {p | p ∈ points} := Set.ext fun p => hperm.mem_iff
    rw [hsame] at hfront'
    have hkeys := map_eq_of_isFront (fun p q => frontierKey_eq) hfront'.front hfront.front
      hfront'.sorted hfront.sorted
    refine ⟨hshown _ _ hkeys, fun hdistinct => ?_⟩
    refine map_inj_of_mem hkeys fun p hp q hq heq => ?_
    exact hdistinct p (hfront'.front.mem p hp) q (hfront.front.mem q hq) (shown_eq.mpr heq)

def pointOf (rewardFloor failureCeiling : ℚ) (actionId : String) : RootPoint :=
  ⟨rewardFloor, failureCeiling, [⟨"node", "cell", 1, "state", "node", actionId, 0, 0⟩]⟩

/-- A dominated point, and two of the same value. -/
def threePoints : List RootPoint :=
  [pointOf 0 (1 / 2) "a", pointOf 1 (1 / 2) "c", pointOf 1 (1 / 2) "b"]

def threeLimits : SearchLimits := ⟨8, 8, 8, 8, 8, 8, by simp⟩

def threeInserted : SearchState :=
  (attempt (threePoints.forM (insertRootPoint threeLimits)) .start).2

theorem insertRootPoints_canonical_threePoints :
    {v | ∃ p ∈ threeInserted.rootFrontier, p.shown = v} = canonicalFront threePoints ∧
    ∀ (t' : SearchState) (u' : Unit),
      attempt (threePoints.reverse.forM (insertRootPoint threeLimits)) .start =
        (.ok u', t') → t'.rootFrontier = threeInserted.rootFrontier := by
  obtain ⟨u, hu⟩ := exists_of_isOk (show (attempt (threePoints.forM
    (insertRootPoint threeLimits)) .start).1.isOk = true by decide +kernel)
  obtain ⟨⟨hshown, -⟩, horder⟩ := @insertRootPoints_canonical threeLimits .start threeInserted
    threePoints u rfl (Prod.ext hu rfl)
  refine ⟨hshown, fun t' u' h' => ?_⟩
  have hdistinct : ∀ p ∈ threePoints, ∀ q ∈ threePoints, frontierKey p = frontierKey q → p = q := by
    decide +kernel
  exact (horder _ _ .start t' u' (List.reverse_perm _) rfl h').2 fun p hp q hq heq =>
    hdistinct p hp q hq (shown_eq.mp heq)

end Acfqp.LocalSolver
