import Acfqp.Library.Checked

/-!
# Depth-first exploration of a layered graph

A worklist that is popped from its end, skips visited pairs and pushes the successors of a
pair one layer below visits the pairs in depth-first order, the last pushed successor first.
`explore` is that traversal as a recursion on the layer. Every new pair may emit one record.
-/

namespace Acfqp.Library

variable {ε S δ : Type}

/-- The visited pairs and the records emitted so far, in order. -/
structure Trail (S δ : Type) where
  visited : List (ℕ × S)
  records : List ((ℕ × S) × δ)

/-- Visit `(n, s)` and everything below it that has not been visited. -/
def explore [DecidableEq S] (expand : ℕ → S → Except ε (Option δ × List S)) :
    ℕ → S → Trail S δ → Except ε (Trail S δ)
  | n, s, trail =>
    if (n, s) ∈ trail.visited then .ok trail
    else do
      let (record, successors) ← expand n s
      let trail' : Trail S δ := ⟨(n, s) :: trail.visited,
        trail.records ++ (record.map fun d => ((n, s), d)).toList⟩
      match n with
      | 0 => .ok trail'
      | m + 1 => successors.reverse.foldlM (fun t c => explore expand m c t) trail'

/-- What every exploration keeps true of its trail: the emitted records are those of visited
pairs, once each, and every visited pair that was not there before has all of its successors
visited. -/
structure Trail.Explored (expand : ℕ → S → Except ε (Option δ × List S))
    (before after : Trail S δ) : Prop where
  visited : ∀ p ∈ before.visited, p ∈ after.visited
  records : ∀ r ∈ before.records, r ∈ after.records
  emitted : ∀ r ∈ after.records, r ∈ before.records ∨
    r.1 ∉ before.visited ∧ ∃ cs, expand r.1.1 r.1.2 = .ok (some r.2, cs)
  complete : ∀ p ∈ after.visited, p ∈ before.visited ∨ ∃ d cs, expand p.1 p.2 = .ok (d, cs) ∧
    (∀ e, d = some e → (p, e) ∈ after.records) ∧
    ∀ m, p.1 = m + 1 → ∀ c ∈ cs, (m, c) ∈ after.visited

namespace Trail.Explored

variable {expand : ℕ → S → Except ε (Option δ × List S)} {a b c : Trail S δ}

theorem refl (a : Trail S δ) : Trail.Explored expand a a :=
  ⟨fun _ => id, fun _ => id, fun _ => .inl, fun _ => .inl⟩

theorem trans (hab : Trail.Explored expand a b) (hbc : Trail.Explored expand b c) :
    Trail.Explored expand a c where
  visited p hp := hbc.visited p (hab.visited p hp)
  records r hr := hbc.records r (hab.records r hr)
  emitted r hr := by
    rcases hbc.emitted r hr with hr | ⟨hn, hr⟩
    · exact hab.emitted r hr
    · exact .inr ⟨fun h => hn (hab.visited _ h), hr⟩
  complete p hp := by
    rcases hbc.complete p hp with hp | hp
    · rcases hab.complete p hp with hp | ⟨d, cs, he, hd, hcs⟩
      · exact .inl hp
      · exact .inr ⟨d, cs, he, fun e h => hbc.records _ (hd e h),
          fun m hm x hx => hbc.visited _ (hcs m hm x hx)⟩
    · exact .inr hp

end Trail.Explored

/-- The records are keyed by visited pairs, each at most once. -/
structure Trail.Tidy (t : Trail S δ) : Prop where
  visited : ∀ r ∈ t.records, r.1 ∈ t.visited
  nodup : (t.records.map Prod.fst).Nodup

theorem Trail.tidy_empty : Trail.Tidy (⟨[], []⟩ : Trail S δ) := ⟨by simp, by simp⟩

theorem Trail.Tidy.push {t : Trail S δ} (h : t.Tidy) {p : ℕ × S} (hp : p ∉ t.visited)
    (record : Option δ) :
    Trail.Tidy ⟨p :: t.visited, t.records ++ (record.map fun d => (p, d)).toList⟩ := by
  refine ⟨fun r hr => ?_, ?_⟩
  · rcases List.mem_append.mp hr with hr | hr
    · exact List.mem_cons_of_mem _ (h.visited r hr)
    · cases record <;> simp_all
  · cases record with
    | none => simpa using h.nodup
    | some d =>
      have hk : ∀ r ∈ t.records, r.1 ≠ p := fun r hr he => hp (he ▸ h.visited r hr)
      simp only [Option.map_some, Option.toList_some, List.map_append, List.map_cons,
        List.map_nil]
      refine h.nodup.append (by simp) ?_
      simp only [List.disjoint_singleton, List.mem_map, not_exists, not_and]
      exact hk

section Rules

variable [DecidableEq S] {expand : ℕ → S → Except ε (Option δ × List S)}

theorem foldlM_explored {m : ℕ} (ih : ∀ s (t t' : Trail S δ), explore expand m s t = .ok t' →
      Trail.Explored expand t t' ∧ (m, s) ∈ t'.visited) (cs : List S) {t t' : Trail S δ}
    (h : cs.foldlM (fun t c => explore expand m c t) t = .ok t') :
    Trail.Explored expand t t' ∧ ∀ c ∈ cs, (m, c) ∈ t'.visited := by
  induction cs generalizing t with
  | nil =>
    cases pure_eq_ok.mp h
    exact ⟨.refl _, by simp⟩
  | cons c cs ihc =>
    rw [List.foldlM_cons] at h
    obtain ⟨u, hu, h⟩ := bind_eq_ok.mp h
    obtain ⟨htu, hc⟩ := ih c t u hu
    obtain ⟨hut, hcs⟩ := ihc h
    refine ⟨htu.trans hut, fun x hx => ?_⟩
    rcases List.mem_cons.mp hx with rfl | hx
    · exact hut.visited _ hc
    · exact hcs x hx

theorem explore_explored (n : ℕ) (s : S) (t t' : Trail S δ)
    (h : explore expand n s t = .ok t') :
    Trail.Explored expand t t' ∧ (n, s) ∈ t'.visited := by
  induction n generalizing s t t' with
  | zero =>
    unfold explore at h
    split at h
    · cases h; exact ⟨.refl _, ‹_›⟩
    · rename_i hv
      obtain ⟨⟨d, cs⟩, he, h⟩ := bind_eq_ok.mp h
      cases h
      refine ⟨⟨fun p hp => by simp [hp], fun r hr => by simp [hr], fun r hr => ?_, fun p hp => ?_⟩,
        by simp⟩
      · rcases List.mem_append.mp hr with hr | hr
        · exact .inl hr
        · cases d with
          | none => simp at hr
          | some d =>
            obtain rfl : r = ((0, s), d) := by simpa using hr
            exact .inr ⟨hv, cs, he⟩
      · rcases List.mem_cons.mp hp with rfl | hp
        · exact .inr ⟨d, cs, he, fun e hd => by simp [hd], fun m hm => by simp at hm⟩
        · exact .inl hp
  | succ n ih =>
    unfold explore at h
    split at h
    · cases h; exact ⟨.refl _, ‹_›⟩
    · rename_i hv
      obtain ⟨⟨d, cs⟩, he, h⟩ := bind_eq_ok.mp h
      obtain ⟨hx, hcs⟩ := foldlM_explored ih _ h
      refine ⟨⟨fun p hp => hx.visited p (by simp [hp]), fun r hr => hx.records r (by simp [hr]),
        fun r hr => ?_, fun p hp => ?_⟩, hx.visited _ (by simp)⟩
      · rcases hx.emitted r hr with hr | ⟨hn, hr⟩
        · rcases List.mem_append.mp hr with hr | hr
          · exact .inl hr
          · cases d with
            | none => simp at hr
            | some d =>
              obtain rfl : r = ((n + 1, s), d) := by simpa using hr
              exact .inr ⟨hv, cs, he⟩
        · exact .inr ⟨fun hb => hn (by simp [hb]), hr⟩
      · rcases hx.complete p hp with hp | hp
        · rcases List.mem_cons.mp hp with rfl | hp
          · refine .inr ⟨d, cs, he, fun e hd => hx.records _ (by simp [hd]), fun m hm c hc => ?_⟩
            obtain rfl : n = m := by simpa using hm
            exact hcs c (by simpa using hc)
          · exact .inl hp
        · exact .inr hp

theorem explore_tidy (n : ℕ) (s : S) (t t' : Trail S δ) (ht : t.Tidy)
    (h : explore expand n s t = .ok t') : t'.Tidy := by
  induction n generalizing s t t' with
  | zero =>
    unfold explore at h
    split at h
    · cases h; exact ht
    · obtain ⟨⟨d, cs⟩, -, h⟩ := bind_eq_ok.mp h
      cases h
      exact ht.push ‹_› d
  | succ n ih =>
    unfold explore at h
    split at h
    · cases h; exact ht
    · obtain ⟨⟨d, cs⟩, -, h⟩ := bind_eq_ok.mp h
      exact foldlM_invariant (fun u hu c _ u' hu' => ih c u u' hu hu') (ht.push ‹_› d) h

theorem explore_returns {P : ℕ → S → Prop}
    (hP : ∀ n s, P n s → ∃ d cs, expand n s = .ok (d, cs) ∧ ∀ m, n = m + 1 → ∀ c ∈ cs, P m c)
    (n : ℕ) (s : S) (t : Trail S δ) (hs : P n s) : ∃ t', explore expand n s t = .ok t' := by
  induction n generalizing s t with
  | zero =>
    obtain ⟨d, cs, he, -⟩ := hP 0 s hs
    unfold explore
    split
    · exact ⟨_, rfl⟩
    · exact ⟨_, by rw [he]; rfl⟩
  | succ n ih =>
    obtain ⟨d, cs, he, hcs⟩ := hP (n + 1) s hs
    unfold explore
    split
    · exact ⟨_, rfl⟩
    · obtain ⟨u', hu'⟩ := foldlM_returns (f := fun t c => explore expand n c t) (l := cs.reverse)
        ⟨(n + 1, s) :: t.visited, t.records ++ (d.map fun d => ((n + 1, s), d)).toList⟩
        fun u c hc => ih c u (hcs n rfl c (by simpa using hc))
      exact ⟨u', by rw [he]; exact hu'⟩

/-- Every visited pair was there before, is one of `roots` or is a successor of a visited pair. -/
def Trail.Sourced (expand : ℕ → S → Except ε (Option δ × List S)) (roots : List (ℕ × S))
    (before after : Trail S δ) : Prop :=
  ∀ p ∈ after.visited, p ∈ before.visited ∨ p ∈ roots ∨ ∃ q ∈ after.visited, ∃ d cs,
    expand q.1 q.2 = .ok (d, cs) ∧ q.1 = p.1 + 1 ∧ p.2 ∈ cs

theorem foldlM_sourced {m : ℕ} (ih : ∀ s (t t' : Trail S δ), explore expand m s t = .ok t' →
      Trail.Sourced expand [(m, s)] t t') (cs : List S) {t t' : Trail S δ}
    (h : cs.foldlM (fun t c => explore expand m c t) t = .ok t') :
    Trail.Sourced expand (cs.map fun c => (m, c)) t t' := by
  induction cs generalizing t with
  | nil =>
    cases pure_eq_ok.mp h
    exact fun p => .inl
  | cons c cs ihc =>
    rw [List.foldlM_cons] at h
    obtain ⟨u, hu, h⟩ := bind_eq_ok.mp h
    have hkeep := (foldlM_explored (explore_explored m) cs h).1.visited
    intro p hp
    rcases ihc h p hp with hp | hp | hp
    · rcases ih c t u hu p hp with hp | hp | ⟨q, hq, hnext⟩
      · exact .inl hp
      · exact .inr (.inl (by simp [List.mem_singleton.mp hp]))
      · exact .inr (.inr ⟨q, hkeep q hq, hnext⟩)
    · exact .inr (.inl (List.mem_cons_of_mem _ hp))
    · exact .inr (.inr hp)

theorem explore_sourced (n : ℕ) (s : S) (t t' : Trail S δ)
    (h : explore expand n s t = .ok t') : Trail.Sourced expand [(n, s)] t t' := by
  induction n generalizing s t t' with
  | zero =>
    unfold explore at h
    split at h
    · cases h; exact fun p => .inl
    · obtain ⟨⟨d, cs⟩, -, h⟩ := bind_eq_ok.mp h
      cases h
      intro p hp
      rcases List.mem_cons.mp hp with rfl | hp
      · exact .inr (.inl (by simp))
      · exact .inl hp
  | succ n ih =>
    unfold explore at h
    split at h
    · cases h; exact fun p => .inl
    · obtain ⟨⟨d, cs⟩, he, h⟩ := bind_eq_ok.mp h
      have hkeep := (foldlM_explored (explore_explored n) _ h).1.visited
      intro p hp
      rcases foldlM_sourced ih _ h p hp with hp | hp | hp
      · rcases List.mem_cons.mp hp with rfl | hp
        · exact .inr (.inl (by simp))
        · exact .inl hp
      · obtain ⟨c, hc, rfl⟩ := List.mem_map.mp hp
        exact .inr (.inr ⟨(n + 1, s), hkeep _ (by simp), d, cs, he, rfl, by simpa using hc⟩)
      · exact .inr (.inr hp)

end Rules

/-- Explore from several roots, the last one first, as a worklist popped from its end does. -/
def exploreAll [DecidableEq S] (expand : ℕ → S → Except ε (Option δ × List S)) (n : ℕ)
    (roots : List S) : Except ε (Trail S δ) :=
  roots.reverse.foldlM (fun t s => explore expand n s t) ⟨[], []⟩

section All

variable [DecidableEq S] {expand : ℕ → S → Except ε (Option δ × List S)} {n : ℕ}
  {roots : List S} {t : Trail S δ}

theorem exploreAll_explored (h : exploreAll expand n roots = .ok t) :
    Trail.Explored expand ⟨[], []⟩ t ∧ ∀ s ∈ roots, (n, s) ∈ t.visited := by
  obtain ⟨hx, hr⟩ := foldlM_explored (explore_explored n) _ h
  exact ⟨hx, fun s hs => hr s (by simpa using hs)⟩

theorem exploreAll_returns {P : ℕ → S → Prop}
    (hP : ∀ n s, P n s → ∃ d cs, expand n s = .ok (d, cs) ∧ ∀ m, n = m + 1 → ∀ c ∈ cs, P m c)
    (hroots : ∀ s ∈ roots, P n s) : ∃ t, exploreAll expand n roots = .ok t :=
  foldlM_returns _ fun t s hs => explore_returns hP n s t (hroots s (by simpa using hs))

theorem exploreAll_tidy (h : exploreAll expand n roots = .ok t) : t.Tidy :=
  foldlM_invariant (fun u hu c _ u' hu' => explore_tidy n c u u' hu hu') Trail.tidy_empty h

/-- What holds of the roots, and passes from visited pairs to their successors, holds of every
visited pair. -/
theorem exploreAll_reached {P : ℕ → S → Prop} (h : exploreAll expand n roots = .ok t)
    (hroots : ∀ s ∈ roots, P n s)
    (hstep : ∀ m s d cs, (m + 1, s) ∈ t.visited → P (m + 1) s → expand (m + 1) s = .ok (d, cs) →
      ∀ c ∈ cs, P m c) : ∀ p ∈ t.visited, P p.1 p.2 := by
  have hsourced := foldlM_sourced (explore_sourced n) _ h
  obtain ⟨top, htop⟩ : ∃ top, ∀ p ∈ t.visited, p.1 ≤ top :=
    ⟨(t.visited.map Prod.fst).sum, fun p hp =>
      List.single_le_sum (by simp) _ (List.mem_map_of_mem hp)⟩
  suffices ∀ k, ∀ p ∈ t.visited, top - p.1 ≤ k → P p.1 p.2 from fun p hp => this _ p hp le_rfl
  intro k
  induction k with
  | zero =>
    rintro ⟨m, s⟩ hp hk
    rcases hsourced _ hp with hp | hp | ⟨q, hq, d, cs, -, hlayer, -⟩
    · simp at hp
    · obtain ⟨c, hc, hcs⟩ := List.mem_map.mp hp
      cases hcs
      exact hroots _ (by simpa using hc)
    · have := htop q hq
      simp only at hk hlayer
      omega
  | succ k ih =>
    rintro ⟨m, s⟩ hp hk
    rcases hsourced _ hp with hp | hp | ⟨⟨l, r⟩, hq, d, cs, he, hlayer, hmem⟩
    · simp at hp
    · obtain ⟨c, hc, hcs⟩ := List.mem_map.mp hp
      cases hcs
      exact hroots _ (by simpa using hc)
    · have := htop _ hq
      simp only at hk hlayer this he hmem
      subst hlayer
      exact hstep m r d cs hq (ih _ hq (by simp only; omega)) he s hmem

/-- An emitted record comes from the expansion of its pair. -/
theorem exploreAll_emitted (h : exploreAll expand n roots = .ok t) {p : ℕ × S} {d : δ}
    (hr : (p, d) ∈ t.records) : ∃ cs, expand p.1 p.2 = .ok (some d, cs) := by
  rcases (exploreAll_explored h).1.emitted _ hr with hr | ⟨-, hr⟩
  · simp at hr
  · exact hr

/-- A visited pair was expanded, its record emitted and its successors visited. -/
theorem exploreAll_complete (h : exploreAll expand n roots = .ok t) {p : ℕ × S}
    (hp : p ∈ t.visited) : ∃ d cs, expand p.1 p.2 = .ok (d, cs) ∧
      (∀ e, d = some e → (p, e) ∈ t.records) ∧
      ∀ m, p.1 = m + 1 → ∀ c ∈ cs, (m, c) ∈ t.visited := by
  rcases (exploreAll_explored h).1.complete p hp with hp | hp
  · simp at hp
  · exact hp

end All

end Acfqp.Library
