import Acfqp.Library.Loops

/-!
# Saturation under a cap

A stack of discovered states is popped, expanded and grown until it is empty: every state that
an expansion names for the first time is recorded and pushed, unless the record is full. The
record is then the least set that contains the start and is closed under the expansions, and
the search stops short exactly when that set does not fit.
-/

namespace Acfqp.Library

variable {ε S : Type}

/-- The discovered states, in order of discovery, and the stack of those not expanded yet. -/
structure Worklist (S : Type) where
  seen : List S
  pending : List S

/-- Record `s` and push it, unless it is known. -/
def discover [DecidableEq S] (cap : ℕ) (full : ε) (w : Worklist S) (s : S) :
    Except ε (Worklist S) :=
  if s ∈ w.seen then .ok w
  else if cap ≤ w.seen.length then .error full
  else .ok ⟨w.seen ++ [s], s :: w.pending⟩

/-- Pop and expand until the stack is empty. -/
def saturate (expand : S → Worklist S → Except ε (Worklist S)) :
    ℕ → Worklist S → Except ε (Option (List S))
  | 0, _ => .ok none
  | fuel + 1, w =>
    match w.pending with
    | [] => .ok (some w.seen)
    | s :: rest => expand s ⟨w.seen, rest⟩ >>= saturate expand fuel

/-- Holds the start and every successor of what it holds. -/
def ClosedFrom (R : S → S → Prop) (start C : Set S) : Prop :=
  start ⊆ C ∧ ∀ s ∈ C, ∀ t, R s t → t ∈ C

def reachable (R : S → S → Prop) (start : Set S) : Set S :=
  {t | ∃ s ∈ start, Relation.ReflTransGen R s t}

theorem isLeast_reachable (R : S → S → Prop) (start : Set S) :
    IsLeast {C | ClosedFrom R start C} (reachable R start) := by
  refine ⟨⟨fun s hs => ⟨s, hs, .refl⟩, ?_⟩, ?_⟩
  · rintro s ⟨r, hr, hs⟩ t ht
    exact ⟨r, hr, hs.tail ht⟩
  · rintro C ⟨hstart, hstep⟩ t ⟨s, hs, ht⟩
    induction ht with
    | refl => exact hstart hs
    | tail _ hR ih => exact hstep _ ih _ hR

theorem subset_reachable (R : S → S → Prop) (start : Set S) : start ⊆ reachable R start :=
  (isLeast_reachable R start).1.1

/-- Distinct members of a set, in a list, are at most as many as the set has. -/
theorem length_le_encard {l : List S} {C : Set S} (hl : l.Nodup) (hC : ∀ s ∈ l, s ∈ C) :
    (l.length : ℕ∞) ≤ C.encard := by
  classical
  have hcard : ((l.toFinset : Set S)).encard = l.length := by
    rw [Set.encard_coe_eq_coe_finsetCard, List.toFinset_card_of_nodup hl]
  rw [← hcard]
  exact Set.encard_le_encard fun s hs => hC s (by simpa using hs)

theorem encard_eq_length {l : List S} {C : Set S} (hl : l.Nodup) (hC : ∀ s, s ∈ l ↔ s ∈ C) :
    C.encard = l.length := by
  classical
  have hset : C = (l.toFinset : Set S) := by
    ext s
    simp [hC s]
  rw [hset, Set.encard_coe_eq_coe_finsetCard, List.toFinset_card_of_nodup hl]

variable {cap : ℕ} {full : ε} {next : S → List S} {start : List S}

/-- What discovering some states makes of a worklist. -/
structure Worklist.Grown (cap : ℕ) (named : List S) (before after : Worklist S) : Prop where
  seen : ∀ s, s ∈ after.seen ↔ s ∈ before.seen ∨ s ∈ named
  pending : ∀ s, s ∈ after.pending ↔ s ∈ before.pending ∨ s ∈ named ∧ s ∉ before.seen
  nodup : before.seen.Nodup → after.seen.Nodup
  bounded : after.seen.length ≤ max before.seen.length cap
  balance : after.seen.length + before.pending.length =
    before.seen.length + after.pending.length

theorem Worklist.Grown.refl (w : Worklist S) : Worklist.Grown cap [] w w where
  seen := by simp
  pending := by simp
  nodup := id
  bounded := Nat.le_max_left _ _
  balance := rfl

/-- What holds of the worklist whenever a state is about to be popped. -/
structure Worklist.Sound (next : S → List S) (start : List S) (w : Worklist S) : Prop where
  nodup : w.seen.Nodup
  initial : ∀ s ∈ start, s ∈ w.seen
  reached : ∀ s ∈ w.seen, s ∈ reachable (fun s t => t ∈ next s) {s | s ∈ start}
  pending : ∀ s ∈ w.pending, s ∈ w.seen
  expanded : ∀ s ∈ w.seen, s ∈ w.pending ∨ ∀ t ∈ next s, t ∈ w.seen

theorem Worklist.sound_initial (hs : start.Nodup) :
    Worklist.Sound next start ⟨start, start⟩ where
  nodup := hs
  initial _ := id
  reached := subset_reachable _ _
  pending _ := id
  expanded _ := .inl

theorem Worklist.Sound.pop {seen rest : List S} {s : S} {w : Worklist S}
    (h : Worklist.Sound next start ⟨seen, s :: rest⟩)
    (hw : Worklist.Grown cap (next s) ⟨seen, rest⟩ w) : Worklist.Sound next start w where
  nodup := hw.nodup h.nodup
  initial t ht := (hw.seen t).mpr (.inl (h.initial t ht))
  reached t ht := by
    rcases (hw.seen t).mp ht with ht | ht
    · exact h.reached t ht
    · obtain ⟨r, hr, hs⟩ := h.reached s (h.pending s (by simp))
      exact ⟨r, hr, hs.tail ht⟩
  pending t ht := by
    rcases (hw.pending t).mp ht with ht | ht
    · exact (hw.seen t).mpr (.inl (h.pending t (by simp [ht])))
    · exact (hw.seen t).mpr (.inr ht.1)
  expanded t ht := by
    have hkeep : ∀ r ∈ seen, r ∈ w.seen := fun r hr => (hw.seen r).mpr (.inl hr)
    rcases (hw.seen t).mp ht with hold | hnamed
    · rcases h.expanded t hold with hp | hp
      · rcases List.mem_cons.mp hp with rfl | hp
        · exact .inr fun r hr => (hw.seen r).mpr (.inr hr)
        · exact .inl ((hw.pending t).mpr (.inl hp))
      · exact .inr fun r hr => hkeep r (hp r hr)
    · by_cases hold : t ∈ seen
      · rcases h.expanded t hold with hp | hp
        · rcases List.mem_cons.mp hp with rfl | hp
          · exact .inr fun r hr => (hw.seen r).mpr (.inr hr)
          · exact .inl ((hw.pending t).mpr (.inl hp))
        · exact .inr fun r hr => hkeep r (hp r hr)
      · exact .inl ((hw.pending t).mpr (.inr ⟨hnamed, hold⟩))

/-- With nothing pending, the record is what can be reached. -/
theorem Worklist.Sound.complete {seen : List S} (h : Worklist.Sound next start ⟨seen, []⟩)
    (s : S) : s ∈ seen ↔ s ∈ reachable (fun s t => t ∈ next s) {s | s ∈ start} := by
  refine ⟨h.reached s, fun hs => ?_⟩
  refine (isLeast_reachable _ _).2 ⟨h.initial, fun r hr t ht => ?_⟩ hs
  exact (h.expanded r hr).elim (fun hp => by simp at hp) (fun hall => hall t ht)

section Rules

variable [DecidableEq S]

theorem Worklist.Grown.discover {named : List S} {w w' w'' : Worklist S} {s : S}
    (h : Worklist.Grown cap named w w') (hs : discover cap full w' s = .ok w'') :
    Worklist.Grown cap (named ++ [s]) w w'' := by
  have hb := h.bounded
  have hbal := h.balance
  unfold Library.discover at hs
  split at hs
  · rename_i hknown
    cases hs
    refine ⟨fun t => ?_, fun t => ?_, h.nodup, hb, hbal⟩
    · rw [h.seen t] at *
      grind [h.seen s]
    · grind [h.pending t, h.seen s]
  · rename_i hnew
    split at hs
    · cases hs
    · rename_i hroom
      cases hs
      refine ⟨fun t => ?_, fun t => ?_, fun hn => ?_, ?_, ?_⟩
      · grind [h.seen t]
      · grind [h.pending t, h.seen s]
      · exact (h.nodup hn).append (List.nodup_singleton s)
          (List.disjoint_singleton.mpr hnew)
      · simp only [List.length_append, List.length_singleton]
        omega
      · simp only [List.length_append, List.length_cons, List.length_nil]
        omega

theorem discover_eq_error {e : ε} {w : Worklist S} {s : S}
    (h : discover cap full w s = .error e) : e = full ∧ s ∉ w.seen ∧ cap ≤ w.seen.length := by
  unfold discover at h
  split at h
  · cases h
  · split at h
    · cases h
      exact ⟨rfl, ‹_›, ‹_›⟩
    · cases h

theorem grown_of_foldlM {named : List S} {w w' : Worklist S}
    (h : named.foldlM (discover cap full) w = .ok w') : Worklist.Grown cap named w w' :=
  foldlM_prefix (fun pre w' => Worklist.Grown cap pre w w') (.refl w)
    (fun _ _ _ _ _ hpre hs => hpre.discover hs) h

theorem overfull_of_foldlM {e : ε} {named : List S} {w : Worklist S} (hw : w.seen.Nodup)
    (h : named.foldlM (discover cap full) w = .error e) :
    e = full ∧ (∃ s ∈ named, s ∉ w.seen) ∧
      ∃ l : List S, l.Nodup ∧ cap < l.length ∧ ∀ s ∈ l, s ∈ w.seen ∨ s ∈ named := by
  obtain ⟨pre, s, w', hs, hpre, hgrown, herr⟩ :=
    foldlM_raised (fun pre w' => Worklist.Grown cap pre w w') (.refl w)
      (fun _ _ _ _ _ hg hd => hg.discover hd) h
  obtain ⟨he, hnew, hfull⟩ := discover_eq_error herr
  refine ⟨he, ⟨s, hs, fun h => hnew ((hgrown.seen s).mpr (.inl h))⟩, s :: w'.seen,
    List.nodup_cons.mpr ⟨hnew, hgrown.nodup hw⟩, by simp; omega, ?_⟩
  intro t ht
  rcases List.mem_cons.mp ht with rfl | ht
  · exact .inr hs
  · exact ((hgrown.seen t).mp ht).imp_right (hpre t)

/-- What a saturation of `start` comes to: all that can be reached, or a refusal at a state past
the start because more than `cap` states can be reached. -/
def Saturated (next : S → List S) (start : List S) (cap : ℕ) (full : ε)
    (result : Except ε (Option (List S))) : Prop :=
  (∃ states, result = .ok (some states) ∧ states.Nodup ∧ states.length ≤ max start.length cap ∧
    ∀ s, s ∈ states ↔ s ∈ reachable (fun s t => t ∈ next s) {s | s ∈ start}) ∨
  result = .error full ∧
    (∃ t ∈ reachable (fun s t => t ∈ next s) {s | s ∈ start}, t ∉ start) ∧
    (cap : ℕ∞) < (reachable (fun s t => t ∈ next s) {s | s ∈ start}).encard

/-- Enough fuel for every pop that is left. -/
theorem saturate_of_sound {expand : S → Worklist S → Except ε (Worklist S)}
    (hexpand : ∀ s ∈ reachable (fun s t => t ∈ next s) {s | s ∈ start}, ∀ w,
      expand s w = (next s).foldlM (discover cap full) w)
    (fuel : ℕ) {w : Worklist S} (h : Worklist.Sound next start w)
    (hsize : w.seen.length ≤ max start.length cap)
    (hfuel : max start.length cap + w.pending.length < fuel + w.seen.length) :
    Saturated next start cap full (saturate expand fuel w) := by
  induction fuel generalizing w with
  | zero => omega
  | succ fuel ih =>
    obtain ⟨seen, pending⟩ := w
    cases pending with
    | nil => exact .inl ⟨seen, rfl, h.nodup, hsize, h.complete⟩
    | cons s rest =>
      have hreach := h.reached s (h.pending s (by simp))
      have hstep : saturate expand (fuel + 1) ⟨seen, s :: rest⟩ =
          (next s).foldlM (discover cap full) ⟨seen, rest⟩ >>= saturate expand fuel := by
        rw [← hexpand s hreach]
        rfl
      rw [hstep]
      cases hw : (next s).foldlM (discover cap full) ⟨seen, rest⟩ with
      | ok w =>
        have hgrown := grown_of_foldlM hw
        have hb := hgrown.bounded
        have hbal := hgrown.balance
        simp only [List.length_cons] at hsize hfuel hb hbal
        exact ih (h.pop hgrown) (by omega) (by omega)
      | error e =>
        have hnodup : seen.Nodup := h.nodup
        obtain ⟨rfl, ⟨t, ht, hnew⟩, l, hl, hcap, hmem⟩ := overfull_of_foldlM hnodup hw
        have hnext : ∀ t ∈ next s, t ∈ reachable (fun s t => t ∈ next s) {s | s ∈ start} := by
          intro t ht
          obtain ⟨r, hr, hs⟩ := hreach
          exact ⟨r, hr, hs.tail ht⟩
        refine .inr ⟨rfl, ⟨t, hnext t ht, fun h' => hnew (h.initial t h')⟩,
          lt_of_lt_of_le (Nat.cast_lt.mpr hcap) (length_le_encard hl fun t ht => ?_)⟩
        exact (hmem t ht).elim (h.reached t) (hnext t)

end Rules

end Acfqp.Library
