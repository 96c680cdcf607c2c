import Acfqp.Library.Dict
import Acfqp.Library.Ordered

/-!
# What a tally remembers of its events

A tally is fixed, up to its order, by which keys occur and by the total of each. Events that agree
in this still agree when their keys are merged, and a mixture of events that agree agrees with each
of them.
-/

namespace Acfqp.Library

variable {K K' M : Type} [DecidableEq K] [DecidableEq K'] [AddCommMonoid M]

def total (k : K) (events : List (K × M)) : M :=
  (events.map fun e => if e.1 = k then e.2 else 0).sum

@[simp] theorem total_nil (k : K) : total k ([] : List (K × M)) = 0 := rfl

@[simp] theorem total_cons (k : K) (e : K × M) (events : List (K × M)) :
    total k (e :: events) = (if e.1 = k then e.2 else 0) + total k events := rfl

@[simp] theorem total_append (k : K) (events events' : List (K × M)) :
    total k (events ++ events') = total k events + total k events' := by
  simp [total]

/-- A key that occurs once totals its value. -/
theorem total_eq {d : List (K × M)} (hd : (d.map Prod.fst).Nodup) {e : K × M} (he : e ∈ d) :
    total e.1 d = e.2 := by
  induction d with
  | nil => cases he
  | cons x d ih =>
    obtain ⟨hx, hd⟩ := List.nodup_cons.mp hd
    rcases List.mem_cons.mp he with rfl | he
    · have hzero : total e.1 d = 0 := by
        apply List.sum_eq_zero
        intro v hv
        obtain ⟨y, hy, rfl⟩ := List.mem_map.mp hv
        exact if_neg fun heq : y.1 = e.1 => hx (heq ▸ List.mem_map_of_mem hy)
      simp [hzero]
    · have hne : x.1 ≠ e.1 := fun heq => hx (heq ▸ List.mem_map_of_mem he)
      simp [hne, ih hd he]

theorem total_tally (k : K) (events : List (K × M)) : total k (tally events) = total k events := by
  have hsum := sum_tally (fun c => if c = k then AddMonoidHom.id M else 0) events
  have happly : ∀ e : K × M,
      (if e.1 = k then AddMonoidHom.id M else 0) e.2 = if e.1 = k then e.2 else 0 := by
    intro e
    split <;> rfl
  simpa only [total, happly] using hsum

theorem sum_tally_snd (events : List (K × M)) :
    ((tally events).map Prod.snd).sum = (events.map Prod.snd).sum :=
  sum_tally (fun _ => AddMonoidHom.id M) events

structure SameTotals (events events' : List (K × M)) : Prop where
  keys : ∀ k, k ∈ events.map Prod.fst ↔ k ∈ events'.map Prod.fst
  totals : ∀ k, total k events = total k events'

namespace SameTotals

variable {events events' events'' : List (K × M)}

theorem symm (h : SameTotals events events') : SameTotals events' events :=
  ⟨fun k => (h.keys k).symm, fun k => (h.totals k).symm⟩

theorem trans (h : SameTotals events events') (h' : SameTotals events' events'') :
    SameTotals events events'' :=
  ⟨fun k => (h.keys k).trans (h'.keys k), fun k => (h.totals k).trans (h'.totals k)⟩

theorem of_perm (h : events.Perm events') : SameTotals events events' :=
  ⟨fun _ => (h.map Prod.fst).mem_iff, fun _ => (h.map _).sum_eq⟩

theorem tally (events : List (K × M)) : SameTotals (Library.tally events) events :=
  ⟨fun _ => mem_keys_tally, fun k => total_tally k events⟩

/-- Dictionaries with the same totals hold the same items. -/
theorem perm (h : SameTotals events events') (hd : (events.map Prod.fst).Nodup)
    (hd' : (events'.map Prod.fst).Nodup) : events.Perm events' := by
  have hsub : ∀ {d d' : List (K × M)}, SameTotals d d' → (d.map Prod.fst).Nodup →
      (d'.map Prod.fst).Nodup → ∀ e ∈ d, e ∈ d' := by
    intro d d' hsame hnodup hnodup' e he
    obtain ⟨x, hx, hxe⟩ := List.mem_map.mp ((hsame.keys e.1).mp (List.mem_map_of_mem he))
    have hvalue : x.2 = e.2 := by
      rw [← total_eq hnodup' hx, hxe, ← hsame.totals, total_eq hnodup he]
    rwa [← Prod.ext hxe hvalue]
  apply (List.perm_ext_iff_of_nodup hd.of_map hd'.of_map).mpr
  intro e
  exact ⟨hsub h hd hd' e, hsub h.symm hd' hd e⟩

theorem perm_tally (h : SameTotals events events') :
    (Library.tally events).Perm (Library.tally events') :=
  (((tally events).trans h).trans (tally events').symm).perm (nodup_keys_tally _)
    (nodup_keys_tally _)

/-- Events whose tallies are sorted alike have the same totals. -/
theorem of_sortBy {κ : Type} [LinearOrder κ] {key : K × M → κ}
    (h : sortBy key (Library.tally events) = sortBy key (Library.tally events')) :
    SameTotals events events' := by
  have hperm : (Library.tally events).Perm (Library.tally events') :=
    (perm_sortBy key _).symm.trans (h ▸ perm_sortBy key _)
  exact ((tally events).symm.trans (of_perm hperm)).trans (tally events')

theorem sortBy_tally {κ : Type} [LinearOrder κ] {key : K → κ} (hkey : Function.Injective key)
    (h : SameTotals events events') (hd : (events'.map Prod.fst).Nodup) :
    sortBy (fun e => key e.1) (Library.tally events) = sortBy (fun e => key e.1) events' := by
  apply sortBy_eq_of_perm (((tally events).trans h).perm (nodup_keys_tally _) hd)
  have hnodup := (nodup_keys_tally events).map hkey
  rwa [List.map_map] at hnodup

theorem sortBy_eq {κ : Type} [LinearOrder κ] {key : K → κ} (hkey : Function.Injective key)
    (h : SameTotals events events') :
    sortBy (fun e => key e.1) (Library.tally events) =
      sortBy (fun e => key e.1) (Library.tally events') :=
  (h.trans (tally events').symm).sortBy_tally hkey (nodup_keys_tally _)

/-- The total under merged keys is a sum over the tally. -/
theorem total_map (f : K → K') (k : K') (events : List (K × M)) :
    total k (events.map fun e => (f e.1, e.2)) =
      total k ((Library.tally events).map fun e => (f e.1, e.2)) := by
  have hsum := sum_tally (fun c => if f c = k then AddMonoidHom.id M else 0) events
  have happly : ∀ e : K × M,
      (if f e.1 = k then AddMonoidHom.id M else 0) e.2 = if f e.1 = k then e.2 else 0 := by
    intro e
    split <;> rfl
  simp only [happly] at hsum
  simpa only [total, List.map_map, Function.comp_def] using hsum.symm

/-- Merging keys keeps the same totals. -/
theorem map (h : SameTotals events events') (f : K → K') :
    SameTotals (events.map fun e => (f e.1, e.2)) (events'.map fun e => (f e.1, e.2)) := by
  constructor
  · intro k
    have hmem : ∀ d : List (K × M), k ∈ (d.map fun e => (f e.1, e.2)).map Prod.fst ↔
        ∃ c ∈ d.map Prod.fst, f c = k := by
      intro d
      simp [List.mem_map]
    simp only [hmem, h.keys]
  · intro k
    rw [total_map, total_map f k events']
    exact ((h.perm_tally.map _).map _).sum_eq

end SameTotals

section Mixture

variable {R B : Type} [Semiring R]

theorem total_scaled (q : R) (k : K) (events : List (K × R)) :
    total k (events.map fun e => (e.1, q * e.2)) = q * total k events := by
  induction events with
  | nil => simp
  | cons e events ih =>
    simp only [List.map_cons, total_cons, ih, mul_add]
    split <;> simp

theorem SameTotals.mixture {mixture : List (R × B)} {events : B → List (K × R)}
    {common : List (K × R)} (hne : mixture ≠ []) (hsum : (mixture.map Prod.fst).sum = 1)
    (h : ∀ e ∈ mixture, SameTotals (events e.2) common) :
    SameTotals (mixture.flatMap fun e => (events e.2).map fun x => (x.1, e.1 * x.2)) common := by
  constructor
  · intro k
    have hkeys : ∀ e ∈ mixture, (∃ v, (k, v) ∈ events e.2) ↔ k ∈ common.map Prod.fst := by
      intro e he
      rw [← (h e he).keys k]
      simp
    simp only [List.map_flatMap, List.mem_flatMap, List.map_map, List.mem_map, Function.comp_apply,
      Prod.exists]
    constructor
    · rintro ⟨q, b, he, c, v, hc, rfl⟩
      simpa using (hkeys (q, b) he).mp ⟨v, hc⟩
    · rintro ⟨c, v, hc, rfl⟩
      obtain ⟨⟨q, b⟩, he⟩ := List.exists_mem_of_ne_nil _ hne
      obtain ⟨w, hw⟩ := (hkeys (q, b) he).mpr (List.mem_map_of_mem hc)
      exact ⟨q, b, he, _, w, hw, rfl⟩
  · intro k
    have hparts : total k (mixture.flatMap fun e => (events e.2).map fun x => (x.1, e.1 * x.2)) =
        (mixture.map Prod.fst).sum * total k common := by
      clear hne hsum
      induction mixture with
      | nil => simp
      | cons e mixture ih =>
        have ih := ih fun x hx => h x (by simp [hx])
        rw [List.flatMap_cons, total_append, total_scaled, ih, (h e (by simp)).totals,
          List.map_cons, List.sum_cons, add_mul]
    rw [hparts, hsum, one_mul]

end Mixture

section Weighted

variable {R K : Type} [Semiring R] [DecidableEq K]

theorem sum_map_ite_mul {keys : List K} (hkeys : keys.Nodup) {k : K} (hk : k ∈ keys) (r : R)
    (g : K → R) : (keys.map fun x => (if k = x then r else 0) * g x).sum = r * g k := by
  induction keys with
  | nil => cases hk
  | cons x keys ih =>
    obtain ⟨hx, hkeys⟩ := List.nodup_cons.mp hkeys
    by_cases hxk : k = x
    · subst hxk
      have hrest : (keys.map fun x => (if k = x then r else 0) * g x).sum = 0 := by
        refine List.sum_eq_zero fun v hv => ?_
        obtain ⟨y, hy, rfl⟩ := List.mem_map.mp hv
        have hne : k ≠ y := fun h => hx (h ▸ hy)
        simp [hne]
      rw [List.map_cons, List.sum_cons, hrest, if_pos rfl, add_zero]
    · have hmem : k ∈ keys := (List.mem_cons.mp hk).resolve_left hxk
      rw [List.map_cons, List.sum_cons, if_neg hxk, zero_mul, zero_add, ih hkeys hmem]

/-- A weighted sum over events is a sum over the keys that they weigh. -/
theorem sum_mul_eq_sum_total {keys : List K} (hkeys : keys.Nodup) {events : List (K × R)}
    (hsub : ∀ e ∈ events, e.1 ∈ keys ∨ e.2 = 0) (g : K → R) :
    (events.map fun e => e.2 * g e.1).sum = (keys.map fun k => total k events * g k).sum := by
  induction events with
  | nil => simp
  | cons e events ih =>
    have hadd : (fun k => total k (e :: events) * g k) =
        fun k => (if e.1 = k then e.2 else 0) * g k + total k events * g k := by
      funext k
      rw [total_cons, add_mul]
    rw [List.map_cons, List.sum_cons, ih fun x hx => hsub x (List.mem_cons_of_mem _ hx), hadd,
      List.sum_map_add]
    congr 1
    rcases hsub e List.mem_cons_self with hmem | hzero
    · exact (sum_map_ite_mul hkeys hmem e.2 g).symm
    · simp [hzero]

end Weighted

end Acfqp.Library
