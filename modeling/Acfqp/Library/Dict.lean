import Acfqp.Library.Checked

/-!
# Insertion-ordered dictionaries

An association list whose keys are looked up from the front stands for a dictionary that
remembers its insertion order. `tally` collects weighted events under their keys; a sum over
the tally is the sum over the events, whatever the keys are. `memoize` caches a computation
under its key, and a sound table stays sound.
-/

namespace Acfqp.Library

/-! ## Assignment and lookup -/

/-- The first element that repeats an earlier one, or one of `seen`. -/
def repeated? {α : Type} [DecidableEq α] (seen : List α) : List α → Option α
  | [] => none
  | a :: rest => if a ∈ seen then some a else repeated? (a :: seen) rest

namespace Dict

/-- The first element of a key is the only one, when the keys are distinct. -/
theorem find?_eq_some {α K : Type} [DecidableEq K] {key : α → K} {l : List α}
    (hl : (l.map key).Nodup) {x : α} (hx : x ∈ l) : (l.find? fun y => key y = key x) = some x := by
  induction l with
  | nil => cases hx
  | cons y l ih =>
    rw [List.map_cons, List.nodup_cons] at hl
    rcases List.mem_cons.mp hx with rfl | hx
    · simp
    · have hne : key y ≠ key x := fun h => hl.1 (h ▸ List.mem_map_of_mem hx)
      rw [List.find?_cons_of_neg (by simpa using hne)]
      exact ih hl.2 hx

section Lookup

variable {K V : Type} [BEq K] [LawfulBEq K]

theorem lookup_mem {k : K} {v : V} {d : List (K × V)} (h : d.lookup k = some v) : (k, v) ∈ d := by
  induction d with
  | nil => simp at h
  | cons e d ih =>
    obtain ⟨k', w⟩ := e
    rw [List.lookup_cons] at h
    split at h
    · rename_i hk
      simp_all
    · exact List.mem_cons_of_mem _ (ih h)

theorem lookup_eq_some {k : K} {v : V} {d : List (K × V)} (hd : (d.map Prod.fst).Nodup)
    (h : (k, v) ∈ d) : d.lookup k = some v := by
  induction d with
  | nil => simp at h
  | cons e d ih =>
    obtain ⟨k', w⟩ := e
    rw [List.map_cons, List.nodup_cons] at hd
    rw [List.lookup_cons]
    rcases List.mem_cons.mp h with he | hm
    · cases he; simp
    · have hne : k ≠ k' := fun hk => hd.1 (List.mem_map.mpr ⟨(k, v), hm, hk⟩)
      rw [beq_false_of_ne hne]
      exact ih hd.2 hm

theorem lookup_map {f : K → V} {l : List K} {k : K} (h : k ∈ l) :
    (l.map fun k => (k, f k)).lookup k = some (f k) := by
  induction l with
  | nil => cases h
  | cons k' l ih =>
    rw [List.map_cons, List.lookup_cons]
    split
    · rename_i hk
      rw [eq_of_beq hk]
    · rename_i hk
      refine ih ((List.mem_cons.mp h).resolve_left fun heq => ?_)
      simp [heq] at hk

end Lookup

variable {K V : Type} [DecidableEq K]

/-- Overwrite the entry of `k`, or append it. -/
def assign (k : K) (v : V) : List (K × V) → List (K × V)
  | [] => [(k, v)]
  | (k', w) :: d => if k' = k then (k', v) :: d else (k', w) :: assign k v d

theorem mem_assign {k : K} {v : V} {d : List (K × V)} {p : K × V} (h : p ∈ assign k v d) :
    p = (k, v) ∨ p ∈ d := by
  induction d with
  | nil => simpa [assign] using h
  | cons e d ih =>
    obtain ⟨k', w⟩ := e
    unfold assign at h
    split at h
    · rename_i hk
      subst hk
      rcases List.mem_cons.mp h with h | h
      · exact .inl h
      · exact .inr (by simp [h])
    · rcases List.mem_cons.mp h with h | h
      · exact .inr (by simp [h])
      · exact (ih h).imp_right fun h => by simp [h]

theorem keys_assign (k : K) (v : V) (d : List (K × V)) : (assign k v d).map Prod.fst =
    if k ∈ d.map Prod.fst then d.map Prod.fst else d.map Prod.fst ++ [k] := by
  induction d with
  | nil => simp [assign]
  | cons e d ih =>
    obtain ⟨k', w⟩ := e
    by_cases hk : k' = k
    · simp [assign, hk]
    · simp only [assign, hk, if_false, List.map_cons, ih, List.mem_cons, Ne.symm hk, false_or]
      split <;> simp

theorem nodup_keys_assign {k : K} {v : V} {d : List (K × V)} (h : (d.map Prod.fst).Nodup) :
    ((assign k v d).map Prod.fst).Nodup := by
  rw [keys_assign]
  split
  · exact h
  · rename_i hk
    exact h.append (by simp) (by simpa [List.disjoint_singleton] using hk)

theorem assign_of_notMem {k : K} {v : V} {d : List (K × V)} (h : k ∉ d.map Prod.fst) :
    assign k v d = d ++ [(k, v)] := by
  induction d with
  | nil => rfl
  | cons e d ih =>
    obtain ⟨k', w⟩ := e
    simp only [List.map_cons, List.mem_cons, not_or] at h
    simp [assign, Ne.symm h.1, ih h.2]

theorem assign_of_mem {k : K} {v : V} {d : List (K × V)} (hd : (d.map Prod.fst).Nodup)
    (h : k ∈ d.map Prod.fst) : assign k v d = d.map fun e => if e.1 = k then (e.1, v) else e := by
  induction d with
  | nil => simp at h
  | cons e d ih =>
    obtain ⟨k', w⟩ := e
    rw [List.map_cons, List.nodup_cons] at hd
    by_cases hk : k' = k
    · subst hk
      have hrest : d.map (fun e => if e.1 = k' then (e.1, v) else e) = d := by
        refine (List.map_congr_left fun e he => if_neg fun heq => ?_).trans (List.map_id d)
        exact hd.1 (List.mem_map.mpr ⟨e, he, heq⟩)
      simp [assign, hrest]
    · have hmem : k ∈ d.map Prod.fst := by simpa [Ne.symm hk] using h
      simp [assign, hk, ih hd.2 hmem]

/-- Overwriting known keys, one by one. -/
theorem foldl_assign_of_mem {v : V} {keys : List K} {d : List (K × V)}
    (hd : (d.map Prod.fst).Nodup) (h : ∀ k ∈ keys, k ∈ d.map Prod.fst) :
    keys.foldl (fun d k => assign k v d) d =
      d.map fun e => if e.1 ∈ keys then (e.1, v) else e := by
  induction keys generalizing d with
  | nil => simp
  | cons k keys ih =>
    obtain ⟨hk, hkeys⟩ := List.forall_mem_cons.mp h
    have hfst : (assign k v d).map Prod.fst = d.map Prod.fst := by
      rw [keys_assign, if_pos hk]
    rw [List.foldl_cons, ih (by rwa [hfst]) (by rwa [hfst]), assign_of_mem hd hk, List.map_map]
    refine List.map_congr_left fun e _ => ?_
    by_cases he : e.1 = k
    · simp [he]
    · simp [he]

theorem mem_assign_of_ne {k : K} {v : V} {d : List (K × V)} {p : K × V} (hne : p.1 ≠ k)
    (h : p ∈ d) : p ∈ assign k v d := by
  induction d with
  | nil => simp at h
  | cons e d ih =>
    obtain ⟨k', w⟩ := e
    unfold assign
    rcases List.mem_cons.mp h with rfl | h
    · rw [if_neg hne]
      exact List.mem_cons_self ..
    · split
      · exact List.mem_cons_of_mem _ h
      · exact List.mem_cons_of_mem _ (ih h)

theorem mem_assign_self (k : K) (v : V) (d : List (K × V)) : (k, v) ∈ assign k v d := by
  induction d with
  | nil => simp [assign]
  | cons e d ih =>
    obtain ⟨k', w⟩ := e
    unfold assign
    split
    · simp_all
    · exact List.mem_cons_of_mem _ ih

/-- An assignment is read back at its key, and nowhere else. -/
theorem lookup_assign [BEq K] [LawfulBEq K] (k k' : K) (v : V) (d : List (K × V)) :
    (assign k v d).lookup k' = if k' = k then some v else d.lookup k' := by
  have hne : ∀ {j : K}, k' ≠ j → (k' == j) = false := fun h => beq_eq_false_iff_ne.mpr h
  induction d with
  | nil => by_cases h : k' = k <;> simp [assign, List.lookup_cons, h, hne]
  | cons e d ih =>
    obtain ⟨j, w⟩ := e
    by_cases hj : j = k
    · subst hj
      by_cases h : k' = j <;> simp [assign, List.lookup_cons, h, hne]
    · by_cases h : k' = j
      · subst h
        simp [assign, hj]
      · simpa [assign, List.lookup_cons, hj, hne h] using ih

/-- Python's `dict` of a list of pairs: a later value of a key replaces an earlier one. -/
def ofPairs (pairs : List (K × V)) : List (K × V) :=
  pairs.foldl (fun d e => assign e.1 e.2 d) []

theorem ofPairs_of_nodup {pairs : List (K × V)} (h : (pairs.map Prod.fst).Nodup) :
    ofPairs pairs = pairs := by
  have key : ∀ d : List (K × V), ((d ++ pairs).map Prod.fst).Nodup →
      pairs.foldl (fun d e => assign e.1 e.2 d) d = d ++ pairs := by
    clear h
    induction pairs with
    | nil => simp
    | cons e pairs ih =>
      intro d hd
      have hnot : e.1 ∉ d.map Prod.fst := by
        rw [List.map_append, List.nodup_append] at hd
        exact fun he => hd.2.2 _ he _ (by simp) rfl
      rw [List.foldl_cons, assign_of_notMem hnot, ih (d ++ [e]) (by simpa using hd)]
      simp
  simpa [ofPairs] using key [] h

theorem nodup_keys_ofPairs (pairs : List (K × V)) : ((ofPairs pairs).map Prod.fst).Nodup := by
  have key : ∀ d : List (K × V), (d.map Prod.fst).Nodup →
      ((pairs.foldl (fun d e => assign e.1 e.2 d) d).map Prod.fst).Nodup := by
    induction pairs with
    | nil => exact fun d hd => hd
    | cons e pairs ih => exact fun d hd => ih _ (nodup_keys_assign hd)
  exact key [] List.nodup_nil

theorem mem_keys_ofPairs {pairs : List (K × V)} {k : K} :
    k ∈ (ofPairs pairs).map Prod.fst ↔ k ∈ pairs.map Prod.fst := by
  have key : ∀ d : List (K × V),
      k ∈ (pairs.foldl (fun d e => assign e.1 e.2 d) d).map Prod.fst ↔
        k ∈ d.map Prod.fst ∨ k ∈ pairs.map Prod.fst := by
    induction pairs with
    | nil => simp
    | cons e pairs ih =>
      intro d
      rw [List.foldl_cons, ih, keys_assign]
      split
      · rename_i he
        simp only [List.map_cons, List.mem_cons]
        constructor
        · tauto
        · rintro (h | rfl | h)
          · exact .inl h
          · exact .inl he
          · exact .inr h
      · simp only [List.mem_append, List.map_cons, List.mem_cons]
        tauto
  simpa [ofPairs] using key []

theorem mem_of_mem_ofPairs {pairs : List (K × V)} {e : K × V} (h : e ∈ ofPairs pairs) :
    e ∈ pairs := by
  unfold ofPairs at h
  induction pairs using List.reverseRecOn with
  | nil => simp at h
  | append_singleton pairs last ih =>
    rw [List.foldl_concat] at h
    rcases mem_assign h with rfl | h
    · simp
    · exact List.mem_append.mpr (.inl (ih h))

/-- A weighted sum over more keys than a dictionary has, missing keys counting for nothing. -/
theorem sum_lookup {R : Type} [Ring R] (g : K → R) {keys : List K} {d : List (K × R)}
    (hkeys : keys.Nodup) (hd : (d.map Prod.fst).Nodup) (hsub : ∀ e ∈ d, e.1 ∈ keys) :
    (keys.map fun k => g k * (d.lookup k).getD 0).sum = (d.map fun e => g e.1 * e.2).sum := by
  induction d with
  | nil => simp
  | cons e d ih =>
    rw [List.map_cons, List.nodup_cons] at hd
    have ih := ih hd.2 fun x hx => hsub x (by simp [hx])
    have hnone : d.lookup e.1 = none := by
      refine List.lookup_eq_none_iff.mpr fun x hx => ?_
      simp only [bne_iff_ne, ne_eq]
      exact fun heq => hd.1 (heq ▸ List.mem_map_of_mem hx)
    have hsplit : ∀ k, g k * (((e :: d).lookup k).getD 0) =
        (if k = e.1 then g e.1 * e.2 else 0) + g k * (d.lookup k).getD 0 := by
      intro k
      rw [List.lookup_cons]
      by_cases hk : k = e.1
      · subst hk
        simp [hnone]
      · simp [hk, beq_false_of_ne hk]
    simp only [hsplit, List.sum_map_add, ih, List.map_cons, List.sum_cons]
    congr 1
    rw [List.sum_map_ite_eq keys (fun _ => g e.1 * e.2) (fun _ => 0) e.1,
      List.count_eq_one_of_mem hkeys (hsub e (by simp))]
    simp

end Dict

/-! ## Weighted tallies -/

section

variable {K M : Type} [DecidableEq K] [AddMonoid M]

/-- Add `v` to the total of `k`, starting the total at zero. -/
def bump (k : K) (v : M) : List (K × M) → List (K × M)
  | [] => [(k, 0 + v)]
  | (k', w) :: d => if k' = k then (k', w + v) :: d else (k', w) :: bump k v d

/-- The totals of a list of weighted events, in the order their keys first occur. -/
def tally (events : List (K × M)) : List (K × M) :=
  events.foldl (fun d e => bump e.1 e.2 d) []

theorem keys_bump (k : K) (v : M) (d : List (K × M)) :
    (bump k v d).map Prod.fst =
      if k ∈ d.map Prod.fst then d.map Prod.fst else d.map Prod.fst ++ [k] := by
  induction d with
  | nil => simp [bump]
  | cons e d ih =>
    obtain ⟨k', w⟩ := e
    by_cases hk : k' = k
    · simp [bump, hk]
    · have hk' : k ≠ k' := fun h => hk h.symm
      simp only [bump, if_neg hk, List.map_cons, ih, List.mem_cons, hk', false_or]
      split <;> simp

theorem foldl_bump_invariant {P : List (K × M) → Prop} (events d : List (K × M))
    (hd : P d) (hstep : ∀ d, P d → ∀ e ∈ events, P (bump e.1 e.2 d)) :
    P (events.foldl (fun d e => bump e.1 e.2 d) d) := by
  induction events generalizing d with
  | nil => exact hd
  | cons e events ih =>
    exact ih _ (hstep d hd e (by simp)) fun d hd e he => hstep d hd e (by simp [he])

theorem nodup_keys_tally (events : List (K × M)) : ((tally events).map Prod.fst).Nodup := by
  refine foldl_bump_invariant (P := fun d => (d.map Prod.fst).Nodup) events [] (by simp) ?_
  intro d hd e _
  rw [keys_bump]
  split
  · exact hd
  · rename_i hk
    exact hd.append (by simp) (by simpa [List.disjoint_singleton] using hk)

theorem mem_keys_tally {events : List (K × M)} {k : K} :
    k ∈ (tally events).map Prod.fst ↔ k ∈ events.map Prod.fst := by
  have key : ∀ d : List (K × M),
      k ∈ (events.foldl (fun d e => bump e.1 e.2 d) d).map Prod.fst ↔
        k ∈ d.map Prod.fst ∨ k ∈ events.map Prod.fst := by
    induction events with
    | nil => simp
    | cons e events ih =>
      intro d
      rw [List.foldl_cons, ih, keys_bump]
      split
      · rename_i he
        simp only [List.map_cons, List.mem_cons]
        constructor
        · tauto
        · rintro (h | rfl | h)
          · exact .inl h
          · exact .inl he
          · exact .inr h
      · simp only [List.mem_append, List.map_cons, List.mem_cons]
        tauto
  simpa [tally] using key []

end

section Sums

variable {K M N : Type} [DecidableEq K] [AddCommMonoid M] [AddCommMonoid N]

theorem sum_bump (g : K → M →+ N) (k : K) (v : M) (d : List (K × M)) :
    ((bump k v d).map fun e => g e.1 e.2).sum = (d.map fun e => g e.1 e.2).sum + g k v := by
  induction d with
  | nil => simp [bump]
  | cons e d ih =>
    obtain ⟨k', w⟩ := e
    unfold bump
    split
    · rename_i hk
      subst hk
      simp [add_right_comm]
    · simp [ih, add_assoc]

theorem sum_tally (g : K → M →+ N) (events : List (K × M)) :
    ((tally events).map fun e => g e.1 e.2).sum = (events.map fun e => g e.1 e.2).sum := by
  have key : ∀ d : List (K × M),
      ((events.foldl (fun d e => bump e.1 e.2 d) d).map fun e => g e.1 e.2).sum =
        (d.map fun e => g e.1 e.2).sum + (events.map fun e => g e.1 e.2).sum := by
    induction events with
    | nil => simp
    | cons e events ih => intro d; rw [List.foldl_cons, ih, sum_bump]; simp [add_assoc]
  simpa [tally] using key []

end Sums

theorem sum_tally_mul {K R : Type} [DecidableEq K] [NonUnitalNonAssocSemiring R]
    (g : K → R) (events : List (K × R)) :
    ((tally events).map fun e => e.2 * g e.1).sum = (events.map fun e => e.2 * g e.1).sum :=
  sum_tally (fun k => AddMonoidHom.mulRight (g k)) events

section Totals

variable {K M : Type} [DecidableEq K] [AddMonoid M]

/-- What holds of every event and is kept by sums holds of the totals. -/
theorem tally_totals {P : M → Prop} (hadd : ∀ a b, P a → P b → P (a + b))
    {events : List (K × M)} (h : ∀ e ∈ events, P e.2) : ∀ e ∈ tally events, P e.2 := by
  refine foldl_bump_invariant (P := fun d => ∀ e ∈ d, P e.2) events [] (by simp) ?_
  intro d hd e he
  induction d with
  | nil => simpa [bump] using h e he
  | cons e' d ih =>
    have hd' := fun e he => hd e (List.mem_cons_of_mem _ he)
    have hhead := hd e' (by simp)
    unfold bump
    split
    · simpa using ⟨hadd _ _ hhead (h e he), fun a b hab => hd' (a, b) hab⟩
    · simpa using ⟨hhead, fun a b hab => ih hd' (a, b) hab⟩

end Totals

section Rename

variable {K K' M : Type} [DecidableEq K] [DecidableEq K'] [AddMonoid M]

theorem bump_map {f : K → K'} {k : K} (m : M) {d : List (K × M)}
    (hf : ∀ e ∈ d, f e.1 = f k → e.1 = k) :
    bump (f k) m (d.map fun e => (f e.1, e.2)) =
      (bump k m d).map fun e => (f e.1, e.2) := by
  induction d with
  | nil => rfl
  | cons e d ih =>
    have ih := ih fun x hx => hf x (by simp [hx])
    by_cases hk : e.1 = k
    · simp [bump, hk]
    · have hk' : f e.1 ≠ f k := fun h => hk (hf e (by simp) h)
      simp [bump, hk, hk', ih]

omit [DecidableEq K'] in
theorem tally_concat (events : List (K × M)) (e : K × M) :
    tally (events ++ [e]) = bump e.1 e.2 (tally events) := by simp [tally]

/-- Renaming the keys injectively renames the tally. -/
theorem tally_map {f : K → K'} (events : List (K × M))
    (hf : ∀ e ∈ events, ∀ x ∈ events, f e.1 = f x.1 → e.1 = x.1) :
    tally (events.map fun e => (f e.1, e.2)) = (tally events).map fun e => (f e.1, e.2) := by
  induction events using List.reverseRecOn with
  | nil => rfl
  | append_singleton events x ih =>
    have ih := ih fun e he y hy => hf e (by simp [he]) y (by simp [hy])
    rw [List.map_append, List.map_singleton, tally_concat, tally_concat, ih]
    refine bump_map (f := f) (k := x.1) x.2 fun e he heq => ?_
    obtain ⟨y, hy, hye⟩ := List.mem_map.mp (mem_keys_tally.mp (List.mem_map_of_mem he))
    exact hye ▸ hf y (by simp [hy]) x (by simp) (hye ▸ heq)

end Rename

section Memo

variable {ε K V τ : Type} [DecidableEq K]

/-- Look `key` up in the memo table; compute and store it when it is not there. -/
def memoize (key : K) (body : StateT (List (K × V) × τ) (Except ε) V) :
    StateT (List (K × V) × τ) (Except ε) V := do
  let s ← get
  match s.1.lookup key with
  | some v => pure v
  | none =>
    let v ← body
    modify fun s => (Dict.assign key v s.1, s.2)
    pure v

theorem memoize_run (key : K) (body : StateT (List (K × V) × τ) (Except ε) V)
    (s : List (K × V) × τ) : memoize key body s = (match s.1.lookup key with
      | some v => .ok (v, s)
      | none => (body s).bind fun p => .ok (p.1, (Dict.assign key p.1 p.2.1, p.2.2))) := by
  rw [memoize]
  change (match s.1.lookup key with
    | some v => pure v
    | none => _ : StateT (List (K × V) × τ) (Except ε) V) s = _
  cases s.1.lookup key <;> rfl

/-- Every entry of the table is the value that `spec` gives its key. -/
def Agrees (spec : K → Except ε V) (table : List (K × V)) : Prop :=
  ∀ p ∈ table, spec p.1 = .ok p.2

theorem Agrees.assign {spec : K → Except ε V} {table : List (K × V)} {k : K} {v : V}
    (h : Agrees spec table) (hv : spec k = .ok v) : Agrees spec (Dict.assign k v table) := by
  intro p hp
  rcases Dict.mem_assign hp with rfl | hp
  · exact hv
  · exact h p hp

theorem Computes.memoize {spec : K → Except ε V} {J : τ → Prop} {key : K}
    {body : StateT (List (K × V) × τ) (Except ε) V}
    (h : Computes (fun s => Agrees spec s.1 ∧ J s.2) body (spec key)) :
    Computes (fun s => Agrees spec s.1 ∧ J s.2) (Library.memoize key body) (spec key) := by
  intro s hs
  obtain ⟨table, r⟩ := s
  cases hl : table.lookup key with
  | some v =>
    refine ⟨(table, r), hs, ?_⟩
    rw [memoize_run, hl, hs.1 (key, v) (Dict.lookup_mem hl)]
    rfl
  | none =>
    obtain ⟨t, ht, hrun⟩ := h (table, r) hs
    rw [memoize_run, hl, hrun]
    cases hx : spec key with
    | error e => exact ⟨(table, r), hs, rfl⟩
    | ok v => exact ⟨(Dict.assign key v t.1, t.2), ⟨ht.1.assign hx, ht.2⟩, rfl⟩

/-- Memo tables stay the same when the bodies only differ in what they leave beside them. -/
theorem Alike.memoize {ρ : Type} {look : τ → ρ} {key : K}
    {body body' : StateT (List (K × V) × τ) (Except ε) V}
    (h : Alike (Prod.map id look) body body') :
    Alike (Prod.map id look) (Library.memoize key body) (Library.memoize key body') := by
  rintro ⟨table, r⟩ ⟨table', r'⟩ hs
  obtain ⟨rfl, hr⟩ : table = table' ∧ look r = look r' := by simpa using hs
  rw [memoize_run, memoize_run]
  cases table.lookup key with
  | some v => simpa [Except.map] using hr
  | none =>
    have hrun := h (table, r) (table, r') hs
    cases hx : body (table, r) <;> cases hx' : body' (table, r') <;> rw [hx, hx'] at hrun
    · exact congrArg Except.error (Except.error.inj hrun)
    · cases hrun
    · cases hrun
    · rename_i p p'
      obtain ⟨v, t, u⟩ := p
      obtain ⟨v', t', u'⟩ := p'
      obtain ⟨rfl, rfl, hu⟩ : v = v' ∧ t = t' ∧ look u = look u' := by
        simpa using Except.ok.inj hrun
      simpa [Except.bind, Except.map] using hu

end Memo

end Acfqp.Library
