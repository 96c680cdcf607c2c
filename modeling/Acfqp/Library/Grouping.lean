import Acfqp.Library.Dict
import Acfqp.Library.Ordered
import Mathlib.Data.List.Perm.Basic
import Mathlib.Data.Finset.Lattice.Fold

/-!
# Grouping by a key

Groups in the order their keys first occur, dictionaries that keep the first value of a key, and
what neither the order of a list nor the names of its elements change.
-/

namespace Acfqp.Library

section Distinct

variable {α : Type} [DecidableEq α]

/-- The distinct elements, in the order they first occur. -/
def distinct (l : List α) : List α :=
  l.foldl (fun seen a => if a ∈ seen then seen else seen ++ [a]) []

theorem distinct_concat (l : List α) (a : α) :
    distinct (l ++ [a]) = if a ∈ distinct l then distinct l else distinct l ++ [a] :=
  List.foldl_concat ..

@[simp] theorem mem_distinct {l : List α} {a : α} : a ∈ distinct l ↔ a ∈ l := by
  induction l using List.reverseRecOn with
  | nil => simp [distinct]
  | append_singleton l b ih =>
    rw [distinct_concat]
    split
    · next hb =>
      constructor
      · intro h
        exact List.mem_append_left _ (ih.mp h)
      · intro h
        rcases List.mem_append.mp h with h | h
        · exact ih.mpr h
        · rwa [List.mem_singleton.mp h]
    · simp [ih]

theorem nodup_distinct (l : List α) : (distinct l).Nodup := by
  induction l using List.reverseRecOn with
  | nil => simp [distinct]
  | append_singleton l b ih =>
    rw [distinct_concat]
    split
    · exact ih
    · next hb => exact ih.append (List.nodup_singleton b) (by simpa using hb)

theorem distinct_perm {l l' : List α} (h : ∀ a, a ∈ l ↔ a ∈ l') :
    (distinct l).Perm (distinct l') :=
  (List.perm_ext_iff_of_nodup (nodup_distinct l) (nodup_distinct l')).mpr fun a => by simp [h a]

end Distinct

/-- A list with increasing keys is any of its reorderings, sorted. -/
theorem eq_sortBy_of_perm {α κ : Type} [LinearOrder κ] {key : α → κ} {l l' : List α}
    (h : l.Pairwise fun a b => key a < key b) (hperm : l.Perm l') : l = sortBy key l' := by
  have hnodup : (l.map key).Nodup := List.pairwise_map.mpr (h.imp fun hab => hab.ne)
  calc l = sortBy key l := (h.imp fun hab => hab.le).insertionSort_eq.symm
    _ = sortBy key l' := sortBy_eq_of_perm hperm hnodup

/-- Sorting by a key that tells the elements apart forgets the order before it. -/
theorem sortBy_eq_of_injective {α κ : Type} [LinearOrder κ] {key : α → κ}
    (hkey : Function.Injective key) {l l' : List α} (h : l.Perm l') :
    sortBy key l = sortBy key l' :=
  List.Perm.eq_of_pairwise (fun _ _ _ _ hab hba => hkey (le_antisymm hab hba))
    (pairwise_sortBy key l) (pairwise_sortBy key l')
    (((perm_sortBy key l).trans h).trans (perm_sortBy key l').symm)

/-- Distinct keys increase strictly once they are sorted. -/
theorem pairwise_lt_sortBy {α κ : Type} [LinearOrder κ] {key : α → κ} {l : List α}
    (h : (l.map key).Nodup) : (sortBy key l).Pairwise fun a b => key a < key b := by
  have hnodup : ((sortBy key l).map key).Nodup := nodup_map_sortBy h
  exact (pairwise_sortBy key l).imp₂ (fun _ _ => lt_of_le_of_ne) (List.pairwise_map.mp hnodup)

/-- Sorted distinct keys increase strictly. -/
theorem pairwise_lt_map_sortBy {α κ : Type} [LinearOrder κ] {key : α → κ} {l : List α}
    (h : ((sortBy key l).map key).Nodup) : ((sortBy key l).map key).Pairwise (· < ·) :=
  List.pairwise_map.mpr
    ((pairwise_sortBy key l).imp₂ (fun _ _ => lt_of_le_of_ne) (List.pairwise_map.mp h))

theorem map_inj_of_mem {α β : Type} {f : α → β} {l l' : List α} (h : l.map f = l'.map f)
    (hf : ∀ a ∈ l, ∀ b ∈ l', f a = f b → a = b) : l = l' := by
  induction l generalizing l' with
  | nil => exact (List.map_eq_nil_iff.mp h.symm).symm
  | cons a l ih =>
    cases l' with
    | nil => cases h
    | cons b l' =>
      obtain ⟨hab, htail⟩ := List.cons_eq_cons.mp h
      rw [hf a (by simp) b (by simp) hab,
        ih htail fun c hc d hd => hf c (by simp [hc]) d (by simp [hd])]

theorem min?_of_perm {κ : Type} [LinearOrder κ] {l l' : List κ} (h : l.Perm l') :
    l.min? = l'.min? := by
  cases hl : l.min? with
  | none =>
    rw [List.min?_eq_none_iff] at hl
    subst hl
    rw [List.nil_perm.mp h]
    rfl
  | some m =>
    refine (List.min?_eq_some_iff.mpr ⟨h.mem_iff.mp (min?_mem hl), fun b hb => ?_⟩).symm
    exact min?_le hl (h.mem_iff.mpr hb)

theorem max?_of_perm {κ : Type} [LinearOrder κ] {l l' : List κ} (h : l.Perm l') :
    l.max? = l'.max? := by
  cases hl : l.max? with
  | none =>
    rw [List.max?_eq_none_iff] at hl
    subst hl
    rw [List.nil_perm.mp h]
    rfl
  | some m =>
    refine (List.max?_eq_some_iff.mpr ⟨h.mem_iff.mp (max?_mem hl), fun b hb => ?_⟩).symm
    exact le_max? hl (h.mem_iff.mpr hb)

section Groups

variable {α β κ M : Type} [DecidableEq κ]

/-- The elements of each key. -/
def groupBy (key : α → κ) (l : List α) : List (κ × List α) :=
  (distinct (l.map key)).map fun k => (k, l.filter fun a => key a = k)

@[simp] theorem length_groupBy (key : α → κ) (l : List α) :
    (groupBy key l).length = (distinct (l.map key)).length := List.length_map ..

/-- What depends on the members of a group, but not on their order or their names, is the same for a
renamed and reordered list. -/
theorem perm_map_groupBy (key : α → κ) (key' : β → κ) {f : α → β} {l : List α} {l' : List β}
    (F : κ × List α → M) (F' : κ × List β → M) (hperm : l'.Perm (l.map f))
    (hkey : ∀ a ∈ l, key' (f a) = key a)
    (hF : ∀ k group group', (∀ a ∈ group, a ∈ l) → group'.Perm (group.map f) →
      F' (k, group') = F (k, group)) :
    ((groupBy key' l').map F').Perm ((groupBy key l).map F) := by
  have hkeys : (l.map f).map key' = l.map key := by
    rw [List.map_map]
    exact List.map_congr_left hkey
  have hmem : ∀ k, k ∈ l'.map key' ↔ k ∈ l.map key := by
    intro k
    rw [(hperm.map key').mem_iff, hkeys]
  have hgroup : ∀ k, F' (k, l'.filter fun b => key' b = k) = F (k, l.filter fun a =>
      key a = k) := by
    intro k
    refine hF k _ _ (fun a ha => (List.mem_filter.mp ha).1) ?_
    refine (hperm.filter _).trans (List.Perm.of_eq ?_)
    rw [List.filter_map]
    congr 1
    exact List.filter_congr fun a ha => by simp [hkey a ha]
  unfold groupBy
  rw [List.map_map, List.map_map]
  refine ((distinct_perm hmem).map _).trans (List.Perm.of_eq ?_)
  exact List.map_congr_left fun k _ => hgroup k

end Groups

section Defaults

variable {ε α K V : Type} [DecidableEq K]

/-- Keeps the value of a key that has one already. -/
def setDefault (k : K) (v : V) (d : List (K × V)) : List (K × V) :=
  if (d.lookup k).isSome then d else d ++ [(k, v)]

theorem isSome_lookup_setDefault {k k' : K} {v : V} {d : List (K × V)} :
    ((setDefault k v d).lookup k').isSome ↔ k' = k ∨ (d.lookup k').isSome := by
  unfold setDefault
  split
  · next h =>
    constructor
    · exact .inr
    · rintro (rfl | h')
      · exact h
      · exact h'
  · rw [List.lookup_append, Option.isSome_or]
    by_cases hk : k' = k
    · simp [hk]
    · simp [hk, beq_false_of_ne hk, List.lookup_cons]

theorem mem_setDefault {k : K} {v : V} {d : List (K × V)} {e : K × V}
    (h : e ∈ setDefault k v d) : e ∈ d ∨ e = (k, v) := by
  unfold setDefault at h
  split at h
  · exact .inl h
  · simpa using h

/-- A dictionary of first values holds the value of every element, when equal keys have equal
values. -/
theorem lookup_foldlM_setDefault (key : α → K) {value : α → Except ε V} {v : α → V} {l : List α}
    (hvalue : ∀ a ∈ l, value a = .ok (v a)) (hkey : ∀ a ∈ l, ∀ b ∈ l, key a = key b → v a = v b) :
    ∃ d, l.foldlM (fun d a => do
        let w ← value a
        return setDefault (key a) w d) [] = .ok d ∧
      ∀ a ∈ l, d.lookup (key a) = some (v a) := by
  have hrun : l.foldlM (fun d a => do
      let w ← value a
      return setDefault (key a) w d) [] =
        (.ok (l.foldl (fun d a => setDefault (key a) (v a) d) []) : Except ε _) := by
    generalize ([] : List (K × V)) = d
    induction l generalizing d with
    | nil => rfl
    | cons a l ih =>
      rw [List.foldlM_cons, hvalue a (by simp)]
      exact ih (fun b hb => hvalue b (by simp [hb]))
        (fun b hb c hc => hkey b (by simp [hb]) c (by simp [hc])) _
  have hentries : ∀ e ∈ l.foldl (fun d a => setDefault (key a) (v a) d) [],
      ∃ a ∈ l, e = (key a, v a) := by
    clear hrun hvalue hkey
    induction l using List.reverseRecOn with
    | nil => simp
    | append_singleton l a ih =>
      intro e he
      rw [List.foldl_concat] at he
      rcases mem_setDefault he with he | rfl
      · obtain ⟨b, hb, rfl⟩ := ih e he
        exact ⟨b, by simp [hb], rfl⟩
      · exact ⟨a, by simp, rfl⟩
  have hsome : ∀ a ∈ l,
      ((l.foldl (fun d a => setDefault (key a) (v a) d) []).lookup (key a)).isSome := by
    clear hrun hvalue hkey hentries
    induction l using List.reverseRecOn with
    | nil => simp
    | append_singleton l b ih =>
      intro a ha
      rw [List.foldl_concat, isSome_lookup_setDefault]
      rcases List.mem_append.mp ha with ha | ha
      · exact .inr (ih a ha)
      · exact .inl (by rw [List.mem_singleton.mp ha])
  refine ⟨_, hrun, fun a ha => ?_⟩
  obtain ⟨w, hw⟩ := Option.isSome_iff_exists.mp (hsome a ha)
  obtain ⟨b, hb, he⟩ := hentries _ (Dict.lookup_mem hw)
  obtain ⟨hk, rfl⟩ := Prod.mk.inj he
  rw [hw, hkey a ha b hb hk]

/-- The values of a dictionary whose keys tell them apart. -/
theorem mem_values_ofPairs {key : α → K} (hkey : Function.Injective key) {l : List α} {a : α} :
    a ∈ (Dict.ofPairs (l.map fun a => (key a, a))).map Prod.snd ↔ a ∈ l := by
  have hentries : ∀ e ∈ Dict.ofPairs (l.map fun a => (key a, a)), ∃ b ∈ l, e = (key b, b) := by
    unfold Dict.ofPairs
    induction l using List.reverseRecOn with
    | nil => simp
    | append_singleton l b ih =>
      intro e he
      rw [List.map_append, List.map_singleton, List.foldl_concat] at he
      rcases Dict.mem_assign he with rfl | he
      · exact ⟨b, by simp, rfl⟩
      · obtain ⟨c, hc, rfl⟩ := ih e he
        exact ⟨c, by simp [hc], rfl⟩
  constructor
  · intro h
    obtain ⟨e, he, rfl⟩ := List.mem_map.mp h
    obtain ⟨b, hb, rfl⟩ := hentries e he
    exact hb
  · intro h
    have hmem : key a ∈ (Dict.ofPairs (l.map fun a => (key a, a))).map Prod.fst :=
      Dict.mem_keys_ofPairs.mpr (List.mem_map.mpr ⟨(key a, a), List.mem_map_of_mem h, rfl⟩)
    obtain ⟨e, he, heq⟩ := List.mem_map.mp hmem
    obtain ⟨b, -, rfl⟩ := hentries e he
    obtain rfl := hkey heq
    exact List.mem_map.mpr ⟨_, he, rfl⟩

end Defaults

/-! ## Dictionaries with related keys -/

section

variable {K K' V : Type} {R : K → K' → Prop}

def RelatedKeys (R : K → K' → Prop) : List (K × V) → List (K' × V) → Prop :=
  List.Forall₂ fun e e' => R e.1 e'.1 ∧ e.2 = e'.2

theorem RelatedKeys.map_snd {d : List (K × V)} {d' : List (K' × V)} (h : RelatedKeys R d d') :
    d.map Prod.snd = d'.map Prod.snd := by
  induction h with
  | nil => rfl
  | cons he _ ih => rw [List.map_cons, List.map_cons, he.2, ih]

variable [DecidableEq K] [DecidableEq K'] (hR : ∀ a a' b b', R a a' → R b b' → (a = b ↔ a' = b'))
include hR

theorem RelatedKeys.lookup {k : K} {k' : K'} {d : List (K × V)} {d' : List (K' × V)}
    (h : RelatedKeys R d d') (hk : R k k') : d.lookup k = d'.lookup k' := by
  induction h with
  | nil => rfl
  | @cons e e' d d' he _ ih =>
    have hiff := hR _ _ _ _ hk he.1
    rw [List.lookup_cons, List.lookup_cons, ih]
    by_cases heq : k = e.1
    · simp [heq, hiff.mp heq, he.2]
    · simp [beq_false_of_ne heq, beq_false_of_ne (mt hiff.mpr heq)]

theorem RelatedKeys.assign {k : K} {k' : K'} {d : List (K × V)} {d' : List (K' × V)}
    (h : RelatedKeys R d d') (hk : R k k') (v : V) :
    RelatedKeys R (Dict.assign k v d) (Dict.assign k' v d') := by
  induction h with
  | nil => exact .cons ⟨hk, rfl⟩ .nil
  | @cons e e' d d' he htail ih =>
    have hiff := hR _ _ _ _ he.1 hk
    unfold Dict.assign
    by_cases heq : e.1 = k
    · rw [if_pos heq, if_pos (hiff.mp heq)]
      exact .cons ⟨he.1, rfl⟩ htail
    · rw [if_neg heq, if_neg (mt hiff.mpr heq)]
      exact .cons he ih

end

/-! ## Lists that cover each other -/

section

variable {ε α β γ δ : Type}

/-- Every element of either list is related to one of the other. -/
structure Covers (R : α → β → Prop) (l : List α) (l' : List β) : Prop where
  left : ∀ a ∈ l, ∃ b ∈ l', R a b
  right : ∀ b ∈ l', ∃ a ∈ l, R a b

/-- Two computations that fail alike, or return related values. -/
def Agree (S : γ → δ → Prop) (e : ε) (x : Except ε γ) (y : Except ε δ) : Prop :=
  (x = .error e ∧ y = .error e) ∨ ∃ a b, x = .ok a ∧ y = .ok b ∧ S a b

theorem mapM_eq_error {f : α → Except ε γ} {e : ε} {l : List α}
    (hf : ∀ a ∈ l, Raises (· = e) (f a)) {a : α} (ha : a ∈ l) (h : f a = .error e) :
    l.mapM f = .error e := by
  induction l with
  | nil => cases ha
  | cons b l ih =>
    rw [List.mapM_cons]
    cases hb : f b with
    | error e' =>
      rw [hf b (by simp) e' hb]
      rfl
    | ok c =>
      have hmem : a ∈ l := by
        rcases List.mem_cons.mp ha with rfl | hmem
        · cases h.symm.trans hb
        · exact hmem
      rw [ih (fun b hb => hf b (by simp [hb])) hmem]
      rfl

theorem mapM_returns_or_raises {f : α → Except ε γ} {e : ε} {l : List α}
    (hf : ∀ a ∈ l, Raises (· = e) (f a)) :
    (∃ a ∈ l, f a = .error e) ∨ ∃ g, l.mapM f = .ok g := by
  by_cases h : ∃ a ∈ l, f a = .error e
  · exact .inl h
  · refine .inr (mapM_returns fun a ha => ?_)
    cases hfa : f a with
    | ok c => exact ⟨c, rfl⟩
    | error e' =>
      obtain rfl := hf a ha e' hfa
      exact absurd ⟨a, ha, hfa⟩ h

/-- A list is mapped to equal lists exactly when its elements are. -/
theorem mapM_eq_iff {f g : α → Except ε γ} {l : List α} {ys zs : List γ}
    (hf : l.mapM f = .ok ys) (hg : l.mapM g = .ok zs) : ys = zs ↔ ∀ a ∈ l, f a = g a := by
  constructor
  · rintro rfl
    have hys := mapM_eq_ok.mp hf
    have hzs := mapM_eq_ok.mp hg
    clear hf hg
    induction hys with
    | nil => simp
    | cons hfa _ ih =>
      obtain _ | ⟨hga, hzs⟩ := hzs
      exact List.forall_mem_cons.mpr ⟨hfa.trans hga.symm, ih hzs⟩
  · intro h
    rw [mapM_congr h] at hf
    exact Except.ok.inj (hf.symm.trans hg)

/-- Lists that cover each other are mapped alike. -/
theorem Covers.mapM {R : α → β → Prop} {S : γ → δ → Prop} {l : List α} {l' : List β}
    {f : α → Except ε γ} {g : β → Except ε δ} {e : ε} (h : Covers R l l')
    (hf : ∀ a ∈ l, ∀ b ∈ l', R a b → Agree S e (f a) (g b)) :
    Agree (Covers S) e (l.mapM f) (l'.mapM g) := by
  have hleft : ∀ a ∈ l, Raises (· = e) (f a) := by
    intro a ha e' he'
    obtain ⟨b, hb, hab⟩ := h.left a ha
    obtain ⟨he, -⟩ | ⟨c, d, hc, -, -⟩ := hf a ha b hb hab
    · exact Except.error.inj (he'.symm.trans he)
    · cases he'.symm.trans hc
  have hright : ∀ b ∈ l', Raises (· = e) (g b) := by
    intro b hb e' he'
    obtain ⟨a, ha, hab⟩ := h.right b hb
    obtain ⟨-, he⟩ | ⟨c, d, -, hd, -⟩ := hf a ha b hb hab
    · exact Except.error.inj (he'.symm.trans he)
    · cases he'.symm.trans hd
  rcases mapM_returns_or_raises hleft with ⟨a, ha, he⟩ | ⟨cs, hcs⟩
  · obtain ⟨b, hb, hab⟩ := h.left a ha
    obtain ⟨-, he'⟩ | ⟨c, d, hc, -, -⟩ := hf a ha b hb hab
    · exact .inl ⟨mapM_eq_error hleft ha he, mapM_eq_error hright hb he'⟩
    · cases he.symm.trans hc
  · rcases mapM_returns_or_raises hright with ⟨b, hb, he⟩ | ⟨ds, hds⟩
    · obtain ⟨a, ha, hab⟩ := h.right b hb
      obtain ⟨he', -⟩ | ⟨c, d, -, hd, -⟩ := hf a ha b hb hab
      · exact .inl ⟨mapM_eq_error hleft ha he', mapM_eq_error hright hb he⟩
      · cases he.symm.trans hd
    · refine .inr ⟨cs, ds, hcs, hds, ⟨fun c hc => ?_, fun d hd => ?_⟩⟩
      · obtain ⟨a, ha, hac⟩ := mem_of_mapM hcs hc
        obtain ⟨b, hb, hab⟩ := h.left a ha
        obtain ⟨d, hd, hbd⟩ := exists_of_mapM hds hb
        obtain ⟨he, -⟩ | ⟨c', d', hc', hd', hS⟩ := hf a ha b hb hab
        · cases he.symm.trans hac
        · cases hc'.symm.trans hac
          cases hd'.symm.trans hbd
          exact ⟨_, hd, hS⟩
      · obtain ⟨b, hb, hbd⟩ := mem_of_mapM hds hd
        obtain ⟨a, ha, hab⟩ := h.right b hb
        obtain ⟨c, hc, hac⟩ := exists_of_mapM hcs ha
        obtain ⟨he, -⟩ | ⟨c', d', hc', hd', hS⟩ := hf a ha b hb hab
        · cases he.symm.trans hac
        · cases hc'.symm.trans hac
          cases hd'.symm.trans hbd
          exact ⟨_, hc, hS⟩

theorem Agree.bind {S : γ → δ → Prop} {S' : α → β → Prop} {e : ε} {x : Except ε γ}
    {y : Except ε δ} {f : γ → Except ε α} {g : δ → Except ε β} (h : Agree S e x y)
    (hf : ∀ a b, S a b → Agree S' e (f a) (g b)) : Agree S' e (x >>= f) (y >>= g) := by
  obtain ⟨rfl, rfl⟩ | ⟨a, b, rfl, rfl, hab⟩ := h
  · exact .inl ⟨rfl, rfl⟩
  · exact hf a b hab

theorem Agree.refl {e : ε} {x : Except ε γ} (h : Raises (· = e) x) : Agree Eq e x x := by
  cases x with
  | error e' =>
    obtain rfl := h e' rfl
    exact .inl ⟨rfl, rfl⟩
  | ok c => exact .inr ⟨c, c, rfl, rfl, rfl⟩

/-- A reordered list returns what the list returns, reordered. -/
theorem exists_mapM_of_perm {f : α → Except ε γ} {l l' : List α} {ys : List γ} (h : l.Perm l')
    (hys : l'.mapM f = .ok ys) : ∃ zs, l.mapM f = .ok zs ∧ zs.Perm ys := by
  obtain ⟨zs, hzs, hperm⟩ := List.perm_comp_forall₂ h (mapM_eq_ok.mp hys)
  exact ⟨zs, mapM_eq_ok.mpr hzs, hperm⟩

/-- Reordering a list reorders what it is mapped to. -/
theorem mapM_perm {f : α → Except ε γ} {e : ε} {l l' : List α} (h : l.Perm l')
    (hf : ∀ a ∈ l, Raises (· = e) (f a)) : Agree List.Perm e (l.mapM f) (l'.mapM f) := by
  induction h with
  | nil => exact .inr ⟨[], [], rfl, rfl, .nil⟩
  | cons a _ ih =>
    rw [List.mapM_cons, List.mapM_cons]
    refine (Agree.refl (hf a (by simp))).bind ?_
    rintro c _ rfl
    exact (ih fun b hb => hf b (by simp [hb])).bind fun cs ds hcs =>
      .inr ⟨_, _, rfl, rfl, hcs.cons c⟩
  | swap a b l =>
    simp only [List.mapM_cons]
    have ha := Agree.refl (hf a (by simp))
    have hb := Agree.refl (hf b (by simp))
    obtain ⟨ha, -⟩ | ⟨c, _, ha, -, rfl⟩ := ha <;> obtain ⟨hb, -⟩ | ⟨d, _, hb, -, rfl⟩ := hb <;>
      rw [ha, hb]
    · exact .inl ⟨rfl, rfl⟩
    · exact .inl ⟨rfl, rfl⟩
    · exact .inl ⟨rfl, rfl⟩
    · have hl : ∀ a ∈ l, Raises (· = e) (f a) := fun a ha => hf a (by simp [ha])
      rcases mapM_returns_or_raises hl with ⟨a, ha, he⟩ | ⟨cs, hcs⟩
      · rw [mapM_eq_error hl ha he]
        exact .inl ⟨rfl, rfl⟩
      · rw [hcs]
        exact .inr ⟨_, _, rfl, rfl, .swap c d cs⟩
  | trans h₁ _ ih₁ ih₂ =>
    obtain ⟨h₁', h₂'⟩ | ⟨cs, ds, hcs, hds, hperm⟩ := ih₁ hf
    · obtain ⟨-, h₃'⟩ | ⟨_, _, hds, -, -⟩ := ih₂ fun a ha => hf a (h₁.mem_iff.mpr ha)
      · exact .inl ⟨h₁', h₃'⟩
      · cases h₂'.symm.trans hds
    · obtain ⟨h₂', -⟩ | ⟨_, es, hds', hes, hperm'⟩ := ih₂ fun a ha => hf a (h₁.mem_iff.mpr ha)
      · cases h₂'.symm.trans hds
      · cases hds.symm.trans hds'
        exact .inr ⟨cs, es, hcs, hes, hperm.trans hperm'⟩

end

end Acfqp.Library

/-!
## Representatives of classes

A dictionary that keeps the least element of each class of a list, and one that keeps every element
under its own key.
-/

namespace Acfqp.Library

variable {S α κ K : Type}

section Least

variable [DecidableEq S] [LinearOrder κ] (order : α → κ)

/-- Keeps the first element of each class in an order. -/
def keepLeast (s : S) (a : α) (d : List (S × α)) : List (S × α) :=
  match d.lookup s with
  | none => Dict.assign s a d
  | some prior => if order a < order prior then Dict.assign s a d else d

/-- The least elements of the classes of a list. -/
structure Represents (class_ : α → S) (l : List α) (d : List (S × α)) : Prop where
  nodup : (d.map Prod.fst).Nodup
  mem : ∀ e ∈ d, e.2 ∈ l ∧ class_ e.2 = e.1
  least : ∀ a ∈ l, ∃ b, (class_ a, b) ∈ d ∧ order b ≤ order a

variable {order} {class_ : α → S} {l : List α} {d : List (S × α)}

theorem Represents.keepLeast (h : Represents order class_ l d) (a : α) :
    Represents order class_ (l ++ [a]) (keepLeast order (class_ a) a d) := by
  have hassign : (∀ b, (class_ a, b) ∈ d → order a < order b) →
      Represents order class_ (l ++ [a]) (Dict.assign (class_ a) a d) := by
    intro hless
    refine ⟨Dict.nodup_keys_assign h.nodup, fun e he => ?_, fun b hb => ?_⟩
    · rcases Dict.mem_assign he with rfl | he
      · exact ⟨by simp, rfl⟩
      · obtain ⟨hmem, hclass⟩ := h.mem e he
        exact ⟨List.mem_append_left _ hmem, hclass⟩
    · rcases List.mem_append.mp hb with hb | hb
      · obtain ⟨b', hb', hle⟩ := h.least b hb
        by_cases hclass : class_ b = class_ a
        · rw [hclass] at hb' ⊢
          exact ⟨a, Dict.mem_assign_self _ _ _, ((hless b' hb').le).trans hle⟩
        · exact ⟨b', Dict.mem_assign_of_ne hclass hb', hle⟩
      · obtain rfl := List.mem_singleton.mp hb
        exact ⟨b, Dict.mem_assign_self _ _ _, le_rfl⟩
  unfold Library.keepLeast
  split
  · next hnone =>
    refine hassign fun b hb => ?_
    rw [Dict.lookup_eq_some h.nodup hb] at hnone
    cases hnone
  · next prior hsome =>
    have hprior := Dict.lookup_mem hsome
    split
    · next hlt =>
      refine hassign fun b hb => ?_
      rw [Dict.lookup_eq_some h.nodup hb] at hsome
      exact (Option.some.inj hsome) ▸ hlt
    · next hle =>
      refine ⟨h.nodup, fun e he => ?_, fun b hb => ?_⟩
      · obtain ⟨hmem, hclass⟩ := h.mem e he
        exact ⟨List.mem_append_left _ hmem, hclass⟩
      · rcases List.mem_append.mp hb with hb | hb
        · exact h.least b hb
        · obtain rfl := List.mem_singleton.mp hb
          exact ⟨prior, hprior, not_lt.mp hle⟩

/-- A pass over a list keeps the least element of each class. -/
theorem represents_foldl (l : List α) :
    Represents order class_ l (l.foldl (fun d a => keepLeast order (class_ a) a d) []) := by
  induction l using List.reverseRecOn with
  | nil => exact ⟨List.nodup_nil, by simp, by simp⟩
  | append_singleton l a ih =>
    rw [List.foldl_concat]
    exact ih.keepLeast a

omit [DecidableEq S] in
/-- Different classes have different representatives. -/
theorem Represents.nodup_values (h : Represents order class_ l d) : (d.map Prod.snd).Nodup := by
  have hkeys : d.map Prod.fst = (d.map Prod.snd).map class_ := by
    rw [List.map_map]
    exact List.map_congr_left fun e he => (h.mem e he).2.symm
  exact List.Nodup.of_map class_ (hkeys ▸ h.nodup)

/-- The representative of a class comes first in it. -/
theorem Represents.le (h : Represents order class_ l d) {a b : α} (ha : a ∈ d.map Prod.snd)
    (hb : b ∈ l) (hclass : class_ a = class_ b) : order a ≤ order b := by
  obtain ⟨e, he, rfl⟩ := List.mem_map.mp ha
  obtain ⟨c, hc, hle⟩ := h.least b hb
  have hsame : (class_ b, e.2) ∈ d := by
    rw [← hclass, (h.mem e he).2]
    exact he
  have hlookup := Dict.lookup_eq_some h.nodup hsame
  rw [Dict.lookup_eq_some h.nodup hc] at hlookup
  exact (Option.some.inj hlookup) ▸ hle

end Least

/-! ## Elements under their own keys -/

section

variable [DecidableEq K] {key : α → K}

/-- Each element of a dictionary stands under its own key. -/
def Keyed (key : α → K) (d : List (K × α)) : Prop := ∀ e ∈ d, e.1 = key e.2

theorem keyed_ofPairs (l : List α) : Keyed key (Dict.ofPairs (l.map fun a => (key a, a))) := by
  unfold Dict.ofPairs
  induction l using List.reverseRecOn with
  | nil => intro e he; simp at he
  | append_singleton l a ih =>
    intro e he
    rw [List.map_append, List.map_singleton, List.foldl_concat] at he
    rcases Dict.mem_assign he with rfl | he
    · rfl
    · exact ih e he

theorem Keyed.setDefault {d : List (K × α)} (h : Keyed key d) (a : α) :
    Keyed key (setDefault (key a) a d) := by
  intro e he
  rcases mem_setDefault he with he | rfl
  · exact h e he
  · rfl

theorem Keyed.foldl {d : List (K × α)} (h : Keyed key d) (l : List α) :
    Keyed key (l.foldl (fun d a => Library.setDefault (key a) a d) d) := by
  induction l generalizing d with
  | nil => exact h
  | cons a l ih => exact ih (h.setDefault a)

/-- A default adds its element, unless its key stands for the same element already. -/
theorem Keyed.mem_setDefault (hkey : Function.Injective key) {d : List (K × α)} (h : Keyed key d)
    {a b : α} : b ∈ (Library.setDefault (key a) a d).map Prod.snd ↔ b ∈ d.map Prod.snd ∨ b = a := by
  unfold Library.setDefault
  split
  · next hsome =>
    obtain ⟨c, hc⟩ := Option.isSome_iff_exists.mp hsome
    have hmem := Dict.lookup_mem hc
    obtain rfl := hkey (h _ hmem)
    constructor
    · exact .inl
    · rintro (hb | rfl)
      · exact hb
      · exact List.mem_map_of_mem (f := Prod.snd) hmem
  · simp

theorem Keyed.mem_foldl (hkey : Function.Injective key) {d : List (K × α)} (h : Keyed key d)
    {l : List α} {b : α} :
      b ∈ (l.foldl (fun d a => Library.setDefault (key a) a d) d).map Prod.snd ↔
      b ∈ d.map Prod.snd ∨ b ∈ l := by
  induction l generalizing d with
  | nil => simp
  | cons a l ih =>
    rw [List.foldl_cons, ih (h.setDefault a), h.mem_setDefault hkey, List.mem_cons, or_assoc]

end

end Acfqp.Library
