import Acfqp.Library.Checked

/-!
# Loops that are judged by what they have read

A loop over a list keeps a statement about the elements read so far. When it raises, one
iteration raised, after the elements before it went well.
-/

namespace Acfqp.Library

variable {ε α β : Type} {f : β → α → Except ε β} {b c : β}

/-- A statement about the elements read so far, kept by every iteration, holds of all of them
when the loop returns. -/
theorem foldlM_prefix (P : List α → β → Prop) {l : List α} (hnil : P [] b)
    (hstep : ∀ pre a b b', a ∈ l → P pre b → f b a = .ok b' → P (pre ++ [a]) b')
    (h : l.foldlM f b = .ok c) : P l c := by
  suffices ∀ (rest pre : List α) (b : β), (∀ a ∈ rest, a ∈ l) → P pre b →
      rest.foldlM f b = .ok c → P (pre ++ rest) c by
    simpa using this l [] b (fun _ => id) hnil h
  intro rest
  induction rest with
  | nil =>
    intro pre b _ hb h
    obtain rfl := pure_eq_ok.mp h
    simpa using hb
  | cons a rest ih =>
    intro pre b hl hb h
    obtain ⟨b', hb', h⟩ := bind_eq_ok.mp h
    have hpre := hstep pre a b b' (hl a (by simp)) hb hb'
    simpa using ih (pre ++ [a]) b' (fun x hx => hl x (by simp [hx])) hpre h

/-- A loop returns when every iteration does after a prefix that kept the statement. -/
theorem foldlM_exists (P : List α → β → Prop) {l : List α} (hnil : P [] b)
    (hstep : ∀ pre a post b, l = pre ++ a :: post → P pre b →
      ∃ b', f b a = .ok b' ∧ P (pre ++ [a]) b') : ∃ c, l.foldlM f b = .ok c ∧ P l c := by
  suffices ∀ (rest pre : List α) (b : β), l = pre ++ rest → P pre b →
      ∃ c, rest.foldlM f b = .ok c ∧ P l c from this l [] b rfl hnil
  intro rest
  induction rest with
  | nil =>
    intro pre b hl hb
    exact ⟨b, rfl, by simpa [hl] using hb⟩
  | cons a rest ih =>
    intro pre b hl hb
    obtain ⟨b', hb', hpre⟩ := hstep pre a rest b hl hb
    obtain ⟨c, hc, hP⟩ := ih (pre ++ [a]) b' (by simp [hl]) hpre
    exact ⟨c, bind_eq_ok.mpr ⟨b', hb', hc⟩, hP⟩

/-- A loop that raises does so at one of its iterations. -/
theorem foldlM_eq_error {e : ε} {l : List α} (h : l.foldlM f b = .error e) :
    ∃ pre a post b', l = pre ++ a :: post ∧ pre.foldlM f b = .ok b' ∧ f b' a = .error e := by
  induction l generalizing b with
  | nil => cases h
  | cons a l ih =>
    rw [List.foldlM_cons] at h
    cases hb : f b a with
    | error e' =>
      rw [hb] at h
      cases h
      exact ⟨[], a, l, b, rfl, rfl, hb⟩
    | ok b' =>
      rw [hb] at h
      obtain ⟨pre, x, post, c, rfl, hpre, hx⟩ := ih h
      refine ⟨a :: pre, x, post, c, rfl, ?_, hx⟩
      rw [List.foldlM_cons, hb]
      exact hpre

/-- Judged by what it has read, a loop that raises was sound up to the iteration that raised. -/
theorem foldlM_raised (P : List α → β → Prop) {e : ε} {l : List α} (hnil : P [] b)
    (hstep : ∀ pre a b b', a ∈ l → P pre b → f b a = .ok b' → P (pre ++ [a]) b')
    (h : l.foldlM f b = .error e) :
    ∃ pre a b', a ∈ l ∧ (∀ x ∈ pre, x ∈ l) ∧ P pre b' ∧ f b' a = .error e := by
  obtain ⟨pre, a, post, b', rfl, hpre, ha⟩ := foldlM_eq_error h
  refine ⟨pre, a, b', by simp, fun x hx => by simp [hx], ?_, ha⟩
  exact foldlM_prefix P hnil (fun q x c c' hx => hstep q x c c' (by simp [hx])) hpre

/-- Two loops whose iterations agree on the elements are one loop. -/
theorem foldlM_congr_mem {g : β → α → Except ε β} {l : List α}
    (h : ∀ b, ∀ a ∈ l, f b a = g b a) : l.foldlM f b = l.foldlM g b := by
  induction l generalizing b with
  | nil => rfl
  | cons a l ih =>
    rw [List.foldlM_cons, List.foldlM_cons, h b a (by simp)]
    cases g b a with
    | error e => rfl
    | ok b' => exact ih fun b x hx => h b x (by simp [hx])

/-- A loop over the elements of each group is a loop over all of them. -/
theorem foldlM_flatMap {γ : Type} {next : γ → List α} {l : List γ} :
    l.foldlM (fun b x => (next x).foldlM f b) b = (l.flatMap next).foldlM f b := by
  induction l generalizing b with
  | nil => rfl
  | cons x l ih =>
    rw [List.foldlM_cons, List.flatMap_cons, List.foldlM_append]
    cases (next x).foldlM f b with
    | error e => rfl
    | ok b' => exact ih

/-! ## Two readings of one list -/

theorem mapM_related {γ δ : Type} {R : γ → δ → Prop} {f : α → Except ε γ} {g : α → Except ε δ}
    {l : List α} (h : ∀ a ∈ l, ∃ c d, f a = .ok c ∧ g a = .ok d ∧ R c d) :
    ∃ cs ds, l.mapM f = .ok cs ∧ l.mapM g = .ok ds ∧ List.Forall₂ R cs ds := by
  induction l with
  | nil => exact ⟨[], [], rfl, rfl, .nil⟩
  | cons a l ih =>
    obtain ⟨c, d, hc, hd, hR⟩ := h a (by simp)
    obtain ⟨cs, ds, hcs, hds, hRs⟩ := ih fun x hx => h x (by simp [hx])
    refine ⟨c :: cs, d :: ds, ?_, ?_, .cons hR hRs⟩
    · simp [List.mapM_cons, hc, hcs, bind, Except.bind, pure, Except.pure]
    · simp [List.mapM_cons, hd, hds, bind, Except.bind, pure, Except.pure]

/-- What relates two lists relates every element of the first to one of the second. -/
theorem forall₂_exists_right {γ : Type} {R : α → γ → Prop} {l : List α} {l' : List γ}
    (h : List.Forall₂ R l l') {a : α} (ha : a ∈ l) : ∃ c ∈ l', R a c := by
  induction h with
  | nil => cases ha
  | cons hR _ ih =>
    rcases List.mem_cons.mp ha with rfl | ha
    · exact ⟨_, by simp, hR⟩
    · obtain ⟨c, hc, hac⟩ := ih ha
      exact ⟨c, by simp [hc], hac⟩

theorem filterAuxM_eq_ok {f : α → Except ε Bool} {l acc r : List α}
    (h : l.filterAuxM f acc = .ok r) :
    (∀ a, a ∈ r ↔ a ∈ acc ∨ a ∈ l ∧ f a = .ok true) ∧ ∀ a ∈ l, ∃ b, f a = .ok b := by
  induction l generalizing acc with
  | nil =>
    cases h
    simp
  | cons x l ih =>
    obtain ⟨b, hb, h⟩ := bind_eq_ok.mp h
    obtain ⟨hmem, hreturns⟩ := ih h
    refine ⟨fun a => ?_, List.forall_mem_cons.mpr ⟨⟨b, hb⟩, hreturns⟩⟩
    rw [hmem]
    cases b <;> grind

/-- A filter that returns keeps the elements that it answers with `true`. -/
theorem mem_filterM {f : α → Except ε Bool} {l r : List α} (h : l.filterM f = .ok r) {a : α} :
    a ∈ r ↔ a ∈ l ∧ f a = .ok true := by
  obtain ⟨s, hs, h⟩ := bind_eq_ok.mp h
  rw [← pure_eq_ok.mp h, List.mem_reverse, (filterAuxM_eq_ok hs).1]
  simp

theorem exists_of_filterM {f : α → Except ε Bool} {l r : List α} (h : l.filterM f = .ok r) {a : α}
    (ha : a ∈ l) : ∃ b, f a = .ok b := by
  obtain ⟨s, hs, -⟩ := bind_eq_ok.mp h
  exact (filterAuxM_eq_ok hs).2 a ha

section

variable {κ : Type} [DecidableEq κ] (key : α → κ) (before : α → Except ε Unit) (duplicate : ε)
  (after : α → Except ε Unit)

/-- Check every element, its key being new, after the keys that were seen. -/
def forFresh : List κ → List α → Except ε Unit
  | _, [] => .ok ()
  | seen, a :: rest => do
    before a
    require (key a ∉ seen) duplicate
    after a
    forFresh (key a :: seen) rest

variable {key before duplicate after}

theorem forFresh_eq_ok {seen : List κ} {l : List α} {u : Unit} :
    forFresh key before duplicate after seen l = .ok u ↔
      (∀ a ∈ l, before a = .ok () ∧ after a = .ok () ∧ key a ∉ seen) ∧ (l.map key).Nodup := by
  induction l generalizing seen with
  | nil => simp [forFresh]
  | cons a rest ih =>
    simp only [forFresh, bind_eq_ok, require_eq_ok, ih, List.map_cons, List.nodup_cons,
      List.mem_map, List.mem_cons]
    constructor
    · rintro ⟨⟨⟩, hbefore, ⟨⟩, hfresh, ⟨⟩, hafter, hrest, hnodup⟩
      grind
    · rintro ⟨hall, hnew, hnodup⟩
      obtain ⟨hbefore, hafter, hfresh⟩ := hall a (.inl rfl)
      exact ⟨(), hbefore, (), hfresh, (), hafter, by grind, hnodup⟩

end

end Acfqp.Library
