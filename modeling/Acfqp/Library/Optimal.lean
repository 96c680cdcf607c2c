import Acfqp.Library.Bellman

/-!
# Optimal values and bisimulations

A process offers finitely many actions at every state, each with its branches. The best value is
computed by backward induction: it bounds the value of every law that takes open actions, and the
greedy law attains it. Two processes that a bisimulation relates have the same best values.
-/

namespace Acfqp.Library

variable {R σ κ α β : Type} [CommRing R] [LinearOrder R]

/-- The actions that are open at every state, and the branches of each. Without an open action the
process stops. -/
structure Process (R σ α : Type) where
  options : σ → List α
  branches : σ → α → List (Branch R σ)

namespace Process

/-- The action of the highest backup. -/
def greedy (P : Process R σ α) (V : σ → R) (s : σ) : Option α :=
  (P.options s).argmax fun a => backup (P.branches s a) V

def best (P : Process R σ α) : ℕ → σ → R
  | 0, _ => 0
  | n + 1, s => (P.greedy (best P n) s).elim 0 fun a => backup (P.branches s a) (best P n)

theorem greedy_eq_none {P : Process R σ α} {V : σ → R} {s : σ} :
    P.greedy V s = none ↔ P.options s = [] := List.argmax_eq_none

theorem greedy_mem {P : Process R σ α} {V : σ → R} {s : σ} {a : α} (h : P.greedy V s = some a) :
    a ∈ P.options s := List.argmax_mem h

theorem best_stopped {P : Process R σ α} {n : ℕ} {s : σ} (h : P.options s = []) :
    P.best (n + 1) s = 0 := by
  rw [best, greedy_eq_none.mpr h]
  rfl

theorem best_step {P : Process R σ α} {n : ℕ} {s : σ} {a : α}
    (h : P.greedy (P.best n) s = some a) : P.best (n + 1) s = backup (P.branches s a)
    (P.best n) := by
  rw [best, h]
  rfl

/-- No open action has a higher backup. -/
theorem backup_le_best {P : Process R σ α} {n : ℕ} {s : σ} {a : α} (ha : a ∈ P.options s) :
    backup (P.branches s a) (P.best n) ≤ P.best (n + 1) s := by
  obtain ⟨b, hb⟩ : ∃ b, P.greedy (P.best n) s = some b := by
    refine Option.ne_none_iff_exists'.mp fun hnone => ?_
    rw [greedy_eq_none.mp hnone] at ha
    cases ha
  rw [best_step hb]
  exact List.le_of_mem_argmax ha hb

/-- The best value is attained by an open action. -/
theorem exists_best {P : Process R σ α} {n : ℕ} {s : σ} (h : P.options s ≠ []) :
    ∃ a ∈ P.options s, P.best (n + 1) s = backup (P.branches s a) (P.best n) := by
  obtain ⟨a, ha⟩ := Option.ne_none_iff_exists'.mp (mt (greedy_eq_none (V := P.best n)).mp h)
  exact ⟨a, greedy_mem ha, best_step ha⟩

def greedySelector (P : Process R σ α) : ℕ → σ → Option α
  | 0, _ => none
  | n + 1, s => P.greedy (P.best n) s

/-- Where the law takes an open action at every covered pair, and stops where there is none. -/
structure Obeys (P : Process R σ α) (cover : ℕ → σ → Prop) (law : Law R σ) : Prop where
  stopped : ∀ n s, cover (n + 1) s → law (n + 1) s = none → P.options s = []
  taken : ∀ n s bs, cover (n + 1) s → law (n + 1) s = some bs →
    ∃ a ∈ P.options s, bs = P.branches s a
  closed : ∀ n s bs, cover (n + 1) s → law (n + 1) s = some bs →
    ∀ b ∈ bs, ∀ t, b.next = some t → cover n t

/-- A law that takes the greedy choice is worth the best value. -/
theorem value_eq_best {P : Process R σ α} {law : Law R σ}
    (h : ∀ n s, law (n + 1) s = (P.greedy (P.best n) s).map (P.branches s)) (n : ℕ) :
    value law n = P.best n := by
  induction n with
  | zero => rfl
  | succ n ih =>
    funext s
    rw [value, h, ih, best]
    cases P.greedy (P.best n) s <;> rfl

theorem Obeys.value_le_best [IsStrictOrderedRing R] {P : Process R σ α} {cover : ℕ → σ → Prop}
    {law : Law R σ} (h : P.Obeys cover law)
    (hweight : ∀ s, ∀ a ∈ P.options s, ∀ b ∈ P.branches s a, 0 ≤ b.weight) {n : ℕ} {s : σ}
    (hs : cover n s) : value law n s ≤ P.best n s := by
  have hsuper : Supersolution law cover P.best := by
    constructor
    · exact fun _ _ => le_rfl
    · exact fun n s hs hl => (best_stopped (h.stopped n s hs hl)).ge
    · intro n s bs hs hl
      obtain ⟨a, ha, rfl⟩ := h.taken n s bs hs hl
      exact hweight s a ha
    · exact h.closed
    · intro n s bs hs hl
      obtain ⟨a, ha, rfl⟩ := h.taken n s bs hs hl
      exact backup_le_best ha
  exact hsuper.value_le n s hs

/-- A law that takes greedy actions wherever it is covered is worth the best value there. -/
theorem Obeys.best_le_value [IsStrictOrderedRing R] {P : Process R σ α} {cover : ℕ → σ → Prop}
    {law : Law R σ} (h : P.Obeys cover law)
    (hweight : ∀ s, ∀ a ∈ P.options s, ∀ b ∈ P.branches s a, 0 ≤ b.weight)
    (hgreedy : ∀ n s bs, cover (n + 1) s → law (n + 1) s = some bs →
      ∃ a, P.greedy (P.best n) s = some a ∧ bs = P.branches s a) {n : ℕ} {s : σ}
    (hs : cover n s) : P.best n s ≤ value law n s := by
  have hsub : Subsolution law cover P.best := by
    constructor
    · exact fun _ _ => le_rfl
    · exact fun n s hs hl => (best_stopped (h.stopped n s hs hl)).le
    · intro n s bs hs hl
      obtain ⟨a, ha, rfl⟩ := h.taken n s bs hs hl
      exact hweight s a ha
    · exact h.closed
    · intro n s bs hs hl
      obtain ⟨a, ha, rfl⟩ := hgreedy n s bs hs hl
      exact (best_step ha).le
  exact hsub.le_value n s hs

end Process

/-! ## Bisimulation -/

/-- Related states offer the same backups of the values that agree on related states. -/
structure Bisimulation (P : Process R σ α) (Q : Process R κ β) (rel : ℕ → σ → κ → Prop) : Prop where
  forth : ∀ n s c, rel (n + 1) s c → ∀ a ∈ P.options s, ∃ b ∈ Q.options c, ∀ V W,
    (∀ t d, rel n t d → V t = W d) → backup (P.branches s a) V = backup (Q.branches c b) W
  back : ∀ n s c, rel (n + 1) s c → ∀ b ∈ Q.options c, ∃ a ∈ P.options s, ∀ V W,
    (∀ t d, rel n t d → V t = W d) → backup (P.branches s a) V = backup (Q.branches c b) W

omit [LinearOrder R] in
theorem Bisimulation.symm {P : Process R σ α} {Q : Process R κ β} {rel : ℕ → σ → κ → Prop}
    (h : Bisimulation P Q rel) : Bisimulation Q P fun n c s => rel n s c := by
  constructor
  · intro n c s hs b hb
    obtain ⟨a, ha, heq⟩ := h.back n s c hs b hb
    exact ⟨a, ha, fun W V hWV => (heq V W fun t d ht => (hWV d t ht).symm).symm⟩
  · intro n c s hs a ha
    obtain ⟨b, hb, heq⟩ := h.forth n s c hs a ha
    exact ⟨b, hb, fun W V hWV => (heq V W fun t d ht => (hWV d t ht).symm).symm⟩

/-- The best value of one side, as far as the other side can follow. -/
theorem Bisimulation.best_succ_le {P : Process R σ α} {Q : Process R κ β}
    {rel : ℕ → σ → κ → Prop} (h : Bisimulation P Q rel) {n : ℕ} {s : σ} {c : κ}
    (hs : rel (n + 1) s c) (hbest : ∀ t d, rel n t d → P.best n t = Q.best n d) :
    P.best (n + 1) s ≤ Q.best (n + 1) c := by
  by_cases hnil : P.options s = []
  · have hnil' : Q.options c = [] := by
      by_contra hne
      obtain ⟨b, hb⟩ := List.exists_mem_of_ne_nil _ hne
      obtain ⟨a, ha, -⟩ := h.back n s c hs b hb
      rw [hnil] at ha
      cases ha
    rw [Process.best_stopped hnil, Process.best_stopped hnil']
  · obtain ⟨a, ha, heq⟩ := Process.exists_best (n := n) hnil
    obtain ⟨b, hb, hback⟩ := h.forth n s c hs a ha
    rw [heq, hback _ _ hbest]
    exact Process.backup_le_best hb

/-- Related states have the same best values. -/
theorem Bisimulation.best_eq {P : Process R σ α} {Q : Process R κ β} {rel : ℕ → σ → κ → Prop}
    (h : Bisimulation P Q rel) : ∀ n s c, rel n s c → P.best n s = Q.best n c := by
  intro n
  induction n with
  | zero => exact fun _ _ _ => rfl
  | succ n ih =>
    intro s c hs
    apply le_antisymm
    · exact h.best_succ_le hs ih
    · exact h.symm.best_succ_le hs fun d t ht => (ih t d ht).symm

end Acfqp.Library
