import Acfqp.Library.Ordered

/-!
# Finite-horizon Bellman recursions

A law assigns to every remaining horizon and state the weighted branches of one step, or
nothing when the process has stopped. The value of a law adds up the immediate gains along
its branches. Bounds that are compatible with one step of the law are bounds on the value:
this is the only induction over the horizon that soundness arguments need.
-/

namespace Acfqp.Library

/-- One weighted branch of a step: its immediate gain and where the process continues. -/
structure Branch (R σ : Type) where
  weight : R
  immediate : R
  next : Option σ

namespace Branch

variable {R σ κ : Type}

/-- The branch reached with probability `q` only. -/
def scale [Mul R] (q : R) (b : Branch R σ) : Branch R σ := ⟨q * b.weight, b.immediate, b.next⟩

/-- The branch that pays its gain instead of earning it. -/
def neg [Neg R] (b : Branch R σ) : Branch R σ := ⟨b.weight, -b.immediate, b.next⟩

/-- The continuation mass that the branch sends to its successor, if it continues. -/
def successor? (b : Branch R σ) : Option (σ × R) := b.next.map fun t => (t, b.weight)

end Branch

variable {R σ : Type} [CommRing R]

/-- The gain of a branch whose continuation is worth `V`. -/
def Branch.gain (V : σ → R) (b : Branch R σ) : R :=
  b.weight * (b.immediate + b.next.elim 0 V)

/-- One Bellman backup of the continuation values `V`. -/
def backup (bs : List (Branch R σ)) (V : σ → R) : R := (bs.map (Branch.gain V)).sum

@[simp] theorem backup_nil (V : σ → R) : backup [] V = 0 := rfl

@[simp] theorem backup_cons (b : Branch R σ) (bs : List (Branch R σ)) (V : σ → R) :
    backup (b :: bs) V = b.gain V + backup bs V := by simp [backup]

theorem backup_append (bs cs : List (Branch R σ)) (V : σ → R) :
    backup (bs ++ cs) V = backup bs V + backup cs V := by simp [backup]

theorem backup_flatten (rows : List (List (Branch R σ))) (V : σ → R) :
    backup rows.flatten V = (rows.map fun bs => backup bs V).sum := by
  induction rows with
  | nil => rfl
  | cons bs rows ih => rw [List.flatten_cons, backup_append, ih, List.map_cons, List.sum_cons]

theorem backup_scale (q : R) (bs : List (Branch R σ)) (V : σ → R) :
    backup (bs.map (Branch.scale q)) V = q * backup bs V := by
  induction bs with
  | nil => simp
  | cons b bs ih =>
    rw [List.map_cons, backup_cons, backup_cons, ih, mul_add]
    simp [Branch.gain, Branch.scale, mul_assoc]

/-- A backup splits into the immediate gain and the continuation of the successor mass. -/
theorem backup_eq (bs : List (Branch R σ)) (V : σ → R) :
    backup bs V = (bs.map fun b => b.weight * b.immediate).sum +
      ((bs.filterMap Branch.successor?).map fun e => e.2 * V e.1).sum := by
  induction bs with
  | nil => simp
  | cons b bs ih =>
    rw [backup_cons, ih]
    cases h : b.next <;> simp [Branch.gain, Branch.successor?, h] <;> ring

theorem backup_congr {bs : List (Branch R σ)} {V W : σ → R}
    (h : ∀ b ∈ bs, ∀ t, b.next = some t → V t = W t) : backup bs V = backup bs W := by
  unfold backup
  congr 1
  refine List.map_congr_left fun b hb => ?_
  cases ht : b.next with
  | none => simp [Branch.gain, ht]
  | some t => simp [Branch.gain, ht, h b hb t ht]

/-- The one-step behaviour at every remaining horizon. -/
abbrev Law (R σ : Type) := ℕ → σ → Option (List (Branch R σ))

/-- The expected gain of a law over a finite horizon. -/
def value (law : Law R σ) : ℕ → σ → R
  | 0, _ => 0
  | n + 1, s => (law (n + 1) s).elim 0 fun bs => backup bs (value law n)

@[simp] theorem value_zero (law : Law R σ) (s : σ) : value law 0 s = 0 := rfl

theorem value_stopped {law : Law R σ} {n : ℕ} {s : σ} (h : law (n + 1) s = none) :
    value law (n + 1) s = 0 := by simp [value, h]

theorem value_step {law : Law R σ} {n : ℕ} {s : σ} {bs : List (Branch R σ)}
    (h : law (n + 1) s = some bs) : value law (n + 1) s = backup bs (value law n) := by
  simp [value, h]

theorem backup_neg (bs : List (Branch R σ)) (V : σ → R) :
    backup (bs.map Branch.neg) (fun s => -V s) = -backup bs V := by
  induction bs with
  | nil => simp
  | cons b bs ih =>
    rw [List.map_cons, backup_cons, backup_cons, ih, neg_add]
    cases h : b.next with
    | none => simp [Branch.gain, Branch.neg, h]
    | some t =>
      simp [Branch.gain, Branch.neg, h]
      ring

theorem value_neg (law : Law R σ) (n : ℕ) :
    value (fun n s => (law n s).map (List.map Branch.neg)) n = fun s => -value law n s := by
  induction n with
  | zero => simp [funext_iff]
  | succ n ih =>
    funext s
    rw [value, value, ih]
    cases law (n + 1) s with
    | none => simp
    | some bs => exact backup_neg bs _

variable [LinearOrder R] [IsStrictOrderedRing R]

theorem backup_mono {bs : List (Branch R σ)} {V W : σ → R} (hw : ∀ b ∈ bs, 0 ≤ b.weight)
    (h : ∀ b ∈ bs, ∀ t, b.next = some t → V t ≤ W t) : backup bs V ≤ backup bs W := by
  refine List.sum_le_sum fun b hb => mul_le_mul_of_nonneg_left ?_ (hw b hb)
  cases ht : b.next with
  | none => simp
  | some t => simpa using h b hb t ht

/-- A family of lower bounds that one step of the law respects. Only the covered
state-time pairs matter, and a covered pair continues into covered pairs. -/
structure Subsolution (law : Law R σ) (cover : ℕ → σ → Prop) (L : ℕ → σ → R) : Prop where
  zero : ∀ s, cover 0 s → L 0 s ≤ 0
  stopped : ∀ n s, cover (n + 1) s → law (n + 1) s = none → L (n + 1) s ≤ 0
  weight_nonneg : ∀ n s bs, cover (n + 1) s → law (n + 1) s = some bs → ∀ b ∈ bs, 0 ≤ b.weight
  closed : ∀ n s bs, cover (n + 1) s → law (n + 1) s = some bs →
    ∀ b ∈ bs, ∀ t, b.next = some t → cover n t
  step : ∀ n s bs, cover (n + 1) s → law (n + 1) s = some bs → L (n + 1) s ≤ backup bs (L n)

theorem Subsolution.le_value {law : Law R σ} {cover : ℕ → σ → Prop} {L : ℕ → σ → R}
    (h : Subsolution law cover L) : ∀ n s, cover n s → L n s ≤ value law n s := by
  intro n
  induction n with
  | zero => exact h.zero
  | succ n ih =>
    intro s hs
    cases hl : law (n + 1) s with
    | none => rw [value_stopped hl]; exact h.stopped n s hs hl
    | some bs =>
      rw [value_step hl]
      exact (h.step n s bs hs hl).trans (backup_mono (h.weight_nonneg n s bs hs hl)
        fun b hb t ht => ih t (h.closed n s bs hs hl b hb t ht))

/-- The dual family: upper bounds that one step of the law respects. -/
structure Supersolution (law : Law R σ) (cover : ℕ → σ → Prop) (U : ℕ → σ → R) : Prop where
  zero : ∀ s, cover 0 s → 0 ≤ U 0 s
  stopped : ∀ n s, cover (n + 1) s → law (n + 1) s = none → 0 ≤ U (n + 1) s
  weight_nonneg : ∀ n s bs, cover (n + 1) s → law (n + 1) s = some bs → ∀ b ∈ bs, 0 ≤ b.weight
  closed : ∀ n s bs, cover (n + 1) s → law (n + 1) s = some bs →
    ∀ b ∈ bs, ∀ t, b.next = some t → cover n t
  step : ∀ n s bs, cover (n + 1) s → law (n + 1) s = some bs → backup bs (U n) ≤ U (n + 1) s

theorem Supersolution.value_le {law : Law R σ} {cover : ℕ → σ → Prop} {U : ℕ → σ → R}
    (h : Supersolution law cover U) : ∀ n s, cover n s → value law n s ≤ U n s := by
  intro n
  induction n with
  | zero => exact h.zero
  | succ n ih =>
    intro s hs
    cases hl : law (n + 1) s with
    | none => rw [value_stopped hl]; exact h.stopped n s hs hl
    | some bs =>
      rw [value_step hl]
      exact (backup_mono (h.weight_nonneg n s bs hs hl)
        fun b hb t ht => ih t (h.closed n s bs hs hl b hb t ht)).trans (h.step n s bs hs hl)

end Acfqp.Library
