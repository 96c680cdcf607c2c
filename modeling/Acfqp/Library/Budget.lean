import Mathlib.Algebra.BigOperators.Group.List.Basic
import Mathlib.Data.List.Nodup
import Mathlib.Logic.Relation
import Mathlib.Tactic.Ring

/-!
# Budgets

A budget admits the uses of its accounts before they happen, each with an upper bound. A use is
outstanding until it is charged, once and for all. Nothing is admitted that could exceed the cap of
an account, so that only a charge above its own upper bound can.
-/

namespace Acfqp.Library

/-- A use of an account, with what was charged for it. -/
structure Admitted (τ κ : Type) where
  token : τ
  account : κ
  upper : ℕ
  charge : Option ℕ

namespace Admitted

variable {τ κ : Type} (a : Admitted τ κ)

def outstanding : ℕ := a.charge.elim a.upper fun _ => 0

def charged : ℕ := a.charge.getD 0

/-- What was charged above the upper bound. -/
def excess : ℕ := a.charge.getD 0 - a.upper

def settled (c : ℕ) : Admitted τ κ := { a with charge := some c }

/-- A use at a later time, whose charge is final. -/
def Later (a b : Admitted τ κ) : Prop :=
  b.token = a.token ∧ b.account = a.account ∧ b.upper = a.upper ∧ (a.charge ≠ none → b = a)

theorem Later.refl : Later a a := ⟨rfl, rfl, rfl, fun _ => rfl⟩

theorem Later.trans {a b c : Admitted τ κ} (h : Later a b) (h' : Later b c) : Later a c := by
  obtain ⟨htoken, haccount, hupper, hfinal⟩ := h
  obtain ⟨htoken', haccount', hupper', hfinal'⟩ := h'
  refine ⟨htoken'.trans htoken, haccount'.trans haccount, hupper'.trans hupper, fun hcharged => ?_⟩
  obtain rfl := hfinal hcharged
  exact hfinal' hcharged

theorem Later.settled (h : a.charge = none) (c : ℕ) : Later a (a.settled c) :=
  ⟨rfl, rfl, rfl, fun hcharged => absurd h hcharged⟩

end Admitted

abbrev Budget (τ κ : Type) := List (Admitted τ κ)

namespace Budget

variable {τ κ : Type}

section Totals

variable [DecidableEq κ]

/-- The total of an account. -/
def sumOn (f : Admitted τ κ → ℕ) (b : Budget τ κ) (k : κ) : ℕ :=
  (b.map fun a => if a.account = k then f a else 0).sum

@[simp] theorem sumOn_nil (f : Admitted τ κ → ℕ) (k : κ) : sumOn f [] k = 0 := rfl

@[simp] theorem sumOn_cons (f : Admitted τ κ → ℕ) (a : Admitted τ κ) (b : Budget τ κ) (k : κ) :
    sumOn f (a :: b) k = (if a.account = k then f a else 0) + sumOn f b k := by
  simp [sumOn]

@[simp] theorem sumOn_append (f : Admitted τ κ → ℕ) (b b' : Budget τ κ) (k : κ) :
    sumOn f (b ++ b') k = sumOn f b k + sumOn f b' k := by
  simp [sumOn]

theorem le_sumOn {f : Admitted τ κ → ℕ} {b : Budget τ κ} {a : Admitted τ κ} (h : a ∈ b) :
    f a ≤ sumOn f b a.account := by
  obtain ⟨l, r, rfl⟩ := List.append_of_mem h
  simp only [sumOn_append, sumOn_cons, if_true]
  omega

def outstanding (b : Budget τ κ) (k : κ) : ℕ := sumOn Admitted.outstanding b k

def charged (b : Budget τ κ) (k : κ) : ℕ := sumOn Admitted.charged b k

def excess (b : Budget τ κ) (k : κ) : ℕ := sumOn Admitted.excess b k

end Totals

section Settle

variable [DecidableEq τ]

/-- The use of a token is charged. -/
def settle (t : τ) (c : ℕ) (b : Budget τ κ) : Budget τ κ :=
  b.map fun a => if a.token = t then a.settled c else a

variable {b : Budget τ κ} {a : Admitted τ κ}

theorem settle_of_notMem {t : τ} (h : t ∉ b.map Admitted.token) (c : ℕ) : b.settle t c = b := by
  refine (List.map_congr_left fun a ha => if_neg fun htoken => ?_).trans (List.map_id b)
  exact h (htoken ▸ List.mem_map_of_mem ha)

/-- Only the use of the token changes. -/
theorem exists_settle (hnodup : (b.map Admitted.token).Nodup) (h : a ∈ b) :
    ∃ l r, b = l ++ a :: r ∧ ∀ c, b.settle a.token c = l ++ a.settled c :: r := by
  obtain ⟨l, r, rfl⟩ := List.append_of_mem h
  rw [List.map_append, List.map_cons, List.nodup_append, List.nodup_cons] at hnodup
  obtain ⟨-, ⟨hright, -⟩, hleft⟩ := hnodup
  refine ⟨l, r, rfl, fun c => ?_⟩
  have hl := settle_of_notMem (fun hmem => hleft _ hmem _ List.mem_cons_self rfl) c
  have hr := settle_of_notMem hright c
  unfold settle at hl hr ⊢
  rw [List.map_append, List.map_cons, hl, hr, if_pos rfl]

@[simp] theorem map_token_settle (t : τ) (c : ℕ) (b : Budget τ κ) :
    (b.settle t c).map Admitted.token = b.map Admitted.token := by
  rw [settle, List.map_map]
  refine List.map_congr_left fun a _ => ?_
  simp only [Function.comp_apply]
  split <;> rfl

theorem mem_settle {t : τ} {c : ℕ} {a' : Admitted τ κ} (h : a' ∈ b.settle t c) :
    (a' ∈ b ∧ a'.token ≠ t) ∨ ∃ a ∈ b, a.token = t ∧ a' = a.settled c := by
  obtain ⟨a, ha, rfl⟩ := List.mem_map.mp h
  by_cases htoken : a.token = t
  · exact .inr ⟨a, ha, htoken, if_pos htoken⟩
  · rw [if_neg htoken]
    exact .inl ⟨ha, htoken⟩

variable [DecidableEq κ] (hnodup : (b.map Admitted.token).Nodup) (h : a ∈ b)
include hnodup h

theorem sumOn_settle (f : Admitted τ κ → ℕ) (c : ℕ) (k : κ) :
    sumOn f (b.settle a.token c) k + (if a.account = k then f a else 0) =
      sumOn f b k + (if a.account = k then f (a.settled c) else 0) := by
  obtain ⟨l, r, heq, hsettle⟩ := exists_settle hnodup h
  rw [hsettle, heq]
  simp only [sumOn_append, sumOn_cons, Admitted.settled]
  omega

variable (hopen : a.charge = none) (c : ℕ) (k : κ)
include hopen

theorem outstanding_settle : (b.settle a.token c).outstanding k +
    (if a.account = k then a.upper else 0) = b.outstanding k := by
  have hsum := sumOn_settle hnodup h Admitted.outstanding c k
  have hbefore : a.outstanding = a.upper := by rw [Admitted.outstanding, hopen]; rfl
  have hafter : (a.settled c).outstanding = 0 := rfl
  rw [hbefore, hafter, ite_self, Nat.add_zero] at hsum
  exact hsum

theorem charged_settle : (b.settle a.token c).charged k =
    b.charged k + (if a.account = k then c else 0) := by
  have hsum := sumOn_settle hnodup h Admitted.charged c k
  have hbefore : a.charged = 0 := by rw [Admitted.charged, hopen]; rfl
  have hafter : (a.settled c).charged = c := rfl
  rw [hbefore, hafter, ite_self, Nat.add_zero] at hsum
  exact hsum

theorem excess_settle : (b.settle a.token c).excess k =
    b.excess k + (if a.account = k then c - a.upper else 0) := by
  have hsum := sumOn_settle hnodup h Admitted.excess c k
  have hbefore : a.excess = 0 := by rw [Admitted.excess, hopen]; exact Nat.zero_sub _
  have hafter : (a.settled c).excess = c - a.upper := rfl
  rw [hbefore, hafter, ite_self, Nat.add_zero] at hsum
  exact hsum

end Settle

/-! ## Runs of a budget -/

/-- The uses of a budget go on in their places, and new ones may follow. -/
def Continues (b b' : Budget τ κ) : Prop :=
  ∀ (n : ℕ) (a : Admitted τ κ), b[n]? = some a → ∃ a', b'[n]? = some a' ∧ a.Later a'

theorem Continues.refl (b : Budget τ κ) : Continues b b :=
  fun _ a h => ⟨a, h, Admitted.Later.refl a⟩

theorem Continues.trans {b b' b'' : Budget τ κ} (h : Continues b b') (h' : Continues b' b'') :
    Continues b b'' := by
  intro n a hn
  obtain ⟨a', hn', hlater⟩ := h n a hn
  obtain ⟨a'', hn'', hlater'⟩ := h' n a' hn'
  exact ⟨a'', hn'', hlater.trans hlater'⟩

theorem Continues.append (b : Budget τ κ) (a : Admitted τ κ) : Continues b (b ++ [a]) := by
  intro n a' hn
  obtain ⟨hlt, -⟩ := List.getElem?_eq_some_iff.mp hn
  exact ⟨a', by rw [List.getElem?_append_left hlt, hn], Admitted.Later.refl a'⟩

/-- A use that was charged stays as it is. -/
theorem Continues.mem_of_charged {b b' : Budget τ κ} (h : Continues b b') {a : Admitted τ κ}
    (ha : a ∈ b) (hcharged : a.charge ≠ none) : a ∈ b' := by
  obtain ⟨n, hn⟩ := List.getElem?_of_mem ha
  obtain ⟨a', hn', -, -, -, hfinal⟩ := h n a hn
  obtain rfl := hfinal hcharged
  exact List.mem_of_getElem? hn'

/-- Once everything is charged and nothing is admitted, a budget is final. -/
theorem Continues.eq_of_charged {b b' : Budget τ κ} (h : Continues b b')
    (hcharged : ∀ a ∈ b, a.charge ≠ none) (hlength : b'.length = b.length) : b' = b := by
  refine List.ext_getElem? fun n => ?_
  cases hn : b[n]? with
  | none =>
    rw [List.getElem?_eq_none_iff] at hn ⊢
    omega
  | some a =>
    obtain ⟨a', hn', -, -, -, hfinal⟩ := h n a hn
    rw [hn', hfinal (hcharged a (List.mem_of_getElem? hn))]

variable [DecidableEq κ] (cap : κ → ℕ)

/-- What fits under the cap is admitted, and what is outstanding is charged, with any amount. -/
inductive Step [DecidableEq τ] : Budget τ κ → Budget τ κ → Prop
  | reserve {b : Budget τ κ} {a : Admitted τ κ} (hfresh : a.token ∉ b.map Admitted.token)
      (hopen : a.charge = none)
      (hcap : b.charged a.account + b.outstanding a.account + a.upper ≤ cap a.account) :
      Step b (b ++ [a])
  | settle {b : Budget τ κ} {a : Admitted τ κ} (h : a ∈ b) (hopen : a.charge = none) (c : ℕ) :
      Step b (b.settle a.token c)

/-- Every use has its own token, and an account exceeds its cap only by what was charged above the
upper bounds. -/
structure Within (b : Budget τ κ) : Prop where
  nodup : (b.map Admitted.token).Nodup
  within : ∀ k, b.charged k + b.outstanding k ≤ cap k + b.excess k

theorem within_nil : Within cap ([] : Budget τ κ) :=
  ⟨List.nodup_nil, fun _ => Nat.zero_le _⟩

variable {cap} [DecidableEq τ] {b b' : Budget τ κ}

theorem Step.within (hstep : Step cap b b') (h : Within cap b) : Within cap b' := by
  cases hstep with
  | @reserve a hfresh hopen hcap =>
    refine ⟨?_, fun k => ?_⟩
    · rw [List.map_append]
      exact h.nodup.append (List.nodup_singleton _) (by simpa using hfresh)
    · have hk := h.within k
      have hcharged : a.charged = 0 := by rw [Admitted.charged, hopen]; rfl
      have hout : a.outstanding = a.upper := by rw [Admitted.outstanding, hopen]; rfl
      have hexcess : a.excess = 0 := by rw [Admitted.excess, hopen]; exact Nat.zero_sub _
      simp only [charged, outstanding, excess] at hk hcap ⊢
      simp only [sumOn_append, sumOn_cons, sumOn_nil, hcharged, hout, hexcess]
      by_cases haccount : a.account = k
      · subst haccount
        simp only [if_true]
        omega
      · simp only [if_neg haccount]
        omega
  | @settle a hmem hopen c =>
    refine ⟨by rw [map_token_settle]; exact h.nodup, fun k => ?_⟩
    have hk := h.within k
    have hout := outstanding_settle h.nodup hmem hopen c k
    have hcharged := charged_settle h.nodup hmem hopen c k
    have hexcess := excess_settle h.nodup hmem hopen c k
    by_cases haccount : a.account = k
    · simp only [if_pos haccount] at hout hcharged hexcess
      omega
    · simp only [if_neg haccount] at hout hcharged hexcess
      omega

theorem Step.continues (hstep : Step cap b b') (h : Within cap b) : Continues b b' := by
  cases hstep with
  | reserve hfresh hopen hcap => exact .append b _
  | @settle a₀ hmem hopen c =>
    intro n a hn
    refine ⟨if a.token = a₀.token then a.settled c else a, ?_, ?_⟩
    · rw [Budget.settle, List.getElem?_map, hn, Option.map_some]
    · by_cases htoken : a.token = a₀.token
      · rw [if_pos htoken]
        obtain rfl := List.inj_on_of_nodup_map h.nodup (List.mem_of_getElem? hn) hmem htoken
        exact Admitted.Later.settled a hopen c
      · rw [if_neg htoken]
        exact Admitted.Later.refl a

end Budget

end Acfqp.Library
