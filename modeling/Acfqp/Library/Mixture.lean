import Mathlib.Algebra.Order.BigOperators.Group.List
import Mathlib.Algebra.Order.Field.Basic
import Mathlib.Algebra.BigOperators.Ring.List

/-!
# Mixtures

A finite law weighs its values, and the mixture of a function over it is the mean. Means are
monotone, and stay within the bounds of what they average.
-/

namespace Acfqp.Library

variable {α R : Type}

section Definitions

variable [Field R]

/-- The mean of a function over a law. -/
def mixture (law : List (α × R)) (f : α → R) : R :=
  (law.map fun e => e.2 * f e.1).sum

/-- The law of one value. -/
def sure (R : Type) [One R] (a : α) : List (α × R) := [(a, 1)]

/-- The law in which the values are equally likely. -/
def uniform (R : Type) [Field R] (l : List α) : List (α × R) := l.map fun a => (a, 1 / l.length)

@[simp] theorem mixture_sure (a : α) (f : α → R) : mixture (sure R a) f = f a := by
  simp [mixture, sure]

theorem mixture_uniform (l : List α) (f : α → R) :
    mixture (uniform R l) f = (l.map f).sum / l.length := by
  have hterms : (uniform R l).map (fun e => e.2 * f e.1) =
      l.map fun a => 1 / (l.length : R) * f a := by
    simp [uniform, Function.comp_def]
  rw [mixture, hterms, List.sum_map_mul_left, one_div, div_eq_inv_mul]

end Definitions

section Ordered

variable [Field R] [LinearOrder R] [IsStrictOrderedRing R]

/-- A law of values that satisfy `support`. -/
structure IsLaw (support : α → Prop) (law : List (α × R)) : Prop where
  support : ∀ e ∈ law, support e.1
  nonneg : ∀ e ∈ law, 0 ≤ e.2
  mass : (law.map Prod.snd).sum = 1

namespace IsLaw

variable {support : α → Prop} {law : List (α × R)} {f g : α → R} {c : R}

omit [IsStrictOrderedRing R] in
theorem mixture_const (h : IsLaw support law) : mixture law (fun _ => c) = c := by
  rw [mixture, List.sum_map_mul_right, h.mass, one_mul]

theorem mixture_mono (h : IsLaw support law) (hfg : ∀ a, support a → f a ≤ g a) :
    mixture law f ≤ mixture law g :=
  List.sum_le_sum fun e he => mul_le_mul_of_nonneg_left (hfg _ (h.support e he)) (h.nonneg e he)

theorem mixture_le (h : IsLaw support law) (hf : ∀ a, support a → f a ≤ c) :
    mixture law f ≤ c :=
  (h.mixture_mono hf).trans h.mixture_const.le

theorem le_mixture (h : IsLaw support law) (hf : ∀ a, support a → c ≤ f a) :
    c ≤ mixture law f :=
  h.mixture_const.ge.trans (h.mixture_mono hf)

end IsLaw

end Ordered

end Acfqp.Library
