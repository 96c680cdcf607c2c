import Mathlib

/-!
# Prefix-free codes

A code is prefix free when a text that starts with a code word has one reading: the word's value
and what follows it are both determined. Texts that are put together from such words are read back
word by word.
-/

namespace Acfqp.Library

variable {α β κ : Type}

/-- A text that starts with a code word determines its value and the rest. -/
def PrefixFree (code : α → List κ) : Prop :=
  ∀ a b s t, code a ++ s = code b ++ t → a = b ∧ s = t

namespace PrefixFree

theorem injective {code : α → List κ} (h : PrefixFree code) : Function.Injective code := by
  intro a b heq
  exact (h a b [] [] (by rw [heq])).1

/-- A code that a reader inverts, whatever follows the word. -/
theorem of_reader {code : α → List κ} (read : List κ → Option (α × List κ))
    (hread : ∀ a s, read (code a ++ s) = some (a, s)) : PrefixFree code := by
  intro a b s t heq
  have hsome := hread a s
  rw [heq, hread b t] at hsome
  cases hsome
  exact ⟨rfl, rfl⟩

theorem comap {code : α → List κ} (h : PrefixFree code) {f : β → α} (hf : Function.Injective f) :
    PrefixFree fun b => code (f b) := by
  intro a b s t heq
  obtain ⟨hab, rfl⟩ := h _ _ _ _ heq
  exact ⟨hf hab, rfl⟩

/-- One word after another. -/
theorem append {code : α → List κ} {code' : β → List κ} (h : PrefixFree code)
    (h' : PrefixFree code') : PrefixFree fun p : α × β => code p.1 ++ code' p.2 := by
  rintro ⟨a, b⟩ ⟨a', b'⟩ s t heq
  simp only [List.append_assoc] at heq
  obtain ⟨rfl, hrest⟩ := h _ _ _ _ heq
  obtain ⟨rfl, rfl⟩ := h' _ _ _ _ hrest
  exact ⟨rfl, rfl⟩

theorem append_left (w : List κ) {code : α → List κ} (h : PrefixFree code) :
    PrefixFree fun a => w ++ code a := by
  intro a b s t heq
  simp only [List.append_assoc] at heq
  exact h a b s t (List.append_cancel_left heq)

theorem append_right {code : α → List κ} (h : PrefixFree code) (w : List κ) :
    PrefixFree fun a => code a ++ w := by
  intro a b s t heq
  simp only [List.append_assoc] at heq
  obtain ⟨rfl, hrest⟩ := h _ _ _ _ heq
  exact ⟨rfl, List.append_cancel_left hrest⟩

/-- Words of one kind of symbol, ended by a symbol of another kind. -/
theorem of_stop {code : α → List κ} (hcode : Function.Injective code) (kind : κ → Bool) {stop : κ}
    (hkind : ∀ a, ∀ c ∈ code a, kind c = true) (hstop : kind stop = false) :
    PrefixFree fun a => code a ++ [stop] := by
  have hread : ∀ a s, (code a ++ [stop] ++ s).takeWhile kind = code a := by
    intro a s
    rw [List.append_assoc, List.takeWhile_append_of_pos (hkind a)]
    simp [hstop]
  intro a b s t heq
  obtain rfl : a = b := hcode (by rw [← hread a s, heq, hread b t])
  exact ⟨rfl, List.append_cancel_left heq⟩

/-- Any number of words, ended by a symbol that starts no word. -/
theorem flatMap_stop {code : α → List κ} (h : PrefixFree code) {stop : κ}
    (hstop : ∀ a s t, code a ++ s ≠ stop :: t) :
    PrefixFree fun l : List α => l.flatMap code ++ [stop] := by
  intro l
  induction l with
  | nil =>
    rintro (- | ⟨b, m⟩) s t heq
    · simpa using heq
    · simp only [List.flatMap_cons, List.append_assoc] at heq
      exact absurd heq.symm (hstop _ _ _)
  | cons a l ih =>
    rintro (- | ⟨b, m⟩) s t heq
    · simp only [List.flatMap_cons, List.append_assoc] at heq
      exact absurd heq (hstop _ _ _)
    · simp only [List.flatMap_cons, List.append_assoc] at heq
      obtain ⟨rfl, hrest⟩ := h _ _ _ _ heq
      obtain ⟨rfl, rfl⟩ := ih m s t (by simpa using hrest)
      exact ⟨rfl, rfl⟩

end PrefixFree

end Acfqp.Library
