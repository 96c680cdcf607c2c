import Acfqp.Core
import Acfqp.Library.PrefixFree

/-!
# Printed forms are unambiguous

Sorting by printed form fixes an order only where different values print differently. Numbers,
fractions, texts, pairs and tuples do, and a printed value is read back from any text that starts
with it.
-/

namespace Acfqp

open Library

def printed {α : Type} [PyRepr α] (a : α) : List Char := (pyRepr a).toList

/-- Whatever follows it, a printed value is read back. -/
def Unambiguous (α : Type) [PyRepr α] : Prop := PrefixFree (printed : α → List Char)

theorem toList_toString (s : String) : (toString s).toList = s.toList := rfl

theorem Unambiguous.injective {α : Type} [PyRepr α] (h : Unambiguous α) :
    Function.Injective (pyRepr : α → String) := by
  intro a b heq
  apply PrefixFree.injective h
  rw [printed, heq, printed]

/-! ## Numbers -/

theorem toDigits_injective : Function.Injective (Nat.toDigits 10) := by
  intro m n h
  rw [← @Nat.ofDigitChars_ten_toDigits m, h, Nat.ofDigitChars_ten_toDigits]

theorem isDigit_of_mem_toDigits {n : ℕ} {c : Char} (hc : c ∈ Nat.toDigits 10 n) :
    c.isDigit = true :=
  Nat.isDigit_of_mem_toDigits (by omega) le_rfl hc

def intChars : ℤ → List Char
  | .ofNat n => Nat.toDigits 10 n
  | .negSucc n => '-' :: Nat.toDigits 10 (n + 1)

theorem toList_repr_int (n : ℤ) : n.repr.toList = intChars n := by
  cases n with
  | ofNat n => exact Nat.toList_repr
  | negSucc n => simp [intChars, Int.repr]

theorem intChars_injective : Function.Injective intChars := by
  have hsign : ∀ m n : ℕ, intChars (.ofNat m) ≠ intChars (.negSucc n) := by
    intro m n h
    have hdigit := @isDigit_of_mem_toDigits m '-' (by
      change '-' ∈ intChars (.ofNat m)
      rw [h]
      exact List.mem_cons_self)
    revert hdigit
    decide
  intro m n h
  cases m with
  | ofNat m =>
    cases n with
    | ofNat n => exact congrArg Int.ofNat (toDigits_injective h)
    | negSucc n => exact absurd h (hsign m n)
  | negSucc m =>
    cases n with
    | ofNat n => exact absurd h.symm (hsign n m)
    | negSucc n =>
      have hsucc := toDigits_injective (List.cons.inj h).2
      exact congrArg Int.negSucc (by omega)

/-- A character of a number. -/
def isNumeral (c : Char) : Bool := c.isDigit || c = '-'

theorem isNumeral_of_mem_intChars (n : ℤ) : ∀ c ∈ intChars n, isNumeral c = true := by
  intro c hc
  cases n with
  | ofNat n => simp [isNumeral, isDigit_of_mem_toDigits hc]
  | negSucc n =>
    rcases List.mem_cons.mp hc with rfl | hc
    · rfl
    · simp [isNumeral, isDigit_of_mem_toDigits hc]

theorem prefixFree_nat (stop : Char) (hstop : stop.isDigit = false) :
    PrefixFree fun n : ℕ => Nat.toDigits 10 n ++ [stop] :=
  .of_stop toDigits_injective Char.isDigit (fun _ _ hc => isDigit_of_mem_toDigits hc) hstop

theorem prefixFree_int (stop : Char) (hstop : isNumeral stop = false) :
    PrefixFree fun n : ℤ => intChars n ++ [stop] :=
  .of_stop intChars_injective isNumeral isNumeral_of_mem_intChars hstop

theorem unambiguous_rat : Unambiguous ℚ := by
  have hinj : Function.Injective fun q : ℚ => (q.num, q.den) := by
    intro p q h
    exact Rat.ext (congrArg Prod.fst h) (congrArg Prod.snd h)
  have hcode := (((prefixFree_int ',' (by decide)).append
    ((prefixFree_nat ')' (by decide)).append_left [' '])).comap hinj).append_left
      "Fraction(".toList
  have hprinted : (printed : ℚ → List Char) = fun q => "Fraction(".toList ++
      (intChars q.num ++ [','] ++ ([' '] ++ (Nat.toDigits 10 q.den ++ [')']))) := by
    funext q
    simp [printed, pyRepr, PyRepr.repr, toList_toString, toList_repr_int]
  rw [Unambiguous, hprinted]
  exact hcode

/-! ## Texts -/

def hexValue (c : Char) : ℕ := if c.isDigit then c.toNat - 48 else c.toNat - 87

theorem hexValue_digitChar : ∀ n < 16, hexValue n.digitChar = n := by decide

def readEscaped : List Char → Option (Char × List Char)
  | '\\' :: 't' :: s => some ('\t', s)
  | '\\' :: 'n' :: s => some ('\n', s)
  | '\\' :: 'r' :: s => some ('\r', s)
  | '\\' :: 'x' :: high :: low :: s => some (Char.ofNat (16 * hexValue high + hexValue low), s)
  | '\\' :: c :: s => some (c, s)
  | c :: s => some (c, s)
  | [] => none

theorem stringQuote_cases (text : List Char) :
    stringQuote text = '\x22' ∨ stringQuote text = '\x27' := by
  unfold stringQuote
  split <;> simp

theorem readEscaped_escapeChar {quote : Char} (hquote : quote = '\x22' ∨ quote = '\x27') (c : Char)
    (s : List Char) : readEscaped (escapeChar quote c ++ s) = some (c, s) := by
  unfold escapeChar
  split_ifs with hplain htab hline hreturn hhex
  · obtain rfl | rfl := hplain
    · rcases hquote with rfl | rfl <;> rfl
    · rfl
  · rw [htab]
    rfl
  · rw [hline]
    rfl
  · rw [hreturn]
    rfl
  · have hc : Char.ofNat (16 * (c.toNat / 16) + c.toNat % 16) = c := by
      rw [Nat.div_add_mod, Char.ofNat_toNat]
    have hhigh := hexValue_digitChar (c.toNat / 16) (by omega)
    have hlow := hexValue_digitChar (c.toNat % 16) (by omega)
    simp [readEscaped, hhigh, hlow, hc]
  · have hne : c ≠ '\\' := fun hc => hplain (.inr hc)
    simp [readEscaped, hne]

theorem prefixFree_escapeChar {quote : Char} (hquote : quote = '\x22' ∨ quote = '\x27') :
    PrefixFree (escapeChar quote) :=
  .of_reader readEscaped (readEscaped_escapeChar hquote)

theorem escapeChar_ne_quote {quote : Char} (hquote : quote = '\x22' ∨ quote = '\x27') (c : Char)
    (s t : List Char) : escapeChar quote c ++ s ≠ quote :: t := by
  have hslash : quote ≠ '\\' := by
    rcases hquote with rfl | rfl <;> decide
  unfold escapeChar
  split_ifs with hplain <;> simp_all [eq_comm]

theorem unambiguous_string : Unambiguous String := by
  have hprinted : ∀ a : String, printed a = stringQuote a.toList ::
      (a.toList.flatMap (escapeChar (stringQuote a.toList)) ++ [stringQuote a.toList]) := by
    intro a
    simp [printed, pyRepr, PyRepr.repr]
  intro a b s t heq
  rw [hprinted, hprinted] at heq
  obtain ⟨hquote, hbody⟩ := List.cons.inj heq
  rw [← hquote] at hbody
  have hcode := (prefixFree_escapeChar (stringQuote_cases a.toList)).flatMap_stop
    (escapeChar_ne_quote (stringQuote_cases a.toList))
  obtain ⟨hab, rfl⟩ := hcode _ _ _ _ hbody
  exact ⟨String.toList_injective hab, rfl⟩

/-! ## Pairs and tuples -/

theorem Unambiguous.prod {α β : Type} [PyRepr α] [PyRepr β] (h : Unambiguous α)
    (h' : Unambiguous β) : Unambiguous (α × β) := by
  have hcode := ((h.append (h'.append_left ", ".toList)).append_left ['(']).append_right [')']
  have hprinted : (printed : α × β → List Char) = fun p =>
      ['('] ++ (printed p.1 ++ (", ".toList ++ printed p.2)) ++ [')'] := by
    funext p
    simp [printed, pyRepr, PyRepr.repr, toList_toString]
  rw [Unambiguous, hprinted]
  exact hcode

def tupleChars {α : Type} [PyRepr α] : List α → List Char
  | [] => [')']
  | [a] => printed a ++ [',', ')']
  | a :: b :: l => printed a ++ (", ".toList ++ printed b ++
      (l.flatMap (fun c => ", ".toList ++ printed c) ++ [')']))

theorem intercalate_cons {α : Type} (separator a : List α) (l : List (List α)) :
    separator.intercalate (a :: l) = a ++ l.flatMap (separator ++ ·) := by
  induction l generalizing a with
  | nil => simp
  | cons b l ih => simp [List.intercalate_cons_cons, ih]

theorem printed_list {α : Type} [PyRepr α] (l : List α) : printed l = '(' :: tupleChars l := by
  rcases l with - | ⟨a, - | ⟨b, l⟩⟩
  · simp [printed, pyRepr, PyRepr.repr, tupleChars]
  · simp [printed, pyRepr, PyRepr.repr, tupleChars]
  · simp [printed, pyRepr, PyRepr.repr, tupleChars, intercalate_cons, List.flatMap_map]

theorem Unambiguous.list {α : Type} [PyRepr α] (h : Unambiguous α)
    (hopen : ∀ (a : α) s t, printed a ++ s ≠ ')' :: t) : Unambiguous (List α) := by
  have hrest : PrefixFree fun l : List α =>
      l.flatMap (fun c => ", ".toList ++ printed c) ++ [')'] :=
    (h.append_left ", ".toList).flatMap_stop (by simp)
  have htuple : PrefixFree (tupleChars : List α → List Char) := by
    intro l m s t heq
    rcases l with - | ⟨a, - | ⟨a', l⟩⟩ <;> rcases m with - | ⟨b, - | ⟨b', m⟩⟩ <;>
      simp only [tupleChars, List.append_assoc] at heq
    · exact ⟨rfl, List.append_cancel_left heq⟩
    · exact absurd heq.symm (hopen b _ _)
    · exact absurd heq.symm (hopen b _ _)
    · exact absurd heq (hopen a _ _)
    · obtain ⟨rfl, hrest⟩ := h _ _ _ _ heq
      exact ⟨rfl, List.append_cancel_left hrest⟩
    · obtain ⟨-, hrest⟩ := h _ _ _ _ heq
      simp at hrest
    · exact absurd heq (hopen a _ _)
    · obtain ⟨-, hrest⟩ := h _ _ _ _ heq
      simp at hrest
    · obtain ⟨rfl, hsecond⟩ := h _ _ _ _ heq
      obtain ⟨rfl, htail⟩ := h _ _ _ _ (List.append_cancel_left hsecond)
      obtain ⟨rfl, rfl⟩ := hrest l m s t (by simpa using htail)
      exact ⟨rfl, rfl⟩
  have hprinted : (printed : List α → List Char) = fun l => ['('] ++ tupleChars l :=
    funext printed_list
  rw [Unambiguous, hprinted]
  exact htuple.append_left ['(']

end Acfqp
