import Mathlib

/-!
# Flat JSON objects

Objects of texts and natural numbers in one canonical form: no whitespace, keys in strict order, and
plain texts that need no escape. A reader takes exactly what the printer prints.
-/

namespace Acfqp.Library.FlatJson

/-- A printable character that needs no escape. -/
def isPlain (c : Char) : Bool := 0x20 ≤ c.toNat && c.toNat < 0x7f && c != '\x22' && c != '\\'

inductive Scalar where
  | natural (n : ℕ)
  | text (s : List Char)
  deriving DecidableEq

abbrev Fields := List (List Char × Scalar)

/-! ## Printing -/

def showText (s : List Char) : List Char := '\x22' :: s ++ ['\x22']

def showScalar : Scalar → List Char
  | .natural n => Nat.toDigits 10 n
  | .text s => showText s

def showField (field : List Char × Scalar) : List Char :=
  showText field.1 ++ ':' :: showScalar field.2

def showFields : Fields → List Char
  | [] => ['\x7d']
  | field :: fields => ',' :: showField field ++ showFields fields

def showObject : Fields → List Char
  | [] => ['\x7b', '\x7d']
  | field :: fields => '\x7b' :: showField field ++ showFields fields

/-! ## Reading -/

def readText : List Char → Option (List Char × List Char)
  | '\x22' :: rest =>
    match rest.dropWhile isPlain with
    | '\x22' :: after => some (rest.takeWhile isPlain, after)
    | _ => none
  | _ => none

def readNatural (chars : List Char) : Option (ℕ × List Char) :=
  let digits := chars.takeWhile (·.isDigit)
  if digits = [] then none
  else some (Nat.ofDigitChars 10 digits 0, chars.dropWhile (·.isDigit))

def readScalar (chars : List Char) : Option (Scalar × List Char) :=
  if chars.head? = some '\x22' then
    (readText chars).map fun p => (.text p.1, p.2)
  else (readNatural chars).map fun p => (.natural p.1, p.2)

def readField (chars : List Char) : Option ((List Char × Scalar) × List Char) := do
  let (key, rest) ← readText chars
  match rest with
  | ':' :: rest => (readScalar rest).map fun p => ((key, p.1), p.2)
  | _ => none

/-- The fields after the first one, each behind a comma. -/
def readFields : ℕ → List Char → Option Fields
  | fuel + 1, ',' :: rest => do
    let (field, rest) ← readField rest
    (readFields fuel rest).map (field :: ·)
  | _, ['\x7d'] => some []
  | _, _ => none

/-- Any object of fields, canonical or not. -/
def readAny : List Char → Option Fields
  | ['\x7b', '\x7d'] => some []
  | '\x7b' :: rest => do
    let (field, rest) ← readField rest
    (readFields rest.length rest).map (field :: ·)
  | _ => none

def Ordered (fields : Fields) : Prop := (fields.map Prod.fst).Pairwise (· < ·)

instance (fields : Fields) : Decidable (Ordered fields) :=
  inferInstanceAs (Decidable (List.Pairwise _ _))

def readObject (chars : List Char) : Option Fields :=
  (readAny chars).filter fun fields => Ordered fields ∧ showObject fields = chars

/-! ## Round trip -/

def Scalar.IsPlain : Scalar → Prop
  | .natural _ => True
  | .text s => ∀ c ∈ s, isPlain c = true

def IsPlain (fields : Fields) : Prop :=
  ∀ field ∈ fields, (∀ c ∈ field.1, isPlain c = true) ∧ field.2.IsPlain

/-- What is printed after a value starts with no digit. -/
def Stops (rest : List Char) : Prop := ∀ c ∈ rest.head?, c.isDigit = false

theorem readText_showText {s : List Char} (hs : ∀ c ∈ s, isPlain c = true) (rest : List Char) :
    readText (showText s ++ rest) = some (s, rest) := by
  have hstop : isPlain '\x22' = false := by decide
  have htake : (s ++ '\x22' :: rest).takeWhile isPlain = s := by
    rw [List.takeWhile_append_of_pos hs]
    simp [hstop]
  have hdrop : (s ++ '\x22' :: rest).dropWhile isPlain = '\x22' :: rest := by
    rw [List.dropWhile_append_of_pos hs]
    simp [hstop]
  have hshape : showText s ++ rest = '\x22' :: (s ++ '\x22' :: rest) := by simp [showText]
  rw [hshape, readText]
  simp only [htake, hdrop]

theorem isDigit_of_mem {n : ℕ} : ∀ c ∈ Nat.toDigits 10 n, c.isDigit = true := fun _ hc =>
  Nat.isDigit_of_mem_toDigits (by omega) le_rfl hc

theorem readNatural_show {n : ℕ} {rest : List Char} (hrest : Stops rest) :
    readNatural (Nat.toDigits 10 n ++ rest) = some (n, rest) := by
  have htake : (Nat.toDigits 10 n ++ rest).takeWhile (·.isDigit) = Nat.toDigits 10 n := by
    rw [List.takeWhile_append_of_pos isDigit_of_mem]
    cases rest with
    | nil => simp
    | cons c rest => simp [hrest c rfl]
  have hdrop : (Nat.toDigits 10 n ++ rest).dropWhile (·.isDigit) = rest := by
    rw [List.dropWhile_append_of_pos isDigit_of_mem]
    cases rest with
    | nil => simp
    | cons c rest => simp [hrest c rfl]
  have hne : Nat.toDigits 10 n ≠ [] := List.ne_nil_of_length_pos Nat.length_toDigits_pos
  rw [readNatural]
  simp only [htake, hdrop]
  rw [if_neg hne, Nat.ofDigitChars_ten_toDigits]

theorem readScalar_show {v : Scalar} (hv : v.IsPlain) {rest : List Char} (hrest : Stops rest) :
    readScalar (showScalar v ++ rest) = some (v, rest) := by
  cases v with
  | natural n =>
    have hhead : (Nat.toDigits 10 n ++ rest).head? ≠ some '\x22' := by
      obtain ⟨c, digits, hdigits⟩ := List.exists_cons_of_ne_nil
        (List.ne_nil_of_length_pos (@Nat.length_toDigits_pos 10 n))
      have hc : c.isDigit = true := isDigit_of_mem c (by rw [hdigits]; simp)
      rw [hdigits, List.cons_append, List.head?_cons, ne_eq, Option.some.injEq]
      rintro rfl
      exact absurd hc (by decide)
    rw [showScalar, readScalar, if_neg hhead, readNatural_show hrest]
    rfl
  | text s =>
    have hhead : (showText s ++ rest).head? = some '\x22' := rfl
    rw [showScalar, readScalar, if_pos hhead, readText_showText hv]
    rfl

theorem readField_showField {field : List Char × Scalar}
    (hfield : (∀ c ∈ field.1, isPlain c = true) ∧ field.2.IsPlain) {rest : List Char}
    (hrest : Stops rest) : readField (showField field ++ rest) = some (field, rest) := by
  rw [showField, List.append_assoc, List.cons_append, readField, readText_showText hfield.1]
  simp [readScalar_show hfield.2 hrest]

theorem stops_showFields (fields : Fields) : Stops (showFields fields) := by
  cases fields <;> simp [Stops, showFields]

theorem readFields_showFields {fields : Fields} (hfields : IsPlain fields) {fuel : ℕ}
    (hfuel : fields.length ≤ fuel) : readFields fuel (showFields fields) = some fields := by
  induction fields generalizing fuel with
  | nil => cases fuel <;> rfl
  | cons field fields ih =>
    obtain ⟨fuel, rfl⟩ : ∃ n, fuel = n + 1 := ⟨fuel - 1, by simp at hfuel; omega⟩
    have htail : IsPlain fields := fun f hf => hfields f (List.mem_cons_of_mem _ hf)
    rw [showFields, List.cons_append, readFields,
      readField_showField (hfields field List.mem_cons_self) (stops_showFields fields)]
    simp [ih htail (by simpa using hfuel)]

theorem length_le_showFields (fields : Fields) : fields.length ≤ (showFields fields).length := by
  induction fields with
  | nil => simp
  | cons field fields ih =>
    simp only [showFields, List.length_cons, List.length_append]
    omega

theorem ascii_showText {s : List Char} (hs : ∀ c ∈ s, isPlain c = true) :
    ∀ c ∈ showText s, c.toNat < 128 := by
  intro c hc
  simp only [showText, List.cons_append, List.mem_cons, List.mem_append, List.not_mem_nil,
    or_false] at hc
  rcases hc with rfl | hc | rfl
  · decide
  · have hplain := hs c hc
    simp only [isPlain, Bool.and_eq_true, decide_eq_true_eq] at hplain
    omega
  · decide

theorem ascii_showScalar {v : Scalar} (hv : v.IsPlain) : ∀ c ∈ showScalar v, c.toNat < 128 := by
  cases v with
  | natural n =>
    intro c hc
    have hdigit := isDigit_of_mem c hc
    simp only [Char.isDigit, Bool.and_eq_true, decide_eq_true_eq] at hdigit
    have hle : c.toNat ≤ '9'.toNat := hdigit.2
    exact hle.trans_lt (by decide)
  | text s => exact ascii_showText hv

theorem ascii_showField {field : List Char × Scalar}
    (hfield : (∀ c ∈ field.1, isPlain c = true) ∧ field.2.IsPlain) :
    ∀ c ∈ showField field, c.toNat < 128 := by
  intro c hc
  rcases List.mem_append.mp hc with hkey | hvalue
  · exact ascii_showText hfield.1 c hkey
  · rcases List.mem_cons.mp hvalue with rfl | hvalue
    · decide
    · exact ascii_showScalar hfield.2 c hvalue

theorem ascii_showFields {fields : Fields} (hfields : IsPlain fields) :
    ∀ c ∈ showFields fields, c.toNat < 128 := by
  induction fields with
  | nil => simp [showFields]
  | cons field fields ih =>
    intro c hc
    simp only [showFields, List.cons_append, List.mem_cons, List.mem_append] at hc
    rcases hc with rfl | hfield | htail
    · decide
    · exact ascii_showField (hfields field List.mem_cons_self) c hfield
    · exact ih (fun f hf => hfields f (List.mem_cons_of_mem _ hf)) c htail

theorem ascii_showObject {fields : Fields} (hfields : IsPlain fields) :
    ∀ c ∈ showObject fields, c.toNat < 128 := by
  cases fields with
  | nil => simp [showObject]
  | cons field fields =>
    intro c hc
    simp only [showObject, List.cons_append, List.mem_cons, List.mem_append] at hc
    rcases hc with rfl | hfield | htail
    · decide
    · exact ascii_showField (hfields field List.mem_cons_self) c hfield
    · exact ascii_showFields (fun f hf => hfields f (List.mem_cons_of_mem _ hf)) c htail

theorem readObject_showObject {fields : Fields} (hfields : IsPlain fields)
    (hordered : Ordered fields) : readObject (showObject fields) = some fields := by
  have hany : readAny (showObject fields) = some fields := by
    cases fields with
    | nil => rfl
    | cons field fields =>
      have htail : IsPlain fields := fun f hf => hfields f (List.mem_cons_of_mem _ hf)
      have hread := readField_showField (hfields field List.mem_cons_self) (stops_showFields fields)
      rw [showObject, List.cons_append, readAny, hread]
      · simp [readFields_showFields htail (length_le_showFields fields)]
      · simp [showField, showText]
  rw [readObject, hany, Option.filter_some, if_pos (by simpa using hordered)]

end Acfqp.Library.FlatJson
