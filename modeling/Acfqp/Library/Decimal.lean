import Mathlib

/-!
# Decimal numerals by chunks

The numeral of a number is the numeral of its leading chunk followed by the other chunks, each
padded with zeros to one width; and digits can be read by chunks of one width in the same way.
-/

namespace Acfqp.Library.Decimal

def padded (width n : ℕ) : List Char :=
  List.replicate (width - (Nat.toDigits 10 n).length) '0' ++ Nat.toDigits 10 n

theorem padded_of_lt_ten (width : ℕ) {n : ℕ} (h : n < 10) :
    padded (width + 1) n = List.replicate width '0' ++ [n.digitChar] := by
  simp [padded, Nat.toDigits_of_lt_base h]

theorem padded_succ {width n : ℕ} (hwidth : 0 < width) :
    padded (width + 1) n = padded width (n / 10) ++ [(n % 10).digitChar] := by
  rcases lt_or_ge n 10 with hlt | hge
  · obtain ⟨width, rfl⟩ := Nat.exists_eq_add_one.mpr hwidth
    rw [padded_of_lt_ten _ hlt, Nat.div_eq_of_lt hlt, padded_of_lt_ten _ (by norm_num),
      Nat.mod_eq_of_lt hlt, List.replicate_succ']
    rfl
  · simp [padded, Nat.toDigits_of_base_le (by norm_num) hge]

theorem toDigits_chunk {width q r : ℕ} (hwidth : 0 < width) (hq : 0 < q) (hr : r < 10 ^ width) :
    Nat.toDigits 10 (q * 10 ^ width + r) = Nat.toDigits 10 q ++ padded width r := by
  induction width, hwidth using Nat.le_induction generalizing r with
  | base =>
    have hlt : r < 10 := by simpa using hr
    rw [pow_one, mul_comm, ← Nat.toDigits_append_toDigits (by norm_num) hq hlt,
      padded_of_lt_ten _ hlt,
      Nat.toDigits_of_lt_base hlt]
    rfl
  | succ width hwidth ih =>
    have hdiv : r / 10 < 10 ^ width := by
      rw [pow_succ] at hr
      omega
    have hsplit : q * 10 ^ (width + 1) + r = 10 * (q * 10 ^ width + r / 10) + r % 10 := by
      rw [pow_succ]
      have := Nat.div_add_mod r 10
      linarith
    have hpos : 0 < q * 10 ^ width + r / 10 := Nat.add_pos_left (by positivity) _
    rw [hsplit, ← Nat.toDigits_append_toDigits (by norm_num) hpos (Nat.mod_lt _ (by norm_num)),
      ih hdiv, padded_succ hwidth, Nat.toDigits_of_lt_base (Nat.mod_lt _ (by norm_num)),
      List.append_assoc]

def render (width : ℕ) : List ℕ → List Char
  | [] => []
  | top :: rest => Nat.toDigits 10 top ++ rest.flatMap (padded width)

theorem render_append {width : ℕ} {chunks : List ℕ} (hchunks : chunks ≠ []) (chunk : ℕ) :
    render width (chunks ++ [chunk]) = render width chunks ++ padded width chunk := by
  obtain ⟨top, rest, rfl⟩ := List.exists_cons_of_ne_nil hchunks
  simp [render]

def chunks (base remaining : ℕ) : List ℕ :=
  if remaining = 0 ∨ base ≤ 1 then []
  else remaining % base :: chunks base (remaining / base)
termination_by remaining
decreasing_by exact Nat.div_lt_self (by omega) (by omega)

theorem chunks_zero (base : ℕ) : chunks base 0 = [] := by simp [chunks]

theorem chunks_of_pos {base n : ℕ} (hbase : 1 < base) (hn : 0 < n) :
    chunks base n = n % base :: chunks base (n / base) := by
  rw [chunks, if_neg (by omega)]

theorem chunks_ne_nil {base n : ℕ} (hbase : 1 < base) (hn : 0 < n) : chunks base n ≠ [] := by
  simp [chunks_of_pos hbase hn]

theorem render_chunks {width : ℕ} (hwidth : 0 < width) {n : ℕ} (hn : 0 < n) :
    render width (chunks (10 ^ width) n).reverse = Nat.toDigits 10 n := by
  have hbase : 1 < 10 ^ width := Nat.one_lt_pow hwidth.ne' (by norm_num)
  induction n using Nat.strong_induction_on with
  | _ n ih =>
    rw [chunks_of_pos hbase hn, List.reverse_cons]
    rcases Nat.eq_zero_or_pos (n / 10 ^ width) with hzero | hpos
    · rw [hzero, chunks_zero]
      simp [render, Nat.mod_eq_of_lt ((Nat.div_eq_zero_iff_lt (by positivity)).mp hzero)]
    · rw [render_append (by simpa using chunks_ne_nil hbase hpos),
        ih _ (Nat.div_lt_self hn hbase) hpos,
        ← toDigits_chunk hwidth hpos (Nat.mod_lt _ (by positivity)), mul_comm,
        Nat.div_add_mod]

/-! ## Reading -/

def readChunks (width value : ℕ) (digits : List Char) : ℕ :=
  if h : digits = [] ∨ width = 0 then value
  else readChunks width (value * 10 ^ width + Nat.ofDigitChars 10 (digits.take width) 0)
    (digits.drop width)
termination_by digits.length
decreasing_by
  have : ¬ (digits = [] ∨ width = 0) := h
  rw [List.length_drop]
  have := List.length_pos_iff.mpr (fun hnil : digits = [] => h (.inl hnil))
  omega

theorem readChunks_eq {width value : ℕ} (hwidth : 0 < width) {digits : List Char}
    (hdigits : width ∣ digits.length) :
    readChunks width value digits = Nat.ofDigitChars 10 digits value := by
  induction hlength : digits.length using Nat.strong_induction_on generalizing digits value with
  | _ length ih =>
    subst hlength
    rw [readChunks]
    split
    · next hnil =>
      obtain rfl := hnil.resolve_right hwidth.ne'
      rfl
    · next hcons =>
      have hpos := List.length_pos_iff.mpr fun hnil : digits = [] => hcons (.inl hnil)
      have hle := Nat.le_of_dvd hpos hdigits
      have htake : (digits.take width).length = width := List.length_take_of_le hle
      have hdrop : (digits.drop width).length = digits.length - width := List.length_drop
      rw [ih _ (by omega) (hdrop ▸ Nat.dvd_sub hdigits dvd_rfl) rfl]
      have hvalue : value * 10 ^ width + Nat.ofDigitChars 10 (digits.take width) 0 =
          Nat.ofDigitChars 10 (digits.take width) value := by
        rw [@Nat.ofDigitChars_eq_ofDigitChars_zero (digits.take width) value, htake, mul_comm]
      rw [hvalue, ← Nat.ofDigitChars_append, List.take_append_drop]

end Acfqp.Library.Decimal
