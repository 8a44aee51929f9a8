import Mathlib.Data.Nat.Digits.Defs
import Mathlib.Data.List.TakeWhile
import Tactmon.Lib.Bytes

/-!
# Text as bytes

A character is a byte, and text is a byte string.  `ascii` is the text of a
string literal.

`decimal n` writes a number in base ten without leading zeros, as a formatted
`std::size_t` is.  `fromChars` is `std::from_chars` for an unsigned type: the
digits at the front of the text, and nothing else in front of them.  What
follows the digits is not looked at.  It fails where there is no digit and
where the number does not fit the type.  `fromChars_decimal` is the round trip.
-/

namespace Text

open Binary

/-- The text of a literal. -/
def ascii (s : String) : Bytes := s.toUTF8.data.toList

/-! ## Decimal numbers -/

/-- The characters `0` to `9`. -/
def isDigit (c : UInt8) : Bool := decide (48 ≤ c.toNat ∧ c.toNat ≤ 57)

/-- The character of a digit. -/
def digitChar (d : Nat) : UInt8 := UInt8.ofNat (48 + d)

/-- The digit of a character. -/
def digitValue (c : UInt8) : Nat := c.toNat - 48

/-- A number in base ten. -/
def decimal (n : Nat) : Bytes :=
  if n = 0 then [digitChar 0] else ((Nat.digits 10 n).map digitChar).reverse

/-- The number with the given digits, most significant first. -/
def decimalNat (digits : Bytes) : Nat := Nat.ofDigits 10 (digits.map digitValue).reverse

/-- `std::from_chars` in base ten, for an unsigned type of `w` bits. -/
def fromChars (w : Nat) (s : Bytes) : Option Nat :=
  let digits := s.takeWhile isDigit
  if digits = [] then none
  else if decimalNat digits < 2 ^ w then some (decimalNat digits) else none

theorem digitChar_toNat {d : Nat} (h : d < 10) : (digitChar d).toNat = 48 + d := by
  rw [digitChar, UInt8.toNat_ofNat']
  omega

theorem isDigit_digitChar {d : Nat} (h : d < 10) : isDigit (digitChar d) = true := by
  rw [isDigit, digitChar_toNat h, decide_eq_true_iff]
  omega

theorem digitValue_digitChar {d : Nat} (h : d < 10) : digitValue (digitChar d) = d := by
  rw [digitValue, digitChar_toNat h]
  omega

/-- Only digits are written. -/
theorem isDigit_of_mem_decimal {n : Nat} {c : UInt8} (h : c ∈ decimal n) : isDigit c = true := by
  rw [decimal] at h
  split at h
  · rw [List.mem_singleton.mp h]
    rfl
  · obtain ⟨d, hd, rfl⟩ := List.mem_map.mp (List.mem_reverse.mp h)
    exact isDigit_digitChar (Nat.digits_lt_base (by decide) hd)

theorem decimal_ne_nil (n : Nat) : decimal n ≠ [] := by
  rw [decimal]
  split
  · exact List.cons_ne_nil _ _
  · rename_i h
    rw [Ne, List.reverse_eq_nil_iff, List.map_eq_nil_iff]
    exact Nat.digits_ne_nil_iff_ne_zero.mpr h

/-- The digits written are those of the number. -/
theorem decimalNat_decimal (n : Nat) : decimalNat (decimal n) = n := by
  rw [decimal]
  split
  · rename_i h
    rw [h]
    rfl
  · rw [decimalNat, List.map_reverse, List.reverse_reverse, List.map_map]
    have hvalues : (Nat.digits 10 n).map (digitValue ∘ digitChar) = (Nat.digits 10 n).map id :=
      List.map_congr_left fun d hd => digitValue_digitChar (Nat.digits_lt_base (by decide) hd)
    rw [hvalues, List.map_id, Nat.ofDigits_digits]

/-- A number is read back when it fits its type. -/
theorem fromChars_decimal_eq (w n : Nat) :
    fromChars w (decimal n) = if n < 2 ^ w then some n else none := by
  have hall : (decimal n).takeWhile isDigit = decimal n :=
    List.takeWhile_eq_self_iff.mpr fun _ hc => isDigit_of_mem_decimal hc
  rw [fromChars, hall, if_neg (decimal_ne_nil n), decimalNat_decimal]

theorem fromChars_decimal {w n : Nat} (h : n < 2 ^ w) : fromChars w (decimal n) = some n := by
  rw [fromChars_decimal_eq, if_pos h]

/-- Without a digit in front nothing is read. -/
theorem fromChars_cons_none {w : Nat} {c : UInt8} (h : isDigit c = false) (s : Bytes) :
    fromChars w (c :: s) = none := by
  rw [fromChars, List.takeWhile_cons_of_neg (by simp [h]), if_pos rfl]

/-- A separator that is no digit does not occur in a number. -/
theorem not_mem_decimal {n : Nat} {c : UInt8} (h : isDigit c = false) : c ∉ decimal n := by
  intro hc
  rw [isDigit_of_mem_decimal hc] at h
  cases h

example : fromChars 64 (ascii "120/7") = some 120 := by decide

end Text
