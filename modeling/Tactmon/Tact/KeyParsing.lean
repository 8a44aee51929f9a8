import Tactmon.Lib.Text
import Tactmon.Tact.Key

/-!
# Parsing of keys

`CKey::TryParse` and `EKey::TryParse`, and what is done with a key that they
leave: `ToString` and the comparison.  Both take in what `unhex` makes of the
text and say that it is a key, whatever the text was.

On hex digits the table of `unhex` and the alphabet of `hex` undo each other up
to the case of letters (`alphabet_lookup`), so there a key is its text
(`hex_of_unhex`), and two keys are equal when their texts are.
-/

namespace Tactmon

open Binary Cxx Text

/-! ## Keys as the program has them -/

namespace Key

/-- `TryParse`, which leaves its key in `target`. -/
def tryParse (value : Bytes) : Exec (Bool × Bytes) := do
  let target ← unhex value
  .ok (true, target)

/-- `ToString`. -/
def toString (key : Bytes) : Bytes := hex key

/-- `operator ==`. -/
def equal (left right : Bytes) : Bool :=
  if left.length ≠ right.length then false
  else (left.zip right).all fun (l, r) => l = r

end Key

/-- `EKey::TryParse`. -/
def EKey.tryParse : Bytes → Exec (Bool × EKey) := Key.tryParse

/-- `CKey::TryParse`. -/
def CKey.tryParse : Bytes → Exec (Bool × CKey) := Key.tryParse

/-! ## What a key is the text of -/

/-- `0` to `9`, `A` to `F` and `a` to `f`. -/
def isHexDigit (c : UInt8) : Bool :=
  decide (48 ≤ c ∧ c ≤ 57) || decide (65 ≤ c ∧ c ≤ 70) || decide (97 ≤ c ∧ c ≤ 102)

/-- A letter in lower case. -/
def toLower (c : UInt8) : UInt8 := if 65 ≤ c ∧ c ≤ 90 then c + 32 else c

/-- The text in lower case. -/
def lowerCase (value : Bytes) : Bytes := value.map toLower

/-- An even number of hex digits. -/
structure IsHex (value : Bytes) : Prop where
  even : 2 ∣ value.length
  digits : ∀ c ∈ value, isHexDigit c = true

/-- Parsing stays inside the text and the key, accepts hex digits and nothing
else, and gives a key that prints as the text. -/
def ParsesExactly (tryParse : Bytes → Exec (Bool × Bytes)) (value : Bytes) : Prop :=
  ∃ success key, tryParse value = .ok (success, key) ∧ (success = true ↔ IsHex value) ∧
    (success = true → Key.toString key = lowerCase value)

/-- The keys of two texts are equal when the texts are, up to the case of
letters. -/
def ComparesExactly (tryParse : Bytes → Exec (Bool × Bytes)) (value value' : Bytes) : Prop :=
  ∀ key key', tryParse value = .ok (true, key) → tryParse value' = .ok (true, key') →
    (Key.equal key key' = true ↔ lowerCase value = lowerCase value')

/-! ## Hex digits -/

theorem lookup_lt (c : UInt8) : lookup c < 16 := by
  have hall : ∀ n < 256, lookup (UInt8.ofNat n) < 16 := by decide +kernel
  simpa using hall c.toNat c.toNat_lt

/-- A hex digit is read and written back. -/
theorem alphabet_lookup {c : UInt8} (h : isHexDigit c = true) :
    alphabet (lookup c) = toLower c := by
  have hall : ∀ n < 256, isHexDigit (UInt8.ofNat n) = true →
      alphabet (lookup (UInt8.ofNat n)) = toLower (UInt8.ofNat n) := by decide +kernel
  simpa [h] using hall c.toNat c.toNat_lt

/-- The two halves of a byte. -/
theorem halves {hi lo : UInt8} (hhi : hi < 16) (hlo : lo < 16) :
    (lo ||| (hi <<< 4)) >>> 4 = hi ∧ (lo ||| (hi <<< 4)) &&& 0xF = lo := by
  have hall : ∀ m < 16, ∀ n < 16,
      (UInt8.ofNat n ||| (UInt8.ofNat m <<< 4)) >>> 4 = UInt8.ofNat m ∧
        (UInt8.ofNat n ||| (UInt8.ofNat m <<< 4)) &&& 0xF = UInt8.ofNat n := by decide
  simpa using hall hi.toNat hhi lo.toNat hlo

/-- A key of hex digits prints as its text. -/
theorem hex_of_unhex : ∀ {value key : Bytes}, (∀ c ∈ value, isHexDigit c = true) →
    unhex value = .ok key → hex key = lowerCase value
  | [], _, _, h => by
      cases h
      rfl
  | [_], _, _, h => by cases h
  | hiPart :: loPart :: value, _, hdigits, h => by
      obtain ⟨data, hdata, hkey⟩ := Exec.bind_eq_ok.mp h
      cases hkey
      have hrest : hex data = lowerCase value :=
        hex_of_unhex (fun c hc => hdigits c (by simp [hc])) hdata
      obtain ⟨hhi, hlo⟩ := halves (lookup_lt hiPart) (lookup_lt loPart)
      have hfirst := alphabet_lookup (hdigits hiPart (by simp))
      have hsecond := alphabet_lookup (hdigits loPart (by simp))
      rw [hex, List.flatMap_cons, ← hex, hhi, hlo, hrest, hfirst, hsecond]
      rfl

/-- Keys that print alike are alike. -/
theorem hex_injective {key key' : Bytes} (h : hex key = hex key') : key = key' := by
  have hread := congrArg unhex h
  rw [unhex_hex, unhex_hex] at hread
  exact Except.ok.inj hread

/-! ## Keys -/

namespace Key

theorem equal_iff (left right : Bytes) : equal left right = true ↔ left = right := by
  rw [equal]
  split
  · next hlen => exact iff_of_false Bool.false_ne_true fun h => hlen (congrArg List.length h)
  · next hlen =>
      rw [not_not] at hlen
      induction left generalizing right with
      | nil => simp [List.eq_nil_of_length_eq_zero hlen.symm]
      | cons l left ih =>
          cases right with
          | nil => cases hlen
          | cons r right => simp [ih right (Nat.succ.inj hlen)]

theorem tryParse_eq_ok {value key : Bytes} {success : Bool} :
    tryParse value = .ok (success, key) ↔ success = true ∧ unhex value = .ok key := by
  rw [tryParse, Exec.bind_eq_ok]
  constructor
  · rintro ⟨target, htarget, h⟩
    cases h
    exact ⟨rfl, htarget⟩
  · rintro ⟨rfl, h⟩
    exact ⟨key, h, rfl⟩

/-- Every key of a text that is parsed exactly is one of hex digits. -/
theorem parsesExactly_iff (value : Bytes) : ParsesExactly tryParse value ↔ IsHex value := by
  constructor
  · rintro ⟨success, key, hparse, haccept, -⟩
    exact haccept.mp (tryParse_eq_ok.mp hparse).1
  · intro h
    obtain ⟨key, hkey⟩ := (unhex_ok_iff value).mpr h.even
    exact ⟨true, key, tryParse_eq_ok.mpr ⟨rfl, hkey⟩, iff_of_true rfl h,
      fun _ => hex_of_unhex h.digits hkey⟩

theorem comparesExactly_of_isHex {value value' : Bytes} (h : IsHex value) (h' : IsHex value') :
    ComparesExactly tryParse value value' := by
  intro key key' hkey hkey'
  have hprint := hex_of_unhex h.digits (tryParse_eq_ok.mp hkey).2
  have hprint' := hex_of_unhex h'.digits (tryParse_eq_ok.mp hkey').2
  rw [equal_iff, ← hprint, ← hprint']
  exact ⟨congrArg hex, hex_injective⟩

theorem exact_iff (value value' : Bytes) :
    (ParsesExactly tryParse value ∧ ParsesExactly tryParse value' ∧
      ComparesExactly tryParse value value') ↔ IsHex value ∧ IsHex value' := by
  rw [parsesExactly_iff, parsesExactly_iff]
  constructor
  · exact fun h => ⟨h.1, h.2.1⟩
  · exact fun h => ⟨h.1, h.2, comparesExactly_of_isHex h.1 h.2⟩

end Key

/-- Two texts are parsed as keys should be, and the keys compared as they should
be, exactly when both texts are hex digits, two for each byte. -/
theorem tryParse_exact_iff (value value' : Bytes) :
    ((ParsesExactly EKey.tryParse value ∧ ParsesExactly EKey.tryParse value' ∧
      ComparesExactly EKey.tryParse value value') ↔ IsHex value ∧ IsHex value') ∧
    ((ParsesExactly CKey.tryParse value ∧ ParsesExactly CKey.tryParse value' ∧
      ComparesExactly CKey.tryParse value value') ↔ IsHex value ∧ IsHex value') :=
  ⟨Key.exact_iff value value', Key.exact_iff value value'⟩

/-- A text of other letters is a key of zeros, and one of three digits is read
past its end. -/
theorem tryParse_inexact :
    (EKey.tryParse (ascii "zz") = .ok (true, [0]) ∧ ¬ ParsesExactly EKey.tryParse (ascii "zz")) ∧
    EKey.tryParse (ascii "abc") = .error .outOfBounds ∧
    ¬ ParsesExactly CKey.tryParse (ascii "abc") := by
  refine ⟨⟨by decide, fun h => ?_⟩, by decide, fun h => ?_⟩
  · exact absurd (List.all_eq_true.mpr ((Key.parsesExactly_iff _).mp h).digits) (by decide)
  · exact absurd ((Key.parsesExactly_iff _).mp h).even (by decide)

end Tactmon
