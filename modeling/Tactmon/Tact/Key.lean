import Tactmon.Lib.Memory

/-!
# Keys and locations

`hex` and `unhex` of `utility/Hex.cpp`, the keys of `tact/detail/Key.hpp`, and
the two locations of `tact/data/FileLocation.hpp`.  A key owns its bytes and is
compared by them, so it is a byte string.

`unhex` reads two characters at a time.  With an odd number of them it leaves
both its input and its output.  A character that is no hex digit counts as
zero.  `unhex_hex` is the round trip.
-/

namespace Tactmon

open Binary Cxx

/-! ## Hex -/

/-- The alphabet of `hex`. -/
def alphabet (d : UInt8) : UInt8 := if d < 10 then 48 + d else 87 + d

/-- The table of `unhex`. -/
def lookup (c : UInt8) : UInt8 :=
  if 48 ≤ c ∧ c ≤ 57 then c - 48
  else if 65 ≤ c ∧ c ≤ 70 then c - 55
  else if 97 ≤ c ∧ c ≤ 102 then c - 87
  else 0

/-- `utility::hex`. -/
def hex (data : Bytes) : Bytes :=
  data.flatMap fun (b : UInt8) => [alphabet (b >>> 4), alphabet (b &&& 0xF)]

/-- `utility::unhex`, into a destination of half the length. -/
def unhex : Bytes → Exec Bytes
  | [] => .ok []
  | [_] => .error .outOfBounds
  | hiPart :: loPart :: input => do
      let data ← unhex input
      .ok ((lookup loPart ||| (lookup hiPart <<< 4)) :: data)

/-- A byte is read back from its two characters. -/
theorem lookup_alphabet (b : UInt8) :
    lookup (alphabet (b &&& 0xF)) ||| (lookup (alphabet (b >>> 4)) <<< 4) = b := by
  have hall : ∀ n < 256, lookup (alphabet (UInt8.ofNat n &&& 0xF)) |||
      (lookup (alphabet (UInt8.ofNat n >>> 4)) <<< 4) = UInt8.ofNat n := by decide +kernel
  have hb := hall b.toNat b.toNat_lt
  rwa [UInt8.ofNat_toNat] at hb

theorem unhex_hex (data : Bytes) : unhex (hex data) = .ok data := by
  induction data with
  | nil => rfl
  | cons b data ih =>
      rw [hex, List.flatMap_cons, ← hex, List.cons_append, List.cons_append, List.nil_append,
        unhex, ih, Exec.ok_bind, lookup_alphabet]

/-- An even number of characters is taken in, whatever they are. -/
theorem unhex_ok_iff : ∀ input : Bytes, (∃ data, unhex input = .ok data) ↔ 2 ∣ input.length
  | [] => by simp [unhex]
  | [_] => by simp [unhex]
  | hiPart :: loPart :: input => by
      have ih := unhex_ok_iff input
      rw [unhex, List.length_cons, List.length_cons, Nat.dvd_add_self_right (m := 2), ← ih]
      constructor
      · rintro ⟨data, h⟩
        obtain ⟨rest, hrest, -⟩ := Exec.bind_eq_ok.mp h
        exact ⟨rest, hrest⟩
      · rintro ⟨rest, hrest⟩
        exact ⟨_, by rw [hrest, Exec.ok_bind]⟩

/-! ## Keys -/

/-- `tact::CKey`. -/
abbrev CKey := Bytes

/-- `tact::EKey`. -/
abbrev EKey := Bytes

/-! ## Locations -/

/-- `tact::data::FileLocation`.  The keys are a view of one page entry. -/
structure FileLocation where
  /-- The size of the decompressed file. -/
  fileSize : UInt64
  keyCount : Nat
  keys : Bytes
deriving DecidableEq, Repr

/-- `FileLocation::operator[]`. -/
def FileLocation.at (location : FileLocation) (index : Nat) : Exec EKey :=
  if location.keyCount = 0 then .error .outOfBounds
  else
    let keySize := location.keys.length / location.keyCount
    if index * keySize + keySize ≤ location.keys.length then
      .ok (window location.keys (index * keySize) keySize)
    else .error .outOfBounds

/-- `tact::data::ArchiveFileLocation`. -/
structure ArchiveFileLocation where
  name : Bytes
  offset : UInt64
  /-- The size of the file in the archive, which is compressed. -/
  fileSize : UInt64
deriving DecidableEq, Repr

end Tactmon
