import Tactmon.Io.MemoryStream

/-!
# Reads at the end of a stream

A read that asks for more than the stream holds says so only in the count it
returns, and no parser looks at the count.  What such a read does depends on
where it was cut:

* an integer of which no byte is left keeps its initial value,
* a big-endian integer of which some bytes are left runs the swap loop out of
  its destination, `Cut` says when,
* an array keeps the zeros it started with behind what was read, `zeroFilled`.

`SeekPosition` says where a stream goes when it is asked to go past its end,
which the interface leaves open.
-/

namespace Tactmon

open Binary Cxx CursorReadable LawfulReadable

/-! ## Cut fields -/

/-- The byte string ends inside the `w` bytes at `o`. -/
def Cut (d : Bytes) (o w : Nat) : Prop := o < d.length ∧ d.length < o + w

instance (d : Bytes) (o w : Nat) : Decidable (Cut d o w) :=
  inferInstanceAs (Decidable (o < d.length ∧ d.length < o + w))

/-- The `n` bytes at `o`, with zeros for those behind the end. -/
def zeroFilled (d : Bytes) (o n : Nat) : Bytes :=
  window d o n ++ List.replicate (n - (window d o n).length) 0

theorem window_length_eq (d : Bytes) (o n : Nat) :
    (window d o n).length = min n (d.length - o) := by
  rw [window, List.length_take, List.length_drop]

theorem zeroFilled_length (d : Bytes) (o n : Nat) : (zeroFilled d o n).length = n := by
  have := window_length_eq d o n
  rw [zeroFilled, List.length_append, List.length_replicate]
  omega

theorem zeroFilled_of_le {d : Bytes} {o n : Nat} (h : o + n ≤ d.length) :
    zeroFilled d o n = window d o n := by
  rw [zeroFilled, window_length h, Nat.sub_self, List.replicate_zero, List.append_nil]

@[simp] theorem zeroFilled_zero (d : Bytes) (o : Nat) : zeroFilled d o 0 = [] := by
  rw [zeroFilled, window_zero, List.length_nil, Nat.sub_self, List.replicate_zero, List.append_nil]

theorem window_of_length_le {d : Bytes} {o : Nat} (h : d.length ≤ o) (n : Nat) :
    window d o n = [] := by
  rw [window, List.drop_eq_nil_of_le h, List.take_nil]

/-- Where a window that runs past the end stops. -/
theorem window_clip (d : Bytes) (o n : Nat) :
    window d o (min n (d.length - min o d.length)) = window d o n := by
  rw [window, window, List.take_eq_take_iff, List.length_drop]
  omega

section Reads

variable {σ : Type} [IReadableStream σ] [LawfulReadable σ]

/-- A big-endian read that is cut inside the integer. -/
theorem readInt_big_cut {s : σ} {d : Bytes} {c w : Nat} (h : Rep s d c) (hcut : Cut d c w) :
    readInt w s .big = .error .outOfBounds := by
  obtain ⟨hc, hw⟩ := hcut
  obtain ⟨s', hr, -⟩ := readImpl_eq (List.replicate w 0) h (Nat.le_of_lt hc)
  rw [List.length_replicate, Nat.min_eq_right (by omega)] at hr
  have hswap : ∀ x, swapElements w (d.length - c) x = .error .outOfBounds := by
    intro x
    rw [swapElements, Nat.mod_eq_of_lt (by omega), if_neg (by omega)]
  rw [readInt, readSpan, hr, Exec.ok_bind]
  simp only [Endian.native, reduceCtorEq, if_false, hswap, Exec.error_bind]

/-- A big-endian read that is not: all of the integer or nothing is left. -/
theorem readInt_big_of_not_cut {s : σ} {d : Bytes} {o w : Nat} (hw : 0 < w)
    (h : Rep s d (min o d.length)) (hcut : ¬ Cut d o w) :
    ∃ s', readInt w s .big = .ok (beNat (window d o w), s') ∧ Rep s' d (min (o + w) d.length) := by
  by_cases hin : o + w ≤ d.length
  · rw [Nat.min_eq_left (by omega)] at h
    rw [Nat.min_eq_left hin]
    exact readInt_big hw h hin
  · have ho : d.length ≤ o := by
      rw [Cut] at hcut
      omega
    rw [Nat.min_eq_right ho] at h
    obtain ⟨s', hr, hs'⟩ := readImpl_eq (List.replicate w 0) h (Nat.le_refl _)
    rw [Nat.sub_self, Nat.min_zero, window_zero, List.nil_append, List.drop_zero] at hr
    rw [Nat.sub_self, Nat.min_zero, Nat.add_zero] at hs'
    refine ⟨s', ?_, ?_⟩
    · rw [readInt, readSpan, hr, Exec.ok_bind, window_of_length_le ho]
      simp [Endian.native, swapElements]
      rfl
    · rwa [Nat.min_eq_right (by omega)]

/-- What a read leaves in a destination of zeros. -/
theorem readImpl_zeros {s : σ} {d : Bytes} {o : Nat} (n : Nat) (h : Rep s d (min o d.length)) :
    ∃ k s', IReadableStream.readImpl s (List.replicate n 0) = .ok (k, zeroFilled d o n, s') ∧
      Rep s' d (min (o + n) d.length) := by
  obtain ⟨s', hr, hs'⟩ := readImpl_eq (List.replicate n 0) h (Nat.min_le_right _ _)
  rw [List.length_replicate] at hr hs'
  refine ⟨min n (d.length - min o d.length), s', ?_, ?_⟩
  · rw [hr, window_min, List.drop_replicate, window_clip, zeroFilled, window_length_eq,
      show n - min n (d.length - min o d.length) = n - min n (d.length - o) by omega]
  · rwa [show min (o + n) d.length =
      min o d.length + min n (d.length - min o d.length) by omega]

/-- A read of an array returns, short or not. -/
theorem readArray_zeros {s : σ} {d : Bytes} {o : Nat} (n : Nat) (h : Rep s d (min o d.length)) :
    ∃ s', readArray s (List.replicate n 0) .little = .ok (zeroFilled d o n, s') ∧
      Rep s' d (min (o + n) d.length) := by
  obtain ⟨k, s', hr, hs'⟩ := readImpl_zeros n h
  refine ⟨s', ?_, hs'⟩
  rw [readArray, readSpan, hr, Exec.ok_bind]
  rfl

/-- A span of bytes is read in any order. -/
theorem readSpan_zeros {s : σ} {d : Bytes} {o : Nat} (n : Nat) (endianness : Endian)
    (h : Rep s d (min o d.length)) :
    ∃ k s', readSpan s (List.replicate n 0) endianness 1 = .ok (k, zeroFilled d o n, s') ∧
      Rep s' d (min (o + n) d.length) := by
  obtain ⟨k, s', hr, hs'⟩ := readImpl_zeros n h
  exact ⟨k, s', by rw [readSpan_bytes, hr], hs'⟩

/-- Zeros behind the bytes that are left do not count. -/
theorem leNat_zeroFilled (d : Bytes) (o n : Nat) :
    leNat (zeroFilled d o n) = leNat (window d o n) := by
  rw [zeroFilled, leNat_append, leNat_replicate_zero, Nat.mul_zero, Nat.add_zero]

/-- A native read is never cut: the bytes that are missing are zeros. -/
theorem readInt_native {s : σ} {d : Bytes} {o : Nat} (w : Nat) (h : Rep s d (min o d.length)) :
    ∃ s', readInt w s .native = .ok (leNat (window d o w), s') ∧
      Rep s' d (min (o + w) d.length) := by
  obtain ⟨k, s', hr, hs'⟩ := readImpl_zeros w h
  refine ⟨s', ?_, hs'⟩
  rw [readInt, readSpan, hr, Exec.ok_bind, ← leNat_zeroFilled]
  rfl

end Reads

/-! ## Seeks past the end -/

/-- A stream that goes to a position given by its length and the offset. -/
class SeekPosition (σ : Type) [IReadableStream σ] [LawfulReadable σ] where
  /-- Where a stream of this length goes when it is asked to go to this offset. -/
  position : Nat → Nat → Nat
  position_of_le : ∀ {len o : Nat}, o ≤ len → position len o = o
  position_le : ∀ len o : Nat, position len o ≤ o
  seekRead_position : ∀ {s : σ} {d c} (o : Nat), Rep s d c →
    Rep (seekRead s o).2 d (position d.length o)

/-! The stream is explicit in `position`. -/

/-- `FileStream::SeekRead` goes wherever it is asked to. -/
def FileStream.position (_length offset : Nat) : Nat := offset

/-- `GrowableMemoryStream::SeekRead` stops at the end. -/
def GrowableMemoryStream.position (length offset : Nat) : Nat := min offset length

/-- Past its end a file has no view. -/
theorem FileStream.view_past {s : FileStream} (h : s.contents.length < s.cursor) :
    s.view = .error .outOfBounds := dif_neg (Nat.not_le_of_lt h)

instance : SeekPosition FileStream where
  position := FileStream.position
  position_of_le _ := rfl
  position_le _ o := Nat.le_refl o
  seekRead_position := by
    rintro s _ _ o ⟨rfl, rfl, hd⟩
    exact ⟨rfl, rfl, hd⟩

instance : SeekPosition GrowableMemoryStream where
  position := GrowableMemoryStream.position
  position_of_le h := Nat.min_eq_left h
  position_le len o := Nat.min_le_left o len
  seekRead_position := by
    rintro s _ _ o ⟨rfl, rfl, hd⟩
    exact ⟨rfl, rfl, hd⟩

end Tactmon
