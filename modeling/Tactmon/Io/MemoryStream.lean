import Tactmon.Io.Stream

/-!
# The four readable streams

`SpanStream`, `MemoryStream` and `GrowableMemoryStream` of
`io/MemoryStream.{hpp,cpp}` and `FileStream` of `io/FileStream.{hpp,cpp}`.
Each computes the length of a read, the source pointer and the new cursor on
its own, and three of them disagree with the interface:

* `SpanStream._ReadImpl` reads from `Data().subspan(length)`, that is `length`
  bytes past the cursor,
* `MemoryStream._ReadImpl` rebinds its destination instead of filling it,
* `FileStream.SeekRead` does not clamp.

`GrowableMemoryStream` and `FileStream` are lawful, the second because the
interface leaves seeking past the end open.
-/

namespace Tactmon

open Binary Cxx CursorReadable LawfulReadable

/-! ## SpanStream -/

/-- `io::SpanStream`: a view of memory owned by somebody else. -/
structure SpanStream where
  data : Span
  cursor : Nat

namespace SpanStream

/-- The constructor. -/
def ofSpan (data : Span) : SpanStream := ⟨data, 0⟩

/-- `Data()`. -/
def view (s : SpanStream) : Exec Span := s.data.suffix s.cursor

/-- `_ReadImpl`: the source is `Data().subspan(length)`, past the bytes asked for. -/
def readImpl (s : SpanStream) (dst : Bytes) : Exec (Nat × Bytes × SpanStream) := do
  let length := min dst.length (sizeSub s.data.size s.cursor)
  let view ← s.view
  let source ← view.suffix length
  let bytes ← source.load length
  .ok (length, bytes ++ dst.drop length, { s with cursor := sizeWrap (s.cursor + length) })

instance : IReadableStream SpanStream where
  getLength s := s.data.size
  getReadCursor s := s.cursor
  seekRead s offset :=
    let cursor := min offset s.data.size
    (cursor, { s with cursor })
  skipRead s offset := { s with cursor := sizeWrap (s.cursor + offset) }
  canRead s amount := decide (sizeWrap (s.cursor + amount) ≤ s.data.size)
  data := view
  readImpl := readImpl

/-- The span stream looks at `b` inside some allocation. -/
instance : CursorReadable SpanStream where
  Rep s b c := s.data.bytes = b ∧ s.cursor = c ∧ b.length < 2 ^ 63
  fits h := h.2.2
  getLength_eq := by rintro s _ _ ⟨rfl, rfl, -⟩; exact s.data.bytes_length.symm
  getReadCursor_eq := by rintro s _ _ ⟨rfl, rfl, -⟩; rfl
  canRead_eq := by
    rintro s _ _ n ⟨rfl, rfl, -⟩
    rw [Span.bytes_length]
    rfl
  skipRead_rep := by rintro s _ _ k ⟨rfl, rfl, hb⟩; exact ⟨rfl, rfl, hb⟩
  seekRead_rep := by
    rintro s _ _ o ⟨rfl, rfl, hb⟩
    have := s.data.bytes_length
    exact ⟨min o s.data.size, ⟨rfl, rfl, hb⟩, rfl, by omega, by omega⟩
  data_eq := by
    rintro s _ _ ⟨rfl, rfl, -⟩ hc
    rw [Span.bytes_length] at hc ⊢
    exact Span.suffix_bytes hc

theorem view_eq {s : SpanStream} (h : s.cursor ≤ s.data.size) :
    ∃ t, s.view = .ok t ∧ t.mem = s.data.mem.drop s.cursor ∧ t.size = s.data.size - s.cursor :=
  s.data.suffix_of_le h

theorem skipRead_eq {s : SpanStream} {n : Nat} (hn : s.cursor + n < sizeMax) :
    skipRead s n = ⟨s.data, s.cursor + n⟩ := by
  change SpanStream.mk s.data (sizeWrap (s.cursor + n)) = _
  rw [sizeWrap_of_lt hn]

/-- An integer inside the span is read from where it ends. -/
theorem readInt_past {s : SpanStream} {w : Nat} (hfit : s.data.size < 2 ^ 63)
    (hn : s.cursor + w ≤ s.data.size) :
    readInt w s .little =
      if s.cursor + w + w ≤ s.data.mem.length then
        .ok (leNat (window s.data.mem (s.cursor + w) w), ⟨s.data, s.cursor + w⟩)
      else .error .outOfBounds := by
  obtain ⟨t, ht, htmem, htsize⟩ := view_eq (s := s) (by omega)
  have hw : w ≤ t.size := by omega
  obtain ⟨u, hu, humem, -⟩ := t.suffix_of_le hw
  have hmem : u.mem = s.data.mem.drop (s.cursor + w) := by rw [humem, htmem, List.drop_drop]
  have hlen : u.mem.length = s.data.mem.length - (s.cursor + w) := by
    rw [hmem, List.length_drop]
  have hle := s.data.fits
  have hsub : sizeSub s.data.size s.cursor = s.data.size - s.cursor :=
    sizeSub_of_le (by omega) (lt_sizeMax (by omega))
  have hmin : min w (s.data.size - s.cursor) = w := Nat.min_eq_left (by omega)
  have hcur : sizeWrap (s.cursor + w) = s.cursor + w :=
    sizeWrap_of_lt (lt_sizeMax (by omega))
  rw [readInt, readSpan]
  simp only [IReadableStream.readImpl, readImpl, List.length_replicate, hsub, hmin, ht, hu,
    Exec.ok_bind, hcur]
  by_cases hload : s.cursor + w + w ≤ s.data.mem.length
  · have hw : w ≤ u.mem.length := by omega
    rw [if_pos hload, Span.load_of_le hw, hmem]
    simp [window, Endian.native]
  · have hw : u.mem.length < w := by omega
    rw [if_neg hload, Span.load_of_lt hw]
    rfl

end SpanStream

/-! ## MemoryStream -/

/-- `io::MemoryStream`. -/
structure MemoryStream where
  data : Span
  cursor : Nat

namespace MemoryStream

/-- The constructor. -/
def ofSpan (data : Span) : MemoryStream := ⟨data, 0⟩

/-- `_ReadImpl`: the assignment to the parameter leaves the destination as it was. -/
def readImpl (s : MemoryStream) (dst : Bytes) : Exec (Nat × Bytes × MemoryStream) :=
  let length := min dst.length (sizeSub s.data.size s.cursor)
  .ok (length, dst, { s with cursor := sizeWrap (s.cursor + length) })

instance : IReadableStream MemoryStream where
  getLength s := s.data.size
  getReadCursor s := s.cursor
  seekRead s offset :=
    let cursor := min s.data.size offset
    (cursor, { s with cursor })
  skipRead s offset := { s with cursor := sizeWrap (s.cursor + offset) }
  canRead s amount := decide (sizeWrap (s.cursor + amount) ≤ s.data.size)
  data s := s.data.suffix s.cursor
  readImpl := readImpl

instance : CursorReadable MemoryStream where
  Rep s b c := s.data.bytes = b ∧ s.cursor = c ∧ b.length < 2 ^ 63
  fits h := h.2.2
  getLength_eq := by rintro s _ _ ⟨rfl, rfl, -⟩; exact s.data.bytes_length.symm
  getReadCursor_eq := by rintro s _ _ ⟨rfl, rfl, -⟩; rfl
  canRead_eq := by
    rintro s _ _ n ⟨rfl, rfl, -⟩
    rw [Span.bytes_length]
    rfl
  skipRead_rep := by rintro s _ _ k ⟨rfl, rfl, hb⟩; exact ⟨rfl, rfl, hb⟩
  seekRead_rep := by
    rintro s _ _ o ⟨rfl, rfl, hb⟩
    have := s.data.bytes_length
    exact ⟨min s.data.size o, ⟨rfl, rfl, hb⟩, rfl, by omega, by omega⟩
  data_eq := by
    rintro s _ _ ⟨rfl, rfl, -⟩ hc
    rw [Span.bytes_length] at hc ⊢
    exact Span.suffix_bytes hc

end MemoryStream

/-! ## GrowableMemoryStream -/

/-- `io::GrowableMemoryStream`: a vector with a read and a write cursor. -/
structure GrowableMemoryStream where
  data : Bytes
  readCursor : Nat
  writeCursor : Nat
deriving DecidableEq, Repr

namespace GrowableMemoryStream

/-- The default constructor. -/
def empty : GrowableMemoryStream := ⟨[], 0, 0⟩

/-- The constructor from a buffer, which leaves the write cursor at zero. -/
def ofBuffer (b : Buffer) : GrowableMemoryStream := ⟨b.bytes, 0, 0⟩

/-- The whole vector. -/
def whole (s : GrowableMemoryStream) : Span := ⟨s.data, s.data.length, Nat.le_refl _⟩

@[simp] theorem whole_bytes (s : GrowableMemoryStream) : s.whole.bytes = s.data :=
  List.take_length

/-- `Data()`. -/
def view (s : GrowableMemoryStream) : Exec Span := s.whole.suffix s.readCursor

/-- `_ReadImpl`. -/
def readImpl (s : GrowableMemoryStream) (dst : Bytes) :
    Exec (Nat × Bytes × GrowableMemoryStream) := do
  let length := min dst.length (sizeSub s.data.length s.readCursor)
  let source ← s.view
  let bytes ← source.load length
  .ok (length, bytes ++ dst.drop length,
    { s with readCursor := sizeWrap (s.readCursor + length) })

instance : IReadableStream GrowableMemoryStream where
  getLength s := s.data.length
  getReadCursor s := s.readCursor
  seekRead s offset :=
    let readCursor := min offset s.data.length
    (readCursor, { s with readCursor })
  skipRead s offset := { s with readCursor := sizeWrap (s.readCursor + offset) }
  canRead s amount := decide (sizeWrap (s.readCursor + amount) ≤ s.data.length)
  data := view
  readImpl := readImpl

/-- `_WriteImpl`: grow the vector if needed and copy at the write cursor. -/
def writeImpl (s : GrowableMemoryStream) (bytes : Bytes) : GrowableMemoryStream :=
  let grown := s.data ++ List.replicate (s.writeCursor + bytes.length - s.data.length) 0
  { s with
    data := grown.take s.writeCursor ++ bytes ++ grown.drop (s.writeCursor + bytes.length)
    writeCursor := s.writeCursor + bytes.length }

/-- `Write` of a span of bytes in the native order, which swaps nothing. -/
def write (s : GrowableMemoryStream) (bytes : Bytes) : Nat × GrowableMemoryStream :=
  (bytes.length, s.writeImpl bytes)

/-- Writing at the end appends. -/
theorem writeImpl_append {s : GrowableMemoryStream} (h : s.writeCursor = s.data.length)
    (bytes : Bytes) :
    s.writeImpl bytes = ⟨s.data ++ bytes, s.readCursor, s.data.length + bytes.length⟩ := by
  simp only [writeImpl, h, Nat.add_sub_cancel_left, GrowableMemoryStream.mk.injEq, and_true]
  rw [List.take_left' rfl, List.drop_eq_nil_of_le (by simp), List.append_nil]

theorem view_eq {s : GrowableMemoryStream} (h : s.readCursor ≤ s.data.length) :
    ∃ t, s.view = .ok t ∧ t.mem = s.data.drop s.readCursor ∧
      t.size = s.data.length - s.readCursor :=
  s.whole.suffix_of_le h

/-- A view that exists begins inside the vector. -/
theorem le_of_view {s : GrowableMemoryStream} {t : Span} (h : s.view = .ok t) :
    s.readCursor ≤ s.data.length ∧ t.mem = s.data.drop s.readCursor := by
  refine ⟨?_, Span.suffix_mem h⟩
  rw [view, Span.suffix] at h
  split at h
  · next hle => exact hle
  · cases h

/-- A read that starts inside the vector. -/
theorem readImpl_window {s : GrowableMemoryStream} (dst : Bytes)
    (hc : s.readCursor ≤ s.data.length) (hb : s.data.length < 2 ^ 63) :
    s.readImpl dst =
      .ok (min dst.length (s.data.length - s.readCursor),
        window s.data s.readCursor (min dst.length (s.data.length - s.readCursor)) ++
          dst.drop (min dst.length (s.data.length - s.readCursor)),
        ⟨s.data, s.readCursor + min dst.length (s.data.length - s.readCursor), s.writeCursor⟩) := by
  obtain ⟨t, ht, hmem, -⟩ := view_eq hc
  have hsub : sizeSub s.data.length s.readCursor = s.data.length - s.readCursor :=
    sizeSub_of_le hc (lt_sizeMax (by omega))
  have hload : t.load (min dst.length (s.data.length - s.readCursor)) =
      .ok (window s.data s.readCursor (min dst.length (s.data.length - s.readCursor))) := by
    rw [Span.load_of_le (by rw [hmem, List.length_drop]; omega), hmem, window]
  have hcur : sizeWrap (s.readCursor + min dst.length (s.data.length - s.readCursor)) =
      s.readCursor + min dst.length (s.data.length - s.readCursor) :=
    sizeWrap_of_lt (lt_sizeMax (by omega))
  simp only [readImpl, hsub, ht, Exec.ok_bind, hload, hcur]

instance : LawfulReadable GrowableMemoryStream where
  Rep s b c := s.data = b ∧ s.readCursor = c ∧ b.length < 2 ^ 63
  fits h := h.2.2
  getLength_eq := by rintro s _ _ ⟨rfl, rfl, -⟩; rfl
  getReadCursor_eq := by rintro s _ _ ⟨rfl, rfl, -⟩; rfl
  canRead_eq := by rintro s _ _ n ⟨rfl, rfl, -⟩; rfl
  skipRead_rep := by rintro s _ _ k ⟨rfl, rfl, hb⟩; exact ⟨rfl, rfl, hb⟩
  seekRead_rep := by
    rintro s _ _ o ⟨rfl, rfl, hb⟩
    exact ⟨min o s.data.length, ⟨rfl, rfl, hb⟩, rfl, by omega, by omega⟩
  data_eq := by
    rintro s _ _ ⟨rfl, rfl, -⟩ hc
    obtain ⟨t, ht, hbytes, hsize⟩ := Span.suffix_bytes (s := s.whole) hc
    exact ⟨t, ht, by rw [hbytes, whole_bytes], hsize⟩
  data_mem := by rintro s _ _ t ⟨rfl, rfl, -⟩ ht; exact Span.suffix_mem ht
  readImpl_eq := by
    rintro s _ _ dst ⟨rfl, rfl, hb⟩ hc
    exact ⟨_, readImpl_window dst hc hb, rfl, rfl, hb⟩

theorem ofBuffer_rep (b : Buffer) : Rep (ofBuffer b) b.bytes 0 := ⟨rfl, rfl, b.fits⟩

/-! Reading moves the read cursor and nothing else. -/

/-- The streams hold the same bytes and write at the same place. -/
def SameBuffer (s s' : GrowableMemoryStream) : Prop :=
  s'.data = s.data ∧ s'.writeCursor = s.writeCursor

theorem SameBuffer.refl (s : GrowableMemoryStream) : SameBuffer s s := ⟨rfl, rfl⟩

theorem SameBuffer.trans {s₁ s₂ s₃ : GrowableMemoryStream} (h : SameBuffer s₁ s₂)
    (h' : SameBuffer s₂ s₃) : SameBuffer s₁ s₃ := ⟨h'.1.trans h.1, h'.2.trans h.2⟩

theorem readSpan_sameBuffer {s s' : GrowableMemoryStream} {dst x : Bytes} {e : Endian}
    {w n : Nat} (h : readSpan s dst e w = .ok (n, x, s')) : SameBuffer s s' := by
  obtain ⟨⟨n', dst', s₁⟩, hr, h⟩ := Exec.bind_eq_ok.mp h
  have hs₁ : SameBuffer s s₁ := by
    obtain ⟨source, -, hr⟩ := Exec.bind_eq_ok.mp hr
    obtain ⟨bytes, -, hr⟩ := Exec.bind_eq_ok.mp hr
    cases hr
    exact ⟨rfl, rfl⟩
  cases e with
  | little =>
      cases h
      exact hs₁
  | big =>
      obtain ⟨dst'', -, h⟩ := Exec.bind_eq_ok.mp h
      cases h
      exact hs₁

theorem readInt_sameBuffer {s s' : GrowableMemoryStream} {e : Endian} {w v : Nat}
    (h : readInt w s e = .ok (v, s')) : SameBuffer s s' := by
  obtain ⟨⟨n, x, s₁⟩, hr, h⟩ := Exec.bind_eq_ok.mp h
  cases h
  exact readSpan_sameBuffer hr

theorem readArray_sameBuffer {s s' : GrowableMemoryStream} {value x : Bytes} {e : Endian}
    (h : readArray s value e = .ok (x, s')) : SameBuffer s s' := by
  obtain ⟨⟨n, x, s₁⟩, hr, h⟩ := Exec.bind_eq_ok.mp h
  cases h
  exact readSpan_sameBuffer hr

/-- The stream `n` bytes further on. -/
def advance (s : GrowableMemoryStream) (n : Nat) : GrowableMemoryStream :=
  { s with readCursor := s.readCursor + n }

/-- A full read advances the cursor. -/
theorem eq_advance {s s' : GrowableMemoryStream} {n : Nat} (h : SameBuffer s s')
    (hs' : Rep s' s.data (s.readCursor + n)) : s' = s.advance n := by
  obtain ⟨data, readCursor, writeCursor⟩ := s'
  obtain ⟨rfl, rfl⟩ := h
  obtain ⟨-, rfl, -⟩ := hs'
  rfl

theorem rep_self {s : GrowableMemoryStream} (hfit : s.data.length < 2 ^ 63) :
    Rep s s.data s.readCursor := ⟨rfl, rfl, hfit⟩

theorem readInt_advance_big {s : GrowableMemoryStream} {w : Nat} (hfit : s.data.length < 2 ^ 63)
    (hw : 0 < w) (hn : s.readCursor + w ≤ s.data.length) :
    readInt w s .big = .ok (beNat (window s.data s.readCursor w), s.advance w) := by
  obtain ⟨s', hr, hs'⟩ := readInt_big hw (rep_self hfit) hn
  rw [hr, eq_advance (readInt_sameBuffer hr) hs']

theorem readInt_advance_little {s : GrowableMemoryStream} {w : Nat}
    (hfit : s.data.length < 2 ^ 63) (hn : s.readCursor + w ≤ s.data.length) :
    readInt w s .little = .ok (leNat (window s.data s.readCursor w), s.advance w) := by
  obtain ⟨s', hr, hs'⟩ := readInt_little (rep_self hfit) hn
  rw [hr, eq_advance (readInt_sameBuffer hr) hs']

theorem readArray_advance {s : GrowableMemoryStream} {value : Bytes}
    (hfit : s.data.length < 2 ^ 63) (hn : s.readCursor + value.length ≤ s.data.length) :
    readArray s value .little =
      .ok (window s.data s.readCursor value.length, s.advance value.length) := by
  obtain ⟨s', hr, hs'⟩ := readArray_full (rep_self hfit) hn
  rw [hr, eq_advance (readArray_sameBuffer hr) hs']

theorem skipRead_advance {s : GrowableMemoryStream} {n : Nat} (hfit : s.data.length < 2 ^ 63)
    (hn : s.readCursor + n ≤ s.data.length) : skipRead s n = s.advance n := by
  have hlt : s.readCursor + n < sizeMax := lt_sizeMax (by omega)
  show GrowableMemoryStream.mk _ _ _ = _
  rw [sizeWrap_of_lt hlt, advance]

/-! Writing at the end does not change what a full read returns. -/

/-- The stream after a write. -/
def grow (s : GrowableMemoryStream) (x : Bytes) : GrowableMemoryStream := (s.write x).2

/-- The write cursor is at the end, and `x` can be appended. -/
structure Extends (s : GrowableMemoryStream) (x : Bytes) : Prop where
  appends : s.writeCursor = s.data.length
  fits : s.data.length + x.length < 2 ^ 63

theorem grow_eq {s : GrowableMemoryStream} {x : Bytes} (h : s.writeCursor = s.data.length) :
    s.grow x = ⟨s.data ++ x, s.readCursor, s.data.length + x.length⟩ := by
  rw [grow, write, writeImpl_append h]

theorem grow_advance (s : GrowableMemoryStream) (x : Bytes) (n : Nat) :
    (s.advance n).grow x = (s.grow x).advance n := rfl

theorem advance_advance (s : GrowableMemoryStream) (m n : Nat) :
    (s.advance m).advance n = s.advance (m + n) := by
  simp only [advance, Nat.add_assoc]

section Extends

variable {s : GrowableMemoryStream} {x : Bytes}

theorem Extends.data_fits (h : s.Extends x) : s.data.length < 2 ^ 63 := by
  have := h.fits
  omega

theorem Extends.advance (h : s.Extends x) (n : Nat) : (s.advance n).Extends x :=
  ⟨h.appends, h.fits⟩

theorem Extends.grow_data (h : s.Extends x) : (s.grow x).data = s.data ++ x := by
  rw [grow_eq h.appends]

theorem Extends.grow_length (h : s.Extends x) :
    (s.grow x).data.length = s.data.length + x.length := by
  rw [h.grow_data, List.length_append]

theorem Extends.grow_readCursor (h : s.Extends x) : (s.grow x).readCursor = s.readCursor := by
  rw [grow_eq h.appends]

theorem Extends.grow_window (h : s.Extends x) {n : Nat} (hn : s.readCursor + n ≤ s.data.length) :
    window (s.grow x).data (s.grow x).readCursor n = window s.data s.readCursor n := by
  rw [h.grow_data, h.grow_readCursor, window_append_left hn]

theorem Extends.readInt_big (h : s.Extends x) {w : Nat} (hw : 0 < w)
    (hn : s.readCursor + w ≤ s.data.length) :
    readInt w (s.grow x) .big =
      .ok (beNat (window s.data s.readCursor w), (s.grow x).advance w) := by
  rw [← h.grow_window hn]
  refine readInt_advance_big ?_ hw ?_
  · rw [h.grow_length]
    exact h.fits
  · rw [h.grow_length, h.grow_readCursor]
    omega

theorem Extends.readInt_little (h : s.Extends x) {w : Nat}
    (hn : s.readCursor + w ≤ s.data.length) :
    readInt w (s.grow x) .little =
      .ok (leNat (window s.data s.readCursor w), (s.grow x).advance w) := by
  rw [← h.grow_window hn]
  refine readInt_advance_little ?_ ?_
  · rw [h.grow_length]
    exact h.fits
  · rw [h.grow_length, h.grow_readCursor]
    omega

theorem Extends.readArray (h : s.Extends x) {value : Bytes}
    (hn : s.readCursor + value.length ≤ s.data.length) :
    readArray (s.grow x) value .little =
      .ok (window s.data s.readCursor value.length, (s.grow x).advance value.length) := by
  rw [← h.grow_window hn]
  refine readArray_advance ?_ ?_
  · rw [h.grow_length]
    exact h.fits
  · rw [h.grow_length, h.grow_readCursor]
    omega

theorem Extends.skipRead (h : s.Extends x) {n : Nat} (hn : s.readCursor + n ≤ s.data.length) :
    skipRead (s.grow x) n = (s.grow x).advance n := by
  refine skipRead_advance ?_ ?_
  · rw [h.grow_length]
    exact h.fits
  · rw [h.grow_length, h.grow_readCursor]
    omega

/-- Inside the buffer the test for more bytes is exact. -/
theorem canRead_iff_le (hfit : s.data.length < 2 ^ 63) (hc : s.readCursor ≤ s.data.length) {n : Nat}
    (hn : n < 2 ^ 32) : canRead s n = true ↔ s.readCursor + n ≤ s.data.length :=
  CursorReadable.canRead_iff (rep_self hfit) (add_lt_sizeMax (by omega) (by omega))

/-- What a view of `n` buffered bytes gives. -/
theorem view_window (hc : s.readCursor ≤ s.data.length) :
    ∃ t, s.view = .ok t ∧ ∀ n, s.readCursor + n ≤ s.data.length →
      (∃ u, t.subspan 0 n = .ok u ∧ u.bytes = window s.data s.readCursor n) ∧
      t.load n = .ok (window s.data s.readCursor n) := by
  obtain ⟨t, ht, hmem, hsize⟩ := view_eq hc
  refine ⟨t, ht, fun n hn => ⟨?_, ?_⟩⟩
  · obtain ⟨u, hu, humem, husize⟩ := Span.subspan_of_le (by omega : 0 + n ≤ t.size)
    refine ⟨u, hu, ?_⟩
    rw [Span.bytes, humem, husize, List.drop_zero, hmem, window]
  · rw [Span.load_of_le (by rw [hmem, List.length_drop]; omega), hmem, window]

theorem Extends.view_window (h : s.Extends x) (hc : s.readCursor ≤ s.data.length) :
    ∃ t, (s.grow x).view = .ok t ∧ ∀ n, s.readCursor + n ≤ s.data.length →
      (∃ u, t.subspan 0 n = .ok u ∧ u.bytes = window s.data s.readCursor n) ∧
      t.load n = .ok (window s.data s.readCursor n) := by
  have hc' : (s.grow x).readCursor ≤ (s.grow x).data.length := by
    rw [h.grow_readCursor, h.grow_length]
    omega
  obtain ⟨t, hview, ht⟩ := GrowableMemoryStream.view_window hc'
  refine ⟨t, hview, fun n hn => ?_⟩
  rw [← h.grow_window hn]
  refine ht n ?_
  rw [h.grow_readCursor, h.grow_length]
  omega

end Extends

end GrowableMemoryStream

/-! ## FileStream -/

/-- `io::FileStream`: a file mapped into memory.  A file that did not open has
no contents. -/
structure FileStream where
  contents : Bytes
  cursor : Nat

namespace FileStream

/-- The constructor, on a file with these contents. -/
def ofBuffer (b : Buffer) : FileStream := ⟨b.bytes, 0⟩

/-- The whole mapping. -/
def whole (s : FileStream) : Span := ⟨s.contents, s.contents.length, Nat.le_refl _⟩

@[simp] theorem whole_bytes (s : FileStream) : s.whole.bytes = s.contents := List.take_length

/-- `Data()`, whose length wraps when the cursor is past the end. -/
def view (s : FileStream) : Exec Span := s.whole.suffix s.cursor

/-- `_ReadImpl`. -/
def readImpl (s : FileStream) (dst : Bytes) : Exec (Nat × Bytes × FileStream) :=
  let length := min dst.length (sizeSub s.contents.length s.cursor)
  if length ≤ (s.contents.drop s.cursor).length then
    .ok (length, window s.contents s.cursor length ++ dst.drop length,
      { s with cursor := sizeWrap (s.cursor + length) })
  else .error .outOfBounds

instance : IReadableStream FileStream where
  getLength s := s.contents.length
  getReadCursor s := s.cursor
  seekRead s offset := (offset, { s with cursor := offset })
  skipRead s offset := { s with cursor := sizeWrap (s.cursor + offset) }
  canRead s count := decide (sizeWrap (s.cursor + count) ≤ s.contents.length)
  data := view
  readImpl := readImpl

instance : LawfulReadable FileStream where
  Rep s b c := s.contents = b ∧ s.cursor = c ∧ b.length < 2 ^ 63
  fits h := h.2.2
  getLength_eq := by rintro s _ _ ⟨rfl, rfl, -⟩; rfl
  getReadCursor_eq := by rintro s _ _ ⟨rfl, rfl, -⟩; rfl
  canRead_eq := by rintro s _ _ n ⟨rfl, rfl, -⟩; rfl
  skipRead_rep := by rintro s _ _ k ⟨rfl, rfl, hb⟩; exact ⟨rfl, rfl, hb⟩
  seekRead_rep := by
    rintro s _ _ o ⟨rfl, rfl, hb⟩
    exact ⟨o, ⟨rfl, rfl, hb⟩, rfl, fun _ => rfl, by omega⟩
  data_eq := by
    rintro s _ _ ⟨rfl, rfl, -⟩ hc
    obtain ⟨t, ht, hbytes, hsize⟩ := Span.suffix_bytes (s := s.whole) hc
    exact ⟨t, ht, by rw [hbytes, whole_bytes], hsize⟩
  data_mem := by rintro s _ _ t ⟨rfl, rfl, -⟩ ht; exact Span.suffix_mem ht
  readImpl_eq := by
    rintro s _ _ dst ⟨rfl, rfl, hb⟩ hc
    have hsub : sizeSub s.contents.length s.cursor = s.contents.length - s.cursor :=
      sizeSub_of_le hc (lt_sizeMax (by omega))
    have hcur : sizeWrap (s.cursor + min dst.length (s.contents.length - s.cursor)) =
        s.cursor + min dst.length (s.contents.length - s.cursor) :=
      sizeWrap_of_lt (lt_sizeMax (by omega))
    refine ⟨⟨s.contents, s.cursor + min dst.length (s.contents.length - s.cursor)⟩,
      ?_, rfl, rfl, hb⟩
    simp only [IReadableStream.readImpl, readImpl, hsub, hcur, List.length_drop]
    rw [if_pos (Nat.min_le_right _ _)]

theorem ofBuffer_rep (b : Buffer) : Rep (ofBuffer b) b.bytes 0 := ⟨rfl, rfl, b.fits⟩

end FileStream

end Tactmon
