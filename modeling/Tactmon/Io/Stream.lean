import Tactmon.Lib.Memory

/-!
# Readable streams

`IReadableStream` is the virtual interface of `io/IReadableStream.hpp`.  A
member function that changes the stream returns the new stream.  `_ReadImpl`
also returns the contents of the destination, since the four implementations
differ in what they leave there.

`readSpan` is `_ReadSpan`.  The platform is little endian, so a big-endian
read swaps the bytes of each element.  The swap loop advances by whole
elements and stops on equality with the end of the bytes read.  When the read
was cut inside an element it never meets that end and runs out of the
destination.

`LawfulReadable` is what a parser relies on: the stream is a byte string and a
cursor, and every member function acts on the two as its documentation says.
Seeking past the end is left open between the implementations that clamp and
those that do not.
-/

namespace Tactmon

open Binary Cxx

/-! ## The interface -/

/-- `std::endian`, on a little-endian platform. -/
inductive Endian where
  | little
  | big
deriving DecidableEq, Repr

/-- `std::endian::native`. -/
def Endian.native : Endian := .little

/-- `io::IReadableStream`. -/
class IReadableStream (σ : Type) where
  getLength : σ → Nat
  getReadCursor : σ → Nat
  /-- Returns the new position of the read cursor. -/
  seekRead : σ → Nat → Nat × σ
  skipRead : σ → Nat → σ
  canRead : σ → Nat → Bool
  data : σ → Exec Span
  /-- Takes the contents of the destination and returns the byte count and the
  contents it leaves there. -/
  readImpl : σ → Bytes → Exec (Nat × Bytes × σ)

export IReadableStream (getLength getReadCursor seekRead skipRead canRead)

section Reads

variable {σ : Type} [IReadableStream σ]

/-! ## Endian-aware reads -/

/-- The loop that reverses each element of the first `count` bytes. -/
def swapElements (elementSize count : Nat) (dst : Bytes) : Exec Bytes :=
  if count % elementSize = 0 then .ok (groupsReverse elementSize (count / elementSize) dst)
  else .error .outOfBounds

/-- `_ReadSpan`. -/
def readSpan (s : σ) (dst : Bytes) (endianness : Endian) (elementSize : Nat) :
    Exec (Nat × Bytes × σ) := do
  let (readCount, dst, s) ← IReadableStream.readImpl s dst
  if endianness = .native then .ok (readCount, dst, s)
  else do
    let dst ← swapElements elementSize readCount dst
    .ok (readCount, dst, s)

/-- `Read<T>()` for an integer of `w` bytes, which starts out as zero. -/
def readInt (w : Nat) (s : σ) (endianness : Endian) : Exec (Nat × σ) := do
  let (_, dst, s) ← readSpan s (List.replicate w 0) endianness w
  .ok (leNat dst, s)

/-- `Read(value)` for a byte array, which keeps what a short read leaves. -/
def readArray (s : σ) (value : Bytes) (endianness : Endian) : Exec (Bytes × σ) := do
  let (_, dst, s) ← readSpan s value endianness value.length
  .ok (dst, s)

/-- `Data<uint8_t>().subspan(0, count)`. -/
def dataBytes (s : σ) (count : Nat) : Exec Bytes := do
  let view ← IReadableStream.data s
  let t ← view.subspan 0 count
  .ok t.bytes

/-- The loop of `ReadCString`, with `elem` as the last read has left it.  At the
end of the stream a read leaves it alone, so the loop that has not ended by then
goes on for ever. -/
def readCStringFrom : Nat → UInt8 → Bytes → σ → Exec (Bytes × σ)
  | 0, _, _, _ => .error .diverges
  | fuel + 1, elem, value, s => do
      let (_, dst, s) ← readSpan s [elem] .native 1
      let elem := dst.headD 0
      if elem = 0 then .ok (value, s) else readCStringFrom fuel elem (value ++ [elem]) s

/-- `ReadCString`, into an empty string. -/
def readCString (s : σ) : Exec (Bytes × σ) := readCStringFrom (getLength s + 1) 0 [] s

/-- In a span of bytes there is nothing to swap. -/
theorem readSpan_bytes (s : σ) (dst : Bytes) (endianness : Endian) :
    readSpan s dst endianness 1 = IReadableStream.readImpl s dst := by
  rw [readSpan]
  cases IReadableStream.readImpl s dst with
  | error f => rfl
  | ok r => simp [swapElements, Nat.mod_one]

end Reads

/-! ## What a parser relies on -/

/-- A stream that is a byte string with a cursor, reads left aside. -/
class CursorReadable (σ : Type) [IReadableStream σ] where
  /-- The stream holds these bytes and its read cursor is there. -/
  Rep : σ → Bytes → Nat → Prop
  fits : ∀ {s : σ} {b c}, Rep s b c → b.length < 2 ^ 63
  getLength_eq : ∀ {s : σ} {b c}, Rep s b c → getLength s = b.length
  getReadCursor_eq : ∀ {s : σ} {b c}, Rep s b c → getReadCursor s = c
  canRead_eq : ∀ {s : σ} {b c} (n : Nat), Rep s b c →
    canRead s n = decide (sizeWrap (c + n) ≤ b.length)
  skipRead_rep : ∀ {s : σ} {b c} (k : Nat), Rep s b c → Rep (skipRead s k) b (sizeWrap (c + k))
  seekRead_rep : ∀ {s : σ} {b c} (o : Nat), Rep s b c → ∃ c', Rep (seekRead s o).2 b c' ∧
    (seekRead s o).1 = c' ∧ (o ≤ b.length → c' = o) ∧
    (b.length < o → b.length ≤ c' ∧ c' ≤ o)
  data_eq : ∀ {s : σ} {b c}, Rep s b c → c ≤ b.length →
    ∃ t, IReadableStream.data s = .ok t ∧ t.bytes = b.drop c ∧ t.size = b.length - c

/-- A stream whose reads return the bytes at its cursor. -/
class LawfulReadable (σ : Type) [IReadableStream σ] extends CursorReadable σ where
  data_mem : ∀ {s : σ} {b c t}, Rep s b c → IReadableStream.data s = .ok t → t.mem = b.drop c
  readImpl_eq : ∀ {s : σ} {b c} (dst : Bytes), Rep s b c → c ≤ b.length →
    ∃ s', IReadableStream.readImpl s dst =
        .ok (min dst.length (b.length - c),
          window b c (min dst.length (b.length - c)) ++
            dst.drop (min dst.length (b.length - c)), s') ∧
      Rep s' b (c + min dst.length (b.length - c))

section Lawful

variable {σ : Type} [IReadableStream σ]

open CursorReadable LawfulReadable

/-- Inside the stream nothing wraps. -/
theorem CursorReadable.canRead_iff [CursorReadable σ] {s : σ} {b : Bytes} {c n : Nat}
    (h : Rep s b c) (hn : c + n < sizeMax) : canRead s n = true ↔ c + n ≤ b.length := by
  rw [canRead_eq n h, sizeWrap_of_lt hn, decide_eq_true_iff]

/-- The last bytes of a stream can be read. -/
theorem CursorReadable.canRead_last [CursorReadable σ] {s : σ} {b : Bytes} {n : Nat}
    (h : Rep s b (b.length - n)) (hn : n ≤ b.length) : canRead s n = true := by
  have hfits := fits h
  rw [canRead_iff h (lt_sizeMax (by omega))]
  omega

theorem CursorReadable.skipRead_of_lt [CursorReadable σ] {s : σ} {b : Bytes} {c k : Nat}
    (h : Rep s b c) (hk : c + k < sizeMax) : Rep (skipRead s k) b (c + k) := by
  have := skipRead_rep k h
  rwa [sizeWrap_of_lt hk] at this

variable [LawfulReadable σ]

/-- A read that the stream can serve returns the bytes at the cursor. -/
theorem readImpl_full {s : σ} {b dst : Bytes} {c : Nat} (h : Rep s b c)
    (hn : c + dst.length ≤ b.length) :
    ∃ s', IReadableStream.readImpl s dst = .ok (dst.length, window b c dst.length, s') ∧
      Rep s' b (c + dst.length) := by
  obtain ⟨s', hr, hs⟩ := readImpl_eq dst h (by omega)
  rw [Nat.min_eq_left (by omega)] at hr hs
  rw [List.drop_length, List.append_nil] at hr
  exact ⟨s', hr, hs⟩

/-- A full read of so many bytes. -/
theorem readImpl_replicate {s : σ} {b : Bytes} {c w : Nat} (h : Rep s b c)
    (hn : c + w ≤ b.length) :
    ∃ s', IReadableStream.readImpl s (List.replicate w 0) = .ok (w, window b c w, s') ∧
      Rep s' b (c + w) := by
  have hn' : c + (List.replicate w (0 : UInt8)).length ≤ b.length := by
    rwa [List.length_replicate]
  have hread := readImpl_full h hn'
  rwa [List.length_replicate] at hread

/-- A full read of an array returns the bytes at the cursor. -/
theorem readArray_full {s : σ} {b dst : Bytes} {c : Nat} (h : Rep s b c)
    (hn : c + dst.length ≤ b.length) :
    ∃ s', readArray s dst .little = .ok (window b c dst.length, s') ∧
      Rep s' b (c + dst.length) := by
  obtain ⟨s', hr, hs⟩ := readImpl_full h hn
  refine ⟨s', ?_, hs⟩
  simp [readArray, readSpan, hr, Endian.native]

/-- A full little-endian read. -/
theorem readInt_little {s : σ} {b : Bytes} {c w : Nat} (h : Rep s b c)
    (hn : c + w ≤ b.length) :
    ∃ s', readInt w s .little = .ok (leNat (window b c w), s') ∧ Rep s' b (c + w) := by
  obtain ⟨s', hr, hs⟩ := readImpl_replicate h hn
  refine ⟨s', ?_, hs⟩
  simp [readInt, readSpan, hr, Endian.native]

/-- A full big-endian read. -/
theorem readInt_big {s : σ} {b : Bytes} {c w : Nat} (hw : 0 < w) (h : Rep s b c)
    (hn : c + w ≤ b.length) :
    ∃ s', readInt w s .big = .ok (beNat (window b c w), s') ∧ Rep s' b (c + w) := by
  obtain ⟨s', hr, hs⟩ := readImpl_replicate h hn
  refine ⟨s', ?_, hs⟩
  have hlen : (window b c w).length = w := window_length hn
  have hswap : swapElements w w (window b c w) = .ok (window b c w).reverse := by
    rw [swapElements, if_pos (Nat.mod_self w), Nat.div_self hw, groupsReverse_one,
      List.take_of_length_le (by omega), List.drop_eq_nil_of_le (by omega), List.append_nil]
  simp [readInt, readSpan, hr, Endian.native, hswap, beNat]

/-- A big-endian read that returns, at a cursor inside the stream.  One that
is cut inside the integer does not return. -/
theorem readInt_big_ok {s s' : σ} {b : Bytes} {c w v : Nat} (hw : 0 < w) (h : Rep s b c)
    (hc : c ≤ b.length) (hr : readInt w s .big = .ok (v, s')) :
    v = beNat (window b c w) ∧ Rep s' b (min (c + w) b.length) := by
  by_cases hn : c + w ≤ b.length
  · obtain ⟨s₁, hr₁, hs₁⟩ := readInt_big hw h hn
    rw [hr₁] at hr
    cases hr
    rw [Nat.min_eq_left hn]
    exact ⟨rfl, hs₁⟩
  · obtain ⟨s₁, hr₁, hs₁⟩ := readImpl_eq (List.replicate w 0) h hc
    rw [List.length_replicate, Nat.min_eq_right (by omega)] at hr₁ hs₁
    rw [readInt, readSpan, hr₁, Exec.ok_bind] at hr
    simp only [Endian.native, swapElements, reduceCtorEq, if_false] at hr
    by_cases h0 : b.length - c = 0
    · rw [h0, Nat.zero_mod, if_pos rfl, window_zero] at hr
      simp only [Nat.zero_div, groupsReverse_zero, List.drop_zero, List.nil_append, Exec.ok_bind,
        leNat_replicate_zero] at hr
      cases hr
      have hempty : window b c w = [] := by
        rw [window, List.drop_eq_nil_of_le (by omega), List.take_nil]
      rw [hempty, Nat.min_eq_right (by omega)]
      rw [show c + (b.length - c) = b.length by omega] at hs₁
      exact ⟨rfl, hs₁⟩
    · rw [Nat.mod_eq_of_lt (by omega), if_neg h0] at hr
      cases hr

/-- A read of an array that returns. -/
theorem readArray_ok {s s' : σ} {b dst x : Bytes} {c : Nat} (h : Rep s b c) (hc : c ≤ b.length)
    (hr : readArray s dst .little = .ok (x, s')) :
    Rep s' b (min (c + dst.length) b.length) := by
  obtain ⟨s₁, hr₁, hs₁⟩ := readImpl_eq dst h hc
  simp only [readArray, readSpan, hr₁, Exec.ok_bind, Endian.native, if_pos] at hr
  cases hr
  rwa [show min (c + dst.length) b.length = c + min dst.length (b.length - c) by omega]

/-- A read of a span of bytes returns, short or not. -/
theorem readSpan_bytes_rep {s : σ} {b : Bytes} {c : Nat} (dst : Bytes) (endianness : Endian)
    (h : Rep s b c) (hc : c ≤ b.length) :
    ∃ n x s', readSpan s dst endianness 1 = .ok (n, x, s') ∧
      Rep s' b (min (c + dst.length) b.length) := by
  obtain ⟨s', hr, hs'⟩ := readImpl_eq dst h hc
  rw [show c + min dst.length (b.length - c) = min (c + dst.length) b.length by omega] at hs'
  exact ⟨_, _, s', by rw [readSpan_bytes, hr], hs'⟩

/-- The bytes at the cursor, without reading them. -/
theorem dataBytes_eq {s : σ} {b : Bytes} {c n : Nat} (h : Rep s b c) (hn : c + n ≤ b.length) :
    dataBytes s n = .ok (window b c n) := by
  obtain ⟨view, hview, -, hsize⟩ := data_eq h (by omega)
  obtain ⟨t, ht, hmem, htsize⟩ := Span.subspan_of_le (by omega : 0 + n ≤ view.size)
  rw [dataBytes, hview, Exec.ok_bind, ht, Exec.ok_bind, Span.bytes, hmem, htsize, List.drop_zero,
    data_mem h hview, window]

/-- Seeking to a position inside the stream. -/
theorem seekRead_of_le {s : σ} {b : Bytes} {c o : Nat} (h : Rep s b c) (ho : o ≤ b.length) :
    Rep (seekRead s o).2 b o := by
  obtain ⟨c', hs, -, hin, -⟩ := seekRead_rep o h
  rwa [hin ho] at hs

/-- All the bytes of the stream, wherever its cursor was. -/
theorem dataBytes_whole {s : σ} {b : Bytes} {c : Nat} (h : Rep s b c) :
    dataBytes (seekRead s 0).2 (getLength (seekRead s 0).2) = .ok b := by
  have hseek := seekRead_of_le h (Nat.zero_le _)
  rw [getLength_eq hseek, dataBytes_eq hseek (Nat.le_of_eq (Nat.zero_add _)), window,
    List.drop_zero, List.take_length]

/-! ## Reading what is left -/

/-- The stream holds `b`, and `rest` is what its read cursor has left of it. -/
def Unread (s : σ) (b rest : Bytes) : Prop :=
  ∃ c, Rep s b c ∧ c + rest.length = b.length ∧ b.drop c = rest

theorem Unread.of_rep {s : σ} {b : Bytes} (h : Rep s b 0) : Unread s b b :=
  ⟨0, h, Nat.zero_add _, rfl⟩

theorem Unread.rep {s : σ} {b rest : Bytes} (h : Unread s b rest) :
    Rep s b (b.length - rest.length) := by
  obtain ⟨c, hs, hlen, -⟩ := h
  rwa [← hlen, Nat.add_sub_cancel]

/-- The bytes in front of the read cursor and behind it. -/
theorem Unread.cursor_add {s : σ} {b rest : Bytes} (h : Unread s b rest) :
    getReadCursor s + rest.length = b.length := by
  obtain ⟨c, hs, hlen, -⟩ := h
  rwa [CursorReadable.getReadCursor_eq hs]

/-- What is left after the first part of what was left. -/
theorem Unread.drop_append {b x rest : Bytes} {c : Nat} (hlen : c + (x ++ rest).length = b.length)
    (h : b.drop c = x ++ rest) :
    window b c x.length = x ∧ b.drop (c + x.length) = rest ∧
      c + x.length + rest.length = b.length := by
  rw [List.length_append] at hlen
  refine ⟨?_, ?_, by omega⟩
  · rw [window, h, List.take_left]
  · rw [← List.drop_drop, h, List.drop_left]

/-- The test for more bytes, when nothing wraps. -/
theorem Unread.canRead_iff {s : σ} {b rest : Bytes} (h : Unread s b rest) {n : Nat}
    (hn : n < 2 ^ 63) : canRead s n = true ↔ n ≤ rest.length := by
  obtain ⟨c, hs, hlen, -⟩ := h
  have hfits := CursorReadable.fits hs
  have hc : c < 2 ^ 63 := by omega
  rw [CursorReadable.canRead_iff hs (add_lt_sizeMax hc hn), ← hlen]
  exact Nat.add_le_add_iff_left

/-- The read cursor is in front of the end while something is left. -/
theorem Unread.cursor_lt_iff {s : σ} {b rest : Bytes} (h : Unread s b rest) :
    getReadCursor s < getLength s ↔ rest ≠ [] := by
  obtain ⟨c, hs, hlen, -⟩ := h
  rw [CursorReadable.getReadCursor_eq hs, CursorReadable.getLength_eq hs, ← hlen,
    ← List.length_pos_iff]
  omega

/-- The view is what is left. -/
theorem Unread.data {s : σ} {b rest : Bytes} (h : Unread s b rest) :
    ∃ t, IReadableStream.data s = .ok t ∧ t.mem = rest ∧ t.size = rest.length := by
  obtain ⟨c, hs, hlen, hdrop⟩ := h
  obtain ⟨t, ht, -, hsize⟩ := CursorReadable.data_eq hs (by omega)
  exact ⟨t, ht, (data_mem hs ht).trans hdrop, by omega⟩

/-- The bytes at the cursor, without reading them. -/
theorem Unread.dataBytes {s : σ} {b x rest : Bytes} (h : Unread s b (x ++ rest)) :
    dataBytes s x.length = .ok x := by
  obtain ⟨c, hs, hlen, hdrop⟩ := h
  obtain ⟨hwin, -, hlen'⟩ := Unread.drop_append hlen hdrop
  rw [dataBytes_eq hs (by omega), hwin]

theorem Unread.skipRead {s : σ} {b x rest : Bytes} (h : Unread s b (x ++ rest)) :
    Unread (skipRead s x.length) b rest := by
  obtain ⟨c, hs, hlen, hdrop⟩ := h
  have := CursorReadable.fits hs
  obtain ⟨-, hrest, hlen'⟩ := Unread.drop_append hlen hdrop
  exact ⟨c + x.length, CursorReadable.skipRead_of_lt hs (lt_sizeMax (by omega)), hlen', hrest⟩

/-- Seeking to a position inside the stream. -/
theorem Unread.of_seek {s : σ} {b rest : Bytes} {c o : Nat} (h : Rep s b c) (ho : o ≤ b.length)
    (hrest : b.drop o = rest) : Unread (seekRead s o).2 b rest :=
  ⟨o, seekRead_of_le h ho, by rw [← hrest, List.length_drop]; omega, hrest⟩

theorem readInt_beBytes {s : σ} {b rest : Bytes} {w v : Nat} (hw : 0 < w) (hv : v < 256 ^ w)
    (h : Unread s b (beBytes w v ++ rest)) :
    ∃ s', readInt w s .big = .ok (v, s') ∧ Unread s' b rest := by
  obtain ⟨c, hs, hlen, hdrop⟩ := h
  obtain ⟨hwin, hrest, hlen'⟩ := Unread.drop_append hlen hdrop
  rw [beBytes_length] at hwin hrest hlen'
  obtain ⟨s', hr, hs'⟩ := readInt_big hw hs (by omega)
  rw [hwin, beNat_beBytes_of_lt hv] at hr
  exact ⟨s', hr, c + w, hs', hlen', hrest⟩

theorem readInt_leBytes {s : σ} {b rest : Bytes} {w v : Nat} (hv : v < 256 ^ w)
    (h : Unread s b (leBytes w v ++ rest)) :
    ∃ s', readInt w s .little = .ok (v, s') ∧ Unread s' b rest := by
  obtain ⟨c, hs, hlen, hdrop⟩ := h
  obtain ⟨hwin, hrest, hlen'⟩ := Unread.drop_append hlen hdrop
  rw [leBytes_length] at hwin hrest hlen'
  have hn : c + w ≤ b.length := by omega
  obtain ⟨s', hr, hs'⟩ := readInt_little hs hn
  rw [hwin, leNat_leBytes_of_lt hv] at hr
  exact ⟨s', hr, c + w, hs', hlen', hrest⟩

/-- A byte has no order. -/
theorem readByte_beBytes {s : σ} {b rest : Bytes} {v : Nat} (hv : v < 2 ^ 8)
    (h : Unread s b (beBytes 1 v ++ rest)) :
    ∃ s', readInt 1 s .native = .ok (v, s') ∧ Unread s' b rest := readInt_leBytes hv h

theorem readArray_append {s : σ} {b x rest dst : Bytes} (hdst : dst.length = x.length)
    (h : Unread s b (x ++ rest)) :
    ∃ s', readArray s dst .little = .ok (x, s') ∧ Unread s' b rest := by
  obtain ⟨c, hs, hlen, hdrop⟩ := h
  obtain ⟨hwin, hrest, hlen'⟩ := Unread.drop_append hlen hdrop
  have hn : c + dst.length ≤ b.length := by omega
  obtain ⟨s', hr, hs'⟩ := readArray_full hs hn
  rw [hdst, hwin] at hr
  rw [hdst] at hs'
  exact ⟨s', hr, c + x.length, hs', hlen', hrest⟩

theorem readSpan_append {s : σ} {b x rest dst : Bytes} (endianness : Endian)
    (hdst : dst.length = x.length) (h : Unread s b (x ++ rest)) :
    ∃ s', readSpan s dst endianness 1 = .ok (dst.length, x, s') ∧ Unread s' b rest := by
  obtain ⟨c, hs, hlen, hdrop⟩ := h
  obtain ⟨hwin, hrest, hlen'⟩ := Unread.drop_append hlen hdrop
  have hn : c + dst.length ≤ b.length := by omega
  obtain ⟨s', hr, hs'⟩ := readImpl_full hs hn
  rw [hdst, hwin] at hr
  rw [hdst] at hs'
  exact ⟨s', by rw [readSpan_bytes, hr, hdst], c + x.length, hs', hlen', hrest⟩

/-! ## Strings with a terminator -/

/-- One turn of the loop, in front of the end. -/
theorem readCStringFrom_cons {s : σ} {b rest : Bytes} {c : UInt8} (fuel : Nat) (elem : UInt8)
    (value : Bytes) (h : Unread s b (c :: rest)) :
    ∃ s', Unread s' b rest ∧ readCStringFrom (fuel + 1) elem value s =
      if c = 0 then .ok (value, s') else readCStringFrom fuel c (value ++ [c]) s' := by
  have hone : Unread s b ([c] ++ rest) := h
  have hlen : [elem].length = [c].length := rfl
  obtain ⟨s', hr, h'⟩ := readSpan_append .native hlen hone
  exact ⟨s', h', by rw [readCStringFrom, hr, Exec.ok_bind]; rfl⟩

/-- A string is read up to its terminator. -/
theorem readCStringFrom_append {b rest : Bytes} (name : Bytes) :
    ∀ {fuel : Nat} (elem : UInt8) (value : Bytes) {s : σ}, 0 ∉ name → name.length < fuel →
      Unread s b (name ++ 0 :: rest) →
      ∃ s', readCStringFrom fuel elem value s = .ok (value ++ name, s') ∧ Unread s' b rest := by
  induction name with
  | nil =>
      intro fuel elem value s _ hfuel h
      obtain ⟨fuel, rfl⟩ := Nat.exists_eq_add_one.mpr hfuel
      obtain ⟨s', h', hturn⟩ := readCStringFrom_cons fuel elem value h
      rw [hturn, if_pos rfl, List.append_nil]
      exact ⟨s', rfl, h'⟩
  | cons c name ih =>
      intro fuel elem value s hname hfuel h
      obtain ⟨fuel, rfl⟩ := Nat.exists_eq_add_one.mpr (Nat.zero_lt_of_lt hfuel)
      rw [List.mem_cons, not_or] at hname
      obtain ⟨s₁, h₁, hturn⟩ := readCStringFrom_cons fuel elem value h
      obtain ⟨s', hr, h'⟩ := ih c (value ++ [c]) hname.2 (Nat.lt_of_succ_lt_succ hfuel) h₁
      rw [hturn, if_neg (Ne.symm hname.1), hr, List.append_assoc, List.singleton_append]
      exact ⟨s', rfl, h'⟩

theorem readCString_append {s : σ} {b name rest : Bytes} (hname : 0 ∉ name)
    (h : Unread s b (name ++ 0 :: rest)) :
    ∃ s', readCString s = .ok (name, s') ∧ Unread s' b rest := by
  have hlen := h.cursor_add
  rw [List.length_append] at hlen
  rw [readCString, CursorReadable.getLength_eq h.rep]
  exact readCStringFrom_append name 0 [] hname (by omega) h

end Lawful

end Tactmon
