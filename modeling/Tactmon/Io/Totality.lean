import Tactmon.Lib.Swaps
import Tactmon.Io.Conformance

/-!
# Endian-aware reads anywhere in a stream

A read asks for a number of elements at some cursor, which may be past the end.
`TotalRead` is what the interface promises of it: it returns, it leaves the
destination's length alone, it takes what is left of the stream and no more, and
the elements it has all bytes of hold the stream's values.

`StreamKind.Serves` says when an implementation keeps that promise.  The swap
loop of `_ReadSpan` needs whole elements, `FileStream` and the view behind the
other streams need a cursor inside the stream, and the slips of `MemoryStream`
and `SpanStream` show in the elements of a short read.
-/

namespace Tactmon

open Binary Cxx

/-! ## The promise -/

/-- The integer the bytes are in this order. -/
def Endian.value : Endian → Bytes → Nat
  | .little => leNat
  | .big => beNat

/-- How many of `n` bytes are left behind the cursor. -/
def bytesLeft (b : Buffer) (cursor n : Nat) : Nat := min n (b.bytes.length - cursor)

/-- What a read of elements of `w` bytes promises: the count, the destination
and the cursor it returns with. -/
def TotalRead (b : Buffer) (cursor : Nat) (dst : Bytes) (e : Endian) (w : Nat)
    (r : Exec (Nat × Bytes × Nat)) : Prop :=
  ∃ out, r = .ok (bytesLeft b cursor dst.length, out, cursor + bytesLeft b cursor dst.length) ∧
    out.length = dst.length ∧
    (bytesLeft b cursor dst.length < dst.length → ∀ i, i * w + w ≤ bytesLeft b cursor dst.length →
      leNat (window out (i * w) w) = e.value (window b.bytes (cursor + i * w) w))

/-! ## One read on an implementation -/

/-- `Read`, with the cursor it leaves. -/
def readFrom {σ : Type} [IReadableStream σ] (s : σ) (dst : Bytes) (e : Endian) (w : Nat) :
    Exec (Nat × Bytes × Nat) := do
  let (readCount, dst, s) ← readSpan s dst e w
  .ok (readCount, dst, getReadCursor s)

/-- A read at a cursor.  The bytes `after` follow the contents in the allocation
a span looks at. -/
def StreamKind.readAt (k : StreamKind) (b : Buffer) (after : Bytes) (cursor : UInt64)
    (dst : Bytes) (e : Endian) (w : Nat) : Exec (Nat × Bytes × Nat) :=
  match k with
  | .span => readFrom (SpanStream.mk (b.span after) cursor.toNat) dst e w
  | .memory => readFrom (MemoryStream.mk (b.span after) cursor.toNat) dst e w
  | .growable => readFrom (GrowableMemoryStream.mk b.bytes cursor.toNat 0) dst e w
  | .file => readFrom (FileStream.mk b.bytes cursor.toNat) dst e w

/-- The elements a short read has all bytes of are found at `source` as well. -/
def SameElements (b : Buffer) (cursor n w : Nat) (source : Bytes) : Prop :=
  bytesLeft b cursor n < n → ∀ i, i * w + w ≤ bytesLeft b cursor n →
    window source (i * w) w = window b.bytes (cursor + i * w) w

/-- When a read keeps the promise. -/
def StreamKind.Serves (k : StreamKind) (b : Buffer) (after : Bytes) (cursor : UInt64)
    (dst : Bytes) (e : Endian) (w : Nat) : Prop :=
  (e = .big → w ∣ bytesLeft b cursor.toNat dst.length) ∧
    match k with
    | .span =>
        cursor.toNat ≤ b.bytes.length ∧
          cursor.toNat + 2 * bytesLeft b cursor.toNat dst.length ≤ b.bytes.length + after.length ∧
          SameElements b cursor.toNat dst.length w after
    | .memory =>
        (cursor.toNat ≤ b.bytes.length ∨ dst = []) ∧
          SameElements b cursor.toNat dst.length w dst
    | .growable => cursor.toNat ≤ b.bytes.length
    | .file => cursor.toNat ≤ b.bytes.length ∨ dst = []

/-! ## Elements and integers -/

theorem Endian.value_inj {e : Endian} {x y : Bytes} (hlen : x.length = y.length) :
    e.value x = e.value y ↔ x = y := by
  refine ⟨fun h => ?_, congrArg _⟩
  cases e with
  | little => exact leNat_inj hlen h
  | big =>
      have hrev : x.reverse = y.reverse := leNat_inj (by simpa using hlen) h
      exact List.reverse_inj.mp hrev

theorem bytesLeft_le (b : Buffer) (cursor n : Nat) : bytesLeft b cursor n ≤ n :=
  Nat.min_le_left _ _

/-- Bytes that are left are inside the stream. -/
theorem add_bytesLeft_le {b : Buffer} {cursor n : Nat} (h : 0 < bytesLeft b cursor n) :
    cursor + bytesLeft b cursor n ≤ b.bytes.length := by
  unfold bytesLeft at h ⊢
  omega

theorem bytesLeft_of_le {b : Buffer} {cursor n : Nat} (h : b.bytes.length ≤ cursor) :
    bytesLeft b cursor n = 0 := by
  rw [bytesLeft, Nat.sub_eq_zero_of_le h, Nat.min_zero]

/-! ## What the swap loop leaves -/

section Swap

variable {σ : Type} [IReadableStream σ] {s s' : σ} {dst out : Bytes} {e : Endian} {m w : Nat}

/-- With whole elements the loop ends, and leaves each element as the integer
its bytes are in the order asked for. -/
theorem readFrom_of_dvd (hw : 0 < w) (hm : m ≤ out.length)
    (hr : IReadableStream.readImpl s dst = .ok (m, out, s')) (hdvd : e = .big → w ∣ m) :
    ∃ out', readFrom s dst e w = .ok (m, out', getReadCursor s') ∧ out'.length = out.length ∧
      ∀ i, i * w + w ≤ m → leNat (window out' (i * w) w) = e.value (window out (i * w) w) := by
  cases e with
  | little =>
      refine ⟨out, ?_, rfl, fun _ _ => rfl⟩
      simp [readFrom, readSpan, hr, Endian.native]
  | big =>
      refine ⟨groupsReverse w (m / w) out, ?_, groupsReverse_length _ _ _, fun i hi => ?_⟩
      · have hswap : swapElements w m out = .ok (groupsReverse w (m / w) out) :=
          if_pos (Nat.mod_eq_zero_of_dvd (hdvd rfl))
        simp [readFrom, readSpan, hr, hswap, Endian.native]
      · have hlt : i < m / w := by
          rw [← Nat.succ_le_iff, Nat.le_div_iff_mul_le hw, Nat.succ_mul]
          exact hi
        have hle : m / w * w ≤ out.length := Nat.le_trans (Nat.div_mul_le_self m w) hm
        rw [window_groupsReverse hlt hle]
        rfl

/-- A read that was cut inside an element runs out of the destination. -/
theorem readFrom_of_not_dvd (hr : IReadableStream.readImpl s dst = .ok (m, out, s'))
    (hdvd : ¬ w ∣ m) : readFrom s dst .big w = .error .outOfBounds := by
  have hswap : swapElements w m out = .error .outOfBounds :=
    if_neg fun h => hdvd (Nat.dvd_of_mod_eq_zero h)
  simp [readFrom, readSpan, hr, hswap, Endian.native]

/-- The count a read returns is that of `_ReadImpl`. -/
theorem readFrom_count {k c : Nat} {out' : Bytes}
    (hr : IReadableStream.readImpl s dst = .ok (m, out, s'))
    (h : readFrom s dst e w = .ok (k, out', c)) : k = m := by
  cases e with
  | little =>
      simp [readFrom, readSpan, hr, Endian.native] at h
      exact h.1.symm
  | big =>
      simp only [readFrom, readSpan, hr, Exec.ok_bind, Endian.native, reduceCtorEq, if_false] at h
      obtain ⟨⟨k', x, t⟩, hx, h⟩ := Exec.bind_eq_ok.mp h
      obtain ⟨y, -, hy⟩ := Exec.bind_eq_ok.mp hx
      cases hy
      cases h
      rfl

/-- Without the bytes there is no read. -/
theorem readFrom_of_error {f : Fault} (hr : IReadableStream.readImpl s dst = .error f) :
    readFrom s dst e w = .error f := by
  simp [readFrom, readSpan, hr]

end Swap

/-! ## One read against the promise -/

theorem not_totalRead_error {b : Buffer} {c w : Nat} {dst : Bytes} {e : Endian} {f : Fault} :
    ¬ TotalRead b c dst e w (.error f) := by
  rintro ⟨out, h, -⟩
  cases h

section Promise

variable {σ : Type} [IReadableStream σ] {s s' : σ} {b : Buffer} {dst out : Bytes} {e : Endian}
  {c w : Nat}

/-- Where `_ReadImpl` takes what is left, the promise is about whole elements and
what they hold. -/
theorem totalRead_iff (hw : 0 < w) (hout : out.length = dst.length)
    (hcur : getReadCursor s' = c + bytesLeft b c dst.length)
    (hr : IReadableStream.readImpl s dst = .ok (bytesLeft b c dst.length, out, s')) :
    TotalRead b c dst e w (readFrom s dst e w) ↔
      (e = .big → w ∣ bytesLeft b c dst.length) ∧ SameElements b c dst.length w out := by
  have hm : bytesLeft b c dst.length ≤ out.length := hout ▸ bytesLeft_le b c dst.length
  by_cases hdvd : e = .big → w ∣ bytesLeft b c dst.length
  · obtain ⟨out', hok, hlen, helem⟩ := readFrom_of_dvd hw hm hr hdvd
    rw [and_iff_right hdvd]
    -- an element inside the read is inside the stream, so both windows are whole
    have hsame : ∀ i, i * w + w ≤ bytesLeft b c dst.length →
        (leNat (window out' (i * w) w) = e.value (window b.bytes (c + i * w) w) ↔
          window out (i * w) w = window b.bytes (c + i * w) w) := by
      intro i hi
      have hpos : 0 < bytesLeft b c dst.length := by omega
      have hin := add_bytesLeft_le hpos
      rw [helem i hi, Endian.value_inj]
      rw [window_length (by omega), window_length (by omega)]
    constructor
    · rintro ⟨x, hx, -, hval⟩ hshort i hi
      rw [hok, Except.ok.injEq, Prod.mk.injEq, Prod.mk.injEq] at hx
      exact (hsame i hi).mp (hx.2.1 ▸ hval hshort i hi)
    · intro hval
      refine ⟨out', by rw [hok, hcur], hlen.trans hout, fun hshort i hi => ?_⟩
      exact (hsame i hi).mpr (hval hshort i hi)
  · have hbig : e = .big := by
      by_contra hne
      exact hdvd fun h => absurd h hne
    cases hbig
    rw [readFrom_of_not_dvd hr fun h => hdvd fun _ => h]
    exact iff_of_false not_totalRead_error fun h => hdvd h.1

/-- A read that takes another number of bytes does not keep the promise. -/
theorem not_totalRead_of_count {m : Nat} (hm : m ≠ bytesLeft b c dst.length)
    (hr : IReadableStream.readImpl s dst = .ok (m, out, s')) :
    ¬ TotalRead b c dst e w (readFrom s dst e w) := by
  rintro ⟨x, hx, -⟩
  exact hm (readFrom_count hr hx).symm

end Promise

/-! ## The four streams -/

/-- What is read from inside the stream are the stream's elements. -/
theorem sameElements_window {b : Buffer} {c n w : Nat} (rest : Bytes) :
    SameElements b c n w (window b.bytes c (bytesLeft b c n) ++ rest) := by
  intro _ i hi
  have hlen : (window b.bytes c (bytesLeft b c n)).length = bytesLeft b c n := by
    rw [window, List.length_take, List.length_drop, bytesLeft]
    omega
  rw [window_append_left (by omega), window_window hi]

/-- Behind a lawful read inside the stream only the swap is in question. -/
theorem LawfulReadable.totalRead_iff {σ : Type} [IReadableStream σ] [LawfulReadable σ] {s : σ}
    {b : Buffer} {c w : Nat} {dst : Bytes} {e : Endian} (hw : 0 < w)
    (hs : CursorReadable.Rep s b.bytes c) (hc : c ≤ b.bytes.length) :
    TotalRead b c dst e w (readFrom s dst e w) ↔ (e = .big → w ∣ bytesLeft b c dst.length) := by
  obtain ⟨s', hr, hs'⟩ := LawfulReadable.readImpl_eq dst hs hc
  have hlen : (window b.bytes c (bytesLeft b c dst.length) ++
      dst.drop (bytesLeft b c dst.length)).length = dst.length := by
    rw [List.length_append, window_length (by rw [bytesLeft]; omega), List.length_drop]
    have := bytesLeft_le b c dst.length
    omega
  rw [Tactmon.totalRead_iff hw hlen (CursorReadable.getReadCursor_eq hs') hr]
  exact and_iff_left (sameElements_window _)

variable {b : Buffer} {after dst : Bytes} {cursor : UInt64} {e : Endian} {w : Nat}

theorem growable_total_iff (hw : 0 < w) :
    TotalRead b cursor.toNat dst e w (StreamKind.growable.readAt b after cursor dst e w) ↔
      StreamKind.growable.Serves b after cursor dst e w := by
  rcases Nat.lt_or_ge b.bytes.length cursor.toNat with hpast | hin
  · have hview : GrowableMemoryStream.view ⟨b.bytes, cursor.toNat, 0⟩ = .error .outOfBounds :=
      dif_neg (Nat.not_le_of_lt hpast)
    have hr : IReadableStream.readImpl (GrowableMemoryStream.mk b.bytes cursor.toNat 0) dst =
        .error .outOfBounds := by
      show GrowableMemoryStream.readImpl _ _ = _
      simp only [GrowableMemoryStream.readImpl, hview, Exec.error_bind]
    rw [StreamKind.readAt, readFrom_of_error hr]
    exact iff_of_false not_totalRead_error fun h => absurd h.2 (Nat.not_le_of_lt hpast)
  · have hs : CursorReadable.Rep (GrowableMemoryStream.mk b.bytes cursor.toNat 0) b.bytes
        cursor.toNat := ⟨rfl, rfl, b.fits⟩
    rw [StreamKind.Serves, and_iff_left hin]
    exact LawfulReadable.totalRead_iff hw hs hin

theorem file_total_iff (hw : 0 < w) :
    TotalRead b cursor.toNat dst e w (StreamKind.file.readAt b after cursor dst e w) ↔
      StreamKind.file.Serves b after cursor dst e w := by
  rcases Nat.lt_or_ge b.bytes.length cursor.toNat with hpast | hin
  · have hdrop : b.bytes.drop cursor.toNat = [] := List.drop_eq_nil_of_le (Nat.le_of_lt hpast)
    have hzero : bytesLeft b cursor.toNat dst.length = 0 := bytesLeft_of_le (Nat.le_of_lt hpast)
    have hlt : cursor.toNat < sizeMax := cursor.toNat_lt
    cases dst with
    | nil =>
        have hr : IReadableStream.readImpl (FileStream.mk b.bytes cursor.toNat) [] =
            .ok (bytesLeft b cursor.toNat 0, [], ⟨b.bytes, cursor.toNat⟩) := by
          show FileStream.readImpl _ _ = _
          simp [FileStream.readImpl, bytesLeft, window, sizeWrap_of_lt hlt]
        rw [StreamKind.readAt, totalRead_iff hw rfl (by rw [hzero]; rfl) hr, StreamKind.Serves]
        simp [SameElements]
    | cons x dst =>
        -- the length of the read wraps to something positive, and nothing is there
        have hpos : 0 < min (x :: dst).length (sizeSub b.bytes.length cursor.toNat) := by
          rw [sizeSub, Nat.mod_eq_of_lt (by omega), List.length_cons]
          omega
        have hr : IReadableStream.readImpl (FileStream.mk b.bytes cursor.toNat) (x :: dst) =
            .error .outOfBounds := by
          show FileStream.readImpl _ _ = _
          rw [FileStream.readImpl, hdrop, List.length_nil]
          exact if_neg (Nat.not_le_of_lt hpos)
        rw [StreamKind.readAt, readFrom_of_error hr]
        refine iff_of_false not_totalRead_error fun h => ?_
        cases h.2 with
        | inl hle => exact absurd hle (Nat.not_le_of_lt hpast)
        | inr hnil => cases hnil
  · have hs : CursorReadable.Rep (FileStream.mk b.bytes cursor.toNat) b.bytes cursor.toNat :=
      ⟨rfl, rfl, b.fits⟩
    have hserve : cursor.toNat ≤ b.bytes.length ∨ dst = [] := .inl hin
    rw [StreamKind.Serves, and_iff_left hserve]
    exact LawfulReadable.totalRead_iff hw hs hin

theorem memory_total_iff (hw : 0 < w) :
    TotalRead b cursor.toNat dst e w (StreamKind.memory.readAt b after cursor dst e w) ↔
      StreamKind.memory.Serves b after cursor dst e w := by
  have hlt : cursor.toNat < sizeMax := cursor.toNat_lt
  have hfits : b.bytes.length < sizeMax := lt_sizeMax b.fits
  have himpl : ∀ view : Span, view.size = b.bytes.length →
      IReadableStream.readImpl (MemoryStream.mk view cursor.toNat) dst =
        .ok (min dst.length (sizeSub b.bytes.length cursor.toNat), dst,
          ⟨view, sizeWrap (cursor.toNat +
            min dst.length (sizeSub b.bytes.length cursor.toNat))⟩) := by
    rintro view hsize
    show MemoryStream.readImpl _ _ = _
    rw [MemoryStream.readImpl, hsize]
  -- the bytes the stream says it has read
  have hcount : cursor.toNat ≤ b.bytes.length ∨ dst = [] →
      min dst.length (sizeSub b.bytes.length cursor.toNat) =
        bytesLeft b cursor.toNat dst.length := by
    rintro (hin | rfl)
    · rw [sizeSub_of_le hin hfits, bytesLeft]
    · simp [bytesLeft]
  by_cases hserve : cursor.toNat ≤ b.bytes.length ∨ dst = []
  · have hcur : sizeWrap (cursor.toNat + bytesLeft b cursor.toNat dst.length) =
        cursor.toNat + bytesLeft b cursor.toNat dst.length := by
      refine sizeWrap_of_lt ?_
      rcases hserve with hin | rfl
      · rw [bytesLeft]
        omega
      · simpa [bytesLeft] using hlt
    rw [StreamKind.Serves, and_iff_right hserve]
    refine totalRead_iff hw rfl ?_ (by rw [himpl _ rfl, hcount hserve])
    exact hcur
  · rw [not_or] at hserve
    have hzero : bytesLeft b cursor.toNat dst.length = 0 := bytesLeft_of_le (by omega)
    have hpos : min dst.length (sizeSub b.bytes.length cursor.toNat) ≠
        bytesLeft b cursor.toNat dst.length := by
      have hlen := List.length_pos_iff.mpr hserve.2
      rw [hzero, sizeSub, Nat.mod_eq_of_lt (by omega)]
      omega
    refine iff_of_false (not_totalRead_of_count hpos (himpl _ rfl)) fun h => ?_
    exact not_or.mpr hserve h.2.1

/-- A span stream loads the bytes behind those it counts as read. -/
theorem span_readImpl (hin : cursor.toNat ≤ b.bytes.length) :
    ∃ u : Span,
      u.mem = (b.bytes ++ after).drop (cursor.toNat + bytesLeft b cursor.toNat dst.length) ∧
      IReadableStream.readImpl (SpanStream.mk (b.span after) cursor.toNat) dst = (do
        let bytes ← u.load (bytesLeft b cursor.toNat dst.length)
        .ok (bytesLeft b cursor.toNat dst.length,
          bytes ++ dst.drop (bytesLeft b cursor.toNat dst.length),
          ⟨b.span after, cursor.toNat + bytesLeft b cursor.toNat dst.length⟩)) := by
  have hfits : b.bytes.length < sizeMax := lt_sizeMax b.fits
  have hcount : min dst.length (sizeSub b.bytes.length cursor.toNat) =
      bytesLeft b cursor.toNat dst.length := by rw [sizeSub_of_le hin hfits, bytesLeft]
  have hle : cursor.toNat + bytesLeft b cursor.toNat dst.length ≤ b.bytes.length := by
    rw [bytesLeft]
    omega
  have hcur : sizeWrap (cursor.toNat + bytesLeft b cursor.toNat dst.length) =
      cursor.toNat + bytesLeft b cursor.toNat dst.length := sizeWrap_of_lt (by omega)
  have hsize : (b.span after).size = b.bytes.length := rfl
  obtain ⟨t, ht, htmem, htsize⟩ := (b.span after).suffix_of_le (hsize ▸ hin)
  have hsource : bytesLeft b cursor.toNat dst.length ≤ t.size := by
    rw [htsize, hsize]
    omega
  obtain ⟨u, hu, humem, -⟩ := t.suffix_of_le hsource
  refine ⟨u, by rw [humem, htmem, List.drop_drop]; rfl, ?_⟩
  show SpanStream.readImpl _ _ = _
  simp only [SpanStream.readImpl, SpanStream.view, hsize, hcount, ht, hu, Exec.ok_bind, hcur]

theorem span_total_iff (hw : 0 < w) :
    TotalRead b cursor.toNat dst e w (StreamKind.span.readAt b after cursor dst e w) ↔
      StreamKind.span.Serves b after cursor dst e w := by
  show TotalRead b cursor.toNat dst e w
    (readFrom (SpanStream.mk (b.span after) cursor.toNat) dst e w) ↔ _
  rcases Nat.lt_or_ge b.bytes.length cursor.toNat with hpast | hin
  · have hr : IReadableStream.readImpl (SpanStream.mk (b.span after) cursor.toNat) dst =
        .error .outOfBounds := by
      show SpanStream.readImpl _ _ = _
      have hsuffix : ¬ cursor.toNat ≤ (b.span after).size := Nat.not_le_of_lt hpast
      rw [SpanStream.readImpl, SpanStream.view, Span.suffix, dif_neg hsuffix]
      rfl
    rw [readFrom_of_error hr]
    exact iff_of_false not_totalRead_error fun h => absurd h.2.1 (Nat.not_le_of_lt hpast)
  · obtain ⟨u, hmem, himpl⟩ : ∃ u : Span, u.mem =
        (b.bytes ++ after).drop (cursor.toNat + bytesLeft b cursor.toNat dst.length) ∧ _ :=
      span_readImpl hin
    have hlen : u.mem.length =
        b.bytes.length + after.length - (cursor.toNat + bytesLeft b cursor.toNat dst.length) := by
      rw [hmem, List.length_drop, List.length_append]
    rw [StreamKind.Serves, and_iff_right hin]
    by_cases hload : cursor.toNat + 2 * bytesLeft b cursor.toNat dst.length ≤
        b.bytes.length + after.length
    · rw [and_iff_right hload]
      have hn : bytesLeft b cursor.toNat dst.length ≤ u.mem.length := by omega
      rw [Span.load_of_le hn, Exec.ok_bind] at himpl
      have htake : (u.mem.take (bytesLeft b cursor.toNat dst.length)).length =
          bytesLeft b cursor.toNat dst.length := by
        rw [List.length_take, Nat.min_eq_left hn]
      have hout : (u.mem.take (bytesLeft b cursor.toNat dst.length) ++
          dst.drop (bytesLeft b cursor.toNat dst.length)).length = dst.length := by
        have := bytesLeft_le b cursor.toNat dst.length
        rw [List.length_append, htake, List.length_drop]
        omega
      rw [totalRead_iff hw hout rfl himpl]
      refine and_congr_right fun _ => forall_congr' fun hshort => forall₂_congr fun i hi => ?_
      -- a short read ends with the stream, so it was read from what follows
      have hend : cursor.toNat + bytesLeft b cursor.toNat dst.length = b.bytes.length := by
        rw [bytesLeft] at hshort ⊢
        omega
      have hprefix : window (after.take (bytesLeft b cursor.toNat dst.length)) (i * w) w =
          window after (i * w) w := by
        rw [window, window, List.drop_take, List.take_take, Nat.min_eq_left (by omega)]
      rw [window_append_left (by omega), hmem, hend, List.drop_left, hprefix]
    · have hn : u.mem.length < bytesLeft b cursor.toNat dst.length := by omega
      rw [Span.load_of_lt hn, Exec.error_bind] at himpl
      rw [readFrom_of_error himpl]
      exact iff_of_false not_totalRead_error fun h => hload h.2.1

/-! ## Every stream -/

/-- A read anywhere in any of the streams keeps the promise exactly when its
implementation serves it. -/
theorem StreamKind.readAt_total_iff (k : StreamKind) (b : Buffer) (after : Bytes)
    (cursor : UInt64) (dst : Bytes) (e : Endian) (w : Nat) (hw : 0 < w) :
    TotalRead b cursor.toNat dst e w (k.readAt b after cursor dst e w) ↔
      k.Serves b after cursor dst e w := by
  cases k with
  | span => exact span_total_iff hw
  | memory => exact memory_total_iff hw
  | growable => exact growable_total_iff hw
  | file => exact file_total_iff hw

/-- Two big-endian integers, of which the stream holds one. -/
theorem StreamKind.readAt_total_one :
    TotalRead ⟨[0, 0, 1, 2], by simp⟩ 0 (List.replicate 8 0) .big 4
      (StreamKind.growable.readAt ⟨[0, 0, 1, 2], by simp⟩ [] 0 (List.replicate 8 0) .big 4) :=
  (StreamKind.growable.readAt_total_iff ⟨[0, 0, 1, 2], by simp⟩ [] 0 (List.replicate 8 0) .big 4
    (by decide)).mpr ⟨fun _ => by decide, Nat.zero_le _⟩

/-- Of a big-endian integer the stream holds three bytes out of four. -/
theorem StreamKind.readAt_cut :
    ¬ TotalRead ⟨[0, 1, 2], by simp⟩ 0 [0, 0, 0, 0] .big 4
      (StreamKind.growable.readAt ⟨[0, 1, 2], by simp⟩ [] 0 [0, 0, 0, 0] .big 4) := by
  have hcut : StreamKind.growable.readAt ⟨[0, 1, 2], by simp⟩ [] 0 [0, 0, 0, 0] .big 4 =
      .error .outOfBounds := rfl
  rw [hcut]
  exact not_totalRead_error

end Tactmon
