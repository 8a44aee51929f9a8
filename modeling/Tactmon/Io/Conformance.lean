import Tactmon.Lib.Conformance
import Tactmon.Io.MemoryStream

/-!
# The readable streams against their interface

`RefStream` is the stream the documentation of `IReadableStream` describes: a
byte string and a cursor inside it.  `Op` is one call through the interface
and `Result` what the caller sees of it, the destination of a read included.

`StreamKind.Meets` is, for each implementation, the condition on the reference
state under which one call gives the reference's result.  It is exact
(`StreamKind.run_eq_iff`): a sequence of calls gives the reference's results
exactly when every call of the sequence meets the condition.  The conditions
are what the four implementations get wrong.

* All four add in `CanRead` modulo `2 ^ 64`.
* `FileStream` seeks wherever it is told.
* `MemoryStream` only reads what the destination holds already.
* `SpanStream` reads the bytes after the ones asked for.
-/

namespace Tactmon

open Binary Cxx CursorReadable LawfulReadable Conformance

/-! ## The reference -/

/-- A byte string and a cursor inside it. -/
structure RefStream where
  bytes : Bytes
  cursor : Nat
  inside : cursor ≤ bytes.length

/-- One call through `IReadableStream`. -/
inductive Op where
  | seekRead (offset : UInt64)
  | skipRead (offset : UInt64)
  | canRead (amount : UInt64)
  | getReadCursor
  | data
  /-- A read into a buffer that holds these bytes. -/
  | read (dst : Bytes)

/-- What the caller sees of one call. -/
inductive Result where
  | cursor (position : Nat)
  | done
  | answer (b : Bool)
  | contents (bytes : Bytes)
  | stored (count : Nat) (dst : Bytes)
deriving DecidableEq, Repr

namespace RefStream

/-- A fresh stream over `b`. -/
def ofBytes (b : Bytes) : RefStream := ⟨b, 0, Nat.zero_le _⟩

/-- The cursor moved to `c`, or to the end if that is nearer. -/
def moveTo (r : RefStream) (c : Nat) : RefStream :=
  ⟨r.bytes, min c r.bytes.length, Nat.min_le_right _ _⟩

/-- How many of `n` bytes the stream still has. -/
def readable (r : RefStream) (n : Nat) : Nat := min n (r.bytes.length - r.cursor)

/-- The bytes a read of `n` bytes returns. -/
def ahead (r : RefStream) (n : Nat) : Bytes := window r.bytes r.cursor (r.readable n)

/-- One call on the reference. -/
def apply (r : RefStream) : Op → Result × RefStream
  | .seekRead o => (.cursor (r.moveTo o.toNat).cursor, r.moveTo o.toNat)
  | .skipRead k => (.done, r.moveTo (r.cursor + k.toNat))
  | .canRead n => (.answer (decide (r.cursor + n.toNat ≤ r.bytes.length)), r)
  | .getReadCursor => (.cursor r.cursor, r)
  | .data => (.contents (r.bytes.drop r.cursor), r)
  | .read dst =>
      (.stored (r.readable dst.length) (r.ahead dst.length ++ dst.drop (r.readable dst.length)),
        r.moveTo (r.cursor + r.readable dst.length))

/-- A skip stays inside the stream. -/
def Legal (r : RefStream) : Op → Prop
  | .skipRead k => r.cursor + k.toNat ≤ r.bytes.length
  | _ => True

instance (r : RefStream) (op : Op) : Decidable (r.Legal op) := by
  cases op <;> unfold Legal <;> infer_instance

@[simp] theorem moveTo_bytes (r : RefStream) (c : Nat) : (r.moveTo c).bytes = r.bytes := rfl

theorem moveTo_cursor_of_le {r : RefStream} {c : Nat} (h : c ≤ r.bytes.length) :
    (r.moveTo c).cursor = c := Nat.min_eq_left h

theorem cursor_add_readable_le (r : RefStream) (n : Nat) :
    r.cursor + r.readable n ≤ r.bytes.length := by
  have := r.inside
  unfold readable
  omega

theorem ahead_length (r : RefStream) (n : Nat) : (r.ahead n).length = r.readable n :=
  window_length (r.cursor_add_readable_le n)

end RefStream

/-! ## One call on an implementation -/

/-- One call on a stream. -/
def call {σ : Type} [IReadableStream σ] (s : σ) : Op → Exec (Result × σ)
  | .seekRead o => .ok (.cursor (seekRead s o.toNat).1, (seekRead s o.toNat).2)
  | .skipRead k => .ok (.done, skipRead s k.toNat)
  | .canRead n => .ok (.answer (canRead s n.toNat), s)
  | .getReadCursor => .ok (.cursor (getReadCursor s), s)
  | .data => do
      let view ← IReadableStream.data s
      .ok (.contents view.bytes, s)
  | .read dst => do
      let (readCount, dst, s) ← readSpan s dst .native 1
      .ok (.stored readCount dst, s)

/-- A native read is `_ReadImpl`. -/
theorem call_read {σ : Type} [IReadableStream σ] (s : σ) (dst : Bytes) :
    call s (.read dst) = (do
      let (readCount, dst', s') ← IReadableStream.readImpl s dst
      .ok (.stored readCount dst', s')) := by
  simp only [call, readSpan]
  cases IReadableStream.readImpl s dst with
  | error e => rfl
  | ok p => rfl

/-! ## The four implementations -/

/-- The implementations of `IReadableStream`. -/
inductive StreamKind where
  | span
  | memory
  | growable
  | file
deriving DecidableEq, Repr

/-- The results of a sequence of calls on a fresh stream over `b`.  The bytes
`after` follow the contents in the allocation a `SpanStream` looks at. -/
def StreamKind.run (k : StreamKind) (b : Buffer) (after : Bytes) (ops : List Op) :
    Exec (List Result) :=
  let view : Span := ⟨b.bytes ++ after, b.bytes.length, by simp⟩
  match k with
  | .span => Conformance.run call (SpanStream.ofSpan view) ops
  | .memory => Conformance.run call (MemoryStream.ofSpan view) ops
  | .growable => Conformance.run call (GrowableMemoryStream.ofBuffer b) ops
  | .file => Conformance.run call (FileStream.ofBuffer b) ops

/-- When one call gives the reference's result. -/
def StreamKind.Meets (k : StreamKind) (after : Bytes) (r : RefStream) : Op → Prop
  | .seekRead o => k = .file → o.toNat ≤ r.bytes.length
  | .canRead n => r.cursor + n.toNat < sizeMax
  | .read dst =>
      match k with
      | .span =>
          window (r.bytes ++ after) (r.cursor + r.readable dst.length) (r.readable dst.length) =
            r.ahead dst.length
      | .memory => dst.take (r.readable dst.length) = r.ahead dst.length
      | _ => True
  | _ => True

instance (k : StreamKind) (after : Bytes) (r : RefStream) (op : Op) :
    Decidable (k.Meets after r op) := by
  cases op <;> cases k <;> unfold StreamKind.Meets <;> infer_instance

/-! ## Cursor arithmetic the implementations share -/

section Arithmetic

variable {r : RefStream}

/-- The availability test is right exactly when its sum does not wrap. -/
theorem RefStream.canRead_iff (hb : r.bytes.length < sizeMax) (n : UInt64) :
    decide (sizeWrap (r.cursor + n.toNat) ≤ r.bytes.length) =
        decide (r.cursor + n.toNat ≤ r.bytes.length) ↔
      r.cursor + n.toNat < sizeMax := by
  have hn : n.toNat < sizeMax := n.toNat_lt
  have hc := r.inside
  constructor
  · intro h
    by_contra hge
    -- the sum wraps below the cursor, so the test passes without the bytes
    have hw : sizeWrap (r.cursor + n.toNat) = r.cursor + n.toNat - sizeMax := by
      rw [sizeWrap, Nat.mod_eq_sub_mod (by omega), Nat.mod_eq_of_lt (by omega)]
    rw [decide_eq_decide, hw] at h
    omega
  · intro h
    rw [sizeWrap_of_lt h]

/-- The length of a read, as the implementations compute it. -/
theorem RefStream.min_sizeSub (hb : r.bytes.length < sizeMax) (n : Nat) :
    min n (sizeSub r.bytes.length r.cursor) = r.readable n := by
  rw [sizeSub_of_le r.inside hb, readable]

theorem RefStream.sizeWrap_readable (hb : r.bytes.length < sizeMax) (n : Nat) :
    sizeWrap (r.cursor + r.readable n) = r.cursor + r.readable n := by
  have h := r.cursor_add_readable_le n
  rw [sizeWrap_of_lt (by omega)]

theorem RefStream.sizeWrap_skip (hb : r.bytes.length < sizeMax) {k : UInt64}
    (h : r.Legal (.skipRead k)) :
    sizeWrap (r.cursor + k.toNat) = (r.moveTo (r.cursor + k.toNat)).cursor := by
  have h' : r.cursor + k.toNat ≤ r.bytes.length := h
  rw [moveTo_cursor_of_le h', sizeWrap_of_lt (by omega)]

end Arithmetic

/-! ## Every call but a read

The four implementations share their cursor arithmetic, so one argument covers
all calls of all four but the reads.  `Extra` is what an implementation keeps
besides its contents and its cursor. -/

/-- The stream stands where the reference stands. -/
def Stands {σ : Type} [IReadableStream σ] [CursorReadable σ] (Extra : σ → Bytes → Prop) (s : σ)
    (r : RefStream) : Prop :=
  Rep s r.bytes r.cursor ∧ Extra s r.bytes

/-- The reads of an implementation give the reference's result when they meet
the condition of its kind, and only then. -/
def ReadExact {σ : Type} [IReadableStream σ] [CursorReadable σ] (Extra : σ → Bytes → Prop)
    (k : StreamKind) (after : Bytes) : Prop :=
  ∀ (s : σ) (r : RefStream) (dst : Bytes), Stands Extra s r →
    (k.Meets after r (.read dst) → ∃ s', call s (.read dst) = .ok ((r.apply (.read dst)).1, s') ∧
      Stands Extra s' (r.apply (.read dst)).2) ∧
    (¬ k.Meets after r (.read dst) → ∀ s', call s (.read dst) ≠ .ok ((r.apply (.read dst)).1, s'))

theorem exact_of_readExact {σ : Type} [IReadableStream σ] [CursorReadable σ]
    {Extra : σ → Bytes → Prop} {k : StreamKind} {after : Bytes}
    (hextra : ∀ s b, Extra s b → (∀ o, Extra (seekRead s o).2 b) ∧ ∀ o, Extra (skipRead s o) b)
    (hseek : ∀ (s : σ) (r : RefStream) (o : UInt64), Rep s r.bytes r.cursor →
      ((seekRead s o.toNat).1 = (r.moveTo o.toNat).cursor ↔ k.Meets after r (.seekRead o)))
    (hread : ReadExact Extra k after) :
    Exact (Stands Extra) (call (σ := σ)) RefStream.apply RefStream.Legal (k.Meets after) where
  agree := by
    intro s r op hs hl hm
    have hb : r.bytes.length < sizeMax := lt_sizeMax (fits hs.1)
    cases op with
    | seekRead o =>
        obtain ⟨c', hrep, hret, -⟩ := seekRead_rep o.toNat hs.1
        have hpos := (hseek s r o hs.1).mpr hm
        have hc : c' = (r.moveTo o.toNat).cursor := by rw [← hret, hpos]
        exact ⟨_, by rw [call, RefStream.apply, hpos], hc ▸ hrep, (hextra s _ hs.2).1 _⟩
    | skipRead n =>
        have h := skipRead_rep n.toNat hs.1
        rw [RefStream.sizeWrap_skip hb hl] at h
        exact ⟨_, rfl, h, (hextra s _ hs.2).2 _⟩
    | canRead n =>
        refine ⟨s, ?_, hs⟩
        rw [call, RefStream.apply, canRead_eq _ hs.1, (RefStream.canRead_iff hb n).mpr hm]
    | getReadCursor => exact ⟨s, by rw [call, RefStream.apply, getReadCursor_eq hs.1], hs⟩
    | data =>
        obtain ⟨t, ht, hbytes, -⟩ := data_eq hs.1 r.inside
        refine ⟨s, ?_, hs⟩
        simp only [call, RefStream.apply, ht, Exec.ok_bind, hbytes]
    | read dst => exact (hread s r dst hs).1 hm
  differ := by
    intro s r op hs hl hm s' he
    have hb : r.bytes.length < sizeMax := lt_sizeMax (fits hs.1)
    cases op with
    | seekRead o =>
        simp only [call, RefStream.apply, Except.ok.injEq, Prod.mk.injEq,
          Result.cursor.injEq] at he
        exact hm ((hseek s r o hs.1).mp he.1)
    | canRead n =>
        simp only [call, RefStream.apply, Except.ok.injEq, Prod.mk.injEq,
          Result.answer.injEq] at he
        rw [canRead_eq _ hs.1] at he
        exact hm ((RefStream.canRead_iff hb n).mp he.1)
    | skipRead n => exact hm trivial
    | getReadCursor => exact hm trivial
    | data => exact hm trivial
    | read dst => exact (hread s r dst hs).2 hm s' he

/-! ## The reads -/

theorem RefStream.apply_read_stands {σ : Type} [IReadableStream σ] [CursorReadable σ]
    {Extra : σ → Bytes → Prop} {s : σ} {r : RefStream} {dst : Bytes}
    (hrep : Rep s r.bytes (r.cursor + r.readable dst.length)) (hextra : Extra s r.bytes) :
    Stands Extra s (r.apply (.read dst)).2 := by
  have hmove := RefStream.moveTo_cursor_of_le (r.cursor_add_readable_le dst.length)
  refine ⟨?_, hextra⟩
  simp only [RefStream.apply, RefStream.moveTo_bytes, hmove]
  exact hrep

/-- A lawful stream reads right whatever the destination held. -/
theorem LawfulReadable.readExact {σ : Type} [IReadableStream σ] [LawfulReadable σ]
    (k : StreamKind) (after : Bytes) (hk : ∀ r dst, k.Meets after r (.read dst)) :
    ReadExact (σ := σ) (fun _ _ => True) k after := by
  intro s r dst hs
  refine ⟨fun _ => ?_, fun hm => absurd (hk r dst) hm⟩
  obtain ⟨s', hr, hs'⟩ := readImpl_eq dst hs.1 r.inside
  refine ⟨s', ?_, RefStream.apply_read_stands hs' trivial⟩
  rw [call_read, hr]
  rfl

/-- A `MemoryStream` leaves its destination alone. -/
theorem MemoryStream.readExact (after : Bytes) :
    ReadExact (σ := MemoryStream) (fun _ _ => True) .memory after := by
  rintro s r dst ⟨hrep, -⟩
  obtain ⟨hbytes, hcur, hb⟩ := hrep
  have hsize : s.data.size = r.bytes.length := by rw [← hbytes, Span.bytes_length]
  have hlen : r.bytes.length < sizeMax := lt_sizeMax (by omega)
  have hcall : call s (.read dst) = .ok (.stored (r.readable dst.length) dst,
      { s with cursor := r.cursor + r.readable dst.length }) := by
    rw [call_read]
    simp only [IReadableStream.readImpl, MemoryStream.readImpl, hsize, hcur,
      RefStream.min_sizeSub hlen, RefStream.sizeWrap_readable hlen, Exec.ok_bind]
  have hsplit : ∀ bs : Bytes, bs.length = r.readable dst.length →
      (dst = bs ++ dst.drop (r.readable dst.length) ↔ dst.take (r.readable dst.length) = bs) := by
    intro bs hbs
    constructor
    · intro h
      have ht := congrArg (List.take (r.readable dst.length)) h
      rwa [List.take_left' hbs] at ht
    · intro h
      rw [← h, List.take_append_drop]
  have hiff := hsplit _ (r.ahead_length dst.length)
  constructor
  · intro hm
    refine ⟨{ s with cursor := r.cursor + r.readable dst.length }, ?_,
      RefStream.apply_read_stands ⟨hbytes, rfl, hb⟩ trivial⟩
    rw [hcall, RefStream.apply, ← hiff.mpr hm]
  · intro hm s' he
    rw [hcall, RefStream.apply, Except.ok.injEq, Prod.mk.injEq, Result.stored.injEq] at he
    exact hm (hiff.mp he.1.2)

/-- A `SpanStream` reads the bytes that follow the ones asked for. -/
theorem SpanStream.readExact (after : Bytes) :
    ReadExact (σ := SpanStream) (fun s b => s.data.mem = b ++ after) .span after := by
  rintro s r dst ⟨⟨hbytes, hcur, hb⟩, hmem⟩
  have hsize : s.data.size = r.bytes.length := by rw [← hbytes, Span.bytes_length]
  have hlen : r.bytes.length < sizeMax := lt_sizeMax (by omega)
  have hin := r.cursor_add_readable_le dst.length
  have hcursor : s.cursor ≤ s.data.size := by
    have := r.inside
    omega
  obtain ⟨t, ht, htmem, htsize⟩ := s.data.suffix_of_le hcursor
  have hreadable : r.readable dst.length ≤ t.size := by omega
  obtain ⟨u, hu, humem, -⟩ := t.suffix_of_le hreadable
  have humem' : u.mem = (r.bytes ++ after).drop (r.cursor + r.readable dst.length) := by
    rw [humem, htmem, hmem, hcur, List.drop_drop]
  have hcall : call s (.read dst) = (do
      let bytes ← u.load (r.readable dst.length)
      .ok (.stored (r.readable dst.length) (bytes ++ dst.drop (r.readable dst.length)),
        { s with cursor := r.cursor + r.readable dst.length })) := by
    rw [call_read]
    rw [hcur] at ht
    simp only [IReadableStream.readImpl, SpanStream.readImpl, SpanStream.view, hsize, hcur, ht,
      RefStream.min_sizeSub hlen, hu, Exec.ok_bind, RefStream.sizeWrap_readable hlen]
    cases u.load (r.readable dst.length) with
    | error e => rfl
    | ok bs => rfl
  have hwin : window (r.bytes ++ after) (r.cursor + r.readable dst.length)
      (r.readable dst.length) = u.mem.take (r.readable dst.length) := by
    rw [humem', window]
  by_cases hload : r.readable dst.length ≤ u.mem.length
  · rw [Span.load_of_le hload, ← hwin, Exec.ok_bind] at hcall
    constructor
    · intro hm
      refine ⟨{ s with cursor := r.cursor + r.readable dst.length }, ?_,
        RefStream.apply_read_stands ⟨hbytes, rfl, hb⟩ hmem⟩
      have hm' : window (r.bytes ++ after) (r.cursor + r.readable dst.length)
        (r.readable dst.length) = r.ahead dst.length := hm
      rw [hcall, hm', RefStream.apply]
    · intro hm s' he
      rw [hcall, RefStream.apply, Except.ok.injEq, Prod.mk.injEq, Result.stored.injEq] at he
      exact hm (List.append_cancel_right he.1.2)
  · -- the load runs out of the allocation, and the window is too short to match
    have hfault : call s (.read dst) = .error .outOfBounds := by
      rw [hcall, Span.load_of_lt (by omega), Exec.error_bind]
    constructor
    · intro hm
      have hm' : window (r.bytes ++ after) (r.cursor + r.readable dst.length)
        (r.readable dst.length) = r.ahead dst.length := hm
      have hl := congrArg List.length hm'
      rw [r.ahead_length, hwin, List.length_take] at hl
      omega
    · intro _ s' he
      rw [hfault] at he
      cases he

/-! ## Whole runs -/

/-- Clamping seeks give the reference's position. -/
theorem StreamKind.meets_seek_of_ne_file {k : StreamKind} (hk : k ≠ .file) (after : Bytes)
    (r : RefStream) (o : UInt64) : k.Meets after r (.seekRead o) := fun h => absurd h hk

/-- A sequence of calls gives the reference's results exactly when every call
of the sequence meets the condition of its implementation. -/
theorem StreamKind.run_eq_iff (k : StreamKind) (b : Buffer) (after : Bytes) (ops : List Op)
    (legal : Along RefStream.apply RefStream.Legal (RefStream.ofBytes b.bytes) ops) :
    k.run b after ops = .ok (refRun RefStream.apply (RefStream.ofBytes b.bytes) ops) ↔
      Along RefStream.apply (k.Meets after) (RefStream.ofBytes b.bytes) ops := by
  have hview : (Span.mk (b.bytes ++ after) b.bytes.length (by simp)).bytes = b.bytes := by
    rw [Span.bytes, List.take_left' rfl]
  cases k with
  | span =>
      refine (exact_of_readExact ?_ ?_ (SpanStream.readExact after)).run_iff_along ops ?_ legal
      · exact fun _ _ h => ⟨fun _ => h, fun _ => h⟩
      · rintro s r o ⟨hd, -, -⟩
        refine iff_of_true ?_ (meets_seek_of_ne_file (by decide) after r o)
        show min o.toNat s.data.size = min o.toNat r.bytes.length
        rw [← hd, Span.bytes_length]
      · exact ⟨⟨hview, rfl, b.fits⟩, rfl⟩
  | memory =>
      refine (exact_of_readExact ?_ ?_ (MemoryStream.readExact after)).run_iff_along ops ?_ legal
      · exact fun _ _ _ => ⟨fun _ => trivial, fun _ => trivial⟩
      · rintro s r o ⟨hd, -, -⟩
        refine iff_of_true ?_ (meets_seek_of_ne_file (by decide) after r o)
        show min s.data.size o.toNat = min o.toNat r.bytes.length
        rw [← hd, Span.bytes_length, Nat.min_comm]
      · exact ⟨⟨hview, rfl, b.fits⟩, trivial⟩
  | growable =>
      refine (exact_of_readExact ?_ ?_ (LawfulReadable.readExact .growable after
        fun _ _ => trivial)).run_iff_along ops ?_ legal
      · exact fun _ _ _ => ⟨fun _ => trivial, fun _ => trivial⟩
      · rintro s r o ⟨hd, -, -⟩
        refine iff_of_true ?_ (meets_seek_of_ne_file (by decide) after r o)
        show min o.toNat s.data.length = min o.toNat r.bytes.length
        rw [hd]
      · exact ⟨GrowableMemoryStream.ofBuffer_rep b, trivial⟩
  | file =>
      refine (exact_of_readExact ?_ ?_ (LawfulReadable.readExact .file after
        fun _ _ => trivial)).run_iff_along ops ?_ legal
      · exact fun _ _ _ => ⟨fun _ => trivial, fun _ => trivial⟩
      · intro s r o _
        show o.toNat = min o.toNat r.bytes.length ↔ (StreamKind.file = .file → _)
        constructor
        · intro h _
          omega
        · intro h
          have := h rfl
          omega
      · exact ⟨FileStream.ofBuffer_rep b, trivial⟩

/-- Two reads of a growable stream, the second cut short by the end. -/
theorem StreamKind.run_growable_reads :
    StreamKind.growable.run ⟨[1, 2, 3], by decide⟩ [] [.read [0, 0], .read [0, 9]] =
      .ok [.stored 2 [1, 2], .stored 1 [3, 9]] :=
  (StreamKind.run_eq_iff .growable ⟨[1, 2, 3], by decide⟩ [] [.read [0, 0], .read [0, 9]]
    (by decide)).mpr (by decide)

/-- A `SpanStream` over `1 2 3 4` that is asked for two bytes stores `3 4`. -/
theorem StreamKind.run_span_past :
    StreamKind.span.run ⟨[1, 2, 3, 4], by decide⟩ [] [.read [0, 0]] ≠
      .ok (refRun RefStream.apply (RefStream.ofBytes [1, 2, 3, 4]) [.read [0, 0]]) := by
  decide

end Tactmon
