import Tactmon.Io.Conformance
import Tactmon.Io.Writing

/-!
# The read cursor against the end of the stream

`Data()` and `_ReadImpl` subtract the read cursor from the length without
looking.  `Inside` is what they assume.  It is not what the classes keep: a skip
adds whatever it is told, `FileStream::SeekRead` does not clamp, and
`GrowableMemoryStream::SeekWrite` resizes the vector under the read cursor.

A run is any sequence of public calls with any arguments.  An exception leaves
the stream as it was when it was thrown, and after a fault there is no stream.
`StreamKind.run_inside_iff` says which calls a run may make for the cursor to
stay inside and for `CanRead` to answer right.
-/

namespace Tactmon

open Binary Cxx CursorReadable Conformance

/-! ## Writing anywhere -/

namespace GrowableMemoryStream

/-- `vector::resize`, which throws where no allocation is that large. -/
def resize (s : GrowableMemoryStream) (size : Nat) : GrowableMemoryStream :=
  if size < 2 ^ 63 then
    { s with data := s.data.take size ++ List.replicate (size - s.data.length) 0 }
  else s

/-- `SeekWrite`, which moves the cursor before it resizes. -/
def seekWrite (s : GrowableMemoryStream) (offset : Nat) : GrowableMemoryStream :=
  resize { s with writeCursor := offset } offset

/-- `SkipWrite`. -/
def skipWrite (s : GrowableMemoryStream) (offset : Nat) : GrowableMemoryStream :=
  { s with writeCursor := sizeWrap (s.writeCursor + offset) }

/-- `Write` wherever the write cursor is.  The vector is resized to the end of
the write, which wraps.  If that is too large the stream stays as it is. -/
def writeAnywhere (s : GrowableMemoryStream) (bytes : Bytes) (endianness : Endian)
    (elementSize : Nat) : Exec GrowableMemoryStream :=
  let writeEnd := sizeWrap (s.writeCursor + bytes.length)
  if s.data.length < writeEnd ∧ 2 ^ 63 ≤ writeEnd then .ok s
  else if s.writeCursor + bytes.length ≤ max s.data.length writeEnd then do
    let (_, s) ← s.writeSpan bytes endianness elementSize
    .ok s
  else .error .outOfBounds

end GrowableMemoryStream

/-! ## The streams -/

/-- The class of a kind of stream. -/
def StreamKind.State : StreamKind → Type
  | .span => SpanStream
  | .memory => MemoryStream
  | .growable => GrowableMemoryStream
  | .file => FileStream

instance StreamKind.readable : (k : StreamKind) → IReadableStream k.State
  | .span => inferInstanceAs (IReadableStream SpanStream)
  | .memory => inferInstanceAs (IReadableStream MemoryStream)
  | .growable => inferInstanceAs (IReadableStream GrowableMemoryStream)
  | .file => inferInstanceAs (IReadableStream FileStream)

instance StreamKind.cursorReadable : (k : StreamKind) → CursorReadable k.State
  | .span => inferInstanceAs (CursorReadable SpanStream)
  | .memory => inferInstanceAs (CursorReadable MemoryStream)
  | .growable => inferInstanceAs (CursorReadable GrowableMemoryStream)
  | .file => inferInstanceAs (CursorReadable FileStream)

/-- A stream as its constructors leave it, over `b`.  The bytes `after` follow
the contents in the allocation a span looks at. -/
def StreamKind.fresh (k : StreamKind) (b : Buffer) (after : Bytes) : k.State :=
  match k with
  | .span => SpanStream.ofSpan (b.span after)
  | .memory => MemoryStream.ofSpan (b.span after)
  | .growable => GrowableMemoryStream.ofBuffer b
  | .file => FileStream.ofBuffer b

/-- A public call.  Only a growable stream is written. -/
inductive StreamOp : StreamKind → Type where
  | seekRead {k : StreamKind} (offset : UInt64) : StreamOp k
  | skipRead {k : StreamKind} (offset : UInt64) : StreamOp k
  | canRead {k : StreamKind} (amount : UInt64) : StreamOp k
  | read {k : StreamKind} (dst : Bytes) (endianness : Endian) (elementSize : Nat) : StreamOp k
  | write (bytes : Bytes) (endianness : Endian) (elementSize : Nat) : StreamOp .growable
  | seekWrite (offset : UInt64) : StreamOp .growable
  | skipWrite (offset : UInt64) : StreamOp .growable

/-- The stream after one call. -/
def StreamKind.step : {k : StreamKind} → k.State → StreamOp k → Exec k.State
  | _, s, .seekRead offset => .ok (seekRead s offset.toNat).2
  | _, s, .skipRead offset => .ok (skipRead s offset.toNat)
  | _, s, .canRead _ => .ok s
  | _, s, .read dst endianness elementSize => do
      let (_, _, s) ← readSpan s dst endianness elementSize
      .ok s
  | _, s, .write bytes endianness elementSize =>
      GrowableMemoryStream.writeAnywhere s bytes endianness elementSize
  | _, s, .seekWrite offset => .ok (GrowableMemoryStream.seekWrite s offset.toNat)
  | _, s, .skipWrite offset => .ok (GrowableMemoryStream.skipWrite s offset.toNat)

/-- The next state of a run, as long as there is one. -/
def StreamKind.next {k : StreamKind} (r : Exec k.State) (op : StreamOp k) : Exec k.State := do
  let s ← r
  StreamKind.step s op

/-! ## The invariant and the calls that keep it -/

/-- The cursor is inside the stream, and the remaining length is not wrapped. -/
def Inside {k : StreamKind} (r : Exec k.State) : Prop :=
  ∀ s, r = .ok s → getReadCursor s ≤ getLength s ∧
    sizeSub (getLength s) (getReadCursor s) = getLength s - getReadCursor s

/-- A call of `CanRead` tells whether as much is left. -/
def CanReadExact {k : StreamKind} (r : Exec k.State) (op : StreamOp k) : Prop :=
  ∀ s n, r = .ok s → op = .canRead n →
    (canRead s n.toNat = true ↔ getReadCursor s + n.toNat ≤ getLength s)

/-- The calls that keep the cursor inside, and of which `CanRead` is right. -/
def StreamKind.Keeps : {k : StreamKind} → k.State → StreamOp k → Prop
  | k, s, .seekRead offset => k = .file → offset.toNat ≤ getLength s
  | _, s, .skipRead offset =>
      getReadCursor s + offset.toNat ≤ getLength s ∨ sizeMax ≤ getReadCursor s + offset.toNat
  | _, s, .canRead amount => getReadCursor s + amount.toNat < sizeMax
  | _, _, .read _ _ _ => True
  | _, _, .write _ _ _ => True
  | _, s, .seekWrite offset => getReadCursor s ≤ offset.toNat
  | _, _, .skipWrite _ => True

/-- The call keeps what the state has, if there is a state. -/
def KeepsInside {k : StreamKind} (r : Exec k.State) (op : StreamOp k) : Prop :=
  ∀ s, r = .ok s → StreamKind.Keeps s op

/-! ## What a call does to the length and the cursor -/

section Arithmetic

variable {b : Bytes} {c : Nat}

/-- A wrapped sum of a position and an offset is inside when the sum is, or
when it went all the way around. -/
theorem sizeWrap_add_le_iff (hb : b.length < 2 ^ 63) (hc : c ≤ b.length) (k : UInt64) :
    sizeWrap (c + k.toNat) ≤ b.length ↔ c + k.toNat ≤ b.length ∨ sizeMax ≤ c + k.toNat := by
  have hk : k.toNat < sizeMax := k.toNat_lt
  have hlen : b.length < sizeMax := lt_sizeMax hb
  rcases Nat.lt_or_ge (c + k.toNat) sizeMax with hlt | hge
  · rw [sizeWrap_of_lt hlt]
    omega
  · have hwrap : sizeWrap (c + k.toNat) = c + k.toNat - sizeMax := by
      rw [sizeWrap, Nat.mod_eq_sub_mod hge, Nat.mod_eq_of_lt (by omega)]
    rw [hwrap]
    omega

end Arithmetic

section Calls

variable {k : StreamKind} {s s' : k.State} {b : Bytes} {c : Nat}

theorem inside_iff (hs : Rep s b c) : Inside (.ok s) ↔ c ≤ b.length := by
  have hb : b.length < sizeMax := lt_sizeMax (fits hs)
  constructor
  · intro h
    have := (h s rfl).1
    rwa [getReadCursor_eq hs, getLength_eq hs] at this
  · rintro hc t ht
    cases ht
    rw [getReadCursor_eq hs, getLength_eq hs]
    exact ⟨hc, sizeSub_of_le hc hb⟩

/-- A read moves the cursor by what it says it read. -/
theorem StreamKind.readImpl_rep {dst out : Bytes} {m : Nat} (hs : Rep s b c)
    (h : IReadableStream.readImpl s dst = .ok (m, out, s')) :
    m = min dst.length (sizeSub b.length c) ∧ Rep s' b (sizeWrap (c + m)) := by
  cases k with
  | span =>
      obtain ⟨rfl, rfl, hb⟩ := hs
      obtain ⟨view, -, h⟩ := Exec.bind_eq_ok.mp h
      obtain ⟨source, -, h⟩ := Exec.bind_eq_ok.mp h
      obtain ⟨bytes, -, h⟩ := Exec.bind_eq_ok.mp h
      cases h
      exact ⟨by rw [Span.bytes_length], rfl, rfl, hb⟩
  | memory =>
      obtain ⟨rfl, rfl, hb⟩ := hs
      cases h
      exact ⟨by rw [Span.bytes_length], rfl, rfl, hb⟩
  | growable =>
      obtain ⟨rfl, rfl, hb⟩ := hs
      obtain ⟨source, -, h⟩ := Exec.bind_eq_ok.mp h
      obtain ⟨bytes, -, h⟩ := Exec.bind_eq_ok.mp h
      cases h
      exact ⟨rfl, rfl, rfl, hb⟩
  | file =>
      obtain ⟨rfl, rfl, hb⟩ := hs
      change FileStream.readImpl s dst = _ at h
      simp only [FileStream.readImpl] at h
      split at h
      · cases h
        exact ⟨rfl, rfl, rfl, hb⟩
      · cases h

/-- A read of any elements from inside the stream stays inside. -/
theorem StreamKind.readSpan_rep {dst out : Bytes} {e : Endian} {w m : Nat} (hs : Rep s b c)
    (hc : c ≤ b.length) (h : readSpan s dst e w = .ok (m, out, s')) :
    ∃ c', Rep s' b c' ∧ c' ≤ b.length := by
  have hb := fits hs
  obtain ⟨⟨m', out', t⟩, hr, h⟩ := Exec.bind_eq_ok.mp h
  have ht : t = s' := by
    cases e with
    | little =>
        cases h
        rfl
    | big =>
        obtain ⟨swapped, -, h⟩ := Exec.bind_eq_ok.mp h
        cases h
        rfl
  subst ht
  obtain ⟨rfl, hs'⟩ := StreamKind.readImpl_rep hs hr
  rw [sizeSub_of_le hc (lt_sizeMax hb), sizeWrap_of_lt (lt_sizeMax (by omega))] at hs'
  exact ⟨_, hs', by omega⟩

/-- Seeking, which only a file does not clamp. -/
theorem StreamKind.seekRead_rep (hs : Rep s b c) (o : UInt64) :
    ∃ c', Rep (seekRead s o.toNat).2 b c' ∧
      (c' ≤ b.length ↔ (k = .file → o.toNat ≤ b.length)) := by
  cases k with
  | span =>
      obtain ⟨rfl, -, hb⟩ := hs
      refine ⟨_, ⟨rfl, rfl, hb⟩, iff_of_true ?_ nofun⟩
      rw [Span.bytes_length]
      exact Nat.min_le_right _ _
  | memory =>
      obtain ⟨rfl, -, hb⟩ := hs
      refine ⟨_, ⟨rfl, rfl, hb⟩, iff_of_true ?_ nofun⟩
      rw [Span.bytes_length]
      exact Nat.min_le_left _ _
  | growable =>
      obtain ⟨rfl, -, hb⟩ := hs
      exact ⟨_, ⟨rfl, rfl, hb⟩, iff_of_true (Nat.min_le_right _ _) nofun⟩
  | file =>
      obtain ⟨rfl, -, hb⟩ := hs
      exact ⟨o.toNat, ⟨rfl, rfl, hb⟩, by simp⟩

end Calls

/-! ## Writing under the cursor -/

namespace GrowableMemoryStream

variable {s s' : GrowableMemoryStream}

theorem resize_length (s : GrowableMemoryStream) (size : Nat) :
    (s.resize size).data.length = if size < 2 ^ 63 then size else s.data.length := by
  rw [resize]
  split
  · rw [List.length_append, List.length_take, List.length_replicate]
    omega
  · rfl

@[simp] theorem resize_readCursor (s : GrowableMemoryStream) (size : Nat) :
    (s.resize size).readCursor = s.readCursor := by
  rw [resize]
  split <;> rfl

theorem writeImpl_length (s : GrowableMemoryStream) (bytes : Bytes) :
    (s.writeImpl bytes).data.length = max s.data.length (s.writeCursor + bytes.length) := by
  simp only [writeImpl, List.length_append, List.length_take, List.length_drop,
    List.length_replicate]
  omega

/-- A write keeps the read cursor, and makes the vector as long as it must be. -/
theorem writeSpan_length {bytes : Bytes} {e : Endian} {w n : Nat}
    (h : s.writeSpan bytes e w = .ok (n, s')) :
    s'.data.length = max s.data.length (s.writeCursor + bytes.length) ∧
      s'.readCursor = s.readCursor := by
  rw [← writeImpl_length]
  cases e with
  | little =>
      cases h
      exact ⟨rfl, rfl⟩
  | big =>
      obtain ⟨writtenBytes, hswap, h⟩ := Exec.bind_eq_ok.mp h
      cases h
      have hlen := swapElements_length hswap
      have hgrown := writeImpl_length s bytes
      rw [window_length (by omega)] at hlen
      refine ⟨?_, rfl⟩
      simp only [List.length_append, List.length_take, List.length_drop]
      omega

/-- A write never shortens the vector, and what it leaves fits. -/
theorem writeAnywhere_length {bytes : Bytes} {e : Endian} {w : Nat} (hs : s.data.length < 2 ^ 63)
    (h : s.writeAnywhere bytes e w = .ok s') :
    s.data.length ≤ s'.data.length ∧ s'.data.length < 2 ^ 63 ∧ s'.readCursor = s.readCursor := by
  simp only [writeAnywhere] at h
  split at h
  · cases h
    exact ⟨Nat.le_refl _, hs, rfl⟩
  · next hthrow =>
      split at h
      · next hroom =>
          obtain ⟨⟨n, t⟩, ht, h⟩ := Exec.bind_eq_ok.mp h
          cases h
          obtain ⟨hlen, hread⟩ := writeSpan_length ht
          show s.data.length ≤ t.data.length ∧ t.data.length < 2 ^ 63 ∧ _
          exact ⟨by omega, by omega, hread⟩
      · cases h

end GrowableMemoryStream

/-! ## One call -/

section Step

variable {k : StreamKind} {s : k.State} {b : Bytes} {c : Nat}

/-- Only a call of `CanRead` answers. -/
theorem canReadExact_of_ne {r : Exec k.State} {op : StreamOp k} (h : ∀ n, op ≠ .canRead n) :
    CanReadExact r op := by
  rintro t n - rfl
  exact absurd rfl (h n)

/-- `CanRead` is right about what does not wrap. -/
theorem canReadExact_iff (hs : Rep s b c) (hc : c ≤ b.length) (n : UInt64) :
    CanReadExact (.ok s) (.canRead n) ↔ c + n.toNat < sizeMax := by
  have hexact := RefStream.canRead_iff (r := ⟨b, c, hc⟩) (lt_sizeMax (fits hs)) n
  rw [decide_eq_decide] at hexact
  have hanswer : CanReadExact (.ok s) (.canRead n) ↔
      (canRead s n.toNat = true ↔ c + n.toNat ≤ b.length) := by
    rw [← getReadCursor_eq hs, ← getLength_eq hs]
    refine ⟨fun h => h s n rfl rfl, fun h t m ht hm => ?_⟩
    cases ht
    cases hm
    exact h
  rw [hanswer, canRead_eq _ hs, decide_eq_true_iff]
  exact hexact

/-- `SeekWrite` leaves the cursor inside unless it shrinks the vector in front
of it. -/
theorem seekWrite_inside_iff {s : GrowableMemoryStream} {b : Bytes} {c : Nat}
    (hs : Rep s b c) (hc : c ≤ b.length) (o : UInt64) :
    ∃ b', Rep (GrowableMemoryStream.seekWrite s o.toNat) b' c ∧ (c ≤ b'.length ↔ c ≤ o.toNat) := by
  obtain ⟨rfl, rfl, hfits⟩ := hs
  have hlen : (s.seekWrite o.toNat).data.length =
      if o.toNat < 2 ^ 63 then o.toNat else s.data.length :=
    GrowableMemoryStream.resize_length _ _
  have hread : (s.seekWrite o.toNat).readCursor = s.readCursor :=
    GrowableMemoryStream.resize_readCursor _ _
  have hfit : (s.seekWrite o.toNat).data.length < 2 ^ 63 := by
    rw [hlen]
    split <;> omega
  refine ⟨_, ⟨rfl, hread, hfit⟩, ?_⟩
  -- where the resize throws, the offset is far behind the cursor
  rw [hlen]
  split <;> omega

/-- Whatever a call does, the contents of the stream still fit an allocation,
and the cursor is inside exactly when the call keeps it there. -/
theorem StreamKind.step_inside_iff (hs : Rep s b c) (hc : c ≤ b.length) (op : StreamOp k) :
    (∀ s', StreamKind.step s op = .ok s' → ∃ b' c', Rep s' b' c') ∧
      (Inside (StreamKind.step s op) ∧ CanReadExact (.ok s) op ↔ StreamKind.Keeps s op) := by
  have hb := fits hs
  cases op with
  | seekRead o =>
      obtain ⟨c', hs', hc'⟩ := StreamKind.seekRead_rep hs o
      refine ⟨by rintro t ht; cases ht; exact ⟨b, c', hs'⟩, ?_⟩
      rw [and_iff_left (canReadExact_of_ne (by nofun)), StreamKind.Keeps, getLength_eq hs, ← hc']
      exact inside_iff hs'
  | skipRead n =>
      have hs' := skipRead_rep n.toNat hs
      refine ⟨by rintro t ht; cases ht; exact ⟨b, _, hs'⟩, ?_⟩
      rw [and_iff_left (canReadExact_of_ne (by nofun)), StreamKind.Keeps, getLength_eq hs,
        getReadCursor_eq hs, ← sizeWrap_add_le_iff hb hc]
      exact inside_iff hs'
  | canRead n =>
      refine ⟨by rintro t ht; cases ht; exact ⟨b, c, hs⟩, ?_⟩
      rw [canReadExact_iff hs hc, StreamKind.Keeps, getReadCursor_eq hs]
      exact and_iff_right ((inside_iff hs).mpr hc)
  | read dst e w =>
      have hread : ∀ s', StreamKind.step s (.read dst e w) = .ok s' →
          ∃ c', Rep s' b c' ∧ c' ≤ b.length := by
        intro s' h
        obtain ⟨⟨m, out, t⟩, ht, h⟩ := Exec.bind_eq_ok.mp h
        cases h
        exact StreamKind.readSpan_rep hs hc ht
      refine ⟨fun s' h => ⟨b, (hread s' h).imp fun _ h => h.1⟩,
        iff_of_true ⟨?_, canReadExact_of_ne (by nofun)⟩ trivial⟩
      intro s' h
      obtain ⟨c', hs', hc'⟩ := hread s' h
      exact (inside_iff hs').mpr hc' s' rfl
  | write bytes e w =>
      obtain ⟨rfl, rfl, -⟩ := hs
      have hwrite : ∀ s' : GrowableMemoryStream, StreamKind.step s (.write bytes e w) = .ok s' →
          s.data.length ≤ s'.data.length ∧ s'.data.length < 2 ^ 63 ∧
            s'.readCursor = s.readCursor :=
        fun s' h => GrowableMemoryStream.writeAnywhere_length hb h
      refine ⟨fun s' h => ⟨_, _, rfl, rfl, (hwrite s' h).2.1⟩,
        iff_of_true ⟨fun s' h => ?_, canReadExact_of_ne (by nofun)⟩ trivial⟩
      obtain ⟨hlen, hfit, hread⟩ := hwrite s' h
      have hs' : Rep (σ := StreamKind.growable.State) s' s'.data s'.readCursor := ⟨rfl, rfl, hfit⟩
      exact (inside_iff hs').mpr (by omega) s' rfl
  | seekWrite o =>
      obtain ⟨b', hs', hkept⟩ : ∃ b', Rep (GrowableMemoryStream.seekWrite s o.toNat) b' c ∧ _ :=
        seekWrite_inside_iff hs hc o
      refine ⟨by rintro t ht; cases ht; exact ⟨b', c, hs'⟩, ?_⟩
      rw [and_iff_left (canReadExact_of_ne (by nofun)), StreamKind.Keeps, getReadCursor_eq hs]
      exact (inside_iff (k := .growable) hs').trans hkept
  | skipWrite o =>
      have hs' : Rep (σ := StreamKind.growable.State) (GrowableMemoryStream.skipWrite s o.toNat)
          b c := hs
      refine ⟨by rintro t ht; cases ht; exact ⟨b, c, hs'⟩, ?_⟩
      exact iff_of_true ⟨(inside_iff hs').mpr hc, canReadExact_of_ne (by nofun)⟩ trivial

end Step

/-! ## Runs -/

theorem StreamKind.fresh_rep (k : StreamKind) (b : Buffer) (after : Bytes) :
    Rep (k.fresh b after) b.bytes 0 := by
  cases k with
  | span => exact ⟨b.span_bytes after, rfl, b.fits⟩
  | memory => exact ⟨b.span_bytes after, rfl, b.fits⟩
  | growable => exact ⟨rfl, rfl, b.fits⟩
  | file => exact ⟨rfl, rfl, b.fits⟩

/-- What every state of a run has that keeps the cursor inside. -/
def Standing {k : StreamKind} (r : Exec k.State) : Prop :=
  ∀ s, r = .ok s → ∃ b c, Rep s b c ∧ c ≤ b.length

theorem Standing.inside {k : StreamKind} {r : Exec k.State} (h : Standing r) : Inside r := by
  rintro s rfl
  obtain ⟨b, c, hs, hc⟩ := h s rfl
  exact (inside_iff hs).mpr hc s rfl

theorem next_inside_iff {k : StreamKind} {r : Exec k.State} (h : Standing r) (op : StreamOp k) :
    (Inside (StreamKind.next r op) ∧ CanReadExact r op ↔ KeepsInside r op) ∧
      (KeepsInside r op → Standing (StreamKind.next r op)) := by
  cases r with
  | error f => exact ⟨iff_of_true ⟨nofun, nofun⟩ nofun, fun _ => nofun⟩
  | ok s =>
      obtain ⟨b, c, hs, hc⟩ := h s rfl
      obtain ⟨hrep, hiff⟩ := StreamKind.step_inside_iff hs hc op
      have hkeeps : KeepsInside (.ok s) op ↔ StreamKind.Keeps s op :=
        ⟨fun h => h s rfl, fun h t ht => by cases ht; exact h⟩
      refine ⟨hiff.trans hkeeps.symm, fun hk s' hs' => ?_⟩
      obtain ⟨b', c', hs''⟩ := hrep s' hs'
      refine ⟨b', c', hs'', (inside_iff hs'').mp ?_⟩
      rw [← hs']
      exact (hiff.mpr (hkeeps.mp hk)).1

/-- In every state of a run the cursor is inside, and every `CanRead` of the run
answers right, exactly when every call keeps it so. -/
theorem StreamKind.run_inside_iff (k : StreamKind) (b : Buffer) (after : Bytes)
    (ops : List (StreamOp k)) :
    ((∀ r ∈ states StreamKind.next (.ok (k.fresh b after)) ops, Inside r) ∧
        Along (silent StreamKind.next) CanReadExact (.ok (k.fresh b after)) ops) ↔
      Along (silent StreamKind.next) KeepsInside (.ok (k.fresh b after)) ops := by
  have hstart : Standing (.ok (k.fresh b after)) := by
    rintro s hs
    cases hs
    exact ⟨b.bytes, 0, k.fresh_rep b after, Nat.zero_le _⟩
  rw [forall_states_iff, and_assoc, and_iff_right hstart.inside, ← Along.and_iff]
  exact Along.iff_of_step Standing (fun r op => Inside (StreamKind.next r op) ∧ CanReadExact r op)
    (fun h _ => (next_inside_iff h _).1) (fun h _ => (next_inside_iff h _).2) ops hstart
    (Along.of_forall (fun _ _ => trivial) _ ops)

/-- A file of three bytes, sought to the fourth. -/
theorem StreamKind.run_seek_past :
    ¬ ((∀ r ∈ states StreamKind.next (.ok (StreamKind.file.fresh ⟨[1, 2, 3], by simp⟩ []))
          [.seekRead 4], Inside r) ∧
        Along (silent StreamKind.next) CanReadExact
          (.ok (StreamKind.file.fresh ⟨[1, 2, 3], by simp⟩ [])) [.seekRead 4]) := by
  rintro ⟨h, -⟩
  have hpast := (h _ (List.mem_cons_of_mem _ List.mem_cons_self) _ rfl).1
  exact absurd hpast (by decide)

end Tactmon
