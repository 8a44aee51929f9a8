import Tactmon.Beast.Chunking
import Tactmon.Io.Truncation
import Tactmon.Tact.Validity

/-!
# The places of a stream

What the bytes of a damaged stream hold, read from the front as far as the
fields say where the next one is.  A `Place` is what is awaited, with the bytes
that are left.  Its `Piece` is the header, the table or the block that stands
there, a flaw of one of the fields that are looked at, or the payload of an
`'F'` block, which is a stream of its own.

`Place.Reaches` goes from piece to piece and into the payloads.  `Flawed` is
that a flaw is found on the way, and `Mute` that no piece has bytes to pass on.

`next_read` says that one turn of the decoder is the piece at its place.
-/

namespace Tactmon

open Binary Cxx Zlib Resumable CursorReadable

/-! ## Pieces -/

/-- What comes next in a stream. -/
inductive Awaited where
  | header
  | table (headerSize : Nat)
  | blocks (infos : List ChunkInfo)
deriving DecidableEq, Repr

/-- What comes next, and the bytes from there on. -/
structure Place where
  awaited : Awaited
  bytes : Bytes
deriving DecidableEq, Repr

/-- What stands at a place. -/
inductive Piece where
  /-- Not all of it is there. -/
  | missing
  /-- A field is wrong.  `out` is what was inflated in front of the flaw. -/
  | flaw (out : List Bytes)
  | text (out : List Bytes) (behind : Place)
  | stream (payload : Bytes) (behind : Place)
deriving DecidableEq, Repr

/-- What a piece passes on by itself. -/
def Piece.out : Piece → List Bytes
  | missing => []
  | flaw out => out
  | text out _ => out
  | stream _ _ => []

/-- The entries of a chunk table, where bytes that are missing are zeros.  The
size of an entry does not count the mode byte. -/
def tableEntries : Nat → Bytes → List ChunkInfo
  | 0, _ => []
  | count + 1, bytes =>
      ⟨.ofNat (beNat (window bytes 0 4)) - 1, .ofNat (beNat (window bytes 4 4)),
        zeroFilled bytes 8 16⟩ :: tableEntries count (bytes.drop 24)

namespace Place

section Pieces

variable (digest : Bytes → Digest) (Z : Inflate)

/-- The payload of a block, by its mode. -/
def payloadPiece (mode : UInt8) (payload : Bytes) (behind : Place) : Piece :=
  if mode = modeN then .text [payload] behind
  else if mode = modeZ then
    match Z.init with
    | none => .flaw []
    | some strm =>
        match Z.run decompressedBuffer strm payload with
        | (outputs, .failed) => .flaw outputs
        | (outputs, _) => .text outputs behind
  else if mode = modeF then .stream payload behind
  else .flaw []

/-- A block in front of others, on the bytes from its mode byte on. -/
def blockPiece (size : Nat) (infos : List ChunkInfo) : Bytes → Piece
  | [] => .flaw []
  | mode :: rest => payloadPiece Z mode (rest.take size) ⟨.blocks infos, rest.drop size⟩

/-- What stands at a place.  A wrong field is a signature, the flags, a count of
no chunks, the digest of a chunk without its last byte, a mode, or zlib data. -/
def piece : Place → Piece
  | ⟨.header, bytes⟩ =>
      if bytes.length < 8 then .missing
      else if leNat (window bytes 0 4) ≠ blteSignature then .flaw []
      else .text [] ⟨.table (beNat (window bytes 4 4)), bytes.drop 8⟩
  | ⟨.table headerSize, bytes⟩ =>
      let flagsChunkCount := beNat (window bytes 0 4)
      let chunkCount := flagsChunkCount &&& 0x00FFFFFF
      if bytes.length < headerSize then .missing
      else if (flagsChunkCount &&& 0xFF000000) >>> 24 ≠ 0xF ∨ chunkCount = 0 then .flaw []
      else .text [] ⟨.blocks (tableEntries chunkCount (bytes.drop 4)),
        bytes.drop (4 + 24 * chunkCount)⟩
  | ⟨.blocks [], _⟩ => .missing
  | ⟨.blocks (info :: infos), bytes⟩ =>
      let size := info.compressedSize.toNat
      if bytes.length < size then .missing
      else if (digest (bytes.take size)).bytes ≠ info.checksum then .flaw []
      else blockPiece Z size infos bytes

end Pieces

/-! ## The way through a stream -/

section Reaches

variable (digest : Bytes → Digest) (Z : Inflate)

/-- The places of a stream and of the streams in it. -/
inductive Reaches : Place → Place → Prop where
  | here (p : Place) : Reaches p p
  | text {p q behind : Place} {out : List Bytes} :
      p.piece digest Z = .text out behind → Reaches behind q → Reaches p q
  | behind {p q behind : Place} {payload : Bytes} :
      p.piece digest Z = .stream payload behind → Reaches behind q → Reaches p q
  | inside {p q behind : Place} {payload : Bytes} :
      p.piece digest Z = .stream payload behind → Reaches ⟨.header, payload⟩ q → Reaches p q

/-- A wrong field is found. -/
def Flawed (p : Place) : Prop := ∃ q out, Reaches digest Z p q ∧ q.piece digest Z = .flaw out

/-- No bytes are passed on. -/
def Mute (p : Place) : Prop := ∀ q, Reaches digest Z p q → ∀ x ∈ (q.piece digest Z).out, x = []

/-- What holds of every stream in the stream, and of the place behind it. -/
def EachStream (P : Bytes → Place → Prop) (p : Place) : Prop :=
  ∀ q payload behind, Reaches digest Z p q → q.piece digest Z = .stream payload behind →
    P payload behind

variable {digest Z} {p q behind : Place} {out : List Bytes} {payload : Bytes}

/-- A piece that nothing is behind. -/
theorem reaches_end (h : p.piece digest Z = .missing ∨ ∃ out, p.piece digest Z = .flaw out) :
    Reaches digest Z p q ↔ q = p := by
  constructor
  · intro hq
    cases hq with
    | here => rfl
    | text hp _ => rcases h with h | ⟨out, h⟩ <;> cases h.symm.trans hp
    | behind hp _ => rcases h with h | ⟨out, h⟩ <;> cases h.symm.trans hp
    | inside hp _ => rcases h with h | ⟨out, h⟩ <;> cases h.symm.trans hp
  · rintro rfl
    exact .here q

theorem reaches_text (h : p.piece digest Z = .text out behind) :
    Reaches digest Z p q ↔ q = p ∨ Reaches digest Z behind q := by
  constructor
  · intro hq
    cases hq with
    | here => exact .inl rfl
    | text hp hq =>
        cases h.symm.trans hp
        exact .inr hq
    | behind hp _ => cases h.symm.trans hp
    | inside hp _ => cases h.symm.trans hp
  · rintro (rfl | hq)
    · exact .here q
    · exact .text h hq

theorem reaches_stream (h : p.piece digest Z = .stream payload behind) :
    Reaches digest Z p q ↔
      q = p ∨ Reaches digest Z ⟨.header, payload⟩ q ∨ Reaches digest Z behind q := by
  constructor
  · intro hq
    cases hq with
    | here => exact .inl rfl
    | text hp _ => cases h.symm.trans hp
    | behind hp hq =>
        cases h.symm.trans hp
        exact .inr (.inr hq)
    | inside hp hq =>
        cases h.symm.trans hp
        exact .inr (.inl hq)
  · rintro (rfl | hq | hq)
    · exact .here q
    · exact .inside h hq
    · exact .behind h hq

/-! One piece, and what is behind it. -/

theorem flawed_missing (h : p.piece digest Z = .missing) : ¬ p.Flawed digest Z := by
  rintro ⟨q, out, hq, hflaw⟩
  rw [(reaches_end (.inl h)).mp hq] at hflaw
  cases h.symm.trans hflaw

theorem flawed_flaw (h : p.piece digest Z = .flaw out) : p.Flawed digest Z := ⟨p, out, .here p, h⟩

theorem flawed_text (h : p.piece digest Z = .text out behind) :
    p.Flawed digest Z ↔ behind.Flawed digest Z := by
  constructor
  · rintro ⟨q, out', hq, hflaw⟩
    rcases (reaches_text h).mp hq with rfl | hq
    · cases h.symm.trans hflaw
    · exact ⟨q, out', hq, hflaw⟩
  · rintro ⟨q, out', hq, hflaw⟩
    exact ⟨q, out', .text h hq, hflaw⟩

theorem flawed_stream (h : p.piece digest Z = .stream payload behind) :
    p.Flawed digest Z ↔ Flawed digest Z ⟨.header, payload⟩ ∨ behind.Flawed digest Z := by
  constructor
  · rintro ⟨q, out', hq, hflaw⟩
    rcases (reaches_stream h).mp hq with rfl | hq | hq
    · cases h.symm.trans hflaw
    · exact .inl ⟨q, out', hq, hflaw⟩
    · exact .inr ⟨q, out', hq, hflaw⟩
  · rintro (⟨q, out', hq, hflaw⟩ | ⟨q, out', hq, hflaw⟩)
    · exact ⟨q, out', .inside h hq, hflaw⟩
    · exact ⟨q, out', .behind h hq, hflaw⟩

theorem mute_missing (h : p.piece digest Z = .missing) : p.Mute digest Z := by
  intro q hq x hx
  rw [(reaches_end (.inl h)).mp hq, h] at hx
  cases hx

theorem mute_flaw (h : p.piece digest Z = .flaw out) : p.Mute digest Z ↔ ∀ x ∈ out, x = [] := by
  constructor
  · intro hmute
    have hout := hmute p (.here p)
    rw [h] at hout
    exact hout
  · intro hout q hq
    rw [(reaches_end (.inr ⟨_, h⟩)).mp hq, h]
    exact hout

theorem mute_text (h : p.piece digest Z = .text out behind) :
    p.Mute digest Z ↔ (∀ x ∈ out, x = []) ∧ behind.Mute digest Z := by
  constructor
  · intro hmute
    have hout := hmute p (.here p)
    rw [h] at hout
    exact ⟨hout, fun q hq => hmute q (.text h hq)⟩
  · rintro ⟨hout, hbehind⟩ q hq
    rcases (reaches_text h).mp hq with rfl | hq
    · rw [h]
      exact hout
    · exact hbehind q hq

theorem mute_stream (h : p.piece digest Z = .stream payload behind) :
    p.Mute digest Z ↔ Mute digest Z ⟨.header, payload⟩ ∧ behind.Mute digest Z := by
  constructor
  · intro hmute
    exact ⟨fun q hq => hmute q (.inside h hq), fun q hq => hmute q (.behind h hq)⟩
  · rintro ⟨hinside, hbehind⟩ q hq
    rcases (reaches_stream h).mp hq with rfl | hq | hq
    · rw [h]
      exact fun x hx => absurd hx List.not_mem_nil
    · exact hinside q hq
    · exact hbehind q hq

variable {P : Bytes → Place → Prop}

theorem eachStream_end (h : p.piece digest Z = .missing ∨ ∃ out, p.piece digest Z = .flaw out) :
    p.EachStream digest Z P := by
  intro q payload behind hq hstream
  rw [(reaches_end h).mp hq] at hstream
  rcases h with h | ⟨out, h⟩ <;> cases h.symm.trans hstream

theorem eachStream_text (h : p.piece digest Z = .text out behind) :
    p.EachStream digest Z P ↔ behind.EachStream digest Z P := by
  constructor
  · exact fun heach q payload' behind' hq => heach q payload' behind' (.text h hq)
  · intro heach q payload' behind' hq hstream
    rcases (reaches_text h).mp hq with rfl | hq
    · cases h.symm.trans hstream
    · exact heach q payload' behind' hq hstream

theorem eachStream_stream (h : p.piece digest Z = .stream payload behind) :
    p.EachStream digest Z P ↔ P payload behind ∧
      EachStream digest Z P ⟨.header, payload⟩ ∧ behind.EachStream digest Z P := by
  constructor
  · exact fun heach => ⟨heach p payload behind (.here p) h,
      fun q payload' behind' hq => heach q payload' behind' (.inside h hq),
      fun q payload' behind' hq => heach q payload' behind' (.behind h hq)⟩
  · rintro ⟨hhere, hinside, hbehind⟩ q payload' behind' hq hstream
    rcases (reaches_stream h).mp hq with rfl | hq | hq
    · cases h.symm.trans hstream
      exact hhere
    · exact hinside q payload' behind' hq hstream
    · exact hbehind q payload' behind' hq hstream

end Reaches

end Place

/-! ## Turns of the decoder -/

namespace Transform

/-- What the transform awaits. -/
def awaited (t : Transform) : Awaited :=
  match t.step with
  | .header => .header
  | .chunkHeaders => .table t.headerSize.toNat
  | .dataBlocks i => .blocks (t.chunks.drop i)

/-- What the transform awaits, and what its buffer has left. -/
def place (t : Transform) : Place := ⟨t.awaited, t.unread⟩

/-- The read cursor is inside of the buffer. -/
def Inside (t : Transform) : Prop := Unread t.ms t.ms.data t.unread

theorem inside_of_cursor {t : Transform} (hfit : t.ms.data.length < 2 ^ 63)
    (hcursor : t.ms.readCursor ≤ t.ms.data.length) : t.Inside :=
  ⟨t.ms.readCursor, GrowableMemoryStream.rep_self hfit,
    by rw [unread, List.length_drop]; omega, rfl⟩

/-- The buffer of a transform that reads `ms` from now on. -/
theorem unread_of {ms : GrowableMemoryStream} {b rest : Bytes} (h : Unread ms b rest) :
    ms.data = b ∧ ms.data.drop ms.readCursor = rest := by
  obtain ⟨c, ⟨hdata, hcursor, -⟩, -, hrest⟩ := h
  exact ⟨hdata, by rw [hdata, hcursor, hrest]⟩

theorem window_drop (bytes : Bytes) (o n : Nat) : window (bytes.drop o) 0 n = window bytes o n := by
  rw [window, window, List.drop_zero]

theorem zeroFilled_drop (bytes : Bytes) (o n : Nat) :
    zeroFilled (bytes.drop o) 0 n = zeroFilled bytes o n := by
  rw [zeroFilled, zeroFilled, window_drop]

/-- A read that stops at the end of the buffer. -/
theorem unread_of_rep {ms : GrowableMemoryStream} {b : Bytes} {o : Nat}
    (h : Rep ms b (min o b.length)) : Unread ms b (b.drop o) := by
  refine ⟨_, h, by rw [List.length_drop]; omega, ?_⟩
  rcases Nat.le_total o b.length with hle | hle
  · rw [Nat.min_eq_left hle]
  · rw [Nat.min_eq_right hle, List.drop_length, List.drop_eq_nil_of_le hle]

section Reads

variable {ms ms' : GrowableMemoryStream} {b rest : Bytes} {w v : Nat} (h : Unread ms b rest)

include h

/-- A big-endian read that returns. -/
theorem readInt_unread_big (hw : 0 < w) (hr : readInt w ms .big = .ok (v, ms')) :
    v = beNat (window rest 0 w) ∧ Unread ms' b (rest.drop w) := by
  obtain ⟨c, hs, hlen, rfl⟩ := h
  obtain ⟨hv, hs'⟩ := readInt_big_ok hw hs (by omega) hr
  rw [window_drop, List.drop_drop]
  exact ⟨hv, unread_of_rep hs'⟩

theorem readInt_unread_little (hr : readInt w ms .little = .ok (v, ms')) :
    v = leNat (window rest 0 w) ∧ Unread ms' b (rest.drop w) := by
  obtain ⟨c, hs, hlen, rfl⟩ := h
  obtain ⟨s', hr', hs'⟩ :=
    readInt_native (o := c) w ((Nat.min_eq_left (by omega : c ≤ b.length)).symm ▸ hs)
  cases hr'.symm.trans hr
  rw [window_drop, List.drop_drop]
  exact ⟨rfl, unread_of_rep hs'⟩

/-- A digest is read as far as it is there. -/
theorem readChecksum_unread {x : Bytes}
    (hr : readArray ms (List.replicate 16 0) .little = .ok (x, ms')) :
    x = zeroFilled rest 0 16 ∧ Unread ms' b (rest.drop 16) := by
  obtain ⟨c, hs, hlen, rfl⟩ := h
  obtain ⟨s', hr', hs'⟩ :=
    readArray_zeros (o := c) 16 ((Nat.min_eq_left (by omega : c ≤ b.length)).symm ▸ hs)
  cases hr'.symm.trans hr
  rw [zeroFilled_drop, List.drop_drop]
  exact ⟨rfl, unread_of_rep hs'⟩

end Reads

theorem readChunkInfos_entries (count : Nat) {b : Bytes} :
    ∀ {rest : Bytes} {ms ms' : GrowableMemoryStream} {engine engine' : Hash}
      {chunks : List ChunkInfo}, Unread ms b rest →
      readChunkInfos count ms engine = .ok (chunks, engine', ms') →
        chunks = tableEntries count rest ∧ Unread ms' b (rest.drop (24 * count)) := by
  induction count with
  | zero =>
      intro rest ms ms' engine engine' chunks hs h
      cases h
      exact ⟨rfl, hs⟩
  | succ count ih =>
      intro rest ms ms' engine engine' chunks hs h
      rw [readChunkInfos] at h
      obtain ⟨⟨size, ms₁⟩, hr₁, h⟩ := Exec.bind_eq_ok.mp h
      obtain ⟨⟨decompressedSize, ms₂⟩, hr₂, h⟩ := Exec.bind_eq_ok.mp h
      obtain ⟨⟨checksum, ms₃⟩, hr₃, h⟩ := Exec.bind_eq_ok.mp h
      obtain ⟨⟨more, engine₄, ms₄⟩, hmore, h⟩ := Exec.bind_eq_ok.mp h
      cases h
      obtain ⟨rfl, hs₁⟩ := readInt_unread_big hs (by decide) hr₁
      obtain ⟨rfl, hs₂⟩ := readInt_unread_big hs₁ (by decide) hr₂
      rw [List.drop_drop] at hs₂
      obtain ⟨rfl, hs₃⟩ := readChecksum_unread hs₂ hr₃
      rw [List.drop_drop] at hs₃
      obtain ⟨rfl, hs₄⟩ := ih hs₃ hmore
      rw [List.drop_drop] at hs₄
      refine ⟨?_, by rwa [show 24 * (count + 1) = 4 + 4 + 16 + 24 * count by omega]⟩
      rw [tableEntries, window_drop, zeroFilled_drop]

/-- What a turn does to the place of the transform. -/
inductive Reads (digest : Bytes → Digest) (Z : Inflate) (t : Transform)
    (m : (Bytes → Exec (List Bytes × Option ParseError)) → Exec Action) : Prop where
  | fault (f : Fault) : (∀ openNested, m openNested = .error f) → Reads digest Z t m
  | wait : (∀ openNested, m openNested = .ok .wait) → t.place.piece digest Z = .missing →
      Reads digest Z t m
  | stop (t' : Transform) (out : List Bytes) (error : ParseError) :
      (∀ openNested, m openNested = .ok (.stop t' out error)) →
      t.place.piece digest Z = .flaw out → t'.Inside → Reads digest Z t m
  | text (t' : Transform) (out : List Bytes) :
      (∀ openNested, m openNested = .ok (.next t' out none)) →
      t.place.piece digest Z = .text out t'.place → t'.Inside → Reads digest Z t m
  | stream (payload : Bytes) (t' : Transform) :
      (∀ openNested, m openNested =
        (openNested payload).map fun r => .next t' r.1 (r.2.map .nested)) →
      t.place.piece digest Z = .stream payload t'.place → t'.Inside →
      payload.length < 2 ^ 63 → Reads digest Z t m

section Turns

variable {digest : Bytes → Digest} {Z : Inflate} {t : Transform}

variable (digest Z) in
/-- What an action says about the place, where it does not depend on a nested
transform. -/
def Tells (t : Transform) : Action → Prop
  | .wait => t.place.piece digest Z = .missing
  | .stop t' out _ => t.place.piece digest Z = .flaw out ∧ t'.Inside
  | .next t' out error => error = none ∧ t.place.piece digest Z = .text out t'.place ∧ t'.Inside

theorem Reads.of_const {x : Exec Action} (h : ∀ m, x = .ok m → t.Tells digest Z m) :
    Reads digest Z t fun _ => x := by
  cases x with
  | error f => exact .fault f fun _ => rfl
  | ok m =>
      cases m with
      | wait => exact .wait (fun _ => rfl) (h _ rfl)
      | stop t' out error =>
          obtain ⟨hpiece, hinside⟩ := h _ rfl
          exact .stop t' out error (fun _ => rfl) hpiece hinside
      | next t' out error =>
          obtain ⟨rfl, hpiece, hinside⟩ := h _ rfl
          exact .text t' out (fun _ => rfl) hpiece hinside

theorem Inside.fits (h : t.Inside) : t.ms.data.length < 2 ^ 63 := by
  obtain ⟨c, hs, -⟩ := h
  exact CursorReadable.fits hs

theorem Inside.canRead_iff (h : t.Inside) {n : Nat} (hn : n < 2 ^ 63) :
    canRead t.ms n = true ↔ n ≤ t.unread.length := Unread.canRead_iff h hn

/-! A transform that reads on in a buffer. -/

theorem place_eq {b rest : Bytes} (h : Unread t.ms b rest) : t.place = ⟨t.awaited, rest⟩ := by
  rw [place, unread, (unread_of h).2]

theorem inside_of_unread {b rest : Bytes} (h : Unread t.ms b rest) : t.Inside := by
  obtain ⟨hdata, hrest⟩ := unread_of h
  rw [Inside, unread, hrest, hdata]
  exact h

theorem readHeader_tells (hs : t.step = .header) (h : t.Inside) {m : Action}
    (hm : t.readHeader = .ok m) : t.Tells digest Z m := by
  have hplace : t.place = ⟨.header, t.unread⟩ := by rw [place, awaited, hs]
  have hcan := h.canRead_iff (n := 8) (by decide)
  rw [readHeader] at hm
  split at hm
  · rename_i h8
    have hlen : ¬ t.unread.length < 8 := Nat.not_lt_of_le (hcan.mp h8)
    obtain ⟨⟨signature, ms₁⟩, hr₁, hm⟩ := Exec.bind_eq_ok.mp hm
    obtain ⟨rfl, hs₁⟩ := readInt_unread_little h hr₁
    dsimp only at hm
    split at hm
    · rename_i hsignature
      cases hm
      refine ⟨?_, inside_of_unread hs₁⟩
      rw [hplace, Place.piece, if_neg hlen, if_pos hsignature]
    · rename_i hsignature
      obtain ⟨⟨headerSize, ms₂⟩, hr₂, hm⟩ := Exec.bind_eq_ok.mp hm
      obtain ⟨rfl, hs₂⟩ := readInt_unread_big hs₁ (by decide) hr₂
      cases hm
      rw [List.drop_drop] at hs₂
      have hsize : (UInt32.ofNat (beNat (window (t.unread.drop 4) 0 4))).toNat =
          beNat (window t.unread 4 4) := by
        rw [UInt32.toNat_ofNat_of_lt' (beNat_window_lt _ 0 4), window_drop]
      refine ⟨rfl, ?_, inside_of_unread hs₂⟩
      rw [hplace, Place.piece, if_neg hlen, if_neg hsignature, ← hsize]
      exact congrArg (Piece.text []) (Eq.symm (place_eq hs₂))
  · rename_i h8
    cases hm
    have hlen : t.unread.length < 8 := Nat.lt_of_not_le fun hle => h8 (hcan.mpr hle)
    rw [Tells, hplace, Place.piece, if_pos hlen]

theorem readChunkHeaders_tells (hs : t.step = .chunkHeaders) (h : t.Inside) {m : Action}
    (hm : t.readChunkHeaders = .ok m) : t.Tells digest Z m := by
  have hplace : t.place = ⟨.table t.headerSize.toNat, t.unread⟩ := by rw [place, awaited, hs]
  have hcan := h.canRead_iff (n := t.headerSize.toNat) (by have := t.headerSize.toNat_lt; omega)
  rw [readChunkHeaders] at hm
  split at hm
  · rename_i htable
    have hlen : ¬ t.unread.length < t.headerSize.toNat := Nat.not_lt_of_le (hcan.mp htable)
    obtain ⟨⟨flagsChunkCount, ms₁⟩, hr₁, hm⟩ := Exec.bind_eq_ok.mp hm
    obtain ⟨rfl, hs₁⟩ := readInt_unread_big h (by decide) hr₁
    dsimp only at hm
    split at hm
    · rename_i hflags
      cases hm
      refine ⟨?_, inside_of_unread hs₁⟩
      rw [hplace, Place.piece, if_neg hlen, if_pos hflags]
    · rename_i hflags
      obtain ⟨⟨chunks, engine, ms₂⟩, hr₂, hm⟩ := Exec.bind_eq_ok.mp hm
      obtain ⟨rfl, hs₂⟩ := readChunkInfos_entries _ hs₁ hr₂
      cases hm
      rw [List.drop_drop] at hs₂
      refine ⟨rfl, ?_, inside_of_unread hs₂⟩
      rw [hplace, Place.piece, if_neg hlen, if_neg hflags]
      exact congrArg (Piece.text []) (Eq.symm (place_eq hs₂))
  · rename_i htable
    cases hm
    have hlen : t.unread.length < t.headerSize.toNat :=
      Nat.lt_of_not_le fun hle => htable (hcan.mpr hle)
    rw [Tells, hplace, Place.piece, if_pos hlen]

/-- What stands behind a payload. -/
theorem moved_place {b rest : Bytes} {i size : Nat} {infos : List ChunkInfo}
    (hs : Unread t.ms b rest) (hsize : size ≤ rest.length)
    (hinfos : t.chunks.drop (i + 1) = infos) :
    place { t with ms := skipRead t.ms size, step := .dataBlocks (i + 1) } =
        ⟨.blocks infos, rest.drop size⟩ ∧
      Inside { t with ms := skipRead t.ms size, step := .dataBlocks (i + 1) } := by
  have hlen : (rest.take size).length = size := List.length_take_of_le hsize
  have hskip : Unread (skipRead t.ms size) b (rest.drop size) := by
    rw [← List.take_append_drop size rest] at hs
    have hskip := hs.skipRead
    rwa [hlen] at hskip
  refine ⟨(place_eq hskip).trans ?_, inside_of_unread hskip⟩
  exact congrArg (fun infos => (⟨.blocks infos, rest.drop size⟩ : Place)) hinfos

/-- The turn of a block whose mode byte was read. -/
theorem readPayload_read {t₀ : Transform} {b rest : Bytes} {i size : Nat} {mode : UInt8}
    {infos : List ChunkInfo} (hs : Unread t.ms b rest)
    (hinfos : t.chunks.drop (i + 1) = infos)
    (hplace : t₀.place.piece digest Z =
      Place.payloadPiece Z mode (rest.take size) ⟨.blocks infos, rest.drop size⟩) :
    Reads digest Z t₀ fun openNested => t.readPayload Z openNested i size mode := by
  obtain ⟨data, hview, hmem, hsize⟩ :
      ∃ u, t.ms.view = .ok u ∧ u.mem = rest ∧ u.size = rest.length := hs.data
  have hload : data.load size =
      if size ≤ rest.length then .ok (rest.take size) else .error .outOfBounds := by
    rw [Span.load, hmem]
  simp only [readPayload, hview, Exec.ok_bind, hload]
  rw [Place.payloadPiece] at hplace
  by_cases hN : mode = modeN
  · simp only [if_pos hN] at hplace ⊢
    by_cases hle : size ≤ rest.length
    · obtain ⟨hbehind, hinside⟩ := moved_place hs hle hinfos
      obtain ⟨u, hu, humem, husize⟩ :=
        Span.subspan_of_le (by omega : 0 + size ≤ data.size)
      have hbytes : u.bytes = rest.take size := by
        rw [Span.bytes, humem, husize, List.drop_zero, hmem]
      refine .text _ [rest.take size] (fun _ => ?_) (hbehind.symm ▸ hplace) hinside
      rw [hu, Exec.ok_bind, hbytes]
    · refine .fault .outOfBounds fun _ => ?_
      rw [Span.subspan, dif_neg (by omega)]
      rfl
  simp only [if_neg hN] at hplace ⊢
  by_cases hZ : mode = modeZ
  · simp only [if_pos hZ] at hplace ⊢
    cases hinit : Z.init with
    | none =>
        rw [hinit] at hplace
        exact .stop t [] .inflateInit (fun _ => rfl) hplace (inside_of_unread hs)
    | some strm =>
        rw [hinit] at hplace
        dsimp only at hplace ⊢
        by_cases hle : size ≤ rest.length
        · obtain ⟨hbehind, hinside⟩ := moved_place hs hle hinfos
          simp only [if_pos hle, Exec.ok_bind, Inflate.drain_eq_run]
          rcases hrun : Z.run decompressedBuffer strm (rest.take size) with ⟨outputs, outcome⟩
          rw [hrun] at hplace
          cases outcome with
          | ended => exact .text _ outputs (fun _ => rfl) (hbehind.symm ▸ hplace) hinside
          | starved => exact .text _ outputs (fun _ => rfl) (hbehind.symm ▸ hplace) hinside
          | failed => exact .stop t outputs .inflate (fun _ => rfl) hplace (inside_of_unread hs)
          | needsDict => exact .fault .diverges fun _ => rfl
        · simp only [if_neg hle]
          exact .fault .outOfBounds fun _ => rfl
  simp only [if_neg hZ] at hplace ⊢
  by_cases hF : mode = modeF
  · simp only [if_pos hF] at hplace ⊢
    by_cases hle : size ≤ rest.length
    · obtain ⟨hbehind, hinside⟩ := moved_place hs hle hinfos
      simp only [if_pos hle, Exec.ok_bind]
      refine .stream (rest.take size) _ (fun openNested => ?_) (hbehind.symm ▸ hplace) hinside ?_
      · cases openNested (rest.take size) with
        | error f => rfl
        | ok r => rfl
      · have hfits := CursorReadable.fits hs.rep
        have hcursor := hs.cursor_add
        rw [List.length_take]
        omega
    · simp only [if_neg hle]
      exact .fault .outOfBounds fun _ => rfl
  · simp only [if_neg hF] at hplace ⊢
    exact .stop t [] .encodingMode (fun _ => rfl) hplace (inside_of_unread hs)

theorem readBlock_read (i : Nat) (hs : t.step = .dataBlocks i) (h : t.Inside) :
    Reads digest Z t fun openNested => t.readBlock digest Z openNested i := by
  have hplace : t.place = ⟨.blocks (t.chunks.drop i), t.unread⟩ := by rw [place, awaited, hs]
  simp only [readBlock]
  cases hchunk : t.chunks[i]? with
  | none =>
      refine .wait (fun _ => rfl) ?_
      rw [hplace, List.drop_eq_nil_of_le (List.getElem?_eq_none_iff.mp hchunk), Place.piece]
  | some info =>
      obtain ⟨hi, hinfo⟩ := List.getElem?_eq_some_iff.mp hchunk
      have hinfos : t.chunks.drop i = info :: t.chunks.drop (i + 1) := by
        rw [← hinfo]
        exact (List.getElem_cons_drop hi).symm
      rw [hinfos] at hplace
      have hpiece := congrArg (Place.piece digest Z) hplace
      have hcan := h.canRead_iff (n := info.compressedSize.toNat)
        (by have := info.compressedSize.toNat_lt; omega)
      dsimp only
      by_cases hle : info.compressedSize.toNat ≤ t.unread.length
      · have hlen : ¬ t.unread.length < info.compressedSize.toNat := Nat.not_lt_of_le hle
        obtain ⟨data, hview, hmem, hsize⟩ :
            ∃ u, t.ms.view = .ok u ∧ u.mem = t.unread ∧ u.size = t.unread.length := h.data
        obtain ⟨u, hu, humem, husize⟩ :=
          Span.subspan_of_le (by omega : 0 + info.compressedSize.toNat ≤ data.size)
        have hbytes : u.bytes = t.unread.take info.compressedSize.toNat := by
          rw [Span.bytes, humem, husize, List.drop_zero, hmem]
        simp only [if_pos (hcan.mpr hle), hview, Exec.ok_bind, hu, hbytes]
        by_cases hdigest :
            (digest (t.unread.take info.compressedSize.toNat)).bytes ≠ info.checksum
        · simp only [if_pos hdigest]
          refine .stop t [] .digest (fun _ => rfl) ?_ h
          rw [hplace, Place.piece, if_neg hlen, if_pos hdigest]
        · simp only [if_neg hdigest]
          rw [Place.piece, if_neg hlen, if_neg hdigest] at hpiece
          cases hr : readInt 1 t.ms .big with
          | error f => exact .fault f fun _ => rfl
          | ok r =>
              obtain ⟨mode, ms⟩ := r
              obtain ⟨rfl, hms⟩ := readInt_unread_big h (by decide) hr
              simp only [Exec.ok_bind]
              refine readPayload_read (t := { t with ms }) hms rfl (hpiece.trans ?_)
              cases t.unread with
              | nil => rfl
              | cons mode rest =>
                  have hmode : UInt8.ofNat (beNat (window (mode :: rest) 0 1)) = mode :=
                    UInt8.ofNat_toNat
                  rw [hmode]
                  rfl
      · have hlen : t.unread.length < info.compressedSize.toNat := Nat.lt_of_not_le hle
        simp only [if_neg fun hc => hle (hcan.mp hc)]
        refine .wait (fun _ => rfl) ?_
        rw [hplace, Place.piece, if_pos hlen]

variable (digest Z) in
/-- A turn of the decoder is the piece at its place. -/
theorem next_read (h : t.Inside) :
    Reads digest Z t fun openNested => t.next digest Z openNested := by
  simp only [next]
  cases hs : t.step with
  | header => exact .of_const fun _ => readHeader_tells hs h
  | chunkHeaders => exact .of_const fun _ => readChunkHeaders_tells hs h
  | dataBlocks i => exact readBlock_read i hs h

section Actions

variable {m : (Bytes → Exec (List Bytes × Option ParseError)) → Exec Action}
  {openNested : Bytes → Exec (List Bytes × Option ParseError)} {t' : Transform}
  {out : List Bytes}

theorem Reads.of_wait (h : Reads digest Z t m) (hm : m openNested = .ok .wait) :
    t.place.piece digest Z = .missing := by
  cases h with
  | fault f hf => cases hm.symm.trans (hf _)
  | wait _ hpiece => exact hpiece
  | stop t' out error hstop => cases hm.symm.trans (hstop _)
  | text t' out htext => cases hm.symm.trans (htext _)
  | stream payload t' hstream =>
      obtain ⟨r, -, hr⟩ := Exec.map_eq_ok.mp ((hstream _).symm.trans hm)
      cases hr

theorem Reads.of_stop {error : ParseError} (h : Reads digest Z t m)
    (hm : m openNested = .ok (.stop t' out error)) :
    t.place.piece digest Z = .flaw out ∧ t'.Inside := by
  cases h with
  | fault f hf => cases hm.symm.trans (hf _)
  | wait hwait => cases hm.symm.trans (hwait _)
  | stop t' out error hstop hpiece hinside =>
      cases hm.symm.trans (hstop _)
      exact ⟨hpiece, hinside⟩
  | text t' out htext => cases hm.symm.trans (htext _)
  | stream payload t' hstream =>
      obtain ⟨r, -, hr⟩ := Exec.map_eq_ok.mp ((hstream _).symm.trans hm)
      cases hr

end Actions

end Turns

end Transform

end Tactmon
