import Tactmon.Lib.Resumable
import Tactmon.Tact.BLTE

/-!
# The streaming BLTE decoder

`BlockTableEncodedStreamTransform` of `beast/`.  `Parse` appends its input to
`_ms`, reports its size to the feedback callback and steps until a step waits
for more input or sets an error.

A chunk is stored with one less than its size field, and that is the size the
availability test, the chunk digest and the payload use, the mode byte not
counted.  A view of the buffer that runs past its end is a fault.

A block in mode `'F'` is parsed by a transform of its own.  An error of that
transform is noted and the outer loop goes on, so a later error replaces it.
The nested transform sees fewer bytes than the outer one, so a number of
nestings above the length of the input is enough; `openNested_eq` is the
recursion without the bound.

The header digest is computed and not compared with anything.
-/

namespace Tactmon

open Binary Cxx Zlib Resumable

/-- The `http::error` values the decoder sets. -/
inductive HttpError where
  | body_limit
  | need_more
  | bad_alloc
  | unexpected_body
deriving DecidableEq, Repr

/-- Why the decoder set an error. -/
inductive ParseError where
  | signature
  | flags
  | digest
  | inflateInit
  | inflate
  | encodingMode
  /-- An error of the transform of an `'F'` block. -/
  | nested (error : ParseError)
deriving DecidableEq, Repr

/-- The error code of each reason. -/
def ParseError.code : ParseError → HttpError
  | signature => .body_limit
  | flags => .need_more
  | digest => .body_limit
  | inflateInit => .bad_alloc
  | inflate => .bad_alloc
  | encodingMode => .unexpected_body
  | nested error => error.code

/-- `Step`.  The data blocks are numbered from zero. -/
inductive Step where
  | header
  | chunkHeaders
  | dataBlocks (i : Nat)
deriving DecidableEq, Repr

/-- `ChunkInfo`. -/
structure ChunkInfo where
  compressedSize : UInt32
  decompressedSize : UInt32
  checksum : Bytes
deriving DecidableEq, Repr

/-- `BlockTableEncodedStreamTransform`, its two callbacks left aside. -/
structure Transform where
  chunks : List ChunkInfo
  step : Step
  headerSize : UInt32
  ms : GrowableMemoryStream
  engine : Hash
deriving DecidableEq, Repr

/-- `'BLTE'` read least significant byte first. -/
def blteSignature : Nat := 0x45544C42

namespace Transform

/-- The constructor. -/
def fresh : Transform := ⟨[], .header, 0, .empty, .init⟩

/-- What a step of the decoder does. -/
abbrev Action := Move Transform Bytes ParseError

/-- What a call of the decoder leaves behind. -/
abbrev Outcome := Resumable.Result Transform Bytes ParseError

/-- Append the input of a call to the buffer. -/
def feed (t : Transform) (data : Bytes) : Transform := { t with ms := (t.ms.write data).2 }

/-! ## The steps -/

/-- `Step::Header`. -/
def readHeader (t : Transform) : Exec Action :=
  if canRead t.ms 8 then do
    let (signature, ms) ← readInt 4 t.ms .little
    if signature ≠ blteSignature then .ok (.stop { t with ms } [] .signature)
    else do
      let (headerSize, ms) ← readInt 4 ms .big
      let engine := t.engine.updateInt 4 signature
      let engine := engine.updateInt 4 (byteswap 4 headerSize)
      .ok (.next { t with ms, engine, headerSize := .ofNat headerSize, step := .chunkHeaders }
        [] none)
  else .ok .wait

/-- The loop over the chunk table. -/
def readChunkInfos : Nat → GrowableMemoryStream → Hash →
    Exec (List ChunkInfo × Hash × GrowableMemoryStream)
  | 0, ms, engine => .ok ([], engine, ms)
  | count + 1, ms, engine => do
      let (size, ms) ← readInt 4 ms .big
      let compressedSize : UInt32 := .ofNat size - 1
      let (decompressedSize, ms) ← readInt 4 ms .big
      let (checksum, ms) ← readArray ms (List.replicate 16 0) .little
      let engine := engine.updateInt 4 (byteswap 4 compressedSize.toNat)
      let engine := engine.updateInt 4 (byteswap 4 decompressedSize)
      let engine := engine.updateData checksum
      let (chunks, engine, ms) ← readChunkInfos count ms engine
      .ok (⟨compressedSize, .ofNat decompressedSize, checksum⟩ :: chunks, engine, ms)

/-- `Step::ChunkHeaders`. -/
def readChunkHeaders (t : Transform) : Exec Action :=
  if canRead t.ms t.headerSize.toNat then do
    let (flagsChunkCount, ms) ← readInt 4 t.ms .big
    let engine := t.engine.updateInt 4 (byteswap 4 flagsChunkCount)
    let flags := (flagsChunkCount &&& 0xFF000000) >>> 24
    let chunkCount := flagsChunkCount &&& 0x00FFFFFF
    if flags ≠ 0xF ∨ chunkCount = 0 then .ok (.stop { t with ms, engine } [] .flags)
    else do
      let (chunks, engine, ms) ← readChunkInfos chunkCount ms engine
      .ok (.next { t with chunks, ms, engine, step := .dataBlocks 0 } [] none)
  else .ok .wait

section Blocks

variable (digest : Bytes → Digest) (Z : Inflate)
  (openNested : Bytes → Exec (List Bytes × Option ParseError))

/-- The switch over the encoding mode, on a stream past the mode byte. -/
def readPayload (t : Transform) (i size : Nat) (encodingMode : UInt8) : Exec Action := do
  let data ← t.ms.view
  let moved : Transform := { t with ms := skipRead t.ms size, step := .dataBlocks (i + 1) }
  if encodingMode = modeN then do
    let payload ← data.subspan 0 size
    .ok (.next moved [payload.bytes] none)
  else if encodingMode = modeZ then
    match Z.init with
    | none => .ok (.stop t [] .inflateInit)
    | some strm => do
        let payload ← data.load size
        let (outputs, completed) ← Z.drain decompressedBuffer strm payload
        .ok (if completed then .next moved outputs none else .stop t outputs .inflate)
  else if encodingMode = modeF then do
    let payload ← data.load size
    let (outputs, error) ← openNested payload
    .ok (.next moved outputs (error.map .nested))
  else .ok (.stop t [] .encodingMode)

/-- The step of a data block. -/
def readBlock (t : Transform) (i : Nat) : Exec Action :=
  match t.chunks[i]? with
  | none => .ok .wait
  | some chunkInfo =>
      let size := chunkInfo.compressedSize.toNat
      if canRead t.ms size then do
        let data ← t.ms.view
        let chunk ← data.subspan 0 size
        if (digest chunk.bytes).bytes ≠ chunkInfo.checksum then .ok (.stop t [] .digest)
        else do
          let (encodingMode, ms) ← readInt 1 t.ms .big
          readPayload Z openNested { t with ms } i size (.ofNat encodingMode)
      else .ok .wait

/-- One turn of the loop. -/
def next (t : Transform) : Exec Action :=
  match t.step with
  | .header => t.readHeader
  | .chunkHeaders => t.readChunkHeaders
  | .dataBlocks i => t.readBlock digest Z openNested i

end Blocks

/-! ## What a step can do -/

/-- How a step that moves on changes `_step`, and what it leaves alone. -/
inductive Advances (t t' : Transform) : Prop where
  | header : t.step = .header → t'.step = .chunkHeaders → Advances t t'
  | chunkHeaders : t.step = .chunkHeaders → t'.step = .dataBlocks 0 →
      t'.chunks.length < 2 ^ 24 → t'.headerSize = t.headerSize → Advances t t'
  | dataBlock (i : Nat) : t.step = .dataBlocks i → i < t.chunks.length →
      t'.step = .dataBlocks (i + 1) → t'.chunks = t.chunks → t'.headerSize = t.headerSize →
      Advances t t'

/-- What a step that sets an error leaves alone. -/
structure Stalls (t t' : Transform) : Prop where
  buffer : t.ms.SameBuffer t'.ms
  step : t'.step = t.step
  chunks : t'.chunks = t.chunks
  headerSize : t'.headerSize = t.headerSize

/-- What a step may do: wait, set an error, or move on.  The only error it
moves on from is that of a nested archive. -/
def Permits (t : Transform) : Action → Prop
  | .wait => True
  | .stop t' _ _ => t.Stalls t'
  | .next t' _ e =>
      t.ms.SameBuffer t'.ms ∧ t.Advances t' ∧ ∀ error ∈ e, ∃ inner, error = .nested inner

theorem readHeader_permits {t : Transform} {m : Action} (hs : t.step = .header)
    (h : t.readHeader = .ok m) : t.Permits m := by
  rw [readHeader] at h
  split at h
  · obtain ⟨⟨signature, ms₁⟩, hr₁, h⟩ := Exec.bind_eq_ok.mp h
    have h₁ := GrowableMemoryStream.readInt_sameBuffer hr₁
    dsimp only at h
    split at h
    · cases h
      exact ⟨h₁, rfl, rfl, rfl⟩
    · obtain ⟨⟨headerSize, ms₂⟩, hr₂, h⟩ := Exec.bind_eq_ok.mp h
      cases h
      exact ⟨h₁.trans (GrowableMemoryStream.readInt_sameBuffer hr₂), .header hs rfl,
        fun _ he => nomatch he⟩
  · cases h
    trivial

/-- The table loop reads as many entries as it is told to. -/
theorem readChunkInfos_ok (count : Nat) :
    ∀ {ms ms' : GrowableMemoryStream} {engine engine' : Hash} {chunks : List ChunkInfo},
      readChunkInfos count ms engine = .ok (chunks, engine', ms') →
        chunks.length = count ∧ ms.SameBuffer ms' := by
  induction count with
  | zero =>
      intro ms ms' engine engine' chunks h
      cases h
      exact ⟨rfl, .refl _⟩
  | succ count ih =>
      intro ms ms' engine engine' chunks h
      rw [readChunkInfos] at h
      obtain ⟨⟨size, ms₁⟩, hr₁, h⟩ := Exec.bind_eq_ok.mp h
      obtain ⟨⟨decompressedSize, ms₂⟩, hr₂, h⟩ := Exec.bind_eq_ok.mp h
      obtain ⟨⟨checksum, ms₃⟩, hr₃, h⟩ := Exec.bind_eq_ok.mp h
      obtain ⟨⟨rest, engine₄, ms₄⟩, hrest, h⟩ := Exec.bind_eq_ok.mp h
      cases h
      obtain ⟨hlen, h₄⟩ := ih hrest
      have h₁ := GrowableMemoryStream.readInt_sameBuffer hr₁
      have h₂ := GrowableMemoryStream.readInt_sameBuffer hr₂
      have h₃ := GrowableMemoryStream.readArray_sameBuffer hr₃
      exact ⟨by rw [List.length_cons, hlen], ((h₁.trans h₂).trans h₃).trans h₄⟩

theorem readChunkHeaders_permits {t : Transform} {m : Action} (hs : t.step = .chunkHeaders)
    (h : t.readChunkHeaders = .ok m) : t.Permits m := by
  rw [readChunkHeaders] at h
  split at h
  · obtain ⟨⟨flagsChunkCount, ms₁⟩, hr₁, h⟩ := Exec.bind_eq_ok.mp h
    have h₁ := GrowableMemoryStream.readInt_sameBuffer hr₁
    dsimp only at h
    split at h
    · cases h
      exact ⟨h₁, rfl, rfl, rfl⟩
    · obtain ⟨⟨chunks, engine, ms₂⟩, hr₂, h⟩ := Exec.bind_eq_ok.mp h
      cases h
      obtain ⟨hlen, h₂⟩ := readChunkInfos_ok _ hr₂
      have hcount : chunks.length < 2 ^ 24 := by
        rw [hlen]
        exact Nat.lt_of_le_of_lt Nat.and_le_right (by decide)
      exact ⟨h₁.trans h₂, .chunkHeaders hs rfl hcount rfl, fun _ he => nomatch he⟩
  · cases h
    trivial

section Blocks

variable {digest : Bytes → Digest} {Z : Inflate}
  {openNested : Bytes → Exec (List Bytes × Option ParseError)}

theorem readPayload_permits {t : Transform} {i size : Nat} {mode : UInt8} {m : Action}
    (hs : t.step = .dataBlocks i) (hi : i < t.chunks.length)
    (h : t.readPayload Z openNested i size mode = .ok m) : t.Permits m := by
  have hmoved : t.ms.SameBuffer (skipRead t.ms size) := ⟨rfl, rfl⟩
  rw [readPayload] at h
  obtain ⟨data, -, h⟩ := Exec.bind_eq_ok.mp h
  dsimp only at h
  split at h
  · obtain ⟨payload, -, h⟩ := Exec.bind_eq_ok.mp h
    cases h
    exact ⟨hmoved, .dataBlock i hs hi rfl rfl rfl, fun _ he => nomatch he⟩
  · split at h
    · split at h
      · cases h
        exact ⟨.refl _, rfl, rfl, rfl⟩
      · obtain ⟨payload, -, h⟩ := Exec.bind_eq_ok.mp h
        obtain ⟨⟨outputs, completed⟩, -, h⟩ := Exec.bind_eq_ok.mp h
        cases completed with
        | false =>
            cases h
            exact ⟨.refl _, rfl, rfl, rfl⟩
        | true =>
            cases h
            exact ⟨hmoved, .dataBlock i hs hi rfl rfl rfl, fun _ he => nomatch he⟩
    · split at h
      · obtain ⟨payload, -, h⟩ := Exec.bind_eq_ok.mp h
        obtain ⟨⟨outputs, error⟩, -, h⟩ := Exec.bind_eq_ok.mp h
        cases h
        refine ⟨hmoved, .dataBlock i hs hi rfl rfl rfl, fun e he => ?_⟩
        obtain ⟨inner, -, hinner⟩ := Option.map_eq_some_iff.mp he
        exact ⟨inner, hinner.symm⟩
      · cases h
        exact ⟨.refl _, rfl, rfl, rfl⟩

/-- Reading the mode byte first changes nothing a step leaves alone. -/
theorem Permits.of_read {t : Transform} {ms : GrowableMemoryStream} (hms : t.ms.SameBuffer ms)
    {m : Action} (h : Permits { t with ms } m) : t.Permits m := by
  cases m with
  | wait => trivial
  | stop t' out e => exact ⟨hms.trans h.buffer, h.step, h.chunks, h.headerSize⟩
  | next t' out e =>
      obtain ⟨hbuffer, hadv, hnoted⟩ := h
      refine ⟨hms.trans hbuffer, ?_, hnoted⟩
      cases hadv with
      | header hs hs' => exact .header hs hs'
      | chunkHeaders hs hs' hc hh => exact .chunkHeaders hs hs' hc hh
      | dataBlock i hs hi hs' hc hh => exact .dataBlock i hs hi hs' hc hh

theorem readBlock_permits {t : Transform} {i : Nat} {m : Action} (hs : t.step = .dataBlocks i)
    (h : t.readBlock digest Z openNested i = .ok m) : t.Permits m := by
  rw [readBlock] at h
  cases hchunk : t.chunks[i]? with
  | none =>
      rw [hchunk] at h
      cases h
      trivial
  | some chunkInfo =>
      have hi : i < t.chunks.length := (List.getElem?_eq_some_iff.mp hchunk).1
      rw [hchunk] at h
      dsimp only at h
      split at h
      · obtain ⟨data, -, h⟩ := Exec.bind_eq_ok.mp h
        obtain ⟨chunk, -, h⟩ := Exec.bind_eq_ok.mp h
        split at h
        · cases h
          exact ⟨.refl _, rfl, rfl, rfl⟩
        · obtain ⟨⟨mode, ms⟩, hr, h⟩ := Exec.bind_eq_ok.mp h
          exact .of_read (GrowableMemoryStream.readInt_sameBuffer hr)
            (readPayload_permits (t := { t with ms }) hs hi h)
      · cases h
        trivial

/-- No step touches what is buffered, and a step either moves to the next one
or leaves the chunk table and the step as they were. -/
theorem next_permits {t : Transform} {m : Action} (h : t.next digest Z openNested = .ok m) :
    t.Permits m := by
  rw [next] at h
  cases hs : t.step with
  | header =>
      rw [hs] at h
      exact readHeader_permits hs h
  | chunkHeaders =>
      rw [hs] at h
      exact readChunkHeaders_permits hs h
  | dataBlocks i =>
      rw [hs] at h
      exact readBlock_permits hs h

end Blocks

/-! ## The loop -/

/-- How many turns a transform can still take. -/
def turns (t : Transform) : Nat :=
  match t.step with
  | .header => 2 ^ 24 + 1
  | .chunkHeaders => 2 ^ 24
  | .dataBlocks i => t.chunks.length - i

theorem Advances.turns_lt {t t' : Transform} (h : t.Advances t') : t'.turns < t.turns := by
  cases h with
  | header hs hs' =>
      rw [turns, turns, hs, hs']
      exact Nat.lt_succ_self _
  | chunkHeaders hs hs' hc =>
      rw [turns, turns, hs, hs']
      exact hc
  | dataBlock i hs hi hs' hc =>
      rw [turns, turns, hs, hs', hc]
      dsimp only
      omega

section Loop

variable (digest : Bytes → Digest) (Z : Inflate)

/-- The loop of `Parse`, given what parses the payload of an `'F'` block. -/
def machine (openNested : Bytes → Exec (List Bytes × Option ParseError)) :
    Machine Transform Bytes ParseError Fault where
  step := next digest Z openNested
  rank := turns
  rank_lt h := (next_permits h).2.1.turns_lt

section Run

variable {digest Z} {openNested : Bytes → Exec (List Bytes × Option ParseError)}

theorem run_of_wait {t : Transform} (h : t.next digest Z openNested = .ok .wait) :
    (machine digest Z openNested).run t = .ok ⟨t, [], none⟩ :=
  (machine digest Z openNested).run_wait h

theorem run_of_stop {t t' : Transform} {out : List Bytes} {e : ParseError}
    (h : t.next digest Z openNested = .ok (.stop t' out e)) :
    (machine digest Z openNested).run t = .ok ⟨t', out, some e⟩ :=
  (machine digest Z openNested).run_stop h

theorem run_of_next {t t' : Transform} {out : List Bytes} {e : Option ParseError}
    (h : t.next digest Z openNested = .ok (.next t' out e)) :
    (machine digest Z openNested).run t =
      ((machine digest Z openNested).run t').map (Result.after out e) :=
  (machine digest Z openNested).run_next h

end Run

/-- What a fresh transform makes of a payload, up to `depth` nestings. -/
def nestedParse : Nat → Bytes → Exec (List Bytes × Option ParseError)
  | 0, _ => .error .diverges
  | depth + 1, payload =>
      ((machine digest Z (nestedParse depth)).run (fresh.feed payload)).map
        fun r => (r.out, r.error)

/-- What a fresh transform makes of a payload. -/
def openNested (payload : Bytes) : Exec (List Bytes × Option ParseError) :=
  nestedParse digest Z (payload.length + 1) payload

/-- `Parse`: what is reported to the feedback callback, and what the loop
leaves behind. -/
def parse (t : Transform) (data : Bytes) : Exec (Nat × Outcome) := do
  let r ← (machine digest Z (openNested digest Z)).run (t.feed data)
  .ok (data.length, r)

/-! ## Nested archives -/

section Nested

variable {digest Z}

/-- A step, as a function of what parses the payload of an `'F'` block, either
does not depend on it or hands it one short payload and notes its error. -/
inductive Splits (bound : Nat)
    (m : (Bytes → Exec (List Bytes × Option ParseError)) → Exec Action) : Prop where
  | plain : (∀ openNested₁ openNested₂, m openNested₁ = m openNested₂) →
      (∀ openNested t' out e, m openNested = .ok (.next t' out e) → e = none) → Splits bound m
  | nested (payload : Bytes) (t' : Transform) : payload.length < bound →
      (∀ openNested, m openNested =
        (openNested payload).map fun r => .next t' r.1 (r.2.map .nested)) → Splits bound m

/-- What does not depend on the payload and notes no error. -/
theorem Splits.of_const {bound : Nat} {x : Exec Action}
    (h : ∀ t' out e, x = .ok (.next t' out e) → e = none) : Splits bound fun _ => x :=
  .plain (fun _ _ => rfl) fun _ => h

theorem readPayload_splits {t : Transform} {i size bound : Nat} {mode : UInt8}
    (hbound : mode = modeF → ∀ payload : Bytes,
      payload.length ≤ (t.ms.data.drop t.ms.readCursor).length → payload.length < bound) :
    Splits bound fun openNested => t.readPayload Z openNested i size mode := by
  simp only [readPayload]
  cases hview : t.ms.view with
  | error e => exact .of_const fun _ _ _ h => nomatch h
  | ok data =>
      obtain ⟨-, hmem⟩ := GrowableMemoryStream.le_of_view hview
      simp only [Exec.ok_bind]
      by_cases hN : mode = modeN
      · simp only [if_pos hN]
        refine .of_const fun t' out e h => ?_
        obtain ⟨payload, -, h⟩ := Exec.bind_eq_ok.mp h
        cases h
        rfl
      simp only [if_neg hN]
      by_cases hZ : mode = modeZ
      · simp only [if_pos hZ]
        refine .of_const fun t' out e h => ?_
        split at h
        · cases h
        · obtain ⟨payload, -, h⟩ := Exec.bind_eq_ok.mp h
          obtain ⟨⟨outputs, completed⟩, -, h⟩ := Exec.bind_eq_ok.mp h
          cases completed with
          | false => cases h
          | true =>
              cases h
              rfl
      simp only [if_neg hZ]
      by_cases hF : mode = modeF
      · simp only [if_pos hF]
        cases hload : data.load size with
        | error e => exact .of_const fun _ _ _ h => nomatch h
        | ok payload =>
            have hlen := Span.load_length_le hload
            rw [hmem] at hlen
            let moved : Transform :=
              { t with ms := skipRead t.ms size, step := .dataBlocks (i + 1) }
            refine .nested payload moved (hbound hF payload hlen) fun openNested => ?_
            rw [Exec.ok_bind]
            cases openNested payload with
            | error e => rfl
            | ok r => rfl
      · simp only [if_neg hF]
        exact .of_const fun _ _ _ h => nomatch h

/-- The payload of an `'F'` block is shorter than the buffer, since the mode
byte is not part of it. -/
theorem readBlock_splits {t : Transform} (i : Nat) (hfit : t.ms.data.length < 2 ^ 63) :
    Splits t.ms.data.length fun openNested => t.readBlock digest Z openNested i := by
  simp only [readBlock]
  cases t.chunks[i]? with
  | none => exact .of_const fun _ _ _ h => nomatch h
  | some chunkInfo =>
      dsimp only
      cases canRead t.ms chunkInfo.compressedSize.toNat with
      | false => exact .of_const fun _ _ _ h => nomatch h
      | true =>
          simp only [if_true]
          cases hview : t.ms.view with
          | error e => exact .of_const fun _ _ _ h => nomatch h
          | ok data =>
              obtain ⟨hcursor, -⟩ := GrowableMemoryStream.le_of_view hview
              simp only [Exec.ok_bind]
              cases data.subspan 0 chunkInfo.compressedSize.toNat with
              | error e => exact .of_const fun _ _ _ h => nomatch h
              | ok chunk =>
                  simp only [Exec.ok_bind]
                  split
                  · exact .of_const fun _ _ _ h => nomatch h
                  cases hr : readInt 1 t.ms .big with
                  | error e => exact .of_const fun _ _ _ h => nomatch h
                  | ok r =>
                      obtain ⟨mode, ms⟩ := r
                      simp only [Exec.ok_bind]
                      refine readPayload_splits fun hF payload hlen => ?_
                      obtain ⟨hmode, hms⟩ := readInt_big_ok (by decide)
                        (GrowableMemoryStream.rep_self hfit) hcursor hr
                      obtain ⟨hdata, hcur, -⟩ := hms
                      dsimp only at hlen
                      rw [hdata, hcur, List.length_drop] at hlen
                      -- with nothing left to read the mode byte would be zero
                      have hlt : t.ms.readCursor < t.ms.data.length := by
                        by_contra hge
                        rw [window, List.drop_eq_nil_of_le (by omega)] at hmode
                        rw [hmode] at hF
                        exact absurd hF (by decide)
                      omega

theorem readHeader_next {t t' : Transform} {out : List Bytes} {e : Option ParseError}
    (h : t.readHeader = .ok (.next t' out e)) : e = none := by
  rw [readHeader] at h
  split at h
  · obtain ⟨⟨signature, ms₁⟩, -, h⟩ := Exec.bind_eq_ok.mp h
    dsimp only at h
    split at h
    · cases h
    · obtain ⟨⟨headerSize, ms₂⟩, -, h⟩ := Exec.bind_eq_ok.mp h
      cases h
      rfl
  · cases h

theorem readChunkHeaders_next {t t' : Transform} {out : List Bytes} {e : Option ParseError}
    (h : t.readChunkHeaders = .ok (.next t' out e)) : e = none := by
  rw [readChunkHeaders] at h
  split at h
  · obtain ⟨⟨flagsChunkCount, ms₁⟩, -, h⟩ := Exec.bind_eq_ok.mp h
    dsimp only at h
    split at h
    · cases h
    · obtain ⟨⟨chunks, engine, ms₂⟩, -, h⟩ := Exec.bind_eq_ok.mp h
      cases h
      rfl
  · cases h

variable (digest Z) in
theorem next_splits {t : Transform} (hfit : t.ms.data.length < 2 ^ 63) :
    Splits t.ms.data.length fun openNested => t.next digest Z openNested := by
  simp only [next]
  cases t.step with
  | header => exact .of_const (x := t.readHeader) fun _ _ _ => readHeader_next
  | chunkHeaders => exact .of_const (x := t.readChunkHeaders) fun _ _ _ => readChunkHeaders_next
  | dataBlocks i => exact readBlock_splits i hfit

variable {openNested₁ openNested₂ : Bytes → Exec (List Bytes × Option ParseError)}

theorem next_congr {t : Transform} (hfit : t.ms.data.length < 2 ^ 63)
    (h : ∀ payload : Bytes, payload.length < t.ms.data.length →
      openNested₁ payload = openNested₂ payload) :
    t.next digest Z openNested₁ = t.next digest Z openNested₂ := by
  cases next_splits digest Z hfit with
  | plain hsame _ => exact hsame _ _
  | nested payload t' hlen hnext => rw [hnext, hnext, h payload hlen]

theorem run_congr (t : Transform) (hfit : t.ms.data.length < 2 ^ 63)
    (h : ∀ payload : Bytes, payload.length < t.ms.data.length →
      openNested₁ payload = openNested₂ payload) :
    (machine digest Z openNested₁).run t = (machine digest Z openNested₂).run t := by
  induction t using (machine digest Z openNested₁).run_induction with
  | step t ih =>
      have hnext : t.next digest Z openNested₁ = t.next digest Z openNested₂ := next_congr hfit h
      cases hstep : t.next digest Z openNested₁ with
      | error e =>
          rw [(machine digest Z openNested₁).run_error hstep,
            (machine digest Z openNested₂).run_error (hnext ▸ hstep)]
      | ok m =>
          cases m with
          | wait => rw [run_of_wait hstep, run_of_wait (hnext ▸ hstep)]
          | stop t' out e => rw [run_of_stop hstep, run_of_stop (hnext ▸ hstep)]
          | next t' out e =>
              have hdata : t'.ms.data = t.ms.data := (next_permits hstep).1.1
              rw [← hdata] at hfit h
              have hstep' : t.next digest Z openNested₂ = .ok (.next t' out e) := hnext ▸ hstep
              rw [run_of_next hstep, run_of_next hstep', ih t' out e hstep hfit h]

end Nested

/-- The buffer of a fresh transform is its input. -/
theorem feed_fresh_ms (data : Bytes) : (fresh.feed data).ms = ⟨data, 0, data.length⟩ := by
  change GrowableMemoryStream.empty.writeImpl data = _
  rw [GrowableMemoryStream.writeImpl_append rfl]
  simp [GrowableMemoryStream.empty]

/-- More nestings than bytes make no difference. -/
theorem nestedParse_eq (m : Nat) :
    ∀ {n : Nat} {payload : Bytes}, payload.length < m → payload.length < n →
      payload.length < 2 ^ 63 →
      nestedParse digest Z m payload = nestedParse digest Z n payload := by
  induction m with
  | zero => exact fun h => absurd h (Nat.not_lt_zero _)
  | succ m ih =>
      intro n payload hm hn hfit
      cases n with
      | zero => exact absurd hn (Nat.not_lt_zero _)
      | succ n =>
          have hdata : (fresh.feed payload).ms.data = payload := by rw [feed_fresh_ms]
          rw [nestedParse, nestedParse, run_congr (fresh.feed payload)]
          · rwa [hdata]
          · intro inner hinner
            rw [hdata] at hinner
            exact ih (by omega) (by omega) (by omega)

/-- A nested archive is parsed like any other. -/
theorem openNested_eq {payload : Bytes} (hfit : payload.length < 2 ^ 63) :
    openNested digest Z payload =
      ((machine digest Z (openNested digest Z)).run (fresh.feed payload)).map
        fun r => (r.out, r.error) := by
  have hdata : (fresh.feed payload).ms.data = payload := by rw [feed_fresh_ms]
  rw [openNested, nestedParse, run_congr (fresh.feed payload)]
  · rwa [hdata]
  · intro inner hinner
    rw [hdata] at hinner
    exact nestedParse_eq digest Z _ hinner (Nat.lt_succ_self _) (by omega)

end Loop

end Transform

end Tactmon
