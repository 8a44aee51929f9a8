import Mathlib.Data.List.Infix
import Tactmon.Beast.Chunking
import Tactmon.Tact.Archive

/-!
# Resuming a download on another CDN

The CDN loop of `Session::ProcessRequest` in `net/`.  The loop asks one CDN
after another for the range that starts at `Offset` and is `Length` long, and
hands every piece that arrives to one shared streaming decoder, whose feedback
callback moves the range forward.  An attempt that does not get to the payload
leaves everything as it was.  The sizes are `std::size_t`, so the range moves
modulo `2 ^ 64`.

`cdnLoop` is the list of the calls of the decoder in a run of the loop.
`rejects` says of a state of the decoder that its next step rejects a block.
The feedback reports a piece before the decoder looks at it, and the decoder
drops nothing from its buffer (`Session.put_kept`), so a rejected block is
resumed at only where the call has brought no bytes (`cdnLoop_resumes_iff`).

The blocks are the ones of the archive itself.  A block of a nested archive is
rejected by a transform of its own.
-/

namespace Tactmon

open Binary Cxx Zlib Resumable

/-! ## Rejected blocks -/

/-- A block was rejected for its digest or its encoding mode. -/
def ParseError.isRejection : ParseError → Bool
  | .digest => true
  | .encodingMode => true
  | _ => false

namespace Transform

/-- The offset of the block the transform is at, by the chunk table. -/
def blockStart (t : Transform) : Nat :=
  match t.step with
  | .dataBlocks i =>
      12 + 24 * t.chunks.length +
        ((t.chunks.take i).map fun chunkInfo => (chunkInfo.compressedSize + 1).toNat).sum
  | _ => 0

section Rejection

variable (digest : Bytes → Digest) (Z : Inflate)

/-- The mode byte can be read and is none of the known modes. -/
def unknownMode (t : Transform) : Bool :=
  match readInt 1 t.ms .big with
  | .ok (encodingMode, ms) =>
      ms.view.isOk && decide (UInt8.ofNat encodingMode ≠ modeN ∧
        UInt8.ofNat encodingMode ≠ modeZ ∧ UInt8.ofNat encodingMode ≠ modeF)
  | .error _ => false

/-- The next step is that of a block whose bytes have arrived, and the digest
does not match or the mode is not known. -/
def rejects (t : Transform) : Bool :=
  match t.step with
  | .dataBlocks i =>
      match t.chunks[i]? with
      | none => false
      | some chunkInfo =>
          canRead t.ms chunkInfo.compressedSize.toNat &&
            match t.ms.view >>= (·.subspan 0 chunkInfo.compressedSize.toNat) with
            | .error _ => false
            | .ok chunk =>
                decide ((digest chunk.bytes).bytes ≠ chunkInfo.checksum) || t.unknownMode
  | _ => false

variable {digest Z} {openNested : Bytes → Exec (List Bytes × Option ParseError)}

/-- The step stops with a rejection. -/
def StopsRejected (m : Exec Action) : Prop :=
  ∃ t out e, m = .ok (.stop t out e) ∧ e.isRejection = true

theorem not_stopsRejected_next {t : Transform} {out : List Bytes} {e : Option ParseError} :
    ¬ StopsRejected (.ok (.next t out e)) := fun ⟨_, _, _, h, _⟩ => nomatch h

theorem not_stopsRejected_error {f : Fault} : ¬ StopsRejected (.error f) :=
  fun ⟨_, _, _, h, _⟩ => nomatch h

theorem not_stopsRejected_wait : ¬ StopsRejected (.ok .wait) := fun ⟨_, _, _, h, _⟩ => nomatch h

theorem stopsRejected_stop {t : Transform} {out : List Bytes} {e : ParseError} :
    StopsRejected (.ok (.stop t out e)) ↔ e.isRejection = true := by
  constructor
  · intro ⟨_, _, _, h, he⟩
    cases h
    exact he
  · exact fun he => ⟨t, out, e, rfl, he⟩

theorem not_stopsRejected_stop {t : Transform} {out : List Bytes} {e : ParseError}
    (he : e.isRejection = false) : ¬ StopsRejected (.ok (.stop t out e)) := by
  rw [stopsRejected_stop, he]
  exact Bool.false_ne_true

theorem readPayload_rejects {t : Transform} {i size : Nat} {mode : UInt8} :
    StopsRejected (t.readPayload Z openNested i size mode) ↔
      (t.ms.view.isOk && decide (mode ≠ modeN ∧ mode ≠ modeZ ∧ mode ≠ modeF)) = true := by
  rw [readPayload]
  cases hview : t.ms.view with
  | error f => exact iff_of_false not_stopsRejected_error Bool.false_ne_true
  | ok data =>
      rw [Exec.ok_bind, Bool.and_eq_true, decide_eq_true_iff]
      dsimp only
      by_cases hN : mode = modeN
      · rw [if_pos hN]
        refine iff_of_false ?_ (fun h => h.2.1 hN)
        cases data.subspan 0 size with
        | error f => exact not_stopsRejected_error
        | ok payload => exact not_stopsRejected_next
      · rw [if_neg hN]
        by_cases hZ : mode = modeZ
        · rw [if_pos hZ]
          refine iff_of_false ?_ (fun h => h.2.2.1 hZ)
          cases Z.init with
          | none => exact not_stopsRejected_stop rfl
          | some strm =>
              dsimp only
              cases data.load size with
              | error f => exact not_stopsRejected_error
              | ok payload =>
                  rw [Exec.ok_bind]
                  cases Z.drain decompressedBuffer strm payload with
                  | error f => exact not_stopsRejected_error
                  | ok r =>
                      obtain ⟨outputs, completed⟩ := r
                      cases completed with
                      | false => exact not_stopsRejected_stop rfl
                      | true => exact not_stopsRejected_next
        · rw [if_neg hZ]
          by_cases hF : mode = modeF
          · rw [if_pos hF]
            refine iff_of_false ?_ (fun h => h.2.2.2 hF)
            cases data.load size with
            | error f => exact not_stopsRejected_error
            | ok payload =>
                rw [Exec.ok_bind]
                cases openNested payload with
                | error f => exact not_stopsRejected_error
                | ok r => exact not_stopsRejected_next
          · rw [if_neg hF]
            exact iff_of_true (stopsRejected_stop.mpr rfl) ⟨rfl, hN, hZ, hF⟩

theorem readBlock_rejects {t : Transform} {i : Nat} (hs : t.step = .dataBlocks i) :
    StopsRejected (t.readBlock digest Z openNested i) ↔ t.rejects digest = true := by
  rw [rejects, hs, readBlock]
  dsimp only
  cases t.chunks[i]? with
  | none => exact iff_of_false not_stopsRejected_wait Bool.false_ne_true
  | some chunkInfo =>
      dsimp only
      cases canRead t.ms chunkInfo.compressedSize.toNat with
      | false => exact iff_of_false not_stopsRejected_wait Bool.false_ne_true
      | true =>
          rw [if_pos rfl, Bool.true_and]
          cases t.ms.view with
          | error f => exact iff_of_false not_stopsRejected_error Bool.false_ne_true
          | ok data =>
              rw [Exec.ok_bind, Exec.ok_bind]
              cases data.subspan 0 chunkInfo.compressedSize.toNat with
              | error f => exact iff_of_false not_stopsRejected_error Bool.false_ne_true
              | ok chunk =>
                  rw [Exec.ok_bind]
                  dsimp only
                  by_cases hsum : (digest chunk.bytes).bytes ≠ chunkInfo.checksum
                  · rw [if_pos hsum, decide_eq_true hsum, Bool.true_or]
                    exact iff_of_true (stopsRejected_stop.mpr rfl) rfl
                  · rw [if_neg hsum, decide_eq_false hsum, Bool.false_or, unknownMode]
                    cases readInt 1 t.ms .big with
                    | error f => exact iff_of_false not_stopsRejected_error Bool.false_ne_true
                    | ok r => exact readPayload_rejects

theorem readHeader_not_rejected {t : Transform} : ¬ StopsRejected t.readHeader := by
  rw [readHeader]
  cases canRead t.ms 8 with
  | false => exact not_stopsRejected_wait
  | true =>
      rw [if_pos rfl]
      cases readInt 4 t.ms .little with
      | error f => exact not_stopsRejected_error
      | ok r =>
          obtain ⟨signature, ms⟩ := r
          rw [Exec.ok_bind]
          dsimp only
          split
          · exact not_stopsRejected_stop rfl
          · cases readInt 4 ms .big with
            | error f => exact not_stopsRejected_error
            | ok r => exact not_stopsRejected_next

theorem readChunkHeaders_not_rejected {t : Transform} : ¬ StopsRejected t.readChunkHeaders := by
  rw [readChunkHeaders]
  cases canRead t.ms t.headerSize.toNat with
  | false => exact not_stopsRejected_wait
  | true =>
      rw [if_pos rfl]
      cases readInt 4 t.ms .big with
      | error f => exact not_stopsRejected_error
      | ok r =>
          obtain ⟨flagsChunkCount, ms⟩ := r
          rw [Exec.ok_bind]
          dsimp only
          split
          · exact not_stopsRejected_stop rfl
          · cases readChunkInfos (flagsChunkCount &&& 0x00FFFFFF) ms
              (t.engine.updateInt 4 (byteswap 4 flagsChunkCount)) with
            | error f => exact not_stopsRejected_error
            | ok r => exact not_stopsRejected_next

/-- `rejects` says what the next step does. -/
theorem next_rejects {t : Transform} :
    StopsRejected (t.next digest Z openNested) ↔ t.rejects digest = true := by
  rw [next]
  cases hs : t.step with
  | header =>
      rw [rejects, hs]
      exact iff_of_false readHeader_not_rejected Bool.false_ne_true
  | chunkHeaders =>
      rw [rejects, hs]
      exact iff_of_false readChunkHeaders_not_rejected Bool.false_ne_true
  | dataBlocks i => exact readBlock_rejects hs

/-- A step that rejects a block ends the call with that error, and leaves the
chunk table and the step as they were. -/
theorem run_of_rejects (t : Transform) {s : Transform}
    (hs : s ∈ (machine digest Z openNested).states t) (h : s.rejects digest = true) :
    ∃ r e, (machine digest Z openNested).run t = .ok r ∧ r.error = some e ∧
      e.isRejection = true ∧ s.Stalls r.state := by
  obtain ⟨s', out, e, hnext, he⟩ := next_rejects.mpr h
  obtain ⟨out', hrun⟩ := (machine digest Z openNested).run_of_stop_mem t hs hnext
  exact ⟨_, e, hrun, rfl, he, next_permits hnext⟩

/-- A call that ends with a rejection has come to a state that rejects. -/
theorem rejects_of_run (t : Transform) {r : Outcome} {e : ParseError}
    (hr : (machine digest Z openNested).run t = .ok r) (herror : r.error = some e)
    (he : e.isRejection = true) :
    ∃ s ∈ (machine digest Z openNested).states t, s.rejects digest = true ∧ s.Stalls r.state := by
  rcases (machine digest Z openNested).error_of_run t hr herror with
    ⟨s, hs, out, hstop⟩ | ⟨s, hs, s', out, hnext⟩
  · refine ⟨s, hs, next_rejects.mp ⟨_, out, e, hstop, he⟩, ?_⟩
    exact next_permits hstop
  · obtain ⟨inner, hinner⟩ := (next_permits hnext).2.2 e rfl
    rw [hinner] at he
    cases he

end Rejection

end Transform

/-! ## The CDN loop -/

/-- What the CDN loop keeps from one attempt to the next: the range that is
still to be fetched, and the shared decoder. -/
structure Session where
  offset : UInt64
  length : UInt64
  transform : Transform
deriving DecidableEq, Repr

/-- One turn of the loop over the CDNs. -/
inductive Attempt where
  /-- The connection, the request or the response header failed. -/
  | unavailable
  /-- The payload arrived in these pieces, and was `completed` or cut off. -/
  | answered (pieces : List Bytes) (completed : Bool)

/-- A call of the decoder: the session before it, the piece, and the session
after it with the error that was set. -/
structure Call where
  before : Session
  piece : Bytes
  after : Exec (Session × Option ParseError)

namespace Session

/-- The range header of the next request, left out when nothing is missing. -/
def range (s : Session) : Option (UInt64 × UInt64) :=
  if s.length ≠ 0 then some (s.offset, s.offset + s.length - 1) else none

section Loop

variable (digest : Bytes → Digest) (Z : Inflate)

/-- `blte_body::reader::put`: `Parse`, whose feedback moves the range. -/
def put (s : Session) (piece : Bytes) : Exec (Session × Option ParseError) := do
  let (bytesRead, r) ← s.transform.parse digest Z piece
  .ok (⟨s.offset + .ofNat bytesRead, s.length - .ofNat bytesRead, r.state⟩, r.error)

/-- `http::read` of a payload: the calls it makes, and the session it leaves
with whether a call failed.  A fault leaves none. -/
def read : Session → List Bytes → List Call × Option (Session × Bool)
  | s, [] => ([], some (s, false))
  | s, piece :: pieces =>
      match s.put digest Z piece with
      | .error f => ([⟨s, piece, .error f⟩], none)
      | .ok (s', some e) => ([⟨s, piece, .ok (s', some e)⟩], some (s', true))
      | .ok (s', none) =>
          let (calls, last) := read s' pieces
          (⟨s, piece, .ok (s', none)⟩ :: calls, last)

/-- The calls of the loop over the CDNs.  It ends with a payload that was read
without a failure and left nothing missing. -/
def cdnLoop : Session → List Attempt → List Call
  | _, [] => []
  | s, .unavailable :: attempts => cdnLoop s attempts
  | s, .answered pieces completed :: attempts =>
      match s.read digest Z pieces with
      | (calls, none) => calls
      | (calls, some (s', failed)) =>
          if completed && !failed && s'.length = 0 then calls else calls ++ cdnLoop s' attempts

end Loop

/-! ## What the loop keeps -/

/-- The range starts behind everything that was ever delivered, and the buffer
still holds all of it. -/
def Kept (start : UInt64) (s : Session) : Prop :=
  s.transform.Appends ∧ s.offset = start + .ofNat s.transform.ms.data.length

section Kept

variable {digest : Bytes → Digest} {Z : Inflate} {start : UInt64}

/-- A call runs the decoder and moves the range. -/
theorem put_ok {s s' : Session} {piece : Bytes} {e : Option ParseError}
    (hput : s.put digest Z piece = .ok (s', e)) :
    ∃ r, (Transform.machine digest Z (Transform.openNested digest Z)).run
        (s.transform.feed piece) = .ok r ∧ r.error = e ∧
      s' = ⟨s.offset + .ofNat piece.length, s.length - .ofNat piece.length, r.state⟩ := by
  rw [put, Transform.parse] at hput
  obtain ⟨⟨n, r⟩, hparse, hput⟩ := Exec.bind_eq_ok.mp hput
  obtain ⟨r', hrun, hparse⟩ := Exec.bind_eq_ok.mp hparse
  cases hparse
  cases hput
  exact ⟨r, hrun, rfl, rfl⟩

/-- A call moves the range behind its piece and keeps the piece, whether it
sets an error or not. -/
theorem put_kept {s s' : Session} {piece : Bytes} {e : Option ParseError} (h : s.Kept start)
    (hput : s.put digest Z piece = .ok (s', e)) :
    s'.Kept start ∧ s'.transform.ms.data = s.transform.ms.data ++ piece ∧
      s'.offset = s.offset + .ofNat piece.length := by
  obtain ⟨happends, hoffset⟩ := h
  obtain ⟨r, hrun, -, rfl⟩ := put_ok hput
  have hbuffer := (Transform.machine digest Z (Transform.openNested digest Z)).run_preserves
    (R := fun t t' => t.ms.SameBuffer t'.ms) (fun t => .refl _) (fun h h' => h.trans h')
    (fun hstep => (Transform.next_permits hstep).1)
    (fun hstep => (Transform.next_permits hstep).buffer) _ hrun
  have hdata : r.state.ms.data = s.transform.ms.data ++ piece := by
    rw [hbuffer.1, Transform.feed_eq happends]
  refine ⟨⟨Transform.appends_run digest Z (Transform.appends_feed piece happends) hrun, ?_⟩,
    hdata, rfl⟩
  change s.offset + .ofNat piece.length = start + .ofNat r.state.ms.data.length
  rw [hoffset, hdata, List.length_append, UInt64.ofNat_add, UInt64.add_assoc]

theorem read_kept (pieces : List Bytes) :
    ∀ {s : Session}, s.Kept start →
      (∀ call ∈ (s.read digest Z pieces).1,
        call.before.Kept start ∧ call.after = call.before.put digest Z call.piece) ∧
      ∀ s' failed, (s.read digest Z pieces).2 = some (s', failed) → s'.Kept start := by
  induction pieces with
  | nil =>
      intro s h
      refine ⟨fun _ hcall => absurd hcall List.not_mem_nil, fun s' failed hlast => ?_⟩
      cases hlast
      exact h
  | cons piece pieces ih =>
      intro s h
      rw [read]
      cases hput : s.put digest Z piece with
      | error f =>
          refine ⟨fun call hcall => ?_, fun s' failed hlast => nomatch hlast⟩
          rw [List.mem_singleton.mp hcall]
          exact ⟨h, hput.symm⟩
      | ok r =>
          obtain ⟨s₁, e⟩ := r
          have hs₁ := (put_kept h hput).1
          cases e with
          | some e =>
              refine ⟨fun call hcall => ?_, fun s' failed hlast => ?_⟩
              · rw [List.mem_singleton.mp hcall]
                exact ⟨h, hput.symm⟩
              · cases hlast
                exact hs₁
          | none =>
              obtain ⟨hcalls, hlast⟩ := ih hs₁
              refine ⟨fun call hcall => ?_, hlast⟩
              rcases List.mem_cons.mp hcall with hfirst | hrest
              · rw [hfirst]
                exact ⟨h, hput.symm⟩
              · exact hcalls call hrest

/-- Before every call of a run the range starts behind everything delivered so
far. -/
theorem cdnLoop_kept (attempts : List Attempt) :
    ∀ {s : Session}, s.Kept start → ∀ call ∈ s.cdnLoop digest Z attempts,
      call.before.Kept start ∧ call.after = call.before.put digest Z call.piece := by
  induction attempts with
  | nil => exact fun _ _ hcall => absurd hcall List.not_mem_nil
  | cons attempt attempts ih =>
      intro s h call hcall
      cases attempt with
      | unavailable => exact ih h call hcall
      | answered pieces completed =>
          obtain ⟨hcalls, hlast⟩ : _ ∧ _ := read_kept pieces h
          rw [cdnLoop] at hcall
          cases hread : s.read digest Z pieces with
          | mk calls last =>
              rw [hread] at hcalls hlast hcall
              cases last with
              | none => exact hcalls call hcall
              | some r =>
                  obtain ⟨s', failed⟩ := r
                  dsimp only at hcall
                  split at hcall
                  · exact hcalls call hcall
                  · rcases List.mem_append.mp hcall with hin | hin
                    · exact hcalls call hin
                    · exact ih (hlast s' failed rfl) call hin

end Kept

/-! ## Resuming at a rejected block -/

/-- After a call that rejected a block, the next request does not start past
that block, and the decoder holds no byte the call delivered. -/
def Resumes (start : UInt64) (call : Call) : Prop :=
  ∀ s e, call.after = .ok (s, some e) → e.isRejection = true →
    s.offset.toNat ≤ start.toNat + s.transform.blockStart ∧
    s.transform.ms.data <+: call.before.transform.ms.data

/-- In a run of the loop every rejected block is resumed at exactly when a
block is only ever rejected in a call that delivers no byte, with the range not
past the block. -/
theorem cdnLoop_resumes_iff (digest : Bytes → Digest) (Z : Inflate) (offset length : UInt64)
    (attempts : List Attempt) :
    (∀ call ∈ cdnLoop digest Z ⟨offset, length, .fresh⟩ attempts, Resumes offset call) ↔
    ∀ call ∈ cdnLoop digest Z ⟨offset, length, .fresh⟩ attempts,
      ∀ t ∈ (Transform.machine digest Z (Transform.openNested digest Z)).states
          (call.before.transform.feed call.piece),
        t.rejects digest = true →
          call.piece = [] ∧ call.before.offset.toNat ≤ offset.toNat + t.blockStart := by
  have hfresh : Kept offset ⟨offset, length, .fresh⟩ := by
    refine ⟨rfl, ?_⟩
    change offset = offset + UInt64.ofNat 0
    simp
  refine forall₂_congr fun call hcall => ?_
  obtain ⟨hkept, hafter⟩ := cdnLoop_kept attempts hfresh call hcall
  constructor
  · intro h t ht hrejects
    obtain ⟨r, e, hrun, herror, he, hstalls⟩ := Transform.run_of_rejects _ ht hrejects
    have hput : call.before.put digest Z call.piece =
        .ok (⟨call.before.offset + .ofNat call.piece.length,
          call.before.length - .ofNat call.piece.length, r.state⟩, some e) := by
      rw [put, Transform.parse, hrun, Exec.ok_bind, Exec.ok_bind, ← herror]
    obtain ⟨hoffset, hprefix⟩ := h _ e (hafter.trans hput) he
    obtain ⟨-, hdata, -⟩ := put_kept hkept hput
    have hpiece : call.piece = [] := by
      have hlen := hprefix.length_le
      rw [hdata, List.length_append] at hlen
      exact List.length_eq_zero_iff.mp (by omega)
    refine ⟨hpiece, ?_⟩
    have hstart : r.state.blockStart = t.blockStart := by
      rw [Transform.blockStart, Transform.blockStart, hstalls.step, hstalls.chunks]
    rw [hpiece] at hoffset
    dsimp only at hoffset
    rw [hstart] at hoffset
    simpa using hoffset
  · intro h s e hs he
    rw [hafter] at hs
    obtain ⟨-, hdata, hoffset⟩ := put_kept hkept hs
    obtain ⟨r, hrun, herror, hs'⟩ := put_ok hs
    obtain ⟨t, ht, hrejects, hstalls⟩ := Transform.rejects_of_run _ hrun herror he
    obtain ⟨hpiece, hle⟩ := h t ht hrejects
    have hstart : s.transform.blockStart = t.blockStart := by
      rw [hs', Transform.blockStart, Transform.blockStart, hstalls.step, hstalls.chunks]
    rw [hpiece] at hdata hoffset
    rw [hdata, List.append_nil, hoffset, hstart]
    refine ⟨?_, List.prefix_refl _⟩
    simpa using hle

/-- The first piece of the first payload is the piece of a call. -/
theorem mem_cdnLoop_first (digest : Bytes → Digest) (Z : Inflate) (s : Session) (piece : Bytes)
    (pieces : List Bytes) (completed : Bool) (attempts : List Attempt) :
    ⟨s, piece, s.put digest Z piece⟩ ∈
      s.cdnLoop digest Z (.answered (piece :: pieces) completed :: attempts) := by
  have hfirst : ⟨s, piece, s.put digest Z piece⟩ ∈ (s.read digest Z (piece :: pieces)).1 := by
    rw [read]
    cases hput : s.put digest Z piece with
    | error f => exact List.mem_singleton.mpr rfl
    | ok r =>
        obtain ⟨s', e⟩ := r
        cases e with
        | some e => exact List.mem_singleton.mpr rfl
        | none => exact List.mem_cons_self
  rw [cdnLoop]
  cases hread : s.read digest Z (piece :: pieces) with
  | mk calls last =>
      rw [hread] at hfirst
      cases last with
      | none => exact hfirst
      | some r =>
          dsimp only
          split
          · exact hfirst
          · exact List.mem_append_left _ hfirst

/-- A range of 100 bytes from offset 0, and a CDN that delivers the 68 bytes of
the sample archive in one piece: the block at offset 60 is rejected, and the
next request is for the bytes from 68 on. -/
theorem cdnLoop_skips_sample :
    ∃ call ∈ cdnLoop Digest.leading Inflate.copying ⟨0, 100, .fresh⟩
        [.answered [Archive.sample.bytes Digest.leading] false],
      ∃ s, call.after = .ok (s, some .digest) ∧ s.range = some (68, 99) ∧
        s.transform.blockStart = 60 ∧ ¬ Resumes 0 call := by
  have hput : ((put Digest.leading Inflate.copying ⟨0, 100, .fresh⟩
      (Archive.sample.bytes Digest.leading)).map fun r =>
        (r.2, r.1.offset, r.1.range, r.1.transform.blockStart)) =
      .ok (some .digest, 68, some (68, 99), 60) := by decide +kernel
  refine ⟨_, mem_cdnLoop_first Digest.leading Inflate.copying ⟨0, 100, .fresh⟩
    (Archive.sample.bytes Digest.leading) [] false [], ?_⟩
  cases hcall : put Digest.leading Inflate.copying ⟨0, 100, .fresh⟩
      (Archive.sample.bytes Digest.leading) with
  | error f => rw [hcall] at hput; cases hput
  | ok r =>
      obtain ⟨s, e⟩ := r
      rw [hcall] at hput
      simp only [Except.map, Except.ok.injEq, Prod.mk.injEq] at hput
      obtain ⟨rfl, hoffset, hrange, hstart⟩ := hput
      refine ⟨s, rfl, hrange, hstart, fun h => ?_⟩
      have hle := (h s .digest rfl rfl).1
      rw [hoffset, hstart] at hle
      exact absurd hle (by decide)

end Session

end Tactmon
