import Tactmon.Tact.Hostile

/-!
# Declared sizes

The chunk table declares a decompressed size for every chunk, and `LoadChunk`
is handed it but does not look at it.  Nor does it tell the two ends of the
loop around `inflate` apart.

`EachLoaded` follows the loop over the chunks of a parse, with the output in
front of a chunk and behind it.  `Kept` is what one would expect of each chunk
there, and `Truthful` is what a chunk of the input has to be like for it.
-/

namespace Tactmon

open Binary Cxx Zlib CursorReadable LawfulReadable

namespace BLTE

section Loop

variable {σ : Type} [IReadableStream σ] (digest : Bytes → Digest) (Z : Inflate)

/-- `P` holds of every chunk the loop loads: of its header, its bytes, and the
output in front of it and behind it. -/
def EachLoaded (P : ChunkHeader → Bytes → BLTE → BLTE → Prop) (blte : BLTE) :
    List ChunkHeader → σ → Prop
  | [], _ => True
  | chunk :: chunks, fstream =>
      let fstream := (seekRead fstream chunk.offset).2
      ∃ body blte', dataBytes fstream chunk.compressedSize = .ok body ∧
        blte.loadChunk digest Z fstream chunk.compressedSize chunk.decompressedSize
          chunk.checksum = .ok (some blte') ∧
        P chunk body blte blte' ∧ EachLoaded P blte' chunks fstream

/-- The chunk added as many bytes as declared, and the loop around `inflate`
left at the end of its stream. -/
def Kept (chunk : ChunkHeader) (body : Bytes) (blte blte' : BLTE) : Prop :=
  blte'.dataBuffer.data.length = blte.dataBuffer.data.length + chunk.decompressedSize ∧
    ∀ payload, body = modeZ :: payload →
      ∀ strm, Z.init = some strm → (Z.run decompressedBuffer strm payload).2 = .ended

/-- Every chunk that `_Parse` loads is kept. -/
def AllKept (fstream : σ) : Prop :=
  ∃ chunks engine fstream', readHeader fstream = .ok (some (chunks, engine, fstream')) ∧
    EachLoaded digest Z (Kept Z) empty chunks fstream'

end Loop

end BLTE

/-- A stored chunk is as long as declared, and the stream of a zlib chunk ends
after as many bytes as declared. -/
def Truthful (Z : Inflate) (declared : Nat) : Bytes → Prop
  | [] => True
  | encodingMode :: payload =>
      (encodingMode = modeN → payload.length = declared) ∧
      (encodingMode = modeZ → ∃ strm content, Z.init = some strm ∧
        Z.EndsAfter decompressedBuffer strm payload content ∧ content.length = declared)

/-- What a chunk decodes to is what its entry declares. -/
theorem truthful_iff {Z : Inflate} {body x : Bytes} (declared : Nat)
    (hopen : openChunk Z body = .ok (some x)) :
    Truthful Z declared body ↔
      x.length = declared ∧ ∀ payload, body = modeZ :: payload →
        ∀ strm, Z.init = some strm → (Z.run decompressedBuffer strm payload).2 = .ended := by
  cases body with
  | nil => cases hopen
  | cons encodingMode payload =>
      by_cases hN : encodingMode = modeN
      · subst hN
        have hNZ : modeN ≠ modeZ := by decide
        rw [openChunk, if_pos rfl] at hopen
        cases hopen
        simp [Truthful, hNZ]
      by_cases hZ : encodingMode = modeZ
      · subst hZ
        cases hinit : Z.init with
        | none =>
            rw [openChunk, if_neg hN, if_pos rfl, hinit] at hopen
            cases hopen
        | some strm =>
            rw [openChunk_deflated hinit] at hopen
            simp only [Truthful, hN, false_implies, true_and, forall_const, hinit,
              Option.some.injEq, exists_eq_left', exists_and_left, Zlib.Inflate.endsAfter_iff_run,
              List.cons.injEq, forall_eq']
            cases hrun : (Z.run decompressedBuffer strm payload).2 <;>
              simp_all
      · rw [openChunk, if_neg hN, if_neg hZ] at hopen
        cases hopen

/-- A chunk that was loaded was checked and opened. -/
theorem chunkAt_ok {digest : Bytes → Digest} {Z : Inflate} {position : Nat → Nat → Nat}
    {d x : Bytes} {chunk : ChunkHeader} (h : chunkAt digest Z position d chunk = .ok (some x)) :
    Checked digest position d chunk ∧ openChunk Z (bodyAt position d chunk) = .ok (some x) := by
  rw [chunkAt] at h
  split at h
  · next hchecked => exact ⟨hchecked, h⟩
  · cases h

/-- A table that was loaded was loaded chunk by chunk. -/
theorem loadTable_cons_ok {digest : Bytes → Digest} {Z : Inflate} {position : Nat → Nat → Nat}
    {d y : Bytes} {chunk : ChunkHeader} {chunks : List ChunkHeader}
    (h : loadTable digest Z position d (chunk :: chunks) = .ok (some y)) :
    ∃ x y', chunkAt digest Z position d chunk = .ok (some x) ∧
      loadTable digest Z position d chunks = .ok (some y') ∧ y = x ++ y' := by
  rw [loadTable] at h
  obtain ⟨r, hchunk, h⟩ := Exec.bind_eq_ok.mp h
  cases r with
  | none => cases h
  | some x =>
      obtain ⟨r, hrest, h⟩ := Exec.bind_eq_ok.mp h
      cases r with
      | none => cases h
      | some y' =>
          cases h
          exact ⟨x, y', hchunk, hrest, rfl⟩

/-- Truthful chunks decode to as many bytes as they declare together. -/
theorem loadTable_length {digest : Bytes → Digest} {Z : Inflate} {position : Nat → Nat → Nat}
    {d : Bytes} (chunks : List ChunkHeader) : ∀ {y : Bytes},
      loadTable digest Z position d chunks = .ok (some y) →
      (∀ chunk ∈ chunks, Truthful Z chunk.decompressedSize (bodyAt position d chunk)) →
      y.length = (chunks.map ChunkHeader.decompressedSize).sum := by
  induction chunks with
  | nil =>
      intro y h _
      cases h
      rfl
  | cons chunk chunks ih =>
      intro y h htruthful
      obtain ⟨hfirst, hrest⟩ := List.forall_mem_cons.mp htruthful
      obtain ⟨x, y', hchunk, htable, rfl⟩ := loadTable_cons_ok h
      rw [List.length_append, List.map_cons, List.sum_cons, ih htable hrest,
        ((truthful_iff _ (chunkAt_ok hchunk).2).mp hfirst).1]

namespace BLTE

section Streams

variable {σ : Type} [IReadableStream σ] [LawfulReadable σ] [SeekPosition σ]
  (digest : Bytes → Digest) (Z : Inflate)

/-- In a run that loads every chunk, a chunk is kept when it is truthful. -/
theorem eachLoaded_kept_iff {d : Bytes} (chunks : List ChunkHeader) :
    ∀ {s : σ} {c : Nat} {y : Bytes} (out : Bytes), Rep s d c →
      (∀ chunk ∈ chunks, chunk.offset + chunk.compressedSize < sizeMax) →
      loadTable digest Z (SeekPosition.position σ) d chunks = .ok (some y) →
      (EachLoaded digest Z (Kept Z) (holding out) chunks s ↔ ∀ chunk ∈ chunks,
        Truthful Z chunk.decompressedSize (bodyAt (SeekPosition.position σ) d chunk)) := by
  induction chunks with
  | nil => simp [EachLoaded]
  | cons chunk chunks ih =>
      intro s c y out hs hlt h
      obtain ⟨hfirst, hrest⟩ := List.forall_mem_cons.mp hlt
      obtain ⟨x, y', hchunk, htable, rfl⟩ := loadTable_cons_ok h
      obtain ⟨hchecked, hopen⟩ := chunkAt_ok hchunk
      have hs' := SeekPosition.seekRead_position chunk.offset hs
      have hbody := dataBytes_eq hs' hchecked.1
      have hload := loadChunk_chunkAt digest Z out hs' hfirst
      rw [hchunk, Except.map, Option.map_some] at hload
      have hkept : Kept Z chunk (bodyAt (SeekPosition.position σ) d chunk) (holding out)
          (holding (out ++ x)) ↔
          Truthful Z chunk.decompressedSize (bodyAt (SeekPosition.position σ) d chunk) := by
        rw [truthful_iff _ hopen, Kept]
        simp [holding]
      rw [List.forall_mem_cons, ← ih (out ++ x) hs' hrest htable, ← hkept]
      constructor
      · rintro ⟨body, blte', hb, hl, hk, hr⟩
        rw [hbody] at hb
        rw [hload] at hl
        cases hb
        cases hl
        exact ⟨hk, hr⟩
      · rintro ⟨hk, hr⟩
        exact ⟨_, _, hbody, hload, hk, hr⟩

/-- The chunks of a parse that succeeded. -/
theorem _parse_allKept_iff {d : Bytes} {s : σ} (hs : Rep s d 0) {ekey ckey : Option Bytes}
    {blte : BLTE} (h : _parse digest Z s ekey ckey = .ok (some blte)) :
    (AllKept digest Z s ↔ ∀ chunk ∈ chunkTable d,
      Truthful Z chunk.decompressedSize (bodyAt (SeekPosition.position σ) d chunk)) ∧
    (AllKept digest Z s → blte.dataBuffer.data.length =
      ((chunkTable d).map ChunkHeader.decompressedSize).sum) := by
  rw [_parse_bytes digest Z hs] at h
  split at h
  · cases h
  next htorn =>
  split at h
  · cases h
  next hmagic =>
  split at h
  · cases h
  obtain ⟨s', c, hr, hs'⟩ := by
    have hheader := readHeader_table hs htorn
    rwa [if_pos (not_not.mp hmagic)] at hheader
  cases htable : loadTable digest Z (SeekPosition.position σ) d (chunkTable d) with
  | error e =>
      rw [htable] at h
      cases h
  | ok r =>
      cases r with
      | none =>
          rw [htable] at h
          cases h
      | some y =>
          have heach := eachLoaded_kept_iff digest Z (chunkTable d) [] hs' chunkTable_lt_sizeMax
            htable
          have hall : AllKept digest Z s ↔ ∀ chunk ∈ chunkTable d,
              Truthful Z chunk.decompressedSize (bodyAt (SeekPosition.position σ) d chunk) := by
            rw [← heach, AllKept, hr]
            constructor
            · rintro ⟨chunks, engine, s'', heq, hkept⟩
              cases heq
              exact hkept
            · exact fun hkept => ⟨_, _, _, rfl, hkept⟩
          refine ⟨hall, fun hkept => ?_⟩
          rw [← loadTable_length _ htable (hall.mp hkept)]
          rw [htable, Except.map, Option.bind_some] at h
          split at h <;> cases h
          rfl

end Streams

/-- Over either of the two streams, with or without keys. -/
theorem parse_declared_iff (digest : Bytes → Digest) (Z : Inflate) (b : Buffer)
    (ekey ckey : Option Bytes) (blte : BLTE) :
    (_parse digest Z (FileStream.ofBuffer b) ekey ckey = .ok (some blte) →
      (AllKept digest Z (FileStream.ofBuffer b) ↔ ∀ chunk ∈ chunkTable b.bytes,
        Truthful Z chunk.decompressedSize (bodyAt FileStream.position b.bytes chunk)) ∧
      (AllKept digest Z (FileStream.ofBuffer b) → blte.dataBuffer.data.length =
        ((chunkTable b.bytes).map ChunkHeader.decompressedSize).sum)) ∧
    (_parse digest Z (GrowableMemoryStream.ofBuffer b) ekey ckey = .ok (some blte) →
      (AllKept digest Z (GrowableMemoryStream.ofBuffer b) ↔ ∀ chunk ∈ chunkTable b.bytes,
        Truthful Z chunk.decompressedSize (bodyAt GrowableMemoryStream.position b.bytes chunk)) ∧
      (AllKept digest Z (GrowableMemoryStream.ofBuffer b) → blte.dataBuffer.data.length =
        ((chunkTable b.bytes).map ChunkHeader.decompressedSize).sum)) :=
  ⟨_parse_allKept_iff digest Z (FileStream.ofBuffer_rep b),
    _parse_allKept_iff digest Z (GrowableMemoryStream.ofBuffer_rep b)⟩

/-- A container of one chunk with a wanted body and a declared size. -/
def oneChunk (body : Bytes) (declared : UInt8) : Bytes :=
  [0x42, 0x4C, 0x54, 0x45, 0, 0, 0, 0x24, 0x0F, 0, 0, 1, 0, 0, 0, body.length.toUInt8,
    0, 0, 0, declared] ++ (Digest.leading body).bytes ++ body

/-- A stored byte, declared as one byte. -/
def storedByte : Buffer := ⟨oneChunk [modeN, 7] 1, by decide⟩

/-- A stored byte, declared as five bytes. -/
def shortStored : Buffer := ⟨oneChunk [modeN, 7] 5, by decide⟩

/-- A zlib chunk whose stream is missing, declared as five bytes. -/
def shortDeflated : Buffer := ⟨oneChunk [modeZ] 5, by decide⟩

theorem parse_declared_storedByte :
    (AllKept Digest.leading Inflate.copying (FileStream.ofBuffer storedByte) ↔
      ∀ chunk ∈ chunkTable storedByte.bytes, Truthful Inflate.copying chunk.decompressedSize
        (bodyAt FileStream.position storedByte.bytes chunk)) ∧
    (AllKept Digest.leading Inflate.copying (GrowableMemoryStream.ofBuffer storedByte) ↔
      ∀ chunk ∈ chunkTable storedByte.bytes, Truthful Inflate.copying chunk.decompressedSize
        (bodyAt GrowableMemoryStream.position storedByte.bytes chunk)) :=
  ⟨((parse_declared_iff Digest.leading Inflate.copying storedByte none none (holding [7])).1
      (by decide)).1,
    ((parse_declared_iff Digest.leading Inflate.copying storedByte none none (holding [7])).2
      (by decide)).1⟩

theorem chunkTable_shortStored : chunkTable shortStored.bytes =
    [⟨2, 5, (Digest.leading [modeN, 7]).bytes, 36⟩] := by decide

theorem chunkTable_shortDeflated : chunkTable shortDeflated.bytes =
    [⟨1, 5, (Digest.leading [modeZ]).bytes, 36⟩] := by decide

/-- The loop around `inflate` is not entered on an empty payload. -/
theorem parse_shortDeflated :
    parse Digest.leading Inflate.copying (FileStream.ofBuffer shortDeflated) =
      .ok (some (holding [])) := by
  have hopen : openChunk Inflate.copying [modeZ] = .ok (some []) := by
    rw [openChunk, if_neg (by decide), if_pos rfl]
    simp [Inflate.copying]
  have hload : loadTable Digest.leading Inflate.copying FileStream.position shortDeflated.bytes
      (chunkTable shortDeflated.bytes) = .ok (some []) := by
    have hbody : bodyAt FileStream.position shortDeflated.bytes
        ⟨1, 5, (Digest.leading [modeZ]).bytes, 36⟩ = [modeZ] := by decide
    rw [chunkTable_shortDeflated, loadTable, chunkAt, if_pos (by decide), hbody, hopen]
    rfl
  rw [parse, _parse_bytes _ _ (FileStream.ofBuffer_rep _), if_neg (by decide),
    if_neg (by decide), if_neg (by decide), show SeekPosition.position FileStream =
      FileStream.position from rfl, hload]
  rfl

/-- Both are accepted, and come to one byte and to none. -/
theorem parse_undeclared :
    parse Digest.leading Inflate.copying (FileStream.ofBuffer shortStored) =
      .ok (some (holding [7])) ∧
    ¬ AllKept Digest.leading Inflate.copying (FileStream.ofBuffer shortStored) ∧
    parse Digest.leading Inflate.copying (FileStream.ofBuffer shortDeflated) =
      .ok (some (holding [])) ∧
    ¬ AllKept Digest.leading Inflate.copying (FileStream.ofBuffer shortDeflated) := by
  have hstored : parse Digest.leading Inflate.copying (FileStream.ofBuffer shortStored) =
      .ok (some (holding [7])) := by decide
  refine ⟨hstored, fun hkept => ?_, parse_shortDeflated, fun hkept => ?_⟩
  · have hlen := (_parse_allKept_iff _ _ (FileStream.ofBuffer_rep shortStored) hstored).2 hkept
    rw [chunkTable_shortStored] at hlen
    exact absurd hlen (by decide)
  · have hlen := (_parse_allKept_iff _ _ (FileStream.ofBuffer_rep shortDeflated)
      parse_shortDeflated).2 hkept
    rw [chunkTable_shortDeflated] at hlen
    exact absurd hlen (by decide)

end BLTE

end Tactmon
