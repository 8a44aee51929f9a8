import Tactmon.Lib.Inflate
import Tactmon.Crypto.Hash
import Tactmon.Io.MemoryStream

/-!
# The in-memory BLTE decoder

`BLTE::Parse` of `tact/BLTE.cpp`, over any readable stream, any digest and any
inflate.  An empty optional is `none`.

The chunk table is read field by field, and the header digest is fed from the
fields as they are stored, not from the bytes of the header.  The sizes are
stored as `std::size_t`, so each feeds eight bytes.

The sizes of the table are 32-bit and there are fewer than `2 ^ 24` of them,
so the running offsets do not wrap.
-/

namespace Tactmon

open Binary Cxx Zlib

/-! ## Encoding modes -/

/-- `'N'`: the chunk is stored as it is. -/
def modeN : UInt8 := 78

/-- `'Z'`: the chunk is a zlib stream. -/
def modeZ : UInt8 := 90

/-- `'F'`: the chunk is a nested BLTE archive. -/
def modeF : UInt8 := 70

/-- The output window both decoders inflate through. -/
def decompressedBuffer : Room := ⟨8192, by decide⟩

/-- `'BLTE'` read most significant byte first. -/
def blteMagic : Nat := 0x424C5445

/-- `ChunkHeader` of `tact/BLTE.cpp`. -/
structure ChunkHeader where
  compressedSize : Nat
  decompressedSize : Nat
  checksum : Bytes
  offset : Nat
deriving DecidableEq, Repr

/-- `tact::BLTE`: the decoded contents. -/
structure BLTE where
  dataBuffer : GrowableMemoryStream
deriving DecidableEq, Repr

namespace BLTE

/-- The default constructor. -/
def empty : BLTE := ⟨.empty⟩

/-- The loop that writes the windows of an inflated chunk. -/
def writeWindows (blte : BLTE) : List Bytes → Option BLTE
  | [] => some blte
  | output :: outputs =>
      let (writeCount, dataBuffer) := blte.dataBuffer.write output
      if writeCount ≠ output.length then none else writeWindows ⟨dataBuffer⟩ outputs

section Decoder

variable {σ : Type} [IReadableStream σ] (digest : Bytes → Digest) (Z : Inflate)

/-- The switch over the encoding mode. -/
def decode (blte : BLTE) (chunkSpan : Span) : Exec (Option BLTE) := do
  let encodingMode ← chunkSpan.at 0
  if encodingMode = modeN then do
    let raw ← chunkSpan.suffix 1
    let (writeCount, dataBuffer) := blte.dataBuffer.write raw.bytes
    .ok (if writeCount = chunkSpan.size - 1 then some ⟨dataBuffer⟩ else none)
  else if encodingMode = modeZ then
    match Z.init with
    | none => .ok none
    | some strm => do
        let payload ← chunkSpan.suffix 1
        let (outputs, completed) ← Z.drain decompressedBuffer strm payload.bytes
        .ok (if completed then blte.writeWindows outputs else none)
  -- 'F' is not implemented here, and the other modes do not exist
  else .ok none

/-- `LoadChunk`.  The decompressed size is not used. -/
def loadChunk (blte : BLTE) (stream : σ) (compressedSize _decompressedSize : Nat)
    (checksum : Bytes) : Exec (Option BLTE) :=
  if getLength stream < sizeWrap (getReadCursor stream + compressedSize) then .ok none
  else do
    let data ← IReadableStream.data stream
    let chunkSpan ← data.subspan 0 compressedSize
    if (digest chunkSpan.bytes).bytes ≠ checksum then .ok none
    else blte.decode Z chunkSpan

/-- The loop over the chunk table.  Every field feeds the header digest at the
width it is stored with. -/
def readChunkHeaders : Nat → Nat → σ → Hash → Exec (List ChunkHeader × Hash × σ)
  | 0, _, fstream, engine => .ok ([], engine, fstream)
  | count + 1, offset, fstream, engine => do
      let (compressedSize, fstream) ← readInt 4 fstream .big
      let (decompressedSize, fstream) ← readInt 4 fstream .big
      let (checksum, fstream) ← readArray fstream (List.replicate 16 0) .little
      let engine := engine.updateInt 8 (byteswap 8 compressedSize)
      let engine := engine.updateInt 8 (byteswap 8 decompressedSize)
      let engine := engine.updateData checksum
      let (chunks, engine, fstream) ←
        readChunkHeaders count (offset + compressedSize) fstream engine
      .ok (⟨compressedSize, decompressedSize, checksum, offset⟩ :: chunks, engine, fstream)

/-- The loop over the chunks. -/
def loadChunks (blte : BLTE) : List ChunkHeader → σ → Exec (Option BLTE)
  | [], _ => .ok (some blte)
  | chunk :: chunks, fstream => do
      let fstream := (seekRead fstream chunk.offset).2
      match ← blte.loadChunk digest Z fstream chunk.compressedSize chunk.decompressedSize
        chunk.checksum with
      | none => .ok none
      | some blte => loadChunks blte chunks fstream

/-- `Validate`. -/
def validate (blte : BLTE) (ckey : Bytes) : Exec Bool := do
  let data ← blte.dataBuffer.view
  .ok (ckey = (digest data.bytes).bytes)

/-- The header and the chunk table, unless the magic is wrong.  The engine has
been fed what the header digest is of. -/
def readHeader (fstream : σ) : Exec (Option (List ChunkHeader × Hash × σ)) := do
  let (magic, fstream) ← readInt 4 fstream .big
  if magic ≠ blteMagic then .ok none
  else do
    let (headerSize, fstream) ← readInt 4 fstream .big
    let (flagsChunkCount, fstream) ← readInt 4 fstream .big
    let engine := Hash.init.updateInt 4 (byteswap 4 magic)
    let engine := engine.updateInt 4 (byteswap 4 headerSize)
    let engine := engine.updateInt 4 (byteswap 4 flagsChunkCount)
    -- the flags in the top byte are not looked at
    let chunkCount := flagsChunkCount &&& 0x00FFFFFF
    let (chunks, engine, fstream) ← readChunkHeaders chunkCount headerSize fstream engine
    .ok (some (chunks, engine, fstream))

/-- `_Parse`, where a null key is `none`. -/
def _parse (fstream : σ) (ekey ckey : Option Bytes) : Exec (Option BLTE) := do
  match ← readHeader fstream with
  | none => .ok none
  | some (chunks, engine, fstream) =>
      let checksum := engine.getDigest digest
      if ekey.any (fun ekey => ekey ≠ checksum.bytes) then .ok none
      else do
        match ← loadChunks digest Z empty chunks fstream with
        | none => .ok none
        | some blte =>
            match ckey with
            | none => .ok (some blte)
            | some ckey => do
                let valid ← blte.validate digest ckey
                .ok (if valid then some blte else none)

/-- `Parse` without keys. -/
def parse (fstream : σ) : Exec (Option BLTE) := _parse digest Z fstream none none

/-- `Parse` against an encoding key and a content key. -/
def parseKeyed (fstream : σ) (ekey ckey : Bytes) : Exec (Option BLTE) :=
  _parse digest Z fstream (some ekey) (some ckey)

end Decoder

end BLTE

end Tactmon
