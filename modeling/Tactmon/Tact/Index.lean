import Tactmon.Crypto.Hash
import Tactmon.Io.Stream
import Tactmon.Tact.Key

/-!
# Archive indices

`tact/data/Index.cpp`, around an arbitrary digest function.  An index is named
by the digest of its footer, whose length depends on a checksum size that is
only written inside it.  The constructor tries the sizes from 16 down and takes
the first footer that hashes to the name.  Then it computes how many blocks the
file has from its length, checks each block against its checksum, and keeps the
keys of all entries in one buffer.
-/

namespace Tactmon

open Binary Cxx

namespace Index

/-! ## Entries -/

/-- `Index::Entry`. -/
structure Entry where
  keyOffset : Nat
  size : UInt64
  offset : UInt64
deriving DecidableEq, Repr

/-- The key buffer and the entries read so far. -/
structure Storage where
  keyBuffer : Bytes
  entries : List Entry
deriving DecidableEq, Repr

section Read

variable {σ : Type} [IReadableStream σ]

/-- The constructor of `Entry`. -/
def Entry.read (stream : σ) (sizeBytes offsetBytes keyOffset : Nat) : Exec (Entry × σ) := do
  let bytes ← dataBytes stream (sizeBytes + offsetBytes)
  let stream := skipRead stream (sizeBytes + offsetBytes)
  .ok (⟨keyOffset, (bytes.take sizeBytes).foldl shiftIn 0,
    ((bytes.drop sizeBytes).take offsetBytes).foldl shiftIn 0⟩, stream)

/-! ## Footer -/

/-- The length of the footer for a checksum size. -/
def footerSize (checksumSize : Nat) : Nat := checksumSize * 2 + 8 + 4

/-- The search for the checksum size, downwards.  A file that is shorter than
the footer sends the loop back with the same size. -/
def findChecksumSize (digest : Bytes → Digest) (hashBytes : Bytes) : Nat → σ → Exec (Nat × σ)
  | 0, stream => .ok (0, stream)
  | checksumSize + 1, stream => do
      let footerSize := footerSize (checksumSize + 1)
      let stream := (seekRead stream (sizeSub (getLength stream) footerSize)).2
      if !canRead stream footerSize then .error .diverges
      else do
        let footerData ← dataBytes stream footerSize
        if hashBytes = (digest footerData).bytes then .ok (checksumSize + 1, stream)
        else findChecksumSize digest hashBytes checksumSize stream

/-- The fields of the footer. -/
structure Footer where
  tocHash : Bytes
  version : Nat
  unknown11 : Nat
  unknown12 : Nat
  blockSizeKb : Nat
  offsetBytes : Nat
  sizeBytes : Nat
  keySizeBytes : Nat
  numElements : Nat
deriving DecidableEq, Repr

namespace Footer

/-- The footer is read as far as the number of elements. -/
def read (checksumSize : Nat) (stream : σ) : Exec (Footer × σ) := do
  let tocHash ← dataBytes stream checksumSize
  let stream := skipRead stream checksumSize
  let (version, stream) ← readInt 1 stream .native
  let (unknown11, stream) ← readInt 1 stream .native
  let (unknown12, stream) ← readInt 1 stream .native
  let (blockSizeKb, stream) ← readInt 1 stream .native
  let (offsetBytes, stream) ← readInt 1 stream .native
  let (sizeBytes, stream) ← readInt 1 stream .native
  let (keySizeBytes, stream) ← readInt 1 stream .native
  let (_, stream) ← readInt 1 stream .native
  let (numElements, stream) ← readInt 4 stream .native
  .ok (⟨tocHash, version, unknown11, unknown12, blockSizeKb, offsetBytes, sizeBytes, keySizeBytes,
    numElements⟩, stream)

/-- The size of a block. -/
def blockSize (footer : Footer) : Nat := 1024 * footer.blockSizeKb

/-- The size of an entry. -/
def entrySize (footer : Footer) : Nat :=
  footer.keySizeBytes + footer.sizeBytes + footer.offsetBytes

end Footer

/-! ## Blocks -/

/-- The loop over the entries of block `i`, with `count` of them left, from
entry `j` on.  A key of zeros only skips its entry. -/
def readEntries (footer : Footer) (i : Nat) :
    Nat → Nat → Storage → σ → Exec (Storage × σ)
  | 0, _, storage, stream => .ok (storage, stream)
  | count + 1, j, storage, stream => do
      let stream :=
        (seekRead stream (sizeWrap (i * footer.blockSize + j * footer.entrySize))).2
      let keyData ← dataBytes stream footer.keySizeBytes
      let stream := skipRead stream footer.keySizeBytes
      if keyData.all (· == 0) then readEntries footer i count (j + 1) storage stream
      else do
        let keyOfs := storage.keyBuffer.length
        let (entry, stream) ← Entry.read stream footer.sizeBytes footer.offsetBytes keyOfs
        readEntries footer i count (j + 1)
          ⟨storage.keyBuffer ++ keyData, storage.entries ++ [entry]⟩ stream

/-- The loop over the blocks, with `count` of them left, from block `i` on.  A
block that does not match its checksum is left out. -/
def readBlocks (digest : Bytes → Digest) (checksumSize : Nat) (footer : Footer)
    (entryCount blockCount : Nat) : Nat → Nat → Storage → σ → Exec Storage
  | 0, _, storage, _ => .ok storage
  | count + 1, i, storage, stream => do
      let stream := (seekRead stream (sizeWrap (i * footer.blockSize))).2
      let rawBlockData ← dataBytes stream footer.blockSize
      let stream := (seekRead stream (sizeWrap (blockCount * footer.blockSize +
        blockCount * footer.keySizeBytes + i * checksumSize))).2
      let checksum ← dataBytes stream checksumSize
      if (digest rawBlockData).bytes.take checksumSize ≠ checksum then
        readBlocks digest checksumSize footer entryCount blockCount count (i + 1) storage stream
      else do
        let (storage, stream) ← readEntries footer i entryCount 0 storage stream
        readBlocks digest checksumSize footer entryCount blockCount count (i + 1) storage stream

end Read

end Index

/-! ## Indices -/

/-- `tact::data::Index`. -/
structure Index where
  archiveName : Bytes
  keySizeBytes : Nat
  storage : Index.Storage
deriving DecidableEq, Repr

namespace Index

/-- The constructor.  Entries of no size at all would divide by zero. -/
def read {σ : Type} [IReadableStream σ] (digest : Bytes → Digest) (hash : Bytes) (stream : σ) :
    Exec Index := do
  let hashBytes ← unhex hash
  let (checksumSize, stream) ← findChecksumSize digest hashBytes 0x10 stream
  if checksumSize = 0 then .ok ⟨hash, 0, [], []⟩
  else do
    let footerSize := footerSize checksumSize
    let stream := (seekRead stream (sizeSub (getLength stream) footerSize)).2
    let (footer, stream) ← Footer.read checksumSize stream
    if footer.entrySize = 0 then .error .outOfBounds
    else do
      let entryCount := footer.blockSize / footer.entrySize
      let blockCount := sizeSub (getLength stream) footerSize /
        (footer.blockSize + (footer.keySizeBytes + checksumSize))
      let storage ←
        readBlocks digest checksumSize footer entryCount blockCount blockCount 0 ⟨[], []⟩ stream
      .ok ⟨hash, footer.keySizeBytes, storage⟩

/-- `Entry::key`. -/
def Entry.key (entry : Entry) (index : Index) : Bytes :=
  window index.storage.keyBuffer entry.keyOffset index.keySizeBytes

end Index

/-- `operator[]`. -/
def Index.at (index : Index) (key : EKey) : Option Index.Entry :=
  index.storage.entries.find? fun entry => entry.key index = key

end Tactmon
