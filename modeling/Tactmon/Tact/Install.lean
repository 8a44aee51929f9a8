import Tactmon.Io.Stream
import Tactmon.Tact.Key

/-!
# Install manifests

`tact/data/Install.cpp`.  A manifest has tags and entries, both counted in its
header and both with a name in front.  A tag has a bit for every entry.  The
header is the only part whose presence is tested: the names, masks, hashes and
sizes are read wherever the stream ends.
-/

namespace Tactmon

open Binary Cxx

/-- `Install::Entry`. -/
structure Install.Entry where
  name : Bytes
  fileSize : UInt64
  hash : CKey
deriving DecidableEq, Repr

/-- `tact::data::Install`, without its tags. -/
structure Install where
  entries : List Install.Entry
deriving DecidableEq, Repr

/-- `Install::FindFile`. -/
def Install.findFile (install : Install) (fileName : Bytes) : Option CKey :=
  (install.entries.find? fun entry => entry.name = fileName).map Install.Entry.hash

namespace Install

/-- `size`. -/
def size (install : Install) : Nat := install.entries.length

/-- `Install::Tag`.  Of the type one byte is kept. -/
structure Tag where
  name : Bytes
  type : UInt8
  bitmaskSize : Nat
  bitmask : Bytes
deriving DecidableEq, Repr

section Parse

variable {σ : Type} [IReadableStream σ]

/-- The constructor of `Tag`.  The size of a mask is given in bits. -/
def Tag.read (stream : σ) (bitmaskSize : Nat) (name : Bytes) : Exec (Tag × σ) := do
  let (type, stream) ← readInt 2 stream .big
  let (_, bitmask, stream) ←
    readSpan stream (List.replicate ((bitmaskSize + 7) / 8) 0) .little 1
  .ok (⟨name, .ofNat type, bitmaskSize, bitmask⟩, stream)

/-- The constructor of `Entry`. -/
def Entry.read (stream : σ) (hashSize : Nat) (name : Bytes) : Exec (Entry × σ) := do
  let hash ← dataBytes stream hashSize
  let stream := skipRead stream hashSize
  let (fileSize, stream) ← readInt 4 stream .big
  .ok (⟨name, .ofNat fileSize, hash⟩, stream)

/-- The two loops of `Parse`, with `count` turns left.  A turn reads a name and
what is constructed behind it. -/
def readNamed {α : Type} (read : σ → Bytes → Exec (α × σ)) : Nat → σ → Exec (List α × σ)
  | 0, stream => .ok ([], stream)
  | count + 1, stream => do
      let (name, stream) ← readCString stream
      let (item, stream) ← read stream name
      let (items, stream) ← readNamed read count stream
      .ok (item :: items, stream)

/-- The loop over the tags. -/
def readTags (numEntries : Nat) : Nat → σ → Exec (List Tag × σ) :=
  readNamed fun stream tagName => Tag.read stream numEntries tagName

/-- The loop over the entries. -/
def readEntries (hashSize : Nat) : Nat → σ → Exec (List Entry × σ) :=
  readNamed fun stream name => Entry.read stream hashSize name

/-- `Install::Parse`.  The tags stand beside the manifest. -/
def parse (stream : σ) : Exec (Option (List Tag × Install)) :=
  if !canRead stream (2 + 1 + 1 + 2 + 4) then .ok none
  else do
    let (_signature, stream) ← readInt 2 stream .big
    let (_version, stream) ← readInt 1 stream .native
    let (hashSize, stream) ← readInt 1 stream .native
    let (numTags, stream) ← readInt 2 stream .big
    let (numEntries, stream) ← readInt 4 stream .big
    let (tags, stream) ← readTags numEntries numTags stream
    let (entries, _) ← readEntries hashSize numEntries stream
    .ok (some (tags, ⟨entries⟩))

end Parse

end Install

end Tactmon
