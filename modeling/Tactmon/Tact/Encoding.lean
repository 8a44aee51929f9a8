import Tactmon.Io.Stream
import Tactmon.Tact.Key

/-!
# Encoding manifests

`tact/data/Encoding.cpp`.  A manifest maps content keys to encoding keys.  Its
pages lie behind an index that the constructor steps over, a bit for each page,
while it seeks to the pages themselves.  A page has no entry count.  It is read
until an entry has no encoding keys, as padding has, or ends behind the page.

The entry is `CEKeyPageTable`.  `Page` is a template whose other argument is
never used.
-/

namespace Tactmon

open Binary Cxx

namespace Encoding

section Read

variable {σ : Type} [IReadableStream σ]

/-! ## Header -/

/-- The two kinds of pages. -/
structure PageSpec where
  pageSize : Nat := 0
  pageCount : Nat := 0
deriving DecidableEq, Repr

/-- `Encoding::Header`. -/
structure Header where
  signature : Nat := 0
  version : Nat := 0
  ceKey : PageSpec := {}
  eKeySpec : PageSpec := {}
  encodingKeySize : Nat := 0
  contentKeySize : Nat := 0
  eSpecBlockSize : Nat := 0
deriving DecidableEq, Repr

/-- The constructor of `Header`. -/
def Header.read (stream : σ) : Exec (Header × σ) :=
  if !canRead stream (2 + 1 + 1 + 1 + 2 + 2 + 4 + 4 + 1 + 4) then .ok ({}, stream)
  else do
    let (signature, stream) ← readInt 2 stream .big
    let (version, stream) ← readInt 1 stream .native
    let (encodingKeySize, stream) ← readInt 1 stream .native
    let (contentKeySize, stream) ← readInt 1 stream .native
    let (ceKeyPageSize, stream) ← readInt 2 stream .big
    let (eKeySpecPageSize, stream) ← readInt 2 stream .big
    let (ceKeyPageCount, stream) ← readInt 4 stream .big
    let (eKeySpecPageCount, stream) ← readInt 4 stream .big
    let (_unknown, stream) ← readInt 1 stream .native
    let (eSpecBlockSize, stream) ← readInt 4 stream .big
    .ok ({ signature, version, encodingKeySize, contentKeySize, eSpecBlockSize
           ceKey := ⟨ceKeyPageSize * 1024, ceKeyPageCount⟩
           eKeySpec := ⟨eKeySpecPageSize * 1024, eKeySpecPageCount⟩ }, stream)

/-! ## Entries -/

/-- `ReadUInt40`.  The array is not initialised.  Where a short read leaves it as
it was, it holds zeros here. -/
def readUInt40 (stream : σ) (endianness : Endian) : Exec (UInt64 × σ) := do
  let (_, bytes, stream) ← readSpan stream (List.replicate 5 0) endianness 1
  .ok (bytes.foldl shiftIn 0, stream)

/-- `Encoding::CEKeyPageTable`. -/
structure CEKeyPageTable where
  fileSize : UInt64
  ckey : Bytes
  ekeys : Bytes
  keyCount : Nat
deriving DecidableEq, Repr

namespace CEKeyPageTable

/-- The constructor. -/
def read (stream : σ) (header : Header) : Exec (CEKeyPageTable × σ) := do
  let (keyCount, stream) ← readInt 1 stream .native
  let (fileSize, stream) ← readUInt40 stream .big
  let (_, ckey, stream) ← readSpan stream (List.replicate header.contentKeySize 0) .little 1
  if 0 < keyCount * header.encodingKeySize then do
    let (_, ekeys, stream) ←
      readSpan stream (List.replicate (header.encodingKeySize * keyCount) 0) .little 1
    .ok (⟨fileSize, ckey, ekeys, keyCount⟩, stream)
  else .ok (⟨fileSize, ckey, [], keyCount⟩, stream)

/-- `operator bool`. -/
def toBool (entry : CEKeyPageTable) : Bool := !entry.ckey.isEmpty && !entry.ekeys.isEmpty

/-- `HashSize`. -/
def hashSize (header : Header) : Nat := header.contentKeySize

/-- The content key. -/
def contentKey (entry : CEKeyPageTable) (header : Header) : CKey :=
  entry.ckey.take header.contentKeySize

/-- The location of the file of an entry. -/
def location (entry : CEKeyPageTable) (header : Header) : FileLocation :=
  ⟨entry.fileSize, entry.keyCount, entry.ekeys.take (entry.keyCount * header.encodingKeySize)⟩

end CEKeyPageTable

/-! ## Pages -/

/-- `Encoding::Page<CEKeyPageTable, false>`. -/
abbrev Page := List CEKeyPageTable

namespace Page

/-- The loop over the entries of a page. -/
def readEntries (header : Header) (pageEnd : Nat) : Nat → σ → Exec (Page × σ)
  | 0, stream => if getReadCursor stream < pageEnd then .error .diverges else .ok ([], stream)
  | fuel + 1, stream =>
      if getReadCursor stream < pageEnd then do
        let (pageEntry, stream) ← CEKeyPageTable.read stream header
        if !pageEntry.toBool || decide (pageEnd < getReadCursor stream) then .ok ([], stream)
        else do
          let (entries, stream) ← readEntries header pageEnd fuel stream
          .ok (pageEntry :: entries, stream)
      else .ok ([], stream)

/-- The constructor.  An entry that does not stop the loop has moved the cursor,
so there are no more turns than positions in front of the end of the page. -/
def read (stream : σ) (header : Header) (pageOffset pageEnd : Nat) : Exec (Page × σ) := do
  let hashSize := CEKeyPageTable.hashSize header
  let stream := skipRead stream (sizeWrap (hashSize + 0x10))
  let position := getReadCursor stream
  let stream := (seekRead stream pageOffset).2
  let (entries, stream) ← readEntries header pageEnd pageEnd stream
  .ok (entries, (seekRead stream position).2)

end Page

/-- The loop over the pages, with `count` of them left, from page `i` on. -/
def readPages (header : Header) (pageStart : Nat) : Nat → Nat → σ → Exec (List Page)
  | 0, _, _ => .ok []
  | count + 1, i, stream => do
      let pageOffset := sizeWrap (pageStart + sizeWrap (i * header.ceKey.pageSize))
      let pageEnd := sizeWrap (pageOffset + header.ceKey.pageSize)
      let (page, stream) ← Page.read stream header pageOffset pageEnd
      let pages ← readPages header pageStart count (i + 1) stream
      .ok (page :: pages)

end Read

end Encoding

/-! ## Manifests -/

/-- `tact::data::Encoding`. -/
structure Encoding where
  header : Encoding.Header
  cekeyPages : List Encoding.Page
deriving DecidableEq, Repr

namespace Encoding

/-- The constructor. -/
def read {σ : Type} [IReadableStream σ] (stream : σ) : Exec Encoding := do
  let (header, stream) ← Header.read stream
  if header.signature ≠ 0x454E then .ok ⟨header, []⟩
  else do
    let stream := skipRead stream header.eSpecBlockSize
    let pageStart := sizeWrap (getReadCursor stream +
      sizeWrap (header.ceKey.pageCount * (0x10 + header.encodingKeySize)))
    let cekeyPages ← readPages header pageStart header.ceKey.pageCount 0 stream
    .ok ⟨header, cekeyPages⟩

/-- `count`. -/
def count (encoding : Encoding) : Nat :=
  encoding.cekeyPages.foldl (fun value page => sizeWrap (value + page.length)) 0

/-- `FindFile`. -/
def findFile (encoding : Encoding) (contentKey : CKey) : Option FileLocation :=
  encoding.cekeyPages.findSome? fun page =>
    (page.find? fun entry => entry.contentKey encoding.header = contentKey).map fun entry =>
      entry.location encoding.header

end Encoding

end Tactmon
