import Tactmon.Lib.LowerBound
import Tactmon.Io.MemoryStream

/-!
# The root manifest

`Root::Parse`, `ParseBlock` and `Root::FindFile` of
`tact/data/product/wow/Root.cpp`, over any readable stream.  An empty optional
is `none`.

`Root::Parse` cuts the stream into pages and posts a task for each.  The tasks
do not depend on each other and their results are collected in order, so the
model parses the pages one after the other once all of them are cut.

A page keeps the span it was cut from.  `ParseBlock` looks at the page through
a `SpanStream`, whose reads go past the cursor and may leave the page, so what
they return depends on the bytes behind the page.

The file data IDs are stored as differences and summed up modulo `2 ^ 32`.
Nothing makes them increase.
-/

namespace Tactmon

namespace Wow

open Binary Cxx

/-! ## Roots -/

/-- `Root::Entry`. -/
structure Root.Entry where
  contentKey : Bytes
  fileDataID : UInt32
  nameHash : UInt64
deriving DecidableEq, Repr

/-- `Root::Block`. -/
structure Root.Block where
  content : UInt32
  locales : UInt32
  entries : List Root.Entry
deriving DecidableEq, Repr

/-- `Root`. -/
structure Root where
  blocks : List Root.Block
deriving DecidableEq, Repr

/-- `PageInfo`. -/
structure PageInfo where
  numRecords : Nat
  contentFlags : UInt32
  localeFlags : UInt32
  data : Span

namespace Root

/-- `'TSFM'` read least significant byte first. -/
def tsfmMagic : Nat := 0x4D465354

/-- `ContentFlags::NoNameHash`. -/
def noNameHash : UInt32 := 0x10000000

/-- The test for name hashes, outside the interleaved layout. -/
def hasNameHashes (canSkip : Bool) (contentFlags : UInt32) : Bool :=
  !canSkip || contentFlags &&& noNameHash = 0

/-! ## Blocks -/

/-- The first `count` 32-bit integers. -/
def uint32s : Nat → Bytes → List UInt32
  | 0, _ => []
  | count + 1, bytes => .ofNat (leNat (bytes.take 4)) :: uint32s count (bytes.drop 4)

/-- `Data<uint32_t>().subspan(0, count)`. -/
def dataUInt32 (view : Span) (count : Nat) : Exec (List UInt32) :=
  if count ≤ view.size / 4 then .ok (uint32s count view.bytes) else .error .outOfBounds

/-- The loop over interleaved records. -/
def parseInterleaved (contentKeySize : Nat) :
    List UInt32 → UInt32 → SpanStream → Exec (List Entry)
  | [], _, _ => .ok []
  | delta :: deltas, fileDataID, stream => do
      let fileDataID := fileDataID + (delta + 1)
      let view ← stream.view
      let hashSpan ← view.subspan 0 contentKeySize
      let stream := skipRead stream contentKeySize
      let (nameHash, stream) ← readInt 8 stream .little
      let entries ← parseInterleaved contentKeySize deltas fileDataID stream
      .ok (⟨hashSpan.bytes, fileDataID, .ofNat nameHash⟩ :: entries)

/-- The loop over records with name hashes, from record `i` on. -/
def parseNamed (contentKeySize : Nat) (hashSpan : Span) :
    List UInt32 → Nat → UInt32 → SpanStream → Exec (List Entry)
  | [], _, _, _ => .ok []
  | delta :: deltas, i, fileDataID, stream => do
      let fileDataID := fileDataID + (delta + 1)
      let (nameHash, stream) ← readInt 8 stream .little
      let contentKey ← hashSpan.subspan (sizeWrap (i * contentKeySize)) contentKeySize
      let entries ← parseNamed contentKeySize hashSpan deltas (i + 1) fileDataID stream
      .ok (⟨contentKey.bytes, fileDataID, .ofNat nameHash⟩ :: entries)

/-- The loop over records without name hashes, from record `i` on. -/
def parseUnnamed (contentKeySize : Nat) (hashSpan : Span) :
    List UInt32 → Nat → UInt32 → Exec (List Entry)
  | [], _, _ => .ok []
  | delta :: deltas, i, fileDataID => do
      let fileDataID := fileDataID + (delta + 1)
      let contentKey ← hashSpan.subspan (sizeWrap (i * contentKeySize)) contentKeySize
      let entries ← parseUnnamed contentKeySize hashSpan deltas (i + 1) fileDataID
      .ok (⟨contentKey.bytes, fileDataID, 0⟩ :: entries)

/-- `ParseBlock`, which never returns an empty optional. -/
def parseBlock (pageInfo : PageInfo) (contentKeySize : Nat) (interleave canSkip : Bool) :
    Exec Block := do
  let stream := SpanStream.ofSpan pageInfo.data
  let view ← stream.view
  let fileDataIDs ← dataUInt32 view pageInfo.numRecords
  let stream := skipRead stream (sizeWrap (pageInfo.numRecords * 4))
  let fileDataID : UInt32 := -1
  let entries ←
    if interleave then parseInterleaved contentKeySize fileDataIDs fileDataID stream
    else do
      let view ← stream.view
      let hashSpan ← view.subspan 0 (sizeWrap (pageInfo.numRecords * contentKeySize))
      let stream := skipRead stream hashSpan.size
      if hasNameHashes canSkip pageInfo.contentFlags then
        parseNamed contentKeySize hashSpan fileDataIDs 0 fileDataID stream
      else parseUnnamed contentKeySize hashSpan fileDataIDs 0 fileDataID
  .ok ⟨pageInfo.contentFlags, pageInfo.localeFlags, entries⟩

/-! ## Pages -/

section Parse

variable {σ : Type} [IReadableStream σ]

/-- The length of a page behind its header.  Sizes wrap. -/
def pageLength (contentKeySize numRecords : Nat) (named : Bool) : Nat :=
  let length := sizeWrap (4 * numRecords + contentKeySize * numRecords)
  if named then sizeWrap (length + 8 * numRecords) else length

/-- One turn of the page loop. -/
def readPage (contentKeySize : Nat) (interleave canSkip : Bool) (stream : σ) :
    Exec (Option (PageInfo × σ)) :=
  if !canRead stream 12 then .ok none
  else do
    let (numRecords, stream) ← readInt 4 stream .little
    let (contentFlags, stream) ← readInt 4 stream .little
    let (localeFlags, stream) ← readInt 4 stream .little
    let length := pageLength contentKeySize numRecords
      (interleave || hasNameHashes canSkip (.ofNat contentFlags))
    if !canRead stream length then .ok none
    else do
      let view ← IReadableStream.data stream
      let data ← view.subspan 0 length
      .ok (some (⟨numRecords, .ofNat contentFlags, .ofNat localeFlags, data⟩,
        skipRead stream length))

/-- The page loop. -/
def readPages (contentKeySize : Nat) (interleave canSkip : Bool) :
    Nat → σ → Exec (Option (List PageInfo))
  | 0, stream =>
      if getReadCursor stream < getLength stream then .error .diverges else .ok (some [])
  | fuel + 1, stream =>
      if getReadCursor stream < getLength stream then do
        match ← readPage contentKeySize interleave canSkip stream with
        | none => .ok none
        | some (page, stream) =>
            match ← readPages contentKeySize interleave canSkip fuel stream with
            | none => .ok none
            | some pages => .ok (some (page :: pages))
      else .ok (some [])

/-- The results of the tasks, in order. -/
def parseBlocks (contentKeySize : Nat) (interleave canSkip : Bool) :
    List PageInfo → Exec (List Block)
  | [] => .ok []
  | page :: pages => do
      let block ← parseBlock page contentKeySize interleave canSkip
      let blocks ← parseBlocks contentKeySize interleave canSkip pages
      .ok (block :: blocks)

/-- `Root::Parse` from the page loop on. -/
def parsePages (contentKeySize : Nat) (interleave canSkip : Bool) (stream : σ) :
    Exec (Option Root) := do
  match ← readPages contentKeySize interleave canSkip (getLength stream) stream with
  | none => .ok none
  | some pages => do
      let blocks ← parseBlocks contentKeySize interleave canSkip pages
      .ok (some ⟨blocks⟩)

/-- `Root::Parse`. -/
def parse (stream : σ) (contentKeySize : Nat) : Exec (Option Root) :=
  if !canRead stream 4 then .ok none
  else do
    let (magic, stream) ← readInt 4 stream .little
    if magic = tsfmMagic then
      if !canRead stream 8 then .ok none
      else do
        let (totalFileCount, stream) ← readInt 4 stream .little
        let (namedFileCount, stream) ← readInt 4 stream .little
        parsePages contentKeySize false (totalFileCount ≠ namedFileCount) stream
    else parsePages contentKeySize true false stream

end Parse

/-! ## Lookup -/

/-- The order of the binary search. -/
def below (fileDataID : UInt32) (entry : Entry) : Bool := entry.fileDataID < fileDataID

/-- The loop over the blocks. -/
def findIn (fileDataID : UInt32) : List Block → Exec (Option Bytes)
  | [] => .ok none
  | block :: blocks => do
      let itr ← lowerBound (below fileDataID) block.entries
      match block.entries[itr]? with
      | some entry => .ok (some entry.contentKey)
      | none => findIn fileDataID blocks

/-- `FindFile`, by file data ID. -/
def findFile (root : Root) (fileDataID : UInt32) : Exec (Option Bytes) :=
  findIn fileDataID root.blocks

/-- Some entry of some block has the ID and the key. -/
def Holds (root : Root) (fileDataID : UInt32) (contentKey : Bytes) : Prop :=
  ∃ block ∈ root.blocks, ∃ entry ∈ block.entries,
    entry.fileDataID = fileDataID ∧ entry.contentKey = contentKey

/-- A key is the key of an entry with the ID, and there is none only when no
entry has the ID. -/
def Exact (root : Root) (fileDataID : UInt32) (result : Option Bytes) : Prop :=
  (∀ contentKey, result = some contentKey → root.Holds fileDataID contentKey) ∧
  (result = none ↔ ∀ contentKey, ¬ root.Holds fileDataID contentKey)

/-- The block has an entry that is not below the ID. -/
def Block.reaches (fileDataID : UInt32) (block : Block) : Bool :=
  block.entries.any fun entry => !below fileDataID entry

/-- In the first block with an entry from the ID on, the entries below the ID
come first, and the next one has the key of an entry with the ID. -/
def Hits (root : Root) (fileDataID : UInt32) : Prop :=
  ∀ block ∈ root.blocks.find? (Block.reaches fileDataID),
    Partitioned (below fileDataID) block.entries ∧
    ∀ entry ∈ block.entries.find? (fun entry => !below fileDataID entry),
      root.Holds fileDataID entry.contentKey

/-- A block whose entries are all below the ID is passed over. -/
theorem findIn_skip {fileDataID : UInt32} {block : Block} {blocks : List Block}
    (h : block.reaches fileDataID = false) :
    findIn fileDataID (block :: blocks) = findIn fileDataID blocks := by
  have hall : ∀ entry ∈ block.entries, below fileDataID entry = true := fun entry hentry => by
    have := List.any_eq_false.mp h entry hentry
    simpa using this
  have hpart : Partitioned (below fileDataID) block.entries :=
    List.pairwise_of_forall_mem_list fun entry hentry _ _ _ => hall entry hentry
  have hnone : block.entries.find? (fun entry => !below fileDataID entry) = none :=
    List.find?_eq_none.mpr fun entry hentry => by simp [hall entry hentry]
  rw [findIn, lowerBound_eq hpart, Exec.ok_bind, getElem?_splitIdx, hnone]

/-- The search ends in the first block that reaches the ID. -/
theorem findIn_eq (fileDataID : UInt32) (blocks : List Block) :
    findIn fileDataID blocks =
      match blocks.find? (Block.reaches fileDataID) with
      | none => .ok none
      | some block =>
          if Partitioned (below fileDataID) block.entries then
            .ok ((block.entries.find? fun entry => !below fileDataID entry).map Entry.contentKey)
          else .error .outOfBounds := by
  induction blocks with
  | nil => rfl
  | cons block blocks ih =>
      cases hreaches : block.reaches fileDataID with
      | false => rw [findIn_skip hreaches, ih, List.find?_cons, hreaches]
      | true =>
          rw [List.find?_cons, hreaches, findIn]
          by_cases hpart : Partitioned (below fileDataID) block.entries
          · rw [lowerBound_eq hpart, Exec.ok_bind, getElem?_splitIdx]
            dsimp only
            rw [if_pos hpart]
            cases hfind : block.entries.find? fun entry => !below fileDataID entry with
            | some entry => rfl
            | none =>
                have hany := List.any_eq_true.mp hreaches
                obtain ⟨entry, hentry, hnot⟩ := hany
                exact absurd hnot (List.find?_eq_none.mp hfind entry hentry)
          · rw [lowerBound_error hpart]
            dsimp only
            rw [if_neg hpart]
            rfl

/-- An entry with the ID is reached. -/
theorem Holds.reaches {root : Root} {fileDataID : UInt32} {contentKey : Bytes}
    (h : root.Holds fileDataID contentKey) :
    ∃ block ∈ root.blocks, block.reaches fileDataID = true := by
  obtain ⟨block, hblock, entry, hentry, hid, -⟩ := h
  refine ⟨block, hblock, List.any_eq_true.mpr ⟨entry, hentry, ?_⟩⟩
  simp [below, hid]

/-- A lookup is exact exactly when the first block with an entry from the ID on
leads to the ID. -/
theorem findFile_exact_iff (root : Root) (fileDataID : UInt32) :
    (∃ result, root.findFile fileDataID = .ok result ∧ root.Exact fileDataID result) ↔
      root.Hits fileDataID := by
  rw [findFile, findIn_eq, Hits]
  cases hfirst : root.blocks.find? (Block.reaches fileDataID) with
  | none =>
      have hempty : ∀ contentKey, ¬ root.Holds fileDataID contentKey := fun contentKey h => by
        obtain ⟨block, hblock, hreaches⟩ := h.reaches
        exact List.find?_eq_none.mp hfirst block hblock hreaches
      refine iff_of_true ⟨none, rfl, fun _ h => (nomatch h), ?_⟩ fun block h => nomatch h
      exact iff_of_true rfl hempty
  | some block =>
      have hreaches : block.reaches fileDataID = true := List.find?_some hfirst
      obtain ⟨entry, hentry⟩ : ∃ entry,
          block.entries.find? (fun entry => !below fileDataID entry) = some entry :=
        Option.isSome_iff_exists.mp (List.find?_isSome.mpr (List.any_eq_true.mp hreaches))
      simp only [hentry, Option.map_some, Option.mem_some_iff, forall_eq']
      by_cases hpart : Partitioned (below fileDataID) block.entries
      · rw [if_pos hpart]
        constructor
        · intro h
          obtain ⟨result, hresult, hexact, -⟩ := h
          cases hresult
          exact ⟨hpart, hexact _ rfl⟩
        · intro h
          refine ⟨_, rfl, fun contentKey hkey => ?_, ?_⟩
          · cases hkey
            exact h.2
          · exact iff_of_false (fun hnone => nomatch hnone) fun hnone => hnone _ h.2
      · rw [if_neg hpart]
        exact iff_of_false (fun h => by
          obtain ⟨result, hresult, -⟩ := h
          cases hresult) fun h => hpart h.1

/-- A root of one block without name hashes, whose only record has ID 5. -/
def lookupSample : Buffer where
  bytes := leBytes 4 tsfmMagic ++ leBytes 4 2 ++ leBytes 4 1 ++
    leBytes 4 1 ++ leBytes 4 0x10000000 ++ leBytes 4 2 ++ leBytes 4 5 ++ [0xAA]
  fits := by decide

/-- A lookup of ID 3, which no entry has, returns the key of ID 5. -/
theorem findFile_wrong :
    ∃ root, parse (GrowableMemoryStream.ofBuffer lookupSample) 1 = .ok (some root) ∧
      root.findFile 3 = .ok (some [0xAA]) ∧
      ¬ ∃ result, root.findFile 3 = .ok result ∧ root.Exact 3 result := by
  refine ⟨⟨[⟨0x10000000, 2, [⟨[0xAA], 5, 0⟩]⟩]⟩, by decide, by decide, fun h => ?_⟩
  obtain ⟨result, hresult, hexact, -⟩ := h
  cases hresult
  obtain ⟨block, hblock, entry, hentry, hid, -⟩ := hexact _ rfl
  cases List.mem_singleton.mp hblock
  cases List.mem_singleton.mp hentry
  exact absurd hid (by decide)

end Root

end Wow

end Tactmon
