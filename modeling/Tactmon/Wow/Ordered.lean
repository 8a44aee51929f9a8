import Mathlib.Data.List.Chain
import Tactmon.Wow.Pages

/-!
# The order of the file data IDs

`ParseBlock` sums up the differences of a page, starting from `-1` and adding
one to each.  A lookup by file data ID does a binary search in each block, and
the source takes it for granted that the IDs increase.  Nothing checks it.

The IDs of a page increase as long as the sum does not wrap, and no longer
(`isChain_fileDataIDs`).  So a root that was parsed is ordered exactly when, in
every page of the file, the differences and their count add up to at most
`2 ^ 32` (`parse_ordered_iff`).
-/

namespace Tactmon

namespace Wow

namespace Root

open Binary Cxx CursorReadable LawfulReadable

/-- In every block the IDs of consecutive entries increase. -/
def Ordered (root : Root) : Prop :=
  ∀ block ∈ root.blocks,
    block.entries.IsChain fun entry next => entry.fileDataID < next.fileDataID

/-- An ordered block meets the precondition of the binary search. -/
theorem Ordered.partitioned {root : Root} (h : root.Ordered) {block : Block}
    (hblock : block ∈ root.blocks) (fileDataID : UInt32) :
    Partitioned (below fileDataID) block.entries := by
  have hids : (block.entries.map Entry.fileDataID).Pairwise (· < ·) :=
    List.isChain_iff_pairwise.mp ((List.isChain_map Entry.fileDataID).mpr (h block hblock))
  refine (List.pairwise_map.mp hids).imp fun {entry next} hlt hbelow => ?_
  exact decide_eq_true (UInt32.lt_trans hlt (of_decide_eq_true hbelow))

/-! ## Sums of differences -/

/-- The IDs that `ParseBlock` sums up. -/
def fileDataIDs : UInt32 → List UInt32 → List UInt32
  | _, [] => []
  | fileDataID, delta :: deltas =>
      (fileDataID + (delta + 1)) :: fileDataIDs (fileDataID + (delta + 1)) deltas

/-- What the differences of a page add up to. -/
def span (deltas : List UInt32) : Nat := (deltas.map fun delta => delta.toNat + 1).sum

@[simp] theorem span_cons (delta : UInt32) (deltas : List UInt32) :
    span (delta :: deltas) = delta.toNat + 1 + span deltas := List.sum_cons

theorem toNat_add_delta (fileDataID delta : UInt32) :
    (fileDataID + (delta + 1)).toNat = (fileDataID.toNat + (delta.toNat + 1)) % 2 ^ 32 := by
  simp [UInt32.toNat_add]

/-- The next ID is larger when the sum does not wrap. -/
theorem lt_add_delta_iff (fileDataID delta : UInt32) :
    fileDataID < fileDataID + (delta + 1) ↔ fileDataID.toNat + (delta.toNat + 1) < 2 ^ 32 := by
  have hid := fileDataID.toNat_lt
  have hdelta := delta.toNat_lt
  rw [UInt32.lt_iff_toNat_lt, toNat_add_delta]
  omega

/-- From an ID on, the IDs increase until the sum wraps. -/
theorem isChain_cons_fileDataIDs (deltas : List UInt32) :
    ∀ fileDataID, (fileDataID :: fileDataIDs fileDataID deltas).IsChain (· < ·) ↔
      fileDataID.toNat + span deltas < 2 ^ 32 := by
  induction deltas with
  | nil =>
      intro fileDataID
      exact iff_of_true (.singleton _) fileDataID.toNat_lt
  | cons delta deltas ih =>
      intro fileDataID
      rw [fileDataIDs, List.isChain_cons_cons, lt_add_delta_iff, ih, toNat_add_delta, span_cons]
      constructor
      · intro h
        obtain ⟨hlt, hrest⟩ := h
        rw [Nat.mod_eq_of_lt hlt] at hrest
        omega
      · intro h
        have hlt : fileDataID.toNat + (delta.toNat + 1) < 2 ^ 32 := by omega
        rw [Nat.mod_eq_of_lt hlt]
        exact ⟨hlt, by omega⟩

/-- The IDs of a page increase exactly when their sum does not wrap. -/
theorem isChain_fileDataIDs (deltas : List UInt32) :
    (fileDataIDs (-1) deltas).IsChain (· < ·) ↔ span deltas ≤ 2 ^ 32 := by
  cases deltas with
  | nil => exact iff_of_true .nil (Nat.zero_le _)
  | cons delta deltas =>
      have hfirst : (-1 : UInt32) + (delta + 1) = delta := by
        have hzero : (-1 : UInt32) + 1 = 0 := rfl
        rw [UInt32.add_comm delta, ← UInt32.add_assoc, hzero, UInt32.zero_add]
      rw [fileDataIDs, hfirst, isChain_cons_fileDataIDs, span_cons]
      omega

/-! ## Blocks -/

section Blocks

variable {contentKeySize : Nat} {hashSpan : Span}

theorem parseInterleaved_fileDataIDs (deltas : List UInt32) :
    ∀ {fileDataID : UInt32} {stream : SpanStream} {entries : List Entry},
      parseInterleaved contentKeySize deltas fileDataID stream = .ok entries →
      entries.map Entry.fileDataID = fileDataIDs fileDataID deltas := by
  induction deltas with
  | nil =>
      intro fileDataID stream entries h
      cases h
      rfl
  | cons delta deltas ih =>
      intro fileDataID stream entries h
      obtain ⟨view, -, h⟩ := Exec.bind_eq_ok.mp h
      obtain ⟨key, -, h⟩ := Exec.bind_eq_ok.mp h
      obtain ⟨r, -, h⟩ := Exec.bind_eq_ok.mp h
      obtain ⟨rest, hrest, h⟩ := Exec.bind_eq_ok.mp h
      cases h
      rw [List.map_cons, ih hrest, fileDataIDs]

theorem parseNamed_fileDataIDs (deltas : List UInt32) :
    ∀ {i : Nat} {fileDataID : UInt32} {stream : SpanStream} {entries : List Entry},
      parseNamed contentKeySize hashSpan deltas i fileDataID stream = .ok entries →
      entries.map Entry.fileDataID = fileDataIDs fileDataID deltas := by
  induction deltas with
  | nil =>
      intro i fileDataID stream entries h
      cases h
      rfl
  | cons delta deltas ih =>
      intro i fileDataID stream entries h
      obtain ⟨r, -, h⟩ := Exec.bind_eq_ok.mp h
      obtain ⟨key, -, h⟩ := Exec.bind_eq_ok.mp h
      obtain ⟨rest, hrest, h⟩ := Exec.bind_eq_ok.mp h
      cases h
      rw [List.map_cons, ih hrest, fileDataIDs]

theorem parseUnnamed_fileDataIDs (deltas : List UInt32) :
    ∀ {i : Nat} {fileDataID : UInt32} {entries : List Entry},
      parseUnnamed contentKeySize hashSpan deltas i fileDataID = .ok entries →
      entries.map Entry.fileDataID = fileDataIDs fileDataID deltas := by
  induction deltas with
  | nil =>
      intro i fileDataID entries h
      cases h
      rfl
  | cons delta deltas ih =>
      intro i fileDataID entries h
      obtain ⟨key, -, h⟩ := Exec.bind_eq_ok.mp h
      obtain ⟨rest, hrest, h⟩ := Exec.bind_eq_ok.mp h
      cases h
      rw [List.map_cons, ih hrest, fileDataIDs]

/-- The IDs of a block are the sums of the differences in its page. -/
theorem parseBlock_fileDataIDs {page : PageInfo} {interleave canSkip : Bool} {block : Block}
    (h : parseBlock page contentKeySize interleave canSkip = .ok block) :
    4 * page.numRecords ≤ page.data.size ∧
      block.entries.map Entry.fileDataID =
        fileDataIDs (-1) (uint32s page.numRecords page.data.bytes) := by
  obtain ⟨view, hview, h⟩ := Exec.bind_eq_ok.mp h
  obtain ⟨deltas, hdeltas, h⟩ := Exec.bind_eq_ok.mp h
  have hids : block.entries.map Entry.fileDataID = fileDataIDs (-1) deltas := by
    cases interleave with
    | true =>
        obtain ⟨entries, hentries, h⟩ := Exec.bind_eq_ok.mp h
        cases h
        exact parseInterleaved_fileDataIDs _ hentries
    | false =>
        obtain ⟨rest, -, h⟩ := Exec.bind_eq_ok.mp h
        obtain ⟨keys, -, h⟩ := Exec.bind_eq_ok.mp h
        dsimp only at h
        split at h
        · obtain ⟨entries, hentries, h⟩ := Exec.bind_eq_ok.mp h
          cases h
          exact parseNamed_fileDataIDs _ hentries
        · obtain ⟨entries, hentries, h⟩ := Exec.bind_eq_ok.mp h
          cases h
          exact parseUnnamed_fileDataIDs _ hentries
  obtain ⟨whole, hwhole, hmem, hsize⟩ :=
    SpanStream.view_eq (s := SpanStream.ofSpan page.data) (Nat.zero_le _)
  rw [hwhole] at hview
  cases hview
  have heq : view = page.data := Span.ext' hmem hsize
  rw [heq, dataUInt32] at hdeltas
  split at hdeltas
  · next hle =>
      cases hdeltas
      exact ⟨by omega, hids⟩
  · cases hdeltas

end Blocks

/-! ## Pages -/

/-- The differences that lie behind the page header at offset `o`. -/
def deltasAt (bytes : Bytes) (o : Nat) : List UInt32 :=
  uint32s (numRecordsAt bytes o) (bytes.drop (o + 12))

/-- A page of the file begins at offset `o`. -/
def PageStart (contentKeySize : Nat) (bytes : Bytes) (o : Nat) : Prop :=
  o < bytes.length ∧
    ∃ pages, Tiles (pageLength contentKeySize) (layoutOf bytes) bytes (layoutOf bytes).start pages o

/-- Integers are read from the front. -/
theorem uint32s_take (count : Nat) :
    ∀ {n : Nat} {bytes : Bytes}, 4 * count ≤ n →
      uint32s count (bytes.take n) = uint32s count bytes := by
  induction count with
  | zero => exact fun _ => rfl
  | succ count ih =>
      intro n bytes hn
      have hle : min 4 n = 4 := by omega
      rw [uint32s, uint32s, List.take_take, hle, List.drop_take, ih (by omega)]

section Pages

variable {contentKeySize : Nat} {length : Nat → Bool → Nat} {layout : FileLayout} {bytes : Bytes}

/-- The IDs of the block of a page increase exactly when its differences stay
below `2 ^ 32`. -/
theorem PageAt.isChain_iff {o : Nat} {page : PageInfo} {interleave canSkip : Bool} {block : Block}
    (hpage : PageAt length layout bytes o page)
    (h : parseBlock page contentKeySize interleave canSkip = .ok block) :
    (block.entries.IsChain fun entry next => entry.fileDataID < next.fileDataID) ↔
      span (deltasAt bytes o) ≤ 2 ^ 32 := by
  obtain ⟨hsize, hids⟩ := parseBlock_fileDataIDs h
  have hdeltas : uint32s page.numRecords page.data.bytes = deltasAt bytes o := by
    rw [Span.bytes, uint32s_take _ hsize, hpage.mem_eq, hpage.numRecords_eq, deltasAt]
  rw [← isChain_fileDataIDs, ← hdeltas, ← hids, List.isChain_map]

/-- Each page has its block, and each block its page. -/
theorem parseBlocks_mem {interleave canSkip : Bool} (pages : List PageInfo) :
    ∀ {blocks : List Block}, parseBlocks contentKeySize interleave canSkip pages = .ok blocks →
      (∀ page ∈ pages, ∃ block ∈ blocks,
        parseBlock page contentKeySize interleave canSkip = .ok block) ∧
      ∀ block ∈ blocks, ∃ page ∈ pages,
        parseBlock page contentKeySize interleave canSkip = .ok block := by
  induction pages with
  | nil =>
      intro blocks h
      cases h
      simp
  | cons page pages ih =>
      intro blocks h
      obtain ⟨block, hblock, h⟩ := Exec.bind_eq_ok.mp h
      obtain ⟨rest, hrest, h⟩ := Exec.bind_eq_ok.mp h
      cases h
      obtain ⟨hpages, hblocks⟩ := ih hrest
      constructor
      · refine List.forall_mem_cons.mpr ⟨⟨block, List.mem_cons_self, hblock⟩, fun p hp => ?_⟩
        obtain ⟨b, hb, hparse⟩ := hpages p hp
        exact ⟨b, List.mem_cons_of_mem _ hb, hparse⟩
      · refine List.forall_mem_cons.mpr ⟨⟨page, List.mem_cons_self, hblock⟩, fun b hb => ?_⟩
        obtain ⟨p, hp, hparse⟩ := hblocks b hb
        exact ⟨p, List.mem_cons_of_mem _ hp, hparse⟩

end Pages

/-- A root that was parsed is ordered exactly when, in every page of the file,
the differences and their count add up to at most `2 ^ 32`. -/
theorem parse_ordered_iff {σ : Type} [IReadableStream σ] [LawfulReadable σ] {stream : σ}
    {bytes : Bytes} {contentKeySize : Nat} {root : Root} (hs : Rep stream bytes 0)
    (h : parse stream contentKeySize = .ok (some root)) :
    root.Ordered ↔
      ∀ o, PageStart contentKeySize bytes o → span (deltasAt bytes o) ≤ 2 ^ 32 := by
  obtain ⟨pages, htiles, hblocks⟩ := parse_tiles hs h
  obtain ⟨hofPage, hofBlock⟩ := parseBlocks_mem pages hblocks
  constructor
  · intro hordered o hstart
    obtain ⟨hlt, pages', hpages'⟩ := hstart
    obtain ⟨page, hpage, hat⟩ := htiles.exists_page hpages' hlt
    obtain ⟨block, hblock, hparse⟩ := hofPage page hpage
    exact (hat.isChain_iff hparse).mp (hordered block hblock)
  · intro hspan block hblock
    obtain ⟨page, hpage, hparse⟩ := hofBlock block hblock
    obtain ⟨pages', o, hpages', hat⟩ := htiles.exists_start hpage
    have hlt : o < bytes.length := by
      have := hat.inside
      omega
    exact (hat.isChain_iff hparse).mpr (hspan o ⟨hlt, pages', hpages'⟩)

/-- Two records without name hashes. -/
def orderedSample : Buffer where
  bytes := leBytes 4 tsfmMagic ++ leBytes 4 2 ++ leBytes 4 1 ++
    leBytes 4 2 ++ leBytes 4 0x10000000 ++ leBytes 4 2 ++
    leBytes 4 5 ++ leBytes 4 2 ++ [0xAA, 0xBB]
  fits := by decide

/-- They get the IDs 5 and 8. -/
theorem parse_ordered_sample :
    Ordered ⟨[⟨0x10000000, 2, [⟨[0xAA], 5, 0⟩, ⟨[0xBB], 8, 0⟩]⟩]⟩ ↔
      ∀ o, PageStart 1 orderedSample.bytes o → span (deltasAt orderedSample.bytes o) ≤ 2 ^ 32 :=
  parse_ordered_iff (GrowableMemoryStream.ofBuffer_rep orderedSample) (by decide)

/-- Two records without name hashes.  The difference of the second wraps. -/
def wrapSample : Buffer where
  bytes := leBytes 4 tsfmMagic ++ leBytes 4 2 ++ leBytes 4 1 ++
    leBytes 4 2 ++ leBytes 4 0x10000000 ++ leBytes 4 2 ++
    leBytes 4 5 ++ leBytes 4 0xFFFFFFFF ++ [0xAA, 0xBB]
  fits := by decide

/-- Both records get ID 5. -/
theorem parse_ordered_wrong :
    ∃ root, parse (GrowableMemoryStream.ofBuffer wrapSample) 1 = .ok (some root) ∧
      ¬ root.Ordered := by
  refine ⟨⟨[⟨0x10000000, 2, [⟨[0xAA], 5, 0⟩, ⟨[0xBB], 5, 0⟩]⟩]⟩, by decide, fun h => ?_⟩
  have hchain := h _ List.mem_cons_self
  exact absurd hchain (by decide)

end Root

end Wow

end Tactmon
