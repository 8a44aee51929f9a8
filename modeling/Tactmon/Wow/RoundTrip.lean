import Mathlib.Algebra.Order.BigOperators.Group.List
import Tactmon.Wow.Layout
import Tactmon.Wow.Pages

/-!
# Reading a root back

`readPages_blocks` cuts a serialised root into the pages of its blocks, and
`PageOf.parseBlock_iff` says when a page gives its block back.  Name hashes are
read through a `SpanStream`, eight bytes too late, so each record gets the hash
of the next one and the last record gets the first eight bytes of the next
page.  A root with a file header is read back exactly when that makes no
difference (`parse_manifest_iff`).

The interleaved layout has no file header.  The four bytes that are read as the
magic are already the record count of the first block, so the pages start four
bytes late.  Pages tile what is left of the stream (`readPages_ok`), and no
blocks of the right sizes do (`parse_interleaved_ne`).
-/

namespace Tactmon

namespace Wow

namespace Root

open Binary Cxx CursorReadable LawfulReadable

section Pages

variable {σ : Type} [IReadableStream σ] [LawfulReadable σ] {contentKeySize : Nat} {canSkip : Bool}

/-! ## Pages -/

/-- The pages of the blocks, in order. -/
def pageBytes (canSkip : Bool) (blocks : List Block) : Bytes :=
  blocks.flatMap fun block => block.header ++ block.body canSkip

@[simp] theorem pageBytes_cons (block : Block) (blocks : List Block) :
    pageBytes canSkip (block :: blocks) =
      block.header ++ block.body canSkip ++ pageBytes canSkip blocks := List.flatMap_cons

/-- The length computed from a page header, when nothing wraps. -/
theorem pageLength_of_lt {n : Nat} {named : Bool}
    (hlt : 4 * n + contentKeySize * n + (if named then 8 * n else 0) < sizeMax) :
    pageLength contentKeySize n named =
      4 * n + contentKeySize * n + if named then 8 * n else 0 := by
  have hle : sizeWrap (4 * n + contentKeySize * n) = 4 * n + contentKeySize * n :=
    sizeWrap_of_lt (by omega)
  cases named with
  | false => exact hle
  | true =>
      change sizeWrap (sizeWrap (4 * n + contentKeySize * n) + 8 * n) = _
      rw [hle]
      exact sizeWrap_of_lt hlt

/-- One turn of the page loop cuts the page of the next block. -/
theorem readPage_block {block : Block} {stream : σ} {d rest : Bytes}
    (hfits : block.Fits contentKeySize)
    (h : Unread stream d (block.header ++ block.body canSkip ++ rest)) :
    ∃ data stream', readPage contentKeySize false canSkip stream =
        .ok (some (block.page data, stream')) ∧
      Unread stream' d rest ∧ PageOf contentKeySize canSkip block rest data := by
  have hcan : canRead stream 12 = true := by
    refine (h.canRead_iff (by decide)).mpr ?_
    rw [List.length_append, List.length_append, Block.header_length]
    omega
  rw [Block.header, List.append_assoc, List.append_assoc, List.append_assoc] at h
  obtain ⟨s₁, hr₁, h₁⟩ := readInt_leBytes hfits.count_lt h
  obtain ⟨s₂, hr₂, h₂⟩ := readInt_leBytes block.content.toNat_lt h₁
  obtain ⟨s₃, hr₃, h₃⟩ := readInt_leBytes block.locales.toNat_lt h₂
  have hlt : (block.body canSkip ++ rest).length < 2 ^ 63 := by
    obtain ⟨c, hs, hlen, -⟩ := h₃
    have := fits hs
    omega
  have happ : (block.body canSkip ++ rest).length = (block.body canSkip).length + rest.length :=
    List.length_append
  have hbody : (block.body canSkip).length = _ := Block.body_length hfits
  have hlength : pageLength contentKeySize block.entries.length
      (false || hasNameHashes canSkip block.content) = (block.body canSkip).length := by
    rw [Bool.false_or, hbody]
    refine pageLength_of_lt ?_
    rw [← hbody]
    exact lt_sizeMax (by omega)
  have hcan' : canRead s₃ (block.body canSkip).length = true :=
    (h₃.canRead_iff (by omega)).mpr (by omega)
  obtain ⟨view, hview, hvmem, hvsize⟩ := h₃.data
  obtain ⟨data, hdata, hmem, hsize⟩ :=
    Span.subspan_of_le (by omega : 0 + (block.body canSkip).length ≤ view.size)
  refine ⟨data, skipRead s₃ (block.body canSkip).length, ?_, h₃.skipRead, hfits, hsize, ?_, ?_⟩
  · rw [readPage, hcan, Bool.not_true, if_neg Bool.false_ne_true]
    simp only [hr₁, hr₂, hr₃, Exec.ok_bind, UInt32.ofNat_toNat, hlength, hcan', hview, hdata,
      Bool.not_true, if_neg Bool.false_ne_true]
    rfl
  · rw [hmem, List.drop_zero, hvmem]
  · rw [hsize]
    omega

/-- The pages that were cut are the pages of the blocks. -/
inductive Cut (contentKeySize : Nat) (canSkip : Bool) : List Block → List PageInfo → Prop
  | nil : Cut contentKeySize canSkip [] []
  | cons {block : Block} {blocks : List Block} {data : Span} {pages : List PageInfo} :
      PageOf contentKeySize canSkip block (pageBytes canSkip blocks) data →
      Cut contentKeySize canSkip blocks pages →
      Cut contentKeySize canSkip (block :: blocks) (block.page data :: pages)

/-- The page loop cuts the pages of the blocks. -/
theorem readPages_blocks {d : Bytes} (blocks : List Block) :
    ∀ {fuel : Nat} {stream : σ}, (∀ block ∈ blocks, block.Fits contentKeySize) →
      Unread stream d (pageBytes canSkip blocks) → blocks.length ≤ fuel →
      ∃ pages, readPages contentKeySize false canSkip fuel stream = .ok (some pages) ∧
        Cut contentKeySize canSkip blocks pages := by
  induction blocks with
  | nil =>
      intro fuel stream _ h _
      have hend : ¬ getReadCursor stream < getLength stream := fun hlt =>
        h.cursor_lt_iff.mp hlt rfl
      refine ⟨[], ?_, .nil⟩
      cases fuel with
      | zero => rw [readPages, if_neg hend]
      | succ fuel => rw [readPages, if_neg hend]
  | cons block blocks ih =>
      intro fuel stream hfits h hfuel
      have hmore : getReadCursor stream < getLength stream := by
        refine h.cursor_lt_iff.mpr fun hnil => ?_
        have hlen := congrArg List.length hnil
        rw [pageBytes_cons, List.length_append, List.length_append, Block.header_length] at hlen
        simp only [List.length_nil] at hlen
        omega
      rw [pageBytes_cons] at h
      obtain ⟨data, stream', hpage, hrest, hcut⟩ :=
        readPage_block (hfits block List.mem_cons_self) h
      cases fuel with
      | zero => exact absurd hfuel (by rw [List.length_cons]; omega)
      | succ fuel =>
          obtain ⟨pages, hpages, hcuts⟩ := ih (fun b hb => hfits b (List.mem_cons_of_mem _ hb))
            hrest (Nat.le_of_succ_le_succ hfuel)
          refine ⟨block.page data :: pages, ?_, .cons hcut hcuts⟩
          rw [readPages, if_pos hmore, hpage, Exec.ok_bind]
          dsimp only
          rw [hpages, Exec.ok_bind]

/-! ## Blocks -/

/-- The first eight bytes of the page of a block. -/
def Block.lead (block : Block) : UInt64 :=
  .ofNat (block.entries.length + 2 ^ 32 * block.content.toNat)

/-- When the block has name hashes, all of them are the first eight bytes of
the page of the next block. -/
def Block.Aligned (canSkip : Bool) (block : Block) (blocks : List Block) : Prop :=
  hasNameHashes canSkip block.content = true →
    ∀ entry ∈ block.entries, ∃ next ∈ blocks.head?, entry.nameHash = next.lead

instance (canSkip : Bool) (block : Block) (blocks : List Block) :
    Decidable (block.Aligned canSkip blocks) :=
  inferInstanceAs (Decidable (hasNameHashes canSkip block.content = true →
    ∀ entry ∈ block.entries, ∃ next ∈ blocks.head?, entry.nameHash = next.lead))

/-- Every block is aligned with the next. -/
def Aligned (canSkip : Bool) : List Block → Prop
  | [] => True
  | block :: blocks => block.Aligned canSkip blocks ∧ Aligned canSkip blocks

instance Aligned.decidable (canSkip : Bool) :
    ∀ blocks : List Block, Decidable (Aligned canSkip blocks)
  | [] => inferInstanceAs (Decidable True)
  | block :: blocks =>
      have : Decidable (Aligned canSkip blocks) := Aligned.decidable canSkip blocks
      inferInstanceAs (Decidable (block.Aligned canSkip blocks ∧ Aligned canSkip blocks))

/-- What a `SpanStream` reads behind the page of a block. -/
theorem lead_of_pageBytes (canSkip : Bool) {next : Block} (blocks : List Block)
    (hcount : next.entries.length < 2 ^ 32) :
    8 ≤ (pageBytes canSkip (next :: blocks)).length ∧
      UInt64.ofNat (leNat ((pageBytes canSkip (next :: blocks)).take 8)) = next.lead := by
  have htake : (pageBytes canSkip (next :: blocks)).take 8 =
      leBytes 4 next.entries.length ++ leBytes 4 next.content.toNat := by
    have hlen : (leBytes 4 next.entries.length ++ leBytes 4 next.content.toNat).length = 8 := by
      rw [List.length_append, leBytes_length, leBytes_length]
    rw [pageBytes_cons, Block.header]
    simp only [← List.append_assoc]
    rw [List.append_assoc, List.append_assoc, List.take_left' hlen]
  constructor
  · rw [pageBytes_cons, List.length_append, List.length_append, Block.header_length]
    omega
  · rw [htake, leNat_append, leBytes_length, leNat_leBytes_of_lt hcount,
      leNat_leBytes_of_lt next.content.toNat_lt]
    rfl

/-- A block is read back exactly when it is aligned with the next. -/
theorem PageOf.parseBlock_iff {block : Block} {blocks : List Block} {data : Span}
    (hfits : ∀ next ∈ blocks.head?, next.entries.length < 2 ^ 32)
    (h : PageOf contentKeySize canSkip block (pageBytes canSkip blocks) data) :
    parseBlock (block.page data) contentKeySize false canSkip = .ok (block.stored canSkip) ↔
      block.Aligned canSkip blocks := by
  cases hnamed : hasNameHashes canSkip block.content with
  | false =>
      refine iff_of_true (h.parseBlock_unnamed hnamed) fun htrue => ?_
      rw [hnamed] at htrue
      cases htrue
  | true =>
      have hstored : block.stored canSkip = block := by rw [Block.stored, if_pos hnamed]
      have hiff : ∀ entries : List Entry, ({ block with entries } : Block) = block ↔
          entries = block.entries := fun entries => by
        cases block
        simp
      rw [Block.Aligned, hnamed, hstored]
      cases blocks with
      | nil =>
          by_cases hne : block.entries = []
          · have hparse := h.parseBlock_named hnamed fun h => absurd hne h
            rw [hparse, Except.ok.injEq, hiff, hne]
            simp [shiftHashes]
          · rw [h.parseBlock_error hnamed (Nat.zero_lt_succ _) hne]
            refine iff_of_false (fun hok => by cases hok) fun hall => ?_
            obtain ⟨entry, hentry⟩ := List.exists_mem_of_ne_nil _ hne
            obtain ⟨next, hnext, -⟩ := hall rfl entry hentry
            cases hnext
      | cons next blocks =>
          obtain ⟨hlen, hlead⟩ := lead_of_pageBytes canSkip blocks (hfits next rfl)
          rw [h.parseBlock_named hnamed fun _ => hlen, hlead, Except.ok.injEq, hiff,
            shiftHashes_eq_iff]
          simp

/-- The blocks are read back exactly when every block is aligned with the next. -/
theorem parseBlocks_iff {blocks : List Block} {pages : List PageInfo}
    (h : Cut contentKeySize canSkip blocks pages) :
    parseBlocks contentKeySize false canSkip pages =
        .ok (blocks.map (Block.stored canSkip)) ↔ Aligned canSkip blocks := by
  induction h with
  | nil => simp [parseBlocks, Aligned]
  | @cons block blocks data pages hpage hcut ih =>
      have hfits : ∀ next ∈ blocks.head?, next.entries.length < 2 ^ 32 := by
        cases hcut with
        | nil => exact fun next hnext => nomatch hnext
        | cons hnext _ =>
            intro next hhead
            cases hhead
            exact hnext.fits.count_lt
      rw [Aligned, ← hpage.parseBlock_iff hfits, ← ih, parseBlocks, List.map_cons]
      cases hblock : parseBlock (block.page data) contentKeySize false canSkip with
      | error f => simp
      | ok b =>
          cases parseBlocks contentKeySize false canSkip pages with
          | error f => simp
          | ok bs => simp

theorem length_le_pageBytes (canSkip : Bool) (blocks : List Block) :
    blocks.length ≤ (pageBytes canSkip blocks).length := by
  induction blocks with
  | nil => exact Nat.zero_le _
  | cons block blocks ih =>
      rw [pageBytes_cons, List.length_append, List.length_append, Block.header_length,
        List.length_cons]
      omega

end Pages

/-! ## The layout with a file header -/

section Tsfm

variable {σ : Type} [IReadableStream σ] [LawfulReadable σ] {contentKeySize : Nat}

/-- A root in the layout with a file header. -/
structure Manifest (contentKeySize : Nat) where
  totalFileCount : UInt32
  namedFileCount : UInt32
  blocks : List Block
  fits : ∀ block ∈ blocks, block.Fits contentKeySize

namespace Manifest

/-- Name hashes may be left out. -/
def canSkip (m : Manifest contentKeySize) : Bool := m.totalFileCount ≠ m.namedFileCount

/-- The serialised root. -/
def bytes (m : Manifest contentKeySize) : Bytes :=
  leBytes 4 tsfmMagic ++ (leBytes 4 m.totalFileCount.toNat ++
    (leBytes 4 m.namedFileCount.toNat ++ pageBytes m.canSkip m.blocks))

/-- The root that was serialised. -/
def root (m : Manifest contentKeySize) : Root := ⟨m.blocks.map (Block.stored m.canSkip)⟩

end Manifest

/-- The layout of a serialised root. -/
theorem Manifest.layoutOf_bytes (m : Manifest contentKeySize) :
    layoutOf m.bytes = ⟨false, m.canSkip, 12⟩ := by
  have hmagic : window m.bytes 0 4 = leBytes 4 tsfmMagic := by
    rw [window, List.drop_zero, bytes, List.take_left' (leBytes_length 4 _)]
  have htotal : window m.bytes 4 4 = leBytes 4 m.totalFileCount.toNat := by
    rw [window, bytes, List.drop_left' (leBytes_length 4 _), List.take_left' (leBytes_length 4 _)]
  have hnamed : window m.bytes 8 4 = leBytes 4 m.namedFileCount.toNat := by
    rw [window, ← List.drop_drop (i := 4) (j := 4), bytes, List.drop_left' (leBytes_length 4 _),
      List.drop_left' (leBytes_length 4 _), List.take_left' (leBytes_length 4 _)]
  have hskip : decide (m.totalFileCount.toNat ≠ m.namedFileCount.toNat) = m.canSkip :=
    decide_eq_decide.mpr (not_congr UInt32.toNat_inj)
  rw [layoutOf_pos (by rw [hmagic, leNat_leBytes_of_lt (by decide)]), htotal, hnamed,
    leNat_leBytes_of_lt m.totalFileCount.toNat_lt, leNat_leBytes_of_lt m.namedFileCount.toNat_lt,
    hskip]

/-- The file header leads to the page loop, behind it. -/
theorem parse_manifest_header (m : Manifest contentKeySize) {stream : σ}
    (h : Rep stream m.bytes 0) :
    ∃ stream' : σ, parse stream contentKeySize =
        parsePages contentKeySize false m.canSkip stream' ∧
      Unread stream' m.bytes (pageBytes m.canSkip m.blocks) := by
  have h₀ : Unread stream m.bytes m.bytes := Unread.of_rep h
  have hcan : canRead stream 4 = true := by
    refine (h₀.canRead_iff (by decide)).mpr ?_
    rw [Manifest.bytes, List.length_append, leBytes_length]
    omega
  have hsplit : Unread stream m.bytes (leBytes 4 tsfmMagic ++ (leBytes 4 m.totalFileCount.toNat ++
      (leBytes 4 m.namedFileCount.toNat ++ pageBytes m.canSkip m.blocks))) := h₀
  obtain ⟨s₁, hr₁, h₁⟩ := readInt_leBytes (by decide) hsplit
  have hcan₁ : canRead s₁ 8 = true := by
    refine (h₁.canRead_iff (by decide)).mpr ?_
    rw [List.length_append, List.length_append, leBytes_length, leBytes_length]
    omega
  obtain ⟨s₂, hr₂, h₂⟩ := readInt_leBytes m.totalFileCount.toNat_lt h₁
  obtain ⟨s₃, hr₃, h₃⟩ := readInt_leBytes m.namedFileCount.toNat_lt h₂
  have hskip : decide (m.totalFileCount.toNat ≠ m.namedFileCount.toNat) = m.canSkip :=
    decide_eq_decide.mpr (not_congr UInt32.toNat_inj)
  refine ⟨s₃, ?_, h₃⟩
  rw [parse, hcan, Bool.not_true, if_neg Bool.false_ne_true, hr₁, Exec.ok_bind]
  dsimp only
  rw [if_pos rfl, hcan₁, Bool.not_true, if_neg Bool.false_ne_true, hr₂, Exec.ok_bind]
  dsimp only
  rw [hr₃, Exec.ok_bind]
  dsimp only
  rw [hskip]

/-- A serialised root is read back exactly when every block that has name
hashes is aligned with the next. -/
theorem parse_manifest_iff (m : Manifest contentKeySize) {stream : σ}
    (h : Rep stream m.bytes 0) :
    parse stream contentKeySize = .ok (some m.root) ↔ Aligned m.canSkip m.blocks := by
  obtain ⟨stream', hparse, hrest⟩ := parse_manifest_header m h
  have hfuel : m.blocks.length ≤ getLength stream' := by
    obtain ⟨c, hs, hlen, -⟩ := hrest
    have := length_le_pageBytes m.canSkip m.blocks
    rw [getLength_eq hs]
    omega
  obtain ⟨pages, hpages, hcut⟩ := readPages_blocks m.blocks m.fits hrest hfuel
  rw [hparse, parsePages, hpages, Exec.ok_bind, ← parseBlocks_iff hcut, Manifest.root]
  dsimp only
  cases parseBlocks contentKeySize false m.canSkip pages with
  | error f => simp
  | ok blocks => simp

end Tsfm

/-- One block with a record, and one without. -/
def Manifest.sample (totalFileCount : UInt32) (content : UInt32) (nameHash : UInt64) :
    Manifest 1 where
  totalFileCount := totalFileCount
  namedFileCount := 1
  blocks := [⟨content, 2, [⟨[0xAA], 5, nameHash⟩]⟩, ⟨0, 2, []⟩]
  fits := by
    intro block hblock
    rcases List.mem_cons.mp hblock with rfl | hblock
    · exact ⟨by simp, by simp⟩
    · cases List.mem_singleton.mp hblock
      exact ⟨by simp, by simp⟩

/-- A root whose only record has no name hash is read back. -/
theorem parse_manifest_sample :
    parse (GrowableMemoryStream.ofBuffer ⟨(Manifest.sample 2 noNameHash 0).bytes, by decide⟩) 1 =
      .ok (some (Manifest.sample 2 noNameHash 0).root) :=
  (parse_manifest_iff (Manifest.sample 2 noNameHash 0) (GrowableMemoryStream.ofBuffer_rep _)).mpr
    (by decide)

/-- The name hash 7 is read back as the first eight bytes of the next page. -/
theorem parse_manifest_wrong :
    parse (GrowableMemoryStream.ofBuffer ⟨(Manifest.sample 1 0 7).bytes, by decide⟩) 1 =
        .ok (some ⟨[⟨0, 2, [⟨[0xAA], 5, 0⟩]⟩, ⟨0, 2, []⟩]⟩) ∧
      parse (GrowableMemoryStream.ofBuffer ⟨(Manifest.sample 1 0 7).bytes, by decide⟩) 1 ≠
        .ok (some (Manifest.sample 1 0 7).root) := by
  decide

/-! ## The interleaved layout -/

section Interleaved

variable {σ : Type} [IReadableStream σ] [LawfulReadable σ] {contentKeySize : Nat}
  {interleave canSkip : Bool}

/-- The pages of the blocks in the interleaved layout, which has no file header. -/
def interleavedBytes (blocks : List Block) : Bytes :=
  blocks.flatMap fun block => block.header ++ block.interleavedBody

/-- The length of a page with `n` interleaved records. -/
def interleavedLength (contentKeySize n : Nat) : Nat := 12 + (4 * n + contentKeySize * n + 8 * n)

theorem interleavedBytes_length {blocks : List Block}
    (hfits : ∀ block ∈ blocks, block.Fits contentKeySize) :
    (interleavedBytes blocks).length =
      ((blocks.map fun block => block.entries.length).map
        (interleavedLength contentKeySize)).sum := by
  induction blocks with
  | nil => rfl
  | cons block blocks ih =>
      have hkeys := (hfits block List.mem_cons_self).keys_length
      have hrest := ih fun b hb => hfits b (List.mem_cons_of_mem _ hb)
      rw [interleavedBytes] at hrest
      rw [interleavedBytes, List.flatMap_cons, List.length_append, hrest, List.map_cons,
        List.map_cons, List.sum_cons, List.length_append, Block.header_length,
        Block.interleavedBody, List.length_append, uint32Bytes_length, Block.deltas,
        idDeltas_length, recordBytes_length hkeys, interleavedLength]
      omega

/-- The pages that were cut tile the rest of the stream. -/
theorem readPages_ok {d : Bytes} {fuel : Nat} {stream : σ} {c : Nat} {pages : List PageInfo}
    (hs : Rep stream d c) (hc : c ≤ d.length)
    (h : readPages contentKeySize interleave canSkip fuel stream = .ok (some pages)) :
    c + (pages.map fun page => 12 + page.data.size).sum = d.length ∧
      ∀ page ∈ pages, page.data.size = pageLength contentKeySize page.numRecords
        (interleave || hasNameHashes canSkip page.contentFlags) := by
  have htiles : Tiles (pageLength contentKeySize) ⟨interleave, canSkip, c⟩ d c pages d.length :=
    dispatchPages_ok fuel hs hc (readPages_eq_some.mp h)
  exact ⟨htiles.sum_eq, htiles.size_eq⟩

@[simp] theorem uint32s_length (count : Nat) :
    ∀ bytes : Bytes, (uint32s count bytes).length = count := by
  induction count with
  | zero => exact fun _ => rfl
  | succ count ih =>
      intro bytes
      rw [uint32s, List.length_cons, ih]

/-- One entry for each difference. -/
theorem parseInterleaved_length (deltas : List UInt32) :
    ∀ {fileDataID : UInt32} {stream : SpanStream} {entries : List Entry},
      parseInterleaved contentKeySize deltas fileDataID stream = .ok entries →
      entries.length = deltas.length := by
  induction deltas with
  | nil =>
      intro fileDataID stream entries h
      cases h
      rfl
  | cons delta deltas ih =>
      intro fileDataID stream entries h
      obtain ⟨view, -, h⟩ := Exec.bind_eq_ok.mp h
      obtain ⟨hashSpan, -, h⟩ := Exec.bind_eq_ok.mp h
      obtain ⟨r, -, h⟩ := Exec.bind_eq_ok.mp h
      obtain ⟨rest, hrest, h⟩ := Exec.bind_eq_ok.mp h
      cases h
      rw [List.length_cons, ih hrest, List.length_cons]

/-- A block has as many entries as its page has records. -/
theorem parseBlock_length {page : PageInfo} {block : Block}
    (h : parseBlock page contentKeySize true canSkip = .ok block) :
    block.entries.length = page.numRecords := by
  obtain ⟨view, -, h⟩ := Exec.bind_eq_ok.mp h
  obtain ⟨fileDataIDs, hids, h⟩ := Exec.bind_eq_ok.mp h
  obtain ⟨entries, hentries, h⟩ := Exec.bind_eq_ok.mp h
  cases h
  rw [dataUInt32] at hids
  split at hids
  · cases hids
    rw [parseInterleaved_length _ hentries, uint32s_length]
  · cases hids

theorem parseBlocks_length (pages : List PageInfo) :
    ∀ {blocks : List Block}, parseBlocks contentKeySize true canSkip pages = .ok blocks →
      (blocks.map fun block => block.entries.length) = pages.map PageInfo.numRecords := by
  induction pages with
  | nil =>
      intro blocks h
      cases h
      rfl
  | cons page pages ih =>
      intro blocks h
      obtain ⟨block, hblock, h⟩ := Exec.bind_eq_ok.mp h
      obtain ⟨rest, hrest, h⟩ := Exec.bind_eq_ok.mp h
      cases h
      rw [List.map_cons, parseBlock_length hblock, ih hrest, List.map_cons]

/-- An interleaved root begins with the record count of its first block. -/
theorem window_interleavedBytes {block : Block} (blocks : List Block)
    (hcount : block.entries.length < 2 ^ 32) :
    leNat (window (interleavedBytes (block :: blocks)) 0 4) = block.entries.length := by
  have hwindow : window (interleavedBytes (block :: blocks)) 0 4 =
      leBytes 4 block.entries.length := by
    rw [interleavedBytes, List.flatMap_cons, Block.header, window, List.drop_zero]
    simp only [List.append_assoc]
    rw [List.take_left' (leBytes_length 4 _)]
  rw [hwindow, leNat_leBytes_of_lt hcount]

/-- Pages with the record counts of the blocks of an interleaved root have the
lengths of its pages. -/
theorem lengths_of_counts {blocks : List Block} {pages : List PageInfo}
    (hfits : ∀ block ∈ blocks, block.Fits contentKeySize)
    (hlt : (interleavedBytes blocks).length < 2 ^ 63)
    (hcounts : (blocks.map fun block => block.entries.length) = pages.map PageInfo.numRecords)
    (hsizes : ∀ page ∈ pages, page.data.size = pageLength contentKeySize page.numRecords true) :
    (pages.map fun page => 12 + page.data.size).sum = (interleavedBytes blocks).length := by
  rw [interleavedBytes_length hfits, hcounts] at hlt ⊢
  rw [List.map_map] at hlt ⊢
  refine congrArg List.sum (List.map_congr_left fun page hpage => ?_)
  have hle := List.le_sum_of_mem (List.mem_map_of_mem (f := interleavedLength contentKeySize ∘
    PageInfo.numRecords) hpage)
  rw [Function.comp_apply, interleavedLength] at hle
  rw [hsizes page hpage, Function.comp_apply, interleavedLength, pageLength_of_lt, if_pos rfl]
  rw [if_pos rfl]
  exact lt_sizeMax (by omega)

/-- A root in the interleaved layout is never read back: the first record count
is consumed as the magic of the other layout. -/
theorem parse_interleaved_ne {blocks : List Block} {stream : σ}
    (hfits : ∀ block ∈ blocks, block.Fits contentKeySize)
    (hmagic : ∀ block ∈ blocks.head?, block.entries.length ≠ tsfmMagic)
    (hs : Rep stream (interleavedBytes blocks) 0) :
    parse stream contentKeySize ≠ .ok (some ⟨blocks⟩) := by
  intro h
  have hfit := fits hs
  rw [parse] at h
  cases hcan : canRead stream 4 with
  | false =>
      rw [hcan] at h
      cases h
  | true =>
      have h4 := (CursorReadable.canRead_iff hs (by decide)).mp hcan
      obtain ⟨s₁, hr₁, hs₁⟩ := readInt_little hs h4
      have hne : leNat (window (interleavedBytes blocks) 0 4) ≠ tsfmMagic := by
        cases blocks with
        | nil => exact absurd h4 (by decide)
        | cons block blocks =>
            rw [window_interleavedBytes blocks (hfits block List.mem_cons_self).count_lt]
            exact hmagic block rfl
      rw [hcan, Bool.not_true, if_neg Bool.false_ne_true, hr₁, Exec.ok_bind] at h
      dsimp only at h
      rw [if_neg hne, parsePages] at h
      obtain ⟨pages, hpages, h⟩ := Exec.bind_eq_ok.mp h
      cases pages with
      | none => cases h
      | some pages =>
          obtain ⟨parsed, hparsed, h⟩ := Exec.bind_eq_ok.mp h
          cases h
          obtain ⟨hsum, hsizes⟩ := readPages_ok hs₁ h4 hpages
          have hlengths := lengths_of_counts hfits hfit (parseBlocks_length _ hparsed) hsizes
          omega

end Interleaved

/-- One block with one record. -/
def interleavedSample : List Block := [⟨0, 2, [⟨[0xAA], 5, 7⟩]⟩]

theorem interleavedSample_fits : ∀ block ∈ interleavedSample, block.Fits 1 := by
  intro block hblock
  cases List.mem_singleton.mp hblock
  exact ⟨by simp, by simp⟩

/-- The sample in memory. -/
def interleavedBuffer : Buffer := ⟨interleavedBytes interleavedSample, by decide⟩

theorem parse_interleaved_ne_sample :
    parse (GrowableMemoryStream.ofBuffer interleavedBuffer) 1 ≠ .ok (some ⟨interleavedSample⟩) :=
  parse_interleaved_ne interleavedSample_fits (by decide)
    (GrowableMemoryStream.ofBuffer_rep interleavedBuffer)

/-- Read from its second field on, the sample is taken for a page without
records and a page that is cut off. -/
theorem parse_interleaved_wrong :
    parse (GrowableMemoryStream.ofBuffer interleavedBuffer) 1 = .ok none ∧
      parse (GrowableMemoryStream.ofBuffer interleavedBuffer) 1 ≠
        .ok (some ⟨interleavedSample⟩) := by
  decide

end Root

end Wow

end Tactmon
