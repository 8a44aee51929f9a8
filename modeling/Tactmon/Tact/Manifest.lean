import Mathlib.Data.List.Find
import Tactmon.Io.MemoryStream
import Tactmon.Tact.Encoding

/-!
# Reading an encoding manifest back

The bytes of a manifest, and what the constructor of `Encoding` makes of them.
An entry in front of other bytes is read as it was written (`read_entry`), and
what follows the last entry of a page is either the end of the page or padding,
which reads as an entry without encoding keys (`read_padding`).  The page loop
is an induction on the entries of the page (`readEntries_page`).  Between two
pages the cursor may be anywhere, since each page is sought.
-/

namespace Tactmon

namespace Encoding

open Binary Cxx CursorReadable

/-! ## Serialisation -/

/-- What a manifest says about one file. -/
structure Entry where
  contentKey : CKey
  fileSize : Nat
  keys : List EKey
deriving DecidableEq, Repr

namespace Entry

/-- The entry can be written with these key sizes. -/
structure Fits (encodingKeySize contentKeySize : Nat) (entry : Entry) : Prop where
  contentKey_length : entry.contentKey.length = contentKeySize
  fileSize_lt : entry.fileSize < 2 ^ 40
  keys_pos : 0 < entry.keys.length
  keys_lt : entry.keys.length < 2 ^ 8
  keys_length : ∀ key ∈ entry.keys, key.length = encodingKeySize

instance (encodingKeySize contentKeySize : Nat) (entry : Entry) :
    Decidable (entry.Fits encodingKeySize contentKeySize) :=
  decidable_of_iff (entry.contentKey.length = contentKeySize ∧ entry.fileSize < 2 ^ 40 ∧
      0 < entry.keys.length ∧ entry.keys.length < 2 ^ 8 ∧
      ∀ key ∈ entry.keys, key.length = encodingKeySize)
    ⟨fun ⟨hckey, hsize, hpos, hlt, hkeys⟩ => ⟨hckey, hsize, hpos, hlt, hkeys⟩,
      fun h => ⟨h.contentKey_length, h.fileSize_lt, h.keys_pos, h.keys_lt, h.keys_length⟩⟩

/-- The serialised entry. -/
def bytes (entry : Entry) : Bytes :=
  beBytes 1 entry.keys.length ++ (beBytes 5 entry.fileSize ++
    (entry.contentKey ++ entry.keys.flatten))

/-- The entry that is read back. -/
def table (entry : Entry) : CEKeyPageTable :=
  ⟨.ofNat entry.fileSize, entry.contentKey, entry.keys.flatten, entry.keys.length⟩

end Entry

/-- The entries of a page in a row. -/
def entryBytes (entries : List Entry) : Bytes := entries.flatMap Entry.bytes

/-- A page, padded with zeros. -/
def pageBytes (pageSize : Nat) (entries : List Entry) : Bytes :=
  entryBytes entries ++ List.replicate (pageSize - (entryBytes entries).length) 0

/-- An encoding manifest that can be written. -/
structure Manifest where
  version : UInt8
  encodingKeySize : Nat
  contentKeySize : Nat
  /-- The page sizes, in units of 1024 bytes. -/
  cePageSizeKb : UInt16
  eSpecPageSizeKb : UInt16
  eSpecPageCount : UInt32
  eSpec : Bytes
  /-- The index in front of the pages. -/
  index : Bytes
  pages : List (List Entry)
  encodingKeySize_pos : 0 < encodingKeySize
  encodingKeySize_lt : encodingKeySize < 2 ^ 8
  contentKeySize_pos : 0 < contentKeySize
  contentKeySize_lt : contentKeySize < 2 ^ 8
  eSpec_lt : eSpec.length < 2 ^ 32
  pages_lt : pages.length < 2 ^ 32
  index_length : index.length = pages.length * (16 + encodingKeySize)
  entries_fit : ∀ page ∈ pages, ∀ entry ∈ page, entry.Fits encodingKeySize contentKeySize
  pages_fit : ∀ page ∈ pages, (entryBytes page).length ≤ cePageSizeKb.toNat * 1024

namespace Manifest

/-- The size of a page. -/
def pageSize (m : Manifest) : Nat := m.cePageSizeKb.toNat * 1024

/-- The entries, in page order. -/
def entries (m : Manifest) : List Entry := m.pages.flatten

/-- The header. -/
def headerBytes (m : Manifest) : Bytes :=
  beBytes 2 0x454E ++ (beBytes 1 m.version.toNat ++ (beBytes 1 m.encodingKeySize ++
    (beBytes 1 m.contentKeySize ++ (beBytes 2 m.cePageSizeKb.toNat ++
      (beBytes 2 m.eSpecPageSizeKb.toNat ++ (beBytes 4 m.pages.length ++
        (beBytes 4 m.eSpecPageCount.toNat ++ (beBytes 1 0 ++ beBytes 4 m.eSpec.length))))))))

/-- The serialised manifest. -/
def bytes (m : Manifest) : Bytes :=
  m.headerBytes ++ (m.eSpec ++ (m.index ++ m.pages.flatMap (pageBytes m.pageSize)))

/-- The header that is read back. -/
def header (m : Manifest) : Header where
  signature := 0x454E
  version := m.version.toNat
  ceKey := ⟨m.pageSize, m.pages.length⟩
  eKeySpec := ⟨m.eSpecPageSizeKb.toNat * 1024, m.eSpecPageCount.toNat⟩
  encodingKeySize := m.encodingKeySize
  contentKeySize := m.contentKeySize
  eSpecBlockSize := m.eSpec.length

/-- The manifest that is read back. -/
def encoding (m : Manifest) : Encoding := ⟨m.header, m.pages.map fun page => page.map Entry.table⟩

end Manifest

/-! Lengths. -/

@[simp] theorem entryBytes_cons (entry : Entry) (entries : List Entry) :
    entryBytes (entry :: entries) = entry.bytes ++ entryBytes entries := List.flatMap_cons

theorem Entry.bytes_length_pos (entry : Entry) : 0 < entry.bytes.length := by
  rw [bytes, List.length_append, beBytes_length]
  omega

theorem pageBytes_length {pageSize : Nat} {page : List Entry}
    (h : (entryBytes page).length ≤ pageSize) : (pageBytes pageSize page).length = pageSize := by
  rw [pageBytes, List.length_append, List.length_replicate]
  omega

/-! ## Entries -/

section Read

variable {σ : Type} [IReadableStream σ] [LawfulReadable σ]

theorem readUInt40_beBytes {s : σ} {b rest : Bytes} {v : Nat} (hv : v < 2 ^ 40)
    (h : Unread s b (beBytes 5 v ++ rest)) :
    ∃ s', readUInt40 s .big = .ok (.ofNat v, s') ∧ Unread s' b rest := by
  have hlen : (List.replicate 5 (0 : UInt8)).length = (beBytes 5 v).length := by simp
  obtain ⟨s', hr, hs'⟩ := readSpan_append .big hlen h
  refine ⟨s', ?_, hs'⟩
  rw [readUInt40, hr, Exec.ok_bind]
  dsimp only
  rw [foldl_shiftIn, beNat_beBytes_of_lt hv]

variable {header : Header} {entry : Entry} {s : σ} {b : Bytes}

/-- An entry is read as it was written. -/
theorem read_entry {rest : Bytes} (hpos : 0 < header.encodingKeySize)
    (hfits : entry.Fits header.encodingKeySize header.contentKeySize)
    (h : Unread s b (entry.bytes ++ rest)) :
    ∃ s', CEKeyPageTable.read s header = .ok (entry.table, s') ∧ Unread s' b rest := by
  have hkeys : entry.keys.flatten.length = entry.keys.length * header.encodingKeySize :=
    length_flatten_of_width hfits.keys_length
  rw [Entry.bytes, List.append_assoc, List.append_assoc, List.append_assoc] at h
  obtain ⟨s₁, hr₁, h₁⟩ := readByte_beBytes hfits.keys_lt h
  obtain ⟨s₂, hr₂, h₂⟩ := readUInt40_beBytes hfits.fileSize_lt h₁
  have hckey : (List.replicate header.contentKeySize (0 : UInt8)).length =
      entry.contentKey.length := by
    rw [List.length_replicate, hfits.contentKey_length]
  obtain ⟨s₃, hr₃, h₃⟩ := readSpan_append .little hckey h₂
  have hekeys : (List.replicate (header.encodingKeySize * entry.keys.length) (0 : UInt8)).length =
      entry.keys.flatten.length := by
    rw [List.length_replicate, hkeys, Nat.mul_comm]
  obtain ⟨s₄, hr₄, h₄⟩ := readSpan_append .little hekeys h₃
  refine ⟨s₄, ?_, h₄⟩
  simp only [CEKeyPageTable.read, hr₁, hr₂, hr₃, hr₄, Exec.ok_bind,
    if_pos (Nat.mul_pos hfits.keys_pos hpos), Entry.table]

/-- The entry that is read back is not taken for padding. -/
theorem Entry.table_toBool (hpos : 0 < header.encodingKeySize) (hckey : 0 < header.contentKeySize)
    (hfits : entry.Fits header.encodingKeySize header.contentKeySize) :
    entry.table.toBool = true := by
  have hkeys : 0 < entry.keys.flatten.length := by
    rw [length_flatten_of_width hfits.keys_length]
    exact Nat.mul_pos hfits.keys_pos hpos
  have hkey : 0 < entry.contentKey.length := by rwa [hfits.contentKey_length]
  rw [CEKeyPageTable.toBool, Entry.table, Bool.and_eq_true, Bool.not_eq_true', Bool.not_eq_true',
    List.isEmpty_eq_false_iff, List.isEmpty_eq_false_iff]
  exact ⟨List.ne_nil_of_length_pos hkey, List.ne_nil_of_length_pos hkeys⟩

/-- Padding is read as an entry without encoding keys, however little of it is
left. -/
theorem read_padding (header : Header) {rest : Bytes} (h : Unread s b (0 :: rest)) :
    ∃ pageEntry s' c, CEKeyPageTable.read s header = .ok (pageEntry, s') ∧
      pageEntry.toBool = false ∧ Rep s' b c := by
  have hzero : Unread s b (beBytes 1 0 ++ rest) := h
  obtain ⟨s₁, hr₁, c, hs₁, hlen, -⟩ := readByte_beBytes (by decide) hzero
  obtain ⟨n₂, x₂, s₂, hr₂, hs₂⟩ :=
    readSpan_bytes_rep (List.replicate 5 0) .big hs₁ (by omega)
  obtain ⟨n₃, x₃, s₃, hr₃, hs₃⟩ :=
    readSpan_bytes_rep (List.replicate header.contentKeySize 0) .little hs₂ (Nat.min_le_right _ _)
  refine ⟨⟨x₂.foldl shiftIn 0, x₃, [], 0⟩, s₃, _, ?_, Bool.and_false _, hs₃⟩
  simp only [CEKeyPageTable.read, readUInt40, hr₁, hr₂, hr₃, Exec.ok_bind, Nat.zero_mul,
    Nat.lt_irrefl, if_false]

/-! ## Pages -/

/-- Reading stops at the padding, or at the end of the page. -/
theorem readEntries_padding {pageEnd n : Nat} {after : Bytes}
    (hend : pageEnd + after.length = b.length) (fuel : Nat) {s : σ}
    (h : Unread s b (List.replicate n 0 ++ after)) (hfuel : n ≤ fuel) :
    ∃ s' c, Page.readEntries header pageEnd fuel s = .ok ([], s') ∧ Rep s' b c := by
  have hcursor := h.cursor_add
  rw [List.length_append, List.length_replicate] at hcursor
  cases n with
  | zero =>
      have hstop : ¬ getReadCursor s < pageEnd := by omega
      refine ⟨s, _, ?_, h.rep⟩
      cases fuel with
      | zero => rw [Page.readEntries, if_neg hstop]
      | succ fuel => rw [Page.readEntries, if_neg hstop]
  | succ n =>
      have hmore : getReadCursor s < pageEnd := by omega
      obtain ⟨pageEntry, s', c, hr, hbool, hs'⟩ := read_padding header h
      refine ⟨s', c, ?_, hs'⟩
      cases fuel with
      | zero => exact absurd hfuel (Nat.not_succ_le_zero _)
      | succ fuel =>
          rw [Page.readEntries, if_pos hmore, hr, Exec.ok_bind]
          dsimp only
          rw [hbool, Bool.not_false, Bool.true_or, if_pos rfl]

/-- The loop over a page stops at its padding, or at its end. -/
theorem readEntries_page {pageEnd n : Nat} {after : Bytes} (hpos : 0 < header.encodingKeySize)
    (hckey : 0 < header.contentKeySize) (hend : pageEnd + after.length = b.length)
    (entries : List Entry) :
    ∀ (fuel : Nat) {s : σ},
      (∀ entry ∈ entries, entry.Fits header.encodingKeySize header.contentKeySize) →
      Unread s b (entryBytes entries ++ (List.replicate n 0 ++ after)) →
      (entryBytes entries).length + n ≤ fuel →
      ∃ s' c, Page.readEntries header pageEnd fuel s = .ok (entries.map Entry.table, s') ∧
        Rep s' b c := by
  induction entries with
  | nil =>
      intro fuel s _ h hfuel
      rw [entryBytes, List.flatMap_nil, List.nil_append] at h
      rw [entryBytes, List.flatMap_nil, List.length_nil, Nat.zero_add] at hfuel
      exact readEntries_padding hend fuel h hfuel
  | cons entry entries ih =>
      intro fuel s hfits h hfuel
      have hone := entry.bytes_length_pos
      rw [entryBytes_cons, List.append_assoc] at h
      rw [entryBytes_cons, List.length_append] at hfuel
      have hfit := hfits entry List.mem_cons_self
      obtain ⟨s', hr, h'⟩ := read_entry hpos hfit h
      have hcursor := h.cursor_add
      have hcursor' := h'.cursor_add
      simp only [List.length_append] at hcursor hcursor'
      have hmore : getReadCursor s < pageEnd := by omega
      have hin : ¬ pageEnd < getReadCursor s' := by omega
      cases fuel with
      | zero => exact absurd hfuel (by omega)
      | succ fuel =>
          obtain ⟨s'', c, hrest, hs''⟩ :=
            ih fuel (fun e he => hfits e (List.mem_cons_of_mem _ he)) h' (by omega)
          refine ⟨s'', c, ?_, hs''⟩
          rw [Page.readEntries, if_pos hmore, hr, Exec.ok_bind]
          dsimp only
          rw [Entry.table_toBool hpos hckey hfit, decide_eq_false hin, Bool.not_true,
            Bool.or_false, if_neg Bool.false_ne_true, hrest, Exec.ok_bind, List.map_cons]

/-- A page is read from its offset on, wherever the cursor was. -/
theorem read_page {page : List Entry} {pageOffset c : Nat} {after : Bytes}
    (hpos : 0 < header.encodingKeySize) (hckey : 0 < header.contentKeySize)
    (hfits : ∀ entry ∈ page, entry.Fits header.encodingKeySize header.contentKeySize)
    (hpage : (entryBytes page).length ≤ header.ceKey.pageSize)
    (hend : pageOffset + header.ceKey.pageSize + after.length = b.length)
    (hdrop : b.drop pageOffset = pageBytes header.ceKey.pageSize page ++ after)
    (hs : Rep s b c) :
    ∃ s' c', Page.read s header pageOffset (pageOffset + header.ceKey.pageSize) =
        .ok (page.map Entry.table, s') ∧ Rep s' b c' := by
  have hs₁ := skipRead_rep (sizeWrap (CEKeyPageTable.hashSize header + 0x10)) hs
  have h := Unread.of_seek hs₁ (by omega) hdrop
  rw [pageBytes, List.append_assoc] at h
  obtain ⟨s₂, c₂, hr, hs₂⟩ := readEntries_page hpos hckey hend page
    (pageOffset + header.ceKey.pageSize) hfits h (by omega)
  obtain ⟨c₃, hs₃, -⟩ := seekRead_rep
    (getReadCursor (skipRead s (sizeWrap (CEKeyPageTable.hashSize header + 0x10)))) hs₂
  refine ⟨_, c₃, ?_, hs₃⟩
  rw [Page.read]
  dsimp only
  rw [hr, Exec.ok_bind]

/-- The pages from page `i` on. -/
theorem readPages_pages (header : Header) {pageStart : Nat} (hpos : 0 < header.encodingKeySize)
    (hckey : 0 < header.contentKeySize) (pages : List (List Entry)) :
    ∀ {i c : Nat} {s : σ},
      (∀ page ∈ pages, ∀ entry ∈ page,
        entry.Fits header.encodingKeySize header.contentKeySize) →
      (∀ page ∈ pages, (entryBytes page).length ≤ header.ceKey.pageSize) →
      pageStart + (i + pages.length) * header.ceKey.pageSize = b.length →
      b.drop (pageStart + i * header.ceKey.pageSize) =
        pages.flatMap (pageBytes header.ceKey.pageSize) →
      Rep s b c →
      readPages header pageStart pages.length i s =
        .ok (pages.map fun page => page.map Entry.table) := by
  induction pages with
  | nil => exact fun _ _ _ _ _ => rfl
  | cons page pages ih =>
      intro i c s hfits hsizes hend hdrop hs
      have hlt := fits hs
      have hpage := hsizes page List.mem_cons_self
      have hnext : pageStart + (i + 1 + pages.length) * header.ceKey.pageSize = b.length := by
        rw [← hend, List.length_cons, Nat.add_right_comm, Nat.add_assoc]
      have hsplit : pageStart + i * header.ceKey.pageSize + header.ceKey.pageSize +
          pages.length * header.ceKey.pageSize = b.length := by
        rw [← hnext, Nat.add_mul, Nat.succ_mul]
        omega
      rw [List.flatMap_cons] at hdrop
      have hafter : b.drop (pageStart + (i + 1) * header.ceKey.pageSize) =
          pages.flatMap (pageBytes header.ceKey.pageSize) := by
        rw [Nat.succ_mul, ← Nat.add_assoc, ← List.drop_drop, hdrop,
          List.drop_left' (pageBytes_length hpage)]
      have hlen : (pages.flatMap (pageBytes header.ceKey.pageSize)).length =
          pages.length * header.ceKey.pageSize := by
        rw [← hafter, List.length_drop, Nat.succ_mul]
        omega
      have hoffset : sizeWrap (pageStart + sizeWrap (i * header.ceKey.pageSize)) =
          pageStart + i * header.ceKey.pageSize :=
        sizeWrap_add_sizeWrap (lt_sizeMax (by omega))
      have hpageEnd : sizeWrap (pageStart + i * header.ceKey.pageSize + header.ceKey.pageSize) =
          pageStart + i * header.ceKey.pageSize + header.ceKey.pageSize :=
        sizeWrap_of_lt (lt_sizeMax (by omega))
      obtain ⟨s', c', hr, hs'⟩ := read_page hpos hckey (hfits page List.mem_cons_self) hpage
        (by rw [hlen, hsplit]) hdrop hs
      rw [List.length_cons, readPages, hoffset]
      dsimp only
      rw [hpageEnd, hr, Exec.ok_bind]
      dsimp only
      rw [ih (fun p hp => hfits p (List.mem_cons_of_mem _ hp))
        (fun p hp => hsizes p (List.mem_cons_of_mem _ hp)) hnext hafter hs', Exec.ok_bind,
        List.map_cons]

/-! ## Manifests -/

/-- The header is read as it was written. -/
theorem read_header (m : Manifest) {rest : Bytes} (h : Unread s b (m.headerBytes ++ rest)) :
    ∃ s', Header.read s = .ok (m.header, s') ∧ Unread s' b rest := by
  have hlen : m.headerBytes.length = 22 := by
    simp only [Manifest.headerBytes, List.length_append, beBytes_length]
  have hcan : canRead s (2 + 1 + 1 + 1 + 2 + 2 + 4 + 4 + 1 + 4) = true := by
    refine (h.canRead_iff (by decide)).mpr ?_
    rw [List.length_append, hlen]
    omega
  simp only [Manifest.headerBytes, List.append_assoc] at h
  obtain ⟨s₁, hr₁, h₁⟩ := readInt_beBytes (by decide) (by decide) h
  obtain ⟨s₂, hr₂, h₂⟩ := readByte_beBytes m.version.toNat_lt h₁
  obtain ⟨s₃, hr₃, h₃⟩ := readByte_beBytes m.encodingKeySize_lt h₂
  obtain ⟨s₄, hr₄, h₄⟩ := readByte_beBytes m.contentKeySize_lt h₃
  obtain ⟨s₅, hr₅, h₅⟩ := readInt_beBytes (by decide) m.cePageSizeKb.toNat_lt h₄
  obtain ⟨s₆, hr₆, h₆⟩ := readInt_beBytes (by decide) m.eSpecPageSizeKb.toNat_lt h₅
  obtain ⟨s₇, hr₇, h₇⟩ := readInt_beBytes (by decide) m.pages_lt h₆
  obtain ⟨s₈, hr₈, h₈⟩ := readInt_beBytes (by decide) m.eSpecPageCount.toNat_lt h₇
  obtain ⟨s₉, hr₉, h₉⟩ := readByte_beBytes (by decide) h₈
  obtain ⟨s', hr, h'⟩ := readInt_beBytes (by decide) m.eSpec_lt h₉
  refine ⟨s', ?_, h'⟩
  rw [Header.read, hcan, Bool.not_true, if_neg Bool.false_ne_true]
  simp only [hr₁, hr₂, hr₃, hr₄, hr₅, hr₆, hr₇, hr₈, hr₉, hr, Exec.ok_bind]
  rfl

/-- A serialised manifest is read back. -/
theorem read_manifest (m : Manifest) (h : Rep s m.bytes 0) : read s = .ok m.encoding := by
  have hlt := fits h
  have hall : Unread s m.bytes (m.headerBytes ++ (m.eSpec ++
      (m.index ++ m.pages.flatMap (pageBytes m.pageSize)))) := Unread.of_rep h
  obtain ⟨s₁, hr₁, h₁⟩ := read_header m hall
  obtain ⟨c, hs, hlen, hdrop⟩ := h₁.skipRead
  rw [List.length_append, m.index_length] at hlen
  have hpages : (m.pages.flatMap (pageBytes m.pageSize)).length = m.pages.length * m.pageSize := by
    have hwidth : ∀ page ∈ m.pages.map (pageBytes m.pageSize), page.length = m.pageSize := by
      intro page hpage
      obtain ⟨entries, hmem, rfl⟩ := List.mem_map.mp hpage
      exact pageBytes_length (m.pages_fit entries hmem)
    rw [List.flatMap_def, length_flatten_of_width hwidth, List.length_map]
  have hstart : sizeWrap (getReadCursor (skipRead s₁ m.eSpec.length) +
      sizeWrap (m.pages.length * (0x10 + m.encodingKeySize))) =
        c + m.pages.length * (16 + m.encodingKeySize) := by
    have hin : sizeWrap (m.pages.length * (0x10 + m.encodingKeySize)) =
        m.pages.length * (16 + m.encodingKeySize) := sizeWrap_of_lt (lt_sizeMax (by omega))
    rw [getReadCursor_eq hs, hin]
    exact sizeWrap_of_lt (lt_sizeMax (by omega))
  have hbehind : m.bytes.drop (c + m.pages.length * (16 + m.encodingKeySize) +
      0 * m.header.ceKey.pageSize) = m.pages.flatMap (pageBytes m.header.ceKey.pageSize) := by
    rw [Nat.zero_mul, Nat.add_zero, ← List.drop_drop, hdrop, List.drop_left' m.index_length]
    rfl
  have hread := readPages_pages m.header m.encodingKeySize_pos m.contentKeySize_pos m.pages
    m.entries_fit m.pages_fit (by rw [Nat.zero_add, ← hlen, hpages, Nat.add_assoc]; rfl) hbehind hs
  have hsignature : ¬ m.header.signature ≠ 0x454E := not_not_intro rfl
  rw [read, hr₁, Exec.ok_bind]
  dsimp only
  rw [if_neg hsignature]
  simp only [Manifest.header] at hread ⊢
  rw [hstart, hread, Exec.ok_bind]
  rfl

end Read

/-! ## Lookup -/

/-- Adding up the page sizes does not wrap. -/
theorem count_foldl (pages : List Page) :
    ∀ value, value + pages.flatten.length < sizeMax →
      pages.foldl (fun value page => sizeWrap (value + page.length)) value =
        value + pages.flatten.length := by
  induction pages with
  | nil => exact fun _ _ => rfl
  | cons page pages ih =>
      intro value hlt
      rw [List.flatten_cons, List.length_append] at hlt ⊢
      rw [List.foldl_cons, sizeWrap_of_lt (by omega), ih _ (by omega), Nat.add_assoc]

/-- Looking through the pages is looking through their entries. -/
theorem findSome?_find? {α β : Type} (p : α → Bool) (f : α → β) (pages : List (List α)) :
    (pages.findSome? fun page => (page.find? p).map f) = (pages.flatten.find? p).map f := by
  induction pages with
  | nil => rfl
  | cons page pages ih =>
      rw [List.findSome?_cons, List.flatten_cons, List.find?_append, ih]
      cases page.find? p with
      | none => rfl
      | some x => rfl

namespace Manifest

variable {m : Manifest} {entry : Entry}

/-- There are fewer entries than bytes. -/
theorem entries_length_le (m : Manifest) : m.entries.length ≤ m.bytes.length := by
  have hpage : ∀ page : List Entry, page.length ≤ (pageBytes m.pageSize page).length := by
    intro page
    have hentries : page.length ≤ (entryBytes page).length := by
      induction page with
      | nil => exact Nat.zero_le _
      | cons entry page ih =>
          have := entry.bytes_length_pos
          rw [entryBytes_cons, List.length_append, List.length_cons]
          omega
    rw [pageBytes, List.length_append]
    omega
  have hpages : ∀ pages : List (List Entry),
      pages.flatten.length ≤ (pages.flatMap (pageBytes m.pageSize)).length := by
    intro pages
    induction pages with
    | nil => exact Nat.zero_le _
    | cons page pages ih =>
        have := hpage page
        rw [List.flatten_cons, List.flatMap_cons, List.length_append, List.length_append]
        omega
  have := hpages m.pages
  rw [bytes, List.length_append, List.length_append, List.length_append, entries]
  omega

theorem fits_of_mem (h : entry ∈ m.entries) : entry.Fits m.encodingKeySize m.contentKeySize := by
  obtain ⟨page, hpage, hentry⟩ := List.mem_flatten.mp h
  exact m.entries_fit page hpage entry hentry

/-- The count of what is read back. -/
theorem encoding_count (h : m.bytes.length < 2 ^ 63) : m.encoding.count = m.entries.length := by
  have hflat : (m.pages.map fun page => page.map Entry.table).flatten =
      m.entries.map Entry.table := List.map_flatten.symm
  have hle := m.entries_length_le
  have hcount := count_foldl (m.pages.map fun page => page.map Entry.table) 0
    (by rw [hflat, List.length_map, Nat.zero_add]; exact lt_sizeMax (by omega))
  rw [hflat, List.length_map, Nat.zero_add] at hcount
  exact hcount

/-- A lookup finds the first entry with the content key. -/
theorem encoding_findFile (m : Manifest) (contentKey : CKey) :
    m.encoding.findFile contentKey =
      (m.entries.find? fun entry => entry.contentKey = contentKey).map fun entry =>
        ⟨.ofNat entry.fileSize, entry.keys.length, entry.keys.flatten⟩ := by
  have hflat : (m.pages.map fun page => page.map Entry.table).flatten =
      m.entries.map Entry.table := List.map_flatten.symm
  have hkey : ∀ entry ∈ m.entries, entry.table.contentKey m.header = entry.contentKey :=
    fun entry hentry => List.take_of_length_le
      (Nat.le_of_eq (fits_of_mem hentry).contentKey_length)
  have hlocation : ∀ entry ∈ m.entries, entry.table.location m.header =
      ⟨.ofNat entry.fileSize, entry.keys.length, entry.keys.flatten⟩ := by
    intro entry hentry
    have hlen := length_flatten_of_width (fits_of_mem hentry).keys_length
    have htake : entry.keys.flatten.take (entry.keys.length * m.encodingKeySize) =
        entry.keys.flatten := List.take_of_length_le (Nat.le_of_eq hlen)
    exact congrArg (FileLocation.mk (.ofNat entry.fileSize) entry.keys.length) htake
  rw [findFile, findSome?_find?, encoding]
  dsimp only
  rw [hflat, List.find?_map, Option.map_map, List.find?_congr fun entry hentry => by
    rw [Function.comp_apply, hkey entry hentry]]
  exact Option.map_congr fun entry hfind => hlocation entry (List.mem_of_find?_eq_some hfind)

end Manifest

/-- The keys of a location are the keys of the entry. -/
theorem Entry.at_eq {encodingKeySize contentKeySize : Nat} {entry : Entry} (fileSize : UInt64)
    (hfits : entry.Fits encodingKeySize contentKeySize) {i : Nat} (hi : i < entry.keys.length) :
    FileLocation.at ⟨fileSize, entry.keys.length, entry.keys.flatten⟩ i = .ok entry.keys[i] := by
  have hlen := length_flatten_of_width hfits.keys_length
  have hne : ¬ entry.keys.length = 0 := Nat.ne_of_gt hfits.keys_pos
  have hsize : entry.keys.flatten.length / entry.keys.length = encodingKeySize := by
    rw [hlen, Nat.mul_div_cancel_left _ hfits.keys_pos]
  have hle : i * encodingKeySize + encodingKeySize ≤ entry.keys.flatten.length := by
    rw [hlen, ← Nat.succ_mul]
    exact Nat.mul_le_mul_right _ hi
  rw [FileLocation.at]
  dsimp only
  rw [if_neg hne, hsize, if_pos hle, window_flatten_of_width hfits.keys_length hi]

/-- A serialised manifest has as many entries as were written.  A content key
that no entry has is not found, and for any other one the location has the file
size and the encoding keys of the first entry with it. -/
theorem read_findFile {σ : Type} [IReadableStream σ] [LawfulReadable σ] (m : Manifest)
    {stream : σ} (h : Rep stream m.bytes 0) :
    ∃ encoding, read stream = .ok encoding ∧ encoding.count = m.entries.length ∧
      (∀ k, (∀ entry ∈ m.entries, entry.contentKey ≠ k) → encoding.findFile k = none) ∧
      ∀ k entry, m.entries.find? (fun entry => entry.contentKey = k) = some entry →
        ∃ location, encoding.findFile k = some location ∧
          location.fileSize.toNat = entry.fileSize ∧ location.keyCount = entry.keys.length ∧
          ∀ i (hi : i < entry.keys.length), location.at i = .ok entry.keys[i] := by
  refine ⟨m.encoding, read_manifest m h, Manifest.encoding_count (fits h), ?_, ?_⟩
  · intro k hnone
    rw [Manifest.encoding_findFile, List.find?_eq_none.mpr, Option.map_none]
    exact fun entry hentry hk => hnone entry hentry (of_decide_eq_true hk)
  · intro k entry hfind
    have hfits := Manifest.fits_of_mem (List.mem_of_find?_eq_some hfind)
    refine ⟨⟨.ofNat entry.fileSize, entry.keys.length, entry.keys.flatten⟩, ?_, ?_, rfl,
      fun i hi => Entry.at_eq _ hfits hi⟩
    · rw [Manifest.encoding_findFile, hfind, Option.map_some]
    · exact toNat_ofNat_of_lt_pow (w := 5) (by decide) hfits.fileSize_lt

/-- One page with two files, the second of them under two encoding keys. -/
def sample : Manifest where
  version := 1
  encodingKeySize := 4
  contentKeySize := 3
  cePageSizeKb := 1
  eSpecPageSizeKb := 0
  eSpecPageCount := 0
  eSpec := [0x7A]
  index := List.replicate 20 0
  pages := [[⟨[0xAA, 0, 0], 5, [[1, 2, 3, 4]]⟩, ⟨[0xBB, 0, 0], 7, [[3, 4, 5, 6], [5, 6, 7, 8]]⟩]]
  encodingKeySize_pos := by decide
  encodingKeySize_lt := by decide
  contentKeySize_pos := by decide
  contentKeySize_lt := by decide
  eSpec_lt := by decide
  pages_lt := by decide
  index_length := by decide
  entries_fit := by decide
  pages_fit := by decide

theorem sample_fits : sample.bytes.length < 2 ^ 63 := by decide +kernel

/-- The sample in memory. -/
def sampleBuffer : Buffer := ⟨sample.bytes, sample_fits⟩

theorem read_findFile_sample :
    ∃ encoding, read (GrowableMemoryStream.ofBuffer sampleBuffer) = .ok encoding ∧
      encoding.count = 2 ∧ encoding.findFile [0xCC, 0, 0] = none ∧
        ∃ location, encoding.findFile [0xBB, 0, 0] = some location ∧ location.fileSize.toNat = 7 ∧
          location.keyCount = 2 ∧ location.at 1 = .ok [5, 6, 7, 8] := by
  obtain ⟨encoding, hread, hcount, hnone, hsome⟩ :=
    read_findFile sample (GrowableMemoryStream.ofBuffer_rep sampleBuffer)
  obtain ⟨location, hfind, hsize, hkeys, hat⟩ :=
    hsome [0xBB, 0, 0] ⟨[0xBB, 0, 0], 7, [[3, 4, 5, 6], [5, 6, 7, 8]]⟩ rfl
  exact ⟨encoding, hread, hcount, hnone [0xCC, 0, 0] (by decide), location, hfind, hsize, hkeys,
    hat 1 (by decide)⟩

end Encoding

end Tactmon
