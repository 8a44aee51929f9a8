import Tactmon.Io.Truncation
import Tactmon.Tact.Encoding

/-!
# Manifests of any byte string

What the constructor of `Encoding` does on an arbitrary byte string in a
`GrowableMemoryStream`.

All of the header is there or none of it is read, and every other field is a
byte or a run of bytes, so no read runs out of its destination.  Each turn of
the loop over a page that does not stop it has read the key count from the
stream, and a turn at the end of the stream stops it.

The fields of an entry that the stream cuts are filled with zeros
(`entry_zeroFilled`).  Such an entry passes both tests of the loop when its keys
are not empty and its page does not end in front of the stream: `Torn` follows
the entries of a page to it.
-/

namespace Tactmon

open Binary Cxx CursorReadable LawfulReadable

namespace Encoding

/-! ## The fields of a byte string -/

/-- The header at the start of the byte string. -/
def headerAt (d : Bytes) : Header :=
  if d.length < 22 then {}
  else
    { signature := beNat (window d 0 2)
      version := leNat (window d 2 1)
      encodingKeySize := leNat (window d 3 1)
      contentKeySize := leNat (window d 4 1)
      ceKey := ⟨beNat (window d 5 2) * 1024, beNat (window d 9 4)⟩
      eKeySpec := ⟨beNat (window d 7 2) * 1024, beNat (window d 13 4)⟩
      eSpecBlockSize := beNat (window d 18 4) }

/-- Where page `i` starts, and the one in front of it ends. -/
def pageOffset (header : Header) (i : Nat) : Nat :=
  22 + header.eSpecBlockSize + header.ceKey.pageCount * (0x10 + header.encodingKeySize) +
    i * header.ceKey.pageSize

section Entry

variable (header : Header) (d : Bytes) (o : Nat)

/-- The key count of the entry at `o`. -/
def keyCountAt : Nat := leNat (window d o 1)

/-- The bytes of its encoding keys. -/
def keysSizeAt : Nat := header.encodingKeySize * keyCountAt d o

/-- Its size. -/
def entrySizeAt : Nat := 6 + header.contentKeySize + keysSizeAt header d o

/-- The entry whose fields are the bytes at `o`. -/
def entryAt : CEKeyPageTable where
  fileSize := .ofNat (beNat (window d (o + 1) 5))
  ckey := window d (o + 6) header.contentKeySize
  ekeys := window d (o + 6 + header.contentKeySize) (keysSizeAt header d o)
  keyCount := keyCountAt d o

/-- The entry that is read at `o`. -/
def entryReadAt : CEKeyPageTable where
  fileSize := .ofNat (beNat (zeroFilled d (o + 1) 5))
  ckey := zeroFilled d (o + 6) header.contentKeySize
  ekeys := zeroFilled d (o + 6 + header.contentKeySize) (keysSizeAt header d o)
  keyCount := keyCountAt d o

/-- Neither of its keys is empty. -/
def HasKeys : Prop := 0 < header.contentKeySize ∧ 0 < keysSizeAt header d o

instance : Decidable (HasKeys header d o) := inferInstanceAs (Decidable (_ ∧ _))

end Entry

variable {header : Header} {d : Bytes} {o pageEnd : Nat}

variable (header d o) in
theorem entrySizeAt_pos : 0 < entrySizeAt header d o := by
  rw [entrySizeAt]
  omega

/-- An entry that lies in the stream is read from it. -/
theorem entryReadAt_eq (h : o + entrySizeAt header d o ≤ d.length) :
    entryReadAt header d o = entryAt header d o := by
  rw [entrySizeAt] at h
  rw [entryReadAt, entryAt, zeroFilled_of_le (by omega), zeroFilled_of_le (by omega),
    zeroFilled_of_le (by omega)]

theorem toBool_entryReadAt : (entryReadAt header d o).toBool = true ↔ HasKeys header d o := by
  rw [CEKeyPageTable.toBool, Bool.and_eq_true, Bool.not_eq_true', Bool.not_eq_true',
    List.isEmpty_eq_false_iff, List.isEmpty_eq_false_iff, ← List.length_pos_iff,
    ← List.length_pos_iff, entryReadAt]
  dsimp only
  rw [zeroFilled_length, zeroFilled_length, HasKeys]

/-- The key count of an entry with keys is in the stream. -/
theorem HasKeys.lt_length (h : HasKeys header d o) : o < d.length := by
  rcases Nat.lt_or_ge o d.length with hlt | hge
  · exact hlt
  · have hzero : keysSizeAt header d o = 0 := by
      rw [keysSizeAt, keyCountAt, window_of_length_le hge]
      exact Nat.mul_zero _
    exact absurd h.2 (by rw [hzero]; exact Nat.lt_irrefl 0)

/-! ## Genuine and torn pages -/

/-- The entries follow one another from `o` on, and the fields of each are bytes
of the stream inside the page. -/
def Genuine (header : Header) (d : Bytes) (pageEnd : Nat) : Nat → Page → Prop
  | _, [] => True
  | o, entry :: page =>
      o + entrySizeAt header d o ≤ d.length ∧ o + entrySizeAt header d o ≤ pageEnd ∧
        entry = entryAt header d o ∧ Genuine header d pageEnd (o + entrySizeAt header d o) page

/-- The entries with keys from `o` on come to one that the end of the stream
cuts, in a page that does not end in front of the stream. -/
inductive Torn (header : Header) (d : Bytes) (pageEnd : Nat) : Nat → Prop
  | cut {o : Nat} : HasKeys header d o → d.length < o + entrySizeAt header d o →
      d.length ≤ pageEnd → Torn header d pageEnd o
  | next {o : Nat} : HasKeys header d o → o + entrySizeAt header d o ≤ d.length →
      o + entrySizeAt header d o ≤ pageEnd →
      Torn header d pageEnd (o + entrySizeAt header d o) → Torn header d pageEnd o

theorem Torn.hasKeys (h : Torn header d pageEnd o) : HasKeys header d o := by
  cases h with
  | cut hkeys _ _ => exact hkeys
  | next hkeys _ _ _ => exact hkeys

theorem Torn.min_le (h : Torn header d pageEnd o) :
    min (o + entrySizeAt header d o) d.length ≤ pageEnd := by
  cases h with
  | cut _ _ hpage => exact (Nat.min_le_right _ _).trans hpage
  | next _ _ hpage _ => exact (Nat.min_le_left _ _).trans hpage

/-- A torn page begins in front of its end. -/
theorem Torn.lt_pageEnd (h : Torn header d pageEnd o) : o < pageEnd := by
  have hlt := h.hasKeys.lt_length
  have hle := h.min_le
  have hpos := entrySizeAt_pos header d o
  omega

/-- Behind an entry that lies in the stream and the page. -/
theorem torn_iff_next (hkeys : HasKeys header d o) (hin : o + entrySizeAt header d o ≤ d.length)
    (hpage : o + entrySizeAt header d o ≤ pageEnd) :
    Torn header d pageEnd o ↔ Torn header d pageEnd (o + entrySizeAt header d o) := by
  constructor
  · intro h
    cases h with
    | cut _ hcut _ => omega
    | next _ _ _ hnext => exact hnext
  · exact Torn.next hkeys hin hpage

/-! ## Reading -/

section Read

variable {σ : Type} [IReadableStream σ] [LawfulReadable σ] {s : σ}

theorem read_headerAt (hs : Rep s d 0) :
    ∃ s', Header.read s = .ok (headerAt d, s') ∧ (22 ≤ d.length → Rep s' d 22) := by
  have hfits := fits hs
  have hcan : canRead s (2 + 1 + 1 + 1 + 2 + 2 + 4 + 4 + 1 + 4) = true ↔ 22 ≤ d.length := by
    rw [canRead_iff hs (by decide), Nat.zero_add]
  rw [headerAt]
  by_cases hlen : d.length < 22
  · have hnot := (not_congr hcan).mpr (Nat.not_le_of_lt hlen)
    rw [Header.read, Bool.eq_false_iff.mpr hnot, Bool.not_false, if_pos rfl, if_pos hlen]
    exact ⟨s, rfl, fun h => absurd h (Nat.not_le_of_lt hlen)⟩
  · have hlen' := Nat.le_of_not_lt hlen
    obtain ⟨s₁, hr₁, h₁⟩ := readInt_big (by decide) hs (by omega : 0 + 2 ≤ d.length)
    obtain ⟨s₂, hr₂, h₂⟩ := readInt_little h₁ (by omega : 2 + 1 ≤ d.length)
    obtain ⟨s₃, hr₃, h₃⟩ := readInt_little h₂ (by omega : 3 + 1 ≤ d.length)
    obtain ⟨s₄, hr₄, h₄⟩ := readInt_little h₃ (by omega : 4 + 1 ≤ d.length)
    obtain ⟨s₅, hr₅, h₅⟩ := readInt_big (by decide) h₄ (by omega : 5 + 2 ≤ d.length)
    obtain ⟨s₆, hr₆, h₆⟩ := readInt_big (by decide) h₅ (by omega : 7 + 2 ≤ d.length)
    obtain ⟨s₇, hr₇, h₇⟩ := readInt_big (by decide) h₆ (by omega : 9 + 4 ≤ d.length)
    obtain ⟨s₈, hr₈, h₈⟩ := readInt_big (by decide) h₇ (by omega : 13 + 4 ≤ d.length)
    obtain ⟨s₉, hr₉, h₉⟩ := readInt_little h₈ (by omega : 17 + 1 ≤ d.length)
    obtain ⟨s', hr, h'⟩ := readInt_big (by decide) h₉ (by omega : 18 + 4 ≤ d.length)
    refine ⟨s', ?_, fun _ => h'⟩
    rw [Header.read, hcan.mpr hlen', Bool.not_true, if_neg Bool.false_ne_true, if_neg hlen]
    simp only [Endian.native, hr₁, hr₂, hr₃, hr₄, hr₅, hr₆, hr₇, hr₈, hr₉, hr, Exec.ok_bind]

variable (header) in
/-- An entry is read anywhere, its missing bytes as zeros. -/
theorem entry_zeroFilled (hs : Rep s d (min o d.length)) :
    ∃ s', CEKeyPageTable.read s header = .ok (entryReadAt header d o, s') ∧
      Rep s' d (min (o + entrySizeAt header d o) d.length) := by
  obtain ⟨s₁, hr₁, h₁⟩ := readInt_native 1 hs
  obtain ⟨n₂, s₂, hr₂, h₂⟩ := readSpan_zeros 5 .big h₁
  obtain ⟨n₃, s₃, hr₃, h₃⟩ := readSpan_zeros header.contentKeySize .little h₂
  obtain ⟨n₄, s₄, hr₄, h₄⟩ := readSpan_zeros (keysSizeAt header d o) .little h₃
  have hend : o + 1 + 5 + header.contentKeySize + keysSizeAt header d o =
      o + entrySizeAt header d o := by
    rw [entrySizeAt]
    omega
  rw [hend] at h₄
  rw [CEKeyPageTable.read, hr₁, Exec.ok_bind]
  simp only [readUInt40, hr₂, hr₃, Exec.ok_bind, foldl_shiftIn]
  rw [← keyCountAt, Nat.mul_comm, ← keysSizeAt]
  by_cases hkeys : 0 < keysSizeAt header d o
  · rw [if_pos hkeys, hr₄, Exec.ok_bind]
    exact ⟨s₄, rfl, h₄⟩
  · have hzero : keysSizeAt header d o = 0 := Nat.eq_zero_of_not_pos hkeys
    rw [if_neg hkeys]
    refine ⟨s₃, ?_, ?_⟩
    · rw [entryReadAt, hzero, zeroFilled_zero]
    · rwa [← hend, hzero, Nat.add_zero]

variable (header pageEnd) in
/-- The loop over a page ends, and keeps a torn entry if it comes to one. -/
theorem readEntries_genuine_iff (fuel : Nat) :
    ∀ {o : Nat} {s : σ}, Rep s d (min o d.length) → pageEnd ≤ min o d.length + fuel →
      ∃ page s' c, Page.readEntries header pageEnd fuel s = .ok (page, s') ∧ Rep s' d c ∧
        (Genuine header d pageEnd o page ↔ ¬ Torn header d pageEnd o) := by
  induction fuel with
  | zero =>
      intro o s hs hfuel
      have hstop : ¬ min o d.length < pageEnd := Nat.not_lt_of_le hfuel
      rw [Page.readEntries, getReadCursor_eq hs, if_neg hstop]
      refine ⟨[], s, _, rfl, hs, iff_of_true trivial fun htorn => ?_⟩
      have hlt := htorn.lt_pageEnd
      omega
  | succ fuel ih =>
      intro o s hs hfuel
      rw [Page.readEntries, getReadCursor_eq hs]
      by_cases hmore : min o d.length < pageEnd
      · obtain ⟨s₁, hr₁, h₁⟩ := entry_zeroFilled header hs
        rw [if_pos hmore, hr₁, Exec.ok_bind]
        dsimp only
        rw [getReadCursor_eq h₁]
        by_cases hkept : HasKeys header d o ∧ min (o + entrySizeAt header d o) d.length ≤ pageEnd
        · obtain ⟨hkeys, hpage⟩ := hkept
          have hlt := hkeys.lt_length
          have hpos := entrySizeAt_pos header d o
          obtain ⟨page, s', c, hr, hs', hiff⟩ := ih h₁ (by omega)
          rw [toBool_entryReadAt.mpr hkeys, Bool.not_true, Bool.false_or,
            decide_eq_false (Nat.not_lt_of_le hpage), if_neg Bool.false_ne_true, hr, Exec.ok_bind]
          refine ⟨_, s', c, rfl, hs', ?_⟩
          rw [Genuine]
          by_cases hin : o + entrySizeAt header d o ≤ d.length
          · rw [Nat.min_eq_left hin] at hpage
            rw [torn_iff_next hkeys hin hpage, ← hiff, entryReadAt_eq hin]
            exact ⟨fun h => h.2.2.2, fun h => ⟨hin, hpage, rfl, h⟩⟩
          · rw [Nat.min_eq_right (Nat.le_of_not_le hin)] at hpage
            exact iff_of_false (fun h => hin h.1)
              (not_not_intro (.cut hkeys (Nat.lt_of_not_le hin) hpage))
        · have hstop : (!(entryReadAt header d o).toBool ||
              decide (pageEnd < min (o + entrySizeAt header d o) d.length)) = true := by
            rw [Bool.or_eq_true, Bool.not_eq_true', Bool.eq_false_iff, ne_eq, toBool_entryReadAt,
              decide_eq_true_iff]
            rcases not_and_or.mp hkept with hkeys | hpage
            · exact Or.inl hkeys
            · exact Or.inr (Nat.lt_of_not_le hpage)
          rw [if_pos hstop]
          exact ⟨[], s₁, _, rfl, h₁,
            iff_of_true trivial fun htorn => hkept ⟨htorn.hasKeys, htorn.min_le⟩⟩
      · rw [if_neg hmore]
        refine ⟨[], s, _, rfl, hs, iff_of_true trivial fun htorn => ?_⟩
        have hlt := htorn.lt_pageEnd
        have hin := htorn.hasKeys.lt_length
        omega

end Read

/-! ## Pages -/

variable {s : GrowableMemoryStream} {c : Nat}

/-- A page is read wherever it starts. -/
theorem page_genuine_iff (header : Header) (o pageEnd : Nat) (hs : Rep s d c) :
    ∃ page s' c', Page.read s header o pageEnd = .ok (page, s') ∧ Rep s' d c' ∧
      (Genuine header d pageEnd o page ↔ ¬ Torn header d pageEnd o) := by
  have hskip := skipRead_rep (sizeWrap (CEKeyPageTable.hashSize header + 0x10)) hs
  have hseek : Rep (seekRead (skipRead s (sizeWrap (CEKeyPageTable.hashSize header + 0x10))) o).2 d
      (min o d.length) := SeekPosition.seekRead_position o hskip
  obtain ⟨page, s₁, c₁, hr, h₁, hiff⟩ :=
    readEntries_genuine_iff header pageEnd pageEnd hseek
      (Nat.le_add_left _ _)
  rw [Page.read, hr, Exec.ok_bind]
  exact ⟨page, _, _, rfl, SeekPosition.seekRead_position _ h₁, hiff⟩

/-- All pages are read, torn or not. -/
theorem pages_genuine_iff (header : Header) (pageStart : Nat) (count : Nat) :
    ∀ {i c : Nat} {s : GrowableMemoryStream}, Rep s d c →
      pageStart + (i + count) * header.ceKey.pageSize < sizeMax →
      ∃ pages, readPages header pageStart count i s = .ok pages ∧ pages.length = count ∧
        ∀ k page, pages[k]? = some page →
          (Genuine header d (pageStart + (i + k + 1) * header.ceKey.pageSize)
            (pageStart + (i + k) * header.ceKey.pageSize) page ↔
          ¬ Torn header d (pageStart + (i + k + 1) * header.ceKey.pageSize)
            (pageStart + (i + k) * header.ceKey.pageSize)) := by
  induction count with
  | zero =>
      intro i c s _ _
      refine ⟨[], rfl, rfl, fun k page h => ?_⟩
      cases h
  | succ count ih =>
      intro i c s hs hfit
      have hnext : (i + 1) * header.ceKey.pageSize ≤ (i + (count + 1)) * header.ceKey.pageSize :=
        Nat.mul_le_mul_right _ (by omega)
      rw [Nat.succ_mul] at hnext
      have hstart : sizeWrap (pageStart + sizeWrap (i * header.ceKey.pageSize)) =
          pageStart + i * header.ceKey.pageSize :=
        sizeWrap_add_sizeWrap (by omega)
      have hend : sizeWrap (pageStart + i * header.ceKey.pageSize + header.ceKey.pageSize) =
          pageStart + (i + 1) * header.ceKey.pageSize := by
        rw [Nat.succ_mul, ← Nat.add_assoc]
        exact sizeWrap_of_lt (by omega)
      obtain ⟨page, s₁, c₁, hr, h₁, hiff⟩ := page_genuine_iff header
        (pageStart + i * header.ceKey.pageSize) (pageStart + (i + 1) * header.ceKey.pageSize) hs
      obtain ⟨pages, hpages, hlen, hall⟩ :=
        ih (i := i + 1) h₁ (by rwa [Nat.add_right_comm, Nat.add_assoc])
      refine ⟨page :: pages, ?_, by rw [List.length_cons, hlen], fun k q hq => ?_⟩
      · rw [readPages]
        dsimp only
        rw [hstart, hend, hr, Exec.ok_bind]
        dsimp only
        rw [hpages, Exec.ok_bind]
      · cases k with
        | zero =>
            cases hq
            exact hiff
        | succ k =>
            have := hall k q hq
            rwa [show i + 1 + k = i + (k + 1) by omega] at this

/-! ## Manifests -/

/-- The constructor returns, and every entry that it stores is one of the
stream, inside its page. -/
def ReadsGenuine (b : Buffer) : Prop :=
  ∃ encoding, read (GrowableMemoryStream.ofBuffer b) = .ok encoding ∧
    ∀ i page, encoding.cekeyPages[i]? = some page →
      Genuine encoding.header b.bytes (pageOffset encoding.header (i + 1))
        (pageOffset encoding.header i) page

/-- No page of the manifest is torn. -/
def Untorn (d : Bytes) : Prop :=
  (headerAt d).signature = 0x454E → ∀ i < (headerAt d).ceKey.pageCount,
    ¬ Torn (headerAt d) d (pageOffset (headerAt d) (i + 1)) (pageOffset (headerAt d) i)

/-- Nothing that the constructor adds up wraps. -/
theorem pageOffset_lt (d : Bytes) :
    pageOffset (headerAt d) (headerAt d).ceKey.pageCount < 2 ^ 63 := by
  rw [pageOffset, headerAt]
  split
  · decide
  · have heSpec := beNat_window_lt d 18 4
    have hcount := beNat_window_lt d 9 4
    have hkeySize := leNat_window_lt d 3 1
    have hpageSize := beNat_window_lt d 5 2
    have hindex : beNat (window d 9 4) * (0x10 + leNat (window d 3 1)) ≤ 256 ^ 4 * (0x10 + 256) :=
      Nat.mul_le_mul (Nat.le_of_lt hcount) (by omega)
    have hpages : beNat (window d 9 4) * (beNat (window d 5 2) * 1024) ≤
        256 ^ 4 * (256 ^ 2 * 1024) :=
      Nat.mul_le_mul (Nat.le_of_lt hcount) (by omega)
    dsimp only
    omega

/-- Behind the header and the ESpec block nothing wraps. -/
theorem signed_start {σ : Type} [IReadableStream σ] [LawfulReadable σ] {s : σ} (hs : Rep s d 0)
    (h : (headerAt d).signature = 0x454E) :
    ∃ s', Header.read s = .ok (headerAt d, s') ∧
      Rep (skipRead s' (headerAt d).eSpecBlockSize) d (22 + (headerAt d).eSpecBlockSize) ∧
      sizeWrap (22 + (headerAt d).eSpecBlockSize +
          sizeWrap ((headerAt d).ceKey.pageCount * (0x10 + (headerAt d).encodingKeySize))) =
        22 + (headerAt d).eSpecBlockSize +
          (headerAt d).ceKey.pageCount * (0x10 + (headerAt d).encodingKeySize) := by
  have hlen : 22 ≤ d.length := by
    by_contra hshort
    rw [headerAt, if_pos (Nat.lt_of_not_le hshort)] at h
    exact absurd h (by decide)
  have hlt := pageOffset_lt d
  rw [pageOffset] at hlt
  obtain ⟨s', hr, hs'⟩ := read_headerAt hs
  exact ⟨s', hr, skipRead_of_lt (hs' hlen) (lt_sizeMax (by omega)),
    sizeWrap_add_sizeWrap (lt_sizeMax (by omega))⟩

/-- A byte string without the signature has no pages. -/
theorem read_unsigned (b : Buffer) (h : (headerAt b.bytes).signature ≠ 0x454E) :
    read (GrowableMemoryStream.ofBuffer b) = .ok ⟨headerAt b.bytes, []⟩ := by
  obtain ⟨s, hr, -⟩ := read_headerAt (GrowableMemoryStream.ofBuffer_rep b)
  rw [read, hr, Exec.ok_bind]
  dsimp only
  rw [if_pos h]

/-- One with the signature has as many as its header says. -/
theorem read_signed (b : Buffer) (h : (headerAt b.bytes).signature = 0x454E) :
    ∃ pages, read (GrowableMemoryStream.ofBuffer b) = .ok ⟨headerAt b.bytes, pages⟩ ∧
      pages.length = (headerAt b.bytes).ceKey.pageCount ∧
      ∀ i page, pages[i]? = some page →
        (Genuine (headerAt b.bytes) b.bytes (pageOffset (headerAt b.bytes) (i + 1))
          (pageOffset (headerAt b.bytes) i) page ↔
        ¬ Torn (headerAt b.bytes) b.bytes (pageOffset (headerAt b.bytes) (i + 1))
          (pageOffset (headerAt b.bytes) i)) := by
  have hlt := pageOffset_lt b.bytes
  rw [pageOffset] at hlt
  obtain ⟨s, hr, hskip, hstart⟩ := signed_start (GrowableMemoryStream.ofBuffer_rep b) h
  rw [read, hr, Exec.ok_bind]
  dsimp only
  rw [if_neg (not_not_intro h), getReadCursor_eq hskip, hstart]
  obtain ⟨pages, hpages, hcount, hall⟩ := pages_genuine_iff (headerAt b.bytes)
    (22 + (headerAt b.bytes).eSpecBlockSize +
      (headerAt b.bytes).ceKey.pageCount * (0x10 + (headerAt b.bytes).encodingKeySize))
    (headerAt b.bytes).ceKey.pageCount hskip
    (by rw [Nat.zero_add]; exact lt_sizeMax hlt)
  rw [hpages, Exec.ok_bind]
  refine ⟨pages, rfl, hcount, fun i page hpage => ?_⟩
  have := hall i page hpage
  rwa [Nat.zero_add] at this

/-- Whether a truncated manifest yields entries that are not in it. -/
theorem read_genuine_iff (b : Buffer) : ReadsGenuine b ↔ Untorn b.bytes := by
  rw [ReadsGenuine, Untorn]
  by_cases hsignature : (headerAt b.bytes).signature = 0x454E
  · obtain ⟨pages, hread, hcount, hall⟩ := read_signed b hsignature
    rw [hread]
    constructor
    · rintro ⟨_, hok, hgenuine⟩ - i hi
      cases hok
      have hlt : i < pages.length := hcount ▸ hi
      have hpage : pages[i]? = some pages[i] := List.getElem?_eq_getElem hlt
      exact (hall i _ hpage).mp (hgenuine i _ hpage)
    · intro huntorn
      refine ⟨_, rfl, fun i page hpage => (hall i page hpage).mpr (huntorn hsignature i ?_)⟩
      rw [← hcount]
      exact (List.getElem?_eq_some_iff.mp hpage).1
  · rw [read_unsigned b hsignature]
    refine iff_of_true ⟨_, rfl, fun i page hpage => ?_⟩ fun h => absurd h hsignature
    cases hpage

/-- One page of one kilobyte, of which the byte string ends behind the first key
count. -/
def cutManifest : Buffer :=
  ⟨beBytes 2 0x454E ++ [1, 1, 1] ++ beBytes 2 1 ++ beBytes 2 0 ++ beBytes 4 1 ++ beBytes 4 0 ++
    [0] ++ beBytes 4 0 ++ List.replicate 17 0 ++ [1], by decide⟩

/-- An entry of which one byte is in the stream is stored, with keys of zeros. -/
theorem read_invents :
    (∃ header, read (GrowableMemoryStream.ofBuffer cutManifest) =
      .ok ⟨header, [[⟨0, [0], [0], 1⟩]]⟩) ∧ ¬ ReadsGenuine cutManifest := by
  have hread : read (GrowableMemoryStream.ofBuffer cutManifest) =
      .ok ⟨headerAt cutManifest.bytes, [[⟨0, [0], [0], 1⟩]]⟩ := by decide
  refine ⟨⟨_, hread⟩, ?_⟩
  rintro ⟨encoding, hok, hgenuine⟩
  cases hread.symm.trans hok
  exact absurd (hgenuine 0 _ rfl).1 (by decide)

end Encoding

end Tactmon
