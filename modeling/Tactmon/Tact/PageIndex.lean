import Tactmon.Tact.TruncatedManifest

/-!
# The index of the pages

The constructor of `Encoding` measures the index twice.  Where the pages start
is computed from their count and the size of an encoding key.  Each constructor
of `Page` steps over one record of the index, and asks `HashSize` for the size,
which is that of a content key.

`construct` is the constructor with the offset it computes and the stream it
leaves.  `buildPages_cursor` says where the loop over the pages leaves the read
cursor, and `measuresTwice_iff` when that is the offset.
-/

namespace Tactmon

open Binary Cxx CursorReadable LawfulReadable

namespace Encoding

section Construct

variable {σ : Type} [IReadableStream σ]

/-! ## The constructor and its stream -/

/-- The loop over the pages, with the stream as it leaves it. -/
def buildPages (header : Header) (pageStart : Nat) : Nat → Nat → σ → Exec (List Page × σ)
  | 0, _, stream => .ok ([], stream)
  | count + 1, i, stream => do
      let pageOffset := sizeWrap (pageStart + sizeWrap (i * header.ceKey.pageSize))
      let pageEnd := sizeWrap (pageOffset + header.ceKey.pageSize)
      let (page, stream) ← Page.read stream header pageOffset pageEnd
      let (pages, stream) ← buildPages header pageStart count (i + 1) stream
      .ok (page :: pages, stream)

/-- The constructor, with the start of the pages if it comes to them. -/
def construct (stream : σ) : Exec (Encoding × Option Nat × σ) := do
  let (header, stream) ← Header.read stream
  if header.signature ≠ 0x454E then .ok (⟨header, []⟩, none, stream)
  else do
    let stream := skipRead stream header.eSpecBlockSize
    let pageStart := sizeWrap (getReadCursor stream +
      sizeWrap (header.ceKey.pageCount * (0x10 + header.encodingKeySize)))
    let (cekeyPages, stream) ← buildPages header pageStart header.ceKey.pageCount 0 stream
    .ok (⟨header, cekeyPages⟩, some pageStart, stream)

/-- Behind the constructor the read cursor is where the pages start. -/
def MeasuresTwice (stream : σ) : Prop :=
  ∃ encoding pageStart stream', construct stream = .ok (encoding, pageStart, stream') ∧
    ∀ offset ∈ pageStart, getReadCursor stream' = offset

theorem readPages_eq_map (header : Header) (pageStart count : Nat) :
    ∀ (i : Nat) (stream : σ), readPages header pageStart count i stream =
      (buildPages header pageStart count i stream).map Prod.fst := by
  induction count with
  | zero => exact fun _ _ => rfl
  | succ count ih =>
      intro i stream
      rw [readPages, buildPages]
      cases Page.read stream header (sizeWrap (pageStart + sizeWrap (i * header.ceKey.pageSize)))
          (sizeWrap (sizeWrap (pageStart + sizeWrap (i * header.ceKey.pageSize)) +
            header.ceKey.pageSize)) with
      | error f => rfl
      | ok r =>
          dsimp only
          rw [Exec.ok_bind, Exec.ok_bind, ih]
          cases buildPages header pageStart count (i + 1) r.2 with
          | error f => rfl
          | ok r' => rfl

/-- The manifest is the one that `read` returns. -/
theorem read_eq_map (stream : σ) : read stream = (construct stream).map Prod.fst := by
  rw [read, construct]
  cases Header.read stream with
  | error f => rfl
  | ok r =>
      rw [Exec.ok_bind, Exec.ok_bind]
      dsimp only
      split
      · rfl
      · rw [readPages_eq_map]
        cases buildPages r.1 (sizeWrap (getReadCursor (skipRead r.2 r.1.eSpecBlockSize) +
            sizeWrap (r.1.ceKey.pageCount * (0x10 + r.1.encodingKeySize))))
            r.1.ceKey.pageCount 0 (skipRead r.2 r.1.eSpecBlockSize) with
        | error f => rfl
        | ok r' => rfl

end Construct

/-! ## The two measures -/

/-- The end of an index with keys of this size. -/
def indexEnd (header : Header) (keySize : Nat) : Nat :=
  22 + header.eSpecBlockSize + header.ceKey.pageCount * (0x10 + keySize)

/-- The records the loop steps over and the pages it seeks to are in the stream. -/
def LongEnough (d : Bytes) : Prop :=
  (headerAt d).signature = 0x454E →
    indexEnd (headerAt d) (headerAt d).contentKeySize ≤ d.length ∧
      pageOffset (headerAt d) (headerAt d).ceKey.pageCount ≤ d.length

instance (d : Bytes) : Decidable (LongEnough d) :=
  inferInstanceAs (Decidable (_ → _))

/-- An index is as long with keys of one size as with keys of another when it is
empty or the sizes agree. -/
theorem indexEnd_inj (header : Header) (keySize keySize' : Nat) :
    indexEnd header keySize = indexEnd header keySize' ↔
      header.ceKey.pageCount = 0 ∨ keySize = keySize' := by
  rw [indexEnd, indexEnd, Nat.add_left_cancel_iff]
  rcases Nat.eq_zero_or_pos header.ceKey.pageCount with hzero | hpos
  · rw [hzero, Nat.zero_mul, Nat.zero_mul]
    exact iff_of_true rfl (.inl rfl)
  · rw [Nat.mul_right_inj (Nat.ne_of_gt hpos), Nat.add_left_cancel_iff,
      or_iff_right (Nat.ne_of_gt hpos)]

section Read

variable {σ : Type} [IReadableStream σ] [LawfulReadable σ] {s : σ} {d : Bytes} {c : Nat}

/-! ## Where the constructor leaves the cursor -/

/-- A page moves the cursor over one record of the index, wherever it lies. -/
theorem page_cursor (header : Header) {pageOffset : Nat} (pageEnd : Nat) (hs : Rep s d c)
    (hindex : c + (header.contentKeySize + 0x10) ≤ d.length) (hpage : pageOffset ≤ d.length) :
    ∃ page s', Page.read s header pageOffset pageEnd = .ok (page, s') ∧
      Rep s' d (c + (header.contentKeySize + 0x10)) := by
  have hfits := fits hs
  have hskip := skipRead_of_lt hs (lt_sizeMax (Nat.lt_of_le_of_lt hindex hfits))
  have hseek : Rep (seekRead (skipRead s (header.contentKeySize + 0x10)) pageOffset).2 d
      (min pageOffset d.length) := by
    rw [Nat.min_eq_left hpage]
    exact seekRead_of_le hskip hpage
  obtain ⟨page, s₁, _, hr, h₁, -⟩ :=
    readEntries_genuine_iff header pageEnd pageEnd hseek (Nat.le_add_left _ _)
  rw [Page.read]
  dsimp only
  rw [CEKeyPageTable.hashSize, sizeWrap_of_lt (lt_sizeMax (by omega)), getReadCursor_eq hskip, hr,
    Exec.ok_bind]
  exact ⟨page, _, rfl, seekRead_of_le h₁ hindex⟩

/-- The loop moves it over one record for each page. -/
theorem buildPages_cursor (header : Header) (pageStart count : Nat) :
    ∀ {i c : Nat} {s : σ}, Rep s d c →
      c + count * (header.contentKeySize + 0x10) ≤ d.length →
      pageStart + (i + count) * header.ceKey.pageSize ≤ d.length →
      ∃ pages s', buildPages header pageStart count i s = .ok (pages, s') ∧
        pages.length = count ∧ Rep s' d (c + count * (header.contentKeySize + 0x10)) := by
  induction count with
  | zero =>
      intro i c s hs _ _
      rw [Nat.zero_mul, Nat.add_zero]
      exact ⟨[], s, rfl, rfl, hs⟩
  | succ count ih =>
      intro i c s hs hindex hpages
      have hfits := fits hs
      have hfirst : i * header.ceKey.pageSize ≤ (i + (count + 1)) * header.ceKey.pageSize :=
        Nat.mul_le_mul_right _ (Nat.le_add_right _ _)
      have hstart : sizeWrap (pageStart + sizeWrap (i * header.ceKey.pageSize)) =
          pageStart + i * header.ceKey.pageSize :=
        sizeWrap_add_sizeWrap (lt_sizeMax (by omega))
      rw [Nat.succ_mul, Nat.add_comm (count * _), ← Nat.add_assoc] at hindex ⊢
      obtain ⟨page, s₁, hr, h₁⟩ := page_cursor header
        (sizeWrap (pageStart + i * header.ceKey.pageSize + header.ceKey.pageSize)) hs
        ((Nat.le_add_right _ _).trans hindex)
        (show pageStart + i * header.ceKey.pageSize ≤ d.length by omega)
      obtain ⟨pages, s₂, hrest, hcount, h₂⟩ :=
        ih (i := i + 1) h₁ hindex (by rwa [Nat.add_right_comm, Nat.add_assoc])
      refine ⟨page :: pages, s₂, ?_, by rw [List.length_cons, hcount], h₂⟩
      rw [buildPages]
      dsimp only
      rw [hstart, hr, Exec.ok_bind]
      dsimp only
      rw [hrest, Exec.ok_bind]

/-- A byte string without the signature has no index. -/
theorem construct_unsigned (hs : Rep s d 0) (h : (headerAt d).signature ≠ 0x454E) :
    ∃ s', construct s = .ok (⟨headerAt d, []⟩, none, s') := by
  obtain ⟨s', hr, -⟩ := read_headerAt hs
  rw [construct, hr, Exec.ok_bind]
  dsimp only
  rw [if_pos h]
  exact ⟨s', rfl⟩

/-- Otherwise the pages start behind an index of encoding keys, and the cursor
is behind one of content keys. -/
theorem construct_signed (hs : Rep s d 0) (h : (headerAt d).signature = 0x454E)
    (hlong : LongEnough d) :
    ∃ pages s', construct s = .ok (⟨headerAt d, pages⟩,
        some (indexEnd (headerAt d) (headerAt d).encodingKeySize), s') ∧
      pages.length = (headerAt d).ceKey.pageCount ∧
      Rep s' d (indexEnd (headerAt d) (headerAt d).contentKeySize) := by
  obtain ⟨hindex, hpages⟩ := hlong h
  rw [indexEnd, Nat.add_comm 0x10] at hindex
  obtain ⟨s₁, hr, hskip, hstart⟩ := signed_start hs h
  obtain ⟨pages, s₂, hbuild, hcount, h₂⟩ := buildPages_cursor (headerAt d)
    (indexEnd (headerAt d) (headerAt d).encodingKeySize) (headerAt d).ceKey.pageCount
    (i := 0) hskip hindex (by rwa [Nat.zero_add])
  refine ⟨pages, s₂, ?_, hcount, ?_⟩
  · rw [construct, hr, Exec.ok_bind]
    dsimp only
    rw [if_neg (not_not_intro h), getReadCursor_eq hskip, hstart, ← indexEnd, hbuild, Exec.ok_bind]
  · rwa [indexEnd, Nat.add_comm 0x10]

/-- The two measures agree exactly when there is nothing to measure, or the keys
are of one size. -/
theorem measuresTwice_iff (hs : Rep s d 0) (hlong : LongEnough d) :
    MeasuresTwice s ↔ (headerAt d).signature ≠ 0x454E ∨ (headerAt d).ceKey.pageCount = 0 ∨
      (headerAt d).contentKeySize = (headerAt d).encodingKeySize := by
  by_cases hsignature : (headerAt d).signature = 0x454E
  · obtain ⟨pages, s', hread, -, hs'⟩ := construct_signed hs hsignature hlong
    rw [or_iff_right (not_not_intro hsignature), ← indexEnd_inj, ← getReadCursor_eq hs',
      MeasuresTwice, hread]
    constructor
    · rintro ⟨_, _, _, hok, hmeasure⟩
      cases hok
      exact hmeasure _ rfl
    · intro hcursor
      refine ⟨_, _, _, rfl, ?_⟩
      rintro _ ⟨⟩
      exact hcursor
  · obtain ⟨s', hread⟩ := construct_unsigned hs hsignature
    exact iff_of_true ⟨_, _, s', hread, nofun⟩ (.inl hsignature)

end Read

/-- One page of one kilobyte, all padding, behind a record of a 16-byte key. -/
def paddedManifest : Buffer :=
  ⟨beBytes 2 0x454E ++ [1, 16, 16] ++ beBytes 2 1 ++ beBytes 2 0 ++ beBytes 4 1 ++ beBytes 4 0 ++
    [0] ++ beBytes 4 0 ++ List.replicate (32 + 1024) 0, by
    rw [List.length_append, List.length_replicate]
    decide⟩

theorem measuresTwice_padded :
    LongEnough paddedManifest.bytes ∧
      MeasuresTwice (GrowableMemoryStream.ofBuffer paddedManifest) := by
  have hlong : LongEnough paddedManifest.bytes := by decide +kernel
  have hsizes : (headerAt paddedManifest.bytes).contentKeySize =
      (headerAt paddedManifest.bytes).encodingKeySize := by decide +kernel
  have hread := GrowableMemoryStream.ofBuffer_rep paddedManifest
  exact ⟨hlong, (measuresTwice_iff hread hlong).mpr (.inr (.inr hsizes))⟩

/-- The same page behind a record of a content key of 16 bytes, where encoding
keys have 9. -/
def unevenManifest : Buffer :=
  ⟨beBytes 2 0x454E ++ [1, 9, 16] ++ beBytes 2 1 ++ beBytes 2 0 ++ beBytes 4 1 ++ beBytes 4 0 ++
    [0] ++ beBytes 4 0 ++ List.replicate (32 + 1024) 0, by
    rw [List.length_append, List.length_replicate]
    decide⟩

/-- The cursor is at 54, and the page was looked for at 47. -/
theorem measures_uneven :
    LongEnough unevenManifest.bytes ∧
      ¬ MeasuresTwice (GrowableMemoryStream.ofBuffer unevenManifest) := by
  have hcursor : (construct (GrowableMemoryStream.ofBuffer unevenManifest)).map
      (fun r => (r.2.1, getReadCursor r.2.2)) = .ok (some 47, 54) := by decide +kernel
  refine ⟨by decide +kernel, ?_⟩
  rintro ⟨encoding, pageStart, s', hread, hmeasure⟩
  rw [hread] at hcursor
  obtain ⟨hstart, hend⟩ := Prod.mk.inj (Except.ok.inj hcursor)
  have hpages := hmeasure 47 hstart
  rw [hpages] at hend
  cases hend

end Encoding

end Tactmon
