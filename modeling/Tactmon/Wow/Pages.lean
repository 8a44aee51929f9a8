import Tactmon.Lib.Text
import Tactmon.Wow.Root

/-!
# The pages of a root file

`Root::Parse` cuts the stream into pages and posts a task for each of them.
`dispatch` is `Root::Parse` up to where the page loop is left: the pages posted
so far, and whether the loop came to the end of the stream
(`parse_eq_dispatch`).

What the loop does is told by the bytes alone.  `PageAt` is a page whose header
is at an offset, `Tiles` is a row of pages that follow one another, and
`CutShort` says that the end of the stream cuts the file header or a page.

The loop always ends.  With content keys of at most 255 bytes no length wraps,
the pages tile the stream, and the loop gives up exactly on a stream that is cut
short (`dispatch_tiles`).
-/

namespace Tactmon

namespace Wow

namespace Root

open Binary Cxx Text CursorReadable LawfulReadable

/-! ## The page loop -/

/-- How `Root::Parse` leaves the page loop. -/
structure Dispatch where
  interleave : Bool
  canSkip : Bool
  /-- The pages that were posted, in order. -/
  pages : List PageInfo
  /-- The loop came to the end of the stream. -/
  completed : Bool

/-- What `Root::Parse` returns once the loop is left. -/
def Dispatch.collect (d : Dispatch) (contentKeySize : Nat) : Exec (Option Root) :=
  if d.completed then do
    let blocks ← parseBlocks contentKeySize d.interleave d.canSkip d.pages
    .ok (some ⟨blocks⟩)
  else .ok none

section Dispatch

variable {σ : Type} [IReadableStream σ]

/-- The page loop, with the pages that were posted before it gave up. -/
def dispatchPages (contentKeySize : Nat) (interleave canSkip : Bool) :
    Nat → σ → Exec (List PageInfo × Bool)
  | 0, stream =>
      if getReadCursor stream < getLength stream then .error .diverges else .ok ([], true)
  | fuel + 1, stream =>
      if getReadCursor stream < getLength stream then do
        match ← readPage contentKeySize interleave canSkip stream with
        | none => .ok ([], false)
        | some (page, stream) =>
            let (pages, completed) ← dispatchPages contentKeySize interleave canSkip fuel stream
            .ok (page :: pages, completed)
      else .ok ([], true)

/-- `Root::Parse` from the page loop on, up to where the loop is left. -/
def dispatchFrom (contentKeySize : Nat) (interleave canSkip : Bool) (stream : σ) :
    Exec Dispatch := do
  let (pages, completed) ← dispatchPages contentKeySize interleave canSkip (getLength stream) stream
  .ok ⟨interleave, canSkip, pages, completed⟩

/-- `Root::Parse` up to where the page loop is left. -/
def dispatch (stream : σ) (contentKeySize : Nat) : Exec Dispatch :=
  if !canRead stream 4 then .ok ⟨true, false, [], false⟩
  else do
    let (magic, stream) ← readInt 4 stream .little
    if magic = tsfmMagic then
      if !canRead stream 8 then .ok ⟨true, false, [], false⟩
      else do
        let (totalFileCount, stream) ← readInt 4 stream .little
        let (namedFileCount, stream) ← readInt 4 stream .little
        dispatchFrom contentKeySize false (totalFileCount ≠ namedFileCount) stream
    else dispatchFrom contentKeySize true false stream

variable {contentKeySize : Nat} {interleave canSkip : Bool}

/-- The loop returns the pages when it comes to the end. -/
theorem readPages_eq (fuel : Nat) :
    ∀ stream : σ, readPages contentKeySize interleave canSkip fuel stream = (do
      let (pages, completed) ← dispatchPages contentKeySize interleave canSkip fuel stream
      .ok (if completed then some pages else none)) := by
  induction fuel with
  | zero =>
      intro stream
      rw [readPages, dispatchPages]
      split
      · rfl
      · rfl
  | succ fuel ih =>
      intro stream
      rw [readPages, dispatchPages]
      split
      · cases readPage contentKeySize interleave canSkip stream with
        | error f => rfl
        | ok r =>
            cases r with
            | none => rfl
            | some r =>
                simp only [Exec.ok_bind, ih]
                cases dispatchPages contentKeySize interleave canSkip fuel r.2 with
                | error f => rfl
                | ok r =>
                    obtain ⟨pages, completed⟩ := r
                    cases completed with
                    | false => rfl
                    | true => rfl
      · rfl

theorem readPages_eq_some {fuel : Nat} {stream : σ} {pages : List PageInfo} :
    readPages contentKeySize interleave canSkip fuel stream = .ok (some pages) ↔
      dispatchPages contentKeySize interleave canSkip fuel stream = .ok (pages, true) := by
  rw [readPages_eq]
  cases dispatchPages contentKeySize interleave canSkip fuel stream with
  | error f => simp
  | ok r =>
      obtain ⟨pages', completed⟩ := r
      cases completed with
      | false => simp
      | true => simp

theorem parsePages_eq (stream : σ) :
    parsePages contentKeySize interleave canSkip stream = (do
      let d ← dispatchFrom contentKeySize interleave canSkip stream
      d.collect contentKeySize) := by
  rw [parsePages, readPages_eq, dispatchFrom]
  cases dispatchPages contentKeySize interleave canSkip (getLength stream) stream with
  | error f => rfl
  | ok r =>
      obtain ⟨pages, completed⟩ := r
      cases completed with
      | false => rfl
      | true => rfl

/-- `Root::Parse` is the page loop, and then the blocks of its pages. -/
theorem parse_eq_dispatch (stream : σ) (contentKeySize : Nat) :
    parse stream contentKeySize = (do
      let d ← dispatch stream contentKeySize
      d.collect contentKeySize) := by
  rw [parse, dispatch]
  split
  · rfl
  · cases readInt 4 stream .little with
    | error f => rfl
    | ok r =>
        simp only [Exec.ok_bind]
        split
        · split
          · rfl
          · cases readInt 4 r.2 .little with
            | error f => rfl
            | ok r₁ =>
                simp only [Exec.ok_bind]
                cases readInt 4 r₁.2 .little with
                | error f => rfl
                | ok r₂ => exact parsePages_eq r₂.2
        · exact parsePages_eq r.2

end Dispatch

/-! ## Pages in the bytes -/

/-- What the file header says of the pages. -/
structure FileLayout where
  interleave : Bool
  canSkip : Bool
  /-- Where the first page begins. -/
  start : Nat
deriving DecidableEq, Repr

/-- The layout of a file. -/
def layoutOf (bytes : Bytes) : FileLayout :=
  if leNat (window bytes 0 4) = tsfmMagic then
    ⟨false, leNat (window bytes 4 4) ≠ leNat (window bytes 8 4), 12⟩
  else ⟨true, false, 4⟩

theorem layoutOf_pos {bytes : Bytes} (h : leNat (window bytes 0 4) = tsfmMagic) :
    layoutOf bytes = ⟨false, leNat (window bytes 4 4) ≠ leNat (window bytes 8 4), 12⟩ := if_pos h

theorem layoutOf_neg {bytes : Bytes} (h : leNat (window bytes 0 4) ≠ tsfmMagic) :
    layoutOf bytes = ⟨true, false, 4⟩ := if_neg h

/-- The pages with these flags have name hashes. -/
def FileLayout.named (layout : FileLayout) (contentFlags : UInt32) : Bool :=
  layout.interleave || hasNameHashes layout.canSkip contentFlags

/-- The fields of the page header at offset `o`. -/
def numRecordsAt (bytes : Bytes) (o : Nat) : Nat := leNat (window bytes o 4)

def contentFlagsAt (bytes : Bytes) (o : Nat) : UInt32 := .ofNat (leNat (window bytes (o + 4) 4))

def localeFlagsAt (bytes : Bytes) (o : Nat) : UInt32 := .ofNat (leNat (window bytes (o + 8) 4))

theorem numRecordsAt_lt (bytes : Bytes) (o : Nat) : numRecordsAt bytes o < 2 ^ 32 :=
  leNat_window_lt bytes o 4

/-- The number of bytes behind a page header, when nothing wraps. -/
def payloadLength (contentKeySize numRecords : Nat) (named : Bool) : Nat :=
  numRecords * (4 + contentKeySize) + if named then 8 * numRecords else 0

section Tiles

variable (length : Nat → Bool → Nat) (layout : FileLayout) (bytes : Bytes)

/-- The number of bytes behind the page header at offset `o`, where `length`
is computed from the record count. -/
def lengthAt (o : Nat) : Nat :=
  length (numRecordsAt bytes o) (layout.named (contentFlagsAt bytes o))

/-- The page whose header is at offset `o`.  Its span is what lies behind the
header. -/
structure PageAt (o : Nat) (page : PageInfo) : Prop where
  numRecords_eq : page.numRecords = numRecordsAt bytes o
  contentFlags_eq : page.contentFlags = contentFlagsAt bytes o
  localeFlags_eq : page.localeFlags = localeFlagsAt bytes o
  size_eq : page.data.size = lengthAt length layout bytes o
  mem_eq : page.data.mem = bytes.drop (o + 12)
  inside : o + 12 + lengthAt length layout bytes o ≤ bytes.length

/-- The pages follow one another from an offset to an offset. -/
inductive Tiles : Nat → List PageInfo → Nat → Prop
  | nil (o : Nat) : Tiles o [] o
  | cons {o e : Nat} {page : PageInfo} {pages : List PageInfo} :
      PageAt length layout bytes o page →
      Tiles (o + 12 + lengthAt length layout bytes o) pages e →
      Tiles o (page :: pages) e

/-- A page begins at the offset, and the end of the bytes cuts its header or
what lies behind it. -/
def CutAt (o : Nat) : Prop :=
  o < bytes.length ∧
    (bytes.length < o + 12 ∨ bytes.length < o + 12 + lengthAt length layout bytes o)

variable {length layout bytes}

/-- The span of a page is the bytes behind its header. -/
theorem PageAt.bytes_eq {o : Nat} {page : PageInfo} (h : PageAt length layout bytes o page) :
    page.data.bytes = window bytes (o + 12) (lengthAt length layout bytes o) := by
  rw [Span.bytes, h.mem_eq, h.size_eq, window]

/-- How far the pages reach. -/
theorem Tiles.sum_eq {o e : Nat} {pages : List PageInfo} (h : Tiles length layout bytes o pages e) :
    o + (pages.map fun page => 12 + page.data.size).sum = e := by
  induction h with
  | nil o => rfl
  | cons hpage _ ih =>
      rw [← ih, List.map_cons, List.sum_cons, hpage.size_eq]
      omega

/-- Each span has the length that its own header gives. -/
theorem Tiles.size_eq {o e : Nat} {pages : List PageInfo}
    (h : Tiles length layout bytes o pages e) :
    ∀ page ∈ pages, page.data.size =
      length page.numRecords (layout.named page.contentFlags) := by
  induction h with
  | nil => exact fun page hpage => absurd hpage List.not_mem_nil
  | cons hpage _ ih =>
      refine List.forall_mem_cons.mpr ⟨?_, ih⟩
      rw [hpage.size_eq, hpage.numRecords_eq, hpage.contentFlags_eq, lengthAt]

/-- Pages that reach the end of the bytes have a page wherever one begins. -/
theorem Tiles.exists_page {o o' : Nat} {pages pages' : List PageInfo}
    (h : Tiles length layout bytes o pages bytes.length)
    (h' : Tiles length layout bytes o pages' o') (hlt : o' < bytes.length) :
    ∃ page ∈ pages, PageAt length layout bytes o' page := by
  induction h' generalizing pages with
  | nil o =>
      cases h with
      | nil => exact absurd hlt (Nat.lt_irrefl _)
      | cons hpage _ => exact ⟨_, List.mem_cons_self, hpage⟩
  | cons hpage' _ ih =>
      cases h with
      | nil =>
          have := hpage'.inside
          omega
      | cons hpage hrest =>
          obtain ⟨page, hmem, hat⟩ := ih hrest hlt
          exact ⟨page, List.mem_cons_of_mem _ hmem, hat⟩

/-- They leave no page that is cut. -/
theorem Tiles.not_cutAt {o o' : Nat} {pages pages' : List PageInfo}
    (h : Tiles length layout bytes o pages bytes.length)
    (h' : Tiles length layout bytes o pages' o') : ¬ CutAt length layout bytes o' := by
  intro hcut
  obtain ⟨hlt, hcut⟩ := hcut
  obtain ⟨page, -, hat⟩ := h.exists_page h' hlt
  have := hat.inside
  omega

/-- Each page begins somewhere. -/
theorem Tiles.exists_start {o e : Nat} {pages : List PageInfo} {page : PageInfo}
    (h : Tiles length layout bytes o pages e) (hmem : page ∈ pages) :
    ∃ pages' o', Tiles length layout bytes o pages' o' ∧ PageAt length layout bytes o' page := by
  induction h with
  | nil => exact absurd hmem List.not_mem_nil
  | @cons o e first pages hpage _ ih =>
      rcases List.mem_cons.mp hmem with heq | hrest
      · exact ⟨[], o, .nil o, heq ▸ hpage⟩
      · obtain ⟨pages', o', htiles, hat⟩ := ih hrest
        exact ⟨first :: pages', o', .cons hpage htiles, hat⟩

end Tiles

/-- The end of the bytes cuts the file header or one of the pages behind it. -/
def CutShort (contentKeySize : Nat) (bytes : Bytes) : Prop :=
  bytes.length < 12 ∨
    ∃ pages o, Tiles (payloadLength contentKeySize) (layoutOf bytes) bytes 12 pages o ∧
      CutAt (payloadLength contentKeySize) (layoutOf bytes) bytes o

/-! ## One turn of the loop -/

section Pages

variable {σ : Type} [IReadableStream σ] [LawfulReadable σ] {contentKeySize : Nat}
  {layout : FileLayout} {bytes : Bytes}

variable (contentKeySize layout) in
/-- The page header is read, and the rest depends on its fields. -/
theorem readPage_header {stream : σ} {c : Nat} (hs : Rep stream bytes c)
    (hc : c + 12 ≤ bytes.length) :
    ∃ stream' : σ, Rep stream' bytes (c + 12) ∧
      readPage contentKeySize layout.interleave layout.canSkip stream =
        (if !canRead stream' (lengthAt (pageLength contentKeySize) layout bytes c) then .ok none
        else do
          let view ← IReadableStream.data stream'
          let data ← view.subspan 0 (lengthAt (pageLength contentKeySize) layout bytes c)
          .ok (some (⟨numRecordsAt bytes c, contentFlagsAt bytes c, localeFlagsAt bytes c, data⟩,
            skipRead stream' (lengthAt (pageLength contentKeySize) layout bytes c)))) := by
  have hfit := fits hs
  have h12 : canRead stream 12 = true :=
    (CursorReadable.canRead_iff hs (lt_sizeMax (by omega))).mpr hc
  obtain ⟨s₁, hr₁, hs₁⟩ := readInt_little (w := 4) hs (by omega)
  obtain ⟨s₂, hr₂, hs₂⟩ := readInt_little (w := 4) hs₁ (by omega)
  obtain ⟨s₃, hr₃, hs₃⟩ := readInt_little (w := 4) hs₂ (by omega)
  refine ⟨s₃, hs₃, ?_⟩
  rw [readPage, h12, Bool.not_true, if_neg Bool.false_ne_true, hr₁, Exec.ok_bind]
  dsimp only
  rw [hr₂, Exec.ok_bind]
  dsimp only
  rw [hr₃, Exec.ok_bind]
  rfl

/-- A header that is cut leaves the loop. -/
theorem readPage_short {interleave canSkip : Bool} {stream : σ} {c : Nat}
    (hs : Rep stream bytes c) (hc : c ≤ bytes.length) (hlt : bytes.length < c + 12) :
    readPage contentKeySize interleave canSkip stream = .ok none := by
  have hfit := fits hs
  have h12 : canRead stream 12 = false := Bool.eq_false_iff.mpr fun h => by
    have := (CursorReadable.canRead_iff hs (add_lt_sizeMax (by omega) (by decide))).mp h
    omega
  rw [readPage, h12]
  rfl

/-- A page that was cut is the page at the cursor. -/
theorem readPage_ok {stream stream' : σ} {c : Nat} {page : PageInfo} (hs : Rep stream bytes c)
    (hc : c ≤ bytes.length)
    (h : readPage contentKeySize layout.interleave layout.canSkip stream =
      .ok (some (page, stream'))) :
    PageAt (pageLength contentKeySize) layout bytes c page ∧
      Rep stream' bytes (c + 12 + lengthAt (pageLength contentKeySize) layout bytes c) := by
  have hfit := fits hs
  by_cases hlt : bytes.length < c + 12
  · rw [readPage_short hs hc hlt] at h
    cases h
  · obtain ⟨s₃, hs₃, hread⟩ := readPage_header contentKeySize layout hs (by omega)
    rw [hread] at h
    split at h
    · cases h
    · obtain ⟨view, hview, h⟩ := Exec.bind_eq_ok.mp h
      obtain ⟨data, hdata, h⟩ := Exec.bind_eq_ok.mp h
      cases h
      have hmem := data_mem hs₃ hview
      obtain ⟨t, ht, -, htsize⟩ := data_eq hs₃ (by omega)
      rw [ht] at hview
      cases hview
      rw [Span.subspan] at hdata
      split at hdata
      · next hle =>
          cases hdata
          rw [Nat.zero_add, htsize] at hle
          have hinside : c + 12 + lengthAt (pageLength contentKeySize) layout bytes c ≤
              bytes.length := by omega
          refine ⟨⟨rfl, rfl, rfl, rfl, ?_, hinside⟩, ?_⟩
          · dsimp only
            rw [List.drop_zero, hmem]
          · exact CursorReadable.skipRead_of_lt hs₃ (lt_sizeMax (by omega))
      · cases hdata

/-- The pages that were cut tile the rest of the stream. -/
theorem dispatchPages_ok (fuel : Nat) :
    ∀ {stream : σ} {c : Nat} {pages : List PageInfo}, Rep stream bytes c → c ≤ bytes.length →
      dispatchPages contentKeySize layout.interleave layout.canSkip fuel stream =
        .ok (pages, true) →
      Tiles (pageLength contentKeySize) layout bytes c pages bytes.length := by
  induction fuel with
  | zero =>
      intro stream c pages hs hc h
      rw [dispatchPages, getReadCursor_eq hs, getLength_eq hs] at h
      split at h
      · cases h
      · cases h
        have hend : c = bytes.length := by omega
        rw [hend]
        exact .nil _
  | succ fuel ih =>
      intro stream c pages hs hc h
      rw [dispatchPages, getReadCursor_eq hs, getLength_eq hs] at h
      split at h
      · obtain ⟨first, hfirst, h⟩ := Exec.bind_eq_ok.mp h
        cases first with
        | none => cases h
        | some r =>
            obtain ⟨page, stream'⟩ := r
            obtain ⟨hpage, hs'⟩ := readPage_ok hs hc hfirst
            obtain ⟨⟨rest, completed⟩, hrest, h⟩ := Exec.bind_eq_ok.mp h
            cases h
            exact .cons hpage (ih hs' hpage.inside hrest)
      · cases h
        have hend : c = bytes.length := by omega
        rw [hend]
        exact .nil _

/-! ## The whole loop -/

section Bounded

variable {length : Nat → Bool → Nat}

/-- The lengths that are computed are these, and they are far from wrapping. -/
structure Unwrapped (contentKeySize : Nat) (length : Nat → Bool → Nat) : Prop where
  length_eq : ∀ n < 2 ^ 32, ∀ named, pageLength contentKeySize n named = length n named
  length_lt : ∀ n < 2 ^ 32, ∀ named, length n named < 2 ^ 63

theorem Unwrapped.lengthAt_eq (h : Unwrapped contentKeySize length) (o : Nat) :
    lengthAt (pageLength contentKeySize) layout bytes o = lengthAt length layout bytes o :=
  h.length_eq _ (numRecordsAt_lt bytes o) _

variable (layout bytes) in
theorem Unwrapped.lengthAt_lt (h : Unwrapped contentKeySize length) (o : Nat) :
    lengthAt length layout bytes o < 2 ^ 63 :=
  h.length_lt _ (numRecordsAt_lt bytes o) _

theorem Unwrapped.pageAt (h : Unwrapped contentKeySize length) {o : Nat} {page : PageInfo}
    (hpage : PageAt (pageLength contentKeySize) layout bytes o page) :
    PageAt length layout bytes o page := by
  have hsize := hpage.size_eq
  have hinside := hpage.inside
  rw [h.lengthAt_eq] at hsize hinside
  exact ⟨hpage.numRecords_eq, hpage.contentFlags_eq, hpage.localeFlags_eq, hsize, hpage.mem_eq,
    hinside⟩

variable (layout) in
/-- The loop cuts the page at the cursor, or leaves because it is cut short. -/
theorem readPage_cases (hlength : Unwrapped contentKeySize length) {stream : σ} {c : Nat}
    (hs : Rep stream bytes c) (hc : c < bytes.length) :
    (∃ page stream', readPage contentKeySize layout.interleave layout.canSkip stream =
        .ok (some (page, stream')) ∧ PageAt length layout bytes c page ∧
        Rep stream' bytes (c + 12 + lengthAt length layout bytes c)) ∨
      readPage contentKeySize layout.interleave layout.canSkip stream = .ok none ∧
        CutAt length layout bytes c := by
  have hfit := fits hs
  have hlt := hlength.lengthAt_lt layout bytes c
  by_cases h12 : bytes.length < c + 12
  · exact .inr ⟨readPage_short hs (by omega) h12, hc, .inl h12⟩
  · obtain ⟨s₃, hs₃, hread⟩ := readPage_header contentKeySize layout hs (by omega)
    rw [hlength.lengthAt_eq] at hread
    have hcan := CursorReadable.canRead_iff hs₃
      (n := lengthAt length layout bytes c) (add_lt_sizeMax (by omega) hlt)
    by_cases hin : c + 12 + lengthAt length layout bytes c ≤ bytes.length
    · obtain ⟨view, hview, -, hvsize⟩ := data_eq hs₃ (by omega)
      obtain ⟨data, hdata, -⟩ := Span.subspan_of_le
        (by omega : 0 + lengthAt length layout bytes c ≤ view.size)
      rw [hcan.mpr hin, Bool.not_true, if_neg Bool.false_ne_true, hview, Exec.ok_bind, hdata,
        Exec.ok_bind] at hread
      obtain ⟨hpage, hs'⟩ := readPage_ok hs (by omega) hread
      rw [hlength.lengthAt_eq] at hs'
      exact .inl ⟨_, _, hread, hlength.pageAt hpage, hs'⟩
    · have hno : canRead s₃ (lengthAt length layout bytes c) = false :=
        Bool.eq_false_iff.mpr fun h => hin (hcan.mp h)
      rw [hno, Bool.not_false, if_pos rfl] at hread
      exact .inr ⟨hread, hc, .inr (by omega)⟩

variable (layout) in
/-- The loop ends.  Its pages tile the stream up to the end, or up to a page
that is cut short. -/
theorem dispatchPages_tiles (hlength : Unwrapped contentKeySize length) (fuel : Nat) :
    ∀ {stream : σ} {c : Nat}, Rep stream bytes c → c ≤ bytes.length → bytes.length ≤ c + fuel →
      ∃ pages completed e,
        dispatchPages contentKeySize layout.interleave layout.canSkip fuel stream =
          .ok (pages, completed) ∧
        Tiles length layout bytes c pages e ∧
        (completed = true ∧ e = bytes.length ∨
          completed = false ∧ CutAt length layout bytes e) := by
  induction fuel with
  | zero =>
      intro stream c hs hc hfuel
      refine ⟨[], true, c, ?_, .nil c, .inl ⟨rfl, by omega⟩⟩
      rw [dispatchPages, getReadCursor_eq hs, getLength_eq hs, if_neg (by omega)]
  | succ fuel ih =>
      intro stream c hs hc hfuel
      rw [dispatchPages, getReadCursor_eq hs, getLength_eq hs]
      by_cases hlt : c < bytes.length
      · rw [if_pos hlt]
        rcases readPage_cases layout hlength hs hlt with hpage | hcut
        · obtain ⟨page, stream', hread, hpage, hs'⟩ := hpage
          obtain ⟨pages, completed, e, hrest, htiles, hend⟩ := ih hs' hpage.inside (by omega)
          refine ⟨page :: pages, completed, e, ?_, .cons hpage htiles, hend⟩
          rw [hread, Exec.ok_bind]
          dsimp only
          rw [hrest, Exec.ok_bind]
        · obtain ⟨hread, hcut⟩ := hcut
          refine ⟨[], false, c, ?_, .nil c, .inr ⟨rfl, hcut⟩⟩
          rw [hread, Exec.ok_bind]
      · rw [if_neg hlt]
        exact ⟨[], true, c, rfl, .nil c, .inl ⟨rfl, by omega⟩⟩

end Bounded

end Pages

/-- Content keys whose size is a byte keep all lengths below `2 ^ 63`. -/
theorem unwrapped_payloadLength {contentKeySize : Nat} (hsize : contentKeySize ≤ 255) :
    Unwrapped contentKeySize (payloadLength contentKeySize) := by
  have hlt : ∀ n < 2 ^ 32, ∀ named, payloadLength contentKeySize n named < 2 ^ 63 := by
    intro n hn named
    have hkeys : n * (4 + contentKeySize) ≤ n * 259 := Nat.mul_le_mul_left n (by omega)
    rw [payloadLength]
    split <;> omega
  refine ⟨fun n hn named => ?_, hlt⟩
  have hpay := hlt n hn named
  have hsum : n * (4 + contentKeySize) = 4 * n + contentKeySize * n := by ring
  rw [payloadLength, hsum] at hpay ⊢
  rw [pageLength]
  cases named with
  | false => exact sizeWrap_of_lt (lt_sizeMax (by simpa using hpay))
  | true =>
      simp only [if_true] at hpay ⊢
      rw [sizeWrap_of_lt (lt_sizeMax (by omega) : 4 * n + contentKeySize * n < sizeMax),
        sizeWrap_of_lt (lt_sizeMax hpay)]

/-! ## Root::Parse -/

section Files

variable {σ : Type} [IReadableStream σ] [LawfulReadable σ] {contentKeySize : Nat} {bytes : Bytes}

/-- The end of the bytes cuts the file header. -/
def HeaderCut (bytes : Bytes) : Prop := bytes.length < (layoutOf bytes).start

variable (contentKeySize) in
/-- A file header that is cut leaves `Root::Parse` with no page posted. -/
theorem dispatch_short {stream : σ} (hs : Rep stream bytes 0) (hcut : HeaderCut bytes) :
    dispatch stream contentKeySize = .ok ⟨true, false, [], false⟩ := by
  rw [HeaderCut] at hcut
  by_cases h4 : 4 ≤ bytes.length
  · by_cases hmagic : leNat (window bytes 0 4) = tsfmMagic
    · rw [layoutOf_pos hmagic] at hcut
      dsimp only at hcut
      obtain ⟨s₁, hr₁, hs₁⟩ := readInt_little (w := 4) hs (by omega)
      have hno : canRead s₁ 8 = false := Bool.eq_false_iff.mpr fun h => by
        have := (CursorReadable.canRead_iff hs₁ (by decide)).mp h
        omega
      rw [dispatch, (CursorReadable.canRead_iff hs (by decide)).mpr (by omega), Bool.not_true,
        if_neg Bool.false_ne_true, hr₁, Exec.ok_bind]
      dsimp only
      rw [if_pos hmagic, hno]
      rfl
    · rw [layoutOf_neg hmagic] at hcut
      exact absurd h4 (Nat.not_le.mpr hcut)
  · have hno : canRead stream 4 = false := Bool.eq_false_iff.mpr fun h => by
      have := (CursorReadable.canRead_iff hs (by decide)).mp h
      omega
    rw [dispatch, hno]
    rfl

variable (contentKeySize) in
/-- Behind the file header comes the page loop, with what the header says. -/
theorem dispatch_header {stream : σ} (hs : Rep stream bytes 0) (hcut : ¬ HeaderCut bytes) :
    ∃ stream' : σ, Rep stream' bytes (layoutOf bytes).start ∧
      dispatch stream contentKeySize =
        dispatchFrom contentKeySize (layoutOf bytes).interleave (layoutOf bytes).canSkip
          stream' := by
  rw [HeaderCut] at hcut
  have hmagic4 : 4 ≤ bytes.length ∧ (leNat (window bytes 0 4) = tsfmMagic → 12 ≤ bytes.length) := by
    by_cases hmagic : leNat (window bytes 0 4) = tsfmMagic
    · rw [layoutOf_pos hmagic] at hcut
      dsimp only at hcut
      exact ⟨by omega, fun _ => by omega⟩
    · rw [layoutOf_neg hmagic] at hcut
      exact ⟨Nat.le_of_not_lt hcut, fun h => absurd h hmagic⟩
  obtain ⟨h4, h12⟩ := hmagic4
  obtain ⟨s₁, hr₁, hs₁⟩ := readInt_little (w := 4) hs (by omega)
  rw [dispatch, (CursorReadable.canRead_iff hs (by decide)).mpr (by omega), Bool.not_true,
    if_neg Bool.false_ne_true, hr₁, Exec.ok_bind]
  dsimp only
  by_cases hmagic : leNat (window bytes 0 4) = tsfmMagic
  · have hlen := h12 hmagic
    obtain ⟨s₂, hr₂, hs₂⟩ := readInt_little (w := 4) hs₁ (by omega)
    obtain ⟨s₃, hr₃, hs₃⟩ := readInt_little (w := 4) hs₂ (by omega)
    rw [layoutOf_pos hmagic, if_pos hmagic]
    refine ⟨s₃, hs₃, ?_⟩
    rw [(CursorReadable.canRead_iff hs₁ (by decide)).mpr (by omega), Bool.not_true,
      if_neg Bool.false_ne_true, hr₂, Exec.ok_bind]
    dsimp only
    rw [hr₃, Exec.ok_bind]
  · rw [layoutOf_neg hmagic, if_neg hmagic]
    exact ⟨s₁, hs₁, rfl⟩

/-- A root that is returned is made of pages that tile the file. -/
theorem parse_tiles {stream : σ} {root : Root} (hs : Rep stream bytes 0)
    (h : parse stream contentKeySize = .ok (some root)) :
    ∃ pages, Tiles (pageLength contentKeySize) (layoutOf bytes) bytes (layoutOf bytes).start pages
        bytes.length ∧
      parseBlocks contentKeySize (layoutOf bytes).interleave (layoutOf bytes).canSkip pages =
        .ok root.blocks := by
  rw [parse_eq_dispatch] at h
  obtain ⟨d, hd, h⟩ := Exec.bind_eq_ok.mp h
  by_cases hcut : HeaderCut bytes
  · rw [dispatch_short _ hs hcut] at hd
    cases hd
    cases h
  · obtain ⟨stream', hs', hloop⟩ := dispatch_header contentKeySize hs hcut
    rw [hloop] at hd
    obtain ⟨⟨pages, completed⟩, hpages, hd⟩ := Exec.bind_eq_ok.mp hd
    cases hd
    cases completed with
    | false => cases h
    | true =>
        rw [Dispatch.collect, if_pos rfl] at h
        obtain ⟨blocks, hblocks, h⟩ := Exec.bind_eq_ok.mp h
        cases h
        exact ⟨pages, dispatchPages_ok _ hs' (Nat.le_of_not_lt hcut) hpages, hblocks⟩

/-- A file that begins with the magic has a file header of twelve bytes. -/
theorem layoutOf_tsfm (hmagic : ascii "TSFM" <+: bytes) :
    layoutOf bytes =
      ⟨false, leNat (window bytes 4 4) ≠ leNat (window bytes 8 4), 12⟩ := by
  obtain ⟨rest, rfl⟩ := hmagic
  have hwindow : window (ascii "TSFM" ++ rest) 0 4 = ascii "TSFM" := List.take_left' rfl
  have hmagic : leNat (ascii "TSFM") = tsfmMagic := by decide
  exact layoutOf_pos (by rw [hwindow, hmagic])

end Files

/-- On a file with a file header the page loop ends.  It posts pages that tile
the file behind the header, and comes to the end of the file unless the file is
cut short. -/
theorem dispatch_tiles {stream : GrowableMemoryStream} {bytes : Bytes} {contentKeySize : Nat}
    (hs : Rep stream bytes 0) (hmagic : ascii "TSFM" <+: bytes) (hsize : contentKeySize ≤ 255) :
    ∃ d e, dispatch stream contentKeySize = .ok d ∧
      parse stream contentKeySize = d.collect contentKeySize ∧
      Tiles (payloadLength contentKeySize) (layoutOf bytes) bytes 12 d.pages e ∧
      (d.completed = true → e = bytes.length) ∧
      (d.completed = false ↔ CutShort contentKeySize bytes) := by
  have hlayout := layoutOf_tsfm hmagic
  have hstart : (layoutOf bytes).start = 12 := by rw [hlayout]
  have hparse : ∀ {d}, dispatch stream contentKeySize = .ok d →
      parse stream contentKeySize = d.collect contentKeySize := fun hd => by
    rw [parse_eq_dispatch, hd, Exec.ok_bind]
  by_cases hcut : HeaderCut bytes
  · have hd := dispatch_short contentKeySize hs hcut
    rw [HeaderCut, hstart] at hcut
    exact ⟨_, 12, hd, hparse hd, .nil 12, fun h => absurd h Bool.false_ne_true,
      iff_of_true rfl (.inl hcut)⟩
  · obtain ⟨stream', hs', hloop⟩ := dispatch_header contentKeySize hs hcut
    rw [HeaderCut, hstart] at hcut
    rw [hstart] at hs'
    obtain ⟨pages, completed, e, hpages, htiles, hend⟩ :=
      dispatchPages_tiles (layoutOf bytes) (unwrapped_payloadLength hsize)
        (getLength stream') hs' (by omega) (by rw [getLength_eq hs']; omega)
    have hd : dispatch stream contentKeySize =
        .ok ⟨(layoutOf bytes).interleave, (layoutOf bytes).canSkip, pages, completed⟩ := by
      rw [hloop, dispatchFrom, hpages, Exec.ok_bind]
    refine ⟨_, e, hd, hparse hd, htiles, ?_⟩
    rcases hend with hdone | hgave
    · obtain ⟨rfl, rfl⟩ := hdone
      refine ⟨fun _ => rfl, iff_of_false (fun h => absurd h.symm Bool.false_ne_true)
        fun hshort => ?_⟩
      rcases hshort with hlt | hpage
      · exact hcut hlt
      · obtain ⟨pages', o, htiles', hcutAt⟩ := hpage
        exact htiles.not_cutAt htiles' hcutAt
    · obtain ⟨rfl, hcutAt⟩ := hgave
      exact ⟨fun h => absurd h Bool.false_ne_true,
        iff_of_true rfl (.inr ⟨pages, e, htiles, hcutAt⟩)⟩

/-- A root with one page. -/
theorem dispatch_tiles_sample :
    ∃ d e, dispatch (GrowableMemoryStream.ofBuffer lookupSample) 1 = .ok d ∧
      parse (GrowableMemoryStream.ofBuffer lookupSample) 1 = d.collect 1 ∧
      Tiles (payloadLength 1) (layoutOf lookupSample.bytes) lookupSample.bytes 12 d.pages e ∧
      (d.completed = true → e = lookupSample.bytes.length) ∧
      (d.completed = false ↔ CutShort 1 lookupSample.bytes) :=
  dispatch_tiles (GrowableMemoryStream.ofBuffer_rep lookupSample) ⟨_, rfl⟩ (by decide)

end Root

end Wow

end Tactmon
