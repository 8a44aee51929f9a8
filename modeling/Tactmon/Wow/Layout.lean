import Tactmon.Wow.Root

/-!
# The layout of a root

The bytes that a block becomes in the two layouts, and what the loops of
`ParseBlock` make of them.  In the layout with a file header a page has all
file data IDs first, then all content keys, then all name hashes.  In the other
one each content key has its name hash behind it.

`PageOf` is a span over the page of a block, together with the bytes behind the
page in the stream.  The three outcomes of `ParseBlock` on such a span are
`PageOf.parseBlock_unnamed`, `PageOf.parseBlock_named` and
`PageOf.parseBlock_error`.
-/

namespace Tactmon

namespace Wow

namespace Root

open Binary Cxx CursorReadable LawfulReadable

/-! ## Serialisation -/

/-- The differences of the file data IDs. -/
def idDeltas : UInt32 → List Entry → List UInt32
  | _, [] => []
  | fileDataID, entry :: entries =>
      (entry.fileDataID - fileDataID - 1) :: idDeltas entry.fileDataID entries

/-- 32-bit integers in a row. -/
def uint32Bytes (xs : List UInt32) : Bytes := xs.flatMap fun x => leBytes 4 x.toNat

/-- The content keys in a row. -/
def keyBytes (entries : List Entry) : Bytes := entries.flatMap Entry.contentKey

/-- The name hashes in a row. -/
def hashBytes (entries : List Entry) : Bytes :=
  entries.flatMap fun entry => leBytes 8 entry.nameHash.toNat

/-- The content keys, each with its name hash behind it. -/
def recordBytes (entries : List Entry) : Bytes :=
  entries.flatMap fun entry => entry.contentKey ++ leBytes 8 entry.nameHash.toNat

namespace Block

/-- The page header. -/
def header (block : Block) : Bytes :=
  leBytes 4 block.entries.length ++
    (leBytes 4 block.content.toNat ++ leBytes 4 block.locales.toNat)

/-- The differences of the file data IDs, from `-1` on. -/
def deltas (block : Block) : List UInt32 := idDeltas (-1) block.entries

/-- The page behind its header. -/
def body (canSkip : Bool) (block : Block) : Bytes :=
  uint32Bytes block.deltas ++ (keyBytes block.entries ++
    if hasNameHashes canSkip block.content then hashBytes block.entries else [])

/-- The page behind its header, in the interleaved layout. -/
def interleavedBody (block : Block) : Bytes :=
  uint32Bytes block.deltas ++ recordBytes block.entries

/-- What a page without name hashes keeps of a block. -/
def stored (canSkip : Bool) (block : Block) : Block :=
  if hasNameHashes canSkip block.content then block
  else { block with entries := block.entries.map fun entry => { entry with nameHash := 0 } }

/-- A page holds the block: its record count has 32 bits, and the content keys
have the given size. -/
structure Fits (contentKeySize : Nat) (block : Block) : Prop where
  count_lt : block.entries.length < 2 ^ 32
  keys_length : ∀ entry ∈ block.entries, entry.contentKey.length = contentKeySize

end Block

/-! Lengths. -/

@[simp] theorem idDeltas_length (entries : List Entry) :
    ∀ fileDataID, (idDeltas fileDataID entries).length = entries.length := by
  induction entries with
  | nil => exact fun _ => rfl
  | cons entry entries ih =>
      intro fileDataID
      rw [idDeltas, List.length_cons, ih, List.length_cons]

@[simp] theorem uint32Bytes_cons (x : UInt32) (xs : List UInt32) :
    uint32Bytes (x :: xs) = leBytes 4 x.toNat ++ uint32Bytes xs := List.flatMap_cons

@[simp] theorem keyBytes_cons (entry : Entry) (entries : List Entry) :
    keyBytes (entry :: entries) = entry.contentKey ++ keyBytes entries := List.flatMap_cons

@[simp] theorem hashBytes_cons (entry : Entry) (entries : List Entry) :
    hashBytes (entry :: entries) = leBytes 8 entry.nameHash.toNat ++ hashBytes entries :=
  List.flatMap_cons

@[simp] theorem recordBytes_cons (entry : Entry) (entries : List Entry) :
    recordBytes (entry :: entries) =
      entry.contentKey ++ leBytes 8 entry.nameHash.toNat ++ recordBytes entries :=
  List.flatMap_cons

@[simp] theorem uint32Bytes_length (xs : List UInt32) :
    (uint32Bytes xs).length = 4 * xs.length := by
  induction xs with
  | nil => rfl
  | cons x xs ih =>
      rw [uint32Bytes_cons, List.length_append, leBytes_length, ih, List.length_cons]
      omega

@[simp] theorem hashBytes_length (entries : List Entry) :
    (hashBytes entries).length = 8 * entries.length := by
  induction entries with
  | nil => rfl
  | cons entry entries ih =>
      rw [hashBytes_cons, List.length_append, leBytes_length, ih, List.length_cons]
      omega

theorem keyBytes_length {contentKeySize : Nat} {entries : List Entry}
    (h : ∀ entry ∈ entries, entry.contentKey.length = contentKeySize) :
    (keyBytes entries).length = contentKeySize * entries.length := by
  induction entries with
  | nil => rfl
  | cons entry entries ih =>
      rw [keyBytes_cons, List.length_append, h entry List.mem_cons_self,
        ih fun e he => h e (List.mem_cons_of_mem _ he), List.length_cons, Nat.mul_succ,
        Nat.add_comm]

theorem recordBytes_length {contentKeySize : Nat} {entries : List Entry}
    (h : ∀ entry ∈ entries, entry.contentKey.length = contentKeySize) :
    (recordBytes entries).length = contentKeySize * entries.length + 8 * entries.length := by
  induction entries with
  | nil => rfl
  | cons entry entries ih =>
      rw [recordBytes_cons, List.length_append, List.length_append, leBytes_length,
        h entry List.mem_cons_self, ih fun e he => h e (List.mem_cons_of_mem _ he),
        List.length_cons, Nat.mul_succ, Nat.mul_succ]
      omega

@[simp] theorem Block.header_length (block : Block) : block.header.length = 12 := by
  simp only [header, List.length_append, leBytes_length]

/-! ## Records -/

/-- Integers are read back from the front. -/
theorem uint32s_append (xs : List UInt32) (rest : Bytes) :
    uint32s xs.length (uint32Bytes xs ++ rest) = xs := by
  induction xs with
  | nil => rfl
  | cons x xs ih =>
      have hx : x.toNat < 256 ^ 4 := x.toNat_lt
      rw [List.length_cons, uint32s, uint32Bytes_cons, List.append_assoc,
        List.take_left' (leBytes_length 4 _), List.drop_left' (leBytes_length 4 _), ih,
        leNat_leBytes_of_lt hx, UInt32.ofNat_toNat]

/-- Adding the difference gives the ID. -/
theorem fileDataID_add_delta (fileDataID next : UInt32) :
    fileDataID + (next - fileDataID - 1 + 1) = next := by
  rw [UInt32.sub_add_cancel, UInt32.add_comm, UInt32.sub_add_cancel]

/-- The entries with the name hashes moved up by one, and `last` as the hash of
the last. -/
def shiftHashes (last : UInt64) : List Entry → List Entry
  | [] => []
  | entry :: entries =>
      { entry with nameHash := (entries.head?.map Entry.nameHash).getD last } ::
        shiftHashes last entries

/-- Moving up changes nothing when all hashes are `last`, and only then. -/
theorem shiftHashes_eq_iff (last : UInt64) (entries : List Entry) :
    shiftHashes last entries = entries ↔ ∀ entry ∈ entries, entry.nameHash = last := by
  induction entries with
  | nil => simp [shiftHashes]
  | cons entry entries ih =>
      have hentry : ∀ h : UInt64, ({ entry with nameHash := h } : Entry) = entry ↔
          h = entry.nameHash := fun h => by
        cases entry
        simp
      rw [shiftHashes, List.cons.injEq, hentry, ih, List.forall_mem_cons]
      refine and_congr_left fun hall => ?_
      cases entries with
      | nil => exact eq_comm
      | cons next entries =>
          rw [List.head?_cons, Option.map_some, Option.getD_some, hall next List.mem_cons_self]
          exact eq_comm

section Records

variable {contentKeySize : Nat} {hashSpan : Span}

/-- The content keys of the entries are at record `i` of the key array. -/
structure KeysAt (contentKeySize : Nat) (hashSpan : Span) (i : Nat) (entries : List Entry) :
    Prop where
  keys_length : ∀ entry ∈ entries, entry.contentKey.length = contentKeySize
  size_lt : hashSpan.size < 2 ^ 63
  inside : (i + entries.length) * contentKeySize ≤ hashSpan.size
  mem_eq : ∃ rest, hashSpan.mem.drop (i * contentKeySize) = keyBytes entries ++ rest

namespace KeysAt

variable {i : Nat} {entry : Entry} {entries : List Entry}

/-- The key of record `i`. -/
theorem head (h : KeysAt contentKeySize hashSpan i (entry :: entries)) :
    ∃ t, hashSpan.subspan (sizeWrap (i * contentKeySize)) contentKeySize = .ok t ∧
      t.bytes = entry.contentKey := by
  obtain ⟨rest, hmem⟩ := h.mem_eq
  have hkey := h.keys_length entry List.mem_cons_self
  have hone : (i + 1) * contentKeySize ≤ hashSpan.size :=
    Nat.le_trans (Nat.mul_le_mul_right _ (by rw [List.length_cons]; omega)) h.inside
  have hlt := h.size_lt
  rw [Nat.succ_mul] at hone
  rw [keyBytes_cons, List.append_assoc] at hmem
  rw [sizeWrap_of_lt (lt_sizeMax (by omega))]
  obtain ⟨t, ht, htmem, htsize⟩ := Span.subspan_of_le hone
  refine ⟨t, ht, ?_⟩
  rw [Span.bytes, htmem, htsize, hmem, ← hkey, List.take_left]

/-- The other keys are at record `i + 1`. -/
theorem rest (h : KeysAt contentKeySize hashSpan i (entry :: entries)) :
    KeysAt contentKeySize hashSpan (i + 1) entries := by
  obtain ⟨rest, hmem⟩ := h.mem_eq
  have hkey := h.keys_length entry List.mem_cons_self
  have hinside := h.inside
  rw [List.length_cons, Nat.add_comm entries.length, ← Nat.add_assoc] at hinside
  refine ⟨fun e he => h.keys_length e (List.mem_cons_of_mem _ he), h.size_lt, hinside, rest, ?_⟩
  rw [Nat.succ_mul, ← List.drop_drop, hmem, keyBytes_cons, List.append_assoc, ← hkey,
    List.drop_left]

end KeysAt

/-- Records without name hashes are read back with hash zero. -/
theorem parseUnnamed_eq (entries : List Entry) :
    ∀ (i : Nat) (fileDataID : UInt32), KeysAt contentKeySize hashSpan i entries →
      parseUnnamed contentKeySize hashSpan (idDeltas fileDataID entries) i fileDataID =
        .ok (entries.map fun entry => { entry with nameHash := 0 }) := by
  induction entries with
  | nil => exact fun _ _ _ => rfl
  | cons entry entries ih =>
      intro i fileDataID hkeys
      obtain ⟨t, ht, htbytes⟩ := hkeys.head
      rw [idDeltas, parseUnnamed, ht, Exec.ok_bind, fileDataID_add_delta, ih _ _ hkeys.rest,
        Exec.ok_bind, htbytes, List.map_cons]

/-- The name hashes of the entries are at the cursor, and `tail` is what lies
behind them. -/
structure HashesAt (stream : SpanStream) (tail : Bytes) (entries : List Entry) : Prop where
  size_lt : stream.data.size < 2 ^ 63
  inside : stream.cursor + 8 * entries.length ≤ stream.data.size
  mem_eq : stream.data.mem.drop stream.cursor = hashBytes entries ++ tail

namespace HashesAt

variable {stream : SpanStream} {tail : Bytes} {entry : Entry} {entries : List Entry}

/-- The hash read for a record is the one of the next record.  For the last
record it is what lies behind the hashes. -/
theorem head (h : HashesAt stream tail (entry :: entries))
    (htail : entries = [] → 8 ≤ tail.length) :
    ∃ nameHash, readInt 8 stream .little = .ok (nameHash, ⟨stream.data, stream.cursor + 8⟩) ∧
      UInt64.ofNat nameHash =
        (entries.head?.map Entry.nameHash).getD (.ofNat (leNat (tail.take 8))) := by
  have hinside := h.inside
  have hlen := congrArg List.length h.mem_eq
  rw [List.length_drop, List.length_append, hashBytes_length] at hlen
  rw [List.length_cons] at hinside hlen
  have hwindow : window stream.data.mem (stream.cursor + 8) 8 =
      (hashBytes entries ++ tail).take 8 := by
    rw [window, ← List.drop_drop, h.mem_eq, hashBytes_cons, List.append_assoc,
      List.drop_left' (leBytes_length 8 _)]
  refine ⟨leNat ((hashBytes entries ++ tail).take 8), ?_, ?_⟩
  · have hload : stream.cursor + 8 + 8 ≤ stream.data.mem.length := by
      cases entries with
      | nil =>
          have := htail rfl
          omega
      | cons next entries =>
          rw [List.length_cons] at hlen
          omega
    rw [SpanStream.readInt_past h.size_lt (by omega), if_pos hload, hwindow]
  · cases entries with
    | nil => rfl
    | cons next entries =>
        rw [hashBytes_cons, List.append_assoc, List.take_left' (leBytes_length 8 _),
          leNat_leBytes_of_lt next.nameHash.toNat_lt, UInt64.ofNat_toNat]
        rfl

/-- With too few bytes behind the hashes the last one cannot be read. -/
theorem head_error (h : HashesAt stream tail [entry]) (htail : tail.length < 8) :
    readInt 8 stream .little = .error .outOfBounds := by
  have hinside := h.inside
  have hlen := congrArg List.length h.mem_eq
  rw [List.length_drop, List.length_append, hashBytes_length] at hlen
  simp only [List.length_cons, List.length_nil] at hlen hinside
  rw [SpanStream.readInt_past h.size_lt (by omega), if_neg (by omega)]

/-- The other hashes are eight bytes further on. -/
theorem rest (h : HashesAt stream tail (entry :: entries)) :
    HashesAt ⟨stream.data, stream.cursor + 8⟩ tail entries := by
  have hinside := h.inside
  rw [List.length_cons] at hinside
  refine ⟨h.size_lt, by dsimp only; omega, ?_⟩
  rw [← List.drop_drop, h.mem_eq, hashBytes_cons, List.append_assoc,
    List.drop_left' (leBytes_length 8 _)]

end HashesAt

variable {tail : Bytes}

/-- One turn of the loop over records with name hashes. -/
theorem parseNamed_cons {i : Nat} {fileDataID : UInt32} {stream : SpanStream} {entry : Entry}
    {entries : List Entry} (hkeys : KeysAt contentKeySize hashSpan i (entry :: entries))
    (hhashes : HashesAt stream tail (entry :: entries)) (htail : entries = [] → 8 ≤ tail.length) :
    parseNamed contentKeySize hashSpan (idDeltas fileDataID (entry :: entries)) i fileDataID
        stream = (do
      let rest ← parseNamed contentKeySize hashSpan (idDeltas entry.fileDataID entries) (i + 1)
        entry.fileDataID ⟨stream.data, stream.cursor + 8⟩
      .ok ({ entry with nameHash :=
        (entries.head?.map Entry.nameHash).getD (.ofNat (leNat (tail.take 8))) } :: rest)) := by
  obtain ⟨t, ht, htbytes⟩ := hkeys.head
  obtain ⟨nameHash, hread, hhash⟩ := hhashes.head htail
  rw [idDeltas, parseNamed, hread, Exec.ok_bind, ht, fileDataID_add_delta]
  dsimp only
  rw [Exec.ok_bind, htbytes, hhash]

/-- With enough bytes behind the hashes, records are read back with the hashes
moved up by one. -/
theorem parseNamed_eq (entries : List Entry) :
    ∀ (i : Nat) (fileDataID : UInt32) (stream : SpanStream),
      KeysAt contentKeySize hashSpan i entries → HashesAt stream tail entries →
      (entries ≠ [] → 8 ≤ tail.length) →
      parseNamed contentKeySize hashSpan (idDeltas fileDataID entries) i fileDataID stream =
        .ok (shiftHashes (.ofNat (leNat (tail.take 8))) entries) := by
  induction entries with
  | nil => exact fun _ _ _ _ _ _ => rfl
  | cons entry entries ih =>
      intro i fileDataID stream hkeys hhashes hne
      have htail := hne (List.cons_ne_nil _ _)
      rw [parseNamed_cons hkeys hhashes fun _ => htail,
        ih _ _ _ hkeys.rest hhashes.rest fun _ => htail, Exec.ok_bind, shiftHashes]

/-- With fewer bytes behind the hashes, the last read leaves the allocation. -/
theorem parseNamed_error (htail : tail.length < 8) (entries : List Entry) :
    ∀ (i : Nat) (fileDataID : UInt32) (stream : SpanStream), entries ≠ [] →
      KeysAt contentKeySize hashSpan i entries → HashesAt stream tail entries →
      parseNamed contentKeySize hashSpan (idDeltas fileDataID entries) i fileDataID stream =
        .error .outOfBounds := by
  induction entries with
  | nil => exact fun _ _ _ hne => absurd rfl hne
  | cons entry entries ih =>
      intro i fileDataID stream _ hkeys hhashes
      cases entries with
      | nil => rw [idDeltas, parseNamed, hhashes.head_error htail, Exec.error_bind]
      | cons next entries =>
          have hne : next :: entries ≠ [] := List.cons_ne_nil _ _
          rw [parseNamed_cons hkeys hhashes fun h => absurd h hne,
            ih _ _ _ hne hkeys.rest hhashes.rest, Exec.error_bind]

end Records

/-! ## Blocks -/

section Pages

variable {contentKeySize : Nat} {canSkip : Bool} {block : Block} {data : Span} {tail : Bytes}

theorem Block.body_length (hfits : block.Fits contentKeySize) :
    (block.body canSkip).length =
      4 * block.entries.length + contentKeySize * block.entries.length +
        if hasNameHashes canSkip block.content then 8 * block.entries.length else 0 := by
  rw [body, List.length_append, List.length_append, uint32Bytes_length, deltas, idDeltas_length,
    keyBytes_length hfits.keys_length]
  split
  · rw [hashBytes_length]
    omega
  · rw [List.length_nil]
    omega

/-- The page that is cut for a block. -/
def Block.page (block : Block) (data : Span) : PageInfo :=
  ⟨block.entries.length, block.content, block.locales, data⟩

/-- A page of a block, with the bytes behind it. -/
structure PageOf (contentKeySize : Nat) (canSkip : Bool) (block : Block) (tail : Bytes)
    (data : Span) : Prop where
  fits : block.Fits contentKeySize
  size_eq : data.size = (block.body canSkip).length
  mem_eq : data.mem = block.body canSkip ++ tail
  size_lt : data.size < 2 ^ 63

namespace PageOf

/-- The length of a page that fits a span. -/
theorem length_eq (h : PageOf contentKeySize canSkip block tail data) :
    data.size = 4 * block.entries.length + block.entries.length * contentKeySize +
      if hasNameHashes canSkip block.content then 8 * block.entries.length else 0 := by
  rw [h.size_eq, Block.body_length h.fits, Nat.mul_comm contentKeySize]

/-- The file data IDs are read back as differences. -/
theorem fileDataIDs (h : PageOf contentKeySize canSkip block tail data) :
    dataUInt32 data block.entries.length = .ok block.deltas := by
  have hle : block.entries.length ≤ data.size / 4 := by
    have := h.length_eq
    omega
  have hcount : block.entries.length = block.deltas.length :=
    (idDeltas_length block.entries (-1)).symm
  rw [dataUInt32, if_pos hle, Span.bytes, h.mem_eq, h.size_eq, List.take_left, Block.body, hcount,
    uint32s_append]

/-- What lies behind the file data IDs. -/
theorem drop_ids (h : PageOf contentKeySize canSkip block tail data) :
    data.mem.drop (4 * block.entries.length) = keyBytes block.entries ++
      ((if hasNameHashes canSkip block.content then hashBytes block.entries else []) ++ tail) := by
  have hdeltas : (uint32Bytes block.deltas).length = 4 * block.entries.length := by
    rw [uint32Bytes_length, Block.deltas, idDeltas_length]
  rw [h.mem_eq, Block.body, List.append_assoc, List.drop_left' hdeltas, List.append_assoc]

/-- The name hashes lie behind the content keys. -/
theorem hashesAt (h : PageOf contentKeySize canSkip block tail data)
    (hnamed : hasNameHashes canSkip block.content = true) :
    HashesAt ⟨data, 4 * block.entries.length + block.entries.length * contentKeySize⟩ tail
      block.entries := by
  have hkeys : (keyBytes block.entries).length = block.entries.length * contentKeySize := by
    rw [keyBytes_length h.fits.keys_length, Nat.mul_comm]
  have hlen := h.length_eq
  rw [if_pos hnamed] at hlen
  refine ⟨h.size_lt, by dsimp only; omega, ?_⟩
  rw [← List.drop_drop, h.drop_ids, List.drop_left' hkeys, if_pos hnamed]

/-- `ParseBlock` up to the loop over the records. -/
theorem parseBlock_eq (h : PageOf contentKeySize canSkip block tail data) :
    ∃ hashSpan : Span, KeysAt contentKeySize hashSpan 0 block.entries ∧
      parseBlock (block.page data) contentKeySize false canSkip = (do
        let entries ←
          if hasNameHashes canSkip block.content then
            parseNamed contentKeySize hashSpan block.deltas 0 (-1)
              ⟨data, 4 * block.entries.length + block.entries.length * contentKeySize⟩
          else parseUnnamed contentKeySize hashSpan block.deltas 0 (-1)
        .ok ⟨block.content, block.locales, entries⟩) := by
  have hlen := h.length_eq
  have hlt : data.size < sizeMax := Nat.lt_trans h.size_lt (by decide)
  have hids : sizeWrap (block.entries.length * 4) = 4 * block.entries.length := by
    rw [sizeWrap_of_lt (by omega), Nat.mul_comm]
  have hkeys : sizeWrap (block.entries.length * contentKeySize) =
      block.entries.length * contentKeySize := sizeWrap_of_lt (by omega)
  obtain ⟨view, hview, hvmem, hvsize⟩ :=
    SpanStream.view_eq (s := SpanStream.ofSpan data) (Nat.zero_le _)
  have hwhole : view = data := Span.ext' hvmem hvsize
  have hskip : skipRead (SpanStream.ofSpan data) (4 * block.entries.length) =
      ⟨data, 4 * block.entries.length⟩ := by
    have hcursor : (SpanStream.ofSpan data).cursor + 4 * block.entries.length =
        4 * block.entries.length := Nat.zero_add _
    rw [SpanStream.skipRead_eq (by omega), hcursor, SpanStream.ofSpan]
  obtain ⟨rest, hrest, hrmem, hrsize⟩ :=
    SpanStream.view_eq (s := ⟨data, 4 * block.entries.length⟩) (by dsimp only; omega)
  have hin : 0 + block.entries.length * contentKeySize ≤ rest.size := by
    rw [hrsize]
    dsimp only
    omega
  obtain ⟨hashSpan, hspan, hsmem, hssize⟩ := Span.subspan_of_le hin
  have hcursor : skipRead (SpanStream.mk data (4 * block.entries.length)) hashSpan.size =
      ⟨data, 4 * block.entries.length + block.entries.length * contentKeySize⟩ := by
    rw [hssize, SpanStream.skipRead_eq (by dsimp only; omega)]
  have hkeysAt : KeysAt contentKeySize hashSpan 0 block.entries := by
    have hlt := h.size_lt
    have hmem : hashSpan.mem = data.mem.drop (4 * block.entries.length) := by
      rw [hsmem, List.drop_zero, hrmem]
    rw [h.drop_ids] at hmem
    exact ⟨h.fits.keys_length, by omega, by rw [hssize, Nat.zero_add], _, by
      rw [Nat.zero_mul, List.drop_zero, hmem]⟩
  refine ⟨hashSpan, hkeysAt, ?_⟩
  rw [parseBlock, Block.page]
  dsimp only
  rw [hview, Exec.ok_bind, hwhole, h.fileDataIDs, Exec.ok_bind, hids, hskip,
    if_neg Bool.false_ne_true, hrest, Exec.ok_bind, hkeys, hspan, Exec.ok_bind, hcursor]

/-- A page without name hashes gives the block with hash zero everywhere. -/
theorem parseBlock_unnamed (h : PageOf contentKeySize canSkip block tail data)
    (hnamed : hasNameHashes canSkip block.content = false) :
    parseBlock (block.page data) contentKeySize false canSkip = .ok (block.stored canSkip) := by
  obtain ⟨hashSpan, hkeys, hparse⟩ := h.parseBlock_eq
  rw [hparse, hnamed, if_neg Bool.false_ne_true, Block.deltas, parseUnnamed_eq _ _ _ hkeys,
    Exec.ok_bind, Block.stored, hnamed, if_neg Bool.false_ne_true]

/-- A page with name hashes gives the block with the hashes moved up by one,
when eight bytes lie behind it. -/
theorem parseBlock_named (h : PageOf contentKeySize canSkip block tail data)
    (hnamed : hasNameHashes canSkip block.content = true)
    (htail : block.entries ≠ [] → 8 ≤ tail.length) :
    parseBlock (block.page data) contentKeySize false canSkip =
      .ok { block with entries := shiftHashes (.ofNat (leNat (tail.take 8))) block.entries } := by
  obtain ⟨hashSpan, hkeys, hparse⟩ := h.parseBlock_eq
  rw [hparse, hnamed, if_pos rfl, Block.deltas,
    parseNamed_eq _ _ _ _ hkeys (h.hashesAt hnamed) htail, Exec.ok_bind]

/-- At the end of the allocation a page with name hashes cannot be read. -/
theorem parseBlock_error (h : PageOf contentKeySize canSkip block tail data)
    (hnamed : hasNameHashes canSkip block.content = true) (htail : tail.length < 8)
    (hne : block.entries ≠ []) :
    parseBlock (block.page data) contentKeySize false canSkip = .error .outOfBounds := by
  obtain ⟨hashSpan, hkeys, hparse⟩ := h.parseBlock_eq
  rw [hparse, hnamed, if_pos rfl, Block.deltas,
    parseNamed_error htail _ _ _ _ hne hkeys (h.hashesAt hnamed), Exec.error_bind]

end PageOf

end Pages

end Root

end Wow

end Tactmon
