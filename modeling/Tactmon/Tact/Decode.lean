import Tactmon.Tact.Frame

/-!
# Decoding containers in memory

What `BLTE::_Parse` does on a container.  `openChunk` is what a chunk decodes
to, `Block.load` adds the digest check, and `loadAll` decodes the blocks of a
frame in order.  `_parse_frame` says that on a lawful stream over a frame the
decoder computes `loadAll`, after a check of the encoding key against the
digest of `hashedHeader`.

`hashedHeader` is the header with every size field of the table widened to
eight bytes.

The other direction starts from a parse that succeeded.  `frame_of_parse` then
recovers a frame from the byte string.
-/

namespace Tactmon

open Binary Cxx Zlib CursorReadable LawfulReadable

/-! ## What a frame decodes to -/

/-- What a chunk decodes to. -/
def openChunk (Z : Inflate) : Bytes → Exec (Option Bytes)
  | [] => .error .outOfBounds
  | encodingMode :: payload =>
      if encodingMode = modeN then .ok (some payload)
      else if encodingMode = modeZ then
        match Z.init with
        | none => .ok none
        | some strm => do
            let (outputs, completed) ← Z.drain decompressedBuffer strm payload
            .ok (if completed then some outputs.flatten else none)
      else .ok none

/-- Check a chunk against its entry and decode it. -/
def Block.load (digest : Bytes → Digest) (Z : Inflate) (block : Block) : Exec (Option Bytes) :=
  if (digest block.body).bytes ≠ block.checksum then .ok none else openChunk Z block.body

/-- Decode the blocks in order, and stop at the first that is refused. -/
def loadAll (digest : Bytes → Digest) (Z : Inflate) : List Block → Exec (Option Bytes)
  | [] => .ok (some [])
  | block :: blocks => do
      match ← block.load digest Z with
      | none => .ok none
      | some x =>
          match ← loadAll digest Z blocks with
          | none => .ok none
          | some y => .ok (some (x ++ y))

/-- A table entry as it is fed to the header digest. -/
def Block.hashedEntry (block : Block) : Bytes :=
  beBytes 8 block.body.length ++ (beBytes 8 block.decompressedSize ++ block.checksum)

/-- The chunk table as it is fed to the header digest. -/
def hashedTable (blocks : List Block) : Bytes := blocks.flatMap Block.hashedEntry

@[simp] theorem hashedTable_cons (block : Block) (blocks : List Block) :
    hashedTable (block :: blocks) = block.hashedEntry ++ hashedTable blocks := List.flatMap_cons

/-- The header as it is fed to the header digest. -/
def Frame.hashedHeader (f : Frame) : Bytes :=
  beBytes 4 blteMagic ++ (beBytes 4 f.headerSize ++ (beBytes 4 f.flagsChunkCount ++
    hashedTable f.blocks))

theorem Block.hashedEntry_length (block : Block) : block.hashedEntry.length = 32 := by
  rw [hashedEntry, List.length_append, List.length_append, beBytes_length, beBytes_length,
    block.checksum_size]

theorem hashedTable_length (blocks : List Block) :
    (hashedTable blocks).length = 32 * blocks.length := by
  induction blocks with
  | nil => rfl
  | cons block blocks ih =>
      rw [hashedTable_cons, List.length_append, Block.hashedEntry_length, ih, List.length_cons]
      omega

/-- The header digest is not fed the header, unless there are no chunks. -/
theorem Frame.hashedHeader_ne {f : Frame} (h : f.blocks ≠ []) : f.hashedHeader ≠ f.header := by
  intro heq
  have hpos := List.length_pos_iff.mpr h
  have hlen := congrArg List.length heq
  simp only [hashedHeader, header, List.length_append, beBytes_length, hashedTable_length,
    table_length] at hlen
  omega

/-- The chunk headers of blocks that lie one after another. -/
def place : Nat → List Block → List ChunkHeader
  | _, [] => []
  | offset, block :: blocks =>
      ⟨block.body.length, block.decompressedSize, block.checksum, offset⟩ ::
        place (offset + block.body.length) blocks

/-! ## The output buffer -/

namespace BLTE

/-- A decoder whose output so far is `out`. -/
def holding (out : Bytes) : BLTE := ⟨⟨out, 0, out.length⟩⟩

/-- The readable bytes of the output. -/
theorem view_holding (out : Bytes) :
    ∃ t, (holding out).dataBuffer.view = .ok t ∧ t.bytes = out := by
  obtain ⟨t, ht, hmem, hsize⟩ :=
    GrowableMemoryStream.view_eq (s := (holding out).dataBuffer) (Nat.zero_le _)
  refine ⟨t, ht, ?_⟩
  rw [Span.bytes, hmem, hsize]
  exact List.take_length

theorem write_holding (out bytes : Bytes) :
    (holding out).dataBuffer.write bytes =
      (bytes.length, (holding (out ++ bytes)).dataBuffer) := by
  rw [GrowableMemoryStream.write, GrowableMemoryStream.writeImpl_append rfl]
  simp [holding]

theorem writeWindows_holding (outputs : List Bytes) :
    ∀ out, (holding out).writeWindows outputs = some (holding (out ++ outputs.flatten)) := by
  induction outputs with
  | nil =>
      intro out
      rw [writeWindows, List.flatten_nil, List.append_nil]
  | cons output outputs ih =>
      intro out
      have hnext : BLTE.mk (holding (out ++ output)).dataBuffer = holding (out ++ output) := rfl
      simp only [writeWindows, write_holding, ne_eq, not_true_eq_false, if_false, hnext]
      rw [ih, List.flatten_cons, List.append_assoc]

theorem decode_holding (Z : Inflate) (out : Bytes) (chunkSpan : Span) :
    (holding out).decode Z chunkSpan =
      (openChunk Z chunkSpan.bytes).map (Option.map fun x => holding (out ++ x)) := by
  cases hbytes : chunkSpan.bytes with
  | nil =>
      rw [decode, Span.at, hbytes]
      rfl
  | cons mode payload =>
      have hsize : chunkSpan.size = payload.length + 1 := by
        rw [← Span.bytes_length, hbytes, List.length_cons]
      obtain ⟨t, ht, htbytes, -⟩ := Span.suffix_bytes (s := chunkSpan) (by omega : 1 ≤ _)
      rw [hbytes, List.drop_one, List.tail_cons] at htbytes
      have hat : chunkSpan.at 0 = .ok mode := by rw [Span.at, hbytes]; rfl
      rw [decode, hat, Exec.ok_bind, openChunk]
      by_cases hN : mode = modeN
      · rw [if_pos hN, if_pos hN, ht, Exec.ok_bind, htbytes, write_holding, hsize]
        simp only [Nat.add_sub_cancel, if_true]
        rfl
      · rw [if_neg hN, if_neg hN]
        by_cases hZ : mode = modeZ
        · rw [if_pos hZ, if_pos hZ]
          cases hinit : Z.init with
          | none => rfl
          | some strm =>
              simp only [ht, htbytes, Exec.ok_bind]
              cases hdrain : Z.drain decompressedBuffer strm payload with
              | error e => rfl
              | ok r =>
                  obtain ⟨outputs, completed⟩ := r
                  cases completed with
                  | false => rfl
                  | true =>
                      simp only [Exec.ok_bind, if_true, writeWindows_holding, Except.map,
                        Option.map_some]
        · rw [if_neg hZ, if_neg hZ]
          rfl

/-! ## Reading the table -/

section Frames

variable {σ : Type} [IReadableStream σ] [LawfulReadable σ]

theorem readChunkHeaders_blocks (b rest : Bytes) (blocks : List Block) :
    ∀ (offset : Nat) (s : σ) (engine : Hash), Unread s b (table blocks ++ rest) →
      ∃ s', readChunkHeaders blocks.length offset s engine =
          .ok (place offset blocks, engine.updateData (hashedTable blocks), s') ∧
        Unread s' b rest := by
  induction blocks with
  | nil =>
      intro offset s engine hs
      refine ⟨s, ?_, hs⟩
      rw [List.length_nil, readChunkHeaders, place, hashedTable, List.flatMap_nil,
        Hash.updateData, List.append_nil]
  | cons block blocks ih =>
      intro offset s engine hs
      rw [table_cons, Block.entry] at hs
      simp only [List.append_assoc] at hs
      obtain ⟨s₁, hr₁, hs₁⟩ := readInt_beBytes (by decide) block.size_lt hs
      obtain ⟨s₂, hr₂, hs₂⟩ := readInt_beBytes (by decide) block.decompressed_lt hs₁
      have hzeros : (List.replicate 16 (0 : UInt8)).length = block.checksum.length := by
        rw [List.length_replicate, block.checksum_size]
      obtain ⟨s₃, hr₃, hs₃⟩ := readArray_append hzeros hs₂
      obtain ⟨s₄, hr₄, hs₄⟩ := ih (offset + block.body.length) s₃
        (engine.updateData block.hashedEntry) hs₃
      refine ⟨s₄, ?_, hs₄⟩
      rw [List.length_cons, readChunkHeaders, hr₁, Exec.ok_bind]
      simp only [hr₂, hr₃, Exec.ok_bind, Hash.updateInt_byteswap]
      have hengine : ((engine.updateData (beBytes 8 block.body.length)).updateData
          (beBytes 8 block.decompressedSize)).updateData block.checksum =
          engine.updateData block.hashedEntry := by
        simp only [Hash.updateData, Block.hashedEntry, List.append_assoc]
      rw [hengine, hr₄, Exec.ok_bind]
      simp only [place, Hash.updateData, hashedTable_cons, List.append_assoc]

/-- The header digest is fed `hashedHeader`. -/
theorem readHeader_frame {s : σ} {f : Frame} {rest : Bytes} (hs : Rep s (f.bytes ++ rest) 0) :
    ∃ s' c, readHeader s = .ok (some (place f.headerSize f.blocks, ⟨f.hashedHeader⟩, s')) ∧
      Rep s' (f.bytes ++ rest) c := by
  have hbytes : f.bytes ++ rest = beBytes 4 blteMagic ++ (beBytes 4 f.headerSize ++
      (beBytes 4 f.flagsChunkCount ++ (table f.blocks ++ (bodies f.blocks ++ rest)))) := by
    simp only [Frame.bytes, Frame.header, List.append_assoc]
  have h₀ := Unread.of_rep hs
  nth_rewrite 2 [hbytes] at h₀
  obtain ⟨s₁, hr₁, hs₁⟩ := readInt_beBytes (by decide) (by decide) h₀
  obtain ⟨s₂, hr₂, hs₂⟩ := readInt_beBytes (by decide) f.headerSize_lt hs₁
  obtain ⟨s₃, hr₃, hs₃⟩ := readInt_beBytes (by decide) f.flagsChunkCount_lt hs₂
  obtain ⟨s₄, hr₄, hs₄⟩ := readChunkHeaders_blocks _ _ f.blocks f.headerSize s₃
    (((Hash.init.updateData (beBytes 4 blteMagic)).updateData
      (beBytes 4 f.headerSize)).updateData (beBytes 4 f.flagsChunkCount)) hs₃
  refine ⟨s₄, _, ?_, hs₄.rep⟩
  rw [readHeader, hr₁, Exec.ok_bind]
  simp only [ne_eq, not_true_eq_false, if_false, hr₂, hr₃, Exec.ok_bind,
    Hash.updateInt_byteswap, f.flagsChunkCount_and, hr₄]
  simp only [Hash.updateData, Hash.init, Frame.hashedHeader, List.nil_append, List.append_assoc]

/-! ## Loading the chunks -/

variable (digest : Bytes → Digest) (Z : Inflate)

theorem loadChunk_window {s : σ} {b : Bytes} {c size : Nat} (hs : Rep s b c)
    (hin : c + size ≤ b.length) (out checksum : Bytes) (decompressedSize : Nat) :
    (holding out).loadChunk digest Z s size decompressedSize checksum =
      if (digest (window b c size)).bytes ≠ checksum then .ok none
      else (openChunk Z (window b c size)).map (Option.map fun x => holding (out ++ x)) := by
  have hfits := CursorReadable.fits hs
  obtain ⟨t, ht, -, hsize⟩ := data_eq hs (by omega)
  have hmem := data_mem hs ht
  obtain ⟨u, hu, humem, husize⟩ := Span.subspan_of_le (s := t) (by omega : 0 + size ≤ t.size)
  have hbytes : u.bytes = window b c size := by
    rw [Span.bytes, humem, husize, List.drop_zero, hmem, window]
  have hlt : c + size < sizeMax := lt_sizeMax (by omega)
  rw [loadChunk, getLength_eq hs, getReadCursor_eq hs, sizeWrap_of_lt hlt, if_neg (by omega), ht,
    Exec.ok_bind, hu, Exec.ok_bind, hbytes, decode_holding, hbytes]

theorem loadChunks_blocks (rest : Bytes) (blocks : List Block) :
    ∀ (pre out : Bytes) (s : σ) (c : Nat), Rep s (pre ++ (bodies blocks ++ rest)) c →
      loadChunks digest Z (holding out) (place pre.length blocks) s =
        (loadAll digest Z blocks).map (Option.map fun x => holding (out ++ x)) := by
  induction blocks with
  | nil =>
      intro pre out s c _
      rw [place, loadChunks, loadAll, Except.map, Option.map_some, List.append_nil]
  | cons block blocks ih =>
      intro pre out s c hs
      rw [bodies_cons, List.append_assoc] at hs
      obtain ⟨c', hs', -, hc', -⟩ := seekRead_rep pre.length hs
      rw [hc' (by rw [List.length_append]; omega)] at hs'
      have hin : pre.length + block.body.length ≤
          (pre ++ (block.body ++ (bodies blocks ++ rest))).length := by
        simp only [List.length_append]
        omega
      have hwin : window (pre ++ (block.body ++ (bodies blocks ++ rest))) pre.length
          block.body.length = block.body := by
        rw [window, List.drop_left, List.take_left]
      rw [place, loadChunks, loadChunk_window digest Z hs' hin, hwin, loadAll, Block.load]
      by_cases hsum : (digest block.body).bytes = block.checksum
      · rw [if_neg (not_not.mpr hsum), if_neg (not_not.mpr hsum)]
        cases hopen : openChunk Z block.body with
        | error e => rfl
        | ok r =>
            cases r with
            | none => rfl
            | some x =>
                rw [← List.append_assoc] at hs'
                have hih := ih (pre ++ block.body) (out ++ x) _ _ hs'
                rw [List.length_append] at hih
                simp only [Except.map, Option.map_some, Exec.ok_bind, hih]
                cases loadAll digest Z blocks with
                | error e => rfl
                | ok r =>
                    cases r with
                    | none => rfl
                    | some y => simp
      · rw [if_pos hsum, if_pos hsum]
        rfl

/-- What has been loaded is checked against the content key. -/
theorem validate_holding (loaded : Exec (Option Bytes)) (ckey : Option Bytes) :
    (do
      match ← loaded.map (Option.map fun x => holding ([] ++ x)) with
      | none => .ok none
      | some blte =>
          match ckey with
          | none => .ok (some blte)
          | some ckey => do
              let valid ← blte.validate digest ckey
              .ok (if valid then some blte else none)) =
      loaded.map (Option.bind · fun x =>
        if ckey.all (fun ckey => ckey = (digest x).bytes) then some (holding x) else none) := by
  cases loaded with
  | error e => rfl
  | ok r =>
      cases r with
      | none => rfl
      | some x =>
          cases ckey with
          | none => rfl
          | some ckey =>
              obtain ⟨t, ht, hbytes⟩ := view_holding x
              simp only [Except.map, Option.map_some, List.nil_append, Exec.ok_bind, validate,
                ht, hbytes, Option.bind_some, Option.all_some]

/-- On a container the decoder checks the encoding key against the digest of
`hashedHeader`, decodes the blocks, and checks the content key. -/
theorem _parse_frame {s : σ} {f : Frame} {rest : Bytes} (hs : Rep s (f.bytes ++ rest) 0)
    (ekey ckey : Option Bytes) :
    _parse digest Z s ekey ckey =
      if ekey.any (fun ekey => ekey ≠ (digest f.hashedHeader).bytes) then .ok none
      else (loadAll digest Z f.blocks).map (Option.bind · fun x =>
        if ckey.all (fun ckey => ckey = (digest x).bytes) then some (holding x) else none) := by
  obtain ⟨s', c, hr, hs'⟩ := readHeader_frame hs
  rw [Frame.bytes, List.append_assoc] at hs'
  have hload := loadChunks_blocks digest Z rest f.blocks f.header [] s' c hs'
  rw [f.header_length] at hload
  have hget : Hash.getDigest ⟨f.hashedHeader⟩ digest = digest f.hashedHeader := rfl
  rw [_parse, hr, Exec.ok_bind]
  dsimp only
  rw [hget]
  by_cases hkey : ekey.any (fun ekey => ekey ≠ (digest f.hashedHeader).bytes) = true
  · rw [if_pos hkey, if_pos hkey]
  · rw [if_neg hkey, if_neg hkey, show empty = holding [] from rfl, hload]
    exact validate_holding digest _ ckey

/-! ## A parse that succeeded -/

/-- The chunk headers lie one after another. -/
def Placed : Nat → List ChunkHeader → Prop
  | _, [] => True
  | offset, chunk :: chunks =>
      chunk.offset = offset ∧ Placed (offset + chunk.compressedSize) chunks

/-- A table read that returned has read the size fields, wherever the stream
ends. -/
theorem readChunkHeaders_ok {d : Bytes} (n : Nat) :
    ∀ {o offset : Nat} {s s' : σ} {engine engine' : Hash} {chunks : List ChunkHeader},
      Rep s d (min o d.length) →
      readChunkHeaders n offset s engine = .ok (chunks, engine', s') →
      Placed offset chunks ∧ chunks.map ChunkHeader.compressedSize = sizesFrom d o n ∧
        ∃ c, Rep s' d c := by
  induction n with
  | zero =>
      intro o offset s s' engine engine' chunks hs h
      cases h
      exact ⟨trivial, rfl, _, hs⟩
  | succ n ih =>
      intro o offset s s' engine engine' chunks hs h
      rw [readChunkHeaders] at h
      obtain ⟨⟨size, s₁⟩, hr₁, h⟩ := Exec.bind_eq_ok.mp h
      obtain ⟨⟨decompressedSize, s₂⟩, hr₂, h⟩ := Exec.bind_eq_ok.mp h
      obtain ⟨⟨checksum, s₃⟩, hr₃, h⟩ := Exec.bind_eq_ok.mp h
      obtain ⟨⟨rest, engine₄, s₄⟩, hrest, h⟩ := Exec.bind_eq_ok.mp h
      cases h
      obtain ⟨hsize, hs₁⟩ := readInt_big_ok (by decide) hs (Nat.min_le_right _ _) hr₁
      obtain ⟨-, hs₂⟩ := readInt_big_ok (by decide) hs₁ (Nat.min_le_right _ _) hr₂
      have hs₃ := readArray_ok hs₂ (Nat.min_le_right _ _) hr₃
      rw [List.length_replicate, show min (min (min (min o d.length + 4) d.length + 4) d.length
        + 16) d.length = min (o + 24) d.length by omega] at hs₃
      rw [window_min] at hsize
      obtain ⟨hplaced, hsizes, hend⟩ := ih hs₃ hrest
      exact ⟨⟨rfl, hplaced⟩, by rw [List.map_cons, hsizes, hsize, sizesFrom], hend⟩

/-- A header read that returned a table has read the fields. -/
theorem readHeader_ok {d : Bytes} {s s' : σ} {chunks : List ChunkHeader} {engine : Hash}
    (hs : Rep s d 0) (h : readHeader s = .ok (some (chunks, engine, s'))) :
    beNat (window d 0 4) = blteMagic ∧ Placed (headerSizeField d) chunks ∧
      chunks.map ChunkHeader.compressedSize = sizeFields d ∧ ∃ c, Rep s' d c := by
  rw [readHeader] at h
  obtain ⟨⟨magic, s₁⟩, hr₁, h⟩ := Exec.bind_eq_ok.mp h
  dsimp only at h
  split at h
  · cases h
  · next hmagic =>
      obtain ⟨⟨headerSize, s₂⟩, hr₂, h⟩ := Exec.bind_eq_ok.mp h
      obtain ⟨⟨flagsChunkCount, s₃⟩, hr₃, h⟩ := Exec.bind_eq_ok.mp h
      obtain ⟨⟨chunks', engine', s₄⟩, hr₄, h⟩ := Exec.bind_eq_ok.mp h
      cases h
      obtain ⟨hm, hs₁⟩ := readInt_big_ok (by decide) hs (Nat.zero_le _) hr₁
      obtain ⟨hh, hs₂⟩ := readInt_big_ok (by decide) hs₁ (Nat.min_le_right _ _) hr₂
      obtain ⟨hf, hs₃⟩ := readInt_big_ok (by decide) hs₂ (Nat.min_le_right _ _) hr₃
      rw [window_min] at hh
      rw [show min (min (0 + 4) d.length + 4) d.length = min 8 d.length by omega,
        window_min] at hf
      rw [show min (min (min (0 + 4) d.length + 4) d.length + 4) d.length = min 12 d.length by
        omega] at hs₃
      obtain ⟨hplaced, hsizes, hend⟩ := readChunkHeaders_ok _ hs₃ hr₄
      have hcount : flagsChunkCount &&& 0x00FFFFFF = countField d := by
        rw [hf]
        exact flagsCountField_and d
      rw [hh] at hplaced
      rw [hcount] at hsizes
      exact ⟨by rw [← hm]; exact not_not.mp hmagic, hplaced, hsizes, hend⟩

/-- A chunk that was loaded lies inside the stream. -/
theorem loadChunk_fits {d : Bytes} {s : σ} {c size decompressedSize : Nat} {checksum : Bytes}
    {blte blte' : BLTE} (hs : Rep s d c) (hlt : c + size < sizeMax)
    (h : blte.loadChunk digest Z s size decompressedSize checksum = .ok (some blte')) :
    c + size ≤ d.length := by
  rw [loadChunk, getLength_eq hs, getReadCursor_eq hs, sizeWrap_of_lt hlt] at h
  split at h
  · cases h
  · omega

/-- Chunks that were loaded all lie inside the stream. -/
theorem loadChunks_fits {d : Bytes} (chunks : List ChunkHeader) :
    ∀ {offset c : Nat} {s : σ} {blte blte' : BLTE}, Rep s d c → Placed offset chunks →
      chunks ≠ [] → (∀ size ∈ chunks.map ChunkHeader.compressedSize, 1 ≤ size) →
      offset + (chunks.map ChunkHeader.compressedSize).sum < sizeMax →
      loadChunks digest Z blte chunks s = .ok (some blte') →
      offset + (chunks.map ChunkHeader.compressedSize).sum ≤ d.length := by
  induction chunks with
  | nil =>
      intro offset c s blte blte' _ _ hne
      exact absurd rfl hne
  | cons chunk chunks ih =>
      intro offset c s blte blte' hs hplaced _ hsizes hlt h
      obtain ⟨hoffset, hplaced⟩ := hplaced
      rw [List.map_cons, List.sum_cons] at hlt ⊢
      obtain ⟨hsize, hsizes⟩ := List.forall_mem_cons.mp hsizes
      rw [loadChunks, hoffset] at h
      obtain ⟨r, hload, h⟩ := Exec.bind_eq_ok.mp h
      obtain ⟨c', hs', -, hin, hout⟩ := seekRead_rep offset hs
      cases r with
      | none => cases h
      | some blte₁ =>
          have hle : c' ≤ offset := by
            by_cases ho : offset ≤ d.length
            · exact Nat.le_of_eq (hin ho)
            · exact (hout (by omega)).2
          have hfits := loadChunk_fits digest Z hs' (by omega) hload
          -- a seek past the end leaves no room for a chunk
          have ho : offset ≤ d.length := by
            by_contra ho
            have := (hout (by omega)).1
            omega
          rw [hin ho] at hfits
          cases chunks with
          | nil => simpa using hfits
          | cons chunk' chunks =>
              have hrest := ih hs' hplaced (List.cons_ne_nil _ _) hsizes (by omega) h
              omega

end Frames

/-- The size fields have 32 bits each. -/
theorem sizesFrom_sum_le (d : Bytes) (n : Nat) : ∀ o, (sizesFrom d o n).sum ≤ 2 ^ 32 * n := by
  induction n with
  | zero => exact fun _ => Nat.le_refl _
  | succ n ih =>
      intro o
      have hrest := ih (o + 24)
      have hlt := beNat_window_lt d o 4
      rw [sizesFrom, List.sum_cons]
      omega

/-- A byte string that parses, and whose header is as the format has it, is a
frame followed by some rest. -/
theorem frame_of_parse {σ : Type} [IReadableStream σ] [LawfulReadable σ]
    (digest : Bytes → Digest) (Z : Inflate) {d : Bytes} {s : σ} {blte : BLTE} (hs : Rep s d 0)
    (hparse : parse digest Z s = .ok (some blte)) (hflags : flagsField d = 0x0F)
    (hsize : headerSizeField d = 12 + 24 * countField d) (hcount : 1 ≤ countField d)
    (hsizes : ∀ size ∈ sizeFields d, 1 ≤ size) :
    ∃ (f : Frame) (rest : Bytes), d = f.bytes ++ rest ∧ f.blocks.length = countField d ∧
      f.blocks.map Block.body = chunksOf d := by
  rw [parse, _parse] at hparse
  obtain ⟨r, hr, hparse⟩ := Exec.bind_eq_ok.mp hparse
  cases r with
  | none => cases hparse
  | some r =>
      obtain ⟨chunks, engine, s'⟩ := r
      obtain ⟨hmagic, hplaced, hfields, c, hs'⟩ := readHeader_ok hs hr
      dsimp only at hparse
      rw [Option.any_none, if_neg Bool.false_ne_true] at hparse
      obtain ⟨r, hload, hparse⟩ := Exec.bind_eq_ok.mp hparse
      cases r with
      | none => cases hparse
      | some blte' =>
          have hsum := sizesFrom_sum_le d (countField d) 12
          have hlt : countField d < 2 ^ 24 := Nat.mod_lt _ (by decide)
          have hne : chunks ≠ [] := by
            intro hnil
            rw [hnil, List.map_nil] at hfields
            have hlen := sizesFrom_length d (countField d) 12
            rw [← sizeFields, ← hfields, List.length_nil] at hlen
            omega
          rw [← hfields] at hsizes
          have hfits := loadChunks_fits digest Z chunks hs' hplaced hne hsizes (by
            rw [hfields, sizeFields]
            exact lt_sizeMax (by omega)) hload
          rw [hfields] at hfits
          exact Frame.of_fields hmagic hflags hsize hfits

end BLTE

end Tactmon
