import Tactmon.Beast.BlockTable
import Tactmon.Tact.Archive

/-!
# The streaming decoder against the in-memory one

One call of the streaming decoder on a frame.  `run_frame` follows it through
the header, the table and the blocks.  The streaming decoder leaves the last
byte of every chunk out of the chunk digest, so a block passes exactly when it
is `Intact`, and it waits for eight bytes more than the header has before it
reads the table.

`parse_agrees_iff` puts the two decoders side by side on a byte string the
in-memory decoder accepts.
-/

namespace Tactmon

open Binary Cxx Zlib Resumable CursorReadable

/-- The chunk without its last byte has the digest of the table entry. -/
def Block.Intact (digest : Bytes → Digest) (block : Block) : Prop :=
  (digest block.body.dropLast).bytes = block.checksum

/-- The table entry as the streaming decoder stores it. -/
def Block.info (block : Block) : ChunkInfo :=
  ⟨.ofNat block.body.length - 1, .ofNat block.decompressedSize, block.checksum⟩

/-- The stored size of a chunk with a mode byte does not count that byte. -/
theorem Block.info_size {block : Block} (h : block.body ≠ []) :
    block.info.compressedSize.toNat = block.body.length - 1 := by
  have hpos := List.length_pos_iff.mpr h
  have hlt := block.size_lt
  rw [info, UInt32.toNat_sub_of_le]
  · rw [UInt32.toNat_ofNat_of_lt' hlt]
    rfl
  · rw [UInt32.le_iff_toNat_le, UInt32.toNat_ofNat_of_lt' hlt]
    exact hpos

namespace Transform

theorem readChunkInfos_blocks (b rest : Bytes) (blocks : List Block) :
    ∀ (ms : GrowableMemoryStream) (engine : Hash), Unread ms b (table blocks ++ rest) →
      ∃ engine' ms', readChunkInfos blocks.length ms engine =
          .ok (blocks.map Block.info, engine', ms') ∧ Unread ms' b rest := by
  induction blocks with
  | nil => exact fun ms engine hs => ⟨engine, ms, rfl, hs⟩
  | cons block blocks ih =>
      intro ms engine hs
      rw [table_cons, Block.entry] at hs
      simp only [List.append_assoc] at hs
      obtain ⟨ms₁, hr₁, hs₁⟩ := readInt_beBytes (by decide) block.size_lt hs
      obtain ⟨ms₂, hr₂, hs₂⟩ := readInt_beBytes (by decide) block.decompressed_lt hs₁
      have hzeros : (List.replicate 16 (0 : UInt8)).length = block.checksum.length := by
        rw [List.length_replicate, block.checksum_size]
      obtain ⟨ms₃, hr₃, hs₃⟩ := readArray_append hzeros hs₂
      obtain ⟨engine', ms₄, hr₄, hs₄⟩ := ih ms₃ _ hs₃
      refine ⟨engine', ms₄, ?_, hs₄⟩
      rw [List.length_cons, readChunkInfos, hr₁, Exec.ok_bind]
      simp only [hr₂, hr₃, Exec.ok_bind]
      rw [hr₄, Exec.ok_bind]
      rfl

/-! ## One block -/

section Block

variable {digest : Bytes → Digest} {Z : Inflate}
  {openNested : Bytes → Exec (List Bytes × Option ParseError)}

/-- The view of what is left. -/
theorem view_unread {ms : GrowableMemoryStream} {b rest : Bytes} (hs : Unread ms b rest) :
    ∃ t, ms.view = .ok t ∧ t.mem = rest ∧ t.size = rest.length := hs.data

variable {t : Transform} {b rest payload : Bytes} {mode : UInt8} {i : Nat} {block : Block}

/-- The payload of a chunk that opens is handed to the output. -/
theorem readPayload_opens {x : Bytes} (hs : Unread t.ms b (payload ++ rest))
    (hmode : mode = modeN ∨ mode = modeZ)
    (hopen : openChunk Z (mode :: payload) = .ok (some x)) :
    ∃ outputs, t.readPayload Z openNested i payload.length mode =
        .ok (.next { t with ms := skipRead t.ms payload.length, step := .dataBlocks (i + 1) }
          outputs none) ∧ outputs.flatten = x := by
  obtain ⟨data, hview, hmem, hsize⟩ := view_unread hs
  rw [List.length_append] at hsize
  have htake : data.mem.take payload.length = payload := by rw [hmem, List.take_left]
  rw [openChunk] at hopen
  rw [readPayload, hview, Exec.ok_bind]
  dsimp only
  by_cases hN : mode = modeN
  · rw [if_pos hN] at hopen ⊢
    cases hopen
    obtain ⟨u, hu, humem, husize⟩ :=
      Span.subspan_of_le (by omega : 0 + payload.length ≤ data.size)
    have hbytes : u.bytes = payload := by
      rw [Span.bytes, humem, husize, List.drop_zero, htake]
    refine ⟨[payload], ?_, by simp⟩
    rw [hu, Exec.ok_bind, hbytes]
  · have hZ : mode = modeZ := hmode.resolve_left hN
    rw [if_neg hN, if_pos hZ] at hopen ⊢
    cases hinit : Z.init with
    | none =>
        rw [hinit] at hopen
        cases hopen
    | some strm =>
        rw [hinit] at hopen
        dsimp only at hopen ⊢
        have hload : data.load payload.length = .ok payload := by
          rw [Span.load_of_le (by rw [hmem, List.length_append]; omega), htake]
        obtain ⟨⟨outputs, completed⟩, hdrain, hopen⟩ := Exec.bind_eq_ok.mp hopen
        cases completed with
        | false => cases hopen
        | true =>
            cases hopen
            refine ⟨outputs, ?_, rfl⟩
            rw [hload, Exec.ok_bind, hdrain, Exec.ok_bind]
            rfl

/-- What the step of a block compares: the digest of all but the last byte. -/
theorem readBlock_digest (hs : Unread t.ms b (block.body ++ rest)) (hbody : block.body ≠ [])
    (hi : t.chunks[i]? = some block.info) :
    t.readBlock digest Z openNested i =
      if (digest block.body.dropLast).bytes ≠ block.checksum then .ok (.stop t [] .digest)
      else (do
        let (encodingMode, ms) ← readInt 1 t.ms .big
        readPayload Z openNested { t with ms } i (block.body.length - 1)
          (.ofNat encodingMode)) := by
  obtain ⟨data, hview, hmem, hsize⟩ := view_unread hs
  rw [List.length_append] at hsize
  obtain ⟨u, hu, humem, husize⟩ :=
    Span.subspan_of_le (by omega : 0 + (block.body.length - 1) ≤ data.size)
  have hbytes : u.bytes = block.body.dropLast := by
    rw [Span.bytes, humem, husize, List.drop_zero, hmem, List.take_append_of_le_length (by omega),
      List.dropLast_eq_take]
  have hsmall := block.size_lt
  have hcan : canRead t.ms (block.body.length - 1) = true :=
    (hs.canRead_iff (by omega)).mpr (by rw [List.length_append]; omega)
  rw [readBlock, hi]
  dsimp only
  rw [Block.info_size hbody, if_pos hcan, hview, Exec.ok_bind, hu, Exec.ok_bind, hbytes]
  rfl

/-- A block that is not intact is rejected. -/
theorem readBlock_damaged (Z : Inflate)
    (openNested : Bytes → Exec (List Bytes × Option ParseError))
    (hs : Unread t.ms b (block.body ++ rest)) (hbody : block.body ≠ [])
    (hi : t.chunks[i]? = some block.info) (h : ¬ block.Intact digest) :
    t.readBlock digest Z openNested i = .ok (.stop t [] .digest) := by
  rw [Block.Intact] at h
  rw [readBlock_digest hs hbody hi, if_pos h]

/-- An intact block is handed to the output. -/
theorem readBlock_intact {x : Bytes}
    (openNested : Bytes → Exec (List Bytes × Option ParseError))
    (hs : Unread t.ms b (block.body ++ rest)) (hbody : block.body = mode :: payload)
    (hmode : mode = modeN ∨ mode = modeZ) (hi : t.chunks[i]? = some block.info)
    (h : block.Intact digest)
    (hopen : openChunk Z block.body = .ok (some x)) :
    ∃ ms outputs, t.readBlock digest Z openNested i =
        .ok (.next { t with ms, step := .dataBlocks (i + 1) } outputs none) ∧
      outputs.flatten = x ∧ Unread ms b rest := by
  have hne : block.body ≠ [] := by
    rw [hbody]
    exact List.cons_ne_nil _ _
  rw [Block.Intact] at h
  rw [readBlock_digest hs hne hi, if_neg (not_not.mpr h)]
  have hone : beBytes 1 mode.toNat = [mode] := by
    rw [beBytes, leBytes, leBytes, UInt8.ofNat_toNat]
    rfl
  rw [hbody] at hopen
  rw [hbody, show mode :: payload ++ rest = beBytes 1 mode.toNat ++ (payload ++ rest) by
    rw [hone]; rfl] at hs
  obtain ⟨ms, hr, hms⟩ := readInt_beBytes (by decide) mode.toNat_lt hs
  obtain ⟨outputs, hp, hout⟩ := readPayload_opens (t := { t with ms }) (i := i) hms hmode hopen
  refine ⟨skipRead ms payload.length, outputs, ?_, hout, hms.skipRead⟩
  rw [hr, Exec.ok_bind, hbody, List.length_cons, Nat.add_sub_cancel]
  dsimp only
  rw [UInt8.ofNat_toNat, hp]

end Block

/-! ## One call -/

section Call

variable (digest : Bytes → Digest) (Z : Inflate)
  (openNested : Bytes → Exec (List Bytes × Option ParseError))

/-- The loop over the blocks hands out the contents when every block is
intact, and sets an error otherwise. -/
theorem run_blocks (b rest : Bytes) (blocks : List Block) :
    ∀ {i : Nat} {t : Transform} {c : Bytes}, t.step = .dataBlocks i →
      t.chunks.drop i = blocks.map Block.info → Unread t.ms b (bodies blocks ++ rest) →
      (∀ block ∈ blocks, block.body.head? = some modeN ∨ block.body.head? = some modeZ) →
      loadAll digest Z blocks = .ok (some c) →
      ∃ r, (machine digest Z openNested).run t = .ok r ∧
        ((r.error = none ∧ r.out.flatten = c) ↔ ∀ block ∈ blocks, block.Intact digest) := by
  induction blocks with
  | nil =>
      intro i t c hstep hchunks _ _ hload
      have hi : t.chunks[i]? = none := by
        rw [List.getElem?_eq_none_iff]
        exact List.drop_eq_nil_iff.mp hchunks
      have hwait : t.next digest Z openNested = .ok .wait := by
        rw [next, hstep]
        dsimp only
        rw [readBlock, hi]
      refine ⟨_, run_of_wait hwait, ?_⟩
      cases hload
      exact ⟨fun _ _ h => absurd h List.not_mem_nil, fun _ => ⟨rfl, rfl⟩⟩
  | cons block blocks ih =>
      intro i t c hstep hchunks hs hmodes hload
      have hi : t.chunks[i]? = some block.info := by
        have h := congrArg (·[0]?) hchunks
        rwa [List.getElem?_drop, Nat.add_zero, List.map_cons, List.getElem?_cons_zero] at h
      have hnext : t.next digest Z openNested = t.readBlock digest Z openNested i := by
        rw [next, hstep]
      rw [bodies_cons, List.append_assoc] at hs
      obtain ⟨mode, payload, hbody, hmode⟩ : ∃ mode payload, block.body = mode :: payload ∧
          (mode = modeN ∨ mode = modeZ) := by
        have hhead := hmodes block List.mem_cons_self
        cases hb : block.body with
        | nil =>
            rw [hb] at hhead
            exact absurd hhead (by decide)
        | cons mode payload =>
            rw [hb, List.head?_cons, Option.some.injEq, Option.some.injEq] at hhead
            exact ⟨mode, payload, rfl, hhead⟩
      have hne : block.body ≠ [] := by
        rw [hbody]
        exact List.cons_ne_nil _ _
      by_cases hintact : block.Intact digest
      · rw [loadAll] at hload
        obtain ⟨r, hblock, hload⟩ := Exec.bind_eq_ok.mp hload
        cases r with
        | none => cases hload
        | some x =>
            obtain ⟨r, hrest, hload⟩ := Exec.bind_eq_ok.mp hload
            cases r with
            | none => cases hload
            | some y =>
                cases hload
                have hopen : openChunk Z block.body = .ok (some x) := by
                  rw [Block.load] at hblock
                  split at hblock
                  · cases hblock
                  · exact hblock
                obtain ⟨ms, outputs, hread, hout, hms⟩ :=
                  readBlock_intact openNested hs hbody hmode hi hintact hopen
                obtain ⟨r, hrun, hiff⟩ := ih (i := i + 1)
                  (t := { t with ms, step := .dataBlocks (i + 1) }) rfl
                  (by rw [← List.drop_drop, hchunks]; rfl) hms
                  (fun block' h => hmodes block' (List.mem_cons_of_mem _ h)) hrest
                refine ⟨r.after outputs none, ?_, ?_⟩
                · rw [run_of_next (hnext.trans hread), hrun]
                  rfl
                · rw [Result.after_none, List.forall_mem_cons, ← hiff]
                  change (r.error = none ∧ (outputs ++ r.out).flatten = x ++ y) ↔ _
                  rw [List.flatten_append, hout, List.append_cancel_left_eq]
                  exact ⟨fun h => ⟨hintact, h⟩, fun h => h.2⟩
      · have hread := readBlock_damaged Z openNested hs hne hi hintact
        refine ⟨_, run_of_stop (hnext.trans hread), ?_⟩
        refine ⟨fun h => ?_, fun h => absurd (h block List.mem_cons_self) hintact⟩
        cases h.1

/-- The first step reads the signature and the header size. -/
theorem next_header {b rest : Bytes} {f : Frame} (hb : b = f.bytes ++ rest)
    (hfit : b.length < 2 ^ 63) :
    ∃ t, (fresh.feed b).next digest Z openNested = .ok (.next t [] none) ∧
      t.step = .chunkHeaders ∧ t.headerSize.toNat = f.headerSize ∧
      Unread t.ms b (beBytes 4 f.flagsChunkCount ++ (table f.blocks ++
        (bodies f.blocks ++ rest))) := by
  have hms := feed_fresh_ms b
  have h₀ : Unread (fresh.feed b).ms b (leBytes 4 blteSignature ++ (beBytes 4 f.headerSize ++
      (beBytes 4 f.flagsChunkCount ++ (table f.blocks ++ (bodies f.blocks ++ rest))))) := by
    refine ⟨0, by rw [hms]; exact ⟨rfl, rfl, hfit⟩, ?_, ?_⟩
    · rw [hb, Frame.bytes, Frame.header]
      simp only [List.length_append, leBytes_length, beBytes_length]
      omega
    · rw [hb, Frame.bytes, Frame.header, List.drop_zero]
      simp only [List.append_assoc]
      rfl
  obtain ⟨ms₁, hr₁, hs₁⟩ := readInt_leBytes (by decide) h₀
  obtain ⟨ms₂, hr₂, hs₂⟩ := readInt_beBytes (by decide) f.headerSize_lt hs₁
  have hcan : canRead (fresh.feed b).ms 8 = true := by
    refine (h₀.canRead_iff (by decide)).mpr ?_
    rw [List.length_append, List.length_append, leBytes_length, beBytes_length]
    omega
  refine ⟨{ fresh.feed b with
      ms := ms₂
      engine := ((fresh.feed b).engine.updateInt 4 blteSignature).updateInt 4
        (byteswap 4 f.headerSize)
      headerSize := .ofNat f.headerSize
      step := .chunkHeaders }, ?_, rfl, ?_, hs₂⟩
  · rw [next]
    change (fresh.feed b).readHeader = _
    rw [readHeader, if_pos hcan, hr₁, Exec.ok_bind]
    dsimp only
    rw [if_neg (not_not.mpr rfl), hr₂, Exec.ok_bind]
  · exact UInt32.toNat_ofNat_of_lt' f.headerSize_lt

/-- The second step waits for as many bytes as the whole header has, though
eight of them have been read. -/
theorem next_chunkHeaders {b rest : Bytes} {f : Frame} {t : Transform}
    (hb : b = f.bytes ++ rest) (hstep : t.step = .chunkHeaders)
    (hsize : t.headerSize.toNat = f.headerSize) (hblocks : f.blocks ≠ [])
    (hs : Unread t.ms b (beBytes 4 f.flagsChunkCount ++ (table f.blocks ++
      (bodies f.blocks ++ rest)))) :
    if b.length < 8 + f.headerSize then t.next digest Z openNested = .ok .wait
    else ∃ t', t.next digest Z openNested = .ok (.next t' [] none) ∧
      t'.step = .dataBlocks 0 ∧ t'.chunks = f.blocks.map Block.info ∧
      Unread t'.ms b (bodies f.blocks ++ rest) := by
  have hlen := congrArg List.length hb
  rw [List.length_append, Frame.bytes_length] at hlen
  have hcan : canRead t.ms t.headerSize.toNat = true ↔ 8 + f.headerSize ≤ b.length := by
    obtain ⟨c, hrep, hc, -⟩ := hs
    simp only [List.length_append, beBytes_length, table_length] at hc
    have hfits := CursorReadable.fits hrep
    have hh := f.headerSize_lt
    rw [hsize, canRead_iff hrep (lt_sizeMax (by omega)), Frame.headerSize]
    rw [Frame.headerSize] at hlen
    omega
  have hnext : t.next digest Z openNested = t.readChunkHeaders := by
    rw [next, hstep]
  rw [hnext, readChunkHeaders]
  by_cases hshort : b.length < 8 + f.headerSize
  · rw [if_pos hshort, if_neg (by rw [hcan]; omega)]
  · obtain ⟨ms₁, hr₁, hs₁⟩ := readInt_beBytes (by decide) f.flagsChunkCount_lt hs
    rw [if_neg hshort, if_pos (hcan.mpr (by omega)), hr₁, Exec.ok_bind]
    have hflags : (f.flagsChunkCount &&& 0xFF000000) >>> 24 = 0xF := by
      have hcount := f.count_lt
      rw [Nat.shiftRight_and_distrib, Nat.shiftRight_eq_div_pow, Frame.flagsChunkCount_eq,
        show (0x0F000000 + f.blocks.length) / 2 ^ 24 = 0xF by omega]
      rfl
    have hpos : f.blocks.length ≠ 0 := fun h => hblocks (List.length_eq_zero_iff.mp h)
    obtain ⟨engine, ms₂, hr₂, hs₂⟩ := readChunkInfos_blocks b (bodies f.blocks ++ rest) f.blocks
      ms₁ (t.engine.updateInt 4 (byteswap 4 f.flagsChunkCount)) hs₁
    refine ⟨{ t with chunks := f.blocks.map Block.info, ms := ms₂, engine, step := .dataBlocks 0 },
      ?_, rfl, rfl, hs₂⟩
    dsimp only
    rw [hflags, f.flagsChunkCount_and, if_neg (by simp [hpos]), hr₂, Exec.ok_bind]

/-- One call on a frame.  Without the eight further bytes nothing happens. -/
theorem run_frame {b rest c : Bytes} {f : Frame} (hb : b = f.bytes ++ rest)
    (hfit : b.length < 2 ^ 63) (hblocks : f.blocks ≠ [])
    (hmodes : ∀ block ∈ f.blocks, block.body.head? = some modeN ∨ block.body.head? = some modeZ)
    (hload : loadAll digest Z f.blocks = .ok (some c)) :
    ∃ r, (machine digest Z openNested).run (fresh.feed b) = .ok r ∧
      ((r.error = none ∧ r.out.flatten = c) ↔
        if b.length < 8 + f.headerSize then c = []
        else ∀ block ∈ f.blocks, block.Intact digest) := by
  obtain ⟨t₁, hnext₁, hstep₁, hsize₁, hs₁⟩ := next_header digest Z openNested hb hfit
  have hnext₂ := next_chunkHeaders digest Z openNested hb hstep₁ hsize₁ hblocks hs₁
  have hrun₁ := run_of_next hnext₁
  by_cases hshort : b.length < 8 + f.headerSize
  · rw [if_pos hshort] at hnext₂ ⊢
    rw [run_of_wait hnext₂] at hrun₁
    exact ⟨_, hrun₁, fun h => h.2.symm, fun h => ⟨rfl, h.symm⟩⟩
  · rw [if_neg hshort] at hnext₂ ⊢
    obtain ⟨t₂, hnext₂, hstep₂, hchunks₂, hs₂⟩ := hnext₂
    obtain ⟨r, hrun₂, hiff⟩ := run_blocks digest Z openNested b rest f.blocks hstep₂
      (by rw [List.drop_zero, hchunks₂]) hs₂ hmodes hload
    rw [run_of_next hnext₂, hrun₂] at hrun₁
    refine ⟨_, hrun₁, ?_⟩
    rw [← hiff, Result.after_none, Result.after_none]
    rfl

end Call

/-! ## The two decoders -/

/-- The contents of a frame are empty when every chunk opens to nothing. -/
theorem loadAll_eq_nil_iff {digest : Bytes → Digest} {Z : Inflate} (blocks : List Block) :
    ∀ {c : Bytes}, loadAll digest Z blocks = .ok (some c) →
      ((∀ block ∈ blocks, (digest block.body).bytes = block.checksum) ∧
        (c = [] ↔ ∀ block ∈ blocks, openChunk Z block.body = .ok (some []))) := by
  induction blocks with
  | nil =>
      intro c h
      cases h
      exact ⟨fun _ h => absurd h List.not_mem_nil,
        fun _ _ h => absurd h List.not_mem_nil, fun _ => rfl⟩
  | cons block blocks ih =>
      intro c h
      rw [loadAll] at h
      obtain ⟨r, hblock, h⟩ := Exec.bind_eq_ok.mp h
      cases r with
      | none => cases h
      | some x =>
          obtain ⟨r, hrest, h⟩ := Exec.bind_eq_ok.mp h
          cases r with
          | none => cases h
          | some y =>
              cases h
              obtain ⟨hsums, hnil⟩ := ih hrest
              rw [Block.load] at hblock
              split at hblock
              · cases hblock
              · next hsum =>
                  refine ⟨List.forall_mem_cons.mpr ⟨not_not.mp hsum, hsums⟩, ?_⟩
                  rw [List.append_eq_nil_iff, hnil, List.forall_mem_cons, hblock]
                  simp

/-- On a byte string that the in-memory decoder accepts, the streaming decoder
gives the same contents without an error exactly when eight bytes follow the
header and no chunk changes its digest with its last byte left out, or when
they do not and there are no contents. -/
theorem parse_agrees_iff {σ : Type} [IReadableStream σ] [LawfulReadable σ]
    (digest : Bytes → Digest) (Z : Inflate) {d : Bytes} {s : σ} {blte : BLTE} (hs : Rep s d 0)
    (hparse : BLTE.parse digest Z s = .ok (some blte)) (hflags : flagsField d = 0x0F)
    (hsize : headerSizeField d = 12 + 24 * countField d) (hcount : 1 ≤ countField d)
    (hsizes : ∀ size ∈ sizeFields d, 1 ≤ size)
    (hmodes : ∀ chunk ∈ chunksOf d, chunk.head? = some modeN ∨ chunk.head? = some modeZ) :
    (∃ n r, fresh.parse digest Z d = .ok (n, r) ∧ r.error = none ∧
      r.out.flatten = blte.dataBuffer.data) ↔
    (d.length < 20 + 24 * countField d ∧ ∀ chunk ∈ chunksOf d, openChunk Z chunk = .ok (some [])) ∨
    (20 + 24 * countField d ≤ d.length ∧
      ∀ chunk ∈ chunksOf d, digest chunk.dropLast = digest chunk) := by
  obtain ⟨f, rest, hd, hlen, hchunks⟩ :=
    BLTE.frame_of_parse digest Z hs hparse hflags hsize hcount hsizes
  have hfit := CursorReadable.fits hs
  have hblocks : f.blocks ≠ [] := List.ne_nil_of_length_pos (by omega)
  have hframe := BLTE._parse_frame digest Z (hd ▸ hs) none none
  rw [BLTE.parse, hframe, Option.any_none, if_neg Bool.false_ne_true] at hparse
  obtain ⟨c, hload, hblte⟩ : ∃ c, loadAll digest Z f.blocks = .ok (some c) ∧
      blte = BLTE.holding c := by
    cases hload : loadAll digest Z f.blocks with
    | error e => rw [hload] at hparse; cases hparse
    | ok r =>
        rw [hload] at hparse
        cases r with
        | none => cases hparse
        | some c =>
            cases hparse
            exact ⟨c, rfl, rfl⟩
  obtain ⟨hsums, hnil⟩ := loadAll_eq_nil_iff f.blocks hload
  rw [← hchunks] at hmodes ⊢
  obtain ⟨r, hrun, hiff⟩ := run_frame digest Z (openNested digest Z) hd hfit hblocks
    (fun block h => hmodes _ (List.mem_map_of_mem h)) hload
  have hintact : (∀ block ∈ f.blocks, block.Intact digest) ↔
      ∀ chunk ∈ f.blocks.map Block.body, digest chunk.dropLast = digest chunk := by
    rw [List.forall_mem_map]
    refine forall₂_congr fun block h => ?_
    rw [Block.Intact, ← hsums block h, Digest.ext_iff]
  rw [List.forall_mem_map, ← hnil, ← hintact]
  have hparse' : fresh.parse digest Z d = .ok (d.length, r) := by
    rw [parse, hrun, Exec.ok_bind]
  have hheader : 8 + f.headerSize = 20 + 24 * countField d := by
    rw [Frame.headerSize, hlen]
    omega
  rw [hheader] at hiff
  have hagree : (∃ n r, fresh.parse digest Z d = .ok (n, r) ∧ r.error = none ∧
      r.out.flatten = blte.dataBuffer.data) ↔ (r.error = none ∧ r.out.flatten = c) := by
    rw [hparse', hblte]
    constructor
    · rintro ⟨n, r', h, herror, hout⟩
      cases h
      exact ⟨herror, hout⟩
    · exact fun h => ⟨_, r, rfl, h⟩
  rw [hagree, hiff]
  by_cases hshort : d.length < 20 + 24 * countField d
  · rw [if_pos hshort]
    exact ⟨fun h => Or.inl ⟨hshort, h⟩, fun h => h.elim (·.2) (fun h => absurd h.1 (by omega))⟩
  · rw [if_neg hshort]
    exact ⟨fun h => Or.inr ⟨by omega, h⟩, fun h => h.elim (fun h => absurd h.1 hshort) (·.2)⟩

/-- Both decoders on the sample archive. -/
theorem parse_agrees_sample :
    (∃ n r, fresh.parse Digest.leading Inflate.copying (Archive.sample.bytes Digest.leading) =
        .ok (n, r) ∧ r.error = none ∧ r.out.flatten = [1, 2]) ↔
      (68 < 20 + 24 * 2 ∧ ∀ chunk ∈ chunksOf (Archive.sample.bytes Digest.leading),
        openChunk Inflate.copying chunk = .ok (some [])) ∨
      (20 + 24 * 2 ≤ 68 ∧ ∀ chunk ∈ chunksOf (Archive.sample.bytes Digest.leading),
        Digest.leading chunk.dropLast = Digest.leading chunk) :=
  parse_agrees_iff Digest.leading Inflate.copying
    (FileStream.ofBuffer_rep (Archive.sample.buffer Digest.leading))
    (Archive.sample._parse_archive Digest.leading (FileStream.ofBuffer_rep _) none none)
    (by decide) (by decide) (by decide) (by decide)
    (by decide)

/-- The in-memory decoder accepts the sample archive, whose header is as the
format has it, and the streaming decoder rejects its first block. -/
theorem parse_rejects_sample :
    (∃ blte, BLTE.parse Digest.leading Inflate.copying
        (FileStream.ofBuffer (Archive.sample.buffer Digest.leading)) = .ok (some blte) ∧
      blte.dataBuffer.data = [1, 2]) ∧
    flagsField (Archive.sample.bytes Digest.leading) = 0x0F ∧
    headerSizeField (Archive.sample.bytes Digest.leading) = 12 + 24 * 2 ∧
    countField (Archive.sample.bytes Digest.leading) = 2 ∧
    chunksOf (Archive.sample.bytes Digest.leading) = [[modeN, 1], [modeZ, 2, 0, 0, 0, 0]] ∧
    (fresh.parse Digest.leading Inflate.copying (Archive.sample.bytes Digest.leading)).map
      (fun x => (x.2.out, x.2.error)) = .ok ([], some .digest) := by
  refine ⟨⟨BLTE.holding [1, 2], ?_, rfl⟩, ?_⟩
  · exact Archive.sample._parse_archive Digest.leading (FileStream.ofBuffer_rep _) none none
  · decide +kernel

end Transform

end Tactmon
