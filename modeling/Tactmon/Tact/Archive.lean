import Tactmon.Tact.Decode

/-!
# Archives

An `Archive` is a list of chunks, each stored or a complete zlib stream, that
fits the fields of the container.  `bytes` is its standard serialisation, and
`contents` what it stands for.

`frame_bytes` connects the serialisation to the frames of the decoder.  With
`loadAll_archive` it gives that decoding undoes encoding, and with
`exists_replaced` that a chunk with another digest is refused.

Against an encoding key the decoder compares the digest of `hashedHeader`, so
it accepts an archive exactly when that digest is the digest of the header.
-/

namespace Tactmon

open Binary Cxx Zlib CursorReadable

/-- A chunk, by encoding mode. -/
inductive Chunk (Z : Inflate) where
  | plain (raw : Bytes)
  | deflated (z content : Bytes) (complete : Z.Decodes z content)

namespace Chunk

variable {Z : Inflate}

/-- The bytes of a chunk. -/
def body : Chunk Z → Bytes
  | plain raw => modeN :: raw
  | deflated z _ _ => modeZ :: z

/-- What a chunk decodes to. -/
def content : Chunk Z → Bytes
  | plain raw => raw
  | deflated _ content _ => content

theorem open_body (chunk : Chunk Z) : openChunk Z chunk.body = .ok (some chunk.content) := by
  cases chunk with
  | plain raw => rw [body, openChunk, if_pos rfl, content]
  | deflated z content complete =>
      obtain ⟨s, outputs, hinit, hdrain, hout⟩ :=
        Inflate.drain_decodes decompressedBuffer complete
      rw [body, openChunk, if_neg (by decide), if_pos rfl]
      simp only [hinit, hdrain, Exec.ok_bind, if_true, hout, Chunk.content]

end Chunk

/-- Chunks that fit the fields of the container. -/
structure Archive (Z : Inflate) where
  chunks : List (Chunk Z)
  count_lt : chunks.length < 2 ^ 24
  size_lt : ∀ chunk ∈ chunks, chunk.body.length < 2 ^ 32

namespace Archive

variable {Z : Inflate} (digest : Bytes → Digest) (a : Archive Z)

/-- What the archive stands for. -/
def contents : Bytes := a.chunks.flatMap Chunk.content

/-- The table entry of a chunk: its two sizes and its digest. -/
def entry (chunk : Chunk Z) : Bytes :=
  beBytes 4 chunk.body.length ++ (beBytes 4 chunk.content.length ++ (digest chunk.body).bytes)

/-- The header, whose size field counts the table. -/
def header : Bytes :=
  beBytes 4 blteMagic ++ (beBytes 4 (12 + 24 * a.chunks.length) ++
    (beBytes 4 (0x0F000000 ||| a.chunks.length) ++ a.chunks.flatMap (entry digest)))

/-- The standard serialisation. -/
def bytes : Bytes := a.header digest ++ (a.chunks.map Chunk.body).flatten

/-- The serialisation with the bytes of one chunk replaced. -/
def replaced (i : Nat) (x : Bytes) : Bytes :=
  a.header digest ++ ((a.chunks.map Chunk.body).set i x).flatten

/-- A table entry with both sizes as eight bytes. -/
def widenedEntry (chunk : Chunk Z) : Bytes :=
  beBytes 8 chunk.body.length ++
    (beBytes 8 (chunk.content.length % 2 ^ 32) ++ (digest chunk.body).bytes)

/-- The header with every size of the table as eight bytes. -/
def widenedHeader : Bytes :=
  beBytes 4 blteMagic ++ (beBytes 4 (12 + 24 * a.chunks.length) ++
    (beBytes 4 (0x0F000000 ||| a.chunks.length) ++ a.chunks.flatMap (widenedEntry digest)))

/-! ## The frame of an archive -/

/-- The block of a chunk, with other bytes `x` in its place. -/
def block (chunk : Chunk Z) (x : Bytes) (hx : x.length < 2 ^ 32) : Block where
  body := x
  decompressedSize := chunk.content.length % 2 ^ 32
  checksum := (digest chunk.body).bytes
  size_lt := hx
  decompressed_lt := Nat.mod_lt _ (by decide)
  checksum_size := (digest chunk.body).size_eq

/-- The blocks of chunks. -/
def blocksOf : (chunks : List (Chunk Z)) → (∀ chunk ∈ chunks, chunk.body.length < 2 ^ 32) →
    List Block
  | [], _ => []
  | chunk :: chunks, h =>
      block digest chunk chunk.body (h chunk List.mem_cons_self) ::
        blocksOf chunks fun c hc => h c (List.mem_cons_of_mem _ hc)

theorem blocksOf_length (chunks : List (Chunk Z)) :
    ∀ h, (blocksOf digest chunks h).length = chunks.length := by
  induction chunks with
  | nil => exact fun _ => rfl
  | cons chunk chunks ih =>
      intro h
      rw [blocksOf, List.length_cons, List.length_cons, ih]

/-- The frame of an archive. -/
def frame : Frame where
  blocks := blocksOf digest a.chunks a.size_lt
  count_lt := by
    rw [blocksOf_length]
    exact a.count_lt

theorem entry_block {chunk : Chunk Z} {x : Bytes} (hlen : x.length = chunk.body.length) (hx) :
    (block digest chunk x hx).entry = entry digest chunk := by
  have hsize : beBytes 4 (chunk.content.length % 2 ^ 32) = beBytes 4 chunk.content.length :=
    beBytes_mod 4 chunk.content.length
  rw [Block.entry, entry, block, hlen, hsize]

theorem table_blocksOf (chunks : List (Chunk Z)) :
    ∀ h, table (blocksOf digest chunks h) = chunks.flatMap (entry digest) := by
  induction chunks with
  | nil => exact fun _ => rfl
  | cons chunk chunks ih =>
      intro h
      rw [blocksOf, table_cons, entry_block digest rfl, ih, List.flatMap_cons]

theorem bodies_blocksOf (chunks : List (Chunk Z)) :
    ∀ h, bodies (blocksOf digest chunks h) = (chunks.map Chunk.body).flatten := by
  induction chunks with
  | nil => exact fun _ => rfl
  | cons chunk chunks ih =>
      intro h
      rw [blocksOf, bodies_cons, ih, List.map_cons, List.flatten_cons]
      rfl

theorem hashedTable_blocksOf (chunks : List (Chunk Z)) :
    ∀ h, hashedTable (blocksOf digest chunks h) = chunks.flatMap (widenedEntry digest) := by
  induction chunks with
  | nil => exact fun _ => rfl
  | cons chunk chunks ih =>
      intro h
      rw [blocksOf, hashedTable_cons, ih, List.flatMap_cons]
      rfl

theorem frame_header : (a.frame digest).header = a.header digest := by
  rw [Frame.header, header, Frame.headerSize, Frame.flagsChunkCount, frame, blocksOf_length,
    table_blocksOf]

theorem frame_hashedHeader : (a.frame digest).hashedHeader = a.widenedHeader digest := by
  rw [Frame.hashedHeader, widenedHeader, Frame.headerSize, Frame.flagsChunkCount, frame,
    blocksOf_length, hashedTable_blocksOf]

/-- The serialisation is the frame. -/
theorem frame_bytes : (a.frame digest).bytes = a.bytes digest := by
  rw [Frame.bytes, frame_header, bytes, frame, bodies_blocksOf]

/-- An archive in memory. -/
def buffer : Buffer := ⟨a.bytes digest, by
  rw [← frame_bytes]
  exact Frame.bytes_fits _⟩

/-! ## Decoding an archive -/

theorem load_block (chunk : Chunk Z) (h) :
    (block digest chunk chunk.body h).load digest Z = .ok (some chunk.content) := by
  have hsum : ¬ (digest (block digest chunk chunk.body h).body).bytes ≠
      (block digest chunk chunk.body h).checksum := not_not.mpr rfl
  rw [Block.load, if_neg hsum]
  exact chunk.open_body

/-- Decoding undoes encoding. -/
theorem loadAll_archive (chunks : List (Chunk Z)) :
    ∀ h, loadAll digest Z (blocksOf digest chunks h) =
      .ok (some (chunks.flatMap Chunk.content)) := by
  induction chunks with
  | nil => exact fun _ => rfl
  | cons chunk chunks ih =>
      intro h
      rw [blocksOf, loadAll, load_block, Exec.ok_bind]
      dsimp only
      rw [ih, Exec.ok_bind, List.flatMap_cons]

/-- Replacing a chunk by bytes of another digest leaves the table alone, and
decoding stops at the replaced chunk. -/
theorem exists_replaced (chunks : List (Chunk Z)) :
    ∀ (_ : ∀ chunk ∈ chunks, chunk.body.length < 2 ^ 32) (i : Nat) (chunk : Chunk Z) (x : Bytes),
      chunks[i]? = some chunk → x.length = chunk.body.length → digest x ≠ digest chunk.body →
      ∃ blocks : List Block, blocks.length = chunks.length ∧
        table blocks = chunks.flatMap (entry digest) ∧
        bodies blocks = ((chunks.map Chunk.body).set i x).flatten ∧
        loadAll digest Z blocks = .ok none := by
  induction chunks with
  | nil =>
      intro _ i chunk x hi
      cases hi
  | cons first chunks ih =>
      intro h i chunk x hi hlen hne
      have hfirst : first.body.length < 2 ^ 32 := h first List.mem_cons_self
      have hrest : ∀ c ∈ chunks, c.body.length < 2 ^ 32 := fun c hc =>
        h c (List.mem_cons_of_mem _ hc)
      cases i with
      | zero =>
          cases hi
          have hx : x.length < 2 ^ 32 := hlen ▸ hfirst
          refine ⟨block digest first x hx :: blocksOf digest chunks hrest, ?_, ?_, ?_, ?_⟩
          · rw [List.length_cons, blocksOf_length, List.length_cons]
          · rw [table_cons, entry_block digest hlen, table_blocksOf, List.flatMap_cons]
          · rw [bodies_cons, bodies_blocksOf, List.map_cons, List.set_cons_zero,
              List.flatten_cons]
            rfl
          · have hsum : (digest x).bytes ≠ (digest first.body).bytes := fun hsum =>
              hne (Digest.ext hsum)
            have hload : (block digest first x hx).load digest Z = .ok none := if_pos hsum
            rw [loadAll, hload]
            rfl
      | succ i =>
          obtain ⟨blocks, hcount, htable, hbodies, hload⟩ := ih hrest i chunk x hi hlen hne
          refine ⟨block digest first first.body hfirst :: blocks, ?_, ?_, ?_, ?_⟩
          · rw [List.length_cons, hcount, List.length_cons]
          · rw [table_cons, entry_block digest rfl, htable, List.flatMap_cons]
          · rw [bodies_cons, hbodies, List.map_cons, List.set_cons_succ, List.flatten_cons]
            rfl
          · rw [loadAll, load_block, Exec.ok_bind]
            dsimp only
            rw [hload]
            rfl

/-- The frame of a serialisation with a replaced chunk. -/
theorem exists_replaced_frame {i : Nat} {chunk : Chunk Z} {x : Bytes}
    (hi : a.chunks[i]? = some chunk) (hlen : x.length = chunk.body.length)
    (hne : digest x ≠ digest chunk.body) :
    ∃ f : Frame, f.bytes = a.replaced digest i x ∧ loadAll digest Z f.blocks = .ok none := by
  obtain ⟨blocks, hcount, htable, hbodies, hload⟩ :=
    exists_replaced digest a.chunks a.size_lt i chunk x hi hlen hne
  have hlt : blocks.length < 2 ^ 24 := hcount ▸ a.count_lt
  refine ⟨⟨blocks, hlt⟩, ?_, hload⟩
  rw [Frame.bytes, Frame.header, Frame.headerSize, Frame.flagsChunkCount, replaced, header,
    hcount, htable, hbodies]

/-- A stored chunk and a zlib stream. -/
def sample : Archive Inflate.copying where
  chunks := [.plain [1], .deflated [2, 0, 0, 0, 0] [2] (Inflate.copying_decodes [2] rfl)]
  count_lt := by decide
  size_lt := by decide

/-! ## The decoder on an archive -/

section Decoder

variable {σ : Type} [IReadableStream σ] [LawfulReadable σ]

/-- A keyed parse of an archive, up to the comparison of the encoding key. -/
theorem _parse_archive {s : σ} (hs : Rep s (a.bytes digest) 0) (ekey ckey : Option Bytes) :
    BLTE._parse digest Z s ekey ckey =
      if ekey.any (fun ekey => ekey ≠ (digest (a.widenedHeader digest)).bytes) then .ok none
      else .ok (if ckey.all (fun ckey => ckey = (digest a.contents).bytes) then
        some (BLTE.holding a.contents) else none) := by
  rw [← frame_bytes, ← List.append_nil (Frame.bytes _)] at hs
  rw [BLTE._parse_frame digest Z hs, frame_hashedHeader, frame, loadAll_archive]
  rfl

/-- Without keys the decoder returns the contents of an archive, and refuses it
once a chunk is replaced by bytes with another digest. -/
theorem parse_archive {s : σ} (hs : Rep s (a.bytes digest) 0) :
    (∃ blte view, BLTE.parse digest Z s = .ok (some blte) ∧
      blte.dataBuffer.view = .ok view ∧ view.bytes = a.contents) ∧
    ∀ (i : Nat) (chunk : Chunk Z) (x : Bytes), a.chunks[i]? = some chunk →
      x.length = chunk.body.length → digest x ≠ digest chunk.body →
      ∀ s' : σ, Rep s' (a.replaced digest i x) 0 → BLTE.parse digest Z s' = .ok none := by
  constructor
  · obtain ⟨view, hview, hbytes⟩ := BLTE.view_holding a.contents
    exact ⟨BLTE.holding a.contents, view, a._parse_archive digest hs none none, hview, hbytes⟩
  · intro i chunk x hi hlen hne s' hs'
    obtain ⟨f, hf, hload⟩ := a.exists_replaced_frame digest hi hlen hne
    rw [← hf, ← List.append_nil f.bytes] at hs'
    rw [BLTE.parse, BLTE._parse_frame digest Z hs', hload]
    rfl

/-- The sample in a file, and the same file with its first chunk replaced. -/
theorem parse_sample :
    (∃ blte view, BLTE.parse Digest.leading Inflate.copying
        (FileStream.ofBuffer (sample.buffer Digest.leading)) = .ok (some blte) ∧
      blte.dataBuffer.view = .ok view ∧ view.bytes = [1, 2]) ∧
    BLTE.parse Digest.leading Inflate.copying
      (FileStream.ofBuffer ⟨sample.replaced Digest.leading 0 [modeN, 9], by decide⟩) = .ok none :=
  ⟨(sample.parse_archive Digest.leading (FileStream.ofBuffer_rep _)).1,
    (sample.parse_archive Digest.leading
      (FileStream.ofBuffer_rep (sample.buffer Digest.leading))).2 0 _ [modeN, 9] rfl rfl
      (by decide) _ (FileStream.ofBuffer_rep _)⟩

/-- Against the digest of the header and the digest of the contents the decoder
returns the contents exactly when the widened header has the digest of the
header.  The widened header is what the header digest is fed, and it is never
the header. -/
theorem parseKeyed_archive_iff {s : σ} (hs : Rep s (a.bytes digest) 0) (hn : a.chunks ≠ []) :
    ((∃ blte view, BLTE.parseKeyed digest Z s (digest (a.header digest)).bytes
        (digest a.contents).bytes = .ok (some blte) ∧
      blte.dataBuffer.view = .ok view ∧ view.bytes = a.contents) ↔
      digest (a.widenedHeader digest) = digest (a.header digest)) ∧
    (∃ chunks s', BLTE.readHeader s = .ok (some (chunks, ⟨a.widenedHeader digest⟩, s'))) ∧
    a.widenedHeader digest ≠ a.header digest := by
  refine ⟨?_, ?_, ?_⟩
  · rw [BLTE.parseKeyed, a._parse_archive digest hs, Option.any_some, Option.all_some]
    constructor
    · rintro ⟨blte, view, hparse, -, -⟩
      by_contra hne
      have hkey : (digest (a.header digest)).bytes ≠ (digest (a.widenedHeader digest)).bytes :=
        fun h => hne (Digest.ext h.symm)
      rw [if_pos (decide_eq_true hkey)] at hparse
      cases hparse
    · intro heq
      obtain ⟨view, hview, hbytes⟩ := BLTE.view_holding a.contents
      refine ⟨BLTE.holding a.contents, view, ?_, hview, hbytes⟩
      rw [heq, if_neg (by simp), if_pos (by simp)]
  · rw [← frame_bytes, ← List.append_nil (Frame.bytes _)] at hs
    obtain ⟨s', c, hr, -⟩ := BLTE.readHeader_frame hs
    rw [frame_hashedHeader] at hr
    exact ⟨_, s', hr⟩
  · rw [← frame_hashedHeader, ← frame_header]
    refine Frame.hashedHeader_ne ?_
    intro hblocks
    have hlen := blocksOf_length digest a.chunks a.size_lt
    change blocksOf digest a.chunks a.size_lt = [] at hblocks
    rw [hblocks] at hlen
    exact hn (List.length_eq_zero_iff.mp hlen.symm)

/-- The sample against its own keys. -/
theorem parseKeyed_sample_iff :
    ((∃ blte view, BLTE.parseKeyed Digest.leading Inflate.copying
        (FileStream.ofBuffer (sample.buffer Digest.leading))
        (Digest.leading (sample.header Digest.leading)).bytes
        (Digest.leading sample.contents).bytes = .ok (some blte) ∧
      blte.dataBuffer.view = .ok view ∧ view.bytes = sample.contents) ↔
      Digest.leading (sample.widenedHeader Digest.leading) =
        Digest.leading (sample.header Digest.leading)) :=
  (sample.parseKeyed_archive_iff Digest.leading (FileStream.ofBuffer_rep _)
    (List.cons_ne_nil _ _)).1

/-- The sample is refused against its own keys. -/
theorem parseKeyed_sample :
    BLTE.parseKeyed Digest.leading Inflate.copying
      (FileStream.ofBuffer (sample.buffer Digest.leading))
      (Digest.leading (sample.header Digest.leading)).bytes
      (Digest.leading sample.contents).bytes = .ok none := by
  have hs := FileStream.ofBuffer_rep (sample.buffer Digest.leading)
  have hkey : (Digest.leading (sample.header Digest.leading)).bytes ≠
      (Digest.leading (sample.widenedHeader Digest.leading)).bytes := by decide +kernel
  rw [BLTE.parseKeyed, sample._parse_archive Digest.leading hs, Option.any_some,
    if_pos (decide_eq_true hkey)]

end Decoder

end Archive

end Tactmon
