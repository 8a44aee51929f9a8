import Tactmon.Tact.Archive

/-!
# Valid streams

What a BLTE stream is, whoever reads it: a frame of at least one block, each
with the digest of its whole chunk and the size of its contents in the table.
The contents of a block are stored, a complete zlib stream, or again a valid
stream.  Nothing is missing, and nothing is behind the last block.
-/

namespace Tactmon

open Binary Cxx Zlib

/-- The table entry is that of the chunk and its contents. -/
structure Block.Describes (digest : Bytes → Digest) (block : Block) (contents : Bytes) : Prop where
  checksum : block.checksum = (digest block.body).bytes
  size : block.decompressedSize = contents.length

mutual

/-- The bytes are a complete valid stream of the contents. -/
inductive ValidStream (digest : Bytes → Digest) (Z : Inflate) : Bytes → Bytes → Prop where
  | frame {f : Frame} {contents : Bytes} : f.blocks ≠ [] →
      ValidBlocks digest Z f.blocks contents → ValidStream digest Z f.bytes contents

inductive ValidBlocks (digest : Bytes → Digest) (Z : Inflate) : List Block → Bytes → Prop where
  | nil : ValidBlocks digest Z [] []
  | cons {block : Block} {blocks : List Block} {contents rest : Bytes} :
      ValidBlock digest Z block contents → ValidBlocks digest Z blocks rest →
      ValidBlocks digest Z (block :: blocks) (contents ++ rest)

inductive ValidBlock (digest : Bytes → Digest) (Z : Inflate) : Block → Bytes → Prop where
  | stored {block : Block} {contents : Bytes} : block.Describes digest contents →
      block.body = modeN :: contents → ValidBlock digest Z block contents
  | deflated {block : Block} {payload contents : Bytes} : block.Describes digest contents →
      block.body = modeZ :: payload → Z.Decodes payload contents →
      ValidBlock digest Z block contents
  | nested {block : Block} {payload contents : Bytes} : block.Describes digest contents →
      block.body = modeF :: payload → ValidStream digest Z payload contents →
      ValidBlock digest Z block contents

end

/-- A complete valid stream, of whatever contents. -/
def IsValid (digest : Bytes → Digest) (Z : Inflate) (stream : Bytes) : Prop :=
  ∃ contents, ValidStream digest Z stream contents

variable {digest : Bytes → Digest} {Z : Inflate}

/-- A valid stream has a header and an entry. -/
theorem IsValid.length_le {stream : Bytes} (h : IsValid digest Z stream) : 36 ≤ stream.length := by
  obtain ⟨contents, hvalid⟩ := h
  cases hvalid with
  | @frame f contents hne hblocks =>
      have hpos := List.length_pos_iff.mpr hne
      rw [f.bytes_length, Frame.headerSize]
      omega

namespace Archive

variable (digest) in
theorem validBlocks (chunks : List (Chunk Z)) :
    ∀ h, (∀ chunk ∈ chunks, chunk.content.length < 2 ^ 32) →
      ValidBlocks digest Z (blocksOf digest chunks h) (chunks.flatMap Chunk.content) := by
  induction chunks with
  | nil => exact fun _ _ => .nil
  | cons chunk chunks ih =>
      intro h hcontent
      obtain ⟨hchunk, hchunks⟩ := List.forall_mem_cons.mp hcontent
      have hdescribes : (block digest chunk chunk.body (h chunk List.mem_cons_self)).Describes
          digest chunk.content := ⟨rfl, Nat.mod_eq_of_lt hchunk⟩
      rw [List.flatMap_cons]
      refine .cons ?_ (ih _ hchunks)
      cases chunk with
      | plain raw => exact .stored hdescribes rfl
      | deflated z content complete => exact .deflated hdescribes rfl complete

variable (digest) in
/-- An archive is a valid stream of its contents. -/
theorem validStream (a : Archive Z) (hne : a.chunks ≠ [])
    (hcontent : ∀ chunk ∈ a.chunks, chunk.content.length < 2 ^ 32) :
    ValidStream digest Z (a.bytes digest) a.contents := by
  rw [← frame_bytes]
  refine .frame (fun h => hne ?_) (validBlocks digest a.chunks a.size_lt hcontent)
  rw [← List.length_eq_zero_iff, ← blocksOf_length digest a.chunks a.size_lt]
  exact List.length_eq_zero_iff.mpr h

end Archive

end Tactmon
