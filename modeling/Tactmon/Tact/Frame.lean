import Mathlib.Data.List.Basic
import Tactmon.Tact.BLTE

/-!
# The BLTE container

A `Block` is a chunk together with its entry of the chunk table, and carries
the bounds of the entry's fields.  A `Frame` is a container: the header, the
table and the chunks, in the standard layout.

The fields of an arbitrary byte string are read at the places the layout gives
them.  `Frame.of_fields` says that a byte string that holds all that its header
and its table announce is a frame followed by some rest.
-/

namespace Tactmon

open Binary Cxx

/-! ## Blocks and frames -/

/-- A chunk and its entry of the chunk table. -/
structure Block where
  body : Bytes
  decompressedSize : Nat
  checksum : Bytes
  size_lt : body.length < 2 ^ 32
  decompressed_lt : decompressedSize < 2 ^ 32
  checksum_size : checksum.length = 16

namespace Block

/-- The entry of the chunk table. -/
def entry (block : Block) : Bytes :=
  beBytes 4 block.body.length ++ (beBytes 4 block.decompressedSize ++ block.checksum)

@[simp] theorem entry_length (block : Block) : block.entry.length = 24 := by
  rw [entry, List.length_append, List.length_append, beBytes_length, beBytes_length,
    block.checksum_size]

end Block

/-- The chunk table. -/
def table (blocks : List Block) : Bytes := blocks.flatMap Block.entry

/-- The chunks behind the table. -/
def bodies (blocks : List Block) : Bytes := blocks.flatMap Block.body

@[simp] theorem table_cons (block : Block) (blocks : List Block) :
    table (block :: blocks) = block.entry ++ table blocks := List.flatMap_cons

@[simp] theorem bodies_cons (block : Block) (blocks : List Block) :
    bodies (block :: blocks) = block.body ++ bodies blocks := List.flatMap_cons

@[simp] theorem table_length (blocks : List Block) :
    (table blocks).length = 24 * blocks.length := by
  induction blocks with
  | nil => rfl
  | cons block blocks ih =>
      rw [table_cons, List.length_append, Block.entry_length, ih, List.length_cons]
      omega

theorem bodies_length_le (blocks : List Block) :
    (bodies blocks).length ≤ 2 ^ 32 * blocks.length := by
  induction blocks with
  | nil => exact Nat.zero_le _
  | cons block blocks ih =>
      have := block.size_lt
      rw [bodies_cons, List.length_append, List.length_cons]
      omega

/-- A container.  The chunk count has 24 bits. -/
structure Frame where
  blocks : List Block
  count_lt : blocks.length < 2 ^ 24

namespace Frame

/-- The flags byte and the chunk count, as one field. -/
def flagsChunkCount (f : Frame) : Nat := 0x0F000000 ||| f.blocks.length

/-- The size of the header with its table. -/
def headerSize (f : Frame) : Nat := 12 + 24 * f.blocks.length

/-- The header with its table. -/
def header (f : Frame) : Bytes :=
  beBytes 4 blteMagic ++ (beBytes 4 f.headerSize ++ (beBytes 4 f.flagsChunkCount ++
    table f.blocks))

/-- The whole container. -/
def bytes (f : Frame) : Bytes := f.header ++ bodies f.blocks

theorem flagsChunkCount_eq (f : Frame) :
    f.flagsChunkCount = 0x0F000000 + f.blocks.length :=
  (Nat.two_pow_add_eq_or_of_lt f.count_lt 15).symm

theorem headerSize_lt (f : Frame) : f.headerSize < 2 ^ 32 := by
  have := f.count_lt
  rw [headerSize]
  omega

theorem flagsChunkCount_lt (f : Frame) : f.flagsChunkCount < 2 ^ 32 := by
  have := f.count_lt
  rw [flagsChunkCount_eq]
  omega

/-- The mask of the decoders recovers the chunk count. -/
theorem flagsChunkCount_and (f : Frame) : f.flagsChunkCount &&& 0x00FFFFFF = f.blocks.length := by
  have := f.count_lt
  rw [show (0x00FFFFFF : Nat) = 2 ^ 24 - 1 from rfl, Nat.and_two_pow_sub_one_eq_mod,
    flagsChunkCount_eq]
  omega

@[simp] theorem header_length (f : Frame) : f.header.length = f.headerSize := by
  simp only [header, List.length_append, beBytes_length, table_length, headerSize]
  omega

theorem bytes_length (f : Frame) :
    f.bytes.length = f.headerSize + (bodies f.blocks).length := by
  rw [bytes, List.length_append, header_length]

/-- A container fits an allocation. -/
theorem bytes_fits (f : Frame) : f.bytes.length < 2 ^ 63 := by
  have hbodies := bodies_length_le f.blocks
  have hcount := f.count_lt
  rw [bytes_length, headerSize]
  omega

/-- A container in memory. -/
def buffer (f : Frame) : Buffer := ⟨f.bytes, f.bytes_fits⟩

end Frame

/-! ## The fields of a byte string -/

/-- The header size field. -/
def headerSizeField (d : Bytes) : Nat := beNat (window d 4 4)

/-- The field of the flags and the chunk count. -/
def flagsCountField (d : Bytes) : Nat := beNat (window d 8 4)

/-- The flags byte. -/
def flagsField (d : Bytes) : Nat := flagsCountField d / 2 ^ 24

/-- The chunk count. -/
def countField (d : Bytes) : Nat := flagsCountField d % 2 ^ 24

/-- The mask of the decoders on the field. -/
theorem flagsCountField_and (d : Bytes) : flagsCountField d &&& 0x00FFFFFF = countField d := by
  rw [show (0x00FFFFFF : Nat) = 2 ^ 24 - 1 from rfl, Nat.and_two_pow_sub_one_eq_mod, countField]

/-- The size fields of `n` entries, from offset `o` on. -/
def sizesFrom (d : Bytes) : Nat → Nat → List Nat
  | _, 0 => []
  | o, n + 1 => beNat (window d o 4) :: sizesFrom d (o + 24) n

/-- The size fields of the chunk table. -/
def sizeFields (d : Bytes) : List Nat := sizesFrom d 12 (countField d)

/-- Consecutive pieces of the given sizes. -/
def pieces : List Nat → Bytes → List Bytes
  | [], _ => []
  | n :: ns, d => d.take n :: pieces ns (d.drop n)

/-- The chunks of a byte string, as its header and its table place them. -/
def chunksOf (d : Bytes) : List Bytes := pieces (sizeFields d) (d.drop (headerSizeField d))

@[simp] theorem sizesFrom_length (d : Bytes) (n o : Nat) : (sizesFrom d o n).length = n := by
  induction n generalizing o with
  | zero => rfl
  | succ n ih => rw [sizesFrom, List.length_cons, ih]

/-- A table entry with its chunk. -/
theorem Block.exists_of_entry {d x : Bytes} {o : Nat} (ho : o + 24 ≤ d.length)
    (hx : beNat (window d o 4) ≤ x.length) :
    ∃ block : Block, block.body = x.take (beNat (window d o 4)) ∧ block.entry = window d o 24 := by
  have h4 : ∀ k, k + 4 ≤ 24 → (window d (o + k) 4).length = 4 := fun k hk =>
    window_length (by omega)
  have hlt : ∀ k, k + 4 ≤ 24 → beNat (window d (o + k) 4) < 2 ^ 32 := fun k _ =>
    beNat_window_lt d (o + k) 4
  have hbe : ∀ k, k + 4 ≤ 24 → beBytes 4 (beNat (window d (o + k) 4)) = window d (o + k) 4 :=
    fun k hk => by
      have h := beBytes_beNat (window d (o + k) 4)
      rwa [h4 k hk] at h
  have hsize : (x.take (beNat (window d o 4))).length = beNat (window d o 4) := by
    rw [List.length_take, Nat.min_eq_left hx]
  refine ⟨⟨x.take (beNat (window d o 4)), beNat (window d (o + 4) 4), window d (o + 8) 16,
    ?_, hlt 4 (by omega), window_length (by omega)⟩, rfl, ?_⟩
  · rw [hsize]
    exact hlt 0 (by omega)
  · have h0 := hbe 0 (by omega)
    rw [Nat.add_zero] at h0
    change beBytes 4 (x.take (beNat (window d o 4))).length ++
      (beBytes 4 (beNat (window d (o + 4) 4)) ++ window d (o + 8) 16) = window d o 24
    rw [hsize, h0, hbe 4 (by omega), show (24 : Nat) = 4 + (4 + 16) from rfl, window_add,
      window_add]

/-- A table with its chunks. -/
theorem exists_blocks (d : Bytes) (n : Nat) :
    ∀ (o : Nat) (x : Bytes), o + 24 * n ≤ d.length → (sizesFrom d o n).sum ≤ x.length →
      ∃ (blocks : List Block) (rest : Bytes), blocks.length = n ∧
        table blocks = window d o (24 * n) ∧
        blocks.map Block.body = pieces (sizesFrom d o n) x ∧ x = bodies blocks ++ rest := by
  induction n with
  | zero => exact fun o x _ _ => ⟨[], x, rfl, (window_zero d o).symm, rfl, rfl⟩
  | succ n ih =>
      intro o x ho hx
      rw [sizesFrom, List.sum_cons] at hx
      have hfirst : beNat (window d o 4) ≤ x.length := by omega
      obtain ⟨block, hbody, hentry⟩ := Block.exists_of_entry (by omega) hfirst
      have hdrop : (sizesFrom d (o + 24) n).sum ≤ (x.drop (beNat (window d o 4))).length := by
        rw [List.length_drop]
        omega
      obtain ⟨blocks, rest, hlen, htable, hbodies, hsplit⟩ := ih (o + 24) _ (by omega) hdrop
      refine ⟨block :: blocks, rest, by rw [List.length_cons, hlen], ?_, ?_, ?_⟩
      · rw [table_cons, hentry, htable, show 24 * (n + 1) = 24 + 24 * n by omega, window_add]
      · rw [List.map_cons, hbody, hbodies, sizesFrom, pieces]
      · rw [bodies_cons, hbody, List.append_assoc, ← hsplit, List.take_append_drop]

/-- A byte string that holds all that its header and its table announce is a
frame followed by some rest. -/
theorem Frame.of_fields {d : Bytes} (hmagic : beNat (window d 0 4) = blteMagic)
    (hflags : flagsField d = 0x0F) (hsize : headerSizeField d = 12 + 24 * countField d)
    (hfits : headerSizeField d + (sizeFields d).sum ≤ d.length) :
    ∃ (f : Frame) (rest : Bytes), d = f.bytes ++ rest ∧ f.blocks.length = countField d ∧
      f.blocks.map Block.body = chunksOf d := by
  have htable : 12 + 24 * countField d ≤ d.length := by omega
  have hdata : (sizesFrom d 12 (countField d)).sum ≤ (d.drop (headerSizeField d)).length := by
    rw [List.length_drop]
    change (sizeFields d).sum ≤ _
    omega
  obtain ⟨blocks, rest, hlen, hblocks, hbodies, hsplit⟩ :=
    exists_blocks d (countField d) 12 _ htable hdata
  have hcount : blocks.length < 2 ^ 24 := by
    rw [hlen]
    exact Nat.mod_lt _ (by decide)
  have hbe : ∀ k, k + 4 ≤ 12 → beBytes 4 (beNat (window d k 4)) = window d k 4 := fun k hk => by
    have h := beBytes_beNat (window d k 4)
    rwa [window_length (by omega)] at h
  refine ⟨⟨blocks, hcount⟩, rest, ?_, hlen, hbodies⟩
  have hflagsCount : (Frame.mk blocks hcount).flagsChunkCount = beNat (window d 8 4) := by
    have h := Nat.div_add_mod (flagsCountField d) (2 ^ 24)
    rw [flagsField] at hflags
    rw [countField] at hlen
    rw [Frame.flagsChunkCount_eq]
    change 0x0F000000 + blocks.length = flagsCountField d
    omega
  have hheader : (Frame.mk blocks hcount).headerSize = beNat (window d 4 4) := by
    rw [Frame.headerSize, hlen]
    exact hsize.symm
  calc d = d.take (headerSizeField d) ++ d.drop (headerSizeField d) :=
        (List.take_append_drop _ _).symm
    _ = window d 0 (4 + (4 + (4 + 24 * countField d))) ++ (bodies blocks ++ rest) := by
        rw [← hsplit, window, List.drop_zero, hsize]
        congr 2
        omega
    _ = (Frame.mk blocks hcount).bytes ++ rest := by
        rw [window_add, window_add, window_add, Frame.bytes, Frame.header, hflagsCount, hheader,
          ← hmagic, hbe 0 (by omega), hbe 4 (by omega), hbe 8 (by omega), hblocks]
        simp only [List.append_assoc]

end Tactmon
