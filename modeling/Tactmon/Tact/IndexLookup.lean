import Mathlib.Data.List.Forall2
import Tactmon.Tact.IndexBounds

/-!
# Reading an archive index back

The bytes of an archive index, and what the constructor of `Index` makes of
them.  Blocks, last keys and block checksums are three rows of equal width, so
every position the constructor computes is a multiple of a width
(`window_block`, `window_checksum`).  Inside a block, a slot in front of the
padding holds an entry and every other slot starts with a key of zeros
(`readEntries_block`).

The keys are read into one buffer that only grows, so the window of an entry
keeps its key (`Storage.Holds`).
-/

namespace Tactmon

namespace Index

open Binary Cxx CursorReadable

/-! ## Serialisation -/

/-- The widths that an index is written with. -/
structure Geometry where
  checksumSize : Nat
  keySize : Nat
  sizeBytes : Nat
  offsetBytes : Nat
  blockSizeKb : Nat
  checksumSize_pos : 0 < checksumSize
  checksumSize_le : checksumSize ≤ 16
  keySize_pos : 0 < keySize
  keySize_lt : keySize < 2 ^ 8
  sizeBytes_le : sizeBytes ≤ 8
  offsetBytes_le : offsetBytes ≤ 8
  blockSizeKb_pos : 0 < blockSizeKb
  blockSizeKb_lt : blockSizeKb < 2 ^ 8

namespace Geometry

/-- The size of a block. -/
def blockSize (g : Geometry) : Nat := 1024 * g.blockSizeKb

/-- The size of an entry. -/
def entrySize (g : Geometry) : Nat := g.keySize + g.sizeBytes + g.offsetBytes

end Geometry

/-- What an index says about one file of the archive. -/
structure Record where
  key : EKey
  size : Nat
  offset : Nat
deriving DecidableEq, Repr

namespace Record

/-- The record can be written with these widths. -/
structure Fits (g : Geometry) (record : Record) : Prop where
  key_length : record.key.length = g.keySize
  key_ne : record.key.all (· == 0) = false
  size_lt : record.size < 256 ^ g.sizeBytes
  offset_lt : record.offset < 256 ^ g.offsetBytes

instance (g : Geometry) (record : Record) : Decidable (record.Fits g) :=
  decidable_of_iff (record.key.length = g.keySize ∧ record.key.all (· == 0) = false ∧
      record.size < 256 ^ g.sizeBytes ∧ record.offset < 256 ^ g.offsetBytes)
    ⟨fun ⟨hlen, hne, hsize, hoffset⟩ => ⟨hlen, hne, hsize, hoffset⟩,
      fun h => ⟨h.key_length, h.key_ne, h.size_lt, h.offset_lt⟩⟩

/-- The serialised record. -/
def bytes (g : Geometry) (record : Record) : Bytes :=
  record.key ++ (beBytes g.sizeBytes record.size ++ beBytes g.offsetBytes record.offset)

end Record

/-- The records of a block in a row. -/
def recordBytes (g : Geometry) (block : List Record) : Bytes :=
  (block.map (Record.bytes g)).flatten

/-- A block, padded with zeros. -/
def blockBytes (g : Geometry) (block : List Record) : Bytes :=
  recordBytes g block ++ List.replicate (g.blockSize - (recordBytes g block).length) 0

/-- The last key of a block. -/
def lastKey (g : Geometry) (block : List Record) : Bytes :=
  (block.getLast?.map Record.key).getD (List.replicate g.keySize 0)

/-- An archive index that can be written.  The fields that the constructor does
not look at hold anything. -/
structure Archive where
  geometry : Geometry
  blocks : List (List Record)
  tocHash : Bytes
  version : UInt8
  unknown11 : UInt8
  unknown12 : UInt8
  numElements : UInt32
  footerChecksum : Bytes
  blocks_ne : blocks ≠ []
  records_fit : ∀ block ∈ blocks, ∀ record ∈ block, record.Fits geometry
  blocks_fit : ∀ block ∈ blocks, (recordBytes geometry block).length ≤ geometry.blockSize
  tocHash_length : tocHash.length = geometry.checksumSize
  footerChecksum_length : footerChecksum.length = geometry.checksumSize

namespace Archive

/-- The records, in order. -/
def records (a : Archive) : List Record := a.blocks.flatten

/-- The blocks in a row. -/
def blockRow (a : Archive) : Bytes := (a.blocks.map (blockBytes a.geometry)).flatten

/-- The last keys in a row. -/
def keyRow (a : Archive) : Bytes := (a.blocks.map (lastKey a.geometry)).flatten

/-- The checksums of the blocks in a row. -/
def checksumRow (digest : Bytes → Digest) (a : Archive) : Bytes :=
  (a.blocks.map fun block =>
    (digest (blockBytes a.geometry block)).bytes.take a.geometry.checksumSize).flatten

/-- The footer. -/
def footerBytes (a : Archive) : Bytes :=
  a.tocHash ++ (leBytes 1 a.version.toNat ++ (leBytes 1 a.unknown11.toNat ++
    (leBytes 1 a.unknown12.toNat ++ (leBytes 1 a.geometry.blockSizeKb ++
      (leBytes 1 a.geometry.offsetBytes ++ (leBytes 1 a.geometry.sizeBytes ++
        (leBytes 1 a.geometry.keySize ++ (leBytes 1 a.geometry.checksumSize ++
          (leBytes 4 a.numElements.toNat ++ a.footerChecksum)))))))))

/-- The serialised index. -/
def bytes (digest : Bytes → Digest) (a : Archive) : Bytes :=
  a.blockRow ++ (a.keyRow ++ (a.checksumRow digest ++ a.footerBytes))

/-- The footer that is read back. -/
def footer (a : Archive) : Footer :=
  ⟨a.tocHash, a.version.toNat, a.unknown11.toNat, a.unknown12.toNat, a.geometry.blockSizeKb,
    a.geometry.offsetBytes, a.geometry.sizeBytes, a.geometry.keySize, a.numElements.toNat⟩

end Archive

/-! ## Lengths -/

section Lengths

variable {g : Geometry} {block : List Record} {record : Record}

theorem Record.Fits.bytes_length (h : record.Fits g) : (record.bytes g).length = g.entrySize := by
  rw [Record.bytes, List.length_append, List.length_append, h.key_length, beBytes_length,
    beBytes_length, Geometry.entrySize, Nat.add_assoc]

/-- Records have equal width. -/
theorem bytes_width (h : ∀ record ∈ block, record.Fits g) :
    ∀ x ∈ block.map (Record.bytes g), x.length = g.entrySize := by
  intro x hx
  obtain ⟨record, hrecord, rfl⟩ := List.mem_map.mp hx
  exact (h record hrecord).bytes_length

theorem recordBytes_length (h : ∀ record ∈ block, record.Fits g) :
    (recordBytes g block).length = block.length * g.entrySize := by
  rw [recordBytes, length_flatten_of_width (bytes_width h), List.length_map]

theorem blockBytes_length (h : (recordBytes g block).length ≤ g.blockSize) :
    (blockBytes g block).length = g.blockSize := by
  rw [blockBytes, List.length_append, List.length_replicate]
  omega

theorem lastKey_length (h : ∀ record ∈ block, record.Fits g) :
    (lastKey g block).length = g.keySize := by
  rw [lastKey]
  cases hlast : block.getLast? with
  | none => exact List.length_replicate
  | some record => exact (h record (List.mem_of_getLast? hlast)).key_length

end Lengths

namespace Archive

variable (digest : Bytes → Digest) (a : Archive)

theorem blockRow_width : ∀ x ∈ a.blocks.map (blockBytes a.geometry),
    x.length = a.geometry.blockSize := by
  intro x hx
  obtain ⟨block, hblock, rfl⟩ := List.mem_map.mp hx
  exact blockBytes_length (a.blocks_fit block hblock)

theorem keyRow_width : ∀ x ∈ a.blocks.map (lastKey a.geometry),
    x.length = a.geometry.keySize := by
  intro x hx
  obtain ⟨block, hblock, rfl⟩ := List.mem_map.mp hx
  exact lastKey_length (a.records_fit block hblock)

theorem checksumRow_width : ∀ x ∈ a.blocks.map (fun block =>
    (digest (blockBytes a.geometry block)).bytes.take a.geometry.checksumSize),
    x.length = a.geometry.checksumSize := by
  intro x hx
  obtain ⟨block, hblock, rfl⟩ := List.mem_map.mp hx
  rw [List.length_take, (digest _).size_eq]
  exact Nat.min_eq_left a.geometry.checksumSize_le

theorem blockRow_length : a.blockRow.length = a.blocks.length * a.geometry.blockSize := by
  rw [blockRow, length_flatten_of_width a.blockRow_width, List.length_map]

theorem keyRow_length : a.keyRow.length = a.blocks.length * a.geometry.keySize := by
  rw [keyRow, length_flatten_of_width a.keyRow_width, List.length_map]

theorem checksumRow_length :
    (a.checksumRow digest).length = a.blocks.length * a.geometry.checksumSize := by
  rw [checksumRow, length_flatten_of_width (a.checksumRow_width digest), List.length_map]

theorem footerBytes_length : a.footerBytes.length = footerSize a.geometry.checksumSize := by
  simp only [footerBytes, List.length_append, leBytes_length, a.tocHash_length,
    a.footerChecksum_length, footerSize]
  omega

theorem bytes_length : (a.bytes digest).length =
    a.blocks.length * (a.geometry.blockSize + (a.geometry.keySize + a.geometry.checksumSize)) +
      footerSize a.geometry.checksumSize := by
  rw [bytes, List.length_append, List.length_append, List.length_append, blockRow_length,
    keyRow_length, checksumRow_length, footerBytes_length, Nat.mul_add, Nat.mul_add]
  omega

/-- A block lies at a multiple of the block size. -/
theorem window_block {i : Nat} (hi : i < a.blocks.length) :
    window (a.bytes digest) (i * a.geometry.blockSize) a.geometry.blockSize =
      blockBytes a.geometry a.blocks[i] := by
  have hlen : i * a.geometry.blockSize + a.geometry.blockSize ≤ a.blockRow.length := by
    rw [blockRow_length, ← Nat.succ_mul]
    exact Nat.mul_le_mul_right _ hi
  rw [bytes, window_append_left hlen, blockRow, window_flatten_of_width a.blockRow_width
    (by rwa [List.length_map]), List.getElem_map]

/-- Its checksum lies behind all blocks and all last keys. -/
theorem window_checksum {i : Nat} (hi : i < a.blocks.length) :
    window (a.bytes digest) (a.blocks.length * a.geometry.blockSize +
        a.blocks.length * a.geometry.keySize + i * a.geometry.checksumSize)
      a.geometry.checksumSize =
        (digest (blockBytes a.geometry a.blocks[i])).bytes.take a.geometry.checksumSize := by
  have hlen : i * a.geometry.checksumSize + a.geometry.checksumSize ≤
      (a.checksumRow digest).length := by
    rw [checksumRow_length, ← Nat.succ_mul]
    exact Nat.mul_le_mul_right _ hi
  rw [bytes, ← blockRow_length, ← keyRow_length, Nat.add_assoc, window_append_right,
    window_append_right, window_append_left hlen, checksumRow,
    window_flatten_of_width (a.checksumRow_width digest) (by rwa [List.length_map]),
    List.getElem_map]

end Archive

/-! ## Blocks -/

/-- A record is put behind the others. -/
def Storage.add (storage : Storage) (record : Record) : Storage :=
  ⟨storage.keyBuffer ++ record.key, storage.entries ++
    [⟨storage.keyBuffer.length, .ofNat record.size, .ofNat record.offset⟩]⟩

section Slots

variable {g : Geometry} {block : List Record} {record : Record}

/-- A slot in front of the padding holds its record. -/
theorem window_record (hfits : ∀ record ∈ block, record.Fits g) {j : Nat} (hj : j < block.length) :
    window (blockBytes g block) (j * g.entrySize) g.entrySize = block[j].bytes g := by
  have hlen : j * g.entrySize + g.entrySize ≤ (recordBytes g block).length := by
    rw [recordBytes_length hfits, ← Nat.succ_mul]
    exact Nat.mul_le_mul_right _ hj
  rw [blockBytes, window_append_left hlen, recordBytes,
    window_flatten_of_width (bytes_width hfits) (by rwa [List.length_map]), List.getElem_map]

/-- Any other slot is padding. -/
theorem window_padding (hfits : ∀ record ∈ block, record.Fits g)
    {j : Nat} (hj : block.length ≤ j) (hin : j * g.entrySize + g.entrySize ≤ g.blockSize) :
    window (blockBytes g block) (j * g.entrySize) g.keySize = List.replicate g.keySize 0 := by
  have hlen := recordBytes_length hfits
  have hle : block.length * g.entrySize ≤ j * g.entrySize := Nat.mul_le_mul_right _ hj
  have hsplit : j * g.entrySize =
      (recordBytes g block).length + (j * g.entrySize - (recordBytes g block).length) := by omega
  have hkey : g.keySize ≤ g.entrySize := by
    rw [Geometry.entrySize]
    omega
  rw [blockBytes, hsplit, window_append_right]
  exact window_replicate 0 (by omega)

/-- The parts of a record. -/
theorem window_fields {b : Bytes} {o : Nat} (hfits : record.Fits g)
    (h : window b o g.entrySize = record.bytes g) :
    window b o g.keySize = record.key ∧
      window b (o + g.keySize) (g.sizeBytes + g.offsetBytes) =
        beBytes g.sizeBytes record.size ++ beBytes g.offsetBytes record.offset := by
  have hsize : g.entrySize = g.keySize + (g.sizeBytes + g.offsetBytes) := Nat.add_assoc _ _ _
  rw [hsize, window_add, Record.bytes] at h
  have hkey : (window b o g.keySize).length = record.key.length := by
    have hlen := congrArg List.length h
    rw [List.length_append, List.length_append, List.length_append, beBytes_length,
      beBytes_length, hfits.key_length] at hlen
    have htake : (window b o g.keySize).length ≤ g.keySize := List.length_take_le _ _
    have htake' : (window b (o + g.keySize) (g.sizeBytes + g.offsetBytes)).length ≤
        g.sizeBytes + g.offsetBytes := List.length_take_le _ _
    rw [hfits.key_length]
    omega
  exact List.append_inj h hkey

end Slots

section Read

variable {σ : Type} [IReadableStream σ] [LawfulReadable σ] {g : Geometry} {record : Record}

/-- The sizes behind a key are read as they were written. -/
theorem read_record {s : σ} {b : Bytes} {o : Nat} (keyOffset : Nat) (hfits : record.Fits g)
    (hin : o + g.entrySize ≤ b.length) (h : window b o g.entrySize = record.bytes g)
    (hs : Rep s b (o + g.keySize)) :
    ∃ s' c, Entry.read s g.sizeBytes g.offsetBytes keyOffset =
        .ok (⟨keyOffset, .ofNat record.size, .ofNat record.offset⟩, s') ∧ Rep s' b c := by
  have hsize : g.entrySize = g.keySize + (g.sizeBytes + g.offsetBytes) := Nat.add_assoc _ _ _
  have hdata := dataBytes_eq (n := g.sizeBytes + g.offsetBytes) hs (by omega)
  rw [(window_fields hfits h).2] at hdata
  refine ⟨_, _, ?_, skipRead_rep (g.sizeBytes + g.offsetBytes) hs⟩
  rw [Entry.read, hdata, Exec.ok_bind, List.take_left' (beBytes_length _ _),
    List.drop_left' (beBytes_length _ _), foldl_shiftIn, beNat_beBytes_of_lt hfits.size_lt,
    List.take_of_length_le (Nat.le_of_eq (beBytes_length _ _)), foldl_shiftIn,
    beNat_beBytes_of_lt hfits.offset_lt]

variable (digest : Bytes → Digest) (a : Archive)

theorem Archive.block_le {i : Nat} (hi : i < a.blocks.length) :
    i * a.geometry.blockSize + a.geometry.blockSize ≤ (a.bytes digest).length := by
  rw [Archive.bytes_length, Nat.mul_add, ← Nat.succ_mul]
  have := Nat.mul_le_mul_right a.geometry.blockSize (Nat.succ_le_of_lt hi)
  omega

/-- Each round of the loop looks at the key of its slot. -/
theorem readEntries_slot {i j c : Nat} {s : σ} (hi : i < a.blocks.length)
    (hslot : j * a.geometry.entrySize + a.geometry.entrySize ≤ a.geometry.blockSize)
    (hs : Rep s (a.bytes digest) c) (count : Nat) (storage : Storage) :
    let key := window (blockBytes a.geometry a.blocks[i]) (j * a.geometry.entrySize)
      a.geometry.keySize
    ∃ s', Rep s' (a.bytes digest)
        (i * a.geometry.blockSize + j * a.geometry.entrySize + a.geometry.keySize) ∧
      readEntries a.footer i (count + 1) j storage s =
        (if key.all (· == 0) then readEntries a.footer i count (j + 1) storage s'
        else do
          let (entry, s') ← Entry.read s' a.geometry.sizeBytes a.geometry.offsetBytes
            storage.keyBuffer.length
          readEntries a.footer i count (j + 1)
            ⟨storage.keyBuffer ++ key, storage.entries ++ [entry]⟩ s') := by
  have hblock := a.block_le digest hi
  have hlt := fits hs
  have hkeySize : a.geometry.keySize ≤ a.geometry.entrySize := by
    rw [Geometry.entrySize]
    omega
  have hoffset : sizeWrap (i * a.footer.blockSize + j * a.footer.entrySize) =
      i * a.geometry.blockSize + j * a.geometry.entrySize := by
    have hin : i * a.geometry.blockSize + j * a.geometry.entrySize < 2 ^ 63 := by omega
    exact sizeWrap_of_lt (lt_sizeMax hin)
  have hs₁ := seekRead_of_le (o := i * a.geometry.blockSize + j * a.geometry.entrySize) hs
    (by omega)
  have hdata := dataBytes_eq (n := a.geometry.keySize) hs₁ (by omega)
  have hwindow : window (a.bytes digest)
      (i * a.geometry.blockSize + j * a.geometry.entrySize) a.geometry.keySize =
        window (blockBytes a.geometry a.blocks[i]) (j * a.geometry.entrySize)
          a.geometry.keySize := by
    rw [← a.window_block digest hi, window_window (by omega)]
  have hs₂ := CursorReadable.skipRead_of_lt (k := a.geometry.keySize) hs₁ (lt_sizeMax (by omega))
  have hkeyBytes : a.footer.keySizeBytes = a.geometry.keySize := rfl
  refine ⟨_, hs₂, ?_⟩
  rw [readEntries, hoffset, hkeyBytes]
  dsimp only
  rw [hdata, Exec.ok_bind, hwindow]
  rfl

/-- The entries of a block are the records in front of its padding. -/
theorem readEntries_block {i : Nat} (hi : i < a.blocks.length) (count : Nat) :
    ∀ {j c : Nat} {s : σ} (storage : Storage),
      j + count = a.geometry.blockSize / a.geometry.entrySize →
      Rep s (a.bytes digest) c →
      ∃ s' c', readEntries a.footer i count j storage s =
          .ok ((a.blocks[i].drop j).foldl Storage.add storage, s') ∧
        Rep s' (a.bytes digest) c' := by
  have hfits := a.records_fit _ (List.getElem_mem hi)
  have hpos : 0 < a.geometry.entrySize := by
    have := a.geometry.keySize_pos
    rw [Geometry.entrySize]
    omega
  induction count with
  | zero =>
      intro j c s storage hj hs
      have hle : a.blocks[i].length ≤ j := by
        rw [show j = a.geometry.blockSize / a.geometry.entrySize from hj,
          Nat.le_div_iff_mul_le hpos, ← recordBytes_length hfits]
        exact a.blocks_fit _ (List.getElem_mem hi)
      refine ⟨s, c, ?_, hs⟩
      rw [readEntries, List.drop_eq_nil_of_le hle, List.foldl_nil]
  | succ count ih =>
      intro j c s storage hj hs
      have hslot : j * a.geometry.entrySize + a.geometry.entrySize ≤ a.geometry.blockSize := by
        rw [← Nat.succ_mul, ← Nat.le_div_iff_mul_le hpos]
        omega
      obtain ⟨s₂, hs₂, hround⟩ := readEntries_slot digest a hi hslot hs count storage
      rw [hround]
      rcases Nat.lt_or_ge j a.blocks[i].length with hj' | hj'
      · have hfit := hfits _ (List.getElem_mem hj')
        have hblock := a.block_le digest hi
        have hslotBytes := window_record hfits hj'
        have hrecord : window (a.bytes digest)
            (i * a.geometry.blockSize + j * a.geometry.entrySize) a.geometry.entrySize =
              (a.blocks[i][j]).bytes a.geometry := by
          rw [← hslotBytes, ← a.window_block digest hi, window_window hslot]
        obtain ⟨s₃, c₃, hr₃, hs₃⟩ :=
          read_record storage.keyBuffer.length hfit (by omega) hrecord hs₂
        rw [(window_fields hfit hslotBytes).1, hfit.key_ne, if_neg Bool.false_ne_true, hr₃,
          Exec.ok_bind, List.drop_eq_getElem_cons hj', List.foldl_cons]
        exact ih _ (by omega) hs₃
      · rw [window_padding hfits hj' hslot, if_pos (by simp), List.drop_eq_nil_of_le hj',
          ← List.drop_eq_nil_of_le (Nat.le_succ_of_le hj')]
        exact ih _ (by omega) hs₂

/-- All blocks match their checksums, so all records are read. -/
theorem readBlocks_blocks (count : Nat) :
    ∀ {i c : Nat} {s : σ} (storage : Storage), i + count = a.blocks.length →
      Rep s (a.bytes digest) c →
      readBlocks digest a.geometry.checksumSize a.footer
          (a.geometry.blockSize / a.geometry.entrySize) a.blocks.length count i storage s =
        .ok ((a.blocks.drop i).flatten.foldl Storage.add storage) := by
  induction count with
  | zero =>
      intro i c s storage hi _
      rw [readBlocks, List.drop_eq_nil_of_le (by omega), List.flatten_nil,
        List.foldl_nil]
  | succ count ih =>
      intro i c s storage hi hs
      have hlt : i < a.blocks.length := by omega
      have hfit := fits hs
      have hlen := a.bytes_length digest
      rw [Nat.mul_add, Nat.mul_add] at hlen
      have hblock : i * a.geometry.blockSize + a.geometry.blockSize ≤
          a.blocks.length * a.geometry.blockSize := by
        rw [← Nat.succ_mul]
        exact Nat.mul_le_mul_right _ hlt
      have hsum : i * a.geometry.checksumSize + a.geometry.checksumSize ≤
          a.blocks.length * a.geometry.checksumSize := by
        rw [← Nat.succ_mul]
        exact Nat.mul_le_mul_right _ hlt
      have hoffset : sizeWrap (i * a.footer.blockSize) = i * a.geometry.blockSize :=
        sizeWrap_of_lt (lt_sizeMax (n := i * a.geometry.blockSize) (by omega))
      have hchecksum : sizeWrap (a.blocks.length * a.footer.blockSize +
          a.blocks.length * a.footer.keySizeBytes + i * a.geometry.checksumSize) =
            a.blocks.length * a.geometry.blockSize + a.blocks.length * a.geometry.keySize +
              i * a.geometry.checksumSize :=
        sizeWrap_of_lt (lt_sizeMax (n := a.blocks.length * a.geometry.blockSize +
          a.blocks.length * a.geometry.keySize + i * a.geometry.checksumSize) (by omega))
      have hs₁ := seekRead_of_le (o := i * a.geometry.blockSize) hs (by omega)
      have hraw := dataBytes_eq (n := a.geometry.blockSize) hs₁ (by omega)
      rw [a.window_block digest hlt] at hraw
      have hs₂ := seekRead_of_le (o := a.blocks.length * a.geometry.blockSize +
        a.blocks.length * a.geometry.keySize + i * a.geometry.checksumSize) hs₁ (by omega)
      have hstored := dataBytes_eq (n := a.geometry.checksumSize) hs₂ (by omega)
      rw [a.window_checksum digest hlt] at hstored
      obtain ⟨s₃, c₃, hr₃, hs₃⟩ := readEntries_block digest a hlt
        (a.geometry.blockSize / a.geometry.entrySize) storage (Nat.zero_add _) hs₂
      have hsize : a.footer.blockSize = a.geometry.blockSize := rfl
      rw [readBlocks, hoffset, hchecksum, hsize]
      dsimp only
      rw [hraw, Exec.ok_bind, hstored, Exec.ok_bind, if_neg (not_not_intro rfl), hr₃, Exec.ok_bind]
      dsimp only
      rw [ih _ (by omega) hs₃, List.drop_eq_getElem_cons hlt, List.flatten_cons, List.foldl_append,
        List.drop_zero]

/-! ## Footer -/

/-- What is read as the footer when `c` is taken for the checksum size. -/
def Archive.suffix (c : Nat) : Bytes :=
  (a.bytes digest).drop ((a.bytes digest).length - footerSize c)

theorem Archive.suffix_checksumSize :
    a.suffix digest a.geometry.checksumSize = a.footerBytes := by
  have hlen : (a.bytes digest).length - footerSize a.geometry.checksumSize =
      (a.blockRow ++ (a.keyRow ++ a.checksumRow digest)).length := by
    rw [bytes, ← List.append_assoc, ← List.append_assoc, ← List.append_assoc, List.length_append,
      footerBytes_length, Nat.add_sub_cancel]
  rw [suffix, hlen, bytes, ← List.append_assoc, ← List.append_assoc, ← List.append_assoc,
    List.drop_left]

/-- An index is longer than any footer. -/
theorem Archive.footerSize_le {c : Nat} (hc : c ≤ 16) :
    footerSize c ≤ (a.bytes digest).length := by
  have hblocks := List.length_pos_iff.mpr a.blocks_ne
  have hkb := a.geometry.blockSizeKb_pos
  have hlen := a.bytes_length digest
  have hone := Nat.mul_le_mul_right (a.geometry.blockSize + (a.geometry.keySize +
    a.geometry.checksumSize)) (Nat.succ_le_of_lt hblocks)
  rw [footerSize]
  rw [Geometry.blockSize] at hone hlen
  omega

/-- The footer with a given checksum size is the suffix of that length. -/
theorem seek_suffix {s : σ} {c k : Nat} (hk : k ≤ 16) (hs : Rep s (a.bytes digest) c) :
    Rep (seekRead s (sizeSub (getLength s) (footerSize k))).2 (a.bytes digest)
        ((a.bytes digest).length - footerSize k) ∧
      dataBytes (seekRead s (sizeSub (getLength s) (footerSize k))).2 (footerSize k) =
        .ok (a.suffix digest k) := by
  obtain ⟨hs₁, hdata⟩ := seek_footer (a.footerSize_le digest hk) hs
  refine ⟨hs₁, hdata.trans ?_⟩
  rw [footerAt, window, List.take_of_length_le, Archive.suffix]
  rw [List.length_drop]
  omega

/-- The search stops at the checksum size of the index when no larger one fits
the name. -/
theorem findChecksumSize_archive (k : Nat) :
    ∀ {s : σ} {c : Nat}, k ≤ 16 → a.geometry.checksumSize ≤ k →
      (∀ c, a.geometry.checksumSize < c → c ≤ k →
        digest (a.suffix digest c) ≠ digest a.footerBytes) →
      Rep s (a.bytes digest) c →
      ∃ s' c', findChecksumSize digest (digest a.footerBytes).bytes k s =
          .ok (a.geometry.checksumSize, s') ∧ Rep s' (a.bytes digest) c' := by
  induction k with
  | zero =>
      intro s c _ hle
      exact absurd a.geometry.checksumSize_pos (by omega)
  | succ k ih =>
      intro s c hk hle hunique hs
      obtain ⟨hs₁, hdata⟩ := seek_suffix digest a hk hs
      have hin := a.footerSize_le digest hk
      have hcan : canRead (seekRead s (sizeSub (getLength s) (footerSize (k + 1)))).2
          (footerSize (k + 1)) = true :=
        CursorReadable.canRead_last hs₁ hin
      rw [findChecksumSize, hcan, Bool.not_true, if_neg Bool.false_ne_true, hdata, Exec.ok_bind]
      rcases Nat.lt_or_eq_of_le hle with hlt | heq
      · have hne : ¬ (digest a.footerBytes).bytes = (digest (a.suffix digest (k + 1))).bytes :=
          fun h => hunique (k + 1) hlt (Nat.le_refl _) (Digest.ext h.symm)
        rw [if_neg hne]
        exact ih (by omega) (by omega) (fun c hc hck => hunique c hc (by omega)) hs₁
      · rw [← heq, a.suffix_checksumSize digest, if_pos rfl]
        exact ⟨_, _, rfl, by rw [heq]; exact hs₁⟩

/-- The footer is read as it was written. -/
theorem read_footer {s : σ} (hs : Rep s (a.bytes digest)
    ((a.bytes digest).length - footerSize a.geometry.checksumSize)) :
    ∃ s' c, Footer.read a.geometry.checksumSize s = .ok (a.footer, s') ∧
      Rep s' (a.bytes digest) c := by
  have hle := a.footerSize_le digest a.geometry.checksumSize_le
  have hdrop : (a.bytes digest).drop
      ((a.bytes digest).length - footerSize a.geometry.checksumSize) = a.footerBytes :=
    a.suffix_checksumSize digest
  have hhash : dataBytes s a.geometry.checksumSize = .ok a.tocHash := by
    rw [dataBytes_eq hs (by rw [footerSize] at hle ⊢; omega), window, hdrop,
      Archive.footerBytes, List.take_left' a.tocHash_length]
  have h : Unread s (a.bytes digest) a.footerBytes :=
    ⟨_, hs, by rw [a.footerBytes_length]; omega, hdrop⟩
  rw [Archive.footerBytes] at h
  have h₀ := h.skipRead
  rw [a.tocHash_length] at h₀
  obtain ⟨s₁, hr₁, h₁⟩ := readInt_leBytes a.version.toNat_lt h₀
  obtain ⟨s₂, hr₂, h₂⟩ := readInt_leBytes a.unknown11.toNat_lt h₁
  obtain ⟨s₃, hr₃, h₃⟩ := readInt_leBytes a.unknown12.toNat_lt h₂
  obtain ⟨s₄, hr₄, h₄⟩ := readInt_leBytes a.geometry.blockSizeKb_lt h₃
  obtain ⟨s₅, hr₅, h₅⟩ := readInt_leBytes
    (Nat.lt_of_le_of_lt a.geometry.offsetBytes_le (by decide)) h₄
  obtain ⟨s₆, hr₆, h₆⟩ := readInt_leBytes
    (Nat.lt_of_le_of_lt a.geometry.sizeBytes_le (by decide)) h₅
  obtain ⟨s₇, hr₇, h₇⟩ := readInt_leBytes a.geometry.keySize_lt h₆
  obtain ⟨s₈, hr₈, h₈⟩ := readInt_leBytes
    (Nat.lt_of_le_of_lt a.geometry.checksumSize_le (by decide)) h₇
  obtain ⟨s₉, hr₉, h₉⟩ := readInt_leBytes a.numElements.toNat_lt h₈
  refine ⟨s₉, _, ?_, h₉.rep⟩
  rw [Footer.read, hhash, Exec.ok_bind]
  simp only [Endian.native, hr₁, hr₂, hr₃, hr₄, hr₅, hr₆, hr₇, hr₈, hr₉, Exec.ok_bind]
  rfl

/-! ## Indices -/

/-- The index that is read back. -/
def Archive.index (a : Archive) (hash : Bytes) : Index :=
  ⟨hash, a.geometry.keySize, a.records.foldl Storage.add ⟨[], []⟩⟩

/-- A serialised index is read back, under its name. -/
theorem read_archive {s : σ} {c : Nat}
    (hunique : ∀ c, a.geometry.checksumSize < c → c ≤ 16 →
      digest (a.suffix digest c) ≠ digest a.footerBytes)
    (hs : Rep s (a.bytes digest) c) :
    read digest (hex (digest a.footerBytes).bytes) s =
      .ok (a.index (hex (digest a.footerBytes).bytes)) := by
  have hfit := fits hs
  obtain ⟨s₁, c₁, hr₁, hs₁⟩ := findChecksumSize_archive digest a 0x10 (Nat.le_refl _)
    a.geometry.checksumSize_le hunique hs
  obtain ⟨hs₂, -⟩ := seek_suffix digest a a.geometry.checksumSize_le hs₁
  obtain ⟨s₃, c₃, hr₃, hs₃⟩ := read_footer digest a hs₂
  have hle := a.footerSize_le digest a.geometry.checksumSize_le
  have hkey := a.geometry.keySize_pos
  have hentry : ¬ a.footer.entrySize = 0 := by
    change ¬ a.geometry.keySize + a.geometry.sizeBytes + a.geometry.offsetBytes = 0
    omega
  have hcount : sizeSub (getLength s₃) (footerSize a.geometry.checksumSize) /
      (a.footer.blockSize + (a.footer.keySizeBytes + a.geometry.checksumSize)) =
        a.blocks.length := by
    rw [getLength_eq hs₃, sizeSub_of_le hle (lt_sizeMax hfit), Archive.bytes_length,
      Nat.add_sub_cancel]
    exact Nat.mul_div_cancel _ (Nat.add_pos_right _ (Nat.add_pos_left hkey _))
  have hblocks := readBlocks_blocks digest a a.blocks.length ⟨[], []⟩
    (Nat.zero_add _) hs₃
  rw [read, unhex_hex, Exec.ok_bind, hr₁, Exec.ok_bind]
  dsimp only
  rw [if_neg (Nat.ne_of_gt a.geometry.checksumSize_pos), hr₃, Exec.ok_bind]
  dsimp only
  rw [if_neg hentry, hcount]
  change readBlocks _ _ _ (a.geometry.blockSize / a.geometry.entrySize) _ _ _ _ _ >>= _ = _
  rw [hblocks, Exec.ok_bind, List.drop_zero]
  rfl

end Read

/-! ## Lookup -/

section Lookup

variable {keySize : Nat}

/-- An entry has the sizes of the record, and its window of the key buffer is
the key. -/
structure Stores (keySize : Nat) (keyBuffer : Bytes) (record : Record) (entry : Entry) : Prop where
  inside : entry.keyOffset + keySize ≤ keyBuffer.length
  key_eq : window keyBuffer entry.keyOffset keySize = record.key
  size_eq : entry.size = .ofNat record.size
  offset_eq : entry.offset = .ofNat record.offset

/-- The entries store the records. -/
def Storage.Holds (keySize : Nat) (records : List Record) (storage : Storage) : Prop :=
  List.Forall₂ (Stores keySize storage.keyBuffer) records storage.entries

theorem Storage.holds_empty (keySize : Nat) : Storage.Holds keySize [] ⟨[], []⟩ := .nil

/-- Putting another record behind the others keeps them. -/
theorem Storage.Holds.add {records : List Record} {storage : Storage} {record : Record}
    (h : storage.Holds keySize records) (hkey : record.key.length = keySize) :
    (storage.add record).Holds keySize (records ++ [record]) := by
  have hkeep : ∀ r e, Stores keySize storage.keyBuffer r e →
      Stores keySize (storage.add record).keyBuffer r e := fun r e hre =>
    ⟨by rw [Storage.add, List.length_append]; exact Nat.le_add_right_of_le hre.inside,
      by rw [Storage.add, window_append_left hre.inside, hre.key_eq], hre.size_eq, hre.offset_eq⟩
  have hlast : Stores keySize (storage.add record).keyBuffer record
      ⟨storage.keyBuffer.length, .ofNat record.size, .ofNat record.offset⟩ := by
    refine ⟨?_, ?_, rfl, rfl⟩
    · rw [Storage.add, List.length_append, hkey]
    · have hwindow := window_append_right storage.keyBuffer record.key 0 keySize
      rw [Nat.add_zero, window, window, List.drop_zero,
        List.take_of_length_le (Nat.le_of_eq hkey)] at hwindow
      exact hwindow
  exact List.rel_append (h.imp hkeep) (.cons hlast .nil)

theorem Storage.holds_foldl (records : List Record) :
    ∀ {before : List Record} {storage : Storage}, storage.Holds keySize before →
      (∀ record ∈ records, record.key.length = keySize) →
      (records.foldl Storage.add storage).Holds keySize (before ++ records) := by
  induction records with
  | nil =>
      intro before storage h _
      rwa [List.append_nil]
  | cons record records ih =>
      intro before storage h hkeys
      have hnext := ih (h.add (hkeys record List.mem_cons_self))
        fun r hr => hkeys r (List.mem_cons_of_mem _ hr)
      rwa [List.append_assoc] at hnext

/-- Searches through related lists that ask the same find related elements. -/
theorem find?_of_forall₂ {α β : Type} {R : α → β → Prop} {p : α → Bool} {q : β → Bool}
    {xs : List α} {ys : List β} (h : List.Forall₂ R xs ys) (hpq : ∀ x y, R x y → p x = q y) :
    Option.Rel R (xs.find? p) (ys.find? q) := by
  induction h with
  | nil => exact .none
  | @cons x y xs ys hxy _ ih =>
      rw [List.find?_cons, List.find?_cons, ← hpq x y hxy]
      cases p x with
      | true => exact .some hxy
      | false => exact ih

end Lookup

/-- A lookup in the index finds the entry of the first record with the key. -/
theorem Archive.index_at (a : Archive) (hash : Bytes) (key : EKey) :
    Option.Rel (Stores a.geometry.keySize (a.index hash).storage.keyBuffer)
      (a.records.find? fun record => record.key = key) ((a.index hash).at key) := by
  have hkeys : ∀ record ∈ a.records, record.key.length = a.geometry.keySize := by
    intro record hrecord
    obtain ⟨block, hblock, hmem⟩ := List.mem_flatten.mp hrecord
    exact (a.records_fit block hblock record hmem).key_length
  have hholds : (a.index hash).storage.Holds a.geometry.keySize a.records :=
    Storage.holds_foldl a.records (Storage.holds_empty a.geometry.keySize) hkeys
  refine find?_of_forall₂ hholds fun record entry h => ?_
  rw [Entry.key, ← h.key_eq]
  rfl

/-- A serialised index answers for every key with the first record that has it,
and with nothing exactly when none has. -/
theorem read_at {σ : Type} [IReadableStream σ] [LawfulReadable σ] (digest : Bytes → Digest)
    (a : Archive) {stream : σ} {c : Nat} (hs : Rep stream (a.bytes digest) c)
    (hunique : ∀ c, a.geometry.checksumSize < c → c ≤ 16 →
      digest (a.suffix digest c) ≠ digest a.footerBytes) :
    ∃ index, read digest (hex (digest a.footerBytes).bytes) stream = .ok index ∧
      ∀ key, (index.at key = none ↔ ∀ record ∈ a.records, record.key ≠ key) ∧
        ∀ record, a.records.find? (fun record => record.key = key) = some record →
          ∃ entry, index.at key = some entry ∧ entry.size.toNat = record.size ∧
            entry.offset.toNat = record.offset := by
  refine ⟨_, read_archive digest a hunique hs, fun key => ?_⟩
  have hrel := a.index_at (hex (digest a.footerBytes).bytes) key
  cases hfind : a.records.find? fun record => record.key = key with
  | none =>
      rw [hfind] at hrel
      refine ⟨iff_of_true ?_ ?_, fun record h => by cases h⟩
      · cases hat : (a.index (hex (digest a.footerBytes).bytes)).at key with
        | none => rfl
        | some entry =>
            rw [hat] at hrel
            cases hrel
      · intro record hrecord hkey
        exact List.find?_eq_none.mp hfind record hrecord (decide_eq_true hkey)
  | some record =>
      rw [hfind] at hrel
      have hmem := List.mem_of_find?_eq_some hfind
      have hkey : record.key = key := by simpa using List.find?_some hfind
      obtain ⟨block, hblock, hrecord⟩ := List.mem_flatten.mp hmem
      have hfits := a.records_fit block hblock record hrecord
      cases hat : (a.index (hex (digest a.footerBytes).bytes)).at key with
      | none =>
          rw [hat] at hrel
          cases hrel
      | some entry =>
          rw [hat] at hrel
          cases hrel with
          | some hstores =>
              refine ⟨iff_of_false (fun h => by cases h) fun hnone =>
                hnone record hmem hkey, ?_⟩
              intro r hr
              cases hr
              refine ⟨entry, rfl, ?_, ?_⟩
              · rw [hstores.size_eq]
                exact toNat_ofNat_of_lt_pow a.geometry.sizeBytes_le hfits.size_lt
              · rw [hstores.offset_eq]
                exact toNat_ofNat_of_lt_pow a.geometry.offsetBytes_le hfits.offset_lt

/-- One block with two records. -/
def sample : Archive where
  geometry :=
    { checksumSize := 15, keySize := 2, sizeBytes := 1, offsetBytes := 2, blockSizeKb := 1
      checksumSize_pos := by decide
      checksumSize_le := by decide
      keySize_pos := by decide
      keySize_lt := by decide
      sizeBytes_le := by decide
      offsetBytes_le := by decide
      blockSizeKb_pos := by decide
      blockSizeKb_lt := by decide }
  blocks := [[⟨[0, 1], 7, 300⟩, ⟨[0xAB, 0], 9, 5⟩]]
  tocHash := List.replicate 15 3
  version := 1
  unknown11 := 0
  unknown12 := 0
  numElements := 2
  footerChecksum := List.replicate 15 4
  blocks_ne := by decide
  records_fit := by decide
  blocks_fit := by decide
  tocHash_length := by decide
  footerChecksum_length := by decide

/-- The sample in memory. -/
def sampleBuffer : Buffer := ⟨sample.bytes Digest.leading, by decide +kernel⟩

theorem read_at_sample :
    ∃ index, read Digest.leading (hex (Digest.leading sample.footerBytes).bytes)
        (GrowableMemoryStream.ofBuffer sampleBuffer) = .ok index ∧
      index.at [0xAB, 1] = none ∧
        ∃ entry, index.at [0, 1] = some entry ∧ entry.size.toNat = 7 ∧
          entry.offset.toNat = 300 := by
  obtain ⟨index, hread, hat⟩ := read_at Digest.leading sample
    (GrowableMemoryStream.ofBuffer_rep sampleBuffer) (by
      intro c hc hle
      obtain rfl : c = 16 := Nat.le_antisymm hle hc
      decide +kernel)
  exact ⟨index, hread, (hat [0xAB, 1]).1.mpr (by decide), (hat [0, 1]).2 ⟨[0, 1], 7, 300⟩ rfl⟩

end Index

end Tactmon
