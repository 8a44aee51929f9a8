import Tactmon.Io.MemoryStream
import Tactmon.Tact.Install

/-!
# Install manifests on the wire

How install manifests are serialised, and that `Install.parse` reads them back.
What is left of the stream is carried through the loops: in front of a tag or
an entry it is the records that are still to be read, and whatever follows the
manifest (`readNamed_records`).

The parser only asks whether the stream has a header.  So a stream that ends
inside the manifest is never turned down (`parse_detects_iff`).
-/

namespace Tactmon

open Binary Cxx CursorReadable LawfulReadable

namespace Install

/-! ## Serialisation -/

/-- A tag of a manifest that can be written. -/
structure TagRecord where
  name : Bytes
  type : UInt16
  bitmask : Bytes
deriving DecidableEq, Repr

/-- An entry of a manifest that can be written. -/
structure FileRecord where
  name : Bytes
  hash : Bytes
  fileSize : UInt32
deriving DecidableEq, Repr

namespace TagRecord

/-- The serialised tag. -/
def bytes (tag : TagRecord) : Bytes :=
  tag.name ++ 0 :: (beBytes 2 tag.type.toNat ++ tag.bitmask)

/-- The tag has a name, and a bit for each of `n` entries. -/
structure Fits (n : Nat) (tag : TagRecord) : Prop where
  name_free : 0 ∉ tag.name
  bitmask_length : tag.bitmask.length = (n + 7) / 8

instance (n : Nat) (tag : TagRecord) : Decidable (tag.Fits n) :=
  decidable_of_iff (0 ∉ tag.name ∧ tag.bitmask.length = (n + 7) / 8)
    ⟨fun ⟨hname, hmask⟩ => ⟨hname, hmask⟩, fun ⟨hname, hmask⟩ => ⟨hname, hmask⟩⟩

/-- The tag that is read back. -/
def tag (n : Nat) (tag : TagRecord) : Tag :=
  ⟨tag.name, .ofNat tag.type.toNat, n, tag.bitmask⟩

end TagRecord

namespace FileRecord

/-- The serialised entry. -/
def bytes (file : FileRecord) : Bytes :=
  file.name ++ 0 :: (file.hash ++ beBytes 4 file.fileSize.toNat)

/-- The entry has a name, and a hash of this size. -/
structure Fits (hashSize : Nat) (file : FileRecord) : Prop where
  name_free : 0 ∉ file.name
  hash_length : file.hash.length = hashSize

instance (hashSize : Nat) (file : FileRecord) : Decidable (file.Fits hashSize) :=
  decidable_of_iff (0 ∉ file.name ∧ file.hash.length = hashSize)
    ⟨fun ⟨hname, hhash⟩ => ⟨hname, hhash⟩, fun ⟨hname, hhash⟩ => ⟨hname, hhash⟩⟩

/-- The entry that is read back. -/
def entry (file : FileRecord) : Entry :=
  ⟨file.name, .ofNat file.fileSize.toNat, file.hash⟩

end FileRecord

/-- An install manifest that can be written. -/
structure Manifest where
  signature : UInt16
  version : UInt8
  hashSize : Nat
  tags : List TagRecord
  files : List FileRecord
  hashSize_lt : hashSize < 2 ^ 8
  tags_lt : tags.length < 2 ^ 16
  files_lt : files.length < 2 ^ 32
  tags_fit : ∀ tag ∈ tags, tag.Fits files.length
  files_fit : ∀ file ∈ files, file.Fits hashSize

namespace Manifest

/-- The header. -/
def headerBytes (m : Manifest) : Bytes :=
  beBytes 2 m.signature.toNat ++ (beBytes 1 m.version.toNat ++ (beBytes 1 m.hashSize ++
    (beBytes 2 m.tags.length ++ beBytes 4 m.files.length)))

/-- The serialised manifest. -/
def bytes (m : Manifest) : Bytes :=
  m.headerBytes ++ (m.tags.flatMap TagRecord.bytes ++ m.files.flatMap FileRecord.bytes)

/-- What is read back. -/
def parsed (m : Manifest) : List Tag × Install :=
  (m.tags.map (TagRecord.tag m.files.length), ⟨m.files.map FileRecord.entry⟩)

theorem headerBytes_length (m : Manifest) : m.headerBytes.length = 10 := by
  simp only [headerBytes, List.length_append, beBytes_length]

end Manifest

/-! ## Reading it back -/

section Read

variable {σ : Type} [IReadableStream σ] [LawfulReadable σ] {s : σ} {b : Bytes}

/-- A tag is read as it was written. -/
theorem read_tagRecord {n : Nat} {tag : TagRecord} {rest : Bytes} (hfits : tag.Fits n)
    (h : Unread s b (tag.bytes ++ rest)) :
    ∃ s₁ s', readCString s = .ok (tag.name, s₁) ∧
      Tag.read s₁ n tag.name = .ok (tag.tag n, s') ∧ Unread s' b rest := by
  rw [TagRecord.bytes, List.append_assoc, List.cons_append, List.append_assoc] at h
  obtain ⟨s₁, hr₁, h₁⟩ := readCString_append hfits.name_free h
  obtain ⟨s₂, hr₂, h₂⟩ := readInt_beBytes (by decide) tag.type.toNat_lt h₁
  have hmask : (List.replicate ((n + 7) / 8) (0 : UInt8)).length = tag.bitmask.length := by
    rw [List.length_replicate, hfits.bitmask_length]
  obtain ⟨s₃, hr₃, h₃⟩ := readSpan_append .little hmask h₂
  refine ⟨s₁, s₃, hr₁, ?_, h₃⟩
  rw [Tag.read, hr₂, Exec.ok_bind]
  dsimp only
  rw [hr₃, Exec.ok_bind]
  rfl

/-- An entry is read as it was written. -/
theorem read_fileRecord {hashSize : Nat} {file : FileRecord} {rest : Bytes}
    (hfits : file.Fits hashSize) (h : Unread s b (file.bytes ++ rest)) :
    ∃ s₁ s', readCString s = .ok (file.name, s₁) ∧
      Entry.read s₁ hashSize file.name = .ok (file.entry, s') ∧ Unread s' b rest := by
  rw [FileRecord.bytes, List.append_assoc, List.cons_append, List.append_assoc] at h
  obtain ⟨s₁, hr₁, h₁⟩ := readCString_append hfits.name_free h
  have hdata := h₁.dataBytes
  rw [hfits.hash_length] at hdata
  have hskip := h₁.skipRead
  rw [hfits.hash_length] at hskip
  obtain ⟨s₂, hr₂, h₂⟩ := readInt_beBytes (by decide) file.fileSize.toNat_lt hskip
  refine ⟨s₁, s₂, hr₁, ?_, h₂⟩
  rw [Entry.read, hdata, Exec.ok_bind]
  dsimp only
  rw [hr₂, Exec.ok_bind]
  rfl

/-- Records are read one behind the other. -/
theorem readNamed_records {ρ α : Type} {read : σ → Bytes → Exec (α × σ)} {name bytes : ρ → Bytes}
    {item : ρ → α} {rest : Bytes} (records : List ρ)
    (hread : ∀ record ∈ records, ∀ {s : σ} {rest : Bytes}, Unread s b (bytes record ++ rest) →
      ∃ s₁ s', readCString s = .ok (name record, s₁) ∧
        read s₁ (name record) = .ok (item record, s') ∧ Unread s' b rest) :
    ∀ {s : σ}, Unread s b (records.flatMap bytes ++ rest) →
      ∃ s', readNamed read records.length s = .ok (records.map item, s') ∧ Unread s' b rest := by
  induction records with
  | nil => exact fun h => ⟨_, rfl, h⟩
  | cons record records ih =>
      intro s h
      rw [List.flatMap_cons, List.append_assoc] at h
      obtain ⟨s₁, s₂, hname, hitem, h₂⟩ := hread record List.mem_cons_self h
      obtain ⟨s', hr, h'⟩ := ih (fun r hr => hread r (List.mem_cons_of_mem _ hr)) h₂
      refine ⟨s', ?_, h'⟩
      rw [List.length_cons, readNamed, hname, Exec.ok_bind]
      dsimp only
      rw [hitem, Exec.ok_bind]
      dsimp only
      rw [hr, Exec.ok_bind, List.map_cons]

theorem readTags_bytes {n : Nat} {rest : Bytes} {tags : List TagRecord}
    (hfits : ∀ tag ∈ tags, tag.Fits n) (h : Unread s b (tags.flatMap TagRecord.bytes ++ rest)) :
    ∃ s', readTags n tags.length s = .ok (tags.map (TagRecord.tag n), s') ∧ Unread s' b rest :=
  readNamed_records tags (fun tag hmem _ _ h => read_tagRecord (hfits tag hmem) h) h

theorem readEntries_bytes {hashSize : Nat} {rest : Bytes} {files : List FileRecord}
    (hfits : ∀ file ∈ files, file.Fits hashSize)
    (h : Unread s b (files.flatMap FileRecord.bytes ++ rest)) :
    ∃ s', readEntries hashSize files.length s = .ok (files.map FileRecord.entry, s') ∧
      Unread s' b rest :=
  readNamed_records files (fun file hmem _ _ h => read_fileRecord (hfits file hmem) h) h

/-- A serialised manifest is read back, whatever follows it. -/
theorem parse_manifest (m : Manifest) {rest : Bytes} (h : Unread s b (m.bytes ++ rest)) :
    parse s = .ok (some m.parsed) := by
  have hcan : canRead s (2 + 1 + 1 + 2 + 4) = true := by
    refine (h.canRead_iff (by decide)).mpr ?_
    rw [Manifest.bytes, List.length_append, List.length_append, m.headerBytes_length]
    omega
  simp only [Manifest.bytes, Manifest.headerBytes, List.append_assoc] at h
  obtain ⟨s₁, hr₁, h₁⟩ := readInt_beBytes (by decide) m.signature.toNat_lt h
  obtain ⟨s₂, hr₂, h₂⟩ := readByte_beBytes m.version.toNat_lt h₁
  obtain ⟨s₃, hr₃, h₃⟩ := readByte_beBytes m.hashSize_lt h₂
  obtain ⟨s₄, hr₄, h₄⟩ := readInt_beBytes (by decide) m.tags_lt h₃
  obtain ⟨s₅, hr₅, h₅⟩ := readInt_beBytes (by decide) m.files_lt h₄
  obtain ⟨s₆, hr₆, h₆⟩ := readTags_bytes m.tags_fit h₅
  obtain ⟨s₇, hr₇, -⟩ := readEntries_bytes m.files_fit h₆
  rw [parse, hcan, Bool.not_true, if_neg Bool.false_ne_true]
  simp only [hr₁, hr₂, hr₃, hr₄, hr₅, hr₆, hr₇, Exec.ok_bind]
  rfl

end Read

/-! ## Lookup -/

theorem Manifest.parsed_findFile (m : Manifest) (fileName : Bytes) :
    m.parsed.2.findFile fileName =
      (m.files.find? fun file => file.name = fileName).map FileRecord.hash := by
  rw [findFile, Manifest.parsed, List.find?_map, Option.map_map]
  rfl

/-- A serialised manifest has as many entries as were written, and a name is
looked up to the hash of the first entry that has it. -/
theorem parse_findFile {σ : Type} [IReadableStream σ] [LawfulReadable σ] (m : Manifest)
    {stream : σ} (h : Rep stream m.bytes 0) :
    ∃ tags install, parse stream = .ok (some (tags, install)) ∧
      install.size = m.files.length ∧
      ∀ fileName,
        (install.findFile fileName = none ↔ ∀ file ∈ m.files, file.name ≠ fileName) ∧
        ∀ front file back, m.files = front ++ file :: back → file.name = fileName →
          (∀ f ∈ front, f.name ≠ fileName) → install.findFile fileName = some file.hash := by
  have hall : Unread stream m.bytes (m.bytes ++ []) := by
    rw [List.append_nil]
    exact Unread.of_rep h
  refine ⟨m.parsed.1, m.parsed.2, parse_manifest m hall, List.length_map _, fun fileName => ?_⟩
  rw [Manifest.parsed_findFile]
  constructor
  · rw [Option.map_eq_none_iff, List.find?_eq_none]
    exact forall₂_congr fun file _ => not_congr decide_eq_true_iff
  · intro front file back hfiles hname hfront
    have hfind : m.files.find? (fun file => file.name = fileName) = some file := by
      rw [List.find?_eq_some_iff_append]
      refine ⟨decide_eq_true hname, front, back, hfiles, fun f hf => ?_⟩
      rw [Bool.not_eq_true', decide_eq_false_iff_not]
      exact hfront f hf
    rw [hfind, Option.map_some]

/-- Two entries of one name, and a tag for the second. -/
def sample : Manifest where
  signature := 0x494E
  version := 1
  hashSize := 16
  tags := [⟨[87], 1, [64]⟩]
  files := [⟨[97], List.replicate 16 1, 5⟩, ⟨[97], List.replicate 16 2, 6⟩]
  hashSize_lt := by decide
  tags_lt := by decide
  files_lt := by decide
  tags_fit := by decide
  files_fit := by decide

theorem sample_fits : sample.bytes.length < 2 ^ 63 := by decide

theorem parse_findFile_sample :
    ∃ tags install, parse (GrowableMemoryStream.ofBuffer ⟨sample.bytes, sample_fits⟩) =
      .ok (some (tags, install)) ∧ install.size = 2 ∧
      install.findFile [97] = some (List.replicate 16 1) ∧ install.findFile [98] = none := by
  obtain ⟨tags, install, hparse, hsize, hfind⟩ := parse_findFile sample
    (GrowableMemoryStream.ofBuffer_rep ⟨sample.bytes, sample_fits⟩)
  refine ⟨tags, install, hparse, hsize, ?_, ?_⟩
  · exact (hfind [97]).2 [] _ _ rfl rfl fun f hf => absurd hf List.not_mem_nil
  · exact (hfind [98]).1.mpr (by decide)

/-! ## Streams that end early -/

/-- All the tags and entries that the header announces are there. -/
def Complete (d : Bytes) : Prop := ∃ m : Manifest, m.bytes <+: d

/-- The parser returns, and turns down what is not complete. -/
def Detects (b : Buffer) : Prop :=
  ∃ result, parse (GrowableMemoryStream.ofBuffer b) = .ok result ∧
    (¬ Complete b.bytes → result = none)

section Short

variable {σ : Type} [IReadableStream σ] [LawfulReadable σ] {s : σ} {d : Bytes}

theorem canRead_header (hs : Rep s d 0) : canRead s (2 + 1 + 1 + 2 + 4) = true ↔ 10 ≤ d.length := by
  rw [canRead_iff hs (by decide), Nat.zero_add]

/-- Less than a header is turned down. -/
theorem parse_short (hs : Rep s d 0) (hlen : d.length < 10) : parse s = .ok none := by
  have hnot := (not_congr (canRead_header hs)).mpr (Nat.not_le_of_lt hlen)
  rw [parse, Bool.eq_false_iff.mpr hnot, Bool.not_false, if_pos rfl]

/-- Behind the header nothing is turned down. -/
theorem parse_ne_none (hs : Rep s d 0) (hlen : 10 ≤ d.length) : parse s ≠ .ok none := by
  intro h
  rw [parse, (canRead_header hs).mpr hlen, Bool.not_true, if_neg Bool.false_ne_true] at h
  obtain ⟨_, -, h⟩ := Exec.bind_eq_ok.mp h
  obtain ⟨_, -, h⟩ := Exec.bind_eq_ok.mp h
  obtain ⟨_, -, h⟩ := Exec.bind_eq_ok.mp h
  obtain ⟨_, -, h⟩ := Exec.bind_eq_ok.mp h
  obtain ⟨_, -, h⟩ := Exec.bind_eq_ok.mp h
  obtain ⟨_, -, h⟩ := Exec.bind_eq_ok.mp h
  obtain ⟨_, -, h⟩ := Exec.bind_eq_ok.mp h
  cases h

end Short

/-- When the parser is total and notices that the stream ends early. -/
theorem parse_detects_iff (b : Buffer) :
    Detects b ↔ b.bytes.length < 10 ∨ Complete b.bytes := by
  have hs := GrowableMemoryStream.ofBuffer_rep b
  constructor
  · rintro ⟨result, hparse, hdetects⟩
    rcases Nat.lt_or_ge b.bytes.length 10 with hlt | hge
    · exact Or.inl hlt
    · refine Or.inr (Classical.not_not.mp fun hnot => parse_ne_none hs hge ?_)
      rw [hparse, hdetects hnot]
  · rintro (hlt | ⟨m, rest, hbytes⟩)
    · exact ⟨none, parse_short hs hlt, fun _ => rfl⟩
    · have hall : Unread (GrowableMemoryStream.ofBuffer b) b.bytes (m.bytes ++ rest) := by
        rw [hbytes]
        exact Unread.of_rep hs
      exact ⟨_, parse_manifest m hall, fun hnot => absurd ⟨m, rest, hbytes⟩ hnot⟩

/-- A header, for counts of tags and entries. -/
def announcing (hashSize tags files : Nat) : Bytes :=
  beBytes 2 0x494E ++ (beBytes 1 1 ++ (beBytes 1 hashSize ++ (beBytes 2 tags ++ beBytes 4 files)))

/-- A stream that is a header is not complete when it announces a tag. -/
theorem not_complete_announcing {hashSize files : Nat} :
    ¬ Complete (announcing hashSize 1 files) := by
  rintro ⟨m, rest, hbytes⟩
  have hlen := congrArg List.length hbytes
  simp only [announcing, Manifest.bytes, List.length_append, m.headerBytes_length,
    beBytes_length] at hlen
  cases htags : m.tags with
  | nil =>
      have hcount : window (announcing hashSize 1 files) 4 2 = [0, 0] := by
        rw [← hbytes, Manifest.bytes, Manifest.headerBytes, htags]
        rfl
      have hone : window (announcing hashSize 1 files) 4 2 = [0, 1] := rfl
      exact absurd (hcount.symm.trans hone) (by decide)
  | cons tag tags =>
      rw [htags, List.flatMap_cons, List.length_append, TagRecord.bytes, List.length_append,
        List.length_cons] at hlen
      omega

/-- The tag of a stream that ends in its name is read for ever, a hash is taken
past the end, and a header by itself has a tag and an entry. -/
theorem parse_undetected :
    parse (GrowableMemoryStream.ofBuffer ⟨announcing 0 1 0 ++ [87], by decide⟩) =
      .error .diverges ∧
    parse (GrowableMemoryStream.ofBuffer ⟨announcing 2 0 1 ++ [97, 0, 1], by decide⟩) =
      .error .outOfBounds ∧
    parse (GrowableMemoryStream.ofBuffer ⟨announcing 0 1 1, by decide⟩) =
      .ok (some ([⟨[], 0, 1, [0]⟩], ⟨[⟨[], 0, []⟩]⟩)) ∧
    ¬ Detects ⟨announcing 0 1 1, by decide⟩ := by
  have hbare : parse (GrowableMemoryStream.ofBuffer ⟨announcing 0 1 1, by decide⟩) =
      .ok (some ([⟨[], 0, 1, [0]⟩], ⟨[⟨[], 0, []⟩]⟩)) := by decide
  refine ⟨by decide, by decide, hbare, ?_⟩
  rintro ⟨result, hparse, hdetects⟩
  cases hbare.symm.trans hparse
  cases hdetects not_complete_announcing

end Install

end Tactmon
