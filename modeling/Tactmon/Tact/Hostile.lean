import Tactmon.Io.Truncation
import Tactmon.Tact.Decode

/-!
# Any byte string through the decoder

What `BLTE::_Parse` does on an arbitrary byte string, complete or not.

`chunkTable` is the chunk table of a byte string, read off at the places its
entries have.  An integer field that the end of the byte string cuts is `Torn`.
`readHeader_table` says that on anything else the header and the table are
read, and `Torn.readHeader` that a torn field is fatal.

`chunkAt` is what a chunk comes to, from where the stream goes when it is sent
to the chunk's offset.  `loadChunks_table` puts the chunks together.
-/

namespace Tactmon

open Binary Cxx Zlib CursorReadable LawfulReadable

/-! ## The table of a byte string -/

/-- The chunk headers of `n` entries from position `o` on, of chunks that lie
one after another. -/
def tableFrom (d : Bytes) : Nat → Nat → Nat → List ChunkHeader
  | _, _, 0 => []
  | o, offset, n + 1 =>
      ⟨beNat (window d o 4), beNat (window d (o + 4) 4), zeroFilled d (o + 8) 16, offset⟩ ::
        tableFrom d (o + 24) (offset + beNat (window d o 4)) n

/-- The chunk table. -/
def chunkTable (d : Bytes) : List ChunkHeader :=
  tableFrom d 12 (headerSizeField d) (countField d)

/-- A chunk header as it is fed to the header digest. -/
def ChunkHeader.hashedEntry (chunk : ChunkHeader) : Bytes :=
  beBytes 8 chunk.compressedSize ++ (beBytes 8 chunk.decompressedSize ++ chunk.checksum)

/-- The header of a byte string as it is fed to the header digest. -/
def hashedHeaderOf (d : Bytes) : Bytes :=
  beBytes 4 (beNat (window d 0 4)) ++ (beBytes 4 (headerSizeField d) ++
    (beBytes 4 (flagsCountField d) ++ (chunkTable d).flatMap ChunkHeader.hashedEntry))

/-- The end of the byte string cuts a size field of one of `n` entries from
position `o` on. -/
def TornFrom (d : Bytes) (o n : Nat) : Prop :=
  ∃ i < n, Cut d (o + 24 * i) 4 ∨ Cut d (o + 24 * i + 4) 4

instance (d : Bytes) (o n : Nat) : Decidable (TornFrom d o n) :=
  inferInstanceAs (Decidable (∃ i < n, Cut d (o + 24 * i) 4 ∨ Cut d (o + 24 * i + 4) 4))

/-- The end of the byte string cuts an integer of the header or of the table. -/
def Torn (d : Bytes) : Prop :=
  Cut d 0 4 ∨ (beNat (window d 0 4) = blteMagic ∧
    (Cut d 4 4 ∨ Cut d 8 4 ∨ TornFrom d 12 (countField d)))

instance (d : Bytes) : Decidable (Torn d) :=
  inferInstanceAs (Decidable (Cut d 0 4 ∨ (beNat (window d 0 4) = blteMagic ∧
    (Cut d 4 4 ∨ Cut d 8 4 ∨ TornFrom d 12 (countField d)))))

theorem tornFrom_succ {d : Bytes} {o n : Nat} :
    TornFrom d o (n + 1) ↔ Cut d o 4 ∨ Cut d (o + 4) 4 ∨ TornFrom d (o + 24) n := by
  constructor
  · rintro ⟨i, hi, hcut⟩
    cases i with
    | zero => exact hcut.elim Or.inl fun h => Or.inr (Or.inl h)
    | succ i =>
        refine Or.inr (Or.inr ⟨i, by omega, ?_⟩)
        rwa [show o + 24 + 24 * i = o + 24 * (i + 1) by omega]
  · rintro (hcut | hcut | ⟨i, hi, hcut⟩)
    · exact ⟨0, by omega, Or.inl hcut⟩
    · exact ⟨0, by omega, Or.inr hcut⟩
    · refine ⟨i + 1, by omega, ?_⟩
      rwa [show o + 24 * (i + 1) = o + 24 + 24 * i by omega]

namespace BLTE

section Streams

variable {σ : Type} [IReadableStream σ] [LawfulReadable σ]

/-! ## Reading the header -/

/-- A table without torn fields is read, wherever the byte string ends. -/
theorem readChunkHeaders_table {d : Bytes} (n : Nat) :
    ∀ (offset : Nat) (engine : Hash) {o : Nat} {s : σ}, Rep s d (min o d.length) →
      ¬ TornFrom d o n →
      ∃ s' c, readChunkHeaders n offset s engine =
          .ok (tableFrom d o offset n, engine.updateData
            ((tableFrom d o offset n).flatMap ChunkHeader.hashedEntry), s') ∧ Rep s' d c := by
  induction n with
  | zero =>
      intro offset engine o s hs _
      refine ⟨s, _, ?_, hs⟩
      rw [readChunkHeaders, tableFrom, List.flatMap_nil, Hash.updateData, List.append_nil]
  | succ n ih =>
      intro offset engine o s hs htorn
      rw [tornFrom_succ, not_or, not_or] at htorn
      obtain ⟨hsize, hdecompressed, htorn⟩ := htorn
      obtain ⟨s₁, hr₁, hs₁⟩ := readInt_big_of_not_cut (by decide) hs hsize
      obtain ⟨s₂, hr₂, hs₂⟩ := readInt_big_of_not_cut (by decide) hs₁ hdecompressed
      obtain ⟨s₃, hr₃, hs₃⟩ := readArray_zeros 16 hs₂
      rw [show o + 4 + 4 + 16 = o + 24 by omega] at hs₃
      obtain ⟨s₄, c, hr₄, hs₄⟩ := ih (offset + beNat (window d o 4))
        (engine.updateData (ChunkHeader.hashedEntry ⟨beNat (window d o 4),
          beNat (window d (o + 4) 4), zeroFilled d (o + 8) 16, offset⟩)) hs₃ htorn
      refine ⟨s₄, c, ?_, hs₄⟩
      rw [readChunkHeaders, hr₁, Exec.ok_bind]
      simp only [hr₂, hr₃, Exec.ok_bind, Hash.updateInt_byteswap]
      have hengine : ((engine.updateData (beBytes 8 (beNat (window d o 4)))).updateData
          (beBytes 8 (beNat (window d (o + 4) 4)))).updateData (zeroFilled d (o + 8) 16) =
          engine.updateData (ChunkHeader.hashedEntry ⟨beNat (window d o 4),
            beNat (window d (o + 4) 4), zeroFilled d (o + 8) 16, offset⟩) := by
        simp only [Hash.updateData, ChunkHeader.hashedEntry, List.append_assoc]
      rw [show o + 4 + 4 = o + 8 by omega, hengine, hr₄, Exec.ok_bind]
      simp only [tableFrom, Hash.updateData, List.flatMap_cons, List.append_assoc]

/-- A torn size field stops the loop over the table. -/
theorem TornFrom.readChunkHeaders {d : Bytes} (n : Nat) :
    ∀ {o offset : Nat} {s : σ} {engine : Hash}, Rep s d (min o d.length) → TornFrom d o n →
      readChunkHeaders n offset s engine = .error .outOfBounds := by
  induction n with
  | zero =>
      rintro o offset s engine _ ⟨i, hi, -⟩
      exact absurd hi (Nat.not_lt_zero i)
  | succ n ih =>
      intro o offset s engine hs htorn
      rw [BLTE.readChunkHeaders]
      by_cases hsize : Cut d o 4
      · rw [readInt_big_cut (by rwa [Nat.min_eq_left (Nat.le_of_lt hsize.1)] at hs) hsize]
        rfl
      obtain ⟨s₁, hr₁, hs₁⟩ := readInt_big_of_not_cut (by decide) hs hsize
      rw [hr₁, Exec.ok_bind]
      by_cases hdecompressed : Cut d (o + 4) 4
      · have hcut := readInt_big_cut
          (by rwa [Nat.min_eq_left (Nat.le_of_lt hdecompressed.1)] at hs₁) hdecompressed
        simp only [hcut, Exec.error_bind]
      obtain ⟨s₂, hr₂, hs₂⟩ := readInt_big_of_not_cut (by decide) hs₁ hdecompressed
      obtain ⟨s₃, hr₃, hs₃⟩ := readArray_zeros 16 hs₂
      rw [show o + 4 + 4 + 16 = o + 24 by omega] at hs₃
      have hrest : TornFrom d (o + 24) n :=
        ((tornFrom_succ.mp htorn).resolve_left hsize).resolve_left hdecompressed
      simp only [hr₂, hr₃, Exec.ok_bind, ih hs₃ hrest, Exec.error_bind]

/-- A byte string that starts with the magic and has no torn fields has its
table read. -/
theorem readHeader_table {d : Bytes} {s : σ} (hs : Rep s d 0) (htorn : ¬ Torn d) :
    if beNat (window d 0 4) = blteMagic then
      ∃ s' c, readHeader s = .ok (some (chunkTable d, ⟨hashedHeaderOf d⟩, s')) ∧ Rep s' d c
    else readHeader s = .ok none := by
  rw [Torn, not_or, not_and] at htorn
  obtain ⟨hfirst, hrest⟩ := htorn
  rw [show (0 : Nat) = min 0 d.length by omega] at hs
  obtain ⟨s₁, hr₁, hs₁⟩ := readInt_big_of_not_cut (by decide) hs hfirst
  rw [readHeader, hr₁, Exec.ok_bind]
  by_cases hmagic : beNat (window d 0 4) = blteMagic
  · rw [if_pos hmagic]
    have hrest := hrest hmagic
    rw [not_or, not_or] at hrest
    obtain ⟨hsize, hcount, htable⟩ := hrest
    obtain ⟨s₂, hr₂, hs₂⟩ := readInt_big_of_not_cut (by decide) hs₁ hsize
    obtain ⟨s₃, hr₃, hs₃⟩ := readInt_big_of_not_cut (by decide) hs₂ hcount
    obtain ⟨s₄, c, hr₄, hs₄⟩ := readChunkHeaders_table (countField d)
      (headerSizeField d)
      (((Hash.init.updateData (beBytes 4 (beNat (window d 0 4)))).updateData
        (beBytes 4 (headerSizeField d))).updateData (beBytes 4 (flagsCountField d))) hs₃ htable
    refine ⟨s₄, c, ?_, hs₄⟩
    have hfields : beNat (window d (0 + 4) 4) = headerSizeField d := rfl
    have hflags : beNat (window d (0 + 4 + 4) 4) = flagsCountField d := rfl
    simp only [hmagic, ne_eq, not_true_eq_false, if_false, hr₂, hr₃, Exec.ok_bind, hflags,
      flagsCountField_and, Hash.updateInt_byteswap, hfields]
    rw [hmagic] at hr₄
    rw [hr₄, Exec.ok_bind, hashedHeaderOf, hmagic]
    simp only [Hash.updateData, Hash.init, List.nil_append, List.append_assoc, chunkTable]
  · rw [if_neg hmagic]
    simp only [ne_eq, hmagic, not_false_eq_true, if_true]

/-- A torn field stops the decoder. -/
theorem Torn.readHeader {d : Bytes} {s : σ} (hs : Rep s d 0) (htorn : Torn d) :
    readHeader s = .error .outOfBounds := by
  rw [show (0 : Nat) = min 0 d.length by omega] at hs
  rw [BLTE.readHeader]
  by_cases hfirst : Cut d 0 4
  · rw [readInt_big_cut (by rwa [Nat.min_eq_left (Nat.zero_le _)] at hs) hfirst]
    rfl
  obtain ⟨hmagic, htorn⟩ := htorn.resolve_left hfirst
  obtain ⟨s₁, hr₁, hs₁⟩ := readInt_big_of_not_cut (by decide) hs hfirst
  rw [hr₁, Exec.ok_bind]
  simp only [hmagic, ne_eq, not_true_eq_false, if_false]
  by_cases hsize : Cut d 4 4
  · have hcut := readInt_big_cut
      (by rwa [Nat.zero_add, Nat.min_eq_left (Nat.le_of_lt hsize.1)] at hs₁) hsize
    rw [hcut, Exec.error_bind]
  obtain ⟨s₂, hr₂, hs₂⟩ := readInt_big_of_not_cut (by decide) hs₁ hsize
  rw [hr₂, Exec.ok_bind]
  by_cases hcount : Cut d 8 4
  · have hcut := readInt_big_cut
      (by rwa [Nat.zero_add, Nat.min_eq_left (Nat.le_of_lt hcount.1)] at hs₂) hcount
    simp only [hcut, Exec.error_bind]
  obtain ⟨s₃, hr₃, hs₃⟩ := readInt_big_of_not_cut (by decide) hs₂ hcount
  have htable := (htorn.resolve_left hsize).resolve_left hcount
  have hflags : beNat (window d (0 + 4 + 4) 4) = flagsCountField d := rfl
  simp only [hr₃, Exec.ok_bind, hflags, flagsCountField_and,
    TornFrom.readChunkHeaders _ hs₃ htable, Exec.error_bind]

end Streams

end BLTE

/-! ## The chunks of a byte string -/

section Chunks

variable (digest : Bytes → Digest) (Z : Inflate) (position : Nat → Nat → Nat) (d : Bytes)

/-- The bytes of a chunk, from where a seek to its offset ends. -/
def bodyAt (chunk : ChunkHeader) : Bytes :=
  window d (position d.length chunk.offset) chunk.compressedSize

/-- The chunk lies inside the byte string and has the digest of its entry. -/
def Checked (chunk : ChunkHeader) : Prop :=
  position d.length chunk.offset + chunk.compressedSize ≤ d.length ∧
    (digest (bodyAt position d chunk)).bytes = chunk.checksum

instance (chunk : ChunkHeader) : Decidable (Checked digest position d chunk) :=
  inferInstanceAs (Decidable (_ ∧ _))

/-- What a chunk of the table comes to. -/
def chunkAt (chunk : ChunkHeader) : Exec (Option Bytes) :=
  if Checked digest position d chunk then openChunk Z (bodyAt position d chunk) else .ok none

/-- What the chunks come to, up to the first that is refused. -/
def loadTable : List ChunkHeader → Exec (Option Bytes)
  | [] => .ok (some [])
  | chunk :: chunks => do
      match ← chunkAt digest Z position d chunk with
      | none => .ok none
      | some x =>
          match ← loadTable chunks with
          | none => .ok none
          | some y => .ok (some (x ++ y))

end Chunks

/-- The chunks of a table lie below the sum of their sizes. -/
theorem tableFrom_end_le {d : Bytes} (n : Nat) : ∀ {o offset : Nat},
    ∀ chunk ∈ tableFrom d o offset n,
      chunk.offset + chunk.compressedSize ≤ offset + 2 ^ 32 * n := by
  induction n with
  | zero => exact fun _ h => absurd h List.not_mem_nil
  | succ n ih =>
      intro o offset chunk hchunk
      have hlt := beNat_window_lt d o 4
      rcases List.mem_cons.mp hchunk with rfl | hchunk
      · show offset + beNat (window d o 4) ≤ _
        omega
      · have := ih chunk hchunk
        omega

/-- Positions of chunks do not wrap. -/
theorem chunkTable_lt_sizeMax {d : Bytes} :
    ∀ chunk ∈ chunkTable d, chunk.offset + chunk.compressedSize < sizeMax := by
  intro chunk hchunk
  have hend := tableFrom_end_le _ chunk hchunk
  have hcount : countField d < 2 ^ 24 := Nat.mod_lt _ (by decide)
  have hlt := beNat_window_lt d 4 4
  rw [headerSizeField] at hend
  exact lt_sizeMax (by omega)

namespace BLTE

section Chunks

variable {σ : Type} [IReadableStream σ] [LawfulReadable σ] [SeekPosition σ]
  (digest : Bytes → Digest) (Z : Inflate)

/-- A chunk is refused or decoded from where the seek ends. -/
theorem loadChunk_chunkAt {d : Bytes} {s : σ} {chunk : ChunkHeader} (out : Bytes)
    (hs : Rep s d (SeekPosition.position σ d.length chunk.offset))
    (hlt : chunk.offset + chunk.compressedSize < sizeMax) :
    (holding out).loadChunk digest Z s chunk.compressedSize chunk.decompressedSize chunk.checksum =
      (chunkAt digest Z (SeekPosition.position σ) d chunk).map
        (Option.map fun x => holding (out ++ x)) := by
  have hle := SeekPosition.position_le (σ := σ) d.length chunk.offset
  rw [chunkAt]
  by_cases hin : SeekPosition.position σ d.length chunk.offset + chunk.compressedSize ≤ d.length
  · rw [loadChunk_window digest Z hs hin, ← bodyAt]
    by_cases hsum : (digest (bodyAt (SeekPosition.position σ) d chunk)).bytes = chunk.checksum
    · rw [if_neg (not_not.mpr hsum), if_pos ⟨hin, hsum⟩]
    · rw [if_pos hsum, if_neg fun h => hsum h.2]
      rfl
  · rw [if_neg fun h => hin h.1, loadChunk, getLength_eq hs, getReadCursor_eq hs,
      sizeWrap_of_lt (by omega), if_pos (by omega)]
    rfl

/-- The loop over the chunks. -/
theorem loadChunks_table {d : Bytes} (chunks : List ChunkHeader) :
    ∀ {s : σ} {c : Nat} (out : Bytes), Rep s d c →
      (∀ chunk ∈ chunks, chunk.offset + chunk.compressedSize < sizeMax) →
      loadChunks digest Z (holding out) chunks s =
        (loadTable digest Z (SeekPosition.position σ) d chunks).map
          (Option.map fun x => holding (out ++ x)) := by
  induction chunks with
  | nil =>
      intro s c out _ _
      rw [loadChunks, loadTable, Except.map, Option.map_some, List.append_nil]
  | cons chunk chunks ih =>
      intro s c out hs hlt
      obtain ⟨hfirst, hrest⟩ := List.forall_mem_cons.mp hlt
      have hs' := SeekPosition.seekRead_position chunk.offset hs
      rw [loadChunks, loadChunk_chunkAt digest Z out hs' hfirst, loadTable]
      cases chunkAt digest Z (SeekPosition.position σ) d chunk with
      | error e => rfl
      | ok r =>
          cases r with
          | none => rfl
          | some x =>
              simp only [Except.map, Option.map_some, Exec.ok_bind, ih (out ++ x) hs' hrest]
              cases loadTable digest Z (SeekPosition.position σ) d chunks with
              | error e => rfl
              | ok r =>
                  cases r with
                  | none => rfl
                  | some y => simp

/-- The decoder on an arbitrary byte string. -/
theorem _parse_bytes {d : Bytes} {s : σ} (hs : Rep s d 0) (ekey ckey : Option Bytes) :
    _parse digest Z s ekey ckey =
      if Torn d then .error .outOfBounds
      else if beNat (window d 0 4) ≠ blteMagic then .ok none
      else if ekey.any (fun ekey => ekey ≠ (digest (hashedHeaderOf d)).bytes) then .ok none
      else (loadTable digest Z (SeekPosition.position σ) d (chunkTable d)).map
        (Option.bind · fun x =>
          if ckey.all (fun ckey => ckey = (digest x).bytes) then some (holding x) else none) := by
  by_cases htorn : Torn d
  · rw [if_pos htorn, _parse, Torn.readHeader hs htorn]
    rfl
  have hheader := readHeader_table hs htorn
  rw [if_neg htorn, _parse]
  by_cases hmagic : beNat (window d 0 4) = blteMagic
  · rw [if_pos hmagic] at hheader
    rw [if_neg (not_not.mpr hmagic)]
    obtain ⟨s', c, hr, hs'⟩ := hheader
    have hget : Hash.getDigest ⟨hashedHeaderOf d⟩ digest = digest (hashedHeaderOf d) := rfl
    simp only [hr, Exec.ok_bind, hget]
    split
    · rfl
    · rw [show empty = holding [] from rfl,
        loadChunks_table digest Z _ [] hs' chunkTable_lt_sizeMax]
      exact validate_holding digest _ ckey
  · rw [if_neg hmagic] at hheader
    rw [if_pos hmagic, hheader]
    rfl

end Chunks

end BLTE

/-! ## Where the decoder has no defined outcome -/

/-- A chunk without a mode byte, or one for which `inflate` asks for a
dictionary. -/
def Trap (Z : Inflate) : Bytes → Prop
  | [] => True
  | encodingMode :: payload => encodingMode = modeZ ∧
      ∃ strm, Z.init = some strm ∧ (Z.run decompressedBuffer strm payload).2 = .needsDict

/-- A chunk that is stored, or that `inflate` finds no error in. -/
def Opens (Z : Inflate) : Bytes → Prop
  | [] => False
  | encodingMode :: payload => encodingMode = modeN ∨ (encodingMode = modeZ ∧
      ∃ strm, Z.init = some strm ∧ ((Z.run decompressedBuffer strm payload).2 = .ended ∨
        (Z.run decompressedBuffer strm payload).2 = .starved))

/-- No chunk that is reached and has the digest of its entry is a trap. -/
def SafeTable (digest : Bytes → Digest) (Z : Inflate) (position : Nat → Nat → Nat) (d : Bytes) :
    List ChunkHeader → Prop
  | [] => True
  | chunk :: chunks => Checked digest position d chunk →
      ¬ Trap Z (bodyAt position d chunk) ∧
        (Opens Z (bodyAt position d chunk) → SafeTable digest Z position d chunks)

/-- No field is torn, and the table is safe unless a key refuses the header. -/
def Harmless (digest : Bytes → Digest) (Z : Inflate) (position : Nat → Nat → Nat) (d : Bytes)
    (ekey : Option Bytes) : Prop :=
  ¬ Torn d ∧ (beNat (window d 0 4) = blteMagic →
    (∀ key, ekey = some key → key = (digest (hashedHeaderOf d)).bytes) →
    SafeTable digest Z position d (chunkTable d))

/-- A zlib chunk, by how the loop around `inflate` ends. -/
theorem openChunk_deflated {Z : Inflate} {strm : Z.State} (hinit : Z.init = some strm)
    (payload : Bytes) :
    openChunk Z (modeZ :: payload) =
      match (Z.run decompressedBuffer strm payload).2 with
      | .ended => .ok (some (Z.run decompressedBuffer strm payload).1.flatten)
      | .starved => .ok (some (Z.run decompressedBuffer strm payload).1.flatten)
      | .failed => .ok none
      | .needsDict => .error .diverges := by
  rw [openChunk, if_neg (by decide), if_pos rfl, hinit]
  simp only [Z.drain_eq_run]
  cases (Z.run decompressedBuffer strm payload).2 <;> rfl

/-- The three outcomes of a chunk: a fault, a refusal, contents. -/
theorem openChunk_cases (Z : Inflate) (body : Bytes) :
    (Trap Z body ∧ ∃ e, openChunk Z body = .error e) ∨
    (¬ Trap Z body ∧ ¬ Opens Z body ∧ openChunk Z body = .ok none) ∨
    (¬ Trap Z body ∧ Opens Z body ∧ ∃ x, openChunk Z body = .ok (some x)) := by
  cases body with
  | nil => exact Or.inl ⟨trivial, _, rfl⟩
  | cons encodingMode payload =>
      by_cases hN : encodingMode = modeN
      · subst hN
        exact Or.inr (Or.inr ⟨fun h => absurd h.1 (by decide), Or.inl rfl, payload, rfl⟩)
      by_cases hZ : encodingMode = modeZ
      · subst hZ
        cases hinit : Z.init with
        | none =>
            refine Or.inr (Or.inl ⟨?_, ?_, ?_⟩)
            · rintro ⟨-, strm, hstrm, -⟩
              simp [hinit] at hstrm
            · rintro (h | ⟨-, strm, hstrm, -⟩)
              · exact hN h
              · simp [hinit] at hstrm
            · rw [openChunk, if_neg hN, if_pos rfl, hinit]
        | some strm =>
            have hopen := openChunk_deflated hinit payload
            cases hrun : (Z.run decompressedBuffer strm payload).2 with
            | ended =>
                simp [Trap, Opens, hinit, hrun, hopen]
            | starved =>
                simp [Trap, Opens, hinit, hrun, hopen]
            | failed =>
                simp [Trap, Opens, hinit, hrun, hopen, hN]
            | needsDict =>
                simp [Trap, Opens, hinit, hrun, hopen]
      · refine Or.inr (Or.inl ⟨fun h => hZ h.1, fun h => ?_, ?_⟩)
        · exact h.elim hN fun h => hZ h.1
        · rw [openChunk, if_neg hN, if_neg hZ]

/-- The loop over the chunks is defined exactly on a safe table. -/
theorem loadTable_defined_iff (digest : Bytes → Digest) (Z : Inflate) (position : Nat → Nat → Nat)
    (d : Bytes) (chunks : List ChunkHeader) :
    (∃ r, loadTable digest Z position d chunks = .ok r) ↔
      SafeTable digest Z position d chunks := by
  induction chunks with
  | nil => exact ⟨fun _ => trivial, fun _ => ⟨_, rfl⟩⟩
  | cons chunk chunks ih =>
      rw [loadTable, SafeTable, chunkAt]
      by_cases hchecked : Checked digest position d chunk
      · rw [if_pos hchecked]
        rcases openChunk_cases Z (bodyAt position d chunk) with
          ⟨htrap, e, he⟩ | ⟨htrap, hopens, he⟩ | ⟨htrap, hopens, x, he⟩
        · simp [he, htrap, hchecked]
        · simp [he, htrap, hopens]
        · simp only [he, Exec.ok_bind, hchecked, htrap, hopens, not_false_eq_true, true_and,
            forall_const, ← ih]
          cases loadTable digest Z position d chunks with
          | error e => simp
          | ok r => cases r <;> simp
      · simp [hchecked]

namespace BLTE

/-- On either stream the decoder is defined exactly on what is harmless. -/
theorem _parse_defined_iff {σ : Type} [IReadableStream σ] [LawfulReadable σ] [SeekPosition σ]
    (digest : Bytes → Digest) (Z : Inflate) {d : Bytes} {s : σ} (hs : Rep s d 0)
    (ekey ckey : Option Bytes) :
    (∃ r, _parse digest Z s ekey ckey = .ok r) ↔
      Harmless digest Z (SeekPosition.position σ) d ekey := by
  have hkey : (∀ key, ekey = some key → key = (digest (hashedHeaderOf d)).bytes) ↔
      ¬ ekey.any (fun ekey => ekey ≠ (digest (hashedHeaderOf d)).bytes) = true := by
    cases ekey <;> simp
  rw [_parse_bytes digest Z hs, Harmless, ← loadTable_defined_iff, hkey]
  split
  · next htorn => simp [htorn]
  · next htorn =>
      split
      · next hmagic => simp [htorn, hmagic]
      · next hmagic =>
          split
          · next hrefused =>
              exact ⟨fun _ => ⟨htorn, fun _ hkept => absurd hrefused hkept⟩, fun _ => ⟨_, rfl⟩⟩
          · next hkept =>
              simp only [htorn, not_not.mp hmagic, hkept, not_false_eq_true, true_and,
                forall_const]
              cases loadTable digest Z (SeekPosition.position σ) d (chunkTable d) <;>
                simp [Except.map]

/-- Over either of the two streams, with or without keys. -/
theorem parse_inBounds_iff (digest : Bytes → Digest) (Z : Inflate) (b : Buffer)
    (ekey ckey : Option Bytes) :
    ((∃ r, _parse digest Z (FileStream.ofBuffer b) ekey ckey = .ok r) ↔
      Harmless digest Z FileStream.position b.bytes ekey) ∧
    ((∃ r, _parse digest Z (GrowableMemoryStream.ofBuffer b) ekey ckey = .ok r) ↔
      Harmless digest Z GrowableMemoryStream.position b.bytes ekey) :=
  ⟨_parse_defined_iff digest Z (FileStream.ofBuffer_rep b) ekey ckey,
    _parse_defined_iff digest Z (GrowableMemoryStream.ofBuffer_rep b) ekey ckey⟩

/-- A file that ends inside its header size. -/
def cutHeader : Buffer := ⟨[0x42, 0x4C, 0x54, 0x45, 0x00], by decide⟩

/-- A container of one chunk, whose size is zero and whose checksum is right. -/
def emptyChunk : Buffer :=
  ⟨[0x42, 0x4C, 0x54, 0x45, 0, 0, 0, 0x24, 0x0F, 0, 0, 1, 0, 0, 0, 0, 0, 0, 0, 0] ++
    (Digest.leading []).bytes, by decide⟩

/-- Neither of the two needs a key. -/
theorem parse_leaves_stream :
    parse Digest.leading Inflate.copying (FileStream.ofBuffer cutHeader) = .error .outOfBounds ∧
    parse Digest.leading Inflate.copying (GrowableMemoryStream.ofBuffer cutHeader) =
      .error .outOfBounds ∧
    parse Digest.leading Inflate.copying (FileStream.ofBuffer emptyChunk) = .error .outOfBounds ∧
    parse Digest.leading Inflate.copying (GrowableMemoryStream.ofBuffer emptyChunk) =
      .error .outOfBounds := by
  decide

end BLTE

end Tactmon
