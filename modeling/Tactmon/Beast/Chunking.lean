import Tactmon.Beast.BlockTable

/-!
# Cutting the input of the streaming decoder

`parseAll` calls `Parse` on consecutive pieces of the input and stops at the
first call that sets an error.

A step tests for some bytes and then reads others.  `buffered` says of the
state before a step that the bytes it reads have arrived, and that an `'F'`
block it comes to holds an archive of its own that parses without an error.
At a state that is `buffered` the step does not depend on the input to come
(`next_uniform`), so the machine is stable there, and the pieces end like the
whole (`parseAll_eq_parse`).
-/

namespace Tactmon

open Binary Cxx Zlib Resumable GrowableMemoryStream

namespace Transform

/-- What the read cursor has left of the buffer. -/
def unread (t : Transform) : Bytes := t.ms.data.drop t.ms.readCursor

/-- The field of the flags and the chunk count is there, and the chunk table
too if the field is accepted. -/
def holdsTable (unread : Bytes) : Bool :=
  let flagsChunkCount := beNat (unread.take 4)
  let chunkCount := flagsChunkCount &&& 0x00FFFFFF
  decide (4 ≤ unread.length) &&
    (decide ((flagsChunkCount &&& 0xFF000000) >>> 24 ≠ 0xF ∨ chunkCount = 0) ||
      decide (4 + 24 * chunkCount ≤ unread.length))

/-- The parse of a nested archive ends without an error. -/
def accepts : Exec (List Bytes × Option ParseError) → Bool
  | .ok (_, none) => true
  | _ => false

/-- The mode byte is there, and the payload too if the mode is known. -/
def holdsBlock (openNested : Bytes → Exec (List Bytes × Option ParseError)) (size : Nat) :
    Bytes → Bool
  | [] => false
  | encodingMode :: rest =>
      if encodingMode = modeN ∨ encodingMode = modeZ then decide (size ≤ rest.length)
      else if encodingMode = modeF then
        decide (size ≤ rest.length) && accepts (openNested (rest.take size))
      else true

section Steps

variable (digest : Bytes → Digest) (Z : Inflate)

/-- What the next step reads has arrived. -/
def buffered (openNested : Bytes → Exec (List Bytes × Option ParseError)) (t : Transform) : Bool :=
  match t.step with
  | .header => true
  | .chunkHeaders => !canRead t.ms t.headerSize.toNat || holdsTable t.unread
  | .dataBlocks i =>
      match t.chunks[i]? with
      | none => true
      | some chunkInfo =>
          !canRead t.ms chunkInfo.compressedSize.toNat ||
            (decide ((digest (t.unread.take chunkInfo.compressedSize.toNat)).bytes ≠
                chunkInfo.checksum) ||
              holdsBlock openNested chunkInfo.compressedSize.toNat t.unread)

/-- Call `Parse` on the pieces in order, up to the first call that sets an
error.  The result has what each call reported to the feedback callback. -/
def parseAll : Transform → List Bytes → Exec (List Nat × Outcome)
  | t, [] => .ok ([], ⟨t, [], none⟩)
  | t, data :: pieces => do
      let (reported, r) ← t.parse digest Z data
      match r.error with
      | some _ => .ok ([reported], r)
      | none => do
          let (reports, rest) ← parseAll r.state pieces
          .ok (reported :: reports, rest.prepend r.out)

/-- What the caller sees of a call: the bytes handed out, the error and the
step the transform is left in. -/
def seen (r : Outcome) : Bytes × Option ParseError × Step :=
  (r.out.flatten, r.error, r.state.step)

end Steps

/-! ## Steps that do not depend on the input to come -/

/-- A step and the same step with `x` behind the buffer: they do the same, they
stay inside the buffer, and they note no error and go on. -/
structure Uniform (x : Bytes) (m m' : Exec Action) : Prop where
  fed : m' = m.map (Move.fed feed x)
  inside : m ≠ .error .outOfBounds
  next : ∀ {t out e}, m = .ok (.next t out e) →
    e = none ∧ t.ms.readCursor ≤ t.ms.data.length

theorem Uniform.of_next {x : Bytes} {t t' : Transform} {out : List Bytes}
    (h : t' = t.feed x) (hc : t.ms.readCursor ≤ t.ms.data.length) :
    Uniform x (.ok (.next t out none)) (.ok (.next t' out none)) where
  fed := by rw [h]; rfl
  inside h := nomatch h
  next h := by
    cases h
    exact ⟨rfl, hc⟩

theorem Uniform.of_stop {x : Bytes} {t t' : Transform} {out : List Bytes} {e : ParseError}
    (h : t' = t.feed x) : Uniform x (.ok (.stop t out e)) (.ok (.stop t' out e)) where
  fed := by rw [h]; rfl
  inside h := nomatch h
  next h := nomatch h

theorem Uniform.of_error {x : Bytes} {f : Fault} (h : f ≠ .outOfBounds) :
    Uniform x (.error f) (.error f) where
  fed := rfl
  inside h' := by
    cases h'
    exact h rfl
  next h := nomatch h

theorem readHeader_uniform {t : Transform} {x : Bytes} (h : t.ms.Extends x)
    (hn : t.ms.readCursor + 8 ≤ t.ms.data.length) (hcan : canRead t.ms 8 = true)
    (hcan' : canRead (t.feed x).ms 8 = true) :
    Uniform x t.readHeader (t.feed x).readHeader := by
  have hn₁ : t.ms.readCursor + 4 ≤ t.ms.data.length := by omega
  have hn₂ : (t.ms.advance 4).readCursor + 4 ≤ (t.ms.advance 4).data.length := by
    change t.ms.readCursor + 4 + 4 ≤ t.ms.data.length
    omega
  have hr₁ := readInt_advance_little h.data_fits hn₁
  have hr₂ := readInt_advance_big (h.advance 4).data_fits (by decide : 0 < 4) hn₂
  have hg₁ := h.readInt_little hn₁
  have hg₂ := (h.advance 4).readInt_big (by decide : 0 < 4) hn₂
  rw [grow_advance] at hg₂
  rw [readHeader, if_pos hcan, hr₁, Exec.ok_bind, readHeader, if_pos hcan']
  change Uniform x _ (readInt 4 (t.ms.grow x) .little >>= _)
  rw [hg₁, Exec.ok_bind]
  dsimp only
  by_cases hsig : leNat (window t.ms.data t.ms.readCursor 4) = blteSignature
  · rw [if_neg (not_not.mpr hsig), if_neg (not_not.mpr hsig), hr₂, hg₂, Exec.ok_bind, Exec.ok_bind]
    exact .of_next rfl (by rw [advance_advance]; exact hn)
  · rw [if_pos hsig, if_pos hsig]
    exact .of_stop rfl

/-- The table loop does not depend on what follows the table. -/
theorem readChunkInfos_grow (x : Bytes) (count : Nat) :
    ∀ {s : GrowableMemoryStream} (engine : Hash), s.Extends x →
      s.readCursor + 24 * count ≤ s.data.length →
      ∃ chunks engine', readChunkInfos count s engine =
          .ok (chunks, engine', s.advance (24 * count)) ∧
        readChunkInfos count (s.grow x) engine =
          .ok (chunks, engine', (s.grow x).advance (24 * count)) := by
  induction count with
  | zero => exact fun engine _ _ => ⟨[], engine, rfl, rfl⟩
  | succ count ih =>
      intro s engine h hn
      have hn₁ : s.readCursor + 4 ≤ s.data.length := by omega
      have hn₂ : (s.advance 4).readCursor + 4 ≤ (s.advance 4).data.length := by
        change s.readCursor + 4 + 4 ≤ s.data.length
        omega
      have hn₃ : ((s.advance 4).advance 4).readCursor + (List.replicate 16 (0 : UInt8)).length ≤
          ((s.advance 4).advance 4).data.length := by
        rw [List.length_replicate]
        change s.readCursor + 4 + 4 + 16 ≤ s.data.length
        omega
      have hn₄ : (s.advance 24).readCursor + 24 * count ≤ (s.advance 24).data.length := by
        change s.readCursor + 24 + 24 * count ≤ s.data.length
        omega
      have hr₁ := readInt_advance_big h.data_fits (by decide : 0 < 4) hn₁
      have hr₂ := readInt_advance_big (h.advance 4).data_fits (by decide : 0 < 4) hn₂
      have hr₃ := readArray_advance ((h.advance 4).advance 4).data_fits hn₃
      have hg₁ := h.readInt_big (by decide : 0 < 4) hn₁
      have hg₂ := (h.advance 4).readInt_big (by decide : 0 < 4) hn₂
      have hg₃ := ((h.advance 4).advance 4).readArray hn₃
      rw [List.length_replicate, advance_advance, advance_advance] at hr₃
      rw [List.length_replicate, grow_advance, grow_advance, advance_advance, advance_advance,
        advance_advance] at hg₃
      rw [grow_advance, advance_advance] at hg₂
      rw [advance_advance] at hr₂
      generalize beNat (window s.data s.readCursor 4) = size at hr₁ hg₁
      generalize beNat (window (s.advance 4).data (s.advance 4).readCursor 4) = decompressedSize
        at hr₂ hg₂
      generalize window (s.advance (4 + 4)).data (s.advance (4 + 4)).readCursor 16 = checksum
        at hr₃ hg₃
      obtain ⟨chunks, engine', hr₄, hg₄⟩ := ih
        (((engine.updateInt 4 (byteswap 4 (UInt32.ofNat size - 1).toNat)).updateInt 4
          (byteswap 4 decompressedSize)).updateData checksum) (h.advance 24) hn₄
      have hsplit : 24 * (count + 1) = 24 + 24 * count := by omega
      rw [advance_advance, ← hsplit] at hr₄
      rw [grow_advance, advance_advance, ← hsplit] at hg₄
      refine ⟨⟨.ofNat size - 1, .ofNat decompressedSize, checksum⟩ :: chunks, engine', ?_, ?_⟩
      · rw [readChunkInfos, hr₁, Exec.ok_bind]
        dsimp only
        rw [hr₂, Exec.ok_bind]
        dsimp only
        rw [hr₃, Exec.ok_bind]
        dsimp only
        rw [hr₄, Exec.ok_bind]
      · rw [readChunkInfos, hg₁, Exec.ok_bind]
        dsimp only
        rw [hg₂, Exec.ok_bind]
        dsimp only
        rw [hg₃, Exec.ok_bind]
        dsimp only
        rw [hg₄, Exec.ok_bind]

theorem readChunkHeaders_uniform {t : Transform} {x : Bytes} (h : t.ms.Extends x)
    (hcan : canRead t.ms t.headerSize.toNat = true)
    (hcan' : canRead (t.feed x).ms t.headerSize.toNat = true)
    (hholds : holdsTable t.unread = true) :
    Uniform x t.readChunkHeaders (t.feed x).readChunkHeaders := by
  rw [holdsTable, Bool.and_eq_true, decide_eq_true_iff, unread, List.length_drop] at hholds
  obtain ⟨hfield, htable⟩ := hholds
  have hn : t.ms.readCursor + 4 ≤ t.ms.data.length := by omega
  have hr₁ := readInt_advance_big h.data_fits (by decide : 0 < 4) hn
  have hg₁ := h.readInt_big (by decide : 0 < 4) hn
  rw [← window, Bool.or_eq_true, decide_eq_true_iff, decide_eq_true_iff] at htable
  rw [readChunkHeaders, if_pos hcan, hr₁, Exec.ok_bind, readChunkHeaders]
  change Uniform x _ (if canRead (t.feed x).ms t.headerSize.toNat = true then
    (readInt 4 (t.ms.grow x) .big >>= _) else _)
  rw [if_pos hcan', hg₁, Exec.ok_bind]
  dsimp only
  generalize beNat (window t.ms.data t.ms.readCursor 4) = flagsChunkCount at htable ⊢
  by_cases hflags : (flagsChunkCount &&& 0xFF000000) >>> 24 ≠ 0xF ∨
      flagsChunkCount &&& 0x00FFFFFF = 0
  · rw [if_pos hflags, if_pos hflags]
    exact .of_stop rfl
  · rw [if_neg hflags, if_neg hflags]
    have hleft := htable.resolve_left hflags
    have hn₂ : (t.ms.advance 4).readCursor + 24 * (flagsChunkCount &&& 0x00FFFFFF) ≤
        (t.ms.advance 4).data.length := by
      change t.ms.readCursor + 4 + _ ≤ t.ms.data.length
      omega
    obtain ⟨chunks, engine, hr₂, hg₂⟩ := readChunkInfos_grow x (flagsChunkCount &&& 0x00FFFFFF)
      (t.engine.updateInt 4 (byteswap 4 flagsChunkCount)) (h.advance 4) hn₂
    rw [grow_advance] at hg₂
    change Uniform x _
      (readChunkInfos _ _ (t.engine.updateInt 4 (byteswap 4 flagsChunkCount)) >>= _)
    rw [hr₂, hg₂, Exec.ok_bind, Exec.ok_bind]
    exact .of_next rfl hn₂

section Blocks

variable {digest : Bytes → Digest} {Z : Inflate}
  {openNested : Bytes → Exec (List Bytes × Option ParseError)}

theorem readPayload_uniform {t : Transform} {x : Bytes} {i size : Nat} {mode : UInt8}
    (h : t.ms.Extends x) (hc : t.ms.readCursor ≤ t.ms.data.length)
    (hsize : mode = modeN ∨ mode = modeZ ∨ mode = modeF →
      t.ms.readCursor + size ≤ t.ms.data.length)
    (hnested : mode = modeF →
      accepts (openNested (window t.ms.data t.ms.readCursor size)) = true) :
    Uniform x (t.readPayload Z openNested i size mode)
      ((t.feed x).readPayload Z openNested i size mode) := by
  obtain ⟨data, hview, hdata⟩ := view_window hc
  obtain ⟨data', hview', hdata'⟩ := h.view_window hc
  rw [readPayload, hview, Exec.ok_bind, readPayload]
  change Uniform x _ ((t.ms.grow x).view >>= _)
  rw [hview', Exec.ok_bind]
  dsimp only
  -- a payload that has arrived is the same in both runs, and so is the state behind it
  have hboth : mode = modeN ∨ mode = modeZ ∨ mode = modeF →
      (∃ u u', data.subspan 0 size = .ok u ∧ data'.subspan 0 size = .ok u' ∧ u'.bytes = u.bytes) ∧
      data.load size = .ok (window t.ms.data t.ms.readCursor size) ∧
      data'.load size = .ok (window t.ms.data t.ms.readCursor size) := by
    intro hm
    obtain ⟨⟨u, hu, hbytes⟩, hload⟩ := hdata size (hsize hm)
    obtain ⟨⟨u', hu', hbytes'⟩, hload'⟩ := hdata' size (hsize hm)
    exact ⟨⟨u, u', hu, hu', hbytes'.trans hbytes.symm⟩, hload, hload'⟩
  have hmoved : mode = modeN ∨ mode = modeZ ∨ mode = modeF → ∀ out,
      Uniform x (.ok (.next { t with ms := skipRead t.ms size, step := .dataBlocks (i + 1) }
          out none))
        (.ok (.next { t.feed x with
          ms := skipRead (t.ms.grow x) size, step := .dataBlocks (i + 1) } out none)) := by
    intro hm out
    have hn := hsize hm
    rw [skipRead_advance h.data_fits hn, h.skipRead hn]
    exact .of_next rfl hn
  by_cases hN : mode = modeN
  · obtain ⟨⟨u, u', hu, hu', hbytes⟩, -⟩ := hboth (Or.inl hN)
    rw [if_pos hN, if_pos hN, hu, hu', Exec.ok_bind, Exec.ok_bind, hbytes]
    exact hmoved (Or.inl hN) _
  · rw [if_neg hN, if_neg hN]
    by_cases hZ : mode = modeZ
    · obtain ⟨-, hload, hload'⟩ := hboth (Or.inr (Or.inl hZ))
      rw [if_pos hZ, if_pos hZ]
      cases Z.init with
      | none => exact .of_stop rfl
      | some strm =>
          dsimp only
          rw [hload, hload', Exec.ok_bind, Exec.ok_bind]
          have hne := Z.drain_ne_outOfBounds decompressedBuffer strm
            (window t.ms.data t.ms.readCursor size)
          cases hdrain : Z.drain decompressedBuffer strm
              (window t.ms.data t.ms.readCursor size) with
          | error f =>
              rw [hdrain] at hne
              exact .of_error fun hf => hne (hf ▸ rfl)
          | ok r =>
              obtain ⟨outputs, completed⟩ := r
              rw [Exec.ok_bind, Exec.ok_bind]
              cases completed with
              | false => exact .of_stop rfl
              | true => exact hmoved (Or.inr (Or.inl hZ)) _
    · rw [if_neg hZ, if_neg hZ]
      by_cases hF : mode = modeF
      · obtain ⟨-, hload, hload'⟩ := hboth (Or.inr (Or.inr hF))
        rw [if_pos hF, if_pos hF, hload, hload', Exec.ok_bind, Exec.ok_bind]
        have haccepts := hnested hF
        cases hopen : openNested (window t.ms.data t.ms.readCursor size) with
        | error f =>
            rw [hopen] at haccepts
            cases haccepts
        | ok r =>
            obtain ⟨outputs, error⟩ := r
            rw [hopen] at haccepts
            cases error with
            | some e => cases haccepts
            | none =>
                rw [Exec.ok_bind, Exec.ok_bind]
                exact hmoved (Or.inr (Or.inr hF)) _
      · rw [if_neg hF, if_neg hF]
        exact .of_stop rfl

/-- A block that is held whole is held behind its mode. -/
theorem holdsBlock_cons {size : Nat} {mode : UInt8} {rest : Bytes}
    (h : holdsBlock openNested size (mode :: rest) = true) :
    (mode = modeN ∨ mode = modeZ ∨ mode = modeF → size ≤ rest.length) ∧
      (mode = modeF → accepts (openNested (rest.take size)) = true) := by
  rw [holdsBlock] at h
  constructor
  · intro hm
    split at h
    · exact of_decide_eq_true h
    · next hNZ =>
        have hF : mode = modeF := by
          rcases hm with hN | hZ | hF
          · exact absurd (Or.inl hN) hNZ
          · exact absurd (Or.inr hZ) hNZ
          · exact hF
        rw [if_pos hF, Bool.and_eq_true, decide_eq_true_iff] at h
        exact h.1
  · intro hF
    rw [hF, if_neg (by decide), if_pos rfl, Bool.and_eq_true] at h
    exact h.2

theorem readBlock_uniform {t : Transform} {x : Bytes} {i : Nat} {chunkInfo : ChunkInfo}
    (h : t.ms.Extends x) (hi : t.chunks[i]? = some chunkInfo)
    (hn : t.ms.readCursor + chunkInfo.compressedSize.toNat ≤ t.ms.data.length)
    (hcan : canRead t.ms chunkInfo.compressedSize.toNat = true)
    (hcan' : canRead (t.feed x).ms chunkInfo.compressedSize.toNat = true)
    (hholds : (digest (t.unread.take chunkInfo.compressedSize.toNat)).bytes =
      chunkInfo.checksum → holdsBlock openNested chunkInfo.compressedSize.toNat t.unread = true) :
    Uniform x (t.readBlock digest Z openNested i)
      ((t.feed x).readBlock digest Z openNested i) := by
  obtain ⟨data, hview, hdata⟩ := view_window (Nat.le_of_add_right_le hn)
  obtain ⟨data', hview', hdata'⟩ := h.view_window (Nat.le_of_add_right_le hn)
  obtain ⟨⟨u, hu, hbytes⟩, -⟩ := hdata _ hn
  obtain ⟨⟨u', hu', hbytes'⟩, -⟩ := hdata' _ hn
  have hi' : (t.feed x).chunks[i]? = some chunkInfo := hi
  rw [readBlock, hi, readBlock, hi']
  dsimp only
  rw [if_pos hcan, if_pos hcan', hview, Exec.ok_bind, hu, Exec.ok_bind, hbytes]
  change Uniform x _ ((t.ms.grow x).view >>= _)
  rw [hview', Exec.ok_bind, hu', Exec.ok_bind, hbytes']
  by_cases hsum : (digest (window t.ms.data t.ms.readCursor
      chunkInfo.compressedSize.toNat)).bytes = chunkInfo.checksum
  · rw [if_neg (not_not.mpr hsum), if_neg (not_not.mpr hsum)]
    have hblock := hholds hsum
    cases hunread : t.unread with
    | nil =>
        rw [hunread] at hblock
        cases hblock
    | cons mode rest =>
        rw [hunread] at hblock
        obtain ⟨hinside, haccepts⟩ := holdsBlock_cons hblock
        have hlen := congrArg List.length hunread
        rw [unread, List.length_drop, List.length_cons] at hlen
        have hn₁ : t.ms.readCursor + 1 ≤ t.ms.data.length := by omega
        have hmode : window t.ms.data t.ms.readCursor 1 = [mode] := by
          change t.unread.take 1 = [mode]
          rw [hunread]
          rfl
        have hrest : (t.ms.advance 1).data.drop (t.ms.advance 1).readCursor = rest := by
          change t.ms.data.drop (t.ms.readCursor + 1) = rest
          rw [← List.drop_drop]
          change t.unread.drop 1 = rest
          rw [hunread]
          rfl
        have hr := readInt_advance_big h.data_fits (by decide : 0 < 1) hn₁
        have hg := h.readInt_big (by decide : 0 < 1) hn₁
        have hbyte : UInt8.ofNat (beNat [mode]) = mode := by
          change UInt8.ofNat (mode.toNat + 256 * 0) = mode
          simp
        rw [hmode] at hr hg
        rw [hr, Exec.ok_bind]
        change Uniform x _ (readInt 1 (t.ms.grow x) .big >>= _)
        rw [hg, Exec.ok_bind]
        dsimp only
        rw [hbyte]
        refine readPayload_uniform (t := { t with ms := t.ms.advance 1 }) (h.advance 1) hn₁ ?_ ?_
        · intro hm
          change t.ms.readCursor + 1 + chunkInfo.compressedSize.toNat ≤ t.ms.data.length
          have hle := hinside hm
          omega
        · intro hF
          change accepts (openNested (window (t.ms.advance 1).data (t.ms.advance 1).readCursor
            chunkInfo.compressedSize.toNat)) = true
          rw [window, hrest]
          exact haccepts hF
  · rw [if_pos hsum, if_pos hsum]
    exact .of_stop rfl

/-- A buffer with more behind it passes every test it passed before. -/
theorem canRead_grow {s : GrowableMemoryStream} {x : Bytes} (h : s.Extends x)
    (hc : s.readCursor ≤ s.data.length) {n : Nat} (hn : n < 2 ^ 32) (hcan : canRead s n = true) :
    s.readCursor + n ≤ s.data.length ∧ canRead (s.grow x) n = true := by
  have hle := (canRead_iff_le h.data_fits hc hn).mp hcan
  refine ⟨hle, (canRead_iff_le ?_ ?_ hn).mpr ?_⟩
  · rw [h.grow_length]
    exact h.fits
  · rw [h.grow_readCursor, h.grow_length]
    omega
  · rw [h.grow_readCursor, h.grow_length]
    omega

/-- Where what it reads has arrived, a step waits or does not depend on the
input to come. -/
theorem next_uniform {t : Transform} {x : Bytes} (h : t.ms.Extends x)
    (hc : t.ms.readCursor ≤ t.ms.data.length)
    (hbuffered : t.buffered digest openNested = true) :
    t.next digest Z openNested = .ok .wait ∨
      Uniform x (t.next digest Z openNested) ((t.feed x).next digest Z openNested) := by
  have hstep' : (t.feed x).step = t.step := rfl
  rw [buffered] at hbuffered
  rw [next, next, hstep']
  cases hstep : t.step with
  | header =>
      dsimp only
      cases hcan : canRead t.ms 8 with
      | false =>
          left
          rw [readHeader, hcan, if_neg Bool.false_ne_true]
      | true =>
          right
          obtain ⟨hn, hcan'⟩ := canRead_grow h hc (by decide) hcan
          exact readHeader_uniform h hn hcan hcan'
  | chunkHeaders =>
      rw [hstep] at hbuffered
      dsimp only at hbuffered ⊢
      cases hcan : canRead t.ms t.headerSize.toNat with
      | false =>
          left
          rw [readChunkHeaders, hcan, if_neg Bool.false_ne_true]
      | true =>
          right
          rw [hcan, Bool.not_true, Bool.false_or] at hbuffered
          obtain ⟨-, hcan'⟩ := canRead_grow h hc t.headerSize.toNat_lt hcan
          exact readChunkHeaders_uniform h hcan hcan' hbuffered
  | dataBlocks i =>
      rw [hstep] at hbuffered
      dsimp only at hbuffered ⊢
      cases hi : t.chunks[i]? with
      | none =>
          left
          rw [readBlock, hi]
      | some chunkInfo =>
          rw [hi] at hbuffered
          dsimp only at hbuffered
          cases hcan : canRead t.ms chunkInfo.compressedSize.toNat with
          | false =>
              left
              rw [readBlock, hi]
              dsimp only
              rw [hcan, if_neg Bool.false_ne_true]
          | true =>
              right
              rw [hcan, Bool.not_true, Bool.false_or, Bool.or_eq_true,
                decide_eq_true_iff] at hbuffered
              obtain ⟨hn, hcan'⟩ := canRead_grow h hc chunkInfo.compressedSize.toNat_lt hcan
              refine readBlock_uniform h hi hn hcan hcan' fun hsum => ?_
              exact hbuffered.resolve_left (not_not.mpr hsum)

end Blocks

/-! ## Calls on the pieces of an input -/

section Calls

variable (digest : Bytes → Digest) (Z : Inflate)

/-- The write cursor is at the end of the buffer. -/
def Appends (t : Transform) : Prop := t.ms.writeCursor = t.ms.data.length

theorem feed_eq {t : Transform} (h : t.Appends) (x : Bytes) :
    t.feed x = { t with
      ms := ⟨t.ms.data ++ x, t.ms.readCursor, t.ms.data.length + x.length⟩ } := by
  rw [feed, GrowableMemoryStream.write, writeImpl_append h]

theorem appends_feed {t : Transform} (x : Bytes) (h : t.Appends) : (t.feed x).Appends := by
  rw [feed_eq h]
  exact (List.length_append ..).symm

theorem feed_nil {t : Transform} (h : t.Appends) : t.feed [] = t := by
  obtain ⟨chunks, step, headerSize, ⟨data, readCursor, writeCursor⟩, engine⟩ := t
  have hw : writeCursor = data.length := h
  rw [feed_eq h, hw]
  simp

theorem feed_feed {t : Transform} (x y : Bytes) (h : t.Appends) :
    (t.feed x).feed y = t.feed (x ++ y) := by
  rw [feed_eq (appends_feed x h), feed_eq h, feed_eq h]
  simp [Nat.add_assoc]

/-- No call moves the write cursor or touches the buffer after its input. -/
theorem appends_run {openNested : Bytes → Exec (List Bytes × Option ParseError)} {t : Transform}
    {r : Outcome} (h : t.Appends) (hr : (machine digest Z openNested).run t = .ok r) :
    r.state.Appends := by
  have hbuffer := (machine digest Z openNested).run_preserves
    (R := fun t t' => t.ms.SameBuffer t'.ms) (fun t => .refl _) (fun h h' => h.trans h')
    (fun hstep => (next_permits hstep).1) (fun hstep => (next_permits hstep).buffer) t hr
  rw [Appends, hbuffer.1, hbuffer.2]
  exact h

/-- The read cursor is inside the buffer and `x` can be appended. -/
def Ready (x : Bytes) (t : Transform) : Prop :=
  t.ms.Extends x ∧ t.ms.readCursor ≤ t.ms.data.length

theorem ready_feed (t : Transform) (x y : Bytes) (h : Ready (x ++ y) t) : Ready y (t.feed x) := by
  obtain ⟨⟨happends, hfits⟩, hc⟩ := h
  rw [List.length_append] at hfits
  rw [feed_eq happends]
  refine ⟨⟨(List.length_append ..).symm, ?_⟩, ?_⟩
  · change (t.ms.data ++ x).length + y.length < _
    rw [List.length_append]
    omega
  · change t.ms.readCursor ≤ (t.ms.data ++ x).length
    rw [List.length_append]
    omega

theorem ready_next {openNested : Bytes → Exec (List Bytes × Option ParseError)}
    {t t' : Transform} {y : Bytes} {out : List Bytes} {e : Option ParseError}
    (hbuffered : t.buffered digest openNested = true) (h : Ready y t)
    (hnext : t.next digest Z openNested = .ok (.next t' out e)) : Ready y t' := by
  have hbuffer := (next_permits hnext).1
  rcases next_uniform (Z := Z) h.1 h.2 hbuffered with hwait | huniform
  · rw [hwait] at hnext
    cases hnext
  · refine ⟨⟨?_, ?_⟩, (huniform.next hnext).2⟩
    · rw [hbuffer.1, hbuffer.2, h.1.appends]
    · rw [hbuffer.1]
      exact h.1.fits

theorem stable_of_buffered {openNested : Bytes → Exec (List Bytes × Option ParseError)}
    {t : Transform} {y : Bytes} (hbuffered : t.buffered digest openNested = true)
    (h : Ready y t) : (machine digest Z openNested).Stable feed y t := by
  intro hwait
  rcases next_uniform (Z := Z) h.1 h.2 hbuffered with hwait' | huniform
  · exact absurd hwait' hwait
  · exact ⟨huniform.fed, fun t' out e hnext => (huniform.next hnext).1⟩

theorem inside_of_buffered {openNested : Bytes → Exec (List Bytes × Option ParseError)}
    {t : Transform} {y : Bytes} (hbuffered : t.buffered digest openNested = true)
    (h : Ready y t) : (machine digest Z openNested).step t ≠ .error .outOfBounds := by
  rcases next_uniform (Z := Z) h.1 h.2 hbuffered with hwait | huniform
  · intro hstep
    exact nomatch hwait.symm.trans hstep
  · exact huniform.inside

/-- The sequence of calls is the machine fed piece by piece. -/
theorem parseAll_result (pieces : List Bytes) :
    ∀ t : Transform, (t.parseAll digest Z pieces).map Prod.snd =
      (machine digest Z (openNested digest Z)).feedAll feed t pieces := by
  induction pieces with
  | nil => exact fun _ => rfl
  | cons data pieces ih =>
      intro t
      rw [parseAll, parse, Machine.feedAll]
      cases (machine digest Z (openNested digest Z)).run (t.feed data) with
      | error f => rfl
      | ok r =>
          rw [Exec.ok_bind, Exec.ok_bind]
          dsimp only [Except.bind]
          cases r.error with
          | some e => rfl
          | none =>
              dsimp only
              rw [← ih]
              cases r.state.parseAll digest Z pieces with
              | error f => rfl
              | ok r' => rfl

/-- Every call reports the size of its piece. -/
theorem parseAll_reports (pieces : List Bytes) :
    ∀ {t : Transform} {reports : List Nat} {r : Outcome},
      t.parseAll digest Z pieces = .ok (reports, r) →
        reports = (pieces.take reports.length).map List.length := by
  induction pieces with
  | nil =>
      intro t reports r h
      cases h
      rfl
  | cons data pieces ih =>
      intro t reports r h
      rw [parseAll, parse] at h
      obtain ⟨⟨reported, r₁⟩, hparse, h⟩ := Exec.bind_eq_ok.mp h
      obtain ⟨r₂, -, hparse⟩ := Exec.bind_eq_ok.mp hparse
      cases hparse
      dsimp only at h
      cases herror : r₁.error with
      | some e =>
          rw [herror] at h
          cases h
          rfl
      | none =>
          rw [herror] at h
          obtain ⟨⟨reports', rest⟩, hrest, h⟩ := Exec.bind_eq_ok.mp h
          cases h
          rw [List.length_cons, List.take_succ_cons, List.map_cons, ← ih hrest]

/-- When in every call each step is taken with the bytes it reads buffered,
the calls on the pieces stay inside the buffer and end like one call on the
whole input: the same bytes handed out, the same error and the same step.  The
feedback adds up to the bytes supplied. -/
theorem parseAll_eq_parse (d : Buffer) (pieces : List Bytes) (hcut : pieces.flatten = d.bytes)
    (hbuffered : (machine digest Z (openNested digest Z)).CallsAll feed
      (fun _ t => t.buffered digest (openNested digest Z) = true) fresh pieces) :
    fresh.parseAll digest Z pieces ≠ .error .outOfBounds ∧
    (fresh.parseAll digest Z pieces).map (fun r => seen r.2) =
      (fresh.parse digest Z d.bytes).map (fun r => seen r.2) ∧
    ∀ reports r, fresh.parseAll digest Z pieces = .ok (reports, r) →
      reports.sum = (pieces.take reports.length).flatten.length := by
  have hready : Ready pieces.flatten fresh := by
    rw [hcut]
    exact ⟨⟨rfl, by change 0 + _ < _; rw [Nat.zero_add]; exact d.fits⟩, Nat.le_refl _⟩
  have hresult := parseAll_result digest Z pieces fresh
  have hinside := Machine.CallsAll.imp _ feed Ready ready_feed
    (fun t t' y out e => ready_next digest Z)
    (fun y t => inside_of_buffered digest Z) pieces fresh hready hbuffered
  have hstable := Machine.CallsAll.imp _ feed Ready ready_feed
    (fun t t' y out e => ready_next digest Z)
    (fun y t => stable_of_buffered digest Z) pieces fresh hready hbuffered
  have heq := (machine digest Z (openNested digest Z)).feedAll_eq_run feed Transform.step
    Appends (fun _ => feed_nil) (fun _ => feed_feed) (fun _ _ => rfl) (fun _ => appends_feed)
    (fun _ _ => appends_run digest Z) pieces fresh rfl rfl hstable
  have hsame := (machine digest Z (openNested digest Z)).feedAll_ne_error feed pieces fresh hinside
  rw [← hresult] at heq hsame
  rw [hcut] at heq
  refine ⟨?_, ?_, ?_⟩
  · intro h
    rw [h] at hsame
    exact hsame rfl
  · rw [parse]
    cases hall : fresh.parseAll digest Z pieces with
    | error f =>
        rw [hall] at heq
        cases hrun : (machine digest Z (openNested digest Z)).run (fresh.feed d.bytes) with
        | error f' =>
            rw [hrun] at heq
            cases heq
            rfl
        | ok r => rw [hrun] at heq; cases heq
    | ok a =>
        rw [hall] at heq
        cases hrun : (machine digest Z (openNested digest Z)).run (fresh.feed d.bytes) with
        | error f' => rw [hrun] at heq; cases heq
        | ok r =>
            rw [hrun] at heq
            simp only [Except.map, Except.ok.injEq, Result.observe, Prod.mk.injEq] at heq
            obtain ⟨hout, herror, hstep⟩ := heq
            rw [Exec.ok_bind]
            simp only [Except.map, Except.ok.injEq, seen, Prod.mk.injEq]
            exact ⟨by rw [hout], herror, hstep⟩
  · intro reports r h
    have hreports := parseAll_reports digest Z pieces h
    rw [List.length_flatten, ← hreports]

end Calls

/-- A container with one chunk of nine bytes.  Its table has the digest of the
first eight, the bytes the decoder takes it of. -/
def sampleInput : Buffer where
  bytes := beBytes 4 blteMagic ++ beBytes 4 36 ++ beBytes 4 0x0F000001 ++ beBytes 4 9 ++
    beBytes 4 8 ++ (Digest.leading [modeN, 1, 2, 3, 4, 5, 6, 7]).bytes ++
    [modeN, 1, 2, 3, 4, 5, 6, 7, 8]
  fits := by decide

/-- The sample cut inside its header. -/
theorem parseAll_sample :
    fresh.parseAll Digest.leading Inflate.copying
        [sampleInput.bytes.take 10, sampleInput.bytes.drop 10] ≠ .error .outOfBounds ∧
    (fresh.parseAll Digest.leading Inflate.copying
        [sampleInput.bytes.take 10, sampleInput.bytes.drop 10]).map (fun r => seen r.2) =
      (fresh.parse Digest.leading Inflate.copying sampleInput.bytes).map (fun r => seen r.2) ∧
    ∀ reports r, fresh.parseAll Digest.leading Inflate.copying
        [sampleInput.bytes.take 10, sampleInput.bytes.drop 10] = .ok (reports, r) →
      reports.sum = ([sampleInput.bytes.take 10, sampleInput.bytes.drop 10].take
        reports.length).flatten.length :=
  parseAll_eq_parse Digest.leading Inflate.copying sampleInput
    [sampleInput.bytes.take 10, sampleInput.bytes.drop 10] (by decide) (by decide)

/-- The sample cut before its last byte: the payload is read past the buffered
bytes.  One call on the whole sample decodes it. -/
theorem parseAll_cut_last :
    fresh.parseAll Digest.leading Inflate.copying
        [sampleInput.bytes.take 44, sampleInput.bytes.drop 44] = .error .outOfBounds ∧
    (fresh.parse Digest.leading Inflate.copying sampleInput.bytes).map (fun r => seen r.2) =
      .ok ([1, 2, 3, 4, 5, 6, 7, 8], none, .dataBlocks 1) := by
  decide

end Transform

end Tactmon
