import Tactmon.Beast.Chunking
import Tactmon.Beast.Refinement
import Tactmon.Io.Truncation

/-!
# The streaming decoder on a part of an archive

What the decoder has come to when an archive has arrived up to some byte, or
when more than the archive has arrived.

`Reached` lists the places: in front of the header, in front of the chunk table,
and in front of a chunk, with the contents of the chunks before it handed out.
A step goes from one place to the next, and a step that sets an error stays
where it is (`Progress.next`).  That includes the block whose last byte has not
arrived: the decoder takes it for complete, and then either rejects it or reads
past the end of its buffer.

So every run that ends hands out whole chunks (`Progress.run`), and the output
of all calls is always the beginning of the contents (`Progress.output_prefix`).
A run that ends without an error, with the whole archive in the buffer, has
handed out all of the contents.  The chunk table is an exception: the decoder
reads it when as many bytes have arrived behind the header size as the whole
header has, which is eight bytes too many.
-/

namespace Tactmon

open Binary Cxx Zlib Resumable CursorReadable

namespace Archive

variable {Z : Inflate} (digest : Bytes → Digest) (a : Archive Z)

/-! ## Places -/

/-- The magic and the header size. -/
def lead : Bytes := beBytes 4 blteMagic ++ beBytes 4 (12 + 24 * a.chunks.length)

/-- The rest of the header. -/
def tableBytes : Bytes :=
  beBytes 4 (0x0F000000 ||| a.chunks.length) ++ a.chunks.flatMap (entry digest)

/-- Chunks in a row. -/
def bodies (chunks : List (Chunk Z)) : Bytes := (chunks.map Chunk.body).flatten

/-- The table entry of a chunk as the streaming decoder stores it. -/
def info (chunk : Chunk Z) : ChunkInfo :=
  ⟨.ofNat chunk.body.length - 1, .ofNat (chunk.content.length % 2 ^ 32),
    (digest chunk.body).bytes⟩

/-- Where a decoder is that has read the archive up to `left`, and has handed out
`out`. -/
inductive Reached : Transform → Bytes → Bytes → Prop where
  | header {t : Transform} {left : Bytes} :
      t.step = .header → Unread t.ms left left → Reached t left []
  | chunkHeaders {t : Transform} {left : Bytes} :
      t.step = .chunkHeaders → t.headerSize.toNat = 12 + 24 * a.chunks.length →
      Unread t.ms (a.lead ++ left) left → Reached t left []
  | dataBlocks {t : Transform} {left : Bytes} (front back : List (Chunk Z)) :
      t.step = .dataBlocks front.length → a.chunks = front ++ back →
      t.chunks = a.chunks.map (info digest) →
      Unread t.ms (a.header digest ++ bodies front ++ left) left →
      Reached t left (front.flatMap Chunk.content)

/-- These bytes are the beginning of the archive, or the archive with more behind
it. -/
def Begins (data : Bytes) : Prop := ∃ more, data <+: a.bytes digest ++ more

/-- The decoder was fed from the archive and is at one of the places. -/
structure Progress (t : Transform) (out : Bytes) : Prop where
  reached : ∃ left, Reached digest a t left out
  held : a.Begins digest t.ms.data
  appends : t.Appends

/-- The archive has arrived, and enough of it is behind the header. -/
structure Arrived (t : Transform) : Prop where
  whole : a.bytes digest <+: t.ms.data
  long : 8 ≤ (bodies a.chunks).length

variable {digest a}

theorem header_eq : a.header digest = a.lead ++ a.tableBytes digest := by
  rw [header, lead, tableBytes, List.append_assoc]

theorem bytes_eq : a.bytes digest = a.lead ++ (a.tableBytes digest ++ bodies a.chunks) := by
  rw [bytes, header_eq, List.append_assoc, bodies]

theorem bytes_split {front back : List (Chunk Z)} (h : a.chunks = front ++ back) :
    a.bytes digest = a.header digest ++ bodies front ++ bodies back := by
  rw [bytes, h, List.map_append, List.flatten_append, List.append_assoc]
  rfl

theorem lead_length : a.lead.length = 8 := by
  rw [lead, List.length_append, beBytes_length, beBytes_length]

theorem entries_length (chunks : List (Chunk Z)) :
    (chunks.flatMap (entry digest)).length = 24 * chunks.length := by
  induction chunks with
  | nil => rfl
  | cons chunk chunks ih =>
      rw [List.flatMap_cons, List.length_append, ih, entry, List.length_append,
        List.length_append, beBytes_length, beBytes_length, (digest chunk.body).size_eq,
        List.length_cons]
      omega

theorem tableBytes_length : (a.tableBytes digest).length = 4 + 24 * a.chunks.length := by
  rw [tableBytes, List.length_append, beBytes_length, entries_length]

theorem begins_of_prefix {data : Bytes} (h : data <+: a.bytes digest) : a.Begins digest data :=
  ⟨[], h.trans (List.prefix_append _ _)⟩

theorem begins_of_whole {data : Bytes} (h : a.bytes digest <+: data) : a.Begins digest data := by
  obtain ⟨more, rfl⟩ := h
  exact ⟨more, List.prefix_rfl⟩

/-- What the buffer has is what was read and what is left. -/
theorem Reached.data {t : Transform} {left out : Bytes} (h : Reached digest a t left out) :
    ∃ consumed, t.ms.data = consumed ++ left := by
  cases h with
  | header _ hs => exact ⟨[], hs.choose_spec.1.1⟩
  | chunkHeaders _ _ hs => exact ⟨a.lead, hs.choose_spec.1.1⟩
  | dataBlocks front back _ _ _ hs => exact ⟨_, hs.choose_spec.1.1⟩

/-- What has been handed out is the beginning of the contents. -/
theorem Progress.output_prefix {t : Transform} {out : Bytes} (h : a.Progress digest t out) :
    out <+: a.contents := by
  obtain ⟨left, hreached⟩ := h.reached
  cases hreached with
  | header => exact List.nil_prefix
  | chunkHeaders => exact List.nil_prefix
  | dataBlocks front back _ hchunks =>
      rw [contents, hchunks, List.flatMap_append]
      exact List.prefix_append _ _

theorem progress_fresh : a.Progress digest .fresh [] where
  reached := ⟨[], .header rfl ⟨0, ⟨rfl, rfl, by decide⟩, rfl, rfl⟩⟩
  held := begins_of_prefix List.nil_prefix
  appends := rfl

/-! ## Feeding -/

theorem unread_feed {t : Transform} {b left x : Bytes} (h : Unread t.ms b left)
    (happends : t.Appends) (hfit : (b ++ x).length < 2 ^ 63) :
    Unread (t.feed x).ms (b ++ x) (left ++ x) := by
  obtain ⟨c, ⟨hdata, hcursor, -⟩, hlength, hdrop⟩ := h
  rw [Transform.feed_eq happends]
  refine ⟨c, ⟨by rw [hdata], hcursor, hfit⟩, ?_, ?_⟩
  · rw [List.length_append, List.length_append]
    omega
  · rw [List.drop_append_of_le_length (by omega), hdrop]

/-- More of the archive arrives. -/
theorem Progress.feed {t : Transform} {out : Bytes} (h : a.Progress digest t out) {x : Bytes}
    (hx : a.Begins digest (t.ms.data ++ x)) (hlength : (t.ms.data ++ x).length < 2 ^ 63) :
    a.Progress digest (t.feed x) out where
  reached := by
    obtain ⟨left, hreached⟩ := h.reached
    obtain ⟨consumed, hdata⟩ := hreached.data
    have hfit : ((consumed ++ left) ++ x).length < 2 ^ 63 := hdata ▸ hlength
    refine ⟨left ++ x, ?_⟩
    cases hreached with
    | header hstep hs' =>
        have hfit' : (left ++ x).length < 2 ^ 63 := by
          rw [List.append_assoc, List.length_append] at hfit
          omega
        exact .header hstep (unread_feed hs' h.appends hfit')
    | chunkHeaders hstep hsize hs' =>
        refine .chunkHeaders hstep hsize ?_
        rw [← List.append_assoc]
        exact unread_feed hs' h.appends (hs'.choose_spec.1.1.symm.trans hdata ▸ hfit)
    | dataBlocks front back hstep hchunks htable hs' =>
        refine .dataBlocks front back hstep hchunks htable ?_
        rw [← List.append_assoc]
        exact unread_feed hs' h.appends (hs'.choose_spec.1.1.symm.trans hdata ▸ hfit)
  held := by
    rw [Transform.feed_eq h.appends]
    exact hx
  appends := Transform.appends_feed x h.appends

/-! ## One step -/

/-- What is left begins with the text, once it is long enough. -/
theorem prefix_cases {left text rest : Bytes} (h : left <+: text ++ rest)
    (hle : text.length ≤ left.length) : ∃ left', left = text ++ left' ∧ left' <+: rest := by
  obtain ⟨left', rfl⟩ := List.prefix_of_prefix_length_le (List.prefix_append text rest) h hle
  exact ⟨left', rfl, (List.prefix_append_right_inj text).mp h⟩

variable (digest a) in
/-- What a step from such a place leaves.  It waits only for bytes that have not
arrived. -/
def Stays (t : Transform) (out : Bytes) : Exec Transform.Action → Prop
  | .error _ => True
  | .ok .wait => a.Arrived digest t → out = a.contents
  | .ok (.stop t' o _) => o = [] ∧ ∃ left, Reached digest a t' left out
  | .ok (.next t' o e) => e = none ∧ ∃ left, Reached digest a t' left (out ++ o.flatten)

theorem stays_header {t : Transform} {left more : Bytes} (hs : Unread t.ms left left)
    (hleft : left <+: a.bytes digest ++ more) : a.Stays digest t [] t.readHeader := by
  rw [Transform.readHeader]
  by_cases hcan : canRead t.ms 8 = true
  · rw [if_pos hcan]
    have hlong := (hs.canRead_iff (by decide)).mp hcan
    rw [bytes_eq, List.append_assoc] at hleft
    obtain ⟨left', rfl, -⟩ := prefix_cases hleft (lead_length ▸ hlong)
    have hcount := a.count_lt
    have hs₀ : Unread t.ms (a.lead ++ left') (leBytes 4 blteSignature ++
        (beBytes 4 (12 + 24 * a.chunks.length) ++ left')) := by
      have hsplit : a.lead ++ left' = leBytes 4 blteSignature ++
          (beBytes 4 (12 + 24 * a.chunks.length) ++ left') := by
        rw [lead, List.append_assoc]
        rfl
      exact hsplit ▸ hs
    obtain ⟨ms₁, hr₁, hs₁⟩ := readInt_leBytes (by decide) hs₀
    obtain ⟨ms₂, hr₂, hs₂⟩ := readInt_beBytes (by decide) (by omega) hs₁
    rw [hr₁, Exec.ok_bind]
    dsimp only
    rw [if_neg (not_not.mpr rfl), hr₂, Exec.ok_bind]
    refine ⟨rfl, left', .chunkHeaders rfl ?_ hs₂⟩
    exact UInt32.toNat_ofNat_of_lt' (show 12 + 24 * a.chunks.length < 2 ^ 32 by omega)
  · rw [if_neg hcan]
    intro harrived
    have hlength := harrived.whole.length_le
    rw [hs.choose_spec.1.1, bytes_eq, List.length_append, lead_length] at hlength
    exact absurd ((hs.canRead_iff (by decide)).mpr (by omega)) hcan

theorem blocksOf_info (chunks : List (Chunk Z)) :
    ∀ h, (blocksOf digest chunks h).map Block.info = chunks.map (info digest) := by
  induction chunks with
  | nil => exact fun _ => rfl
  | cons chunk chunks ih =>
      intro h
      rw [blocksOf, List.map_cons, ih, List.map_cons]
      rfl

variable (digest a) in
include digest in
/-- The field of the flags and the chunk count, taken apart. -/
theorem flagsChunkCount_parts :
    0x0F000000 ||| a.chunks.length < 256 ^ 4 ∧
      ((0x0F000000 ||| a.chunks.length) &&& 0xFF000000) >>> 24 = 0xF ∧
      (0x0F000000 ||| a.chunks.length) &&& 0x00FFFFFF = a.chunks.length := by
  have hlength : (a.frame digest).blocks.length = a.chunks.length :=
    blocksOf_length digest a.chunks a.size_lt
  have hfield : (a.frame digest).flagsChunkCount = 0x0F000000 ||| a.chunks.length := by
    rw [Frame.flagsChunkCount, hlength]
  have hsum := (a.frame digest).flagsChunkCount_eq
  have hcount := a.count_lt
  rw [hlength] at hsum
  rw [← hfield]
  refine ⟨(a.frame digest).flagsChunkCount_lt, ?_, ?_⟩
  · rw [Nat.shiftRight_and_distrib, Nat.shiftRight_eq_div_pow, hsum,
      show (0x0F000000 + a.chunks.length) / 2 ^ 24 = 0xF by omega]
    rfl
  · rw [(a.frame digest).flagsChunkCount_and, hlength]

/-- The table is read when as many bytes are left as the whole header has. -/
theorem stays_chunkHeaders {t : Transform} {left more : Bytes} (hsome : a.chunks ≠ [])
    (hsize : t.headerSize.toNat = 12 + 24 * a.chunks.length)
    (hs : Unread t.ms (a.lead ++ left) left)
    (hleft : left <+: a.tableBytes digest ++ (bodies a.chunks ++ more)) :
    a.Stays digest t [] t.readChunkHeaders := by
  have hcount := a.count_lt
  rw [Transform.readChunkHeaders]
  by_cases hcan : canRead t.ms t.headerSize.toNat = true
  · rw [if_pos hcan]
    have hlong := (hs.canRead_iff (by omega)).mp hcan
    obtain ⟨left', rfl, -⟩ := prefix_cases hleft (by rw [tableBytes_length]; omega)
    have hcount₀ : a.chunks.length ≠ 0 := fun hnone => hsome (List.length_eq_zero_iff.mp hnone)
    obtain ⟨hfield, hflags, hchunkCount⟩ := flagsChunkCount_parts digest a
    have hs₀ : Unread t.ms (a.lead ++ (a.tableBytes digest ++ left'))
        (beBytes 4 (0x0F000000 ||| a.chunks.length) ++
          (table (blocksOf digest a.chunks a.size_lt) ++ left')) := by
      rw [table_blocksOf, ← List.append_assoc (beBytes 4 _), ← tableBytes]
      exact hs
    obtain ⟨ms₁, hr₁, hs₁⟩ := readInt_beBytes (by decide) hfield hs₀
    obtain ⟨engine, ms₂, hr₂, hs₂⟩ := Transform.readChunkInfos_blocks _ left'
      (blocksOf digest a.chunks a.size_lt) ms₁
      (t.engine.updateInt 4 (byteswap 4 (0x0F000000 ||| a.chunks.length))) hs₁
    rw [blocksOf_length, blocksOf_info] at hr₂
    rw [hr₁, Exec.ok_bind]
    dsimp only
    rw [hflags, hchunkCount, if_neg (by simp [hcount₀]), hr₂, Exec.ok_bind]
    refine ⟨rfl, left', .dataBlocks [] a.chunks rfl rfl rfl ?_⟩
    rw [header_eq]
    simpa [bodies] using hs₂
  · rw [if_neg hcan]
    intro harrived
    have hwhole := harrived.whole
    rw [hs.choose_spec.1.1, bytes_eq, List.prefix_append_right_inj] at hwhole
    have hlength := hwhole.length_le
    have hlong := harrived.long
    rw [List.length_append, tableBytes_length] at hlength
    exact absurd ((hs.canRead_iff (by omega)).mpr (by omega)) hcan

/-- A block without its last byte is rejected, or read past its end. -/
theorem readBlock_short {t : Transform} {b left : Bytes} {i : Nat} {chunk : Chunk Z}
    (openNested : Bytes → Exec (List Bytes × Option ParseError))
    (hi : t.chunks[i]? = some (info digest chunk)) (hlt : chunk.body.length < 2 ^ 32)
    (hs : Unread t.ms b left) (hleft : left = chunk.body.dropLast) :
    (∃ f, t.readBlock digest Z openNested i = .error f) ∨
      ∃ ms e, t.readBlock digest Z openNested i = .ok (.stop { t with ms } [] e) ∧
        Unread ms b left := by
  have hbody : chunk.body ≠ [] := by
    cases chunk <;> exact List.cons_ne_nil _ _
  have hpos := List.length_pos_iff.mpr hbody
  have hlength : left.length = chunk.body.length - 1 := by
    rw [hleft, List.length_dropLast]
  have hsize : (info digest chunk).compressedSize.toNat = left.length := by
    rw [hlength]
    exact (block digest chunk chunk.body hlt).info_size hbody
  obtain ⟨data, hview, hmem, hdata⟩ := Transform.view_unread hs
  obtain ⟨u, hu, -, -⟩ := Span.subspan_of_le (by omega : 0 + left.length ≤ data.size)
  have hcan : canRead t.ms left.length = true :=
    (hs.canRead_iff (by omega)).mpr (Nat.le_refl _)
  rw [Transform.readBlock, hi]
  dsimp only
  rw [hsize, if_pos hcan, hview, Exec.ok_bind, hu, Exec.ok_bind]
  by_cases hsum : (digest u.bytes).bytes ≠ (info digest chunk).checksum
  · rw [if_pos hsum]
    exact .inr ⟨t.ms, .digest, rfl, hs⟩
  · rw [if_neg hsum]
    cases left with
    | nil =>
        -- there is no mode byte to read
        obtain ⟨c, hrep, hc, -⟩ := hs
        rw [List.length_nil, Nat.add_zero] at hc
        have hend : Rep t.ms b (min c b.length) := by
          rw [hc, Nat.min_self, ← hc]
          exact hrep
        obtain ⟨ms, hread, hms⟩ := readInt_big_of_not_cut (by decide) hend
          (fun hcut => absurd hcut.1 (by omega) : ¬ Cut b c 1)
        have hwindow : window b c 1 = [] := by
          rw [window, hc, List.drop_length, List.take_nil]
        rw [Nat.min_eq_right (by omega)] at hms
        have hs' : Unread ms b [] := ⟨b.length, hms, by simp, by simp⟩
        obtain ⟨data', hview', -⟩ := Transform.view_unread hs'
        refine .inr ⟨ms, .encodingMode, ?_, hs'⟩
        rw [hread, Exec.ok_bind, hwindow, Transform.readPayload, hview', Exec.ok_bind]
        rfl
    | cons mode left =>
        left
        have hmode : beBytes 1 mode.toNat = [mode] := by
          rw [beBytes, leBytes, leBytes, UInt8.ofNat_toNat]
          rfl
        obtain ⟨ms, hread, hms⟩ := readInt_beBytes (by decide) mode.toNat_lt
          (hmode ▸ hs : Unread t.ms b (beBytes 1 mode.toNat ++ left))
        obtain ⟨data', hview', hmem', hdata'⟩ := Transform.view_unread hms
        rw [hread, Exec.ok_bind, UInt8.ofNat_toNat, Transform.readPayload, hview', Exec.ok_bind]
        dsimp only
        cases chunk with
        | plain raw =>
            have hN : mode = modeN := by
              cases raw with
              | nil => cases hleft
              | cons c raw => exact (List.cons.inj hleft).1
            have hshort : ¬ 0 + (mode :: left).length ≤ data'.size := by
              rw [hdata', List.length_cons]
              omega
            refine ⟨.outOfBounds, ?_⟩
            rw [if_pos hN, Span.subspan, dif_neg hshort]
            rfl
        | deflated z content complete =>
            have hZ : mode = modeZ := by
              cases z with
              | nil => cases hleft
              | cons c z => exact (List.cons.inj hleft).1
            obtain ⟨strm, outputs, hinit, -, -⟩ := Inflate.drain_decodes decompressedBuffer complete
            refine ⟨.outOfBounds, ?_⟩
            rw [if_neg (by rw [hZ]; decide), if_pos hZ, hinit]
            dsimp only
            rw [Span.load_of_lt (by rw [hmem', List.length_cons]; omega)]
            rfl

/-- A block whose last byte has arrived is rejected, or handed out. -/
theorem stays_dataBlock {t : Transform} {left more : Bytes} (front back : List (Chunk Z))
    {openNested : Bytes → Exec (List Bytes × Option ParseError)}
    (hstep : t.step = .dataBlocks front.length) (hchunks : a.chunks = front ++ back)
    (htable : t.chunks = a.chunks.map (info digest))
    (hs : Unread t.ms (a.header digest ++ bodies front ++ left) left)
    (hleft : left <+: bodies back ++ more) :
    a.Stays digest t (front.flatMap Chunk.content)
      (t.readBlock digest Z openNested front.length) := by
  have hentry : t.chunks[front.length]? = back.head?.map (info digest) := by
    rw [htable, hchunks, List.getElem?_map, List.getElem?_append_right (Nat.le_refl _),
      Nat.sub_self, List.head?_eq_getElem?]
  have hhere : Reached digest a t left (front.flatMap Chunk.content) :=
    .dataBlocks front back hstep hchunks htable hs
  cases back with
  | nil =>
      have hwait : t.readBlock digest Z openNested front.length = .ok .wait := by
        rw [Transform.readBlock, hentry]
        rfl
      rw [hwait]
      intro _
      rw [contents, hchunks, List.append_nil]
  | cons chunk back =>
      have hmem : chunk ∈ a.chunks := hchunks ▸ List.mem_append_right _ List.mem_cons_self
      have hlt := a.size_lt chunk hmem
      have hi : t.chunks[front.length]? = some (info digest chunk) := hentry
      have hbodies : bodies (chunk :: back) = chunk.body ++ bodies back := List.flatten_cons
      obtain ⟨mode, payload, hbody, hmode⟩ : ∃ mode payload, chunk.body = mode :: payload ∧
          (mode = modeN ∨ mode = modeZ) := by
        cases chunk with
        | plain raw => exact ⟨modeN, raw, rfl, .inl rfl⟩
        | deflated z content complete => exact ⟨modeZ, z, rfl, .inr rfl⟩
      have hne : chunk.body ≠ [] := hbody ▸ List.cons_ne_nil _ _
      rw [hbodies, List.append_assoc] at hleft
      by_cases hall : chunk.body.length ≤ left.length
      · obtain ⟨left', rfl, hrest⟩ := prefix_cases hleft hall
        by_cases hintact : (block digest chunk chunk.body hlt).Intact digest
        · obtain ⟨ms, outputs, hread, hout, hms⟩ :=
            Transform.readBlock_intact openNested hs hbody hmode hi hintact chunk.open_body
          rw [hread]
          refine ⟨rfl, left', ?_⟩
          have hfront : front.flatMap Chunk.content ++ outputs.flatten =
              (front ++ [chunk]).flatMap Chunk.content := by
            rw [List.flatMap_append, List.flatMap_singleton, hout]
          have hread' : a.header digest ++ bodies front ++ (chunk.body ++ left') =
              a.header digest ++ bodies (front ++ [chunk]) ++ left' := by
            simp [bodies]
          rw [hfront]
          refine .dataBlocks (front ++ [chunk]) back ?_ ?_ htable (hread' ▸ hms)
          · rw [List.length_append, List.length_singleton]
          · rw [hchunks, List.append_assoc, List.singleton_append]
        · rw [Transform.readBlock_damaged Z openNested hs hne hi hintact]
          exact ⟨rfl, _, hhere⟩
      · by_cases hcan : canRead t.ms (info digest chunk).compressedSize.toNat = true
        · have hsize : (info digest chunk).compressedSize.toNat = chunk.body.length - 1 :=
            (block digest chunk chunk.body hlt).info_size hne
          have hlong := (hs.canRead_iff (by omega)).mp hcan
          have hdrop : left = chunk.body.dropLast := by
            obtain ⟨rest, hsplit⟩ := List.prefix_of_prefix_length_le hleft
              (List.prefix_append _ _) (by omega)
            have hlast : chunk.body.length = left.length + rest.length := by
              rw [← hsplit, List.length_append]
            rw [List.dropLast_eq_take, ← hsplit, List.take_left' (by rw [hsplit]; omega)]
          rcases readBlock_short openNested hi hlt hs hdrop with ⟨f, hread⟩ | ⟨ms, e, hread, hms⟩
          · rw [hread]
            trivial
          · rw [hread]
            exact ⟨rfl, left, .dataBlocks front (chunk :: back) hstep hchunks htable hms⟩
        · have hwait : t.readBlock digest Z openNested front.length = .ok .wait := by
            rw [Transform.readBlock, hi]
            exact if_neg hcan
          rw [hwait]
          intro harrived
          have hwhole := harrived.whole
          rw [hs.choose_spec.1.1, bytes_split hchunks, List.prefix_append_right_inj,
            hbodies] at hwhole
          have hlength := hwhole.length_le
          rw [List.length_append] at hlength
          omega

/-- Every step stays at one of the places. -/
theorem Progress.next {t : Transform} {out : Bytes} (h : a.Progress digest t out)
    (hsome : a.chunks ≠ []) (openNested : Bytes → Exec (List Bytes × Option ParseError)) :
    a.Stays digest t out (t.next digest Z openNested) := by
  obtain ⟨left, hreached⟩ := h.reached
  obtain ⟨more, hheld⟩ := h.held
  cases hreached with
  | header hstep hs =>
      rw [hs.choose_spec.1.1] at hheld
      rw [Transform.next, hstep]
      exact stays_header hs hheld
  | chunkHeaders hstep hsize hs =>
      rw [hs.choose_spec.1.1, bytes_eq, List.append_assoc, List.prefix_append_right_inj,
        List.append_assoc] at hheld
      rw [Transform.next, hstep]
      exact stays_chunkHeaders hsome hsize hs hheld
  | dataBlocks front back hstep hchunks htable hs =>
      rw [hs.choose_spec.1.1, bytes_split hchunks, List.append_assoc (a.header digest ++ _),
        List.prefix_append_right_inj] at hheld
      rw [Transform.next, hstep]
      exact stays_dataBlock front back hstep hchunks htable hs hheld

theorem Progress.of_sameBuffer {t t' : Transform} {out out' : Bytes} (h : a.Progress digest t out)
    (hbuffer : t.ms.SameBuffer t'.ms) (hreached : ∃ left, Reached digest a t' left out') :
    a.Progress digest t' out' where
  reached := hreached
  held := by
    rw [hbuffer.1]
    exact h.held
  appends := by
    rw [Transform.Appends, hbuffer.1, hbuffer.2]
    exact h.appends

/-! ## One call -/

/-- A run that ends has handed out whole chunks, and all of them if it ends
without an error and the archive has arrived. -/
theorem Progress.run {openNested : Bytes → Exec (List Bytes × Option ParseError)}
    {t : Transform} {out : Bytes} {r : Transform.Outcome} (h : a.Progress digest t out)
    (hsome : a.chunks ≠ []) (hrun : (Transform.machine digest Z openNested).run t = .ok r) :
    a.Progress digest r.state (out ++ r.out.flatten) ∧
      (r.error = none → a.Arrived digest r.state → out ++ r.out.flatten = a.contents) := by
  induction t using (Transform.machine digest Z openNested).run_induction generalizing out r with
  | step t ih =>
      have hstays := h.next hsome openNested
      cases hnext : t.next digest Z openNested with
      | error f =>
          rw [(Transform.machine digest Z openNested).run_error hnext] at hrun
          cases hrun
      | ok action =>
          rw [hnext] at hstays
          have hpermits := Transform.next_permits hnext
          cases action with
          | wait =>
              rw [Transform.run_of_wait hnext] at hrun
              cases hrun
              rw [List.flatten_nil, List.append_nil]
              exact ⟨h, fun _ => hstays⟩
          | stop t' o e =>
              rw [Transform.run_of_stop hnext] at hrun
              cases hrun
              obtain ⟨rfl, hreached⟩ := hstays
              rw [List.flatten_nil, List.append_nil]
              refine ⟨h.of_sameBuffer hpermits.buffer hreached, fun hnone => ?_⟩
              cases hnone
          | next t' o e =>
              obtain ⟨rfl, hreached⟩ := hstays
              rw [Transform.run_of_next hnext] at hrun
              obtain ⟨r', hrun', rfl⟩ := Exec.map_eq_ok.mp hrun
              have hlater := ih t' o none hnext (h.of_sameBuffer hpermits.1 hreached) hrun'
              rw [List.append_assoc, ← List.flatten_append] at hlater
              rw [Result.after_none]
              exact hlater

/-- A call on the bytes that follow. -/
theorem Progress.parse {t : Transform} {out x : Bytes} {n : Nat} {r : Transform.Outcome}
    (h : a.Progress digest t out) (hsome : a.chunks ≠ []) (hx : a.Begins digest (t.ms.data ++ x))
    (hlength : (t.ms.data ++ x).length < 2 ^ 63) (hparse : t.parse digest Z x = .ok (n, r)) :
    a.Progress digest r.state (out ++ r.out.flatten) ∧
      (r.error = none → a.Arrived digest r.state → out ++ r.out.flatten = a.contents) := by
  obtain ⟨r', hrun, hcut⟩ := Exec.bind_eq_ok.mp hparse
  cases hcut
  exact (h.feed hx hlength).run hsome hrun

end Archive

end Tactmon
