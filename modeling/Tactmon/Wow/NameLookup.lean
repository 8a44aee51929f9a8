import Tactmon.Wow.Ordered
import Tactmon.Wow.RoundTrip

/-!
# Lookup by name

`JenkinsHash` of `crypto/Jenkins.cpp` and `Root::FindFile` of a file name.

A name hash in a root is Jenkins' hash of the normalised path, two words in 64
bits.  `JenkinsHash` returns one of the two words, and the lookup compares it
with the 64 bits.  The lookup also goes through the blocks without name hashes,
whose entries have hash zero.

So the lookup is right in every root exactly for the paths whose hash is one
word: `pb` is zero and in the upper half, and `pc` is not zero
(`findFileNamed_exact_iff`).  For any other path there is a root in which it
looks for a different number than the one that is listed.
-/

namespace Tactmon

namespace Crypto

open Binary

/-- One character of a path as `JenkinsHash` hashes it. -/
def normalizeChar (c : UInt8) : UInt8 :=
  if c = 0x2F then 0x5C else if 0x61 ≤ c ∧ c ≤ 0x7A then c - 0x20 else c

/-- The path with backslashes and capital letters. -/
def normalizePath (path : Bytes) : Bytes := path.map normalizeChar

/-- `JenkinsHash`, where `hashlittle2` gives the words `pc` and `pb` for a
string and two seeds of zero. -/
def jenkinsHash (hashlittle2 : Bytes → UInt32 × UInt32) (path : Bytes) : UInt32 :=
  let (pc, _) := hashlittle2 (normalizePath path)
  pc

/-- The word that goes into the upper half of a name hash. -/
inductive WordOrder where
  | pcHigh
  | pbHigh
deriving DecidableEq, Repr

/-- The two words in 64 bits. -/
def WordOrder.join : WordOrder → UInt32 × UInt32 → UInt64
  | .pcHigh, (pc, pb) => pc.toUInt64 <<< 32 ||| pb.toUInt64
  | .pbHigh, (pc, pb) => pb.toUInt64 <<< 32 ||| pc.toUInt64

/-- The hash of a path in a root. -/
def pathHash (hashlittle2 : Bytes → UInt32 × UInt32) (order : WordOrder) (path : Bytes) : UInt64 :=
  order.join (hashlittle2 (normalizePath path))

/-- The hash of the path is one word: `pb` is zero and in the upper half, and
`pc` is not zero. -/
def OneWord (hashlittle2 : Bytes → UInt32 × UInt32) (order : WordOrder) (path : Bytes) : Prop :=
  order = .pbHigh ∧ (hashlittle2 (normalizePath path)).2 = 0 ∧
    (hashlittle2 (normalizePath path)).1 ≠ 0

theorem toNat_joined (high low : UInt32) :
    (high.toUInt64 <<< 32 ||| low.toUInt64).toNat = high.toNat * 2 ^ 32 + low.toNat := by
  have hhigh := high.toNat_lt
  have hlow := low.toNat_lt
  have hlt : high.toNat <<< 32 < 2 ^ 64 := by
    rw [Nat.shiftLeft_eq]
    omega
  rw [UInt64.toNat_or, UInt64.toNat_shiftLeft, UInt32.toNat_toUInt64, UInt32.toNat_toUInt64]
  change high.toNat <<< 32 % 2 ^ 64 ||| low.toNat = _
  rw [Nat.mod_eq_of_lt hlt, ← Nat.shiftLeft_add_eq_or_of_lt hlow, Nat.shiftLeft_eq]

theorem toUInt64_eq_zero {word : UInt32} : word.toUInt64 = 0 ↔ word = 0 := by
  rw [← UInt64.toNat_inj, ← UInt32.toNat_inj, UInt32.toNat_toUInt64]
  rfl

/-- The word that is kept is the hash of the path, and not the number that
stands for no hash. -/
theorem oneWord_iff (hashlittle2 : Bytes → UInt32 × UInt32) (order : WordOrder) (path : Bytes) :
    OneWord hashlittle2 order path ↔
      (jenkinsHash hashlittle2 path).toUInt64 = pathHash hashlittle2 order path ∧
        (jenkinsHash hashlittle2 path).toUInt64 ≠ 0 := by
  rw [OneWord, pathHash, jenkinsHash]
  generalize hashlittle2 (normalizePath path) = words
  obtain ⟨pc, pb⟩ := words
  dsimp only
  rw [Ne, Ne, toUInt64_eq_zero]
  have hpb := pb.toNat_lt
  cases order with
  | pcHigh =>
      refine iff_of_false (fun h => nomatch h.1) fun h => h.2 ?_
      have heq := congrArg UInt64.toNat h.1
      rw [WordOrder.join, toNat_joined, UInt32.toNat_toUInt64] at heq
      exact UInt32.toNat_inj.mp (by rw [UInt32.toNat_zero]; omega)
  | pbHigh =>
      have hzero : pc.toUInt64 = WordOrder.pbHigh.join (pc, pb) ↔ pb = 0 := by
        rw [← UInt64.toNat_inj, WordOrder.join, toNat_joined, UInt32.toNat_toUInt64,
          ← UInt32.toNat_inj, UInt32.toNat_zero]
        omega
      rw [hzero]
      exact and_iff_right rfl

end Crypto

namespace Wow

namespace Root

open Binary Cxx Crypto CursorReadable LawfulReadable

/-! ## Lookup -/

/-- The loop over the blocks. -/
def findNamed (jenkinsHash : UInt32) : List Block → Option Bytes
  | [] => none
  | block :: blocks =>
      match block.entries.find? fun entry => entry.nameHash = jenkinsHash.toUInt64 with
      | some entry => some entry.contentKey
      | none => findNamed jenkinsHash blocks

/-- `FindFile`, by file name. -/
def findFileNamed (hashlittle2 : Bytes → UInt32 × UInt32) (root : Root) (fileName : Bytes) :
    Option Bytes :=
  findNamed (jenkinsHash hashlittle2 fileName) root.blocks

/-- The entries in block and record order. -/
def entries (root : Root) : List Entry := root.blocks.flatMap Block.entries

/-- The entries of the blocks that have name hashes. -/
def namedEntries (layout : FileLayout) (root : Root) : List Entry :=
  (root.blocks.filter fun block => layout.named block.content).flatMap Block.entries

/-- The first entry with the hash. -/
def firstWith (nameHash : UInt64) (entries : List Entry) : Option Entry :=
  entries.find? fun entry => entry.nameHash = nameHash

/-- The key of the first entry with the hash of the path, among the blocks that
have name hashes. -/
def fileNamed (hashlittle2 : Bytes → UInt32 × UInt32) (order : WordOrder) (layout : FileLayout)
    (root : Root) (fileName : Bytes) : Option Bytes :=
  (firstWith (pathHash hashlittle2 order fileName) (root.namedEntries layout)).map Entry.contentKey

theorem firstWith_eq_none {nameHash : UInt64} {entries : List Entry} :
    firstWith nameHash entries = none ↔ ∀ entry ∈ entries, entry.nameHash ≠ nameHash := by
  simp [firstWith]

/-- The loop over the blocks finds the first entry of all. -/
theorem findNamed_eq (jenkinsHash : UInt32) (blocks : List Block) :
    findNamed jenkinsHash blocks =
      (firstWith jenkinsHash.toUInt64 (blocks.flatMap Block.entries)).map Entry.contentKey := by
  induction blocks with
  | nil => rfl
  | cons block blocks ih =>
      rw [findNamed, List.flatMap_cons, firstWith, List.find?_append]
      cases block.entries.find? fun entry => entry.nameHash = jenkinsHash.toUInt64 with
      | some entry => rfl
      | none =>
          rw [Option.none_or]
          exact ih

/-! ## Blocks without name hashes -/

section Blocks

variable {contentKeySize : Nat} {hashSpan : Span}

theorem parseUnnamed_nameHash (deltas : List UInt32) :
    ∀ {i : Nat} {fileDataID : UInt32} {entries : List Entry},
      parseUnnamed contentKeySize hashSpan deltas i fileDataID = .ok entries →
      ∀ entry ∈ entries, entry.nameHash = 0 := by
  induction deltas with
  | nil =>
      intro i fileDataID entries h
      cases h
      exact fun entry hentry => absurd hentry List.not_mem_nil
  | cons delta deltas ih =>
      intro i fileDataID entries h
      obtain ⟨key, -, h⟩ := Exec.bind_eq_ok.mp h
      obtain ⟨rest, hrest, h⟩ := Exec.bind_eq_ok.mp h
      cases h
      exact List.forall_mem_cons.mpr ⟨rfl, ih hrest⟩

/-- The entries of a block without name hashes have hash zero. -/
theorem parseBlock_nameHash {layout : FileLayout} {page : PageInfo} {block : Block}
    (h : parseBlock page contentKeySize layout.interleave layout.canSkip = .ok block)
    (hnamed : layout.named block.content = false) :
    ∀ entry ∈ block.entries, entry.nameHash = 0 := by
  obtain ⟨view, -, h⟩ := Exec.bind_eq_ok.mp h
  obtain ⟨deltas, -, h⟩ := Exec.bind_eq_ok.mp h
  rw [FileLayout.named, Bool.or_eq_false_iff] at hnamed
  obtain ⟨hinterleave, hhashes⟩ := hnamed
  rw [hinterleave] at h
  obtain ⟨rest, -, h⟩ := Exec.bind_eq_ok.mp h
  obtain ⟨keys, -, h⟩ := Exec.bind_eq_ok.mp h
  dsimp only at h
  split at h
  · next hpage =>
      obtain ⟨entries, -, h⟩ := Exec.bind_eq_ok.mp h
      cases h
      rw [hpage] at hhashes
      cases hhashes
  · obtain ⟨entries, hentries, h⟩ := Exec.bind_eq_ok.mp h
    cases h
    exact parseUnnamed_nameHash _ hentries

theorem namedEntries_cons (layout : FileLayout) (block : Block) (blocks : List Block) :
    namedEntries layout ⟨block :: blocks⟩ =
      (if layout.named block.content then block.entries else []) ++
        namedEntries layout ⟨blocks⟩ := by
  rw [namedEntries, List.filter_cons]
  split
  · exact List.flatMap_cons
  · rfl

/-- In a root that was parsed, the entries with a hash other than zero are in
blocks that have name hashes. -/
theorem firstWith_namedEntries {layout : FileLayout} {nameHash : UInt64} (hne : nameHash ≠ 0)
    {blocks : List Block}
    (hzero : ∀ block ∈ blocks, layout.named block.content = false →
      ∀ entry ∈ block.entries, entry.nameHash = 0) :
    firstWith nameHash (namedEntries layout ⟨blocks⟩) =
      firstWith nameHash (blocks.flatMap Block.entries) := by
  induction blocks with
  | nil => rfl
  | cons block blocks ih =>
      obtain ⟨hblock, hblocks⟩ := List.forall_mem_cons.mp hzero
      rw [namedEntries_cons, firstWith, List.find?_append, List.flatMap_cons, firstWith,
        List.find?_append]
      have hrest : List.find? _ (namedEntries layout ⟨blocks⟩) = _ := ih hblocks
      rw [hrest, firstWith]
      cases hnamed : layout.named block.content with
      | true => rfl
      | false =>
          have hnone : firstWith nameHash block.entries = none :=
            firstWith_eq_none.mpr fun entry hentry heq =>
              hne (heq.symm.trans (hblock hnamed entry hentry))
          rw [firstWith] at hnone
          rw [hnone]
          rfl

end Blocks

/-- In a root that was parsed, a hash other than zero is first in the blocks
that have name hashes. -/
theorem parse_firstWith {σ : Type} [IReadableStream σ] [LawfulReadable σ] {stream : σ}
    {bytes : Bytes} {contentKeySize : Nat} {root : Root} {nameHash : UInt64}
    (hs : Rep stream bytes 0) (h : parse stream contentKeySize = .ok (some root))
    (hne : nameHash ≠ 0) :
    firstWith nameHash (root.namedEntries (layoutOf bytes)) = firstWith nameHash root.entries := by
  obtain ⟨pages, -, hblocks⟩ := parse_tiles hs h
  refine firstWith_namedEntries hne fun block hblock hnamed => ?_
  obtain ⟨page, -, hpage⟩ := (parseBlocks_mem pages hblocks).2 block hblock
  exact parseBlock_nameHash hpage hnamed

/-! ## A root for each hash -/

/-- A page with two records, and one without.  The first record is read with the
hash of the second. -/
def listing (nameHash : UInt64) : Manifest 1 where
  totalFileCount := 2
  namedFileCount := 2
  blocks := [⟨0, 2, [⟨[0xAA], 0, 0⟩, ⟨[0xBB], 1, nameHash⟩]⟩, ⟨0, 2, []⟩]
  fits := by
    intro block hblock
    rcases List.mem_cons.mp hblock with rfl | hblock
    · exact ⟨by simp, by simp⟩
    · cases List.mem_singleton.mp hblock
      exact ⟨by simp, by simp⟩

theorem listing_length (nameHash : UInt64) : (listing nameHash).bytes.length = 62 := by
  simp [listing, Manifest.bytes, Manifest.canSkip, pageBytes, Block.header, Block.body,
    Block.deltas, hasNameHashes, keyBytes, idDeltas]

/-- The listing in memory. -/
def listed (nameHash : UInt64) : Buffer :=
  ⟨(listing nameHash).bytes, by rw [listing_length]; decide⟩

/-- What the listing is parsed to. -/
def listedRoot (nameHash : UInt64) : Root :=
  ⟨[⟨0, 2, [⟨[0xAA], 0, nameHash⟩, ⟨[0xBB], 1, 0⟩]⟩, ⟨0, 2, []⟩]⟩

theorem parse_listed (nameHash : UInt64) :
    parse (GrowableMemoryStream.ofBuffer (listed nameHash)) 1 =
      .ok (some (listedRoot nameHash)) := by
  obtain ⟨stream, hparse, hrest⟩ := parse_manifest_header (listing nameHash)
    (GrowableMemoryStream.ofBuffer_rep (listed nameHash))
  have hfuel : 2 ≤ IReadableStream.getLength stream := by
    obtain ⟨c, hs, hlen, -⟩ := hrest
    rw [getLength_eq hs, listing_length]
    decide
  obtain ⟨pages, hpages, hcut⟩ :=
    readPages_blocks (listing nameHash).blocks (listing nameHash).fits hrest hfuel
  rw [hparse, parsePages, hpages, Exec.ok_bind]
  cases hcut with
  | cons hfirst hcut =>
      cases hcut with
      | cons hsecond hcut =>
          cases hcut with
          | nil =>
              have hlead : 8 ≤ _ ∧ _ = Block.lead ⟨0, 2, []⟩ :=
                lead_of_pageBytes (listing nameHash).canSkip [] (by decide)
              have hnamed : hasNameHashes (listing nameHash).canSkip 0 = true := rfl
              dsimp only
              rw [parseBlocks, hfirst.parseBlock_named hnamed fun _ => hlead.1, hlead.2,
                Exec.ok_bind, parseBlocks, hsecond.parseBlock_named hnamed fun h => absurd rfl h]
              rfl

/-- The hash is the one of the first entry that is listed. -/
theorem listedRoot_first (nameHash : UInt64) :
    firstWith nameHash ((listedRoot nameHash).namedEntries (layoutOf (listed nameHash).bytes)) =
      some ⟨[0xAA], 0, nameHash⟩ := by
  have hlayout : layoutOf (listed nameHash).bytes = ⟨false, false, 12⟩ :=
    (listing nameHash).layoutOf_bytes
  rw [hlayout]
  exact List.find?_cons_of_pos (decide_eq_true rfl)

/-- Another number than zero and the hash is no entry's. -/
theorem listedRoot_none {nameHash word : UInt64} (hne : word ≠ nameHash) (hzero : word ≠ 0) :
    firstWith word (listedRoot nameHash).entries = none := by
  refine firstWith_eq_none.mpr fun entry hentry heq => ?_
  rcases List.mem_cons.mp hentry with rfl | hentry
  · exact hne heq.symm
  · cases List.mem_singleton.mp hentry
    exact hzero heq.symm

/-- The key of an entry without a name hash, in a root where no block has any. -/
theorem findNamed_unnamed :
    parse (GrowableMemoryStream.ofBuffer lookupSample) 1 =
        .ok (some ⟨[⟨0x10000000, 2, [⟨[0xAA], 5, 0⟩]⟩]⟩) ∧
      findNamed 0 [⟨0x10000000, 2, [⟨[0xAA], 5, 0⟩]⟩] = some [0xAA] ∧
      namedEntries (layoutOf lookupSample.bytes) ⟨[⟨0x10000000, 2, [⟨[0xAA], 5, 0⟩]⟩]⟩ = [] := by
  decide

/-- A lookup by name is exact in every root that is parsed, exactly for the
paths whose hash is one word. -/
theorem findFileNamed_exact_iff (hashlittle2 : Bytes → UInt32 × UInt32) (order : WordOrder)
    (fileName : Bytes) :
    (∀ (σ : Type) [IReadableStream σ] [LawfulReadable σ] (stream : σ) (bytes : Bytes)
        (contentKeySize : Nat) (root : Root), Rep stream bytes 0 →
        parse stream contentKeySize = .ok (some root) →
        root.findFileNamed hashlittle2 fileName =
          root.fileNamed hashlittle2 order (layoutOf bytes) fileName) ↔
      OneWord hashlittle2 order fileName := by
  rw [oneWord_iff]
  constructor
  · intro hexact
    have hzero : (jenkinsHash hashlittle2 fileName).toUInt64 ≠ 0 := by
      intro hword
      obtain ⟨hparse, hfound, hnamed⟩ := findNamed_unnamed
      have heq := hexact GrowableMemoryStream _ _ 1 _
        (GrowableMemoryStream.ofBuffer_rep lookupSample) hparse
      rw [findFileNamed, toUInt64_eq_zero.mp hword, fileNamed, hnamed, hfound] at heq
      cases heq
    refine ⟨Decidable.byContradiction fun hne => ?_, hzero⟩
    have heq := hexact GrowableMemoryStream _ _ 1 _ (GrowableMemoryStream.ofBuffer_rep _)
      (parse_listed (pathHash hashlittle2 order fileName))
    have hnone := listedRoot_none hne hzero
    rw [entries] at hnone
    rw [findFileNamed, findNamed_eq, hnone, fileNamed, listedRoot_first] at heq
    cases heq
  · intro hone σ _ _ stream bytes contentKeySize root hs hparse
    rw [findFileNamed, findNamed_eq, fileNamed, ← hone.1, parse_firstWith hs hparse hone.2]
    rfl

/-- What `hashlittle2` gives for the empty string. -/
def emptyWords : Bytes → UInt32 × UInt32 := fun _ => (0xDEADBEEF, 0xDEADBEEF)

/-- The file with the empty path is listed but not found, whichever word comes
first. -/
theorem findFileNamed_wrong :
    parse (GrowableMemoryStream.ofBuffer (listed 0xDEADBEEFDEADBEEF)) 1 =
        .ok (some (listedRoot 0xDEADBEEFDEADBEEF)) ∧
      (listedRoot 0xDEADBEEFDEADBEEF).findFileNamed emptyWords [] = none ∧
      ∀ order, (listedRoot 0xDEADBEEFDEADBEEF).fileNamed emptyWords order
        (layoutOf (listed 0xDEADBEEFDEADBEEF).bytes) [] = some [0xAA] := by
  refine ⟨parse_listed _, by decide, fun order => ?_⟩
  cases order with
  | pcHigh => decide
  | pbHigh => decide

end Root

end Wow

end Tactmon
