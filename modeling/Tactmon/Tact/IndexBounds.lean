import Tactmon.Io.Truncation
import Tactmon.Tact.Index

/-!
# Indices of any byte string

What the constructor of `Index` does on an arbitrary byte string.

The search for the footer begins with the largest, of 44 bytes, and seeks to
where it would start.  On a shorter stream that position wraps, and the two
streams fail in different ways: `GrowableMemoryStream` goes to its end, where
the test for more bytes sends the loop round for ever, and `FileStream` goes to
the wrapped position, where the test wraps back and passes.

On anything longer every access is inside (`readBlocks_total`), since the number
of blocks is computed from the length.  What is left is the division by the size
of an entry, which the footer says.
-/

namespace Tactmon

open Binary Cxx CursorReadable LawfulReadable

namespace Index

/-! ## The footer of a byte string -/

/-- The footer for a checksum size. -/
def footerAt (d : Bytes) (checksumSize : Nat) : Bytes :=
  window d (d.length - footerSize checksumSize) (footerSize checksumSize)

/-- The stream has room for the footer, and the footer hashes to the name. -/
def Names (digest : Bytes → Digest) (hashBytes d : Bytes) (checksumSize : Nat) : Prop :=
  footerSize checksumSize ≤ d.length ∧ hashBytes = (digest (footerAt d checksumSize)).bytes

instance (digest : Bytes → Digest) (hashBytes d : Bytes) (checksumSize : Nat) :
    Decidable (Names digest hashBytes d checksumSize) :=
  inferInstanceAs (Decidable (_ ∧ _))

/-- The fields of the footer. -/
def footerOf (d : Bytes) (checksumSize : Nat) : Footer :=
  let field := fun i w => leNat (window (footerAt d checksumSize) (checksumSize + i) w)
  ⟨window (footerAt d checksumSize) 0 checksumSize, field 0 1, field 1 1, field 2 1, field 3 1,
    field 4 1, field 5 1, field 6 1, field 8 4⟩

/-- The largest checksum size up to `k` whose footer hashes to the name. -/
def largestNamed (digest : Bytes → Digest) (hashBytes d : Bytes) : Nat → Nat
  | 0 => 0
  | k + 1 =>
      if hashBytes = (digest (footerAt d (k + 1))).bytes then k + 1
      else largestNamed digest hashBytes d k

theorem largestNamed_le (digest : Bytes → Digest) (hashBytes d : Bytes) (k : Nat) :
    largestNamed digest hashBytes d k ≤ k := by
  induction k with
  | zero => exact Nat.le_refl 0
  | succ k ih =>
      rw [largestNamed]
      split <;> omega

/-- A checksum size that was found hashes to the name, and no larger one does. -/
theorem largestNamed_spec (digest : Bytes → Digest) (hashBytes d : Bytes) (k : Nat) :
    (largestNamed digest hashBytes d k ≠ 0 → hashBytes =
      (digest (footerAt d (largestNamed digest hashBytes d k))).bytes) ∧
    ∀ c, largestNamed digest hashBytes d k < c → c ≤ k →
      hashBytes ≠ (digest (footerAt d c)).bytes := by
  induction k with
  | zero => exact ⟨fun h => absurd rfl h, fun c hc hk => by omega⟩
  | succ k ih =>
      rw [largestNamed]
      split
      · next h => exact ⟨fun _ => h, fun c hc hk => by omega⟩
      · next h =>
          refine ⟨ih.1, fun c hc hk => ?_⟩
          rcases Nat.lt_or_eq_of_le hk with hlt | rfl
          · exact ih.2 c hc (by omega)
          · exact h

section Read

variable {σ : Type} [IReadableStream σ] [LawfulReadable σ] {d : Bytes}

/-- Seeking to a footer that fits. -/
theorem seek_footer {s : σ} {c k : Nat} (hk : footerSize k ≤ d.length) (hs : Rep s d c) :
    Rep (seekRead s (sizeSub (getLength s) (footerSize k))).2 d (d.length - footerSize k) ∧
      dataBytes (seekRead s (sizeSub (getLength s) (footerSize k))).2 (footerSize k) =
        .ok (footerAt d k) := by
  have hfit := fits hs
  rw [getLength_eq hs, sizeSub_of_le hk (lt_sizeMax hfit)]
  have hs₁ := seekRead_of_le (o := d.length - footerSize k) hs (Nat.sub_le _ _)
  exact ⟨hs₁, dataBytes_eq hs₁ (Nat.le_of_eq (Nat.sub_add_cancel hk))⟩

/-- The search finds the largest checksum size, when all footers fit. -/
theorem findChecksumSize_largest (digest : Bytes → Digest) (hashBytes : Bytes) (k : Nat) :
    ∀ {s : σ} {c : Nat}, footerSize k ≤ d.length → Rep s d c →
      ∃ s' c', findChecksumSize digest hashBytes k s =
        .ok (largestNamed digest hashBytes d k, s') ∧ Rep s' d c' := by
  induction k with
  | zero => exact fun _ hs => ⟨_, _, rfl, hs⟩
  | succ k ih =>
      intro s c hk hs
      obtain ⟨hs₁, hdata⟩ := seek_footer hk hs
      have hcan : canRead (seekRead s (sizeSub (getLength s) (footerSize (k + 1)))).2
          (footerSize (k + 1)) = true :=
        CursorReadable.canRead_last hs₁ hk
      rw [findChecksumSize, hcan, Bool.not_true, if_neg Bool.false_ne_true, hdata, Exec.ok_bind,
        largestNamed]
      split
      · exact ⟨_, _, rfl, hs₁⟩
      · exact ih (by rw [footerSize] at hk ⊢; omega) hs₁

/-- The footer is read as far as it goes. -/
theorem readFooter_total {s : σ} {k : Nat} (hk : footerSize k ≤ d.length)
    (hs : Rep s d (d.length - footerSize k)) :
    ∃ s' c, Footer.read k s = .ok (footerOf d k, s') ∧ Rep s' d c := by
  have hfit := fits hs
  have hsize : footerSize k = k * 2 + 8 + 4 := rfl
  have hhash := dataBytes_eq (n := k) hs (by omega)
  have hs₀ := CursorReadable.skipRead_of_lt (k := k) hs (lt_sizeMax (by omega))
  obtain ⟨s₁, hr₁, hs₁⟩ := readInt_little (w := 1) hs₀ (by omega)
  obtain ⟨s₂, hr₂, hs₂⟩ := readInt_little (w := 1) hs₁ (by omega)
  obtain ⟨s₃, hr₃, hs₃⟩ := readInt_little (w := 1) hs₂ (by omega)
  obtain ⟨s₄, hr₄, hs₄⟩ := readInt_little (w := 1) hs₃ (by omega)
  obtain ⟨s₅, hr₅, hs₅⟩ := readInt_little (w := 1) hs₄ (by omega)
  obtain ⟨s₆, hr₆, hs₆⟩ := readInt_little (w := 1) hs₅ (by omega)
  obtain ⟨s₇, hr₇, hs₇⟩ := readInt_little (w := 1) hs₆ (by omega)
  obtain ⟨s₈, hr₈, hs₈⟩ := readInt_little (w := 1) hs₇ (by omega)
  obtain ⟨s₉, hr₉, hs₉⟩ := readInt_little (w := 4) hs₈ (by omega)
  have hfield : ∀ i w, i + w ≤ k + 12 → window (footerAt d k) i w =
      window d (d.length - footerSize k + i) w := fun i w hi => by
    rw [footerAt, window_window (by omega)]
  refine ⟨s₉, _, ?_, hs₉⟩
  rw [Footer.read, hhash, Exec.ok_bind]
  simp only [Endian.native, hr₁, hr₂, hr₃, hr₄, hr₅, hr₆, hr₇, hr₈, hr₉, Exec.ok_bind, footerOf]
  rw [hfield 0 k (by omega), hfield (k + 0) 1 (by omega), hfield (k + 1) 1 (by omega),
    hfield (k + 2) 1 (by omega), hfield (k + 3) 1 (by omega), hfield (k + 4) 1 (by omega),
    hfield (k + 5) 1 (by omega), hfield (k + 6) 1 (by omega), hfield (k + 8) 4 (by omega)]
  rfl

/-! ## The blocks -/

/-- The entries of a block that lies in the stream are read. -/
theorem readEntries_total (footer : Footer) (i count : Nat) :
    ∀ (storage : Storage) {j c : Nat} {s : σ},
      i * footer.blockSize + (j + count) * footer.entrySize ≤ d.length → Rep s d c →
      ∃ storage' s' c', readEntries footer i count j storage s = .ok (storage', s') ∧
        Rep s' d c' := by
  induction count with
  | zero => exact fun _ _ _ _ _ hs => ⟨_, _, _, rfl, hs⟩
  | succ count ih =>
      intro storage j c s hin hs
      have hfit := fits hs
      have hsize : footer.entrySize =
          footer.keySizeBytes + (footer.sizeBytes + footer.offsetBytes) := Nat.add_assoc _ _ _
      have hnext : (j + (count + 1)) * footer.entrySize =
          j * footer.entrySize + footer.entrySize + count * footer.entrySize := by ring
      have hrest : i * footer.blockSize + (j + 1 + count) * footer.entrySize ≤ d.length := by
        rwa [Nat.add_right_comm, Nat.add_assoc]
      have hs₁ := seekRead_of_le (o := i * footer.blockSize + j * footer.entrySize) hs (by omega)
      have hkey := dataBytes_eq (n := footer.keySizeBytes) hs₁ (by omega)
      have hs₂ := CursorReadable.skipRead_of_lt (k := footer.keySizeBytes) hs₁
        (lt_sizeMax (by omega))
      rw [readEntries, sizeWrap_of_lt (lt_sizeMax (by omega)), hkey, Exec.ok_bind]
      dsimp only
      split
      · exact ih storage hrest hs₂
      · have hfields := dataBytes_eq (n := footer.sizeBytes + footer.offsetBytes) hs₂ (by omega)
        rw [Entry.read, hfields, Exec.ok_bind, Exec.ok_bind]
        exact ih _ hrest (skipRead_rep _ hs₂)

/-- The blocks that the stream has room for are read, with their checksums. -/
theorem readBlocks_total (digest : Bytes → Digest) {checksumSize : Nat} (footer : Footer)
    {entryCount blockCount : Nat} (hentries : entryCount * footer.entrySize ≤ footer.blockSize)
    (hroom : blockCount * (footer.blockSize + (footer.keySizeBytes + checksumSize)) ≤ d.length)
    (count : Nat) : ∀ {i c : Nat} {storage : Storage} {s : σ}, i + count ≤ blockCount →
      Rep s d c → ∃ storage',
        readBlocks digest checksumSize footer entryCount blockCount count i storage s =
          .ok storage' := by
  induction count with
  | zero => exact fun _ _ => ⟨_, rfl⟩
  | succ count ih =>
      intro i c storage s hi hs
      have hfit := fits hs
      have hsum : blockCount * (footer.blockSize + (footer.keySizeBytes + checksumSize)) =
          blockCount * footer.blockSize + blockCount * footer.keySizeBytes +
            blockCount * checksumSize := by ring
      have hblock := Nat.mul_le_mul_right footer.blockSize (show i + 1 ≤ blockCount by omega)
      have hcheck := Nat.mul_le_mul_right checksumSize (show i + 1 ≤ blockCount by omega)
      rw [Nat.succ_mul] at hblock hcheck
      have hs₁ := seekRead_of_le (o := i * footer.blockSize) hs (by omega)
      have hdata := dataBytes_eq (n := footer.blockSize) hs₁ (by omega)
      have hs₂ := seekRead_of_le (o := blockCount * footer.blockSize +
        blockCount * footer.keySizeBytes + i * checksumSize) hs₁ (by omega)
      have hsum₂ := dataBytes_eq (n := checksumSize) hs₂ (by omega)
      rw [readBlocks, sizeWrap_of_lt (lt_sizeMax (by omega)), hdata, Exec.ok_bind]
      dsimp only
      rw [sizeWrap_of_lt (lt_sizeMax (by omega)), hsum₂, Exec.ok_bind]
      split
      · exact ih (by omega) hs₂
      · obtain ⟨storage', s₃, c₃, hr, hs₃⟩ := readEntries_total footer i
          entryCount storage (j := 0) (by rw [Nat.zero_add]; omega) hs₂
        rw [hr, Exec.ok_bind]
        exact ih (by omega) hs₃

/-- On 44 bytes and more the constructor fails only at the division. -/
theorem read_of_footer {s : σ} {c : Nat} (digest : Bytes → Digest) {hash hashBytes : Bytes}
    (hunhex : unhex hash = .ok hashBytes) (hlen : footerSize 16 ≤ d.length) (hs : Rep s d c) :
    if largestNamed digest hashBytes d 16 = 0 then read digest hash s = .ok ⟨hash, 0, [], []⟩
    else if (footerOf d (largestNamed digest hashBytes d 16)).entrySize = 0 then
      read digest hash s = .error .outOfBounds
    else ∃ index, read digest hash s = .ok index := by
  obtain ⟨s₁, c₁, hr₁, hs₁⟩ := findChecksumSize_largest digest hashBytes 16 hlen hs
  have hle := largestNamed_le digest hashBytes d 16
  rw [read, hunhex, Exec.ok_bind, hr₁, Exec.ok_bind]
  dsimp only
  split
  · rfl
  · have hfooter : footerSize (largestNamed digest hashBytes d 16) ≤ d.length := by
      rw [footerSize] at hlen ⊢
      omega
    obtain ⟨hs₂, -⟩ := seek_footer hfooter hs₁
    obtain ⟨s₃, c₃, hr₃, hs₃⟩ := readFooter_total hfooter hs₂
    rw [hr₃, Exec.ok_bind]
    dsimp only
    split
    · rfl
    · rw [getLength_eq hs₃, sizeSub_of_le hfooter (lt_sizeMax (fits hs))]
      obtain ⟨storage, hstorage⟩ := readBlocks_total digest
        (footerOf d (largestNamed digest hashBytes d 16)) (Nat.div_mul_le_self _ _)
        (Nat.le_trans (Nat.div_mul_le_self _ _) (Nat.sub_le _ _)) _
        (Nat.le_of_eq (Nat.zero_add _)) hs₃
      exact ⟨_, by rw [hstorage, Exec.ok_bind]⟩

end Read

/-! ## Short streams -/

/-- A position in front of the stream wraps. -/
theorem sizeSub_short {len size : Nat} (h : len < size) (hsize : size < sizeMax) :
    sizeSub len size = len + sizeMax - size := by
  rw [sizeSub, Nat.mod_eq_of_lt (by omega)]

theorem footerSize_sixteen : footerSize 16 = 44 := rfl

/-- `FileStream` goes to the wrapped position, and reads in front of the file. -/
theorem findChecksumSize_file (digest : Bytes → Digest) (hashBytes : Bytes) {b : Buffer}
    (hlen : b.bytes.length < footerSize 16) :
    findChecksumSize digest hashBytes 16 (FileStream.ofBuffer b) = .error .outOfBounds := by
  have hwrap := sizeSub_short hlen (by decide)
  have hback : sizeWrap (b.bytes.length + sizeMax - footerSize 16 + footerSize 16) =
      b.bytes.length := by
    rw [Nat.sub_add_cancel (by rw [footerSize_sixteen, sizeMax]; omega), sizeWrap,
      Nat.add_mod_right, Nat.mod_eq_of_lt (lt_sizeMax b.fits)]
  have hcan : canRead (seekRead (FileStream.ofBuffer b)
      (sizeSub (getLength (FileStream.ofBuffer b)) (footerSize 16))).2 (footerSize 16) = true := by
    show decide (sizeWrap (sizeSub b.bytes.length (footerSize 16) + footerSize 16) ≤
      b.bytes.length) = true
    rw [hwrap, hback, decide_eq_true_iff]
  have hview : IReadableStream.data (seekRead (FileStream.ofBuffer b)
      (sizeSub (getLength (FileStream.ofBuffer b)) (footerSize 16))).2 = .error .outOfBounds := by
    refine FileStream.view_past ?_
    show b.bytes.length < sizeSub b.bytes.length (footerSize 16)
    rw [hwrap, footerSize_sixteen, sizeMax]
    omega
  rw [findChecksumSize, hcan, Bool.not_true, if_neg Bool.false_ne_true, dataBytes, hview]
  rfl

/-- `GrowableMemoryStream` goes to its end, and the loop comes round again. -/
theorem findChecksumSize_memory (digest : Bytes → Digest) (hashBytes : Bytes) {b : Buffer}
    (hlen : b.bytes.length < footerSize 16) :
    findChecksumSize digest hashBytes 16 (GrowableMemoryStream.ofBuffer b) = .error .diverges := by
  have hwrap := sizeSub_short hlen (by decide)
  have hcan : canRead (seekRead (GrowableMemoryStream.ofBuffer b)
      (sizeSub (getLength (GrowableMemoryStream.ofBuffer b)) (footerSize 16))).2
      (footerSize 16) = false := by
    show decide (sizeWrap (min (sizeSub b.bytes.length (footerSize 16)) b.bytes.length +
      footerSize 16) ≤ b.bytes.length) = false
    rw [hwrap, Nat.min_eq_right (by rw [footerSize_sixteen, sizeMax]; omega), sizeWrap_of_lt]
    · rw [decide_eq_false_iff_not, footerSize_sixteen]
      omega
    · rw [footerSize_sixteen] at hlen ⊢
      rw [sizeMax]
      omega
  rw [findChecksumSize, hcan, Bool.not_false, if_pos rfl]

/-! ## When the constructor is total -/

/-- The constructor returns an index, which has no entries when no footer hashes
to the name. -/
def Total {σ : Type} [IReadableStream σ] (digest : Bytes → Digest) (hash : Bytes) (d : Bytes)
    (stream : σ) : Prop :=
  ∃ index, read digest hash stream = .ok index ∧
    ∀ hashBytes, unhex hash = .ok hashBytes →
      (∀ c, 1 ≤ c → c ≤ 16 → ¬ Names digest hashBytes d c) → index.storage.entries = []

/-- The name has whole bytes, the largest footer fits, and the entries of the
footer that is found have a size. -/
def Readable (digest : Bytes → Digest) (hash d : Bytes) : Prop :=
  2 ∣ hash.length ∧ footerSize 16 ≤ d.length ∧
    ∀ hashBytes, unhex hash = .ok hashBytes → ∀ c, 1 ≤ c → c ≤ 16 →
      Names digest hashBytes d c → (∀ c', c < c' → c' ≤ 16 → ¬ Names digest hashBytes d c') →
      (footerOf d c).entrySize ≠ 0

theorem total_iff_of_le {σ : Type} [IReadableStream σ] [LawfulReadable σ] (digest : Bytes → Digest)
    (hash : Bytes) {d : Bytes} {s : σ} (hs : Rep s d 0) (hlen : footerSize 16 ≤ d.length) :
    Total digest hash d s ↔ Readable digest hash d := by
  have hfits : ∀ c, c ≤ 16 → footerSize c ≤ d.length := fun c hc => by
    rw [footerSize] at hlen ⊢
    omega
  constructor
  · rintro ⟨index, hread, -⟩
    obtain ⟨hashBytes, hunhex, -⟩ := Exec.bind_eq_ok.mp hread
    refine ⟨(unhex_ok_iff hash).mp ⟨_, hunhex⟩, hlen,
      fun bytes hbytes c hpos hc hnames hlargest => ?_⟩
    cases hunhex.symm.trans hbytes
    obtain ⟨hfound, hlarger⟩ := largestNamed_spec digest hashBytes d 16
    have hle := largestNamed_le digest hashBytes d 16
    have heq : largestNamed digest hashBytes d 16 = c := by
      rcases Nat.lt_trichotomy (largestNamed digest hashBytes d 16) c with hlt | heq | hgt
      · exact absurd hnames.2 (hlarger c hlt hc)
      · exact heq
      · exact absurd ⟨hfits _ hle, hfound (by omega)⟩ (hlargest _ hgt hle)
    have hspec := read_of_footer digest hunhex hlen hs
    rw [heq, if_neg (by omega)] at hspec
    intro hentry
    rw [if_pos hentry, hread] at hspec
    cases hspec
  · rintro ⟨heven, -, hentry⟩
    obtain ⟨hashBytes, hunhex⟩ := (unhex_ok_iff hash).mpr heven
    obtain ⟨hfound, hlarger⟩ := largestNamed_spec digest hashBytes d 16
    have hle := largestNamed_le digest hashBytes d 16
    have hspec := read_of_footer digest hunhex hlen hs
    by_cases hzero : largestNamed digest hashBytes d 16 = 0
    · rw [if_pos hzero] at hspec
      exact ⟨_, hspec, fun _ _ _ => rfl⟩
    · have hnames : Names digest hashBytes d (largestNamed digest hashBytes d 16) :=
        ⟨hfits _ hle, hfound hzero⟩
      rw [if_neg hzero, if_neg (hentry hashBytes hunhex _ (by omega) hle hnames
        fun c' hc hc' h => hlarger c' hc hc' h.2)] at hspec
      obtain ⟨index, hindex⟩ := hspec
      refine ⟨index, hindex, fun bytes hbytes hnone => ?_⟩
      cases hunhex.symm.trans hbytes
      exact absurd hnames (hnone _ (by omega) hle)

/-- A stream without room for the largest footer has no index. -/
theorem not_total_of_fault {σ : Type} [IReadableStream σ] {digest : Bytes → Digest}
    {hash d : Bytes} {s : σ} {f : Fault}
    (h : ∀ hashBytes, findChecksumSize digest hashBytes 16 s = .error f) :
    ¬ Total digest hash d s := by
  rintro ⟨index, hread, -⟩
  obtain ⟨hashBytes, -, hread⟩ := Exec.bind_eq_ok.mp hread
  rw [h] at hread
  cases hread

/-- Over either of the two streams. -/
theorem read_total_iff (digest : Bytes → Digest) (hash : Bytes) (b : Buffer) :
    (Total digest hash b.bytes (FileStream.ofBuffer b) ↔ Readable digest hash b.bytes) ∧
    (Total digest hash b.bytes (GrowableMemoryStream.ofBuffer b) ↔
      Readable digest hash b.bytes) := by
  rcases Nat.lt_or_ge b.bytes.length (footerSize 16) with hlt | hge
  · have hnot : ¬ Readable digest hash b.bytes := fun h => Nat.not_le_of_lt hlt h.2.1
    exact ⟨iff_of_false (not_total_of_fault fun _ => findChecksumSize_file digest _ hlt) hnot,
      iff_of_false (not_total_of_fault fun _ => findChecksumSize_memory digest _ hlt) hnot⟩
  · exact ⟨total_iff_of_le digest hash (FileStream.ofBuffer_rep b) hge,
      total_iff_of_le digest hash (GrowableMemoryStream.ofBuffer_rep b) hge⟩

/-- The largest footer, without any size in it. -/
def blankFooter : Buffer := ⟨List.replicate (footerSize 16) 0, by decide⟩

/-- On an empty stream the loop never ends, or reads in front of the file.  A
footer of zeros has no entry size to divide by, and a name with half a byte
does not fit its hash. -/
theorem read_faults :
    read Digest.leading [] (GrowableMemoryStream.ofBuffer ⟨[], by decide⟩) = .error .diverges ∧
    read Digest.leading [] (FileStream.ofBuffer ⟨[], by decide⟩) = .error .outOfBounds ∧
    read Digest.leading (hex (Digest.leading []).bytes) (FileStream.ofBuffer blankFooter) =
      .error .outOfBounds ∧
    read Digest.leading (hex (Digest.leading []).bytes)
      (GrowableMemoryStream.ofBuffer blankFooter) = .error .outOfBounds ∧
    read Digest.leading [48] (FileStream.ofBuffer blankFooter) = .error .outOfBounds := by
  decide

end Index

end Tactmon
