import Tactmon.Crypto.Alignment
import Tactmon.Io.Stream

/-!
# The hashes of word arrays

`hashword` and `hashword2` take an array of words, the other functions the bytes
that the array is in memory.  These depend on the byte order of the platform.
On a little-endian platform `hashlittle` and `hashlittle2` are the hashes of the
words, on a big-endian one `hashbig` is (`hashword_eq`).

An array of words has no last block that ends inside of a word.  So `Sums` says
what a body of `hashbig` does at the offsets of words, and `Sums.loop_eq` puts
the loop and the last block together.
-/

namespace Tactmon

namespace Crypto

open Binary Cxx

/-! ## Words in memory -/

/-- The four bytes of a word. -/
def bytesOf : Endian → UInt32 → Bytes
  | .little, word => leBytes 4 word.toNat
  | .big, word => beBytes 4 word.toNat

/-- An array of words in the memory of a platform with that byte order. -/
def wordBytes (endian : Endian) (k : List UInt32) : Bytes := k.flatMap (bytesOf endian)

@[simp] theorem bytesOf_length (endian : Endian) (word : UInt32) :
    (bytesOf endian word).length = 4 := by
  cases endian with
  | little => exact leBytes_length 4 _
  | big => exact beBytes_length 4 _

theorem wordBytes_cons (endian : Endian) (word : UInt32) (k : List UInt32) :
    wordBytes endian (word :: k) = bytesOf endian word ++ wordBytes endian k := List.flatMap_cons

theorem wordBytes_length (endian : Endian) (k : List UInt32) :
    (wordBytes endian k).length = 4 * k.length := by
  induction k with
  | nil => rfl
  | cons word k ih =>
      rw [wordBytes_cons, List.length_append, bytesOf_length, ih, List.length_cons]
      omega

/-- An array of words in memory, with the bytes `after` behind it. -/
def wordSpan (endian : Endian) (k : List UInt32) (after : Bytes) : Span :=
  ⟨wordBytes endian k ++ after, (wordBytes endian k).length, (List.prefix_append _ _).length_le⟩

/-! ## A little-endian platform -/

/-- The first word of an array. -/
theorem wordAt_wordBytes (word : UInt32) (k : List UInt32) :
    wordAt (wordBytes .little (word :: k)) 4 0 = word := by
  rw [wordBytes_cons, wordAt, window, List.drop_zero, List.take_left' (bytesOf_length _ _),
    bytesOf, leNat_leBytes_of_lt word.toNat_lt, UInt32.ofNat_toNat]

theorem wordBytes_drop (endian : Endian) (word : UInt32) (k : List UInt32) :
    (wordBytes endian (word :: k)).drop 4 = wordBytes endian k := by
  rw [wordBytes_cons, List.drop_left' (bytesOf_length _ _)]

/-- The other words. -/
theorem wordAt_wordBytes_succ (word : UInt32) (k : List UInt32) (o : Nat) :
    wordAt (wordBytes .little (word :: k)) 4 (o + 4) = wordAt (wordBytes .little k) 4 o := by
  rw [Nat.add_comm, ← wordAt_drop, wordBytes_drop]

/-- Behind the last word there is nothing. -/
theorem wordAt_wordBytes_nil (o : Nat) : wordAt (wordBytes .little []) 4 o = 0 := by
  rw [wordBytes, List.flatMap_nil, wordAt, window, List.drop_nil, List.take_nil]
  rfl

/-- The loops over words and over bytes do the same. -/
theorem lookup3_wordBytes (k : List UInt32) (s : Registers) :
    lookup3 (wordBytes .little k) s = hashWords k s := by
  induction k, s using hashWords.induct with
  | case1 k0 k1 k2 k3 k s ih =>
      have hblock : s.absorb (wordBytes .little (k0 :: k1 :: k2 :: k3 :: k)) =
          ⟨s.a + k0, s.b + k1, s.c + k2⟩ := by
        rw [Registers.absorb, wordAt_wordBytes, wordAt_wordBytes_succ _ _ 0, wordAt_wordBytes,
          wordAt_wordBytes_succ _ _ 4, wordAt_wordBytes_succ _ _ 0, wordAt_wordBytes]
      have hdrop : (wordBytes .little (k0 :: k1 :: k2 :: k3 :: k)).drop 12 =
          wordBytes .little (k3 :: k) := by
        rw [← wordBytes_drop .little k2 (k3 :: k), ← wordBytes_drop .little k1 (k2 :: k3 :: k),
          ← wordBytes_drop .little k0 (k1 :: k2 :: k3 :: k), List.drop_drop, List.drop_drop]
      have hlen : 12 < (wordBytes .little (k0 :: k1 :: k2 :: k3 :: k)).length := by
        simp only [wordBytes_length, List.length_cons]
        omega
      rw [lookup3, if_pos hlen, hblock, hdrop, ih, hashWords]
  | case2 k0 k1 k2 s =>
      rw [lookup3, Registers.absorb, wordAt_wordBytes, wordAt_wordBytes_succ _ _ 0,
        wordAt_wordBytes, wordAt_wordBytes_succ _ _ 4, wordAt_wordBytes_succ _ _ 0,
        wordAt_wordBytes]
      rfl
  | case3 k0 k1 s =>
      rw [lookup3, Registers.absorb, wordAt_wordBytes, wordAt_wordBytes_succ _ _ 0,
        wordAt_wordBytes, wordAt_wordBytes_succ _ _ 4, wordAt_wordBytes_succ _ _ 0,
        wordAt_wordBytes_nil, UInt32.add_zero]
      rfl
  | case4 k0 s =>
      rw [lookup3, Registers.absorb, wordAt_wordBytes, wordAt_wordBytes_succ _ _ 0,
        wordAt_wordBytes_nil, wordAt_wordBytes_succ _ _ 4, wordAt_wordBytes_nil, UInt32.add_zero,
        UInt32.add_zero]
      rfl
  | case5 s =>
      rw [lookup3]
      rfl

/-- The hash of the bytes of an array. -/
theorem hashBytes_wordBytes (k : List UInt32) (pc pb : UInt32) :
    hashBytes (wordBytes .little k) pc pb = hashword2 k pc pb := by
  have hsize : 4 * k.length = k.length <<< 2 := by
    rw [Nat.shiftLeft_eq]
    omega
  rw [hashBytes, lookup3_wordBytes, wordBytes_length, hsize]
  rfl

/-- The second seed is zero in the functions with one result. -/
theorem hashword2_fst (k : List UInt32) (initval : UInt32) :
    (hashword2 k initval 0).1 = hashword k initval := by
  rw [hashword, hashword2, UInt32.add_zero, UInt32.ofNat_shiftLeft _ _ (by decide)]
  rfl

/-! ## A big-endian platform -/

section Big

variable {key : Span} {o : Nat} {word k0 k1 k2 : UInt32} {k : List UInt32}

/-- The words lie at the offset of the memory, with anything behind them. -/
def WordsAt (key : Span) (o : Nat) (k : List UInt32) : Prop :=
  wordBytes .big k <+: key.mem.drop o

theorem WordsAt.inside (h : WordsAt key o (word :: k)) : o + 4 ≤ key.mem.length := by
  have hlen := h.length_le
  rw [wordBytes_length, List.length_cons, List.length_drop] at hlen
  omega

/-- The first word is read where it lies. -/
theorem WordsAt.head (h : WordsAt key o (word :: k)) : bigAt key.mem 4 o = word := by
  obtain ⟨after, hmem⟩ := h
  rw [bigAt, window, ← hmem, wordBytes_cons, List.append_assoc,
    List.take_left' (bytesOf_length _ _), bytesOf, beNat_beBytes_of_lt word.toNat_lt,
    UInt32.ofNat_toNat]

/-- The other words lie behind it. -/
theorem WordsAt.tail (h : WordsAt key o (word :: k)) : WordsAt key (o + 4) k := by
  obtain ⟨after, hmem⟩ := h
  refine ⟨after, ?_⟩
  rw [← List.drop_drop, ← hmem, wordBytes_cons, List.append_assoc,
    List.drop_left' (bytesOf_length _ _)]

theorem WordsAt.readBig (h : WordsAt key o (word :: k)) {α : Type} (f : UInt32 → Exec α) :
    (readBig key o >>= f) = f word := by
  rw [Crypto.readBig, if_pos h.inside, h.head]
  rfl

theorem add_rev (x b0 b1 b2 b3 : UInt32) :
    x + b3 + b2 + b1 + b0 = x + b0 + b1 + b2 + b3 := by
  ac_rfl

/-- The four bytes of a word are added from the first one on. -/
theorem WordsAt.add_bytes (h : WordsAt key o (word :: k)) (x : UInt32) :
    x + wordAt key.mem 1 o <<< 24 + wordAt key.mem 1 (o + 1) <<< 16 +
        wordAt key.mem 1 (o + 2) <<< 8 + wordAt key.mem 1 (o + 3) = x + word := by
  rw [← h.head, bigAt_bytes h.inside, UInt32.add_assoc x, UInt32.add_assoc x, UInt32.add_assoc x,
    UInt32.add_assoc, UInt32.add_assoc]

/-- Or from the last one on. -/
theorem WordsAt.add_bytes_rev (h : WordsAt key o (word :: k)) (x : UInt32) :
    x + wordAt key.mem 1 (o + 3) + wordAt key.mem 1 (o + 2) <<< 8 +
        wordAt key.mem 1 (o + 1) <<< 16 + wordAt key.mem 1 o <<< 24 = x + word := by
  rw [add_rev, h.add_bytes]

/-- A body adds up the words, in its blocks and in its last block. -/
structure Sums (key : Span) (block : Nat → Registers → Exec Registers)
    (tail : Nat → Nat → Registers → Exec Registers) : Prop where
  block : ∀ {o k0 k1 k2 k}, WordsAt key o (k0 :: k1 :: k2 :: k) → ∀ s : Registers,
    block o s = .ok ⟨s.a + k0, s.b + k1, s.c + k2⟩
  three : ∀ {o k0 k1 k2}, WordsAt key o [k0, k1, k2] → ∀ s : Registers,
    tail o 12 s = .ok ⟨s.a + k0, s.b + k1, s.c + k2⟩
  two : ∀ {o k0 k1}, WordsAt key o [k0, k1] → ∀ s : Registers,
    tail o 8 s = .ok ⟨s.a + k0, s.b + k1, s.c⟩
  one : ∀ {o k0}, WordsAt key o [k0] → ∀ s : Registers,
    tail o 4 s = .ok ⟨s.a + k0, s.b, s.c⟩

/-- Such a body hashes the words. -/
theorem Sums.loop_eq {block : Nat → Registers → Exec Registers}
    {tail : Nat → Nat → Registers → Exec Registers} (h : Sums key block tail) (k : List UInt32)
    (s : Registers) : ∀ {o : Nat}, WordsAt key o k →
      (loop block o (4 * k.length) s >>= finish tail) = .ok (hashWords k s) := by
  induction k, s using hashWords.induct with
  | case1 k0 k1 k2 k3 k s ih =>
      intro o hwords
      have hlen : 12 < 4 * (k0 :: k1 :: k2 :: k3 :: k).length := by
        simp only [List.length_cons]
        omega
      have hrest : 4 * (k0 :: k1 :: k2 :: k3 :: k).length - 12 = 4 * (k3 :: k).length := by
        simp only [List.length_cons]
        omega
      rw [loop, if_pos hlen, h.block hwords, Exec.ok_bind, hrest]
      exact ih hwords.tail.tail.tail
  | case2 k0 k1 k2 s =>
      intro o hwords
      rw [loop, if_neg (by simp only [List.length_cons, List.length_nil]; omega), Exec.ok_bind]
      change (tail o 12 s >>= _) = _
      rw [h.three hwords]
      rfl
  | case3 k0 k1 s =>
      intro o hwords
      rw [loop, if_neg (by simp only [List.length_cons, List.length_nil]; omega), Exec.ok_bind]
      change (tail o 8 s >>= _) = _
      rw [h.two hwords]
      rfl
  | case4 k0 s =>
      intro o hwords
      rw [loop, if_neg (by simp only [List.length_cons, List.length_nil]; omega), Exec.ok_bind]
      change (tail o 4 s >>= _) = _
      rw [h.one hwords]
      rfl
  | case5 s =>
      intro o _
      rw [loop, if_neg (by decide)]
      rfl

/-! The three bodies. -/

theorem block32Big_eq (h : WordsAt key o (k0 :: k1 :: k2 :: k)) (s : Registers) :
    block32Big key o s = .ok ⟨s.a + k0, s.b + k1, s.c + k2⟩ := by
  rw [block32Big, h.readBig, h.tail.readBig, h.tail.tail.readBig]

theorem sums_tail32Big (key : Span) : Sums key (block32Big key) (tail32Big key) where
  block := block32Big_eq
  three h s := by
    rw [tail32Big, h.tail.tail.readBig, h.tail.readBig, h.readBig]
    rfl
  two h s := by
    rw [tail32Big, h.tail.readBig, h.readBig]
    rfl
  one h s := by
    rw [tail32Big, h.readBig]
    rfl

theorem sums_tail32BigValgrind (key : Span) :
    Sums key (block32Big key) (tail32BigValgrind key) where
  block := block32Big_eq
  three h s := by
    rw [tail32BigValgrind, h.tail.tail.readBig, h.tail.readBig, h.readBig]
    rfl
  two h s := by
    rw [tail32BigValgrind, h.tail.readBig, h.readBig]
    rfl
  one h s := by
    rw [tail32BigValgrind, h.readBig]
    rfl

/-- The cases of the last `switch` from a whole word down to the next. -/
theorem tail8Big_four (h : WordsAt key o (k0 :: k)) (s : Registers) :
    tail8Big key o 4 s = .ok ⟨s.a + k0, s.b, s.c⟩ := by
  have hin := h.inside
  rw [tail8Big, bind_read (by omega), tail8Big, bind_read (by omega), tail8Big,
    bind_read (by omega), tail8Big, bind_read (by omega)]
  simp only [Registers.addA]
  rw [h.add_bytes_rev]

theorem tail8Big_eight (h : WordsAt key o (k0 :: k1 :: k)) (s : Registers) :
    tail8Big key o 8 s = .ok ⟨s.a + k0, s.b + k1, s.c⟩ := by
  have hin := h.tail.inside
  rw [tail8Big, bind_read (by omega), tail8Big, bind_read (by omega), tail8Big,
    bind_read (by omega), tail8Big, bind_read (by omega), tail8Big_four h]
  simp only [Registers.addB]
  rw [← h.tail.add_bytes_rev]

theorem tail8Big_twelve (h : WordsAt key o (k0 :: k1 :: k2 :: k)) (s : Registers) :
    tail8Big key o 12 s = .ok ⟨s.a + k0, s.b + k1, s.c + k2⟩ := by
  have hin := h.tail.tail.inside
  rw [tail8Big, bind_read (by omega), tail8Big, bind_read (by omega), tail8Big,
    bind_read (by omega), tail8Big, bind_read (by omega), tail8Big_eight h]
  simp only [Registers.addC]
  rw [← h.tail.tail.add_bytes_rev]

theorem block8Big_eq (h : WordsAt key o (k0 :: k1 :: k2 :: k)) (s : Registers) :
    block8Big key o s = .ok ⟨s.a + k0, s.b + k1, s.c + k2⟩ := by
  have hin := h.tail.tail.inside
  rw [block8Big]
  iterate 12 rw [bind_read (by omega)]
  rw [← h.add_bytes, ← h.tail.add_bytes, ← h.tail.tail.add_bytes]

theorem sums_tail8Big (key : Span) : Sums key (block8Big key) (tail8Big key) where
  block := block8Big_eq
  three := tail8Big_twelve
  two := tail8Big_eight
  one := tail8Big_four

/-- The body of `hashbig` on the bytes of an array. -/
theorem hashKeyBig_wordBytes (bigEndian valgrind : Bool) (address : Nat) (k : List UInt32)
    (after : Bytes) (s : Registers) :
    hashKeyBig bigEndian valgrind address (wordSpan .big k after) s = .ok (hashWords k s) := by
  have hwords : WordsAt (wordSpan .big k after) 0 k := List.prefix_append _ _
  have hsize : (wordSpan .big k after).size = 4 * k.length := wordBytes_length .big k
  rw [hashKeyBig, hsize]
  split
  · cases valgrind with
    | true => exact (sums_tail32BigValgrind _).loop_eq k s hwords
    | false => exact (sums_tail32Big _).loop_eq k s hwords
  · exact (sums_tail8Big _).loop_eq k s hwords

/-- `hashbig` of the bytes of an array. -/
theorem hashbig_wordBytes (bigEndian valgrind : Bool) (address : Nat) (k : List UInt32)
    (after : Bytes) (initval : UInt32) :
    hashbig bigEndian valgrind address (wordSpan .big k after) initval =
      .ok (hashword k initval) := by
  have hsize : (wordSpan .big k after).size = k.length <<< 2 := by
    rw [Nat.shiftLeft_eq, Nat.mul_comm]
    exact wordBytes_length .big k
  rw [hashbig, hashKeyBig_wordBytes, hsize, UInt32.ofNat_shiftLeft _ _ (by decide)]
  rfl

end Big

/-- The hashes of an array of words are the hashes of its bytes, for every
address and whatever is behind the array: `hashlittle` and `hashlittle2` where
the platform is little-endian, and `hashbig` where it is big-endian. -/
theorem hashword_eq (k : List UInt32) (address : Nat) (after : Bytes) :
    (∀ platform pc pb, hashlittle2 platform address (wordSpan .little k after) pc pb =
      .ok (hashword2 k pc pb)) ∧
    (∀ platform initval, hashlittle platform address (wordSpan .little k after) initval =
      .ok (hashword k initval)) ∧
    ∀ bigEndian valgrind initval,
      hashbig bigEndian valgrind address (wordSpan .big k after) initval =
        .ok (hashword k initval) := by
  have hbytes : (wordSpan .little k after).bytes = wordBytes .little k := List.take_left' rfl
  have hsize : (wordSpan .little k after).size = 4 * k.length := wordBytes_length .little k
  have hreach : ∀ platform, reach platform address (wordSpan .little k after).size ≤
      (wordSpan .little k after).mem.length := by
    intro platform
    have hfits := (wordSpan .little k after).fits
    rw [reach]
    split
    · omega
    · exact hfits
  refine ⟨fun platform pc pb => ?_, fun platform initval => ?_,
    fun bigEndian valgrind initval => hashbig_wordBytes bigEndian valgrind address k after initval⟩
  · rw [(hashlittle_eq platform address _).1, if_pos (hreach platform), hbytes,
      hashBytes_wordBytes]
  · rw [(hashlittle_eq platform address _).2, if_pos (hreach platform), hbytes,
      hashBytes_wordBytes, hashword2_fst]

end Crypto

end Tactmon
