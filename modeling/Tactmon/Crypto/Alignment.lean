import Mathlib.Tactic.IntervalCases
import Tactmon.Crypto.Lookup3

/-!
# One hash for all alignments

The three bodies of `hashlittle2` add up the same words, in accesses of
different widths.  `tail8_eq`, `tail16_eq`, `tail32Valgrind_eq` and `tail32_eq`
say so of the last block, and `loop_spec` of the blocks in front of it.
-/

namespace Tactmon

namespace Crypto

open Binary Cxx

/-! ## The hash of a byte string -/

/-- The sum of a state and the first twelve bytes, where missing bytes are
zero. -/
def Registers.absorb (s : Registers) (bs : Bytes) : Registers :=
  ⟨s.a + wordAt bs 4 0, s.b + wordAt bs 4 4, s.c + wordAt bs 4 8⟩

/-- What the bytes of a key make of a state. -/
def lookup3 (bs : Bytes) (s : Registers) : Registers :=
  if 12 < bs.length then lookup3 (bs.drop 12) (s.absorb bs).mix
  else if bs.length = 0 then s
  else (s.absorb bs).final
termination_by bs.length
decreasing_by
  rw [List.length_drop]
  omega

/-- What the body that masks needs of the memory: the word the key ends in.
The other ones need the key. -/
def reach (platform : Platform) (address size : Nat) : Nat :=
  if platform.littleEndian ∧ address % 4 = 0 ∧ platform.valgrind = false then (size + 3) / 4 * 4
  else size

/-! ## Accesses -/

theorem read_of_le {key : Span} {w o : Nat} (h : o + w ≤ key.mem.length) :
    read key w o = .ok (wordAt key.mem w o) := if_pos h

theorem bind_read {key : Span} {w o : Nat} (h : o + w ≤ key.mem.length) {α : Type}
    (f : UInt32 → Exec α) : (read key w o >>= f) = f (wordAt key.mem w o) := by
  rw [read_of_le h]
  rfl

theorem read_of_lt {key : Span} {w o : Nat} (h : key.mem.length < o + w) :
    read key w o = .error .outOfBounds := if_neg (by omega)

section Blocks

variable {key : Span} {k : Nat}

/-- The sum of a state and the first `x`, `y` and `z` bytes of three words. -/
def Registers.sum (mem : Bytes) (k x y z : Nat) (s : Registers) : Registers :=
  ⟨s.a + wordAt mem x k, s.b + wordAt mem y (k + 4), s.c + wordAt mem z (k + 8)⟩

/-- How many bytes of each word are there when `n` are left. -/
def Registers.sumOf (mem : Bytes) (k n : Nat) (s : Registers) : Registers :=
  s.sum mem k (min 4 n) (min 4 (n - 4)) (min 4 (n - 8))

/-- What is left of the key, as words of the memory. -/
theorem absorb_rest {length : Nat} (hsize : key.size = k + length) (s : Registers) :
    s.absorb (key.bytes.drop k) = s.sumOf key.mem k length := by
  rw [Registers.absorb, wordAt_drop, wordAt_drop, wordAt_drop, Span.bytes, wordAt_take,
    wordAt_take, wordAt_take, hsize, Nat.add_zero, Nat.add_sub_cancel_left, Nat.add_sub_add_left,
    Nat.add_sub_add_left]
  rfl

/-- The bytes of a word that are behind the first `n`, added before these. -/
theorem add_wordAt {mem : Bytes} {o n : Nat} (h : o + n ≤ mem.length) (hn : n < 4) (w : Nat)
    (x : UInt32) :
    x + wordAt mem w (o + n) <<< UInt32.ofNat (8 * n) + wordAt mem n o =
      x + wordAt mem (n + w) o := by
  rw [wordAt_add h (by omega), UInt32.add_assoc, UInt32.add_comm (_ <<< _)]

namespace Registers

variable {mem : Bytes} {n : Nat} (w x y z : Nat) (s : Registers)

@[simp] theorem sum_zero : s.sum mem k 0 0 0 = s := by
  simp [sum]

@[simp] theorem sumOf_zero : s.sumOf mem k 0 = s := s.sum_zero

/-! Bytes that are added to a register, and the rest of its word. -/

theorem sum_addA (h : k + n ≤ mem.length) (hn : n < 4) :
    (s.addA (wordAt mem w (k + n) <<< UInt32.ofNat (8 * n))).sum mem k n y z =
      s.sum mem k (n + w) y z := by
  rw [sum, addA, add_wordAt h hn]
  rfl

theorem sum_addB (h : k + 4 + n ≤ mem.length) (hn : n < 4) :
    (s.addB (wordAt mem w (k + 4 + n) <<< UInt32.ofNat (8 * n))).sum mem k x n z =
      s.sum mem k x (n + w) z := by
  rw [sum, addB, add_wordAt h hn]
  rfl

theorem sum_addC (h : k + 8 + n ≤ mem.length) (hn : n < 4) :
    (s.addC (wordAt mem w (k + 8 + n) <<< UInt32.ofNat (8 * n))).sum mem k x y n =
      s.sum mem k x y (n + w) := by
  rw [sum, addC, add_wordAt h hn]
  rfl

/-! The first bytes of a word. -/

theorem sum_addB_zero : (s.addB (wordAt mem w (k + 4))).sum mem k x 0 z = s.sum mem k x w z := by
  simp [sum, addB]

theorem sum_addC_zero : (s.addC (wordAt mem w (k + 8))).sum mem k x y 0 = s.sum mem k x y w := by
  simp [sum, addC]

/-! One word, two words or three words. -/

theorem addA_eq_sum : s.addA (wordAt mem x k) = s.sum mem k x 0 0 := by
  simp [sum, addA]

theorem addAB_eq_sum :
    (s.addB (wordAt mem y (k + 4))).addA (wordAt mem x k) = s.sum mem k x y 0 := by
  simp [sum, addA, addB]

theorem addABC_eq_sum :
    ((s.addC (wordAt mem z (k + 8))).addB (wordAt mem y (k + 4))).addA (wordAt mem x k) =
      s.sum mem k x y z := rfl

end Registers

/-- A word of four bytes in two accesses. -/
theorem wordAt_halves {mem : Bytes} {o : Nat} (h : o + 4 ≤ mem.length) :
    wordAt mem 2 o + wordAt mem 2 (o + 2) <<< 16 = wordAt mem 4 o :=
  (wordAt_add (m := 2) (by omega) (by decide) 2).symm

/-! The masks of the first body. -/

theorem wordAt_mask24 (mem : Bytes) (o : Nat) : wordAt mem 4 o &&& 0xffffff = wordAt mem 3 o :=
  wordAt_and mem (w := 4) (n := 3) (by decide) o

theorem wordAt_mask16 (mem : Bytes) (o : Nat) : wordAt mem 4 o &&& 0xffff = wordAt mem 2 o :=
  wordAt_and mem (w := 4) (n := 2) (by decide) o

theorem wordAt_mask8 (mem : Bytes) (o : Nat) : wordAt mem 4 o &&& 0xff = wordAt mem 1 o :=
  wordAt_and mem (w := 4) (n := 1) (by decide) o

/-! ## The last block -/

open Registers

theorem tail8_eq : ∀ {n : Nat}, n ≤ 12 → k + n ≤ key.mem.length → ∀ s : Registers,
    tail8 key k n s = .ok (s.sumOf key.mem k n)
  | 0, _, _, s => by simp [tail8]
  | 1, _, h, s => by
      rw [tail8, bind_read (by omega)]
      exact congrArg _ (addA_eq_sum 1 s)
  | 2, _, h, s => by
      rw [tail8, bind_read (by omega), tail8_eq (by decide) (by omega)]
      exact congrArg _ (sum_addA (n := 1) 1 0 0 s (by omega) (by decide))
  | 3, _, h, s => by
      rw [tail8, bind_read (by omega), tail8_eq (by decide) (by omega)]
      exact congrArg _ (sum_addA (n := 2) 1 0 0 s (by omega) (by decide))
  | 4, _, h, s => by
      rw [tail8, bind_read (by omega), tail8_eq (by decide) (by omega)]
      exact congrArg _ (sum_addA (n := 3) 1 0 0 s (by omega) (by decide))
  | 5, _, h, s => by
      rw [tail8, bind_read (by omega), tail8_eq (by decide) (by omega)]
      exact congrArg _ (sum_addB_zero 1 4 0 s)
  | 6, _, h, s => by
      rw [tail8, bind_read (by omega), tail8_eq (by decide) (by omega)]
      exact congrArg _ (sum_addB (n := 1) 1 4 0 s (by omega) (by decide))
  | 7, _, h, s => by
      rw [tail8, bind_read (by omega), tail8_eq (by decide) (by omega)]
      exact congrArg _ (sum_addB (n := 2) 1 4 0 s (by omega) (by decide))
  | 8, _, h, s => by
      rw [tail8, bind_read (by omega), tail8_eq (by decide) (by omega)]
      exact congrArg _ (sum_addB (n := 3) 1 4 0 s (by omega) (by decide))
  | 9, _, h, s => by
      rw [tail8, bind_read (by omega), tail8_eq (by decide) (by omega)]
      exact congrArg _ (sum_addC_zero 1 4 4 s)
  | 10, _, h, s => by
      rw [tail8, bind_read (by omega), tail8_eq (by decide) (by omega)]
      exact congrArg _ (sum_addC (n := 1) 1 4 4 s (by omega) (by decide))
  | 11, _, h, s => by
      rw [tail8, bind_read (by omega), tail8_eq (by decide) (by omega)]
      exact congrArg _ (sum_addC (n := 2) 1 4 4 s (by omega) (by decide))
  | 12, _, h, s => by
      rw [tail8, bind_read (by omega), tail8_eq (by decide) (by omega)]
      exact congrArg _ (sum_addC (n := 3) 1 4 4 s (by omega) (by decide))
  | n + 13, hn, _, _ => absurd hn (by omega)

theorem tail16_eq : ∀ {n : Nat}, n ≤ 12 → k + n ≤ key.mem.length → ∀ s : Registers,
    tail16 key k n s = .ok (s.sumOf key.mem k n)
  | 0, _, _, s => by simp [tail16]
  | 1, _, h, s => by
      rw [tail16, bind_read (by omega)]
      exact congrArg _ (addA_eq_sum 1 s)
  | 2, _, h, s => by
      rw [tail16, bind_read (by omega)]
      exact congrArg _ (addA_eq_sum 2 s)
  | 3, _, h, s => by
      rw [tail16, bind_read (by omega), tail16_eq (by decide) (by omega)]
      exact congrArg _ (sum_addA (n := 2) 1 0 0 s (by omega) (by decide))
  | 4, _, h, s => by
      rw [tail16, bind_read (by omega), bind_read (by omega), wordAt_halves (by omega)]
      exact congrArg _ (addA_eq_sum 4 s)
  | 5, _, h, s => by
      rw [tail16, bind_read (by omega), tail16_eq (by decide) (by omega)]
      exact congrArg _ (sum_addB_zero 1 4 0 s)
  | 6, _, h, s => by
      rw [tail16, bind_read (by omega), bind_read (by omega), bind_read (by omega),
        wordAt_halves (by omega)]
      exact congrArg _ (addAB_eq_sum 4 2 s)
  | 7, _, h, s => by
      rw [tail16, bind_read (by omega), tail16_eq (by decide) (by omega)]
      exact congrArg _ (sum_addB (n := 2) 1 4 0 s (by omega) (by decide))
  | 8, _, h, s => by
      rw [tail16, bind_read (by omega), bind_read (by omega), bind_read (by omega),
        bind_read (by omega), wordAt_halves (by omega), wordAt_halves (by omega)]
      exact congrArg _ (addAB_eq_sum 4 4 s)
  | 9, _, h, s => by
      rw [tail16, bind_read (by omega), tail16_eq (by decide) (by omega)]
      exact congrArg _ (sum_addC_zero 1 4 4 s)
  | 10, _, h, s => by
      rw [tail16, bind_read (by omega), bind_read (by omega), bind_read (by omega),
        bind_read (by omega), bind_read (by omega), wordAt_halves (by omega),
        wordAt_halves (by omega)]
      exact congrArg _ (addABC_eq_sum 4 4 2 s)
  | 11, _, h, s => by
      rw [tail16, bind_read (by omega), tail16_eq (by decide) (by omega)]
      exact congrArg _ (sum_addC (n := 2) 1 4 4 s (by omega) (by decide))
  | 12, _, h, s => by
      rw [tail16, bind_read (by omega), bind_read (by omega), bind_read (by omega),
        bind_read (by omega), bind_read (by omega), bind_read (by omega), wordAt_halves (by omega),
        wordAt_halves (by omega), wordAt_halves (by omega)]
      exact congrArg _ (addABC_eq_sum 4 4 4 s)
  | n + 13, hn, _, _ => absurd hn (by omega)

theorem tail32Valgrind_eq : ∀ {n : Nat}, n ≤ 12 → k + n ≤ key.mem.length → ∀ s : Registers,
    tail32Valgrind key k n s = .ok (s.sumOf key.mem k n)
  | 0, _, _, s => by simp [tail32Valgrind]
  | 1, _, h, s => by
      rw [tail32Valgrind, bind_read (by omega)]
      exact congrArg _ (addA_eq_sum 1 s)
  | 2, _, h, s => by
      rw [tail32Valgrind, bind_read (by omega), tail32Valgrind_eq (by decide) (by omega)]
      exact congrArg _ (sum_addA (n := 1) 1 0 0 s (by omega) (by decide))
  | 3, _, h, s => by
      rw [tail32Valgrind, bind_read (by omega), tail32Valgrind_eq (by decide) (by omega)]
      exact congrArg _ (sum_addA (n := 2) 1 0 0 s (by omega) (by decide))
  | 4, _, h, s => by
      rw [tail32Valgrind, bind_read (by omega)]
      exact congrArg _ (addA_eq_sum 4 s)
  | 5, _, h, s => by
      rw [tail32Valgrind, bind_read (by omega), tail32Valgrind_eq (by decide) (by omega)]
      exact congrArg _ (sum_addB_zero 1 4 0 s)
  | 6, _, h, s => by
      rw [tail32Valgrind, bind_read (by omega), tail32Valgrind_eq (by decide) (by omega)]
      exact congrArg _ (sum_addB (n := 1) 1 4 0 s (by omega) (by decide))
  | 7, _, h, s => by
      rw [tail32Valgrind, bind_read (by omega), tail32Valgrind_eq (by decide) (by omega)]
      exact congrArg _ (sum_addB (n := 2) 1 4 0 s (by omega) (by decide))
  | 8, _, h, s => by
      rw [tail32Valgrind, bind_read (by omega), bind_read (by omega)]
      exact congrArg _ (addAB_eq_sum 4 4 s)
  | 9, _, h, s => by
      rw [tail32Valgrind, bind_read (by omega), tail32Valgrind_eq (by decide) (by omega)]
      exact congrArg _ (sum_addC_zero 1 4 4 s)
  | 10, _, h, s => by
      rw [tail32Valgrind, bind_read (by omega), tail32Valgrind_eq (by decide) (by omega)]
      exact congrArg _ (sum_addC (n := 1) 1 4 4 s (by omega) (by decide))
  | 11, _, h, s => by
      rw [tail32Valgrind, bind_read (by omega), tail32Valgrind_eq (by decide) (by omega)]
      exact congrArg _ (sum_addC (n := 2) 1 4 4 s (by omega) (by decide))
  | 12, _, h, s => by
      rw [tail32Valgrind, bind_read (by omega), bind_read (by omega), bind_read (by omega)]
      exact congrArg _ (addABC_eq_sum 4 4 4 s)
  | n + 13, hn, _, _ => absurd hn (by omega)

theorem tail32_eq : ∀ {n : Nat}, n ≤ 12 → k + (n + 3) / 4 * 4 ≤ key.mem.length → ∀ s : Registers,
    tail32 key k n s = .ok (s.sumOf key.mem k n)
  | 0, _, _, s => by simp [tail32]
  | 1, _, h, s => by
      rw [tail32, bind_read (by omega), wordAt_mask8]
      exact congrArg _ (addA_eq_sum 1 s)
  | 2, _, h, s => by
      rw [tail32, bind_read (by omega), wordAt_mask16]
      exact congrArg _ (addA_eq_sum 2 s)
  | 3, _, h, s => by
      rw [tail32, bind_read (by omega), wordAt_mask24]
      exact congrArg _ (addA_eq_sum 3 s)
  | 4, _, h, s => by
      rw [tail32, bind_read (by omega)]
      exact congrArg _ (addA_eq_sum 4 s)
  | 5, _, h, s => by
      rw [tail32, bind_read (by omega), bind_read (by omega), wordAt_mask8]
      exact congrArg _ (addAB_eq_sum 4 1 s)
  | 6, _, h, s => by
      rw [tail32, bind_read (by omega), bind_read (by omega), wordAt_mask16]
      exact congrArg _ (addAB_eq_sum 4 2 s)
  | 7, _, h, s => by
      rw [tail32, bind_read (by omega), bind_read (by omega), wordAt_mask24]
      exact congrArg _ (addAB_eq_sum 4 3 s)
  | 8, _, h, s => by
      rw [tail32, bind_read (by omega), bind_read (by omega)]
      exact congrArg _ (addAB_eq_sum 4 4 s)
  | 9, _, h, s => by
      rw [tail32, bind_read (by omega), bind_read (by omega), bind_read (by omega), wordAt_mask8]
      exact congrArg _ (addABC_eq_sum 4 4 1 s)
  | 10, _, h, s => by
      rw [tail32, bind_read (by omega), bind_read (by omega), bind_read (by omega), wordAt_mask16]
      exact congrArg _ (addABC_eq_sum 4 4 2 s)
  | 11, _, h, s => by
      rw [tail32, bind_read (by omega), bind_read (by omega), bind_read (by omega), wordAt_mask24]
      exact congrArg _ (addABC_eq_sum 4 4 3 s)
  | 12, _, h, s => by
      rw [tail32, bind_read (by omega), bind_read (by omega), bind_read (by omega)]
      exact congrArg _ (addABC_eq_sum 4 4 4 s)
  | n + 13, hn, _, _ => absurd hn (by omega)

/-- The word the key ends in may be out of reach. -/
theorem tail32_error : ∀ {n : Nat}, n ≤ 12 → k + n ≤ key.mem.length →
    key.mem.length < k + (n + 3) / 4 * 4 → ∀ {s : Registers}, tail32 key k n s = .error .outOfBounds
  | 0, _, hfits, h, _ => absurd h (by omega)
  | 1, _, _, h, _ => by
      rw [tail32, read_of_lt (by omega)]
      rfl
  | 2, _, _, h, _ => by
      rw [tail32, read_of_lt (by omega)]
      rfl
  | 3, _, _, h, _ => by
      rw [tail32, read_of_lt (by omega)]
      rfl
  | 4, _, hfits, h, _ => absurd h (by omega)
  | 5, _, _, h, _ => by
      rw [tail32, read_of_lt (by omega)]
      rfl
  | 6, _, _, h, _ => by
      rw [tail32, read_of_lt (by omega)]
      rfl
  | 7, _, _, h, _ => by
      rw [tail32, read_of_lt (by omega)]
      rfl
  | 8, _, hfits, h, _ => absurd h (by omega)
  | 9, _, _, h, _ => by
      rw [tail32, read_of_lt (by omega)]
      rfl
  | 10, _, _, h, _ => by
      rw [tail32, read_of_lt (by omega)]
      rfl
  | 11, _, _, h, _ => by
      rw [tail32, read_of_lt (by omega)]
      rfl
  | 12, _, hfits, h, _ => absurd h (by omega)
  | n + 13, hn, _, _, _ => absurd hn (by omega)

/-! ## Whole blocks -/

theorem block32_eq (h : k + 12 ≤ key.mem.length) (s : Registers) :
    block32 key k s = .ok (s.sumOf key.mem k 12) := by
  rw [block32, bind_read (by omega), bind_read (by omega), bind_read (by omega)]
  rfl

theorem block16_eq (h : k + 12 ≤ key.mem.length) (s : Registers) :
    block16 key k s = .ok (s.sumOf key.mem k 12) := by
  rw [block16, bind_read (by omega), bind_read (by omega), bind_read (by omega),
    bind_read (by omega), bind_read (by omega), bind_read (by omega), wordAt_halves (by omega),
    wordAt_halves (by omega), wordAt_halves (by omega)]
  rfl

/-- Four bytes in four accesses. -/
theorem wordAt_bytes {mem : Bytes} {o : Nat} (h : o + 4 ≤ mem.length) (x : UInt32) :
    x + wordAt mem 1 o + wordAt mem 1 (o + 1) <<< 8 + wordAt mem 1 (o + 2) <<< 16 +
        wordAt mem 1 (o + 3) <<< 24 = x + wordAt mem 4 o := by
  have h4 : wordAt mem 4 o = wordAt mem 3 o + wordAt mem 1 (o + 3) <<< 24 :=
    wordAt_add (m := 3) (by omega) (by decide) 1
  have h3 : wordAt mem 3 o = wordAt mem 2 o + wordAt mem 1 (o + 2) <<< 16 :=
    wordAt_add (m := 2) (by omega) (by decide) 1
  have h2 : wordAt mem 2 o = wordAt mem 1 o + wordAt mem 1 (o + 1) <<< 8 :=
    wordAt_add (m := 1) (by omega) (by decide) 1
  rw [h4, h3, h2, UInt32.add_assoc x, UInt32.add_assoc x, UInt32.add_assoc x]

theorem block8_eq (h : k + 12 ≤ key.mem.length) (s : Registers) :
    block8 key k s = .ok (s.sumOf key.mem k 12) := by
  rw [block8]
  iterate 12 rw [bind_read (by omega)]
  have hb := wordAt_bytes (show k + 4 + 4 ≤ key.mem.length by omega) s.b
  have hc := wordAt_bytes (show k + 8 + 4 ≤ key.mem.length by omega) s.c
  exact congrArg _ (Registers.ext (wordAt_bytes (by omega) s.a) hb hc)

end Blocks

/-! ## The loop -/

section Loop

variable {key : Span} {block : Nat → Registers → Exec Registers}

/-- A whole block is the first twelve bytes of what is left. -/
theorem absorb_block {k n : Nat} (hsize : key.size = k + n) (hn : 12 < n) (s : Registers) :
    s.absorb (key.bytes.drop k) = s.sumOf key.mem k 12 := by
  rw [absorb_rest hsize, Registers.sumOf, Nat.min_eq_left (by omega), Nat.min_eq_left (by omega),
    Nat.min_eq_left (by omega)]
  rfl

theorem drop_length {k n : Nat} (hsize : key.size = k + n) : (key.bytes.drop k).length = n := by
  rw [List.length_drop, Span.bytes_length, hsize, Nat.add_sub_cancel_left]

/-- The loop leaves at most twelve bytes, and none of them only of the empty
key. -/
theorem loop_spec (hblock : ∀ {k}, k + 12 ≤ key.mem.length → ∀ s : Registers,
      block k s = .ok (s.sumOf key.mem k 12)) :
    ∀ (n : Nat) {k : Nat} (s : Registers), k % 4 = 0 → key.size = k + n →
      ∃ k' n' s', loop block k n s = .ok (k', n', s') ∧ k' % 4 = 0 ∧ key.size = k' + n' ∧
        n' ≤ 12 ∧ (n' = 0 → n = 0) ∧
        lookup3 (key.bytes.drop k) s = if n' = 0 then s' else (s'.sumOf key.mem k' n').final := by
  intro n
  induction n using Nat.strongRecOn with
  | ind n ih =>
      intro k s hk hsize
      have hfits := key.fits
      rw [loop, lookup3, drop_length hsize]
      by_cases hn : 12 < n
      · obtain ⟨k', n', s', hloop, hk', hsize', hle, hpos, hlookup⟩ :=
          ih (n - 12) (by omega) (k := k + 12) (s.sumOf key.mem k 12).mix (by omega) (by omega)
        refine ⟨k', n', s', ?_, hk', hsize', hle, fun h => ?_, ?_⟩
        · rw [if_pos hn, hblock (by omega)]
          exact hloop
        · have := hpos h
          omega
        · rw [if_pos hn, List.drop_drop, absorb_block hsize hn, hlookup]
      · refine ⟨k, n, s, if_neg hn, hk, hsize, by omega, id, ?_⟩
        rw [if_neg hn, absorb_rest hsize]

theorem finish_succ (tail : Nat → Nat → Registers → Exec Registers) (k n : Nat) (s : Registers) :
    finish tail (k, n + 1, s) = (tail k (n + 1) s >>= fun s => .ok s.final) := rfl

/-- A body whose last block never fails. -/
theorem body_eq {tail : Nat → Nat → Registers → Exec Registers}
    (hblock : ∀ {k}, k + 12 ≤ key.mem.length → ∀ s : Registers,
      block k s = .ok (s.sumOf key.mem k 12))
    (htail : ∀ {k n}, n ≤ 12 → k % 4 = 0 → key.size = k + n → ∀ s : Registers,
      tail k n s = .ok (s.sumOf key.mem k n))
    (s : Registers) :
    (loop block 0 key.size s >>= finish tail) = .ok (lookup3 key.bytes s) := by
  obtain ⟨k, n, s', hloop, hk, hsize, hle, -, hlookup⟩ :=
    loop_spec hblock key.size (k := 0) s rfl (Nat.zero_add _).symm
  rw [List.drop_zero] at hlookup
  rw [hloop, Exec.ok_bind, hlookup]
  cases n with
  | zero => rfl
  | succ n =>
      rw [finish_succ, htail hle hk hsize]
      rfl

end Loop

/-! ## All bodies -/

/-- Each body gives the hash of the bytes, if it can read what it reads. -/
theorem hashKey_eq (platform : Platform) (address : Nat) (key : Span) (s : Registers) :
    hashKey platform address key s =
      if reach platform address key.size ≤ key.mem.length then .ok (lookup3 key.bytes s)
      else .error .outOfBounds := by
  have hfits := key.fits
  rw [hashKey]
  by_cases h32 : platform.littleEndian ∧ address % 4 = 0
  · rw [if_pos h32]
    cases hvalgrind : platform.valgrind with
    | true =>
        have hreach : reach platform address key.size = key.size :=
          if_neg fun h => by rw [hvalgrind] at h; cases h.2.2
        rw [hreach, if_pos hfits]
        exact body_eq block32_eq (fun hle _ hsize => tail32Valgrind_eq hle (by omega)) s
    | false =>
        have hreach : reach platform address key.size = (key.size + 3) / 4 * 4 :=
          if_pos ⟨h32.1, h32.2, hvalgrind⟩
        rw [hreach]
        by_cases hmem : (key.size + 3) / 4 * 4 ≤ key.mem.length
        · rw [if_pos hmem]
          exact body_eq block32_eq (fun hle _ hsize => tail32_eq hle (by omega)) s
        · obtain ⟨k, n, s', hloop, hk, hsize, hle, hpos, -⟩ :=
            loop_spec block32_eq key.size (k := 0) s rfl (Nat.zero_add _).symm
          rw [if_neg hmem, hloop, Exec.ok_bind]
          cases n with
          | zero => exact absurd (hpos rfl) (by omega)
          | succ n =>
              rw [if_neg Bool.false_ne_true, finish_succ, tail32_error hle (by omega) (by omega)]
              rfl
  · rw [if_neg h32]
    have hreach : reach platform address key.size = key.size :=
      if_neg fun h => h32 ⟨h.1, h.2.1⟩
    rw [hreach, if_pos hfits]
    split
    · exact body_eq block16_eq (fun hle _ hsize => tail16_eq hle (by omega)) s
    · exact body_eq block8_eq (fun hle _ hsize => tail8_eq hle (by omega)) s

/-- The words `pc` and `pb` of a byte string. -/
def hashBytes (bs : Bytes) (pc pb : UInt32) : UInt32 × UInt32 :=
  let s := lookup3 bs (seed bs.length pc pb)
  (s.c, s.b)

/-- Both hashes only depend on the bytes of the key, on every platform and for
every address.  They fail exactly where the word the key ends in is read and
does not belong to the allocation. -/
theorem hashlittle_eq (platform : Platform) (address : Nat) (key : Span) :
    (∀ pc pb, hashlittle2 platform address key pc pb =
      if reach platform address key.size ≤ key.mem.length then .ok (hashBytes key.bytes pc pb)
      else .error .outOfBounds) ∧
    ∀ initval, hashlittle platform address key initval =
      if reach platform address key.size ≤ key.mem.length then
        .ok (hashBytes key.bytes initval 0).1
      else .error .outOfBounds := by
  constructor
  · intro pc pb
    rw [hashlittle2, hashKey_eq, hashBytes, Span.bytes_length]
    split
    · rfl
    · rfl
  · intro initval
    rw [hashlittle, hashKey_eq, hashBytes, Span.bytes_length, seed, UInt32.add_zero]
    split
    · rfl
    · rfl

end Crypto

end Tactmon
