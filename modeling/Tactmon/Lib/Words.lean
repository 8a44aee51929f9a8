import Tactmon.Lib.Memory

/-!
# 32-bit words in memory

`wordAt mem w o` is the number that the `w` bytes from offset `o` on are, in
32 bits.  A word splits into shorter words where one likes (`wordAt_add`), and
a mask cuts it to its first bytes (`wordAt_and`), so the same word can be read
in one access or in several.  `bigAt` is the same with the other byte order.

`turn` is one step of a mixing function on three words: the first one is
combined with the other two, and the next word becomes the first.  A mixing
function is a row of such steps, and it can be undone where each step can
(`Bijective.turn`).
-/

namespace Binary

/-! ## Parts of a byte string as numbers -/

/-- The low bytes of a number are the first ones. -/
theorem leNat_mod_pow (bs : Bytes) (n : Nat) : leNat bs % 256 ^ n = leNat (bs.take n) := by
  by_cases h : n ≤ bs.length
  · have hlen : (bs.take n).length = n := List.length_take_of_le h
    have hlt : leNat (bs.take n) < 256 ^ n := by
      have hlt := leNat_lt (bs.take n)
      rwa [hlen] at hlt
    conv => lhs; rw [← List.take_append_drop n bs]
    rw [leNat_append, hlen, Nat.add_mul_mod_self_left, Nat.mod_eq_of_lt hlt]
  · have hle : bs.length ≤ n := by omega
    rw [List.take_of_length_le hle, Nat.mod_eq_of_lt]
    exact Nat.lt_of_lt_of_le (leNat_lt bs) (Nat.pow_le_pow_right (by decide) hle)

/-- A window splits as a number too. -/
theorem leNat_window_add {bs : Bytes} {o m : Nat} (h : o + m ≤ bs.length) (n : Nat) :
    leNat (window bs o (m + n)) = leNat (window bs o m) + 256 ^ m * leNat (window bs (o + m) n) := by
  rw [window_add, leNat_append, window_length h]

/-- A window into the first part of a byte string ends there. -/
theorem window_take (bs : Bytes) (size o n : Nat) :
    window (bs.take size) o n = window bs o (min n (size - o)) := by
  rw [window, window, List.drop_take, List.take_take]

/-! ## Words -/

/-- The `w` bytes from offset `o` on, as a word. -/
def wordAt (mem : Bytes) (w o : Nat) : UInt32 := .ofNat (leNat (window mem o w))

@[simp] theorem wordAt_zero (mem : Bytes) (o : Nat) : wordAt mem 0 o = 0 := by
  rw [wordAt, window_zero]
  rfl

/-- A word in two parts. -/
theorem wordAt_add {mem : Bytes} {o m : Nat} (h : o + m ≤ mem.length) (hm : 8 * m < 32) (n : Nat) :
    wordAt mem (m + n) o = wordAt mem m o + wordAt mem n (o + m) <<< UInt32.ofNat (8 * m) := by
  have hshift : (leNat (window mem (o + m) n)) <<< (8 * m) =
      256 ^ m * leNat (window mem (o + m) n) := by
    rw [Nat.shiftLeft_eq, Nat.pow_mul, Nat.mul_comm]
  rw [wordAt, leNat_window_add h, UInt32.ofNat_add, ← hshift, UInt32.ofNat_shiftLeft _ _ hm]
  rfl

/-- The mask of the first `n` bytes. -/
theorem wordAt_and (mem : Bytes) {w n : Nat} (h : n ≤ w) (o : Nat) :
    wordAt mem w o &&& UInt32.ofNat (256 ^ n - 1) = wordAt mem n o := by
  have hpow : 256 ^ n = 2 ^ (8 * n) := by rw [Nat.pow_mul]
  rw [wordAt, ← UInt32.ofNat_and, hpow, Nat.and_two_pow_sub_one_eq_mod, ← hpow, leNat_mod_pow,
    window, List.take_take, Nat.min_eq_left h]
  rfl

/-- A word of the first part of the memory. -/
theorem wordAt_take (mem : Bytes) (size w o : Nat) :
    wordAt (mem.take size) w o = wordAt mem (min w (size - o)) o := by
  rw [wordAt, window_take]
  rfl

theorem wordAt_drop (mem : Bytes) (k w o : Nat) :
    wordAt (mem.drop k) w o = wordAt mem w (k + o) := by
  rw [wordAt, window, List.drop_drop]
  rfl

/-- Words of four bytes tell byte strings of one length apart. -/
theorem wordAt_inj {xs ys : Bytes} {o n : Nat} (hn : n ≤ 4)
    (hlen : (window xs o n).length = (window ys o n).length)
    (h : wordAt xs n o = wordAt ys n o) : window xs o n = window ys o n := by
  have hlt : ∀ bs : Bytes, leNat (window bs o n) < 2 ^ 32 := fun bs =>
    Nat.lt_of_lt_of_le (leNat_window_lt bs o n) (Nat.pow_le_pow_right (by decide) hn)
  refine leNat_inj hlen ?_
  have hnat := congrArg UInt32.toNat h
  rwa [wordAt, wordAt, UInt32.toNat_ofNat', UInt32.toNat_ofNat', Nat.mod_eq_of_lt (hlt xs),
    Nat.mod_eq_of_lt (hlt ys)] at hnat

/-! ## Words with the other byte order -/

/-- The `w` bytes from offset `o` on, as a big-endian word. -/
def bigAt (mem : Bytes) (w o : Nat) : UInt32 := .ofNat (beNat (window mem o w))

theorem beNat_append (xs ys : Bytes) :
    beNat (xs ++ ys) = beNat xs * 256 ^ ys.length + beNat ys := by
  rw [beNat, List.reverse_append, leNat_append, List.length_reverse, ← beNat, ← beNat,
    Nat.mul_comm, Nat.add_comm]

/-- A byte has one order. -/
theorem bigAt_one (mem : Bytes) (o : Nat) : bigAt mem 1 o = wordAt mem 1 o := by
  rw [bigAt, wordAt, beNat]
  rcases hwindow : window mem o 1 with _ | ⟨b, _ | ⟨b', bs⟩⟩
  · rfl
  · rfl
  · have hlen := window_length_le mem o 1
    rw [hwindow, List.length_cons, List.length_cons] at hlen
    omega

/-- A big-endian word in two parts. -/
theorem bigAt_add {mem : Bytes} {o m n : Nat} (h : o + m + n ≤ mem.length) (hn : 8 * n < 32) :
    bigAt mem (m + n) o = bigAt mem m o <<< UInt32.ofNat (8 * n) + bigAt mem n (o + m) := by
  have hshift : (beNat (window mem o m)) <<< (8 * n) = beNat (window mem o m) * 256 ^ n := by
    rw [Nat.shiftLeft_eq, Nat.pow_mul]
  rw [bigAt, window_add, beNat_append, window_length h, UInt32.ofNat_add, ← hshift,
    UInt32.ofNat_shiftLeft _ _ hn]
  rfl

/-- A big-endian word in four accesses. -/
theorem bigAt_bytes {mem : Bytes} {o : Nat} (h : o + 4 ≤ mem.length) :
    bigAt mem 4 o = wordAt mem 1 o <<< 24 + (wordAt mem 1 (o + 1) <<< 16 +
      (wordAt mem 1 (o + 2) <<< 8 + wordAt mem 1 (o + 3))) := by
  have h4 : bigAt mem 4 o = bigAt mem 1 o <<< 24 + bigAt mem 3 (o + 1) :=
    bigAt_add (m := 1) (n := 3) (by omega) (by decide)
  have h3 : bigAt mem 3 (o + 1) = bigAt mem 1 (o + 1) <<< 16 + bigAt mem 2 (o + 2) :=
    bigAt_add (m := 1) (n := 2) (by omega) (by decide)
  have h2 : bigAt mem 2 (o + 2) = bigAt mem 1 (o + 2) <<< 8 + bigAt mem 1 (o + 3) :=
    bigAt_add (m := 1) (n := 1) (by omega) (by decide)
  rw [h4, h3, h2, bigAt_one, bigAt_one, bigAt_one, bigAt_one]

/-! ## Mixing -/

/-- A rotation to the left. -/
def rot (x k : UInt32) : UInt32 := (x <<< k) ||| (x >>> (32 - k))

section Turns

variable {α : Type}

/-- One step on three words.  The first is combined with the other two, the
second keeps its value for the next step, and the third is combined with it. -/
def turn (first : α → α → α → α) (third : α → α → α) : α × α × α → α × α × α
  | (x, y, z) => (y, third y z, first x y z)

/-- A step can be undone where the two combinations can. -/
theorem bijective_turn {first : α → α → α → α} {third : α → α → α}
    (hfirst : ∀ y z, (fun x => first x y z).Bijective) (hthird : ∀ y, (third y).Bijective) :
    (turn first third).Bijective := by
  constructor
  · rintro ⟨x, y, z⟩ ⟨x', y', z'⟩ h
    obtain ⟨rfl, hrest⟩ := Prod.mk.inj h
    obtain ⟨hz, hx⟩ := Prod.mk.inj hrest
    cases (hthird y).1 hz
    cases (hfirst y z).1 hx
    rfl
  · rintro ⟨y, z', x'⟩
    obtain ⟨z, hz⟩ := (hthird y).2 z'
    obtain ⟨x, hx⟩ := (hfirst y z).2 x'
    exact ⟨(x, y, z), congrArg (Prod.mk y) (Prod.ext hz hx)⟩

end Turns

end Binary
