import Mathlib.Algebra.Order.Ring.Nat
import Mathlib.Data.List.Induction
import Mathlib.Tactic.Ring

/-!
# Byte strings and fixed-width integers

Byte strings are lists of bytes.  `leNat` reads a byte string as a natural
number, least significant byte first, and `leBytes w n` writes the `w` low
bytes of `n` in that order.  `beNat` and `beBytes` are the big-endian
versions.  The two round trips are `leNat_leBytes` and `leBytes_leNat`.

`groupsReverse w k` reverses `k` consecutive groups of `w` bytes in place,
which is what a byte swap of an array of `w`-byte integers does.
-/

namespace Binary

/-- A byte string. -/
abbrev Bytes := List UInt8

/-! ## Little endian -/

/-- The natural number with the given bytes, least significant first. -/
def leNat : Bytes → Nat
  | [] => 0
  | b :: bs => b.toNat + 256 * leNat bs

/-- The `w` low bytes of `n`, least significant first. -/
def leBytes : Nat → Nat → Bytes
  | 0, _ => []
  | w + 1, n => UInt8.ofNat n :: leBytes w (n / 256)

@[simp] theorem leNat_nil : leNat [] = 0 := rfl

@[simp] theorem leNat_cons (b : UInt8) (bs : Bytes) :
    leNat (b :: bs) = b.toNat + 256 * leNat bs := rfl

@[simp] theorem leBytes_length (w n : Nat) : (leBytes w n).length = w := by
  induction w generalizing n with
  | zero => rfl
  | succ w ih => rw [leBytes, List.length_cons, ih]

/-- Writing and reading back keeps the bits that fit the width. -/
theorem leNat_leBytes (w n : Nat) : leNat (leBytes w n) = n % 256 ^ w := by
  induction w generalizing n with
  | zero => rw [leBytes, leNat_nil, Nat.pow_zero, Nat.mod_one]
  | succ w ih =>
      have hb : (UInt8.ofNat n).toNat = n % 256 := by simp
      rw [leBytes, leNat_cons, ih, hb, Nat.pow_succ', Nat.mod_mul]

theorem leNat_leBytes_of_lt {w n : Nat} (h : n < 256 ^ w) : leNat (leBytes w n) = n := by
  rw [leNat_leBytes, Nat.mod_eq_of_lt h]

theorem leNat_lt (bs : Bytes) : leNat bs < 256 ^ bs.length := by
  induction bs with
  | nil => simp
  | cons b bs ih =>
      have hb : b.toNat < 256 := b.toNat_lt
      rw [leNat_cons, List.length_cons, Nat.pow_succ]
      omega

/-- Reading and writing back at the same width is the identity. -/
theorem leBytes_leNat (bs : Bytes) : leBytes bs.length (leNat bs) = bs := by
  induction bs with
  | nil => rfl
  | cons b bs ih =>
      have hb : b.toNat < 256 := b.toNat_lt
      rw [List.length_cons, leBytes, leNat_cons]
      congr 1
      · rw [← UInt8.toNat_inj]
        simp
      · rw [Nat.add_mul_div_left _ _ (by decide), Nat.div_eq_of_lt hb, Nat.zero_add, ih]

theorem leBytes_leNat_of_length {w : Nat} {bs : Bytes} (h : bs.length = w) :
    leBytes w (leNat bs) = bs := h ▸ leBytes_leNat bs

theorem leNat_append (xs ys : Bytes) :
    leNat (xs ++ ys) = leNat xs + 256 ^ xs.length * leNat ys := by
  induction xs with
  | nil => simp
  | cons b xs ih =>
      rw [List.cons_append, leNat_cons, leNat_cons, ih, List.length_cons, Nat.pow_succ]
      ring

/-- A run of zero bytes is the number zero. -/
@[simp] theorem leNat_replicate_zero (n : Nat) : leNat (List.replicate n 0) = 0 := by
  induction n with
  | zero => rfl
  | succ n ih => rw [List.replicate_succ, leNat_cons, ih]; rfl

/-- Byte strings of one length are equal when they read as the same number. -/
theorem leNat_inj {xs ys : Bytes} (hlen : xs.length = ys.length) (h : leNat xs = leNat ys) :
    xs = ys := by
  rw [← leBytes_leNat xs, ← leBytes_leNat ys, hlen, h]

/-! ## Big endian -/

/-- The natural number with the given bytes, most significant first. -/
def beNat (bs : Bytes) : Nat := leNat bs.reverse

/-- The `w` low bytes of `n`, most significant first. -/
def beBytes (w n : Nat) : Bytes := (leBytes w n).reverse

@[simp] theorem beBytes_length (w n : Nat) : (beBytes w n).length = w := by
  rw [beBytes, List.length_reverse, leBytes_length]

theorem beNat_beBytes_of_lt {w n : Nat} (h : n < 256 ^ w) : beNat (beBytes w n) = n := by
  rw [beNat, beBytes, List.reverse_reverse, leNat_leBytes_of_lt h]

/-- The width cuts the value. -/
theorem beBytes_mod (w n : Nat) : beBytes w (n % 256 ^ w) = beBytes w n := by
  have h : leNat (leBytes w (n % 256 ^ w)) = leNat (leBytes w n) := by
    rw [leNat_leBytes, leNat_leBytes, Nat.mod_mod]
  rw [beBytes, beBytes, leNat_inj (by rw [leBytes_length, leBytes_length]) h]

theorem beNat_lt (bs : Bytes) : beNat bs < 256 ^ bs.length := by
  have h := leNat_lt bs.reverse
  rwa [List.length_reverse] at h

theorem beBytes_beNat (bs : Bytes) : beBytes bs.length (beNat bs) = bs := by
  rw [beBytes, beNat, ← List.length_reverse, leBytes_leNat, List.reverse_reverse]

theorem beNat_concat (bs : Bytes) (b : UInt8) : beNat (bs ++ [b]) = 256 * beNat bs + b.toNat := by
  rw [beNat, List.reverse_append, List.reverse_singleton, List.singleton_append, leNat_cons,
    ← beNat, Nat.add_comm]

/-- Shifting a byte in from the right. -/
def shiftIn (value : UInt64) (b : UInt8) : UInt64 := value <<< 8 ||| b.toUInt64

theorem shiftIn_ofNat (n : Nat) (b : UInt8) :
    shiftIn (.ofNat n) b = .ofNat (256 * n + b.toNat) := by
  have hb : b.toNat < 2 ^ 8 := b.toNat_lt
  have hor : n <<< 8 ||| b.toNat = 256 * n + b.toNat := by
    rw [← Nat.shiftLeft_add_eq_or_of_lt hb, Nat.shiftLeft_eq, Nat.mul_comm]
  have hshift : (UInt64.ofNat n) <<< 8 = .ofNat (n <<< 8) := by
    rw [← UInt64.toNat_inj]
    simp [UInt64.toNat_shiftLeft, Nat.shiftLeft_eq]
  have hbyte : b.toUInt64 = .ofNat b.toNat := by
    rw [← UInt64.toNat_inj]
    simp
  rw [shiftIn, hshift, ← hor, UInt64.ofNat_or, hbyte]

/-- Shifting bytes in one by one reads them in big-endian order. -/
theorem foldl_shiftIn (bs : Bytes) : bs.foldl shiftIn 0 = .ofNat (beNat bs) := by
  induction bs using List.reverseRecOn with
  | nil => rfl
  | append_singleton bs b ih =>
      rw [List.foldl_append, ih, beNat_concat, List.foldl_cons, List.foldl_nil, shiftIn_ofNat]

/-- A number of at most eight bytes is a 64-bit integer. -/
theorem toNat_ofNat_of_lt_pow {w n : Nat} (hw : w ≤ 8) (hn : n < 256 ^ w) :
    (UInt64.ofNat n).toNat = n := by
  have hle : 256 ^ w ≤ 2 ^ 64 := Nat.pow_le_pow_right (by decide) hw
  exact UInt64.toNat_ofNat'.trans (Nat.mod_eq_of_lt (Nat.lt_of_lt_of_le hn hle))

/-! ## Byte swaps of arrays -/

/-- Reverse the first `k` groups of `w` bytes, each in place. -/
def groupsReverse (w : Nat) : Nat → Bytes → Bytes
  | 0, bs => bs
  | k + 1, bs => (bs.take w).reverse ++ groupsReverse w k (bs.drop w)

@[simp] theorem groupsReverse_zero (w : Nat) (bs : Bytes) : groupsReverse w 0 bs = bs := rfl

theorem groupsReverse_one (w : Nat) (bs : Bytes) :
    groupsReverse w 1 bs = (bs.take w).reverse ++ bs.drop w := rfl

/-- Reversing groups of one byte changes nothing. -/
@[simp] theorem groupsReverse_width_one (k : Nat) (bs : Bytes) : groupsReverse 1 k bs = bs := by
  induction k generalizing bs with
  | zero => rfl
  | succ k ih =>
      rw [groupsReverse, ih]
      cases bs with
      | nil => rfl
      | cons b bs => rfl

/-! ## Windows -/

/-- The `n` bytes of `bs` from offset `o` on. -/
def window (bs : Bytes) (o n : Nat) : Bytes := (bs.drop o).take n

theorem window_length {bs : Bytes} {o n : Nat} (h : o + n ≤ bs.length) :
    (window bs o n).length = n := by
  rw [window, List.length_take, List.length_drop]
  omega

@[simp] theorem window_zero (bs : Bytes) (o : Nat) : window bs o 0 = [] := by
  rw [window, List.take_zero]

theorem window_length_le (bs : Bytes) (o n : Nat) : (window bs o n).length ≤ n :=
  List.length_take_le _ _

theorem leNat_window_lt (bs : Bytes) (o n : Nat) : leNat (window bs o n) < 256 ^ n :=
  Nat.lt_of_lt_of_le (leNat_lt _) (Nat.pow_le_pow_right (by decide) (window_length_le bs o n))

theorem beNat_window_lt (bs : Bytes) (o n : Nat) : beNat (window bs o n) < 256 ^ n :=
  Nat.lt_of_lt_of_le (beNat_lt _) (Nat.pow_le_pow_right (by decide) (window_length_le bs o n))

/-- Past the end all windows are empty. -/
theorem window_min (bs : Bytes) (o n : Nat) : window bs (min o bs.length) n = window bs o n := by
  by_cases h : o ≤ bs.length
  · rw [Nat.min_eq_left h]
  · rw [Nat.min_eq_right (by omega), window, window, List.drop_length,
      List.drop_eq_nil_of_le (by omega)]

/-- A window splits where one likes. -/
theorem window_add (bs : Bytes) (o m n : Nat) :
    window bs o (m + n) = window bs o m ++ window bs (o + m) n := by
  rw [window, window, window, List.take_add, List.drop_drop]

/-- A window inside the first part of an append only sees that part. -/
theorem window_append_left {xs ys : Bytes} {o n : Nat} (h : o + n ≤ xs.length) :
    window (xs ++ ys) o n = window xs o n := by
  rw [window, window, List.drop_append_of_le_length (by omega),
    List.take_append_of_le_length (by rw [List.length_drop]; omega)]

/-- A window behind the first part of an append. -/
theorem window_append_right (xs ys : Bytes) (o n : Nat) :
    window (xs ++ ys) (xs.length + o) n = window ys o n := by
  rw [window, window, ← List.drop_drop, List.drop_left]

/-- A window of a window. -/
theorem window_window {bs : Bytes} {o m o' n : Nat} (h : o' + n ≤ m) :
    window (window bs o m) o' n = window bs (o + o') n := by
  rw [window, window, window, List.drop_take, List.take_take, List.drop_drop,
    Nat.min_eq_left (by omega)]

theorem window_replicate {m o n : Nat} (b : UInt8) (h : o + n ≤ m) :
    window (List.replicate m b) o n = List.replicate n b := by
  rw [window, List.drop_replicate, List.take_replicate, Nat.min_eq_left (by omega)]

/-! ## Rows of equal width -/

theorem length_flatten_of_width {w : Nat} {xs : List Bytes} (h : ∀ x ∈ xs, x.length = w) :
    xs.flatten.length = xs.length * w := by
  induction xs with
  | nil => simp
  | cons x xs ih =>
      rw [List.flatten_cons, List.length_append, h x List.mem_cons_self,
        ih fun y hy => h y (List.mem_cons_of_mem _ hy), List.length_cons, Nat.succ_mul,
        Nat.add_comm]

theorem drop_flatten_of_width {w : Nat} {xs : List Bytes} (h : ∀ x ∈ xs, x.length = w) (i : Nat) :
    xs.flatten.drop (i * w) = (xs.drop i).flatten := by
  induction i generalizing xs with
  | zero => simp
  | succ i ih =>
      cases xs with
      | nil => simp
      | cons x xs =>
          rw [List.drop_succ_cons, ← ih fun y hy => h y (List.mem_cons_of_mem _ hy),
            List.flatten_cons, Nat.succ_mul, Nat.add_comm, ← List.drop_drop,
            List.drop_left' (h x List.mem_cons_self)]

theorem window_flatten_of_width {w : Nat} {xs : List Bytes} (h : ∀ x ∈ xs, x.length = w) {i : Nat}
    (hi : i < xs.length) : window xs.flatten (i * w) w = xs[i] := by
  rw [window, drop_flatten_of_width h, List.drop_eq_getElem_cons hi, List.flatten_cons,
    List.take_left' (h _ (List.getElem_mem hi))]

end Binary
