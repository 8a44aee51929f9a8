import Tactmon.Lib.Bytes

/-!
# Checked execution and views of memory

A computation that may misbehave returns `Exec α`: a value, or the `Fault`
that stopped it.  The faults are the ones a C++ program has no defined
outcome for, an access outside an allocation and a loop that never ends.

A `Buffer` is the contents of one allocation.  No object is larger than
`PTRDIFF_MAX`, so its length is below `2 ^ 63` and positions inside it never
wrap a 64-bit size.

A `Span` is a pointer and a length.  It keeps the memory from its pointer to
the end of the allocation, because a load through the pointer may run past
the span and still stay inside the allocation.
-/

namespace Cxx

open Binary

/-! ## Faults -/

/-- What leaves a computation without a defined result. -/
inductive Fault where
  /-- An access outside an allocation, or a broken precondition of the library. -/
  | outOfBounds
  /-- A loop that never ends. -/
  | diverges
deriving DecidableEq, Repr

/-- A value, or the fault that stopped the computation. -/
abbrev Exec (α : Type) := Except Fault α

/-- A sequenced computation returns only through a value of its first part. -/
theorem Exec.bind_eq_ok {α β : Type} {x : Exec α} {f : α → Exec β} {b : β} :
    (x >>= f) = .ok b ↔ ∃ a, x = .ok a ∧ f a = .ok b := by
  cases x with
  | error e => simp [bind, Except.bind]
  | ok a => simp [bind, Except.bind]

/-- A mapped computation returns only through a value. -/
theorem Exec.map_eq_ok {α β : Type} {x : Exec α} {f : α → β} {b : β} :
    x.map f = .ok b ↔ ∃ a, x = .ok a ∧ f a = b := by
  cases x with
  | error e => simp [Except.map]
  | ok a => simp [Except.map]

@[simp] theorem Exec.ok_bind {α β : Type} (a : α) (f : α → Exec β) :
    ((.ok a : Exec α) >>= f) = f a := rfl

@[simp] theorem Exec.error_bind {α β : Type} (e : Fault) (f : α → Exec β) :
    ((.error e : Exec α) >>= f) = .error e := rfl

/-! ## Sizes -/

/-- The values of `std::size_t`. -/
def sizeMax : Nat := 2 ^ 64

/-- A sum or product of sizes wraps at `2 ^ 64`. -/
def sizeWrap (n : Nat) : Nat := n % sizeMax

/-- A difference of sizes wraps below zero. -/
def sizeSub (a b : Nat) : Nat := (a + sizeMax - b) % sizeMax

/-- Positions in an allocation are sizes. -/
theorem lt_sizeMax {n : Nat} (h : n < 2 ^ 63) : n < sizeMax := Nat.lt_trans h (by decide)

/-- So is the sum of two of them. -/
theorem add_lt_sizeMax {m n : Nat} (hm : m < 2 ^ 63) (hn : n < 2 ^ 63) : m + n < sizeMax :=
  Nat.add_lt_add hm hn

theorem sizeWrap_of_lt {n : Nat} (h : n < sizeMax) : sizeWrap n = n := Nat.mod_eq_of_lt h

/-- A sum with a product that does not wrap either. -/
theorem sizeWrap_add_sizeWrap {a b : Nat} (h : a + b < sizeMax) :
    sizeWrap (a + sizeWrap b) = a + b := by
  rw [sizeWrap_of_lt (Nat.lt_of_le_of_lt (Nat.le_add_left b a) h), sizeWrap_of_lt h]

theorem sizeSub_of_le {a b : Nat} (h : b ≤ a) (ha : a < sizeMax) : sizeSub a b = a - b := by
  rw [sizeSub, show a + sizeMax - b = (a - b) + sizeMax by omega, Nat.add_mod_right,
    Nat.mod_eq_of_lt (by omega)]

/-- The contents of one allocation. -/
structure Buffer where
  /-- The bytes, in order. -/
  bytes : Bytes
  /-- No object is larger than `PTRDIFF_MAX`. -/
  fits : bytes.length < 2 ^ 63

instance : DecidableEq Buffer := fun a b =>
  decidable_of_iff (a.bytes = b.bytes) ⟨fun h => by cases a; cases b; cases h; rfl, congrArg _⟩

/-! ## Spans -/

/-- A pointer into an allocation, with a length that stays inside it. -/
structure Span where
  /-- The memory from the pointer to the end of the allocation. -/
  mem : Bytes
  /-- The length of the span. -/
  size : Nat
  /-- The span stays inside the allocation. -/
  fits : size ≤ mem.length

theorem Span.ext' {s t : Span} (hm : s.mem = t.mem) (hs : s.size = t.size) : s = t := by
  cases s
  cases t
  cases hm
  cases hs
  rfl

/-- The elements of a span. -/
def Span.bytes (s : Span) : Bytes := s.mem.take s.size

@[simp] theorem Span.bytes_length (s : Span) : s.bytes.length = s.size := by
  rw [Span.bytes, List.length_take]
  exact Nat.min_eq_left s.fits

/-- The contents of a buffer, with the bytes `after` behind them in the
allocation. -/
def Buffer.span (b : Buffer) (after : Bytes) : Span :=
  ⟨b.bytes ++ after, b.bytes.length, (List.prefix_append _ _).length_le⟩

@[simp] theorem Buffer.span_bytes (b : Buffer) (after : Bytes) :
    (b.span after).bytes = b.bytes := List.take_left' rfl

/-- `subspan(offset, count)`, whose precondition is that the window is inside. -/
def Span.subspan (s : Span) (offset count : Nat) : Exec Span :=
  if h : offset + count ≤ s.size then
    .ok ⟨s.mem.drop offset, count, by
      have := s.fits
      rw [List.length_drop]
      omega⟩
  else .error .outOfBounds

/-- `subspan(offset)`: everything from `offset` on. -/
def Span.suffix (s : Span) (offset : Nat) : Exec Span :=
  if h : offset ≤ s.size then
    .ok ⟨s.mem.drop offset, s.size - offset, by
      have := s.fits
      rw [List.length_drop]
      omega⟩
  else .error .outOfBounds

/-- Load `n` bytes through the pointer, wherever the span ends. -/
def Span.load (s : Span) (n : Nat) : Exec Bytes :=
  if n ≤ s.mem.length then .ok (s.mem.take n) else .error .outOfBounds

/-- `operator[]`. -/
def Span.at (s : Span) (i : Nat) : Exec UInt8 :=
  match s.bytes[i]? with
  | some b => .ok b
  | none => .error .outOfBounds

theorem Span.subspan_of_le {s : Span} {offset count : Nat} (h : offset + count ≤ s.size) :
    ∃ t, s.subspan offset count = .ok t ∧ t.mem = s.mem.drop offset ∧ t.size = count :=
  ⟨_, dif_pos h, rfl, rfl⟩

theorem Span.suffix_of_le (s : Span) {offset : Nat} (h : offset ≤ s.size) :
    ∃ t, s.suffix offset = .ok t ∧ t.mem = s.mem.drop offset ∧ t.size = s.size - offset :=
  ⟨_, dif_pos h, rfl, rfl⟩

theorem Span.suffix_mem {s t : Span} {offset : Nat} (h : s.suffix offset = .ok t) :
    t.mem = s.mem.drop offset := by
  rw [Span.suffix] at h
  split at h
  · cases h; rfl
  · cases h

/-- The elements of a suffix. -/
theorem Span.suffix_bytes {s : Span} {offset : Nat} (h : offset ≤ s.size) :
    ∃ t, s.suffix offset = .ok t ∧ t.bytes = s.bytes.drop offset ∧ t.size = s.size - offset := by
  obtain ⟨t, ht, hmem, hsize⟩ := s.suffix_of_le h
  refine ⟨t, ht, ?_, hsize⟩
  rw [Span.bytes, Span.bytes, hmem, hsize, List.drop_take]

theorem Span.load_of_le {s : Span} {n : Nat} (h : n ≤ s.mem.length) :
    s.load n = .ok (s.mem.take n) := if_pos h

theorem Span.load_of_lt {s : Span} {n : Nat} (h : s.mem.length < n) :
    s.load n = .error .outOfBounds := if_neg (by omega)

/-- A load takes from the memory behind the pointer. -/
theorem Span.load_length_le {s : Span} {n : Nat} {bs : Bytes} (h : s.load n = .ok bs) :
    bs.length ≤ s.mem.length := by
  rw [Span.load] at h
  split at h
  · cases h
    exact List.length_take_le' _ _
  · cases h

end Cxx
