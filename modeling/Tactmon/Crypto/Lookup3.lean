import Tactmon.Lib.Words

/-!
# Jenkins' hash

`hashlittle2`, `hashlittle`, `hashbig`, `hashword2` and `hashword` of
`crypto/lookup3.hpp`.

`hashlittle2` has three bodies.  The first two read words of four and of two
bytes where the address of the key is aligned, and the third one reads bytes.
The first body has two versions of the last block.  One of them reads whole
words, also where the key ends inside of a word, and masks off what is behind
the key; the other one is compiled for a memory checker.

`lookup3` is what all of them compute, as a function of the bytes of the key.
`hashlittle_eq` says so, and also says which memory is read: nothing behind the
key, or the word the key ends in.

`hashbig` is made for platforms with the other byte order.  It has two bodies,
the first one again with two versions of the last block.
-/

namespace Tactmon

namespace Crypto

open Binary Cxx

/-! ## Mixing -/

/-- The internal state. -/
@[ext] structure Registers where
  a : UInt32
  b : UInt32
  c : UInt32
deriving DecidableEq, Repr

namespace Registers

/-- `mix`. -/
def mix (s : Registers) : Registers :=
  let ⟨a, b, c⟩ := s
  let a := a - c; let a := a ^^^ rot c 4; let c := c + b
  let b := b - a; let b := b ^^^ rot a 6; let a := a + c
  let c := c - b; let c := c ^^^ rot b 8; let b := b + a
  let a := a - c; let a := a ^^^ rot c 16; let c := c + b
  let b := b - a; let b := b ^^^ rot a 19; let a := a + c
  let c := c - b; let c := c ^^^ rot b 4; let b := b + a
  ⟨a, b, c⟩

/-- `final`. -/
def final (s : Registers) : Registers :=
  let ⟨a, b, c⟩ := s
  let c := c ^^^ b; let c := c - rot b 14
  let a := a ^^^ c; let a := a - rot c 11
  let b := b ^^^ a; let b := b - rot a 25
  let c := c ^^^ b; let c := c - rot b 16
  let a := a ^^^ c; let a := a - rot c 4
  let b := b ^^^ a; let b := b - rot a 14
  let c := c ^^^ b; let c := c - rot b 24
  ⟨a, b, c⟩

end Registers

/-! ## Blocks -/

/-- An access of `w` bytes through the pointer to the key, `o` bytes behind it.
Words of two and of four bytes are only read on a little-endian platform. -/
def read (key : Span) (w o : Nat) : Exec UInt32 :=
  if o + w ≤ key.mem.length then .ok (wordAt key.mem w o) else .error .outOfBounds

/-- A block in words of four bytes. -/
def block32 (key : Span) (k : Nat) (s : Registers) : Exec Registers := do
  let k0 ← read key 4 k
  let k1 ← read key 4 (k + 4)
  let k2 ← read key 4 (k + 8)
  .ok ⟨s.a + k0, s.b + k1, s.c + k2⟩

/-- A block in words of two bytes. -/
def block16 (key : Span) (k : Nat) (s : Registers) : Exec Registers := do
  let k0 ← read key 2 k
  let k1 ← read key 2 (k + 2)
  let k2 ← read key 2 (k + 4)
  let k3 ← read key 2 (k + 6)
  let k4 ← read key 2 (k + 8)
  let k5 ← read key 2 (k + 10)
  .ok ⟨s.a + (k0 + k1 <<< 16), s.b + (k2 + k3 <<< 16), s.c + (k4 + k5 <<< 16)⟩

/-- A block in bytes. -/
def block8 (key : Span) (k : Nat) (s : Registers) : Exec Registers := do
  let k0 ← read key 1 k
  let k1 ← read key 1 (k + 1)
  let k2 ← read key 1 (k + 2)
  let k3 ← read key 1 (k + 3)
  let k4 ← read key 1 (k + 4)
  let k5 ← read key 1 (k + 5)
  let k6 ← read key 1 (k + 6)
  let k7 ← read key 1 (k + 7)
  let k8 ← read key 1 (k + 8)
  let k9 ← read key 1 (k + 9)
  let k10 ← read key 1 (k + 10)
  let k11 ← read key 1 (k + 11)
  .ok ⟨s.a + k0 + k1 <<< 8 + k2 <<< 16 + k3 <<< 24, s.b + k4 + k5 <<< 8 + k6 <<< 16 + k7 <<< 24,
    s.c + k8 + k9 <<< 8 + k10 <<< 16 + k11 <<< 24⟩

/-- The loop over all blocks but the last one, from offset `k` on. -/
def loop (block : Nat → Registers → Exec Registers) (k length : Nat) (s : Registers) :
    Exec (Nat × Nat × Registers) :=
  if 12 < length then do
    let s ← block k s
    loop block (k + 12) (length - 12) s.mix
  else .ok (k, length, s)
termination_by length
decreasing_by omega

/-! ## The last block -/

namespace Registers

/-- `a += x`. -/
def addA (x : UInt32) (s : Registers) : Registers := ⟨s.a + x, s.b, s.c⟩

/-- `b += x`. -/
def addB (x : UInt32) (s : Registers) : Registers := ⟨s.a, s.b + x, s.c⟩

/-- `c += x`. -/
def addC (x : UInt32) (s : Registers) : Registers := ⟨s.a, s.b, s.c + x⟩

end Registers

/-- The `switch` that masks off what is behind the key. -/
def tail32 (key : Span) (k : Nat) : Nat → Registers → Exec Registers
  | 12, s => do
      let s := s.addC (← read key 4 (k + 8))
      let s := s.addB (← read key 4 (k + 4))
      .ok (s.addA (← read key 4 k))
  | 11, s => do
      let s := s.addC ((← read key 4 (k + 8)) &&& 0xffffff)
      let s := s.addB (← read key 4 (k + 4))
      .ok (s.addA (← read key 4 k))
  | 10, s => do
      let s := s.addC ((← read key 4 (k + 8)) &&& 0xffff)
      let s := s.addB (← read key 4 (k + 4))
      .ok (s.addA (← read key 4 k))
  | 9, s => do
      let s := s.addC ((← read key 4 (k + 8)) &&& 0xff)
      let s := s.addB (← read key 4 (k + 4))
      .ok (s.addA (← read key 4 k))
  | 8, s => do
      let s := s.addB (← read key 4 (k + 4))
      .ok (s.addA (← read key 4 k))
  | 7, s => do
      let s := s.addB ((← read key 4 (k + 4)) &&& 0xffffff)
      .ok (s.addA (← read key 4 k))
  | 6, s => do
      let s := s.addB ((← read key 4 (k + 4)) &&& 0xffff)
      .ok (s.addA (← read key 4 k))
  | 5, s => do
      let s := s.addB ((← read key 4 (k + 4)) &&& 0xff)
      .ok (s.addA (← read key 4 k))
  | 4, s => do .ok (s.addA (← read key 4 k))
  | 3, s => do .ok (s.addA ((← read key 4 k) &&& 0xffffff))
  | 2, s => do .ok (s.addA ((← read key 4 k) &&& 0xffff))
  | 1, s => do .ok (s.addA ((← read key 4 k) &&& 0xff))
  | _, s => .ok s

/-- The `switch` that makes valgrind happy.  A case without `break` falls
through to the next one. -/
def tail32Valgrind (key : Span) (k : Nat) : Nat → Registers → Exec Registers
  | 12, s => do
      let s := s.addC (← read key 4 (k + 8))
      let s := s.addB (← read key 4 (k + 4))
      .ok (s.addA (← read key 4 k))
  | 11, s => do tail32Valgrind key k 10 (s.addC ((← read key 1 (k + 10)) <<< 16))
  | 10, s => do tail32Valgrind key k 9 (s.addC ((← read key 1 (k + 9)) <<< 8))
  | 9, s => do tail32Valgrind key k 8 (s.addC (← read key 1 (k + 8)))
  | 8, s => do
      let s := s.addB (← read key 4 (k + 4))
      .ok (s.addA (← read key 4 k))
  | 7, s => do tail32Valgrind key k 6 (s.addB ((← read key 1 (k + 6)) <<< 16))
  | 6, s => do tail32Valgrind key k 5 (s.addB ((← read key 1 (k + 5)) <<< 8))
  | 5, s => do tail32Valgrind key k 4 (s.addB (← read key 1 (k + 4)))
  | 4, s => do .ok (s.addA (← read key 4 k))
  | 3, s => do tail32Valgrind key k 2 (s.addA ((← read key 1 (k + 2)) <<< 16))
  | 2, s => do tail32Valgrind key k 1 (s.addA ((← read key 1 (k + 1)) <<< 8))
  | 1, s => do .ok (s.addA (← read key 1 k))
  | _, s => .ok s

/-- The `switch` of the second body. -/
def tail16 (key : Span) (k : Nat) : Nat → Registers → Exec Registers
  | 12, s => do
      let s := s.addC ((← read key 2 (k + 8)) + (← read key 2 (k + 10)) <<< 16)
      let s := s.addB ((← read key 2 (k + 4)) + (← read key 2 (k + 6)) <<< 16)
      .ok (s.addA ((← read key 2 k) + (← read key 2 (k + 2)) <<< 16))
  | 11, s => do tail16 key k 10 (s.addC ((← read key 1 (k + 10)) <<< 16))
  | 10, s => do
      let s := s.addC (← read key 2 (k + 8))
      let s := s.addB ((← read key 2 (k + 4)) + (← read key 2 (k + 6)) <<< 16)
      .ok (s.addA ((← read key 2 k) + (← read key 2 (k + 2)) <<< 16))
  | 9, s => do tail16 key k 8 (s.addC (← read key 1 (k + 8)))
  | 8, s => do
      let s := s.addB ((← read key 2 (k + 4)) + (← read key 2 (k + 6)) <<< 16)
      .ok (s.addA ((← read key 2 k) + (← read key 2 (k + 2)) <<< 16))
  | 7, s => do tail16 key k 6 (s.addB ((← read key 1 (k + 6)) <<< 16))
  | 6, s => do
      let s := s.addB (← read key 2 (k + 4))
      .ok (s.addA ((← read key 2 k) + (← read key 2 (k + 2)) <<< 16))
  | 5, s => do tail16 key k 4 (s.addB (← read key 1 (k + 4)))
  | 4, s => do .ok (s.addA ((← read key 2 k) + (← read key 2 (k + 2)) <<< 16))
  | 3, s => do tail16 key k 2 (s.addA ((← read key 1 (k + 2)) <<< 16))
  | 2, s => do .ok (s.addA (← read key 2 k))
  | 1, s => do .ok (s.addA (← read key 1 k))
  | _, s => .ok s

/-- The `switch` of the third body, where all cases fall through. -/
def tail8 (key : Span) (k : Nat) : Nat → Registers → Exec Registers
  | 12, s => do tail8 key k 11 (s.addC ((← read key 1 (k + 11)) <<< 24))
  | 11, s => do tail8 key k 10 (s.addC ((← read key 1 (k + 10)) <<< 16))
  | 10, s => do tail8 key k 9 (s.addC ((← read key 1 (k + 9)) <<< 8))
  | 9, s => do tail8 key k 8 (s.addC (← read key 1 (k + 8)))
  | 8, s => do tail8 key k 7 (s.addB ((← read key 1 (k + 7)) <<< 24))
  | 7, s => do tail8 key k 6 (s.addB ((← read key 1 (k + 6)) <<< 16))
  | 6, s => do tail8 key k 5 (s.addB ((← read key 1 (k + 5)) <<< 8))
  | 5, s => do tail8 key k 4 (s.addB (← read key 1 (k + 4)))
  | 4, s => do tail8 key k 3 (s.addA ((← read key 1 (k + 3)) <<< 24))
  | 3, s => do tail8 key k 2 (s.addA ((← read key 1 (k + 2)) <<< 16))
  | 2, s => do tail8 key k 1 (s.addA ((← read key 1 (k + 1)) <<< 8))
  | 1, s => do .ok (s.addA (← read key 1 k))
  | _, s => .ok s

/-- The end of each body.  Without a last block there is no `final`. -/
def finish (tail : Nat → Nat → Registers → Exec Registers) :
    Nat × Nat × Registers → Exec Registers
  | (_, 0, s) => .ok s
  | (k, length, s) => do
      let s ← tail k length s
      .ok s.final

/-! ## The hashes -/

/-- The macros the header is compiled with. -/
structure Platform where
  /-- `HASH_LITTLE_ENDIAN`. -/
  littleEndian : Bool
  /-- `VALGRIND`. -/
  valgrind : Bool
deriving DecidableEq, Repr

/-- The body of `hashlittle2` and `hashlittle`, where `address` is the address
of the key. -/
def hashKey (platform : Platform) (address : Nat) (key : Span) (s : Registers) :
    Exec Registers :=
  if platform.littleEndian ∧ address % 4 = 0 then do
    let r ← loop (block32 key) 0 key.size s
    finish (if platform.valgrind then tail32Valgrind key else tail32 key) r
  else if platform.littleEndian ∧ address % 2 = 0 then do
    let r ← loop (block16 key) 0 key.size s
    finish (tail16 key) r
  else do
    let r ← loop (block8 key) 0 key.size s
    finish (tail8 key) r

/-- The state `hashlittle2` starts with. -/
def seed (length : Nat) (pc pb : UInt32) : Registers :=
  let a := 0xdeadbeef + UInt32.ofNat length + pc
  ⟨a, a, a + pb⟩

/-- `hashlittle2`. -/
def hashlittle2 (platform : Platform) (address : Nat) (key : Span) (pc pb : UInt32) :
    Exec (UInt32 × UInt32) := do
  let s ← hashKey platform address key (seed key.size pc pb)
  .ok (s.c, s.b)

/-- `hashlittle`. -/
def hashlittle (platform : Platform) (address : Nat) (key : Span) (initval : UInt32) :
    Exec UInt32 := do
  let a := 0xdeadbeef + UInt32.ofNat key.size + initval
  let s ← hashKey platform address key ⟨a, a, a⟩
  .ok s.c

/-! ## The other byte order -/

/-- An access of four bytes through the pointer to the key, on a big-endian
platform. -/
def readBig (key : Span) (o : Nat) : Exec UInt32 :=
  if o + 4 ≤ key.mem.length then .ok (bigAt key.mem 4 o) else .error .outOfBounds

/-- A block of `hashbig` in words of four bytes. -/
def block32Big (key : Span) (k : Nat) (s : Registers) : Exec Registers := do
  let k0 ← readBig key k
  let k1 ← readBig key (k + 4)
  let k2 ← readBig key (k + 8)
  .ok ⟨s.a + k0, s.b + k1, s.c + k2⟩

/-- A block of `hashbig` in bytes. -/
def block8Big (key : Span) (k : Nat) (s : Registers) : Exec Registers := do
  let k0 ← read key 1 k
  let k1 ← read key 1 (k + 1)
  let k2 ← read key 1 (k + 2)
  let k3 ← read key 1 (k + 3)
  let k4 ← read key 1 (k + 4)
  let k5 ← read key 1 (k + 5)
  let k6 ← read key 1 (k + 6)
  let k7 ← read key 1 (k + 7)
  let k8 ← read key 1 (k + 8)
  let k9 ← read key 1 (k + 9)
  let k10 ← read key 1 (k + 10)
  let k11 ← read key 1 (k + 11)
  .ok ⟨s.a + k0 <<< 24 + k1 <<< 16 + k2 <<< 8 + k3, s.b + k4 <<< 24 + k5 <<< 16 + k6 <<< 8 + k7,
    s.c + k8 <<< 24 + k9 <<< 16 + k10 <<< 8 + k11⟩

/-- The `switch` of `hashbig` that masks off what is behind the key. -/
def tail32Big (key : Span) (k : Nat) : Nat → Registers → Exec Registers
  | 12, s => do
      let s := s.addC (← readBig key (k + 8))
      let s := s.addB (← readBig key (k + 4))
      .ok (s.addA (← readBig key k))
  | 11, s => do
      let s := s.addC ((← readBig key (k + 8)) &&& 0xffffff00)
      let s := s.addB (← readBig key (k + 4))
      .ok (s.addA (← readBig key k))
  | 10, s => do
      let s := s.addC ((← readBig key (k + 8)) &&& 0xffff0000)
      let s := s.addB (← readBig key (k + 4))
      .ok (s.addA (← readBig key k))
  | 9, s => do
      let s := s.addC ((← readBig key (k + 8)) &&& 0xff000000)
      let s := s.addB (← readBig key (k + 4))
      .ok (s.addA (← readBig key k))
  | 8, s => do
      let s := s.addB (← readBig key (k + 4))
      .ok (s.addA (← readBig key k))
  | 7, s => do
      let s := s.addB ((← readBig key (k + 4)) &&& 0xffffff00)
      .ok (s.addA (← readBig key k))
  | 6, s => do
      let s := s.addB ((← readBig key (k + 4)) &&& 0xffff0000)
      .ok (s.addA (← readBig key k))
  | 5, s => do
      let s := s.addB ((← readBig key (k + 4)) &&& 0xff000000)
      .ok (s.addA (← readBig key k))
  | 4, s => do .ok (s.addA (← readBig key k))
  | 3, s => do .ok (s.addA ((← readBig key k) &&& 0xffffff00))
  | 2, s => do .ok (s.addA ((← readBig key k) &&& 0xffff0000))
  | 1, s => do .ok (s.addA ((← readBig key k) &&& 0xff000000))
  | _, s => .ok s

/-- The `switch` of `hashbig` that makes valgrind happy. -/
def tail32BigValgrind (key : Span) (k : Nat) : Nat → Registers → Exec Registers
  | 12, s => do
      let s := s.addC (← readBig key (k + 8))
      let s := s.addB (← readBig key (k + 4))
      .ok (s.addA (← readBig key k))
  | 11, s => do tail32BigValgrind key k 10 (s.addC ((← read key 1 (k + 10)) <<< 8))
  | 10, s => do tail32BigValgrind key k 9 (s.addC ((← read key 1 (k + 9)) <<< 16))
  | 9, s => do tail32BigValgrind key k 8 (s.addC ((← read key 1 (k + 8)) <<< 24))
  | 8, s => do
      let s := s.addB (← readBig key (k + 4))
      .ok (s.addA (← readBig key k))
  | 7, s => do tail32BigValgrind key k 6 (s.addB ((← read key 1 (k + 6)) <<< 8))
  | 6, s => do tail32BigValgrind key k 5 (s.addB ((← read key 1 (k + 5)) <<< 16))
  | 5, s => do tail32BigValgrind key k 4 (s.addB ((← read key 1 (k + 4)) <<< 24))
  | 4, s => do .ok (s.addA (← readBig key k))
  | 3, s => do tail32BigValgrind key k 2 (s.addA ((← read key 1 (k + 2)) <<< 8))
  | 2, s => do tail32BigValgrind key k 1 (s.addA ((← read key 1 (k + 1)) <<< 16))
  | 1, s => do .ok (s.addA ((← read key 1 k) <<< 24))
  | _, s => .ok s

/-- The `switch` of `hashbig` over bytes, where all cases fall through. -/
def tail8Big (key : Span) (k : Nat) : Nat → Registers → Exec Registers
  | 12, s => do tail8Big key k 11 (s.addC (← read key 1 (k + 11)))
  | 11, s => do tail8Big key k 10 (s.addC ((← read key 1 (k + 10)) <<< 8))
  | 10, s => do tail8Big key k 9 (s.addC ((← read key 1 (k + 9)) <<< 16))
  | 9, s => do tail8Big key k 8 (s.addC ((← read key 1 (k + 8)) <<< 24))
  | 8, s => do tail8Big key k 7 (s.addB (← read key 1 (k + 7)))
  | 7, s => do tail8Big key k 6 (s.addB ((← read key 1 (k + 6)) <<< 8))
  | 6, s => do tail8Big key k 5 (s.addB ((← read key 1 (k + 5)) <<< 16))
  | 5, s => do tail8Big key k 4 (s.addB ((← read key 1 (k + 4)) <<< 24))
  | 4, s => do tail8Big key k 3 (s.addA (← read key 1 (k + 3)))
  | 3, s => do tail8Big key k 2 (s.addA ((← read key 1 (k + 2)) <<< 8))
  | 2, s => do tail8Big key k 1 (s.addA ((← read key 1 (k + 1)) <<< 16))
  | 1, s => do .ok (s.addA ((← read key 1 k) <<< 24))
  | _, s => .ok s

/-- The body of `hashbig`, where `bigEndian` is `HASH_BIG_ENDIAN`. -/
def hashKeyBig (bigEndian valgrind : Bool) (address : Nat) (key : Span) (s : Registers) :
    Exec Registers :=
  if bigEndian ∧ address % 4 = 0 then do
    let r ← loop (block32Big key) 0 key.size s
    finish (if valgrind then tail32BigValgrind key else tail32Big key) r
  else do
    let r ← loop (block8Big key) 0 key.size s
    finish (tail8Big key) r

/-- `hashbig`. -/
def hashbig (bigEndian valgrind : Bool) (address : Nat) (key : Span) (initval : UInt32) :
    Exec UInt32 := do
  let a := 0xdeadbeef + UInt32.ofNat key.size + initval
  let s ← hashKeyBig bigEndian valgrind address key ⟨a, a, a⟩
  .ok s.c

/-! ## Hashes of words -/

/-- The loop of `hashword2` and `hashword`, and the `switch` behind it. -/
def hashWords : List UInt32 → Registers → Registers
  | k0 :: k1 :: k2 :: k3 :: k, s =>
      hashWords (k3 :: k) (Registers.mix ⟨s.a + k0, s.b + k1, s.c + k2⟩)
  | [k0, k1, k2], s => Registers.final ⟨s.a + k0, s.b + k1, s.c + k2⟩
  | [k0, k1], s => Registers.final ⟨s.a + k0, s.b + k1, s.c⟩
  | [k0], s => Registers.final ⟨s.a + k0, s.b, s.c⟩
  | [], s => s

/-- `hashword2`. -/
def hashword2 (k : List UInt32) (pc pb : UInt32) : UInt32 × UInt32 :=
  let a := (0xdeadbeef : UInt32) + UInt32.ofNat (k.length <<< 2) + pc
  let s := hashWords k ⟨a, a, a + pb⟩
  (s.c, s.b)

/-- `hashword`. -/
def hashword (k : List UInt32) (initval : UInt32) : UInt32 :=
  let a := (0xdeadbeef : UInt32) + UInt32.ofNat k.length <<< 2 + initval
  (hashWords k ⟨a, a, a⟩).c

end Crypto

end Tactmon
