import Tactmon.Lib.Memory

/-!
# Running digests

`crypto::Hash` of `crypto/Hash.hpp` around an arbitrary digest function.  The
context of a running digest is the byte string fed to it so far, since the
digest of several updates is the digest of their concatenation.

`UpdateData` of an integer feeds the bytes the integer has in memory, so it
is the width of its C++ type that decides how many bytes are hashed.
`byteswap` is `utility::byteswap` at such a width.
-/

namespace Tactmon

open Binary

/-- `crypto::MD5::Digest`. -/
@[ext] structure Digest where
  bytes : Bytes
  size_eq : bytes.length = 16

instance : DecidableEq Digest := fun a b =>
  decidable_of_iff (a.bytes = b.bytes) Digest.ext_iff.symm

/-- A digest to compute with: the first sixteen bytes, padded with zeros. -/
def Digest.leading (bs : Bytes) : Digest := ⟨leBytes 16 (leNat bs), leBytes_length 16 _⟩

/-- `crypto::Hash`, as the bytes fed to the context. -/
structure Hash where
  input : Bytes
deriving DecidableEq, Repr

namespace Hash

/-- A fresh context. -/
def init : Hash := ⟨[]⟩

/-- `UpdateData` of a byte range. -/
def updateData (h : Hash) (data : Bytes) : Hash := ⟨h.input ++ data⟩

/-- `UpdateData` of an integer of `w` bytes, on a little-endian platform. -/
def updateInt (h : Hash) (w value : Nat) : Hash := h.updateData (leBytes w value)

/-- `Finalize` and `GetDigest`. -/
def getDigest (h : Hash) (digest : Bytes → Digest) : Digest := digest h.input

end Hash

/-- `utility::byteswap` of an integer of `w` bytes. -/
def byteswap (w value : Nat) : Nat := leNat (leBytes w value).reverse

/-- A swapped integer lies in memory in big-endian order. -/
theorem leBytes_byteswap (w value : Nat) : leBytes w (byteswap w value) = beBytes w value := by
  rw [byteswap, beBytes, leBytes_leNat_of_length]
  rw [List.length_reverse, leBytes_length]

theorem Hash.updateInt_byteswap (h : Hash) (w value : Nat) :
    h.updateInt w (byteswap w value) = h.updateData (beBytes w value) := by
  rw [updateInt, leBytes_byteswap]

end Tactmon
