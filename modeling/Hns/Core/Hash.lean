import Hns.Lib.Octets

/-!
# Hashes

The 32-byte hashes of `hns-core` and the digest functions behind them. The
digests are those of the crates `blake2` and `sha3`: here any functions of the
right output length (`Digests`). What is hashed is the concatenation of the
parts, as the digests are fed one part after the other. The digests of `sha2`,
which certificates and zones are checked with, are a class of their own (`Sha2`).
-/

namespace Hns

/-- A hash: 32 octets, compared as an array. -/
abbrev Hash := Octets 32

instance Hash.instLawfulBEq : LawfulBEq Hash := inferInstance

namespace Hash

/-- `Hash::ZERO`. -/
abbrev zero : Hash := Octets.zero

/-- The hash whose octets are the big-endian digits of `n`. -/
def ofNat (n : ℕ) : Hash := ⟨Octet.toBE 32 n, Octet.length_toBE 32 n⟩

theorem value_ofNat {n : ℕ} (h : n < 2 ^ 256) : (ofNat n).value = n :=
  Octet.ofBE_toBE_of_lt (by norm_num at h ⊢; exact h)

end Hash

/-- The digest functions of the crates `blake2` and `sha3`. -/
class Digests where
  blake2b256 : List UInt8 → Hash
  blake2b512 : List UInt8 → Octets 64
  sha3 : List UInt8 → Hash

variable [Digests]

def blake2b_256 (parts : List (List UInt8)) : Hash := Digests.blake2b256 parts.flatten

def blake2b_512 (parts : List (List UInt8)) : Octets 64 := Digests.blake2b512 parts.flatten

def sha3_256 (parts : List (List UInt8)) : Hash := Digests.sha3 parts.flatten

/-- The digest functions of the crate `sha2`. -/
class Sha2 where
  sha256 : List UInt8 → Hash
  sha384 : List UInt8 → Octets 48
  sha512 : List UInt8 → Octets 64

end Hns
