import Hns.Lib.Chars
import Hns.Lib.Octets

/-!
# Addresses

The socket addresses of the standard library, and how an address is shown.
-/

namespace Hns

inductive IpAddr
  | v4 (octets : Octets 4)
  | v6 (octets : Octets 16)
  deriving DecidableEq

/-- `IpAddr::from([a, b, c, d])`. -/
def IpAddr.ofOctets (a b c d : UInt8) : IpAddr := .v4 ⟨[a, b, c, d], rfl⟩

structure SocketAddr where
  ip : IpAddr
  port : UInt16
  deriving DecidableEq

namespace IpAddr

def displayV4 (octets : List UInt8) : List Char :=
  ['.'].intercalate (octets.map fun octet => Chars.decimal octet.toNat)

/-- The segments of an IPv6 address. -/
def segments : List UInt8 → List ℕ
  | a :: b :: rest => (a.toNat * 256 + b.toNat) :: segments rest
  | _ => []

def displaySegments (l : List ℕ) : List Char := [':'].intercalate (l.map (Nat.toDigits 16))

/-- The first of the longest runs of zeros, by its start and its length: the loop over the segments,
    at `index`, with the run that ends there and the longest one so far. -/
def longestZeros : List ℕ → ℕ → ℕ × ℕ → ℕ × ℕ → ℕ × ℕ
  | [], _, _, longest => longest
  | segment :: rest, index, current, longest =>
    if segment = 0 then
      let current := if current.2 = 0 then (index, 1) else (current.1, current.2 + 1)
      let longest := if longest.2 < current.2 then current else longest
      longestZeros rest (index + 1) current longest
    else longestZeros rest (index + 1) (0, 0) longest

def displayV6 (octets : List UInt8) : List Char :=
  if octets.take 12 = List.replicate 10 0 ++ [0xff, 0xff] then
    Chars.of "::ffff:" ++ displayV4 (octets.drop 12)
  else
    let l := segments octets
    let (start, length) := longestZeros l 0 (0, 0) (0, 0)
    if 1 < length then
      displaySegments (l.take start) ++ Chars.of "::" ++ displaySegments (l.drop (start + length))
    else displaySegments l

def display : IpAddr → List Char
  | .v4 octets => displayV4 octets.bytes
  | .v6 octets => displayV6 octets.bytes

end IpAddr

def SocketAddr.display (address : SocketAddr) : List Char :=
  match address.ip with
  | .v4 octets => IpAddr.displayV4 octets.bytes ++ ':' :: Chars.decimal address.port.toNat
  | .v6 octets =>
    '[' :: IpAddr.displayV6 octets.bytes ++ ']' :: ':' :: Chars.decimal address.port.toNat

end Hns
