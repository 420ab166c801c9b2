import Mathlib.Data.List.Basic

/-!
# SipHash

The hash SipHash-1-3 of strings of octets, with one round for each word and
three at the end. A word is eight octets, least significant first; the last one
is filled up with zeros and ends with the length of the string.
-/

namespace Sip

structure State where
  v0 : UInt64
  v1 : UInt64
  v2 : UInt64
  v3 : UInt64

def rotl (x b : UInt64) : UInt64 := (x <<< b) ||| (x >>> (64 - b))

/-- A round. -/
def State.round (s : State) : State :=
  let v0 := s.v0 + s.v1
  let v1 := rotl s.v1 13 ^^^ v0
  let v0 := rotl v0 32
  let v2 := s.v2 + s.v3
  let v3 := rotl s.v3 16 ^^^ v2
  let v0 := v0 + v3
  let v3 := rotl v3 21 ^^^ v0
  let v2 := v2 + v1
  let v1 := rotl v1 17 ^^^ v2
  let v2 := rotl v2 32
  ⟨v0, v1, v2, v3⟩

/-- The state before any word, for a key of two words. -/
def init (k0 k1 : UInt64) : State where
  v0 := k0 ^^^ 0x736f6d6570736575
  v1 := k1 ^^^ 0x646f72616e646f6d
  v2 := k0 ^^^ 0x6c7967656e657261
  v3 := k1 ^^^ 0x7465646279746573

/-- A word is taken in. -/
def State.absorb (s : State) (m : UInt64) : State :=
  let s := { s with v3 := s.v3 ^^^ m }.round
  { s with v0 := s.v0 ^^^ m }

/-- The word of at most eight octets. -/
def word : List UInt8 → UInt64
  | [] => 0
  | b :: l => b.toUInt64 ||| (word l <<< 8)

/-- All full words are taken in, then the last one, of the `length` octets that there are. -/
def absorbAll (length : ℕ) (s : State) : List UInt8 → State
  | b0 :: b1 :: b2 :: b3 :: b4 :: b5 :: b6 :: b7 :: l =>
    absorbAll length (s.absorb (word [b0, b1, b2, b3, b4, b5, b6, b7])) l
  | l => s.absorb (word l ||| (UInt64.ofNat (length % 256) <<< 56))

def State.finish (s : State) : UInt64 :=
  let s := { s with v2 := s.v2 ^^^ 0xff }.round.round.round
  s.v0 ^^^ s.v1 ^^^ s.v2 ^^^ s.v3

/-- SipHash-1-3. -/
def hash13 (k0 k1 : UInt64) (l : List UInt8) : UInt64 := (absorbAll l.length (init k0 k1) l).finish

end Sip
