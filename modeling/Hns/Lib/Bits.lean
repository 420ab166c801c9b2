import Mathlib.Tactic

/-!
# Bit strings in octets

Strings of bits packed in octets, the first bit as the most significant one of
the first octet. `bits n l` reads the first `n` bits of a string of octets, and
`pack` writes bits, with zeros up to the end of the last octet: it is undone by
reading as many bits (`bits_pack`).
-/

/-- A list is taken in full while a test lasts when all its elements pass it. -/
theorem List.length_takeWhile_eq_iff {α : Type*} {p : α → Bool} {l : List α} :
    (l.takeWhile p).length = l.length ↔ ∀ a ∈ l, p a := by
  constructor
  · intro h
    rw [← List.all_eq_true, ← (List.takeWhile_prefix p).eq_of_length h]
    exact List.all_takeWhile
  · intro h
    have : (l ++ []).takeWhile p = l ++ [].takeWhile p := List.takeWhile_append_of_pos h
    rw [List.append_nil] at this
    rw [this]
    simp

namespace Octet

/-- The bit at a place, zero past the end. -/
def bit (l : List UInt8) (i : ℕ) : Bool := (l.getD (i / 8) 0).toNat.testBit (7 - i % 8)

/-- The first `n` bits. -/
def bits (n : ℕ) (l : List UInt8) : List Bool := (List.range n).map (bit l)

/-- The octet with given bits, the first one as the most significant. -/
def ofBits (b : ℕ → Bool) : UInt8 :=
  UInt8.ofNat (Nat.ofBits fun i : Fin 8 => b (7 - i))

/-- Bits, packed in octets. -/
def pack (b : List Bool) : List UInt8 :=
  (List.range ((b.length + 7) / 8)).map fun j => ofBits fun i => b.getD (8 * j + i) false

@[simp] theorem length_bits (n : ℕ) (l : List UInt8) : (bits n l).length = n := by simp [bits]

@[simp] theorem length_pack (b : List Bool) : (pack b).length = (b.length + 7) / 8 := by
  simp [pack]

theorem getElem?_bits {n : ℕ} {l : List UInt8} {i : ℕ} (h : i < n) :
    (bits n l)[i]? = some (bit l i) := by
  rw [bits, List.getElem?_map, List.getElem?_range h]
  rfl

theorem testBit_ofBits (b : ℕ → Bool) {i : ℕ} (h : i < 8) :
    (ofBits b).toNat.testBit (7 - i) = b i := by
  have hlt : Nat.ofBits (fun i : Fin 8 => b (7 - i)) < 2 ^ 8 := Nat.ofBits_lt_two_pow _
  rw [ofBits, UInt8.toNat_ofNat_of_lt' (by simpa [UInt8.size] using hlt),
    Nat.testBit_ofBits_lt _ _ (by omega)]
  congr 1
  simp only
  omega

theorem bit_pack {b : List Bool} {i : ℕ} (h : i < b.length) : bit (pack b) i = b[i] := by
  rw [bit, pack, List.getD_eq_getElem?_getD, List.getElem?_map, List.getElem?_range (by omega)]
  simp only [Option.map_some, Option.getD_some]
  rw [testBit_ofBits _ (Nat.mod_lt _ (by norm_num)), Nat.div_add_mod,
    List.getD_eq_getElem?_getD, List.getElem?_eq_getElem h, Option.getD_some]

theorem bits_pack (b : List Bool) : bits b.length (pack b) = b := by
  refine List.ext_getElem (by simp) fun i hi hi' => ?_
  simp [bits, bit_pack hi']

end Octet
