import Mathlib.Tactic

/-!
# Octet strings

Strings of octets as numbers. The big-endian value `ofBE` of a string orders
strings of one length as the lexicographic order does (`lt_iff_ofBE_lt`), so
that a comparison of fixed-width arrays is a comparison of numbers; `toBE` and
`toLE` write a number in a fixed width.

`Octets n` is the type of the arrays of exactly `n` octets.
-/

namespace Octet

/-- The big-endian value of a string. -/
def ofBE : List UInt8 → ℕ
  | [] => 0
  | b :: l => b.toNat * 256 ^ l.length + ofBE l

/-- The `w` low octets of `n`, least significant first. -/
def toLE : ℕ → ℕ → List UInt8
  | 0, _ => []
  | w + 1, n => UInt8.ofNat n :: toLE w (n / 256)

/-- The `w` low octets of `n`, most significant first. -/
def toBE (w n : ℕ) : List UInt8 := (toLE w n).reverse

@[simp] theorem ofBE_nil : ofBE [] = 0 := rfl

@[simp] theorem ofBE_cons (b : UInt8) (l : List UInt8) :
    ofBE (b :: l) = b.toNat * 256 ^ l.length + ofBE l := rfl

theorem ofBE_lt (l : List UInt8) : ofBE l < 256 ^ l.length := by
  induction l with
  | nil => simp
  | cons b l ih =>
    have hb : b.toNat < 256 := b.toNat_lt
    calc ofBE (b :: l) < b.toNat * 256 ^ l.length + 256 ^ l.length := by
          rw [ofBE_cons]; omega
      _ = (b.toNat + 1) * 256 ^ l.length := by ring
      _ ≤ 256 * 256 ^ l.length := Nat.mul_le_mul_right _ hb
      _ = 256 ^ (b :: l).length := by rw [List.length_cons, pow_succ]; ring

theorem ofBE_append (l l' : List UInt8) :
    ofBE (l ++ l') = ofBE l * 256 ^ l'.length + ofBE l' := by
  induction l with
  | nil => simp
  | cons b l ih =>
    rw [List.cons_append, ofBE_cons, ofBE_cons, ih, List.length_append, pow_add]
    ring

@[simp] theorem ofBE_replicate_zero (n : ℕ) : ofBE (List.replicate n 0) = 0 := by
  induction n with
  | zero => rfl
  | succ n ih => simp [List.replicate_succ, ih]

@[simp] theorem length_toLE (w n : ℕ) : (toLE w n).length = w := by
  induction w generalizing n with
  | zero => rfl
  | succ w ih => simp [toLE, ih]

@[simp] theorem length_toBE (w n : ℕ) : (toBE w n).length = w := by simp [toBE]

theorem toBE_succ (w n : ℕ) : toBE (w + 1) n = toBE w (n / 256) ++ [UInt8.ofNat n] := by
  simp [toBE, toLE]

theorem ofBE_toBE (w n : ℕ) : ofBE (toBE w n) = n % 256 ^ w := by
  induction w generalizing n with
  | zero => simp [toBE, toLE, Nat.mod_one]
  | succ w ih =>
    rw [toBE_succ, ofBE_append, ih, pow_succ', Nat.mod_mul]
    simp
    ring

theorem ofBE_toBE_of_lt {w n : ℕ} (h : n < 256 ^ w) : ofBE (toBE w n) = n := by
  rw [ofBE_toBE, Nat.mod_eq_of_lt h]

/-- Two strings of one length are equal if their values are. -/
theorem toLE_inj {w n n' : ℕ} (h : toLE w n = toLE w n') : n % 256 ^ w = n' % 256 ^ w := by
  rw [← ofBE_toBE, ← ofBE_toBE, toBE, toBE, h]

theorem ofBE_inj {l l' : List UInt8} (hl : l.length = l'.length) (h : ofBE l = ofBE l') :
    l = l' := by
  induction l generalizing l' with
  | nil => exact (List.eq_nil_of_length_eq_zero hl.symm).symm
  | cons b l ih =>
    cases l' with
    | nil => simp at hl
    | cons b' l' =>
      have hl : l.length = l'.length := by simpa using hl
      rw [ofBE_cons, ofBE_cons, hl] at h
      have h₁ := hl ▸ ofBE_lt l
      have h₂ := ofBE_lt l'
      have hb : b.toNat = b'.toNat := by
        have := congrArg (· / 256 ^ l'.length) h
        simpa [Nat.add_comm, Nat.add_mul_div_right, Nat.div_eq_of_lt h₁, Nat.div_eq_of_lt h₂,
          Nat.pow_pos] using this
      rw [hb] at h
      rw [UInt8.toNat_inj.1 hb, ih hl (by omega)]

/-- On strings of one length, the lexicographic order is that of the values. -/
theorem lt_iff_ofBE_lt {l l' : List UInt8} (hl : l.length = l'.length) :
    l < l' ↔ ofBE l < ofBE l' := by
  induction l generalizing l' with
  | nil => simp [List.eq_nil_of_length_eq_zero hl.symm]
  | cons b l ih =>
    cases l' with
    | nil => simp at hl
    | cons b' l' =>
      have hl : l.length = l'.length := by simpa using hl
      have h₁ := hl ▸ ofBE_lt l
      have h₂ := ofBE_lt l'
      rw [List.cons_lt_cons_iff, ih hl, ofBE_cons, ofBE_cons, hl, UInt8.lt_iff_toNat_lt]
      rcases Nat.lt_trichotomy b.toNat b'.toNat with hb | hb | hb
      · have := Nat.mul_le_mul_right (256 ^ l'.length) (Nat.succ_le_of_lt hb)
        rw [Nat.succ_mul] at this
        exact ⟨fun _ => by omega, fun _ => .inl hb⟩
      · rw [UInt8.toNat_inj.1 hb]
        simp
      · have := Nat.mul_le_mul_right (256 ^ l'.length) (Nat.succ_le_of_lt hb)
        rw [Nat.succ_mul] at this
        refine ⟨fun h => ?_, fun h => by omega⟩
        rcases h with h | ⟨rfl, -⟩ <;> omega

/-- On strings of one length, the lexicographic order is that of the values. -/
theorem le_iff_ofBE_le {l l' : List UInt8} (hl : l.length = l'.length) :
    l ≤ l' ↔ ofBE l ≤ ofBE l' := by
  rw [← List.not_lt, lt_iff_ofBE_lt hl.symm, Nat.not_lt]

end Octet

/-- An array of exactly `n` octets. -/
structure Octets (n : ℕ) where
  bytes : List UInt8
  length_bytes : bytes.length = n
  deriving DecidableEq

namespace Octets

variable {n : ℕ}

@[ext] theorem ext {a b : Octets n} (h : a.bytes = b.bytes) : a = b := by
  cases a
  cases b
  simpa using h

/-- The array of `n` zeros. -/
def zero : Octets n := ⟨List.replicate n 0, List.length_replicate⟩

/-- The big-endian value of an array. -/
def value (a : Octets n) : ℕ := Octet.ofBE a.bytes

theorem value_lt (a : Octets n) : a.value < 256 ^ n := by
  have := Octet.ofBE_lt a.bytes
  rwa [a.length_bytes] at this

theorem value_injective : Function.Injective (value : Octets n → ℕ) := fun a b h =>
  ext (Octet.ofBE_inj (a.length_bytes.trans b.length_bytes.symm) h)

end Octets
