import Mathlib.Data.List.Basic
import Mathlib.Data.Nat.ModEq
import Mathlib.Data.Nat.Bitwise

/-!
# Bits of numbers, regrouped

Numbers of a fixed width, one behind the other, are a string of bits
(`Bits.spread`); any string of the right length is that of just one list of
numbers (`spread_inj`, `exists_spread`). So numbers of one width are regrouped
as numbers of another when their bits are the same, up to zeros at the end
(`Bits.Padded`).
-/

namespace Bits

/-- The last bits of a number, the most significant one first. -/
def of : ℕ → ℕ → List Bool
  | 0, _ => []
  | width + 1, n => n.testBit width :: of width n

/-- The bits of numbers, one behind the other. -/
def spread (width : ℕ) (l : List ℕ) : List Bool := l.flatMap (of width)

@[simp] theorem length_of (width n : ℕ) : (of width n).length = width := by
  induction width with
  | zero => rfl
  | succ width ih => rw [of, List.length_cons, ih]

theorem of_add (a b n : ℕ) : of (a + b) n = of a (n / 2 ^ b) ++ of b n := by
  induction a with
  | zero => rw [Nat.zero_add]; rfl
  | succ a ih =>
    rw [Nat.succ_add_eq_add_succ, Nat.add_succ, of, of, ih, Nat.testBit_div_two_pow]
    rfl

theorem of_mod {width m : ℕ} (h : width ≤ m) (n : ℕ) : of width (n % 2 ^ m) = of width n := by
  induction width with
  | zero => rfl
  | succ width ih =>
    rw [of, of, ih (Nat.le_of_succ_le h), Nat.testBit_mod_two_pow,
      decide_eq_true (Nat.lt_of_succ_le h), Bool.true_and]

/-- The bits of a number, shifted to make place for another. -/
theorem of_mul_add (a : ℕ) {b v : ℕ} (n : ℕ) (hv : v < 2 ^ b) :
    of (a + b) (n * 2 ^ b + v) = of a n ++ of b v := by
  have hdiv : (n * 2 ^ b + v) / 2 ^ b = n := by
    rw [Nat.mul_comm, Nat.mul_add_div (Nat.two_pow_pos b), Nat.div_eq_of_lt hv, Nat.add_zero]
  have hmod : of b (n * 2 ^ b + v) = of b v := by
    rw [← of_mod (Nat.le_refl b), Nat.mul_add_mod_of_lt hv]
  rw [of_add, hdiv, hmod]

theorem of_eq_of_iff_testBit {width m n : ℕ} :
    of width m = of width n ↔ ∀ i < width, m.testBit i = n.testBit i := by
  induction width with
  | zero => simp [of]
  | succ width ih =>
    rw [of, of, List.cons.injEq, ih, Nat.forall_lt_succ_right, and_comm]

theorem of_eq_of_iff {width m n : ℕ} : of width m = of width n ↔ m % 2 ^ width = n % 2 ^ width := by
  constructor
  · intro h
    refine Nat.eq_of_testBit_eq fun i => ?_
    rw [Nat.testBit_mod_two_pow, Nat.testBit_mod_two_pow]
    by_cases hi : i < width
    · rw [of_eq_of_iff_testBit.1 h i hi]
    · simp [hi]
  · intro h
    rw [← of_mod (Nat.le_refl width) m, ← of_mod (Nat.le_refl width) n, h]

theorem of_inj {width m n : ℕ} (hm : m < 2 ^ width) (hn : n < 2 ^ width)
    (h : of width m = of width n) : m = n := by
  rwa [of_eq_of_iff, Nat.mod_eq_of_lt hm, Nat.mod_eq_of_lt hn] at h

theorem of_zero_right (width : ℕ) : of width 0 = List.replicate width false := by
  induction width with
  | zero => rfl
  | succ width ih => rw [of, ih, Nat.zero_testBit, List.replicate_succ]

/-- Bits that are all zero. -/
theorem of_eq_replicate {width n : ℕ} :
    of width n = List.replicate width false ↔ n % 2 ^ width = 0 := by
  rw [← of_zero_right, of_eq_of_iff, Nat.zero_mod]

theorem exists_of (bits : List Bool) : ∃ n < 2 ^ bits.length, of bits.length n = bits := by
  induction bits with
  | nil => exact ⟨0, Nat.one_pos, rfl⟩
  | cons bit bits ih =>
    obtain ⟨n, hlt, hn⟩ := ih
    refine ⟨bit.toNat * 2 ^ bits.length + n, ?_, ?_⟩
    · have hbit := Nat.mul_le_mul_right (2 ^ bits.length) (Bool.toNat_le bit)
      rw [Nat.one_mul] at hbit
      rw [List.length_cons, Nat.pow_succ, Nat.mul_two]
      exact Nat.add_lt_add_of_le_of_lt hbit hlt
    · rw [List.length_cons, Nat.add_comm, of_mul_add 1 _ hlt, hn]
      cases bit <;> rfl

/-! ## Strings of bits -/

@[simp] theorem spread_nil (width : ℕ) : spread width [] = [] := rfl

@[simp] theorem spread_cons (width n : ℕ) (l : List ℕ) :
    spread width (n :: l) = of width n ++ spread width l := List.flatMap_cons

@[simp] theorem spread_append (width : ℕ) (l l' : List ℕ) :
    spread width (l ++ l') = spread width l ++ spread width l' := List.flatMap_append

@[simp] theorem length_spread (width : ℕ) (l : List ℕ) :
    (spread width l).length = width * l.length := by
  induction l with
  | nil => rfl
  | cons n l ih =>
    rw [spread_cons, List.length_append, length_of, ih, List.length_cons, Nat.mul_succ,
      Nat.add_comm]

/-- Numbers are known from their bits. -/
theorem spread_inj {width : ℕ} (hpos : 0 < width) {l l' : List ℕ} (hl : ∀ n ∈ l, n < 2 ^ width)
    (hl' : ∀ n ∈ l', n < 2 ^ width) (h : spread width l = spread width l') : l = l' := by
  have hlen : l.length = l'.length := by
    have hlen := congrArg List.length h
    rw [length_spread, length_spread] at hlen
    exact Nat.eq_of_mul_eq_mul_left hpos hlen
  induction l generalizing l' with
  | nil => exact (List.length_eq_zero_iff.1 hlen.symm).symm
  | cons n l ih =>
    cases l' with
    | nil => exact absurd hlen (Nat.succ_ne_zero _)
    | cons n' l' =>
      obtain ⟨hn, hl⟩ := List.forall_mem_cons.1 hl
      obtain ⟨hn', hl'⟩ := List.forall_mem_cons.1 hl'
      rw [spread_cons, spread_cons] at h
      obtain ⟨hhead, htail⟩ := List.append_inj h (by rw [length_of, length_of])
      rw [of_inj hn hn' hhead, ih hl hl' htail (Nat.succ.inj hlen)]

/-- Any string of so many bits is that of numbers. -/
theorem exists_spread (width : ℕ) {count : ℕ} {bits : List Bool}
    (h : bits.length = width * count) :
    ∃ l : List ℕ, l.length = count ∧ (∀ n ∈ l, n < 2 ^ width) ∧ spread width l = bits := by
  induction count generalizing bits with
  | zero => exact ⟨[], rfl, by simp, (List.length_eq_zero_iff.1 h).symm⟩
  | succ count ih =>
    rw [Nat.mul_succ] at h
    have hdrop : (bits.drop width).length = width * count := by
      rw [List.length_drop, h, Nat.add_sub_cancel]
    obtain ⟨l, hlen, hl, hspread⟩ := ih hdrop
    obtain ⟨n, hn, hof⟩ := exists_of (bits.take width)
    have htake : (bits.take width).length = width := by
      rw [List.length_take]
      exact Nat.min_eq_left (by omega)
    rw [htake] at hn hof
    refine ⟨n :: l, by rw [List.length_cons, hlen], List.forall_mem_cons.2 ⟨hn, hl⟩, ?_⟩
    rw [spread_cons, hof, hspread, List.take_append_drop]

/-! ## Padding -/

/-- The bits are followed by zeros, but by less than a number of them. -/
def Padded (width : ℕ) (bits padded : List Bool) : Prop :=
  ∃ count < width, padded = bits ++ List.replicate count false

namespace Padded

variable {width : ℕ} {front front' bits padded : List Bool}

theorem append (h : Padded width bits padded) (front : List Bool) :
    Padded width (front ++ bits) (front ++ padded) := by
  obtain ⟨count, hlt, rfl⟩ := h
  exact ⟨count, hlt, (List.append_assoc _ _ _).symm⟩

theorem append_iff (hlen : front.length = front'.length) :
    Padded width (front ++ bits) (front' ++ padded) ↔ front' = front ∧ Padded width bits padded := by
  constructor
  · rintro ⟨count, hlt, h⟩
    rw [List.append_assoc] at h
    obtain ⟨hfront, hrest⟩ := List.append_inj h hlen.symm
    exact ⟨hfront, count, hlt, hrest⟩
  · rintro ⟨rfl, h⟩
    exact h.append _

/-- Bits are padded up to a multiple of the width in one way. -/
theorem unique {padded' : List Bool} (h : Padded width bits padded) (h' : Padded width bits padded')
    (hdvd : width ∣ padded.length) (hdvd' : width ∣ padded'.length) : padded = padded' := by
  obtain ⟨count, hlt, rfl⟩ := h
  obtain ⟨count', hlt', rfl⟩ := h'
  rw [List.length_append, List.length_replicate] at hdvd hdvd'
  have hmod : count % width = count' % width :=
    Nat.ModEq.add_left_cancel' bits.length
      ((Nat.mod_eq_zero_of_dvd hdvd).trans (Nat.mod_eq_zero_of_dvd hdvd').symm)
  rw [Nat.mod_eq_of_lt hlt, Nat.mod_eq_of_lt hlt'] at hmod
  rw [hmod]

end Padded

end Bits
