import Mathlib.Data.Nat.Bitwise
import Hns.Core.Hash
import Hns.Lib.Fallible

/-!
# Proof of work

Compact targets, the work they stand for, and the test that a hash meets its
target. Targets and chainworks are unbounded (`BigUint`), here naturals.

* `compactToTarget_eq_ok`: a target read from a compact form `bits` is
  `mantissa * 256 ^ exponent / 256 ^ 3`, positive and below `2 ^ 256`;
* `compactToTarget_targetToCompact`: writing a target in compact form and
  reading it back rounds it down, never to an error;
* `verifyPow_eq`: the test on the bytes of the hash is the comparison of its
  value with the target.
-/

namespace Hns

inductive PowError
  | negativeTarget
  | zeroTarget
  | overflow
  | invalidChainworkHex
  deriving DecidableEq

/-- The exponent of a compact form. -/
def compactExponent (bits : UInt32) : ℕ := (bits >>> 24).toNat

/-- The mantissa of a compact form, without its sign bit. -/
def compactMantissa (bits : UInt32) : ℕ := (bits &&& 0x007fffff).toNat

/-- `BigUint::bits`: the number of significant bits. -/
def bitLen (n : ℕ) : ℕ := if n = 0 then 0 else n.log2 + 1

/-- The length of `BigUint::to_bytes_be`. -/
def byteLen (n : ℕ) : ℕ := n.log2 / 8 + 1

def compactToTarget (bits : UInt32) : Except PowError ℕ :=
  if bits &&& 0x00800000 ≠ 0 then .error .negativeTarget
  else
    let exponent := compactExponent bits
    let mantissa := compactMantissa bits
    if mantissa = 0 then .error .zeroTarget
    else
      let target := if exponent ≤ 3 then mantissa >>> (8 * (3 - exponent))
        else mantissa <<< (8 * (exponent - 3))
      if target = 0 then .error .zeroTarget
      else if 256 < bitLen target then .error .overflow
      else .ok target

def workForTarget (target : ℕ) : Except PowError ℕ :=
  if target = 0 then .error .zeroTarget else .ok (1 <<< 256 / (target + 1))

def targetForWork (work : ℕ) : Except PowError ℕ :=
  if work = 0 then .error .zeroTarget
  else
    let target := 1 <<< 256 / work
    if target = 0 then .error .zeroTarget else .ok (target - 1)

def targetToCompact (target : ℕ) : UInt32 :=
  if target = 0 then 0
  else
    let exponent := byteLen target
    let mantissa := if exponent ≤ 3 then target <<< (8 * (3 - exponent))
      else target >>> (8 * (exponent - 3))
    -- The sign bit must stay clear: one more octet of exponent instead.
    if mantissa &&& 0x00800000 ≠ 0 then
      UInt32.ofNat (exponent + 1) <<< 24 ||| UInt32.ofNat (mantissa >>> 8)
    else UInt32.ofNat exponent <<< 24 ||| UInt32.ofNat mantissa

/-- `Chainwork::from_bits`. -/
def Chainwork.fromBits (bits : UInt32) : Except PowError ℕ := do
  workForTarget (← compactToTarget bits)

/-- `Chainwork::to_hex`. -/
def Chainwork.toHex (work : ℕ) : List Char := Nat.toDigits 16 work

/-- The value of a hexadecimal digit. -/
def hexDigitValue (c : Char) : Option ℕ :=
  if '0' ≤ c ∧ c ≤ '9' then some (c.toNat - '0'.toNat)
  else if 'a' ≤ c ∧ c ≤ 'f' then some (c.toNat - 'a'.toNat + 10)
  else if 'A' ≤ c ∧ c ≤ 'F' then some (c.toNat - 'A'.toNat + 10)
  else none

/-- One more digit of a hexadecimal number; underscores between the digits are skipped. -/
def hexStep (value : ℕ) (c : Char) : Option ℕ :=
  if c = '_' then some value else (hexDigitValue c).map fun digit => 16 * value + digit

/-- `Chainwork::from_hex`: the digits may stand behind one plus sign. -/
def Chainwork.fromHex (text : List Char) : Except PowError ℕ :=
  let digits := if text.head? = some '+' ∧ text.tail.head? ≠ some '+' then text.tail else text
  if digits = [] ∨ digits.head? = some '_' then .error .invalidChainworkHex
  else Except.ofOption .invalidChainworkHex (digits.foldlM hexStep 0)

/-- `Target::to_be_bytes_32`, of a target of at most 32 octets. -/
def Target.toBeBytes32 (target : ℕ) : List UInt8 := Octet.toBE 32 target

def targetBytesFromCompact (bits : UInt32) : Except PowError (List UInt8) :=
  if bits &&& 0x00800000 ≠ 0 then .error .negativeTarget
  else
    let exponent := compactExponent bits
    let mantissa := compactMantissa bits
    if mantissa = 0 then .error .zeroTarget
    else if 32 < exponent then return Target.toBeBytes32 (← compactToTarget bits)
    else if exponent ≤ 3 then
      .ok (List.replicate 28 0 ++ Octet.toBE 4 (mantissa >>> (8 * (3 - exponent))))
    else
      -- The three octets of the mantissa, at the offset `32 - exponent`.
      .ok (List.replicate (32 - exponent) 0 ++ Octet.toBE 3 mantissa ++
        List.replicate (exponent - 3) 0)

/-- Whether the bytes of the hash are at most those of the target. -/
def verifyPow (hash : Hash) (bits : UInt32) : Except PowError Bool := do
  return decide (hash.bytes ≤ (← targetBytesFromCompact bits))

/-! ## Compact forms -/

theorem compactExponent_lt (bits : UInt32) : compactExponent bits < 256 := by
  have := bits.toNat_lt
  rw [compactExponent, UInt32.toNat_shiftRight, Nat.shiftRight_eq_div_pow]
  exact Nat.div_lt_of_lt_mul this

theorem compactMantissa_eq (bits : UInt32) : compactMantissa bits = bits.toNat % 2 ^ 23 := by
  rw [compactMantissa, UInt32.toNat_and]
  exact Nat.and_two_pow_sub_one_eq_mod bits.toNat 23

theorem compactMantissa_lt (bits : UInt32) : compactMantissa bits < 2 ^ 23 :=
  compactMantissa_eq bits ▸ Nat.mod_lt _ (by norm_num)

theorem bitLen_le_iff {n w : ℕ} : bitLen n ≤ w ↔ n < 2 ^ w := by
  rw [bitLen]
  split_ifs with h
  · simp [h]
  · rw [Nat.succ_le_iff, Nat.log2_lt h]

/-- The number a mantissa and an exponent stand for. -/
def compactValue (exponent mantissa : ℕ) : ℕ := mantissa * 256 ^ exponent / 256 ^ 3

theorem shift_eq_compactValue (exponent mantissa : ℕ) :
    (if exponent ≤ 3 then mantissa >>> (8 * (3 - exponent))
      else mantissa <<< (8 * (exponent - 3))) = compactValue exponent mantissa := by
  have h256 (k : ℕ) : 2 ^ (8 * k) = 256 ^ k := by rw [pow_mul]; norm_num
  rw [compactValue]
  split_ifs with h
  · obtain ⟨k, hk⟩ := Nat.exists_eq_add_of_le h
    rw [hk, Nat.add_sub_cancel_left, Nat.shiftRight_eq_div_pow, h256, pow_add,
      mul_comm (256 ^ exponent), Nat.mul_div_mul_right _ _ (by positivity)]
  · obtain ⟨k, rfl⟩ := Nat.exists_eq_add_of_le (Nat.le_of_not_le h)
    rw [Nat.add_sub_cancel_left, Nat.shiftLeft_eq, h256, pow_add, mul_left_comm,
      Nat.mul_div_cancel_left _ (by positivity)]

/-- What a target read from a compact form is. -/
theorem compactToTarget_eq_ok {bits : UInt32} {target : ℕ} :
    compactToTarget bits = .ok target ↔ bits &&& 0x00800000 = 0 ∧
      target = compactValue (compactExponent bits) (compactMantissa bits) ∧
      0 < target ∧ target < 2 ^ 256 := by
  have hzero : compactMantissa bits = 0 →
      compactValue (compactExponent bits) (compactMantissa bits) = 0 := fun h => by
    simp [compactValue, h]
  simp only [compactToTarget, shift_eq_compactValue, ← bitLen_le_iff]
  generalize compactValue (compactExponent bits) (compactMantissa bits) = value at hzero ⊢
  split_ifs with hs hm ht hl
  · simp [hs]
  · simp only [false_iff]
    rintro ⟨-, rfl, hpos, -⟩
    exact hpos.ne' (hzero hm)
  · simp only [false_iff]
    rintro ⟨-, rfl, hpos, -⟩
    exact hpos.ne' ht
  · simp only [false_iff]
    rintro ⟨-, rfl, -, hle⟩
    exact hl.not_ge hle
  · rw [Except.ok.injEq]
    constructor
    · rintro rfl
      exact ⟨not_not.1 hs, rfl, Nat.pos_of_ne_zero ht, Nat.le_of_not_lt hl⟩
    · rintro ⟨-, rfl, -⟩
      rfl

theorem compactToTarget_pos {bits : UInt32} {target : ℕ}
    (h : compactToTarget bits = .ok target) : 0 < target := (compactToTarget_eq_ok.1 h).2.2.1

theorem compactToTarget_lt {bits : UInt32} {target : ℕ}
    (h : compactToTarget bits = .ok target) : target < 2 ^ 256 := (compactToTarget_eq_ok.1 h).2.2.2

/-- Reading the fields of a compact form put together from them. -/
theorem toNat_compact {exponent mantissa : ℕ} (he : exponent < 256) (hm : mantissa < 2 ^ 24) :
    (UInt32.ofNat exponent <<< 24 ||| UInt32.ofNat mantissa).toNat =
      exponent * 2 ^ 24 + mantissa := by
  have he' : exponent <<< 24 < 2 ^ 32 := by
    rw [Nat.shiftLeft_eq]
    omega
  rw [UInt32.toNat_or, UInt32.toNat_shiftLeft, UInt32.toNat_ofNat_of_lt' (he.trans (by decide)),
    UInt32.toNat_ofNat_of_lt' (hm.trans (by decide)), ← Nat.shiftLeft_eq, Nat.shiftLeft_add_eq_or_of_lt hm]
  exact congrArg (· ||| mantissa) (Nat.mod_eq_of_lt he')

theorem compactExponent_compact {exponent mantissa : ℕ} (he : exponent < 256)
    (hm : mantissa < 2 ^ 24) :
    compactExponent (UInt32.ofNat exponent <<< 24 ||| UInt32.ofNat mantissa) = exponent := by
  rw [compactExponent, UInt32.toNat_shiftRight, toNat_compact he hm]
  simp only [UInt32.reduceToNat, Nat.reduceMod, Nat.shiftRight_eq_div_pow]
  omega

theorem compactMantissa_compact {exponent mantissa : ℕ} (he : exponent < 256)
    (hm : mantissa < 2 ^ 23) :
    compactMantissa (UInt32.ofNat exponent <<< 24 ||| UInt32.ofNat mantissa) = mantissa := by
  rw [compactMantissa_eq, toNat_compact he (by omega)]
  omega

/-- The sign bit is the bit of weight `2 ^ 23`. -/
theorem sign_eq_zero_iff (bits : UInt32) :
    bits &&& 0x00800000 = 0 ↔ bits.toNat % 2 ^ 24 < 2 ^ 23 := by
  rw [← UInt32.toNat_inj, UInt32.toNat_and]
  change bits.toNat &&& 2 ^ 23 = 0 ↔ _
  rw [Nat.and_two_pow]
  cases h : bits.toNat.testBit 23 <;>
    simp only [Nat.testBit_eq_decide_div_mod_eq, decide_eq_true_eq, decide_eq_false_iff_not] at h <;>
    simp <;> omega

theorem sign_compact {exponent mantissa : ℕ} (he : exponent < 256) (hm : mantissa < 2 ^ 23) :
    (UInt32.ofNat exponent <<< 24 ||| UInt32.ofNat mantissa) &&& 0x00800000 = 0 := by
  rw [sign_eq_zero_iff, toNat_compact he (by omega)]
  omega

/-- Reading a compact form put together from an exponent and a mantissa. -/
theorem compactToTarget_compact {exponent mantissa : ℕ} (he : exponent < 256)
    (hm : mantissa < 2 ^ 23) (hpos : 0 < compactValue exponent mantissa)
    (hlt : compactValue exponent mantissa < 2 ^ 256) :
    compactToTarget (UInt32.ofNat exponent <<< 24 ||| UInt32.ofNat mantissa) =
      .ok (compactValue exponent mantissa) := by
  rw [compactToTarget_eq_ok, compactExponent_compact he (by omega), compactMantissa_compact he hm]
  exact ⟨sign_compact he hm, rfl, hpos, hlt⟩

/-! ## Writing a target in compact form -/

theorem byteLen_spec {n : ℕ} (h : n ≠ 0) : 256 ^ (byteLen n - 1) ≤ n ∧ n < 256 ^ byteLen n := by
  have h256 (k : ℕ) : 256 ^ k = 2 ^ (8 * k) := by rw [pow_mul]; norm_num
  rw [h256, h256, ← Nat.le_log2 h, ← Nat.log2_lt h, byteLen]
  omega

theorem byteLen_le {n w : ℕ} (h : n < 256 ^ w) (hw : 0 < w) : byteLen n ≤ w := by
  rcases eq_or_ne n 0 with rfl | hn
  · exact hw
  · have := Nat.pow_lt_pow_iff_right (by norm_num) |>.1 ((byteLen_spec hn).1.trans_lt h)
    omega

theorem mantissa_eq {target : ℕ} :
    (if byteLen target ≤ 3 then target <<< (8 * (3 - byteLen target))
      else target >>> (8 * (byteLen target - 3))) = target * 256 ^ 3 / 256 ^ byteLen target := by
  have h256 (k : ℕ) : 2 ^ (8 * k) = 256 ^ k := by rw [pow_mul]; norm_num
  split_ifs with h
  · obtain ⟨k, hk⟩ := Nat.exists_eq_add_of_le h
    rw [hk, Nat.add_sub_cancel_left, Nat.shiftLeft_eq, h256, pow_add, mul_left_comm,
      Nat.mul_div_cancel_left _ (by positivity)]
  · obtain ⟨k, hk⟩ := Nat.exists_eq_add_of_le (Nat.le_of_not_le h)
    rw [hk, Nat.add_sub_cancel_left, Nat.shiftRight_eq_div_pow, h256, pow_add, mul_comm target,
      Nat.mul_div_mul_left _ _ (by positivity)]

/-- The leading octets of a target: a mantissa of three octets and its exponent, as they are written
    in a compact form. -/
structure LeadingOctets (target exponent mantissa : ℕ) : Prop where
  ge : 2 ^ 15 ≤ mantissa
  lt : mantissa < 2 ^ 23
  mul_le : mantissa * 256 ^ exponent ≤ target * 256 ^ 3
  lt_mul : target * 256 ^ 3 < (mantissa + 1) * 256 ^ exponent

/-- The leading octets stand for a value that is at most the target. -/
theorem LeadingOctets.value_le {target exponent mantissa : ℕ}
    (h : LeadingOctets target exponent mantissa) : compactValue exponent mantissa ≤ target :=
  Nat.div_le_of_le_mul (h.mul_le.trans_eq (mul_comm ..))

/-- A positive target is written as its leading octets, which stand for a positive value. -/
theorem targetToCompact_eq {target : ℕ} (hpos : 0 < target) (hlt : target < 2 ^ 256) :
    ∃ exponent mantissa, targetToCompact target =
        UInt32.ofNat exponent <<< 24 ||| UInt32.ofNat mantissa ∧ exponent < 256 ∧
      LeadingOctets target exponent mantissa ∧ 0 < compactValue exponent mantissa := by
  obtain ⟨hlo, hhi⟩ := byteLen_spec hpos.ne'
  have hlen : byteLen target ≤ 32 := byteLen_le (by norm_num at hlt ⊢; exact hlt) (by norm_num)
  have hlen' : 1 ≤ byteLen target := Nat.le_add_left 1 _
  rw [targetToCompact, if_neg hpos.ne']
  dsimp only
  rw [mantissa_eq]
  generalize byteLen target = exponent at *
  -- The three leading octets of the target.
  obtain ⟨mantissa, hm⟩ : ∃ m, m = target * 256 ^ 3 / 256 ^ exponent := ⟨_, rfl⟩
  have hexp : (256 : ℕ) ^ exponent = 256 ^ (exponent - 1) * 256 := by
    rw [← pow_succ, Nat.sub_add_cancel hlen']
  have hm_hi : mantissa < 2 ^ 24 := by
    rw [hm, Nat.div_lt_iff_lt_mul (by positivity)]
    calc target * 256 ^ 3 < 256 ^ exponent * 256 ^ 3 := by gcongr
      _ = 2 ^ 24 * 256 ^ exponent := by ring
  have hm_lo : 2 ^ 16 ≤ mantissa := by
    rw [hm, Nat.le_div_iff_mul_le (by positivity), hexp]
    calc 2 ^ 16 * (256 ^ (exponent - 1) * 256) = 256 ^ (exponent - 1) * 256 ^ 3 := by ring
      _ ≤ target * 256 ^ 3 := by gcongr
  -- A quotient of the target, by the power of its exponent.
  have hdiv {e m : ℕ} (h : m = target * 256 ^ 3 / 256 ^ e) :
      m * 256 ^ e ≤ target * 256 ^ 3 ∧ target * 256 ^ 3 < (m + 1) * 256 ^ e := by
    rw [h]
    refine ⟨Nat.div_mul_le_self _ _, ?_⟩
    rw [mul_comm (_ + 1)]
    exact Nat.lt_mul_div_succ _ (by positivity)
  have h256 : 256 ≤ 256 ^ exponent := Nat.le_self_pow (by omega) _
  rw [← hm]
  split_ifs with hs
  · have hs : 2 ^ 23 ≤ mantissa := by
      by_contra hlt
      refine hs (?_ : mantissa &&& 2 ^ 23 = 0)
      rw [Nat.and_two_pow, Nat.testBit_lt_two_pow (by omega)]
      rfl
    have hm' : mantissa >>> 8 = target * 256 ^ 3 / 256 ^ (exponent + 1) := by
      rw [Nat.shiftRight_eq_div_pow, hm, Nat.div_div_eq_div_mul, pow_succ 256 exponent]
    have hlo' : 2 ^ 15 ≤ mantissa >>> 8 := by
      rw [Nat.shiftRight_eq_div_pow]
      omega
    refine ⟨exponent + 1, mantissa >>> 8, rfl, by omega,
      ⟨hlo', ?_, (hdiv hm').1, (hdiv hm').2⟩, ?_⟩
    · rw [Nat.shiftRight_eq_div_pow]
      omega
    · rw [compactValue]
      refine Nat.div_pos ?_ (by norm_num)
      calc 256 ^ 3 ≤ 2 ^ 15 * (256 * 256) := by norm_num
        _ ≤ mantissa >>> 8 * (256 ^ exponent * 256) := by gcongr
        _ = mantissa >>> 8 * 256 ^ (exponent + 1) := by rw [pow_succ 256]
  · have hs : mantissa < 2 ^ 23 := by
      by_contra hge
      refine hs (?_ : mantissa &&& 2 ^ 23 ≠ 0)
      rw [Nat.and_two_pow, Nat.testBit_of_two_pow_le_and_two_pow_add_one_gt (by omega) hm_hi]
      norm_num
    refine ⟨exponent, mantissa, rfl, by omega,
      ⟨by omega, hs, (hdiv hm).1, (hdiv hm).2⟩, ?_⟩
    rw [compactValue]
    refine Nat.div_pos ?_ (by norm_num)
    calc 256 ^ 3 = 2 ^ 16 * 256 := by norm_num
      _ ≤ mantissa * 256 ^ exponent := by gcongr

/-- A positive target, written in compact form and read back, is rounded down. -/
theorem compactToTarget_targetToCompact {target : ℕ} (hpos : 0 < target)
    (hlt : target < 2 ^ 256) :
    ∃ target', compactToTarget (targetToCompact target) = .ok target' ∧ target' ≤ target := by
  obtain ⟨exponent, mantissa, heq, he, hlead, hvpos⟩ := targetToCompact_eq hpos hlt
  rw [heq]
  exact ⟨_, compactToTarget_compact he hlead.lt hvpos (hlead.value_le.trans_lt hlt),
    hlead.value_le⟩

/-! ## Work -/

theorem workForTarget_eq {target : ℕ} (h : 0 < target) :
    workForTarget target = .ok (2 ^ 256 / (target + 1)) := by
  rw [workForTarget, if_neg h.ne', Nat.shiftLeft_eq, one_mul]

/-- The work of a compact form is that of its target. -/
theorem fromBits_eq_ok {bits : UInt32} {work : ℕ} :
    Chainwork.fromBits bits = .ok work ↔
      ∃ target, compactToTarget bits = .ok target ∧ work = 2 ^ 256 / (target + 1) := by
  rw [Chainwork.fromBits]
  cases h : compactToTarget bits with
  | error e => simp [bind, Except.bind]
  | ok target =>
    simp [bind, Except.bind, workForTarget_eq (compactToTarget_pos h), eq_comm]

/-- Every compact form that has a target stands for some work. -/
theorem fromBits_pos {bits : UInt32} {work : ℕ} (h : Chainwork.fromBits bits = .ok work) :
    0 < work := by
  obtain ⟨target, ht, rfl⟩ := fromBits_eq_ok.1 h
  exact Nat.div_pos (compactToTarget_lt ht) (Nat.succ_pos _)

/-- Less than `2 ^ 256` work asks for a target. -/
theorem targetForWork_eq {work : ℕ} (hpos : 0 < work) (hle : work ≤ 2 ^ 256) :
    targetForWork work = .ok (2 ^ 256 / work - 1) := by
  have : 0 < 2 ^ 256 / work := Nat.div_pos hle hpos
  rw [targetForWork, if_neg hpos.ne', Nat.shiftLeft_eq, one_mul, if_neg this.ne']

/-! ## Work as a text -/

theorem hexStep_digitChar {digit : ℕ} (h : digit < 16) (value : ℕ) :
    hexStep value digit.digitChar = some (16 * value + digit) := by
  have key : ∀ digit < 16, digit.digitChar ≠ '_' ∧ hexDigitValue digit.digitChar = some digit := by
    decide
  obtain ⟨hne, hvalue⟩ := key digit h
  rw [hexStep, if_neg hne, hvalue, Option.map_some]

/-- The digits of a number are read as the number, and start with a digit. -/
theorem toHex_spec (work : ℕ) :
    (∃ digit < 16, (Chainwork.toHex work).head? = some digit.digitChar) ∧
      (Chainwork.toHex work).foldlM hexStep 0 = some work := by
  induction work using Nat.strong_induction_on with
  | _ work ih =>
    rw [Chainwork.toHex, Nat.toDigits_eq_if (by decide)]
    split_ifs with hlt
    · refine ⟨⟨work, hlt, rfl⟩, ?_⟩
      rw [List.foldlM_cons, hexStep_digitChar hlt]
      simp
    · obtain ⟨⟨digit, hdigit, hhead⟩, hfold⟩ := ih (work / 16) (by omega)
      rw [Chainwork.toHex] at hhead hfold
      refine ⟨⟨digit, hdigit, by rw [List.head?_append, hhead, Option.some_or]⟩, ?_⟩
      rw [List.foldlM_append, hfold, Option.bind_eq_bind, Option.bind_some, List.foldlM_cons,
        hexStep_digitChar (Nat.mod_lt _ (by decide)), Nat.div_add_mod]
      rfl

theorem fromHex_toHex (work : ℕ) : Chainwork.fromHex (Chainwork.toHex work) = .ok work := by
  obtain ⟨⟨digit, hdigit, hhead⟩, hfold⟩ := toHex_spec work
  have hplain : ∀ digit < 16, digit.digitChar ≠ '+' ∧ digit.digitChar ≠ '_' := by decide
  obtain ⟨hplus, hscore⟩ := hplain digit hdigit
  have hne : Chainwork.toHex work ≠ [] := Nat.toDigits_ne_nil
  have hbare : ¬((Chainwork.toHex work).head? = some '+' ∧
      (Chainwork.toHex work).tail.head? ≠ some '+') := by simp [hhead, hplus]
  have hstart : ¬(Chainwork.toHex work = [] ∨ (Chainwork.toHex work).head? = some '_') := by
    rw [hhead, Option.some.injEq]
    exact not_or.2 ⟨hne, hscore⟩
  simp only [Chainwork.fromHex]
  rw [if_neg hbare, if_neg hstart, hfold, Except.ofOption_some]

/-! ## The proof-of-work test -/

/-- The bytes of a target, where its compact form has one. -/
theorem targetBytesFromCompact_eq {bits : UInt32} {target : ℕ}
    (h : compactToTarget bits = .ok target) :
    ∃ bytes, targetBytesFromCompact bits = .ok bytes ∧ bytes.length = 32 ∧
      Octet.ofBE bytes = target := by
  have hlt := compactToTarget_lt h
  obtain ⟨hs, htarget, hpos, -⟩ := compactToTarget_eq_ok.1 h
  have hm : compactMantissa bits ≠ 0 := fun hm => by
    rw [htarget, hm] at hpos
    simp [compactValue] at hpos
  have hm' := compactMantissa_lt bits
  rw [targetBytesFromCompact, if_neg (not_not.2 hs)]
  dsimp only
  rw [if_neg hm]
  split_ifs with he he'
  · rw [h]
    exact ⟨_, rfl, Octet.length_toBE 32 _,
      Octet.ofBE_toBE_of_lt (by norm_num at hlt ⊢; exact hlt)⟩
  · refine ⟨_, rfl, by simp, ?_⟩
    have := shift_eq_compactValue (compactExponent bits) (compactMantissa bits)
    rw [if_pos he'] at this
    rw [Octet.ofBE_append, Octet.ofBE_replicate_zero, zero_mul, zero_add, this, ← htarget,
      Octet.ofBE_toBE_of_lt]
    rw [htarget, compactValue]
    refine Nat.div_lt_of_lt_mul ?_
    calc compactMantissa bits * 256 ^ compactExponent bits
        ≤ compactMantissa bits * 256 ^ 3 := by gcongr; norm_num
      _ < 256 ^ 3 * 256 ^ 4 := by rw [mul_comm]; gcongr; omega
  · have := shift_eq_compactValue (compactExponent bits) (compactMantissa bits)
    rw [if_neg he', Nat.shiftLeft_eq] at this
    refine ⟨_, rfl, by simp; omega, ?_⟩
    rw [Octet.ofBE_append, Octet.ofBE_append, Octet.ofBE_replicate_zero, Octet.ofBE_replicate_zero,
      Octet.ofBE_toBE_of_lt (by omega), htarget, ← this, List.length_replicate, pow_mul]
    norm_num

/-- The test on bytes is the comparison of the hash, as a number, with the target. -/
theorem verifyPow_eq {hash : Hash} {bits : UInt32} {target : ℕ}
    (h : compactToTarget bits = .ok target) :
    verifyPow hash bits = .ok (decide (hash.value ≤ target)) := by
  obtain ⟨bytes, hb, hlen, rfl⟩ := targetBytesFromCompact_eq h
  rw [verifyPow, hb]
  exact congrArg Except.ok
    (decide_eq_decide.2 (Octet.le_iff_ofBE_le (hash.length_bytes.trans hlen.symm)))

end Hns
