import Mathlib.Order.Bounds.Basic
import Hns.Core.Pow

/-!
# Compact forms

Two things about compact forms of targets.

* `verifyPow_eq_compare_iff`: the test on bytes is the comparison with the target
  for all forms but those whose mantissa is shifted out, where the one accepts a
  zero target and the other rejects it.
* `isGreatest_targetToCompact`: writing a target in compact form rounds it down to
  the greatest one that has such a form. A target has its `LeadingOctets` at one
  place only, those of a greater target are greater, or at a higher place, and the
  rounded target keeps them: so it is written as before, and forms are ordered as
  the targets they were written for (`targetToCompact_mono`).
-/

namespace Hns

open Except

/-! ## The test on bytes -/

/-- The mantissa is not zero, and is shifted out by a small exponent. -/
def ShiftedOut (bits : UInt32) : Prop :=
  bits &&& 0x00800000 = 0 ∧ compactMantissa bits ≠ 0 ∧ compactExponent bits < 3 ∧
    compactMantissa bits < 256 ^ (3 - compactExponent bits)

instance (bits : UInt32) : Decidable (ShiftedOut bits) := by
  unfold ShiftedOut
  infer_instance

/-- The comparison of the hash with the target, as numbers. -/
def compareWithTarget (hash : Hash) (bits : UInt32) : Except PowError Bool :=
  (compactToTarget bits).map fun target => decide (hash.value ≤ target)

theorem compactValue_eq_zero_iff {exponent mantissa : ℕ} (h : exponent ≤ 3) :
    compactValue exponent mantissa = 0 ↔ mantissa < 256 ^ (3 - exponent) := by
  obtain ⟨k, hk⟩ := Nat.exists_eq_add_of_le h
  rw [compactValue, hk, Nat.add_sub_cancel_left, pow_add, mul_comm,
    Nat.mul_div_mul_left _ _ (by positivity), Nat.div_eq_zero_iff]
  simp

theorem compactValue_lt {exponent mantissa : ℕ} (he : exponent ≤ 32) (hm : mantissa < 2 ^ 23) :
    compactValue exponent mantissa < 2 ^ 256 := by
  refine Nat.div_lt_of_lt_mul ?_
  calc mantissa * 256 ^ exponent < 2 ^ 23 * 256 ^ exponent := by gcongr
    _ ≤ 2 ^ 23 * 256 ^ 32 := by gcongr; norm_num
    _ ≤ 256 ^ 3 * 2 ^ 256 := by norm_num

theorem targetBytesFromCompact_of_error {bits : UInt32} {e : PowError}
    (h : compactToTarget bits = .error e) :
    targetBytesFromCompact bits = .error e ↔ ¬ShiftedOut bits := by
  have hm := compactMantissa_lt bits
  rw [targetBytesFromCompact, ShiftedOut]
  by_cases hs : bits &&& 0x00800000 = 0
  · by_cases hzero : compactMantissa bits = 0
    · have he : e = .zeroTarget := by
        rw [compactToTarget, if_neg (not_not.2 hs)] at h
        simp only [hzero, if_pos] at h
        exact (Except.error.inj h).symm
      simp [hs, hzero, he]
    · rw [if_neg (not_not.2 hs)]
      dsimp only
      rw [if_neg hzero]
      split_ifs with hlarge hsmall
      · rw [h]
        refine iff_of_true rfl ?_
        rintro ⟨-, -, hlt, -⟩
        omega
      · -- A value that is not zero has a target.
        refine iff_of_false (fun heq => by cases heq) (not_not.2 ⟨hs, hzero, ?_⟩)
        have hvalue : compactValue (compactExponent bits) (compactMantissa bits) = 0 := by
          by_contra hpos
          have hok := compactToTarget_eq_ok.2 ⟨hs, rfl, Nat.pos_of_ne_zero hpos,
            compactValue_lt (hsmall.trans (by norm_num)) hm⟩
          rw [h] at hok
          cases hok
        have hlt := (compactValue_eq_zero_iff hsmall).1 hvalue
        refine ⟨lt_of_le_of_ne hsmall fun heq => hzero ?_, hlt⟩
        rw [heq] at hlt
        simpa using hlt
      · -- The three octets have their place, and the target is in range.
        exfalso
        have hpos : 0 < compactValue (compactExponent bits) (compactMantissa bits) := by
          refine Nat.div_pos ?_ (by norm_num)
          calc 256 ^ 3 ≤ 1 * 256 ^ compactExponent bits := by
                rw [one_mul]
                exact Nat.pow_le_pow_right (by norm_num) (by omega)
            _ ≤ compactMantissa bits * 256 ^ compactExponent bits :=
                Nat.mul_le_mul_right _ (Nat.pos_of_ne_zero hzero)
        have hok := compactToTarget_eq_ok.2 ⟨hs, rfl, hpos,
          compactValue_lt (not_lt.1 hlarge) hm⟩
        rw [h] at hok
        cases hok
  · have he : e = .negativeTarget := by
      rw [compactToTarget, if_pos hs] at h
      exact (Except.error.inj h).symm
    rw [if_pos hs, he]
    exact iff_of_true rfl fun hout => hs hout.1

/-- The test on bytes is the comparison with the target exactly when the mantissa is not shifted
    out. -/
theorem verifyPow_eq_compare_iff (hash : Hash) (bits : UInt32) :
    verifyPow hash bits = compareWithTarget hash bits ↔ ¬ShiftedOut bits := by
  rw [compareWithTarget]
  cases h : compactToTarget bits with
  | ok target =>
    rw [verifyPow_eq h]
    refine iff_of_true rfl ?_
    rintro ⟨-, -, hlt, hshift⟩
    obtain ⟨-, htarget, hpos, -⟩ := compactToTarget_eq_ok.1 h
    rw [htarget, (compactValue_eq_zero_iff hlt.le).2 hshift] at hpos
    exact lt_irrefl 0 hpos
  | error e =>
    rw [← targetBytesFromCompact_of_error h, verifyPow]
    cases targetBytesFromCompact bits with
    | ok bytes => exact iff_of_false (fun heq => by cases heq) fun heq => by cases heq
    | error e' => simp [bind, Except.bind, Except.map]

/-- A mantissa that is shifted out: every hash but zero is found too great, where the target is
    rejected. -/
theorem verifyPow_ne_compare :
    verifyPow ⟨List.replicate 32 1, rfl⟩ 0x01000001 = .ok false ∧
      compareWithTarget ⟨List.replicate 32 1, rfl⟩ 0x01000001 = .error .zeroTarget := by
  decide +kernel

/-! ## The leading octets of a target -/

namespace LeadingOctets

variable {target target' exponent exponent' mantissa mantissa' : ℕ}

/-- The exponent of a greater target is not smaller. -/
theorem exponent_le (h : LeadingOctets target exponent mantissa)
    (h' : LeadingOctets target' exponent' mantissa') (hle : target ≤ target') :
    exponent ≤ exponent' := by
  by_contra hlt
  have hcontra : target' * 256 ^ 3 < target * 256 ^ 3 := by
    calc target' * 256 ^ 3 < (mantissa' + 1) * 256 ^ exponent' := h'.lt_mul
      _ ≤ 2 ^ 23 * 256 ^ exponent' := Nat.mul_le_mul_right _ h'.lt
      _ = 2 ^ 15 * 256 ^ (exponent' + 1) := by ring
      _ ≤ 2 ^ 15 * 256 ^ exponent :=
        Nat.mul_le_mul_left _ (Nat.pow_le_pow_right (by norm_num) (not_le.1 hlt))
      _ ≤ mantissa * 256 ^ exponent := Nat.mul_le_mul_right _ h.ge
      _ ≤ target * 256 ^ 3 := h.mul_le
  exact absurd (Nat.mul_le_mul_right (256 ^ 3) hle) (not_le.2 hcontra)

/-- Neither is its mantissa, when they have the same exponent. -/
theorem mantissa_le (h : LeadingOctets target exponent mantissa)
    (h' : LeadingOctets target' exponent mantissa') (hle : target ≤ target') :
    mantissa ≤ mantissa' := by
  refine Nat.le_of_lt_succ (Nat.lt_of_mul_lt_mul_right (a := 256 ^ exponent) ?_)
  calc mantissa * 256 ^ exponent ≤ target * 256 ^ 3 := h.mul_le
    _ ≤ target' * 256 ^ 3 := Nat.mul_le_mul_right _ hle
    _ < (mantissa' + 1) * 256 ^ exponent := h'.lt_mul

/-- A target has its leading octets at one place. -/
theorem unique (h : LeadingOctets target exponent mantissa)
    (h' : LeadingOctets target exponent' mantissa') :
    exponent = exponent' ∧ mantissa = mantissa' := by
  have hexp : exponent = exponent' := (h.exponent_le h' le_rfl).antisymm (h'.exponent_le h le_rfl)
  subst hexp
  exact ⟨rfl, (h.mantissa_le h' le_rfl).antisymm (h'.mantissa_le h le_rfl)⟩

/-- Below four octets, nothing of the target is left out. -/
theorem value_eq (h : LeadingOctets target exponent mantissa) (he : exponent ≤ 3) :
    compactValue exponent mantissa = target := by
  obtain ⟨k, hk⟩ := Nat.exists_eq_add_of_le he
  have h256 : (256 : ℕ) ^ 3 = 256 ^ k * 256 ^ exponent := by rw [hk, pow_add, mul_comm]
  have hle := h.mul_le
  have hlt := h.lt_mul
  rw [h256, ← mul_assoc] at hle hlt
  have hmantissa : mantissa = target * 256 ^ k :=
    (Nat.le_of_mul_le_mul_right hle (by positivity)).antisymm
      (Nat.le_of_lt_succ (Nat.lt_of_mul_lt_mul_right hlt))
  rw [compactValue, hmantissa, h256, mul_assoc, Nat.mul_div_cancel _ (by positivity)]

end LeadingOctets

/-- From three octets on, the mantissa has its place among those of the value. -/
theorem compactValue_mul {exponent mantissa : ℕ} (he : 3 ≤ exponent) :
    compactValue exponent mantissa * 256 ^ 3 = mantissa * 256 ^ exponent := by
  obtain ⟨k, rfl⟩ := Nat.exists_eq_add_of_le he
  rw [compactValue, pow_add, mul_left_comm, Nat.mul_div_cancel_left _ (by positivity), mul_comm]

namespace LeadingOctets

variable {target exponent mantissa : ℕ}

/-- The value has the leading octets of the target. -/
theorem value (h : LeadingOctets target exponent mantissa) :
    LeadingOctets (compactValue exponent mantissa) exponent mantissa := by
  rcases le_total exponent 3 with he | he
  · rw [h.value_eq he]
    exact h
  · refine ⟨h.ge, h.lt, (compactValue_mul he).ge, ?_⟩
    rw [compactValue_mul he]
    exact Nat.mul_lt_mul_of_pos_right (Nat.lt_succ_self _) (by positivity)

/-- A value that is at most the target is at most the one its leading octets stand for. -/
theorem le_value (h : LeadingOctets target exponent mantissa) {exponent' mantissa' : ℕ}
    (hm : mantissa' < 2 ^ 23) (hle : compactValue exponent' mantissa' ≤ target) :
    compactValue exponent' mantissa' ≤ compactValue exponent mantissa := by
  rcases le_total exponent 3 with he | he
  · rwa [h.value_eq he]
  · refine (Nat.le_div_iff_mul_le (by norm_num)).2 ?_
    rcases lt_or_ge exponent' exponent with hlt | hge
    · -- A smaller exponent: less than the least mantissa of the greater one.
      calc compactValue exponent' mantissa' * 256 ^ 3
          ≤ mantissa' * 256 ^ exponent' := Nat.div_mul_le_self _ _
        _ ≤ 2 ^ 23 * 256 ^ exponent' := Nat.mul_le_mul_right _ hm.le
        _ = 2 ^ 15 * 256 ^ (exponent' + 1) := by ring
        _ ≤ 2 ^ 15 * 256 ^ exponent :=
          Nat.mul_le_mul_left _ (Nat.pow_le_pow_right (by norm_num) hlt)
        _ ≤ mantissa * 256 ^ exponent := Nat.mul_le_mul_right _ h.ge
    · -- A multiple of the power of the exponent.
      obtain ⟨k, rfl⟩ := Nat.exists_eq_add_of_le hge
      have hmul := Nat.mul_le_mul_right (256 ^ 3) hle
      rw [compactValue_mul (he.trans hge)] at hmul ⊢
      have hlt := hmul.trans_lt h.lt_mul
      rw [pow_add, mul_comm (256 ^ exponent), ← mul_assoc] at hlt ⊢
      exact Nat.mul_le_mul_right _ (Nat.le_of_lt_succ (Nat.lt_of_mul_lt_mul_right hlt))

end LeadingOctets

/-! ## Targets that have a compact form -/

/-- The targets that are read from a compact form. -/
def CompactTarget (target : ℕ) : Prop := ∃ bits, compactToTarget bits = .ok target

/-- A positive target is written as a form from which it is read rounded down, to the greatest
    target that has a form. Written again, it has the same form, in which the sign is clear. -/
theorem isGreatest_targetToCompact {target : ℕ} (hpos : 0 < target) (hlt : target < 2 ^ 256) :
    ∃ target', compactToTarget (targetToCompact target) = .ok target' ∧
      IsGreatest {value | CompactTarget value ∧ value ≤ target} target' ∧
      targetToCompact target' = targetToCompact target ∧
      targetToCompact target &&& 0x00800000 = 0 := by
  obtain ⟨exponent, mantissa, heq, he, hlead, hvpos⟩ := targetToCompact_eq hpos hlt
  have hvlt := hlead.value_le.trans_lt hlt
  have hread := compactToTarget_compact he hlead.lt hvpos hvlt
  refine ⟨_, heq ▸ hread, ⟨⟨⟨_, hread⟩, hlead.value_le⟩, ?_⟩, ?_, ?_⟩
  · rintro value ⟨⟨bits, hbits⟩, hle⟩
    obtain ⟨-, rfl, -⟩ := compactToTarget_eq_ok.1 hbits
    exact hlead.le_value (compactMantissa_lt bits) hle
  · obtain ⟨exponent', mantissa', heq', -, hlead', -⟩ := targetToCompact_eq hvpos hvlt
    obtain ⟨rfl, rfl⟩ := hlead'.unique hlead.value
    rw [heq', heq]
  · rw [heq]
    exact sign_compact he hlead.lt

/-- A greater target has a greater form, or the same. -/
theorem targetToCompact_mono {target target' : ℕ} (hle : target ≤ target')
    (hlt : target' < 2 ^ 256) : targetToCompact target ≤ targetToCompact target' := by
  rcases Nat.eq_zero_or_pos target with rfl | hpos
  · exact UInt32.le_iff_toNat_le.2 (Nat.zero_le _)
  obtain ⟨exponent, mantissa, heq, he, hlead, -⟩ := targetToCompact_eq hpos (hle.trans_lt hlt)
  obtain ⟨exponent', mantissa', heq', he', hlead', -⟩ :=
    targetToCompact_eq (hpos.trans_le hle) hlt
  have hm := hlead.lt
  have hm' := hlead'.lt
  rw [heq, heq', UInt32.le_iff_toNat_le, toNat_compact he (by omega),
    toNat_compact he' (by omega)]
  rcases (hlead.exponent_le hlead' hle).lt_or_eq with hexp | rfl
  · omega
  · exact Nat.add_le_add_left (hlead.mantissa_le hlead' hle) _

/-- A form with a target that is written as this form. -/
def ReEncodes (bits : UInt32) : Prop :=
  ∃ target, compactToTarget bits = .ok target ∧ targetToCompact target = bits

theorem reEncodes_targetToCompact {target : ℕ} (hpos : 0 < target) (hlt : target < 2 ^ 256) :
    ReEncodes (targetToCompact target) := by
  obtain ⟨target', hread, -, hwrite, -⟩ := isGreatest_targetToCompact hpos hlt
  exact ⟨target', hread, hwrite⟩

/-- Forms that are written again as they were are ordered as their targets. -/
theorem le_iff_of_reEncodes {bits bits' : UInt32} {target target' : ℕ}
    (h : compactToTarget bits = .ok target) (hwrite : targetToCompact target = bits)
    (h' : compactToTarget bits' = .ok target') (hwrite' : targetToCompact target' = bits') :
    bits ≤ bits' ↔ target ≤ target' := by
  constructor
  · intro hle
    by_contra hlt
    have hge := targetToCompact_mono (not_le.1 hlt).le (compactToTarget_lt h)
    rw [hwrite, hwrite'] at hge
    have heq := UInt32.le_antisymm hle hge
    rw [heq, h', Except.ok.injEq] at h
    exact hlt h.ge
  · intro hle
    rw [← hwrite, ← hwrite']
    exact targetToCompact_mono hle (compactToTarget_lt h')

end Hns
