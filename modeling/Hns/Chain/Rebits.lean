import Hns.Chain.Run
import Hns.Chain.Retarget
import Hns.Core.Compact

/-!
# The bits of a retarget

The bits that a retarget asks for are those of the genesis block or were written
for a target, so they are read as a target and written again as they were. The
exception is a target of zero, whose bits are zero. The work of a day on a stored
chain is too small for that (`HeaderTree.reEncodes_expectedMainnetBits`).

* `compactConversion`: writing a target in compact form, reading it, and the bits
  of a retarget.
-/

namespace Hns

open Except HeaderStore

theorem reEncodes_mainnetPowBits : ReEncodes mainnetPowBits :=
  ⟨mainnetLimit, compactToTarget_mainnetPowBits, by decide +kernel⟩

/-- A target within the limit has fewer than 256 bits. -/
theorem lt_of_le_mainnetLimit {target : ℕ} (h : target ≤ mainnetLimit) : target < 2 ^ 256 :=
  h.trans_lt (by rw [mainnetLimit]; norm_num)

/-- The bits of some work, unless they are zero. -/
theorem reEncodes_of_bitsForWork {work timespan : ℕ} {bits : UInt32}
    (h : bitsForWork work timespan = .ok bits) (hne : bits ≠ 0) : ReEncodes bits := by
  rw [bitsForWork] at h
  split_ifs at h with hzero
  · obtain rfl := Except.ok.inj h
    exact reEncodes_mainnetPowBits
  · obtain ⟨target, -, h⟩ := bind_eq_ok.1 h
    rw [compactToTarget_mainnetPowBits, show Except.mapError ChainError.pow (.ok mainnetLimit) =
      .ok mainnetLimit from rfl, ok_bind] at h
    split_ifs at h with hlimit
    · obtain rfl := Except.ok.inj h
      exact reEncodes_mainnetPowBits
    · obtain rfl := Except.ok.inj h
      refine reEncodes_targetToCompact (Nat.pos_of_ne_zero ?_)
        (lt_of_le_mainnetLimit (not_lt.1 hlimit))
      rintro rfl
      exact hne rfl

/-- The bits of a retarget between any two headers, unless they are zero. -/
theorem reEncodes_of_retargetBits {first last : StoredHeader} {bits : UInt32}
    (h : retargetBits first last = .ok bits) (hne : bits ≠ 0) : ReEncodes bits := by
  rw [retargetBits] at h
  obtain ⟨-, h⟩ := throw_unless.1 h
  obtain ⟨-, h⟩ := throw_unless.1 h
  exact reEncodes_of_bitsForWork h hne

/-- The bits of at most `2 ^ 255` work. -/
theorem reEncodes_requiredBits {work timespan : ℕ}
    (h : work * mainnetTargetSpacing / timespan ≤ 2 ^ 255) :
    ReEncodes (requiredBits work timespan) := by
  rw [requiredBits]
  generalize work * mainnetTargetSpacing / timespan = work at h
  dsimp only
  split_ifs with hzero hlimit
  · exact reEncodes_mainnetPowBits
  · exact reEncodes_mainnetPowBits
  · refine reEncodes_targetToCompact (Nat.sub_pos_of_lt ?_)
      (lt_of_le_mainnetLimit (not_lt.1 hlimit))
    exact (Nat.le_div_iff_mul_le (Nat.pos_of_ne_zero hzero)).2
      ((Nat.mul_le_mul_left 2 h).trans (by norm_num))

/-- The bits a stored parent asks for. -/
theorem HeaderTree.reEncodes_expectedMainnetBits {known : Headers} (tree : HeaderTree known)
    {parent : StoredHeader} (hp : known parent.hash = some parent) :
    ∃ bits, expectedMainnetBits known parent = .ok bits ∧ ReEncodes bits := by
  by_cases h : parent.height < 146
  · exact ⟨mainnetPowBits, if_pos h, reEncodes_mainnetPowBits⟩
  · obtain ⟨first, last, -, hbits, hmem⟩ := tree.windowsOf_eq hp (not_lt.1 h)
    obtain ⟨-, hle, hretarget⟩ := hmem _ _ first.middle_mem last.middle_mem
    rw [hbits, hretarget, bitsForWork_eq hle]
    exact ⟨_, rfl, reEncodes_requiredBits hle⟩

/-- What the conversions between targets and compact forms do. -/
structure CompactConversion : Prop where
  /-- A target is rounded down to the greatest one that has a form, which keeps its form. -/
  rounds {target : ℕ} (hpos : 0 < target) (hlt : target < 2 ^ 256) :
    ∃ target', compactToTarget (targetToCompact target) = .ok target' ∧
      IsGreatest {value | CompactTarget value ∧ value ≤ target} target' ∧
      targetToCompact target' = targetToCompact target ∧
      targetToCompact target &&& 0x00800000 = 0
  /-- Greater targets have greater forms. -/
  write_mono {target target' : ℕ} (hle : target ≤ target') (hlt : target' < 2 ^ 256) :
    targetToCompact target ≤ targetToCompact target'
  /-- The forms that are written are ordered as the targets read from them. -/
  read_mono {bits bits' : UInt32} {target target' : ℕ}
    (h : compactToTarget bits = .ok target) (hwrite : targetToCompact target = bits)
    (h' : compactToTarget bits' = .ok target') (hwrite' : targetToCompact target' = bits') :
    bits ≤ bits' ↔ target ≤ target'
  /-- The bits of a retarget between two headers, unless they are zero, are read as a target that is
      written as these bits. -/
  retarget {first last : StoredHeader} {bits : UInt32}
    (h : retargetBits first last = .ok bits) (hne : bits ≠ 0) : ReEncodes bits
  /-- So are the bits that are asked for after any stored header of a reachable chain. -/
  expected {S : Type} [HeaderStore S] [LawfulHeaderStore S] [Digests] {s : S} (h : Reachable s)
    {hash : Hash} {parent : StoredHeader} (hparent : getHeader s hash = some parent) :
    ∃ bits, expectedMainnetBits (getHeader s) parent = .ok bits ∧ ReEncodes bits

/-- The conversions between targets and compact forms, and the bits of a retarget. -/
theorem compactConversion : CompactConversion where
  rounds := isGreatest_targetToCompact
  write_mono := targetToCompact_mono
  read_mono := le_iff_of_reEncodes
  retarget := reEncodes_of_retargetBits
  expected h hash parent hparent := by
    obtain ⟨t, ht⟩ := h.represents
    rw [ht.getHeader_eq] at hparent ⊢
    exact t.valid.headerTree.reEncodes_expectedMainnetBits (t.valid.hash_eq hparent ▸ hparent)

/-- Forms with three octets and with four whose targets are ordered the other way, and a retarget
    over more work than a chain holds, whose bits are zero. -/
theorem not_compactConversion :
    ((0x037fffff : UInt32) ≤ 0x04000001 ∧ compactToTarget 0x037fffff = .ok 8388607 ∧
        compactToTarget 0x04000001 = .ok 256) ∧
      ∃ first last : StoredHeader, retargetBits first last = .ok 0 ∧
        compactToTarget 0 = .error .zeroTarget := by
  refine ⟨by decide +kernel, ⟨.zero, .mainnetGenesis, 0, 0⟩,
    ⟨.zero, .mainnetGenesis, 1, 36 * 2 ^ 256⟩, by decide +kernel, by decide +kernel⟩

end Hns
