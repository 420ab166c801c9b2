import Hns.Dnssec.Nsec3
import Hns.Lib.Circular

/-!
# Denial intervals

A denial record stands for an interval of the names, or of their hashes, taken in a circle. The
names are in the canonical order of RFC 4034, which is stated here in its own words
(`CanonicalBefore`): from the last label on, and by the octets of the first labels that differ.
-/

namespace Hns

open DnsName Circular

/-- Labels are compared by their octets, capital letters as small ones. -/
def DnsLabel.Before (l r : DnsLabel) : Prop :=
  List.Before (· < ·) (l.bytes.map toAsciiLowercase) (r.bytes.map toAsciiLowercase)

namespace DnsName

/-- Names are compared by their labels, the last one first. -/
def CanonicalBefore (a b : DnsName) : Prop :=
  List.Before DnsLabel.Before a.labels.reverse b.labels.reverse

theorem labelCmp_eq_lt {l r : DnsLabel} : labelCmp l r = .lt ↔ l.Before r := by
  rw [labelCmp, List.compareLex_eq_lt, DnsLabel.Before, l.lower, r.lower]
  simp only [Std.compare_eq_lt]

theorem lt_iff_canonicalBefore {a b : DnsName} : a < b ↔ CanonicalBefore a b := by
  rw [lt_iff, canonicalNameCmp_eq, List.compareLex_eq_lt, CanonicalBefore]
  simp only [labelCmp_eq_lt]

end DnsName

theorem nsecCoversName_iff {owner next name : DnsName} :
    nsecCoversName owner next name ↔ Between owner next name := by
  rw [SignedZone.nsecCoversName_eq_true, between_iff]

/-- Hashes are compared from the first octet on. -/
instance hashOrder : IsStrictTotalOrder (List UInt8) (· < ·) where
  irrefl := List.lt_irrefl
  trans _ _ _ := List.lt_trans
  trichotomous := Std.Trichotomous.trichotomous

theorem hashBetween_iff {owner next hash : List UInt8} :
    HashBetween owner next hash ↔ Between owner next hash := by
  rw [HashBetween, between_iff]
  refine and_congr_right fun _ => or_congr_right ?_
  have hne {a b : List UInt8} (h : a < b) : a ≠ b := fun heq => List.lt_irrefl b (heq ▸ h)
  rcases trichotomous_of (fun a b : List UInt8 => a < b) owner next with h | rfl | h
  · simp [h, asymm_of (· < ·) h, hne h]
  · simp [irrefl_of (· < ·) owner]
  · simp [h, asymm_of (· < ·) h, (hne h).symm]

/-- **Denial intervals.** Names are compared in the canonical order, in which a name comes before
    those below it, and a record denies what lies strictly between its owner and the next one. -/
theorem covers_iff_between :
    IsStrictTotalOrder DnsName (fun a b => canonicalNameCmp a b = .lt) ∧
      (∀ a b, (canonicalNameCmp a b = .lt ↔ CanonicalBefore a b) ∧
        (canonicalNameCmp a b = .eq ↔ a = b) ∧ (canonicalNameCmp a b = .gt ↔ CanonicalBefore b a)) ∧
      (∀ name parent : DnsName, name.isStrictSubdomain parent → canonicalNameCmp parent name = .lt) ∧
      (∀ owner next queryName,
        nsecCoversName owner next queryName ↔ Between owner next queryName) ∧
      ∀ owner next query : List UInt8, owner.length = next.length → owner.length = query.length →
        (nsec3CoversHash owner next query ↔ Between owner next query) := by
  refine ⟨inferInstanceAs (IsStrictTotalOrder DnsName (· < ·)), fun a b => ⟨?_, ?_, ?_⟩, ?_, ?_, ?_⟩
  · exact lt_iff_canonicalBefore
  · exact canonicalNameCmp_eq_eq
  · exact canonicalNameCmp_eq_gt.trans lt_iff_canonicalBefore
  · exact fun _ _ => lt_of_isStrictSubdomain
  · exact fun _ _ _ => nsecCoversName_iff
  · intro owner next query hnext hquery
    rw [nsec3CoversHash_eq_true, and_iff_right hnext, and_iff_right hquery, hashBetween_iff]

end Hns
