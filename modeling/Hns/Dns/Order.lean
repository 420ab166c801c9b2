import Hns.Dns.Name
import Hns.Lib.Lex

/-!
# The canonical order of names

A name lies before the names below it, and these lie next to each other
(`isStrictSubdomain_of_between`). The wildcard is the first of the names below
its parent (`IsWildcardOf.le`), as no octet of another label is as small as the
asterisk.
-/

namespace Hns

namespace DnsName

open Std (LawfulEqCmp OrientedCmp ReflCmp TransCmp)

/-! ## Subdomains -/

@[simp] theorem isSubdomainOrEqual_iff {name parent : DnsName} :
    name.isSubdomainOrEqual parent ↔ parent.labels <:+ name.labels := by
  simp [isSubdomainOrEqual]

theorem isStrictSubdomain_iff {name parent : DnsName} :
    name.isStrictSubdomain parent ↔
      parent.labels <:+ name.labels ∧ parent.labels.length < name.labels.length := by
  simp [isStrictSubdomain, and_comm]

theorem isStrictSubdomain_iff_ne {name parent : DnsName} :
    name.isStrictSubdomain parent ↔ name.isSubdomainOrEqual parent ∧ name ≠ parent := by
  rw [isStrictSubdomain_iff, isSubdomainOrEqual_iff]
  refine and_congr_right fun h => ⟨?_, fun hne => ?_⟩
  · rintro hlt rfl
    exact lt_irrefl _ hlt
  · exact lt_of_le_of_ne h.length_le fun hlen => hne (ext (h.eq_of_length hlen).symm)

/-- The name above the last asterisk. -/
theorem exists_parent {name : DnsName} {label : DnsLabel} {labels : List DnsLabel}
    (h : name.labels = label :: labels) : ∃ parent : DnsName, parent.labels = labels := by
  refine ⟨⟨labels, ?_⟩, rfl⟩
  have hlen := name.length_le
  rw [h, labelsLen_cons] at hlen
  omega

/-- The name without some labels in front. -/
def dropLabels (name : DnsName) (n : ℕ) : DnsName where
  labels := name.labels.drop n
  length_le := (labelsLen_le_of_suffix (List.drop_suffix _ _)).trans name.length_le

theorem exists_dropLabels {name parent : DnsName} (h : name.isSubdomainOrEqual parent) :
    parent = name.dropLabels (name.labels.length - parent.labels.length) :=
  ext (List.suffix_iff_eq_drop.1 (isSubdomainOrEqual_iff.1 h))

/-- The asterisk below the name `parent`. -/
def IsWildcardOf (name parent : DnsName) : Prop := name.labels = DnsLabel.star :: parent.labels

instance (name parent : DnsName) : Decidable (name.IsWildcardOf parent) :=
  inferInstanceAs (Decidable (_ = _))

theorem isSubdomainOrEqual_trans {name middle parent : DnsName} (h : name.isSubdomainOrEqual middle)
    (h' : middle.isSubdomainOrEqual parent) : name.isSubdomainOrEqual parent := by
  rw [isSubdomainOrEqual_iff] at h h' ⊢
  exact h'.trans h

theorem isStrictSubdomain_of_isSubdomainOrEqual {name middle parent : DnsName}
    (h : name.isSubdomainOrEqual middle) (h' : middle.isStrictSubdomain parent) :
    name.isStrictSubdomain parent := by
  rw [isSubdomainOrEqual_iff] at h
  rw [isStrictSubdomain_iff] at h' ⊢
  exact ⟨h'.1.trans h, h'.2.trans_le h.length_le⟩

/-- Two names above another one lie above each other. -/
theorem isSubdomainOrEqual_or_isStrictSubdomain {name a b : DnsName}
    (ha : name.isSubdomainOrEqual a) (hb : name.isSubdomainOrEqual b) :
    a.isSubdomainOrEqual b ∨ b.isStrictSubdomain a := by
  rw [isSubdomainOrEqual_iff] at ha hb
  rw [isSubdomainOrEqual_iff, isStrictSubdomain_iff]
  rcases le_or_gt b.labels.length a.labels.length with hle | hlt
  · exact .inl (List.suffix_of_suffix_length_le hb ha hle)
  · exact .inr ⟨List.suffix_of_suffix_length_le ha hb hlt.le, hlt⟩

/-! ## Order -/

/-- The order of labels in `canonical_name_cmp`. -/
def labelCmp (l r : DnsLabel) : Ordering := List.compareLex compare l.bytes r.bytes

theorem labelCmp_eq (l r : DnsLabel) : labelCmp l r = List.compareLex compare l.bytes r.bytes := rfl

instance : TransCmp labelCmp where
  eq_swap {a b} := by
    rw [labelCmp_eq, labelCmp_eq]
    exact OrientedCmp.eq_swap
  isLE_trans {a b c} hab hbc := by
    rw [labelCmp_eq] at hab hbc ⊢
    exact TransCmp.isLE_trans hab hbc

instance : LawfulEqCmp labelCmp where
  compare_self {a} := by
    rw [labelCmp_eq]
    exact ReflCmp.compare_self
  eq_of_compare {a b} h := by
    rw [labelCmp_eq] at h
    exact DnsLabel.ext (LawfulEqCmp.eq_of_compare h)

theorem canonicalNameCmp_eq (a b : DnsName) :
    canonicalNameCmp a b = List.compareLex labelCmp a.labels.reverse b.labels.reverse := rfl

instance : TransCmp canonicalNameCmp where
  eq_swap {a b} := by
    rw [canonicalNameCmp_eq, canonicalNameCmp_eq]
    exact OrientedCmp.eq_swap
  isLE_trans {a b c} hab hbc := by
    rw [canonicalNameCmp_eq] at hab hbc ⊢
    exact TransCmp.isLE_trans hab hbc

instance : LawfulEqCmp canonicalNameCmp where
  compare_self {a} := by
    rw [canonicalNameCmp_eq]
    exact ReflCmp.compare_self
  eq_of_compare {a b} h := by
    rw [canonicalNameCmp_eq] at h
    exact ext (List.reverse_injective (LawfulEqCmp.eq_of_compare h))

instance : LinearOrder DnsName := .ofCmp canonicalNameCmp

theorem lt_iff {a b : DnsName} : a < b ↔ canonicalNameCmp a b = .lt := Iff.rfl

theorem le_iff {a b : DnsName} : a ≤ b ↔ (canonicalNameCmp a b).isLE := Iff.rfl

theorem canonicalNameCmp_eq_gt {a b : DnsName} : canonicalNameCmp a b = .gt ↔ b < a :=
  OrientedCmp.gt_iff_lt

theorem canonicalNameCmp_eq_eq {a b : DnsName} : canonicalNameCmp a b = .eq ↔ a = b :=
  LawfulEqCmp.compare_eq_iff_eq

/-- The labels of a name at or below `parent`, from the end. -/
theorem exists_reverse {name parent : DnsName} (h : name.isSubdomainOrEqual parent) :
    ∃ labels, name.labels.reverse = parent.labels.reverse ++ labels := by
  obtain ⟨front, hfront⟩ := isSubdomainOrEqual_iff.1 h
  exact ⟨front.reverse, by rw [← hfront, List.reverse_append]⟩

theorem le_of_isSubdomainOrEqual {name parent : DnsName} (h : name.isSubdomainOrEqual parent) :
    parent ≤ name := by
  obtain ⟨labels, hlabels⟩ := exists_reverse h
  rw [le_iff, canonicalNameCmp_eq, hlabels]
  exact List.isLE_compareLex_append _ _

theorem lt_of_isStrictSubdomain {name parent : DnsName} (h : name.isStrictSubdomain parent) :
    parent < name := by
  obtain ⟨hsub, hne⟩ := isStrictSubdomain_iff_ne.1 h
  exact lt_of_le_of_ne (le_of_isSubdomainOrEqual hsub) hne.symm

/-- What lies between two names of a subtree belongs to it. -/
theorem isSubdomainOrEqual_of_between {parent a b name : DnsName} (ha : a.isSubdomainOrEqual parent)
    (hb : b.isSubdomainOrEqual parent) (han : a ≤ name) (hnb : name ≤ b) :
    name.isSubdomainOrEqual parent := by
  obtain ⟨la, hla⟩ := exists_reverse ha
  obtain ⟨lb, hlb⟩ := exists_reverse hb
  rw [le_iff, canonicalNameCmp_eq, hla] at han
  rw [le_iff, canonicalNameCmp_eq, hlb] at hnb
  rw [isSubdomainOrEqual_iff, ← List.reverse_prefix]
  exact List.prefix_of_between han hnb

/-- What lies between two names below `parent` lies below it too. -/
theorem isStrictSubdomain_of_between {parent a b name : DnsName} (ha : a.isStrictSubdomain parent)
    (hb : b.isStrictSubdomain parent) (han : a ≤ name) (hnb : name ≤ b) :
    name.isStrictSubdomain parent := by
  refine isStrictSubdomain_iff_ne.2 ⟨isSubdomainOrEqual_of_between
    (isStrictSubdomain_iff_ne.1 ha).1 (isStrictSubdomain_iff_ne.1 hb).1 han hnb, ?_⟩
  rintro rfl
  exact absurd (lt_of_isStrictSubdomain ha) (not_lt.2 han)

/-! ## Wildcards -/

theorem IsWildcardOf.isStrictSubdomain {name parent : DnsName} (h : name.IsWildcardOf parent) :
    name.isStrictSubdomain parent := by
  have hlabels : name.labels = DnsLabel.star :: parent.labels := h
  refine isStrictSubdomain_iff.2 ⟨?_, ?_⟩
  · rw [hlabels]
    exact List.suffix_cons _ _
  · rw [hlabels]
    exact Nat.lt_succ_self _

/-- There is room for an asterisk where there is for another label. -/
theorem exists_isWildcardOf {name parent : DnsName} (h : name.isStrictSubdomain parent) :
    ∃ wildcard : DnsName, wildcard.IsWildcardOf parent := by
  obtain ⟨⟨labels, hlabels⟩, hlt⟩ := isStrictSubdomain_iff.1 h
  cases labels with
  | nil =>
    rw [← hlabels] at hlt
    exact absurd hlt (lt_irrefl _)
  | cons label labels =>
    have hname := name.length_le
    have hlabel := label.length_pos
    have hstar : DnsLabel.star.bytes.length = 1 := rfl
    rw [← hlabels, labelsLen_append, labelsLen_cons] at hname
    refine ⟨⟨DnsLabel.star :: parent.labels, ?_⟩, rfl⟩
    rw [labelsLen_cons, hstar]
    omega

/-- No octet of a label is as small as the asterisk. -/
theorem star_lt_of_isLabelByte :
    ∀ byte, isLabelByte byte → compare (0x2a : UInt8) byte = .lt :=
  UInt8.forall_of_lt (by decide +kernel)

/-- The asterisk is the first label. -/
theorem isLE_labelCmp_star (label : DnsLabel) : (labelCmp DnsLabel.star label).isLE := by
  rcases hbytes : label.bytes with _ | ⟨byte, bytes⟩
  · exact absurd label.length_pos (by simp [hbytes])
  · have hvalid := label.valid
    rw [hbytes, isValidDnsLabel] at hvalid
    rw [labelCmp, hbytes]
    simp only [Bool.decide_or, Bool.or_eq_true, decide_eq_true_eq, List.all_cons,
      Bool.and_eq_true] at hvalid
    rcases hvalid with hstar | ⟨hbyte, -⟩
    · rw [hstar]
      rfl
    · rw [DnsLabel.star, List.compareLex_cons_cons, star_lt_of_isLabelByte byte hbyte]
      rfl

/-- A wildcard is the first of the names below its parent. -/
theorem IsWildcardOf.le {wildcard parent name : DnsName} (h : wildcard.IsWildcardOf parent)
    (hname : name.isStrictSubdomain parent) : wildcard ≤ name := by
  have hlabels : wildcard.labels = DnsLabel.star :: parent.labels := h
  obtain ⟨labels, hreverse⟩ := exists_reverse (isStrictSubdomain_iff_ne.1 hname).1
  rw [le_iff, canonicalNameCmp_eq, hlabels, hreverse, List.reverse_cons,
    List.compareLex_append_append]
  cases labels with
  | nil =>
    have hlen := congrArg List.length hreverse
    have hlt := (isStrictSubdomain_iff.1 hname).2
    simp only [List.length_reverse, List.append_nil] at hlen
    omega
  | cons label labels =>
    rw [List.compareLex_cons_cons, Ordering.isLE_then_iff_and]
    exact ⟨isLE_labelCmp_star label, .inr List.isLE_compareLex_nil_left⟩

end DnsName

end Hns
