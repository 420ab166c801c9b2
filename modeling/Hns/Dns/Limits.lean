import Hns.Dns.Text
import Hns.Dnssec.Raw

/-!
# The limit of length

A name is read from its text, from its labels in a message, and from its labels in the data of a
record, and each of these parsers checks its length in a way of its own. They agree with each
other: all of them read the names of at most 252 characters (`acceptsWithin`). The limit of
`maxDnsNameLen` characters, for the 255 octets that the labels may have, is missed by one
(`acceptsWithin_maxDnsNameLen_iff`).
-/

namespace Hns

/-- The characters of a label. -/
def RawLabel.text (label : RawLabel) : List Char := label.bytes.map fun byte => Char.ofNat byte.toNat

/-- The text of some labels, without a dot at the end. -/
def nameText (labels : List RawLabel) : List Char := ['.'].intercalate (labels.map RawLabel.text)

/-- The labels in a message, up to the empty one. -/
def nameWire (labels : List RawLabel) : List UInt8 := labels.flatMap RawLabel.wire ++ [0]

/-- The labels are of the characters that are allowed. -/
def AreAllowed (labels : List RawLabel) : Prop := ∀ label ∈ labels, isValidDnsLabel label.bytes

instance (labels : List RawLabel) : Decidable (AreAllowed labels) :=
  inferInstanceAs (Decidable (∀ label ∈ labels, _))

/-- A name is accepted just when its text is within the limit, by all the parsers. -/
structure AcceptsWithin (labels : List RawLabel) (limit : ℕ) : Prop where
  fromAscii (dots : List Char) : dots = [] ∨ dots = ['.'] →
    ((DnsName.fromAscii (nameText labels ++ dots)).isOk ↔ (nameText labels).length ≤ limit)
  parseWire (front rest : List UInt8) :
    (DnsName.parseWire (front ++ (nameWire labels ++ rest)) front.length).isOk ↔
      (nameText labels).length ≤ limit
  parseUncompressed (rest : List UInt8) :
    (parseUncompressedDnsName (nameWire labels ++ rest)).isOk ↔ (nameText labels).length ≤ limit

/-! ## Lengths -/

theorem length_nameText {labels : List RawLabel} (hne : labels ≠ []) :
    (nameText labels).length + 1 = (labels.flatMap RawLabel.wire).length := by
  induction labels with
  | nil => exact absurd rfl hne
  | cons label labels ih =>
    cases labels with
    | nil => simp [nameText, RawLabel.text, RawLabel.wire]
    | cons label' labels =>
      have hrest := ih (List.cons_ne_nil _ _)
      have hcons : nameText (label :: label' :: labels) = label.text ++ '.' :: nameText (label' :: labels) :=
        rfl
      rw [hcons, List.flatMap_cons, List.length_append, List.length_append, List.length_cons, ← hrest,
        RawLabel.text, RawLabel.wire, List.length_map, List.length_cons]
      omega

/-- The check of `parse_wire`, and that of the length with the root, against the text. -/
theorem length_wire_le_iff (labels : List RawLabel) :
    (labels.flatMap RawLabel.wire).length ≤ maxDnsNameLen ↔ (nameText labels).length ≤ 252 := by
  by_cases hne : labels = []
  · rw [hne]
    decide
  · rw [← length_nameText hne, maxDnsNameLen]
    omega

/-- The limits of the protocol agree with each other. -/
theorem length_nameText_le_iff (labels : List RawLabel) :
    (nameText labels).length ≤ maxDnsNameLen ↔ (nameWire labels).length ≤ 255 := by
  by_cases hne : labels = []
  · rw [hne]
    decide
  · rw [nameWire, List.length_append, ← length_nameText hne, maxDnsNameLen, List.length_singleton]
    omega

/-! ## The parsers -/

theorem isOk_ofOption {ε α : Type} (e : ε) (o : Option α) : (Except.ofOption e o).isOk ↔ o.isSome := by
  cases o <;> simp [Except.ofOption, Except.isOk, Except.toBool]

theorem isSome_ofLabels (labels : List DnsLabel) :
    (DnsName.ofLabels labels).isSome ↔ labelsLen labels ≤ maxDnsNameLen := by
  rw [DnsName.ofLabels]
  split_ifs with h <;> simp [h]

section

variable {labels : List RawLabel} {read : List DnsLabel}

theorem isOk_fromAscii (hallowed : AreAllowed labels)
    (hread : List.Forall₂ (fun raw label => DnsLabel.ofBytes raw.bytes = some label) labels read)
    {dots : List Char} (hdots : dots = [] ∨ dots = ['.']) :
    (DnsName.fromAscii (nameText labels ++ dots)).isOk ↔ labelsLen read ≤ maxDnsNameLen := by
  by_cases hne : labels = []
  · subst hne
    cases hread
    rcases hdots with rfl | rfl <;> decide +kernel
  have htexts : ∀ text ∈ labels.map RawLabel.text, IsLabelText text :=
    List.forall_mem_map.2 fun label hlabel =>
      isLabelText_of_isValidDnsLabel label.length_pos (hallowed label hlabel)
  have hmap : (labels.map RawLabel.text).mapM (fun text => Except.ofOption ParseError.invalidDnsLabel
      (DnsLabel.ofBytes (text.flatMap String.utf8EncodeChar))) = .ok read := by
    rw [Except.mapM_eq_ok, List.forall₂_map_left_iff]
    refine List.Forall₂.imp (fun raw label h => ?_) ((List.forall₂_and_left _ _).2 ⟨hallowed, hread⟩)
    rw [Except.ofOption_eq_ok, RawLabel.text,
      flatMap_utf8EncodeChar (isTextByte_of_isValidDnsLabel h.1), h.2]
  have hdots' : ∀ d ∈ dots, d = '.' := by
    rcases hdots with rfl | rfl <;> simp
  rw [nameText, DnsName.fromAscii_intercalate (by simpa using hne) htexts hdots', hmap, Except.ok_bind,
    isOk_ofOption, isSome_ofLabels]

theorem isOk_parseWire
    (hread : List.Forall₂ (fun raw label => DnsLabel.ofBytes raw.bytes = some label) labels read)
    (front rest : List UInt8) :
    (DnsName.parseWire (front ++ (nameWire labels ++ rest)) front.length).isOk ↔
      labelsLen read ≤ maxDnsNameLen := by
  have hat := RawName.nameAt_of_drop hread (@List.drop_left _ front (nameWire labels ++ rest))
  constructor
  · intro hok
    cases hparse : DnsName.parseWire (front ++ (nameWire labels ++ rest)) front.length with
    | error e =>
      rw [hparse] at hok
      cases hok
    | ok result =>
      obtain ⟨jumps, -, hname⟩ := DnsName.parseWire_iff.1 hparse
      rw [← (hname.unique hat).2.1]
      exact result.1.length_le
  · intro hle
    have hparse := @DnsName.parseWire_iff (front ++ (nameWire labels ++ rest)) front.length
      (front.length + (nameWire labels).length) ⟨read, hle⟩
    rw [hparse.2 ⟨0, Nat.zero_le _, hat⟩]
    rfl

theorem isOk_parseUncompressed
    (hread : List.Forall₂ (fun raw label => DnsLabel.ofBytes raw.bytes = some label) labels read)
    (rest : List UInt8) :
    (parseUncompressedDnsName (nameWire labels ++ rest)).isOk ↔ labelsLen read ≤ maxDnsNameLen := by
  rw [nameWire, RawName.parseUncompressedDnsName_wire hread, ← isSome_ofLabels]
  cases DnsName.ofLabels read <;> rfl

end

/-- All parsers accept the names of at most 252 characters. -/
theorem acceptsWithin {labels : List RawLabel} (h : AreAllowed labels) :
    AcceptsWithin labels (maxDnsNameLen - 1) := by
  obtain ⟨read, hread, -, hlength⟩ := RawName.exists_labels h
  have hle : labelsLen read ≤ maxDnsNameLen ↔ (nameText labels).length ≤ maxDnsNameLen - 1 := by
    rw [hlength, length_wire_le_iff]
    rfl
  refine ⟨fun dots hdots => ?_, fun front rest => ?_, fun rest => ?_⟩
  · rw [isOk_fromAscii h hread hdots, hle]
  · rw [isOk_parseWire hread, hle]
  · rw [isOk_parseUncompressed hread, hle]

/-- **The limit of length.** The text of a name may have as many characters as its labels may have
    octets, but for the two at the ends. All parsers keep to it for the names of any length but that
    of the limit. -/
theorem acceptsWithin_maxDnsNameLen_iff {labels : List RawLabel} (h : AreAllowed labels) :
    ((nameText labels).length ≤ maxDnsNameLen ↔ (nameWire labels).length ≤ 255) ∧
      AcceptsWithin labels (maxDnsNameLen - 1) ∧
      (AcceptsWithin labels maxDnsNameLen ↔ (nameText labels).length ≠ maxDnsNameLen) := by
  have haccepts := acceptsWithin h
  refine ⟨length_nameText_le_iff labels, haccepts, fun hwithin hlength => ?_, fun hne => ?_⟩
  · have hread := (haccepts.parseUncompressed []).1 ((hwithin.parseUncompressed []).2 hlength.le)
    rw [hlength] at hread
    exact absurd hread (by decide)
  · have hle : (nameText labels).length ≤ maxDnsNameLen - 1 ↔ (nameText labels).length ≤ maxDnsNameLen := by
      rw [maxDnsNameLen] at hne ⊢
      omega
    refine ⟨fun dots hdots => ?_, fun front rest => ?_, fun rest => ?_⟩
    · rw [haccepts.fromAscii dots hdots, hle]
    · rw [haccepts.parseWire front rest, hle]
    · rw [haccepts.parseUncompressed rest, hle]

/-! ## At the limit -/

namespace LimitSample

/-- A label of some small `a`. -/
def label (n : ℕ) (h : 0 < n ∧ n ≤ 63) : RawLabel where
  bytes := List.replicate n 0x61
  length_pos := by simpa using h.1
  length_le := by simpa using h.2

/-- A name of 253 characters. -/
def longest : List RawLabel :=
  [label 63 (by decide), label 63 (by decide), label 63 (by decide), label 61 (by decide)]

theorem areAllowed_longest : AreAllowed longest := by
  decide +kernel

theorem length_longest : (nameText longest).length = maxDnsNameLen := by decide +kernel

/-- The name is within the limits of the protocol, and is refused. -/
theorem not_acceptsWithin : ¬∀ labels, AreAllowed labels → AcceptsWithin labels maxDnsNameLen := by
  intro h
  have hread := ((acceptsWithin areAllowed_longest).fromAscii [] (.inl rfl)).1
    (((h longest areAllowed_longest).fromAscii [] (.inl rfl)).2 length_longest.le)
  rw [length_longest] at hread
  exact absurd hread (by decide)

theorem acceptsWithin_short :
    AreAllowed [label 3 (by decide)] ∧
      ((nameText [label 3 (by decide)]).length ≤ maxDnsNameLen ↔
        (nameWire [label 3 (by decide)]).length ≤ 255) ∧
      AcceptsWithin [label 3 (by decide)] (maxDnsNameLen - 1) ∧
      (AcceptsWithin [label 3 (by decide)] maxDnsNameLen ↔
        (nameText [label 3 (by decide)]).length ≠ maxDnsNameLen) :=
  have hallowed : AreAllowed [label 3 (by decide)] := by decide +kernel
  ⟨hallowed, acceptsWithin_maxDnsNameLen_iff hallowed⟩

end LimitSample

end Hns
