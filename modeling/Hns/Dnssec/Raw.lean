import Hns.Dns.Compression
import Hns.Dnssec.Signed

/-!
# Records as they are written

The names and the data of records as a zone publishes them: names of any octets
in any letter case (`RawName`), and the data of the types that can be signed, with
the names in them (`RawData`). The parsers of names take those whose octets are
allowed and which are short enough (`RawName.Allowed`), and read them in lower
case (`RawName.exists_reads`).
-/

namespace Hns

/-! ## Names -/

/-- A label as it is written. -/
structure RawLabel where
  bytes : List UInt8
  length_pos : 0 < bytes.length
  length_le : bytes.length ≤ 63

namespace RawLabel

@[ext] theorem ext {a b : RawLabel} (h : a.bytes = b.bytes) : a = b := by
  cases a
  cases b
  simpa using h

def lower (label : RawLabel) : RawLabel where
  bytes := label.bytes.map toAsciiLowercase
  length_pos := by simpa using label.length_pos
  length_le := by simpa using label.length_le

/-- The octet of the length, and the label. -/
def wire (label : RawLabel) : List UInt8 := UInt8.ofNat label.bytes.length :: label.bytes

theorem toNat_length (label : RawLabel) :
    (UInt8.ofNat label.bytes.length).toNat = label.bytes.length := by
  rw [UInt8.toNat_ofNat', Nat.mod_eq_of_lt (lt_of_le_of_lt label.length_le (by decide))]

theorem length_ne_zero (label : RawLabel) : UInt8.ofNat label.bytes.length ≠ 0 := by
  intro h
  have hlength := label.toNat_length
  rw [h] at hlength
  exact absurd hlength label.length_pos.ne

/-- The octet of the length is no pointer. -/
theorem length_and_pointer (label : RawLabel) : UInt8.ofNat label.bytes.length &&& 0xc0 = 0 :=
  DnsName.length_and_pointer _ (Nat.lt_succ_of_le label.length_le)

end RawLabel

/-- A name as it is written, of at most 255 octets with the one of the root. -/
structure RawName where
  labels : List RawLabel
  length_le : (labels.flatMap RawLabel.wire).length + 1 ≤ 255

namespace RawName

@[ext] theorem ext {a b : RawName} (h : a.labels = b.labels) : a = b := by
  cases a
  cases b
  simpa using h

theorem length_flatMap_lower (labels : List RawLabel) :
    ((labels.map RawLabel.lower).flatMap RawLabel.wire).length =
      (labels.flatMap RawLabel.wire).length := by
  simp [List.length_flatMap, RawLabel.wire, RawLabel.lower, Function.comp_def]

def lower (name : RawName) : RawName where
  labels := name.labels.map RawLabel.lower
  length_le := by
    rw [length_flatMap_lower]
    exact name.length_le

def wire (name : RawName) : List UInt8 := name.labels.flatMap RawLabel.wire ++ [0]

@[simp] theorem lower_lower (name : RawName) : name.lower.lower = name.lower := by
  refine ext ?_
  simp only [lower, List.map_map]
  refine List.map_congr_left fun label _ => RawLabel.ext ?_
  simp only [Function.comp_apply, RawLabel.lower, List.map_map]
  exact List.map_congr_left fun byte _ => toAsciiLowercase_toAsciiLowercase byte

@[simp] theorem length_wire_lower (name : RawName) : name.lower.wire.length = name.wire.length := by
  rw [wire, wire, List.length_append, List.length_append, lower, length_flatMap_lower]

theorem selfDelimiting_wire : Octet.SelfDelimiting wire := by
  have hcode := @Octet.selfDelimiting_labels RawLabel RawLabel.bytes (fun _ _ => RawLabel.ext)
    (fun label => label.length_pos) fun label => lt_of_le_of_lt label.length_le (by decide)
  intro a b x y h
  obtain ⟨hlabels, hrest⟩ := hcode h
  exact ⟨ext hlabels, hrest⟩

/-- The parsers take the name: its labels are of the octets that are allowed, and it is within their
    limit. -/
structure Allowed (name : RawName) : Prop where
  valid : ∀ label ∈ name.labels, isValidDnsLabel label.bytes
  length_le : (name.labels.flatMap RawLabel.wire).length ≤ maxDnsNameLen

/-- The name is read as `read`. -/
def Reads (name : RawName) (read : DnsName) : Prop :=
  List.Forall₂ (fun raw label => DnsLabel.ofBytes raw.bytes = some label) name.labels read.labels

theorem bytes_of_ofBytes {bytes : List UInt8} {label : DnsLabel}
    (h : DnsLabel.ofBytes bytes = some label) : label.bytes = bytes.map toAsciiLowercase := by
  rw [DnsLabel.ofBytes] at h
  split_ifs at h
  rw [← Option.some.inj h]

/-- Labels that are allowed are read in lower case. -/
theorem exists_labels {labels : List RawLabel}
    (hvalid : ∀ label ∈ labels, isValidDnsLabel label.bytes) : ∃ read : List DnsLabel,
      List.Forall₂ (fun raw label => DnsLabel.ofBytes raw.bytes = some label) labels read ∧
        read.flatMap (fun label => UInt8.ofNat label.bytes.length :: label.bytes) =
          (labels.map RawLabel.lower).flatMap RawLabel.wire ∧
        labelsLen read = (labels.flatMap RawLabel.wire).length := by
  induction labels with
  | nil => exact ⟨[], .nil, rfl, rfl⟩
  | cons raw labels ih =>
    rw [List.forall_mem_cons] at hvalid
    obtain ⟨read, hread, hwire, hlength⟩ := ih hvalid.2
    have hlabel : ∃ label, DnsLabel.ofBytes raw.bytes = some label := by
      rw [DnsLabel.ofBytes, dif_pos ⟨raw.length_pos, raw.length_le, hvalid.1⟩]
      exact ⟨_, rfl⟩
    obtain ⟨label, hlabel⟩ := hlabel
    refine ⟨label :: read, .cons hlabel hread, ?_, ?_⟩
    · rw [List.flatMap_cons, hwire, bytes_of_ofBytes hlabel]
      rfl
    · rw [labelsLen_cons, hlength, bytes_of_ofBytes hlabel, List.length_map, List.flatMap_cons,
        List.length_append, RawLabel.wire, List.length_cons]

/-- A name that is allowed is read in lower case. -/
theorem exists_reads {name : RawName} (h : name.Allowed) :
    ∃ read : DnsName, name.Reads read ∧ DnsName.wire read.labels = name.lower.wire := by
  obtain ⟨read, hread, hwire, hlength⟩ := exists_labels h.valid
  exact ⟨⟨read, hlength.le.trans h.length_le⟩, hread, congrArg (· ++ [0]) hwire⟩

/-- Labels that are read stand where they are written. -/
theorem nameAt_of_drop {message : List UInt8} {labels : List RawLabel} {read : List DnsLabel}
    (h : List.Forall₂ (fun raw label => DnsLabel.ofBytes raw.bytes = some label) labels read)
    {offset : ℕ} {rest : List UInt8}
    (hdrop : message.drop offset = labels.flatMap RawLabel.wire ++ [0] ++ rest) :
    DnsName.NameAt DnsName.anywhere message 0 offset read
      (offset + (labels.flatMap RawLabel.wire ++ [0]).length) := by
  induction h generalizing offset with
  | nil =>
    refine .root ?_
    rw [← List.head?_drop, hdrop]
    rfl
  | @cons raw label labels read hlabel _ ih =>
    rw [List.flatMap_cons, RawLabel.wire] at hdrop ⊢
    simp only [List.cons_append, List.append_assoc] at hdrop
    have hget : message[offset]? = some (UInt8.ofNat raw.bytes.length) := by
      rw [← List.head?_drop, hdrop]
      rfl
    have htail : message.drop (offset + 1) =
        raw.bytes ++ (labels.flatMap RawLabel.wire ++ ([0] ++ rest)) := by
      rw [← List.drop_drop, hdrop]
      rfl
    have hfits : offset + 1 + raw.bytes.length ≤ message.length := by
      have hlength := congrArg List.length htail
      rw [List.length_drop, List.length_append] at hlength
      have := raw.length_pos
      omega
    have hnext : message.drop (offset + 1 + raw.bytes.length) =
        labels.flatMap RawLabel.wire ++ [0] ++ rest := by
      rw [← List.drop_drop, htail, List.drop_left, List.append_assoc]
    have hrest := ih hnext
    rw [← raw.toNat_length] at hrest hfits
    have hbytes : DnsLabel.ofBytes ((message.drop (offset + 1)).take
        (UInt8.ofNat raw.bytes.length).toNat) = some label := by
      rw [raw.toNat_length, htail, List.take_left]
      exact hlabel
    have hat := DnsName.NameAt.label hget raw.length_and_pointer raw.length_ne_zero hfits hbytes
      hrest
    refine Eq.mp (congrArg _ ?_) hat
    rw [raw.toNat_length]
    simp only [List.length_append, List.length_cons, List.length_nil]
    omega

/-- A name that is read stands where it is written. -/
theorem Reads.shortAt {name : RawName} {read : DnsName} (h : name.Reads read)
    {message : List UInt8} {offset : ℕ} {rest : List UInt8}
    (hdrop : message.drop offset = name.wire ++ rest) :
    DnsName.ShortAt message offset read (offset + name.wire.length) :=
  ⟨0, Nat.zero_le _, nameAt_of_drop h hdrop⟩

theorem length_le_length_flatMap_wire (labels : List RawLabel) :
    labels.length ≤ (labels.flatMap RawLabel.wire).length := by
  induction labels with
  | nil => exact le_rfl
  | cons raw labels ih =>
    rw [List.flatMap_cons, List.length_append, RawLabel.wire]
    simp only [List.length_cons]
    omega

/-- The labels are read without pointers, and then the length is checked. -/
theorem parseUncompressedDnsNameLoop_wire {raws : List RawLabel} {labels : List DnsLabel}
    (h : List.Forall₂ (fun raw label => DnsLabel.ofBytes raw.bytes = some label) raws labels)
    (rest : List UInt8) {before : List DnsLabel} {fuel : ℕ} (hfuel : raws.length < fuel) :
    parseUncompressedDnsNameLoop fuel (raws.flatMap RawLabel.wire ++ [0] ++ rest) before =
      (Except.ofOption .lengthLimit (DnsName.ofLabels (before ++ labels))) >>=
        fun name => .ok (name, rest) := by
  induction h generalizing before fuel with
  | nil =>
    obtain ⟨fuel, rfl⟩ := Nat.exists_eq_add_of_lt hfuel
    rw [List.append_nil, List.flatMap_nil, List.nil_append, List.singleton_append,
      parseUncompressedDnsNameLoop, Except.ok_bind]
    dsimp only
    rw [if_neg (by decide), if_pos rfl]
    rfl
  | @cons raw label raws labels hlabel _ ih =>
    obtain ⟨fuel, rfl⟩ := Nat.exists_eq_add_of_lt hfuel
    have hdata : (raw :: raws).flatMap RawLabel.wire ++ [0] ++ rest =
        UInt8.ofNat raw.bytes.length ::
          (raw.bytes ++ (raws.flatMap RawLabel.wire ++ [0] ++ rest)) := by
      simp [RawLabel.wire]
    have hfits (tail : List UInt8) : ¬(raw.bytes ++ tail).length < raw.bytes.length := by
      rw [List.length_append]
      omega
    rw [hdata, parseUncompressedDnsNameLoop, Except.ok_bind]
    dsimp only
    rw [if_neg (not_not.2 raw.length_and_pointer), if_neg raw.length_ne_zero, raw.toNat_length,
      if_neg (hfits _), List.take_left, hlabel, List.drop_left]
    simp only [Except.ofOption_some, Except.ok_bind]
    rw [ih (by rw [List.length_cons]; omega), List.append_assoc, List.singleton_append]

theorem parseUncompressedDnsName_wire {raws : List RawLabel} {labels : List DnsLabel}
    (h : List.Forall₂ (fun raw label => DnsLabel.ofBytes raw.bytes = some label) raws labels)
    (rest : List UInt8) :
    parseUncompressedDnsName (raws.flatMap RawLabel.wire ++ [0] ++ rest) =
      (Except.ofOption .lengthLimit (DnsName.ofLabels labels)) >>= fun name => .ok (name, rest) := by
  refine parseUncompressedDnsNameLoop_wire h rest ?_
  have := length_le_length_flatMap_wire raws
  rw [List.length_append, List.length_append]
  omega

/-- A name that is read is read without pointers, too. -/
theorem Reads.parseUncompressed {name : RawName} {read : DnsName} (h : name.Reads read)
    (rest : List UInt8) : parseUncompressedDnsName (name.wire ++ rest) = .ok (read, rest) := by
  rw [wire, parseUncompressedDnsName_wire h, DnsName.ofLabels_labels]
  rfl

end RawName

end Hns
