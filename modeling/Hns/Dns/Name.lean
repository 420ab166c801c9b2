import Hns.Core.Bytes
import Hns.Lib.Code
import Hns.Lib.Fallible

/-!
# Domain names

The names of `hns-core`: a `DnsName` is a list of labels in lower case, of the
allowed octets and within the limits of length, however it was read
(`parseWire`, `fromAscii`). What `encodeWire` writes ends before what follows it
(`selfDelimiting_wire`).
-/

namespace Hns

def maxDnsNameLen : ℕ := 253

def maxDnsLabelLen : ℕ := 63

/-! ## Labels -/

/-- `is_ascii_alphanumeric`. -/
def isAsciiAlphanumeric (byte : UInt8) : Bool :=
  (0x30 ≤ byte ∧ byte ≤ 0x39) ∨ (0x41 ≤ byte ∧ byte ≤ 0x5a) ∨ (0x61 ≤ byte ∧ byte ≤ 0x7a)

/-- `to_ascii_lowercase`. -/
def toAsciiLowercase (byte : UInt8) : UInt8 :=
  if 0x41 ≤ byte ∧ byte ≤ 0x5a then byte + 0x20 else byte

/-- An octet of a label: a letter, a digit, a hyphen or an underscore. -/
def isLabelByte (byte : UInt8) : Bool := isAsciiAlphanumeric byte ∨ byte = 0x2d ∨ byte = 0x5f

def isValidDnsLabel (label : List UInt8) : Bool := label = [0x2a] ∨ label.all isLabelByte

theorem isLabelByte_toAsciiLowercase :
    ∀ byte, isLabelByte byte → isLabelByte (toAsciiLowercase byte) :=
  UInt8.forall_of_lt (by decide +kernel)

theorem toAsciiLowercase_toAsciiLowercase :
    ∀ byte, toAsciiLowercase (toAsciiLowercase byte) = toAsciiLowercase byte :=
  UInt8.forall_of_lt (by decide +kernel)

theorem isValidDnsLabel_map {label : List UInt8} (h : isValidDnsLabel label) :
    isValidDnsLabel (label.map toAsciiLowercase) := by
  simp only [isValidDnsLabel, Bool.decide_or, Bool.or_eq_true, decide_eq_true_eq,
    List.all_eq_true] at h ⊢
  rcases h with rfl | h
  · exact .inl rfl
  · refine .inr fun b hb => ?_
    obtain ⟨a, ha, rfl⟩ := List.mem_map.1 hb
    exact isLabelByte_toAsciiLowercase a (h a ha)

/-- A label, in lower case. -/
structure DnsLabel where
  bytes : List UInt8
  length_pos : 0 < bytes.length
  length_le : bytes.length ≤ maxDnsLabelLen
  valid : isValidDnsLabel bytes
  lower : bytes.map toAsciiLowercase = bytes
  deriving DecidableEq

namespace DnsLabel

@[ext] theorem ext {a b : DnsLabel} (h : a.bytes = b.bytes) : a = b := by
  cases a
  cases b
  simpa using h

theorem bytes_injective : Function.Injective bytes := fun _ _ => ext

/-- The label of some octets, if they are those of one. -/
def ofBytes (bytes : List UInt8) : Option DnsLabel :=
  if h : 0 < bytes.length ∧ bytes.length ≤ maxDnsLabelLen ∧ isValidDnsLabel bytes then
    some
      { bytes := bytes.map toAsciiLowercase
        length_pos := by simpa using h.1
        length_le := by simpa using h.2.1
        valid := isValidDnsLabel_map h.2.2
        lower := by
          rw [List.map_map]
          exact List.map_congr_left fun b _ => toAsciiLowercase_toAsciiLowercase b }
  else none

@[simp] theorem ofBytes_bytes (label : DnsLabel) : ofBytes label.bytes = some label := by
  rw [ofBytes, dif_pos ⟨label.length_pos, label.length_le, label.valid⟩]
  exact congrArg some (ext label.lower)

/-- The asterisk. -/
def star : DnsLabel := ⟨[0x2a], by decide, by decide, by decide, by decide⟩

/-- The letters are valid, and in lower case. -/
theorem isValid_letter (n : ℕ) : isValidDnsLabel [0x61 + UInt8.ofNat (n % 26)] ∧
    [0x61 + UInt8.ofNat (n % 26)].map toAsciiLowercase = [0x61 + UInt8.ofNat (n % 26)] := by
  have key : ∀ m < 26, isValidDnsLabel [0x61 + UInt8.ofNat m] ∧
      [0x61 + UInt8.ofNat m].map toAsciiLowercase = [0x61 + UInt8.ofNat m] := by decide
  exact key (n % 26) (Nat.mod_lt n (by decide))

/-- A letter, counted from a. -/
def letter (n : ℕ) : DnsLabel where
  bytes := [0x61 + UInt8.ofNat (n % 26)]
  length_pos := by simp
  length_le := by simp [maxDnsLabelLen]
  valid := (isValid_letter n).1
  lower := (isValid_letter n).2

/-- Its octets are those of ASCII. -/
def text (label : DnsLabel) : List Char := label.bytes.map fun byte => Char.ofNat byte.toNat

end DnsLabel

/-! ## Names -/

/-- The labels of a name, each with the octet of its length. -/
def labelsLen (labels : List DnsLabel) : ℕ := (labels.map fun label => label.bytes.length + 1).sum

structure DnsName where
  labels : List DnsLabel
  length_le : labelsLen labels ≤ maxDnsNameLen
  deriving DecidableEq

@[simp] theorem labelsLen_nil : labelsLen [] = 0 := rfl

@[simp] theorem labelsLen_cons (label : DnsLabel) (labels : List DnsLabel) :
    labelsLen (label :: labels) = label.bytes.length + 1 + labelsLen labels := rfl

@[simp] theorem labelsLen_append (l l' : List DnsLabel) :
    labelsLen (l ++ l') = labelsLen l + labelsLen l' := by simp [labelsLen]

theorem labelsLen_le_of_suffix {l l' : List DnsLabel} (h : l <:+ l') :
    labelsLen l ≤ labelsLen l' := by
  obtain ⟨m, rfl⟩ := h
  simp

namespace DnsName

@[ext] theorem ext {a b : DnsName} (h : a.labels = b.labels) : a = b := by
  cases a
  cases b
  simpa using h

theorem labels_injective : Function.Injective labels := fun _ _ => ext

def root : DnsName := ⟨[], by decide⟩

/-- The name of some labels, if they are within the limit. -/
def ofLabels (labels : List DnsLabel) : Option DnsName :=
  if h : labelsLen labels ≤ maxDnsNameLen then some ⟨labels, h⟩ else none

@[simp] theorem ofLabels_labels (name : DnsName) : ofLabels name.labels = some name := by
  rw [ofLabels, dif_pos name.length_le]

theorem ofLabels_eq_some {labels : List DnsLabel} {name : DnsName} :
    ofLabels labels = some name ↔ name.labels = labels := by
  constructor
  · intro h
    rw [ofLabels] at h
    split_ifs at h
    cases h
    rfl
  · rintro rfl
    exact ofLabels_labels name

/-- The loop of `parse_wire`, with the labels read so far. A round reads a label, of which at most
    253 octets fit, or follows a pointer, of which there are at most 16. -/
def parseWireLoop (message : List UInt8) :
    ℕ → DnsName → ℕ → Option ℕ → ℕ → Except ParseError (DnsName × ℕ)
  | 0, _, _, _, _ => .error .invalidDnsPointer
  | fuel + 1, labels, cursor, consumed, jumps => do
    let length ← Except.ofOption .unexpectedEof message[cursor]?
    let cursor := cursor + 1
    if length &&& 0xc0 = 0xc0 then
      let next ← Except.ofOption .unexpectedEof message[cursor]?
      let cursor := cursor + 1
      let pointer := (length &&& 0x3f).toNat * 256 + next.toNat
      if message.length ≤ pointer then throw .invalidDnsPointer
      if 16 < jumps + 1 then throw .invalidDnsPointer
      parseWireLoop message fuel labels pointer (some (consumed.getD cursor)) (jumps + 1)
    else if length &&& 0xc0 ≠ 0 then throw .invalidDnsLabel
    else if length = 0 then return (labels, consumed.getD cursor)
    else
      let stop := cursor + length.toNat
      if message.length < stop then throw .unexpectedEof
      let label ← Except.ofOption .invalidDnsLabel
        (DnsLabel.ofBytes ((message.drop cursor).take length.toNat))
      let labels ← Except.ofOption .lengthLimit (ofLabels (labels.labels ++ [label]))
      parseWireLoop message fuel labels stop consumed jumps

def parseWire (message : List UInt8) (offset : ℕ) : Except ParseError (DnsName × ℕ) :=
  parseWireLoop message 270 root offset none 0

/-- What `encode_wire` writes for the labels. -/
def wire (labels : List DnsLabel) : List UInt8 :=
  labels.flatMap (fun label => UInt8.ofNat label.bytes.length :: label.bytes) ++ [0]

/-- What `encode_wire` writes; the limit of a label has been checked when it was read. -/
def encodeWire (name : DnsName) : Except ParseError (List UInt8) :=
  if name.labels.any fun label => maxDnsLabelLen < label.bytes.length then .error .invalidDnsLabel
  else .ok (wire name.labels)

@[simp] theorem encodeWire_eq_ok (name : DnsName) : name.encodeWire = .ok (wire name.labels) := by
  rw [encodeWire, if_neg]
  simpa using fun label _ => label.length_le

theorem length_wire (labels : List DnsLabel) : (wire labels).length = labelsLen labels + 1 := by
  simp [wire, labelsLen, List.length_flatMap]

theorem selfDelimiting_wire : Octet.SelfDelimiting wire :=
  Octet.selfDelimiting_labels DnsLabel.bytes_injective (fun l => l.length_pos)
    fun l => lt_of_le_of_lt l.length_le (by decide)

/-- Two names that are written alike, whatever follows. -/
theorem wire_append_inj {a b : DnsName} {x y : List UInt8}
    (h : wire a.labels ++ x = wire b.labels ++ y) : a = b ∧ x = y := by
  obtain ⟨hab, hxy⟩ := selfDelimiting_wire h
  exact ⟨ext hab, hxy⟩

/-- The octet of the length of a label is no pointer. -/
theorem length_and_pointer : ∀ n < 64, UInt8.ofNat n &&& 0xc0 = 0 := by decide +kernel

/-- The octets of a label, with what follows. -/
theorem wire_cons (label : DnsLabel) (labels : List DnsLabel) :
    wire (label :: labels) = UInt8.ofNat label.bytes.length :: (label.bytes ++ wire labels) := by
  simp [wire]

theorem parseWireLoop_wire {message tail : List UInt8} {rest : List DnsLabel}
    {labels name : DnsName} {cursor fuel : ℕ} (hmessage : message.drop cursor = wire rest ++ tail)
    (hname : name.labels = labels.labels ++ rest) (hfuel : rest.length < fuel) :
    parseWireLoop message fuel labels cursor none 0 = .ok (name, cursor + (wire rest).length) := by
  induction rest generalizing labels cursor fuel with
  | nil =>
    obtain ⟨fuel, rfl⟩ := Nat.exists_eq_add_of_lt hfuel
    obtain rfl : labels = name := ext (by simp [hname])
    have hget : message[cursor]? = some 0 := by
      rw [← List.head?_drop, hmessage]
      rfl
    rw [parseWireLoop, hget]
    rfl
  | cons label rest ih =>
    obtain ⟨fuel, rfl⟩ := Nat.exists_eq_add_of_lt hfuel
    rw [wire_cons, List.cons_append, List.append_assoc] at hmessage
    have hget : message[cursor]? = some (UInt8.ofNat label.bytes.length) := by
      rw [← List.head?_drop, hmessage]
      rfl
    have hdrop : message.drop (cursor + 1) = label.bytes ++ (wire rest ++ tail) := by
      rw [← List.drop_drop, hmessage]
      rfl
    have hlen : (UInt8.ofNat label.bytes.length).toNat = label.bytes.length := by
      rw [UInt8.toNat_ofNat', Nat.mod_eq_of_lt (lt_of_le_of_lt label.length_le (by decide))]
    have hpointer := length_and_pointer _ (Nat.lt_succ_of_le label.length_le)
    have hpos : UInt8.ofNat label.bytes.length ≠ 0 := by
      intro h
      rw [h] at hlen
      exact absurd hlen label.length_pos.ne
    have hlength := congrArg List.length hdrop
    rw [List.length_drop, List.length_append] at hlength
    -- The label fits, as the whole name does.
    have hfits : labelsLen (labels.labels ++ [label]) ≤ maxDnsNameLen := by
      refine le_trans ?_ name.length_le
      rw [hname]
      simp only [labelsLen_append, labelsLen_cons, labelsLen_nil]
      omega
    rw [parseWireLoop, hget]
    simp only [Except.ofOption_some, Except.ok_bind, hpointer, hlen, hpos, hdrop, List.take_left,
      DnsLabel.ofBytes_bytes, ne_eq, not_true_eq_false, if_false]
    have hnotlt : ¬message.length < cursor + 1 + label.bytes.length := by
      have := label.length_pos
      omega
    have hzero : ¬(0 : UInt8) = 0xc0 := by decide
    rw [if_neg hzero, if_neg hnotlt, ofLabels, dif_pos hfits]
    have hread : (⟨labels.labels ++ [label], hfits⟩ : DnsName).labels ++ rest = name.labels := by
      simp [hname]
    refine (ih ?_ hread.symm ?_).trans ?_
    · rw [← List.drop_drop, hdrop, List.drop_left]
    · rw [List.length_cons]
      omega
    · rw [wire_cons]
      simp
      omega

/-- A name that is written is read again. -/
theorem parseWire_wire (name : DnsName) (front tail : List UInt8) :
    parseWire (front ++ (wire name.labels ++ tail)) front.length =
      .ok (name, front.length + (wire name.labels).length) := by
  have hcount (labels : List DnsLabel) : labels.length ≤ labelsLen labels := by
    induction labels with
    | nil => exact le_rfl
    | cons label labels ih =>
      rw [List.length_cons, labelsLen_cons]
      omega
  refine parseWireLoop_wire (by rw [List.drop_left]) rfl ?_
  have hle := (hcount name.labels).trans name.length_le
  exact lt_of_le_of_lt hle (by decide)

/-! ## Texts -/

/-- `char::is_whitespace`. -/
def isWhitespace (c : Char) : Bool :=
  (0x9 ≤ c.val ∧ c.val ≤ 0xd) ∨ c.val = 0x20 ∨ c.val = 0x85 ∨ c.val = 0xa0 ∨ c.val = 0x1680 ∨
    (0x2000 ≤ c.val ∧ c.val ≤ 0x200a) ∨ c.val = 0x2028 ∨ c.val = 0x2029 ∨ c.val = 0x202f ∨
    c.val = 0x205f ∨ c.val = 0x3000

def trimEndMatches (p : Char → Bool) (text : List Char) : List Char :=
  (text.reverse.dropWhile p).reverse

def trim (text : List Char) : List Char := trimEndMatches isWhitespace (text.dropWhile isWhitespace)

def fromAscii (name : List Char) : Except ParseError DnsName := do
  let trimmed := trimEndMatches (· = '.') (trim name)
  if trimmed = [] then return root
  let labels ← (trimmed.splitOn '.').mapM fun label =>
    Except.ofOption .invalidDnsLabel (DnsLabel.ofBytes (label.flatMap String.utf8EncodeChar))
  Except.ofOption .lengthLimit (ofLabels labels)

/-- The labels, joined by dots. -/
def join (labels : List DnsLabel) : List Char := ['.'].intercalate (labels.map DnsLabel.text)

/-- What is shown of a name. -/
def display (name : DnsName) : List Char :=
  if name.labels = [] then ['.'] else join name.labels

/-! ## The tree of names -/

def isStrictSubdomain (name parent : DnsName) : Bool :=
  parent.labels.length < name.labels.length ∧ parent.labels.isSuffixOf name.labels

def isSubdomainOrEqual (name parent : DnsName) : Bool := parent.labels.isSuffixOf name.labels

/-- The order of `canonical_name_cmp`: label by label from the end. -/
def canonicalNameCmp (left right : DnsName) : Ordering :=
  List.compareLex (fun l r => List.compareLex compare l.bytes r.bytes)
    left.labels.reverse right.labels.reverse

end DnsName

end Hns
