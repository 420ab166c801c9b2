import Mathlib.Data.List.TakeWhile
import Hns.Core.Utf8
import Hns.Dns.Text
import Hns.Resolver.Basic

/-!
# Roots

The label of the Handshake root under which the resolver looks for a name, as
it is taken from what has been entered: a name, perhaps with a scheme before it
and a path after it. A name that has a hash is its own root (`hnsRootLabel_of_fromName`).
-/

namespace Hns

open DnsName

/-- `trim_start_matches` of a text: it is taken away as often as it stands at the start. -/
def trimStartMatches (start : List Char) : ℕ → List Char → List Char
  | 0, text => text
  | fuel + 1, text =>
    if start.isPrefixOf text then trimStartMatches start fuel (text.drop start.length) else text

/-- A character that ends the host of an address. -/
def isHostEnd (c : Char) : Bool := c = '/' ∨ c = '?' ∨ c = '#'

/-- The text without a scheme before it and a path after it. -/
def trimAddress (text : List Char) : List Char :=
  (trimStartMatches "http://".toList text.length
    (trimStartMatches "https://".toList text.length text)).takeWhile fun c => !isHostEnd c

variable [Digests]

def hnsRootLabel (input : List Char) : Except ResolverError (List Char) := do
  let trimmed := trimEndMatches (· = '.') (trimAddress (trim input))
  let name ← (fromAscii trimmed).mapError fun _ => .unsupportedBackend
  let root ← Except.ofOption .unsupportedBackend name.labels.getLast?
  let _ ← (NameHash.fromName root.text).mapError .invalidName
  return root.text

/-! ## Names that have a hash -/

/-- An octet of a name that has a hash. -/
def isHandshakeByte (byte : UInt8) : Bool :=
  ((0x30 ≤ byte ∧ byte ≤ 0x39) ∨ (0x61 ≤ byte ∧ byte ≤ 0x7a)) ∨ byte = 0x2d ∨ byte = 0x5f

omit [Digests] in
theorem label_of_isHandshakeByte : ∀ byte, isHandshakeByte byte →
    isLabelByte byte = true ∧ toAsciiLowercase byte = byte ∧ Char.ofNat byte.toNat ≠ ':' ∧
      isHostEnd (Char.ofNat byte.toNat) = false :=
  UInt8.forall_of_lt (by decide +kernel)

omit [Digests] in
theorem isHandshakeByte_of_validate {length index : ℕ} {bytes : List UInt8}
    (h : validateHandshakeBytes length index bytes = .ok ()) :
    ∀ byte ∈ bytes, isHandshakeByte byte := by
  induction bytes generalizing index with
  | nil => exact fun _ hmem => absurd hmem List.not_mem_nil
  | cons byte bytes ih =>
    rw [validateHandshakeBytes] at h
    rw [List.forall_mem_cons, isHandshakeByte, decide_eq_true_eq]
    split_ifs at h with halpha hupper hmiddle hend
    · exact ⟨.inl halpha, ih h⟩
    · exact ⟨.inr hmiddle, ih h⟩

omit [Digests] in
/-- A text without the characters of a beginning does not have it. -/
theorem trimStartMatches_of_not_mem {start text : List Char} {c : Char} (hc : c ∈ start)
    (hnot : c ∉ text) (fuel : ℕ) : trimStartMatches start fuel text = text := by
  cases fuel with
  | zero => rfl
  | succ fuel =>
    rw [trimStartMatches, if_neg]
    rw [List.isPrefixOf_iff_prefix]
    exact fun hmem => hnot (hmem.subset hc)

/-- The name is the text of a label. -/
theorem exists_label_of_fromName {name : List Char} {nameHash : NameHash}
    (h : NameHash.fromName name = .ok nameHash) :
    ∃ label : DnsLabel, label.text = name ∧ ∀ byte ∈ label.bytes, isHandshakeByte byte := by
  rw [NameHash.fromName] at h
  cases hvalid : validateHandshakeName name with
  | error e =>
    rw [hvalid] at h
    cases h
  | ok u =>
    rw [validateHandshakeName] at hvalid
    split_ifs at hvalid with hempty hlong hblack
    have hbytes := isHandshakeByte_of_validate hvalid
    let label : DnsLabel := {
      bytes := utf8 name
      length_pos := List.length_pos_of_ne_nil hempty
      length_le := not_lt.1 hlong
      valid := by
        rw [isValidDnsLabel, decide_eq_true_eq, List.all_eq_true]
        exact .inr fun byte hbyte => (label_of_isHandshakeByte byte (hbytes byte hbyte)).1
      lower := by
        rw [List.map_congr_left fun byte hbyte =>
          (label_of_isHandshakeByte byte (hbytes byte hbyte)).2.1, List.map_id'] }
    exact ⟨label, utf8_injective label.flatMap_text, hbytes⟩

/-- A name that has a hash is its own root. -/
theorem hnsRootLabel_of_fromName {name : List Char} {nameHash : NameHash}
    (h : NameHash.fromName name = .ok nameHash) : hnsRootLabel name = .ok name := by
  obtain ⟨label, hlabel, hbytes⟩ := exists_label_of_fromName h
  have hchars : ∀ c ∈ name, c ≠ ':' ∧ isHostEnd c = false := by
    rw [← hlabel, DnsLabel.text, List.forall_mem_map]
    exact fun byte hbyte => (label_of_isHandshakeByte byte (hbytes byte hbyte)).2.2
  have htext : trimEndMatches (· = '.') (trimAddress (trim name)) = name := by
    have hcolon : ':' ∉ name := fun hmem => (hchars ':' hmem).1 rfl
    have hspace : trim name = name :=
      trim_of_not_space fun c hc => (label.isLabelText.isTextChar c (hlabel ▸ hc)).not_space
    have hrest : name.takeWhile (fun c => !isHostEnd c) = name :=
      List.takeWhile_eq_self_iff.2 fun c hc => by rw [(hchars c hc).2]; rfl
    have hdots := @trim_intercalate [label.text] (List.cons_ne_nil _ _)
      (List.forall_mem_singleton.2 label.isLabelText) [] fun _ hmem => absurd hmem List.not_mem_nil
    rw [List.append_nil, List.intercalate_singleton, hlabel, hspace] at hdots
    rw [hspace, trimAddress, trimStartMatches_of_not_mem (c := ':') (by decide) hcolon,
      trimStartMatches_of_not_mem (c := ':') (by decide) hcolon, hrest, hdots]
  have hfits : labelsLen [label] ≤ maxDnsNameLen :=
    (Nat.succ_le_succ label.length_le).trans (by decide)
  have hascii := fromAscii_join_cons label []
  rw [join, List.map_singleton, List.intercalate_singleton, hlabel, ofLabels, dif_pos hfits] at hascii
  rw [hnsRootLabel, htext, hascii]
  simp only [Except.ofOption_some, Except.mapError, Except.ok_bind, List.getLast?_singleton, hlabel, h]
  rfl

end Hns
