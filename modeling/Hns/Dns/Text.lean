import Hns.Dns.Order
import Hns.Lib.Chars

/-!
# Names and their texts

The text of a name is read as the name again (`fromAscii_join`): its octets are
those of ASCII, none of them a dot or white space.
-/

namespace Hns

/-! ## Octets of labels -/

/-- An octet of a label, or the asterisk. -/
def isTextByte (byte : UInt8) : Bool := isLabelByte byte ∨ byte = 0x2a

/-- A character of a label. -/
structure IsTextChar (c : Char) : Prop where
  ne_dot : c ≠ '.'
  not_space : DnsName.isWhitespace c = false

theorem isTextChar_of_isTextByte :
    ∀ byte, isTextByte byte → IsTextChar (Char.ofNat byte.toNat) := by
  have key : ∀ byte : UInt8, isTextByte byte →
      Char.ofNat byte.toNat ≠ '.' ∧ DnsName.isWhitespace (Char.ofNat byte.toNat) = false :=
    UInt8.forall_of_lt (by decide +kernel)
  exact fun byte h => ⟨(key byte h).1, (key byte h).2⟩

theorem utf8EncodeChar_ofNat :
    ∀ byte : UInt8, isTextByte byte → String.utf8EncodeChar (Char.ofNat byte.toNat) = [byte] :=
  UInt8.forall_of_lt (by decide +kernel)

theorem isTextByte_of_isValidDnsLabel {bytes : List UInt8} (h : isValidDnsLabel bytes) :
    ∀ byte ∈ bytes, isTextByte byte := by
  intro byte hbyte
  simp only [isValidDnsLabel, Bool.decide_or, Bool.or_eq_true, decide_eq_true_eq,
    List.all_eq_true] at h
  rw [isTextByte, decide_eq_true_eq]
  rcases h with hstar | hall
  · rw [hstar, List.mem_singleton] at hbyte
    exact .inr hbyte
  · exact .inl (hall byte hbyte)

/-- The octets of a text are those of its characters. -/
theorem flatMap_utf8EncodeChar {bytes : List UInt8} (h : ∀ byte ∈ bytes, isTextByte byte) :
    (bytes.map fun byte => Char.ofNat byte.toNat).flatMap String.utf8EncodeChar = bytes := by
  induction bytes with
  | nil => rfl
  | cons byte bytes ih =>
    obtain ⟨hbyte, hbytes⟩ := List.forall_mem_cons.1 h
    rw [List.map_cons, List.flatMap_cons, utf8EncodeChar_ofNat byte hbyte, ih hbytes]
    rfl

/-- A text as a label has: it is not empty, and of the characters of labels. -/
structure IsLabelText (text : List Char) : Prop where
  ne_nil : text ≠ []
  isTextChar : ∀ c ∈ text, IsTextChar c

theorem isLabelText_of_isValidDnsLabel {bytes : List UInt8} (hpos : 0 < bytes.length)
    (h : isValidDnsLabel bytes) : IsLabelText (bytes.map fun byte => Char.ofNat byte.toNat) where
  ne_nil := by
    rw [ne_eq, List.map_eq_nil_iff]
    exact List.ne_nil_of_length_pos hpos
  isTextChar := List.forall_mem_map.2 fun byte hbyte =>
    isTextChar_of_isTextByte byte (isTextByte_of_isValidDnsLabel h byte hbyte)

namespace DnsLabel

variable (label : DnsLabel)

theorem isLabelText : IsLabelText label.text :=
  isLabelText_of_isValidDnsLabel label.length_pos label.valid

@[simp] theorem flatMap_text : label.text.flatMap String.utf8EncodeChar = label.bytes :=
  flatMap_utf8EncodeChar (isTextByte_of_isValidDnsLabel label.valid)

end DnsLabel

namespace DnsName

/-! ## Texts of labels -/

theorem join_cons_cons (label label' : DnsLabel) (labels : List DnsLabel) :
    join (label :: label' :: labels) = label.text ++ '.' :: join (label' :: labels) := rfl

/-- The last character of some texts. -/
theorem exists_intercalate_eq_concat {texts : List (List Char)} (hne : texts ≠ [])
    (h : ∀ text ∈ texts, IsLabelText text) :
    ∃ front c, ['.'].intercalate texts = front ++ [c] ∧ IsTextChar c := by
  induction texts with
  | nil => exact absurd rfl hne
  | cons text texts ih =>
    rw [List.forall_mem_cons] at h
    cases texts with
    | nil =>
      refine ⟨text.dropLast, text.getLast h.1.ne_nil, ?_, h.1.isTextChar _ (List.getLast_mem _)⟩
      rw [List.intercalate_singleton, List.dropLast_append_getLast]
    | cons text' texts =>
      obtain ⟨front, c, hfront, hc⟩ := ih (List.cons_ne_nil _ _) h.2
      refine ⟨text ++ '.' :: front, c, ?_, hc⟩
      rw [List.intercalate_cons_cons, hfront]
      simp

theorem trim_of_not_space {text : List Char} (h : ∀ c ∈ text, isWhitespace c = false) :
    trim text = text := by
  have hdrop {text : List Char} (h : ∀ c ∈ text, isWhitespace c = false) :
      text.dropWhile isWhitespace = text := by
    cases text with
    | nil => rfl
    | cons c text =>
      rw [List.dropWhile_cons, h c List.mem_cons_self]
      rfl
  rw [trim, hdrop h, trimEndMatches, hdrop (by simpa using h), List.reverse_reverse]

theorem trimEndMatches_concat {p : Char → Bool} {c : Char} (text : List Char) {dots : List Char}
    (hc : p c = false) (hdots : ∀ d ∈ dots, p d) :
    trimEndMatches p (text ++ [c] ++ dots) = text ++ [c] := by
  rw [trimEndMatches, List.reverse_append, List.dropWhile_append_of_pos (by simpa using hdots)]
  simp [hc]

/-- The dots behind some texts are not read. -/
theorem trim_intercalate {texts : List (List Char)} (hne : texts ≠ [])
    (h : ∀ text ∈ texts, IsLabelText text) {dots : List Char} (hdots : ∀ d ∈ dots, d = '.') :
    trimEndMatches (· = '.') (trim (['.'].intercalate texts ++ dots)) = ['.'].intercalate texts := by
  have hdot : isWhitespace '.' = false := by decide
  have hspace : ∀ c ∈ ['.'].intercalate texts ++ dots, isWhitespace c = false := by
    rw [List.forall_mem_append]
    refine ⟨fun c hc => ?_, fun d hd => by rw [hdots d hd, hdot]⟩
    rcases Chars.mem_intercalate hc with hc | ⟨text, htext, hc⟩
    · rw [hc, hdot]
    · exact ((h text htext).isTextChar c hc).not_space
  obtain ⟨front, c, hfront, hc⟩ := exists_intercalate_eq_concat hne h
  rw [trim_of_not_space hspace, hfront,
    trimEndMatches_concat front (by simpa using hc.ne_dot) (by simpa using hdots)]

/-- Texts with dots between them, and behind them, are read one by one. -/
theorem fromAscii_intercalate {texts : List (List Char)} (hne : texts ≠ [])
    (h : ∀ text ∈ texts, IsLabelText text) {dots : List Char} (hdots : ∀ d ∈ dots, d = '.') :
    fromAscii (['.'].intercalate texts ++ dots) =
      (texts.mapM fun text => Except.ofOption .invalidDnsLabel
        (DnsLabel.ofBytes (text.flatMap String.utf8EncodeChar))) >>=
          fun labels => Except.ofOption .lengthLimit (ofLabels labels) := by
  have hsplit : (['.'].intercalate texts).splitOn '.' = texts :=
    List.splitOn_intercalate _ (fun text htext hdot => ((h text htext).isTextChar _ hdot).ne_dot rfl)
      hne
  obtain ⟨front, c, hfront, -⟩ := exists_intercalate_eq_concat hne h
  have htext : ['.'].intercalate texts ≠ [] := by
    rw [hfront]
    exact List.append_ne_nil_of_right_ne_nil _ (List.cons_ne_nil _ _)
  rw [fromAscii]
  simp only [trim_intercalate hne h hdots, htext, if_false, hsplit]

/-- A text is read as the labels it has been written for. -/
theorem fromAscii_join_cons (label : DnsLabel) (labels : List DnsLabel) :
    fromAscii (join (label :: labels)) =
      Except.ofOption .lengthLimit (ofLabels (label :: labels)) := by
  have hmap (ls : List DnsLabel) : (ls.map DnsLabel.text).mapM (fun text =>
      Except.ofOption ParseError.invalidDnsLabel
        (DnsLabel.ofBytes (text.flatMap String.utf8EncodeChar))) = .ok ls := by
    rw [Except.mapM_eq_ok]
    induction ls with
    | nil => exact .nil
    | cons l ls ih => exact .cons (by simp) ih
  have htexts : ∀ text ∈ (label :: labels).map DnsLabel.text, IsLabelText text :=
    List.forall_mem_map.2 fun l _ => l.isLabelText
  have hread := @fromAscii_intercalate _ (List.cons_ne_nil _ _) htexts []
    fun _ h => absurd h List.not_mem_nil
  rw [List.append_nil, ← List.map_cons, hmap, Except.ok_bind] at hread
  exact hread

/-- The text of a name is read as the name. -/
theorem fromAscii_join (name : DnsName) : fromAscii (join name.labels) = .ok name := by
  cases hlabels : name.labels with
  | nil =>
    obtain rfl : name = root := ext hlabels
    rfl
  | cons label labels => rw [fromAscii_join_cons, ← hlabels, ofLabels_labels]; rfl

/-- What is shown of a name is read as the name. -/
theorem fromAscii_display (name : DnsName) : fromAscii name.display = .ok name := by
  rw [display]
  split
  · rename_i hlabels
    obtain rfl : name = root := ext hlabels
    rfl
  · exact fromAscii_join name

end DnsName

end Hns
