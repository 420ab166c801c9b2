import Hns.Transport.Decoded
import Mathlib.Data.List.DropRight
import Mathlib.Data.List.TakeWhile

/-!
# Heads on the wire

How an honest server writes the head of a response (`WireHead.encode`), line by
line, and what `parse_http_response_to_writer_reusable` reads of it: the same
version, status and headers, with the values trimmed (`parseHead_encode`), up to
the empty line and no further (`readHeaderBytes_encode`).

Before that, what the functions of the standard library make of well-formed texts:
splits at a separator, numbers in digits, and what is trimmed around a word.
-/

namespace Hns

open Except EStateM

open DnsName (trim isWhitespace)

namespace Http11

/-! ## Lines -/

/-- There is no line end in the octets. -/
def IsLine (line : List UInt8) : Prop := cr ∉ line ∧ lf ∉ line

instance (line : List UInt8) : Decidable (IsLine line) := inferInstanceAs (Decidable (_ ∧ _))

theorem splitLines_ne_nil (octets : List UInt8) : splitLines octets ≠ [] := by
  fun_induction splitLines octets <;> simp

theorem splitLines_append (octets rest : List UInt8) :
    splitLines (octets ++ crlf ++ rest) = splitLines octets ++ splitLines rest := by
  fun_induction splitLines octets with
  | case1 => simp [crlf, splitLines]
  | case2 octet =>
    simp [crlf, splitLines, show ¬cr = lf by decide]
  | case3 rest' octet octet' hend ih =>
    obtain ⟨rfl, rfl⟩ := hend
    simp only [List.cons_append, splitLines, and_self, if_true]
    exact congrArg _ ih
  | case4 rest' octet octet' hnot line lines hsplit ih =>
    rw [hsplit] at ih
    simp only [List.cons_append] at ih ⊢
    rw [splitLines, if_neg hnot, ih]
  | case5 rest' octet octet' hnot hsplit ih => exact absurd hsplit (splitLines_ne_nil _)

theorem splitLines_of_not_mem {line : List UInt8} (h : cr ∉ line) : splitLines line = [line] := by
  fun_induction splitLines line with
  | case1 => rfl
  | case2 octet => rfl
  | case3 rest octet octet' hend ih => exact absurd (hend.1 ▸ List.mem_cons_self) h
  | case4 rest octet octet' hnot line lines hsplit ih =>
    rw [ih fun hmem => h (List.mem_cons_of_mem _ hmem)] at hsplit
    cases hsplit
    rfl
  | case5 rest octet octet' hnot hsplit ih => exact absurd hsplit (splitLines_ne_nil _)

/-- Lines that are put together fall apart again. -/
theorem splitLines_intercalate {lines : List (List UInt8)} (hne : lines ≠ [])
    (h : ∀ line ∈ lines, cr ∉ line) : splitLines (crlf.intercalate lines) = lines := by
  induction lines with
  | nil => exact absurd rfl hne
  | cons line lines ih =>
    rw [List.forall_mem_cons] at h
    cases lines with
    | nil => simpa using splitLines_of_not_mem h.1
    | cons next lines =>
      rw [List.intercalate_cons_cons, splitLines_append, splitLines_of_not_mem h.1,
        ih (List.cons_ne_nil _ _) h.2]
      rfl

/-- Lines that a text falls apart into make up the text again. -/
theorem intercalate_splitLines (octets : List UInt8) :
    crlf.intercalate (splitLines octets) = octets := by
  fun_induction splitLines octets with
  | case1 => rfl
  | case2 octet => rfl
  | case3 octet octet' rest hend ih =>
    obtain ⟨rfl, rfl⟩ := hend
    obtain ⟨line, lines, hlines⟩ := List.exists_cons_of_ne_nil (splitLines_ne_nil rest)
    rw [hlines] at ih ⊢
    rw [List.intercalate_cons_cons, ih]
    rfl
  | case4 octet octet' rest hnot line lines hsplit ih =>
    rw [hsplit] at ih
    rw [← ih]
    cases lines with
    | nil => simp
    | cons next lines => simp [List.intercalate_cons_cons]
  | case5 octet octet' rest hnot hsplit ih => exact absurd hsplit (splitLines_ne_nil _)

/-- A line that does not fall apart. There may be a bare `cr` in it, or a bare `lf`. -/
def IsUnbroken (line : List UInt8) : Prop := ¬crlf <:+: line

theorem IsUnbroken.of_part {line part : List UInt8} (h : IsUnbroken line) (hpart : part <:+: line) :
    IsUnbroken part := fun hcrlf => h (hcrlf.trans hpart)

theorem IsUnbroken.append {start line : List UInt8} (hstart : cr ∉ start) (h : IsUnbroken line) :
    IsUnbroken (start ++ line) := by
  induction start with
  | nil => exact h
  | cons octet start ih =>
    rw [List.mem_cons, not_or] at hstart
    intro hcrlf
    rcases List.infix_cons_iff.1 hcrlf with hfront | hrest
    · exact hstart.1 (List.cons_prefix_cons.1 hfront).1
    · exact ih hstart.2 hrest

theorem splitLines_of_isUnbroken {line : List UInt8} (h : IsUnbroken line) :
    splitLines line = [line] := by
  fun_induction splitLines line with
  | case1 => rfl
  | case2 octet => rfl
  | case3 octet octet' rest hend ih =>
    obtain ⟨rfl, rfl⟩ := hend
    exact absurd ⟨[], rest, rfl⟩ h
  | case4 octet octet' rest hnot line lines hsplit ih =>
    rw [ih (h.of_part (List.infix_cons (List.infix_refl _)))] at hsplit
    cases hsplit
    rfl
  | case5 octet octet' rest hnot hsplit ih => exact absurd hsplit (splitLines_ne_nil _)

/-- The lines of a text do not fall apart any further. -/
theorem isUnbroken_of_mem_splitLines {octets : List UInt8} :
    ∀ line ∈ splitLines octets, IsUnbroken line := by
  have hnil : IsUnbroken [] := fun h => by simp [crlf] at h
  fun_induction splitLines octets with
  | case1 => simpa using hnil
  | case2 octet =>
    rw [List.forall_mem_singleton]
    rintro ⟨before, after, heq⟩
    have hlength := congrArg List.length heq
    simp [crlf] at hlength
    omega
  | case3 octet octet' rest hend ih => exact List.forall_mem_cons.2 ⟨hnil, ih⟩
  | case4 octet octet' rest hnot line lines hsplit ih =>
    rw [hsplit, List.forall_mem_cons] at ih
    refine List.forall_mem_cons.2 ⟨fun hcrlf => ?_, ih.2⟩
    rcases List.infix_cons_iff.1 hcrlf with hfront | hrest
    · -- The line begins where the octets do.
      obtain ⟨hoctet, hline⟩ := List.cons_prefix_cons.1 hfront
      have hline' : line <+: octet' :: rest := by
        rw [← intercalate_splitLines (octet' :: rest), hsplit, Chars.intercalate_cons]
        exact List.prefix_append _ _
      exact hnot ⟨hoctet.symm, (List.cons_prefix_cons.1 (hline.trans hline')).1.symm⟩
    · exact ih.1 hrest
  | case5 octet octet' rest hnot hsplit ih => exact absurd hsplit (splitLines_ne_nil _)

theorem splitLines_intercalate_of_isUnbroken {lines : List (List UInt8)} (hne : lines ≠ [])
    (h : ∀ line ∈ lines, IsUnbroken line) : splitLines (crlf.intercalate lines) = lines := by
  induction lines with
  | nil => exact absurd rfl hne
  | cons line lines ih =>
    rw [List.forall_mem_cons] at h
    cases lines with
    | nil => simpa using splitLines_of_isUnbroken h.1
    | cons next lines =>
      rw [List.intercalate_cons_cons, splitLines_append, splitLines_of_isUnbroken h.1,
        ih (List.cons_ne_nil _ _) h.2]
      rfl

theorem splitLines_eq_singleton_nil {octets : List UInt8} (h : splitLines octets = [[]]) :
    octets = [] := by
  fun_cases splitLines octets with
  | case1 => rfl
  | case2 octet => cases h
  | case3 octet octet' rest hend =>
    rw [splitLines, if_pos hend] at h
    exact absurd (List.cons.inj h).2 (splitLines_ne_nil _)
  | case4 octet octet' rest hnot line lines hsplit =>
    rw [splitLines, if_neg hnot, hsplit] at h
    cases h
  | case5 octet octet' rest hnot hsplit => exact absurd hsplit (splitLines_ne_nil _)

theorem intercalate_append {lines lines' : List (List UInt8)} (hne : lines ≠ [])
    (hne' : lines' ≠ []) : crlf.intercalate (lines ++ lines') =
      crlf.intercalate lines ++ crlf ++ crlf.intercalate lines' := by
  induction lines with
  | nil => exact absurd rfl hne
  | cons line lines ih =>
    cases lines with
    | nil =>
      obtain ⟨next, lines', rfl⟩ := List.exists_cons_of_ne_nil hne'
      simp [List.intercalate_cons_cons]
    | cons next lines =>
      have hrest := ih (List.cons_ne_nil _ _)
      rw [List.cons_append] at hrest
      rw [List.cons_append, List.cons_append, List.intercalate_cons_cons, List.intercalate_cons_cons,
        hrest]
      simp

/-- In front of the first empty line, no line behind the first one is empty. -/
theorem IsFirst.ne_nil_of_mem_tail {octets : List UInt8} (h : IsFirst (crlf ++ crlf) octets) :
    ∀ line ∈ (splitLines octets).tail, line ≠ [] := by
  rintro line hline rfl
  obtain ⟨first, lines, hlines⟩ := List.exists_cons_of_ne_nil (splitLines_ne_nil octets)
  rw [hlines, List.tail_cons] at hline
  obtain ⟨before, after, rfl⟩ := List.append_of_mem hline
  -- The octets up to the empty line, and what is behind it.
  have hoctets : octets = crlf.intercalate (first :: before) ++ crlf ++
      crlf.intercalate ([] :: after) := by
    rw [← intercalate_splitLines octets, hlines, ← List.cons_append,
      intercalate_append (List.cons_ne_nil _ _) (List.cons_ne_nil _ _)]
  have hfront : crlf.intercalate (first :: before) ++ (crlf ++ crlf) <+: octets ++ (crlf ++ crlf) := by
    rw [hoctets]
    cases after with
    | nil => exact ⟨crlf, by simp⟩
    | cons next after =>
      exact ⟨crlf.intercalate (next :: after) ++ (crlf ++ crlf), by
        simp [List.intercalate_cons_cons]⟩
  have heq := List.append_cancel_right (h _ hfront (List.suffix_append _ _))
  have hlength := congrArg List.length (heq.trans hoctets)
  simp only [List.length_append, crlf, List.length_cons, List.length_nil] at hlength
  omega

theorem splitLines_append_two (octets rest : List UInt8) :
    splitLines (octets ++ (crlf ++ crlf) ++ rest) = splitLines octets ++ [] :: splitLines rest := by
  have hempty : splitLines ([] ++ crlf ++ rest) = [] :: splitLines rest := splitLines_append [] rest
  rw [← hempty, ← splitLines_append]
  simp

/-- Behind lines that are not empty, and fall apart again, the first empty line is where it has been
    put. -/
theorem first_empty_line_of_splitLines {lines : List (List UInt8)}
    (hsame : splitLines (crlf.intercalate lines) = lines) (hlines : ∀ line ∈ lines, line ≠ []) :
    IsFirst (crlf ++ crlf) (crlf.intercalate lines) := by
  rintro front ⟨back, hback⟩ ⟨before, rfl⟩
  by_contra hneq
  have hback' : back ≠ [] := by
    rintro rfl
    exact hneq (by rw [← hback, List.append_nil])
  have hsplit : splitLines before ++ [] :: splitLines back = lines ++ [[], []] := by
    have hboth := congrArg splitLines hback
    have hend := splitLines_append_two (crlf.intercalate lines) []
    rwa [splitLines_append_two, ← List.append_nil (crlf.intercalate lines ++ (crlf ++ crlf)), hend,
      hsame] at hboth
  -- The empty lines are the last two, so that nothing is behind them.
  have hlength : (splitLines before).length = lines.length := by
    have hlengths := congrArg List.length hsplit
    have hpos := List.length_pos_of_ne_nil (splitLines_ne_nil back)
    simp only [List.length_append, List.length_cons, List.length_nil] at hlengths
    by_contra hlt
    have hget := congrArg (·[(splitLines before).length]?) hsplit
    simp only [List.getElem?_append_right le_rfl, Nat.sub_self, List.getElem?_cons_zero] at hget
    rw [List.getElem?_append_left (by omega)] at hget
    exact hlines [] (List.mem_of_getElem? hget.symm) rfl
  obtain ⟨-, hrest⟩ := List.append_inj hsplit hlength
  exact hback' (splitLines_eq_singleton_nil (List.cons.inj hrest).2)

/-- Behind lines that are not empty, the first empty line is where it has been put. -/
theorem first_empty_line {lines : List (List UInt8)} (hne : lines ≠ [])
    (hcr : ∀ line ∈ lines, cr ∉ line) (hlines : ∀ line ∈ lines, line ≠ []) :
    IsFirst (crlf ++ crlf) (crlf.intercalate lines) :=
  first_empty_line_of_splitLines (splitLines_intercalate hne hcr) hlines

/-- A line ends where its end has been put. -/
theorem IsLine.isFirst {line : List UInt8} (h : IsLine line) : IsFirst crlf line := by
  intro front hfront hsuffix
  have hconcat : line ++ crlf = (line ++ [cr]) ++ [lf] := by simp [crlf]
  rw [hconcat, List.prefix_concat_iff, ← hconcat] at hfront
  refine hfront.resolve_right fun hfront => ?_
  -- The line feed that ends the front is in the line.
  have hmem : lf ∈ line ++ [cr] := hfront.subset (hsuffix.subset (by simp [crlf]))
  rcases List.mem_append.1 hmem with hmem | hmem
  · exact h.2 hmem
  · exact absurd (List.mem_singleton.1 hmem) (by decide)

/-! ## Reading up to a terminator -/

theorem IsFirst.not_suffix {terminator octets : List UInt8} (h : IsFirst terminator octets) :
    ∀ front, front <+: octets ++ terminator → front ≠ [] → front ≠ octets ++ terminator →
      ¬terminator <:+ [] ++ front :=
  fun front hfront _ hneq hsuffix => hneq (h front hfront hsuffix)

@[simp] theorem Exchange.setUnread_setUnread (x : Exchange) (unread unread' : List UInt8) :
    (x.setUnread unread).setUnread unread' = x.setUnread unread' := rfl

/-- A search finds the first end of the terminator, if there is room for it. -/
theorem readUntil_eq {terminator octets rest : List UInt8} {word out : List UInt8}
    (hend : out ++ word = octets ++ terminator) (hne : word ≠ [])
    (hfirst : ∀ front, front <+: word → front ≠ [] → front ≠ word → ¬terminator <:+ out ++ front)
    (room : ℕ) {x : Exchange} (hunread : x.socket.unread = word ++ rest) :
    (word.length ≤ room → readUntil terminator room out x = .ok octets (x.setUnread rest)) ∧
      (room < word.length → ∃ x', readUntil terminator room out x = .error .responseTooLarge x') := by
  induction room generalizing word out x with
  | zero =>
    refine ⟨fun hle => absurd (List.eq_nil_of_length_eq_zero (Nat.le_zero.1 hle)) hne, fun _ => ?_⟩
    exact ⟨x, rfl⟩
  | succ room ih =>
    cases word with
    | nil => exact absurd rfl hne
    | cons octet word =>
      have hbyte : readByte x = .ok (some octet) (x.setUnread (word ++ rest)) := by
        rw [readByte, hunread]
        rfl
      have hstep : readUntil terminator (room + 1) out x =
          if terminator <:+ out ++ [octet] then
            .ok ((out ++ [octet]).take ((out ++ [octet]).length - terminator.length))
              (x.setUnread (word ++ rest))
          else readUntil terminator room (out ++ [octet]) (x.setUnread (word ++ rest)) := by
        rw [readUntil, bind_ok hbyte]
        dsimp only
        split_ifs <;> rfl
      rw [hstep]
      cases word with
      | nil =>
        -- The terminator ends here.
        rw [if_pos (hend ▸ List.suffix_append octets terminator), hend, List.length_append,
          Nat.add_sub_cancel, List.take_left]
        refine ⟨fun _ => rfl, fun hlt => absurd hlt ?_⟩
        simp
      | cons next word =>
        have hnot : ¬terminator <:+ out ++ [octet] := by
          refine hfirst [octet] ⟨next :: word, rfl⟩ (List.cons_ne_nil _ _) ?_
          simp
        rw [if_neg hnot]
        have hrest := @ih (next :: word) (out ++ [octet]) (by rw [← hend]; simp)
          (List.cons_ne_nil _ _) (fun front hfront hnil hneq => ?_) (x.setUnread (next :: word ++ rest))
          rfl
        · simpa using hrest
        · rw [List.append_assoc]
          exact hfirst (octet :: front) (List.cons_prefix_cons.2 ⟨rfl, hfront⟩) (List.cons_ne_nil _ _)
            fun heq => hneq (List.cons.inj heq).2

/-- A line is read up to its end. -/
theorem readCrlfLine_eq {line rest : List UInt8} (hline : IsLine line) (htext : fromUtf8 line ≠ none)
    {limit : ℕ} (hlimit : line.length + 2 ≤ limit) {x : Exchange}
    (hunread : x.socket.unread = line ++ crlf ++ rest) :
    readCrlfLine limit x = .ok line (x.setUnread rest) := by
  have hread := (readUntil_eq (List.nil_append _) (by simp [crlf]) hline.isFirst.not_suffix limit
    hunread).1 (by simpa [crlf] using hlimit)
  rw [readCrlfLine, bind_ok hread, if_neg htext]
  rfl

/-! ## Parts -/

theorem splitOnce_eq_some {α : Type} [DecidableEq α] {separator : α} {text a b : List α} :
    splitOnce separator text = some (a, b) ↔ separator ∉ a ∧ text = a ++ separator :: b := by
  rw [splitOnce]
  constructor
  · intro h
    split_ifs at h with hmem
    obtain ⟨rfl, rfl⟩ := Prod.mk.inj (Option.some.inj h)
    refine ⟨fun hin => by simpa using List.mem_takeWhile_imp hin, ?_⟩
    cases hdrop : text.dropWhile (· ≠ separator) with
    | nil => exact absurd (List.dropWhile_eq_nil_iff.1 hdrop _ hmem) (by simp)
    | cons c rest =>
      have hc : c = separator := by
        have hhead := List.head?_dropWhile_not (fun c => decide (c ≠ separator)) text
        rw [hdrop] at hhead
        simpa using hhead
      conv_lhs => rw [← List.takeWhile_append_dropWhile (p := (· ≠ separator)) (l := text), hdrop, hc]
      rfl
  · rintro ⟨hnot, rfl⟩
    have hne : ∀ c ∈ a, decide (c ≠ separator) = true := fun c hc =>
      decide_eq_true fun heq => hnot (heq ▸ hc)
    rw [if_pos (by simp), List.takeWhile_append_of_pos hne, List.dropWhile_append_of_pos hne]
    simp

/-- Digits to a base. -/
def IsDigits (radix : ℕ) (digits : List UInt8) : Prop :=
  digits ≠ [] ∧ ∀ digit ∈ digits, (toDigit radix digit).isSome

/-- The number behind another one. -/
def digitsFrom (radix value : ℕ) (digits : List UInt8) : ℕ :=
  digits.foldl (fun value digit => value * radix + (toDigit radix digit).getD 0) value

/-- The number that digits stand for. -/
def digitsValue (radix : ℕ) (digits : List UInt8) : ℕ := digitsFrom radix 0 digits

theorem le_digitsFrom {radix : ℕ} (hradix : 0 < radix) (value : ℕ) (digits : List UInt8) :
    value ≤ digitsFrom radix value digits := by
  induction digits generalizing value with
  | nil => exact le_rfl
  | cons digit digits ih =>
    refine le_trans ?_ (ih _)
    exact (Nat.le_mul_of_pos_right value hradix).trans (Nat.le_add_right _ _)

theorem parseDigits_eq {radix bound : ℕ} (hradix : 0 < radix) {digits : List UInt8}
    (h : ∀ digit ∈ digits, (toDigit radix digit).isSome) {value : ℕ} (hvalue : value < bound) :
    parseDigits radix bound digits value =
      if digitsFrom radix value digits < bound then some (digitsFrom radix value digits)
      else none := by
  induction digits generalizing value with
  | nil => exact (if_pos hvalue).symm
  | cons digit digits ih =>
    rw [List.forall_mem_cons] at h
    obtain ⟨d, hd⟩ := Option.isSome_iff_exists.1 h.1
    have hfrom : digitsFrom radix value (digit :: digits) =
        digitsFrom radix (value * radix + d) digits := by
      rw [digitsFrom, List.foldl_cons, hd]
      rfl
    rw [parseDigits, hd, hfrom]
    change (if value * radix + d < bound then parseDigits radix bound digits (value * radix + d)
      else none) = _
    split_ifs with hstep hall hall
    · rw [ih h.2 hstep, if_pos hall]
    · rw [ih h.2 hstep, if_neg hall]
    · -- The number does not become smaller again.
      exact absurd ((le_digitsFrom hradix _ digits).trans_lt hall) hstep
    · rfl

theorem toDigit_plus (radix : ℕ) : toDigit radix 0x2b = none := by
  simp [toDigit]

/-- Digits are read as the number that they stand for, if it is not too large. -/
theorem fromStrRadix_eq {radix bound : ℕ} (hradix : 0 < radix) (hbound : 0 < bound)
    {digits : List UInt8} (h : IsDigits radix digits) :
    fromStrRadix radix bound digits =
      if digitsValue radix digits < bound then some (digitsValue radix digits) else none := by
  obtain ⟨hne, h⟩ := h
  cases digits with
  | nil => exact absurd rfl hne
  | cons digit digits =>
    have hplus : digit ≠ 0x2b := by
      rintro rfl
      have hsome := h 0x2b List.mem_cons_self
      rw [toDigit_plus] at hsome
      cases hsome
    rw [fromStrRadix, if_neg hplus, parseDigits_eq hradix h hbound, digitsValue]

theorem isSome_toDigit_of_parseDigits {radix bound : ℕ} {digits : List UInt8} {value number : ℕ}
    (h : parseDigits radix bound digits value = some number) :
    ∀ digit ∈ digits, (toDigit radix digit).isSome := by
  induction digits generalizing value with
  | nil => exact fun _ hmem => absurd hmem List.not_mem_nil
  | cons digit digits ih =>
    rw [parseDigits] at h
    obtain ⟨d, hd, h⟩ := Option.bind_eq_some_iff.1 h
    dsimp only at h
    split_ifs at h
    rw [List.forall_mem_cons, hd]
    exact ⟨rfl, ih h⟩

/-- What is read as a number is one in digits, maybe behind a plus sign. -/
theorem isDigits_of_fromStrRadix {radix bound : ℕ} {octets : List UInt8} {number : ℕ}
    (h : fromStrRadix radix bound octets = some number) :
    IsDigits radix octets ∨ ∃ digits, octets = 0x2b :: digits ∧ IsDigits radix digits := by
  cases octets with
  | nil => cases h
  | cons octet octets =>
    rw [fromStrRadix] at h
    split_ifs at h with hplus hnil
    · exact .inr ⟨octets, by rw [hplus], hnil, isSome_toDigit_of_parseDigits h⟩
    · exact .inl ⟨List.cons_ne_nil _ _, isSome_toDigit_of_parseDigits h⟩

theorem digitsFrom_append (radix value : ℕ) (a b : List UInt8) :
    digitsFrom radix value (a ++ b) = digitsFrom radix (digitsFrom radix value a) b :=
  List.foldl_append

/-- A number in decimal is read back. -/
theorem digits_decimal (n : ℕ) :
    IsDigits 10 (utf8 (Chars.decimal n)) ∧ digitsValue 10 (utf8 (Chars.decimal n)) = n := by
  have hdigit : ∀ d < 10, ∃ octet, String.utf8EncodeChar (Nat.digitChar d) = [octet] ∧
      toDigit 10 octet = some d := by
    have hall : ∀ d < 10, String.utf8EncodeChar (Nat.digitChar d) = [UInt8.ofNat (0x30 + d)] ∧
        toDigit 10 (UInt8.ofNat (0x30 + d)) = some d := by decide
    exact fun d hd => ⟨_, hall d hd⟩
  induction n using Nat.strongRecOn with
  | ind n ih =>
    rw [Chars.decimal, Nat.toDigits_eq_if (by decide)]
    split_ifs with hlt
    · obtain ⟨octet, hbyte, hvalue⟩ := hdigit n hlt
      have hoctets : utf8 [Nat.digitChar n] = [octet] := by
        rw [utf8_cons, hbyte]
        rfl
      rw [hoctets]
      refine ⟨⟨List.cons_ne_nil _ _, by simp [hvalue]⟩, ?_⟩
      simp [digitsValue, digitsFrom, hvalue]
    · obtain ⟨⟨hne, hall⟩, hfront⟩ := ih (n / 10) (by omega)
      obtain ⟨octet, hbyte, hvalue⟩ := hdigit (n % 10) (Nat.mod_lt _ (by decide))
      have hoctets : utf8 (Nat.toDigits 10 (n / 10) ++ [Nat.digitChar (n % 10)]) =
          utf8 (Chars.decimal (n / 10)) ++ [octet] := by
        rw [utf8_append, utf8_cons, hbyte]
        rfl
      rw [hoctets]
      refine ⟨⟨by simp, ?_⟩, ?_⟩
      · rw [List.forall_mem_append, List.forall_mem_singleton, hvalue]
        exact ⟨hall, rfl⟩
      · rw [digitsValue, digitsFrom_append, ← digitsValue, hfront]
        simp only [digitsFrom, List.foldl_cons, List.foldl_nil, hvalue, Option.getD_some]
        omega

/-! ## White space -/

theorem dropWhile_pad {α : Type*} {p : α → Bool} {before word : List α}
    (hbefore : ∀ a ∈ before, p a) (hword : ∀ a ∈ word.head?, p a = false) :
    (before ++ word).dropWhile p = word := by
  rw [List.dropWhile_append_of_pos hbefore]
  cases word with
  | nil => rfl
  | cons a word => rw [List.dropWhile_cons, hword a rfl]; rfl

/-- What stands around a text that neither begins nor ends with such a character is trimmed. -/
theorem trimMatches_pad {p : Char → Bool} {before word after : List Char}
    (hbefore : ∀ c ∈ before, p c) (hafter : ∀ c ∈ after, p c)
    (hhead : ∀ c ∈ word.head?, p c = false) (hlast : ∀ c ∈ word.getLast?, p c = false) :
    trimMatches p (before ++ word ++ after) = word := by
  have hafter' : ∀ c ∈ after.reverse, p c := fun c hc => hafter c (List.mem_reverse.1 hc)
  cases word with
  | nil =>
    have hall : ∀ c ∈ before ++ [] ++ after, p c := by
      simpa [or_imp, forall_and] using ⟨hbefore, hafter⟩
    rw [trimMatches, List.dropWhile_eq_nil_iff.2 hall]
    rfl
  | cons c word =>
    rw [trimMatches, DnsName.trimEndMatches, List.append_assoc,
      dropWhile_pad hbefore (by simpa using hhead), List.reverse_append,
      dropWhile_pad hafter' (by rwa [List.head?_reverse]), List.reverse_reverse]

/-- What is trimmed stands around what is left. -/
theorem exists_trimMatches (p : Char → Bool) (text : List Char) :
    ∃ before after, (∀ c ∈ before, p c) ∧ (∀ c ∈ after, p c) ∧
      (∀ c ∈ (trimMatches p text).head?, p c = false) ∧
      (∀ c ∈ (trimMatches p text).getLast?, p c = false) ∧
      text = before ++ trimMatches p text ++ after := by
  have htrim : trimMatches p text = (text.dropWhile p).rdropWhile p := rfl
  refine ⟨text.takeWhile p, (text.dropWhile p).rtakeWhile p, fun c hc => List.mem_takeWhile_imp hc,
    fun c hc => List.mem_rtakeWhile_imp hc, fun c hc => ?_, fun c hc => ?_, ?_⟩
  · obtain ⟨rest, hrest⟩ := List.rdropWhile_prefix (p := p) (l := text.dropWhile p)
    have hhead := List.head?_dropWhile_not p text
    rw [htrim] at hc
    rw [← hrest, List.head?_append, Option.mem_def.1 hc] at hhead
    simpa using hhead
  · rw [htrim] at hc
    obtain ⟨hne, rfl⟩ := List.mem_getLast?_eq_getLast hc
    exact Bool.not_eq_true _ ▸ List.rdropWhile_last_not p _ hne
  · rw [htrim, List.append_assoc, List.rdropWhile_append_rtakeWhile, List.takeWhile_append_dropWhile]

theorem trimMatches_trimMatches (p : Char → Bool) (text : List Char) :
    trimMatches p (trimMatches p text) = trimMatches p text := by
  obtain ⟨-, -, -, -, hhead, hlast, -⟩ := exists_trimMatches p text
  have htrim := @trimMatches_pad p [] (trimMatches p text) [] (fun _ hc => absurd hc List.not_mem_nil)
    (fun _ hc => absurd hc List.not_mem_nil) hhead hlast
  rwa [List.nil_append, List.append_nil] at htrim

/-- A text without such characters is not trimmed. -/
theorem trimMatches_eq_self {p : Char → Bool} {text : List Char} (h : ∀ c ∈ text, p c = false) :
    trimMatches p text = text := by
  have htrim := @trimMatches_pad p [] text [] (fun _ hc => absurd hc List.not_mem_nil)
    (fun _ hc => absurd hc List.not_mem_nil) (fun c hc => h c (List.mem_of_mem_head? hc))
    fun c hc => h c (List.mem_of_mem_getLast? hc)
  simpa using htrim

theorem trim_eq (text : List Char) : trim text = trimMatches isWhitespace text := rfl

theorem trimOctets_utf8 (text : List Char) : trimOctets (utf8 text) = utf8 (trim text) := by
  rw [trimOctets, fromUtf8_utf8]

theorem trimOctets_trimOctets (octets : List UInt8) :
    trimOctets (trimOctets octets) = trimOctets octets := by
  cases htext : fromUtf8 octets with
  | none =>
    have htrim : trimOctets octets = octets := by rw [trimOctets, htext]
    rw [htrim, htrim]
  | some text =>
    rw [fromUtf8_eq_some.1 htext, trimOctets_utf8, trimOctets_utf8, trim_eq, trim_eq,
      trimMatches_trimMatches]

/-- `OWS`: spaces and tabs. -/
def IsOws (text : List Char) : Prop := ∀ c ∈ text, c = ' ' ∨ c = '\t'

theorem IsOws.isWhitespace {text : List Char} (h : IsOws text) : ∀ c ∈ text, isWhitespace c := by
  intro c hc
  rcases h c hc with rfl | rfl <;> decide

theorem trim_subset {c : Char} {text : List Char} (h : c ∈ trim text) : c ∈ text := by
  have h := (List.dropWhile_suffix _).subset (List.mem_reverse.1 h)
  exact (List.dropWhile_suffix _).subset (List.mem_reverse.1 h)

/-- An octet of ASCII that is no white space. -/
def IsWordByte (octet : UInt8) : Prop :=
  octet.toNat < 128 ∧ isWhitespace (Char.ofNat octet.toNat) = false

instance (octet : UInt8) : Decidable (IsWordByte octet) := inferInstanceAs (Decidable (_ ∧ _))

theorem utf8EncodeChar_of_ascii : ∀ octet : UInt8, octet.toNat < 128 →
    String.utf8EncodeChar (Char.ofNat octet.toNat) = [octet] :=
  UInt8.forall_of_lt (by decide +kernel)

theorem utf8_of_ascii {octets : List UInt8} (h : ∀ octet ∈ octets, octet.toNat < 128) :
    utf8 (octets.map fun octet => Char.ofNat octet.toNat) = octets := by
  induction octets with
  | nil => rfl
  | cons octet octets ih =>
    rw [List.forall_mem_cons] at h
    rw [List.map_cons, utf8_cons, utf8EncodeChar_of_ascii octet h.1, ih h.2]
    rfl

theorem fromUtf8_of_ascii {octets : List UInt8} (h : octets.all (·.toNat < 128)) :
    fromUtf8 octets ≠ none := by
  simp only [List.all_eq_true, decide_eq_true_iff] at h
  rw [fromUtf8_eq_some.2 (utf8_of_ascii h).symm]
  exact Option.some_ne_none _

/-- Spaces and tabs, as octets. -/
def IsOwsBytes (octets : List UInt8) : Prop := ∀ octet ∈ octets, octet = 0x20 ∨ octet = 0x09

/-- A word, with white space around it. -/
def IsPadded (octets word : List UInt8) : Prop :=
  ∃ before after, IsOwsBytes before ∧ IsOwsBytes after ∧ octets = before ++ word ++ after

/-- What stands around a word is trimmed. -/
theorem IsPadded.trimOctets {octets word : List UInt8} (h : IsPadded octets word)
    (hword : ∀ octet ∈ word, IsWordByte octet) : trimOctets octets = word := by
  obtain ⟨before, after, hbefore, hafter, rfl⟩ := h
  have hows {octets : List UInt8} (h : IsOwsBytes octets) : (∀ octet ∈ octets, octet.toNat < 128) ∧
      ∀ c ∈ octets.map fun octet => Char.ofNat octet.toNat, isWhitespace c = true := by
    rw [List.forall_mem_map, ← forall₂_and]
    intro octet hoctet
    rcases h octet hoctet with rfl | rfl <;> decide
  have hchars : ∀ c ∈ word.map fun octet => Char.ofNat octet.toNat, isWhitespace c = false := by
    rw [List.forall_mem_map]
    exact fun octet hoctet => (hword octet hoctet).2
  rw [← utf8_of_ascii (hows hbefore).1, ← utf8_of_ascii (hows hafter).1,
    ← utf8_of_ascii fun octet hoctet => (hword octet hoctet).1, ← utf8_append, ← utf8_append,
    trimOctets_utf8]
  congr 1
  exact trimMatches_pad (hows hbefore).2 (hows hafter).2
    (fun c hc => hchars c (List.mem_of_mem_head? hc)) fun c hc => hchars c (List.mem_of_mem_getLast? hc)

/-- A word is not trimmed. -/
theorem trimOctets_of_word {octets : List UInt8} (h : ∀ octet ∈ octets, IsWordByte octet) :
    trimOctets octets = octets :=
  IsPadded.trimOctets ⟨[], [], fun _ hc => absurd hc List.not_mem_nil, fun _ hc =>
    absurd hc List.not_mem_nil, by simp⟩ h

theorem isWordByte_of_isTokenByte :
    ∀ octet : UInt8, isTokenByte octet → IsWordByte octet ∧ octet ≠ 0x3a ∧ octet ≠ cr ∧ octet ≠ lf :=
  UInt8.forall_of_lt (by decide +kernel)

theorem isWordByte_of_toDigit : ∀ octet : UInt8, (toDigit 16 octet).isSome →
    IsWordByte octet ∧ octet ≠ 0x3b ∧ octet ≠ cr ∧ octet ≠ lf :=
  UInt8.forall_of_lt (by decide +kernel)

theorem toDigit_ten : ∀ octet : UInt8, (toDigit 10 octet).isSome → (toDigit 16 octet).isSome :=
  UInt8.forall_of_lt (by decide +kernel)

theorem isTokenByte_of_isHttpToken {name : List UInt8} (h : isHttpToken name) :
    ∀ octet ∈ name, isTokenByte octet := List.all_eq_true.1 (of_decide_eq_true h).2

/-! ## Tokens -/

/-- A character of a token. -/
def IsTokenChar (c : Char) : Prop :=
  c.toNat < 128 ∧ isTokenByte (UInt8.ofNat c.toNat) = true

theorem isTokenChar_of_isHttpToken {text : List Char} (h : isHttpToken (utf8 text)) :
    ∀ c ∈ text, IsTokenChar c := by
  intro c hc
  have hbytes : ∀ octet ∈ String.utf8EncodeChar c, isTokenByte octet = true := fun octet hoctet =>
    isTokenByte_of_isHttpToken h octet (List.mem_flatMap.2 ⟨c, hc, hoctet⟩)
  have hascii : c.toNat < 128 := by
    by_contra hle
    rw [not_lt] at hle
    obtain ⟨octet, hoctet⟩ := List.exists_mem_of_ne_nil _ (String.utf8EncodeChar_ne_nil (c := c))
    have hlt := (isWordByte_of_isTokenByte octet (hbytes octet hoctet)).1.1
    have hge := le_of_mem_utf8EncodeChar hle hoctet
    omega
  refine ⟨hascii, hbytes _ ?_⟩
  rw [utf8EncodeChar_of_lt hascii]
  exact List.mem_singleton_self _

theorem IsTokenChar.ne {c : Char} (h : IsTokenChar c) :
    isWhitespace c = false ∧ c ≠ '=' ∧ c ≠ '"' ∧ c ≠ ',' ∧ c ≠ ';' := by
  have hword := (isWordByte_of_isTokenByte _ h.2).1.2
  rw [UInt8.toNat_ofNat_of_lt' (Nat.lt_trans h.1 (by decide)), Char.ofNat_toNat] at hword
  refine ⟨hword, ?_, ?_, ?_, ?_⟩
  all_goals
    rintro rfl
    exact absurd h.2 (by decide)

theorem mem_utf8 {c : Char} (hc : c.toNat < 128) {text : List Char} (h : c ∈ text) :
    UInt8.ofNat c.toNat ∈ utf8 text := by
  refine List.mem_flatMap.2 ⟨c, h, ?_⟩
  rw [utf8EncodeChar_of_lt hc]
  exact List.mem_singleton_self _

theorem trim_token {name : List Char} (h : isHttpToken (utf8 name)) : trim name = name :=
  trimMatches_eq_self fun c hc => (isTokenChar_of_isHttpToken h c hc).ne.1

theorem last_append_cons {front text : List Char} {c : Char} (hne : text ≠ [])
    (h : ∀ c ∈ text.getLast?, isWhitespace c = false) :
    ∀ d ∈ (front ++ c :: text).getLast?, isWhitespace d = false := by
  rwa [← List.singleton_append, ← List.append_assoc, List.getLast?_append,
    List.getLast?_eq_some_getLast hne, Option.some_or, ← List.getLast?_eq_some_getLast hne]

theorem ne_nil_of_isHttpToken {name : List Char} (h : isHttpToken (utf8 name)) : name ≠ [] := by
  rintro rfl
  exact absurd h (by decide)

/-- The head of a response, as it is sent: `HTTP/1.1 200 OK` and lines of fields. -/
structure WireHead where
  version : List UInt8
  status : ℕ
  reason : List UInt8
  fields : Headers
  version_ok : utf8 (Chars.of "HTTP/") <+: version ∧ IsLine version ∧ 0x20 ∉ version
  status_ok : 100 ≤ status ∧ status ≤ 999
  reason_ok : IsLine reason
  fields_ok : ∀ field ∈ fields, isHttpToken field.1 ∧ IsLine field.2

namespace WireHead

def statusLine (head : WireHead) : List UInt8 :=
  head.version ++ 0x20 :: utf8 (Chars.decimal head.status) ++ 0x20 :: head.reason

def fieldLine (field : List UInt8 × List UInt8) : List UInt8 := field.1 ++ 0x3a :: field.2

def lines (head : WireHead) : List (List UInt8) := head.statusLine :: head.fields.map fieldLine

/-- The octets before the empty line. -/
def encode (head : WireHead) : List UInt8 := crlf.intercalate head.lines

/-- What is read of it. -/
def read (head : WireHead) : ResponseHead where
  version := head.version
  status := head.status
  headers := head.fields.map fun field => (field.1, trimOctets field.2)

variable (head : WireHead)

theorem isWordByte_status : ∀ octet ∈ utf8 (Chars.decimal head.status),
    IsWordByte octet ∧ octet ≠ cr := fun octet hoctet =>
  have hdigit := isWordByte_of_toDigit octet
    (toDigit_ten octet ((digits_decimal head.status).1.2 octet hoctet))
  ⟨hdigit.1, hdigit.2.2.1⟩

theorem lines_ne_nil : head.lines ≠ [] := List.cons_ne_nil _ _

theorem cr_not_mem : ∀ line ∈ head.lines, cr ∉ line := by
  rw [lines, List.forall_mem_cons, List.forall_mem_map]
  refine ⟨?_, fun field hfield => ?_⟩
  · have hstatus : cr ∉ utf8 (Chars.decimal head.status) := fun hmem =>
      (head.isWordByte_status cr hmem).2 rfl
    simp only [statusLine, List.mem_append, List.mem_cons, not_or]
    exact ⟨⟨head.version_ok.2.1.1, by decide, hstatus⟩, by decide, head.reason_ok.1⟩
  · obtain ⟨htoken, hvalue⟩ := head.fields_ok field hfield
    have hname : cr ∉ field.1 := fun hmem =>
      (isWordByte_of_isTokenByte cr (isTokenByte_of_isHttpToken htoken cr hmem)).2.2.1 rfl
    simp only [fieldLine, List.mem_append, List.mem_cons, not_or]
    exact ⟨hname, by decide, hvalue.1⟩

theorem ne_nil_of_mem_lines : ∀ line ∈ head.lines, line ≠ [] := by
  rw [lines, List.forall_mem_cons, List.forall_mem_map]
  exact ⟨by simp [statusLine], fun field _ => by simp [fieldLine]⟩

theorem parseHeader_fieldLine {field : List UInt8 × List UInt8} (h : isHttpToken field.1) :
    parseHeader (fieldLine field) = .ok (field.1, trimOctets field.2) := by
  have hbytes := fun octet hoctet =>
    isWordByte_of_isTokenByte octet (isTokenByte_of_isHttpToken h octet hoctet)
  have hsplit : splitOnce 0x3a (fieldLine field) = some field :=
    splitOnce_eq_some.2 ⟨fun hmem => (hbytes _ hmem).2.1 rfl, rfl⟩
  rw [parseHeader, hsplit]
  dsimp only [ofOption, bind, Except.bind]
  rw [trimOctets_of_word fun octet hoctet => (hbytes octet hoctet).1, h]
  rfl

/-- **A head is read as it has been written**, with the values trimmed. -/
theorem parseHead_encode (h : fromUtf8 head.encode ≠ none) :
    parseHead head.encode = .ok head.read := by
  have hlines : splitLines head.encode = head.lines :=
    splitLines_intercalate head.lines_ne_nil head.cr_not_mem
  have hparts : head.statusLine.splitOn 0x20 =
      head.version :: utf8 (Chars.decimal head.status) :: head.reason.splitOn 0x20 := by
    rw [statusLine, List.append_assoc, List.cons_append,
      List.splitOn_append_cons_self_of_not_mem head.version_ok.2.2,
      List.splitOn_append_cons_self_of_not_mem fun hmem =>
        absurd (head.isWordByte_status _ hmem).1 (by decide)]
  have hstatus : fromStrRadix 10 (2 ^ 16) (utf8 (Chars.decimal head.status)) = some head.status := by
    obtain ⟨hdigits, hvalue⟩ := digits_decimal head.status
    rw [fromStrRadix_eq (by decide) (by decide) hdigits, hvalue,
      if_pos (head.status_ok.2.trans_lt (by decide))]
  have hfilter : (head.fields.map fieldLine).filter (· ≠ []) = head.fields.map fieldLine := by
    rw [List.filter_eq_self, List.forall_mem_map]
    exact fun field _ => by simp [fieldLine]
  have hheaders : (head.fields.map fieldLine).mapM parseHeader =
      .ok (head.fields.map fun field => (field.1, trimOctets field.2)) := by
    rw [mapM_eq_ok, List.forall₂_map_left_iff, List.forall₂_map_right_iff, List.forall₂_same]
    exact fun field hfield => parseHeader_fieldLine (head.fields_ok field hfield).1
  have hvalid : ¬(¬utf8 (Chars.of "HTTP/") <+: head.version ∨ head.status < 100 ∨
      999 < head.status) := by
    have hstatus := head.status_ok
    simp only [head.version_ok.1, not_true_eq_false, false_or]
    omega
  rw [parseHead, if_neg h, hlines, lines]
  simp only [List.headD_cons, List.tail_cons, hparts, hfilter, hheaders]
  simp only [List.getElem?_cons_succ, List.getElem?_cons_zero, ofOption_some, ok_bind, hstatus, hvalid,
    if_false]
  rfl

/-- **A head is read up to the first empty line.** -/
theorem readHeaderBytes_encode {limit : ℕ} (hlimit : head.encode.length + 4 ≤ limit)
    {rest : List UInt8} {x : Exchange}
    (hunread : x.socket.unread = head.encode ++ (crlf ++ crlf) ++ rest) :
    readHeaderBytes limit x = .ok head.encode (x.setUnread rest) := by
  have hfirst := first_empty_line head.lines_ne_nil head.cr_not_mem head.ne_nil_of_mem_lines
  refine (readUntil_eq (List.nil_append _) (by simp [crlf]) hfirst.not_suffix limit hunread).1 ?_
  simpa [encode, crlf] using hlimit

end WireHead

end Http11

end Hns
