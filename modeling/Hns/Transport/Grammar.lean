import Hns.Transport.Received
import Hns.Transport.Request

/-!
# The grammar of messages

The grammar of HTTP/1.1 (RFC 9112), for the lines of a head, the body in chunks
and a response as a whole (`IsResponse`). What follows from a text being of the
grammar for those who read it line by line: its lines have no line end inside, so
that it is cut in one way.
-/

namespace Hns

namespace Http11

/-! ## Lines -/

/-- What may be in the value of a field: no control octet but the tab. -/
def IsFieldText (octets : List UInt8) : Prop :=
  ∀ octet ∈ octets, isAsciiControl octet = false ∨ octet = 0x09

instance (octets : List UInt8) : Decidable (IsFieldText octets) :=
  inferInstanceAs (Decidable (∀ octet ∈ octets, _ ∨ _))

/-- `field-line`: the name, and what is behind the colon. -/
def IsField (field : List UInt8 × List UInt8) : Prop := isHttpToken field.1 ∧ IsFieldText field.2

/-- `status-line`. -/
def IsStatusLine (line : List UInt8) (status : ℕ) : Prop :=
  ∃ major minor digits reason, IsDigits 10 [major, minor] ∧ digits.length = 3 ∧
    IsDigits 10 digits ∧ digitsValue 10 digits = status ∧ IsFieldText reason ∧
    line = utf8 (Chars.of "HTTP/") ++ [major, 0x2e, minor] ++ 0x20 :: (digits ++ 0x20 :: reason)

/-! ## Bodies -/

/-- What is between the quotes of a `quoted-string`. -/
inductive IsQuoted : List UInt8 → Prop
  | nil : IsQuoted []
  | text {octet : UInt8} {rest : List UInt8} (hoctet : octet ≠ 0x22 ∧ octet ≠ 0x5c)
      (htext : IsFieldText [octet]) (hrest : IsQuoted rest) : IsQuoted (octet :: rest)
  | pair {octet : UInt8} {rest : List UInt8} (htext : IsFieldText [octet]) (hrest : IsQuoted rest) :
      IsQuoted (0x5c :: octet :: rest)

/-- `chunk-ext-val`. -/
inductive IsExtensionValue : List UInt8 → Prop
  | token {value : List UInt8} (h : isHttpToken value) : IsExtensionValue value
  | quoted {text : List UInt8} (h : IsQuoted text) : IsExtensionValue (0x22 :: text ++ [0x22])

/-- `chunk-ext`. -/
inductive IsChunkExtensions : List UInt8 → Prop
  | nil : IsChunkExtensions []
  | name {before between name rest : List UInt8} (hbefore : IsOwsBytes before)
      (hbetween : IsOwsBytes between) (hname : isHttpToken name) (hrest : IsChunkExtensions rest) :
      IsChunkExtensions (before ++ 0x3b :: (between ++ name ++ rest))
  | value {before between name before' between' value rest : List UInt8}
      (hbefore : IsOwsBytes before) (hbetween : IsOwsBytes between) (hname : isHttpToken name)
      (hbefore' : IsOwsBytes before') (hbetween' : IsOwsBytes between')
      (hvalue : IsExtensionValue value) (hrest : IsChunkExtensions rest) :
      IsChunkExtensions
        (before ++ 0x3b :: (between ++ name ++ before' ++ 0x3d :: (between' ++ value ++ rest)))

/-- The first line of a chunk: the size in hexadecimal, and extensions. -/
def IsChunkLine (line : List UInt8) (size : ℕ) : Prop :=
  ∃ digits extensions, IsDigits 16 digits ∧ digitsValue 16 digits = size ∧
    IsChunkExtensions extensions ∧ line = digits ++ extensions

/-- `trailer-section`, with the empty line. -/
inductive IsTrailers : List UInt8 → Prop
  | done : IsTrailers crlf
  | field {field : List UInt8 × List UInt8} {rest : List UInt8} (hfield : IsField field)
      (hrest : IsTrailers rest) : IsTrailers (WireHead.fieldLine field ++ crlf ++ rest)

/-- `chunked-body`, and what it is decoded to. -/
inductive IsChunked : List UInt8 → List UInt8 → Prop
  | last {line trailers : List UInt8} (hline : IsChunkLine line 0)
      (htrailers : IsTrailers trailers) : IsChunked (line ++ crlf ++ trailers) []
  | chunk {line data rest body : List UInt8} (hline : IsChunkLine line data.length)
      (hne : data ≠ []) (hrest : IsChunked rest body) :
      IsChunked (line ++ crlf ++ data ++ crlf ++ rest) (data ++ body)

/-- The octets behind a head that are its body, what they are decoded to, and what is behind them. -/
inductive IsBody (requestMethod : List UInt8) (status : ℕ) (fields : Headers) :
    List UInt8 → List UInt8 → List UInt8 → Prop
  | noBody {rest : List UInt8} (hno : responseHasNoBody requestMethod status) :
      IsBody requestMethod status fields [] [] rest
  | chunked {octets body rest value word : List UInt8}
      (hbody : ¬responseHasNoBody requestMethod status)
      (hcodings : values fields transferEncodingName = [value]) (hvalue : IsPadded value word)
      (hword : eqIgnoreCase word (utf8 (Chars.of "chunked")))
      (hlength : values fields contentLengthName = []) (hchunks : IsChunked octets body) :
      IsBody requestMethod status fields octets body rest
  | fixed {body rest : List UInt8} (hbody : ¬responseHasNoBody requestMethod status)
      (hcodings : values fields transferEncodingName = [])
      (hne : values fields contentLengthName ≠ [])
      (hlength : ∀ value ∈ values fields contentLengthName, ∃ digits, IsPadded value digits ∧
        IsDigits 10 digits ∧ digitsValue 10 digits = body.length) :
      IsBody requestMethod status fields body body rest
  | untilEnd {body : List UInt8} (hbody : ¬responseHasNoBody requestMethod status)
      (hcodings : values fields transferEncodingName = [])
      (hlength : values fields contentLengthName = []) :
      IsBody requestMethod status fields body body []

/-- The lines of the head of a response. -/
structure IsHead (line : List UInt8) (status : ℕ) (fields : Headers) : Prop where
  statusLine : IsStatusLine line status
  isField : ∀ field ∈ fields, IsField field
  lengths : ∀ value ∈ values fields contentLengthName, ∃ digits, IsPadded value digits ∧
    IsDigits 10 digits

def headOctets (line : List UInt8) (fields : Headers) : List UInt8 :=
  crlf.intercalate (line :: fields.map WireHead.fieldLine)

/-- A response, what its body is decoded to, and what is behind it. -/
def IsResponse (requestMethod octets body rest : List UInt8) : Prop :=
  ∃ line status fields bodyOctets, IsHead line status fields ∧
    IsBody requestMethod status fields bodyOctets body rest ∧
    octets = headOctets line fields ++ (crlf ++ crlf) ++ bodyOctets

/-! ## Lines have no line end inside -/

theorem isLine_append {a b : List UInt8} : IsLine (a ++ b) ↔ IsLine a ∧ IsLine b := by
  simp only [IsLine, List.mem_append, not_or]
  tauto

theorem isLine_cons {octet : UInt8} {octets : List UInt8} :
    IsLine (octet :: octets) ↔ (octet ≠ cr ∧ octet ≠ lf) ∧ IsLine octets := by
  simp only [IsLine, List.mem_cons, not_or, ne_eq, eq_comm]
  tauto

theorem isLine_nil : IsLine [] := ⟨List.not_mem_nil, List.not_mem_nil⟩

theorem IsFieldText.isLine {octets : List UInt8} (h : IsFieldText octets) : IsLine octets :=
  ⟨fun hmem => absurd (h cr hmem) (by decide), fun hmem => absurd (h lf hmem) (by decide)⟩

theorem isLine_of_isDigits {radix : ℕ} {digits : List UInt8} (hradix : radix = 10 ∨ radix = 16)
    (h : IsDigits radix digits) : IsLine digits := by
  have hdigit : ∀ octet ∈ digits, octet ≠ cr ∧ octet ≠ lf := by
    intro octet hoctet
    have hsome := h.2 octet hoctet
    rcases hradix with rfl | rfl
    · exact (isWordByte_of_toDigit octet (toDigit_ten octet hsome)).2.2
    · exact (isWordByte_of_toDigit octet hsome).2.2
  exact ⟨fun hmem => (hdigit cr hmem).1 rfl, fun hmem => (hdigit lf hmem).2 rfl⟩

theorem isLine_of_isHttpToken {name : List UInt8} (h : isHttpToken name) : IsLine name := by
  have hbytes := fun octet hoctet =>
    (isWordByte_of_isTokenByte octet (isTokenByte_of_isHttpToken h octet hoctet)).2.2
  exact ⟨fun hmem => (hbytes cr hmem).1 rfl, fun hmem => (hbytes lf hmem).2 rfl⟩

theorem IsOwsBytes.isLine {octets : List UInt8} (h : IsOwsBytes octets) : IsLine octets :=
  ⟨fun hmem => absurd (h cr hmem) (by decide), fun hmem => absurd (h lf hmem) (by decide)⟩

theorem IsField.isLine {field : List UInt8 × List UInt8} (h : IsField field) :
    IsLine (WireHead.fieldLine field) :=
  isLine_append.2 ⟨isLine_of_isHttpToken h.1, isLine_cons.2 ⟨by decide, h.2.isLine⟩⟩

theorem fieldLine_ne_nil (field : List UInt8 × List UInt8) : WireHead.fieldLine field ≠ [] := by
  simp [WireHead.fieldLine]

theorem IsStatusLine.isLine {line : List UInt8} {status : ℕ} (h : IsStatusLine line status) :
    IsLine line := by
  obtain ⟨major, minor, digits, reason, hversion, -, hdigits, -, hreason, rfl⟩ := h
  have hmajor := isLine_of_isDigits (.inl rfl) hversion
  rw [isLine_cons, isLine_cons] at hmajor
  simp only [isLine_append, isLine_cons]
  exact ⟨⟨by decide +kernel, hmajor.1, by decide, hmajor.2⟩, by decide,
    isLine_of_isDigits (.inl rfl) hdigits, by decide, hreason.isLine⟩

theorem IsStatusLine.ne_nil {line : List UInt8} {status : ℕ} (h : IsStatusLine line status) :
    line ≠ [] := by
  obtain ⟨major, minor, digits, reason, -, -, -, -, -, rfl⟩ := h
  simp

theorem IsQuoted.isLine {text : List UInt8} (h : IsQuoted text) : IsLine text := by
  induction h with
  | nil => exact isLine_nil
  | text hoctet htext hrest ih => exact isLine_cons.2 ⟨(isLine_cons.1 htext.isLine).1, ih⟩
  | pair htext hrest ih =>
    exact isLine_cons.2 ⟨by decide, isLine_cons.2 ⟨(isLine_cons.1 htext.isLine).1, ih⟩⟩

theorem IsExtensionValue.isLine {value : List UInt8} (h : IsExtensionValue value) :
    IsLine value := by
  cases h with
  | token h => exact isLine_of_isHttpToken h
  | quoted h =>
    exact isLine_append.2 ⟨isLine_cons.2 ⟨by decide, h.isLine⟩, by decide⟩

theorem IsChunkExtensions.isLine {extensions : List UInt8} (h : IsChunkExtensions extensions) :
    IsLine extensions := by
  induction h with
  | nil => exact isLine_nil
  | name hbefore hbetween hname hrest ih =>
    simp only [isLine_append, isLine_cons]
    exact ⟨hbefore.isLine, by decide, ⟨hbetween.isLine, isLine_of_isHttpToken hname⟩, ih⟩
  | value hbefore hbetween hname hbefore' hbetween' hvalue hrest ih =>
    simp only [isLine_append, isLine_cons]
    exact ⟨hbefore.isLine, by decide,
      ⟨⟨hbetween.isLine, isLine_of_isHttpToken hname⟩, hbefore'.isLine⟩, by decide,
      ⟨hbetween'.isLine, hvalue.isLine⟩, ih⟩

/-- Extensions begin with a semicolon, behind white space maybe. -/
theorem IsChunkExtensions.eq_nil_or {extensions : List UInt8} (h : IsChunkExtensions extensions) :
    extensions = [] ∨ ∃ before text, IsOwsBytes before ∧ extensions = before ++ 0x3b :: text := by
  cases h with
  | nil => exact .inl rfl
  | name hbefore hbetween hname hrest => exact .inr ⟨_, _, hbefore, rfl⟩
  | value hbefore hbetween hname hbefore' hbetween' hvalue hrest =>
    exact .inr ⟨_, _, hbefore, rfl⟩

theorem IsChunkLine.isLine {line : List UInt8} {size : ℕ} (h : IsChunkLine line size) :
    IsLine line := by
  obtain ⟨digits, extensions, hdigits, -, hextensions, rfl⟩ := h
  exact isLine_append.2 ⟨isLine_of_isDigits (.inr rfl) hdigits, hextensions.isLine⟩

/-! ## Heads end at the first empty line -/

/-- A first line and fields, none with a line end inside. -/
structure IsSection (line : List UInt8) (fields : Headers) : Prop where
  isLine : IsLine line
  ne_nil : line ≠ []
  isField : ∀ field ∈ fields, isHttpToken field.1 ∧ IsLine field.2

theorem splitOnce_fieldLine {field : List UInt8 × List UInt8} (h : isHttpToken field.1) :
    splitOnce 0x3a (WireHead.fieldLine field) = some field := by
  have hbytes := isTokenByte_of_isHttpToken h
  exact splitOnce_eq_some.2 ⟨fun hmem => (isWordByte_of_isTokenByte _ (hbytes _ hmem)).2.1 rfl, rfl⟩

theorem filterMap_splitOnce {fields : Headers} (h : ∀ field ∈ fields, isHttpToken field.1) :
    (fields.map WireHead.fieldLine).filterMap (splitOnce 0x3a) = fields := by
  rw [List.filterMap_map]
  exact (List.filterMap_congr fun field hfield => splitOnce_fieldLine (h field hfield)).trans
    List.filterMap_some

namespace IsSection

variable {line line' rest rest' : List UInt8} {fields fields' : Headers}

theorem isLine_of_mem (h : IsSection line fields) :
    ∀ text ∈ line :: fields.map WireHead.fieldLine, IsLine text ∧ text ≠ [] := by
  rw [List.forall_mem_cons, List.forall_mem_map]
  refine ⟨⟨h.isLine, h.ne_nil⟩, fun field hfield => ⟨?_, fieldLine_ne_nil field⟩⟩
  obtain ⟨hname, hvalue⟩ := h.isField field hfield
  exact isLine_append.2 ⟨isLine_of_isHttpToken hname, isLine_cons.2 ⟨by decide, hvalue⟩⟩

theorem isFirst (h : IsSection line fields) : IsFirst (crlf ++ crlf) (headOctets line fields) :=
  first_empty_line (List.cons_ne_nil _ _) (fun text htext => (h.isLine_of_mem text htext).1.1)
    fun text htext => (h.isLine_of_mem text htext).2

theorem splitLines (h : IsSection line fields) :
    splitLines (headOctets line fields) = line :: fields.map WireHead.fieldLine :=
  splitLines_intercalate (List.cons_ne_nil _ _) fun text htext => (h.isLine_of_mem text htext).1.1

/-- A text has one head. -/
theorem unique (h : IsSection line fields) (h' : IsSection line' fields')
    (heq : headOctets line fields ++ (crlf ++ crlf) ++ rest =
      headOctets line' fields' ++ (crlf ++ crlf) ++ rest') :
    line = line' ∧ fields = fields' ∧ rest = rest' := by
  obtain ⟨hsame, hrest⟩ := h.isFirst.unique h'.isFirst heq
  have hlines := h.splitLines.symm.trans ((congrArg Http11.splitLines hsame).trans h'.splitLines)
  obtain ⟨hline, hfields⟩ := List.cons.inj hlines
  refine ⟨hline, ?_, hrest⟩
  rw [← filterMap_splitOnce fun field hfield => (h.isField field hfield).1, hfields,
    filterMap_splitOnce fun field hfield => (h'.isField field hfield).1]

end IsSection

theorem IsHead.isSection {line : List UInt8} {status : ℕ} {fields : Headers}
    (h : IsHead line status fields) : IsSection line fields :=
  ⟨h.statusLine.isLine, h.statusLine.ne_nil,
    fun field hfield => ⟨(h.isField field hfield).1, (h.isField field hfield).2.isLine⟩⟩

/-! ## Chunks are cut in one way -/

/-- The size in a line, trimmed. -/
def sizeText (line : List UInt8) : List UInt8 := trimOctets (line.takeWhile (· ≠ 0x3b))

/-- A chunk of as many octets as its line says. -/
def wireChunk (digits extensions : List UInt8) (hdigits : IsDigits 16 digits)
    (hextensions : IsChunkExtensions extensions) : WireChunk where
  digits := digits
  extension := extensions
  data := List.replicate (digitsValue 16 digits) 0
  digits_ok := ⟨hdigits, List.length_replicate.symm⟩
  extension_ok := ⟨hextensions.isLine, hextensions.eq_nil_or⟩

theorem sizeText_append {digits extensions : List UInt8} (hdigits : IsDigits 16 digits)
    (hextensions : IsChunkExtensions extensions) : sizeText (digits ++ extensions) = digits :=
  (wireChunk digits extensions hdigits hextensions).trimOctets_line

theorem IsChunkLine.unique {line : List UInt8} {size size' : ℕ} (h : IsChunkLine line size)
    (h' : IsChunkLine line size') : size = size' := by
  obtain ⟨digits, extensions, hdigits, rfl, hextensions, rfl⟩ := h
  obtain ⟨digits', extensions', hdigits', rfl, hextensions', heq⟩ := h'
  rw [← sizeText_append hdigits hextensions, heq, sizeText_append hdigits' hextensions']

theorem IsTrailers.unique {octets octets' rest rest' : List UInt8} (h : IsTrailers octets)
    (h' : IsTrailers octets') (heq : octets ++ rest = octets' ++ rest') : octets = octets' := by
  induction h generalizing octets' with
  | done =>
    cases h' with
    | done => rfl
    | @field field _ hfield _ =>
      rw [List.append_assoc _ _ rest'] at heq
      exact absurd (isLine_nil.isFirst.unique hfield.isLine.isFirst heq).1.symm
        (fieldLine_ne_nil field)
  | @field field behind hfield _ ih =>
    rw [List.append_assoc _ behind] at heq
    cases h' with
    | done =>
      exact absurd (hfield.isLine.isFirst.unique isLine_nil.isFirst heq).1 (fieldLine_ne_nil field)
    | @field field' behind' hfield' hrest' =>
      rw [List.append_assoc _ behind'] at heq
      obtain ⟨hline, hbehind⟩ := hfield.isLine.isFirst.unique hfield'.isLine.isFirst heq
      rw [hline, ih hrest' hbehind]

theorem chunk_append (line data behind rest : List UInt8) :
    line ++ crlf ++ data ++ crlf ++ behind ++ rest =
      line ++ crlf ++ (data ++ (crlf ++ (behind ++ rest))) := by
  simp

theorem IsChunked.unique {octets octets' body body' rest rest' : List UInt8}
    (h : IsChunked octets body) (h' : IsChunked octets' body')
    (heq : octets ++ rest = octets' ++ rest') : octets = octets' ∧ body = body' := by
  induction h generalizing octets' body' with
  | @last line trailers hline htrailers =>
    rw [List.append_assoc _ trailers] at heq
    cases h' with
    | @last line' trailers' hline' htrailers' =>
      rw [List.append_assoc _ trailers'] at heq
      obtain ⟨rfl, hbehind⟩ := hline.isLine.isFirst.unique hline'.isLine.isFirst heq
      rw [htrailers.unique htrailers' hbehind]
      exact ⟨rfl, rfl⟩
    | @chunk line' data' behind' body' hline' hne' hrest' =>
      rw [chunk_append] at heq
      obtain ⟨rfl, -⟩ := hline.isLine.isFirst.unique hline'.isLine.isFirst heq
      exact absurd (List.eq_nil_of_length_eq_zero (hline'.unique hline)) hne'
  | @chunk line data behind body hline hne hrest ih =>
    rw [chunk_append] at heq
    cases h' with
    | @last line' trailers' hline' htrailers' =>
      rw [List.append_assoc _ trailers'] at heq
      obtain ⟨rfl, -⟩ := hline.isLine.isFirst.unique hline'.isLine.isFirst heq
      exact absurd (List.eq_nil_of_length_eq_zero (hline.unique hline')) hne
    | @chunk line' data' behind' body' hline' hne' hrest' =>
      rw [chunk_append] at heq
      obtain ⟨rfl, hbehind⟩ := hline.isLine.isFirst.unique hline'.isLine.isFirst heq
      obtain ⟨rfl, hends⟩ := List.append_inj hbehind (hline.unique hline')
      obtain ⟨rfl, rfl⟩ := ih hrest' (List.append_cancel_left hends)
      exact ⟨rfl, rfl⟩

end Http11

end Hns
