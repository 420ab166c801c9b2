import Hns.Browser.Text
import Hns.Gateway.Chains
import Hns.Gateway.ResponseHead
import Hns.Transport.Injection
import Hns.Transport.Strictness

/-!
# What the app reads of a response

The proxy and the interceptor of the app read the head of a response of the gateway, each in its
own way. Both find what the gateway has written, and nothing of the origin in its place.
-/

namespace Hns

open Http11 (crlf eqIgnoreCase splitLines splitOnce IsUnbroken IsFirst isHttpToken)

inductive HnsPageTlsPolicy
  | dane
  | webPkiFallback
  deriving DecidableEq

inductive HnsPageResolverPolicy
  | hnsDohCompatibility
  deriving DecidableEq

/-- Octets as a text in ISO 8859-1. -/
def latin1 (octets : List UInt8) : List Char := octets.map fun octet => Char.ofNat octet.toNat

/-- `headerEndIndex` and `indexOfHeaderEnd`, with `none` for `-1`. -/
def headerEndIndex : List UInt8 → Option ℕ
  | [] => none
  | octet :: octets =>
    if (crlf ++ crlf).isPrefixOf (octet :: octets) then some 0
    else (headerEndIndex octets).map (· + 1)

/-- `split(' ', limit = 3)` -/
def splitStatusLine (line : List UInt8) : List (List UInt8) :=
  match splitOnce 0x20 line with
  | none => [line]
  | some (first, rest) =>
    match splitOnce 0x20 rest with
    | none => [first, rest]
    | some (second, third) => [first, second, third]

/-- A header of one line of a head, if there is a name before a colon. -/
def readHeader (line : List UInt8) : Option (List UInt8 × List UInt8) :=
  match splitOnce 0x3a line with
  | none => none
  | some (name, value) => if name = [] then none else some (trimLatin1 name, trimLatin1 value)

def headerValue (headers : Http11.Headers) (name : List UInt8) : Option (List UInt8) :=
  (headers.find? fun header => eqIgnoreCase header.1 name).map Prod.snd

def readTlsPolicy (headers : Http11.Headers) : Option HnsPageTlsPolicy :=
  match headerValue headers GatewayField.tlsPolicy.name with
  | none => none
  | some value =>
    if eqIgnoreCase value (octetsOf "dane") then some .dane
    else if eqIgnoreCase value (octetsOf "webpki-fallback") then some .webPkiFallback
    else none

def readResolverPolicy (headers : Http11.Headers) : Option HnsPageResolverPolicy :=
  match headerValue headers GatewayField.resolverPolicy.name with
  | none => none
  | some value =>
    if eqIgnoreCase value (octetsOf "hns-doh-compat") then some .hnsDohCompatibility else none

def readResolutionTrace (headers : Http11.Headers) : Option (List UInt8) :=
  headerValue headers GatewayField.resolutionTrace.name

/-! ## The proxy -/

structure ParsedGatewayResponseHead where
  status : ℤ
  reason : List UInt8
  headers : Http11.Headers

def isBlank (text : List UInt8) : Bool := text.all fun octet => isKotlinWhitespace octet.toUInt16

/-- `LoopbackProxyServer.parseGatewayResponseHead` -/
def parseGatewayResponseHead (responseHead : List UInt8) : ParsedGatewayResponseHead :=
  let headerText := responseHead.take ((headerEndIndex responseHead).getD responseHead.length)
  let lines := (splitLines headerText).filter (· ≠ [])
  let statusParts := lines.head?.elim [] splitStatusLine
  let reason := (statusParts[2]?).getD []
  { status := ((statusParts[1]?).bind fun status => toSignedOrNull 32 (latin1 status)).getD 0
    reason := if isBlank reason then octetsOf "unknown" else reason
    headers := lines.tail.filterMap readHeader }

/-! ## The interceptor -/

structure ParsedGatewayHttpHead where
  statusCode : ℤ
  reason : List UInt8
  mimeType : List UInt8
  encoding : Option (List UInt8)
  headers : Http11.Headers
  bodyStart : ℕ

/-- `put`, on a `linkedMapOf` -/
def putHeader (headers : Http11.Headers) (header : List UInt8 × List UInt8) : Http11.Headers :=
  if headers.any fun present => present.1 = header.1 then
    headers.map fun present => if present.1 = header.1 then header else present
  else headers ++ [header]

/-- The loop over the lines of a head. -/
def readHeaders : List (List UInt8) → Http11.Headers → Option Http11.Headers
  | [], headers => some headers
  | line :: lines, headers => do
    let header ← readHeader line
    readHeaders lines (if header.1 = [] then headers else putHeader headers header)

def mimeTypeOf (contentType : Option (List UInt8)) : List UInt8 :=
  match contentType with
  | none => octetsOf "application/octet-stream"
  | some contentType =>
    let mimeType := trimLatin1 (contentType.takeWhile (· ≠ 0x3b))
    if mimeType = [] then octetsOf "application/octet-stream" else mimeType

/-- The octets without quotes around them. -/
def trimQuotes (octets : List UInt8) : List UInt8 :=
  (octets.dropWhile (· = 0x22)).rdropWhile (· = 0x22)

def encodingOf (contentType : List UInt8) : Option (List UInt8) := do
  let parameters := (contentType.splitOn 0x3b).tail.map trimLatin1
  let charset ← parameters.find? fun parameter =>
    eqIgnoreCase (parameter.take 8) (octetsOf "charset=")
  let encoding := trimQuotes ((charset.dropWhile (· ≠ 0x3d)).drop 1)
  if encoding = [] then none else some encoding

/-- `parseGatewayHttpResponseHead` of the interceptor. -/
def parseGatewayHttpResponseHead (response : List UInt8) : Option ParsedGatewayHttpHead := do
  let split ← headerEndIndex response
  let lines := splitLines (response.take split)
  let statusParts := splitStatusLine (lines.headD [])
  let version ← statusParts[0]?
  let status ← statusParts[1]?
  if !(octetsOf "HTTP/").isPrefixOf version then none
  let statusCode ← toSignedOrNull 32 (latin1 status)
  if statusCode < 100 ∨ 999 < statusCode then none
  let reason := (statusParts[2]?).getD []
  let headers ← readHeaders (lines.tail.filter (· ≠ [])) []
  let contentType := headerValue headers GatewayField.contentType.name
  return {
    statusCode
    reason := if isBlank reason then octetsOf "OK" else reason
    mimeType := mimeTypeOf contentType
    encoding := contentType.bind encodingOf
    headers
    bodyStart := split + 4 }

/-! ## Written heads -/

/-- A head as the gateway writes it. -/
def writtenHead (line : List UInt8) (fields : Http11.Headers) : List UInt8 :=
  line ++ crlf ++ fields.flatMap (fun field => headField field.1 field.2) ++ crlf

def fieldLines (fields : Http11.Headers) : List (List UInt8) :=
  fields.map fun field => headLine field.1 field.2

theorem writtenHead_eq (line : List UInt8) (fields : Http11.Headers) :
    writtenHead line fields = crlf.intercalate (line :: fieldLines fields) ++ (crlf ++ crlf) := by
  rw [writtenHead, fieldLines, Chars.intercalate_cons, List.flatMap_map]
  induction fields generalizing line with
  | nil => simp
  | cons field fields ih =>
    have hrest := ih (headLine field.1 field.2)
    simp only [List.flatMap_cons, headField, List.append_assoc] at hrest ⊢
    rw [List.append_cancel_left_eq, List.append_cancel_left_eq, hrest]

/-- The line and the fields of a head that can be read again. -/
structure IsWritten (line : List UInt8) (fields : Http11.Headers) : Prop where
  start : IsUnbroken line
  ne_nil : line ≠ []
  isField : ∀ field ∈ fields, isHttpToken field.1 ∧ IsUnbroken field.2

theorem token_byte : ∀ octet, Http11.isTokenByte octet →
    octet ≠ Http11.cr ∧ octet ≠ 0x3a ∧ isKotlinWhitespace octet.toUInt16 = false :=
  UInt8.forall_of_lt (by decide +kernel)

theorem token_ne_nil {name : List UInt8} (h : isHttpToken name) : name ≠ [] := by
  rw [isHttpToken, decide_eq_true_eq] at h
  exact h.1

theorem isUnbroken_headLine {field : List UInt8 × List UInt8} (hname : isHttpToken field.1)
    (hvalue : IsUnbroken field.2) : IsUnbroken (headLine field.1 field.2) := by
  have hcr : Http11.cr ∉ field.1 ++ octetsOf ": " := by
    rw [List.mem_append, not_or]
    refine ⟨fun hmem => ?_, by unfold octetsOf Chars.of; decide⟩
    exact (token_byte _ (Http11.isTokenByte_of_isHttpToken hname _ hmem)).1 rfl
  exact hvalue.append hcr

theorem headLine_eq (name value : List UInt8) :
    headLine name value = name ++ 0x3a :: 0x20 :: value := by
  have hcolon : octetsOf ": " = [0x3a, 0x20] := by
    unfold octetsOf Chars.of
    decide
  rw [headLine, hcolon, List.append_assoc]
  rfl

theorem headLine_ne_nil (name value : List UInt8) : headLine name value ≠ [] := by
  rw [headLine_eq]
  exact List.append_ne_nil_of_right_ne_nil _ (List.cons_ne_nil _ _)

/-- A line is split behind the name: there is no colon in a token. -/
theorem splitOnce_headLine {name : List UInt8} (h : isHttpToken name) (value : List UInt8) :
    splitOnce 0x3a (headLine name value) = some (name, 0x20 :: value) := by
  have hname : 0x3a ∉ name := fun hmem =>
    (token_byte _ (Http11.isTokenByte_of_isHttpToken h _ hmem)).2.1 rfl
  exact Http11.splitOnce_eq_some.2 ⟨hname, headLine_eq name value⟩

theorem utf8EncodeChar_blank : String.utf8EncodeChar ' ' = [0x20] := by decide

theorem headerEndIndex_append {octets : List UInt8} (h : IsFirst (crlf ++ crlf) octets)
    (rest : List UInt8) :
    headerEndIndex (octets ++ (crlf ++ crlf) ++ rest) = some octets.length := by
  induction octets with
  | nil => rfl
  | cons octet octets ih =>
    have htail : IsFirst (crlf ++ crlf) octets := by
      intro front hfront hsuffix
      have hcons := h (octet :: front) (List.cons_prefix_cons.2 ⟨rfl, hfront⟩)
        (hsuffix.trans (List.suffix_cons _ _))
      exact (List.cons.inj hcons).2
    have hnot : ¬(crlf ++ crlf).isPrefixOf (octet :: octets ++ (crlf ++ crlf) ++ rest) := by
      intro hstart
      have hfront := List.prefix_of_prefix_length_le (List.isPrefixOf_iff_prefix.1 hstart)
        (List.prefix_append (octet :: octets ++ (crlf ++ crlf)) rest) (by simp; omega)
      have hlength := congrArg List.length (h _ hfront (List.suffix_refl _))
      simp only [List.length_append, List.length_cons] at hlength
      omega
    rw [List.cons_append, List.cons_append, headerEndIndex, ← List.cons_append,
      ← List.cons_append, if_neg hnot, ih htail]
    rfl

namespace IsWritten

variable {line : List UInt8} {fields : Http11.Headers}

theorem isUnbroken (h : IsWritten line fields) : ∀ text ∈ line :: fieldLines fields,
    IsUnbroken text ∧ text ≠ [] := by
  rw [List.forall_mem_cons, fieldLines, List.forall_mem_map]
  exact ⟨⟨h.start, h.ne_nil⟩, fun field hfield =>
    ⟨isUnbroken_headLine (h.isField field hfield).1 (h.isField field hfield).2,
      headLine_ne_nil _ _⟩⟩

theorem splitLines (h : IsWritten line fields) :
    splitLines (crlf.intercalate (line :: fieldLines fields)) = line :: fieldLines fields :=
  Http11.splitLines_intercalate_of_isUnbroken (List.cons_ne_nil _ _) fun text htext =>
    (h.isUnbroken text htext).1

/-- The head ends where it has been ended. -/
theorem headerEndIndex (h : IsWritten line fields) (body : List UInt8) :
    headerEndIndex (writtenHead line fields ++ body) =
      some (crlf.intercalate (line :: fieldLines fields)).length := by
  rw [writtenHead_eq]
  exact headerEndIndex_append (Http11.first_empty_line_of_splitLines h.splitLines fun text htext =>
    (h.isUnbroken text htext).2) body

theorem take_headerEndIndex (h : IsWritten line fields) (body : List UInt8) :
    (writtenHead line fields ++ body).take
        ((Hns.headerEndIndex (writtenHead line fields ++ body)).getD
          (writtenHead line fields ++ body).length) =
      crlf.intercalate (line :: fieldLines fields) := by
  rw [h.headerEndIndex, Option.getD_some, writtenHead_eq, List.append_assoc, List.take_left']
  rfl

end IsWritten

/-- A header as it is read. -/
def readField (field : List UInt8 × List UInt8) : List UInt8 × List UInt8 :=
  (field.1, trimLatin1 field.2)

theorem trimLatin1_of_token {name : List UInt8} (h : isHttpToken name) :
    trimLatin1 name = name := by
  have hspace : ∀ octet ∈ name, ¬isKotlinWhitespace octet.toUInt16 := by
    intro octet hoctet
    rw [(token_byte _ (Http11.isTokenByte_of_isHttpToken h octet hoctet)).2.2]
    exact Bool.false_ne_true
  rw [trimLatin1, List.dropWhile_eq_self_iff.2 fun hlt => hspace _ (List.getElem_mem hlt),
    List.rdropWhile_eq_self_iff]
  exact fun hne => hspace _ (List.getLast_mem hne)

theorem readHeader_headLine {field : List UInt8 × List UInt8} (h : isHttpToken field.1) :
    readHeader (headLine field.1 field.2) = some (readField field) := by
  rw [readHeader, splitOnce_headLine h]
  dsimp only
  rw [if_neg (token_ne_nil h), trimLatin1_of_token h]
  rfl

theorem filterMap_readHeader {fields : Http11.Headers} (h : ∀ field ∈ fields, isHttpToken field.1) :
    (fieldLines fields).filterMap readHeader = fields.map readField := by
  rw [fieldLines, List.filterMap_map, ← List.filterMap_eq_map]
  exact List.filterMap_congr fun field hfield => readHeader_headLine (h field hfield)

theorem utf8_ascii {text : List Char} (h : ∀ c ∈ text, c.toNat < 128) :
    utf8 text = text.map fun c => UInt8.ofNat c.toNat := by
  induction text with
  | nil => rfl
  | cons c text ih =>
    rw [List.forall_mem_cons] at h
    rw [utf8_cons, utf8EncodeChar_of_lt h.1, ih h.2]
    rfl

theorem latin1_utf8 {text : List Char} (h : ∀ c ∈ text, c.toNat < 128) :
    latin1 (utf8 text) = text := by
  rw [utf8_ascii h, latin1, List.map_map]
  refine (List.map_congr_left fun c hc => ?_).trans (List.map_id text)
  have hlt := h c hc
  have hsmall : c.toNat % 256 = c.toNat := Nat.mod_eq_of_lt (by omega)
  simp [UInt8.toNat_ofNat', hsmall, Char.ofNat_toNat]

theorem decimal_digit (n : ℕ) : ∀ c ∈ Chars.decimal n, 48 ≤ c.toNat ∧ c.toNat ≤ 57 := by
  intro c hc
  have hdigit := Chars.isDigit_of_mem_decimal hc
  simp only [Char.isDigit, Bool.and_eq_true, decide_eq_true_eq] at hdigit
  exact ⟨UInt32.le_iff_toNat_le.1 hdigit.1, UInt32.le_iff_toNat_le.1 hdigit.2⟩

theorem latin1_utf8_decimal (n : ℕ) : latin1 (utf8 (Chars.decimal n)) = Chars.decimal n :=
  latin1_utf8 fun c hc => (decimal_digit n c hc).2.trans_lt (by decide)

theorem splitStatusLine_statusLine (status : UInt16) (reason : List Char) :
    splitStatusLine (statusLine status reason) =
      [octetsOf "HTTP/1.1", utf8 (Chars.decimal status.toNat), utf8 reason] := by
  have hversion : utf8 (Chars.of "HTTP/1.1 ") = octetsOf "HTTP/1.1" ++ [0x20] := by
    unfold octetsOf Chars.of
    decide
  have hspace : 0x20 ∉ utf8 (Chars.decimal status.toNat) := by
    rw [utf8_ascii fun c hc => (decimal_digit _ c hc).2.trans_lt (by decide), List.mem_map]
    rintro ⟨c, hc, heq⟩
    have hnat := congrArg UInt8.toNat heq
    have hdigit := decimal_digit _ c hc
    rw [UInt8.toNat_ofNat', Nat.mod_eq_of_lt (by omega)] at hnat
    change c.toNat = 32 at hnat
    omega
  have hline : statusLine status reason = octetsOf "HTTP/1.1" ++
      0x20 :: (utf8 (Chars.decimal status.toNat) ++ 0x20 :: utf8 reason) := by
    simp [statusLine, hversion, utf8EncodeChar_blank]
  have hfirst : splitOnce 0x20 (statusLine status reason) =
      some (octetsOf "HTTP/1.1", utf8 (Chars.decimal status.toNat) ++ 0x20 :: utf8 reason) :=
    Http11.splitOnce_eq_some.2 ⟨by unfold octetsOf Chars.of; decide, hline⟩
  have hsecond : splitOnce 0x20 (utf8 (Chars.decimal status.toNat) ++ 0x20 :: utf8 reason) =
      some (utf8 (Chars.decimal status.toNat), utf8 reason) :=
    Http11.splitOnce_eq_some.2 ⟨hspace, rfl⟩
  rw [splitStatusLine, hfirst]
  dsimp only
  rw [hsecond]

/-- The proxy reads the fields that have been written. -/
theorem parseGatewayResponseHead_written {status : UInt16} {reason : List Char}
    {fields : Http11.Headers} (h : IsWritten (statusLine status reason) fields)
    (hreason : isBlank (utf8 reason) = false) (body : List UInt8) :
    parseGatewayResponseHead (writtenHead (statusLine status reason) fields ++ body) =
      ⟨status.toNat, utf8 reason, fields.map readField⟩ := by
  have hfilter : (statusLine status reason :: fieldLines fields).filter (· ≠ []) =
      statusLine status reason :: fieldLines fields :=
    List.filter_eq_self.2 fun text htext => decide_eq_true (h.isUnbroken text htext).2
  have hstatus : status.toNat < 2 ^ (32 - 1) := lt_trans status.toNat_lt (by decide)
  rw [parseGatewayResponseHead, h.take_headerEndIndex, h.splitLines, hfilter]
  simp only [List.head?_cons, Option.elim_some, splitStatusLine_statusLine, List.tail_cons,
    filterMap_readHeader fun field hfield => (h.isField field hfield).1]
  rw [List.getElem?_cons_succ, List.getElem?_cons_zero, List.getElem?_cons_succ,
    List.getElem?_cons_succ, List.getElem?_cons_zero, Option.bind_some, latin1_utf8_decimal,
    toSignedOrNull_decimal, if_pos hstatus, Option.getD_some, Option.getD_some, hreason]
  rfl

/-! ### The map of the interceptor -/

theorem readHeaders_fieldLines {fields : Http11.Headers}
    (h : ∀ field ∈ fields, isHttpToken field.1) (headers : Http11.Headers) :
    readHeaders (fieldLines fields) headers =
      some ((fields.map readField).foldl putHeader headers) := by
  induction fields generalizing headers with
  | nil => rfl
  | cons field fields ih =>
    rw [List.forall_mem_cons] at h
    have hne : (readField field).1 ≠ [] := token_ne_nil h.1
    change (readHeader (headLine field.1 field.2) >>= fun header => readHeaders (fieldLines fields)
      (if header.1 = [] then headers else putHeader headers header)) = _
    rw [readHeader_headLine h.1]
    change readHeaders (fieldLines fields)
      (if (readField field).1 = [] then headers else putHeader headers (readField field)) = _
    rw [if_neg hne, ih h.2]
    rfl

theorem headerValue_cons (field : List UInt8 × List UInt8) (fields : Http11.Headers)
    (name : List UInt8) : headerValue (field :: fields) name =
      if eqIgnoreCase field.1 name then some field.2 else headerValue fields name := by
  rw [headerValue, List.find?_cons]
  cases eqIgnoreCase field.1 name <;> rfl

/-- A header that is put into the map is not found under another name. -/
theorem headerValue_putHeader_of_ne {headers : Http11.Headers} {header : List UInt8 × List UInt8}
    {name : List UInt8} (h : eqIgnoreCase header.1 name = false) :
    headerValue (putHeader headers header) name = headerValue headers name := by
  rw [putHeader]
  split_ifs with hpresent
  · clear hpresent
    induction headers with
    | nil => rfl
    | cons present headers ih =>
      rw [List.map_cons, headerValue_cons, headerValue_cons, ih]
      by_cases hsame : present.1 = header.1
      · simp [hsame, h]
      · simp [hsame]
  · simp [headerValue, List.find?_append, h]

/-- A header that is put into the map is found under its name, if no other one is. -/
theorem headerValue_putHeader {headers : Http11.Headers} {header : List UInt8 × List UInt8}
    {name : List UInt8} (h : eqIgnoreCase header.1 name = true)
    (hnone : headerValue headers name = none) :
    headerValue (putHeader headers header) name = some header.2 := by
  rw [headerValue, Option.map_eq_none_iff, List.find?_eq_none] at hnone
  have hnew : ¬(headers.any fun present => present.1 = header.1) := by
    rw [List.any_eq_true]
    rintro ⟨present, hmem, heq⟩
    rw [decide_eq_true_eq] at heq
    exact hnone present hmem (heq ▸ h)
  rw [putHeader, if_neg hnew, headerValue, List.find?_append, List.find?_eq_none.2 hnone]
  simp [h]

theorem headerValue_foldl_of_none {fields headers : Http11.Headers} {name : List UInt8}
    (h : ∀ field ∈ fields, eqIgnoreCase field.1 name = false) :
    headerValue (fields.foldl putHeader headers) name = headerValue headers name := by
  induction fields generalizing headers with
  | nil => rfl
  | cons field fields ih =>
    rw [List.forall_mem_cons] at h
    rw [List.foldl_cons, ih h.2, headerValue_putHeader_of_ne h.1]

/-- A name that stands once in the fields, or not at all, has the value that stands there. -/
theorem headerValue_foldl {fields headers : Http11.Headers} {name : List UInt8}
    (honce : (fields.filter fun field => eqIgnoreCase field.1 name).length ≤ 1)
    (hnone : headerValue headers name = none) :
    headerValue (fields.foldl putHeader headers) name = headerValue fields name := by
  induction fields generalizing headers with
  | nil => exact hnone
  | cons field fields ih =>
    rw [List.foldl_cons]
    cases hfield : eqIgnoreCase field.1 name with
    | true =>
      rw [List.filter_cons, hfield, if_pos rfl, List.length_cons] at honce
      have hrest : ∀ field ∈ fields, eqIgnoreCase field.1 name = false := by
        intro other hother
        have hempty := List.eq_nil_of_length_eq_zero (Nat.le_zero.1 (Nat.le_of_succ_le_succ honce))
        exact Bool.eq_false_iff.2 fun heq =>
          List.ne_nil_of_mem (List.mem_filter.2 ⟨hother, heq⟩) hempty
      rw [headerValue_foldl_of_none hrest, headerValue_putHeader hfield hnone, headerValue_cons,
        if_pos hfield]
    | false =>
      rw [List.filter_cons, hfield, if_neg Bool.false_ne_true] at honce
      rw [ih honce (by rw [headerValue_putHeader_of_ne hfield, hnone]), headerValue_cons, hfield,
        if_neg Bool.false_ne_true]

theorem headerValue_append (fields fields' : Http11.Headers) (name : List UInt8) :
    headerValue (fields ++ fields') name =
      (headerValue fields name).or (headerValue fields' name) := by
  rw [headerValue, List.find?_append, headerValue, headerValue]
  cases fields.find? fun header => eqIgnoreCase header.1 name <;> rfl

theorem headerValue_map_readField (fields : Http11.Headers) (name : List UInt8) :
    headerValue (fields.map readField) name = (headerValue fields name).map trimLatin1 := by
  rw [headerValue, List.find?_map, headerValue, Option.map_map, Option.map_map]
  rfl

/-! ## The heads of the gateway -/

/-- The headers of a head that are the gateway's own, but for those that are always the same. -/
structure OwnFields where
  bodyLen : ℕ
  contentType : Option (List UInt8)
  tlsPolicy : Option (List UInt8)
  resolverPolicy : Option (List UInt8)
  trace : Option (List Char)

namespace OwnFields

def value (own : OwnFields) : GatewayField → Option (List UInt8)
  | .connection => some (octetsOf "close")
  | .contentLength => some (utf8 (Chars.decimal own.bodyLen))
  | .contentType => own.contentType
  | .tlsPolicy => own.tlsPolicy
  | .resolverPolicy => own.resolverPolicy
  | .resolverMode => own.trace.map fun trace => utf8 (traceMode trace)
  | .dohFallback => own.trace.map fun trace => utf8 (traceDohFallback trace)
  | .resolutionTrace => own.trace.map utf8

def written (own : OwnFields) (fields : List GatewayField) : Http11.Headers :=
  fields.filterMap fun field => (own.value field).map (field.name, ·)

/-- The headers of the gateway, around those of the origin. -/
def around (own : OwnFields) (kept : Http11.Headers) : Http11.Headers :=
  own.written [.connection, .contentLength, .contentType] ++ kept ++
    own.written [.tlsPolicy, .resolverPolicy, .resolverMode, .dohFallback, .resolutionTrace]

end OwnFields

/-- The fields of the origin that are kept. -/
def keptFields (headers : Http11.Headers) : Http11.Headers :=
  headers.filter fun header => !suppressedOriginResponseHeader header.1

theorem originResponseHead_eq (response : OriginResponseHead) (resolverPolicy : Option (List UInt8))
    (trace : List Char) : originResponseHead response resolverPolicy trace =
      writtenHead (statusLine response.status (Chars.of "OK"))
        (OwnFields.around ⟨response.bodyLen, none, hnsTlsPolicyHeader response.daneDecision,
          resolverPolicy, some trace⟩ (keptFields response.headers)) := by
  cases hpolicy : hnsTlsPolicyHeader response.daneDecision <;> cases resolverPolicy <;>
    simp [originResponseHead, writtenHead, OwnFields.around, OwnFields.written, OwnFields.value,
      responseHead, keptFields, traceFields, hpolicy]

theorem plainResponseHead_eq (status : UInt16) (reason : List Char) (bodyLen : ℕ)
    (trace : Option (List Char)) : plainResponseHead status reason bodyLen trace =
      writtenHead (statusLine status reason)
        (OwnFields.around ⟨bodyLen, some (utf8 plainContentType), none, none, trace⟩ []) := by
  cases trace <;>
    simp [plainResponseHead, writtenHead, OwnFields.around, OwnFields.written, OwnFields.value,
      responseHead, traceFields]

/-! ### The names of the gateway -/

theorem isHttpToken_name (field : GatewayField) : isHttpToken field.name := by
  unfold GatewayField.name octetsOf Chars.of
  cases field <;> decide

theorem eqIgnoreCase_name (a b : GatewayField) : eqIgnoreCase a.name b.name = decide (a = b) := by
  unfold GatewayField.name octetsOf Chars.of
  cases a <;> cases b <;> decide

/-- The fields of the origin do not have the name of one of the gateway. -/
def Spares (kept : Http11.Headers) (field : GatewayField) : Prop :=
  ∀ header ∈ kept, eqIgnoreCase header.1 field.name = false

theorem spares_keptFields (headers : Http11.Headers) {field : GatewayField}
    (hfield : field ≠ .contentType) : Spares (keptFields headers) field := by
  have hsuppressed : suppressedNames.any (eqIgnoreCase field.name) := by
    revert hfield
    unfold suppressedNames GatewayField.name octetsOf Chars.of
    cases field <;> decide
  rw [List.any_eq_true] at hsuppressed
  obtain ⟨name, hname, heq⟩ := hsuppressed
  intro header hmem
  obtain ⟨-, hkept⟩ := List.mem_filter.1 hmem
  refine Bool.eq_false_iff.2 fun hsame => ?_
  have hany : suppressedOriginResponseHeader header.1 = true := by
    refine List.any_eq_true.2 ⟨name, hname, ?_⟩
    rw [eqIgnoreCase, decide_eq_true_eq] at hsame heq ⊢
    exact hsame.trans heq
  rw [hany] at hkept
  cases hkept

namespace OwnFields

variable (own : OwnFields)

theorem headerValue_written (fields : List GatewayField) (field : GatewayField) :
    headerValue (own.written fields) field.name =
      if field ∈ fields then own.value field else none := by
  rw [written]
  induction fields with
  | nil => rfl
  | cons other fields ih =>
    rw [List.filterMap_cons]
    by_cases hfield : other = field
    · subst hfield
      cases hvalue : own.value other with
      | none => simp [ih, hvalue]
      | some value => simp [headerValue_cons, eqIgnoreCase_name]
    · have hmem : field ∈ other :: fields ↔ field ∈ fields := by
        simp [Ne.symm hfield]
      cases hvalue : own.value other with
      | none => simp [ih, hmem]
      | some value => simp [headerValue_cons, eqIgnoreCase_name, hfield, ih, Ne.symm hfield]

theorem filter_written {fields : List GatewayField} (hfields : fields.Nodup)
    (field : GatewayField) :
    ((own.written fields).filter fun header => eqIgnoreCase header.1 field.name).length ≤
      if field ∈ fields then 1 else 0 := by
  rw [written]
  induction fields with
  | nil => simp
  | cons other fields ih =>
    obtain ⟨hnew, hnodup⟩ := List.nodup_cons.1 hfields
    have hrest := ih hnodup
    rw [List.filterMap_cons]
    cases hvalue : own.value other with
    | none => exact hrest.trans (by simp only [List.mem_cons]; split_ifs <;> simp_all)
    | some value =>
      by_cases hfield : other = field
      · subst hfield
        rw [if_neg hnew] at hrest
        simpa [eqIgnoreCase_name, List.filter_cons] using hrest
      · simpa [eqIgnoreCase_name, List.filter_cons, hfield, Ne.symm hfield] using hrest

variable {own}

/-- What the fields of the gateway say, whatever those of the origin are. -/
theorem headerValue_around {kept : Http11.Headers} {field : GatewayField}
    (hkept : Spares kept field) : headerValue (own.around kept) field.name = own.value field := by
  have hnone : headerValue kept field.name = none := by
    rw [headerValue,
      List.find?_eq_none.2 fun header hmem => Bool.eq_false_iff.1 (hkept header hmem)]
    rfl
  rw [around, headerValue_append, headerValue_append, hnone, headerValue_written,
    headerValue_written]
  cases field <;> simp

theorem filter_around {kept : Http11.Headers} {field : GatewayField} (hkept : Spares kept field) :
    ((own.around kept).filter fun header => eqIgnoreCase header.1 field.name).length ≤ 1 := by
  have hnil : (kept.filter fun header => eqIgnoreCase header.1 field.name) = [] :=
    List.filter_eq_nil_iff.2 fun header hmem => Bool.eq_false_iff.1 (hkept header hmem)
  have hfront := own.filter_written
    (by decide : [GatewayField.connection, .contentLength, .contentType].Nodup) field
  have hback := own.filter_written
    (by decide : [GatewayField.tlsPolicy, .resolverPolicy, .resolverMode, .dohFallback,
      .resolutionTrace].Nodup) field
  rw [around, List.filter_append, List.filter_append, hnil, List.append_nil, List.length_append]
  refine (Nat.add_le_add hfront hback).trans ?_
  cases field <;> simp

end OwnFields

/-! ### Values that are read as they stand -/

/-- A value that is read as it has been written. -/
structure IsClean (value : List UInt8) : Prop where
  cr_not_mem : Http11.cr ∉ value
  trim : trimLatin1 value = value

theorem isUnbroken_of_not_mem {line : List UInt8} (h : Http11.cr ∉ line) : IsUnbroken line :=
  fun hcrlf => h (hcrlf.subset List.mem_cons_self)

theorem cr_not_mem_utf8 {text : List Char} (h : '\r' ∉ text) : Http11.cr ∉ utf8 text :=
  fun hmem => h (mem_of_mem_utf8 (by decide) hmem)

theorem trimLatin1_eq_self {value : List UInt8}
    (hhead : ∀ octet ∈ value.head?, isKotlinWhitespace octet.toUInt16 = false)
    (hlast : ∀ octet ∈ value.getLast?, isKotlinWhitespace octet.toUInt16 = false) :
    trimLatin1 value = value := by
  have hdrop : value.dropWhile (fun octet => isKotlinWhitespace octet.toUInt16) = value :=
    List.dropWhile_eq_self_iff.2 fun hlt => Bool.eq_false_iff.1 <| hhead _ <| by
      rw [List.head?_eq_getElem?, List.getElem?_eq_getElem hlt]
      rfl
  rw [trimLatin1, hdrop, List.rdropWhile_eq_self_iff]
  exact fun hne => Bool.eq_false_iff.1 (hlast _ (List.getLast_mem_getLast? hne))

theorem isKotlinWhitespace_digit : ∀ octet : UInt8, 48 ≤ octet.toNat ∧ octet.toNat ≤ 57 →
    isKotlinWhitespace octet.toUInt16 = false :=
  UInt8.forall_of_lt (by decide +kernel)

theorem isClean_decimal (n : ℕ) : IsClean (utf8 (Chars.decimal n)) := by
  have hdigit := decimal_digit n
  have hspace : ∀ octet ∈ utf8 (Chars.decimal n), isKotlinWhitespace octet.toUInt16 = false := by
    intro octet hoctet
    rw [utf8_ascii fun c hc => (hdigit c hc).2.trans_lt (by decide), List.mem_map] at hoctet
    obtain ⟨c, hc, rfl⟩ := hoctet
    refine isKotlinWhitespace_digit _ ?_
    rw [UInt8.toNat_ofNat', Nat.mod_eq_of_lt ((hdigit c hc).2.trans_lt (by decide))]
    exact hdigit c hc
  refine ⟨cr_not_mem_utf8 fun hmem => absurd (hdigit _ hmem).1 (by decide),
    trimLatin1_eq_self ?_ ?_⟩
  · exact fun octet hoctet => hspace octet (List.mem_of_mem_head? hoctet)
  · exact fun octet hoctet => hspace octet (List.mem_of_mem_getLast? hoctet)

/-- A trace stands between braces, without a line end in it. -/
theorem isClean_render (members : List (List Char × Json)) :
    IsClean (utf8 (Json.object members).render) := by
  have htext : utf8 (Json.object members).render =
      0x7b :: (utf8 ([','].intercalate (Json.renderFields members)) ++ [0x7d]) := by
    have hopen : String.utf8EncodeChar '{' = [0x7b] := by decide
    have hclose : String.utf8EncodeChar '}' = [0x7d] := by decide
    rw [Json.render]
    simp [hopen, hclose]
  refine ⟨cr_not_mem_utf8 fun hmem => Json.not_isControl_of_mem_render _ _ hmem (by decide), ?_⟩
  rw [htext]
  refine trimLatin1_eq_self ?_ ?_
  · rintro octet ⟨⟩
    decide
  · rw [← List.cons_append, List.getLast?_append_of_ne_nil _ (List.cons_ne_nil _ _)]
    rintro octet ⟨⟩
    decide

/-- All the values of the gateway are read as they stand. -/
def OwnFields.AreClean (own : OwnFields) : Prop :=
  ∀ field, ∀ value ∈ own.value field, IsClean value

theorem areClean_of {own : OwnFields} (hcontentType : ∀ value ∈ own.contentType, IsClean value)
    (htlsPolicy : ∀ value ∈ own.tlsPolicy, IsClean value)
    (hresolverPolicy : ∀ value ∈ own.resolverPolicy, IsClean value)
    (htrace : ∀ trace ∈ own.trace, IsClean (utf8 trace)) : own.AreClean := by
  have hliteral : IsClean (octetsOf "close") ∧ IsClean (octetsOf "strict") ∧
      IsClean (octetsOf "compatibility") ∧ IsClean (octetsOf "yes") ∧ IsClean (octetsOf "no") := by
    unfold octetsOf Chars.of
    refine ⟨⟨?_, ?_⟩, ⟨?_, ?_⟩, ⟨?_, ?_⟩, ⟨?_, ?_⟩, ?_, ?_⟩ <;> decide
  obtain ⟨hclose, hstrict, hcompatibility, hyes, hno⟩ := hliteral
  intro field value hvalue
  cases field with
  | connection => exact Option.mem_some_iff.1 hvalue ▸ hclose
  | contentLength => exact Option.mem_some_iff.1 hvalue ▸ isClean_decimal _
  | contentType => exact hcontentType value hvalue
  | tlsPolicy => exact htlsPolicy value hvalue
  | resolverPolicy => exact hresolverPolicy value hvalue
  | resolverMode =>
    obtain ⟨trace, -, rfl⟩ := Option.mem_map.1 hvalue
    rw [traceMode]
    split_ifs
    · exact hstrict
    · exact hcompatibility
  | dohFallback =>
    obtain ⟨trace, -, rfl⟩ := Option.mem_map.1 hvalue
    rw [traceDohFallback]
    split_ifs
    · exact hyes
    · exact hno
  | resolutionTrace =>
    obtain ⟨trace, htext, rfl⟩ := Option.mem_map.1 hvalue
    exact htrace trace htext

/-! ### Written and read -/

/-- The headers say what the gateway has to say. -/
def OwnFields.Tells (own : OwnFields) (headers : Http11.Headers) : Prop :=
  ∀ field, field ≠ .contentType → headerValue headers field.name = own.value field

/-- Fields of an origin that stand in a head of the gateway. -/
structure AreForeign (kept : Http11.Headers) : Prop where
  isField : ∀ header ∈ kept, isHttpToken header.1 ∧ IsUnbroken header.2
  spares : ∀ field : GatewayField, field ≠ .contentType → Spares kept field

theorem isWritten_around {status : UInt16} {reason : List Char} {own : OwnFields}
    {kept : Http11.Headers} (hreason : '\r' ∉ reason) (hown : own.AreClean)
    (hkept : AreForeign kept) : IsWritten (statusLine status reason) (own.around kept) := by
  have hstart : Http11.cr ∉ statusLine status reason := by
    refine cr_not_mem_utf8 fun hmem => ?_
    rw [List.append_assoc, List.mem_append, List.mem_append, List.mem_cons] at hmem
    -- Only the reason is not the gateway's own: the rest of the line is a literal and digits.
    rcases hmem with hversion | hstatus | hspace | hmem
    · revert hversion
      unfold Chars.of
      decide
    · exact absurd (decimal_digit _ _ hstatus).1 (by decide)
    · exact absurd hspace (by decide)
    · exact hreason hmem
  have hwritten (fields : List GatewayField) : ∀ header ∈ own.written fields,
      isHttpToken header.1 ∧ IsUnbroken header.2 := by
    intro header hheader
    obtain ⟨field, -, hmapped⟩ := List.mem_filterMap.1 hheader
    obtain ⟨value, hvalue, rfl⟩ := Option.map_eq_some_iff.1 hmapped
    exact ⟨isHttpToken_name field, isUnbroken_of_not_mem (hown field value hvalue).cr_not_mem⟩
  refine ⟨isUnbroken_of_not_mem hstart, fun hnil => ?_, ?_⟩
  · have hlength := congrArg List.length hnil
    simp [statusLine, utf8EncodeChar_blank] at hlength
  · rw [OwnFields.around, List.forall_mem_append, List.forall_mem_append]
    exact ⟨⟨hwritten _, hkept.isField⟩, hwritten _⟩

theorem tells_readFields {own : OwnFields} {kept : Http11.Headers} (hown : own.AreClean)
    (hkept : AreForeign kept) : own.Tells ((own.around kept).map readField) := by
  intro field hfield
  rw [headerValue_map_readField, OwnFields.headerValue_around (hkept.spares field hfield)]
  cases hvalue : own.value field with
  | none => rfl
  | some value => rw [Option.map_some, (hown field value hvalue).trim]

theorem tells_foldl_putHeader {own : OwnFields} {kept : Http11.Headers} (hown : own.AreClean)
    (hkept : AreForeign kept) :
    own.Tells (((own.around kept).map readField).foldl putHeader []) := by
  intro field hfield
  -- `putHeader` keeps the last value of a name: no other, as the name stands there only once.
  rw [headerValue_foldl _ rfl, tells_readFields hown hkept field hfield]
  rw [List.filter_map, List.length_map]
  exact OwnFields.filter_around (hkept.spares field hfield)

/-- The interceptor reads the fields that have been written, and finds the body behind them. -/
theorem parseGatewayHttpResponseHead_written {status : UInt16} {reason : List Char}
    {fields : Http11.Headers} (h : IsWritten (statusLine status reason) fields)
    (hstatus : 100 ≤ status.toNat ∧ status.toNat ≤ 999) (body : List UInt8) :
    ∃ head, parseGatewayHttpResponseHead (writtenHead (statusLine status reason) fields ++ body) =
        some head ∧
      head.statusCode = status.toNat ∧ head.headers = (fields.map readField).foldl putHeader [] ∧
      (writtenHead (statusLine status reason) fields ++ body).drop head.bodyStart = body := by
  have htake := h.take_headerEndIndex body
  rw [h.headerEndIndex, Option.getD_some] at htake
  have hfilter : (fieldLines fields).filter (· ≠ []) = fieldLines fields :=
    List.filter_eq_self.2 fun text htext =>
      decide_eq_true (h.isUnbroken text (List.mem_cons_of_mem _ htext)).2
  have hbound : status.toNat < 2 ^ (32 - 1) := lt_trans status.toNat_lt (by decide)
  have hversion : (octetsOf "HTTP/").isPrefixOf (octetsOf "HTTP/1.1") = true := by
    unfold octetsOf Chars.of
    decide
  have hcode : ¬((status.toNat : ℤ) < 100 ∨ 999 < (status.toNat : ℤ)) := by omega
  rw [parseGatewayHttpResponseHead, h.headerEndIndex]
  simp only [Option.bind_eq_bind, Option.bind_some, htake, h.splitLines, List.headD_cons,
    splitStatusLine_statusLine, List.tail_cons, hfilter, List.getElem?_cons_zero,
    List.getElem?_cons_succ, hversion, latin1_utf8_decimal, toSignedOrNull_decimal, if_pos hbound,
    Bool.not_true, Bool.false_eq_true, if_false, if_neg hcode,
    readHeaders_fieldLines fun field hfield => (h.isField field hfield).1]
  refine ⟨_, rfl, rfl, rfl, ?_⟩
  rw [writtenHead_eq]
  exact List.drop_left' (by simp [Http11.crlf])

/-! ## What the app takes from a response -/

/-- What a response of the gateway is to tell the app. -/
structure Told where
  status : UInt16
  tlsPolicy : Option HnsPageTlsPolicy
  resolverPolicy : Option HnsPageResolverPolicy
  trace : List Char
  body : List UInt8

def DaneDecision.pagePolicy : DaneDecision → Option HnsPageTlsPolicy
  | .matched _ => some .dane
  | .webPkiFallback => some .webPkiFallback
  | .failed => none
  | .noTlsa => none

namespace Told

/-- What the app finds in a status and headers that it has read. -/
structure IsFoundIn (told : Told) (code : ℤ) (headers : Http11.Headers) : Prop where
  status : code = told.status.toNat
  tlsPolicy : readTlsPolicy headers = told.tlsPolicy
  resolverPolicy : readResolverPolicy headers = told.resolverPolicy
  trace : readResolutionTrace headers = some (utf8 told.trace)
  contentLength : headerValue headers GatewayField.contentLength.name =
    some (utf8 (Chars.decimal told.body.length))

/-- Both the proxy and the interceptor take this from a response. -/
structure IsTakenFrom (told : Told) (octets : List UInt8) : Prop where
  proxy : told.IsFoundIn (parseGatewayResponseHead octets).status
    (parseGatewayResponseHead octets).headers
  interceptor : ∃ head, parseGatewayHttpResponseHead octets = some head ∧
    told.IsFoundIn head.statusCode head.headers ∧ octets.drop head.bodyStart = told.body

end Told

theorem readTlsPolicy_eq {headers : Http11.Headers} {decision : Option DaneDecision}
    (h : headerValue headers GatewayField.tlsPolicy.name = decision.bind hnsTlsPolicyHeader) :
    readTlsPolicy headers = decision.bind DaneDecision.pagePolicy := by
  have hdane : eqIgnoreCase (octetsOf "dane") (octetsOf "dane") = true ∧
      eqIgnoreCase (octetsOf "webpki-fallback") (octetsOf "dane") = false ∧
      eqIgnoreCase (octetsOf "failed") (octetsOf "dane") = false := by
    unfold octetsOf Chars.of
    decide
  have hfallback : eqIgnoreCase (octetsOf "webpki-fallback") (octetsOf "webpki-fallback") = true ∧
      eqIgnoreCase (octetsOf "failed") (octetsOf "webpki-fallback") = false := by
    unfold octetsOf Chars.of
    decide
  rw [readTlsPolicy, h]
  cases decision with
  | none => rfl
  | some decision =>
    cases decision <;> simp [hnsTlsPolicyHeader, DaneDecision.pagePolicy, hdane, hfallback]

theorem readResolverPolicy_eq {headers : Http11.Headers} {used : Bool}
    (h : headerValue headers GatewayField.resolverPolicy.name =
      if used then some (octetsOf "hns-doh-compat") else none) :
    readResolverPolicy headers = if used then some .hnsDohCompatibility else none := by
  have hsame : eqIgnoreCase (octetsOf "hns-doh-compat") (octetsOf "hns-doh-compat") = true := by
    unfold octetsOf Chars.of
    decide
  rw [readResolverPolicy, h]
  cases used <;> simp [hsame]

section

variable {status : UInt16} {reason : List Char} {contentType : Option (List UInt8)}
  {decision : Option DaneDecision} {used : Bool} {trace : List Char} {body : List UInt8}

theorem isFoundIn_of_tells {code : ℤ} {headers : Http11.Headers} (hcode : code = status.toNat)
    (h : OwnFields.Tells ⟨body.length, contentType, decision.bind hnsTlsPolicyHeader,
      if used then some (octetsOf "hns-doh-compat") else none, some trace⟩ headers) :
    Told.IsFoundIn ⟨status, decision.bind DaneDecision.pagePolicy,
      if used then some .hnsDohCompatibility else none, trace, body⟩ code headers where
  status := hcode
  tlsPolicy := readTlsPolicy_eq (h .tlsPolicy (by decide))
  resolverPolicy := readResolverPolicy_eq (h .resolverPolicy (by decide))
  trace := h .resolutionTrace (by decide)
  contentLength := h .contentLength (by decide)

theorem isTakenFrom_written {kept : Http11.Headers}
    (hstatus : 100 ≤ status.toNat ∧ status.toNat ≤ 999) (hreason : '\r' ∉ reason)
    (hblank : isBlank (utf8 reason) = false) (hcontentType : ∀ value ∈ contentType, IsClean value)
    (htrace : IsClean (utf8 trace)) (hkept : AreForeign kept) :
    Told.IsTakenFrom ⟨status, decision.bind DaneDecision.pagePolicy,
        if used then some .hnsDohCompatibility else none, trace, body⟩
      (writtenHead (statusLine status reason)
        (OwnFields.around ⟨body.length, contentType, decision.bind hnsTlsPolicyHeader,
          if used then some (octetsOf "hns-doh-compat") else none, some trace⟩ kept) ++ body) := by
  have hpolicies : IsClean (octetsOf "dane") ∧ IsClean (octetsOf "webpki-fallback") ∧
      IsClean (octetsOf "failed") ∧ IsClean (octetsOf "hns-doh-compat") := by
    unfold octetsOf Chars.of
    refine ⟨⟨?_, ?_⟩, ⟨?_, ?_⟩, ⟨?_, ?_⟩, ?_, ?_⟩ <;> decide
  obtain ⟨hdane, hfallback, hfailed, hdoh⟩ := hpolicies
  have hown : OwnFields.AreClean ⟨body.length, contentType, decision.bind hnsTlsPolicyHeader,
      if used then some (octetsOf "hns-doh-compat") else none, some trace⟩ := by
    refine areClean_of hcontentType (fun value hvalue => ?_) (fun value hvalue => ?_)
      fun text htext => ?_
    · cases decision with
      | none => cases hvalue
      | some decision =>
        cases decision <;> cases hvalue
        · exact hdane
        · exact hfallback
        · exact hfailed
    · cases used <;> cases hvalue
      exact hdoh
    · cases htext
      exact htrace
  have hwritten := @isWritten_around status _ _ _ hreason hown hkept
  constructor
  · rw [parseGatewayResponseHead_written hwritten hblank]
    exact isFoundIn_of_tells rfl (tells_readFields hown hkept)
  · obtain ⟨head, hhead, hcode, hheaders, hbody⟩ :=
      parseGatewayHttpResponseHead_written hwritten hstatus body
    refine ⟨head, hhead, @isFoundIn_of_tells _ contentType _ _ _ _ _ _ hcode ?_, hbody⟩
    rw [hheaders]
    exact tells_foldl_putHeader hown hkept

end

/-! ### Origins and pages -/

/-- A head that can have come from an origin: a status of three digits, and headers with a token for
    a name and without a line end in the value. -/
structure IsOriginHead (origin : OriginResponseHead) : Prop where
  status : 100 ≤ origin.status.toNat ∧ origin.status.toNat ≤ 999
  isField : ∀ header ∈ origin.headers, isHttpToken header.1 ∧ IsUnbroken header.2

theorem isPart_trimOctets (octets : List UInt8) : Http11.trimOctets octets <:+: octets := by
  cases htext : fromUtf8 octets with
  | none =>
    rw [Http11.trimOctets, htext]
  | some text =>
    obtain ⟨before, after, -, -, -, -, hsplit⟩ :=
      Http11.exists_trimMatches DnsName.isWhitespace text
    refine ⟨utf8 before, utf8 after, ?_⟩
    rw [fromUtf8_eq_some.1 htext, Http11.trimOctets_utf8, ← utf8_append, ← utf8_append,
      Http11.trim_eq, ← hsplit]

/-- Such a head is what HTTP/1.1 leaves of a response, whatever the origin has sent. -/
theorem isOriginHead_of_parseHttpResponse {limits : TransportLimits} {requestMethod : List UInt8}
    {x x' : Http11.Exchange} {origin : OriginResponseHead} {reusable : Bool}
    (h : Http11.parseHttpResponse limits requestMethod x = .ok (origin, reusable) x') :
    IsOriginHead origin := by
  obtain ⟨head, body, -, haccepted⟩ := Http11.exists_accepted h
  obtain ⟨octets, _, -, -, hparse, -⟩ := haccepted.decoded.split
  refine ⟨haccepted.status ▸ Http11.status_of_parseHead hparse, fun header hheader => ?_⟩
  obtain ⟨hlines, hheaders, htokens⟩ :=
    Http11.mapM_parseHeader_eq_ok (Http11.parseHead_eq_ok hparse).2
  rw [haccepted.headers, hheaders, List.mem_map] at hheader
  obtain ⟨field, hfield, rfl⟩ := hheader
  have hline : Http11.WireHead.fieldLine field ∈ Http11.fieldLines octets := by
    rw [hlines]
    exact List.mem_map_of_mem hfield
  -- The value is a part of its line, and the lines are those of a split at the line ends.
  have hunbroken := Http11.isUnbroken_of_mem_splitLines _
    (List.mem_of_mem_tail (List.mem_filter.1 hline).1)
  have hvalue : field.2 <:+: Http11.WireHead.fieldLine field :=
    ⟨field.1 ++ [0x3a], [], by simp [Http11.WireHead.fieldLine]⟩
  exact ⟨htokens field hfield, hunbroken.of_part ((isPart_trimOctets field.2).trans hvalue)⟩

theorem areForeign_keptFields {headers : Http11.Headers}
    (h : ∀ header ∈ headers, isHttpToken header.1 ∧ IsUnbroken header.2) :
    AreForeign (keptFields headers) where
  isField header hheader := h header (List.mem_of_mem_filter hheader)
  spares _ hfield := spares_keptFields headers hfield

theorem areForeign_nil : AreForeign [] where
  isField _ hheader := absurd hheader List.not_mem_nil
  spares _ _ _ hheader := absurd hheader List.not_mem_nil

/-- The status of a page is that of an error, and its reason can be read. -/
theorem readable_mapGatewayError (error : GatewayError) :
    (400 ≤ (mapGatewayError error).1.toNat ∧ (mapGatewayError error).1.toNat ≤ 599) ∧
      '\r' ∉ (mapGatewayError error).2.1.toList ∧
      isBlank (utf8 (mapGatewayError error).2.1.toList) = false := by
  cases error with
  | resolver error => cases error <;> (dsimp only [mapGatewayError]; decide)
  | transport error => cases error <;> (dsimp only [mapGatewayError]; decide)
  | _ => dsimp only [mapGatewayError]; decide

section

variable [Digests] [Sha2]

/-- What the gateway has to tell of a request that it has handled. -/
def Handled.told (handled : Handled) (input : GatewayHttpRequestInput)
    (mode : GatewayResolutionMode) : Told :=
  match handled.outcome with
  | .ok response =>
    ⟨response.origin.status, response.origin.daneDecision.pagePolicy,
      if handled.marker.used then some .hnsDohCompatibility else none, handled.trace input mode,
      response.origin.body⟩
  | .error error =>
    let (status, reason, detail) := mapGatewayError error
    ⟨status, none, none, handled.trace input mode,
      plainResponseBody status reason.toList detail.toList (gatewayRequestAddress input)⟩

theorem isClean_trace (handled : Handled) (input : GatewayHttpRequestInput)
    (mode : GatewayResolutionMode) : IsClean (utf8 (handled.trace input mode)) := by
  obtain ⟨outcome, marker, events, stores⟩ := handled
  cases outcome <;> exact isClean_render _

theorem isTakenFrom_ok {input : GatewayHttpRequestInput} {mode : GatewayResolutionMode}
    {handled : Handled} {response : GatewayResponse OriginResponse}
    (houtcome : handled.outcome = .ok response) (hhead : IsOriginHead response.origin.head) :
    Told.IsTakenFrom ⟨response.origin.status, response.origin.daneDecision.pagePolicy,
      if handled.marker.used then some .hnsDohCompatibility else none, handled.trace input mode,
      response.origin.body⟩ (respond input mode handled) := by
  rw [respond, houtcome]
  dsimp only
  rw [originResponse, originResponseHead_eq]
  exact @isTakenFrom_written _ _ _ (some response.origin.daneDecision) _ _ _ _ hhead.status
    (by unfold Chars.of; decide) (by unfold Chars.of; decide)
    (fun value hvalue => by cases hvalue) (isClean_trace handled input mode)
    (areForeign_keptFields hhead.isField)

theorem isTakenFrom_error {input : GatewayHttpRequestInput} {mode : GatewayResolutionMode}
    {handled : Handled} {error : GatewayError} (houtcome : handled.outcome = .error error) :
    Told.IsTakenFrom ⟨(mapGatewayError error).1, none, none, handled.trace input mode,
      plainResponseBody (mapGatewayError error).1 (mapGatewayError error).2.1.toList
        (mapGatewayError error).2.2.toList (gatewayRequestAddress input)⟩
      (respond input mode handled) := by
  obtain ⟨hstatus, hreason, hblank⟩ := readable_mapGatewayError error
  have hcontentType : IsClean (utf8 plainContentType) := by
    unfold plainContentType Chars.of
    exact ⟨by decide, by decide⟩
  rw [respond, houtcome]
  dsimp only
  rw [plainResponse, plainResponseHead_eq]
  exact @isTakenFrom_written _ _ _ none false _ _ _ (by omega) hreason hblank
    (fun value hvalue => by cases hvalue; exact hcontentType) (isClean_trace handled input mode)
    areForeign_nil

/-- The app takes from a response what the gateway has to tell, whatever the origin has sent: the
    status, the policies, the trace, the length of the body, and where the body begins. -/
theorem isTakenFrom_respond (input : GatewayHttpRequestInput) (mode : GatewayResolutionMode)
    (handled : Handled) (horigin : ∀ response, handled.outcome = .ok response →
      IsOriginHead response.origin.head) :
    (handled.told input mode).IsTakenFrom (respond input mode handled) := by
  rw [Handled.told]
  cases houtcome : handled.outcome with
  | ok response => exact isTakenFrom_ok houtcome (horigin response houtcome)
  | error error => exact isTakenFrom_error houtcome

end

namespace HostileSample

open GatewaySample ChainsSample

/-- An origin without TLSA records that claims to have been verified by them, and to have sent
    more than it has. -/
def origin : OriginResponse where
  status := 200
  headers := [
    (octetsOf "x-hns-tls-policy", octetsOf "dane"), (octetsOf "Content-Length", octetsOf "9")]
  body := [0x68, 0x69]
  daneDecision := .noTlsa
  tlsInspection := none

def input : GatewayHttpRequestInput :=
  ⟨Chars.of "GET", Chars.of "http", Chars.of "site", 80, Chars.of "/", [], []⟩

def handled : Handled where
  outcome := .ok ⟨⟨site, [], true⟩, (request (Chars.of "http") (Chars.of "site")).origin, origin⟩
  marker := .default
  events := []
  stores := ⟨none, none, none⟩

theorem isOriginHead_origin : IsOriginHead origin.head := by
  refine ⟨by decide, ?_⟩
  have hheaders : origin.head.headers.all fun header =>
      isHttpToken header.1 && !header.2.contains Http11.cr := by
    change origin.headers.all _
    unfold origin octetsOf Chars.of
    decide
  intro header hheader
  have hheader := List.all_eq_true.1 hheaders header hheader
  rw [Bool.and_eq_true, Bool.not_eq_true', ← Bool.not_eq_true, List.contains_iff_mem] at hheader
  exact ⟨hheader.1, isUnbroken_of_not_mem hheader.2⟩

theorem isTakenFrom_hostile : (handled.told input .strict).tlsPolicy = none ∧
    (handled.told input .strict).body.length = 2 ∧
    (handled.told input .strict).IsTakenFrom (respond input .strict handled) :=
  ⟨rfl, rfl, isTakenFrom_respond input .strict handled fun response hresponse => by
    cases hresponse
    exact isOriginHead_origin⟩

end HostileSample

end Hns
