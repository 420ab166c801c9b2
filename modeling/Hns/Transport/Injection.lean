import Hns.Transport.Uri

/-!
# Requests as they are read

What a request written by `build_http_request` is to a server of HTTP/1.1 (RFC
9112). The grammar of requests has one reading for every text (`IsRequest.unique`).
The checks of `validate_request` keep line ends out of every line, so that the head
is cut as it has been put together; it is of the grammar, and read as the request
that it has been made of, if and only if the host, the target and the values are
(`buildHttpRequest_readsAs_iff`).
-/

namespace Hns

open Except

open Http11

namespace Http11

/-! ## The grammar of requests -/

def isOws (octet : UInt8) : Bool := octet = 0x20 ∨ octet = 0x09

/-- A value without the spaces and tabs around it. -/
def trimOws (octets : List UInt8) : List UInt8 := (octets.dropWhile isOws).rdropWhile isOws

/-- A request, as it is read. -/
structure ReadRequest where
  method : List UInt8
  target : List UInt8
  fields : Headers
  host : List UInt8
  port : Option ℕ
  body : List UInt8

def hostName : List UInt8 := utf8 (Chars.of "host")

/-- `request-line`. -/
def requestLine (method target : List UInt8) : List UInt8 :=
  method ++ 0x20 :: (target ++ 0x20 :: utf8 (Chars.of "HTTP/1.1"))

def readField (field : List UInt8 × List UInt8) : List UInt8 × List UInt8 :=
  (field.1, trimOws field.2)

/-- The octets behind the head of a request, and what they are decoded to. -/
inductive IsRequestBody (fields : Headers) : List UInt8 → List UInt8 → Prop
  | none (hcodings : values fields transferEncodingName = [])
      (hlength : values fields contentLengthName = []) : IsRequestBody fields [] []
  | fixed {body : List UInt8} (hcodings : values fields transferEncodingName = [])
      (hne : values fields contentLengthName ≠ [])
      (hlength : ∀ value ∈ values fields contentLengthName, IsDigits 10 value ∧
        digitsValue 10 value = body.length) : IsRequestBody fields body body
  | chunked {octets body value : List UInt8}
      (hcodings : values fields transferEncodingName = [value])
      (hvalue : eqIgnoreCase value (utf8 (Chars.of "chunked")))
      (hlength : values fields contentLengthName = []) (hchunks : IsChunked octets body) :
      IsRequestBody fields octets body

/-- A request of the grammar, with one host. -/
structure IsRequest (octets : List UInt8) (r : ReadRequest) : Prop where
  method : isHttpToken r.method
  target : IsOriginForm r.target
  split : ∃ fields bodyOctets, (∀ field ∈ fields, IsField field) ∧
    r.fields = fields.map readField ∧ IsRequestBody r.fields bodyOctets r.body ∧
    octets = headOctets (requestLine r.method r.target) fields ++ (crlf ++ crlf) ++ bodyOctets
  host : ∃ value, values r.fields hostName = [value] ∧ IsAuthority r.host value r.port

/-! ## A text has one reading -/

theorem isLine_requestLine {method target : List UInt8} (hmethod : IsLine method)
    (htarget : IsLine target) : IsLine (requestLine method target) := by
  simp only [requestLine, isLine_append, isLine_cons]
  exact ⟨hmethod, by decide, htarget, by decide, by unfold Chars.of; decide⟩

theorem requestLine_ne_nil (method target : List UInt8) : requestLine method target ≠ [] := by
  simp [requestLine]

theorem requestLine_unique {method method' target target' : List UInt8}
    (hmethod : 0x20 ∉ method) (hmethod' : 0x20 ∉ method') (htarget : 0x20 ∉ target)
    (htarget' : 0x20 ∉ target') (h : requestLine method target = requestLine method' target') :
    method = method' ∧ target = target' := by
  have hcut {first rest : List UInt8} (hfirst : 0x20 ∉ first) :
      splitOnce 0x20 (first ++ 0x20 :: rest) = some (first, rest) :=
    splitOnce_eq_some.2 ⟨hfirst, rfl⟩
  have hline := (hcut hmethod).symm.trans ((congrArg _ h).trans (hcut hmethod'))
  obtain ⟨hsame, hbehind⟩ := Prod.mk.inj (Option.some.inj hline)
  have htail := (hcut htarget).symm.trans ((congrArg _ hbehind).trans (hcut htarget'))
  exact ⟨hsame, (Prod.mk.inj (Option.some.inj htail)).1⟩

theorem space_not_mem_token {method : List UInt8} (h : isHttpToken method) : 0x20 ∉ method :=
  fun hmem => absurd (isTokenByte_of_isHttpToken h _ hmem) (by decide)

theorem IsOriginForm.space_not_mem {target : List UInt8} (h : IsOriginForm target) :
    0x20 ∉ target := fun hmem => (h.not_space _ hmem).1 rfl

theorem IsOriginForm.isLine {target : List UInt8} (h : IsOriginForm target) : IsLine target :=
  ⟨fun hmem => (h.not_space _ hmem).2.1 rfl, fun hmem => (h.not_space _ hmem).2.2 rfl⟩

theorem isSection_requestLine {method target : List UInt8} {fields : Headers}
    (hmethod : isHttpToken method) (htarget : IsLine target)
    (hfields : ∀ field ∈ fields, isHttpToken field.1 ∧ IsLine field.2) :
    IsSection (requestLine method target) fields :=
  ⟨isLine_requestLine (isLine_of_isHttpToken hmethod) htarget, requestLine_ne_nil _ _, hfields⟩

theorem IsRequestBody.unique {fields : Headers} {octets octets' body body' rest rest' : List UInt8}
    (h : IsRequestBody fields octets body) (h' : IsRequestBody fields octets' body')
    (heq : octets ++ rest = octets' ++ rest') : octets = octets' ∧ body = body' := by
  cases h with
  | none hcodings hlength =>
    cases h' with
    | none _ _ => exact ⟨rfl, rfl⟩
    | fixed _ hne' _ => exact absurd hlength hne'
    | chunked hcodings' _ _ _ => cases hcodings.symm.trans hcodings'
  | fixed hcodings hne hlength =>
    cases h' with
    | none _ hlength' => exact absurd hlength' hne
    | fixed _ _ hlength' =>
      obtain ⟨value, hvalue⟩ := List.exists_mem_of_ne_nil _ hne
      have hsize := (hlength value hvalue).2.symm.trans (hlength' value hvalue).2
      obtain ⟨rfl, -⟩ := List.append_inj heq hsize
      exact ⟨rfl, rfl⟩
    | chunked hcodings' _ _ _ => cases hcodings.symm.trans hcodings'
  | chunked hcodings _ _ hchunks =>
    cases h' with
    | none hcodings' _ => cases hcodings'.symm.trans hcodings
    | fixed hcodings' _ _ => cases hcodings'.symm.trans hcodings
    | chunked _ _ _ hchunks' => exact hchunks.unique hchunks' heq

/-- A text begins with one request at most. -/
theorem IsRequest.unique {octets octets' rest rest' : List UInt8} {r r' : ReadRequest}
    (h : IsRequest octets r) (h' : IsRequest octets' r') (heq : octets ++ rest = octets' ++ rest') :
    r = r' ∧ rest = rest' := by
  obtain ⟨method, target, read, host, port, body⟩ := r
  obtain ⟨method', target', read', host', port', body'⟩ := r'
  obtain ⟨fields, bodyOctets, hfields, hread, hbody, rfl⟩ := h.split
  obtain ⟨fields', bodyOctets', hfields', hread', hbody', rfl⟩ := h'.split
  have hsection := isSection_requestLine h.method h.target.isLine fun field hfield =>
    ⟨(hfields field hfield).1, (hfields field hfield).2.isLine⟩
  have hsection' := isSection_requestLine h'.method h'.target.isLine fun field hfield =>
    ⟨(hfields' field hfield).1, (hfields' field hfield).2.isLine⟩
  rw [List.append_assoc _ bodyOctets, List.append_assoc _ bodyOctets'] at heq
  obtain ⟨hline, rfl, hbehind⟩ := hsection.unique hsection' heq
  obtain ⟨hmethod, htarget⟩ := requestLine_unique (space_not_mem_token h.method)
    (space_not_mem_token h'.method) h.target.space_not_mem h'.target.space_not_mem hline
  dsimp only at hmethod htarget hread hread' hbody hbody'
  subst hmethod htarget hread hread'
  obtain ⟨value, hvalue, hauthority⟩ := h.host
  obtain ⟨value', hvalue', hauthority'⟩ := h'.host
  obtain rfl : value = value' := List.singleton_inj.1 (hvalue.symm.trans hvalue')
  obtain ⟨hhost, hport⟩ := hauthority.unique hauthority'
  dsimp only at hhost hport
  subst hhost hport
  obtain ⟨rfl, rfl⟩ := hbody.unique hbody' hbehind
  exact ⟨rfl, List.append_cancel_left hbehind⟩

end Http11

/-! ## The octets of a text -/

theorem mem_of_mem_utf8 {octet : UInt8} (hascii : octet.toNat < 128) {text : List Char}
    (h : octet ∈ utf8 text) : Char.ofNat octet.toNat ∈ text := by
  obtain ⟨front, back, hsplit⟩ := List.append_of_mem h
  obtain ⟨text', text'', rfl, -⟩ := utf8_eq_append_cons hascii hsplit
  exact List.mem_append_right _ List.mem_cons_self

theorem toLower_of_le {c : Char} (h : 128 ≤ c.toNat) : c.toLower = c := by
  have hle : ¬(c.val ≥ 'A'.val ∧ c.val ≤ 'Z'.val) := fun hletter => by
    have hz : c.toNat ≤ 90 := UInt32.le_iff_toNat_le.1 hletter.2
    omega
  exact dif_neg hle

theorem toAsciiLowercase_of_le (octet : UInt8) (h : 128 ≤ octet.toNat) :
    toAsciiLowercase octet = octet := by
  refine if_neg fun hletter => ?_
  have hz : octet.toNat ≤ 0x5a := UInt8.le_iff_toNat_le.1 hletter.2
  omega

theorem map_toAsciiLowercase_utf8 (text : List Char) :
    (utf8 text).map toAsciiLowercase = utf8 (asciiLower text) := by
  induction text with
  | nil => rfl
  | cons c text ih =>
    have hchar : (String.utf8EncodeChar c).map toAsciiLowercase = String.utf8EncodeChar c.toLower := by
      by_cases hascii : c.toNat < 128
      · have hall : ∀ n < 128, (String.utf8EncodeChar (Char.ofNat n)).map toAsciiLowercase =
            String.utf8EncodeChar (Char.ofNat n).toLower := by decide
        simpa using hall c.toNat hascii
      · -- No octet of it is one of ASCII.
        have hle := not_lt.1 hascii
        rw [toLower_of_le hle, List.map_congr_left fun octet hoctet =>
          toAsciiLowercase_of_le octet (le_of_mem_utf8EncodeChar hle hoctet), List.map_id']
    rw [utf8_cons, List.map_append, hchar, ih]
    rfl

/-- Names of ASCII are compared alike as texts and as octets. -/
theorem eqIgnoreCase_utf8 {name : List Char} {expected : String}
    (hlower : asciiLower (Chars.of expected) = Chars.of expected) :
    eqIgnoreCase (utf8 name) (utf8 (Chars.of expected)) ↔ IsNamed name expected := by
  rw [eqIgnoreCase, decide_eq_true_iff, map_toAsciiLowercase_utf8, map_toAsciiLowercase_utf8, hlower,
    IsNamed]
  exact ⟨utf8_injective, congrArg utf8⟩

/-! ## How a request is written -/

/-- The headers that are not of the connection, and not written by `build_http_request` itself. -/
def endToEnd (request : OriginRequest) : List (List Char × List Char) :=
  request.headers.filter fun header =>
    ¬(isHopByHopHeader header.1 ∨ IsNamed header.1 "host" ∨ IsNamed header.1 "content-length")

/-- The host, an address in brackets. -/
def bracketedHost (host : List Char) : List Char :=
  if ':' ∈ host ∧ host.head? ≠ some '[' then '[' :: host ++ [']'] else host

def defaultPort (scheme : List Char) : ℕ := if IsNamed scheme "https" then 443 else 80

theorem hostHeader_eq (host : List Char) (port : UInt16) (scheme : List Char) :
    hostHeader host port scheme = bracketedHost host ++
      if port.toNat = defaultPort scheme then [] else ':' :: Chars.decimal port.toNat := by
  have hport : port = (if IsNamed scheme "https" then 443 else 80) ↔
      port.toNat = defaultPort scheme := by
    rw [← UInt16.toNat_inj, defaultPort]
    split_ifs <;> rfl
  rw [hostHeader]
  simp only [hport, bracketedHost]
  split_ifs <;> simp

/-- A field as `write!` has it, with a space behind the colon. -/
def writtenField (name value : List UInt8) : List UInt8 × List UInt8 := (name, 0x20 :: value)

/-- The fields in front of those of the caller. -/
def frontFields (request : OriginRequest) : Http11.Headers :=
  [writtenField (utf8 (Chars.of "Host"))
      (utf8 (hostHeader request.host request.port request.scheme)),
    writtenField (utf8 (Chars.of "User-Agent")) (utf8 (Chars.of "hns-browser/0.2.7")),
    writtenField (utf8 (Chars.of "Accept")) (utf8 (Chars.of "*/*"))]

def callerFields (request : OriginRequest) : Http11.Headers :=
  (endToEnd request).map fun header => writtenField (utf8 header.1) (utf8 header.2)

/-- The fields behind those of the caller. -/
def backFields (request : OriginRequest) (keepAlive : Bool) : Http11.Headers :=
  (if request.body = [] then [] else
    [writtenField (utf8 (Chars.of "Content-Length")) (utf8 (Chars.decimal request.body.length))]) ++
  [writtenField (utf8 (Chars.of "Connection"))
    (utf8 (if keepAlive then Chars.of "keep-alive" else Chars.of "close"))]

def writtenFields (request : OriginRequest) (keepAlive : Bool) : Http11.Headers :=
  frontFields request ++ callerFields request ++ backFields request keepAlive

def writtenLine (request : OriginRequest) : List UInt8 :=
  requestLine (utf8 (request.method.map Char.toUpper)) (utf8 request.pathAndQuery)

theorem intercalate_append_crlf {lines : List (List UInt8)} (hne : lines ≠ []) :
    crlf.intercalate lines ++ crlf = lines.flatMap fun line => line ++ crlf := by
  induction lines with
  | nil => exact absurd rfl hne
  | cons line lines ih =>
    cases lines with
    | nil => simp
    | cons next lines =>
      rw [List.intercalate_cons_cons, List.append_assoc, ih (List.cons_ne_nil _ _)]
      simp

/-- **A request is written line by line**, and the body behind the empty line. -/
theorem buildHttpRequest_eq (request : OriginRequest) (keepAlive : Bool) :
    buildHttpRequest request keepAlive =
      headOctets (writtenLine request) (writtenFields request keepAlive) ++ (crlf ++ crlf) ++
        request.body := by
  have hcaller : (callerFields request).flatMap (fun field => WireHead.fieldLine field ++ crlf) =
      (endToEnd request).flatMap fun header =>
        utf8 (header.1 ++ Chars.of ": " ++ header.2) ++ crlf := by
    rw [callerFields, List.flatMap_map]
    refine List.flatMap_congr fun header _ => ?_
    simp [WireHead.fieldLine, writtenField, show utf8 (Chars.of ": ") = [0x3a, 0x20] by unfold Chars.of; decide]
  have hline : utf8 (request.method.map Char.toUpper ++ [' '] ++ request.pathAndQuery ++
      Chars.of " HTTP/1.1") = writtenLine request := by
    have hspace : utf8 (Chars.of " HTTP/1.1") = 0x20 :: utf8 (Chars.of "HTTP/1.1") := by
      unfold Chars.of
      decide
    have hspace' : utf8 [' '] = [0x20] := by decide
    rw [utf8_append, utf8_append, utf8_append, hspace, hspace', writtenLine, requestLine]
    simp
  have hhost : utf8 (Chars.of "Host: ") = utf8 (Chars.of "Host") ++ [0x3a, 0x20] := by
    unfold Chars.of
    decide
  have hagent : utf8 (Chars.of "User-Agent: hns-browser/0.2.7") =
      utf8 (Chars.of "User-Agent") ++ 0x3a :: 0x20 :: utf8 (Chars.of "hns-browser/0.2.7") := by
    unfold Chars.of
    decide
  have haccept : utf8 (Chars.of "Accept: */*") =
      utf8 (Chars.of "Accept") ++ 0x3a :: 0x20 :: utf8 (Chars.of "*/*") := by
    unfold Chars.of
    decide
  have hlength : utf8 (Chars.of "Content-Length: ") =
      utf8 (Chars.of "Content-Length") ++ [0x3a, 0x20] := by
    unfold Chars.of
    decide
  have hconnection : utf8 (Chars.of "Connection: ") =
      utf8 (Chars.of "Connection") ++ [0x3a, 0x20] := by
    unfold Chars.of
    decide
  rw [headOctets, ← List.append_assoc _ crlf crlf, intercalate_append_crlf (List.cons_ne_nil _ _),
    List.flatMap_cons, List.flatMap_map, writtenFields, List.flatMap_append, List.flatMap_append,
    hcaller, ← hline, buildHttpRequest]
  split_ifs with hbody hkeep hkeep
  all_goals
    simp only [frontFields, backFields, hbody, hkeep, WireHead.fieldLine, writtenField, utf8_append,
      hhost, hagent, haccept, hlength, hconnection]
    simp [endToEnd]

/-! ## What is checked -/

/-- What `validate_request` has checked of the parts that are written. -/
structure IsChecked (request : OriginRequest) : Prop where
  method : isHttpToken (utf8 request.method)
  host : isValidHost request.host
  target : ∀ octet ∈ utf8 request.pathAndQuery, isAsciiControl octet = false ∧ octet ≠ 0x20
  headers : ∀ header ∈ request.headers, isHttpToken (utf8 header.1) ∧ '\r' ∉ header.2 ∧
    '\n' ∉ header.2

theorem isChecked_of_validateRequest {request : OriginRequest} {limits : TransportLimits}
    (h : validateRequest request limits = .ok ()) : IsChecked request := by
  rw [validateRequest] at h
  obtain ⟨⟨⟩, h, -⟩ := bind_eq_ok.1 h
  rw [validateRequestCommon] at h
  obtain ⟨hparts, h⟩ := throw_unless.1 h
  obtain ⟨-, h⟩ := throw_unless.1 h
  obtain ⟨-, h⟩ := throw_unless.1 h
  obtain ⟨hheaders, -⟩ := throw_unless.1 h
  simp only [not_or, Bool.not_eq_true', Bool.not_eq_false, not_not] at hparts
  obtain ⟨hmethod, hhost, -, -, htarget⟩ := hparts
  refine ⟨hmethod, hhost, fun octet hoctet => ?_, fun header hheader => ?_⟩
  · have hnone := List.any_eq_false.1 (Bool.not_eq_true _ ▸ htarget) octet hoctet
    simpa using hnone
  · have hnone := List.any_eq_false.1 (Bool.not_eq_true _ ▸ hheaders) header hheader
    simpa using hnone

theorem not_control_of_digit :
    ∀ octet : UInt8, (toDigit 10 octet).isSome → isAsciiControl octet = false ∧ octet ≠ 0x20 :=
  UInt8.forall_of_lt (by decide +kernel)

theorem forall_not_control {octets : List UInt8}
    (h : (octets.all fun octet => !isAsciiControl octet) = true) :
    ∀ octet ∈ octets, isAsciiControl octet = false := fun octet hoctet =>
  Bool.not_eq_true' _ ▸ List.all_eq_true.1 h octet hoctet

section

variable {request : OriginRequest}

theorem isLine_of_not_control {octets : List UInt8}
    (h : ∀ octet ∈ octets, isAsciiControl octet = false) : IsLine octets :=
  ⟨fun hmem => absurd (h cr hmem) (by decide), fun hmem => absurd (h lf hmem) (by decide)⟩

theorem IsChecked.isLine_target (h : IsChecked request) : IsLine (utf8 request.pathAndQuery) :=
  isLine_of_not_control fun octet hoctet => (h.target octet hoctet).1

theorem IsChecked.upper (h : IsChecked request) :
    isHttpToken (utf8 (request.method.map Char.toUpper)) := by
  have hchars := isTokenChar_of_isHttpToken h.method
  have hne := ne_nil_of_isHttpToken h.method
  have hall : ∀ n < 128, isTokenByte (UInt8.ofNat n) →
      (String.utf8EncodeChar (Char.ofNat n).toUpper).all isTokenByte := by
    decide
  rw [isHttpToken, decide_eq_true_iff, List.all_eq_true]
  constructor
  · obtain ⟨c, text, htext⟩ := List.exists_cons_of_ne_nil hne
    rw [htext, List.map_cons, utf8_cons]
    exact List.append_ne_nil_of_left_ne_nil String.utf8EncodeChar_ne_nil _
  · intro octet hoctet
    obtain ⟨upper, hupper, hmem⟩ := List.mem_flatMap.1 hoctet
    obtain ⟨c, hc, rfl⟩ := List.mem_map.1 hupper
    have hchar := hall c.toNat (hchars c hc).1 (hchars c hc).2
    rw [Char.ofNat_toNat] at hchar
    exact List.all_eq_true.1 hchar octet hmem

/-- The octets of a host that has been checked. -/
theorem IsChecked.host_octets (h : IsChecked request) : ∀ octet ∈ utf8 request.host,
    isAsciiControl octet = false ∧ octet ≠ 0x20 := by
  intro octet hoctet
  obtain ⟨-, -, hall⟩ := of_decide_eq_true h.host
  have hoctet := List.all_eq_true.1 hall octet hoctet
  simp only [List.mem_cons, List.not_mem_nil, or_false, not_or, decide_eq_true_iff,
    Bool.not_eq_true'] at hoctet
  exact ⟨hoctet.1, hoctet.2.2.2.2.2⟩

theorem IsChecked.host_ne_nil (h : IsChecked request) : request.host ≠ [] :=
  (of_decide_eq_true h.host).1

/-- The octets of the value of the `Host` field. -/
theorem IsChecked.hostHeader_octets (h : IsChecked request) :
    ∀ octet ∈ utf8 (hostHeader request.host request.port request.scheme),
      isAsciiControl octet = false ∧ octet ≠ 0x20 := by
  have hdecimal : ∀ octet ∈ utf8 (Chars.decimal request.port.toNat),
      isAsciiControl octet = false ∧ octet ≠ 0x20 :=
    fun octet hoctet => not_control_of_digit octet ((digits_decimal _).1.2 octet hoctet)
  have hcolon : utf8 [':'] = [0x3a] := by decide
  have hopen : utf8 ['['] = [0x5b] := by decide
  have hclose : utf8 [']'] = [0x5d] := by decide
  have hbracketed : ∀ octet ∈ utf8 (bracketedHost request.host),
      isAsciiControl octet = false ∧ octet ≠ 0x20 := by
    rw [bracketedHost]
    split_ifs
    · rw [← List.singleton_append, List.append_assoc, utf8_append, utf8_append, hopen, hclose,
        List.forall_mem_append, List.forall_mem_append]
      exact ⟨List.forall_mem_singleton.2 (by decide), h.host_octets,
        List.forall_mem_singleton.2 (by decide)⟩
    · exact h.host_octets
  rw [hostHeader_eq, utf8_append, List.forall_mem_append]
  refine ⟨hbracketed, ?_⟩
  split_ifs
  · exact fun octet hoctet => absurd hoctet List.not_mem_nil
  · rw [← List.singleton_append, utf8_append, hcolon, List.forall_mem_append]
    exact ⟨List.forall_mem_singleton.2 (by decide), hdecimal⟩

/-- What holds of every value without control octets, and of the caller's, holds of all values. -/
theorem IsChecked.forall_writtenFields (h : IsChecked request) {p : List UInt8 → Prop}
    (hspace : ∀ value, p value → p (0x20 :: value))
    (hclean : ∀ value, (∀ octet ∈ value, isAsciiControl octet = false) → p value)
    (hcaller : ∀ header ∈ endToEnd request, p (utf8 header.2)) (keepAlive : Bool) :
    ∀ field ∈ writtenFields request keepAlive, isHttpToken field.1 ∧ p field.2 := by
  have hwritten {name value : List UInt8} (hname : isHttpToken name) (hvalue : p value) :
      isHttpToken (writtenField name value).1 ∧ p (writtenField name value).2 :=
    ⟨hname, hspace value hvalue⟩
  have hdecimal : ∀ octet ∈ utf8 (Chars.decimal request.body.length),
      isAsciiControl octet = false :=
    fun octet hoctet =>
      (not_control_of_digit octet ((digits_decimal _).1.2 octet hoctet)).1
  rw [writtenFields, List.forall_mem_append, List.forall_mem_append]
  refine ⟨⟨?_, ?_⟩, ?_⟩
  · rw [frontFields, List.forall_mem_cons, List.forall_mem_cons, List.forall_mem_singleton]
    refine ⟨hwritten (by unfold Chars.of; decide) (hclean _ ?_),
      hwritten (by unfold Chars.of; decide) (hclean _ (forall_not_control (by unfold Chars.of; decide))),
      hwritten (by unfold Chars.of; decide) (hclean _ (forall_not_control (by unfold Chars.of; decide)))⟩
    exact fun octet hoctet => (h.hostHeader_octets octet hoctet).1
  · rw [callerFields, List.forall_mem_map]
    exact fun header hheader =>
      hwritten (h.headers header (List.mem_of_mem_filter hheader)).1 (hcaller header hheader)
  · rw [backFields, List.forall_mem_append, List.forall_mem_singleton]
    refine ⟨?_, hwritten (by unfold Chars.of; decide) (hclean _ ?_)⟩
    · split_ifs
      · exact fun field hfield => absurd hfield List.not_mem_nil
      · rw [List.forall_mem_singleton]
        exact hwritten (by unfold Chars.of; decide) (hclean _ hdecimal)
    · exact forall_not_control (by cases keepAlive <;> unfold Chars.of <;> decide)

/-- **No line that is written has a line end inside.** -/
theorem IsChecked.isSection (h : IsChecked request) (keepAlive : Bool) :
    IsSection (writtenLine request) (writtenFields request keepAlive) := by
  refine isSection_requestLine h.upper h.isLine_target (h.forall_writtenFields
    (fun value hvalue => isLine_cons.2 ⟨by decide, hvalue⟩) (fun _ => isLine_of_not_control)
    (fun header hheader => ?_) keepAlive)
  obtain ⟨-, hcr, hlf⟩ := h.headers header (List.mem_of_mem_filter hheader)
  exact ⟨fun hmem => hcr (mem_of_mem_utf8 (by decide) hmem),
    fun hmem => hlf (mem_of_mem_utf8 (by decide) hmem)⟩

end

/-! ## What is read -/

/-- A host is named as it is, or as an address in brackets. -/
def NamesHost (host : List UInt8) (given : List Char) : Prop :=
  host = utf8 given ∨ host = 0x5b :: utf8 given ++ [0x5d]

/-- The octets that are written are one request of the grammar and nothing else, and that is the
    request that has been given. -/
structure ReadsAs (request : OriginRequest) (keepAlive : Bool) (r : ReadRequest) : Prop where
  isRequest : IsRequest (buildHttpRequest request keepAlive) r
  unique : ∀ octets rest r', buildHttpRequest request keepAlive = octets ++ rest →
    IsRequest octets r' → r' = r ∧ rest = []
  method : r.method = utf8 (request.method.map Char.toUpper)
  target : r.target = utf8 request.pathAndQuery
  host : NamesHost r.host request.host
  port : r.port.getD (defaultPort request.scheme) = request.port.toNat
  headers : ∃ front back, r.fields = front ++
      (endToEnd request).map (fun header => (utf8 header.1, trimOws (utf8 header.2))) ++ back ∧
    front.map Prod.fst = ["Host", "User-Agent", "Accept"].map (fun name => utf8 (Chars.of name)) ∧
    back.map Prod.fst = ((if request.body = [] then [] else ["Content-Length"]) ++ ["Connection"]).map
      fun name => utf8 (Chars.of name)
  length : values r.fields contentLengthName =
    if request.body = [] then [] else [utf8 (Chars.decimal request.body.length)]
  coding : values r.fields transferEncodingName = []
  body : r.body = request.body

/-- The parts that are not checked in full are of the grammar. -/
structure IsConforming (request : OriginRequest) : Prop where
  host : IsUriHost (utf8 (bracketedHost request.host))
  target : IsOriginForm (utf8 request.pathAndQuery)
  headers : ∀ header ∈ endToEnd request, IsFieldText (utf8 header.2)

theorem values_nil (name : List UInt8) : values [] name = [] := rfl

theorem values_cons (field : List UInt8 × List UInt8) (fields : Http11.Headers) (name : List UInt8) :
    values (field :: fields) name =
      if eqIgnoreCase field.1 name then field.2 :: values fields name else values fields name := by
  rw [values, List.filter_cons]
  split_ifs <;> rfl

theorem values_append (fields fields' : Http11.Headers) (name : List UInt8) :
    values (fields ++ fields') name = values fields name ++ values fields' name := by
  rw [values, List.filter_append, List.map_append]
  rfl

theorem trimOws_cons_space (octets : List UInt8) : trimOws (0x20 :: octets) = trimOws octets := rfl

theorem trimOws_eq_self {octets : List UInt8} (h : ∀ octet ∈ octets, isOws octet = false) :
    trimOws octets = octets := by
  have hdrop : octets.dropWhile isOws = octets := by
    cases octets with
    | nil => rfl
    | cons octet octets => rw [List.dropWhile_cons, h octet List.mem_cons_self]; rfl
  rw [trimOws, hdrop, List.rdropWhile_eq_self_iff]
  intro hne
  simp [h _ (List.getLast_mem hne)]

theorem isOws_of_not_control {octet : UInt8} (h : isAsciiControl octet = false ∧ octet ≠ 0x20) :
    isOws octet = false := by
  refine decide_eq_false ?_
  rintro (rfl | rfl)
  · exact h.2 rfl
  · exact absurd h.1 (by decide)

section

variable {request : OriginRequest}

/-- No header of the caller has one of these names. -/
theorem values_callerFields {expected : String}
    (hlower : asciiLower (Chars.of expected) = Chars.of expected)
    (hexpected : ∀ name, IsNamed name expected →
      isHopByHopHeader name ∨ IsNamed name "host" ∨ IsNamed name "content-length") :
    values ((callerFields request).map readField) (utf8 (Chars.of expected)) = [] := by
  rw [callerFields, List.map_map, values, List.map_eq_nil_iff, List.filter_eq_nil_iff,
    List.forall_mem_map]
  intro header hheader hname
  have hkept := of_decide_eq_true (List.mem_filter.1 hheader).2
  exact hkept (hexpected _ ((eqIgnoreCase_utf8 hlower).1 hname))

/-- The names of the fields that are not the caller's, and those that are looked for. -/
theorem names_eq :
    (eqIgnoreCase (utf8 (Chars.of "Host")) hostName ∧
      ∀ name ∈ ["User-Agent", "Accept", "Content-Length", "Connection"],
        eqIgnoreCase (utf8 (Chars.of name)) hostName = false) ∧
    (eqIgnoreCase (utf8 (Chars.of "Content-Length")) contentLengthName ∧
      ∀ name ∈ ["Host", "User-Agent", "Accept", "Connection"],
        eqIgnoreCase (utf8 (Chars.of name)) contentLengthName = false) ∧
    ∀ name ∈ ["Host", "User-Agent", "Accept", "Content-Length", "Connection"],
      eqIgnoreCase (utf8 (Chars.of name)) transferEncodingName = false := by
  decide +kernel

/-- The values that are read under a name that the caller's headers do not have. -/
theorem values_writtenFields {expected : String} (keepAlive : Bool)
    (hlower : asciiLower (Chars.of expected) = Chars.of expected)
    (hexpected : ∀ name, IsNamed name expected →
      isHopByHopHeader name ∨ IsNamed name "host" ∨ IsNamed name "content-length") :
    values ((writtenFields request keepAlive).map readField) (utf8 (Chars.of expected)) =
      values ((frontFields request).map readField) (utf8 (Chars.of expected)) ++
        values ((backFields request keepAlive).map readField) (utf8 (Chars.of expected)) := by
  rw [writtenFields, List.map_append, List.map_append, values_append, values_append,
    values_callerFields hlower hexpected, List.append_nil]

/-- The value of the `Host` field that is read. -/
theorem values_host (h : IsChecked request) (keepAlive : Bool) :
    values ((writtenFields request keepAlive).map readField) hostName =
      [utf8 (hostHeader request.host request.port request.scheme)] := by
  obtain ⟨⟨hhost, hothers⟩, -⟩ := names_eq
  simp only [List.forall_mem_cons, List.not_mem_nil, false_imp_iff, implies_true, and_true] at hothers
  obtain ⟨hagent, haccept, hlength, hconnection⟩ := hothers
  have hvalue := trimOws_eq_self fun octet hoctet =>
    isOws_of_not_control (h.hostHeader_octets octet hoctet)
  rw [hostName, values_writtenFields keepAlive (by unfold Chars.of; decide) fun _ h => .inr (.inl h), ← hostName,
    frontFields, backFields]
  split_ifs <;>
    simp [readField, writtenField, values_cons, values_nil, trimOws_cons_space, hhost, hagent, haccept,
      hlength, hconnection, hvalue]

theorem values_contentLength (keepAlive : Bool) :
    values ((writtenFields request keepAlive).map readField) contentLengthName =
      if request.body = [] then [] else [utf8 (Chars.decimal request.body.length)] := by
  obtain ⟨-, ⟨hlength, hothers⟩, -⟩ := names_eq
  simp only [List.forall_mem_cons, List.not_mem_nil, false_imp_iff, implies_true, and_true] at hothers
  obtain ⟨hhost, hagent, haccept, hconnection⟩ := hothers
  have hvalue := trimOws_eq_self fun octet hoctet =>
    isOws_of_not_control
      (not_control_of_digit octet ((digits_decimal request.body.length).1.2 octet hoctet))
  rw [contentLengthName, values_writtenFields keepAlive (by unfold Chars.of; decide) fun _ h => .inr (.inr h),
    ← contentLengthName, frontFields, backFields]
  split_ifs <;>
    simp [readField, writtenField, values_cons, values_nil, trimOws_cons_space, hhost, hagent, haccept,
      hlength, hconnection, hvalue]

theorem values_transferEncoding (keepAlive : Bool) :
    values ((writtenFields request keepAlive).map readField) transferEncodingName = [] := by
  obtain ⟨-, -, hothers⟩ := names_eq
  simp only [List.forall_mem_cons, List.not_mem_nil, false_imp_iff, implies_true, and_true] at hothers
  obtain ⟨hhost, hagent, haccept, hlength, hconnection⟩ := hothers
  have hhop : ∀ name, IsNamed name "transfer-encoding" → isHopByHopHeader name := fun name h =>
    List.any_eq_true.2 ⟨"transfer-encoding", by simp, decide_eq_true h⟩
  rw [transferEncodingName, values_writtenFields keepAlive (by unfold Chars.of; decide) fun _ h =>
    .inl (hhop _ h), ← transferEncodingName, frontFields, backFields]
  split_ifs <;>
    simp [readField, writtenField, values_cons, values_nil, hhost, hagent, haccept, hlength,
      hconnection]

/-! ## Hosts -/

theorem utf8_bracketedHost (host : List Char) : NamesHost (utf8 (bracketedHost host)) host := by
  rw [bracketedHost]
  split_ifs
  · refine .inr ?_
    have hopen : String.utf8EncodeChar '[' = [0x5b] := by decide
    have hclose : utf8 [']'] = [0x5d] := by decide
    rw [List.cons_append, utf8_cons, utf8_append, hopen, hclose]
    rfl
  · exact .inl rfl

/-- What is behind the host in the value of the `Host` field. -/
def portText (request : OriginRequest) : List UInt8 :=
  if request.port.toNat = defaultPort request.scheme then []
  else 0x3a :: utf8 (Chars.decimal request.port.toNat)

theorem utf8_hostHeader (request : OriginRequest) :
    utf8 (hostHeader request.host request.port request.scheme) =
      utf8 (bracketedHost request.host) ++ portText request := by
  have hcolon : String.utf8EncodeChar ':' = [0x3a] := by decide
  rw [hostHeader_eq, utf8_append, portText]
  split_ifs
  · rfl
  · rw [utf8_cons, hcolon]
    rfl

/-- A host of the grammar is named, with its port. -/
theorem exists_isAuthority (h : IsUriHost (utf8 (bracketedHost request.host))) :
    ∃ port, IsAuthority (utf8 (bracketedHost request.host))
        (utf8 (hostHeader request.host request.port request.scheme)) port ∧
      port.getD (defaultPort request.scheme) = request.port.toNat := by
  rw [utf8_hostHeader, portText]
  split_ifs with hdefault
  · rw [List.append_nil]
    exact ⟨none, .host h, hdefault.symm⟩
  · obtain ⟨hdigits, hvalue⟩ := digits_decimal request.port.toNat
    exact ⟨_, .port h hdigits, hvalue⟩

theorem bracket_of_utf8 {text : List Char} {rest : List UInt8} (h : utf8 text = 0x5b :: rest) :
    text.head? = some '[' := by
  obtain ⟨front, back, rfl, hfront, -⟩ := @utf8_eq_append_cons text [] rest 0x5b (by decide) h
  obtain rfl : front = [] := by
    cases front with
    | nil => rfl
    | cons c front =>
      rw [utf8_cons] at hfront
      exact absurd (List.append_eq_nil_iff.1 hfront).1 String.utf8EncodeChar_ne_nil
  rfl

/-- Where a value names the host that has been given, the host is of the grammar. -/
theorem isUriHost_of_isAuthority (hchecked : IsChecked request) {host : List UInt8} {port : Option ℕ}
    (hnames : NamesHost host request.host)
    (h : IsAuthority host (utf8 (hostHeader request.host request.port request.scheme)) port) :
    IsUriHost (utf8 (bracketedHost request.host)) := by
  obtain ⟨hhost, rest, heq, -⟩ := h.exists_rest
  rw [utf8_hostHeader] at heq
  -- What begins with a bracket, begins with that of the host that has been given.
  have hbracket {more tail : List UInt8} (heq : utf8 request.host ++ more = 0x5b :: tail) :
      ∃ text, utf8 request.host = 0x5b :: text := by
    cases htext : utf8 request.host with
    | nil => exact absurd (utf8_injective htext) hchecked.host_ne_nil
    | cons octet text =>
      rw [htext] at heq
      exact ⟨text, by rw [(List.cons.inj heq).1]⟩
  have hopen : String.utf8EncodeChar '[' = [0x5b] := by decide
  rw [bracketedHost] at heq ⊢
  split_ifs at heq ⊢ with haddress
  · rcases hnames with rfl | rfl
    · rw [List.cons_append, utf8_cons, hopen] at heq
      obtain ⟨text, htext⟩ := hbracket heq.symm
      exact absurd (bracket_of_utf8 htext) haddress.2
    · have hclose : utf8 [']'] = [0x5d] := by decide
      rw [List.cons_append, utf8_cons, utf8_append, hopen, hclose]
      exact hhost
  · rcases hnames with rfl | rfl
    · exact hhost
    · obtain ⟨text, htext⟩ := hbracket heq
      rcases hhost.cases_brackets with hname | ⟨inner, hinner, hnone⟩
      · exact absurd rfl (hname 0x5b (by simp)).1
      · obtain rfl := List.append_cancel_right (List.cons.inj hinner).2
        exact absurd rfl (hnone 0x5b (by rw [htext]; exact List.mem_cons_self)).1

/-! ## A request is read as it has been given -/

/-- Where the parts are of the grammar, so is what is written. -/
theorem exists_readsAs (h : IsChecked request) (hconforming : IsConforming request)
    (keepAlive : Bool) : ∃ r, ReadsAs request keepAlive r := by
  obtain ⟨port, hauthority, hport⟩ := exists_isAuthority hconforming.host
  have hfields : ∀ field ∈ writtenFields request keepAlive, IsField field :=
    h.forall_writtenFields (p := IsFieldText)
      (fun value hvalue => List.forall_mem_cons.2 ⟨.inl (by decide), hvalue⟩)
      (fun value hvalue octet hoctet => .inl (hvalue octet hoctet)) hconforming.headers keepAlive
  have hbody : IsRequestBody ((writtenFields request keepAlive).map readField) request.body
      request.body := by
    have hlength := @values_contentLength request keepAlive
    have hcoding := @values_transferEncoding request keepAlive
    split_ifs at hlength with hempty
    · rw [hempty]
      exact .none hcoding hlength
    · refine .fixed hcoding (by rw [hlength]; exact List.cons_ne_nil _ _) ?_
      rw [hlength, List.forall_mem_singleton]
      exact digits_decimal request.body.length
  have hrequest : IsRequest (buildHttpRequest request keepAlive)
      { method := utf8 (request.method.map Char.toUpper)
        target := utf8 request.pathAndQuery
        fields := (writtenFields request keepAlive).map readField
        host := utf8 (bracketedHost request.host)
        port
        body := request.body } :=
    ⟨h.upper, hconforming.target, ⟨_, _, hfields, rfl, hbody, buildHttpRequest_eq request keepAlive⟩,
      ⟨_, values_host h keepAlive, hauthority⟩⟩
  refine ⟨_, hrequest, fun octets rest r' hsplit hrequest' => ?_, rfl, rfl, utf8_bracketedHost _,
    hport, ?_, values_contentLength keepAlive, values_transferEncoding keepAlive, rfl⟩
  · have hunique := hrequest'.unique hrequest (hsplit.symm.trans (List.append_nil _).symm)
    exact hunique
  · refine ⟨(frontFields request).map readField, (backFields request keepAlive).map readField, ?_,
      rfl, ?_⟩
    · rw [writtenFields, List.map_append, List.map_append, callerFields, List.map_map]
      rfl
    · rw [backFields]
      split_ifs <;> rfl

/-- Where what is written is of the grammar, so are the parts. -/
theorem ReadsAs.isConforming (hchecked : IsChecked request) {keepAlive : Bool} {r : ReadRequest}
    (h : ReadsAs request keepAlive r) : IsConforming request := by
  obtain ⟨fields, bodyOctets, hfields, hread, -, heq⟩ := h.isRequest.split
  have hsection := isSection_requestLine h.isRequest.method h.isRequest.target.isLine
    fun field hfield => ⟨(hfields field hfield).1, (hfields field hfield).2.isLine⟩
  -- The head is cut as it has been put together.
  obtain ⟨-, rfl, -⟩ := (hchecked.isSection keepAlive).unique hsection
    ((buildHttpRequest_eq request keepAlive).symm.trans heq)
  obtain ⟨value, hvalue, hauthority⟩ := h.isRequest.host
  rw [hread, values_host hchecked keepAlive] at hvalue
  obtain rfl := List.singleton_inj.1 hvalue
  refine ⟨isUriHost_of_isAuthority hchecked h.host hauthority, h.target ▸ h.isRequest.target,
    fun header hheader => ?_⟩
  have hmem : writtenField (utf8 header.1) (utf8 header.2) ∈ writtenFields request keepAlive :=
    List.mem_append_left _ (List.mem_append_right _ (List.mem_map_of_mem hheader))
  exact fun octet hoctet => (hfields _ hmem).2 octet (List.mem_cons_of_mem _ hoctet)

end

/-- **A request is read as it has been given.** A request that passes the checks is one of the
    grammar when it is written, the one that has been given and nothing else, if and only if its
    host, its target and the values of its headers are of the grammar. -/
theorem buildHttpRequest_readsAs_iff {request : OriginRequest} {limits : TransportLimits}
    (h : validateRequest request limits = .ok ()) (keepAlive : Bool) :
    (∃ r, ReadsAs request keepAlive r) ↔ IsConforming request :=
  have hchecked := isChecked_of_validateRequest h
  ⟨fun ⟨_, hreads⟩ => hreads.isConforming hchecked,
    fun hconforming => exists_readsAs hchecked hconforming keepAlive⟩

/-! ## Samples -/

namespace InjectionSample

def limits : TransportLimits := ⟨64, 64, 64⟩

/-- A request with some headers. -/
def request (headers : List (List Char × List Char)) : OriginRequest where
  method := Chars.of "get"
  scheme := Chars.of "http"
  host := Chars.of "site"
  connectHost := none
  port := 8080
  pathAndQuery := Chars.of "/a?b"
  protocol := .http11
  tls := ⟨.icannWebPki, false, []⟩
  headers := headers
  body := [0x78]

/-- `X: v` is read as it has been given. -/
theorem readsAs_header :
    ∃ r, ReadsAs (request [(Chars.of "X", Chars.of "v")]) true r := by
  refine (@buildHttpRequest_readsAs_iff _ limits (by decide +kernel) true).2 ⟨?_, ?_, ?_⟩
  · exact .name (.of_forall (by decide +kernel))
  · exact ⟨[0x61], [0x3f, 0x62], .of_forall (by decide +kernel),
      .inr ⟨[0x62], .of_forall (by decide +kernel), rfl⟩, by decide +kernel⟩
  · decide +kernel

/-- A control octet in a value passes the checks, and no value of the grammar has one. -/
theorem not_readsAs :
    ¬∀ request limits keepAlive, validateRequest request limits = .ok () →
      ∃ r, ReadsAs request keepAlive r := by
  intro h
  have hvalid : validateRequest (request [(Chars.of "X", ['a', Char.ofNat 0])]) limits = .ok () := by
    decide +kernel
  obtain ⟨r, hreads⟩ := h _ _ true hvalid
  have hheaders := (hreads.isConforming (isChecked_of_validateRequest hvalid)).headers
  exact absurd (hheaders (Chars.of "X", ['a', Char.ofNat 0]) (by decide +kernel)) (by decide +kernel)

end InjectionSample

end Hns
