import Hns.Browser.GatewayHead

/-!
# The control headers of the app

The app tells the gateway whether it is in strict mode by a header of its own, among those of the
page (`ProxyRequest.headersForGateway`), and the gateway takes it out again
(`parseGatewayHeaders`). A page can neither switch the mode off (`strictHnsMode_of_strict`) nor on
(`parseGatewayHeaders_headersForGateway`).
-/

namespace Hns

open Http11 (crlf eqIgnoreCase isHttpToken splitLines splitOnce trimOctets IsUnbroken)

/-! ## The proxy -/

/-- Texts of ISO 8859-1, as the proxy has read them. -/
abbrev TextHeaders := List (List Char × List Char)

def strictModeHeader : List Char := Chars.of "X-HNS-Browser-Strict-Mode"

namespace ProxyRequest

def hasTransferEncoding (headers : TextHeaders) : Bool :=
  headers.any fun header => IsNamed header.1 "transfer-encoding"

/-- The headers of the page that are handed on. -/
def sanitized (headers : TextHeaders) : TextHeaders :=
  headers.filter fun header =>
    !(IsNamed header.1 "transfer-encoding" || IsNamed header.1 "trailer" ||
      hasTransferEncoding headers && IsNamed header.1 "content-length" ||
      IsNamed header.1 "x-hns-browser-strict-mode")

def headersForGateway (headers : TextHeaders) (strictHnsMode : Bool) : TextHeaders :=
  if strictHnsMode then sanitized headers ++ [(strictModeHeader, Chars.of "1")]
  else sanitized headers

end ProxyRequest

def serializeHeaders (headers : TextHeaders) : List Char :=
  headers.flatMap fun header => header.1 ++ Chars.of ": " ++ header.2 ++ Chars.of "\r\n"

/-! ## The gateway -/

def maxGatewayHeaderTextBytes : ℕ := 64 * 1024

structure ParsedGatewayHeaders where
  headers : Http11.Headers
  strictHnsMode : Bool
  deriving DecidableEq

/-- One header of the text. -/
def parseGatewayHeader (parsed : ParsedGatewayHeaders) (line : List UInt8) :
    Except String ParsedGatewayHeaders :=
  match splitOnce 0x3a line with
  | none => .error "request header is malformed"
  | some (name, value) =>
    let name := trimOctets name
    let value := trimOctets value
    if name = [] || name.any (fun byte => isAsciiControl byte || byte = 0x20 || byte = 0x3a) ||
        value.any (fun byte => byte = Http11.cr || byte = Http11.lf) then
      .error "request header is invalid"
    else if eqIgnoreCase name (utf8 strictModeHeader) then
      if value = octetsOf "1" || eqIgnoreCase value (octetsOf "true") then
        .ok { parsed with strictHnsMode := true }
      else .ok parsed
    else .ok { parsed with headers := parsed.headers ++ [(name, value)] }

def parseGatewayHeaders (headerText : List Char) : Except String ParsedGatewayHeaders :=
  if maxGatewayHeaderTextBytes < (utf8 headerText).length then
    .error "request headers are too large"
  else ((splitLines (utf8 headerText)).filter (· ≠ [])).foldlM parseGatewayHeader ⟨[], false⟩

/-! ## The lines of the text -/

/-- A header as it stands in a line. -/
def textLine (header : List Char × List Char) : List UInt8 :=
  headLine (utf8 header.1) (utf8 header.2)

theorem utf8_serializeHeaders (headers : TextHeaders) :
    utf8 (serializeHeaders headers) = headers.flatMap fun header => textLine header ++ crlf := by
  have hcrlf : utf8 (Chars.of "\r\n") = crlf := by
    unfold Chars.of
    decide
  rw [serializeHeaders]
  induction headers with
  | nil => rfl
  | cons header headers ih =>
    rw [List.flatMap_cons, utf8_append, ih, List.flatMap_cons]
    simp [textLine, headLine, octetsOf, hcrlf]

/-- The lines of a text that ends with a header are those before it and the header. -/
theorem lines_append_header (headers : TextHeaders) {header : List Char × List Char}
    (hheader : IsUnbroken (textLine header)) :
    ∃ front, (splitLines (utf8 (serializeHeaders (headers ++ [header])))).filter (· ≠ []) =
      front ++ [textLine header] := by
  have hlast : (splitLines (textLine header)).filter (· ≠ []) = [textLine header] := by
    rw [Http11.splitLines_of_isUnbroken hheader, List.filter_cons_of_pos]
    · rfl
    · exact decide_eq_true (headLine_ne_nil _ _)
  have hend (text : List UInt8) : (splitLines (text ++ crlf)).filter (· ≠ []) =
      (splitLines text).filter (· ≠ []) := by
    have h := Http11.splitLines_append text []
    rw [List.append_nil] at h
    rw [h, List.filter_append]
    simp [splitLines]
  rw [utf8_serializeHeaders, List.flatMap_append, List.flatMap_singleton, ← List.append_assoc, hend]
  rcases List.eq_nil_or_concat headers with rfl | ⟨before, last, rfl⟩
  · exact ⟨[], by rw [List.flatMap_nil, List.nil_append, hlast]; rfl⟩
  · rw [List.concat_eq_append, List.flatMap_append, List.flatMap_singleton, ← List.append_assoc,
      Http11.splitLines_append, List.filter_append, hlast]
    exact ⟨_, rfl⟩

/-- Where no header has a line end in it, the lines are the headers. -/
theorem lines_serializeHeaders {headers : TextHeaders}
    (h : ∀ header ∈ headers, IsUnbroken (textLine header)) :
    (splitLines (utf8 (serializeHeaders headers))).filter (· ≠ []) = headers.map textLine := by
  rw [utf8_serializeHeaders]
  induction headers with
  | nil => rfl
  | cons header headers ih =>
    rw [List.forall_mem_cons] at h
    rw [List.flatMap_cons, Http11.splitLines_append, List.filter_append, ih h.2,
      Http11.splitLines_of_isUnbroken h.1, List.filter_cons_of_pos, List.map_cons]
    · rfl
    · exact decide_eq_true (headLine_ne_nil _ _)

/-! ## Strict mode -/

theorem parseGatewayHeader_strict (parsed : ParsedGatewayHeaders) :
    parseGatewayHeader parsed (textLine (strictModeHeader, Chars.of "1")) =
      .ok { parsed with strictHnsMode := true } := by
  have hsplit : splitOnce 0x3a (textLine (strictModeHeader, Chars.of "1")) =
      some (utf8 strictModeHeader, 0x20 :: octetsOf "1") := by
    unfold textLine headLine strictModeHeader octetsOf Chars.of
    decide
  have hname : trimOctets (utf8 strictModeHeader) = utf8 strictModeHeader := by
    unfold strictModeHeader Chars.of
    decide +kernel
  have hvalue : trimOctets (0x20 :: octetsOf "1") = octetsOf "1" := by
    unfold octetsOf Chars.of
    decide +kernel
  have hvalid : (utf8 strictModeHeader = [] ||
      (utf8 strictModeHeader).any (fun byte => isAsciiControl byte || byte = 0x20 || byte = 0x3a) ||
      (octetsOf "1").any (fun byte => byte = Http11.cr || byte = Http11.lf)) = false := by
    unfold strictModeHeader octetsOf Chars.of
    decide
  rw [parseGatewayHeader, hsplit]
  dsimp only
  rw [hname, hvalue, hvalid]
  simp [eqIgnoreCase]

theorem isUnbroken_strict : IsUnbroken (textLine (strictModeHeader, Chars.of "1")) := by
  refine isUnbroken_of_not_mem ?_
  unfold textLine headLine strictModeHeader octetsOf Chars.of
  decide

/-- A request that the app sends in strict mode is resolved in strict mode if at all, whatever the
    page has put into its headers. -/
theorem strictHnsMode_of_strict {headers : TextHeaders} {parsed : ParsedGatewayHeaders}
    (h : parseGatewayHeaders (serializeHeaders (ProxyRequest.headersForGateway headers true)) =
      .ok parsed) : parsed.strictHnsMode = true := by
  obtain ⟨front, hfront⟩ := lines_append_header (ProxyRequest.sanitized headers) isUnbroken_strict
  rw [ProxyRequest.headersForGateway, if_pos rfl, parseGatewayHeaders, hfront] at h
  split_ifs at h
  -- The header of the app comes last, so that whatever has been read before it is overruled.
  rw [List.foldlM_append] at h
  obtain ⟨before, -, h⟩ := Except.bind_eq_ok.1 h
  rw [List.foldlM_cons, parseGatewayHeader_strict] at h
  cases h
  rfl

/-! ## The headers of a page -/

/-- A header that a page can have sent: the name is a token, and the value has no line end in it. -/
structure IsPageHeader (header : List Char × List Char) : Prop where
  name : isHttpToken (utf8 header.1)
  cr_not_mem : '\r' ∉ header.2
  lf_not_mem : '\n' ∉ header.2

/-- A header as the gateway takes it. -/
def takenHeader (header : List Char × List Char) : List UInt8 × List UInt8 :=
  (utf8 header.1, utf8 (DnsName.trim header.2))

theorem isNamed_strictModeHeader {name : List Char} :
    eqIgnoreCase (utf8 name) (utf8 strictModeHeader) ↔
      IsNamed name "x-hns-browser-strict-mode" := by
  have hlower : asciiLower (Chars.of "x-hns-browser-strict-mode") =
      Chars.of "x-hns-browser-strict-mode" := by
    unfold Chars.of
    decide
  have hsame : (utf8 strictModeHeader).map toAsciiLowercase =
      (utf8 (Chars.of "x-hns-browser-strict-mode")).map toAsciiLowercase := by
    unfold strictModeHeader Chars.of
    decide
  rw [← eqIgnoreCase_utf8 hlower, eqIgnoreCase, eqIgnoreCase, hsame]

theorem isUnbroken_textLine {header : List Char × List Char} (h : IsPageHeader header) :
    IsUnbroken (textLine header) :=
  @isUnbroken_headLine (utf8 header.1, utf8 header.2) h.name
    (isUnbroken_of_not_mem (cr_not_mem_utf8 h.cr_not_mem))

theorem not_control_of_token : ∀ byte, Http11.isTokenByte byte →
    (isAsciiControl byte || byte = 0x20 || byte = 0x3a) = false :=
  UInt8.forall_of_lt (by decide +kernel)

theorem parseGatewayHeader_textLine {header : List Char × List Char} (h : IsPageHeader header)
    (hname : ¬IsNamed header.1 "x-hns-browser-strict-mode") (parsed : ParsedGatewayHeaders) :
    parseGatewayHeader parsed (textLine header) =
      .ok { parsed with headers := parsed.headers ++ [takenHeader header] } := by
  have htoken := Http11.isTokenByte_of_isHttpToken h.name
  have hsplit : splitOnce 0x3a (textLine header) =
      some (utf8 header.1, utf8 (' ' :: header.2)) := by
    rw [textLine, splitOnce_headLine h.name]
    simp [utf8EncodeChar_blank]
  have htrim : DnsName.trim (' ' :: header.2) = DnsName.trim header.2 := by
    rw [DnsName.trim, List.dropWhile_cons_of_pos (by decide), DnsName.trim]
  have hne : utf8 header.1 ≠ [] := token_ne_nil h.name
  have hcontrol : (utf8 header.1).any
      (fun byte => isAsciiControl byte || byte = 0x20 || byte = 0x3a) = false :=
    List.any_eq_false.2 fun byte hbyte =>
      Bool.eq_false_iff.1 (not_control_of_token _ (htoken _ hbyte))
  have hline : (utf8 (DnsName.trim header.2)).any
      (fun byte => byte = Http11.cr || byte = Http11.lf) = false := by
    rw [List.any_eq_false]
    intro byte hbyte
    rw [Bool.or_eq_true, decide_eq_true_eq, decide_eq_true_eq]
    rintro (rfl | rfl)
    · exact h.cr_not_mem (Http11.trim_subset (mem_of_mem_utf8 (by decide) hbyte))
    · exact h.lf_not_mem (Http11.trim_subset (mem_of_mem_utf8 (by decide) hbyte))
  rw [parseGatewayHeader, hsplit]
  dsimp only
  rw [Http11.trimOctets_utf8, Http11.trimOctets_utf8, Http11.trim_token h.name, htrim, hcontrol,
    hline, decide_eq_false hne, Bool.or_self, Bool.or_self, if_neg Bool.false_ne_true,
    if_neg (isNamed_strictModeHeader.not.2 hname)]
  rfl

theorem foldlM_parseGatewayHeader {headers : TextHeaders}
    (h : ∀ header ∈ headers, IsPageHeader header)
    (hname : ∀ header ∈ headers, ¬IsNamed header.1 "x-hns-browser-strict-mode")
    (parsed : ParsedGatewayHeaders) :
    (headers.map textLine).foldlM parseGatewayHeader parsed =
      .ok { parsed with headers := parsed.headers ++ headers.map takenHeader } := by
  induction headers generalizing parsed with
  | nil => rw [List.map_nil, List.map_nil, List.append_nil]; rfl
  | cons header headers ih =>
    rw [List.forall_mem_cons] at h hname
    rw [List.map_cons, List.foldlM_cons, parseGatewayHeader_textLine h.1 hname.1]
    refine (ih h.2 hname.2 _).trans ?_
    rw [List.append_assoc]
    rfl

theorem not_isNamed_sanitized {headers : TextHeaders} :
    ∀ header ∈ ProxyRequest.sanitized headers,
      ¬IsNamed header.1 "x-hns-browser-strict-mode" := by
  intro header hheader hname
  have hkept := (List.mem_filter.1 hheader).2
  rw [decide_eq_true hname, Bool.or_true] at hkept
  cases hkept

/-- The gateway takes from a request of the app, unless its headers are too large, those of the page
    that are handed on, in order, and the mode that the app is in; no header of the page is taken
    for the one that says so. -/
theorem parseGatewayHeaders_headersForGateway {headers : TextHeaders}
    (h : ∀ header ∈ headers, IsPageHeader header) (strictHnsMode : Bool) :
    parseGatewayHeaders (serializeHeaders (ProxyRequest.headersForGateway headers strictHnsMode)) =
      if maxGatewayHeaderTextBytes < (utf8 (serializeHeaders
          (ProxyRequest.headersForGateway headers strictHnsMode))).length then
        .error "request headers are too large"
      else .ok ⟨(ProxyRequest.sanitized headers).map takenHeader, strictHnsMode⟩ := by
  have hpage : ∀ header ∈ ProxyRequest.sanitized headers, IsPageHeader header :=
    fun header hheader => h header (List.mem_of_mem_filter hheader)
  have hunbroken : ∀ header ∈ ProxyRequest.sanitized headers, IsUnbroken (textLine header) :=
    fun header hheader => isUnbroken_textLine (hpage header hheader)
  have hfold := foldlM_parseGatewayHeader hpage not_isNamed_sanitized ⟨[], false⟩
  rw [parseGatewayHeaders]
  congr 1
  cases strictHnsMode with
  | false =>
    rw [ProxyRequest.headersForGateway, if_neg Bool.false_ne_true, lines_serializeHeaders hunbroken,
      hfold]
    rfl
  | true =>
    have hall : ∀ header ∈ ProxyRequest.sanitized headers ++ [(strictModeHeader, Chars.of "1")],
        IsUnbroken (textLine header) := by
      rw [List.forall_mem_append, List.forall_mem_singleton]
      exact ⟨hunbroken, isUnbroken_strict⟩
    rw [ProxyRequest.headersForGateway, if_pos rfl, lines_serializeHeaders hall, List.map_append,
      List.foldlM_append, hfold]
    change List.foldlM parseGatewayHeader _ [textLine (strictModeHeader, Chars.of "1")] = _
    rw [List.foldlM_cons, parseGatewayHeader_strict]
    rfl

namespace ControlSample

/-- A page that would switch strict mode on. -/
def headers : TextHeaders := [
  (Chars.of "Accept", Chars.of "text/html "), (Chars.of "x-hns-browser-STRICT-mode", Chars.of "1")]

theorem isPageHeader_headers : ∀ header ∈ headers, IsPageHeader header := by
  rw [headers, List.forall_mem_cons, List.forall_mem_singleton]
  unfold Chars.of
  exact ⟨⟨by decide, by decide, by decide⟩, ⟨by decide, by decide, by decide⟩⟩

theorem parseGatewayHeaders_compatibility :
    parseGatewayHeaders (serializeHeaders (ProxyRequest.headersForGateway headers false)) =
      .ok ⟨[takenHeader (Chars.of "Accept", Chars.of "text/html ")], false⟩ := by
  have hsanitized : ProxyRequest.sanitized headers =
      [(Chars.of "Accept", Chars.of "text/html ")] := by
    unfold headers Chars.of
    decide +kernel
  have hsize : ¬maxGatewayHeaderTextBytes < (utf8 (serializeHeaders
      (ProxyRequest.headersForGateway headers false))).length := by
    rw [ProxyRequest.headersForGateway, if_neg Bool.false_ne_true, hsanitized]
    unfold Chars.of
    decide +kernel
  rw [parseGatewayHeaders_headersForGateway isPageHeader_headers false, if_neg hsize, hsanitized]
  rfl

/-- A value with a line end in it, and a header behind that. -/
def split : TextHeaders := [
  (Chars.of "Accept", Chars.of "text/html\r\nX-HNS-Browser-Strict-Mode: 0")]

theorem strictHnsMode_split : ∃ parsed,
    parseGatewayHeaders (serializeHeaders (ProxyRequest.headersForGateway split true)) =
      .ok parsed ∧ parsed.strictHnsMode = true := by
  have hparsed : parseGatewayHeaders
      (serializeHeaders (ProxyRequest.headersForGateway split true)) =
      .ok ⟨[(octetsOf "Accept", octetsOf "text/html")], true⟩ := by
    unfold split octetsOf Chars.of
    decide +kernel
  exact ⟨_, hparsed, strictHnsMode_of_strict hparsed⟩

end ControlSample

end Hns
