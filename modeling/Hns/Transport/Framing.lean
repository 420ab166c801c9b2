import Hns.Transport.Received

/-!
# The framing of responses

What is known of a response that `parse_http_response_to_writer_reusable` accepts:
where it may have a body, the head frames it in one way, and a connection is kept
only behind a response with an end of its own (`Accepted`). With what is read of a
response that has been sent, this is `parseHttpResponse_framing`.
-/

namespace Hns

open Except EStateM

namespace Http11

/-! ## What is accepted -/

section

variable {requestMethod : List UInt8} {x x' : Exchange} {limits : TransportLimits}

theorem transferEncoding_eq_none {headers : Headers} (h : transferEncoding headers = .ok none) :
    values headers transferEncodingName = [] := by
  rw [transferEncoding] at h
  obtain ⟨codings, hcodings, h⟩ := bind_eq_ok.1 h
  cases hvalues : values headers transferEncodingName with
  | nil => rfl
  | cons value given =>
    rw [hvalues, mapM_eq_ok] at hcodings
    have hlength := hcodings.length_eq
    split_ifs at h with hnil
    · rw [hnil, List.flatMap_cons, List.length_append] at hlength
      have hpos := List.length_pos_of_ne_nil (List.splitOn_ne_nil 0x2c value)
      simp only [List.length_nil] at hlength
      omega
    · cases h

/-- One coding that is `chunked`. -/
theorem transferEncoding_eq_chunked {headers : Headers}
    (h : transferEncoding headers = .ok (some [.chunked])) :
    ∃ value, values headers transferEncodingName = [value] ∧
      eqIgnoreCase (trimOctets value) (utf8 (Chars.of "chunked")) := by
  rw [transferEncoding] at h
  obtain ⟨codings, hcodings, h⟩ := bind_eq_ok.1 h
  split_ifs at h with hnil
  · cases h
  · cases h
    rw [mapM_eq_ok] at hcodings
    have hlength := hcodings.length_eq
    cases hvalues : values headers transferEncodingName with
    | nil => rw [hvalues] at hlength; cases hlength
    | cons value given =>
      rw [hvalues, List.flatMap_cons] at hcodings hlength
      have hpos := List.length_pos_of_ne_nil (List.splitOn_ne_nil 0x2c value)
      rw [List.length_append, List.length_singleton] at hlength
      have hgiven : given = [] := by
        cases given with
        | nil => rfl
        | cons value' given =>
          have hpos' := List.length_pos_of_ne_nil (List.splitOn_ne_nil 0x2c value')
          rw [List.flatMap_cons, List.length_append] at hlength
          omega
      obtain ⟨part, hpart⟩ := List.length_eq_one_iff.1 (show (value.splitOn 0x2c).length = 1 by omega)
      have hvalue : part = value := by
        have hjoin : [0x2c].intercalate (value.splitOn 0x2c) = value := List.intercalate_splitOn 0x2c
        rw [hpart] at hjoin
        simpa using hjoin
      rw [hgiven, hpart, hvalue, List.flatMap_nil, List.append_nil, List.forall₂_cons] at hcodings
      refine ⟨value, by rw [hgiven], ?_⟩
      have hcoding := hcodings.1
      rw [transferCoding] at hcoding
      split_ifs at hcoding with hempty hchunked
      · exact hchunked
      · cases hcoding

theorem contentLength_eq_none {headers : Headers} (h : contentLength headers = .ok none) :
    values headers contentLengthName = [] := by
  have hsome (given : List (List UInt8)) (length : ℕ) :
      contentLengthLoop given (some length) ≠ .ok none := by
    induction given generalizing length with
    | nil => exact fun h => by cases h
    | cons value given ih =>
      intro h
      rw [contentLengthLoop] at h
      obtain ⟨parsed, -, h⟩ := bind_eq_ok.1 h
      obtain ⟨-, h⟩ := throw_unless.1 h
      exact ih parsed h
  rw [contentLength] at h
  cases hvalues : values headers contentLengthName with
  | nil => rfl
  | cons value given =>
    rw [hvalues, contentLengthLoop] at h
    obtain ⟨parsed, -, h⟩ := bind_eq_ok.1 h
    obtain ⟨-, h⟩ := throw_unless.1 h
    exact absurd h (hsome given parsed)

/-- A head that says where the body ends, with no more than one coding. -/
inductive Delimits (requestMethod : List UInt8) (head : ResponseHead) : Prop
  | noBody (h : responseHasNoBody requestMethod head.status)
  | length (h : values head.headers transferEncodingName = [])
  | chunked (hlength : values head.headers contentLengthName = [])
      (hchunked : ∃ value, values head.headers transferEncodingName = [value] ∧
        eqIgnoreCase (trimOctets value) (utf8 (Chars.of "chunked")))

theorem Framed.delimits {head : ResponseHead} {octets body rest : List UInt8}
    (h : Framed requestMethod head octets body rest) : Delimits requestMethod head := by
  cases h with
  | noBody hno => exact .noBody hno
  | chunked hbody hcodings hlength hchunks =>
    exact .chunked (contentLength_eq_none hlength) (transferEncoding_eq_chunked hcodings)
  | fixed hbody hcodings hlength => exact .length (transferEncoding_eq_none hcodings)
  | untilEnd hbody hcodings hlength => exact .length (transferEncoding_eq_none hcodings)

/-- A body that is not read up to the end of the stream has an end of its own. -/
theorem selfDelimited_of_readBodyToWriter {head : ResponseHead} {length : ℕ}
    (h : readBodyToWriter limits requestMethod head x = .ok (length, true) x') :
    responseHasNoBody requestMethod head.status ∨
      values head.headers transferEncodingName ≠ [] ∨
      values head.headers contentLengthName ≠ [] := by
  rw [readBodyToWriter] at h
  split_ifs at h with hno
  · exact .inl hno
  · refine .inr ?_
    obtain ⟨codings, hcodings, h⟩ := checked_bind_eq_ok.1 h
    cases codings with
    | some codings =>
      refine .inl fun hnil => ?_
      rw [transferEncoding_of_nil hnil] at hcodings
      cases hcodings
    | none =>
      obtain ⟨given, hgiven, h⟩ := checked_bind_eq_ok.1 h
      cases given with
      | some given =>
        refine .inr fun hnil => ?_
        rw [contentLength_of_nil hnil] at hgiven
        cases hgiven
      | none =>
        obtain ⟨sum, x₁, hread, h⟩ := run_bind_eq_ok.1 h
        cases h

end


/-! ## Framing -/

theorem status_of_parseHead {octets : List UInt8} {head : ResponseHead}
    (h : parseHead octets = .ok head) : 100 ≤ head.status ∧ head.status ≤ 999 := by
  rw [parseHead] at h
  obtain ⟨-, h⟩ := throw_unless.1 h
  obtain ⟨text, -, h⟩ := bind_eq_ok.1 h
  obtain ⟨status, -, h⟩ := bind_eq_ok.1 h
  obtain ⟨hvalid, h⟩ := throw_unless.1 h
  obtain ⟨headers, -, h⟩ := bind_eq_ok.1 h
  cases h
  simp only [not_or, not_not, not_lt] at hvalid
  exact hvalid.2

/-- A head behind which a connection may be kept. -/
structure MayBeKept (requestMethod : List UInt8) (head : ResponseHead) : Prop where
  version : eqIgnoreCase head.version (utf8 (Chars.of "HTTP/1.1"))
  selfDelimited : responseHasNoBody requestMethod head.status ∨
    values head.headers transferEncodingName ≠ [] ∨ values head.headers contentLengthName ≠ []
  not_close : ¬connectionClose head.headers

/-- What is said of a response that has been accepted, and whether the connection may be kept. -/
structure Accepted (requestMethod octets rest : List UInt8) (origin : OriginResponseHead)
    (reusable : Bool) (head : ResponseHead) (body : List UInt8) : Prop where
  decoded : Decoded requestMethod octets head body rest
  status : origin.status.toNat = head.status
  headers : origin.headers = head.headers
  bodyLen : origin.bodyLen = body.length
  delimits : Delimits requestMethod head
  kept : reusable → MayBeKept requestMethod head

theorem exists_accepted {requestMethod : List UInt8} {x x' : Exchange} {limits : TransportLimits}
    {origin : OriginResponseHead} {reusable : Bool}
    (h : parseHttpResponse limits requestMethod x = .ok (origin, reusable) x') :
    ∃ head body, x'.written = x.written ++ body ∧
      Accepted requestMethod x.socket.unread x'.socket.unread origin reusable head body := by
  rw [parseHttpResponse] at h
  obtain ⟨headOctets, x₁, hhead, h⟩ := run_bind_eq_ok.1 h
  obtain ⟨head, hparse, h⟩ := checked_bind_eq_ok.1 h
  obtain ⟨⟨length, selfDelimited⟩, x₂, hread, h⟩ := run_bind_eq_ok.1 h
  cases h
  obtain ⟨read, htook, hterminated, hfirst⟩ :=
    readUntil_ok (not_suffix_of_prefix_nil (by decide)) hhead
  obtain ⟨bodyOctets, body, hframed, hlength, htook'⟩ := readBodyToWriter_ok hread
  have hstatus := status_of_parseHead hparse
  refine ⟨head, body, (htook.trans htook').written,
    ⟨headOctets, bodyOctets, ?_, hfirst, hparse, hframed⟩,
    UInt16.toNat_ofNat_of_lt' (hstatus.2.trans_lt (by decide)), rfl, hlength, hframed.delimits,
    fun hkept => ?_⟩
  · rw [← hterminated, List.nil_append]
    exact (htook.trans htook').unread
  · simp only [Bool.and_eq_true, Bool.not_eq_true'] at hkept
    obtain ⟨⟨hversion, hself⟩, hclose⟩ := hkept
    rw [hself] at hread
    exact ⟨hversion, selfDelimited_of_readBodyToWriter hread, by simp [hclose]⟩

/-- **The framing of responses.** A response of an honest server within the limits, whose head,
    chunk lines and trailers are text, is read as it has been sent, and no more than the response;
    and a response that is accepted is framed in one way, and the connection is kept only behind one
    of HTTP/1.1 with an end of its own. -/
theorem parseHttpResponse_framing (limits : TransportLimits) (requestMethod : List UInt8)
    (x : Exchange) :
    (∀ (response : WireResponse requestMethod) rest, response.Within limits → response.IsText →
      x.writer = Writer.total → x.socket.unread = response.encode ++ rest →
      parseHttpResponse limits requestMethod x =
        .ok ({
          status := UInt16.ofNat response.head.status
          headers := response.head.read.headers
          bodyLen := response.body.data.length
          daneDecision := .noTlsa
          tlsInspection := none }, response.reusable) (x.goOn rest response.body.data)) ∧
    ∀ origin reusable x', parseHttpResponse limits requestMethod x = .ok (origin, reusable) x' →
      ∃ head body, x'.written = x.written ++ body ∧
        Accepted requestMethod x.socket.unread x'.socket.unread origin reusable head body :=
  ⟨fun response _ hwithin htext hwriter hunread =>
    parseHttpResponse_encode response hwithin htext hwriter hunread,
    fun _ _ _ h => exists_accepted h⟩

/-! ## Samples -/

namespace ReceivedSample

def limits : TransportLimits := ⟨256, 256, 256⟩

/-- `HTTP/1.1`, a status and no reason. -/
def head (status : ℕ) (hstatus : 100 ≤ status ∧ status ≤ 999) (fields : Headers)
    (hfields : ∀ field ∈ fields, isHttpToken field.1 ∧ IsLine field.2) : WireHead where
  version := utf8 (Chars.of "HTTP/1.1")
  status := status
  reason := []
  fields := fields
  version_ok := by decide +kernel
  status_ok := hstatus
  reason_ok := ⟨List.not_mem_nil, List.not_mem_nil⟩
  fields_ok := hfields

theorem isStatus_ok : 100 ≤ 200 ∧ 200 ≤ 999 := by decide

/-- A response without a body. -/
def empty (fields : Headers) (hfields : ∀ field ∈ fields, isHttpToken field.1 ∧ IsLine field.2) :
    WireResponse (utf8 (Chars.of "GET")) where
  head := head 204 (by decide) fields hfields
  body := .none
  frames := show responseHasNoBody (utf8 (Chars.of "GET")) 204 by decide +kernel

/-- A socket with some octets. -/
def socket (octets : List UInt8) (segmentation : Segmentation) : Exchange :=
  ⟨⟨octets, none, segmentation⟩, Writer.total, []⟩

/-- `1;a` and one octet. -/
def chunk : WireChunk where
  digits := [0x31]
  extension := utf8 (Chars.of ";a")
  data := [0x78]
  digits_ok := ⟨⟨by decide, by decide +kernel⟩, by decide +kernel⟩
  extension_ok := ⟨by decide +kernel, .inr ⟨[], [0x61], fun _ h => absurd h List.not_mem_nil,
    by decide +kernel⟩⟩

/-- A chunk, the last one and a trailer. -/
def chunks : WireChunks where
  chunks := [chunk]
  last := ⟨[0x30], [], [], ⟨⟨by decide, by decide +kernel⟩, by decide +kernel⟩,
    ⟨List.not_mem_nil, List.not_mem_nil⟩, .inl rfl⟩
  trailers := [utf8 (Chars.of "T: v")]
  chunks_ok := by simp [chunk]
  last_ok := rfl
  trailers_ok := by decide +kernel

/-- A response in chunks. -/
def chunked : WireResponse (utf8 (Chars.of "GET")) where
  head := head 200 isStatus_ok [(utf8 (Chars.of "Transfer-Encoding"), utf8 (Chars.of " chunked"))]
    (by decide +kernel)
  body := .chunked chunks
  frames := ⟨by decide +kernel, by decide +kernel, utf8 (Chars.of " chunked"),
    utf8 (Chars.of "chunked"), by decide +kernel, ⟨[0x20], [], by simp [IsOwsBytes],
      by simp [IsOwsBytes], by decide +kernel⟩, by decide +kernel⟩

/-- It is read up to the octet behind it. -/
theorem framing_chunked :
    (parseHttpResponse limits (utf8 (Chars.of "GET"))
      (socket (chunked.encode ++ [0x48]) .single)).state =
        ⟨⟨[0x48], none, .single⟩, Writer.total, [0x78]⟩ := by
  rw [(parseHttpResponse_framing limits _ (socket (chunked.encode ++ [0x48]) .single)).1 chunked
    [0x48] ⟨by decide +kernel, by decide +kernel, by decide +kernel, by decide +kernel⟩
    ⟨fromUtf8_of_ascii (by decide +kernel), fun line hline => fromUtf8_of_ascii ?_⟩ rfl rfl]
  · rfl
  · exact (show ∀ line ∈ chunked.body.lines, line.all (·.toNat < 128) by
      decide +kernel) line hline

/-- `X` with an octet that is no text. -/
def obsText : WireResponse (utf8 (Chars.of "GET")) :=
  empty [(utf8 (Chars.of "X"), [0xff])] (by decide +kernel)

/-- `X` with a space without a break. -/
def noBreak : WireResponse (utf8 (Chars.of "GET")) :=
  empty [(utf8 (Chars.of "X"), [0xc2, 0xa0, 0x61])] (by decide +kernel)

/-- A coding and a length. -/
def framedTwice : WireResponse (utf8 (Chars.of "GET")) :=
  empty [(utf8 (Chars.of "Transfer-Encoding"), utf8 (Chars.of "chunked")),
    (utf8 (Chars.of "Content-Length"), utf8 (Chars.of "0"))] (by decide +kernel)

/-- A value without spaces and tabs around it. -/
def IsFieldContent (value : List UInt8) : Prop :=
  ∀ octet ∈ value.head?.toList ++ value.getLast?.toList, octet ≠ 0x20 ∧ octet ≠ 0x09

instance : DecidablePred IsFieldContent := fun value => inferInstanceAs
  (Decidable (∀ octet ∈ value.head?.toList ++ value.getLast?.toList, octet ≠ 0x20 ∧ octet ≠ 0x09))

/-- An octet that is never in a text. -/
theorem not_mem_utf8 (text : List Char) : 0xff ∉ utf8 text := by
  have hne {n : ℕ} (hlt : n < 255) : (0xff : UInt8) ≠ UInt8.ofNat n := by
    intro heq
    have hnat := congrArg UInt8.toNat heq
    rw [UInt8.toNat_ofNat_of_lt' (hlt.trans (by decide))] at hnat
    exact absurd hnat.symm (Nat.ne_of_lt hlt)
  intro hmem
  obtain ⟨c, -, hc⟩ := List.mem_flatMap.1 hmem
  rw [String.utf8EncodeChar] at hc
  split_ifs at hc <;> simp only [List.mem_cons, List.not_mem_nil, or_false] at hc
  · exact hne (by omega) hc
  · rcases hc with hc | hc <;> exact hne (by omega) hc
  · rcases hc with hc | hc | hc <;> exact hne (by omega) hc
  · rcases hc with hc | hc | hc | hc <;> exact hne (by omega) hc

/-- A head with an octet that is no text is refused, a space without a break is trimmed, and a
    response without a body may have a coding and a length. -/
theorem not_framing :
    (¬∀ limits requestMethod (response : WireResponse requestMethod) x rest,
      response.Within limits → x.writer = Writer.total →
      x.socket.unread = response.encode ++ rest →
      (parseHttpResponse limits requestMethod x).isOk) ∧
    (¬∀ limits requestMethod (response : WireResponse requestMethod) x rest origin reusable x',
      response.Within limits → x.writer = Writer.total →
      x.socket.unread = response.encode ++ rest →
      (∀ field ∈ response.head.fields, IsFieldContent field.2) →
      parseHttpResponse limits requestMethod x = .ok (origin, reusable) x' →
      origin.headers = response.head.fields) ∧
    ¬∀ limits requestMethod x origin reusable x',
      parseHttpResponse limits requestMethod x = .ok (origin, reusable) x' →
      ¬(values origin.headers transferEncodingName ≠ [] ∧
        values origin.headers contentLengthName ≠ []) := by
  refine ⟨fun h => ?_, fun h => ?_, fun h => ?_⟩
  · have hok := h limits _ obsText (socket (obsText.encode ++ []) .single) []
      ⟨by decide +kernel, by decide +kernel, by decide +kernel, by decide +kernel⟩ rfl rfl
    have hread := @WireHead.readHeaderBytes_encode obsText.head 256 (by decide +kernel) []
      (socket (obsText.encode ++ []) .single) (by decide +kernel)
    have htext : fromUtf8 obsText.head.encode = none := by
      rw [Option.eq_none_iff_forall_ne_some]
      intro text htext
      have hmem : 0xff ∈ obsText.head.encode := by decide +kernel
      rw [fromUtf8_eq_some.1 htext] at hmem
      exact not_mem_utf8 text hmem
    have hparse : parseHead obsText.head.encode = .error .malformedResponse := by
      rw [parseHead, if_pos htext]
      rfl
    rw [parseHttpResponse, show limits.maxResponseHeaderBytes = 256 from rfl, bind_ok hread,
      checked_bind, hparse] at hok
    cases hok
  · have htext : noBreak.IsText := by
      refine ⟨?_, fun line hline => absurd hline List.not_mem_nil⟩
      rw [fromUtf8_eq_some.2 (show noBreak.head.encode =
        utf8 (Chars.of "HTTP/1.1 204 \r\nX:\u00a0a") by decide +kernel)]
      exact Option.some_ne_none _
    have hwithin : noBreak.Within limits :=
      ⟨by decide +kernel, by decide +kernel, by decide +kernel, by decide +kernel⟩
    have hparse := @parseHttpResponse_encode _ (socket (noBreak.encode ++ []) .single)
      noBreak limits hwithin htext rfl [] rfl
    have hheaders := h limits _ noBreak _ [] _ _ _ hwithin rfl rfl
      (by decide +kernel) hparse
    have htrim : trimOctets [0xc2, 0xa0, 0x61] = [0x61] := by
      have hvalue : [0xc2, 0xa0, 0x61] = utf8 (Chars.of "\u00a0a") := by decide +kernel
      rw [hvalue, trimOctets_utf8]
      decide +kernel
    have hvalues := congrArg (List.map Prod.snd) hheaders
    have hread : noBreak.head.read.headers =
      [(utf8 (Chars.of "X"), trimOctets [0xc2, 0xa0, 0x61])] := rfl
    rw [hread, htrim] at hvalues
    exact absurd hvalues (by decide +kernel)
  · have hwithin : framedTwice.Within limits :=
      ⟨by decide +kernel, by decide +kernel, by decide +kernel, by decide +kernel⟩
    have htext : framedTwice.IsText := ⟨fromUtf8_of_ascii (by decide +kernel),
      fun line hline => absurd hline List.not_mem_nil⟩
    have hparse := @parseHttpResponse_encode _ (socket (framedTwice.encode ++ []) .single)
      framedTwice limits hwithin htext rfl [] rfl
    refine h limits _ _ _ _ _ hparse ?_
    dsimp only
    rw [values_read, values_read, ne_eq, ne_eq, List.map_eq_nil_iff, List.map_eq_nil_iff]
    decide +kernel

end ReceivedSample

end Http11

end Hns
