import Hns.Transport.Framing
import Hns.Transport.Grammar

/-!
# What is accepted besides

`parse_http_response_to_writer_reusable` accepts more than the grammar of HTTP/1.1
has: it trims names and sizes, takes a plus sign in front of a number, and does not
look at what it has no use for. A response that it accepts is one of the grammar,
framed as it has been framed, if and only if it has none of these forms
(`Loose`, `parseHttpResponse_isResponse_iff`).
-/

namespace Hns

open Except EStateM

namespace Http11

/-! ## Loose forms -/

/-- The lines behind the status line. -/
def fieldLines (octets : List UInt8) : List (List UInt8) :=
  (splitLines octets).tail.filter (· ≠ [])

/-- The fields of a head, with what stands around their names and values. -/
def rawFields (octets : List UInt8) : Headers := (fieldLines octets).filterMap (splitOnce 0x3a)

/-- The status in the first line. -/
def statusOf (octets : List UInt8) : Option ℕ :=
  (((splitLines octets).headD []).splitOn 0x20)[1]?.bind (fromStrRadix 10 (2 ^ 16))

/-- No body is read behind the head. -/
def IsBodiless (requestMethod octets : List UInt8) : Prop :=
  ∃ status, statusOf octets = some status ∧ responseHasNoBody requestMethod status

/-- A head that is accepted, but is none of the grammar. -/
inductive LooseHead (requestMethod octets : List UInt8) : Prop
  /-- The version, or that the status has three digits and a space behind it, is not checked. -/
  | statusLine (h : ¬∃ status, IsStatusLine ((splitLines octets).headD []) status)
  /-- A control octet, a line feed by itself for one, is taken for text. -/
  | control {field : List UInt8 × List UInt8} (hfield : field ∈ rawFields octets)
      (h : ¬IsFieldText field.2)
  /-- White space around a name is trimmed before the name is checked. -/
  | name {field : List UInt8 × List UInt8} (hfield : field ∈ rawFields octets)
      (h : trimOctets field.1 ≠ field.1)
  /-- A plus sign in front of a length is taken for a part of the number. -/
  | plus {field : List UInt8 × List UInt8} (hfield : field ∈ rawFields octets)
      (hname : eqIgnoreCase field.1 contentLengthName)
      (h : (trimOctets field.2).head? = some 0x2b)
  /-- Where there is no body, a length is not looked at. -/
  | unread {field : List UInt8 × List UInt8} (hbodiless : IsBodiless requestMethod octets)
      (hfield : field ∈ rawFields octets) (hname : eqIgnoreCase field.1 contentLengthName)
      (h : ¬IsDigits 10 (trimOctets field.2))
  /-- More than spaces and tabs is trimmed around a length. -/
  | length {field : List UInt8 × List UInt8} (hfield : field ∈ rawFields octets)
      (hname : eqIgnoreCase field.1 contentLengthName) (h : ¬IsPadded field.2 (trimOctets field.2))
  /-- More than spaces and tabs is trimmed around a coding. -/
  | coding {field : List UInt8 × List UInt8} (hbody : ¬IsBodiless requestMethod octets)
      (hfield : field ∈ rawFields octets) (hname : eqIgnoreCase field.1 transferEncodingName)
      (h : ¬IsPadded field.2 (trimOctets field.2))

/-- The first line of a chunk that is accepted, but is none of the grammar. -/
inductive LooseLine (line : List UInt8) : Prop
  /-- A plus sign in front of a size is taken for a part of the number. -/
  | plus (h : (sizeText line).head? = some 0x2b)
  /-- What stands before the size, or behind it up to the end of the line, is not looked at. -/
  | around (h : ¬∃ extensions, IsChunkExtensions extensions ∧ line = sizeText line ++ extensions)

/-- Lines behind the last chunk of which one is no field. -/
inductive LooseTrailers : List UInt8 → Prop
  | line {octets line rest : List UInt8} (hfirst : IsFirst crlf line) (hne : line ≠ [])
      (heq : octets = line ++ crlf ++ rest)
      (h : ¬∃ field, IsField field ∧ line = WireHead.fieldLine field) : LooseTrailers octets
  | rest {octets line rest : List UInt8} (hfirst : IsFirst crlf line) (hne : line ≠ [])
      (heq : octets = line ++ crlf ++ rest) (h : LooseTrailers rest) : LooseTrailers octets

/-- Chunks of which one is loose. -/
inductive LooseChunks : List UInt8 → Prop
  | line {octets line rest : List UInt8} (hfirst : IsFirst crlf line)
      (heq : octets = line ++ crlf ++ rest) (h : LooseLine line) : LooseChunks octets
  | trailers {octets line rest : List UInt8} (hfirst : IsFirst crlf line)
      (heq : octets = line ++ crlf ++ rest) (hsize : chunkSize line = .ok 0)
      (h : LooseTrailers rest) : LooseChunks octets
  | rest {octets line data rest : List UInt8} (hfirst : IsFirst crlf line)
      (heq : octets = line ++ crlf ++ (data ++ crlf ++ rest))
      (hsize : chunkSize line = .ok data.length) (hne : data ≠ []) (h : LooseChunks rest) :
      LooseChunks octets

/-- A response that is accepted, but is none of the grammar. -/
inductive Loose (requestMethod octets : List UInt8) : Prop
  | head {head body : List UInt8} (hfirst : IsFirst (crlf ++ crlf) head)
      (heq : octets = head ++ (crlf ++ crlf) ++ body) (h : LooseHead requestMethod head)
  | chunks {head body : List UInt8} (hfirst : IsFirst (crlf ++ crlf) head)
      (heq : octets = head ++ (crlf ++ crlf) ++ body) (hbody : ¬IsBodiless requestMethod head)
      (hcoded : ∃ field ∈ rawFields head, eqIgnoreCase field.1 transferEncodingName)
      (h : LooseChunks body)

/-! ## The fields of a head that is accepted -/

/-- A field without what stands around its name and value. -/
def trimField (field : List UInt8 × List UInt8) : List UInt8 × List UInt8 :=
  (trimOctets field.1, trimOctets field.2)

theorem parseHeader_eq_ok {line : List UInt8} {header : List UInt8 × List UInt8}
    (h : parseHeader line = .ok header) :
    ∃ field, splitOnce 0x3a line = some field ∧ line = WireHead.fieldLine field ∧
      isHttpToken (trimOctets field.1) ∧ header = trimField field := by
  rw [parseHeader] at h
  obtain ⟨⟨name, value⟩, hsplit, h⟩ := bind_eq_ok.1 h
  obtain ⟨htoken, h⟩ := throw_unless.1 h
  cases h
  rw [ofOption_eq_ok] at hsplit
  exact ⟨(name, value), hsplit, (splitOnce_eq_some.1 hsplit).2, by simpa using htoken, rfl⟩

theorem mapM_parseHeader_eq_ok {lines : List (List UInt8)} {headers : Headers}
    (h : lines.mapM parseHeader = .ok headers) :
    lines = (lines.filterMap (splitOnce 0x3a)).map WireHead.fieldLine ∧
      headers = (lines.filterMap (splitOnce 0x3a)).map trimField ∧
      ∀ field ∈ lines.filterMap (splitOnce 0x3a), isHttpToken (trimOctets field.1) := by
  rw [mapM_eq_ok] at h
  induction h with
  | nil => exact ⟨rfl, rfl, fun _ hfield => absurd hfield List.not_mem_nil⟩
  | cons hheader _ ih =>
    obtain ⟨field, hsplit, hline, htoken, rfl⟩ := parseHeader_eq_ok hheader
    obtain ⟨hlines, hheaders, htokens⟩ := ih
    rw [List.filterMap_cons_some hsplit, List.map_cons, List.map_cons, List.forall_mem_cons]
    exact ⟨congrArg₂ _ hline hlines, congrArg _ hheaders, htoken, htokens⟩

theorem parseHead_eq_ok {octets : List UInt8} {head : ResponseHead}
    (h : parseHead octets = .ok head) :
    statusOf octets = some head.status ∧ (fieldLines octets).mapM parseHeader = .ok head.headers := by
  rw [parseHead] at h
  obtain ⟨-, h⟩ := throw_unless.1 h
  obtain ⟨text, htext, h⟩ := bind_eq_ok.1 h
  obtain ⟨status, hstatus, h⟩ := bind_eq_ok.1 h
  obtain ⟨-, h⟩ := throw_unless.1 h
  obtain ⟨headers, hheaders, h⟩ := bind_eq_ok.1 h
  cases h
  rw [ofOption_eq_ok] at htext hstatus
  refine ⟨?_, hheaders⟩
  rw [statusOf, htext, Option.bind_some, hstatus]

theorem isBodiless_iff {requestMethod octets : List UInt8} {head : ResponseHead}
    (h : parseHead octets = .ok head) :
    IsBodiless requestMethod octets ↔ responseHasNoBody requestMethod head.status := by
  rw [IsBodiless, (parseHead_eq_ok h).1]
  simp

theorem values_trimField {fields : Headers} (h : ∀ field ∈ fields, trimOctets field.1 = field.1)
    (name : List UInt8) :
    values (fields.map trimField) name = (values fields name).map trimOctets := by
  induction fields with
  | nil => rfl
  | cons field fields ih =>
    rw [List.forall_mem_cons] at h
    have hrest := ih h.2
    simp only [values, List.map_cons, List.filter_cons, trimField, h.1] at hrest ⊢
    split_ifs
    · rw [List.map_cons, List.map_cons, List.map_cons, hrest]
    · exact hrest

theorem mem_values {fields : Headers} {name value : List UInt8} :
    value ∈ values fields name ↔ ∃ field ∈ fields, eqIgnoreCase field.1 name ∧ field.2 = value := by
  simp [values, and_assoc]

/-! ## Numbers -/

/-- What is read as a number and begins with no plus sign is one in digits. -/
theorem isDigits_of_not_plus {radix bound number : ℕ} (hradix : 0 < radix) (hbound : 0 < bound)
    {octets : List UInt8} (h : fromStrRadix radix bound octets = some number)
    (hplus : octets.head? ≠ some 0x2b) :
    IsDigits radix octets ∧ digitsValue radix octets = number := by
  have hdigits : IsDigits radix octets := by
    refine (isDigits_of_fromStrRadix h).resolve_right ?_
    rintro ⟨digits, rfl, -⟩
    exact hplus rfl
  rw [fromStrRadix_eq hradix hbound hdigits] at h
  split_ifs at h
  exact ⟨hdigits, Option.some.inj h⟩

theorem IsDigits.not_plus {radix : ℕ} {digits : List UInt8} (h : IsDigits radix digits) :
    digits.head? ≠ some 0x2b := by
  intro hplus
  have hsome := h.2 0x2b (List.mem_of_mem_head? hplus)
  rw [toDigit_plus] at hsome
  cases hsome

theorem contentLengthLoop_some {given : List (List UInt8)} {length : ℕ} {result : Option ℕ}
    (h : contentLengthLoop given (some length) = .ok result) :
    result = some length ∧ ∀ value ∈ given, fromStrRadix 10 (2 ^ 64) value = some length := by
  induction given with
  | nil =>
    cases h
    exact ⟨rfl, fun _ hvalue => absurd hvalue List.not_mem_nil⟩
  | cons value given ih =>
    rw [contentLengthLoop] at h
    obtain ⟨parsed, hparsed, h⟩ := bind_eq_ok.1 h
    obtain ⟨hequal, h⟩ := throw_unless.1 h
    obtain rfl : length = parsed := by simpa using hequal
    rw [ofOption_eq_ok] at hparsed
    obtain ⟨hresult, hgiven⟩ := ih h
    exact ⟨hresult, List.forall_mem_cons.2 ⟨hparsed, hgiven⟩⟩

/-- Every length that is given is the one that is read. -/
theorem contentLength_eq_ok {headers : Headers} {result : Option ℕ}
    (h : contentLength headers = .ok result) :
    ∀ value ∈ values headers contentLengthName,
      ∃ length, result = some length ∧ fromStrRadix 10 (2 ^ 64) value = some length := by
  rw [contentLength] at h
  cases hvalues : values headers contentLengthName with
  | nil => exact fun _ hvalue => absurd hvalue List.not_mem_nil
  | cons value given =>
    rw [hvalues, contentLengthLoop] at h
    obtain ⟨parsed, hparsed, h⟩ := bind_eq_ok.1 h
    obtain ⟨-, h⟩ := throw_unless.1 h
    rw [ofOption_eq_ok] at hparsed
    obtain ⟨hresult, hgiven⟩ := contentLengthLoop_some h
    exact List.forall_mem_cons.2
      ⟨⟨parsed, hresult, hparsed⟩, fun value hvalue => ⟨parsed, hresult, hgiven value hvalue⟩⟩

/-! ## Chunks -/

theorem chunkSize_eq_ok {line : List UInt8} {size : ℕ} :
    chunkSize line = .ok size ↔ fromStrRadix 16 (2 ^ 64) (sizeText line) = some size :=
  ofOption_eq_ok

/-- A line that is accepted is one of the grammar, if it is not loose. -/
theorem isChunkLine_of_not_loose {line : List UInt8} {size : ℕ} (hsize : chunkSize line = .ok size)
    (h : ¬LooseLine line) : IsChunkLine line size := by
  obtain ⟨hdigits, hvalue⟩ := isDigits_of_not_plus (by decide) (by decide)
    (chunkSize_eq_ok.1 hsize) fun hplus => h (.plus hplus)
  obtain ⟨extensions, hextensions, hline⟩ := not_not.1 fun hnot => h (.around hnot)
  exact ⟨sizeText line, extensions, hdigits, hvalue, hextensions, hline⟩

theorem IsChunkLine.not_loose {line : List UInt8} {size : ℕ} (h : IsChunkLine line size) :
    ¬LooseLine line := by
  obtain ⟨digits, extensions, hdigits, -, hextensions, rfl⟩ := h
  have htext := sizeText_append hdigits hextensions
  rintro (hplus | hnot)
  · exact hdigits.not_plus (htext ▸ hplus)
  · exact hnot ⟨extensions, hextensions, by rw [htext]⟩

theorem IsChunkLine.size_eq {line : List UInt8} {size size' : ℕ} (h : IsChunkLine line size)
    (hsize : chunkSize line = .ok size') : size' = size := by
  obtain ⟨digits, extensions, hdigits, rfl, hextensions, rfl⟩ := h
  rw [chunkSize_eq_ok, sizeText_append hdigits hextensions] at hsize
  exact (isDigits_of_not_plus (by decide) (by decide) hsize hdigits.not_plus).2.symm

theorem Trailers.isTrailers {octets : List UInt8} (h : Trailers octets)
    (hloose : ¬LooseTrailers octets) : IsTrailers octets := by
  induction h with
  | done => exact .done
  | line hfirst hne hrest ih =>
    obtain ⟨field, hfield, rfl⟩ := not_not.1 fun hnot => hloose (.line hfirst hne rfl hnot)
    exact .field hfield (ih fun hloose' => hloose (.rest hfirst hne rfl hloose'))

theorem IsTrailers.not_loose {octets : List UInt8} (h : IsTrailers octets) :
    ¬LooseTrailers octets := by
  induction h with
  | done =>
    have hline {line rest : List UInt8} (hfirst : IsFirst crlf line)
        (heq : crlf = line ++ crlf ++ rest) : line = [] :=
      (hfirst.unique isLine_nil.isFirst (heq.symm.trans (List.append_nil crlf).symm)).1
    rintro (⟨hfirst, hne, heq, -⟩ | ⟨hfirst, hne, heq, -⟩)
    · exact hne (hline hfirst heq)
    · exact hne (hline hfirst heq)
  | @field field rest hfield hrest ih =>
    rintro (⟨hfirst, hne, heq, hnot⟩ | ⟨hfirst, hne, heq, hloose⟩)
    · obtain ⟨hline, -⟩ := hfield.isLine.isFirst.unique hfirst heq
      exact hnot ⟨field, hfield, hline.symm⟩
    · obtain ⟨-, hrest⟩ := hfield.isLine.isFirst.unique hfirst heq
      exact ih (hrest ▸ hloose)

/-- Chunks that are accepted are of the grammar, if none is loose. -/
theorem ChunkedBody.isChunked {octets body : List UInt8} (h : ChunkedBody octets body)
    (hloose : ¬LooseChunks octets) : IsChunked octets body := by
  induction h with
  | last hfirst hsize htrailers =>
    refine .last (isChunkLine_of_not_loose hsize fun h => hloose (.line hfirst rfl h)) ?_
    exact htrailers.isTrailers fun h => hloose (.trailers hfirst rfl hsize h)
  | @chunk line data rest body hfirst hsize hne hrest ih =>
    have heq : line ++ crlf ++ data ++ crlf ++ rest = line ++ crlf ++ (data ++ crlf ++ rest) := by
      simp
    refine .chunk (isChunkLine_of_not_loose hsize fun h => hloose (.line hfirst heq h)) hne ?_
    exact ih fun h => hloose (.rest hfirst heq hsize hne h)

theorem IsChunked.not_loose {octets body : List UInt8} (h : IsChunked octets body) :
    ¬LooseChunks octets := by
  induction h with
  | last hline htrailers =>
    have hends := hline.isLine.isFirst
    rintro (⟨hfirst, heq, hloose⟩ | ⟨hfirst, heq, -, hloose⟩ | ⟨hfirst, heq, hsize, hne, -⟩)
    · obtain ⟨rfl, -⟩ := hends.unique hfirst heq
      exact hline.not_loose hloose
    · obtain ⟨-, rfl⟩ := hends.unique hfirst heq
      exact htrailers.not_loose hloose
    · obtain ⟨rfl, -⟩ := hends.unique hfirst heq
      exact hne (List.eq_nil_of_length_eq_zero (hline.size_eq hsize))
  | @chunk line data rest body hline hne hrest ih =>
    have hends := hline.isLine.isFirst
    have hoctets : line ++ crlf ++ data ++ crlf ++ rest = line ++ crlf ++ (data ++ crlf ++ rest) := by
      simp
    rw [hoctets]
    rintro (⟨hfirst, heq, hloose⟩ | ⟨hfirst, heq, hsize, -⟩ | ⟨hfirst, heq, hsize, -, hloose⟩)
    · obtain ⟨rfl, -⟩ := hends.unique hfirst heq
      exact hline.not_loose hloose
    · obtain ⟨rfl, -⟩ := hends.unique hfirst heq
      exact hne (List.eq_nil_of_length_eq_zero (hline.size_eq hsize).symm)
    · obtain ⟨rfl, hbehind⟩ := hends.unique hfirst heq
      -- The data have the length in the line, and so end at the same place.
      rw [List.append_assoc, List.append_assoc] at hbehind
      obtain ⟨-, hbehind⟩ := List.append_inj hbehind (hline.size_eq hsize).symm
      exact ih (List.append_cancel_left hbehind ▸ hloose)

/-! ## Heads -/

section

variable {requestMethod octets : List UInt8} {head : ResponseHead}

theorem headers_eq (hparse : parseHead octets = .ok head) :
    head.headers = (rawFields octets).map trimField :=
  (mapM_parseHeader_eq_ok (parseHead_eq_ok hparse).2).2.1

theorem trimOctets_name (hloose : ¬LooseHead requestMethod octets) :
    ∀ field ∈ rawFields octets, trimOctets field.1 = field.1 :=
  fun _ hfield => not_not.1 fun hname => hloose (.name hfield hname)

theorem values_headers (hparse : parseHead octets = .ok head)
    (hloose : ¬LooseHead requestMethod octets) (name : List UInt8) :
    values head.headers name = (values (rawFields octets) name).map trimOctets := by
  rw [headers_eq hparse, values_trimField (trimOctets_name hloose)]

/-- The lines of a head make up the head. -/
theorem headOctets_rawFields (hparse : parseHead octets = .ok head)
    (hfirst : IsFirst (crlf ++ crlf) octets) :
    octets = headOctets ((splitLines octets).headD []) (rawFields octets) := by
  obtain ⟨first, lines, hlines⟩ := List.exists_cons_of_ne_nil (splitLines_ne_nil octets)
  have hnil : fieldLines octets = lines := by
    have hne := hfirst.ne_nil_of_mem_tail
    rw [fieldLines, List.filter_eq_self.2 fun line hline => decide_eq_true (hne line hline), hlines,
      List.tail_cons]
  have hfields := (mapM_parseHeader_eq_ok (parseHead_eq_ok hparse).2).1
  rw [hnil] at hfields
  rw [headOctets, rawFields, hnil, ← hfields, hlines, List.headD_cons, ← hlines,
    intercalate_splitLines]

/-- What a length is in a head that is not loose. -/
theorem length_of_not_loose (hloose : ¬LooseHead requestMethod octets) {value : List UInt8}
    (hvalue : value ∈ values (rawFields octets) contentLengthName) :
    IsPadded value (trimOctets value) ∧ (trimOctets value).head? ≠ some 0x2b ∧
      (IsBodiless requestMethod octets → IsDigits 10 (trimOctets value)) := by
  obtain ⟨field, hfield, hname, rfl⟩ := mem_values.1 hvalue
  exact ⟨not_not.1 fun h => hloose (.length hfield hname h), fun h => hloose (.plus hfield hname h),
    fun hbodiless => not_not.1 fun h => hloose (.unread hbodiless hfield hname h)⟩

/-- A head that is accepted is of the grammar, if it is not loose. -/
theorem isHead_of_not_loose {status : ℕ} (hparse : parseHead octets = .ok head)
    (hloose : ¬LooseHead requestMethod octets)
    (hstatus : IsStatusLine ((splitLines octets).headD []) status)
    (hlength : ¬responseHasNoBody requestMethod head.status →
      ∃ length, contentLength head.headers = .ok length) :
    IsHead ((splitLines octets).headD []) status (rawFields octets) where
  statusLine := hstatus
  isField field hfield := by
    have htokens := (mapM_parseHeader_eq_ok (parseHead_eq_ok hparse).2).2.2 field hfield
    rw [trimOctets_name hloose field hfield] at htokens
    exact ⟨htokens, not_not.1 fun h => hloose (.control hfield h)⟩
  lengths value hvalue := by
    obtain ⟨hpadded, hplus, hbodiless⟩ := length_of_not_loose hloose hvalue
    refine ⟨trimOctets value, hpadded, ?_⟩
    by_cases hno : responseHasNoBody requestMethod head.status
    · exact hbodiless ((isBodiless_iff hparse).2 hno)
    · obtain ⟨length, hlength⟩ := hlength hno
      have hmem : trimOctets value ∈ values head.headers contentLengthName := by
        rw [values_headers hparse hloose]
        exact List.mem_map_of_mem hvalue
      obtain ⟨number, -, hnumber⟩ := contentLength_eq_ok hlength _ hmem
      exact (isDigits_of_not_plus (by decide) (by decide) hnumber hplus).1

theorem Framed.exists_contentLength {body rest bodyOctets : List UInt8}
    (h : Framed requestMethod head bodyOctets body rest)
    (hno : ¬responseHasNoBody requestMethod head.status) :
    ∃ length, contentLength head.headers = .ok length := by
  cases h with
  | noBody hno' => exact absurd hno' hno
  | chunked _ _ hlength _ => exact ⟨_, hlength⟩
  | fixed _ _ hlength => exact ⟨_, hlength⟩
  | untilEnd _ _ hlength => exact ⟨_, hlength⟩

/-- A body that is accepted is of the grammar, if neither the head nor a chunk is loose. -/
theorem Framed.isBody {bodyOctets body rest : List UInt8} (hparse : parseHead octets = .ok head)
    (hloose : ¬LooseHead requestMethod octets)
    (hchunks : ¬responseHasNoBody requestMethod head.status →
      values (rawFields octets) transferEncodingName ≠ [] → ¬LooseChunks bodyOctets)
    (h : Framed requestMethod head bodyOctets body rest) :
    IsBody requestMethod head.status (rawFields octets) bodyOctets body rest := by
  have hnil {name : List UInt8} (hvalues : values head.headers name = []) :
      values (rawFields octets) name = [] := by
    rwa [values_headers hparse hloose, List.map_eq_nil_iff] at hvalues
  cases h with
  | noBody hno => exact .noBody hno
  | chunked hbody hcodings hlength hchunked =>
    obtain ⟨word, hvalues, hword⟩ := transferEncoding_eq_chunked hcodings
    rw [values_headers hparse hloose] at hvalues
    obtain ⟨value, hvalue, rfl⟩ := List.map_eq_singleton_iff.1 hvalues
    rw [trimOctets_trimOctets] at hword
    have hpadded : IsPadded value (trimOctets value) := by
      obtain ⟨field, hfield, hname, rfl⟩ := mem_values.1 (hvalue ▸ List.mem_singleton_self value)
      exact not_not.1 fun h => hloose (.coding (mt (isBodiless_iff hparse).1 hbody) hfield hname h)
    refine .chunked hbody hvalue hpadded hword (hnil (contentLength_eq_none hlength)) ?_
    exact hchunked.isChunked (hchunks hbody (by rw [hvalue]; exact List.cons_ne_nil _ _))
  | fixed hbody hcodings hlength =>
    refine .fixed hbody (hnil (transferEncoding_eq_none hcodings)) (fun hempty => ?_)
      fun value hvalue => ?_
    · rw [contentLength_of_nil (by rw [values_headers hparse hloose, hempty]; rfl)] at hlength
      cases hlength
    · obtain ⟨hpadded, hplus, -⟩ := length_of_not_loose hloose hvalue
      have hmem : trimOctets value ∈ values head.headers contentLengthName := by
        rw [values_headers hparse hloose]
        exact List.mem_map_of_mem hvalue
      obtain ⟨number, hsome, hnumber⟩ := contentLength_eq_ok hlength _ hmem
      cases hsome
      exact ⟨_, hpadded, isDigits_of_not_plus (by decide) (by decide) hnumber hplus⟩
  | untilEnd hbody hcodings hlength =>
    exact .untilEnd hbody (hnil (transferEncoding_eq_none hcodings))
      (hnil (contentLength_eq_none hlength))

end

/-! ## Heads of the grammar -/

section

variable {requestMethod line : List UInt8} {status : ℕ} {fields : Headers}

theorem IsHead.rawFields (h : IsHead line status fields) :
    rawFields (headOctets line fields) = fields := by
  have hlines : fieldLines (headOctets line fields) = fields.map WireHead.fieldLine := by
    rw [fieldLines, h.isSection.splitLines, List.tail_cons, List.filter_eq_self, List.forall_mem_map]
    exact fun field _ => decide_eq_true (fieldLine_ne_nil field)
  rw [Http11.rawFields, hlines, filterMap_splitOnce fun field hfield => (h.isField field hfield).1]

/-- The status in a head is the one that it has been written with, if it is read at all. -/
theorem IsHead.statusOf_eq (h : IsHead line status fields) {status' : ℕ}
    (hstatus : statusOf (headOctets line fields) = some status') : status' = status := by
  obtain ⟨major, minor, digits, reason, hversion, -, hdigits, hvalue, -, rfl⟩ := h.statusLine
  have hspace {digits : List UInt8} (hdigits : IsDigits 10 digits) : 0x20 ∉ digits := fun hmem =>
    absurd (hdigits.2 _ hmem) (by decide)
  have hversion' : 0x20 ∉ utf8 (Chars.of "HTTP/") ++ [major, 0x2e, minor] := by
    have hnot := hspace hversion
    simp only [List.mem_append, List.mem_cons, List.not_mem_nil, or_false, not_or] at hnot ⊢
    exact ⟨by decide +kernel, hnot.1, by decide, hnot.2⟩
  rw [statusOf, h.isSection.splitLines, List.headD_cons,
    List.splitOn_append_cons_self_of_not_mem hversion',
    List.splitOn_append_cons_self_of_not_mem (hspace hdigits)] at hstatus
  have hparsed : fromStrRadix 10 (2 ^ 16) digits = some status' := hstatus
  rw [← hvalue]
  exact (isDigits_of_not_plus (by decide) (by decide) hparsed hdigits.not_plus).2.symm

theorem IsBody.not_looseHead {octets body rest : List UInt8} (hhead : IsHead line status fields)
    (hbodiless : responseHasNoBody requestMethod status →
      IsBodiless requestMethod (headOctets line fields))
    (h : IsBody requestMethod status fields octets body rest) :
    ¬LooseHead requestMethod (headOctets line fields) := by
  have hlength {field : List UInt8 × List UInt8} (hfield : field ∈ fields)
      (hname : eqIgnoreCase field.1 contentLengthName) :
      IsPadded field.2 (trimOctets field.2) ∧ IsDigits 10 (trimOctets field.2) := by
    obtain ⟨digits, hpadded, hdigits⟩ :=
      hhead.lengths field.2 (mem_values.2 ⟨field, hfield, hname, rfl⟩)
    have htrim := hpadded.trimOctets fun octet hoctet =>
      (isWordByte_of_toDigit octet (toDigit_ten octet (hdigits.2 octet hoctet))).1
    rw [htrim]
    exact ⟨hpadded, hdigits⟩
  intro hloose
  cases hloose with
  | statusLine hnot =>
    rw [hhead.isSection.splitLines] at hnot
    exact hnot ⟨status, hhead.statusLine⟩
  | control hfield hnot =>
    rw [hhead.rawFields] at hfield
    exact hnot (hhead.isField _ hfield).2
  | @name field hfield hnot =>
    rw [hhead.rawFields] at hfield
    have hbytes := isTokenByte_of_isHttpToken (hhead.isField _ hfield).1
    exact hnot (trimOctets_of_word fun octet hoctet =>
      (isWordByte_of_isTokenByte octet (hbytes octet hoctet)).1)
  | plus hfield hname hplus =>
    rw [hhead.rawFields] at hfield
    exact (hlength hfield hname).2.not_plus hplus
  | unread _ hfield hname hnot =>
    rw [hhead.rawFields] at hfield
    exact hnot (hlength hfield hname).2
  | length hfield hname hnot =>
    rw [hhead.rawFields] at hfield
    exact hnot (hlength hfield hname).1
  | @coding field hbody hfield hname hnot =>
    rw [hhead.rawFields] at hfield
    have hmem := mem_values.2 ⟨field, hfield, hname, rfl⟩
    cases h with
    | noBody hno => exact hbody (hbodiless hno)
    | chunked _ hcodings hvalue hword _ _ =>
      rw [hcodings, List.mem_singleton] at hmem
      rw [hmem, hvalue.trimOctets (isWordByte_of_chunked hword)] at hnot
      exact hnot hvalue
    | fixed _ hcodings _ _ => rw [hcodings] at hmem; cases hmem
    | untilEnd _ hcodings _ => rw [hcodings] at hmem; cases hmem

end

/-! ## Responses -/

section

variable {requestMethod consumed body rest : List UInt8}

/-- A response that is accepted, cut off what is behind it. -/
theorem Decoded.exists_consumed {octets : List UInt8} {head : ResponseHead}
    (h : Decoded requestMethod octets head body rest) (hoctets : octets = consumed ++ rest) :
    ∃ headOctets bodyOctets, consumed = headOctets ++ (crlf ++ crlf) ++ bodyOctets ∧
      IsFirst (crlf ++ crlf) headOctets ∧ parseHead headOctets = .ok head ∧
      Framed requestMethod head bodyOctets body rest := by
  obtain ⟨headOctets, bodyOctets, hsplit, hfirst, hparse, hframed⟩ := h.split
  exact ⟨headOctets, bodyOctets, List.append_cancel_right (hoctets.symm.trans hsplit), hfirst,
    hparse, hframed⟩

/-- A response that is accepted is one of the grammar, framed as it has been, if it is not loose. -/
theorem Decoded.isResponse {octets : List UInt8} {head : ResponseHead}
    (h : Decoded requestMethod octets head body rest) (hoctets : octets = consumed ++ rest)
    (hloose : ¬Loose requestMethod consumed) : IsResponse requestMethod consumed body rest := by
  obtain ⟨octets, bodyOctets, heq, hfirst, hparse, hframed⟩ := h.exists_consumed hoctets
  have hhead : ¬LooseHead requestMethod octets := fun h => hloose (.head hfirst heq h)
  obtain ⟨status, hline⟩ := not_not.1 fun hnot => hhead (.statusLine hnot)
  have hgrammar := isHead_of_not_loose hparse hhead hline fun hno => hframed.exists_contentLength hno
  have hsame := headOctets_rawFields hparse hfirst
  have hstatus := hgrammar.statusOf_eq (hsame ▸ (parseHead_eq_ok hparse).1)
  refine ⟨_, status, rawFields octets, bodyOctets, hgrammar, ?_, hsame ▸ heq⟩
  rw [← hstatus]
  refine hframed.isBody hparse hhead fun hno hcoded hchunks => ?_
  obtain ⟨value, hvalue⟩ := List.exists_mem_of_ne_nil _ hcoded
  obtain ⟨field, hfield, hname, -⟩ := mem_values.1 hvalue
  exact hloose (.chunks hfirst heq (mt (isBodiless_iff hparse).1 hno) ⟨field, hfield, hname⟩ hchunks)

/-- A response of the grammar that is accepted is not loose. -/
theorem IsResponse.not_loose {octets rest' body' : List UInt8} {head : ResponseHead}
    (h : IsResponse requestMethod consumed body rest)
    (hdecoded : Decoded requestMethod octets head body' rest') (hoctets : octets = consumed ++ rest') :
    ¬Loose requestMethod consumed := by
  obtain ⟨line, status, fields, bodyOctets, hhead, hbody, heq⟩ := h
  obtain ⟨octets, bodyOctets', heq', hfirst, hparse, -⟩ := hdecoded.exists_consumed hoctets
  obtain ⟨rfl, -⟩ := hfirst.unique hhead.isSection.isFirst (heq'.symm.trans heq)
  have hstatus := (parseHead_eq_ok hparse).1
  obtain rfl := hhead.statusOf_eq hstatus
  rintro (⟨hfirst', heq'', hloose⟩ | ⟨hfirst', heq'', hno, ⟨field, hfield, hname⟩, hloose⟩)
  · obtain ⟨rfl, -⟩ := hfirst'.unique hhead.isSection.isFirst (heq''.symm.trans heq)
    exact hbody.not_looseHead hhead (fun hno => ⟨_, hstatus, hno⟩) hloose
  · obtain ⟨rfl, rfl⟩ := hfirst'.unique hhead.isSection.isFirst (heq''.symm.trans heq)
    rw [hhead.rawFields] at hfield
    have hmem := mem_values.2 ⟨field, hfield, hname, rfl⟩
    cases hbody with
    | noBody hno' => exact hno ⟨_, hstatus, hno'⟩
    | chunked _ _ _ _ _ hchunks => exact hchunks.not_loose hloose
    | fixed _ hcodings _ _ => rw [hcodings] at hmem; cases hmem
    | untilEnd _ hcodings _ => rw [hcodings] at hmem; cases hmem

end

/-! ## A text has one framing -/

theorem IsStatusLine.unique {line : List UInt8} {status status' : ℕ} (h : IsStatusLine line status)
    (h' : IsStatusLine line status') : status = status' := by
  obtain ⟨major, minor, digits, reason, -, hlength, -, rfl, -, rfl⟩ := h
  obtain ⟨major', minor', digits', reason', -, hlength', -, rfl, -, heq⟩ := h'
  obtain ⟨-, hbehind⟩ := List.append_inj heq (by simp)
  rw [(List.append_inj (List.cons.inj hbehind).2 (hlength.trans hlength'.symm)).1]

theorem IsBody.unique {requestMethod octets octets' body body' rest rest' : List UInt8}
    {status : ℕ} {fields : Headers} (h : IsBody requestMethod status fields octets body rest)
    (h' : IsBody requestMethod status fields octets' body' rest')
    (heq : octets ++ rest = octets' ++ rest') : octets = octets' ∧ body = body' := by
  cases h with
  | noBody hno =>
    cases h' with
    | noBody _ => exact ⟨rfl, rfl⟩
    | chunked hbody' _ _ _ _ _ => exact absurd hno hbody'
    | fixed hbody' _ _ _ => exact absurd hno hbody'
    | untilEnd hbody' _ _ => exact absurd hno hbody'
  | chunked hbody hcodings _ _ _ hchunks =>
    cases h' with
    | noBody hno' => exact absurd hno' hbody
    | chunked _ _ _ _ _ hchunks' => exact hchunks.unique hchunks' heq
    | fixed _ hcodings' _ _ => cases hcodings'.symm.trans hcodings
    | untilEnd _ hcodings' _ => cases hcodings'.symm.trans hcodings
  | fixed hbody hcodings hne hlength =>
    cases h' with
    | noBody hno' => exact absurd hno' hbody
    | chunked _ hcodings' _ _ _ _ => cases hcodings.symm.trans hcodings'
    | fixed _ _ _ hlength' =>
      obtain ⟨value, hvalue⟩ := List.exists_mem_of_ne_nil _ hne
      obtain ⟨digits, hpadded, hdigits, hsize⟩ := hlength value hvalue
      obtain ⟨digits', hpadded', hdigits', hsize'⟩ := hlength' value hvalue
      -- Both lengths are the one in the field.
      have hword {digits : List UInt8} (hdigits : IsDigits 10 digits) :
          ∀ octet ∈ digits, IsWordByte octet := fun octet hoctet =>
        (isWordByte_of_toDigit octet (toDigit_ten octet (hdigits.2 octet hoctet))).1
      have hsame : digits = digits' :=
        (hpadded.trimOctets (hword hdigits)).symm.trans (hpadded'.trimOctets (hword hdigits'))
      obtain ⟨rfl, -⟩ := List.append_inj heq (hsize.symm.trans (hsame ▸ hsize'))
      exact ⟨rfl, rfl⟩
    | untilEnd _ _ hlength' => exact absurd hlength' hne
  | untilEnd hbody hcodings hlength =>
    cases h' with
    | noBody hno' => exact absurd hno' hbody
    | chunked _ hcodings' _ _ _ _ => cases hcodings.symm.trans hcodings'
    | fixed _ _ hne' _ => exact absurd hlength hne'
    | untilEnd _ _ _ =>
      rw [List.append_nil, List.append_nil] at heq
      exact ⟨heq, heq⟩

/-- A text begins with one response of the grammar at most. -/
theorem IsResponse.unique {requestMethod octets octets' body body' rest rest' : List UInt8}
    (h : IsResponse requestMethod octets body rest) (h' : IsResponse requestMethod octets' body' rest')
    (heq : octets ++ rest = octets' ++ rest') : octets = octets' ∧ body = body' := by
  obtain ⟨line, status, fields, bodyOctets, hhead, hbody, rfl⟩ := h
  obtain ⟨line', status', fields', bodyOctets', hhead', hbody', rfl⟩ := h'
  rw [List.append_assoc _ bodyOctets, List.append_assoc _ bodyOctets'] at heq
  obtain ⟨rfl, rfl, hbehind⟩ := hhead.isSection.unique hhead'.isSection heq
  obtain rfl := hhead.statusLine.unique hhead'.statusLine
  obtain ⟨rfl, rfl⟩ := hbody.unique hbody' hbehind
  exact ⟨rfl, rfl⟩

/-! ## Strictness -/

/-- The octets that have been taken for a response are one of the grammar, with the body that has
    been written, and there is no other one at the beginning of what was to come. -/
def IsStrict (requestMethod : List UInt8) (x x' : Exchange) (consumed : List UInt8) : Prop :=
  ∃ body, x'.written = x.written ++ body ∧
    IsResponse requestMethod consumed body x'.socket.unread ∧
    ∀ octets body' rest, x.socket.unread = octets ++ rest →
      IsResponse requestMethod octets body' rest → octets = consumed ∧ body' = body

/-- **What is accepted, and what is of the grammar.** The octets of a response that is accepted are
    a response of the grammar, framed as it has been framed, if and only if it has none of the loose
    forms. -/
theorem parseHttpResponse_isStrict_iff {limits : TransportLimits} {requestMethod : List UInt8}
    {x x' : Exchange} {result : OriginResponseHead × Bool}
    (h : parseHttpResponse limits requestMethod x = .ok result x') :
    ∃ consumed, x.socket.unread = consumed ++ x'.socket.unread ∧
      (IsStrict requestMethod x x' consumed ↔ ¬Loose requestMethod consumed) := by
  obtain ⟨head, body, hdecoded, -, -, -, hwritten⟩ := parseHttpResponse_ok h
  obtain ⟨headOctets, bodyOctets, hsplit, -⟩ := hdecoded.split
  refine ⟨headOctets ++ (crlf ++ crlf) ++ bodyOctets, hsplit, ?_⟩
  constructor
  · rintro ⟨body', -, hresponse, -⟩
    exact hresponse.not_loose hdecoded hsplit
  · intro hloose
    have hresponse := hdecoded.isResponse hsplit hloose
    refine ⟨body, hwritten, hresponse, fun octets body' rest hoctets hresponse' => ?_⟩
    exact hresponse'.unique hresponse (hoctets.symm.trans hsplit)

/-! ## Samples -/

namespace StrictSample

open ReceivedSample (limits socket)

/-- A response in chunks is accepted. -/
theorem isStrict_chunked :
    ∃ x' consumed, (socket (ReceivedSample.chunked.encode ++ [0x48]) .single).socket.unread =
        consumed ++ x'.socket.unread ∧ x'.socket.unread = [0x48] ∧
      (IsStrict (utf8 (Chars.of "GET")) (socket (ReceivedSample.chunked.encode ++ [0x48]) .single) x'
        consumed ↔ ¬Loose (utf8 (Chars.of "GET")) consumed) := by
  have hparse := @parseHttpResponse_encode _ (socket (ReceivedSample.chunked.encode ++ [0x48]) .single)
    ReceivedSample.chunked limits
    ⟨by decide +kernel, by decide +kernel, by decide +kernel, by decide +kernel⟩
    ⟨fromUtf8_of_ascii (by decide +kernel), fun line hline => fromUtf8_of_ascii
      ((show ∀ line ∈ ReceivedSample.chunked.body.lines, line.all (·.toNat < 128) by
        decide +kernel) line hline)⟩ rfl [0x48] rfl
  obtain ⟨consumed, hconsumed, hiff⟩ := parseHttpResponse_isStrict_iff hparse
  exact ⟨_, consumed, hconsumed, rfl, hiff⟩

/-- `Content-Length:+1`. -/
def head : WireHead := ReceivedSample.head 200 ReceivedSample.isStatus_ok
  [(utf8 (Chars.of "Content-Length"), utf8 (Chars.of "+1"))] (by decide +kernel)

/-- It, and an octet. -/
def x : Exchange := socket (head.encode ++ (crlf ++ crlf) ++ [0x78] ++ []) .single

theorem parseHttpResponse_plus :
    ∃ result, parseHttpResponse limits (utf8 (Chars.of "GET")) x = .ok result (x.goOn [] [0x78]) := by
  have hread := @WireHead.readHeaderBytes_encode head 256 (by decide +kernel) ([0x78] ++ []) x
    (List.append_assoc _ _ _)
  have hparse := head.parseHead_encode (fromUtf8_of_ascii (by decide +kernel))
  have htrim : trimOctets (utf8 (Chars.of "+1")) = utf8 (Chars.of "+1") :=
    trimOctets_of_word (by decide +kernel)
  have hheaders : head.read.headers =
      [(utf8 (Chars.of "Content-Length"), utf8 (Chars.of "+1"))] := by
    rw [← htrim]
    rfl
  have hcodings : transferEncoding head.read.headers = .ok none :=
    transferEncoding_of_nil (by rw [hheaders]; decide +kernel)
  have hlength : contentLength head.read.headers = .ok (some 1) := by
    rw [hheaders]
    exact contentLength_eq (by decide +kernel) (by decide +kernel)
  have hbody : readBodyToWriter limits (utf8 (Chars.of "GET")) head.read (x.setUnread ([0x78] ++ [])) =
      .ok (1, true) (x.goOn [] [0x78]) := by
    have hno : ¬responseHasNoBody (utf8 (Chars.of "GET")) head.read.status = true := by
      decide +kernel
    rw [readBodyToWriter, if_neg hno, checked_bind, hcodings]
    dsimp only
    rw [checked_bind, hlength]
    dsimp only
    have hcopy := @copyBlocks_eq (x.setUnread ([0x78] ++ [])) rfl 1 [0x78] [] le_rfl rfl
    exact bind_ok (bind_ok hcopy)
  have hrest : checked (parseHead head.encode) (x.setUnread ([0x78] ++ [])) =
      .ok head.read (x.setUnread ([0x78] ++ [])) := by
    rw [hparse]
    rfl
  exact ⟨_, (bind_ok hread).trans ((bind_ok hrest).trans (bind_ok hbody))⟩

/-- It is accepted, although a length begins with no plus sign. -/
theorem not_isStrict :
    ¬∀ limits requestMethod x x' result,
      parseHttpResponse limits requestMethod x = .ok result x' →
      ∃ consumed, x.socket.unread = consumed ++ x'.socket.unread ∧
        IsStrict requestMethod x x' consumed := by
  intro h
  obtain ⟨result, hparse⟩ := parseHttpResponse_plus
  obtain ⟨consumed, hconsumed, body', -, hresponse, -⟩ := h _ _ _ _ _ hparse
  obtain ⟨decoded, body, hdecoded, -⟩ := parseHttpResponse_ok hparse
  refine hresponse.not_loose hdecoded hconsumed ?_
  have hsame : consumed = head.encode ++ (crlf ++ crlf) ++ [0x78] :=
    (List.append_cancel_right hconsumed).symm
  have hraw : rawFields head.encode =
      [(utf8 (Chars.of "Content-Length"), utf8 (Chars.of "+1"))] := by
    decide +kernel
  refine .head (first_empty_line head.lines_ne_nil head.cr_not_mem head.ne_nil_of_mem_lines) hsame ?_
  refine .plus (hraw ▸ List.mem_singleton_self _) (by decide +kernel) ?_
  dsimp only
  rw [trimOctets_of_word (by decide +kernel)]
  decide +kernel

end StrictSample

end Http11

end Hns
