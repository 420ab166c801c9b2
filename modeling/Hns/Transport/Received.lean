import Hns.Transport.Wire

/-!
# Responses that are received

How an honest server frames the body of a response: with its length, in chunks, or
with none where there can be none (`WireBody.Frames`). Such a response is read as
it has been sent, and nothing of what comes behind it (`parseHttpResponse_encode`).
-/

namespace Hns

open Except EStateM

namespace Http11

/-! ## Bodies on the wire -/

/-- A chunk: the digits of its size, a chunk extension, and its octets. -/
structure WireChunk where
  digits : List UInt8
  extension : List UInt8
  data : List UInt8
  digits_ok : IsDigits 16 digits ∧ digitsValue 16 digits = data.length
  extension_ok : IsLine extension ∧ (extension = [] ∨ ∃ before text,
    IsOwsBytes before ∧ extension = before ++ 0x3b :: text)

namespace WireChunk

def line (chunk : WireChunk) : List UInt8 := chunk.digits ++ chunk.extension

def encode (chunk : WireChunk) : List UInt8 := chunk.line ++ crlf ++ chunk.data ++ crlf

end WireChunk

/-- Chunks, the last one, which is empty, and the lines of the trailer section. -/
structure WireChunks where
  chunks : List WireChunk
  last : WireChunk
  trailers : List (List UInt8)
  chunks_ok : ∀ chunk ∈ chunks, chunk.data ≠ []
  last_ok : last.data = []
  trailers_ok : ∀ line ∈ trailers, IsLine line ∧ line ≠ []

namespace WireChunks

def encodeTrailers (trailers : List (List UInt8)) : List UInt8 :=
  trailers.flatMap (fun line => line ++ crlf) ++ crlf

def encode (w : WireChunks) : List UInt8 :=
  w.chunks.flatMap WireChunk.encode ++ (w.last.line ++ crlf) ++ encodeTrailers w.trailers

def data (w : WireChunks) : List UInt8 := w.chunks.flatMap WireChunk.data

/-- The lines with the sizes, and those of the trailers. -/
def lines (w : WireChunks) : List (List UInt8) :=
  (w.chunks.map WireChunk.line ++ [w.last.line]) ++ w.trailers

end WireChunks

inductive WireBody
  | none
  | fixed (octets : List UInt8)
  | chunked (w : WireChunks)

namespace WireBody

def encode : WireBody → List UInt8
  | none => []
  | fixed octets => octets
  | chunked w => w.encode

/-- What the body is decoded to. -/
def data : WireBody → List UInt8
  | none => []
  | fixed octets => octets
  | chunked w => w.data

/-- The body is framed as the head says. -/
def Frames (requestMethod : List UInt8) (head : WireHead) : WireBody → Prop
  | none => responseHasNoBody requestMethod head.status
  | fixed octets => ¬responseHasNoBody requestMethod head.status ∧
      values head.fields transferEncodingName = [] ∧ values head.fields contentLengthName ≠ [] ∧
      ∀ value ∈ values head.fields contentLengthName, ∃ digits, IsPadded value digits ∧
        IsDigits 10 digits ∧ digitsValue 10 digits = octets.length
  | chunked _ => ¬responseHasNoBody requestMethod head.status ∧
      values head.fields contentLengthName = [] ∧
      ∃ value word, values head.fields transferEncodingName = [value] ∧ IsPadded value word ∧
        eqIgnoreCase word (utf8 (Chars.of "chunked"))

/-- The lines between the data. -/
def lines : WireBody → List (List UInt8)
  | chunked w => w.lines
  | _ => []

end WireBody

/-- A response as it is sent. -/
structure WireResponse (requestMethod : List UInt8) where
  head : WireHead
  body : WireBody
  frames : body.Frames requestMethod head

namespace WireResponse

variable {requestMethod : List UInt8}

def encode (response : WireResponse requestMethod) : List UInt8 :=
  response.head.encode ++ (crlf ++ crlf) ++ response.body.encode

/-- The response is within the limits. -/
structure Within (response : WireResponse requestMethod) (limits : TransportLimits) : Prop where
  head : response.head.encode.length + 4 ≤ limits.maxResponseHeaderBytes
  body : response.body.data.length ≤ limits.maxResponseBodyBytes
  body_lt : response.body.data.length < 2 ^ 64
  lines : ∀ line ∈ response.body.lines, line.length + 2 ≤ 8192

/-- What is not data is text. -/
structure IsText (response : WireResponse requestMethod) : Prop where
  head : fromUtf8 response.head.encode ≠ Option.none
  lines : ∀ line ∈ response.body.lines, fromUtf8 line ≠ Option.none

/-- A connection may be kept behind the response. -/
def reusable (response : WireResponse requestMethod) : Bool :=
  eqIgnoreCase response.head.version (utf8 (Chars.of "HTTP/1.1")) &&
    !connectionClose response.head.read.headers

end WireResponse

/-! ## Reading a body -/

/-- The state behind some octets that have been read, with others that have been written. -/
def Exchange.goOn (x : Exchange) (unread out : List UInt8) : Exchange :=
  { x.setUnread unread with written := x.written ++ out }

@[simp] theorem Exchange.goOn_goOn (x : Exchange) (unread unread' out out' : List UInt8) :
    (x.goOn unread out).goOn unread' out' = x.goOn unread' (out ++ out') := by
  simp [goOn, setUnread]

theorem Exchange.setUnread_eq_goOn (x : Exchange) (unread : List UInt8) :
    x.setUnread unread = x.goOn unread [] := by
  simp [goOn, setUnread]

section

variable {x : Exchange}

theorem readExact_eq {octets rest : List UInt8} (hunread : x.socket.unread = octets ++ rest) :
    readExact octets.length x = .ok octets (x.setUnread rest) := by
  rw [readExact, hunread, if_neg (by simp), List.take_left, List.drop_left]

theorem writeAll_eq (hwriter : x.writer = Writer.total) (octets : List UInt8) :
    writeAll octets x = .ok () { x with written := x.written ++ octets } := by
  rw [writeAll, hwriter]
  rfl

theorem copyBlocks_eq (hwriter : x.writer = Writer.total) {fuel : ℕ} {data rest : List UInt8}
    (hfuel : data.length ≤ fuel) (hunread : x.socket.unread = data ++ rest) :
    copyBlocks fuel data.length x = .ok () (x.goOn rest data) := by
  induction fuel generalizing x data with
  | zero =>
    obtain rfl := List.eq_nil_of_length_eq_zero (Nat.le_zero.1 hfuel)
    rw [List.nil_append] at hunread
    rw [← hunread]
    simp [copyBlocks, Exchange.goOn, Exchange.setUnread]
    rfl
  | succ fuel ih =>
    rw [copyBlocks]
    split_ifs with hzero
    · obtain rfl := List.eq_nil_of_length_eq_zero hzero
      rw [List.nil_append] at hunread
      rw [← hunread]
      simp [Exchange.goOn, Exchange.setUnread]
      rfl
    · have hcount : 0 < min data.length bufferLen :=
        lt_min (Nat.pos_of_ne_zero hzero) (by decide)
      -- A block is read and written, then the others are.
      obtain ⟨block, others, rfl, hblock⟩ : ∃ block others, data = block ++ others ∧
          block.length = min data.length bufferLen :=
        ⟨_, _, (List.take_append_drop (min data.length bufferLen) data).symm,
          List.length_take_of_le (min_le_left _ _)⟩
      rw [List.append_assoc] at hunread
      have hwrite := @writeAll_eq (x.setUnread (others ++ rest)) hwriter block
      rw [← hblock, bind_ok (readExact_eq hunread), bind_ok hwrite, List.length_append,
        Nat.add_sub_cancel_left]
      refine (@ih (x.goOn (others ++ rest) block) hwriter others ?_ rfl).trans ?_
      · rw [List.length_append] at hfuel
        omega
      · simp [Exchange.goOn, Exchange.setUnread]

theorem length_trailers_le (trailers : List (List UInt8)) :
    trailers.length ≤ (WireChunks.encodeTrailers trailers).length := by
  induction trailers with
  | nil => exact Nat.zero_le _
  | cons line trailers ih =>
    simp only [WireChunks.encodeTrailers, List.flatMap_cons, List.length_append,
      List.length_cons] at ih ⊢
    have hcrlf : crlf.length = 2 := rfl
    omega

theorem readTrailers_eq {trailers : List (List UInt8)}
    (hlines : ∀ line ∈ trailers, IsLine line ∧ line ≠ [])
    (htext : ∀ line ∈ trailers, fromUtf8 line ≠ none)
    (hshort : ∀ line ∈ trailers, line.length + 2 ≤ 8192) {fuel : ℕ}
    (hfuel : trailers.length < fuel) {rest : List UInt8}
    (hunread : x.socket.unread = WireChunks.encodeTrailers trailers ++ rest) :
    readTrailers fuel x = .ok () (x.goOn rest []) := by
  induction trailers generalizing fuel x with
  | nil =>
    cases fuel with
    | zero => exact absurd hfuel (Nat.not_lt_zero _)
    | succ fuel =>
      have hempty : IsLine [] := ⟨List.not_mem_nil, List.not_mem_nil⟩
      have hnil : fromUtf8 [] ≠ none := by
        rw [show ([] : List UInt8) = utf8 [] from rfl, fromUtf8_utf8]
        exact Option.some_ne_none _
      have hread := @readCrlfLine_eq [] rest hempty hnil 8192 (by decide) x hunread
      rw [readTrailers, bind_ok hread, if_pos rfl, Exchange.setUnread_eq_goOn]
      rfl
  | cons line trailers ih =>
    rw [List.forall_mem_cons] at hlines htext hshort
    cases fuel with
    | zero => exact absurd hfuel (Nat.not_lt_zero _)
    | succ fuel =>
      have hnext : x.socket.unread =
          line ++ crlf ++ (WireChunks.encodeTrailers trailers ++ rest) := by
        rw [hunread]
        simp [WireChunks.encodeTrailers]
      have hread := readCrlfLine_eq hlines.1.1 htext.1 hshort.1 hnext
      rw [readTrailers, bind_ok hread, if_neg hlines.1.2,
        ih hlines.2 htext.2 hshort.2 (Nat.lt_of_succ_lt_succ hfuel) rfl, Exchange.setUnread_eq_goOn]
      simp

namespace WireChunk

variable (chunk : WireChunk)

theorem isLine : IsLine chunk.line := by
  have hdigits := fun octet hoctet => isWordByte_of_toDigit octet (chunk.digits_ok.1.2 octet hoctet)
  simp only [IsLine, line, List.mem_append, not_or]
  exact ⟨⟨fun h => (hdigits _ h).2.2.1 rfl, chunk.extension_ok.1.1⟩,
    fun h => (hdigits _ h).2.2.2 rfl, chunk.extension_ok.1.2⟩

/-- What is before the semicolon are the digits, and white space maybe. -/
theorem isPadded_digits : IsPadded (chunk.line.takeWhile (· ≠ 0x3b)) chunk.digits := by
  have hsemicolon : ∀ octet ∈ chunk.digits, decide (octet ≠ 0x3b) = true := fun octet hoctet =>
    decide_eq_true (isWordByte_of_toDigit octet (chunk.digits_ok.1.2 octet hoctet)).2.1
  have hnil : IsOwsBytes [] := fun _ h => absurd h List.not_mem_nil
  rw [line, List.takeWhile_append_of_pos hsemicolon]
  rcases chunk.extension_ok.2 with hextension | ⟨before, text, hbefore, hextension⟩
  · exact ⟨[], [], hnil, hnil, by rw [hextension]; simp⟩
  · have hows : ∀ octet ∈ before, decide (octet ≠ 0x3b) = true := by
      intro octet hoctet
      rcases hbefore octet hoctet with rfl | rfl <;> decide
    refine ⟨[], before, hnil, hbefore, ?_⟩
    rw [hextension, List.takeWhile_append_of_pos hows]
    simp

theorem trimOctets_line : trimOctets (chunk.line.takeWhile (· ≠ 0x3b)) = chunk.digits :=
  chunk.isPadded_digits.trimOctets fun octet hoctet =>
    (isWordByte_of_toDigit octet (chunk.digits_ok.1.2 octet hoctet)).1

/-- The size of a chunk is read as it has been written. -/
theorem chunkSize_line (h : chunk.data.length < 2 ^ 64) :
    chunkSize chunk.line = .ok chunk.data.length := by
  obtain ⟨hdigits, hvalue⟩ := chunk.digits_ok
  rw [chunkSize, trimOctets_line, fromStrRadix_eq (by decide) (by decide) hdigits, hvalue, if_pos h]
  rfl

end WireChunk

theorem readChunks_eq (hwriter : x.writer = Writer.total) {w : WireChunks}
    (htext : ∀ line ∈ w.lines, fromUtf8 line ≠ none)
    (hshort : ∀ line ∈ w.lines, line.length + 2 ≤ 8192) {limit fuel total : ℕ}
    (hlimit : total + w.data.length ≤ limit) (hlt : total + w.data.length < 2 ^ 64)
    (hfuel : w.chunks.length < fuel) {rest : List UInt8}
    (hunread : x.socket.unread = w.encode ++ rest) :
    readChunks limit fuel total x = .ok (total + w.data.length) (x.goOn rest w.data) := by
  obtain ⟨chunks, last, trailers, hchunks, hlast, htrailers⟩ := w
  induction chunks generalizing fuel total x with
  | nil =>
    obtain _ | fuel := fuel
    · exact absurd hfuel (Nat.not_lt_zero _)
    have hnext : x.socket.unread =
        last.line ++ crlf ++ (WireChunks.encodeTrailers trailers ++ rest) := by
      rw [hunread]
      simp [WireChunks.encode]
    have hmem : last.line ∈ (WireChunks.mk [] last trailers hchunks hlast htrailers).lines := by
      simp [WireChunks.lines]
    have hread := readCrlfLine_eq last.isLine (htext _ hmem) (hshort _ hmem) hnext
    have hsize : chunkSize last.line = .ok 0 := by
      rw [last.chunkSize_line (by simp [hlast]), hlast]
      rfl
    have hfuel' : trailers.length < (WireChunks.encodeTrailers trailers ++ rest).length + 1 := by
      have hle := length_trailers_le trailers
      rw [List.length_append]
      omega
    have htrail := @readTrailers_eq (x.setUnread (WireChunks.encodeTrailers trailers ++ rest))
      trailers htrailers (fun line hmem => htext line (List.mem_append_right _ hmem))
      (fun line hmem => hshort line (List.mem_append_right _ hmem)) _ hfuel' rest rfl
    rw [readChunks, bind_ok hread, checked_bind, hsize]
    dsimp only
    rw [if_pos rfl]
    refine (bind_ok (show (get : HttpM Exchange) _ = .ok _ _ from rfl)).trans ?_
    refine (bind_ok htrail).trans ?_
    rw [Exchange.setUnread_eq_goOn, Exchange.goOn_goOn]
    rfl
  | cons chunk chunks ih =>
    obtain _ | fuel := fuel
    · exact absurd hfuel (Nat.not_lt_zero _)
    have hchunks' := List.forall_mem_cons.1 hchunks
    obtain ⟨others, hothers⟩ : ∃ others : WireChunks, others =
      ⟨chunks, last, trailers, hchunks'.2, hlast, htrailers⟩ := ⟨_, rfl⟩
    have hdata : (WireChunks.mk (chunk :: chunks) last trailers hchunks hlast htrailers).data =
        chunk.data ++ others.data := by rw [hothers]; rfl
    have hnext : x.socket.unread =
        chunk.line ++ crlf ++ (chunk.data ++ (crlf ++ (others.encode ++ rest))) := by
      rw [hunread, hothers]
      simp [WireChunks.encode, WireChunk.encode]
    rw [hdata, List.length_append] at hlimit hlt
    have hlines : (WireChunks.mk (chunk :: chunks) last trailers hchunks hlast htrailers).lines =
        chunk.line :: others.lines := by rw [hothers]; rfl
    rw [hlines, List.forall_mem_cons] at htext hshort
    have hread := readCrlfLine_eq chunk.isLine htext.1 hshort.1 hnext
    have hne : chunk.data.length ≠ 0 := fun h => hchunks'.1 (List.eq_nil_of_length_eq_zero h)
    have hchecked : checkedBodyLen total chunk.data.length limit =
        .ok (total + chunk.data.length) := if_pos ⟨by omega, by omega⟩
    have hcopy := @copyBlocks_eq (x.goOn (chunk.data ++ (crlf ++ (others.encode ++ rest))) []) hwriter
      _ chunk.data (crlf ++ (others.encode ++ rest)) le_rfl rfl
    have hend := @readExact_eq (x.goOn (crlf ++ (others.encode ++ rest)) chunk.data) crlf
      (others.encode ++ rest) rfl
    have hrest := @ih (x.goOn (others.encode ++ rest) chunk.data) hwriter fuel
      (total + chunk.data.length) hchunks'.2 (hothers ▸ htext.2) (hothers ▸ hshort.2) ?_ ?_
      (Nat.lt_of_succ_lt_succ hfuel) (by rw [← hothers]; rfl)
    · rw [← hothers, Exchange.goOn_goOn, Nat.add_assoc, ← List.length_append, ← hdata] at hrest
      rw [readChunks, bind_ok hread, checked_bind, chunk.chunkSize_line (by omega)]
      dsimp only
      rw [if_neg hne, checked_bind, hchecked, Exchange.setUnread_eq_goOn]
      dsimp only
      rw [Exchange.goOn_goOn, List.nil_append] at hcopy
      refine (bind_ok hcopy).trans ?_
      refine (bind_ok hend).trans ?_
      rw [Exchange.setUnread_eq_goOn, Exchange.goOn_goOn, List.append_nil]
      exact hrest
    · rw [← hothers]
      omega
    · rw [← hothers]
      omega

end


/-! ## Reading a response -/

theorem values_read (head : WireHead) (name : List UInt8) :
    values head.read.headers name = (values head.fields name).map trimOctets := by
  rw [values, values, WireHead.read, List.filter_map, List.map_map, List.map_map]
  rfl

theorem contentLengthLoop_eq {given : List (List UInt8)} {length : ℕ}
    (h : ∀ value ∈ given, fromStrRadix 10 (2 ^ 64) value = some length) :
    contentLengthLoop given (some length) = .ok (some length) := by
  induction given with
  | nil => rfl
  | cons value given ih =>
    rw [List.forall_mem_cons] at h
    rw [contentLengthLoop, h.1, ofOption_some, ok_bind, ← ih h.2]
    simp

theorem contentLength_eq {headers : Headers} {length : ℕ}
    (hne : values headers contentLengthName ≠ [])
    (h : ∀ value ∈ values headers contentLengthName,
      fromStrRadix 10 (2 ^ 64) value = some length) :
    contentLength headers = .ok (some length) := by
  rw [contentLength]
  cases hvalues : values headers contentLengthName with
  | nil => exact absurd hvalues hne
  | cons value given =>
    rw [hvalues, List.forall_mem_cons] at h
    rw [contentLengthLoop, h.1, ofOption_some, ok_bind, ← contentLengthLoop_eq h.2]
    simp

theorem contentLength_of_nil {headers : Headers} (h : values headers contentLengthName = []) :
    contentLength headers = .ok none := by
  rw [contentLength, h]
  rfl

theorem transferEncoding_of_nil {headers : Headers}
    (h : values headers transferEncodingName = []) : transferEncoding headers = .ok none := by
  rw [transferEncoding, h]
  rfl

theorem transferEncoding_of_chunked {headers : Headers} {word : List UInt8}
    (h : values headers transferEncodingName = [word]) (hword : trimOctets word = word)
    (hchunked : eqIgnoreCase word (utf8 (Chars.of "chunked"))) :
    transferEncoding headers = .ok (some [.chunked]) := by
  have hcomma : 0x2c ∉ word := by
    intro hmem
    have hlower := List.mem_map_of_mem (f := toAsciiLowercase) hmem
    rw [of_decide_eq_true hchunked] at hlower
    exact absurd hlower (by decide +kernel)
  have hne : word ≠ [] := by
    rintro rfl
    exact absurd hchunked (by decide +kernel)
  have hcoding : transferCoding word = .ok .chunked := by
    rw [transferCoding, hword, if_neg hne, if_pos hchunked]
  rw [transferEncoding, h, List.flatMap_singleton, List.splitOn_eq_singleton hcomma,
    List.mapM_cons, hcoding]
  rfl

theorem length_chunks_le {chunks : List WireChunk} (h : ∀ chunk ∈ chunks, chunk.data ≠ []) :
    chunks.length ≤ (chunks.flatMap WireChunk.data).length := by
  induction chunks with
  | nil => exact Nat.zero_le _
  | cons chunk chunks ih =>
    rw [List.forall_mem_cons] at h
    have hpos := List.length_pos_of_ne_nil h.1
    have hrest := ih h.2
    rw [List.flatMap_cons, List.length_append, List.length_cons]
    omega

theorem isWordByte_of_chunked {word : List UInt8}
    (h : eqIgnoreCase word (utf8 (Chars.of "chunked"))) : ∀ octet ∈ word, IsWordByte octet := by
  intro octet hoctet
  have hlower := List.mem_map_of_mem (f := toAsciiLowercase) hoctet
  rw [of_decide_eq_true h] at hlower
  have hletter : ∀ octet : UInt8,
      toAsciiLowercase octet ∈ (utf8 (Chars.of "chunked")).map toAsciiLowercase →
        IsWordByte octet :=
    UInt8.forall_of_lt (by decide +kernel)
  exact hletter octet hlower

section

variable {requestMethod : List UInt8} {x : Exchange}

theorem readBodyToWriter_eq {head : WireHead} {body : WireBody}
    (hframes : body.Frames requestMethod head) {limits : TransportLimits}
    (hbody : body.data.length ≤ limits.maxResponseBodyBytes) (hlt : body.data.length < 2 ^ 64)
    (htext : ∀ line ∈ body.lines, fromUtf8 line ≠ none)
    (hshort : ∀ line ∈ body.lines, line.length + 2 ≤ 8192) (hwriter : x.writer = Writer.total)
    {rest : List UInt8}
    (hunread : x.socket.unread = body.encode ++ rest) :
    readBodyToWriter limits requestMethod head.read x =
      .ok (body.data.length, true) (x.goOn rest body.data) := by
  cases body with
  | none =>
    have hno : responseHasNoBody requestMethod head.read.status = true := hframes
    rw [readBodyToWriter, if_pos hno]
    have hrest : x.socket.unread = rest := hunread
    rw [← hrest]
    simp [WireBody.data, Exchange.goOn, Exchange.setUnread]
    rfl
  | fixed octets =>
    obtain ⟨hno, hcodings, hne, hlength⟩ := hframes
    have hlt' : octets.length < 2 ^ 64 := hlt
    have hno' : ¬responseHasNoBody requestMethod head.read.status = true := hno
    have hte : transferEncoding head.read.headers = .ok none :=
      transferEncoding_of_nil (by rw [values_read, hcodings]; rfl)
    have hcl : contentLength head.read.headers = .ok (some octets.length) := by
      refine contentLength_eq (by rw [values_read]; simpa using hne) fun value hvalue => ?_
      rw [values_read] at hvalue
      obtain ⟨given, hgiven, rfl⟩ := List.mem_map.1 hvalue
      obtain ⟨digits, hpadded, hdigits, heq⟩ := hlength given hgiven
      rw [hpadded.trimOctets fun octet hoctet =>
        (isWordByte_of_toDigit octet (toDigit_ten octet (hdigits.2 octet hoctet))).1,
        fromStrRadix_eq (by decide) (by decide) hdigits, heq, if_pos hlt']
    rw [readBodyToWriter, if_neg hno', checked_bind, hte]
    dsimp only
    rw [checked_bind, hcl]
    dsimp only
    have hread : readFixedBodyToWriter octets.length limits.maxResponseBodyBytes x =
        .ok octets.length (x.goOn rest octets) := by
      rw [readFixedBodyToWriter, if_neg (not_lt.2 (show octets.length ≤ _ from hbody))]
      exact bind_ok (copyBlocks_eq hwriter le_rfl hunread)
    exact bind_ok hread
  | chunked w =>
    obtain ⟨hno, hlength, value, word, hvalues, hpadded, hchunked⟩ := hframes
    have hno' : ¬responseHasNoBody requestMethod head.read.status = true := hno
    have hword := isWordByte_of_chunked hchunked
    have hte : transferEncoding head.read.headers = .ok (some [.chunked]) := by
      refine transferEncoding_of_chunked ?_ (trimOctets_of_word hword) hchunked
      rw [values_read, hvalues, List.map_singleton, hpadded.trimOctets hword]
    have hcl : contentLength head.read.headers = .ok none :=
      contentLength_of_nil (by rw [values_read, hlength]; rfl)
    have hcount : w.chunks.length < limits.maxResponseBodyBytes + 1 := by
      exact Nat.lt_succ_of_le ((length_chunks_le w.chunks_ok).trans hbody)
    have hread := @readChunks_eq x hwriter w htext hshort limits.maxResponseBodyBytes _ 0
      (by rw [Nat.zero_add]; exact hbody) (by rw [Nat.zero_add]; exact hlt) hcount rest hunread
    rw [readBodyToWriter, if_neg hno', checked_bind, hte]
    dsimp only
    rw [checked_bind, hcl]
    dsimp only
    rw [Nat.zero_add] at hread
    exact bind_ok hread

/-- **A response is read as it has been sent**, and no more than the response. -/
theorem parseHttpResponse_encode (response : WireResponse requestMethod) {limits : TransportLimits}
    (hwithin : response.Within limits) (htext : response.IsText)
    (hwriter : x.writer = Writer.total) {rest : List UInt8}
    (hunread : x.socket.unread = response.encode ++ rest) :
    parseHttpResponse limits requestMethod x =
      .ok ({
        status := UInt16.ofNat response.head.status
        headers := response.head.read.headers
        bodyLen := response.body.data.length
        daneDecision := .noTlsa
        tlsInspection := none }, response.reusable) (x.goOn rest response.body.data) := by
  have hhead := @WireHead.readHeaderBytes_encode response.head _ hwithin.head
    (response.body.encode ++ rest) x (by rw [hunread, WireResponse.encode, List.append_assoc])
  have hbody := @readBodyToWriter_eq _ (x.setUnread (response.body.encode ++ rest)) _ _
    response.frames limits hwithin.body hwithin.body_lt htext.lines hwithin.lines hwriter rest rfl
  rw [parseHttpResponse, bind_ok hhead, checked_bind, response.head.parseHead_encode htext.head]
  dsimp only
  refine (bind_ok hbody).trans ?_
  rw [Exchange.setUnread_eq_goOn, Exchange.goOn_goOn, List.nil_append]
  simp only [WireResponse.reusable, Bool.and_true]
  rfl

end

end Http11

end Hns
