import Hns.Core.Utf8
import Hns.Dns.Name
import Hns.Transport.State

/-!
# Reading an HTTP/1.1 response

`parse_http_response_to_writer_reusable` of `hns-transport`: the head of a
response is read octet by octet from a socket, up to the empty line, and the
body behind it in the way the head says, block by block into a writer.

A socket is what is still to come of it: the octets, what happens behind the last
one, and how the octets are cut for a read that takes what there is. Texts stay
the octets they came in.
-/

namespace Hns

open Except EStateM

open DnsName (trim)

structure TransportLimits where
  maxRequestBodyBytes : ℕ
  maxResponseHeaderBytes : ℕ
  maxResponseBodyBytes : ℕ

/-! ## Texts -/

namespace Http11

def cr : UInt8 := 0x0d

def lf : UInt8 := 0x0a

def crlf : List UInt8 := [cr, lf]

/-- `trim` of the text of some octets. -/
def trimOctets (octets : List UInt8) : List UInt8 :=
  match fromUtf8 octets with
  | some text => utf8 (trim text)
  | none => octets

/-- `trim_matches`. -/
def trimMatches (p : Char → Bool) (text : List Char) : List Char :=
  DnsName.trimEndMatches p (text.dropWhile p)

/-- `eq_ignore_ascii_case`. -/
def eqIgnoreCase (a b : List UInt8) : Bool := a.map toAsciiLowercase = b.map toAsciiLowercase

/-- `split` at the line ends: the lines, the last one too. -/
def splitLines : List UInt8 → List (List UInt8)
  | [] => [[]]
  | [octet] => [[octet]]
  | octet :: octet' :: rest =>
    if octet = cr ∧ octet' = lf then [] :: splitLines rest
    else
      match splitLines (octet' :: rest) with
      | line :: lines => (octet :: line) :: lines
      | [] => [[octet]]

/-- `split_once`. -/
def splitOnce {α : Type} [DecidableEq α] (separator : α) (text : List α) :
    Option (List α × List α) :=
  if separator ∈ text then
    some (text.takeWhile (· ≠ separator), (text.dropWhile (· ≠ separator)).drop 1)
  else none

/-- `to_digit`. -/
def toDigit (radix : ℕ) (octet : UInt8) : Option ℕ :=
  let digit := octet.toNat
  let value :=
    if 0x30 ≤ digit ∧ digit ≤ 0x39 then digit - 0x30
    else if 0x41 ≤ digit ∧ digit ≤ 0x5a then digit - 0x41 + 10
    else if 0x61 ≤ digit ∧ digit ≤ 0x7a then digit - 0x61 + 10
    else radix
  if value < radix then some value else none

/-- The loop of `from_str_radix`, for a type of numbers below `bound`. -/
def parseDigits (radix bound : ℕ) : List UInt8 → ℕ → Option ℕ
  | [], value => some value
  | octet :: octets, value => do
    let digit ← toDigit radix octet
    let value := value * radix + digit
    if value < bound then parseDigits radix bound octets value else none

/-- `from_str_radix`: a plus sign is allowed. -/
def fromStrRadix (radix bound : ℕ) : List UInt8 → Option ℕ
  | [] => none
  | octet :: octets =>
    if octet = 0x2b then
      if octets = [] then none else parseDigits radix bound octets 0
    else parseDigits radix bound (octet :: octets) 0

/-- An octet of a token. -/
def isTokenByte (byte : UInt8) : Bool :=
  isAsciiAlphanumeric byte ∨
    byte ∈ [0x21, 0x23, 0x24, 0x25, 0x26, 0x27, 0x2a, 0x2b, 0x2d, 0x2e, 0x5e, 0x5f, 0x60, 0x7c, 0x7e]

def isHttpToken (value : List UInt8) : Bool := value ≠ [] ∧ value.all isTokenByte

abbrev Headers := List (List UInt8 × List UInt8)

def hasHeaderToken (value expected : List UInt8) : Bool :=
  (value.splitOn 0x2c).any fun token => eqIgnoreCase (trimOctets token) expected

/-- The values of the headers of a name. -/
def values (headers : Headers) (name : List UInt8) : List (List UInt8) :=
  (headers.filter fun header => eqIgnoreCase header.1 name).map Prod.snd

def contentLengthName : List UInt8 := utf8 (Chars.of "content-length")

def transferEncodingName : List UInt8 := utf8 (Chars.of "transfer-encoding")

def connectionName : List UInt8 := utf8 (Chars.of "connection")

/-- The loop of `content_length`, with the value so far. -/
def contentLengthLoop : List (List UInt8) → Option ℕ → Except TransportError (Option ℕ)
  | [], value => .ok value
  | headerValue :: rest, value => do
    let parsed ← ofOption .malformedResponse (fromStrRadix 10 (2 ^ 64) headerValue)
    if value.any fun existing => existing ≠ parsed then throw .malformedResponse
    contentLengthLoop rest (some parsed)

def contentLength (headers : Headers) : Except TransportError (Option ℕ) :=
  contentLengthLoop (values headers contentLengthName) none

def connectionClose (headers : Headers) : Bool :=
  (values headers connectionName).any fun value => hasHeaderToken value (utf8 (Chars.of "close"))

inductive TransferCoding
  | chunked
  | unsupported
  deriving DecidableEq

/-- The coding of one part of a `Transfer-Encoding` value. -/
def transferCoding (coding : List UInt8) : Except TransportError TransferCoding :=
  let coding := trimOctets coding
  if coding = [] then .error .malformedResponse
  else if eqIgnoreCase coding (utf8 (Chars.of "chunked")) then .ok .chunked
  else .ok .unsupported

def transferEncoding (headers : Headers) : Except TransportError (Option (List TransferCoding)) := do
  let codings ← ((values headers transferEncodingName).flatMap fun value =>
    value.splitOn 0x2c).mapM transferCoding
  return if codings = [] then none else some codings

def responseHasNoBody (requestMethod : List UInt8) (status : ℕ) : Bool :=
  eqIgnoreCase requestMethod (utf8 (Chars.of "HEAD")) ∨ (100 ≤ status ∧ status < 200) ∨
    status = 204 ∨ status = 304

/-! ## The socket and the writer -/

/-- The length of the buffers. -/
def bufferLen : ℕ := 16 * 1024

/-- How reads that take what there is, up to a buffer, cut some octets. -/
structure Segmentation where
  cut : List UInt8 → List (List UInt8)
  flatten (octets : List UInt8) : (cut octets).flatten = octets
  ne_nil (octets : List UInt8) : ∀ piece ∈ cut octets, piece ≠ []
  length_le (octets : List UInt8) : ∀ piece ∈ cut octets, piece.length ≤ bufferLen

/-- Reads of one octet each. -/
def Segmentation.single : Segmentation where
  cut octets := octets.map fun octet => [octet]
  flatten octets := by induction octets <;> simp_all
  ne_nil octets piece hpiece := by
    obtain ⟨octet, -, rfl⟩ := List.mem_map.1 hpiece
    exact List.cons_ne_nil _ _
  length_le octets piece hpiece := by
    obtain ⟨octet, -, rfl⟩ := List.mem_map.1 hpiece
    exact show 1 ≤ bufferLen by decide

/-- What is still to come: the octets, and the error behind them if it is not the end. -/
structure Socket where
  unread : List UInt8
  ending : Option String
  segmentation : Segmentation

/-- How a writer takes octets behind those that it has: all of them, or so many before it fails. -/
abbrev Writer := List UInt8 → List UInt8 → Option (ℕ × String)

/-- A writer that never fails, as a `Vec` is. -/
def Writer.total : Writer := fun _ _ => none

/-- A socket, and the octets written to the writer so far. -/
structure Exchange where
  socket : Socket
  writer : Writer
  written : List UInt8

def Exchange.setUnread (x : Exchange) (unread : List UInt8) : Exchange :=
  { x with socket := { x.socket with unread } }

abbrev HttpM := EStateM TransportError Exchange

/-- `write_all`. -/
def writeAll (octets : List UInt8) : HttpM Unit := fun x =>
  match x.writer x.written octets with
  | none => .ok () { x with written := x.written ++ octets }
  | some (taken, text) => .error (.io text) { x with written := x.written ++ octets.take taken }

/-- `read` of one octet, if there is one. -/
def readByte : HttpM (Option UInt8) := fun x =>
  match x.socket.unread with
  | octet :: rest => .ok (some octet) (x.setUnread rest)
  | [] =>
    match x.socket.ending with
    | none => .ok none x
    | some text => .error (.io text) x

/-- `read_exact`. -/
def readExact (length : ℕ) : HttpM (List UInt8) := fun x =>
  if x.socket.unread.length < length then
    .error (.io (x.socket.ending.getD "failed to fill whole buffer")) (x.setUnread [])
  else .ok (x.socket.unread.take length) (x.setUnread (x.socket.unread.drop length))

/-- The loop of `read_header_bytes` and `read_crlf_line`: the octets up to the terminator, with
    those read so far and the number of those that may still be read. -/
def readUntil (terminator : List UInt8) : ℕ → List UInt8 → HttpM (List UInt8)
  | 0, _ => throw .responseTooLarge
  | room + 1, out => do
    match ← readByte with
    | none => throw .malformedResponse
    | some octet =>
      let out := out ++ [octet]
      if terminator <:+ out then return out.take (out.length - terminator.length)
      readUntil terminator room out

def readHeaderBytes (limit : ℕ) : HttpM (List UInt8) := readUntil (crlf ++ crlf) limit []

def readCrlfLine (limit : ℕ) : HttpM (List UInt8) := do
  let out ← readUntil crlf limit []
  if fromUtf8 out = none then throw .malformedResponse
  return out

/-! ## The body -/

/-- The loop of `copy_exact_body`, for at most `fuel` blocks. -/
def copyBlocks : ℕ → ℕ → HttpM Unit
  | 0, _ => return
  | fuel + 1, length => do
    if length = 0 then return
    let count := min length bufferLen
    writeAll (← readExact count)
    copyBlocks fuel (length - count)

/-- `copy_exact_body`: every block has an octet, so that there are at most `length`. -/
def copyExactBody (length : ℕ) : HttpM Unit := copyBlocks length length

def checkedBodyLen (current chunk limit : ℕ) : Except TransportError ℕ :=
  if current + chunk < 2 ^ 64 ∧ current + chunk ≤ limit then .ok (current + chunk)
  else .error .responseTooLarge

def readFixedBodyToWriter (length limit : ℕ) : HttpM ℕ := do
  if limit < length then throw .responseTooLarge
  copyExactBody length
  return length

/-- The loop of `read_until_eof_to_writer`, over the pieces that the reads take. -/
def writePieces (limit : ℕ) : List (List UInt8) → ℕ → HttpM ℕ
  | [], total => return total
  | piece :: pieces, total => do
    let total ← checked (checkedBodyLen total piece.length limit)
    writeAll piece
    writePieces limit pieces total

def readUntilEofToWriter (limit : ℕ) : HttpM ℕ := do
  let x ← get
  let total ← writePieces limit (x.socket.segmentation.cut x.socket.unread) 0
  modify fun x => x.setUnread []
  match x.socket.ending with
  | none => return total
  | some text => throw (.io text)

/-- `read_trailers`: every line takes octets, so that there are at most as many as those. -/
def readTrailers : ℕ → HttpM Unit
  | 0 => throw .malformedResponse
  | fuel + 1 => do
    if (← readCrlfLine 8192) = [] then return
    readTrailers fuel

/-- The size in the first line of a chunk. -/
def chunkSize (line : List UInt8) : Except TransportError ℕ :=
  ofOption .malformedResponse
    (fromStrRadix 16 (2 ^ 64) (trimOctets (line.takeWhile (· ≠ 0x3b))))

/-- The loop of `read_chunked_body_to_writer`: every chunk but the last one has an octet, so that
    there are at most as many as the limit allows. -/
def readChunks (limit : ℕ) : ℕ → ℕ → HttpM ℕ
  | 0, _ => throw .responseTooLarge
  | fuel + 1, total => do
    let line ← readCrlfLine 8192
    let size ← checked (chunkSize line)
    if size = 0 then
      readTrailers ((← get).socket.unread.length + 1)
      return total
    let total ← checked (checkedBodyLen total size limit)
    copyExactBody size
    if (← readExact 2) ≠ crlf then throw .malformedResponse
    readChunks limit fuel total

def readChunkedBodyToWriter (limit : ℕ) : HttpM ℕ := readChunks limit (limit + 1) 0

/-! ## The response -/

/-- The header of one line of a head. -/
def parseHeader (line : List UInt8) : Except TransportError (List UInt8 × List UInt8) := do
  let (name, value) ← ofOption .malformedResponse (splitOnce 0x3a line)
  let name := trimOctets name
  if !isHttpToken name then throw .malformedResponse
  return (name, trimOctets value)

/-- A head: the version, the status, the headers. -/
structure ResponseHead where
  version : List UInt8
  status : ℕ
  headers : Headers
  deriving DecidableEq

/-- The beginning of `parse_http_response_to_writer_reusable`, on the octets of the head. -/
def parseHead (headerBytes : List UInt8) : Except TransportError ResponseHead := do
  if fromUtf8 headerBytes = none then throw .malformedResponse
  let lines := splitLines headerBytes
  let statusParts := (lines.headD []).splitOn 0x20
  let version := statusParts.headD []
  let status ← ofOption .malformedResponse (statusParts[1]?)
  let status ← ofOption .malformedResponse (fromStrRadix 10 (2 ^ 16) status)
  if ¬utf8 (Chars.of "HTTP/") <+: version ∨ status < 100 ∨ 999 < status then
    throw .malformedResponse
  let headers ← (lines.tail.filter (· ≠ [])).mapM parseHeader
  return { version, status, headers }

/-- The body behind a head: its length, and whether it has an end of its own. -/
def readBodyToWriter (limits : TransportLimits) (requestMethod : List UInt8)
    (head : ResponseHead) : HttpM (ℕ × Bool) := do
  if responseHasNoBody requestMethod head.status then return (0, true)
  match ← checked (transferEncoding head.headers) with
  | some codings =>
    if (← checked (contentLength head.headers)).isSome then throw .malformedResponse
    if codings ≠ [.chunked] then throw .unsupportedTransferEncoding
    return (← readChunkedBodyToWriter limits.maxResponseBodyBytes, true)
  | none =>
    match ← checked (contentLength head.headers) with
    | some length => return (← readFixedBodyToWriter length limits.maxResponseBodyBytes, true)
    | none => return (← readUntilEofToWriter limits.maxResponseBodyBytes, false)

/-- `parse_http_response_to_writer_reusable`. -/
def parseHttpResponse (limits : TransportLimits) (requestMethod : List UInt8) :
    HttpM (OriginResponseHead × Bool) := do
  let headerBytes ← readHeaderBytes limits.maxResponseHeaderBytes
  let head ← checked (parseHead headerBytes)
  let (bodyLen, selfDelimited) ← readBodyToWriter limits requestMethod head
  let reusable := eqIgnoreCase head.version (utf8 (Chars.of "HTTP/1.1")) && selfDelimited &&
    !connectionClose head.headers
  return ({
    status := UInt16.ofNat head.status
    headers := head.headers
    bodyLen
    daneDecision := .noTlsa
    tlsInspection := none }, reusable)

end Http11

end Hns
