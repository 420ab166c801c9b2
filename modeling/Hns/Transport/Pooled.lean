import Hns.Transport.AltSvc
import Hns.Transport.Request

/-!
# Requests over connections that are kept

`fetch_to_writer` of `hns-transport`: an HTTP/1.1 request is sent over a
connection that has been kept for requests like it, or, if there is none or that
attempt fails, over a new one. Both attempts write to one writer. A request of
another version is sent over a new connection.

When a call succeeds, what it has written is the body of the response that is
returned, in the length that its head has, unless an attempt over a connection
that was kept has failed with a part of a body written (`fetchOver_body_iff`).
A call sends its request once, unless a connection that was kept takes the
request whole, fails, and a new one takes it again
(`fetchToWriter_sendsOnce_iff`).
-/

namespace Hns

open Except EStateM Http11

/-! ## Connections -/

/-- What a server sends after a request, and what happens behind that. -/
structure Reply where
  octets : List UInt8
  ending : Option String
  segmentation : Segmentation

/-- What has been sent, and what has been returned for it. -/
structure Exchanged where
  request : List UInt8
  head : OriginResponseHead
  body : List UInt8

/-- An open connection: what the server does after the requests that it has had, or why the last
    one cannot be written, the exchanges so far, and what has come of the server but has not been
    read. -/
structure Http11Connection where
  serve : List (List UInt8) → Except String Reply
  log : List Exchanged
  unread : List UInt8

namespace Http11Connection

/-- What the server does after one more request. -/
def reply (connection : Http11Connection) (octets : List UInt8) : Except String Reply :=
  connection.serve (connection.log.map Exchanged.request ++ [octets])

/-- The connection takes the whole request. -/
def Accepts (connection : Http11Connection) (request : OriginRequest) : Prop :=
  ∃ reply, connection.reply (buildHttpRequest request true) = .ok reply

end Http11Connection

/-- What the verifier has found in a TLS handshake. -/
structure TlsOutcome where
  decision : DaneDecision
  inspection : Option TlsCertificateInspection

def OriginResponseHead.withTls (head : OriginResponseHead) :
    Option TlsOutcome → OriginResponseHead
  | none => head
  | some outcome =>
    { head with daneDecision := outcome.decision, tlsInspection := outcome.inspection }

/-- `Plain` without the outcome of a handshake, `Tls` with it. -/
structure PooledHttp11Connection where
  connection : Http11Connection
  tls : Option TlsOutcome

/-- What is outside: the time, new connections, with what comes before the first request on them,
    and handshakes. What the libraries of HTTP/2 and HTTP/3 do is outside too: a new connection,
    the request with its body, the head of the response, and the frames of its body, with the error
    behind them if there is one. -/
structure OriginNetwork (ν : Type) where
  now : ν → ℕ
  dial : Bool → OriginRequest → EStateM TransportError ν Http11Connection
  finishHandshake : OriginRequest → EStateM TransportError ν TlsOutcome
  connect : OriginRequest → EStateM TransportError ν Unit
  submit : OriginRequest → EStateM TransportError ν Unit
  respond : OriginRequest → EStateM TransportError ν (UInt16 × Http11.Headers)
  frames : OriginRequest → EStateM TransportError ν (List (List UInt8) × Option TransportError)

/-- The requests that a connection has taken whole, and what has been written to the writer. -/
structure Traffic where
  sent : List OriginRequest
  written : List UInt8

structure FetchState (ν : Type) where
  transport : TransportState PooledHttp11Connection
  altSvc : AltSvcTable
  network : ν
  traffic : Traffic

abbrev FetchM (ν : Type) := EStateM TransportError (FetchState ν)

section

variable {ν α : Type}

def onTraffic (x : EStateM TransportError Traffic α) : FetchM ν α := fun s =>
  match x s.traffic with
  | .ok a traffic => .ok a { s with traffic }
  | .error e traffic => .error e { s with traffic }

def onNetwork (x : EStateM TransportError ν α) : FetchM ν α := fun s =>
  match x s.network with
  | .ok a network => .ok a { s with network }
  | .error e network => .error e { s with network }

/-! ## HTTP/1.1 -/

def takeConnection (key : Http11PoolKey) : FetchM ν (Option PooledHttp11Connection) := fun s =>
  let (connection, transport) := s.transport.takeHttp11Connection key
  .ok connection { s with transport }

def putConnection (key : Http11PoolKey) (connection : PooledHttp11Connection) : FetchM ν Unit :=
  modify fun s => { s with transport := s.transport.putHttp11Connection key connection }

/-- `send_plain_http11` and `send_tls_http11` up to the `Alt-Svc` fields: the head, whether the
    connection may be kept, and the connection. -/
def exchange (limits : TransportLimits) (writer : Writer) (request : OriginRequest)
    (connection : Http11Connection) :
    EStateM TransportError Traffic ((OriginResponseHead × Bool) × Http11Connection) :=
  fun traffic =>
    let octets := buildHttpRequest request true
    match connection.reply octets with
    | .error text => .error (.io text) traffic
    | .ok reply =>
      let sent := traffic.sent ++ [request]
      let socket := ⟨connection.unread ++ reply.octets, reply.ending, reply.segmentation⟩
      match parseHttpResponse limits (utf8 request.method) ⟨socket, writer, traffic.written⟩ with
      | .ok result x =>
        let exchanged := ⟨octets, result.1, x.written.drop traffic.written.length⟩
        .ok (result, { connection with
          log := connection.log ++ [exchanged]
          unread := x.socket.unread }) ⟨sent, x.written⟩
      | .error e x => .error e ⟨sent, x.written⟩

def sendHttp11 (net : OriginNetwork ν) (limits : TransportLimits) (writer : Writer)
    (request : OriginRequest) (connection : Http11Connection) :
    FetchM ν ((OriginResponseHead × Bool) × Http11Connection) := do
  let answered ← onTraffic (exchange limits writer request connection)
  modify fun s =>
    { s with altSvc := recordAltSvc (net.now s.network) request answered.1.1.headers s.altSvc }
  return answered

/-- What is done with an answer: the connection is kept if it may be. -/
def finishExchange (key : Http11PoolKey) (tls : Option TlsOutcome)
    (answered : (OriginResponseHead × Bool) × Http11Connection) : FetchM ν OriginResponseHead := do
  if answered.1.2 then putConnection key ⟨answered.2, tls⟩
  return answered.1.1.withTls tls

/-- The attempt over a connection that has been kept. -/
def reusePooled (net : OriginNetwork ν) (limits : TransportLimits) (writer : Writer)
    (secure : Bool) (key : Http11PoolKey) (request : OriginRequest) :
    FetchM ν (Option OriginResponseHead) := do
  match ← takeConnection key with
  | none => return none
  | some pooled =>
    if pooled.tls.isSome ≠ secure then return none
    match ← attempt (sendHttp11 net limits writer request pooled.connection) with
    | .error _ => return none
    | .ok answered => return some (← finishExchange key pooled.tls answered)

/-- The attempt over a new connection. -/
def fetchFresh (net : OriginNetwork ν) (limits : TransportLimits) (writer : Writer)
    (secure : Bool) (key : Http11PoolKey) (request : OriginRequest) :
    FetchM ν OriginResponseHead := do
  let connection ← onNetwork (net.dial secure request)
  let answered ← sendHttp11 net limits writer request connection
  if secure then
    let outcome ← onNetwork (net.finishHandshake request)
    finishExchange key (some outcome) answered
  else finishExchange key none answered

def fetchOver (net : OriginNetwork ν) (limits : TransportLimits) (writer : Writer)
    (secure : Bool) (request : OriginRequest) : FetchM ν OriginResponseHead := do
  checked (validateRequest request limits)
  let key := http11PoolKey request
  match ← reusePooled net limits writer secure key request with
  | some head => return head
  | none => fetchFresh net limits writer secure key request

def fetchHttp11ToWriter (net : OriginNetwork ν) (limits : TransportLimits) (writer : Writer)
    (request : OriginRequest) : FetchM ν OriginResponseHead :=
  fetchOver net limits writer false request

def fetchHttpsHttp11ToWriter (net : OriginNetwork ν) (limits : TransportLimits)
    (writer : Writer) (request : OriginRequest) : FetchM ν OriginResponseHead :=
  fetchOver net limits writer true request

/-! ## All versions -/

/-- The loops of `read_http2_body_to_writer` and `read_http3_body_to_writer`. -/
def writeFrames (limit : ℕ) (writer : Writer) :
    List (List UInt8) → ℕ → EStateM TransportError Traffic ℕ
  | [], total => return total
  | frame :: frames, total => do
    let total ← checked (checkedBodyLen total frame.length limit)
    fun traffic =>
      match writer traffic.written frame with
      | none =>
        writeFrames limit writer frames total
          { traffic with written := traffic.written ++ frame }
      | some (taken, text) =>
        .error (.io text) { traffic with written := traffic.written ++ frame.take taken }

def readMultiplexedBody (net : OriginNetwork ν) (limits : TransportLimits) (writer : Writer)
    (request : OriginRequest) : FetchM ν ℕ := do
  let (frames, failure) ← onNetwork (net.frames request)
  let total ← onTraffic (writeFrames limits.maxResponseBodyBytes writer frames 0)
  match failure with
  | none => return total
  | some e => throw e

/-- What `fetch_https_http2_to_writer` and `fetch_https_http3_to_writer` do behind the request. -/
def receiveMultiplexed (net : OriginNetwork ν) (limits : TransportLimits) (writer : Writer)
    (request : OriginRequest) : FetchM ν OriginResponseHead := do
  let (status, headers) ← onNetwork (net.respond request)
  if (← checked (transferEncoding headers)).isSome then throw .malformedResponse
  let expected ← checked (contentLength headers)
  let bodyLen ← (if responseHasNoBody (utf8 request.method) status.toNat then pure 0
    else readMultiplexedBody net limits writer request)
  if expected.any (· ≠ bodyLen) then throw .malformedResponse
  let outcome ← onNetwork (net.finishHandshake request)
  return ⟨status, headers, bodyLen, outcome.decision, outcome.inspection⟩

/-- `fetch_https_http2_to_writer` and `fetch_https_http3_to_writer`. -/
def fetchMultiplexedToWriter (net : OriginNetwork ν) (limits : TransportLimits)
    (writer : Writer) (request : OriginRequest) : FetchM ν OriginResponseHead := do
  checked (validateRequest request limits)
  onNetwork (net.connect request)
  onNetwork (net.submit request)
  modify fun s => { s with traffic := { s.traffic with sent := s.traffic.sent ++ [request] } }
  receiveMultiplexed net limits writer request

def fetchToWriter (net : OriginNetwork ν) (limits : TransportLimits) (writer : Writer)
    (request : OriginRequest) : FetchM ν OriginResponseHead := do
  let s ← get
  let request := promotedRequest (net.now s.network) s.altSvc request
  if asciiLower request.scheme = Chars.of "http" then
    match request.protocol with
    | .http11 => fetchHttp11ToWriter net limits writer request
    | _ => throw .unsupportedTransport
  else if asciiLower request.scheme = Chars.of "https" then
    match request.protocol with
    | .http11 => fetchHttpsHttp11ToWriter net limits writer request
    | _ => fetchMultiplexedToWriter net limits writer request
  else throw .unsupportedScheme

end

end Hns
