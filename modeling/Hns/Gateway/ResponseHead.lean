import Hns.Gateway.Handle
import Hns.Gateway.Trace
import Hns.Transport.Wire

/-!
# The responses of the gateway

What the app is given for a request (`respond`): the response of the origin, its head written anew
with what the gateway has to say of it, or a page that says why there is none.
-/

namespace Hns

open Http11 (crlf eqIgnoreCase)

/-- The octets of a literal. -/
def octetsOf (s : String) : List UInt8 := utf8 (Chars.of s)

/-! ## Heads -/

/-- A line of a head. -/
def headLine (name value : List UInt8) : List UInt8 := name ++ octetsOf ": " ++ value

/-- `format!("{name}: {value}\\r\\n")` -/
def headField (name value : List UInt8) : List UInt8 := headLine name value ++ crlf

def statusLine (status : UInt16) (reason : List Char) : List UInt8 :=
  utf8 (Chars.of "HTTP/1.1 " ++ Chars.decimal status.toNat ++ ' ' :: reason)

/-- The headers that the gateway writes itself. -/
inductive GatewayField
  | connection
  | contentLength
  | contentType
  | tlsPolicy
  | resolverPolicy
  | resolverMode
  | dohFallback
  | resolutionTrace
  deriving DecidableEq

def GatewayField.name : GatewayField → List UInt8
  | .connection => octetsOf "Connection"
  | .contentLength => octetsOf "Content-Length"
  | .contentType => octetsOf "Content-Type"
  | .tlsPolicy => octetsOf "X-HNS-TLS-Policy"
  | .resolverPolicy => octetsOf "X-HNS-Resolver-Policy"
  | .resolverMode => octetsOf "X-HNS-Resolver-Mode"
  | .dohFallback => octetsOf "X-HNS-DoH-Fallback"
  | .resolutionTrace => octetsOf "X-HNS-Resolution-Trace"

def responseHead (status : UInt16) (reason : List Char) (contentType : Option (List Char))
    (bodyLen : ℕ) : List UInt8 :=
  statusLine status reason ++ crlf ++
    headField GatewayField.connection.name (octetsOf "close") ++
    headField GatewayField.contentLength.name (utf8 (Chars.decimal bodyLen)) ++
    contentType.elim [] fun contentType =>
      headField GatewayField.contentType.name (utf8 contentType)

/-- The names of the headers that are not those of the origin. -/
def suppressedNames : List (List UInt8) := [
  octetsOf "connection", octetsOf "content-length", octetsOf "transfer-encoding",
  octetsOf "trailer", octetsOf "x-hns-tls-policy", octetsOf "x-hns-resolver-policy",
  GatewayField.resolutionTrace.name, GatewayField.resolverMode.name, GatewayField.dohFallback.name]

def suppressedOriginResponseHeader (name : List UInt8) : Bool :=
  suppressedNames.any (eqIgnoreCase name)

def hnsTlsPolicyHeader : DaneDecision → Option (List UInt8)
  | .matched _ => some (octetsOf "dane")
  | .webPkiFallback => some (octetsOf "webpki-fallback")
  | .failed => some (octetsOf "failed")
  | .noTlsa => none

/-- The fields that tell how the request has been resolved. -/
def traceFields (trace : List Char) : List UInt8 :=
  headField GatewayField.resolverMode.name (utf8 (traceMode trace)) ++
    headField GatewayField.dohFallback.name (utf8 (traceDohFallback trace)) ++
    headField GatewayField.resolutionTrace.name (utf8 trace)

/-- `origin_response_head_with_resolver_policy_and_trace` -/
def originResponseHead (response : OriginResponseHead) (resolverPolicy : Option (List UInt8))
    (trace : List Char) : List UInt8 :=
  responseHead response.status (Chars.of "OK") none response.bodyLen ++
    (response.headers.filter fun header => !suppressedOriginResponseHeader header.1).flatMap
      (fun header => headField header.1 header.2) ++
    (hnsTlsPolicyHeader response.daneDecision).elim [] (headField GatewayField.tlsPolicy.name) ++
    resolverPolicy.elim [] (headField GatewayField.resolverPolicy.name) ++ traceFields trace ++ crlf

def OriginResponse.head (response : OriginResponse) : OriginResponseHead where
  status := response.status
  headers := response.headers
  bodyLen := response.body.length
  daneDecision := response.daneDecision
  tlsInspection := response.tlsInspection

/-- `origin_response_with_resolver_policy_and_trace` -/
def originResponse (response : OriginResponse) (resolverPolicy : Option (List UInt8))
    (trace : List Char) : List UInt8 :=
  originResponseHead response.head resolverPolicy trace ++ response.body

/-! ## Pages of the gateway -/

/-- `plain_response_body`, with an address. -/
def plainResponseBody (status : UInt16) (reason detail address : List Char) : List UInt8 :=
  utf8 (address ++ '\n' :: Chars.decimal status.toNat ++ ' ' :: reason ++ '\n' :: detail ++ ['\n'])

def plainContentType : List Char := Chars.of "text/plain; charset=utf-8"

/-- The head of `plain_response_with_address_and_optional_trace`. -/
def plainResponseHead (status : UInt16) (reason : List Char) (bodyLen : ℕ)
    (trace : Option (List Char)) : List UInt8 :=
  responseHead status reason (some plainContentType) bodyLen ++ trace.elim [] traceFields ++ crlf

/-- `plain_response_for_request`, and that with a trace. -/
def plainResponse (input : GatewayHttpRequestInput) (status : UInt16) (reason detail : List Char)
    (trace : Option (List Char)) : List UInt8 :=
  let body := plainResponseBody status reason detail (gatewayRequestAddress input)
  plainResponseHead status reason body.length trace ++ body

/-- The status, the reason and the detail for an error. -/
def mapGatewayError : GatewayError → UInt16 × String × String
  | .resolver .unsupportedBackend =>
    (503, "HNS Resolution Unavailable", "Rust HNS resolver backend is not ready.")
  | .resolver .proofUnavailable =>
    (503, "HNS Proof Unavailable", "No current verified HNS proof is available for this name.")
  | .resolver .nameNotFound =>
    (404, "HNS Name Not Found", "A verified HNS non-inclusion proof says this name does not exist.")
  | .resolver .localChainNotCurrent =>
    (503, "HNS Sync Incomplete",
      "The local HNS chain is not current enough to determine this name's current state.")
  | .resolver .noNameserverAddress =>
    (502, "HNS Nameserver Unavailable",
      "No verified nameserver address is available for this HNS delegation.")
  | .resolver (.dnsTransport _) =>
    (502, "HNS Nameserver Unavailable", "Delegated HNS nameserver transport failed closed.")
  | .resolver .invalidDnsResponse =>
    (502, "HNS Nameserver Response Invalid",
      "Delegated HNS nameserver response was invalid or lacked required secure denial data.")
  | .resolver .dnssecFailed =>
    (502, "HNS DNSSEC Validation Failed", "Delegated HNS DNSSEC validation failed closed.")
  | .resolver (.invalidName _) => (400, "HNS Name Invalid", "Requested HNS name is invalid.")
  | .resolver (.invalidResource _) =>
    (502, "HNS Resource Invalid", "Verified HNS resource data is malformed or unsupported.")
  | .resolver .proofNameMismatch =>
    (502, "HNS Proof Validation Failed", "HNS proof validation failed closed.")
  | .insecureResolution =>
    (502, "HNS DNSSEC Validation Failed",
      "Secure HNS resolution was required but the resolver returned an insecure result.")
  | .noResolvedAddress =>
    (502, "HNS Origin Address Missing",
      "Secure HNS resolution did not produce an origin A or AAAA address.")
  | .invalidTlsa _ => (502, "HNS DANE Validation Failed", "DANE/TLSA validation failed closed.")
  | .transport .daneFailed =>
    (502, "HNS DANE Validation Failed", "DANE/TLSA validation failed closed.")
  | .invalidSvcb _ =>
    (502, "HNS HTTPS Service Unsupported",
      "HTTPS/SVCB service binding is malformed or requires unsupported transport policy.")
  | .unsupportedSvcb =>
    (502, "HNS HTTPS Service Unsupported",
      "HTTPS/SVCB service binding is malformed or requires unsupported transport policy.")
  | .hostResolutionMismatch =>
    (400, "HNS Request Mismatch", "Origin host does not match the HNS resolution name.")
  | .transport .unsupportedTransport =>
    (501, "HNS Transport Unsupported", "Requested HNS origin transport is not available.")
  | .transport .unsupportedScheme =>
    (501, "HNS Scheme Unsupported", "Requested HNS origin scheme is not available.")
  | .transport (.tls _) => (502, "HNS TLS Failed", "Origin TLS negotiation failed closed.")
  | .transport .invalidRequest =>
    (400, "HNS Origin Request Invalid", "Origin request could not be safely forwarded.")
  | .transport .requestTooLarge =>
    (413, "HNS Origin Request Too Large",
      "Origin request body exceeds the configured gateway limit.")
  | .transport .unsupportedTransferEncoding =>
    (502, "HNS Origin Response Invalid", "Origin HTTP response framing failed closed.")
  | .transport .malformedResponse =>
    (502, "HNS Origin Response Invalid", "Origin HTTP response framing failed closed.")
  | .transport .unsupportedUpgrade =>
    (501, "HNS Protocol Upgrade Unsupported",
      "HNS WebSocket/HTTP Upgrade must use the native tunnel path and the request failed validation.")
  | .transport .responseTooLarge =>
    (502, "HNS Origin Response Too Large", "Origin response exceeds the configured gateway limit.")
  | .transport (.io _) =>
    (502, "HNS Origin Transport Failed", "Origin connection failed closed.")
  | .transport (.http2 _) =>
    (502, "HNS HTTP/2 Transport Failed", "Origin HTTP/2 exchange failed closed.")
  | .transport (.http3 _) =>
    (502, "HNS HTTP/3 Transport Failed", "Origin HTTP/3 exchange failed closed.")
  | .transport (.quic _) =>
    (502, "HNS QUIC Transport Failed", "Origin QUIC connection failed closed.")
  | .resolver .cachePoisoned =>
    (500, "HNS Gateway Storage Error", "Local HNS gateway state is unavailable.")
  | .resolver (.storage _) =>
    (500, "HNS Gateway Storage Error", "Local HNS gateway state is unavailable.")

/-! ## What the app is given -/

/-- What has come of a request to the gateway. -/
structure Handled where
  outcome : Except GatewayError (GatewayResponse OriginResponse)
  marker : FallbackMarker
  events : List DnsTraceEvent
  stores : TraceStores

section

variable [Digests] [Sha2]

def Handled.trace (handled : Handled) (input : GatewayHttpRequestInput)
    (mode : GatewayResolutionMode) : List Char :=
  let { outcome, marker, events, stores } := handled
  match outcome with
  | .ok response =>
    let tls := ⟨some response.originRequest.tls, some response.origin.daneDecision,
      response.origin.tlsInspection⟩
    (resolutionTrace input
      ⟨mode, stores, some response.resolution, tls, none, marker, events⟩).render
  | .error error =>
    (resolutionTrace input ⟨mode, stores, none, .default, some error, marker, events⟩).render

/-- The end of `gateway_http_response`, when the gateway has handled the request. -/
def respond (input : GatewayHttpRequestInput) (mode : GatewayResolutionMode) (handled : Handled) :
    List UInt8 :=
  match handled.outcome with
  | .ok response =>
    let resolverPolicy := if handled.marker.used then some (octetsOf "hns-doh-compat") else none
    originResponse response.origin resolverPolicy (handled.trace input mode)
  | .error error =>
    let (status, reason, detail) := mapGatewayError error
    plainResponse input status reason.toList detail.toList (handled.trace input mode)

end

end Hns
