import Hns.Gateway.Basic

/-!
# Requests to the gateway

How the gateway serves a request (`handle`, `handleToWriter`, `handleTunnel`):
it resolves the origin (`resolveOriginRequest`), and then calls the transport,
once.
-/

namespace Hns

open EStateM (checked)

/-- `OriginTransport`, with any type `τ` of tunnels. A body is written after what has been written
    before, as far as it goes. -/
structure OriginTransport (τ : Type) where
  fetch : OriginRequest → Except TransportError OriginResponse
  fetchToWriter : OriginRequest → List UInt8 → Except TransportError OriginResponseHead × List UInt8
  openTunnel : OriginRequest → Except TransportError τ

abbrev Resolver := ResolutionRequest → Except ResolverError ResolutionAnswer

structure Gateway (τ : Type) [Digests] where
  config : GatewayConfig
  resolver : Resolver
  transport : OriginTransport τ

/-- What has been done so far: the answers of the resolver, the requests given to the transport and
    the body that has been written. -/
structure GatewayState where
  consulted : List (ResolutionRequest × ResolutionAnswer)
  transported : List OriginRequest
  written : List UInt8

/-- Before anything is done. -/
def GatewayState.initial : GatewayState := ⟨[], [], []⟩

abbrev GatewayM := EStateM GatewayError GatewayState

structure GatewayResponse (α : Type) where
  resolution : ResolutionAnswer
  originRequest : OriginRequest
  origin : α

namespace Gateway

variable {τ : Type} [Digests] (gateway : Gateway τ)

/-- The resolver is asked. -/
def resolve (request : ResolutionRequest) : GatewayM ResolutionAnswer := fun s =>
  match gateway.resolver request with
  | .ok answer => .ok answer { s with consulted := s.consulted ++ [(request, answer)] }
  | .error error => .error (.resolver error) s

/-- The resolver is asked, and the answer must be secure if the configuration says so. -/
def resolveSecurely (request : ResolutionRequest) : GatewayM ResolutionAnswer := do
  let answer ← gateway.resolve request
  if gateway.config.requireSecureResolution ∧ !answer.secure then throw .insecureResolution
  return answer

def resolveTlsaRecords (host : List Char) (port : UInt16) : GatewayM (Bool × List TlsaRecord) :=
  match tlsaResolutionRequest host port with
  | none => return (false, [])
  | some request => do
    let answer ← gateway.resolveSecurely request
    let records ← checked (tlsaRecords answer.records request.qname)
    return (answer.secure, records)

/-- The loop of `resolve_origin_address` over the types that are looked up. -/
def resolveOriginAddressLoop (host : List Char) : List RecordType → GatewayM (Option (List Char))
  | [] => return none
  | qtype :: qtypes => do
    let answer ← gateway.resolveSecurely ⟨normalizeHost host, qtype.code⟩
    match firstResolvedAddress answer.records host with
    | some address => return some address
    | none => resolveOriginAddressLoop host qtypes

def resolveOriginAddress (host : List Char) : GatewayM (Option (List Char)) :=
  gateway.resolveOriginAddressLoop host [.a, .aaaa]

def resolveHttpsServicePolicy (request : OriginRequest)
    (supportedOriginProtocols : List OriginProtocol) : GatewayM OriginRequest := do
  let answer ← gateway.resolveSecurely ⟨normalizeHost request.host, RecordType.https.code⟩
  let applied ← checked
    (applyHttpsServicePolicy answer.records request supportedOriginProtocols)
  return applied.getD request

/-- The address to connect to: that of the request, one from the answer, or one that is looked up. -/
def resolveConnectHost (request : GatewayRequest) (resolution : ResolutionAnswer) :
    GatewayM (Option (List Char)) :=
  match request.origin.connectHost with
  | some connectHost => return some connectHost
  | none =>
    match firstResolvedAddress resolution.records request.origin.host with
    | some address => return some address
    | none =>
      if (hnsRootLabel request.resolution.qname).isOk then do
        match ← gateway.resolveOriginAddress request.origin.host with
        | some address => return some address
        | none => throw .noResolvedAddress
      else return none

/-- The HTTPS service policy, from the answer that is there or from a lookup. -/
def resolveService (resolution : ResolutionAnswer) (supportedOriginProtocols : List OriginProtocol)
    (request : OriginRequest) : GatewayM OriginRequest := do
  match ← checked
      (applyHttpsServicePolicy resolution.records request supportedOriginProtocols) with
  | some request => return request
  | none => gateway.resolveHttpsServicePolicy request supportedOriginProtocols

/-- What is done for the TLS of an origin. -/
def resolveTls (resolution : ResolutionAnswer) (supportedOriginProtocols : List OriginProtocol)
    (request : OriginRequest) : GatewayM OriginRequest := do
  let request :=
    { request with tls := { request.tls with mode := gateway.config.hnsHttpsMode.domainTrustMode } }
  let request ← gateway.resolveService resolution supportedOriginProtocols request
  let (tlsaSecure, records) ← gateway.resolveTlsaRecords request.host request.port
  return { request with tls := ⟨request.tls.mode, tlsaSecure, records⟩ }

/-- What is done for an origin whose address is known. -/
def resolveScheme (resolution : ResolutionAnswer) (supportedOriginProtocols : List OriginProtocol)
    (request : OriginRequest) : GatewayM OriginRequest :=
  if isTlsOriginScheme request.scheme then
    gateway.resolveTls resolution supportedOriginProtocols request
  else return request

def resolveOriginRequest (request : GatewayRequest)
    (supportedOriginProtocols : List OriginProtocol) :
    GatewayM (ResolutionAnswer × OriginRequest) := do
  if !hostsMatch request.origin.host request.resolution.qname then throw .hostResolutionMismatch
  let resolution ← gateway.resolveSecurely request.resolution
  let connectHost ← gateway.resolveConnectHost request resolution
  let originRequest ← gateway.resolveScheme resolution supportedOriginProtocols
    { request.origin with connectHost := connectHost }
  return (resolution, originRequest)

/-- The transport is called with a request, after which it is known that it has been. -/
def call {α : Type} (request : OriginRequest) (result : Except TransportError α) : GatewayM α := do
  modify fun s => { s with transported := s.transported ++ [request] }
  checked (result.mapError .transport)

def handle (request : GatewayRequest) : GatewayM (GatewayResponse OriginResponse) := do
  let (resolution, originRequest) ←
    gateway.resolveOriginRequest request gateway.config.supportedOriginProtocols
  let origin ← call originRequest (gateway.transport.fetch originRequest)
  return ⟨resolution, originRequest, origin⟩

def handleToWriter (request : GatewayRequest) : GatewayM (GatewayResponse OriginResponseHead) := do
  let (resolution, originRequest) ←
    gateway.resolveOriginRequest request gateway.config.supportedOriginProtocols
  let (result, written) := gateway.transport.fetchToWriter originRequest (← get).written
  modify fun s => { s with written := written }
  let origin ← call originRequest result
  return ⟨resolution, originRequest, origin⟩

def handleTunnel (request : GatewayRequest) : GatewayM (GatewayResponse τ) := do
  let (resolution, originRequest) ← gateway.resolveOriginRequest request [.http11]
  let origin ← call originRequest (gateway.transport.openTunnel originRequest)
  return ⟨resolution, originRequest, origin⟩

end Gateway

end Hns
