import Hns.Resolver.Delegated
import Hns.Resolver.Roots
import Hns.Transport.State

/-!
# The gateway

`Gateway` of `hns-gateway`, which finds out where and how an origin is reached
before it calls the transport: the address, from the answer to the request or
from lookups of its own, the HTTPS service policy and the TLSA records. The
resolver is any function, and so is the transport. What the resolver has been
asked and the requests handed to the transport are kept in the state, in order.
-/

namespace Hns

open DnsName (trim trimEndMatches fromAscii)

inductive HnsHttpsMode
  | strict
  | compatibility
  deriving DecidableEq

def HnsHttpsMode.domainTrustMode : HnsHttpsMode → DomainTrustMode
  | .strict => .hnsStrict
  | .compatibility => .hnsCompatibility

structure GatewayConfig where
  requireSecureResolution : Bool
  hnsHttpsMode : HnsHttpsMode
  supportedOriginProtocols : List OriginProtocol

structure GatewayRequest where
  origin : OriginRequest
  resolution : ResolutionRequest

inductive GatewayError
  | hostResolutionMismatch
  | insecureResolution
  | noResolvedAddress
  | invalidTlsa (error : DaneError)
  | invalidSvcb (error : ParseError)
  | unsupportedSvcb
  | resolver (error : ResolverError)
  | transport (error : TransportError)
  deriving DecidableEq

/-! ## Hosts -/

def normalizeHost (host : List Char) : List Char :=
  trimAddress (asciiLower (trimEndMatches (· = '.') (trim host)))

def hostsMatch (originHost qname : List Char) : Bool := normalizeHost originHost = normalizeHost qname

def isTlsOriginScheme (scheme : List Char) : Bool :=
  asciiLower scheme = "https".toList ∨ asciiLower scheme = "wss".toList

/-! ## Addresses -/

def cnameTargetForOwner (records : List ResourceRecord) (owner : DnsName) : Option DnsName :=
  match recordsFor records owner .cname with
  | [record] => recordNameRdata record
  | _ => none

/-- The address of a name, or of the name that its CNAME record leads to. The number of names that
    may still be tried is one more than that of the steps left. -/
def resolvedAddressForOwner (records : List ResourceRecord) : ℕ → DnsName → Option IpAddr
  | 0, _ => none
  | fuel + 1, owner =>
    ((records.filter fun record => record.name = owner).findSome? recordAddress).or
      ((cnameTargetForOwner records owner).bind (resolvedAddressForOwner records fuel))

def firstResolvedAddress (records : List ResourceRecord) (host : List Char) : Option (List Char) :=
  match fromAscii (normalizeHost host) with
  | .ok owner => (resolvedAddressForOwner records (maxCnameChainLen + 1) owner).map IpAddr.display
  | .error _ => none

/-! ## TLSA records -/

def tlsaResolutionRequest (host : List Char) (port : UInt16) : Option ResolutionRequest :=
  match fromAscii (Chars.of "_" ++ Chars.decimal port.toNat ++ Chars.of "._tcp." ++
      normalizeHost host) with
  | .ok qname => some ⟨qname.display, RecordType.tlsa.code⟩
  | .error _ => none

def tlsaRecords (records : List ResourceRecord) (serviceQname : List Char) :
    Except GatewayError (List TlsaRecord) :=
  match fromAscii serviceQname with
  | .error _ => .ok []
  | .ok owner =>
    (recordsFor records owner .tlsa).mapM fun record =>
      (TlsaRecord.parseRdata record.rdata).mapError .invalidTlsa

/-! ## HTTPS service policies -/

namespace SvcbRecord

variable (svcb : SvcbRecord)

def isAliasMode : Bool := svcb.svcPriority = 0

def param (key : ℕ) : Option (List UInt8) :=
  (svcb.params.find? fun param => param.key.toNat = key).map SvcParam.value

def alpnIds : Except ParseError (List (List UInt8)) :=
  match svcb.param svcbParamAlpn with
  | none => .ok []
  | some value => parseAlpnIds value

def port : Except ParseError (Option UInt16) :=
  match svcb.param svcbParamPort with
  | none => .ok none
  | some [a, b] => .ok (some (Octet.be16 a b))
  | some _ => .error .invalidSvcb

end SvcbRecord

structure HttpsServicePolicy where
  protocol : OriginProtocol
  port : Option UInt16
  deriving DecidableEq

/-- The loop of `validate_supported_mandatory_params` over the keys. -/
def validateSupportedMandatoryKeys : List UInt8 → Except GatewayError Unit
  | a :: b :: rest =>
    let key := (Octet.be16 a b).toNat
    if key = svcbParamAlpn ∨ key = svcbParamNoDefaultAlpn ∨ key = svcbParamPort then
      validateSupportedMandatoryKeys rest
    else .error .unsupportedSvcb
  | _ => .ok ()

def validateSupportedMandatoryParams (svcb : SvcbRecord) : Except GatewayError Unit :=
  match svcb.param svcbParamMandatory with
  | none => .ok ()
  | some value => validateSupportedMandatoryKeys value

def isHttp3Alpn (id : List UInt8) : Bool :=
  id = utf8 "h3".toList ∨ (utf8 "h3-".toList).isPrefixOf id

def selectedAlpnProtocol (svcb : SvcbRecord) (supportedProtocols : List OriginProtocol) :
    Except GatewayError (Option OriginProtocol) := do
  let alpn ← svcb.alpnIds.mapError .invalidSvcb
  if .http3 ∈ supportedProtocols ∧ alpn.any isHttp3Alpn then return some .http3
  if .http2 ∈ supportedProtocols ∧ utf8 "h2".toList ∈ alpn then return some .http2
  if .http11 ∈ supportedProtocols ∧
      (utf8 "http/1.1".toList ∈ alpn ∨ svcb.param svcbParamNoDefaultAlpn = none) then
    return some .http11
  return none

/-- What a round of the loop of `selected_https_service` finds in a record of the owner: nothing
    when the record offers no protocol that is supported. -/
def httpsCandidate (owner : DnsName) (supportedProtocols : List OriginProtocol)
    (record : ResourceRecord) : Except GatewayError (Option (UInt16 × HttpsServicePolicy)) := do
  let svcb ← (SvcbRecord.fromRecord record).mapError .invalidSvcb
  if svcb.isAliasMode then throw .unsupportedSvcb
  if svcb.targetName ≠ DnsName.root ∧ svcb.targetName ≠ owner then throw .unsupportedSvcb
  validateSupportedMandatoryParams svcb
  match ← selectedAlpnProtocol svcb supportedProtocols with
  | none => return none
  | some protocol =>
    let port ← svcb.port.mapError .invalidSvcb
    return some (svcb.svcPriority, ⟨protocol, port⟩)

/-- The candidate of the least priority, the first one among those. -/
def preferredPolicy (selected : Option (UInt16 × HttpsServicePolicy))
    (candidate : UInt16 × HttpsServicePolicy) : Option (UInt16 × HttpsServicePolicy) :=
  match selected with
  | none => some candidate
  | some (priority, policy) =>
    if candidate.1 < priority then some candidate else some (priority, policy)

def selectedHttpsService (records : List ResourceRecord) (host : List Char)
    (supportedProtocols : List OriginProtocol) :
    Except GatewayError (Option HttpsServicePolicy) := do
  let owner ← (fromAscii (normalizeHost host)).mapError fun _ => .unsupportedSvcb
  let services := recordsFor records owner .https
  let candidates ← services.mapM (httpsCandidate owner supportedProtocols)
  match (candidates.filterMap id).foldl preferredPolicy none with
  | some (_, policy) => return some policy
  | none => if services ≠ [] then throw .unsupportedSvcb else return none

/-- The request with the policy applied, if there is one. -/
def applyHttpsServicePolicy (records : List ResourceRecord) (request : OriginRequest)
    (supportedProtocols : List OriginProtocol) : Except GatewayError (Option OriginRequest) := do
  match ← selectedHttpsService records request.host supportedProtocols with
  | none => return none
  | some service =>
    return some
      { request with
        port := service.port.getD request.port
        protocol := service.protocol }

end Hns
