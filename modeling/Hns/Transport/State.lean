import Hns.Lib.Chars
import Hns.Lib.Sip
import Hns.Transport.Verifier

/-!
# The state of the transport

What `TcpHttpTransport` of `hns-transport` keeps between requests, behind one
lock: the connections that are open, by what they have been opened for, the
certificate verifiers and the stores of TLS sessions, by the TLS policy. The texts
of a request are characters, those of a response the octets it came in. The
policy stands in the keys as a text, `tlsValidationKey`, in which the data of a
TLSA record are replaced by a hash of 64 bits, that of the standard library.

Connections are of any type `κ`.
-/

namespace Hns

inductive OriginProtocol
  | http11
  | http2
  | http3
  deriving DecidableEq

structure OriginRequest where
  method : List Char
  scheme : List Char
  host : List Char
  connectHost : Option (List Char)
  port : UInt16
  pathAndQuery : List Char
  protocol : OriginProtocol
  tls : TlsValidation
  headers : List (List Char × List Char)
  body : List UInt8
  deriving DecidableEq

structure OriginResponse where
  status : UInt16
  headers : List (List UInt8 × List UInt8)
  body : List UInt8
  daneDecision : DaneDecision
  tlsInspection : Option TlsCertificateInspection
  deriving DecidableEq

structure OriginResponseHead where
  status : UInt16
  headers : List (List UInt8 × List UInt8)
  bodyLen : ℕ
  daneDecision : DaneDecision
  tlsInspection : Option TlsCertificateInspection
  deriving DecidableEq

inductive TransportError
  | daneFailed
  | unsupportedTransport
  | unsupportedScheme
  | unsupportedTransferEncoding
  | unsupportedUpgrade
  | http2 (text : String)
  | http3 (text : String)
  | quic (text : String)
  | tls (text : String)
  | invalidRequest
  | requestTooLarge
  | responseTooLarge
  | malformedResponse
  | io (text : String)
  deriving DecidableEq

def maxHttp11PoolPerOrigin : ℕ := 2

/-! ## Keys -/

def DomainTrustMode.debug : DomainTrustMode → List Char
  | .hnsStrict => Chars.of "HnsStrict"
  | .hnsCompatibility => Chars.of "HnsCompatibility"
  | .icannWebPki => Chars.of "IcannWebPki"

def debugBool (b : Bool) : List Char := if b then Chars.of "true" else Chars.of "false"

def TlsaUsage.debug : TlsaUsage → List Char
  | .pkixTa => Chars.of "PkixTa"
  | .pkixEe => Chars.of "PkixEe"
  | .daneTa => Chars.of "DaneTa"
  | .daneEe => Chars.of "DaneEe"

def TlsaSelector.debug : TlsaSelector → List Char
  | .fullCertificate => Chars.of "FullCertificate"
  | .subjectPublicKeyInfo => Chars.of "SubjectPublicKeyInfo"

def TlsaMatching.debug : TlsaMatching → List Char
  | .exact => Chars.of "Exact"
  | .sha256 => Chars.of "Sha256"
  | .sha512 => Chars.of "Sha512"

/-- `DefaultHasher` on a slice of octets, after its length. -/
def defaultHash (bytes : List UInt8) : UInt64 :=
  Sip.hash13 0 0 (Octet.toLE 8 bytes.length ++ bytes)

/-- What `append_hash_hex` appends. -/
def hashHex (bytes : List UInt8) : List Char := Chars.hex 16 (defaultHash bytes).toNat

/-- What a round of the loop of `tls_validation_key` appends. -/
def tlsaRecordKey (record : TlsaRecord) : List Char :=
  Chars.of ";" ++ record.usage.debug ++ Chars.of ":" ++ record.selector.debug ++ Chars.of ":" ++
    record.matching.debug ++ Chars.of ":" ++ hashHex record.associationData

def tlsValidationKey (tls : TlsValidation) : List Char :=
  Chars.of "mode=" ++ tls.mode.debug ++ Chars.of ";secure=" ++ debugBool tls.dnssecSecure ++
    Chars.of ";records=" ++ Chars.decimal tls.tlsaRecords.length ++
    tls.tlsaRecords.flatMap tlsaRecordKey

/-- The protocols are texts of ASCII. -/
def alpnKey (alpnProtocols : List (List Char)) : List Char := [','].intercalate alpnProtocols

structure Http11PoolKey where
  scheme : List Char
  host : List Char
  connectHost : List Char
  port : UInt16
  tlsKey : List Char
  deriving DecidableEq

/-- `to_ascii_lowercase`. -/
def asciiLower (text : List Char) : List Char := text.map Char.toLower

def http11PoolKey (request : OriginRequest) : Http11PoolKey where
  scheme := asciiLower request.scheme
  host := asciiLower request.host
  connectHost := asciiLower (request.connectHost.getD request.host)
  port := request.port
  tlsKey := tlsValidationKey request.tls

/-! ## The state -/

/-- A store of TLS sessions, with the policy it has been made for. -/
structure Resumption where
  madeFor : TlsValidation

structure TransportState (κ : Type) where
  http11Pool : Http11PoolKey → List κ
  tlsVerifiers : Table (List Char) DaneServerCertVerifier
  tlsResumption : Table (List Char) Resumption

namespace TransportState

variable {κ : Type}

/-- `TransportState::default()`. -/
def default : TransportState κ := ⟨fun _ => [], .empty, .empty⟩

def daneVerifierFor (tls : TlsValidation) (tlsKey : List Char) (s : TransportState κ) :
    DaneServerCertVerifier × TransportState κ :=
  match s.tlsVerifiers tlsKey with
  | some verifier => (verifier, s)
  | none =>
    let verifier := DaneServerCertVerifier.new tls
    (verifier, { s with tlsVerifiers := s.tlsVerifiers.insert tlsKey verifier })

def resumptionKey (tlsKey : List Char) (alpnProtocols : List (List Char)) : List Char :=
  tlsKey ++ Chars.of "|alpn=" ++ alpnKey alpnProtocols

/-- The policy `tls` is only kept with the store, it has no part in the search. -/
def resumptionFor (tls : TlsValidation) (tlsKey : List Char) (alpnProtocols : List (List Char))
    (s : TransportState κ) : Resumption × TransportState κ :=
  match s.tlsResumption (resumptionKey tlsKey alpnProtocols) with
  | some resumption => (resumption, s)
  | none =>
    let resumption := ⟨tls⟩
    (resumption,
      { s with
        tlsResumption :=
          s.tlsResumption.insert (resumptionKey tlsKey alpnProtocols) resumption })

/-- The verifier and the sessions of a handshake. -/
def clientConfig (tls : TlsValidation) (alpnProtocols : List (List Char)) (s : TransportState κ) :
    (DaneServerCertVerifier × Resumption) × TransportState κ :=
  let tlsKey := tlsValidationKey tls
  let (verifier, s) := s.daneVerifierFor tls tlsKey
  let (resumption, s) := s.resumptionFor tls tlsKey alpnProtocols
  ((verifier, resumption), s)

def takeHttp11Connection (key : Http11PoolKey) (s : TransportState κ) :
    Option κ × TransportState κ :=
  match s.http11Pool key with
  | [] => (none, s)
  | connection :: rest =>
    (some connection, { s with http11Pool := Function.update s.http11Pool key rest })

def putHttp11Connection (key : Http11PoolKey) (connection : κ) (s : TransportState κ) :
    TransportState κ :=
  let pool := s.http11Pool key
  let pool := if maxHttp11PoolPerOrigin ≤ pool.length then pool.tail else pool
  { s with http11Pool := Function.update s.http11Pool key (pool ++ [connection]) }

end TransportState

end Hns
