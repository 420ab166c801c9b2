import Hns.Gateway.Fallback
import Hns.Gateway.ProofProvider
import Hns.Lib.Json

/-!
# The trace of a request

What the gateway tells of how a request has been resolved, as a JSON text in a header of the
response (`resolutionTrace`). Two of the headers beside it are read off that text: they say what
the text has been made from, whatever names and errors stand in it (`traceMode_render`).
-/

namespace Hns

open DnsName (trim trimEndMatches)

/-- Without `data_dir`. -/
structure GatewayHttpRequestInput where
  method : List Char
  scheme : List Char
  host : List Char
  port : UInt16
  pathAndQuery : List Char
  headerText : List Char
  body : List UInt8

def gatewayRequestAddress (input : GatewayHttpRequestInput) : List Char :=
  let scheme := asciiLower input.scheme
  let port :=
    if (scheme = Chars.of "http" ∨ scheme = Chars.of "ws") ∧ input.port = 80 ∨
      (scheme = Chars.of "https" ∨ scheme = Chars.of "wss") ∧ input.port = 443 then []
    else ':' :: Chars.decimal input.port.toNat
  let path := if input.pathAndQuery = [] then Chars.of "/" else input.pathAndQuery
  scheme ++ Chars.of "://" ++ input.host ++ port ++ path

instance : ToString GatewayError where
  toString
    | .hostResolutionMismatch => "origin host does not match resolution name"
    | .insecureResolution => "resolution is not cryptographically secure"
    | .noResolvedAddress => "HNS resolution did not provide an origin address"
    | .invalidTlsa error => "TLSA record is invalid: " ++ error.text
    | .invalidSvcb error => "HTTPS/SVCB record is invalid: " ++ toString error
    | .unsupportedSvcb => "HTTPS/SVCB service binding is unsupported"
    | .resolver error => "resolver error: " ++ toString error
    | .transport error => "transport error: " ++ toString error

/-! ## Names -/

def recordTypeName : RecordType → List Char
  | .a => Chars.of "A"
  | .aaaa => Chars.of "AAAA"
  | .ns => Chars.of "NS"
  | .ds => Chars.of "DS"
  | .txt => Chars.of "TXT"
  | .soa => Chars.of "SOA"
  | .srv => Chars.of "SRV"
  | .rrsig => Chars.of "RRSIG"
  | .nsec => Chars.of "NSEC"
  | .dnskey => Chars.of "DNSKEY"
  | .nsec3 => Chars.of "NSEC3"
  | .tlsa => Chars.of "TLSA"
  | .svcb => Chars.of "SVCB"
  | .https => Chars.of "HTTPS"
  | .cname => Chars.of "CNAME"
  | .unknown code =>
    if code = 1 then Chars.of "GLUE4"
    else if code = 2 then Chars.of "GLUE6"
    else if code = 6 then Chars.of "SYNTH4"
    else if code = 7 then Chars.of "SYNTH6"
    else Chars.of "UNKNOWN"

def webpkiStatusName : WebPkiStatus → List Char
  | .valid => Chars.of "valid"
  | .invalid => Chars.of "invalid"
  | .notEvaluated => Chars.of "not_evaluated"

def tlsModeName (tls : TlsValidation) : List Char :=
  match tls.mode with
  | .hnsStrict => Chars.of "hns_strict"
  | .hnsCompatibility => Chars.of "hns_compatibility"
  | .icannWebPki => Chars.of "icann_webpki"

def tlsaUsageName : TlsaUsage → List Char
  | .pkixTa => Chars.of "PKIX-TA"
  | .pkixEe => Chars.of "PKIX-EE"
  | .daneTa => Chars.of "DANE-TA"
  | .daneEe => Chars.of "DANE-EE"

def tlsaSelectorName : TlsaSelector → List Char
  | .fullCertificate => Chars.of "Cert"
  | .subjectPublicKeyInfo => Chars.of "SPKI"

def tlsaMatchingName : TlsaMatching → List Char
  | .exact => Chars.of "Exact"
  | .sha256 => Chars.of "SHA-256"
  | .sha512 => Chars.of "SHA-512"

def TraceProtocol.asStr : TraceProtocol → List Char
  | .udp53 => Chars.of "udp53"
  | .tcp53 => Chars.of "tcp53"
  | .hnsDoh => Chars.of "hns_doh"

def TraceStatus.asStr : TraceStatus → List Char
  | .ok => Chars.of "ok"
  | .timeout => Chars.of "timeout"
  | .transportError => Chars.of "transport_error"
  | .invalidResponse => Chars.of "invalid_response"
  | .dnssecFailed => Chars.of "dnssec_failed"
  | .httpError => Chars.of "http_error"
  | .error => Chars.of "error"

def hexLower (value : List UInt8) : List Char := value.flatMap fun byte => Chars.hex 2 byte.toNat

/-- `BTreeSet`, of texts in ASCII. -/
def sortedTexts (texts : List (List Char)) : List (List Char) :=
  texts.dedup.insertionSort fun a b => a.map Char.toNat ≤ b.map Char.toNat

/-! ## The proof -/

inductive TraceProof
  | verified
  | unavailable
  | notFound
  | stale
  | failed
  | unknown
  deriving DecidableEq

def TraceProof.asStr : TraceProof → List Char
  | .verified => Chars.of "verified"
  | .unavailable => Chars.of "unavailable"
  | .notFound => Chars.of "not_found"
  | .stale => Chars.of "stale"
  | .failed => Chars.of "failed"
  | .unknown => Chars.of "unknown"

/-- `strip_prefix` -/
def stripPrefix (start text : List Char) : Option (List Char) :=
  if start.isPrefixOf text then some (text.drop start.length) else none

/-- The text before its last `:` and the one behind it. -/
def rsplitColon (text : List Char) : Option (List Char × List Char) :=
  if ':' ∈ text then
    some ((text.reverse.dropWhile (· ≠ ':')).tail.reverse,
      (text.reverse.takeWhile (· ≠ ':')).reverse)
  else none

def hnsProofHostAndRoot (hostOrUrl : List Char) : Except String (List Char × List Char) := do
  let value := trim hostOrUrl
  let value := ((stripPrefix (Chars.of "https://") value).or
    (stripPrefix (Chars.of "http://") value)).getD value
  let authority := trim (value.takeWhile fun c => !isHostEnd c)
  let host :=
    match rsplitColon authority with
    | some (host, port) => if port.all Char.isDigit then host else authority
    | none => authority
  let host := asciiLower (trimEndMatches (· = '.') host)
  if host = [] then throw "missing HNS host"
  let root := asciiLower (hnsTraceRoot host)
  if root = [] then throw "missing HNS root"
  return (host, root)

/-- What the trace finds in the databases: the state of the chain, read twice, and the cache, if
    there is one and it can be opened. -/
structure TraceStores where
  currentness : Option LocalChainCurrentness
  currentnessForProof : Option LocalChainCurrentness
  resources : Option (Option (List Char → NameHash → Except ResolverError VerifiedResourceValue))

section

variable [Digests]

def hnsCachedProofTraceStatus (stores : TraceStores) (host : List Char) : Option TraceProof := do
  let (_, rootName) ← (hnsProofHostAndRoot host).toOption
  let nameHash ← (NameHash.fromName rootName).toOption
  match stores.resources with
  | none => return .unavailable
  | some resources =>
    let proveResourceValue ← resources
    match proveResourceValue rootName nameHash with
    | .ok verified =>
      if !verified.secure then return .failed
      else if verified.value.isSome then return .verified
      else if (stores.currentnessForProof.bind LocalChainCurrentness.stale).getD false then
        return .stale
      else return .notFound
    | .error .proofUnavailable => return .unavailable
    | .error .proofNameMismatch => return .failed
    | .error _ => none

def hnsProofTraceStatus (input : GatewayHttpRequestInput) (stores : TraceStores)
    (resolution : Option ResolutionAnswer) (error : Option GatewayError) : TraceProof :=
  if resolution.any ResolutionAnswer.secure then .verified
  else
    match error with
    | some (.resolver .proofUnavailable) => .unavailable
    | some (.resolver .nameNotFound) => .notFound
    | some (.resolver .localChainNotCurrent) => .stale
    | some (.resolver .proofNameMismatch) => .failed
    | _ => (hnsCachedProofTraceStatus stores input.host).getD .unknown

end

/-! ## The parts of the trace -/

def DnsTraceEvent.isAuthoritative (event : DnsTraceEvent) : Bool :=
  event.protocol = .udp53 ∨ event.protocol = .tcp53

def dnsProtocolStatus (events : List DnsTraceEvent) (protocol : TraceProtocol) : List Char :=
  let statuses := (events.filter fun event => event.protocol = protocol).map DnsTraceEvent.status
  if statuses = [] then Chars.of "not_attempted"
  else if .ok ∈ statuses then Chars.of "ok"
  else if .timeout ∈ statuses then Chars.of "timeout"
  else (statuses.getLastD .error).asStr

def authoritativeDnsTrace (events : List DnsTraceEvent) : Json := .object [
  (Chars.of "udp53", .string (dnsProtocolStatus events .udp53)),
  (Chars.of "tcp53", .string (dnsProtocolStatus events .tcp53))]

def DnsTraceEvent.toJson (event : DnsTraceEvent) : Json := .object [
  (Chars.of "protocol", .string event.protocol.asStr),
  (Chars.of "server", .string event.server),
  (Chars.of "status", .string event.status.asStr),
  (Chars.of "elapsedMs", .number event.elapsedMs),
  (Chars.of "error", .orNull (fun error => .string error.toList) event.error)]

def nameserverCandidates (events : List DnsTraceEvent) : Json :=
  .array ((sortedTexts ((events.filter DnsTraceEvent.isAuthoritative).map DnsTraceEvent.server)).map
    .string)

def dnssecTraceStatus (resolution : Option ResolutionAnswer) (error : Option GatewayError) :
    List Char :=
  if error = some (.resolver .dnssecFailed) then Chars.of "bogus"
  else if resolution.any ResolutionAnswer.secure then Chars.of "secure"
  else if resolution.isSome then Chars.of "unsigned"
  else Chars.of "unknown"

def TlsaRecord.toJson (record : TlsaRecord) : Json := .object [
  (Chars.of "usage", .string (tlsaUsageName record.usage)),
  (Chars.of "selector", .string (tlsaSelectorName record.selector)),
  (Chars.of "matching", .string (tlsaMatchingName record.matching)),
  (Chars.of "associationDataHex", .string (hexLower record.associationData))]

def tlsaOwnerName (host : List Char) (port : UInt16) : List Char :=
  '_' :: Chars.decimal port.toNat ++ Chars.of "._tcp." ++ trimEndMatches (· = '.') host

structure TlsTraceInput where
  validation : Option TlsValidation
  decision : Option DaneDecision
  inspection : Option TlsCertificateInspection

/-- `TlsTraceInput::default()`. -/
def TlsTraceInput.default : TlsTraceInput := ⟨none, none, none⟩

/-- Whether the request has failed for its TLSA records or its certificates. -/
def failsDane : Option GatewayError → Bool
  | some (.invalidTlsa _) => true
  | some (.transport .daneFailed) => true
  | _ => false

def daneTraceDecision (decision : Option DaneDecision) (error : Option GatewayError) : List Char :=
  match decision with
  | some (.matched _) => Chars.of "verified"
  | some .webPkiFallback => Chars.of "webpki_fallback"
  | some .noTlsa => Chars.of "no_tlsa"
  | some .failed => Chars.of "failed"
  | none => if failsDane error then Chars.of "failed" else Chars.of "not_evaluated"

def daneCertificateMatch (decision : Option DaneDecision) (error : Option GatewayError) :
    List Char :=
  match decision with
  | some (.matched _) => Chars.of "pass"
  | some .webPkiFallback => Chars.of "webpki_valid"
  | some .noTlsa => Chars.of "not_checked"
  | some .failed => Chars.of "failed"
  | none => if failsDane error then Chars.of "failed" else Chars.of "unknown"

/-- The usage of the record that has matched. -/
def DaneDecision.usage : DaneDecision → Option TlsaUsage
  | .matched usage => some usage
  | _ => none

section

variable [Sha2]

def sha256Hex (value : List UInt8) : List Char := hexLower (Sha2.sha256 value).bytes

def TlsCertificateInspection.toJson (inspection : TlsCertificateInspection) : Json := .object [
  (Chars.of "webPkiStatus", .string (webpkiStatusName inspection.webpkiStatus)),
  (Chars.of "endEntitySha256", .string (sha256Hex inspection.endEntityDer)),
  (Chars.of "spkiSha256", .string (sha256Hex inspection.endEntitySpkiDer)),
  (Chars.of "spkiDerHex", .string (hexLower inspection.endEntitySpkiDer)),
  (Chars.of "intermediateCount", .number inspection.intermediateDer.length),
  (Chars.of "intermediateSha256",
    .array (inspection.intermediateDer.map fun certificate => .string (sha256Hex certificate)))]

def tlsTrace (input : GatewayHttpRequestInput) (tls : TlsTraceInput) (error : Option GatewayError) :
    Json :=
  let records := tls.validation.elim [] TlsValidation.tlsaRecords
  if asciiLower input.scheme ≠ Chars.of "https" ∧ records = [] ∧ tls.decision = none then .null
  else .object [
    (Chars.of "mode", .orNull (fun validation => .string (tlsModeName validation)) tls.validation),
    (Chars.of "tlsaOwner", .string (tlsaOwnerName input.host input.port)),
    (Chars.of "tlsaFound", .bool (records ≠ [])),
    (Chars.of "dnssecSecure",
      .orNull (fun validation => .bool validation.dnssecSecure) tls.validation),
    (Chars.of "records", .array (records.map TlsaRecord.toJson)),
    (Chars.of "certificate", .orNull TlsCertificateInspection.toJson tls.inspection),
    (Chars.of "dane", .object [
      (Chars.of "decision", .string (daneTraceDecision tls.decision error)),
      (Chars.of "matchedUsage",
        .orNull (fun usage => .string (tlsaUsageName usage)) (tls.decision.bind DaneDecision.usage)),
      (Chars.of "certificateMatch", .string (daneCertificateMatch tls.decision error)),
      (Chars.of "webPkiFallback", .bool (tls.decision = some .webPkiFallback))])]

end

/-! ## The trace -/

def FallbackMarker.toJson (marker : FallbackMarker) : Json := .object [
  (Chars.of "used", .bool marker.used),
  (Chars.of "type", if marker.used then .string (Chars.of "HNS_DOH") else .null),
  (Chars.of "reason",
    if marker.used then .string (marker.reason.elim (Chars.of "none") FallbackReason.asStr)
    else .null)]

def ResolutionAnswer.hasType (answer : ResolutionAnswer) (types : List RecordType) : Bool :=
  answer.records.any fun record => record.recordType ∈ types

/-- What a trace is made from. -/
structure TraceInput where
  mode : GatewayResolutionMode
  stores : TraceStores
  resolution : Option ResolutionAnswer
  tls : TlsTraceInput
  error : Option GatewayError
  marker : FallbackMarker
  events : List DnsTraceEvent

variable [Digests] [Sha2]

/-- `resolution_trace_json` -/
def resolutionTrace (input : GatewayHttpRequestInput) (trace : TraceInput) : Json :=
  let resourceTypes := sortedTexts <|
    trace.resolution.elim [] fun answer => answer.records.map fun record =>
      recordTypeName record.recordType
  let delegation := trace.resolution.any fun answer =>
    trace.events.any DnsTraceEvent.isAuthoritative || answer.hasType [.ns, .ds, .unknown 6]
  let originAddress := trace.resolution.any fun answer => answer.hasType [.a, .aaaa]
  let currentness := trace.stores.currentness
  .object [
    (Chars.of "host", .string input.host),
    (Chars.of "url", .string (gatewayRequestAddress input)),
    (Chars.of "root", .string (hnsTraceRoot input.host)),
    (Chars.of "mode", .string trace.mode.asStr),
    (Chars.of "hnsProof",
      .string (hnsProofTraceStatus input trace.stores trace.resolution trace.error).asStr),
    (Chars.of "localBestHeight",
      .orNull .number (currentness.bind LocalChainCurrentness.bestHeight)),
    (Chars.of "targetHeight", .orNull .number (currentness.bind LocalChainCurrentness.targetHeight)),
    (Chars.of "estimatedTargetHeight",
      .orNull .number (currentness.bind LocalChainCurrentness.estimatedTipHeight)),
    (Chars.of "localChainStale", .orNull .bool (currentness.bind LocalChainCurrentness.stale)),
    (Chars.of "delegation", .bool delegation),
    (Chars.of "resourceRecords", .array (resourceTypes.map .string)),
    (Chars.of "nameserverCandidates", nameserverCandidates trace.events),
    (Chars.of "authoritativeDns", authoritativeDnsTrace trace.events),
    (Chars.of "dnssec", .string (dnssecTraceStatus trace.resolution trace.error)),
    (Chars.of "originAddress",
      .string (if originAddress then Chars.of "found" else Chars.of "missing")),
    (Chars.of "tls", tlsTrace input trace.tls trace.error),
    (Chars.of "fallback", trace.marker.toJson),
    (Chars.of "dnsAttempts", .array (trace.events.map DnsTraceEvent.toJson)),
    (Chars.of "finalError", .orNull (fun error => .string (toString error).toList) trace.error)]

/-- `trace_mode` -/
def traceMode (trace : List Char) : List Char :=
  if Chars.of "\"mode\":\"strict\"" <:+: trace then Chars.of "strict"
  else Chars.of "compatibility"

/-- `trace_doh_fallback` -/
def traceDohFallback (trace : List Char) : List Char :=
  if Chars.of "\"used\":true" <:+: trace then Chars.of "yes" else Chars.of "no"

/-! ## What can be read off it -/

open Json

omit [Digests] in
theorem hasPlainNames_tlsTrace (input : GatewayHttpRequestInput) (tls : TlsTraceInput)
    (error : Option GatewayError) : (tlsTrace input tls error).HasPlainNames := by
  rw [tlsTrace]
  split_ifs
  · exact hasPlainNames_null
  · simp (disch := decide) [TlsaRecord.toJson, TlsCertificateInspection.toJson, plain_of]

theorem hasPlainNames_resolutionTrace (input : GatewayHttpRequestInput) (trace : TraceInput) :
    (resolutionTrace input trace).HasPlainNames := by
  have htls := hasPlainNames_tlsTrace input trace.tls trace.error
  have hmarker : trace.marker.toJson.HasPlainNames := by
    rw [FallbackMarker.toJson]
    cases trace.marker.used <;> simp (disch := decide) [plain_of]
  simp (disch := decide) [resolutionTrace, plain_of, nameserverCandidates, authoritativeDnsTrace,
    DnsTraceEvent.toJson, htls, hmarker]

omit [Digests] in
theorem not_mem_fields_tlsTrace (input : GatewayHttpRequestInput) (tls : TlsTraceInput)
    (error : Option GatewayError) :
    (Chars.of "mode", string (Chars.of "strict")) ∉ (tlsTrace input tls error).fields ∧
      (Chars.of "used", bool true) ∉ (tlsTrace input tls error).fields := by
  have hmode (validation : TlsValidation) : Chars.of "strict" ≠ tlsModeName validation := by
    rw [tlsModeName]
    cases validation.mode <;> simp [Chars.of_inj]
  simp only [tlsTrace]
  split_ifs
  · simp
  · simp [mem_fields_object, mem_fields_array, mem_fields_orNull, TlsaRecord.toJson,
      TlsCertificateInspection.toJson, Chars.of_inj]
    cases tls.validation <;> simp [orNull, hmode]

theorem mem_fields_resolutionTrace (input : GatewayHttpRequestInput) (trace : TraceInput) :
    ((Chars.of "mode", string (Chars.of "strict")) ∈ (resolutionTrace input trace).fields ↔
      trace.mode = .strict) ∧
    ((Chars.of "used", bool true) ∈ (resolutionTrace input trace).fields ↔
      trace.marker.used = true) := by
  obtain ⟨hmode, hused⟩ := not_mem_fields_tlsTrace input trace.tls trace.error
  have hstrict : Chars.of "strict" = trace.mode.asStr ↔ trace.mode = .strict := by
    cases trace.mode <;> simp [GatewayResolutionMode.asStr, Chars.of_inj]
  cases hmarker : trace.marker.used <;>
    simp [resolutionTrace, mem_fields_object, mem_fields_array, mem_fields_orNull, Chars.of_inj,
      nameserverCandidates, authoritativeDnsTrace, DnsTraceEvent.toJson, hmode, hused,
      FallbackMarker.toJson, hmarker, hstrict]

omit [Digests] [Sha2] in
theorem fieldText_mode : fieldText (Chars.of "mode") (string (Chars.of "strict")) =
    Chars.of "\"mode\":\"strict\"" := by
  rw [fieldText, render, quote, escape_of_plain (plain_of (by decide))]
  unfold Chars.of
  decide

omit [Digests] [Sha2] in
theorem fieldText_used : fieldText (Chars.of "used") (bool true) = Chars.of "\"used\":true" := by
  rw [fieldText, render, if_pos rfl]
  unfold Chars.of
  decide

/-- The mode that is read off the trace is that of the request, and the DoH server is said to have
    been used just when the marker says so. -/
theorem traceMode_render (input : GatewayHttpRequestInput) (trace : TraceInput) :
    traceMode (resolutionTrace input trace).render = trace.mode.asStr ∧
      traceDohFallback (resolutionTrace input trace).render =
        if trace.marker.used then Chars.of "yes" else Chars.of "no" := by
  obtain ⟨hmode, hused⟩ := mem_fields_resolutionTrace input trace
  have hplain := hasPlainNames_resolutionTrace input trace
  rw [← fieldText_infix_render_iff (plain_of (by decide)) (leads_string (plain_of (by decide)))
    hplain, fieldText_mode] at hmode
  rw [← fieldText_infix_render_iff (plain_of (by decide)) (leads_bool true) hplain,
    fieldText_used] at hused
  constructor
  · rw [traceMode, if_congr hmode rfl rfl]
    cases trace.mode <;> rfl
  · rw [traceDohFallback, if_congr hused rfl rfl]

end Hns
