import Hns.Resolver.Records
import Hns.Resolver.Verifier

/-!
# Delegated resolution

How the `AuthoritativeDnssecResolver` of `hns-resolver` answers a request under
a delegation from the Handshake root. Without DS records it takes the answer of
a server as it is. Otherwise it validates every RRset of the answer, follows the
CNAME records in the zone (`answerLoop`), goes down to a child zone, and asks
for a proof where there is no answer.
-/

namespace Hns

open EStateM (attempt checked)

def maxCnameChainLen : ℕ := 8

structure ResolutionRequest where
  qname : List Char
  qtype : UInt16
  deriving DecidableEq

structure ResolutionAnswer where
  name : DnsName
  records : List ResourceRecord
  secure : Bool
  deriving DecidableEq

variable {σ : Type}

/-! ## Servers -/

/-- The first answer of the servers, or the last of their errors. -/
def firstAnswer (resolve : SocketAddr → EStateM ResolverError σ ResolutionAnswer) :
    ResolverError → List SocketAddr → EStateM ResolverError σ ResolutionAnswer
  | lastError, [] => throw lastError
  | _, server :: servers => do
    match ← attempt (resolve server) with
    | .ok answer => return answer
    | .error error => firstAnswer resolve error servers

/-! ## Proofs -/

/-- The records of a response that may deny data at a name. -/
def noDataRecords (response : DnsMessage) (requestName : DnsName) : DenialRecords :=
  let proofRecords := combinedResponseRecords response
  { nsecRrset := recordsFor proofRecords requestName .nsec
    nsecRrsigRrset := recordsOfType proofRecords .rrsig
    nsec3Rrset := recordsOfType proofRecords .nsec3
    nsec3RrsigRrset := recordsOfType proofRecords .rrsig }

/-- The records of a response that may deny a name. -/
def nameErrorRecords (response : DnsMessage) : DenialRecords :=
  let proofRecords := combinedResponseRecords response
  { nsecRrset := recordsOfType proofRecords .nsec
    nsecRrsigRrset := recordsOfType proofRecords .rrsig
    nsec3Rrset := recordsOfType proofRecords .nsec3
    nsec3RrsigRrset := recordsOfType proofRecords .rrsig }

/-- The answer that a proof gives, with the CNAME records that led to it. -/
def provenAnswer (requestName : DnsName) (prefixRecords : List ResourceRecord) : ResolutionAnswer :=
  ⟨requestName, prefixRecords, true⟩

/-- A proof for one of the closest enclosers. -/
def tryClosestEnclosers (validate : DnsName → EStateM ResolverError σ Bool)
    (requestName : DnsName) (prefixRecords : List ResourceRecord) :
    List DnsName → EStateM ResolverError σ ResolutionAnswer
  | [] => throw .dnssecFailed
  | closestEncloser :: candidates => do
    if ← validate closestEncloser then return provenAnswer requestName prefixRecords
    else tryClosestEnclosers validate requestName prefixRecords candidates

section

variable (verifier : DelegatedDnssecVerifier σ)

def resolveSecureNoData (keys : DelegatedKeys) (requestName : DnsName) (qtype : RecordType)
    (response : DnsMessage) (prefixRecords : List ResourceRecord) :
    EStateM ResolverError σ ResolutionAnswer := do
  if keys.dnskeyRrset = [] ∨ keys.dnskeyRrsigRrset = [] then throw .dnssecFailed
  let secure ← verifier.validateNoData
    ⟨keys, noDataRecords response requestName, requestName, qtype⟩
  if !secure then throw .dnssecFailed
  return provenAnswer requestName prefixRecords

def resolveSecureNameError (keys : DelegatedKeys) (requestName : DnsName) (response : DnsMessage)
    (prefixRecords : List ResourceRecord) : EStateM ResolverError σ ResolutionAnswer := do
  if keys.dnskeyRrset = [] ∨ keys.dnskeyRrsigRrset = [] then throw .dnssecFailed
  let candidates ← checked (closestEncloserCandidates requestName keys.dnskeyOwner)
  tryClosestEnclosers (fun closestEncloser => verifier.validateNameError
    ⟨keys, nameErrorRecords response, requestName, closestEncloser⟩) requestName prefixRecords
      candidates

def resolveSecureChildNoData (keys : DelegatedChildKeys) (requestName : DnsName)
    (qtype : RecordType) (response : DnsMessage) (prefixRecords : List ResourceRecord) :
    EStateM ResolverError σ ResolutionAnswer := do
  let secure ← verifier.validateChildNoData
    ⟨keys, noDataRecords response requestName, requestName, qtype⟩
  if !secure then throw .dnssecFailed
  return provenAnswer requestName prefixRecords

def resolveSecureChildNameError (keys : DelegatedChildKeys) (requestName : DnsName)
    (response : DnsMessage) (prefixRecords : List ResourceRecord) :
    EStateM ResolverError σ ResolutionAnswer := do
  if keys.childDnskeyRrset = [] ∨ keys.childDnskeyRrsigRrset = [] then throw .dnssecFailed
  let candidates ← checked (closestEncloserCandidates requestName keys.childDnskeyOwner)
  tryClosestEnclosers (fun closestEncloser => verifier.validateChildNameError
    ⟨keys, nameErrorRecords response, requestName, closestEncloser⟩) requestName prefixRecords
      candidates

/-! ## Answers -/

/-- The signatures of a response at a name, of which there has to be one, and the check of an RRset
    with them. -/
def validateAnswered (validate : List ResourceRecord → EStateM ResolverError σ Bool)
    (owner : DnsName) (response : DnsMessage) : EStateM ResolverError σ Unit := do
  let rrsigRrset := recordsFor response.answers owner .rrsig
  if rrsigRrset = [] then throw .dnssecFailed
  let secure ← validate rrsigRrset
  if !secure then throw .dnssecFailed

def validateSecureRrset (keys : DelegatedKeys) (owner : DnsName) (rrset : List ResourceRecord)
    (response : DnsMessage) : EStateM ResolverError σ Unit :=
  validateAnswered (fun rrsigRrset => verifier.validatePositiveRrset ⟨keys, rrset, rrsigRrset⟩)
    owner response

def validateSecureChildRrset (keys : DelegatedChildKeys) (owner : DnsName)
    (rrset : List ResourceRecord) (response : DnsMessage) : EStateM ResolverError σ Unit :=
  validateAnswered (fun rrsigRrset => verifier.validateChildPositiveRrset ⟨keys, rrset, rrsigRrset⟩)
    owner response

end

/-- What differs between the answers of a zone and those of its child. -/
structure AnswerSource (σ : Type) where
  zoneOwner : DnsName
  requestName : DnsName
  qtype : RecordType
  /-- The question is asked again, for another name. -/
  query : DnsName → EStateM ResolverError σ DnsMessage
  validateRrset : DnsName → List ResourceRecord → DnsMessage → EStateM ResolverError σ Unit
  nameError : DnsName → DnsMessage → List ResourceRecord → EStateM ResolverError σ ResolutionAnswer
  noData : DnsName → DnsMessage → List ResourceRecord → EStateM ResolverError σ ResolutionAnswer

/-- The CNAME records at a name, unless they are what is asked for. -/
def AnswerSource.cnamesAt (source : AnswerSource σ) (response : DnsMessage) (owner : DnsName) :
    List ResourceRecord :=
  if source.qtype = .cname then [] else recordsFor response.answers owner .cname

/-- The rounds of the answer loops: the RRset that is asked for, or a CNAME that is followed, or a
    new query, or a proof that there is nothing. -/
def answerLoop (source : AnswerSource σ) :
    ℕ → DnsMessage → DnsName → List ResourceRecord → EStateM ResolverError σ ResolutionAnswer
  | 0, _, _, _ => throw .dnssecFailed
  | rounds + 1, response, owner, cnameRecords => do
    let targetRrset := recordsFor response.answers owner source.qtype
    let cnameRrset := source.cnamesAt response owner
    if targetRrset ≠ [] ∧ cnameRrset ≠ [] then throw .dnssecFailed
    if targetRrset ≠ [] then
      source.validateRrset owner targetRrset response
      return ⟨source.requestName, cnameRecords ++ targetRrset, true⟩
    else if cnameRrset ≠ [] then
      source.validateRrset owner cnameRrset response
      let nextOwner ← checked (cnameTarget cnameRrset)
      if !nextOwner.isSubdomainOrEqual source.zoneOwner then throw .dnssecFailed
      answerLoop source rounds response nextOwner (cnameRecords ++ cnameRrset)
    else if owner ≠ source.requestName ∧
        response.questions.head?.map DnsQuestion.name ≠ some owner then
      let response ← source.query owner
      answerLoop source rounds response owner cnameRecords
    else if response.header.flags.rcode = dnsRcodeNxdomain then
      source.nameError owner response cnameRecords
    else source.noData owner response cnameRecords

section

variable (env : Environment σ) (verifier : DelegatedDnssecVerifier σ)

/-- The answers of a delegated zone. -/
def answerSource (server : SocketAddr) (keys : DelegatedKeys) (requestName : DnsName)
    (qtype : RecordType) : AnswerSource σ where
  zoneOwner := keys.dnskeyOwner
  requestName := requestName
  qtype := qtype
  query owner := env.dnsQuery server owner qtype
  validateRrset := validateSecureRrset verifier keys
  nameError := resolveSecureNameError verifier keys
  noData owner := resolveSecureNoData verifier keys owner qtype

def resolveSecureAnswerRecords (server : SocketAddr) (keys : DelegatedKeys) (requestName : DnsName)
    (qtype : RecordType) (initialResponse : DnsMessage) :
    EStateM ResolverError σ ResolutionAnswer :=
  answerLoop (answerSource env verifier server keys requestName qtype) (maxCnameChainLen + 1)
    initialResponse requestName []

/-- The answers of a child zone. -/
def childAnswerSource (server : SocketAddr) (keys : DelegatedChildKeys) (requestName : DnsName)
    (qtype : RecordType) : AnswerSource σ where
  zoneOwner := keys.childDnskeyOwner
  requestName := requestName
  qtype := qtype
  query owner := env.dnsQuery server owner qtype
  validateRrset := validateSecureChildRrset verifier keys
  nameError := resolveSecureChildNameError verifier keys
  noData owner := resolveSecureChildNoData verifier keys owner qtype

def resolveSecureChildAnswerRecords (server : SocketAddr) (keys : DelegatedChildKeys)
    (requestName : DnsName) (qtype : RecordType) (initialResponse : DnsMessage) :
    EStateM ResolverError σ ResolutionAnswer :=
  answerLoop (childAnswerSource env verifier server keys requestName qtype) (maxCnameChainLen + 1)
    initialResponse requestName []

/-! ## Child zones -/

/-- The keys of the child zone, with the DNSKEY RRset that a server has given for it. -/
def ChildReferral.keys (referral : ChildReferral) (parent : DelegatedKeys)
    (childDnskeyRrset childDnskeyRrsigRrset : List ResourceRecord) : DelegatedChildKeys where
  parentDnskeyOwner := parent.dnskeyOwner
  parentDsRrset := parent.dsRrset
  parentDnskeyRrset := parent.dnskeyRrset
  parentDnskeyRrsigRrset := parent.dnskeyRrsigRrset
  childDnskeyOwner := referral.owner
  childDsRrset := referral.dsRrset
  childDsRrsigRrset := referral.dsRrsigRrset
  childDnskeyRrset := childDnskeyRrset
  childDnskeyRrsigRrset := childDnskeyRrsigRrset

def resolveSecureChildFromServer (parent : DelegatedKeys) (referral : ChildReferral)
    (requestName : DnsName) (qtype : RecordType) (server : SocketAddr) :
    EStateM ResolverError σ ResolutionAnswer := do
  let childDnskeyResponse ← env.dnsQuery server referral.owner .dnskey
  let childDnskeyRrset := recordsFor childDnskeyResponse.answers referral.owner .dnskey
  let childDnskeyRrsigRrset := recordsFor childDnskeyResponse.answers referral.owner .rrsig
  if childDnskeyRrset = [] ∨ childDnskeyRrsigRrset = [] then throw .dnssecFailed
  let targetResponse ← env.dnsQuery server requestName qtype
  resolveSecureChildAnswerRecords env verifier server
    (referral.keys parent childDnskeyRrset childDnskeyRrsigRrset) requestName qtype targetResponse

def resolveSecureChildReferral (parent : DelegatedKeys) (referral : ChildReferral)
    (requestName : DnsName) (qtype : RecordType) : EStateM ResolverError σ ResolutionAnswer := do
  if parent.dnskeyRrset = [] ∨ parent.dnskeyRrsigRrset = [] ∨ referral.dsRrset = [] ∨
      referral.dsRrsigRrset = [] then throw .dnssecFailed
  if referral.servers = [] then throw .noNameserverAddress
  firstAnswer (resolveSecureChildFromServer env verifier parent referral requestName qtype)
    .noNameserverAddress referral.servers

/-! ## Delegated zones -/

/-- The rest of `resolve_delegated_from_server`, with the response and the keys of the zone. -/
def resolveSecureFromServer (keys : DelegatedKeys) (requestName : DnsName) (qtype : RecordType)
    (server : SocketAddr) (targetResponse : DnsMessage) :
    EStateM ResolverError σ ResolutionAnswer :=
  let targetRrset := recordsFor targetResponse.answers requestName qtype
  if targetResponse.header.flags.rcode = dnsRcodeNxdomain then
    resolveSecureNameError verifier keys requestName targetResponse []
  else match childReferral targetResponse keys.dnskeyOwner requestName with
  | some referral => resolveSecureChildReferral env verifier keys referral requestName qtype
  | none =>
    if targetRrset = [] ∧ recordsFor targetResponse.answers requestName .cname = [] then
      resolveSecureNoData verifier keys requestName qtype targetResponse []
    else if keys.dnskeyRrset = [] ∨ keys.dnskeyRrsigRrset = [] then throw .dnssecFailed
    else resolveSecureAnswerRecords env verifier server keys requestName qtype targetResponse

def resolveDelegatedFromServer (delegation : HnsDelegation) (requestName : DnsName)
    (qtype : RecordType) (dsRrset : List ResourceRecord) (server : SocketAddr) :
    EStateM ResolverError σ ResolutionAnswer := do
  let targetResponse ← env.dnsQuery server requestName qtype
  if dsRrset = [] then
    return ⟨requestName, recordsFor targetResponse.answers requestName qtype, false⟩
  else
    let dnskeyResponse ← env.dnsQuery server delegation.owner .dnskey
    resolveSecureFromServer env verifier
      { dnskeyOwner := delegation.owner
        dsRrset := dsRrset
        dnskeyRrset := recordsFor dnskeyResponse.answers delegation.owner .dnskey
        dnskeyRrsigRrset := recordsFor dnskeyResponse.answers delegation.owner .rrsig }
      requestName qtype server targetResponse

def resolveDelegated (request : ResolutionRequest) (delegation : HnsDelegation) :
    EStateM ResolverError σ ResolutionAnswer := do
  if request.qtype = 65535 then throw .unsupportedBackend
  let requestName ← checked
    ((DnsName.fromAscii request.qname).mapError fun _ => .unsupportedBackend)
  let servers := nameserverAddresses delegation
  if servers = [] then throw .noNameserverAddress
  let dsRrset := recordsFor delegation.records delegation.owner .ds
  firstAnswer (resolveDelegatedFromServer env verifier delegation requestName
    (.fromCode request.qtype) dsRrset) .noNameserverAddress servers

end

end Hns
