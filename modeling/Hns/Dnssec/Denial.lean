import Hns.Dnssec.Validate

/-!
# Denials of existence

How `hns-dnssec` reads NSEC and NSEC3 records as proofs that a name, or data of
a type at a name, does not exist. An NSEC record denies the names between its
owner and the next one in canonical order, an NSEC3 record those whose hash lies
between two hashes.
-/

namespace Hns

open DnsName

/-! ## Names -/

def nsecCoversName (owner next queryName : DnsName) : Bool :=
  if queryName = owner then false
  else
    match canonicalNameCmp owner next with
    | .lt => canonicalNameCmp owner queryName = .lt ∧ canonicalNameCmp queryName next = .lt
    | .gt => canonicalNameCmp owner queryName = .lt ∨ canonicalNameCmp queryName next = .lt
    | .eq => true

def wildcardChild (closestEncloser : DnsName) : Except DnssecError DnsName :=
  let name := if closestEncloser.labels = [] then ['*'] else '*' :: '.' :: closestEncloser.display
  (fromAscii name).mapError fun _ => .nameEncoding

def nextCloserName (queryName closestEncloser : DnsName) : Except DnssecError DnsName :=
  if !queryName.isStrictSubdomain closestEncloser then .error .nameEncoding
  else
    let queryLabels := queryName.labels
    let closestLen := closestEncloser.labels.length
    if queryLabels.length < closestLen + 1 then .error .nameEncoding
    else
      let start := queryLabels.length - (closestLen + 1)
      (fromAscii (join (queryLabels.drop start))).mapError fun _ => .nameEncoding

/-- The first item that passes a test, if the tests before it do not fail. -/
def firstMatch {α : Type} (test : α → Except DnssecError Bool) :
    List α → Except DnssecError (Option α)
  | [] => .ok none
  | a :: l => do if ← test a then return some a else firstMatch test l

/-- Whether an item passes the test, as a status. -/
def secureIfAny {α : Type} (test : α → Except DnssecError Bool) (l : List α) :
    Except DnssecError DnssecStatus := do
  if ← l.anyM test then return .secure else return .bogus

/-! ## NSEC -/

section

variable [DnssecCrypto]

structure NsecNoDataValidationInput where
  signerName : DnsName
  dnskeyRrset : List ResourceRecord
  queryName : DnsName
  queryType : RecordType
  nsecRrset : List ResourceRecord
  nsecRrsigRrset : List ResourceRecord
  now : DnssecTime

structure NsecNameRangeValidationInput where
  signerName : DnsName
  dnskeyRrset : List ResourceRecord
  queryName : DnsName
  nsecRrset : List ResourceRecord
  nsecRrsigRrset : List ResourceRecord
  now : DnssecTime

structure NsecNameErrorValidationInput where
  signerName : DnsName
  dnskeyRrset : List ResourceRecord
  queryName : DnsName
  closestEncloser : DnsName
  coveringNsecRrset : List ResourceRecord
  coveringNsecRrsigRrset : List ResourceRecord
  wildcardNsecRrset : List ResourceRecord
  wildcardNsecRrsigRrset : List ResourceRecord
  now : DnssecTime

/-- Whether an NSEC record shows neither the type nor a CNAME. -/
def nsecLacks (queryType : RecordType) (record : ResourceRecord) : Except DnssecError Bool := do
  let nsec ← NsecRecord.fromRecord record
  if ← nsec.hasType queryType then return false
  else return !(← nsec.hasType .cname)

def validateNsecNoData (input : NsecNoDataValidationInput) : Except DnssecError DnssecStatus :=
  thenIfSecure (validateRrsetSignature input.signerName input.dnskeyRrset input.nsecRrset
    input.nsecRrsigRrset input.now) fun _ =>
  secureIfAny (nsecLacks input.queryType) (input.nsecRrset.filter fun record =>
    record.recordType = .nsec ∧ record.name = input.queryName)

/-- Whether an NSEC record covers the name. -/
def nsecRecordCovers (queryName : DnsName) (record : ResourceRecord) : Except DnssecError Bool := do
  let nsec ← NsecRecord.fromRecord record
  return nsecCoversName record.name nsec.nextDomainName queryName

def validateNsecNameRange (input : NsecNameRangeValidationInput) :
    Except DnssecError DnssecStatus :=
  thenIfSecure (validateRrsetSignature input.signerName input.dnskeyRrset input.nsecRrset
    input.nsecRrsigRrset input.now) fun _ =>
  secureIfAny (nsecRecordCovers input.queryName) (input.nsecRrset.filter fun record =>
    record.recordType = .nsec)

def validateNsecNameError (input : NsecNameErrorValidationInput) :
    Except DnssecError DnssecStatus := do
  if !input.queryName.isStrictSubdomain input.closestEncloser then return .bogus
  else if input.coveringNsecRrset = [] ∨ input.wildcardNsecRrset = [] then return .bogus
  else
    thenIfSecure (validateNsecNameRange ⟨input.signerName, input.dnskeyRrset, input.queryName,
      input.coveringNsecRrset, input.coveringNsecRrsigRrset, input.now⟩) fun _ => do
    let wildcardName ← wildcardChild input.closestEncloser
    thenIfSecure (validateNsecNameRange ⟨input.signerName, input.dnskeyRrset, wildcardName,
      input.wildcardNsecRrset, input.wildcardNsecRrsigRrset, input.now⟩) fun _ =>
    return .secure

/-! ## NSEC3 -/

def nsec3HashLoop (salt : List UInt8) : ℕ → List UInt8 → List UInt8
  | 0, hash => hash
  | iterations + 1, hash => nsec3HashLoop salt iterations (DnssecCrypto.sha1 (hash ++ salt)).bytes

def nsec3Hash (name : DnsName) (hashAlgorithm : UInt8) (iterations : UInt16) (salt : List UInt8) :
    Except DnssecError (List UInt8) := do
  if hashAlgorithm ≠ nsec3HashSha1 then throw .unsupportedDigest
  if nsec3MaxIterations < iterations then throw .invalidNsec3
  let canonicalName ← name.encodeWire.mapError fun _ => .nameEncoding
  return nsec3HashLoop salt iterations.toNat (DnssecCrypto.sha1 (canonicalName ++ salt)).bytes

/-- The loop of `decode_base32hex_nopad`, with the bits that are not yet written. -/
def decodeBase32hexLoop : List UInt8 → ℕ → ℕ → Option (List UInt8)
  | [], buffer, bits => if 0 < bits ∧ buffer % 2 ^ bits ≠ 0 then none else some []
  | byte :: input, buffer, bits => do
    let value ←
      if 0x30 ≤ byte ∧ byte ≤ 0x39 then some (byte.toNat - 0x30)
      else if 0x61 ≤ byte ∧ byte ≤ 0x76 then some (byte.toNat - 0x61 + 10)
      else if 0x41 ≤ byte ∧ byte ≤ 0x56 then some (byte.toNat - 0x41 + 10)
      else none
    let buffer := (buffer * 32 + value) % 2 ^ 32
    let bits := bits + 5
    if 8 ≤ bits then
      let out ← decodeBase32hexLoop input buffer (bits - 8)
      return UInt8.ofNat (buffer / 2 ^ (bits - 8)) :: out
    else decodeBase32hexLoop input buffer bits

def decodeBase32hexNopad (input : List UInt8) : Option (List UInt8) :=
  decodeBase32hexLoop input 0 0

def nsec3CoversHash (ownerHash nextHash queryHash : List UInt8) : Bool :=
  if queryHash = ownerHash ∨ ownerHash.length ≠ nextHash.length ∨
      ownerHash.length ≠ queryHash.length then false
  else if ownerHash < nextHash then ownerHash < queryHash ∧ queryHash < nextHash
  else if nextHash < ownerHash then ownerHash < queryHash ∨ queryHash < nextHash
  else true

def nsec3OwnerHash (owner zoneName : DnsName) : Except DnssecError (List UInt8) :=
  match owner.labels with
  | label :: labels =>
    if labels ≠ zoneName.labels then .error .invalidNsec3
    else Except.ofOption .invalidNsec3 (decodeBase32hexNopad label.bytes)
  | [] => .error .invalidNsec3

structure Nsec3ProofRecord where
  nsec3 : Nsec3Record
  ownerHash : List UInt8
  deriving DecidableEq

/-- The round of `parse_nsec3_proofs` for a record; `none` where it goes on with the next one. -/
def parseNsec3Proof (zoneName : DnsName) (record : ResourceRecord) :
    Except DnssecError (Option Nsec3ProofRecord) := do
  let nsec3 ← Nsec3Record.fromRecord record
  if !nsec3.isUsable then return none
  else
    let ownerHash ← nsec3OwnerHash record.name zoneName
    if ownerHash.length ≠ nsec3.nextHashedOwnerName.length then return none
    else return some ⟨nsec3, ownerHash⟩

def parseNsec3Proofs (nsec3Rrset : List ResourceRecord) (zoneName : DnsName) :
    Except DnssecError (List Nsec3ProofRecord) := do
  let proofs ← (nsec3Rrset.filter fun record => record.recordType = .nsec3).mapM
    (parseNsec3Proof zoneName)
  return proofs.reduceOption

def sameNsec3Params (left right : Nsec3Record) : Bool :=
  left.hashAlgorithm = right.hashAlgorithm ∧ left.iterations = right.iterations ∧
    left.salt = right.salt

def nsec3MatchesName (nsec3 : Nsec3Record) (ownerHash : List UInt8) (name : DnsName) :
    Except DnssecError Bool := do
  if !nsec3.isUsable then return false
  else
    let hash ← nsec3Hash name nsec3.hashAlgorithm nsec3.iterations nsec3.salt
    return ownerHash = hash

def nsec3CoversName (nsec3 : Nsec3Record) (ownerHash : List UInt8) (name : DnsName) :
    Except DnssecError Bool := do
  if !nsec3.isUsable then return false
  else
    let hash ← nsec3Hash name nsec3.hashAlgorithm nsec3.iterations nsec3.salt
    return nsec3CoversHash ownerHash nsec3.nextHashedOwnerName hash

/-- Whether a proof has other parameters than the expected ones. -/
def hasOtherParams (expected : Option Nsec3Record) (proof : Nsec3ProofRecord) : Bool :=
  expected.any fun expected => !sameNsec3Params expected proof.nsec3

def findNsec3MatchingProof (proofs : List Nsec3ProofRecord) (name : DnsName)
    (expected : Option Nsec3Record) : Except DnssecError (Option Nsec3ProofRecord) :=
  firstMatch (fun proof => if hasOtherParams expected proof then .ok false
    else nsec3MatchesName proof.nsec3 proof.ownerHash name) proofs

def findNsec3CoveringProof (proofs : List Nsec3ProofRecord) (name : DnsName)
    (expected : Option Nsec3Record) : Except DnssecError (Option Nsec3ProofRecord) :=
  firstMatch (fun proof => if hasOtherParams expected proof then .ok false
    else nsec3CoversName proof.nsec3 proof.ownerHash name) proofs

def closestNsec3IsAuthoritative (nsec3 : Nsec3Record) : Except DnssecError Bool := do
  if ← nsec3.hasType (.unknown 39) then return false
  else if ← nsec3.hasType .ns then return ← nsec3.hasType .soa
  else return true

def validateNsec3RrsetSignature (signerName : DnsName)
    (dnskeyRrset nsec3Rrset nsec3RrsigRrset : List ResourceRecord) (now : DnssecTime) :
    Except DnssecError DnssecStatus :=
  if nsec3Rrset = [] then .ok .bogus
  else validateRrsetSignature signerName dnskeyRrset nsec3Rrset nsec3RrsigRrset now

structure Nsec3NoDataValidationInput where
  signerName : DnsName
  dnskeyRrset : List ResourceRecord
  queryName : DnsName
  queryType : RecordType
  nsec3Rrset : List ResourceRecord
  nsec3RrsigRrset : List ResourceRecord
  now : DnssecTime

/-- Whether a proof matches the name and shows neither the type nor a CNAME. -/
def nsec3Lacks (queryName : DnsName) (queryType : RecordType) (proof : Nsec3ProofRecord) :
    Except DnssecError Bool := do
  if !(← nsec3MatchesName proof.nsec3 proof.ownerHash queryName) then return false
  else if ← proof.nsec3.hasType queryType then return false
  else return !(← proof.nsec3.hasType .cname)

def validateNsec3NoData (input : Nsec3NoDataValidationInput) : Except DnssecError DnssecStatus :=
  thenIfSecure (validateNsec3RrsetSignature input.signerName input.dnskeyRrset input.nsec3Rrset
    input.nsec3RrsigRrset input.now) fun _ => do
  let proofs ← parseNsec3Proofs input.nsec3Rrset input.signerName
  secureIfAny (nsec3Lacks input.queryName input.queryType) proofs

structure Nsec3ClosestEncloserProof where
  closest : Nsec3ProofRecord
  nextCloser : Nsec3ProofRecord
  deriving DecidableEq

inductive Nsec3ProofValidation
  | valid (proof : Nsec3ClosestEncloserProof)
  | status (status : DnssecStatus)

structure Nsec3ClosestEncloserProofInput where
  signerName : DnsName
  dnskeyRrset : List ResourceRecord
  queryName : DnsName
  closestEncloser : DnsName
  closestEncloserNsec3Rrset : List ResourceRecord
  closestEncloserNsec3RrsigRrset : List ResourceRecord
  nextCloserNsec3Rrset : List ResourceRecord
  nextCloserNsec3RrsigRrset : List ResourceRecord
  now : DnssecTime

def validateNsec3ClosestEncloserProof (input : Nsec3ClosestEncloserProofInput) :
    Except DnssecError Nsec3ProofValidation := do
  if !input.queryName.isStrictSubdomain input.closestEncloser then return .status .bogus
  else
    let closestStatus ← validateNsec3RrsetSignature input.signerName input.dnskeyRrset
      input.closestEncloserNsec3Rrset input.closestEncloserNsec3RrsigRrset input.now
    if closestStatus ≠ .secure then return .status closestStatus
    else
      let closestProofs ← parseNsec3Proofs input.closestEncloserNsec3Rrset input.signerName
      match ← findNsec3MatchingProof closestProofs input.closestEncloser none with
      | none => return .status .bogus
      | some closest =>
        if !(← closestNsec3IsAuthoritative closest.nsec3) then return .status .bogus
        else
          let nextCloserCandidate ← nextCloserName input.queryName input.closestEncloser
          let nextStatus ← validateNsec3RrsetSignature input.signerName input.dnskeyRrset
            input.nextCloserNsec3Rrset input.nextCloserNsec3RrsigRrset input.now
          if nextStatus ≠ .secure then return .status nextStatus
          else
            let nextProofs ← parseNsec3Proofs input.nextCloserNsec3Rrset input.signerName
            match ← findNsec3CoveringProof nextProofs nextCloserCandidate (some closest.nsec3) with
            | none => return .status .bogus
            | some nextCloser => return .valid ⟨closest, nextCloser⟩

structure Nsec3NameErrorValidationInput where
  signerName : DnsName
  dnskeyRrset : List ResourceRecord
  queryName : DnsName
  closestEncloser : DnsName
  closestEncloserNsec3Rrset : List ResourceRecord
  closestEncloserNsec3RrsigRrset : List ResourceRecord
  nextCloserNsec3Rrset : List ResourceRecord
  nextCloserNsec3RrsigRrset : List ResourceRecord
  wildcardNsec3Rrset : List ResourceRecord
  wildcardNsec3RrsigRrset : List ResourceRecord
  now : DnssecTime

def validateNsec3NameError (input : Nsec3NameErrorValidationInput) :
    Except DnssecError DnssecStatus := do
  match ← validateNsec3ClosestEncloserProof ⟨input.signerName, input.dnskeyRrset, input.queryName,
      input.closestEncloser, input.closestEncloserNsec3Rrset, input.closestEncloserNsec3RrsigRrset,
      input.nextCloserNsec3Rrset, input.nextCloserNsec3RrsigRrset, input.now⟩ with
  | .status status => return status
  | .valid closestProof =>
    if closestProof.nextCloser.nsec3.isOptOut then return .insecureDelegation
    else
      let wildcardName ← wildcardChild input.closestEncloser
      thenIfSecure (validateNsec3RrsetSignature input.signerName input.dnskeyRrset
        input.wildcardNsec3Rrset input.wildcardNsec3RrsigRrset input.now) fun _ => do
      let wildcardProofs ← parseNsec3Proofs input.wildcardNsec3Rrset input.signerName
      match ← findNsec3CoveringProof wildcardProofs wildcardName
          (some closestProof.closest.nsec3) with
      | none => return .bogus
      | some wildcardProof =>
        if wildcardProof.nsec3.isOptOut then return .insecureDelegation else return .secure

end

end Hns
