import Hns.Dnssec.Canonical

/-!
# Signature validation

How `hns-dnssec` verifies a signature under a key (`verifyRrsig`), whether a key
matches a DS record (`validateDelegationLink`), and the chain of both from the
DS records at hand to a target (`validateDnssecChain`).
-/

namespace Hns

section

variable [DnssecCrypto]

/-! ## Signatures -/

def parseRsaPublicKey (publicKey : List UInt8) : Except DnssecError (List UInt8 × List UInt8) := do
  let (exponentLen, cursor) ← match publicKey with
    | [] => .error .invalidDnskey
    | first :: rest =>
      if first = 0 then
        match rest with
        | l₁ :: l₂ :: _ => .ok ((Octet.be16 l₁ l₂).toNat, 3)
        | _ => .error .invalidDnskey
      else .ok (first.toNat, 1)
  if exponentLen = 0 then throw .invalidDnskey
  if publicKey.length ≤ cursor + exponentLen then throw .invalidDnskey
  return ((publicKey.drop cursor).take exponentLen, publicKey.drop (cursor + exponentLen))

def verifyRsa (rrset : List ResourceRecord) (rrsig : RrsigRecord) (dnskey : DnskeyRecord)
    (now : DnssecTime) (hash : RsaHash) : Except DnssecError Bool := do
  let (exponent, modulus) ← parseRsaPublicKey dnskey.publicKey
  let data ← signedData rrset rrsig now
  return DnssecCrypto.rsaVerify hash modulus exponent data rrsig.signature

def verifyEcdsaP256Sha256 (rrset : List ResourceRecord) (rrsig : RrsigRecord)
    (dnskey : DnskeyRecord) (now : DnssecTime) : Except DnssecError Bool := do
  if dnskey.publicKey.length ≠ 64 then throw .invalidDnskey
  if rrsig.signature.length ≠ 64 then throw .invalidSignature
  let sec1PublicKey := 0x04 :: dnskey.publicKey
  if !DnssecCrypto.p256Key sec1PublicKey then throw .invalidDnskey
  if !DnssecCrypto.p256Signature rrsig.signature then throw .invalidSignature
  let data ← signedData rrset rrsig now
  return DnssecCrypto.p256Verify sec1PublicKey data rrsig.signature

def verifyEcdsaP384Sha384 (rrset : List ResourceRecord) (rrsig : RrsigRecord)
    (dnskey : DnskeyRecord) (now : DnssecTime) : Except DnssecError Bool := do
  if dnskey.publicKey.length ≠ 96 then throw .invalidDnskey
  if rrsig.signature.length ≠ 96 then throw .invalidSignature
  let sec1PublicKey := 0x04 :: dnskey.publicKey
  let data ← signedData rrset rrsig now
  return DnssecCrypto.p384Verify sec1PublicKey data rrsig.signature

def verifyEd25519 (rrset : List ResourceRecord) (rrsig : RrsigRecord) (dnskey : DnskeyRecord)
    (now : DnssecTime) : Except DnssecError Bool := do
  if dnskey.publicKey.length ≠ 32 then throw .invalidDnskey
  if rrsig.signature.length ≠ 64 then throw .invalidSignature
  let data ← signedData rrset rrsig now
  return DnssecCrypto.ed25519Verify dnskey.publicKey data rrsig.signature

def verifyRrsig (rrset : List ResourceRecord) (rrsig : RrsigRecord) (dnskey : DnskeyRecord)
    (now : DnssecTime) : Except DnssecError Bool :=
  if dnskey.flags &&& dnskeyZoneFlag = 0 then .ok false
  else if rrsig.algorithm ≠ dnskey.algorithm ∨ rrsig.keyTag ≠ dnskey.keyTag then .ok false
  else if rrsig.algorithm = dnssecAlgorithmRsasha1 ∨
      rrsig.algorithm = dnssecAlgorithmRsasha1Nsec3Sha1 then
    verifyRsa rrset rrsig dnskey now .sha1
  else if rrsig.algorithm = dnssecAlgorithmRsasha256 then verifyRsa rrset rrsig dnskey now .sha256
  else if rrsig.algorithm = dnssecAlgorithmRsasha512 then verifyRsa rrset rrsig dnskey now .sha512
  else if rrsig.algorithm = dnssecAlgorithmEcdsap256sha256 then
    verifyEcdsaP256Sha256 rrset rrsig dnskey now
  else if rrsig.algorithm = dnssecAlgorithmEcdsap384sha384 then
    verifyEcdsaP384Sha384 rrset rrsig dnskey now
  else if rrsig.algorithm = dnssecAlgorithmEd25519 then verifyEd25519 rrset rrsig dnskey now
  else .error .unsupportedAlgorithm

/-! ## RRsets -/

/-- The keys of an RRset. -/
def dnskeysOf (dnskeyRrset : List ResourceRecord) : Except DnssecError (List DnskeyRecord) :=
  (dnskeyRrset.filter fun record => record.recordType = .dnskey).mapM DnskeyRecord.fromRecord

/-- The DS records of an RRset. -/
def dsRecordsOf (dsRrset : List ResourceRecord) : Except DnssecError (List DsRecord) :=
  (dsRrset.filter fun record => record.recordType = .ds).mapM DsRecord.fromRecord

/-- The signatures at the owner and in the class of the first record of an RRset. -/
def rrsigsFor (first : ResourceRecord) (rrsigRrset : List ResourceRecord) :
    Except DnssecError (List RrsigRecord) :=
  (rrsigRrset.filter fun record =>
    record.recordType = .rrsig ∧ record.name = first.name ∧ record.class_ = first.class_).mapM
      RrsigRecord.fromRecord

/-- The pairs of a signature and a key that are tried, in order. -/
def signaturePairs (dnskeyOwner : DnsName) (recordType : RecordType) (rrsigs : List RrsigRecord)
    (dnskeys : List DnskeyRecord) : List (RrsigRecord × DnskeyRecord) :=
  (rrsigs.filter fun rrsig =>
    rrsig.typeCovered = recordType ∧ rrsig.signerName = dnskeyOwner).flatMap fun rrsig =>
      (dnskeys.filter fun dnskey =>
        dnskey.algorithm = rrsig.algorithm ∧ dnskey.keyTag = rrsig.keyTag).map fun dnskey =>
          (rrsig, dnskey)

/-- The loops of `validate_rrset_signature`, with the first error met so far. -/
def trySignatures (rrset : List ResourceRecord) (now : DnssecTime) :
    List (RrsigRecord × DnskeyRecord) → Option DnssecError → Except DnssecError DnssecStatus
  | [], some e => .error e
  | [], none => .ok .bogus
  | (rrsig, dnskey) :: pairs, deferredError =>
    match verifyRrsig rrset rrsig dnskey now with
    | .ok true => .ok .secure
    | .ok false => trySignatures rrset now pairs deferredError
    | .error e => trySignatures rrset now pairs (some (deferredError.getD e))

def validateRrsetSignature (dnskeyOwner : DnsName)
    (dnskeyRrset rrset rrsigRrset : List ResourceRecord) (now : DnssecTime) :
    Except DnssecError DnssecStatus :=
  match rrset with
  | [] => .error .invalidRrset
  | first :: _ => do
    let dnskeys ← dnskeysOf dnskeyRrset
    let rrsigs ← rrsigsFor first rrsigRrset
    trySignatures rrset now (signaturePairs dnskeyOwner first.recordType rrsigs dnskeys) none

def validateDnskeyRrset (dnskeyOwner : DnsName) (dnskeyRrset dnskeyRrsigRrset : List ResourceRecord)
    (now : DnssecTime) : Except DnssecError DnssecStatus :=
  validateRrsetSignature dnskeyOwner dnskeyRrset dnskeyRrset dnskeyRrsigRrset now

end

/-! ## Delegations -/

section

variable [Sha2] [DnssecCrypto]

/-- The loops of `validate_delegation_link`. -/
def tryDelegations (owner : DnsName) :
    List (DnskeyRecord × DsRecord) → Except DnssecError DnssecStatus
  | [] => .ok .bogus
  | (dnskey, ds) :: pairs => do
    if ← verifyDsDigest owner dnskey ds then return .secure else tryDelegations owner pairs

def validateDelegationLink (owner : DnsName) (dsRrset dnskeyRrset : List ResourceRecord) :
    Except DnssecError DnssecStatus := do
  let dsRecords ← dsRecordsOf dsRrset
  if dsRecords = [] then return .insecureDelegation
  else
    let dnskeys ← dnskeysOf dnskeyRrset
    tryDelegations owner (dnskeys.flatMap fun dnskey => dsRecords.map fun ds => (dnskey, ds))

/-- A status other than `secure` ends a validation. -/
def thenIfSecure (status : Except DnssecError DnssecStatus)
    (rest : Unit → Except DnssecError DnssecStatus) : Except DnssecError DnssecStatus := do
  let status ← status
  if status ≠ .secure then return status else rest ()

structure SignedRrsetValidationInput where
  dnskeyOwner : DnsName
  dsRrset : List ResourceRecord
  dnskeyRrset : List ResourceRecord
  dnskeyRrsigRrset : List ResourceRecord
  rrset : List ResourceRecord
  rrsigRrset : List ResourceRecord
  now : DnssecTime

def validateSignedRrset (input : SignedRrsetValidationInput) : Except DnssecError DnssecStatus :=
  thenIfSecure (validateDelegationLink input.dnskeyOwner input.dsRrset input.dnskeyRrset) fun _ =>
  thenIfSecure (validateDnskeyRrset input.dnskeyOwner input.dnskeyRrset input.dnskeyRrsigRrset
    input.now) fun _ =>
  validateRrsetSignature input.dnskeyOwner input.dnskeyRrset input.rrset input.rrsigRrset input.now

structure DnssecChainLink where
  childDnskeyOwner : DnsName
  dsRrset : List ResourceRecord
  dsRrsigRrset : List ResourceRecord
  childDnskeyRrset : List ResourceRecord
  childDnskeyRrsigRrset : List ResourceRecord

structure DnssecChainValidationInput where
  initialDnskeyOwner : DnsName
  initialDsRrset : List ResourceRecord
  initialDnskeyRrset : List ResourceRecord
  initialDnskeyRrsigRrset : List ResourceRecord
  delegationLinks : List DnssecChainLink
  targetRrset : List ResourceRecord
  targetRrsigRrset : List ResourceRecord
  now : DnssecTime

/-- The loop of `validate_dnssec_chain` over the links, and the target at the end. -/
def validateLinks (input : DnssecChainValidationInput) :
    List DnssecChainLink → DnsName → List ResourceRecord → Except DnssecError DnssecStatus
  | [], currentDnskeyOwner, currentDnskeyRrset =>
    validateRrsetSignature currentDnskeyOwner currentDnskeyRrset input.targetRrset
      input.targetRrsigRrset input.now
  | link :: links, currentDnskeyOwner, currentDnskeyRrset =>
    thenIfSecure (validateDelegationLink link.childDnskeyOwner link.dsRrset link.childDnskeyRrset)
      fun _ =>
    thenIfSecure (validateRrsetSignature currentDnskeyOwner currentDnskeyRrset link.dsRrset
      link.dsRrsigRrset input.now) fun _ =>
    thenIfSecure (validateDnskeyRrset link.childDnskeyOwner link.childDnskeyRrset
      link.childDnskeyRrsigRrset input.now) fun _ =>
    validateLinks input links link.childDnskeyOwner link.childDnskeyRrset

def validateDnssecChain (input : DnssecChainValidationInput) : Except DnssecError DnssecStatus :=
  thenIfSecure (validateDelegationLink input.initialDnskeyOwner input.initialDsRrset
    input.initialDnskeyRrset) fun _ =>
  thenIfSecure (validateDnskeyRrset input.initialDnskeyOwner input.initialDnskeyRrset
    input.initialDnskeyRrsigRrset input.now) fun _ =>
  validateLinks input input.delegationLinks input.initialDnskeyOwner input.initialDnskeyRrset

end

end Hns
