import Hns.Dnssec.Denial
import Hns.Resolver.Transport

/-!
# The verifier

What the resolver asks of a DNSSEC verifier, for a zone that is delegated from
the Handshake root and for a child of such a zone, and how
`SystemDnssecVerifier` answers: the keys first, then the records, at the time
that the clock shows. Every error of the validation is one failure.
-/

namespace Hns

open EStateM (checked)

/-! ## Inputs -/

/-- The keys of a zone, and the DS records that it is delegated with. -/
structure DelegatedKeys where
  dnskeyOwner : DnsName
  dsRrset : List ResourceRecord
  dnskeyRrset : List ResourceRecord
  dnskeyRrsigRrset : List ResourceRecord

/-- The keys of a child zone, and those of its parent. -/
structure DelegatedChildKeys where
  parentDnskeyOwner : DnsName
  parentDsRrset : List ResourceRecord
  parentDnskeyRrset : List ResourceRecord
  parentDnskeyRrsigRrset : List ResourceRecord
  childDnskeyOwner : DnsName
  childDsRrset : List ResourceRecord
  childDsRrsigRrset : List ResourceRecord
  childDnskeyRrset : List ResourceRecord
  childDnskeyRrsigRrset : List ResourceRecord

/-- The records of a response that may deny something. -/
structure DenialRecords where
  nsecRrset : List ResourceRecord
  nsecRrsigRrset : List ResourceRecord
  nsec3Rrset : List ResourceRecord
  nsec3RrsigRrset : List ResourceRecord

structure DelegatedDnssecValidation extends DelegatedKeys where
  targetRrset : List ResourceRecord
  targetRrsigRrset : List ResourceRecord

structure DelegatedDnssecNoDataValidation extends DelegatedKeys, DenialRecords where
  queryName : DnsName
  queryType : RecordType

structure DelegatedDnssecNameErrorValidation extends DelegatedKeys, DenialRecords where
  queryName : DnsName
  closestEncloser : DnsName

structure DelegatedChildDnssecValidation extends DelegatedChildKeys where
  targetRrset : List ResourceRecord
  targetRrsigRrset : List ResourceRecord

structure DelegatedChildDnssecNoDataValidation extends DelegatedChildKeys, DenialRecords where
  queryName : DnsName
  queryType : RecordType

structure DelegatedChildDnssecNameErrorValidation extends DelegatedChildKeys, DenialRecords where
  queryName : DnsName
  closestEncloser : DnsName

structure DelegatedDnssecVerifier (σ : Type) where
  validatePositiveRrset : DelegatedDnssecValidation → EStateM ResolverError σ Bool
  validateNoData : DelegatedDnssecNoDataValidation → EStateM ResolverError σ Bool
  validateNameError : DelegatedDnssecNameErrorValidation → EStateM ResolverError σ Bool
  validateChildPositiveRrset : DelegatedChildDnssecValidation → EStateM ResolverError σ Bool
  validateChildNoData : DelegatedChildDnssecNoDataValidation → EStateM ResolverError σ Bool
  validateChildNameError : DelegatedChildDnssecNameErrorValidation → EStateM ResolverError σ Bool

/-! ## Checks -/

/-- Whether a validation ends with a secure result; its errors are all one. -/
def isSecure (status : Except DnssecError DnssecStatus) : Except ResolverError Bool :=
  match status with
  | .ok status => .ok (status = .secure)
  | .error _ => .error .dnssecFailed

/-- A check that has to pass before the rest. -/
def ifSecure (status : Except DnssecError DnssecStatus) (rest : Unit → Except ResolverError Bool) :
    Except ResolverError Bool := do
  if ← isSecure status then rest () else return false

/-- A check that is tried before the rest, if there are records for it. -/
def orSecure (records : List ResourceRecord) (status : Except DnssecError DnssecStatus)
    (rest : Unit → Except ResolverError Bool) : Except ResolverError Bool := do
  if records ≠ [] then
    if ← isSecure status then return true else rest ()
  else rest ()

section

variable [Sha2] [DnssecCrypto]

/-- The DNSKEY RRset is that of the DS records, and signed. -/
def DelegatedKeys.status (keys : DelegatedKeys) (now : DnssecTime) :
    Except DnssecError DnssecStatus :=
  validateSignedRrset ⟨keys.dnskeyOwner, keys.dsRrset, keys.dnskeyRrset, keys.dnskeyRrsigRrset,
    keys.dnskeyRrset, keys.dnskeyRrsigRrset, now⟩

namespace DelegatedChildKeys

variable (keys : DelegatedChildKeys)

def parent : DelegatedKeys :=
  ⟨keys.parentDnskeyOwner, keys.parentDsRrset, keys.parentDnskeyRrset, keys.parentDnskeyRrsigRrset⟩

def child : DelegatedKeys :=
  ⟨keys.childDnskeyOwner, keys.childDsRrset, keys.childDnskeyRrset, keys.childDnskeyRrsigRrset⟩

def link : DnssecChainLink :=
  ⟨keys.childDnskeyOwner, keys.childDsRrset, keys.childDsRrsigRrset, keys.childDnskeyRrset,
    keys.childDnskeyRrsigRrset⟩

end DelegatedChildKeys

/-- Whether the records are a proof, under the keys of the signer, that the name has no data of the
    type: NSEC records first. -/
def deniesData (signerName : DnsName) (dnskeyRrset : List ResourceRecord) (records : DenialRecords)
    (queryName : DnsName) (queryType : RecordType) (now : DnssecTime) :
    Except ResolverError Bool :=
  orSecure records.nsecRrset (validateNsecNoData ⟨signerName, dnskeyRrset, queryName, queryType,
    records.nsecRrset, records.nsecRrsigRrset, now⟩) fun _ =>
  orSecure records.nsec3Rrset (validateNsec3NoData ⟨signerName, dnskeyRrset, queryName, queryType,
    records.nsec3Rrset, records.nsec3RrsigRrset, now⟩) fun _ =>
  return false

/-- Whether the records are a proof, under the keys of the signer, that the name does not exist. The
    same records have to serve for every part of the proof. -/
def deniesName (signerName : DnsName) (dnskeyRrset : List ResourceRecord) (records : DenialRecords)
    (queryName closestEncloser : DnsName) (now : DnssecTime) : Except ResolverError Bool :=
  orSecure records.nsecRrset (validateNsecNameError ⟨signerName, dnskeyRrset, queryName,
    closestEncloser, records.nsecRrset, records.nsecRrsigRrset, records.nsecRrset,
    records.nsecRrsigRrset, now⟩) fun _ =>
  orSecure records.nsec3Rrset (validateNsec3NameError ⟨signerName, dnskeyRrset, queryName,
    closestEncloser, records.nsec3Rrset, records.nsec3RrsigRrset, records.nsec3Rrset,
    records.nsec3RrsigRrset, records.nsec3Rrset, records.nsec3RrsigRrset, now⟩) fun _ =>
  return false

/-! ## The system verifier -/

namespace SystemDnssecVerifier

def validatePositiveRrset (input : DelegatedDnssecValidation) (now : DnssecTime) :
    Except ResolverError Bool :=
  isSecure (validateSignedRrset ⟨input.dnskeyOwner, input.dsRrset, input.dnskeyRrset,
    input.dnskeyRrsigRrset, input.targetRrset, input.targetRrsigRrset, now⟩)

def validateNoData (input : DelegatedDnssecNoDataValidation) (now : DnssecTime) :
    Except ResolverError Bool :=
  ifSecure (input.toDelegatedKeys.status now) fun _ =>
  deniesData input.dnskeyOwner input.dnskeyRrset input.toDenialRecords input.queryName
    input.queryType now

def validateNameError (input : DelegatedDnssecNameErrorValidation) (now : DnssecTime) :
    Except ResolverError Bool :=
  ifSecure (input.toDelegatedKeys.status now) fun _ =>
  deniesName input.dnskeyOwner input.dnskeyRrset input.toDenialRecords input.queryName
    input.closestEncloser now

def validateChildPositiveRrset (input : DelegatedChildDnssecValidation) (now : DnssecTime) :
    Except ResolverError Bool :=
  isSecure (validateDnssecChain ⟨input.parentDnskeyOwner, input.parentDsRrset,
    input.parentDnskeyRrset, input.parentDnskeyRrsigRrset, [input.toDelegatedChildKeys.link],
    input.targetRrset, input.targetRrsigRrset, now⟩)

/-- The checks of the keys that come before a denial of a child zone. -/
def ifChildSecure (keys : DelegatedChildKeys) (now : DnssecTime)
    (rest : Unit → Except ResolverError Bool) : Except ResolverError Bool :=
  ifSecure (keys.parent.status now) fun _ =>
  ifSecure (validateRrsetSignature keys.parentDnskeyOwner keys.parentDnskeyRrset keys.childDsRrset
    keys.childDsRrsigRrset now) fun _ =>
  ifSecure (keys.child.status now) rest

def validateChildNoData (input : DelegatedChildDnssecNoDataValidation) (now : DnssecTime) :
    Except ResolverError Bool :=
  ifChildSecure input.toDelegatedChildKeys now fun _ =>
  deniesData input.childDnskeyOwner input.childDnskeyRrset input.toDenialRecords input.queryName
    input.queryType now

def validateChildNameError (input : DelegatedChildDnssecNameErrorValidation) (now : DnssecTime) :
    Except ResolverError Bool :=
  ifChildSecure input.toDelegatedChildKeys now fun _ =>
  deniesName input.childDnskeyOwner input.childDnskeyRrset input.toDenialRecords input.queryName
    input.closestEncloser now

end SystemDnssecVerifier

/-- A check at the time that the clock shows. -/
def Environment.atNow {σ α : Type} (env : Environment σ) (check : DnssecTime → Except ResolverError α) :
    EStateM ResolverError σ α := do
  let now ← env.now
  checked (check now)

/-- The verifier that reads the clock of the system. -/
def systemDnssecVerifier {σ : Type} (env : Environment σ) : DelegatedDnssecVerifier σ where
  validatePositiveRrset input := env.atNow (SystemDnssecVerifier.validatePositiveRrset input)
  validateNoData input := env.atNow (SystemDnssecVerifier.validateNoData input)
  validateNameError input := env.atNow (SystemDnssecVerifier.validateNameError input)
  validateChildPositiveRrset input :=
    env.atNow (SystemDnssecVerifier.validateChildPositiveRrset input)
  validateChildNoData input := env.atNow (SystemDnssecVerifier.validateChildNoData input)
  validateChildNameError input := env.atNow (SystemDnssecVerifier.validateChildNameError input)

end

end Hns
