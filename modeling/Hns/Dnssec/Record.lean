import Hns.Core.Hash
import Hns.Dns.Record

/-!
# DNSSEC records

The records of `hns-dnssec` and the digests that tie a DS record to a key. The
digests and the signature algorithms of the crates `ring`, `p256` and `sha2` are
parameters (`DnssecCrypto`, `Sha2`).
-/

namespace Hns

def dnssecProtocol : UInt8 := 3

def dnskeyZoneFlag : UInt16 := 0x0100

def dnssecAlgorithmRsasha1 : UInt8 := 5

def dnssecAlgorithmRsasha1Nsec3Sha1 : UInt8 := 7

def dnssecAlgorithmRsasha256 : UInt8 := 8

def dnssecAlgorithmRsasha512 : UInt8 := 10

def dnssecAlgorithmEcdsap256sha256 : UInt8 := 13

def dnssecAlgorithmEcdsap384sha384 : UInt8 := 14

def dnssecAlgorithmEd25519 : UInt8 := 15

def dsDigestSha1 : UInt8 := 1

def dsDigestSha256 : UInt8 := 2

def dsDigestSha384 : UInt8 := 4

def nsec3HashSha1 : UInt8 := 1

def nsec3OptOutFlag : UInt8 := 0x01

def nsec3MaxIterations : UInt16 := 2500

/-- Seconds since the epoch. -/
abbrev DnssecTime := ℕ

inductive DnssecStatus
  | secure
  | insecureDelegation
  | bogus
  deriving DecidableEq

inductive DnssecError
  | unsupportedValidator
  | invalidDnskey
  | invalidDs
  | unsupportedDigest
  | nameEncoding
  | invalidRrsig
  | invalidNsec
  | invalidNsec3
  | invalidRrset
  | unsupportedCanonicalRdata
  | signatureOutsideValidity
  | unsupportedAlgorithm
  | invalidSignature
  deriving DecidableEq

instance : ToString DnssecError where
  toString
    | .unsupportedValidator => "DNSSEC validation is not implemented"
    | .invalidDnskey => "DNSKEY record is malformed"
    | .invalidDs => "DS record is malformed"
    | .unsupportedDigest => "DNSSEC digest type is unsupported"
    | .nameEncoding => "DNSSEC owner name cannot be encoded canonically"
    | .invalidRrsig => "RRSIG record is malformed"
    | .invalidNsec => "NSEC record is malformed"
    | .invalidNsec3 => "NSEC3 record is malformed"
    | .invalidRrset => "RRset cannot be canonicalized"
    | .unsupportedCanonicalRdata => "RR type requires unsupported RDATA canonicalization"
    | .signatureOutsideValidity => "RRSIG is not valid at the requested time"
    | .unsupportedAlgorithm => "DNSSEC signature algorithm is unsupported"
    | .invalidSignature => "DNSSEC signature is malformed"

inductive RsaHash
  | sha1
  | sha256
  | sha512
  deriving DecidableEq

/-- What `ring` and `p256` compute. -/
class DnssecCrypto where
  sha1 : List UInt8 → Octets 20
  /-- The verification under a modulus and an exponent. -/
  rsaVerify : RsaHash → List UInt8 → List UInt8 → List UInt8 → List UInt8 → Bool
  /-- Whether `VerifyingKey::from_sec1_bytes` takes the octets. -/
  p256Key : List UInt8 → Bool
  /-- Whether `Signature::from_slice` takes the octets. -/
  p256Signature : List UInt8 → Bool
  p256Verify : List UInt8 → List UInt8 → List UInt8 → Bool
  p384Verify : List UInt8 → List UInt8 → List UInt8 → Bool
  ed25519Verify : List UInt8 → List UInt8 → List UInt8 → Bool

/-! ## Keys and delegations -/

structure DnskeyRecord where
  flags : UInt16
  protocol : UInt8
  algorithm : UInt8
  publicKey : List UInt8
  rdata : List UInt8
  deriving DecidableEq

/-- The sum of `key_tag`. -/
def keyTagSum : List UInt8 → ℕ
  | [] => 0
  | [a] => a.toNat * 256
  | a :: b :: rest => a.toNat * 256 + b.toNat + keyTagSum rest

def keyTag (dnskeyRdata : List UInt8) : UInt16 :=
  let accumulator := keyTagSum dnskeyRdata
  UInt16.ofNat (accumulator + accumulator / 65536 % 65536)

namespace DnskeyRecord

def parseRdata (rdata : List UInt8) : Except DnssecError DnskeyRecord :=
  match rdata with
  | f₁ :: f₂ :: protocol :: algorithm :: publicKey =>
    if protocol ≠ dnssecProtocol then .error .invalidDnskey
    else .ok ⟨Octet.be16 f₁ f₂, protocol, algorithm, publicKey, rdata⟩
  | _ => .error .invalidDnskey

def fromRecord (record : ResourceRecord) : Except DnssecError DnskeyRecord :=
  if record.recordType ≠ .dnskey then .error .invalidDnskey else parseRdata record.rdata

def keyTag (dnskey : DnskeyRecord) : UInt16 := Hns.keyTag dnskey.rdata

end DnskeyRecord

structure DsRecord where
  keyTag : UInt16
  algorithm : UInt8
  digestType : UInt8
  digest : List UInt8
  deriving DecidableEq

namespace DsRecord

def parseRdata (rdata : List UInt8) : Except DnssecError DsRecord :=
  match rdata with
  | k₁ :: k₂ :: algorithm :: digestType :: digest =>
    if digest = [] then .error .invalidDs
    else .ok ⟨Octet.be16 k₁ k₂, algorithm, digestType, digest⟩
  | _ => .error .invalidDs

def fromRecord (record : ResourceRecord) : Except DnssecError DsRecord :=
  if record.recordType ≠ .ds then .error .invalidDs else parseRdata record.rdata

end DsRecord

section

variable [Sha2] [DnssecCrypto]

def dsDigest (owner : DnsName) (dnskey : DnskeyRecord) (digestType : UInt8) :
    Except DnssecError (List UInt8) := do
  let canonical ← owner.encodeWire.mapError fun _ => .nameEncoding
  let canonical := canonical ++ dnskey.rdata
  if digestType = dsDigestSha1 then return (DnssecCrypto.sha1 canonical).bytes
  else if digestType = dsDigestSha256 then return (Sha2.sha256 canonical).bytes
  else if digestType = dsDigestSha384 then return (Sha2.sha384 canonical).bytes
  else throw .unsupportedDigest

def verifyDsDigest (owner : DnsName) (dnskey : DnskeyRecord) (ds : DsRecord) :
    Except DnssecError Bool := do
  if dnskey.flags &&& dnskeyZoneFlag = 0 then return false
  else if dnskey.algorithm ≠ ds.algorithm ∨ dnskey.keyTag ≠ ds.keyTag then return false
  else
    let digest ← dsDigest owner dnskey ds.digestType
    return digest = ds.digest

end

/-! ## Signatures -/

structure RrsigRecord where
  typeCovered : RecordType
  algorithm : UInt8
  labels : UInt8
  originalTtl : UInt32
  signatureExpiration : DnssecTime
  signatureInception : DnssecTime
  keyTag : UInt16
  signerName : DnsName
  signature : List UInt8
  signedRdata : List UInt8
  deriving DecidableEq

namespace RrsigRecord

def parseRdata (rdata : List UInt8) : Except DnssecError RrsigRecord :=
  match rdata with
  | t₁ :: t₂ :: algorithm :: labels :: o₁ :: o₂ :: o₃ :: o₄ :: e₁ :: e₂ :: e₃ :: e₄ ::
      i₁ :: i₂ :: i₃ :: i₄ :: k₁ :: k₂ :: _ :: _ => do
    let (signerName, signerEnd) ← (DnsName.parseWire rdata 18).mapError fun _ => .invalidRrsig
    if rdata.length ≤ signerEnd then throw .invalidRrsig
    let signer ← signerName.encodeWire.mapError fun _ => .nameEncoding
    return {
      typeCovered := .fromCode (Octet.be16 t₁ t₂)
      algorithm := algorithm
      labels := labels
      originalTtl := Octet.be32 o₁ o₂ o₃ o₄
      signatureExpiration := (Octet.be32 e₁ e₂ e₃ e₄).toNat
      signatureInception := (Octet.be32 i₁ i₂ i₃ i₄).toNat
      keyTag := Octet.be16 k₁ k₂
      signerName := signerName
      signature := rdata.drop signerEnd
      signedRdata := rdata.take 18 ++ signer }
  | _ => .error .invalidRrsig

def fromRecord (record : ResourceRecord) : Except DnssecError RrsigRecord :=
  if record.recordType ≠ .rrsig then .error .invalidRrsig else parseRdata record.rdata

def isValidAt (rrsig : RrsigRecord) (now : DnssecTime) : Bool :=
  rrsig.signatureInception ≤ now ∧ now ≤ rrsig.signatureExpiration

end RrsigRecord

/-! ## Type bitmaps -/

/-- The loop of `validate_nsec_type_bit_maps` over the rest of the bitmaps. -/
def validateTypeBitMapsLoop : ℕ → List UInt8 → Option UInt8 → Except DnssecError Unit
  | _, [], _ => .ok ()
  | fuel + 1, window :: length :: rest, previousWindow =>
    if length = 0 ∨ 32 < length ∨ rest.length < length.toNat then .error .invalidNsec
    else if previousWindow.any fun previous => window ≤ previous then .error .invalidNsec
    else validateTypeBitMapsLoop fuel (rest.drop length.toNat) (some window)
  | _, _, _ => .error .invalidNsec

def validateNsecTypeBitMaps (typeBitMaps : List UInt8) : Except DnssecError Unit :=
  validateTypeBitMapsLoop typeBitMaps.length typeBitMaps none

/-- The loop of `nsec_type_bit_maps_contain` over the rest of the bitmaps. -/
def typeBitMapsContainLoop (targetWindow : UInt8) (targetBit : ℕ) : ℕ → List UInt8 → Bool
  | fuel + 1, window :: length :: rest =>
    if window = targetWindow then
      let byteIndex := targetBit / 8
      if length.toNat ≤ byteIndex then false
      else rest.getD byteIndex 0 &&& (1 <<< UInt8.ofNat (7 - targetBit % 8)) ≠ 0
    else typeBitMapsContainLoop targetWindow targetBit fuel (rest.drop length.toNat)
  | _, _ => false

def nsecTypeBitMapsContain (typeBitMaps : List UInt8) (recordType : RecordType) :
    Except DnssecError Bool := do
  validateNsecTypeBitMaps typeBitMaps
  let code := recordType.code
  return typeBitMapsContainLoop (code >>> 8).toUInt8 (code &&& 0x00ff).toNat typeBitMaps.length
    typeBitMaps

/-! ## Denials -/

structure NsecRecord where
  nextDomainName : DnsName
  typeBitMaps : List UInt8
  deriving DecidableEq

namespace NsecRecord

def parseRdata (rdata : List UInt8) : Except DnssecError NsecRecord := do
  let (nextDomainName, cursor) ← (DnsName.parseWire rdata 0).mapError fun _ => .invalidNsec
  if rdata.length ≤ cursor then throw .invalidNsec
  validateNsecTypeBitMaps (rdata.drop cursor)
  return ⟨nextDomainName, rdata.drop cursor⟩

def fromRecord (record : ResourceRecord) : Except DnssecError NsecRecord :=
  if record.recordType ≠ .nsec then .error .invalidNsec else parseRdata record.rdata

def hasType (nsec : NsecRecord) (recordType : RecordType) : Except DnssecError Bool :=
  nsecTypeBitMapsContain nsec.typeBitMaps recordType

end NsecRecord

structure Nsec3Record where
  hashAlgorithm : UInt8
  flags : UInt8
  iterations : UInt16
  salt : List UInt8
  nextHashedOwnerName : List UInt8
  typeBitMaps : List UInt8
  deriving DecidableEq

namespace Nsec3Record

def parseRdata (rdata : List UInt8) : Except DnssecError Nsec3Record :=
  match rdata with
  | hashAlgorithm :: flags :: n₁ :: n₂ :: saltLen :: rest => do
    if rest.length ≤ saltLen.toNat then throw .invalidNsec3
    let salt := rest.take saltLen.toNat
    match rest.drop saltLen.toNat with
    | hashLen :: rest =>
      if hashLen = 0 then throw .invalidNsec3
      if rest.length < hashLen.toNat then throw .invalidNsec3
      let typeBitMaps := rest.drop hashLen.toNat
      (validateNsecTypeBitMaps typeBitMaps).mapError fun _ => .invalidNsec3
      return ⟨hashAlgorithm, flags, Octet.be16 n₁ n₂, salt, rest.take hashLen.toNat, typeBitMaps⟩
    | [] => throw .invalidNsec3
  | _ => .error .invalidNsec3

def fromRecord (record : ResourceRecord) : Except DnssecError Nsec3Record :=
  if record.recordType ≠ .nsec3 then .error .invalidNsec3 else parseRdata record.rdata

def hasType (nsec3 : Nsec3Record) (recordType : RecordType) : Except DnssecError Bool :=
  (nsecTypeBitMapsContain nsec3.typeBitMaps recordType).mapError fun _ => .invalidNsec3

def isOptOut (nsec3 : Nsec3Record) : Bool := nsec3.flags &&& nsec3OptOutFlag ≠ 0

def isUsable (nsec3 : Nsec3Record) : Bool :=
  nsec3.hashAlgorithm = nsec3HashSha1 ∧ nsec3.flags &&& ~~~nsec3OptOutFlag = 0

end Nsec3Record

end Hns
