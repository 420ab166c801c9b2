import Hns.Dnssec.Chain

/-!
# Anchored chains

A chain of trust is anchored when in each of its zones one key is matched by a
DS record and signs the DNSKEY RRset (`ChainZone.Anchored`): then nobody signs
for a target who holds neither a key that a DS record matches nor a key of an
RRset that such a key has signed.

The validation asks for a key that is matched and for a key that signs, one
after the other. A chain in which they differ passes: a key that is put beside
the published one signs the RRset, and then everything in the zone.
-/

namespace Hns

section

variable [Sha2] [DnssecCrypto]

/-- The keys that a DS record matches are not those that sign the DNSKEY RRset. -/
def ChainZone.Split (zone : ChainZone) (now : DnssecTime) : Prop :=
  ∀ dnskey, zone.Matched dnskey → ¬zone.SelfSigned now dnskey

namespace DnssecChainValidationInput

variable (input : DnssecChainValidationInput)

variable {input}

end DnssecChainValidationInput

namespace SignedRrsetValidationInput

variable (input : SignedRrsetValidationInput)

def zone : ChainZone :=
  ⟨input.dnskeyOwner, input.dsRrset, input.dnskeyRrset, input.dnskeyRrsigRrset⟩

/-- Everything that is checked of an RRset. -/
structure Passes : Prop where
  zone : input.zone.Passes input.now
  signed : ∃ dnskey, HasKey input.dnskeyRrset dnskey ∧
    SignedBy input.dnskeyOwner input.rrset input.rrsigRrset input.now dnskey

variable {input}

end SignedRrsetValidationInput

end

/-! ## A key beside the published one -/

namespace SplitSample

/-- The name `z`. -/
def owner : DnsName := ⟨[⟨[0x7a], by decide, by decide, by decide, by decide⟩], by decide⟩

/-- The key the zone has published the digest of. -/
def publishedKey : List UInt8 :=
  [1, 1, 3, 15] ++ Octet.toBE 32
    0x8a88e3dd7409f195fd52db2d3cba5d72ca6709bf1d94121bf3748801b40f6f5c

/-- The key of somebody else. -/
def foreignKey : List UInt8 :=
  [1, 0, 3, 15] ++ Octet.toBE 32
    0x8139770ea87d175f56a35466c34c7ecccb8d8a91b4ee37a25df60f5b8fc9b394

def digest : Hash :=
  .ofNat 0x27b27ef82809e692f25646eb4ee19766a10737aa2910c994ac6c3a3d1ecda36a

/-- The signature of the foreign key over the DNSKEY RRset. -/
def dnskeySignature : List UInt8 :=
  Octet.toBE 32 0x79e4a437011f415dddf5265e123c39d432df998c2154c946380298dd17b61310 ++
    Octet.toBE 32 0xd9078e8df003030432e24ee71f3bca03368c5e852b70be4a328b3f70f8df0107

/-- The signature of the foreign key over the address. -/
def addressSignature : List UInt8 :=
  Octet.toBE 32 0x7d32c83215182fedaa28064c9a809dbf8b01fce55707ad7a566532513b2d1117 ++
    Octet.toBE 32 0x6db915a53edfd0c4f3c132d403cdcd4f212cfd0e86bdcf2cce1e113cfa15c208

/-- What a signature of the foreign key over records of a type begins with. -/
def rrsigHead (recordType : UInt8) : List UInt8 :=
  [0, recordType, 15, 1, 0, 0, 0x0e, 0x10, 0, 0, 0x07, 0xd0, 0, 0, 0x03, 0xe8, 0x9c, 0xb6,
    1, 0x7a, 0]

/-- A record of the zone in canonical form. -/
def canonical (recordType : UInt8) (rdata : List UInt8) : List UInt8 :=
  [1, 0x7a, 0, 0, recordType, 0, 1, 0, 0, 0x0e, 0x10, 0, UInt8.ofNat rdata.length] ++ rdata

/-- SHA-256 of the key that is asked for. -/
scoped instance : Sha2 where
  sha256 data := if data = DnsName.wire owner.labels ++ publishedKey then digest else .zero
  sha384 _ := .zero
  sha512 _ := .zero

/-- The Ed25519 signatures at hand. -/
scoped instance : DnssecCrypto where
  sha1 _ := .zero
  rsaVerify _ _ _ _ _ := false
  p256Key _ := false
  p256Signature _ := false
  p256Verify _ _ _ := false
  p384Verify _ _ _ := false
  ed25519Verify key data signature :=
    key = foreignKey.drop 4 ∧
      ((data = rrsigHead 48 ++ canonical 48 foreignKey ++ canonical 48 publishedKey ∧
          signature = dnskeySignature) ∨
        (data = rrsigHead 1 ++ canonical 1 [192, 0, 2, 6] ∧ signature = addressSignature))

def record (recordType : RecordType) (rdata : List UInt8) : ResourceRecord :=
  ⟨owner, recordType, 1, 3600, rdata⟩

def dsRrset : List ResourceRecord := [record .ds ([0xed, 0x7b, 15, 2] ++ digest.bytes)]

def dnskeyRrset : List ResourceRecord := [record .dnskey publishedKey, record .dnskey foreignKey]

def dnskeyRrsigRrset : List ResourceRecord := [record .rrsig (rrsigHead 48 ++ dnskeySignature)]

def addressRrset : List ResourceRecord := [record .a [192, 0, 2, 6]]

def addressRrsigRrset : List ResourceRecord := [record .rrsig (rrsigHead 1 ++ addressSignature)]

/-- The published DS record, and everything else by the foreign key. -/
def chain : DnssecChainValidationInput :=
  ⟨owner, dsRrset, dnskeyRrset, dnskeyRrsigRrset, [], addressRrset, addressRrsigRrset, 1500⟩

def signed : SignedRrsetValidationInput :=
  ⟨owner, dsRrset, dnskeyRrset, dnskeyRrsigRrset, addressRrset, addressRrsigRrset, 1500⟩

/-- The DNSKEY record with those octets. -/
def dnskey (flags : UInt16) (rdata : List UInt8) : DnskeyRecord :=
  ⟨flags, 3, 15, rdata.drop 4, rdata⟩

/-- The foreign signature over records of a type. -/
def rrsig (recordType : RecordType) (signature : List UInt8) : RrsigRecord where
  typeCovered := recordType
  algorithm := 15
  labels := 1
  originalTtl := 3600
  signatureExpiration := 2000
  signatureInception := 1000
  keyTag := 0x9cb6
  signerName := owner
  signature := signature
  signedRdata := rrsigHead recordType.code.toUInt8

/-- What the records are read as. -/
theorem parsed :
    (dnskeysOf dnskeyRrset = .ok [dnskey 0x0101 publishedKey, dnskey 0x0100 foreignKey] ∧
        dsRecordsOf dsRrset = .ok [⟨0xed7b, 15, 2, digest.bytes⟩]) ∧
      rrsigsFor (record .dnskey publishedKey) dnskeyRrsigRrset =
          .ok [rrsig .dnskey dnskeySignature] ∧
        rrsigsFor (record .a [192, 0, 2, 6]) addressRrsigRrset =
          .ok [rrsig .a addressSignature] := by
  decide +kernel

end SplitSample

end Hns
