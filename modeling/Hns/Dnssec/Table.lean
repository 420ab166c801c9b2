import Hns.Dnssec.Zone

/-!
# Signatures by table

A zone that is signed with one Ed25519 key, whose signatures are at hand
(`SignatureTable`). The crypto that takes these signatures and no others makes
the key an honest one.
-/

namespace Hns

open DnsName

/-- A key and what it has signed. -/
structure SignatureTable where
  apex : DnsName
  publicKey : List UInt8
  signatures : List (ZoneRrset × List UInt8)

namespace SignatureTable

variable (table : SignatureTable)

def keyRdata : List UInt8 := [1, 1, 3, 15] ++ table.publicKey

def dnskey : DnskeyRecord := ⟨0x0101, 3, 15, table.publicKey, table.keyRdata⟩

def dnskeyRecord : ResourceRecord := ⟨table.apex, .dnskey, classIn, 3600, table.keyRdata⟩

/-- The fields of the signature for an RRset. -/
def fields (rrset : ZoneRrset) : SignatureFields where
  typeCode := rrset.typeCode
  algorithm := 15
  labels := UInt8.ofNat rrset.name.labelCount
  originalTtl := 3600
  expiration := 2000
  inception := 1000
  keyTag := keyTag table.keyRdata

/-- The octets that are signed for an RRset. -/
def text (rrset : ZoneRrset) : List UInt8 :=
  message (table.fields rrset) table.apex rrset.name.labels classIn rrset.rdatas

def rrsigRdata (rrset : ZoneRrset) (signature : List UInt8) : List UInt8 :=
  (table.fields rrset).encode ++ wire table.apex.labels ++ signature

def rrsig (rrset : ZoneRrset) (signature : List UInt8) : RrsigRecord where
  typeCovered := .fromCode rrset.typeCode
  algorithm := 15
  labels := UInt8.ofNat rrset.name.labelCount
  originalTtl := 3600
  signatureExpiration := 2000
  signatureInception := 1000
  keyTag := keyTag table.keyRdata
  signerName := table.apex
  signature := signature
  signedRdata := (table.fields rrset).encode ++ wire table.apex.labels

/-- The signature for an RRset, as a record at an owner. -/
def rrsigRecord (rrset : ZoneRrset) (owner : DnsName) : ResourceRecord :=
  let signature := (table.signatures.find? fun entry => entry.1 = rrset).elim [] Prod.snd
  ⟨owner, .rrsig, classIn, 3600, table.rrsigRdata rrset signature⟩

/-- The Ed25519 signatures of the table, with the given SHA-1. -/
abbrev crypto (sha1 : List UInt8 → Octets 20) : DnssecCrypto where
  sha1 := sha1
  rsaVerify _ _ _ _ _ := false
  p256Key _ := false
  p256Signature _ := false
  p256Verify _ _ _ := false
  p384Verify _ _ _ := false
  ed25519Verify key data signature :=
    key = table.publicKey ∧ table.signatures.any fun entry =>
      data = table.text entry.1 ∧ signature = entry.2

/-- The key of a table verifies as an Ed25519 key. -/
theorem verifies_dnskey [DnssecCrypto] {data signature : List UInt8} :
    table.dnskey.verifies data signature ↔ table.publicKey.length = 32 ∧ signature.length = 64 ∧
      DnssecCrypto.ed25519Verify table.publicKey data signature := by
  simp only [DnskeyRecord.verifies, dnskey, dnssecAlgorithmRsasha1, dnssecAlgorithmRsasha1Nsec3Sha1,
    dnssecAlgorithmRsasha256, dnssecAlgorithmRsasha512, dnssecAlgorithmEcdsap256sha256,
    dnssecAlgorithmEcdsap384sha384, dnssecAlgorithmEd25519]
  exact decide_eq_true_iff

/-- The table has the signatures of the zone, for all that the zone publishes. -/
structure Fits (zone : SignedZone) (dnskeyRrset : List ResourceRecord) : Prop where
  apex : zone.apex = table.apex
  publicKey : table.publicKey.length = 32
  dnskeys : dnskeysOf dnskeyRrset = .ok [table.dnskey]
  published : ∀ entry ∈ table.signatures, entry.1 ∈ zone.published
  complete : ∀ rrset ∈ zone.published, ∃ entry ∈ table.signatures, entry.1 = rrset
  length_le : ∀ entry ∈ table.signatures, ∀ rdata ∈ entry.1.rdatas, rdata.length ≤ 65535
  labels : ∀ entry ∈ table.signatures,
    (UInt8.ofNat entry.1.name.labelCount).toNat = entry.1.name.labelCount
  parse : ∀ entry ∈ table.signatures, entry.2.length = 64 ∧
    RrsigRecord.parseRdata (table.rrsigRdata entry.1 entry.2) = .ok (table.rrsig entry.1 entry.2)

namespace Fits

variable {table} {zone : SignedZone} {dnskeyRrset : List ResourceRecord}
  {sha1 : List UInt8 → Octets 20}

/-- The crypto takes the signatures of the table only. -/
theorem exists_of_verifies {dnskey : DnskeyRecord} {data signature : List UInt8}
    (h : @DnskeyRecord.verifies (table.crypto sha1) dnskey data signature) :
    ∃ entry ∈ table.signatures, data = table.text entry.1 := by
  have hrsa (hash : RsaHash) : @DnskeyRecord.verifiesRsa (table.crypto sha1) dnskey hash data
      signature = false := by
    simp only [DnskeyRecord.verifiesRsa]
    split <;> rfl
  simp only [DnskeyRecord.verifies, hrsa] at h
  split_ifs at h
  · simp at h
  · simp at h
  · obtain ⟨-, -, hed⟩ := of_decide_eq_true h
    obtain ⟨entry, hentry, hdata⟩ := List.any_eq_true.1 (of_decide_eq_true hed).2
    exact ⟨entry, hentry, (of_decide_eq_true hdata).1⟩

/-- Under this crypto, every key is honest. -/
theorem honestKeys_of_fits (h : table.Fits zone dnskeyRrset) (keys : List ResourceRecord) :
    @SignedZone.HonestKeys zone (table.crypto sha1) keys := by
  intro dnskey _ data signature hverifies
  obtain ⟨entry, hentry, hdata⟩ := exists_of_verifies hverifies
  refine ⟨entry.1, table.fields entry.1, SignedZone.mem_published.1 (h.published entry hentry),
    ⟨rfl, h.labels entry hentry⟩, h.length_le entry hentry, ?_⟩
  rw [hdata, text, SignedZone.signedText, h.apex]

theorem honestKeys (h : table.Fits zone dnskeyRrset) :
    @SignedZone.HonestKeys zone (table.crypto sha1) dnskeyRrset := h.honestKeys_of_fits dnskeyRrset

/-- The signatures of the table are those of the zone. -/
theorem signs (h : table.Fits zone dnskeyRrset) {entry : ZoneRrset × List UInt8}
    (hentry : entry ∈ table.signatures) {now : DnssecTime} (hnow : 1000 ≤ now ∧ now ≤ 2000) :
    @SignedZone.Signs (table.crypto sha1) zone dnskeyRrset now entry.1
      (table.rrsig entry.1 entry.2) := by
  obtain ⟨hlen, -⟩ := h.parse entry hentry
  refine @SignedZone.Signs.mk (table.crypto sha1) _ _ _ _ _ (RecordType.code_fromCode _)
    (h.labels entry hentry) h.apex.symm ?_ ⟨table.dnskey, ⟨_, h.dnskeys, List.mem_singleton_self _⟩,
      ⟨?_, rfl, rfl⟩, ?_⟩
  · simp [RrsigRecord.isValidAt, rrsig, hnow]
  · change (0x0101 : UInt16) &&& dnskeyZoneFlag ≠ 0
    decide
  · have hed : @DnssecCrypto.ed25519Verify (table.crypto sha1) table.publicKey
        (zone.signedText entry.1 (table.rrsig entry.1 entry.2).fields) entry.2 := by
      refine decide_eq_true ⟨rfl, List.any_eq_true.2 ⟨entry, hentry, decide_eq_true ⟨?_, rfl⟩⟩⟩
      rw [text, SignedZone.signedText, h.apex, RrsigRecord.fields, rrsig, fields,
        RecordType.code_fromCode]
      rfl
    exact (@verifies_dnskey table (table.crypto sha1) _ _).2 ⟨h.publicKey, hlen, hed⟩

theorem signedAt (h : table.Fits zone dnskeyRrset) {now : DnssecTime} (hnow : 1000 ≤ now)
    (hnow' : now ≤ 2000) : @SignedZone.SignedAt zone (table.crypto sha1) dnskeyRrset now := by
  intro rrset hpub
  obtain ⟨entry, hentry, rfl⟩ := h.complete rrset (SignedZone.mem_published.2 hpub)
  obtain ⟨hcode, hlabels, hsigner, hvalid, dnskey, hkey, hnames, hverifies⟩ :=
    @signs _ _ _ sha1 h entry hentry now ⟨hnow, hnow'⟩
  exact ⟨_, _, dnskey, (h.parse entry hentry).2, hcode, hlabels, hsigner, hvalid, hkey, hnames,
    hverifies⟩

/-- The record of a signature is read as the signature. -/
theorem exists_fromRecord (h : table.Fits zone dnskeyRrset) {rrset : ZoneRrset}
    (hrrset : rrset ∈ zone.published) (owner : DnsName) :
    ∃ entry ∈ table.signatures, entry.1 = rrset ∧
      RrsigRecord.fromRecord (table.rrsigRecord rrset owner) =
        .ok (table.rrsig entry.1 entry.2) := by
  obtain ⟨entry, hentry, hrrset⟩ := h.complete rrset hrrset
  obtain ⟨found, hfound⟩ := Option.isSome_iff_exists.1
    (List.find?_isSome.2 ⟨entry, hentry, decide_eq_true hrrset⟩ :
      (table.signatures.find? fun entry => entry.1 = rrset).isSome)
  have hmem := List.mem_of_find?_eq_some hfound
  obtain rfl : found.1 = rrset := by
    have hdecide := List.find?_some hfound
    exact of_decide_eq_true hdecide
  refine ⟨found, hmem, rfl, ?_⟩
  rw [RrsigRecord.fromRecord, if_neg (by simp [rrsigRecord]), rrsigRecord, hfound]
  exact (h.parse found hmem).2

end Fits

end SignatureTable

end Hns
