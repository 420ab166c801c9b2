import Hns.Dnssec.Record

/-!
# Canonical RRsets

What a signature of `hns-dnssec` is checked against: the data of the RRSIG
record and the records of the RRset in canonical form, sorted by their data
(`signedData`). The owner of every record is written as the signature has it: if
the RRSIG record counts fewer labels than the owner has, the labels in front are
replaced by an asterisk.
-/

namespace Hns

/-! ## Owners -/

def encodeLabel (label : DnsLabel) : Except DnssecError (List UInt8) :=
  if 63 < label.bytes.length then .error .nameEncoding
  else .ok (UInt8.ofNat label.bytes.length :: label.bytes.map toAsciiLowercase)

/-- The labels, one after the other, and the end mark. -/
def encodeLabels (labels : List DnsLabel) : Except DnssecError (List UInt8) := do
  let encoded ← labels.mapM encodeLabel
  return encoded.flatten ++ [0]

/-- The labels an owner is signed under, when the RRSIG record counts `count` of them. -/
def signedLabels (owner : DnsName) (count : ℕ) : List DnsLabel :=
  if count < owner.labels.length then
    DnsLabel.star :: owner.labels.drop (owner.labels.length - count)
  else owner.labels

def canonicalOwner (owner : DnsName) (labels : UInt8) : Except DnssecError (List UInt8) :=
  if owner.labels.length < labels.toNat then .error .invalidRrset
  else encodeLabels (signedLabels owner labels.toNat)

@[simp] theorem encodeLabels_eq_ok (labels : List DnsLabel) :
    encodeLabels labels = .ok (DnsName.wire labels) := by
  have hlabel (label : DnsLabel) :
      encodeLabel label = .ok (UInt8.ofNat label.bytes.length :: label.bytes) := by
    have hle : ¬63 < label.bytes.length := not_lt.2 label.length_le
    rw [encodeLabel, if_neg hle, label.lower]
  have hlabels : labels.mapM encodeLabel =
      .ok (labels.map fun label => UInt8.ofNat label.bytes.length :: label.bytes) := by
    induction labels with
    | nil => rfl
    | cons label labels ih => rw [List.mapM_cons, hlabel, ih]; rfl
  rw [encodeLabels, hlabels, Except.ok_bind, DnsName.wire, ← List.flatMap_def]
  rfl

theorem canonicalOwner_eq_ok {owner : DnsName} {labels : UInt8} {bytes : List UInt8} :
    canonicalOwner owner labels = .ok bytes ↔
      labels.toNat ≤ owner.labels.length ∧
        bytes = DnsName.wire (signedLabels owner labels.toNat) := by
  rw [canonicalOwner]
  split_ifs with h
  · simp [h]
  · simp [not_lt.1 h, eq_comm]

/-! ## Data -/

def encodeCanonicalName (name : DnsName) : Except DnssecError (List UInt8) :=
  name.encodeWire.mapError fun _ => .nameEncoding

def canonicalSingleNameRdata (record : ResourceRecord) : Except DnssecError (List UInt8) := do
  let (name, stop) ← (DnsName.parseWire record.rdata 0).mapError fun _ => .invalidRrset
  if stop ≠ record.rdata.length then throw .invalidRrset
  encodeCanonicalName name

def canonicalSoaRdata (record : ResourceRecord) : Except DnssecError (List UInt8) := do
  let (mname, cursor) ← (DnsName.parseWire record.rdata 0).mapError fun _ => .invalidRrset
  let (rname, cursor) ← (DnsName.parseWire record.rdata cursor).mapError fun _ => .invalidRrset
  if record.rdata.length < cursor + 20 then throw .invalidRrset
  if cursor + 20 ≠ record.rdata.length then throw .invalidRrset
  let mname ← encodeCanonicalName mname
  let rname ← encodeCanonicalName rname
  return mname ++ rname ++ (record.rdata.drop cursor).take 20

def canonicalSrvRdata (record : ResourceRecord) : Except DnssecError (List UInt8) := do
  if record.rdata.length < 6 then throw .invalidRrset
  let (target, stop) ← (DnsName.parseWire record.rdata 6).mapError fun _ => .invalidRrset
  if stop ≠ record.rdata.length then throw .invalidRrset
  let target ← encodeCanonicalName target
  return record.rdata.take 6 ++ target

def canonicalSvcbRdata (record : ResourceRecord) : Except DnssecError (List UInt8) := do
  let svcb ← (SvcbRecord.fromRecord record).mapError fun _ => .invalidRrset
  let target ← encodeCanonicalName svcb.targetName
  return svcb.svcPriority.toBE ++ target ++ svcb.params.flatMap fun param =>
    param.key.toBE ++ (UInt16.ofNat param.value.length).toBE ++ param.value

def canonicalNsecRdata (record : ResourceRecord) : Except DnssecError (List UInt8) := do
  let nsec ← NsecRecord.fromRecord record
  let next ← encodeCanonicalName nsec.nextDomainName
  return next ++ nsec.typeBitMaps

def canonicalNsec3Rdata (record : ResourceRecord) : Except DnssecError (List UInt8) := do
  let _ ← Nsec3Record.fromRecord record
  return record.rdata

def canonicalRdata (record : ResourceRecord) : Except DnssecError (List UInt8) :=
  match record.recordType with
  | .a | .aaaa | .ds | .dnskey | .tlsa | .txt | .unknown _ => .ok record.rdata
  | .ns | .cname => canonicalSingleNameRdata record
  | .soa => canonicalSoaRdata record
  | .srv => canonicalSrvRdata record
  | .nsec => canonicalNsecRdata record
  | .nsec3 => canonicalNsec3Rdata record
  | .svcb | .https => canonicalSvcbRdata record
  | .rrsig => .error .unsupportedCanonicalRdata

/-! ## Signed data -/

structure CanonicalRecord where
  rdata : List UInt8
  wire : List UInt8
  deriving DecidableEq

/-- A record in canonical form, under the owner `owner`. -/
def canonicalWire (owner : List UInt8) (recordType : RecordType) (class_ : UInt16)
    (originalTtl : UInt32) (rdata : List UInt8) : List UInt8 :=
  owner ++ recordType.code.toBE ++ class_.toBE ++ originalTtl.toBE ++
    (UInt16.ofNat rdata.length).toBE ++ rdata

/-- The round of `canonical_rrset` for a record. -/
def canonicalRecord (first : ResourceRecord) (owner : List UInt8) (rrsig : RrsigRecord)
    (record : ResourceRecord) : Except DnssecError CanonicalRecord := do
  if record.recordType ≠ first.recordType ∨ record.class_ ≠ first.class_ then throw .invalidRrset
  let recordOwner ← canonicalOwner record.name rrsig.labels
  if recordOwner ≠ owner then throw .invalidRrset
  let rdata ← canonicalRdata record
  if 65535 < rdata.length then throw .invalidRrset
  return ⟨rdata, canonicalWire owner record.recordType record.class_ rrsig.originalTtl rdata⟩

def canonicalRrset (rrset : List ResourceRecord) (rrsig : RrsigRecord) :
    Except DnssecError (List CanonicalRecord) :=
  match rrset with
  | [] => .error .invalidRrset
  | first :: _ => do
    if first.recordType ≠ rrsig.typeCovered then throw .invalidRrset
    let owner ← canonicalOwner first.name rrsig.labels
    rrset.mapM (canonicalRecord first owner rrsig)

/-- Whether two records next to each other have the same data. -/
def hasAdjacentDuplicate : List CanonicalRecord → Bool
  | a :: b :: records => a.rdata = b.rdata ∨ hasAdjacentDuplicate (b :: records)
  | _ => false

/-- The records in the order of their data, a stable sort. -/
def sortByRdata (records : List CanonicalRecord) : List CanonicalRecord :=
  records.insertionSort fun left right => left.rdata ≤ right.rdata

def signedData (rrset : List ResourceRecord) (rrsig : RrsigRecord) (now : DnssecTime) :
    Except DnssecError (List UInt8) := do
  if !rrsig.isValidAt now then throw .signatureOutsideValidity
  let canonicalRecords ← canonicalRrset rrset rrsig
  let canonicalRecords := sortByRdata canonicalRecords
  if hasAdjacentDuplicate canonicalRecords then throw .invalidRrset
  return rrsig.signedRdata ++ canonicalRecords.flatMap CanonicalRecord.wire

end Hns
