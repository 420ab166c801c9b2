import Hns.Dns.Order
import Hns.Dnssec.Bitmap
import Hns.Dnssec.Signed

/-!
# Signed zones

What a zone is for those who sign it, apart from how it is validated. A zone
holds RRsets at names below its apex (`Zone`); below a delegation it has no say.
It signs its RRsets (`SignedZone.Publishes`), and NSEC and NSEC3 records that
tell what it does not hold.

The keys of a zone are honest (`HonestKeys`) when they verify what the zone has
signed and nothing else. An RRset that is secure under such keys is one of the
zone, record by record (`exists_published`), except for its owner: a wildcard
stands for every name below it (`Expands`).
-/

namespace Hns

/-! ## Wildcards -/

namespace DnsName

/-- The labels that are counted in a signature: without an asterisk in front. -/
def labelCount (name : DnsName) : ℕ :=
  if name.labels.head? = some DnsLabel.star then name.labels.length - 1 else name.labels.length

/-- The owner is written like `name` in a signature. -/
def Expands (owner name : DnsName) : Prop :=
  owner = name ∨ ∃ parent, name.IsWildcardOf parent ∧ owner.isStrictSubdomain parent

/-- The labels an owner is signed under are those of `name` just when it is written like it. -/
theorem signedLabels_eq {owner name : DnsName} :
    name.labelCount ≤ owner.labels.length ∧ signedLabels owner name.labelCount = name.labels ↔
      Expands owner name := by
  rw [labelCount, signedLabels]
  by_cases hstar : name.labels.head? = some DnsLabel.star
  · obtain ⟨labels, hlabels⟩ := List.head?_eq_some_iff.1 hstar
    obtain ⟨parent, rfl⟩ := exists_parent hlabels
    have hlen : name.labels.length = parent.labels.length + 1 := by rw [hlabels]; rfl
    rw [if_pos hstar, hlen, Nat.add_sub_cancel]
    constructor
    · rintro ⟨hle, h⟩
      split_ifs at h with hlt
      · rw [hlabels] at h
        refine .inr ⟨parent, hlabels, isStrictSubdomain_iff.2 ⟨?_, hlt⟩⟩
        rw [← (List.cons.inj h).2]
        exact List.drop_suffix _ _
      · -- The wildcard itself is longer than the labels that are counted.
        rw [h, hlen] at hlt
        exact absurd (Nat.lt_succ_self _) hlt
    · have key (h : owner.isStrictSubdomain parent) :
          parent.labels.length ≤ owner.labels.length ∧
            (if parent.labels.length < owner.labels.length then
              DnsLabel.star :: owner.labels.drop (owner.labels.length - parent.labels.length)
            else owner.labels) = name.labels := by
        obtain ⟨hsuffix, hlt⟩ := isStrictSubdomain_iff.1 h
        refine ⟨hlt.le, ?_⟩
        rw [if_pos hlt, hlabels, ← List.suffix_iff_eq_drop.1 hsuffix]
      rintro (rfl | ⟨parent', hwild, h⟩)
      · refine key (isStrictSubdomain_iff.2 ⟨?_, hlen ▸ Nat.lt_succ_self _⟩)
        rw [hlabels]
        exact List.suffix_cons _ _
      · obtain rfl : parent' = parent := ext (List.cons.inj (hwild.symm.trans hlabels)).2
        exact key h
  · rw [if_neg hstar]
    constructor
    · rintro ⟨hle, h⟩
      split_ifs at h with hlt
      · exact absurd (by rw [← h]; rfl) hstar
      · exact .inl (ext h)
    · rintro (rfl | ⟨parent, hwild, -⟩)
      · exact ⟨le_rfl, if_neg (lt_irrefl _)⟩
      · exact absurd (by rw [show name.labels = _ from hwild]; rfl) hstar

end DnsName

open DnsName

/-! ## Zones -/

/-- An RRset of a zone, its data in canonical form. -/
structure ZoneRrset where
  name : DnsName
  typeCode : UInt16
  rdatas : List (List UInt8)
  deriving DecidableEq

/-- The types that a zone has for its signatures only. -/
def denialTypes : List UInt16 := [RecordType.rrsig.code, RecordType.nsec.code, RecordType.nsec3.code]

/-- What a zone holds. -/
structure Zone where
  apex : DnsName
  rrsets : List ZoneRrset
  below : ∀ rrset ∈ rrsets, rrset.name.isSubdomainOrEqual apex
  types : ∀ rrset ∈ rrsets, rrset.typeCode ∉ denialTypes
  soa : ∃ rrset ∈ rrsets, rrset.name = apex ∧ rrset.typeCode = RecordType.soa.code
  /-- A name with a CNAME has nothing else. -/
  cname : ∀ rrset ∈ rrsets, rrset.typeCode = RecordType.cname.code →
    ∀ other ∈ rrsets, other.name = rrset.name → other.typeCode = RecordType.cname.code

namespace Zone

variable (zone : Zone)

/-- The zone has data of the type at the name, its own or glue. -/
def Holds (name : DnsName) (recordType : RecordType) : Prop :=
  ∃ rrset ∈ zone.rrsets, rrset.name = name ∧ rrset.typeCode = recordType.code

/-- The name is where another zone begins. -/
def IsDelegation (name : DnsName) : Prop := name ≠ zone.apex ∧ zone.Holds name .ns

/-- The name lies below a delegation. -/
def Occluded (name : DnsName) : Prop := ∃ cut, zone.IsDelegation cut ∧ name.isStrictSubdomain cut

/-- The name has data of the zone, or a delegation. -/
def Owner (name : DnsName) : Prop := (∃ rrset ∈ zone.rrsets, rrset.name = name) ∧ ¬zone.Occluded name

/-- The name exists, be it only because of the names below it. -/
def Exists (name : DnsName) : Prop :=
  name.isSubdomainOrEqual zone.apex ∧ ∃ owner, zone.Owner owner ∧ owner.isSubdomainOrEqual name

/-- The longest name above `name` that exists. -/
def ClosestEncloser (name encloser : DnsName) : Prop :=
  zone.Exists encloser ∧ name.isStrictSubdomain encloser ∧
    ∀ other, zone.Exists other → name.isStrictSubdomain other → encloser.isSubdomainOrEqual other

/-- The wildcard that stands for a name that does not exist. -/
def SourceOfSynthesis (name wildcard : DnsName) : Prop :=
  ¬zone.Exists name ∧ zone.Owner wildcard ∧
    ∃ encloser, zone.ClosestEncloser name encloser ∧ wildcard.IsWildcardOf encloser

/-- A wildcard has an answer to a query. -/
def WildcardAnswers (name : DnsName) (recordType : RecordType) : Prop :=
  ∃ wildcard, zone.SourceOfSynthesis name wildcard ∧
    (zone.Holds wildcard recordType ∨ zone.Holds wildcard .cname)

/-- An RRset that the zone signs. -/
def Signed (rrset : ZoneRrset) : Prop :=
  rrset ∈ zone.rrsets ∧ ¬zone.Occluded rrset.name ∧
    (zone.IsDelegation rrset.name → rrset.typeCode = RecordType.ds.code)

/-- The types a name shows in the denials: at a delegation, only those of the parent. -/
def Lists (name : DnsName) (typeCode : UInt16) : Prop :=
  ∃ rrset ∈ zone.rrsets, rrset.name = name ∧ rrset.typeCode = typeCode ∧
    (zone.IsDelegation name → typeCode = RecordType.ns.code ∨ typeCode = RecordType.ds.code)

variable {zone}

theorem Owner.below {name : DnsName} (h : zone.Owner name) : name.isSubdomainOrEqual zone.apex := by
  obtain ⟨⟨rrset, hrrset, rfl⟩, -⟩ := h
  exact zone.below rrset hrrset

theorem Owner.exists {name : DnsName} (h : zone.Owner name) : zone.Exists name :=
  ⟨h.below, name, h, isSubdomainOrEqual_iff.2 List.suffix_rfl⟩

/-- The apex belongs to the zone. -/
theorem owner_apex : zone.Owner zone.apex := by
  obtain ⟨rrset, hrrset, hname, -⟩ := zone.soa
  refine ⟨⟨rrset, hrrset, hname⟩, ?_⟩
  rintro ⟨cut, ⟨hne, ns, hns, rfl, -⟩, hbelow⟩
  have hle := (isSubdomainOrEqual_iff.1 (zone.below ns hns)).length_le
  exact absurd (isStrictSubdomain_iff.1 hbelow).2 (not_lt.2 hle)

/-- What exists is not below a delegation. -/
theorem Exists.not_occluded {name : DnsName} (h : zone.Exists name) : ¬zone.Occluded name := by
  rintro ⟨cut, hcut, hbelow⟩
  obtain ⟨-, owner, howner, hname⟩ := h
  exact howner.2 ⟨cut, hcut, isStrictSubdomain_of_isSubdomainOrEqual hname hbelow⟩

/-- The topmost delegation above a name belongs to the zone. -/
theorem Occluded.exists_owner {name : DnsName} (h : zone.Occluded name) :
    ∃ cut, zone.IsDelegation cut ∧ zone.Owner cut ∧ name.isStrictSubdomain cut := by
  obtain ⟨cut, hcut, hbelow⟩ := h
  induction hn : cut.labels.length using Nat.strong_induction_on generalizing cut with
  | h n ih =>
    by_cases hoccluded : zone.Occluded cut
    · obtain ⟨cut', hcut', hbelow'⟩ := hoccluded
      have hlt := (isStrictSubdomain_iff.1 hbelow').2
      exact ih _ (hn ▸ hlt) cut' hcut' (isStrictSubdomain_of_isSubdomainOrEqual
        (isStrictSubdomain_iff_ne.1 hbelow).1 hbelow') rfl
    · obtain ⟨-, rrset, hrrset, hname, -⟩ := id hcut
      exact ⟨cut, hcut, ⟨⟨rrset, hrrset, hname⟩, hoccluded⟩, hbelow⟩

theorem Exists.of_isSubdomainOrEqual {name parent : DnsName} (h : zone.Exists name)
    (hbelow : name.isSubdomainOrEqual parent) (hparent : parent.isSubdomainOrEqual zone.apex) :
    zone.Exists parent := by
  obtain ⟨-, owner, howner, hname⟩ := h
  rw [isSubdomainOrEqual_iff] at hname hbelow
  exact ⟨hparent, owner, howner, isSubdomainOrEqual_iff.2 (hbelow.trans hname)⟩

/-- A delegation has no CNAME. -/
theorem IsDelegation.not_holds_cname {name : DnsName} (h : zone.IsDelegation name) :
    ¬zone.Holds name .cname := by
  rintro ⟨rrset, hrrset, rfl, hcode⟩
  obtain ⟨-, ns, hns, hname, hns'⟩ := h
  have := zone.cname rrset hrrset hcode ns hns hname
  rw [hns'] at this
  exact absurd this (by decide)

/-! A zone is finite: all of this can be tested. -/

instance (name : DnsName) (recordType : RecordType) : Decidable (zone.Holds name recordType) :=
  inferInstanceAs (Decidable (∃ rrset ∈ zone.rrsets, _))

instance (name : DnsName) : Decidable (zone.IsDelegation name) :=
  inferInstanceAs (Decidable (_ ∧ _))

theorem occluded_iff {name : DnsName} : zone.Occluded name ↔
    ∃ rrset ∈ zone.rrsets, zone.IsDelegation rrset.name ∧ name.isStrictSubdomain rrset.name := by
  constructor
  · rintro ⟨cut, hcut, hbelow⟩
    obtain ⟨-, rrset, hrrset, rfl, -⟩ := id hcut
    exact ⟨rrset, hrrset, hcut, hbelow⟩
  · rintro ⟨rrset, -, hcut, hbelow⟩
    exact ⟨rrset.name, hcut, hbelow⟩

instance (name : DnsName) : Decidable (zone.Occluded name) := decidable_of_iff _ occluded_iff.symm

instance (name : DnsName) : Decidable (zone.Owner name) := inferInstanceAs (Decidable (_ ∧ _))

instance (name : DnsName) (typeCode : UInt16) : Decidable (zone.Lists name typeCode) :=
  inferInstanceAs (Decidable (∃ rrset ∈ zone.rrsets, _))

instance (rrset : ZoneRrset) : Decidable (zone.Signed rrset) := inferInstanceAs (Decidable (_ ∧ _))

theorem forall_owner {p : DnsName → Prop} :
    (∀ name, zone.Owner name → p name) ↔
      ∀ rrset ∈ zone.rrsets, zone.Owner rrset.name → p rrset.name := by
  constructor
  · exact fun h rrset _ => h rrset.name
  · rintro h name ⟨⟨rrset, hrrset, rfl⟩, hnot⟩
    exact h rrset hrrset ⟨⟨rrset, hrrset, rfl⟩, hnot⟩

theorem exists_iff {name : DnsName} : zone.Exists name ↔ name.isSubdomainOrEqual zone.apex ∧
    ∃ rrset ∈ zone.rrsets, zone.Owner rrset.name ∧ rrset.name.isSubdomainOrEqual name := by
  refine and_congr_right fun _ => ⟨?_, ?_⟩
  · rintro ⟨owner, howner, hbelow⟩
    obtain ⟨⟨rrset, hrrset, rfl⟩, -⟩ := id howner
    exact ⟨rrset, hrrset, howner, hbelow⟩
  · rintro ⟨rrset, -, howner, hbelow⟩
    exact ⟨rrset.name, howner, hbelow⟩

/-- The names that exist are those of owners without some labels in front. -/
theorem forall_exists {p : DnsName → Prop} : (∀ name, zone.Exists name → p name) ↔
    ∀ rrset ∈ zone.rrsets, zone.Owner rrset.name → ∀ n ≤ rrset.name.labels.length,
      (rrset.name.dropLabels n).isSubdomainOrEqual zone.apex → p (rrset.name.dropLabels n) := by
  constructor
  · intro h rrset _ howner n _ happex
    have hbelow : rrset.name.isSubdomainOrEqual (rrset.name.dropLabels n) :=
      isSubdomainOrEqual_iff.2 (List.drop_suffix n _)
    exact h _ (howner.exists.of_isSubdomainOrEqual hbelow happex)
  · intro h name hname
    obtain ⟨happex, rrset, hrrset, howner, hbelow⟩ := exists_iff.1 hname
    rw [exists_dropLabels hbelow] at happex ⊢
    exact h rrset hrrset howner _ (Nat.sub_le _ _) happex

instance (name : DnsName) : Decidable (zone.Exists name) := decidable_of_iff _ exists_iff.symm

instance {p : DnsName → Prop} [DecidablePred p] : Decidable (∀ name, zone.Exists name → p name) :=
  decidable_of_iff _ forall_exists.symm

instance (name encloser : DnsName) : Decidable (zone.ClosestEncloser name encloser) :=
  inferInstanceAs (Decidable (_ ∧ _ ∧ ∀ other, zone.Exists other → _))

/-- Apart from delegations, the types that are shown are those of the data. -/
theorem lists_iff_of_not_isDelegation {name : DnsName} (h : ¬zone.IsDelegation name)
    {recordType : RecordType} : zone.Lists name recordType.code ↔ zone.Holds name recordType := by
  constructor
  · rintro ⟨rrset, hrrset, hname, hcode, -⟩
    exact ⟨rrset, hrrset, hname, hcode⟩
  · rintro ⟨rrset, hrrset, hname, hcode⟩
    exact ⟨rrset, hrrset, hname, hcode, fun hcut => absurd hcut h⟩

end Zone

/-- An NSEC record of a zone. -/
structure NsecEntry where
  owner : DnsName
  next : DnsName
  bitmap : TypeBitMap

def NsecEntry.rdata (entry : NsecEntry) : List UInt8 := wire entry.next.labels ++ entry.bitmap.octets

def NsecEntry.rrset (entry : NsecEntry) : ZoneRrset :=
  ⟨entry.owner, RecordType.nsec.code, [entry.rdata]⟩

/-- An NSEC3 record of a zone, with the name it stands for and the data it is read from. -/
structure Nsec3Entry where
  original : DnsName
  owner : DnsName
  nsec3 : Nsec3Record
  bitmap : TypeBitMap
  typeBitMaps : nsec3.typeBitMaps = bitmap.octets
  rdata : List UInt8
  parse : Nsec3Record.parseRdata rdata = .ok nsec3

def Nsec3Entry.rrset (entry : Nsec3Entry) : ZoneRrset :=
  ⟨entry.owner, RecordType.nsec3.code, [entry.rdata]⟩

/-- A zone with what it denies. -/
structure SignedZone extends Zone where
  nsecs : List NsecEntry
  nsec3s : List Nsec3Entry

/-- The class of the Internet. -/
def classIn : UInt16 := 1

/-- The fields of a signature are those for an RRset. -/
structure FieldsFor (fields : SignatureFields) (rrset : ZoneRrset) : Prop where
  typeCode : fields.typeCode = rrset.typeCode
  labels : fields.labels.toNat = rrset.name.labelCount

namespace SignedZone

variable (zone : SignedZone)

/-- An RRset that the zone has signed. -/
inductive Publishes : ZoneRrset → Prop
  | content {rrset : ZoneRrset} (h : zone.Signed rrset) : Publishes rrset
  | nsec {entry : NsecEntry} (h : entry ∈ zone.nsecs) : Publishes entry.rrset
  | nsec3 {entry : Nsec3Entry} (h : entry ∈ zone.nsec3s) : Publishes entry.rrset

/-- The RRsets that the zone has signed. -/
def published : List ZoneRrset :=
  zone.rrsets.filter (fun rrset => zone.Signed rrset) ++ zone.nsecs.map NsecEntry.rrset ++
    zone.nsec3s.map Nsec3Entry.rrset

variable {zone} in
theorem mem_published {rrset : ZoneRrset} : rrset ∈ zone.published ↔ zone.Publishes rrset := by
  simp only [published, List.mem_append, List.mem_filter, decide_eq_true_eq, List.mem_map]
  constructor
  · rintro ((⟨-, h⟩ | ⟨_, h, rfl⟩) | ⟨_, h, rfl⟩)
    · exact .content h
    · exact .nsec h
    · exact .nsec3 h
  · intro h
    cases h with
    | content h => exact .inl (.inl ⟨h.1, h⟩)
    | nsec h => exact .inl (.inr ⟨_, h, rfl⟩)
    | nsec3 h => exact .inr ⟨_, h, rfl⟩

/-- What the zone has signed for an RRset. -/
def signedText (rrset : ZoneRrset) (fields : SignatureFields) : List UInt8 :=
  message fields zone.apex rrset.name.labels classIn rrset.rdatas

/-- A key takes a signature for nothing but what the zone has signed. -/
def HonestKeys [DnssecCrypto] (dnskeyRrset : List ResourceRecord) : Prop :=
  ∀ dnskey, HasKey dnskeyRrset dnskey → ∀ data signature, dnskey.verifies data signature →
    ∃ rrset fields, zone.Publishes rrset ∧ FieldsFor fields rrset ∧
      (∀ rdata ∈ rrset.rdatas, rdata.length ≤ 65535) ∧ data = zone.signedText rrset fields

/-- The zone has a signature for each of its RRsets, which is valid at the time. -/
def SignedAt [DnssecCrypto] (dnskeyRrset : List ResourceRecord) (now : DnssecTime) : Prop :=
  ∀ rrset, zone.Publishes rrset → ∃ rdata rrsig dnskey, RrsigRecord.parseRdata rdata = .ok rrsig ∧
    rrsig.typeCovered.code = rrset.typeCode ∧ rrsig.labels.toNat = rrset.name.labelCount ∧
    rrsig.signerName = zone.apex ∧ rrsig.isValidAt now ∧ HasKey dnskeyRrset dnskey ∧
    Names rrsig dnskey ∧ dnskey.verifies (zone.signedText rrset rrsig.fields) rrsig.signature

variable {zone}

/-- The records are those of an RRset, under owners that are written like its own. -/
structure Replays (rrset : List ResourceRecord) (published : ZoneRrset) : Prop where
  recordType : ∀ record ∈ rrset, record.recordType = .fromCode published.typeCode
  class_ : ∀ record ∈ rrset, record.class_ = classIn
  owner : ∀ record ∈ rrset, Expands record.name published.name
  data : ∀ record ∈ rrset, ∃ rdata ∈ published.rdatas, canonicalRdata record = .ok rdata
  complete : ∀ rdata ∈ published.rdatas, ∃ record ∈ rrset, canonicalRdata record = .ok rdata

section

variable [DnssecCrypto] {dnskeyRrset rrset rrsigRrset : List ResourceRecord}
  {signerName : DnsName} {now : DnssecTime}

omit [DnssecCrypto] in
theorem wellRead_of_mem_rrsigsFor {first : ResourceRecord} {rrsigs : List RrsigRecord}
    (h : rrsigsFor first rrsigRrset = .ok rrsigs) {rrsig : RrsigRecord} (hmem : rrsig ∈ rrsigs) :
    rrsig.WellRead := by
  obtain ⟨record, -, hrecord⟩ := (Except.mapM_eq_ok.1 h).exists_left rrsig hmem
  exact RrsigRecord.wellRead_of_fromRecord hrecord

omit [DnssecCrypto] in
theorem mem_sortedRdatas {rdatas : List (List UInt8)} {rdata : List UInt8} :
    rdata ∈ sortedRdatas rdatas ↔ rdata ∈ rdatas := List.mem_insertionSort _

omit [DnssecCrypto] in
/-- The records of signed data that read like a message of the zone. -/
theorem replays_of_forall₂ {first : ResourceRecord} {rest : List ResourceRecord}
    {rrsig : RrsigRecord} {published : ZoneRrset} {rdatas : List (List UInt8)}
    (hread : rrsig.WellRead) (htype : first.recordType = rrsig.typeCovered)
    (hclass : first.class_ = classIn) (hfor : FieldsFor rrsig.fields published)
    (howner : signedLabels first.name rrsig.labels.toNat = published.name.labels)
    (hrdatas : List.Forall₂ (CanonicalAs first rrsig.labels.toNat) (first :: rest) rdatas)
    (hsorted : sortedRdatas rdatas = published.rdatas) : Replays (first :: rest) published := by
  have hlabels : rrsig.labels.toNat = published.name.labelCount := hfor.labels
  have hcode : first.recordType = .fromCode published.typeCode := by
    rw [htype, ← hfor.typeCode]
    exact hread.isKnown.symm
  have hmem (rdata : List UInt8) : rdata ∈ published.rdatas ↔ rdata ∈ rdatas := by
    rw [← hsorted, mem_sortedRdatas]
  refine ⟨fun record hrecord => ?_, fun record hrecord => ?_, fun record hrecord => ?_,
    fun record hrecord => ?_, fun rdata hrdata => ?_⟩
  · obtain ⟨_, -, has⟩ := hrdatas.exists_right record hrecord
    exact has.recordType.trans hcode
  · obtain ⟨_, -, has⟩ := hrdatas.exists_right record hrecord
    exact has.class_.trans hclass
  · obtain ⟨_, -, has⟩ := hrdatas.exists_right record hrecord
    rw [← signedLabels_eq, ← hlabels]
    exact ⟨has.count_le, has.owner.trans howner⟩
  · obtain ⟨rdata, hrdata, has⟩ := hrdatas.exists_right record hrecord
    exact ⟨rdata, (hmem rdata).2 hrdata, has.canonical⟩
  · obtain ⟨record, hrecord, has⟩ := hrdatas.exists_left rdata ((hmem rdata).1 hrdata)
    exact ⟨record, hrecord, has.canonical⟩

/-- An RRset whose signature verifies is one of the zone, the one that the signature is for. -/
theorem exists_published_of_verify (hkeys : zone.HonestKeys dnskeyRrset) {first : ResourceRecord}
    {rest : List ResourceRecord} {rrsig : RrsigRecord} {dnskey : DnskeyRecord}
    (hkey : HasKey dnskeyRrset dnskey) (hread : rrsig.WellRead)
    (htype : rrsig.typeCovered = first.recordType)
    (hverify : verifyRrsig (first :: rest) rrsig dnskey now = .ok true) :
    rrsig.signerName = zone.apex ∧ ∃ published, zone.Publishes published ∧
      FieldsFor rrsig.fields published ∧ Replays (first :: rest) published := by
  obtain ⟨-, data, hdata, hverifies⟩ := verifyRrsig_eq_ok_true.1 hverify
  obtain ⟨-, -, rdatas, hrdatas, -, hmessage⟩ := (signedData_eq_ok hread).1 hdata
  obtain ⟨published, fields, hpub, hfor, hlen, htext⟩ := hkeys dnskey hkey data _ hverifies
  have hne : sortedRdatas rdatas ≠ [] := by
    rcases hrdatas with _ | ⟨-, -⟩
    rw [← List.length_pos_iff, sortedRdatas, List.length_insertionSort]
    exact Nat.succ_pos _
  obtain ⟨rfl, hapex, howner, hclass, hsorted⟩ := message_inj (fun rdata hrdata => by
    obtain ⟨_, -, has⟩ := hrdatas.exists_left rdata (mem_sortedRdatas.1 hrdata)
    exact has.length_le) hlen hne (hmessage.symm.trans htext)
  exact ⟨hapex, published, hpub, hfor,
    replays_of_forall₂ hread htype.symm hclass hfor howner hrdatas hsorted⟩

/-- What is secure under honest keys is an RRset of the zone. -/
theorem exists_published (hkeys : zone.HonestKeys dnskeyRrset)
    (h : validateRrsetSignature signerName dnskeyRrset rrset rrsigRrset now = .ok .secure) :
    rrset ≠ [] ∧ signerName = zone.apex ∧
      ∃ published, zone.Publishes published ∧ Replays rrset published := by
  obtain ⟨dnskey, hkey, first, rest, rrsigs, rrsig, rfl, hsigs, hmem, htype, hsigner, hverify⟩ :=
    validateRrsetSignature_eq_secure.1 h
  obtain ⟨hapex, published, hpub, -, hreplays⟩ := exists_published_of_verify hkeys hkey
    (wellRead_of_mem_rrsigsFor hsigs hmem) htype hverify
  exact ⟨List.cons_ne_nil _ _, hsigner.symm.trans hapex, published, hpub, hreplays⟩

/-- The record is that of an RRset of one record, under an owner that is written like its own. -/
structure IsRecordOf (published : ZoneRrset) (record : ResourceRecord) : Prop where
  recordType : record.recordType = .fromCode published.typeCode
  class_ : record.class_ = classIn
  owner : Expands record.name published.name
  data : ∃ rdata, published.rdatas = [rdata] ∧ canonicalRdata record = .ok rdata ∧
    rdata.length ≤ 65535

/-- What has been read of a signature is one of the zone for the RRset, and valid at the time. -/
structure Signs (zone : SignedZone) (dnskeyRrset : List ResourceRecord) (now : DnssecTime)
    (published : ZoneRrset) (rrsig : RrsigRecord) : Prop where
  typeCovered : rrsig.typeCovered.code = published.typeCode
  labels : rrsig.labels.toNat = published.name.labelCount
  signerName : rrsig.signerName = zone.apex
  valid : rrsig.isValidAt now
  verifies : ∃ dnskey, HasKey dnskeyRrset dnskey ∧ Names rrsig dnskey ∧
    dnskey.verifies (zone.signedText published rrsig.fields) rrsig.signature

/-- The records are those of an RRset, in any order, under one owner that is written like its own. -/
structure IsRrsetOf (published : ZoneRrset) (owner : DnsName) (rrset : List ResourceRecord) :
    Prop where
  ne_nil : rrset ≠ []
  name : ∀ record ∈ rrset, record.name = owner
  recordType : ∀ record ∈ rrset, record.recordType = .fromCode published.typeCode
  class_ : ∀ record ∈ rrset, record.class_ = classIn
  owner : Expands owner published.name
  data : ∃ rdatas, List.Forall₂ (fun record rdata => canonicalRdata record = .ok rdata ∧
    rdata.length ≤ 65535) rrset rdatas ∧ rdatas.Perm published.rdatas
  sorted : published.rdatas.Pairwise (· < ·)

omit [DnssecCrypto] in
theorem IsRrsetOf.perm {published : ZoneRrset} {owner : DnsName} {rrset' : List ResourceRecord}
    (h : IsRrsetOf published owner rrset) (hperm : rrset'.Perm rrset) :
    IsRrsetOf published owner rrset' := by
  obtain ⟨rdatas, hrdatas, hpermRdatas⟩ := h.data
  obtain ⟨rdatas', hrdatas', hpermRdatas'⟩ := List.perm_comp_forall₂ hperm hrdatas
  exact ⟨fun hnil => h.ne_nil (hperm.symm.trans (hnil ▸ .refl _)).eq_nil,
    fun record hmem => h.name record (hperm.mem_iff.1 hmem),
    fun record hmem => h.recordType record (hperm.mem_iff.1 hmem),
    fun record hmem => h.class_ record (hperm.mem_iff.1 hmem), h.owner,
    ⟨rdatas', hrdatas', hpermRdatas'.trans hpermRdatas⟩, h.sorted⟩

omit [DnssecCrypto] in
theorem IsRecordOf.isRrsetOf {published : ZoneRrset} {record : ResourceRecord}
    (h : IsRecordOf published record) : IsRrsetOf published record.name [record] := by
  obtain ⟨rdata, hrdatas, hrdata⟩ := h.data
  refine ⟨List.cons_ne_nil _ _, by simp, by simp [h.recordType], by simp [h.class_], h.owner,
    ⟨[rdata], .cons hrdata .nil, hrdatas ▸ .refl _⟩, ?_⟩
  rw [hrdatas]
  exact List.pairwise_singleton _ _

/-- An RRset is secure when there is a signature for it among those that can be read. -/
theorem secure_of_signs_rrset {published : ZoneRrset} {owner : DnsName} {first : ResourceRecord}
    {rest : List ResourceRecord} (h : IsRrsetOf published owner (first :: rest))
    {rrsigs : List RrsigRecord} (hrrsigs : rrsigsFor first rrsigRrset = .ok rrsigs)
    {rrsig : RrsigRecord} (hmem : rrsig ∈ rrsigs)
    (hsigns : zone.Signs dnskeyRrset now published rrsig) :
    validateRrsetSignature zone.apex dnskeyRrset (first :: rest) rrsigRrset now =
      .ok .secure := by
  obtain ⟨rdatas, hrdatas, hperm⟩ := h.data
  obtain ⟨dnskey, hkey, hnames, hverifies⟩ := hsigns.verifies
  have hread := wellRead_of_mem_rrsigsFor hrrsigs hmem
  have hfirst : first ∈ first :: rest := List.mem_cons_self
  have hcovered : rrsig.typeCovered = first.recordType := by
    rw [h.recordType first hfirst, ← hsigns.typeCovered]
    exact hread.isKnown.symm
  obtain ⟨hle, hsignedLabels⟩ := signedLabels_eq.2 h.owner
  rw [← hsigns.labels] at hle hsignedLabels
  have hsorted : sortedRdatas rdatas = published.rdatas := by
    have hperm' : (sortedRdatas rdatas).Perm published.rdatas :=
      (List.perm_insertionSort _ _).trans hperm
    exact hperm'.eq_of_pairwise (fun _ _ _ _ hab hba => List.le_antisymm hab hba)
      (List.pairwise_insertionSort _ _) (h.sorted.imp fun hlt => Std.le_of_lt hlt)
  have hsame : List.Forall₂ (CanonicalAs first rrsig.labels.toNat) (first :: rest) rdatas := by
    have hmem' : List.Forall₂ (fun record rdata => record ∈ first :: rest ∧
        canonicalRdata record = .ok rdata ∧ rdata.length ≤ 65535) (first :: rest) rdatas :=
      (List.forall₂_and_left _ _).2 ⟨fun _ => id, hrdatas⟩
    refine hmem'.imp fun record rdata ⟨hrecord, hcanonical, hlen⟩ => ?_
    have hname := h.name record hrecord
    exact ⟨(h.recordType record hrecord).trans (h.recordType first hfirst).symm,
      (h.class_ record hrecord).trans (h.class_ first hfirst).symm, by rwa [hname],
      by rw [hname, h.name first hfirst], hcanonical, hlen⟩
  refine validateRrsetSignature_eq_secure.2 ⟨dnskey, hkey, first, rest, rrsigs, rrsig, rfl, hrrsigs,
    hmem, hcovered, hsigns.signerName, ?_⟩
  refine verifyRrsig_eq_ok_true.2 ⟨hnames, _, (signedData_eq_ok hread).2 ⟨hsigns.valid,
    hcovered.symm, rdatas, hsame, ?_, rfl⟩, ?_⟩
  · rw [hsorted]
    exact (h.sorted.imp fun hlt => Std.ne_of_lt hlt).isChain
  · rw [signedText, ← hsorted, ← hsignedLabels, ← h.name first hfirst,
      ← h.class_ first hfirst, ← hsigns.signerName] at hverifies
    exact hverifies

/-- A record is secure when there is a signature for it among those that can be read. -/
theorem secure_of_signs {published : ZoneRrset} {record : ResourceRecord}
    (hrecord : IsRecordOf published record) {rrsigs : List RrsigRecord}
    (hrrsigs : rrsigsFor record rrsigRrset = .ok rrsigs) {rrsig : RrsigRecord}
    (hmem : rrsig ∈ rrsigs) (hsigns : zone.Signs dnskeyRrset now published rrsig) :
    validateRrsetSignature zone.apex dnskeyRrset [record] rrsigRrset now = .ok .secure :=
  secure_of_signs_rrset hrecord.isRrsetOf hrrsigs hmem hsigns

/-- An RRset of one record can be replayed under every owner that is written like its own. -/
theorem exists_signature (hsigned : zone.SignedAt dnskeyRrset now) {published : ZoneRrset}
    (hpub : zone.Publishes published) {record : ResourceRecord}
    (hrecord : IsRecordOf published record) :
    ∃ rrsigRecord, validateRrsetSignature zone.apex dnskeyRrset [record] [rrsigRecord] now =
      .ok .secure := by
  obtain ⟨sigRdata, rrsig, dnskey, hparse, hcode, hlabels, hsigner, hvalid, hkey, hnames,
    hverifies⟩ := hsigned published hpub
  have hfrom : RrsigRecord.fromRecord ⟨record.name, .rrsig, record.class_, 0, sigRdata⟩ =
      .ok rrsig := by
    rw [RrsigRecord.fromRecord, if_neg (by simp), hparse]
  have hrrsigs : rrsigsFor record [⟨record.name, .rrsig, record.class_, 0, sigRdata⟩] =
      .ok [rrsig] := Except.mapM_eq_ok.2 (by simpa using hfrom)
  exact ⟨_, secure_of_signs hrecord hrrsigs (List.mem_singleton_self _)
    ⟨hcode, hlabels, hsigner, hvalid, dnskey, hkey, hnames, hverifies⟩⟩

end

end SignedZone

end Hns
