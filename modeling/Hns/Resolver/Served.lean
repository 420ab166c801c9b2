import Hns.Dnssec.Nsec3
import Hns.Resolver.Answers
import Hns.Resolver.Table

/-!
# Honest servers

What an honest server sends of a signed zone: RRsets of the zone and signatures
of them, in any order (`SignedSection`), which the records of a type are picked
from, and which are secure, one RRset at a time (`SignedSection.secure`). The
keys of the zone are secure at all times that the clock shows (`Serves`).
-/

namespace Hns

open DnsName

namespace SignedZone

variable [DnssecCrypto]

/-- The record is a signature of the zone for the RRset, at all of the times. -/
structure SignatureOf (zone : SignedZone) (dnskeyRrset : List ResourceRecord)
    (times : Set DnssecTime) (rrset : ZoneRrset) (record : ResourceRecord) : Prop where
  name : record.name = rrset.name
  class_ : record.class_ = classIn
  signs : ∃ rrsig, RrsigRecord.fromRecord record = .ok rrsig ∧
    ∀ now ∈ times, zone.Signs dnskeyRrset now rrset rrsig

/-- The records are those of RRsets of one record, under their own owners, and signatures of them,
    in any order. -/
structure SignedSection (zone : SignedZone) (dnskeyRrset : List ResourceRecord)
    (times : Set DnssecTime) (rrsets : List ZoneRrset) (records : List ResourceRecord) : Prop where
  published : ∀ rrset ∈ rrsets, zone.Publishes rrset
  own : ∃ own rrsigs, records.Perm (own ++ rrsigs) ∧
    List.Forall₂ (fun rrset record => record.name = rrset.name ∧ IsRecordOf rrset record) rrsets
      own ∧
    ∀ record ∈ rrsigs, ∃ rrsig, RrsigRecord.fromRecord record = .ok rrsig
  signed : ∀ rrset ∈ rrsets, ∃ record ∈ records,
    zone.SignatureOf dnskeyRrset times rrset record

omit [DnssecCrypto] in
theorem recordType_of_fromRecord {record : ResourceRecord} {rrsig : RrsigRecord}
    (h : RrsigRecord.fromRecord record = .ok rrsig) : record.recordType = .rrsig := by
  rw [RrsigRecord.fromRecord] at h
  split_ifs at h with htype
  exact not_not.1 htype

omit [DnssecCrypto] in
/-- The RRsets that a zone publishes are no signatures. -/
theorem Publishes.fromCode_ne_rrsig {zone : SignedZone} {rrset : ZoneRrset}
    (h : zone.Publishes rrset) : RecordType.fromCode rrset.typeCode ≠ .rrsig := by
  intro htype
  have hcode : rrset.typeCode = RecordType.rrsig.code := by
    rw [← htype, RecordType.code_fromCode]
  cases h with
  | content hsigned =>
    refine zone.types rrset hsigned.1 ?_
    rw [hcode]
    exact List.mem_cons_self
  | nsec =>
    have hne : RecordType.nsec.code ≠ RecordType.rrsig.code := by decide
    exact hne hcode
  | nsec3 =>
    have hne : RecordType.nsec3.code ≠ RecordType.rrsig.code := by decide
    exact hne hcode

namespace SignedSection

variable {zone : SignedZone} {dnskeyRrset : List ResourceRecord} {times : Set DnssecTime}
  {rrsets : List ZoneRrset} {records : List ResourceRecord} {recordType : RecordType}

/-- The records of a type are those of the RRsets of the type. -/
theorem exists_perm (h : zone.SignedSection dnskeyRrset times rrsets records)
    (htype : recordType ≠ .rrsig) :
    ∃ own, (recordsOfType records recordType).Perm own ∧
      List.Forall₂ (fun rrset record => record.name = rrset.name ∧ IsRecordOf rrset record)
        (rrsets.filter fun rrset => RecordType.fromCode rrset.typeCode = recordType) own := by
  obtain ⟨own, rrsigs, hperm, hown, hrrsigs⟩ := h.own
  refine ⟨own.filter fun record => record.recordType = recordType, ?_, ?_⟩
  · have hnil : (rrsigs.filter fun record => record.recordType = recordType) = [] := by
      refine List.filter_eq_nil_iff.2 fun record hrecord => ?_
      obtain ⟨rrsig, hparse⟩ := hrrsigs record hrecord
      rw [recordType_of_fromRecord hparse]
      simpa using htype.symm
    have hfilter := hperm.filter fun record => record.recordType = recordType
    rwa [List.filter_append, hnil, List.append_nil] at hfilter
  · refine List.rel_filter ?_ hown
    intro rrset record hrecord
    simp only [hrecord.2.recordType]

/-- There is a record of every RRset among those of its type. -/
theorem exists_record (h : zone.SignedSection dnskeyRrset times rrsets records) {rrset : ZoneRrset}
    (hrrset : rrset ∈ rrsets) : ∃ record ∈ recordsOfType records (.fromCode rrset.typeCode),
      record.name = rrset.name ∧ IsRecordOf rrset record := by
  obtain ⟨own, hperm, hown⟩ := h.exists_perm (h.published rrset hrrset).fromCode_ne_rrsig
  obtain ⟨record, hrecord, hname, hof⟩ :=
    hown.exists_right rrset (List.mem_filter.2 ⟨hrrset, by simp⟩)
  exact ⟨record, hperm.mem_iff.2 hrecord, hname, hof⟩

theorem recordsOfType_eq_nil (h : zone.SignedSection dnskeyRrset times rrsets records)
    (htype : recordType ≠ .rrsig)
    (hnil : (rrsets.filter fun rrset => RecordType.fromCode rrset.typeCode = recordType) = []) :
    recordsOfType records recordType = [] := by
  obtain ⟨own, hperm, hown⟩ := h.exists_perm htype
  rw [hnil, List.forall₂_nil_left_iff] at hown
  rw [hown] at hperm
  exact hperm.eq_nil

/-- Of a single RRset of the type, there is one record. -/
theorem recordsOfType_eq_singleton (h : zone.SignedSection dnskeyRrset times rrsets records)
    (htype : recordType ≠ .rrsig) {rrset : ZoneRrset}
    (hone : (rrsets.filter fun rrset => RecordType.fromCode rrset.typeCode = recordType) =
      [rrset]) :
    ∃ record, recordsOfType records recordType = [record] ∧ record.name = rrset.name ∧
      IsRecordOf rrset record := by
  obtain ⟨own, hperm, hown⟩ := h.exists_perm htype
  rw [hone] at hown
  obtain ⟨record, l, hrecord, hnil, rfl⟩ := List.forall₂_cons_left_iff.1 hown
  rw [List.forall₂_nil_left_iff.1 hnil, List.perm_singleton] at hperm
  exact ⟨record, hperm, hrecord⟩

/-- A record of an RRset is secure with the signatures of the section. -/
theorem secure (h : zone.SignedSection dnskeyRrset times rrsets records) {rrset : ZoneRrset}
    (hrrset : rrset ∈ rrsets) {record : ResourceRecord} (hname : record.name = rrset.name)
    (hrecord : IsRecordOf rrset record) {now : DnssecTime} (hnow : now ∈ times) :
    validateRrsetSignature zone.apex dnskeyRrset [record] (recordsOfType records .rrsig) now =
      .ok .secure := by
  obtain ⟨signature, hmem, hsignature⟩ := h.signed rrset hrrset
  obtain ⟨rrsig, hparse, hsigns⟩ := hsignature.signs
  obtain ⟨own, rrsigs, hperm, hown, hrrsigs⟩ := h.own
  have hread (other : ResourceRecord) (hother : other ∈ recordsOfType records .rrsig) :
      ∃ rrsig, RrsigRecord.fromRecord other = .ok rrsig := by
    obtain ⟨hother, htype⟩ := List.mem_filter.1 hother
    rcases List.mem_append.1 (hperm.mem_iff.1 hother) with hown' | hrrsig
    · -- The records of the RRsets themselves have other types.
      obtain ⟨published, hpublished, -, hof⟩ := hown.exists_left other hown'
      refine absurd ?_ (h.published published hpublished).fromCode_ne_rrsig
      rw [← hof.recordType]
      exact of_decide_eq_true htype
    · exact hrrsigs other hrrsig
  obtain ⟨read, hrrsigsFor⟩ : ∃ read, rrsigsFor record (recordsOfType records .rrsig) = .ok read :=
    Except.exists_mapM_eq_ok fun other hother => hread other (List.mem_of_mem_filter hother)
  have hfor : signature ∈ (recordsOfType records .rrsig).filter fun other =>
      other.recordType = .rrsig ∧ other.name = record.name ∧ other.class_ = record.class_ := by
    have htype := recordType_of_fromRecord hparse
    refine List.mem_filter.2 ⟨List.mem_filter.2 ⟨hmem, decide_eq_true htype⟩, decide_eq_true ?_⟩
    exact ⟨htype, hsignature.name.trans hname.symm,
      hsignature.class_.trans hrecord.class_.symm⟩
  obtain ⟨rrsig', hmem', hparse'⟩ := (Except.mapM_eq_ok.1 hrrsigsFor).exists_right signature hfor
  obtain rfl : rrsig = rrsig' := Except.ok.inj (hparse.symm.trans hparse')
  exact secure_of_signs hrecord hrrsigsFor hmem' (hsigns now hnow)

end SignedSection

end SignedZone

/-! ## Denials -/

/-- The response of an honest server that denies something: the SOA record and the records of the
    proof, with their signatures. -/
structure DenialResponse [DnssecCrypto] (zone : SignedZone) (dnskeyRrset : List ResourceRecord)
    (times : Set DnssecTime) (rrsets : List ZoneRrset) (response : DnsMessage) : Prop where
  answers : response.answers = []
  authorities : ∃ soa, soa.name = zone.apex ∧ soa.typeCode = RecordType.soa.code ∧
    zone.SignedSection dnskeyRrset times (soa :: rrsets.dedup) response.authorities

namespace DenialResponse

variable [DnssecCrypto] {zone : SignedZone} {dnskeyRrset : List ResourceRecord}
  {times : Set DnssecTime} {rrsets : List ZoneRrset} {response : DnsMessage}
  {recordType : RecordType}

/-- The records of a type that the proof does not have. -/
theorem recordsOfType_eq_nil (h : DenialResponse zone dnskeyRrset times rrsets response)
    (htype : recordType ≠ .rrsig) (hsoa : recordType ≠ .soa)
    (hnot : ∀ rrset ∈ rrsets, RecordType.fromCode rrset.typeCode ≠ recordType) :
    recordsOfType (combinedResponseRecords response) recordType = [] := by
  obtain ⟨soa, -, hcode, hsection⟩ := h.authorities
  rw [combinedResponseRecords, h.answers, List.nil_append]
  refine hsection.recordsOfType_eq_nil htype (List.filter_eq_nil_iff.2 fun rrset hrrset => ?_)
  rw [decide_eq_true_eq]
  rcases List.mem_cons.1 hrrset with rfl | hrrset
  · rw [hcode]
    exact hsoa.symm
  · exact hnot rrset (List.mem_dedup.1 hrrset)

/-- The record of an RRset of the proof. -/
theorem exists_record (h : DenialResponse zone dnskeyRrset times rrsets response)
    {rrset : ZoneRrset} (hrrset : rrset ∈ rrsets) :
    ∃ record ∈ recordsOfType (combinedResponseRecords response) (.fromCode rrset.typeCode),
      record.name = rrset.name ∧ SignedZone.IsRecordOf rrset record := by
  obtain ⟨soa, -, -, hsection⟩ := h.authorities
  rw [combinedResponseRecords, h.answers, List.nil_append]
  exact hsection.exists_record (List.mem_cons_of_mem _ (List.mem_dedup.2 hrrset))

/-- The record of a proof that is one RRset, with its signature. -/
theorem exists_single (h : DenialResponse zone dnskeyRrset times rrsets response)
    {rrset : ZoneRrset} (hone : ∀ other ∈ rrsets, other = rrset) (hmem : rrset ∈ rrsets)
    (hcode : RecordType.fromCode rrset.typeCode = recordType) (hsoa : recordType ≠ .soa) :
    ∃ record, recordsOfType (combinedResponseRecords response) recordType = [record] ∧
      record.name = rrset.name ∧ SignedZone.IsRecordOf rrset record ∧
      ∀ now ∈ times, validateRrsetSignature zone.apex dnskeyRrset [record]
        (recordsOfType (combinedResponseRecords response) .rrsig) now = .ok .secure := by
  obtain ⟨soa, -, hsoaCode, hsection⟩ := h.authorities
  have hdedup : rrsets.dedup = [rrset] := by
    refine List.perm_singleton.1 ((List.perm_ext_iff_of_nodup (List.nodup_dedup _)
      (List.nodup_singleton _)).2 fun other => ?_)
    rw [List.mem_dedup, List.mem_singleton]
    exact ⟨hone other, fun heq => heq ▸ hmem⟩
  have hfilter : (soa :: rrsets.dedup).filter
      (fun rrset => RecordType.fromCode rrset.typeCode = recordType) = [rrset] := by
    have hne : RecordType.fromCode RecordType.soa.code ≠ recordType := hsoa.symm
    rw [hdedup, List.filter_cons_of_neg (by simpa [hsoaCode] using hne), List.filter_cons_of_pos
      (by simpa using hcode), List.filter_nil]
  rw [combinedResponseRecords, h.answers, List.nil_append]
  have hrrset : rrset ∈ soa :: rrsets.dedup := by
    rw [hdedup]
    exact List.mem_cons_of_mem _ (List.mem_singleton_self _)
  have htype : recordType ≠ .rrsig := hcode ▸ (hsection.published rrset hrrset).fromCode_ne_rrsig
  obtain ⟨record, hrecord, hname, hof⟩ := hsection.recordsOfType_eq_singleton htype hfilter
  exact ⟨record, hrecord, hname, hof, fun now hnow => hsection.secure hrrset hname hof hnow⟩

/-- The record of a proof that is one NSEC3 RRset. -/
theorem exists_single_nsec3 (h : DenialResponse zone dnskeyRrset times rrsets response)
    (hchains : Nsec3Chains zone) {entry : Nsec3Entry} (hentry : entry ∈ zone.nsec3s)
    (husable : entry.nsec3.isUsable) (hone : ∀ other ∈ rrsets, other = entry.rrset)
    (hmem : entry.rrset ∈ rrsets) :
    ∃ record, recordsOfType (combinedResponseRecords response) .nsec3 = [record] ∧
      parseNsec3Proofs [record] zone.apex =
        .ok [⟨entry.nsec3, entry.nsec3.hash entry.original⟩] ∧
      ∀ now ∈ times, validateRrsetSignature zone.apex dnskeyRrset [record]
        (recordsOfType (combinedResponseRecords response) .rrsig) now = .ok .secure := by
  have hcode : RecordType.fromCode RecordType.nsec3.code = .nsec3 := by decide
  obtain ⟨record, hrecords, hname, hof, hsecure⟩ := h.exists_single hone hmem hcode (by decide)
  obtain ⟨rdata, hrdatas, hcanonical, -⟩ := hof.data
  obtain rfl : entry.rdata = rdata := List.singleton_inj.1 hrdatas
  have htype : record.recordType = .nsec3 := hof.recordType
  have hrdata := ((SignedZone.canonicalRdata_nsec3 htype).1 hcanonical).1
  exact ⟨record, hrecords, SignedZone.parseNsec3Proofs_single hchains hentry husable hname htype
    hrdata.symm, hsecure⟩

end DenialResponse

/-! ## Keys -/

section

variable {σ : Type}

/-- The clock can show the time. -/
def Environment.Shows (env : Environment σ) (now : DnssecTime) : Prop :=
  ∃ s s', env.now s = .ok now s'

variable [Sha2] [DnssecCrypto]

/-- The keys are honest keys of the zone, and secure whenever the clock is read. -/
structure Serves (env : Environment σ) (keys : DelegatedKeys) (zone : SignedZone) : Prop where
  clock : ∀ s, ∃ now s', env.now s = .ok now s'
  apex : keys.dnskeyOwner = zone.apex
  honest : zone.HonestKeys keys.dnskeyRrset
  secure : ∀ now, env.Shows now → keys.status now = .ok .secure

/-- A check at the time of the clock has the outcome that it has at all times. -/
theorem Serves.atNow {env : Environment σ} {keys : DelegatedKeys} {zone : SignedZone}
    (h : Serves env keys zone) {α : Type} {check : DnssecTime → Except ResolverError α} {a : α}
    (hcheck : ∀ now, env.Shows now → check now = .ok a) (s : σ) :
    ∃ s', env.atNow check s = .ok a s' := by
  obtain ⟨now, s', hnow⟩ := h.clock s
  exact ⟨s', Environment.atNow_eq_ok.2 ⟨now, hnow, hcheck now ⟨s, s', hnow⟩⟩⟩

/-- Keys that are secure are there, with a signature. -/
theorem DelegatedKeys.ne_nil_of_status {keys : DelegatedKeys} {now : DnssecTime}
    (h : keys.status now = .ok .secure) :
    ¬(keys.dnskeyRrset = [] ∨ keys.dnskeyRrsigRrset = []) := by
  obtain ⟨-, hsecure⟩ := DelegatedKeys.status_eq_secure.1 h
  obtain ⟨dnskey, -, first, rest, rrsigs, rrsig, hrrset, hsigs, hmem, -⟩ :=
    validateRrsetSignature_eq_secure.1 hsecure
  rw [hrrset, not_or]
  refine ⟨List.cons_ne_nil _ _, fun hnil => ?_⟩
  rw [hnil] at hsigs
  cases hsigs
  cases hmem

end

/-! ## A server by table -/

/-- The record of an RRset that has one. -/
def ZoneRrset.record (rrset : ZoneRrset) : ResourceRecord :=
  ⟨rrset.name, .fromCode rrset.typeCode, classIn, 3600, rrset.rdatas.flatten⟩

namespace SignatureTable

variable {table : SignatureTable} {zone : SignedZone} {dnskeyRrset : List ResourceRecord}
  {sha1 : List UInt8 → Octets 20}

/-- RRsets of one record, and their signatures. -/
def signedRecords (table : SignatureTable) (rrsets : List ZoneRrset) : List ResourceRecord :=
  rrsets.map ZoneRrset.record ++ rrsets.map fun rrset => table.rrsigRecord rrset rrset.name

theorem Fits.signedSection (h : table.Fits zone dnskeyRrset) {rrsets : List ZoneRrset}
    {times : Set DnssecTime} (hpub : ∀ rrset ∈ rrsets, rrset ∈ zone.published)
    (hrdata : ∀ rrset ∈ rrsets, rrset.rdatas = [rrset.record.rdata] ∧
      canonicalRdata rrset.record = .ok rrset.record.rdata ∧ rrset.record.rdata.length ≤ 65535)
    (htimes : ∀ now ∈ times, 1000 ≤ now ∧ now ≤ 2000) :
    @SignedZone.SignedSection (table.crypto sha1) zone dnskeyRrset times rrsets
      (table.signedRecords rrsets) := by
  refine @SignedZone.SignedSection.mk (table.crypto sha1) _ _ _ _ _
    (fun rrset hrrset => SignedZone.mem_published.1 (hpub rrset hrrset))
    ⟨_, _, List.Perm.refl _, ?_, ?_⟩ ?_
  · rw [List.forall₂_map_right_iff, List.forall₂_same]
    exact fun rrset hrrset => ⟨rfl, rfl, rfl, .inl rfl, _, hrdata rrset hrrset⟩
  · rw [List.forall_mem_map]
    intro rrset hrrset
    obtain ⟨entry, -, -, hread⟩ := h.exists_fromRecord (hpub rrset hrrset) rrset.name
    exact ⟨_, hread⟩
  · intro rrset hrrset
    obtain ⟨entry, hentry, rfl, hread⟩ := h.exists_fromRecord (hpub rrset hrrset) rrset.name
    refine ⟨table.rrsigRecord entry.1 entry.1.name, List.mem_append_right _
      (List.mem_map.2 ⟨entry.1, hrrset, rfl⟩), ?_⟩
    exact @SignedZone.SignatureOf.mk (table.crypto sha1) _ _ _ _ _ rfl rfl
      ⟨_, hread, fun now hnow => h.signs hentry (htimes now hnow)⟩

/-- The keys of the zone, with the DS record that it is delegated with. -/
def keys (table : SignatureTable) (digest : Hash) : DelegatedKeys :=
  ⟨table.apex, [table.dsRecord digest], [table.dnskeyRecord],
    [table.rrsigRecord ⟨table.apex, RecordType.dnskey.code, [table.keyRdata]⟩ table.apex]⟩

theorem Fits.serves [Sha2] (h : table.Fits zone [table.dnskeyRecord]) {digest : Hash}
    {responses : List DnsMessage} {now : DnssecTime}
    (hstatus : @DelegatedKeys.status _ (table.crypto sha1) (table.keys digest) now =
      .ok .secure) :
    @Serves Unit _ (table.crypto sha1) (.answering responses now) (table.keys digest) zone := by
  refine @Serves.mk _ _ (table.crypto sha1) _ _ _ (fun s => ⟨now, s, rfl⟩) h.apex.symm
    h.honestKeys fun other hother => ?_
  obtain ⟨s, s', hother⟩ := hother
  cases hother
  exact hstatus

end SignatureTable

end Hns
