import Hns.Resolver.Chained
import Hns.Resolver.NoData

/-!
# Answers of honest servers

An honest server answers from the RRsets of a zone (`ServedRrset`), and sends
them with their signatures, in any order (`AnswerSection`). What the resolver
picks from such an answer section for the name and the type of an RRset are the
records of the RRset (`recordsFor_perm`), there is nothing else for its name,
and the RRset is secure (`secure`).

The zone is a delegated one or a child (`ServingZone.Honest`). Either way, its
RRsets are accepted, and proofs are as they are in answers to requests of their
own.
-/

namespace Hns

open DnsName

/-! ## RRsets that are served -/

/-- An RRset as a server sends it: its owner, what the zone has signed for it, and its records. -/
structure ServedRrset where
  owner : DnsName
  published : ZoneRrset
  records : List ResourceRecord

def ServedRrset.recordType (item : ServedRrset) : RecordType := .fromCode item.published.typeCode

/-- The RRset is one of the zone, at an owner that is written like that of the zone. -/
structure ServedRrset.Of (item : ServedRrset) (zone : SignedZone) : Prop where
  publishes : zone.Publishes item.published
  isRrset : SignedZone.IsRrsetOf item.published item.owner item.records

theorem ServedRrset.Of.recordType_ne_rrsig {item : ServedRrset} {zone : SignedZone}
    (h : item.Of zone) : item.recordType ≠ .rrsig := h.publishes.fromCode_ne_rrsig

/-- The records are those of RRsets of the zone, with a signature for each that is valid at all of
    the times, in any order. -/
structure AnswerSection [DnssecCrypto] (zone : SignedZone) (dnskeyRrset : List ResourceRecord)
    (times : Set DnssecTime) (items : List ServedRrset) (records : List ResourceRecord) :
    Prop where
  served : ∀ item ∈ items, item.Of zone
  nodup : (items.map ServedRrset.owner).Nodup
  own : ∃ rrsigs, records.Perm (items.flatMap ServedRrset.records ++ rrsigs) ∧
    ∀ record ∈ rrsigs, ∃ rrsig, RrsigRecord.fromRecord record = .ok rrsig
  signed : ∀ item ∈ items, ∃ record ∈ records, record.name = item.owner ∧
    record.class_ = classIn ∧ ∃ rrsig, RrsigRecord.fromRecord record = .ok rrsig ∧
      ∀ now ∈ times, zone.Signs dnskeyRrset now item.published rrsig

/-- The records of an RRset, from those of RRsets at different owners. -/
theorem filter_flatMap_records {items : List ServedRrset} {p : ResourceRecord → Bool}
    (hnodup : (items.map ServedRrset.owner).Nodup) {item : ServedRrset} (hitem : item ∈ items)
    (hall : ∀ record ∈ item.records, p record)
    (hother : ∀ other ∈ items, other.owner ≠ item.owner → ∀ record ∈ other.records, ¬p record) :
    (items.flatMap ServedRrset.records).filter p = item.records := by
  induction items with
  | nil => cases hitem
  | cons first items ih =>
    rw [List.map_cons, List.nodup_cons] at hnodup
    rw [List.flatMap_cons, List.filter_append]
    rw [List.forall_mem_cons] at hother
    rcases List.mem_cons.1 hitem with rfl | hitem
    · have hrest : (items.flatMap ServedRrset.records).filter p = [] := by
        refine List.filter_eq_nil_iff.2 fun record hrecord => ?_
        obtain ⟨other, hmem, hrecord⟩ := List.mem_flatMap.1 hrecord
        refine hother.2 other hmem (fun heq => hnodup.1 ?_) record hrecord
        exact heq ▸ List.mem_map_of_mem hmem
      rw [List.filter_eq_self.2 hall, hrest, List.append_nil]
    · have hne : first.owner ≠ item.owner := fun heq =>
        hnodup.1 (heq ▸ List.mem_map_of_mem hitem)
      rw [List.filter_eq_nil_iff.2 (hother.1 hne), List.nil_append, ih hnodup.2 hitem hother.2]

namespace AnswerSection

variable [DnssecCrypto] {zone : SignedZone} {dnskeyRrset : List ResourceRecord}
  {times : Set DnssecTime} {items : List ServedRrset} {records : List ResourceRecord}

/-- Different RRsets have different owners. -/
theorem eq_of_owner (h : AnswerSection zone dnskeyRrset times items records)
    {item other : ServedRrset} (hitem : item ∈ items) (hother : other ∈ items)
    (howner : item.owner = other.owner) : item = other :=
  List.inj_on_of_nodup_map h.nodup hitem hother howner

/-- The records of a type are those of the RRsets. -/
theorem recordsFor_perm_filter (h : AnswerSection zone dnskeyRrset times items records)
    {name : DnsName} {recordType : RecordType} (htype : recordType ≠ .rrsig) :
    (recordsFor records name recordType).Perm
      (recordsFor (items.flatMap ServedRrset.records) name recordType) := by
  obtain ⟨rrsigs, hperm, hrrsigs⟩ := h.own
  have hnil : recordsFor rrsigs name recordType = [] := by
    refine List.filter_eq_nil_iff.2 fun record hrecord hfor => ?_
    obtain ⟨rrsig, hread⟩ := hrrsigs record hrecord
    exact htype ((of_decide_eq_true hfor).2.symm.trans (SignedZone.recordType_of_fromRecord hread))
  have hfilter := hperm.filter fun record => record.name = name ∧ record.recordType = recordType
  rw [List.filter_append] at hfilter
  rw [recordsFor] at hnil
  rwa [hnil, List.append_nil] at hfilter

/-- What is picked for an RRset are its records. -/
theorem recordsFor_perm (h : AnswerSection zone dnskeyRrset times items records)
    {item : ServedRrset} (hitem : item ∈ items) :
    (recordsFor records item.owner item.recordType).Perm item.records := by
  have hof := (h.served item hitem).isRrset
  refine (h.recordsFor_perm_filter (h.served item hitem).recordType_ne_rrsig).trans ?_
  rw [recordsFor, filter_flatMap_records h.nodup hitem]
  · exact fun record hrecord =>
      decide_eq_true ⟨hof.name record hrecord, hof.recordType record hrecord⟩
  · intro other hother hne record hrecord hfor
    exact hne (((h.served other hother).isRrset.name record hrecord).symm.trans
      (of_decide_eq_true hfor).1)

/-- For a name there is nothing of a type that its RRset does not have. -/
theorem recordsFor_eq_nil (h : AnswerSection zone dnskeyRrset times items records)
    {name : DnsName} {recordType : RecordType} (htype : recordType ≠ .rrsig)
    (hnone : ∀ item ∈ items, item.owner = name → item.recordType ≠ recordType) :
    recordsFor records name recordType = [] := by
  have hnil : recordsFor (items.flatMap ServedRrset.records) name recordType = [] := by
    refine List.filter_eq_nil_iff.2 fun record hrecord hfor => ?_
    obtain ⟨item, hitem, hrecord⟩ := List.mem_flatMap.1 hrecord
    obtain ⟨hname, htype'⟩ := of_decide_eq_true hfor
    have hof := (h.served item hitem).isRrset
    exact hnone item hitem ((hof.name record hrecord).symm.trans hname)
      ((hof.recordType record hrecord).symm.trans htype')
  exact (hnil ▸ h.recordsFor_perm_filter htype).eq_nil

/-- There is a signature for every RRset. -/
theorem recordsFor_rrsig_ne_nil (h : AnswerSection zone dnskeyRrset times items records)
    {item : ServedRrset} (hitem : item ∈ items) : recordsFor records item.owner .rrsig ≠ [] := by
  obtain ⟨record, hrecord, hname, -, rrsig, hread, -⟩ := h.signed item hitem
  refine List.ne_nil_of_mem (List.mem_filter.2 ⟨hrecord, decide_eq_true ⟨hname, ?_⟩⟩)
  exact SignedZone.recordType_of_fromRecord hread

/-- Every signature can be read. -/
theorem exists_fromRecord (h : AnswerSection zone dnskeyRrset times items records) {name : DnsName}
    {record : ResourceRecord} (hrecord : record ∈ recordsFor records name .rrsig) :
    ∃ rrsig, RrsigRecord.fromRecord record = .ok rrsig := by
  obtain ⟨rrsigs, hperm, hrrsigs⟩ := h.own
  obtain ⟨hrecord, -, htype⟩ := mem_recordsFor.1 hrecord
  rcases List.mem_append.1 (hperm.mem_iff.1 hrecord) with hown | hrrsig
  · -- The records of the RRsets themselves have other types.
    obtain ⟨item, hitem, hown⟩ := List.mem_flatMap.1 hown
    have hof := h.served item hitem
    exact absurd ((hof.isRrset.recordType record hown).symm.trans htype) hof.recordType_ne_rrsig
  · exact hrrsigs record hrrsig

/-- Every RRset is secure with the signatures for its name. -/
theorem secure (h : AnswerSection zone dnskeyRrset times items records) {item : ServedRrset}
    (hitem : item ∈ items) {now : DnssecTime} (hnow : now ∈ times) :
    validateRrsetSignature zone.apex dnskeyRrset (recordsFor records item.owner item.recordType)
      (recordsFor records item.owner .rrsig) now = .ok .secure := by
  have hof := ((h.served item hitem).isRrset).perm (h.recordsFor_perm hitem)
  obtain ⟨signature, hmem, hname, hclass, rrsig, hparse, hsigns⟩ := h.signed item hitem
  cases hrrset : recordsFor records item.owner item.recordType with
  | nil => exact absurd hrrset hof.ne_nil
  | cons first rest =>
    rw [hrrset] at hof
    have hfirst : first ∈ first :: rest := List.mem_cons_self
    obtain ⟨read, hread⟩ : ∃ read, rrsigsFor first (recordsFor records item.owner .rrsig) =
        .ok read := Except.exists_mapM_eq_ok fun other hother =>
      h.exists_fromRecord (List.mem_of_mem_filter hother)
    have hfor : signature ∈ (recordsFor records item.owner .rrsig).filter fun other =>
        other.recordType = .rrsig ∧ other.name = first.name ∧ other.class_ = first.class_ := by
      have htype := SignedZone.recordType_of_fromRecord hparse
      refine List.mem_filter.2 ⟨List.mem_filter.2 ⟨hmem, decide_eq_true ⟨hname, htype⟩⟩,
        decide_eq_true ?_⟩
      exact ⟨htype, hname.trans (hof.name first hfirst).symm,
        hclass.trans (hof.class_ first hfirst).symm⟩
    obtain ⟨rrsig', hmem', hparse'⟩ := (Except.mapM_eq_ok.1 hread).exists_right signature hfor
    obtain rfl : rrsig = rrsig' := Except.ok.inj (hparse.symm.trans hparse')
    exact SignedZone.secure_of_signs_rrset hof hread hmem' (hsigns now hnow)

end AnswerSection

/-- An RRset of one record, under its own owner. -/
def ServedRrset.ofRrset (rrset : ZoneRrset) : ServedRrset := ⟨rrset.name, rrset, [rrset.record]⟩

/-- What a table has signed can be an answer section. -/
theorem SignatureTable.Fits.answerSection {table : SignatureTable} {zone : SignedZone}
    {dnskeyRrset : List ResourceRecord} (h : table.Fits zone dnskeyRrset)
    {sha1 : List UInt8 → Octets 20} {rrsets : List ZoneRrset} {times : Set DnssecTime}
    (hpub : ∀ rrset ∈ rrsets, rrset ∈ zone.published)
    (hrdata : ∀ rrset ∈ rrsets, rrset.rdatas = [rrset.record.rdata] ∧
      canonicalRdata rrset.record = .ok rrset.record.rdata ∧ rrset.record.rdata.length ≤ 65535)
    (hnodup : (rrsets.map ZoneRrset.name).Nodup) (htimes : ∀ now ∈ times, 1000 ≤ now ∧ now ≤ 2000) :
    @AnswerSection (table.crypto sha1) zone dnskeyRrset times (rrsets.map .ofRrset)
      (table.signedRecords rrsets) := by
  obtain ⟨hpublished, -, hsigned⟩ := @signedSection _ _ _ sha1 h rrsets times hpub hrdata htimes
  refine @AnswerSection.mk (table.crypto sha1) _ _ _ _ _ ?_ ?_
    ⟨rrsets.map fun rrset => table.rrsigRecord rrset rrset.name, ?_, ?_⟩ ?_
  · rw [List.forall_mem_map]
    intro rrset hrrset
    have hrecord : SignedZone.IsRecordOf rrset rrset.record :=
      ⟨rfl, rfl, .inl rfl, _, hrdata rrset hrrset⟩
    exact ⟨hpublished rrset hrrset, hrecord.isRrsetOf⟩
  · rw [List.map_map]
    exact hnodup
  · have hown : (rrsets.map ServedRrset.ofRrset).flatMap ServedRrset.records =
        rrsets.map ZoneRrset.record :=
      (List.flatMap_map _ _ rrsets).trans (List.flatMap_pure_eq_map _ _)
    rw [hown]
    exact .refl _
  · rw [List.forall_mem_map]
    intro rrset hrrset
    obtain ⟨entry, -, -, hread⟩ := h.exists_fromRecord (hpub rrset hrrset) rrset.name
    exact ⟨_, hread⟩
  · rw [List.forall_mem_map]
    intro rrset hrrset
    obtain ⟨record, hrecord, hsignature⟩ := hsigned rrset hrrset
    obtain ⟨hname, hclass, hsigns⟩ := hsignature
    exact ⟨record, hrecord, hname, hclass, hsigns⟩

/-! ## Zones that are served -/

theorem ifSecure_of_secure {status : Except DnssecError DnssecStatus} (h : status = .ok .secure)
    {rest : Unit → Except ResolverError Bool} : ifSecure status rest = rest () := by
  rw [h]
  rfl

section

variable [Sha2] [DnssecCrypto] {σ : Type}

namespace ServingZone

def dnskeyRrset : ServingZone → List ResourceRecord
  | .delegated keys => keys.dnskeyRrset
  | .child keys => keys.childDnskeyRrset

/-- The keys are honest keys of the zone, and secure whenever the clock is read, those of a child
    with DS records that its parent has signed. -/
def Honest (env : Environment σ) (zone : SignedZone) : ServingZone → Prop
  | .delegated keys => Serves env keys zone
  | .child keys => Serves env keys.child zone ∧ ∀ now, env.Shows now →
      keys.parent.status now = .ok .secure ∧
        validateRrsetSignature keys.parentDnskeyOwner keys.parentDnskeyRrset keys.childDsRrset
          keys.childDsRrsigRrset now = .ok .secure

/-- How the answers of the zone are resolved. -/
def source (env : Environment σ) (server : SocketAddr) (requestName : DnsName)
    (qtype : RecordType) : ServingZone → AnswerSource σ
  | .delegated keys => answerSource env (systemDnssecVerifier env) server keys requestName qtype
  | .child keys => childAnswerSource env (systemDnssecVerifier env) server keys requestName qtype

/-- `resolve_secure_answer_records`, and its copy for a child zone. -/
def resolveAnswerRecords (env : Environment σ) (server : SocketAddr) (requestName : DnsName)
    (qtype : RecordType) (initialResponse : DnsMessage) :
    ServingZone → EStateM ResolverError σ ResolutionAnswer
  | .delegated keys => resolveSecureAnswerRecords env (systemDnssecVerifier env) server keys
      requestName qtype initialResponse
  | .child keys => resolveSecureChildAnswerRecords env (systemDnssecVerifier env) server keys
      requestName qtype initialResponse

variable {env : Environment σ} {zone : SignedZone} {serving : ServingZone} {server : SocketAddr}
  {requestName : DnsName} {qtype : RecordType}

theorem resolveAnswerRecords_eq (response : DnsMessage) :
    serving.resolveAnswerRecords env server requestName qtype response =
      answerLoop (serving.source env server requestName qtype) (maxCnameChainLen + 1) response
        requestName [] := by
  cases serving <;> rfl

@[simp] theorem source_qtype :
    (serving.source env server requestName qtype).qtype = qtype := by
  cases serving <;> rfl

@[simp] theorem source_requestName :
    (serving.source env server requestName qtype).requestName = requestName := by
  cases serving <;> rfl

@[simp] theorem source_query (owner : DnsName) :
    (serving.source env server requestName qtype).query owner =
      env.dnsQuery server owner qtype := by
  cases serving <;> rfl

/-- The keys that the zone is validated with. -/
def keys : ServingZone → DelegatedKeys
  | .delegated keys => keys
  | .child keys => keys.child

theorem Honest.serves (h : serving.Honest env zone) : Serves env serving.keys zone := by
  cases serving with
  | delegated keys => exact h
  | child keys => exact h.1

omit [Sha2] [DnssecCrypto] in
@[simp] theorem dnskeyRrset_keys : serving.keys.dnskeyRrset = serving.dnskeyRrset := by
  cases serving <;> rfl

theorem Honest.source_zoneOwner (h : serving.Honest env zone) :
    (serving.source env server requestName qtype).zoneOwner = zone.apex := by
  cases serving with
  | delegated keys => exact h.apex
  | child keys => exact h.1.apex

/-- A check that the keys come before passes when the rest of it does. -/
theorem Honest.ifChildSecure_eq {keys : DelegatedChildKeys}
    (h : (ServingZone.child keys).Honest env zone) {now : DnssecTime} (hnow : env.Shows now)
    (rest : Unit → Except ResolverError Bool) :
    SystemDnssecVerifier.ifChildSecure keys now rest = rest () := by
  obtain ⟨hparent, hds⟩ := h.2 now hnow
  rw [SystemDnssecVerifier.ifChildSecure, ifSecure_of_secure hparent, ifSecure_of_secure hds,
    ifSecure_of_secure (h.1.secure now hnow)]

/-- An RRset that is secure under the keys of the zone is accepted. -/
theorem Honest.exists_validateRrset (h : serving.Honest env zone) {owner : DnsName}
    {rrset : List ResourceRecord} {response : DnsMessage}
    (hsigned : recordsFor response.answers owner .rrsig ≠ [])
    (hsecure : ∀ now, env.Shows now → validateRrsetSignature zone.apex serving.dnskeyRrset rrset
      (recordsFor response.answers owner .rrsig) now = .ok .secure) (s : σ) :
    ∃ s', (serving.source env server requestName qtype).validateRrset owner rrset response s =
      .ok () s' := by
  have hserves := h.serves
  have key {check : List ResourceRecord → DnssecTime → Except ResolverError Bool}
      (hcheck : ∀ now, env.Shows now →
        check (recordsFor response.answers owner .rrsig) now = .ok true) :
      ∃ s', validateAnswered (fun rrsigRrset => env.atNow (check rrsigRrset)) owner response s =
        .ok () s' := by
    obtain ⟨s', hs'⟩ := hserves.atNow hcheck s
    refine ⟨s', ?_⟩
    rw [validateAnswered, EStateM.throw_unless]
    exact ⟨hsigned, EStateM.run_bind_eq_ok.2 ⟨true, s', hs', rfl⟩⟩
  cases serving with
  | delegated keys =>
    refine @key (fun rrsigRrset =>
      SystemDnssecVerifier.validatePositiveRrset ⟨keys, rrset, rrsigRrset⟩) fun now hnow => ?_
    obtain ⟨hlink, hdnskey⟩ := DelegatedKeys.status_eq_secure.1 (h.secure now hnow)
    rw [SystemDnssecVerifier.validatePositiveRrset, isSecure_eq_ok_true, validateSignedRrset,
      thenIfSecure_eq_secure, thenIfSecure_eq_secure]
    have hrrset := hsecure now hnow
    rw [← h.apex] at hrrset
    exact ⟨hlink, hdnskey, hrrset⟩
  | child keys =>
    refine @key (fun rrsigRrset =>
      SystemDnssecVerifier.validateChildPositiveRrset ⟨keys, rrset, rrsigRrset⟩)
      fun now hnow => ?_
    obtain ⟨hparent, hds⟩ := h.2 now hnow
    obtain ⟨hinit, hinitKeys⟩ := DelegatedKeys.status_eq_secure.1 hparent
    obtain ⟨hlink, hdnskey⟩ := DelegatedKeys.status_eq_secure.1 (h.1.secure now hnow)
    rw [SystemDnssecVerifier.validateChildPositiveRrset, isSecure_eq_ok_true, validateDnssecChain,
      thenIfSecure_eq_secure, thenIfSecure_eq_secure, validateLinks, thenIfSecure_eq_secure,
      thenIfSecure_eq_secure, thenIfSecure_eq_secure, validateLinks]
    have hrrset := hsecure now hnow
    rw [← h.1.apex] at hrrset
    exact ⟨hinit, hinitKeys, hlink, hds, hdnskey, hrrset⟩

/-- An honest proof of an empty answer is accepted as it is for a request of its own. -/
theorem Honest.noData_iff (h : serving.Honest env zone) (hnsec : zone.nsecs = [] ∨ NsecChain zone)
    (hnsec3 : Nsec3Chains zone) {name : DnsName} (hfree : zone.NoCollision name)
    {proof : NoDataProof} (hproves : proof.Proves zone name qtype) {response : DnsMessage}
    (hresponse : DenialResponse zone serving.dnskeyRrset {now | env.Shows now} proof.rrsets
      response) (prefixRecords : List ResourceRecord) (s : σ) :
    (∃ s', (serving.source env server requestName qtype).noData name response prefixRecords s =
      .ok (provenAnswer name prefixRecords) s') ↔ proof.Accepted := by
  have hserves := h.serves
  have hdenies (now : DnssecTime) (hnow : env.Shows now) :
      deniesData serving.keys.dnskeyOwner serving.keys.dnskeyRrset (noDataRecords response name)
        name qtype now = .ok true ↔ proof.Accepted := by
    rw [hserves.apex]
    rw [← dnskeyRrset_keys] at hresponse
    exact SignedZone.deniesData_iff hnsec hnsec3 hserves.honest hfree hproves hresponse hnow
  have key {check : DnssecTime → Except ResolverError Bool}
      (hcheck : ∀ now, env.Shows now → (check now = .ok true ↔ proof.Accepted)) :
      (∃ s', env.atNow check s = .ok true s') ↔ proof.Accepted := by
    constructor
    · rintro ⟨s', hs'⟩
      obtain ⟨now, hnow, hok⟩ := Environment.atNow_eq_ok.1 hs'
      exact (hcheck now ⟨s, s', hnow⟩).1 hok
    · intro haccepted
      exact hserves.atNow (fun now hnow => (hcheck now hnow).2 haccepted) s
  cases serving with
  | delegated keys =>
    rw [← @key (SystemDnssecVerifier.validateNoData ⟨keys, noDataRecords response name, name, qtype⟩)
      fun now hnow => ?_]
    · refine exists_congr fun s' => resolveSecureNoData_eq_ok.trans ?_
      obtain ⟨now, s₁, hnow⟩ := hserves.clock s
      exact (and_iff_right (DelegatedKeys.ne_nil_of_status (h.secure now ⟨s, s₁, hnow⟩))).trans
        (and_iff_left rfl)
    · rw [SystemDnssecVerifier.validateNoData, ifSecure_of_secure (h.secure now hnow)]
      exact hdenies now hnow
  | child keys =>
    rw [← @key (SystemDnssecVerifier.validateChildNoData
      ⟨keys, noDataRecords response name, name, qtype⟩) fun now hnow => ?_]
    · exact exists_congr fun s' => resolveSecureChildNoData_eq_ok.trans (and_iff_left rfl)
    · rw [SystemDnssecVerifier.validateChildNoData, h.ifChildSecure_eq hnow]
      exact hdenies now hnow

/-- An honest proof that a name does not exist is accepted as it is for a request of its own. -/
theorem Honest.nameError_iff (h : serving.Honest env zone)
    (hnsec : zone.nsecs = [] ∨ NsecChain zone) (hnsec3 : Nsec3Chains zone) {name encloser : DnsName}
    (hclosest : zone.ClosestEncloser name encloser) (hname : zone.NameErrorBelow name encloser)
    {proof : NameErrorProof} (hproves : proof.Proves zone name encloser) {response : DnsMessage}
    (hresponse : DenialResponse zone serving.dnskeyRrset {now | env.Shows now} proof.rrsets
      response) (prefixRecords : List ResourceRecord) (s : σ) :
    (∃ s', (serving.source env server requestName qtype).nameError name response prefixRecords s =
      .ok (provenAnswer name prefixRecords) s') ↔ proof.Accepted := by
  cases serving with
  | delegated keys =>
    rw [← resolveSecureNameError_iff h hnsec hnsec3 hclosest hname hproves hresponse prefixRecords s]
    constructor
    · rintro ⟨s', hs'⟩
      exact ⟨_, s', hs', rfl⟩
    · rintro ⟨answer, s', hs', -⟩
      obtain rfl := resolveSecureNameError_answer hs'
      exact ⟨s', hs'⟩
  | child keys =>
    have hapex : keys.childDnskeyOwner = zone.apex := h.1.apex
    have hcheck (now : DnssecTime) (hnow : env.Shows now) (candidate : DnsName) :
        SystemDnssecVerifier.validateChildNameError
            ⟨keys, nameErrorRecords response, name, candidate⟩ now =
          deniesName zone.apex keys.child.dnskeyRrset (nameErrorRecords response) name candidate
            now := by
      rw [SystemDnssecVerifier.validateChildNameError, h.ifChildSecure_eq hnow, ← hapex]
      rfl
    have htry {candidates : List DnsName}
        (hcandidates : closestEncloserCandidates name keys.childDnskeyOwner = .ok candidates) :=
      tryClosestEnclosers_iff h.1 hnsec hnsec3 hclosest hname hproves hresponse hcheck
        (hapex ▸ hcandidates) prefixRecords s
    change (∃ s', resolveSecureChildNameError (systemDnssecVerifier env) keys name response
      prefixRecords s = _) ↔ _
    rw [resolveSecureChildNameError]
    constructor
    · rintro ⟨s', hs'⟩
      obtain ⟨-, hs'⟩ := EStateM.throw_unless.1 hs'
      obtain ⟨candidates, hcandidates, hs'⟩ := EStateM.checked_bind_eq_ok.1 hs'
      exact (htry hcandidates).1 ⟨_, s', hs'⟩
    · intro haccepted
      obtain ⟨candidates, hcandidates, -⟩ :=
        mem_closestEncloserCandidates.2 ⟨hclosest.2.1, hapex ▸ hclosest.1.1⟩
      obtain ⟨now, s₁, hnow⟩ := h.1.clock s
      obtain ⟨answer, s', hs'⟩ := (htry hcandidates).2 haccepted
      obtain rfl := (tryClosestEnclosers_eq_ok hs').1
      refine ⟨s', EStateM.throw_unless.2 ⟨?_, ?_⟩⟩
      · exact DelegatedKeys.ne_nil_of_status (h.1.secure now ⟨s, s₁, hnow⟩)
      · exact EStateM.checked_bind_eq_ok.2 ⟨candidates, hcandidates, hs'⟩

end ServingZone

end

end Hns
