import Hns.Resolver.NameErrors

/-!
# Empty answers of honest servers

A name has no data of a type by its own NSEC or NSEC3 record, because only names
below it have any, or by the record of the wildcard that stands for it
(`NoDataProof`). The resolver looks for a record of the name itself. So an
honest empty answer is accepted just when the proof is the record of the name
(`resolveDelegatedFromServer_noData_iff`).
-/

namespace Hns

open DnsName

/-! ## Proofs -/

/-- The records that prove an empty answer: the record of the name, or an NSEC record that shows a
    name below it, or records for the wildcard, or NSEC3 records for a delegation in a gap that
    opts out. -/
inductive NoDataProof
  | nsec (entry : NsecEntry)
  | nsecBetween (entry : NsecEntry)
  | nsecWildcard (wildcard covering : NsecEntry)
  | nsec3 (entry : Nsec3Entry)
  | nsec3OptOut (closest nextCloser : Nsec3Entry)
  | nsec3Wildcard (closest nextCloser wildcard : Nsec3Entry)

namespace NoDataProof

def rrsets : NoDataProof → List ZoneRrset
  | .nsec entry => [entry.rrset]
  | .nsecBetween entry => [entry.rrset]
  | .nsecWildcard wildcard covering => [wildcard.rrset, covering.rrset]
  | .nsec3 entry => [entry.rrset]
  | .nsec3OptOut closest nextCloser => [closest.rrset, nextCloser.rrset]
  | .nsec3Wildcard closest nextCloser wildcard =>
    [closest.rrset, nextCloser.rrset, wildcard.rrset]

/-- The proof is one for the name and the type. -/
inductive Proves [DnssecCrypto] (zone : SignedZone) (name : DnsName) (recordType : RecordType) :
    NoDataProof → Prop
  | nsec {entry : NsecEntry} (hentry : entry ∈ zone.nsecs) (howner : entry.owner = name)
    (hlacks : ¬zone.Shows name recordType.code) (hcname : ¬zone.Shows name RecordType.cname.code) :
    Proves zone name recordType (.nsec entry)
  | nsecBetween {entry : NsecEntry} (hentry : entry ∈ zone.nsecs) (hexists : zone.Exists name)
    (howner : entry.owner < name) (hnext : entry.next.isStrictSubdomain name) :
    Proves zone name recordType (.nsecBetween entry)
  | nsecWildcard {wildcard covering : NsecEntry} (hwildcard : wildcard ∈ zone.nsecs)
    (hcovering : covering ∈ zone.nsecs) (hsource : zone.SourceOfSynthesis name wildcard.owner)
    (hlacks : ¬zone.Shows wildcard.owner recordType.code)
    (hcname : ¬zone.Shows wildcard.owner RecordType.cname.code)
    (hname : covering.Covers zone.apex name) :
    Proves zone name recordType (.nsecWildcard wildcard covering)
  | nsec3 {entry : Nsec3Entry} (hentry : entry ∈ zone.nsec3s) (husable : entry.nsec3.isUsable)
    (hname : entry.original = name) (hlacks : ¬zone.ShowsHashed name recordType.code)
    (hcname : ¬zone.ShowsHashed name RecordType.cname.code) :
    Proves zone name recordType (.nsec3 entry)
  | nsec3OptOut {closest nextCloser : Nsec3Entry} {nextName : DnsName}
    (hmem : ∀ entry ∈ [closest, nextCloser], entry ∈ zone.nsec3s ∧ entry.nsec3.isUsable)
    (hcut : zone.IsDelegation name) (htype : recordType = .ds)
    (hnone : ∀ entry ∈ zone.nsec3s, entry.original ≠ name)
    (hclosest : name.isStrictSubdomain closest.original)
    (hnext : name.isSubdomainOrEqual nextName ∧ nextName.isStrictSubdomain closest.original ∧
      nextName.labels.length = closest.original.labels.length + 1)
    (hopt : nextCloser.nsec3.isOptOut) (hname : nextCloser.Covers nextName) :
    Proves zone name recordType (.nsec3OptOut closest nextCloser)
  | nsec3Wildcard {closest nextCloser wildcard : Nsec3Entry} {nextName : DnsName}
    (hmem : ∀ entry ∈ [closest, nextCloser, wildcard], entry ∈ zone.nsec3s ∧ entry.nsec3.isUsable)
    (hclosest : zone.ClosestEncloser name closest.original)
    (hnext : name.isSubdomainOrEqual nextName ∧ nextName.isStrictSubdomain closest.original ∧
      nextName.labels.length = closest.original.labels.length + 1)
    (hname : nextCloser.Covers nextName)
    (hsource : zone.SourceOfSynthesis name wildcard.original)
    (hlacks : ¬zone.ShowsHashed wildcard.original recordType.code)
    (hcname : ¬zone.ShowsHashed wildcard.original RecordType.cname.code) :
    Proves zone name recordType (.nsec3Wildcard closest nextCloser wildcard)

/-- The record is that of the name. One of NSEC3 must not ask for too many rounds. -/
def Accepted : NoDataProof → Prop
  | .nsec _ => True
  | .nsec3 entry => entry.nsec3.iterations ≤ nsec3MaxIterations
  | _ => False

end NoDataProof

/-! ## Records of the name -/

theorem recordsFor_eq {records : List ResourceRecord} {owner : DnsName} {recordType : RecordType} :
    recordsFor records owner recordType =
      (recordsOfType records recordType).filter fun record => record.name = owner := by
  rw [recordsFor, recordsOfType, List.filter_filter]
  simp

namespace DenialResponse

variable [DnssecCrypto] {zone : SignedZone} {dnskeyRrset : List ResourceRecord}
  {times : Set DnssecTime} {rrsets : List ZoneRrset} {response : DnsMessage} {name : DnsName}
  {recordType : RecordType}

/-- There are no records of a type at a name that is not an owner. -/
theorem recordsFor_eq_nil (h : DenialResponse zone dnskeyRrset times rrsets response)
    (htype : recordType ≠ .rrsig) (hsoa : recordType ≠ .soa)
    (hnot : ∀ rrset ∈ rrsets, rrset.name ≠ name) :
    recordsFor (combinedResponseRecords response) name recordType = [] := by
  obtain ⟨soa, -, hcode, hsection⟩ := h.authorities
  obtain ⟨own, hperm, hown⟩ := hsection.exists_perm htype
  rw [recordsFor_eq, combinedResponseRecords, h.answers, List.nil_append]
  refine List.filter_eq_nil_iff.2 fun record hrecord => ?_
  obtain ⟨rrset, hrrset, hname, -⟩ := hown.exists_left record (hperm.mem_iff.1 hrecord)
  obtain ⟨hrrset, hrrsetType⟩ := List.mem_filter.1 hrrset
  rw [decide_eq_true_eq, hname]
  rcases List.mem_cons.1 hrrset with rfl | hrrset
  · rw [hcode] at hrrsetType
    exact absurd (of_decide_eq_true hrrsetType).symm hsoa
  · exact hnot rrset (List.mem_dedup.1 hrrset)

end DenialResponse

namespace SignedZone

variable [DnssecCrypto] {zone : SignedZone} {dnskeyRrset : List ResourceRecord}
  {times : Set DnssecTime} {rrsets : List ZoneRrset} {response : DnsMessage} {name : DnsName}
  {recordType : RecordType} {now : DnssecTime}

/-- NSEC records of other names are no proof. -/
theorem deniesData_of_nsec_ne (hresponse : DenialResponse zone dnskeyRrset times rrsets response)
    (hcode : ∀ rrset ∈ rrsets, rrset.typeCode = RecordType.nsec.code)
    (hne : ∀ rrset ∈ rrsets, rrset.name ≠ name) :
    deniesData zone.apex dnskeyRrset (noDataRecords response name) name recordType now =
      .ok false := by
  have hnsec : (noDataRecords response name).nsecRrset = [] :=
    hresponse.recordsFor_eq_nil (by decide) (by decide) hne
  have hnsec3 : (noDataRecords response name).nsec3Rrset = [] := by
    refine hresponse.recordsOfType_eq_nil (by decide) (by decide) fun rrset hrrset => ?_
    rw [hcode rrset hrrset]
    decide
  rw [deniesData, hnsec, hnsec3, orSecure_nil, orSecure_nil]
  rfl

/-- The NSEC record of the name is a proof. -/
theorem deniesData_of_nsec (hchain : NsecChain zone) {entry : NsecEntry}
    (hresponse : DenialResponse zone dnskeyRrset times [entry.rrset] response)
    (hentry : entry ∈ zone.nsecs) (howner : entry.owner = name)
    (hlacks : ¬zone.Shows name recordType.code) (hcname : ¬zone.Shows name RecordType.cname.code)
    (hnow : now ∈ times) :
    deniesData zone.apex dnskeyRrset (noDataRecords response name) name recordType now =
      .ok true := by
  have hcode : RecordType.fromCode RecordType.nsec.code = .nsec := by decide
  obtain ⟨record, hrecords, hname, hof, hsecure⟩ := hresponse.exists_single
    (fun other hother => List.mem_singleton.1 hother) List.mem_cons_self hcode (by decide)
  obtain ⟨rdata, hrdatas, hcanonical, -⟩ := hof.data
  obtain rfl : entry.rdata = rdata := List.singleton_inj.1 hrdatas
  have htype : record.recordType = .nsec := hof.recordType
  have hrecord : record.name = name := hname.trans howner
  have hnsec : (noDataRecords response name).nsecRrset = [record] := by
    change recordsFor (combinedResponseRecords response) name .nsec = [record]
    rw [recordsFor_eq, hrecords, List.filter_cons_of_pos (by simpa using hrecord), List.filter_nil]
  rw [← howner, ← hchain.bitmap entry hentry] at hlacks hcname
  have hvalid := validateNsecNoData_single htype hrecord
    (NsecEntry.fromRecord_of_canonicalRdata htype hcanonical) (hsecure now hnow) hlacks hcname
  rw [deniesData, hnsec]
  change orSecure [record] (validateNsecNoData ⟨zone.apex, dnskeyRrset, name, recordType, [record],
    recordsOfType (combinedResponseRecords response) .rrsig, now⟩) _ = _
  rw [hvalid, orSecure_of_ok (List.cons_ne_nil _ _), if_pos rfl]

/-- NSEC3 records are a proof when the validation of an empty answer takes them for one. -/
theorem deniesData_of_nsec3 (hresponse : DenialResponse zone dnskeyRrset times rrsets response)
    (hcode : ∀ rrset ∈ rrsets, rrset.typeCode = RecordType.nsec3.code)
    (hne : recordsOfType (combinedResponseRecords response) .nsec3 ≠ []) :
    deniesData zone.apex dnskeyRrset (noDataRecords response name) name recordType now = .ok true ↔
      validateNsec3NoData ⟨zone.apex, dnskeyRrset, name, recordType,
        recordsOfType (combinedResponseRecords response) .nsec3,
        recordsOfType (combinedResponseRecords response) .rrsig, now⟩ = .ok .secure := by
  have hnsec : (noDataRecords response name).nsecRrset = [] := by
    change recordsFor (combinedResponseRecords response) name .nsec = []
    rw [recordsFor_eq, hresponse.recordsOfType_eq_nil (by decide) (by decide) fun rrset hrrset => ?_,
      List.filter_nil]
    rw [hcode rrset hrrset]
    decide
  rw [deniesData, hnsec, orSecure_nil]
  constructor
  · intro h
    exact (orSecure_eq_ok_true h).elim And.right fun h => by cases h
  · intro h
    change orSecure (recordsOfType (combinedResponseRecords response) .nsec3) (validateNsec3NoData
      ⟨zone.apex, dnskeyRrset, name, recordType, recordsOfType (combinedResponseRecords response)
        .nsec3, recordsOfType (combinedResponseRecords response) .rrsig, now⟩) _ = _
    rw [h, orSecure_of_ok hne, if_pos rfl]

/-- NSEC3 records of other names are no proof. -/
theorem not_deniesData_of_nsec3_ne (hchains : Nsec3Chains zone)
    (hkeys : zone.HonestKeys dnskeyRrset) (hfree : zone.NoCollision name)
    (hresponse : DenialResponse zone dnskeyRrset times rrsets response)
    (hcode : ∀ rrset ∈ rrsets, rrset.typeCode = RecordType.nsec3.code)
    (hne : recordsOfType (combinedResponseRecords response) .nsec3 ≠ [])
    (hnone : ∀ entry ∈ zone.nsec3s, entry.nsec3.isUsable → entry.original ≠ name) :
    deniesData zone.apex dnskeyRrset (noDataRecords response name) name recordType now ≠
      .ok true := by
  rw [Ne, deniesData_of_nsec3 hresponse hcode hne]
  intro hsecure
  obtain ⟨⟨entry, hentry, husable, -, horiginal⟩, -⟩ :=
    hasNsec3_of_secure hchains hkeys hfree hsecure
  exact hnone entry hentry husable horiginal

/-- Of the proofs of an honest server, those are taken that are the record of the name. -/
theorem deniesData_iff (hnsec : zone.nsecs = [] ∨ NsecChain zone) (hchains : Nsec3Chains zone)
    (hkeys : zone.HonestKeys dnskeyRrset) (hfree : zone.NoCollision name) {proof : NoDataProof}
    (hproves : proof.Proves zone name recordType)
    (hresponse : DenialResponse zone dnskeyRrset times proof.rrsets response) (hnow : now ∈ times) :
    deniesData zone.apex dnskeyRrset (noDataRecords response name) name recordType now = .ok true ↔
      proof.Accepted := by
  have hchain {entry : NsecEntry} (hentry : entry ∈ zone.nsecs) : NsecChain zone := by
    refine hnsec.resolve_left fun hnil => ?_
    rw [hnil] at hentry
    cases hentry
  have hsome {rrset : ZoneRrset} (hrrset : rrset ∈ proof.rrsets)
      (hcode : rrset.typeCode = RecordType.nsec3.code) :
      recordsOfType (combinedResponseRecords response) .nsec3 ≠ [] := by
    obtain ⟨record, hrecord, -⟩ := hresponse.exists_record hrrset
    rw [hcode] at hrecord
    exact List.ne_nil_of_mem hrecord
  cases hproves with
  | nsec hentry howner hlacks hcname =>
    exact iff_of_true
      (deniesData_of_nsec (hchain hentry) hresponse hentry howner hlacks hcname hnow) trivial
  | @nsecBetween entry _ _ howner _ =>
    refine iff_of_false ?_ id
    have hne : ∀ rrset ∈ [entry.rrset], rrset.name ≠ name := by
      rw [List.forall_mem_singleton]
      exact howner.ne
    rw [deniesData_of_nsec_ne hresponse (List.forall_mem_singleton.2 rfl) hne]
    simp
  | @nsecWildcard wildcard covering _ _ hsource _ _ hname =>
    refine iff_of_false ?_ id
    have hcode : ∀ rrset ∈ [wildcard.rrset, covering.rrset],
        rrset.typeCode = RecordType.nsec.code := by
      rw [List.forall_mem_cons, List.forall_mem_singleton]
      exact ⟨rfl, rfl⟩
    have hne : ∀ rrset ∈ [wildcard.rrset, covering.rrset], rrset.name ≠ name := by
      rw [List.forall_mem_cons, List.forall_mem_singleton]
      exact ⟨fun heq => hsource.1 (heq ▸ hsource.2.1.exists), hname.1.ne⟩
    rw [deniesData_of_nsec_ne hresponse hcode hne]
    simp
  | @nsec3 entry hentry husable hname hlacks hcname =>
    have hcode : ∀ rrset ∈ [entry.rrset], rrset.typeCode = RecordType.nsec3.code :=
      List.forall_mem_singleton.2 rfl
    rw [deniesData_of_nsec3 hresponse hcode (hsome List.mem_cons_self rfl)]
    obtain ⟨record, hrecords, hproofs, hsecure⟩ := hresponse.exists_single_nsec3 hchains hentry
      husable (fun other hother => List.mem_singleton.1 hother) List.mem_cons_self
    rw [hrecords, validateNsec3NoData_single hchains ⟨hentry, husable, rfl, rfl⟩ hproofs
      (hsecure now hnow), hname]
    exact ⟨fun h => h.1.1, fun hmax => ⟨⟨hmax, rfl⟩, hlacks, hcname⟩⟩
  | @nsec3OptOut closest nextCloser _ _ _ _ hnone =>
    refine iff_of_false (not_deniesData_of_nsec3_ne hchains hkeys hfree hresponse ?_
      (hsome List.mem_cons_self rfl) fun entry hentry _ => hnone entry hentry) id
    rw [NoDataProof.rrsets, List.forall_mem_cons, List.forall_mem_singleton]
    exact ⟨rfl, rfl⟩
  | @nsec3Wildcard closest nextCloser wildcard _ _ _ _ _ hsource =>
    refine iff_of_false (not_deniesData_of_nsec3_ne hchains hkeys hfree hresponse ?_
      (hsome List.mem_cons_self rfl) fun entry hentry husable horiginal => ?_) id
    · rw [NoDataProof.rrsets, List.forall_mem_cons, List.forall_mem_cons, List.forall_mem_singleton]
      exact ⟨rfl, rfl, rfl⟩
    · exact hsource.1 (horiginal ▸ hchains.original entry hentry husable)

end SignedZone

/-! ## Resolution -/

section

variable [Sha2] [DnssecCrypto] {σ : Type} {env : Environment σ} {zone : SignedZone}
  {delegation : HnsDelegation} {name : DnsName} {qtype : RecordType} {server : SocketAddr}
  {dsRrset : List ResourceRecord} {response dnskeyResponse : DnsMessage} {s s₁ s₂ : σ}
  {proof : NoDataProof}

/-- The keys that a server has given for a delegated zone. -/
def HnsDelegation.keys (delegation : HnsDelegation) (dsRrset : List ResourceRecord)
    (dnskeyResponse : DnsMessage) : DelegatedKeys where
  dnskeyOwner := delegation.owner
  dsRrset := dsRrset
  dnskeyRrset := recordsFor dnskeyResponse.answers delegation.owner .dnskey
  dnskeyRrsigRrset := recordsFor dnskeyResponse.answers delegation.owner .rrsig

omit [Sha2] in
/-- A proof has no delegation to a child zone. -/
theorem DenialResponse.childReferral_eq_none {times : Set DnssecTime} {rrsets : List ZoneRrset}
    {dnskeyRrset : List ResourceRecord} {owner : DnsName}
    (h : DenialResponse zone dnskeyRrset times rrsets response)
    (hne : ∀ rrset ∈ rrsets, RecordType.fromCode rrset.typeCode ≠ .ns) :
    childReferral response owner name = none := by
  have hnil := h.recordsOfType_eq_nil (by decide) (by decide) hne
  rw [combinedResponseRecords, h.answers, List.nil_append] at hnil
  rw [childReferral, childOwners, hnil]
  rfl

omit [Sha2] [DnssecCrypto] in
/-- The RRsets of a proof are NSEC and NSEC3 records. -/
theorem NoDataProof.fromCode_ne_ns (proof : NoDataProof) :
    ∀ rrset ∈ proof.rrsets, RecordType.fromCode rrset.typeCode ≠ .ns := by
  have hnsec (entry : NsecEntry) : RecordType.fromCode entry.rrset.typeCode ≠ .ns := by
    change RecordType.fromCode RecordType.nsec.code ≠ .ns
    decide
  have hnsec3 (entry : Nsec3Entry) : RecordType.fromCode entry.rrset.typeCode ≠ .ns := by
    change RecordType.fromCode RecordType.nsec3.code ≠ .ns
    decide
  cases proof <;> simp [NoDataProof.rrsets, hnsec, hnsec3]

/-- An honest empty answer is accepted just when its proof is the record of the name. -/
theorem resolveDelegatedFromServer_noData_iff (hds : dsRrset ≠ [])
    (hresolve : env.dnsQuery server name qtype s = .ok response s₁)
    (hdnskey : env.dnsQuery server delegation.owner .dnskey s₁ = .ok dnskeyResponse s₂)
    (hserves : Serves env (delegation.keys dsRrset dnskeyResponse) zone)
    (hnsec : zone.nsecs = [] ∨ NsecChain zone) (hnsec3 : Nsec3Chains zone)
    (hfree : zone.NoCollision name) (hproves : proof.Proves zone name qtype)
    (hrcode : response.header.flags.rcode = dnsRcodeNoerror)
    (hresponse : DenialResponse zone (delegation.keys dsRrset dnskeyResponse).dnskeyRrset
      {now | env.Shows now} proof.rrsets response) :
    (∃ answer s', resolveDelegatedFromServer env (systemDnssecVerifier env) delegation name qtype
      dsRrset server s = .ok answer s' ∧ answer.secure ∧ answer.records = []) ↔ proof.Accepted := by
  have hnoData : resolveDelegatedFromServer env (systemDnssecVerifier env) delegation name qtype
      dsRrset server s = resolveSecureNoData (systemDnssecVerifier env)
        (delegation.keys dsRrset dnskeyResponse) name qtype response [] s₂ := by
    have hnx : ¬response.header.flags.rcode = dnsRcodeNxdomain := by
      rw [hrcode]
      decide
    have hnone : childReferral response delegation.owner name = none :=
      hresponse.childReferral_eq_none proof.fromCode_ne_ns
    rw [resolveDelegatedFromServer, EStateM.bind_ok hresolve, if_neg hds, EStateM.bind_ok hdnskey,
      resolveSecureFromServer]
    dsimp only
    rw [if_neg hnx, hnone, hresponse.answers]
    rfl
  have hvalidate (now : DnssecTime) (hnow : env.Shows now) :
      SystemDnssecVerifier.validateNoData ⟨delegation.keys dsRrset dnskeyResponse,
        noDataRecords response name, name, qtype⟩ now = .ok true ↔ proof.Accepted := by
    rw [← SignedZone.deniesData_iff hnsec hnsec3 hserves.honest hfree hproves hresponse hnow,
      SystemDnssecVerifier.validateNoData, ifSecure_eq_ok_true, ← hserves.apex]
    exact and_iff_right (hserves.secure now hnow)
  rw [hnoData]
  constructor
  · rintro ⟨answer, s', h, -⟩
    obtain ⟨-, h, -⟩ := resolveSecureNoData_eq_ok.1 h
    obtain ⟨now, hnow, h⟩ := Environment.atNow_eq_ok.1 h
    exact (hvalidate now ⟨s₂, s', hnow⟩).1 h
  · intro haccepted
    obtain ⟨now, s', hnow⟩ := hserves.clock s₂
    refine ⟨provenAnswer name [], s', resolveSecureNoData_eq_ok.2 ⟨?_, ?_, rfl⟩, rfl, rfl⟩
    · exact DelegatedKeys.ne_nil_of_status (hserves.secure now ⟨s₂, s', hnow⟩)
    · exact Environment.atNow_eq_ok.2 ⟨now, hnow, (hvalidate now ⟨s₂, s', hnow⟩).2 haccepted⟩

end

/-! ## The record of a name, and that of a wildcard -/

namespace NoDataSample

open NsecSample WildcardSample

def server : SocketAddr := ⟨.v4 ⟨[192, 0, 2, 53], rfl⟩, 53⟩

def delegation : HnsDelegation := table.delegation digest site

/-- The answer for the HTTPS records of the site. -/
def response : DnsMessage := .ofSections 0 site .https [] (table.signedRecords [soa, nsecSite.rrset])

def y : DnsLabel := ⟨[0x79], by decide, by decide, by decide, by decide⟩

/-- A name that the wildcard stands for. -/
def expanded : DnsName := ⟨[y, z], by decide⟩

/-- The answer for its HTTPS records. -/
def wildcardResponse : DnsMessage :=
  .ofSections 0 expanded .https []
    (table.signedRecords [soa, nsecWildcard.rrset, nsecSite.rrset])

def env : Environment Unit := .answering [table.dnskeyResponse, response, wildcardResponse] 1500

/-- What the server answers, and the honest answer for a name that the wildcard stands for is an
    error. -/
theorem evaluated :
    (recordsFor table.dnskeyResponse.answers apex .dnskey = [table.dnskeyRecord] ∧
        recordsFor table.dnskeyResponse.answers apex .rrsig = [table.rrsigRecord dnskey apex]) ∧
      (env.dnsQuery server site .https () = .ok response () ∧
        env.dnsQuery server delegation.owner .dnskey () = .ok table.dnskeyResponse () ∧
        env.dnsQuery server expanded .https () = .ok wildcardResponse ()) ∧
      resolveDelegatedFromServer env (systemDnssecVerifier env) delegation expanded .https
        [table.dsRecord digest] server () = .error .dnssecFailed () := by
  decide +kernel

theorem keys_eq : delegation.keys [table.dsRecord digest] table.dnskeyResponse =
    table.keys digest := by
  obtain ⟨⟨hdnskey, hrrsig⟩, -⟩ := evaluated
  exact congrArg₂ (DelegatedKeys.mk apex [table.dsRecord digest]) hdnskey hrrsig

theorem serves : Serves env (delegation.keys [table.dsRecord digest] table.dnskeyResponse) zone := by
  rw [keys_eq]
  exact NsecSample.fits.serves NameErrorSample.published.1

theorem denialResponse {rrsets : List ZoneRrset} {message : DnsMessage}
    (hanswers : message.answers = [])
    (hauthorities : message.authorities = table.signedRecords (soa :: rrsets.dedup))
    (hmem : ∀ rrset ∈ rrsets, rrset = nsecSite.rrset ∨ rrset = nsecWildcard.rrset) :
    DenialResponse zone (delegation.keys [table.dsRecord digest] table.dnskeyResponse).dnskeyRrset
      {now | env.Shows now} rrsets message := by
  refine ⟨hanswers, soa, rfl, rfl, ?_⟩
  rw [hauthorities, keys_eq]
  have hpub : ∀ rrset ∈ soa :: rrsets.dedup,
      rrset ∈ [soa, nsecSite.rrset, nsecWildcard.rrset] := by
    simp only [List.mem_cons, List.not_mem_nil, or_false, List.mem_dedup]
    exact fun rrset h => h.imp_right (hmem rrset)
  refine NsecSample.fits.signedSection
    (fun rrset h => (NameErrorSample.published.2 rrset (hpub rrset h)).1)
    (fun rrset h => (NameErrorSample.published.2 rrset (hpub rrset h)).2) ?_
  rintro now ⟨s, s', hnow⟩
  cases hnow
  decide

def proof : NoDataProof := .nsec nsecSite

theorem proves_site : proof.Proves zone site .https := by
  obtain ⟨⟨-, hlacks, hcname, -⟩, -⟩ := owners
  exact .nsec (by simp [zone]) rfl hlacks hcname

theorem noCollision (name : DnsName) : zone.NoCollision name := by
  intro entry hentry
  cases hentry

/-- The NSEC record of the site is accepted. -/
theorem exists_secure_site :
    (env.dnsQuery server site .https () = .ok response () ∧
      env.dnsQuery server delegation.owner .dnskey () = .ok table.dnskeyResponse () ∧
      Serves env (delegation.keys [table.dsRecord digest] table.dnskeyResponse) zone ∧
      NsecChain zone ∧ Nsec3Chains zone ∧ zone.NoCollision site ∧ proof.Proves zone site .https ∧
      response.header.flags.rcode = dnsRcodeNoerror ∧
      DenialResponse zone
        (delegation.keys [table.dsRecord digest] table.dnskeyResponse).dnskeyRrset
        {now | env.Shows now} proof.rrsets response) ∧
    ∃ answer s', resolveDelegatedFromServer env (systemDnssecVerifier env) delegation site .https
      [table.dsRecord digest] server () = .ok answer s' ∧ answer.secure ∧ answer.records = [] := by
  obtain ⟨-, ⟨hresolve, hdnskey, -⟩, -⟩ := evaluated
  have hresponse : DenialResponse zone
      (delegation.keys [table.dsRecord digest] table.dnskeyResponse).dnskeyRrset
      {now | env.Shows now} proof.rrsets response :=
    denialResponse rfl rfl fun _ h => .inl (List.mem_singleton.1 h)
  exact ⟨⟨hresolve, hdnskey, serves, nsecChain, nsec3Chains, noCollision site, proves_site,
    by decide, hresponse⟩, (resolveDelegatedFromServer_noData_iff (List.cons_ne_nil _ _) hresolve
      hdnskey serves (.inr nsecChain) nsec3Chains (noCollision site) proves_site (by decide)
      hresponse).2 trivial⟩

/-- The record of the wildcard, and the one before the name. -/
def wildcardProof : NoDataProof := .nsecWildcard nsecWildcard nsecSite

/-- The wildcard, which lacks the type, stands for the name, and the site is before that. -/
theorem denied_expanded :
    (¬zone.Exists expanded ∧ zone.Owner wildcard ∧ zone.ClosestEncloser expanded apex) ∧
      (¬zone.Shows wildcard RecordType.https.code ∧ ¬zone.Shows wildcard RecordType.cname.code) ∧
      site < expanded ∧
      wildcardProof.rrsets.dedup = [nsecWildcard.rrset, nsecSite.rrset] := by
  decide +kernel

theorem proves_expanded : wildcardProof.Proves zone expanded .https := by
  obtain ⟨⟨hnot, howner, hclosest⟩, ⟨hlacks, hcname⟩, hname, -⟩ := denied_expanded
  exact .nsecWildcard (by simp [zone]) (by simp [zone]) ⟨hnot, howner, apex, hclosest, rfl⟩ hlacks
    hcname ⟨hname, .inr rfl⟩

/-- The honest answer for a name that the wildcard stands for is an error. -/
theorem exists_wildcard_rejected :
    Serves env (delegation.keys [table.dsRecord digest] table.dnskeyResponse) zone ∧
      NsecChain zone ∧ wildcardProof.Proves zone expanded .https ∧
      env.dnsQuery server expanded .https () = .ok wildcardResponse () ∧
      wildcardResponse.header.flags.rcode = dnsRcodeNoerror ∧
      DenialResponse zone
        (delegation.keys [table.dsRecord digest] table.dnskeyResponse).dnskeyRrset
        {now | env.Shows now} wildcardProof.rrsets wildcardResponse ∧
      resolveDelegatedFromServer env (systemDnssecVerifier env) delegation expanded .https
        [table.dsRecord digest] server () = .error .dnssecFailed () := by
  obtain ⟨-, ⟨-, -, hquery⟩, hrejected⟩ := evaluated
  refine ⟨serves, nsecChain, proves_expanded, hquery, by decide, denialResponse rfl ?_ ?_, hrejected⟩
  · rw [denied_expanded.2.2.2]
    rfl
  · intro rrset h
    rw [← List.mem_dedup, denied_expanded.2.2.2] at h
    simpa [or_comm] using h

end NoDataSample

end Hns
