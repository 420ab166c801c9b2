import Hns.Dnssec.Single
import Hns.Resolver.Served
import Hns.Resolver.Wildcard

/-!
# Name errors of honest servers

The proof of a name error has up to three parts (`NameErrorProof`), which the
validation takes as RRsets of their own. The resolver gives it all the NSEC or
NSEC3 records of the response for each of the parts, as if they were one RRset.
So an honest name error is accepted just when one record serves for all parts
(`resolveSecureNameError_iff`).
-/

namespace Hns

open DnsName

/-! ## Proofs -/

/-- The NSEC record covers the name. -/
def NsecEntry.Covers (entry : NsecEntry) (apex name : DnsName) : Prop :=
  entry.owner < name ∧ (name < entry.next ∨ entry.next = apex)

/-- A record covers names up to the next owner, or all names behind the last owner. -/
theorem NsecEntry.Covers.nsecCoversName {entry : NsecEntry} {apex name : DnsName}
    (h : entry.Covers apex name) (howner : apex ≤ entry.owner) :
    nsecCoversName entry.owner entry.next name := by
  obtain ⟨hlt, hnext | hnext⟩ := h
  · exact SignedZone.nsecCoversName_eq_true.2 ⟨hlt.ne', .inl ⟨hlt.trans hnext, hlt, hnext⟩⟩
  · refine SignedZone.nsecCoversName_eq_true.2 ⟨hlt.ne', ?_⟩
    rcases howner.lt_or_eq with hapex | hapex
    · exact .inr (.inl ⟨hnext ▸ hapex, .inl hlt⟩)
    · exact .inr (.inr (hapex.symm.trans hnext.symm))

/-- The NSEC3 record covers the name. -/
def Nsec3Entry.Covers [DnssecCrypto] (entry : Nsec3Entry) (name : DnsName) : Prop :=
  HashBetween (entry.nsec3.hash entry.original) entry.nsec3.nextHashedOwnerName
    (entry.nsec3.hash name)

/-- The records that prove a name error: an NSEC record for the name and one for the wildcard, or
    NSEC3 records for the closest encloser, the next closer name and the wildcard. -/
inductive NameErrorProof
  | nsec (covering wildcard : NsecEntry)
  | nsec3 (closest nextCloser wildcard : Nsec3Entry)

namespace NameErrorProof

def rrsets : NameErrorProof → List ZoneRrset
  | .nsec covering wildcard => [covering.rrset, wildcard.rrset]
  | .nsec3 closest nextCloser wildcard => [closest.rrset, nextCloser.rrset, wildcard.rrset]

/-- The proof is one for the name, with its closest encloser. -/
inductive Proves [DnssecCrypto] (zone : SignedZone) (name encloser : DnsName) :
    NameErrorProof → Prop
  | nsec {covering wildcard : NsecEntry} {wildcardName : DnsName}
    (hcovering : covering ∈ zone.nsecs) (hwildcard : wildcard ∈ zone.nsecs)
    (hname : covering.Covers zone.apex name) (hchild : wildcardName.IsWildcardOf encloser)
    (hcovers : wildcard.Covers zone.apex wildcardName) : Proves zone name encloser
      (.nsec covering wildcard)
  | nsec3 {closest nextCloser wildcard : Nsec3Entry} {nextName wildcardName : DnsName}
    (hmem : ∀ entry ∈ [closest, nextCloser, wildcard], entry ∈ zone.nsec3s ∧ entry.nsec3.isUsable)
    (hparams : ∀ entry ∈ [nextCloser, wildcard], sameNsec3Params closest.nsec3 entry.nsec3)
    (hclosest : closest.original = encloser)
    (hnext : name.isSubdomainOrEqual nextName ∧ nextName.isStrictSubdomain encloser ∧
      nextName.labels.length = encloser.labels.length + 1)
    (hname : nextCloser.Covers nextName) (hchild : wildcardName.IsWildcardOf encloser)
    (hcovers : wildcard.Covers wildcardName) : Proves zone name encloser
      (.nsec3 closest nextCloser wildcard)

/-- One record serves for all parts. One of NSEC3 must not opt out, nor ask for too many rounds. -/
def Accepted : NameErrorProof → Prop
  | .nsec covering wildcard => covering.rrset = wildcard.rrset
  | .nsec3 closest nextCloser wildcard =>
    (nextCloser.rrset = closest.rrset ∧ wildcard.rrset = closest.rrset) ∧
      closest.nsec3.isOptOut = false ∧ closest.nsec3.iterations ≤ nsec3MaxIterations

end NameErrorProof

namespace SignedZone

variable [DnssecCrypto] {zone : SignedZone} {dnskeyRrset rrset rrsigRrset : List ResourceRecord}
  {now : DnssecTime}

omit [DnssecCrypto] in
/-- Two NSEC records that show the same owner behind them are those of one owner. -/
theorem owner_eq_of_next_eq (hchain : NsecChain zone) {entry other : NsecEntry}
    (hentry : entry ∈ zone.nsecs) (hother : other ∈ zone.nsecs) (h : entry.next = other.next) :
    entry.owner = other.owner := by
  have key {a b : NsecEntry} (ha : a ∈ zone.nsecs) (hb : b ∈ zone.nsecs) (h : a.next = b.next) :
      ¬a.owner < b.owner := by
    intro hlt
    rcases hchain.next a ha with ⟨hnext, hgap⟩ | ⟨-, hlast⟩
    · rcases hchain.next b hb with ⟨hnext', -⟩ | ⟨hapex, -⟩
      · exact hgap b.owner (hchain.owner b hb) ⟨hlt, h ▸ hnext'⟩
      · -- Only the last owner has the apex behind it.
        have hle := le_of_isSubdomainOrEqual (hchain.owner a ha).below
        exact absurd hnext (not_lt.2 (h.trans hapex ▸ hle))
    · exact absurd hlt (not_lt.2 (hlast b.owner (hchain.owner b hb)))
  exact le_antisymm (not_lt.1 (key hother hentry h.symm)) (not_lt.1 (key hentry hother h))

/-- All records of a secure RRset of denials hold the same data. -/
theorem rdata_eq_of_secure (hkeys : zone.HonestKeys dnskeyRrset)
    (h : validateRrsetSignature zone.apex dnskeyRrset rrset rrsigRrset now = .ok .secure)
    {a b : ZoneRrset} {record other : ResourceRecord} (hrecord : record ∈ rrset)
    (hother : other ∈ rrset) (ha : IsRecordOf a record) (hb : IsRecordOf b other)
    (htype : a.typeCode = RecordType.nsec.code ∨ a.typeCode = RecordType.nsec3.code) :
    a.rdatas = b.rdatas := by
  obtain ⟨-, -, published, hpub, hreplays⟩ := exists_published hkeys h
  have hcode := (hreplays.recordType record hrecord).symm.trans ha.recordType
  have hone : ∃ rdata, published.rdatas = [rdata] := by
    rcases htype with htype | htype
    · rw [htype] at hcode
      obtain ⟨entry, -, rfl⟩ := exists_nsec_of_publishes hpub hcode
      exact ⟨_, rfl⟩
    · rw [htype] at hcode
      obtain ⟨entry, -, rfl⟩ := exists_nsec3_of_publishes hpub hcode
      exact ⟨_, rfl⟩
  obtain ⟨rdata, hone⟩ := hone
  have key {c : ZoneRrset} {r : ResourceRecord} (hr : r ∈ rrset) (hc : IsRecordOf c r) :
      c.rdatas = [rdata] := by
    obtain ⟨rdata', hrdatas, hcanonical, -⟩ := hc.data
    obtain ⟨rdata'', hmem, hcanonical'⟩ := hreplays.data r hr
    rw [hone, List.mem_singleton] at hmem
    rw [hrdatas, Except.ok.inj (hcanonical.symm.trans hcanonical'), hmem]
  rw [key hrecord ha, key hother hb]

/-- All NSEC3 records of a secure RRset have one owner. -/
theorem name_eq_of_secure (hchains : Nsec3Chains zone) (hkeys : zone.HonestKeys dnskeyRrset)
    (h : validateRrsetSignature zone.apex dnskeyRrset rrset rrsigRrset now = .ok .secure)
    {entry : Nsec3Entry} (husable : entry.nsec3.isUsable) {record other : ResourceRecord}
    (hrecord : record ∈ rrset) (hother : other ∈ rrset) (hof : IsRecordOf entry.rrset record) :
    record.name = other.name := by
  obtain ⟨-, -, published, hpub, hreplays⟩ := exists_published hkeys h
  obtain ⟨entry', hentry', rfl⟩ := exists_nsec3_of_publishes hpub
    ((hreplays.recordType record hrecord).symm.trans hof.recordType)
  obtain ⟨rdata, hrdatas, hcanonical, -⟩ := hof.data
  obtain ⟨rdata', hmem, hcanonical'⟩ := hreplays.data record hrecord
  have hrdata : entry.rdata = entry'.rdata := by
    rw [List.singleton_inj.1 hrdatas, Except.ok.inj (hcanonical.symm.trans hcanonical')]
    exact List.mem_singleton.1 hmem
  have hnsec3 : entry.nsec3 = entry'.nsec3 :=
    Except.ok.inj (entry.parse.symm.trans (hrdata ▸ entry'.parse))
  have husable' : entry'.nsec3.isUsable := hnsec3 ▸ husable
  rw [eq_owner_of_expands hchains hentry' husable' (hreplays.owner record hrecord),
    eq_owner_of_expands hchains hentry' husable' (hreplays.owner other hother)]

end SignedZone

namespace SignedZone

variable [DnssecCrypto] {zone : SignedZone} {dnskeyRrset : List ResourceRecord}
  {times : Set DnssecTime} {now : DnssecTime} {response : DnsMessage}
  {name encloser candidate : DnsName}

/-! ## NSEC -/

section

variable {covering wildcard : NsecEntry}
  (hresponse : DenialResponse zone dnskeyRrset times (NameErrorProof.nsec covering wildcard).rrsets
    response)

include hresponse

theorem nsec3Rrset_eq_nil : (nameErrorRecords response).nsec3Rrset = [] := by
  refine hresponse.recordsOfType_eq_nil (by decide) (by decide) fun rrset hrrset => ?_
  have hcode : rrset.typeCode = RecordType.nsec.code := by
    rcases List.mem_pair.1 hrrset with rfl | rfl
    · rfl
    · rfl
  rw [hcode]
  decide

/-- NSEC records that are taken for a proof are one. -/
theorem rrset_eq_of_deniesName (hchain : NsecChain zone) (hkeys : zone.HonestKeys dnskeyRrset)
    (hcovering : covering ∈ zone.nsecs) (hwildcard : wildcard ∈ zone.nsecs)
    (h : deniesName zone.apex dnskeyRrset (nameErrorRecords response) name candidate now =
      .ok true) : covering.rrset = wildcard.rrset := by
  rw [deniesName, nsec3Rrset_eq_nil hresponse, orSecure_nil] at h
  obtain ⟨-, hsecure⟩ | h := orSecure_eq_ok_true h
  · obtain ⟨-, -, hrange, -⟩ := validateNsecNameError_eq_secure.1 hsecure
    obtain ⟨hsigned, -⟩ := thenIfSecure_eq_secure.1 hrange
    obtain ⟨record, hrecord, -, hof⟩ := hresponse.exists_record List.mem_cons_self
    obtain ⟨other, hother, -, hof'⟩ :=
      hresponse.exists_record (List.mem_cons_of_mem _ List.mem_cons_self)
    have hrdata : [covering.rdata] = [wildcard.rdata] :=
      rdata_eq_of_secure hkeys hsigned hrecord hother hof hof' (.inl rfl)
    have hnext := (wire_append_inj (List.singleton_inj.1 hrdata)).1
    have howner := owner_eq_of_next_eq hchain hcovering hwildcard hnext
    rw [NsecEntry.rrset, NsecEntry.rrset, howner, hrdata]
  · cases h

omit hresponse in
theorem deniesName_of_nsec {signerName : DnsName} {records : DenialRecords}
    {record : ResourceRecord} (hnsec : records.nsecRrset = [record])
    (hnsec3 : records.nsec3Rrset = []) {status : DnssecStatus}
    (hstatus : validateNsecNameError ⟨signerName, dnskeyRrset, name, candidate, [record],
      records.nsecRrsigRrset, [record], records.nsecRrsigRrset, now⟩ = .ok status) :
    deniesName signerName dnskeyRrset records name candidate now =
      .ok (decide (status = .secure)) := by
  rw [deniesName, hnsec, hnsec3, orSecure_nil, hstatus, orSecure_of_ok (List.cons_ne_nil _ _)]
  cases status <;> rfl

/-- One NSEC record is taken for a proof. -/
theorem deniesName_of_rrset_eq (h : covering.rrset = wildcard.rrset)
    (hname : covering.Covers zone.apex name) {wildcardName : DnsName}
    (hchild : wildcardName.IsWildcardOf encloser)
    (hcovers : wildcard.Covers zone.apex wildcardName) (howner : zone.apex ≤ covering.owner)
    (hbelow : name.isStrictSubdomain encloser) (hnow : now ∈ times) :
    (∀ candidate, name.isStrictSubdomain candidate → ∃ isProof, deniesName zone.apex dnskeyRrset
      (nameErrorRecords response) name candidate now = .ok isProof) ∧
    deniesName zone.apex dnskeyRrset (nameErrorRecords response) name encloser now = .ok true := by
  obtain ⟨record, hrecords, hrecordName, hof, hsecure⟩ := hresponse.exists_single
    (fun other hother => by
      rcases List.mem_pair.1 hother with rfl | rfl
      · rfl
      · exact h.symm) List.mem_cons_self (show RecordType.fromCode RecordType.nsec.code = .nsec from
        by decide) (by decide)
  obtain ⟨rdata, hrdatas, hcanonical, -⟩ := hof.data
  obtain rfl : covering.rdata = rdata := List.singleton_inj.1 hrdatas
  have htype : record.recordType = .nsec := hof.recordType
  have hread := NsecEntry.fromRecord_of_canonicalRdata htype hcanonical
  have hcover {n : DnsName} (hn : covering.Covers zone.apex n) :
      nsecCoversName record.name covering.next n := by
    rw [hrecordName]
    exact hn.nsecCoversName howner
  refine ⟨fun candidate hcandidate => ?_, ?_⟩
  · obtain ⟨status, hstatus⟩ :=
      exists_validateNsecNameError_single htype hread (hsecure now hnow) hcandidate
    exact ⟨_, deniesName_of_nsec hrecords (nsec3Rrset_eq_nil hresponse) hstatus⟩
  · have hwcovers : covering.Covers zone.apex wildcardName := by
      obtain ⟨hname', -, hrdata'⟩ := ZoneRrset.mk.inj h
      rw [NsecEntry.Covers, hname', (wire_append_inj (List.singleton_inj.1 hrdata')).1]
      exact hcovers
    exact deniesName_of_nsec hrecords (nsec3Rrset_eq_nil hresponse)
      (validateNsecNameError_single htype hread (hsecure now hnow) hbelow (hcover hname) hchild
        (hcover hwcovers))

end

/-! ## NSEC3 -/

/-- The data of an NSEC3 record and its owner determine what it shows. -/
theorem eq_of_rrset_eq (hchains : Nsec3Chains zone) {entry other : Nsec3Entry}
    (hentry : entry ∈ zone.nsec3s) (hother : other ∈ zone.nsec3s) (husable : entry.nsec3.isUsable)
    (h : other.rrset = entry.rrset) :
    other.nsec3 = entry.nsec3 ∧ other.nsec3.hash other.original = entry.nsec3.hash entry.original := by
  obtain ⟨hname, -, hrdata⟩ := ZoneRrset.mk.inj h
  have hnsec3 : other.nsec3 = entry.nsec3 := by
    have hparse := other.parse
    rw [List.singleton_inj.1 hrdata, entry.parse] at hparse
    exact (Except.ok.inj hparse).symm
  obtain ⟨label, hlabels, hdecode⟩ := hchains.owner entry hentry husable
  obtain ⟨label', hlabels', hdecode'⟩ := hchains.owner other hother (hnsec3 ▸ husable)
  rw [hname, hlabels] at hlabels'
  rw [← (List.cons.inj hlabels').1, hdecode] at hdecode'
  exact ⟨hnsec3, (Option.some.inj hdecode').symm⟩

section

variable {closest nextCloser wildcard : Nsec3Entry}
  (hresponse : DenialResponse zone dnskeyRrset times
    (NameErrorProof.nsec3 closest nextCloser wildcard).rrsets response)
  (hmem : ∀ entry ∈ [closest, nextCloser, wildcard], entry ∈ zone.nsec3s ∧ entry.nsec3.isUsable)

omit [DnssecCrypto] in
theorem forall_mem_rrsets {rrset : ZoneRrset} :
    (∀ other ∈ (NameErrorProof.nsec3 closest nextCloser wildcard).rrsets, other = rrset) ↔
      closest.rrset = rrset ∧ nextCloser.rrset = rrset ∧ wildcard.rrset = rrset := by
  simp [NameErrorProof.rrsets]

include hresponse

theorem nsecRrset_eq_nil : (nameErrorRecords response).nsecRrset = [] := by
  refine hresponse.recordsOfType_eq_nil (by decide) (by decide) fun rrset hrrset => ?_
  have hcode : rrset.typeCode = RecordType.nsec3.code := by
    simp only [NameErrorProof.rrsets, List.mem_cons, List.not_mem_nil, or_false] at hrrset
    rcases hrrset with rfl | rfl | rfl <;> rfl
  rw [hcode]
  decide

omit hresponse in
theorem deniesName_of_nsec3 {signerName : DnsName} {records : DenialRecords}
    {record : ResourceRecord} (hnsec : records.nsecRrset = [])
    (hnsec3 : records.nsec3Rrset = [record]) {status : DnssecStatus}
    (hstatus : validateNsec3NameError ⟨signerName, dnskeyRrset, name, candidate, [record],
      records.nsec3RrsigRrset, [record], records.nsec3RrsigRrset, [record],
      records.nsec3RrsigRrset, now⟩ = .ok status) :
    deniesName signerName dnskeyRrset records name candidate now =
      .ok (decide (status = .secure)) := by
  rw [deniesName, hnsec, hnsec3, orSecure_nil, hstatus, orSecure_of_ok (List.cons_ne_nil _ _)]
  cases status <;> rfl

include hmem

/-- NSEC3 records that are taken for a proof are one. -/
theorem accepted_of_deniesName (hchains : Nsec3Chains zone) (hkeys : zone.HonestKeys dnskeyRrset)
    (h : deniesName zone.apex dnskeyRrset (nameErrorRecords response) name candidate now =
      .ok true) : (NameErrorProof.nsec3 closest nextCloser wildcard).Accepted := by
  obtain ⟨hclosest, husable⟩ := hmem closest List.mem_cons_self
  rw [deniesName, nsecRrset_eq_nil hresponse, orSecure_nil] at h
  obtain ⟨-, hsecure⟩ | h := orSecure_eq_ok_true h
  · obtain ⟨proof, hvalid, hopt, -⟩ := exists_valid_of_secure hsecure
    have hfound := foundProof_of_valid hvalid
    have hsigned : validateRrsetSignature zone.apex dnskeyRrset
        (nameErrorRecords response).nsec3Rrset (nameErrorRecords response).nsec3RrsigRrset now =
        .ok .secure := by
      have hrrset := hfound.closestSecure
      rw [validateNsec3RrsetSignature] at hrrset
      split_ifs at hrrset
      · cases hrrset
      · exact hrrset
    -- The other records have the data and the owner of the closest encloser's one.
    have hone {entry : Nsec3Entry} (hentry : entry ∈ [closest, nextCloser, wildcard]) :
        entry.rrset = closest.rrset := by
      obtain ⟨record, hrecord, hname, hof⟩ := hresponse.exists_record List.mem_cons_self
      obtain ⟨other, hother, hname', hof'⟩ :=
        hresponse.exists_record (List.mem_map_of_mem hentry : entry.rrset ∈ _)
      have hrdata := rdata_eq_of_secure hkeys hsigned hother hrecord hof' hof (.inr rfl)
      have howner := name_eq_of_secure hchains hkeys hsigned husable hrecord hother hof
      rw [hname, hname'] at howner
      exact congrArg₂ (ZoneRrset.mk · RecordType.nsec3.code ·) howner.symm hrdata
    have hrrsets := And.intro (hone (List.mem_cons_of_mem _ List.mem_cons_self))
      (hone (List.mem_cons_of_mem _ (List.mem_cons_of_mem _ List.mem_cons_self)))
    obtain ⟨record, hrecords, hproofs, -⟩ := hresponse.exists_single_nsec3 hchains hclosest husable
      (forall_mem_rrsets.2 ⟨rfl, hrrsets⟩) List.mem_cons_self
    have hread {proofs : List Nsec3ProofRecord} {read : Nsec3ProofRecord}
        (hparse : parseNsec3Proofs (nameErrorRecords response).nsec3Rrset zone.apex = .ok proofs)
        (hread : read ∈ proofs) :
        read = ⟨closest.nsec3, closest.nsec3.hash closest.original⟩ := by
      rw [nameErrorRecords, hrecords, hproofs] at hparse
      rw [← Except.ok.inj hparse, List.mem_singleton] at hread
      exact hread
    refine ⟨hrrsets, ?_, ?_⟩
    · obtain ⟨proofs, _, hparse, -, hfind⟩ := hfound.nextCloser
      rw [hread hparse (findNsec3CoveringProof_eq_some hfind).1] at hopt
      exact hopt
    · obtain ⟨proofs, hparse, hfind⟩ := hfound.closest
      obtain ⟨hmem', hmatches⟩ := findNsec3MatchingProof_eq_some hfind
      rw [hread hparse hmem'] at hmatches
      exact ((matches_iff ⟨hclosest, husable, rfl, rfl⟩).1 hmatches).1
  · cases h

/-- One NSEC3 record is taken for a proof. -/
theorem deniesName_of_accepted (hchains : Nsec3Chains zone)
    (haccepted : (NameErrorProof.nsec3 closest nextCloser wildcard).Accepted)
    (hclosest : closest.original = encloser) {nextName wildcardName : DnsName}
    (hnext : name.isSubdomainOrEqual nextName ∧ nextName.isStrictSubdomain encloser ∧
      nextName.labels.length = encloser.labels.length + 1)
    (hname : nextCloser.Covers nextName) (hchild : wildcardName.IsWildcardOf encloser)
    (hcovers : wildcard.Covers wildcardName) (hcut : ¬zone.IsDelegation encloser)
    (hdname : ¬zone.Holds encloser dname) (hbelow : name.isStrictSubdomain encloser)
    (hnow : now ∈ times) :
    (∀ candidate, name.isStrictSubdomain candidate → ∃ isProof, deniesName zone.apex dnskeyRrset
      (nameErrorRecords response) name candidate now = .ok isProof) ∧
    deniesName zone.apex dnskeyRrset (nameErrorRecords response) name encloser now = .ok true := by
  obtain ⟨hone, hopt, hmax⟩ := haccepted
  obtain ⟨hentry, husable⟩ := hmem closest List.mem_cons_self
  obtain ⟨record, hrecords, hproofs, hsecure⟩ := hresponse.exists_single_nsec3 hchains hentry
    husable (forall_mem_rrsets.2 ⟨rfl, hone⟩) List.mem_cons_self
  have hproof : zone.ProofOf ⟨closest.nsec3, closest.nsec3.hash closest.original⟩ closest :=
    ⟨hentry, husable, rfl, rfl⟩
  refine ⟨fun candidate hcandidate => ?_, ?_⟩
  · obtain ⟨status, hstatus⟩ := exists_validateNsec3NameError_single hproof hmax
      (hsecure now hnow) hproofs hcandidate
    exact ⟨_, deniesName_of_nsec3 (nsecRrset_eq_nil hresponse) hrecords hstatus⟩
  · have hcover {entry : Nsec3Entry} (hmem' : entry ∈ [closest, nextCloser, wildcard])
        (heq : entry.rrset = closest.rrset) {n : DnsName} (hn : entry.Covers n) :
        nsec3CoversHash (closest.nsec3.hash closest.original) closest.nsec3.nextHashedOwnerName
          (closest.nsec3.hash n) := by
      obtain ⟨hnsec3, hhash⟩ := eq_of_rrset_eq hchains hentry (hmem entry hmem').1 husable heq
      rw [Nsec3Entry.Covers, hhash, hnsec3] at hn
      refine nsec3CoversHash_eq_true.2 ⟨?_, ?_, hn⟩
      · rw [Nsec3Record.length_hash, hchains.length_next closest hentry husable]
      · rw [Nsec3Record.length_hash, Nsec3Record.length_hash]
    obtain ⟨next, hnextName⟩ := exists_nextCloserName hbelow
    -- There is one name with as many labels above the query name.
    obtain rfl : next = nextName := by
      obtain ⟨hquery, -, hlen⟩ := nextCloserName_eq_ok hnextName
      rw [isSubdomainOrEqual_iff] at hquery
      have hquery' := isSubdomainOrEqual_iff.1 hnext.1
      have hsuffix := List.suffix_of_suffix_length_le hquery hquery' (hlen.trans hnext.2.2.symm).le
      exact ext (hsuffix.eq_of_length (hlen.trans hnext.2.2.symm))
    have hauth := closestNsec3IsAuthoritative_of_not hproof hchains (hclosest ▸ hcut)
      (hclosest ▸ hdname)
    have hname' := hcover (List.mem_cons_of_mem _ List.mem_cons_self) hone.1 hname
    have hcovers' := hcover (List.mem_cons_of_mem _ (List.mem_cons_of_mem _ List.mem_cons_self))
      hone.2 hcovers
    have hstatus := validateNsec3NameError_single hproof hmax (hsecure now hnow) hproofs hbelow
      hnextName hchild hauth
    rw [if_pos ⟨⟨by rw [hclosest], rfl⟩, hname'⟩, if_neg (by simp [hopt]), if_pos hcovers'] at hstatus
    exact deniesName_of_nsec3 (nsecRrset_eq_nil hresponse) hrecords hstatus

end

end SignedZone

/-! ## Resolution -/

section

variable [Sha2] [DnssecCrypto] {σ : Type} {env : Environment σ} {keys : DelegatedKeys}
  {zone : SignedZone} {response : DnsMessage} {name encloser : DnsName} {proof : NameErrorProof}

/-- A name error is denied with the keys of the zone. -/
theorem validateNameError_eq (hserves : Serves env keys zone) {now : DnssecTime}
    (hnow : env.Shows now) (candidate : DnsName) :
    SystemDnssecVerifier.validateNameError ⟨keys, nameErrorRecords response, name, candidate⟩ now =
      deniesName zone.apex keys.dnskeyRrset (nameErrorRecords response) name candidate now := by
  rw [SystemDnssecVerifier.validateNameError, ifSecure, hserves.secure now hnow, ← hserves.apex]
  rfl

/-- The closest enclosers lead to an answer to an honest name error just when one record serves for
    all parts of its proof. -/
theorem tryClosestEnclosers_iff (hserves : Serves env keys zone)
    (hnsec : zone.nsecs = [] ∨ NsecChain zone) (hnsec3 : Nsec3Chains zone)
    (hclosest : zone.ClosestEncloser name encloser) (hname : zone.NameErrorBelow name encloser)
    (hproves : proof.Proves zone name encloser)
    (hresponse : DenialResponse zone keys.dnskeyRrset {now | env.Shows now} proof.rrsets
      response)
    {check : DnsName → DnssecTime → Except ResolverError Bool}
    (hcheck : ∀ now, env.Shows now → ∀ candidate, check candidate now =
      deniesName zone.apex keys.dnskeyRrset (nameErrorRecords response) name candidate now)
    {candidates : List DnsName}
    (hcandidates : closestEncloserCandidates name zone.apex = .ok candidates)
    (prefixRecords : List ResourceRecord) (s : σ) :
    (∃ answer s', tryClosestEnclosers (fun candidate => env.atNow (check candidate)) name
      prefixRecords candidates s = .ok answer s') ↔ proof.Accepted := by
  have hchain (hcovering : ∃ entry, entry ∈ zone.nsecs) : NsecChain zone := by
    refine hnsec.resolve_left fun hnil => ?_
    obtain ⟨entry, hentry⟩ := hcovering
    rw [hnil] at hentry
    cases hentry
  constructor
  · rintro ⟨answer, s', h⟩
    obtain ⟨-, candidate, -, s₁, hvalidate⟩ := tryClosestEnclosers_eq_ok h
    obtain ⟨now, hnow, hdenied⟩ := Environment.atNow_eq_ok.1 hvalidate
    rw [hcheck now ⟨s₁, s', hnow⟩] at hdenied
    cases hproves with
    | nsec hcovering hwildcard =>
      exact SignedZone.rrset_eq_of_deniesName hresponse (hchain ⟨_, hcovering⟩) hserves.honest
        hcovering hwildcard hdenied
    | nsec3 hmem =>
      exact SignedZone.accepted_of_deniesName hresponse hmem hnsec3 hserves.honest hdenied
  · intro haccepted
    have hbelow := hclosest.2.1
    have hdenies (now : DnssecTime) (hnow : env.Shows now) :
        (∀ candidate, name.isStrictSubdomain candidate → ∃ isProof, deniesName zone.apex
          keys.dnskeyRrset (nameErrorRecords response) name candidate now = .ok isProof) ∧
        deniesName zone.apex keys.dnskeyRrset (nameErrorRecords response) name encloser now =
          .ok true := by
      cases hproves with
      | nsec hcovering hwildcard hname' hchild hcovers =>
        have howner := ((hchain ⟨_, hcovering⟩).owner _ hcovering).below
        exact SignedZone.deniesName_of_rrset_eq hresponse haccepted hname' hchild hcovers
          (le_of_isSubdomainOrEqual howner) hbelow hnow
      | nsec3 hmem hparams hencloser hnext hname' hchild hcovers =>
        exact SignedZone.deniesName_of_accepted hresponse hmem hnsec3 haccepted hencloser hnext
          hname' hchild hcovers hname.notDelegated hname.noDname hbelow hnow
    obtain ⟨candidates', hcandidates', hmem⟩ :=
      mem_closestEncloserCandidates.2 ⟨hbelow, hclosest.1.1⟩
    obtain rfl : candidates = candidates' := Except.ok.inj (hcandidates.symm.trans hcandidates')
    have htotal (candidate : DnsName) (hcandidate : candidate ∈ candidates) (s : σ) :
        ∃ isProof s', env.atNow (check candidate) s = .ok isProof s' := by
      obtain ⟨hstrict, -⟩ := mem_closestEncloserCandidates.1 ⟨candidates, hcandidates, hcandidate⟩
      obtain ⟨now, s', hnow⟩ := hserves.clock s
      obtain ⟨isProof, hdenied⟩ := (hdenies now ⟨s, s', hnow⟩).1 candidate hstrict
      refine ⟨isProof, s', Environment.atNow_eq_ok.2 ⟨now, hnow, ?_⟩⟩
      rw [hcheck now ⟨s, s', hnow⟩, hdenied]
    have htrue (s : σ) : ∃ s', env.atNow (check encloser) s = .ok true s' := by
      refine hserves.atNow (fun now hnow => ?_) s
      rw [hcheck now hnow, (hdenies now hnow).2]
    obtain ⟨s', htry⟩ := exists_tryClosestEnclosers htotal hmem htrue s
    exact ⟨_, s', htry⟩

/-- An honest name error is accepted just when one record serves for all parts of its proof. -/
theorem resolveSecureNameError_iff (hserves : Serves env keys zone)
    (hnsec : zone.nsecs = [] ∨ NsecChain zone) (hnsec3 : Nsec3Chains zone)
    (hclosest : zone.ClosestEncloser name encloser) (hname : zone.NameErrorBelow name encloser)
    (hproves : proof.Proves zone name encloser)
    (hresponse : DenialResponse zone keys.dnskeyRrset {now | env.Shows now} proof.rrsets
      response)
    (prefixRecords : List ResourceRecord) (s : σ) :
    (∃ answer s', resolveSecureNameError (systemDnssecVerifier env) keys name response prefixRecords
      s = .ok answer s' ∧ answer.secure) ↔ proof.Accepted := by
  have htry {candidates : List DnsName}
      (hcandidates : closestEncloserCandidates name keys.dnskeyOwner = .ok candidates) :=
    tryClosestEnclosers_iff hserves hnsec hnsec3 hclosest hname hproves hresponse
      (fun now hnow candidate => validateNameError_eq hserves hnow candidate)
      (hserves.apex ▸ hcandidates) prefixRecords s
  constructor
  · rintro ⟨answer, s', h, -⟩
    rw [resolveSecureNameError] at h
    obtain ⟨-, h⟩ := EStateM.throw_unless.1 h
    obtain ⟨candidates, hcandidates, h⟩ := EStateM.checked_bind_eq_ok.1 h
    exact (htry hcandidates).1 ⟨answer, s', h⟩
  · intro haccepted
    obtain ⟨candidates, hcandidates, -⟩ :=
      mem_closestEncloserCandidates.2 ⟨hclosest.2.1, hserves.apex ▸ hclosest.1.1⟩
    obtain ⟨now, s₁, hnow⟩ := hserves.clock s
    obtain ⟨answer, s', h⟩ := (htry hcandidates).2 haccepted
    refine ⟨answer, s', ?_, by rw [(tryClosestEnclosers_eq_ok h).1]; rfl⟩
    rw [resolveSecureNameError, EStateM.throw_unless]
    refine ⟨DelegatedKeys.ne_nil_of_status (hserves.secure now ⟨s, s₁, hnow⟩), ?_⟩
    exact EStateM.checked_bind_eq_ok.2 ⟨candidates, hcandidates, h⟩

end

/-! ## One record, and two -/

namespace NameErrorSample

open NsecSample (apex site soa ns dnskey low publicKey)
open WildcardSample (digest)

section

open NsecSample WildcardSample

/-- A name below the site, which does not exist. -/
def missing : DnsName := ⟨[Nsec3Sample.x, www, z], by decide⟩

/-- The asterisk below the site. -/
def starSite : DnsName := ⟨[DnsLabel.star, www, z], by decide⟩

/-- The name is missing below the site, which is before it and before the asterisk. -/
theorem denied_missing :
    NsecSample.zone.ClosestEncloser missing site ∧ NsecSample.zone.NameErrorBelow missing site ∧
      site < missing ∧ site < starSite := by
  decide

def proof : NameErrorProof := .nsec nsecSite nsecSite

theorem proves_missing : proof.Proves NsecSample.zone missing site := by
  obtain ⟨-, -, hname, hwildcard⟩ := denied_missing
  have hstar : starSite.IsWildcardOf site := rfl
  have hmem : nsecSite ∈ NsecSample.zone.nsecs := by simp [NsecSample.zone]
  exact .nsec hmem hmem ⟨hname, .inr rfl⟩ hstar ⟨hwildcard, .inr rfl⟩

def response : DnsMessage :=
  .ofSections 3 missing .a [] (NsecSample.table.signedRecords [soa, nsecSite.rrset])

def env : Environment Unit := .answering [] 1500

/-- The keys of the zone are secure, and what its denials need is published. -/
theorem published :
    (NsecSample.table.keys digest).status 1500 = .ok .secure ∧
      ∀ rrset ∈ [soa, nsecSite.rrset, nsecWildcard.rrset], rrset ∈ NsecSample.zone.published ∧
        rrset.rdatas = [rrset.record.rdata] ∧
          canonicalRdata rrset.record = .ok rrset.record.rdata ∧
            rrset.record.rdata.length ≤ 65535 := by
  decide

theorem serves : Serves env (NsecSample.table.keys digest) NsecSample.zone :=
  NsecSample.fits.serves published.1

theorem denialResponse : DenialResponse NsecSample.zone NsecSample.dnskeyRrset
    {now | env.Shows now} proof.rrsets response := by
  refine ⟨rfl, soa, rfl, rfl, ?_⟩
  have hmem : ∀ rrset ∈ [soa, nsecSite.rrset], rrset ∈ [soa, nsecSite.rrset, nsecWildcard.rrset] :=
    fun _ => List.mem_append_left [nsecWildcard.rrset]
  refine NsecSample.fits.signedSection (fun rrset h => (published.2 rrset (hmem rrset h)).1)
    (fun rrset h => (published.2 rrset (hmem rrset h)).2) ?_
  rintro now ⟨s, s', hnow⟩
  cases hnow
  decide

/-- One NSEC record covers the name and the wildcard. -/
theorem exists_secure_missing :
    (Serves env (NsecSample.table.keys digest) NsecSample.zone ∧ NsecChain NsecSample.zone ∧
      Nsec3Chains NsecSample.zone ∧ NsecSample.zone.ClosestEncloser missing site ∧
      NsecSample.zone.NameErrorBelow missing site ∧ proof.Proves NsecSample.zone missing site ∧
      DenialResponse NsecSample.zone NsecSample.dnskeyRrset {now | env.Shows now} proof.rrsets
        response) ∧
    ∃ answer s', resolveSecureNameError (systemDnssecVerifier env) (NsecSample.table.keys digest)
      missing response [] () = .ok answer s' ∧ answer.secure :=
  ⟨⟨serves, NsecSample.nsecChain, nsec3Chains, denied_missing.1, denied_missing.2.1,
    proves_missing, denialResponse⟩,
    (resolveSecureNameError_iff serves (.inr NsecSample.nsecChain) nsec3Chains
      denied_missing.1 denied_missing.2.1 proves_missing denialResponse [] ()).2 rfl⟩

end

def b : DnsLabel := ⟨[0x62], by decide, by decide, by decide, by decide⟩

def c : DnsLabel := ⟨[0x63], by decide, by decide, by decide, by decide⟩

/-- The only name of the zone below its apex, and one behind it. -/
def only : DnsName := ⟨[b, NsecSample.z], by decide⟩

def absent : DnsName := ⟨[c, NsecSample.z], by decide⟩

def onlyA : ZoneRrset := ⟨only, 1, [[192, 0, 2, 7]]⟩

def nsecApex : NsecEntry := ⟨apex, only, NsecSample.nsecApex.bitmap⟩

def nsecOnly : NsecEntry := ⟨only, apex, NsecSample.nsecWildcard.bitmap⟩

def zone : SignedZone where
  apex := apex
  rrsets := [soa, ns, dnskey, onlyA]
  below := by decide
  types := by decide
  soa := by decide
  cname := by decide
  nsecs := [nsecApex, nsecOnly]
  nsec3s := []

def table : SignatureTable where
  apex := apex
  publicKey := publicKey
  signatures := [
    (soa, Octet.toBE 32 0xa5712e37f67ddaec29363c51cf76ac7afa7d848ba175af5b4e14d6f4b69352c4 ++
      Octet.toBE 32 0x7bc030f4a1660dde28bc3b902adce99287f8034aa11c9386f96a27177bbf9508),
    (ns, Octet.toBE 32 0xc53ca1063aa7b5fc8530cac1d9d10373b75f7514766d49c28b60526cb1a10969 ++
      Octet.toBE 32 0xb54fa6c2aa1a8d0303f7ee6d684016b906e7d4b9a26abb41c536a2513106d207),
    (dnskey, Octet.toBE 32 0x9a39cd7be90c02faec39e4d65084c610aa9c5b6245d95e48460cb52b3d58bd9e ++
      Octet.toBE 32 0xadd3ce991d64904b3089b09768ae8249d0d138d2330c3e610caca9bce88bcb06),
    (onlyA, Octet.toBE 32 0xac8157855285c6723a3b10dbb170e5ddefca8b903f9652a4f4f96fdc015b438a ++
      Octet.toBE 32 0x6c2239c2304665b214f920fa5b0821351425a8e51cccc643e5f14ef9e0a5030f),
    (nsecApex.rrset,
      Octet.toBE 32 0x2f388ddb6b627682cc3a9bd51c51935b23c63d3638808831ab85d145fe7a8faa ++
      Octet.toBE 32 0x81981b8e976cfae2c2446f20db5f798268f95f3b92f883f45f5782734e321201),
    (nsecOnly.rrset,
      Octet.toBE 32 0xd756a71086ee72a26a23b0ff5d5e72042949fadba03a7fc9615bca6cbe6b970a ++
      Octet.toBE 32 0xebf2ac17a04cfd388c8324fe55345fec6be4a31eb6c5bcc7baab34c5b2b4f40b)]

scoped instance : DnssecCrypto := table.crypto fun _ => .zero

scoped instance : Sha2 := table.sha2 digest

theorem fits : table.Fits zone [table.dnskeyRecord] where
  apex := rfl
  publicKey := by decide
  dnskeys := by decide
  published := by decide
  complete := by decide
  length_le := by decide
  labels := by decide
  parse := by decide

theorem nsecChain : NsecChain zone := by
  apply NsecChain.of_forall <;> decide

/-- The asterisk below the apex. -/
def star : DnsName := NsecSample.wildcard

/-- The name is missing behind the last name, and the asterisk is before that. -/
theorem denied_absent :
    (zone.ClosestEncloser absent apex ∧ zone.NameErrorBelow absent apex) ∧
      only < absent ∧ apex < star ∧ star < only := by
  decide

/-- The record before the name, and the one before the wildcard. -/
def proof₂ : NameErrorProof := .nsec nsecOnly nsecApex

theorem proves_absent : proof₂.Proves zone absent apex := by
  obtain ⟨-, hname, hapex, honly⟩ := denied_absent
  have hstar : star.IsWildcardOf apex := rfl
  exact .nsec (by simp [zone]) (by simp [zone]) ⟨hname, .inr rfl⟩ hstar ⟨hapex, .inl honly⟩

def response₂ : DnsMessage :=
  .ofSections 3 absent .a [] (table.signedRecords [soa, nsecOnly.rrset, nsecApex.rrset])

/-- The zone is asked for its keys, and the two records are no proof. -/
theorem evaluated_absent :
    (table.keys digest).status 1500 = .ok .secure ∧
      resolveSecureNameError (systemDnssecVerifier env) (table.keys digest) absent response₂ [] () =
        .error .dnssecFailed () := by
  decide

theorem denialResponse₂ : DenialResponse zone [table.dnskeyRecord] {now | env.Shows now}
    proof₂.rrsets response₂ := by
  refine ⟨rfl, soa, rfl, rfl, ?_⟩
  have hdedup : proof₂.rrsets.dedup = [nsecOnly.rrset, nsecApex.rrset] := by decide
  rw [hdedup]
  refine fits.signedSection (by decide) (by decide) ?_
  rintro now ⟨s, s', hnow⟩
  cases hnow
  decide

/-- The proof of an honest server with two NSEC records is an error. -/
theorem exists_honest_rejected :
    Serves env (table.keys digest) zone ∧ NsecChain zone ∧ zone.ClosestEncloser absent apex ∧
      zone.NameErrorBelow absent apex ∧ proof₂.Proves zone absent apex ∧
      DenialResponse zone [table.dnskeyRecord] {now | env.Shows now} proof₂.rrsets response₂ ∧
      resolveSecureNameError (systemDnssecVerifier env) (table.keys digest) absent response₂ [] () =
        .error .dnssecFailed () :=
  ⟨fits.serves evaluated_absent.1, nsecChain, denied_absent.1.1, denied_absent.1.2,
    proves_absent, denialResponse₂, evaluated_absent.2⟩

end NameErrorSample

end Hns
