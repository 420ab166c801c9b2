import Hns.Dnssec.Nsec
import Mathlib.Data.List.ReduceOption

/-!
# NSEC3 records of a zone

An honest zone has one or more circles of NSEC3 records, in the order of the
hashes of its names (`Nsec3Chains`). A record that matches a name shows that it
exists, as long as no two of the names at hand have one hash
(`NoCollision`); a record that covers a hash, and does not opt out, shows that
no name with this hash does.

* A name error is to be trusted: the closest encloser exists and is not the
  place where another zone begins, and the next closer name, and so everything
  below it, does not exist (`validateNsec3NameError_sound`).
* An empty answer is to be trusted but for the record of a delegation, which
  shows nothing of what lies behind it (`noData_of_validateNsec3NoData_iff`).
-/

namespace Hns

open DnsName

/-- The type of DNAME records. -/
def dname : RecordType := .unknown 39

/-! ## Hashes -/

section

variable [DnssecCrypto]

/-- The hash of a name, under the parameters of a record. -/
def Nsec3Record.hash (nsec3 : Nsec3Record) (name : DnsName) : List UInt8 :=
  nsec3HashLoop nsec3.salt nsec3.iterations.toNat
    (DnssecCrypto.sha1 (wire name.labels ++ nsec3.salt)).bytes

theorem nsec3Hash_eq_ok {nsec3 : Nsec3Record} {name : DnsName} {hash : List UInt8} :
    nsec3Hash name nsec3.hashAlgorithm nsec3.iterations nsec3.salt = .ok hash ↔
      nsec3.hashAlgorithm = nsec3HashSha1 ∧ nsec3.iterations ≤ nsec3MaxIterations ∧
        hash = nsec3.hash name := by
  rw [nsec3Hash, Except.throw_unless, Except.throw_unless, not_not, encodeWire_eq_ok,
    UInt16.not_lt]
  refine and_congr_right fun _ => and_congr_right fun _ => ?_
  exact ⟨fun h => (Except.ok.inj h).symm, fun h => congrArg Except.ok h.symm⟩

theorem length_nsec3HashLoop (salt : List UInt8) (iterations : ℕ) {hash : List UInt8}
    (h : hash.length = 20) : (nsec3HashLoop salt iterations hash).length = 20 := by
  induction iterations generalizing hash with
  | zero => exact h
  | succ iterations ih => exact ih (Octets.length_bytes _)

@[simp] theorem Nsec3Record.length_hash (nsec3 : Nsec3Record) (name : DnsName) :
    (nsec3.hash name).length = 20 := length_nsec3HashLoop _ _ (Octets.length_bytes _)

end

/-- The hash lies behind `owner` and before `next`, in the circle of hashes. -/
def HashBetween (owner next hash : List UInt8) : Prop :=
  hash ≠ owner ∧ (owner < next ∧ owner < hash ∧ hash < next ∨
    ¬owner < next ∧ next < owner ∧ (owner < hash ∨ hash < next) ∨
    ¬owner < next ∧ ¬next < owner)

instance (owner next hash : List UInt8) : Decidable (HashBetween owner next hash) :=
  inferInstanceAs (Decidable (_ ∧ _))

/-- A hash is covered when it lies in between, and all of them are of one length. -/
theorem nsec3CoversHash_eq_true {owner next hash : List UInt8} :
    nsec3CoversHash owner next hash = true ↔
      owner.length = next.length ∧ owner.length = hash.length ∧ HashBetween owner next hash := by
  rw [nsec3CoversHash, HashBetween]
  by_cases hne : hash = owner ∨ owner.length ≠ next.length ∨ owner.length ≠ hash.length
  · rw [if_pos hne]
    simp only [Bool.false_eq_true, false_iff]
    tauto
  · rw [if_neg hne]
    simp only [not_or, not_not] at hne
    obtain ⟨hne, hnext, hhash⟩ := hne
    have hlen : next.length = hash.length := hnext.symm.trans hhash
    by_cases hlt : owner < next
    · simp [hlt, hne, hnext, hlen]
    · by_cases hgt : next < owner
      · simp [hlt, hgt, hne, hnext, hlen]
      · simp [hlt, hgt, hne, hnext, hlen]

/-! ## Chains -/

/-- The types an NSEC3 record shows: those of the name, and that there are signatures. -/
def Zone.ShowsHashed (zone : Zone) (name : DnsName) (code : UInt16) : Prop :=
  zone.Lists name code ∨ code = RecordType.rrsig.code ∧ ∃ rrset ∈ zone.rrsets,
    rrset.name = name ∧ (zone.IsDelegation name → rrset.typeCode = RecordType.ds.code)

instance (zone : Zone) (name : DnsName) (code : UInt16) : Decidable (zone.ShowsHashed name code) :=
  inferInstanceAs (Decidable (_ ∨ _))

theorem Zone.ShowsHashed.lt {zone : Zone} {name : DnsName} {code : UInt16}
    (h : zone.ShowsHashed name code)
    (hcodes : ∀ rrset ∈ zone.rrsets, rrset.typeCode.toNat < 8 * 8) : code.toNat < 8 * 8 := by
  rcases h with ⟨rrset, hrrset, -, rfl, -⟩ | ⟨rfl, -⟩
  · exact hcodes rrset hrrset
  · decide

/-- What an empty answer of NSEC3 records says. -/
structure Zone.NoDataAt (zone : Zone) (name : DnsName) (recordType : RecordType) : Prop where
  exists_ : zone.Exists name
  notDelegated : zone.IsDelegation name → recordType = .ds
  noData : ¬zone.Holds name recordType
  noCname : ¬zone.Holds name .cname

/-- What a name error of NSEC3 records says. -/
structure Zone.NameErrorBelow (zone : Zone) (name closestEncloser : DnsName) : Prop where
  exists_ : zone.Exists closestEncloser
  notDelegated : ¬zone.IsDelegation closestEncloser
  noDname : ¬zone.Holds closestEncloser dname
  notExists : ¬zone.Exists name
  notOccluded : ¬zone.Occluded name
  noWildcard : ∀ wildcard, wildcard.IsWildcardOf closestEncloser → ¬zone.Exists wildcard

theorem Zone.nameErrorBelow_iff {zone : Zone} {name closestEncloser : DnsName} :
    zone.NameErrorBelow name closestEncloser ↔
      zone.Exists closestEncloser ∧ ¬zone.IsDelegation closestEncloser ∧
        ¬zone.Holds closestEncloser dname ∧ ¬zone.Exists name ∧ ¬zone.Occluded name ∧
        ∀ wildcard, zone.Exists wildcard → ¬wildcard.IsWildcardOf closestEncloser := by
  constructor
  · rintro ⟨hexists, hcut, hdname, hname, hoccluded, hwildcard⟩
    exact ⟨hexists, hcut, hdname, hname, hoccluded, fun w hw hof => hwildcard w hof hw⟩
  · rintro ⟨hexists, hcut, hdname, hname, hoccluded, hwildcard⟩
    exact ⟨hexists, hcut, hdname, hname, hoccluded, fun w hof hw => hwildcard w hw hof⟩

instance (zone : Zone) (name closestEncloser : DnsName) :
    Decidable (zone.NameErrorBelow name closestEncloser) :=
  decidable_of_iff _ Zone.nameErrorBelow_iff.symm

section

variable [DnssecCrypto]

/-- The NSEC3 records of a zone, of those that can be used: each stands for a name that exists,
    with its hash and the one behind it. Unless it opts out, no name that exists has its hash in
    between. -/
structure Nsec3Chains (zone : SignedZone) : Prop where
  owner : ∀ entry ∈ zone.nsec3s, entry.nsec3.isUsable →
    ∃ label, entry.owner.labels = label :: zone.apex.labels ∧
      decodeBase32hexNopad label.bytes = some (entry.nsec3.hash entry.original)
  length_next : ∀ entry ∈ zone.nsec3s, entry.nsec3.isUsable →
    entry.nsec3.nextHashedOwnerName.length = 20
  length_rdata : ∀ entry ∈ zone.nsec3s, entry.rdata.length ≤ 65535
  original : ∀ entry ∈ zone.nsec3s, entry.nsec3.isUsable → zone.Exists entry.original
  gap : ∀ entry ∈ zone.nsec3s, entry.nsec3.isUsable → entry.nsec3.isOptOut = false →
    ∀ name, zone.Exists name → ¬HashBetween (entry.nsec3.hash entry.original)
      entry.nsec3.nextHashedOwnerName (entry.nsec3.hash name)
  bitmap : ∀ entry ∈ zone.nsec3s, entry.nsec3.isUsable →
    ∀ code, entry.bitmap.Has code ↔ zone.ShowsHashed entry.original code

/-- No name of a record has the hash of the name. -/
def SignedZone.NoCollision (zone : SignedZone) (name : DnsName) : Prop :=
  ∀ entry ∈ zone.nsec3s, entry.nsec3.hash name = entry.nsec3.hash entry.original →
    name = entry.original

instance (zone : SignedZone) (name : DnsName) : Decidable (zone.NoCollision name) :=
  inferInstanceAs (Decidable (∀ entry ∈ zone.nsec3s, _))

end

namespace SignedZone

variable {zone : SignedZone}

/-- The RRsets of NSEC3 records that a zone has signed. -/
theorem exists_nsec3_of_publishes {published : ZoneRrset} (h : zone.Publishes published)
    (hcode : RecordType.fromCode published.typeCode = .nsec3) :
    ∃ entry ∈ zone.nsec3s, published = entry.rrset := by
  cases h with
  | content h =>
    refine absurd ?_ (zone.types published h.1)
    rw [← RecordType.code_fromCode published.typeCode, hcode]
    decide
  | nsec h =>
    have hne : RecordType.fromCode RecordType.nsec.code ≠ .nsec3 := by decide
    exact absurd hcode hne
  | nsec3 h => exact ⟨_, h, rfl⟩

section

variable [DnssecCrypto] {dnskeyRrset rrset rrsigRrset : List ResourceRecord}
  {signerName : DnsName} {now : DnssecTime}

omit [DnssecCrypto] in
/-- Data of an NSEC3 record that can be read are in canonical form. -/
theorem canonicalRdata_nsec3 {record : ResourceRecord} (htype : record.recordType = .nsec3)
    {rdata : List UInt8} : canonicalRdata record = .ok rdata ↔
      rdata = record.rdata ∧ ∃ nsec3, Nsec3Record.fromRecord record = .ok nsec3 := by
  rw [canonicalRdata, htype]
  simp only [canonicalNsec3Rdata]
  rw [Except.bind_eq_ok]
  constructor
  · rintro ⟨nsec3, hread, h⟩
    exact ⟨(Except.ok.inj h).symm, nsec3, hread⟩
  · rintro ⟨rfl, nsec3, hread⟩
    exact ⟨nsec3, hread, rfl⟩

omit [DnssecCrypto] in
theorem fromRecord_nsec3 {record : ResourceRecord} {entry : Nsec3Entry}
    (htype : record.recordType = .nsec3) (hrdata : record.rdata = entry.rdata) :
    Nsec3Record.fromRecord record = .ok entry.nsec3 := by
  rw [Nsec3Record.fromRecord, if_neg (not_not.2 htype), hrdata, entry.parse]

omit [DnssecCrypto] in
/-- The asterisk is no hash. -/
theorem decodeBase32hexNopad_star : decodeBase32hexNopad DnsLabel.star.bytes = none := by decide

/-- The owner of an NSEC3 record that can be used is written like no other name. -/
theorem eq_owner_of_expands (hchains : Nsec3Chains zone) {entry : Nsec3Entry}
    (hentry : entry ∈ zone.nsec3s) (husable : entry.nsec3.isUsable) {name : DnsName}
    (h : Expands name entry.owner) : name = entry.owner := by
  rcases h with rfl | ⟨parent, hwild, -⟩
  · rfl
  · obtain ⟨label, hlabels, hdecode⟩ := hchains.owner entry hentry husable
    have hstar : label = DnsLabel.star := (List.cons.inj (hlabels.symm.trans hwild)).1
    rw [hstar, decodeBase32hexNopad_star] at hdecode
    cases hdecode

theorem nsec3OwnerHash_owner (hchains : Nsec3Chains zone) {entry : Nsec3Entry}
    (hentry : entry ∈ zone.nsec3s) (husable : entry.nsec3.isUsable) :
    nsec3OwnerHash entry.owner zone.apex = .ok (entry.nsec3.hash entry.original) := by
  obtain ⟨label, hlabels, hdecode⟩ := hchains.owner entry hentry husable
  simp only [nsec3OwnerHash, hlabels]
  simp [hdecode]

/-- The record of an entry that can be used is read as its proof. -/
theorem parseNsec3Proof_eq (hchains : Nsec3Chains zone) {entry : Nsec3Entry}
    (hentry : entry ∈ zone.nsec3s) (husable : entry.nsec3.isUsable) {record : ResourceRecord}
    (hname : record.name = entry.owner) (htype : record.recordType = .nsec3)
    (hrdata : record.rdata = entry.rdata) :
    parseNsec3Proof zone.apex record =
      .ok (some ⟨entry.nsec3, entry.nsec3.hash entry.original⟩) := by
  rw [parseNsec3Proof, fromRecord_nsec3 htype hrdata, Except.ok_bind, if_neg (by simp [husable]),
    hname, nsec3OwnerHash_owner hchains hentry husable, Except.ok_bind, if_neg]
  · rfl
  · rw [hchains.length_next entry hentry husable, Nsec3Record.length_hash]
    simp

/-- What a proof is read from: a record of the zone that can be used. -/
structure ProofOf (zone : SignedZone) (proof : Nsec3ProofRecord) (entry : Nsec3Entry) : Prop where
  mem : entry ∈ zone.nsec3s
  usable : entry.nsec3.isUsable
  nsec3 : proof.nsec3 = entry.nsec3
  ownerHash : proof.ownerHash = entry.nsec3.hash entry.original

/-- Every proof of a secure RRset is one of the zone. -/
theorem exists_proofOf (hchains : Nsec3Chains zone) (hkeys : zone.HonestKeys dnskeyRrset)
    (h : validateNsec3RrsetSignature signerName dnskeyRrset rrset rrsigRrset now = .ok .secure)
    {proofs : List Nsec3ProofRecord} (hproofs : parseNsec3Proofs rrset signerName = .ok proofs)
    {proof : Nsec3ProofRecord} (hmem : proof ∈ proofs) : ∃ entry, zone.ProofOf proof entry := by
  rw [validateNsec3RrsetSignature] at h
  split_ifs at h with hempty
  · cases h
  obtain ⟨-, rfl, published, hpub, hreplays⟩ := exists_published hkeys h
  obtain ⟨read, hread, h⟩ := Except.bind_eq_ok.1 hproofs
  cases h
  have hmem : some proof ∈ read := List.reduceOption_mem_iff.1 hmem
  obtain ⟨record, hrecord, hparse⟩ := (Except.mapM_eq_ok.1 hread).exists_left _ hmem
  obtain ⟨hrecord, htype⟩ := List.mem_filter.1 hrecord
  have htype : record.recordType = .nsec3 := of_decide_eq_true htype
  obtain ⟨entry, hentry, rfl⟩ := exists_nsec3_of_publishes hpub
    ((hreplays.recordType record hrecord).symm.trans htype)
  obtain ⟨rdata, hrdata, hcanonical⟩ := hreplays.data record hrecord
  obtain rfl : rdata = entry.rdata := List.mem_singleton.1 hrdata
  have hfrom := fromRecord_nsec3 htype ((canonicalRdata_nsec3 htype).1 hcanonical).1.symm
  rw [parseNsec3Proof, hfrom, Except.ok_bind] at hparse
  by_cases husable : entry.nsec3.isUsable
  · have howner := eq_owner_of_expands hchains hentry husable (hreplays.owner record hrecord)
    rw [if_neg (by simp [husable]), howner, nsec3OwnerHash_owner hchains hentry husable,
      Except.ok_bind] at hparse
    split_ifs at hparse
    · cases hparse
    · cases hparse
      exact ⟨entry, hentry, husable, rfl, rfl⟩
  · rw [if_pos (by simp [husable])] at hparse
    cases hparse

/-- A proof that matches a name. -/
theorem matches_iff {proof : Nsec3ProofRecord} {entry : Nsec3Entry} (h : zone.ProofOf proof entry)
    {name : DnsName} : nsec3MatchesName proof.nsec3 proof.ownerHash name = .ok true ↔
      entry.nsec3.iterations ≤ nsec3MaxIterations ∧
        entry.nsec3.hash name = entry.nsec3.hash entry.original := by
  have halg : entry.nsec3.hashAlgorithm = nsec3HashSha1 := (of_decide_eq_true h.usable).1
  rw [nsec3MatchesName, h.nsec3, h.ownerHash, if_neg (by simp [h.usable]), Except.bind_eq_ok]
  constructor
  · rintro ⟨hash, hhash, heq⟩
    obtain ⟨-, hmax, rfl⟩ := nsec3Hash_eq_ok.1 hhash
    exact ⟨hmax, (of_decide_eq_true (Except.ok.inj heq)).symm⟩
  · rintro ⟨hmax, heq⟩
    exact ⟨_, nsec3Hash_eq_ok.2 ⟨halg, hmax, rfl⟩, congrArg Except.ok (decide_eq_true heq.symm)⟩

/-- A proof that covers a name. -/
theorem hashBetween_of_covers {proof : Nsec3ProofRecord} {entry : Nsec3Entry}
    (h : zone.ProofOf proof entry) {name : DnsName}
    (hcovers : nsec3CoversName proof.nsec3 proof.ownerHash name = .ok true) :
    HashBetween (entry.nsec3.hash entry.original) entry.nsec3.nextHashedOwnerName
      (entry.nsec3.hash name) := by
  rw [nsec3CoversName, h.nsec3, h.ownerHash, if_neg (by simp [h.usable]),
    Except.bind_eq_ok] at hcovers
  obtain ⟨hash, hhash, heq⟩ := hcovers
  obtain ⟨-, -, rfl⟩ := nsec3Hash_eq_ok.1 hhash
  exact (nsec3CoversHash_eq_true.1 (Except.ok.inj heq)).2.2

/-- Where a proof covers a name and does not opt out, the name does not exist. -/
theorem not_exists_of_covers (hchains : Nsec3Chains zone) {proof : Nsec3ProofRecord}
    {entry : Nsec3Entry} (h : zone.ProofOf proof entry) (hopt : proof.nsec3.isOptOut = false)
    {name : DnsName} (hcovers : nsec3CoversName proof.nsec3 proof.ownerHash name = .ok true) :
    ¬zone.Exists name := fun hexists =>
  hchains.gap entry h.mem h.usable (h.nsec3 ▸ hopt) name hexists (hashBetween_of_covers h hcovers)

theorem hasType_nsec3 {proof : Nsec3ProofRecord} {entry : Nsec3Entry}
    (h : zone.ProofOf proof entry) (recordType : RecordType) :
    proof.nsec3.hasType recordType = .ok (decide (entry.bitmap.Has recordType.code)) := by
  rw [Nsec3Record.hasType, h.nsec3, entry.typeBitMaps, entry.bitmap.nsecTypeBitMapsContain_octets]
  rfl

/-! ## Name errors -/

omit [DnssecCrypto] in
/-- The item that is found passes the test. -/
theorem firstMatch_eq_some {α : Type} {test : α → Except DnssecError Bool} {l : List α} {a : α}
    (h : firstMatch test l = .ok (some a)) : a ∈ l ∧ test a = .ok true := by
  induction l with
  | nil => cases h
  | cons b l ih =>
    obtain ⟨isMatch, htest, h⟩ := Except.bind_eq_ok.1 h
    cases isMatch with
    | true =>
      obtain rfl : b = a := by simpa [pure, Except.pure] using h
      exact ⟨List.mem_cons_self, htest⟩
    | false =>
      obtain ⟨hmem, htest⟩ := ih h
      exact ⟨List.mem_cons_of_mem _ hmem, htest⟩

theorem findNsec3MatchingProof_eq_some {proofs : List Nsec3ProofRecord} {name : DnsName}
    {expected : Option Nsec3Record} {proof : Nsec3ProofRecord}
    (h : findNsec3MatchingProof proofs name expected = .ok (some proof)) :
    proof ∈ proofs ∧ nsec3MatchesName proof.nsec3 proof.ownerHash name = .ok true := by
  obtain ⟨hmem, htest⟩ := firstMatch_eq_some h
  split_ifs at htest
  · cases htest
  · exact ⟨hmem, htest⟩

theorem findNsec3CoveringProof_eq_some {proofs : List Nsec3ProofRecord} {name : DnsName}
    {expected : Option Nsec3Record} {proof : Nsec3ProofRecord}
    (h : findNsec3CoveringProof proofs name expected = .ok (some proof)) :
    proof ∈ proofs ∧ nsec3CoversName proof.nsec3 proof.ownerHash name = .ok true := by
  obtain ⟨hmem, htest⟩ := firstMatch_eq_some h
  split_ifs at htest
  · cases htest
  · exact ⟨hmem, htest⟩

omit [DnssecCrypto] in
/-- The next closer name lies one label below the closest encloser. -/
theorem nextCloserName_eq_ok {queryName closestEncloser nextCloser : DnsName}
    (h : nextCloserName queryName closestEncloser = .ok nextCloser) :
    queryName.isSubdomainOrEqual nextCloser ∧ nextCloser.isStrictSubdomain closestEncloser ∧
      nextCloser.labels.length = closestEncloser.labels.length + 1 := by
  rw [nextCloserName] at h
  split_ifs at h with hbelow
  dsimp only at h
  split_ifs at h with hlt
  rw [Bool.not_eq_true', Bool.not_eq_false] at hbelow
  rw [not_lt] at hlt
  rw [Except.mapError_eq_ok] at h
  obtain rfl : _ = nextCloser := Except.ok.inj ((fromAscii_join (queryName.dropLabels
    (queryName.labels.length - (closestEncloser.labels.length + 1)))).symm.trans h)
  generalize hnext : queryName.dropLabels
    (queryName.labels.length - (closestEncloser.labels.length + 1)) = nextCloser
  have hbelow' : nextCloser.labels <:+ queryName.labels := hnext ▸ List.drop_suffix _ _
  have hlen : nextCloser.labels.length = closestEncloser.labels.length + 1 := by
    rw [← hnext, dropLabels, List.length_drop]
    omega
  have hsuffix := (isStrictSubdomain_iff.1 hbelow).1
  refine ⟨isSubdomainOrEqual_iff.2 hbelow', isStrictSubdomain_iff.2 ⟨?_, by omega⟩, hlen⟩
  exact List.suffix_of_suffix_length_le hsuffix hbelow' (by omega)

/-- What a proof of the closest encloser shows. -/
structure EncloserProof (zone : SignedZone) (queryName closestEncloser : DnsName)
    (proof : Nsec3ClosestEncloserProof) : Prop where
  below : queryName.isStrictSubdomain closestEncloser
  closest : ∃ entry, zone.ProofOf proof.closest entry ∧
    nsec3MatchesName proof.closest.nsec3 proof.closest.ownerHash closestEncloser = .ok true
  authoritative : closestNsec3IsAuthoritative proof.closest.nsec3 = .ok true
  nextCloser : ∃ entry nextCloser, zone.ProofOf proof.nextCloser entry ∧
    nextCloserName queryName closestEncloser = .ok nextCloser ∧
    nsec3CoversName proof.nextCloser.nsec3 proof.nextCloser.ownerHash nextCloser = .ok true

/-- What has been checked of a proof of the closest encloser. -/
structure FoundProof (input : Nsec3ClosestEncloserProofInput) (proof : Nsec3ClosestEncloserProof) :
    Prop where
  below : input.queryName.isStrictSubdomain input.closestEncloser
  closestSecure : validateNsec3RrsetSignature input.signerName input.dnskeyRrset
    input.closestEncloserNsec3Rrset input.closestEncloserNsec3RrsigRrset input.now = .ok .secure
  closest : ∃ proofs, parseNsec3Proofs input.closestEncloserNsec3Rrset input.signerName =
    .ok proofs ∧ findNsec3MatchingProof proofs input.closestEncloser none =
      .ok (some proof.closest)
  authoritative : closestNsec3IsAuthoritative proof.closest.nsec3 = .ok true
  nextSecure : validateNsec3RrsetSignature input.signerName input.dnskeyRrset
    input.nextCloserNsec3Rrset input.nextCloserNsec3RrsigRrset input.now = .ok .secure
  nextCloser : ∃ proofs nextCloser, parseNsec3Proofs input.nextCloserNsec3Rrset input.signerName =
    .ok proofs ∧ nextCloserName input.queryName input.closestEncloser = .ok nextCloser ∧
      findNsec3CoveringProof proofs nextCloser (some proof.closest.nsec3) =
        .ok (some proof.nextCloser)

theorem foundProof_of_valid {input : Nsec3ClosestEncloserProofInput}
    {proof : Nsec3ClosestEncloserProof}
    (h : validateNsec3ClosestEncloserProof input = .ok (.valid proof)) :
    FoundProof input proof := by
  rw [validateNsec3ClosestEncloserProof] at h
  split_ifs at h with hbelow
  · cases h
  obtain ⟨status, hstatus, h⟩ := Except.bind_eq_ok.1 h
  split_ifs at h with hsecure
  · cases h
  obtain rfl : status = .secure := not_not.1 hsecure
  obtain ⟨closestProofs, hclosestProofs, h⟩ := Except.bind_eq_ok.1 h
  obtain ⟨found, hclosest, h⟩ := Except.bind_eq_ok.1 h
  cases found with
  | none => cases h
  | some closest =>
    obtain ⟨isAuthoritative, hauthoritative, h⟩ := Except.bind_eq_ok.1 h
    split_ifs at h with hauth
    · cases h
    obtain ⟨nextCloser, hnextCloser, h⟩ := Except.bind_eq_ok.1 h
    obtain ⟨nextStatus, hnextStatus, h⟩ := Except.bind_eq_ok.1 h
    split_ifs at h with hnextSecure
    · cases h
    obtain rfl : nextStatus = .secure := not_not.1 hnextSecure
    obtain ⟨nextProofs, hnextProofs, h⟩ := Except.bind_eq_ok.1 h
    obtain ⟨found, hnext, h⟩ := Except.bind_eq_ok.1 h
    cases found with
    | none => cases h
    | some next =>
      cases h
      refine ⟨by simpa using hbelow, hstatus, ⟨closestProofs, hclosestProofs, hclosest⟩, ?_,
        hnextStatus, ⟨nextProofs, nextCloser, hnextProofs, hnextCloser, hnext⟩⟩
      rw [hauthoritative]
      simpa using hauth

theorem encloserProof_of_valid (hchains : Nsec3Chains zone)
    {input : Nsec3ClosestEncloserProofInput} (hkeys : zone.HonestKeys input.dnskeyRrset)
    {proof : Nsec3ClosestEncloserProof}
    (h : validateNsec3ClosestEncloserProof input = .ok (.valid proof)) :
    zone.EncloserProof input.queryName input.closestEncloser proof := by
  have hfound := foundProof_of_valid h
  obtain ⟨closestProofs, hclosestProofs, hclosest⟩ := hfound.closest
  obtain ⟨nextProofs, nextCloser, hnextProofs, hnextCloser, hnext⟩ := hfound.nextCloser
  obtain ⟨hmem, hmatches⟩ := findNsec3MatchingProof_eq_some hclosest
  obtain ⟨hmem', hcovers⟩ := findNsec3CoveringProof_eq_some hnext
  obtain ⟨entry, hentry⟩ :=
    exists_proofOf hchains hkeys hfound.closestSecure hclosestProofs hmem
  obtain ⟨entry', hentry'⟩ := exists_proofOf hchains hkeys hfound.nextSecure hnextProofs hmem'
  exact ⟨hfound.below, ⟨entry, hentry, hmatches⟩, hfound.authoritative,
    ⟨entry', nextCloser, hentry', hnextCloser, hcovers⟩⟩

/-- Where there is no such proof, the status is not that of a secure answer. -/
theorem status_ne_secure {input : Nsec3ClosestEncloserProofInput} {status : DnssecStatus}
    (h : validateNsec3ClosestEncloserProof input = .ok (.status status)) : status ≠ .secure := by
  rw [validateNsec3ClosestEncloserProof] at h
  split_ifs at h with hbelow
  · cases h
    simp
  obtain ⟨closestStatus, -, h⟩ := Except.bind_eq_ok.1 h
  split_ifs at h with hsecure
  · cases h
    exact hsecure
  obtain ⟨closestProofs, -, h⟩ := Except.bind_eq_ok.1 h
  obtain ⟨found, -, h⟩ := Except.bind_eq_ok.1 h
  cases found with
  | none =>
    cases h
    simp
  | some closest =>
    obtain ⟨isAuthoritative, -, h⟩ := Except.bind_eq_ok.1 h
    split_ifs at h
    · cases h
      simp
    obtain ⟨nextCloser, -, h⟩ := Except.bind_eq_ok.1 h
    obtain ⟨nextStatus, -, h⟩ := Except.bind_eq_ok.1 h
    split_ifs at h with hnextSecure
    · cases h
      exact hnextSecure
    obtain ⟨nextProofs, -, h⟩ := Except.bind_eq_ok.1 h
    obtain ⟨found, -, h⟩ := Except.bind_eq_ok.1 h
    cases found with
    | none =>
      cases h
      simp
    | some next => cases h

/-- Where a name has no delegation or DNAME, its record says so. -/
theorem authoritative_of_closest {proof : Nsec3ProofRecord} {entry : Nsec3Entry}
    (hchains : Nsec3Chains zone) (h : zone.ProofOf proof entry)
    (hauth : closestNsec3IsAuthoritative proof.nsec3 = .ok true) :
    ¬zone.IsDelegation entry.original ∧ ¬zone.Holds entry.original dname := by
  have hns : RecordType.ns.code ≠ RecordType.rrsig.code := by decide
  have hdname : (RecordType.unknown 39).code ≠ RecordType.rrsig.code := by decide
  rw [closestNsec3IsAuthoritative, hasType_nsec3 h, hasType_nsec3 h, hasType_nsec3 h] at hauth
  simp only [Except.ok_bind, decide_eq_true_eq, hchains.bitmap entry h.mem h.usable,
    Zone.ShowsHashed, hns, hdname, false_and, or_false] at hauth
  have hcut : ¬zone.IsDelegation entry.original := by
    intro hcut
    have hlists : zone.Lists entry.original RecordType.ns.code := by
      obtain ⟨-, rrset, hrrset, hname, hcode⟩ := id hcut
      exact ⟨rrset, hrrset, hname, hcode, fun _ => .inl rfl⟩
    have hnosoa : ¬zone.Lists entry.original RecordType.soa.code := by
      rintro ⟨_, -, -, -, hcode⟩
      exact absurd (hcode hcut) (by decide)
    have hsoa : RecordType.soa.code ≠ RecordType.rrsig.code := by decide
    split_ifs at hauth
    · cases hauth
    · simp [hnosoa, hsoa] at hauth
  refine ⟨hcut, fun hholds => ?_⟩
  rw [dname, ← Zone.lists_iff_of_not_isDelegation hcut] at hholds
  rw [if_pos hholds] at hauth
  cases hauth

omit [DnssecCrypto] in
/-- Below a name that exists and is no delegation, nothing is occluded whose next closer name does
    not exist. -/
theorem not_occluded_of_nextCloser {queryName closestEncloser nextCloser : DnsName}
    (hexists : zone.Exists closestEncloser) (hcut : ¬zone.IsDelegation closestEncloser)
    (hquery : queryName.isSubdomainOrEqual nextCloser)
    (hnext : nextCloser.isStrictSubdomain closestEncloser)
    (hlen : nextCloser.labels.length = closestEncloser.labels.length + 1)
    (hnot : ¬zone.Exists nextCloser) : ¬zone.Occluded queryName := by
  intro hoccluded
  have hzone := isSubdomainOrEqual_trans (isStrictSubdomain_iff_ne.1 hnext).1 hexists.1
  obtain ⟨cut, hdelegation, howner, hbelow⟩ := hoccluded.exists_owner
  have hbelow' := (isStrictSubdomain_iff_ne.1 hbelow).1
  rcases isSubdomainOrEqual_or_isStrictSubdomain hbelow' hquery with h | h
  · -- The delegation lies at the next closer name or below it.
    exact hnot (howner.exists.of_isSubdomainOrEqual h hzone)
  · -- It lies above, and so at the closest encloser or above it.
    have habove := (isSubdomainOrEqual_or_isStrictSubdomain (isStrictSubdomain_iff_ne.1 hnext).1
      (isStrictSubdomain_iff_ne.1 h).1).resolve_right fun hstrict => by
        have := (isStrictSubdomain_iff.1 hstrict).2
        have := (isStrictSubdomain_iff.1 h).2
        omega
    by_cases heq : closestEncloser = cut
    · exact hcut (heq ▸ hdelegation)
    · exact hexists.not_occluded ⟨cut, hdelegation, isStrictSubdomain_iff_ne.2 ⟨habove, heq⟩⟩

/-- What has been checked of a secure name error. -/
theorem exists_valid_of_secure {input : Nsec3NameErrorValidationInput}
    (h : validateNsec3NameError input = .ok .secure) :
    ∃ proof, validateNsec3ClosestEncloserProof ⟨input.signerName, input.dnskeyRrset,
        input.queryName, input.closestEncloser, input.closestEncloserNsec3Rrset,
        input.closestEncloserNsec3RrsigRrset, input.nextCloserNsec3Rrset,
        input.nextCloserNsec3RrsigRrset, input.now⟩ = .ok (.valid proof) ∧
      proof.nextCloser.nsec3.isOptOut = false ∧
      ∃ wildcard wildcardProofs wildcardProof, wildcard.IsWildcardOf input.closestEncloser ∧
        validateNsec3RrsetSignature input.signerName input.dnskeyRrset input.wildcardNsec3Rrset
          input.wildcardNsec3RrsigRrset input.now = .ok .secure ∧
        parseNsec3Proofs input.wildcardNsec3Rrset input.signerName = .ok wildcardProofs ∧
        findNsec3CoveringProof wildcardProofs wildcard (some proof.closest.nsec3) =
          .ok (some wildcardProof) ∧ wildcardProof.nsec3.isOptOut = false := by
  rw [validateNsec3NameError] at h
  obtain ⟨validation, hvalidation, h⟩ := Except.bind_eq_ok.1 h
  cases validation with
  | status status => exact absurd (Except.ok.inj h) (status_ne_secure hvalidation)
  | valid proof =>
    dsimp only at h
    split_ifs at h with hopt
    · cases h
    obtain ⟨wildcard, hwildcard, h⟩ := Except.bind_eq_ok.1 h
    obtain ⟨hsecure, h⟩ := thenIfSecure_eq_secure.1 h
    obtain ⟨wildcardProofs, hwildcardProofs, h⟩ := Except.bind_eq_ok.1 h
    obtain ⟨found, hfound, h⟩ := Except.bind_eq_ok.1 h
    cases found with
    | none => cases h
    | some wildcardProof =>
      dsimp only at h
      split_ifs at h with hopt'
      · cases h
      exact ⟨proof, hvalidation, by simpa using hopt, wildcard, wildcardProofs, wildcardProof,
        wildcardChild_eq_ok.1 hwildcard, hsecure, hwildcardProofs, hfound, by simpa using hopt'⟩

/-- A name error is to be trusted: the encloser exists, and no other zone begins there; the name
    does not exist, and neither does a wildcard that stands for it. -/
theorem validateNsec3NameError_sound (hchains : Nsec3Chains zone)
    {input : Nsec3NameErrorValidationInput} (hkeys : zone.HonestKeys input.dnskeyRrset)
    (hfree : zone.NoCollision input.closestEncloser)
    (h : validateNsec3NameError input = .ok .secure) :
    zone.NameErrorBelow input.queryName input.closestEncloser := by
  obtain ⟨proof, hvalidation, hopt, wildcard, wildcardProofs, wildcardProof, hwildcard, hsecure,
    hwildcardProofs, hfound, hopt'⟩ := exists_valid_of_secure h
  obtain ⟨hbelow, ⟨entry, hentry, hmatches⟩, hauth, entry', nextCloser, hentry', hnextCloser,
    hcovers⟩ := encloserProof_of_valid hchains hkeys hvalidation
  have hclosest := hfree entry hentry.mem ((matches_iff hentry).1 hmatches).2
  obtain ⟨hcut, hdname⟩ := authoritative_of_closest hchains hentry hauth
  have hexists := hchains.original entry hentry.mem hentry.usable
  rw [← hclosest] at hcut hdname hexists
  obtain ⟨hmem, hwcovers⟩ := findNsec3CoveringProof_eq_some hfound
  obtain ⟨entry'', hentry''⟩ := exists_proofOf hchains hkeys hsecure hwildcardProofs hmem
  obtain ⟨hquery, hnext, hlen⟩ := nextCloserName_eq_ok hnextCloser
  have hnot := not_exists_of_covers hchains hentry' hopt hcovers
  have hzone := isSubdomainOrEqual_trans (isStrictSubdomain_iff_ne.1 hnext).1 hexists.1
  refine ⟨hexists, hcut, hdname, fun hname => hnot (hname.of_isSubdomainOrEqual hquery hzone),
    not_occluded_of_nextCloser hexists hcut hquery hnext hlen hnot, fun wildcard' hwild => ?_⟩
  obtain rfl : wildcard' = wildcard := ext (hwild.trans hwildcard.symm)
  exact not_exists_of_covers hchains hentry'' hopt' hwcovers

/-! ## Empty answers -/

/-- The zone has an NSEC3 record for the name that the validation can use. -/
def HasNsec3 (zone : SignedZone) (name : DnsName) : Prop :=
  ∃ entry ∈ zone.nsec3s, entry.nsec3.isUsable ∧ entry.nsec3.iterations ≤ nsec3MaxIterations ∧
    entry.original = name

theorem nsec3Lacks_eq_ok_true (hchains : Nsec3Chains zone) {proof : Nsec3ProofRecord}
    {entry : Nsec3Entry} (h : zone.ProofOf proof entry) {name : DnsName} {recordType : RecordType} :
    nsec3Lacks name recordType proof = .ok true ↔
      (entry.nsec3.iterations ≤ nsec3MaxIterations ∧
        entry.nsec3.hash name = entry.nsec3.hash entry.original) ∧
      ¬zone.ShowsHashed entry.original recordType.code ∧
      ¬zone.ShowsHashed entry.original RecordType.cname.code := by
  rw [nsec3Lacks, ← matches_iff h, hasType_nsec3 h, hasType_nsec3 h,
    ← hchains.bitmap entry h.mem h.usable, ← hchains.bitmap entry h.mem h.usable]
  rcases nsec3MatchesName proof.nsec3 proof.ownerHash name with e | (_ | _)
  · simp
  · simp [pure, Except.pure]
  · by_cases htype : entry.bitmap.Has recordType.code <;> simp [htype, pure, Except.pure]

/-- What an accepted empty answer shows. -/
theorem hasNsec3_of_secure (hchains : Nsec3Chains zone) {input : Nsec3NoDataValidationInput}
    (hkeys : zone.HonestKeys input.dnskeyRrset) (hfree : zone.NoCollision input.queryName)
    (h : validateNsec3NoData input = .ok .secure) :
    zone.HasNsec3 input.queryName ∧ ¬zone.ShowsHashed input.queryName input.queryType.code ∧
      ¬zone.ShowsHashed input.queryName RecordType.cname.code := by
  obtain ⟨hsecure, h⟩ := thenIfSecure_eq_secure.1 h
  obtain ⟨proofs, hproofs, hany⟩ := Except.bind_eq_ok.1 h
  obtain ⟨k, proof, hk, htest, -⟩ := Except.anyM_eq_ok_true.1 (secureIfAny_eq_secure.1 hany)
  obtain ⟨entry, hentry⟩ := exists_proofOf hchains hkeys hsecure hproofs (List.mem_of_getElem? hk)
  obtain ⟨⟨hmax, hhash⟩, hlacks⟩ := (nsec3Lacks_eq_ok_true hchains hentry).1 htest
  have hname := hfree entry hentry.mem hhash
  rw [← hname] at hlacks
  exact ⟨⟨entry, hentry.mem, hentry.usable, hmax, hname.symm⟩, hlacks⟩

/-- A single record of an entry is read as its proof. -/
theorem parseNsec3Proofs_single (hchains : Nsec3Chains zone) {entry : Nsec3Entry}
    (hentry : entry ∈ zone.nsec3s) (husable : entry.nsec3.isUsable) {record : ResourceRecord}
    (hname : record.name = entry.owner) (htype : record.recordType = .nsec3)
    (hrdata : record.rdata = entry.rdata) :
    parseNsec3Proofs [record] zone.apex =
      .ok [⟨entry.nsec3, entry.nsec3.hash entry.original⟩] := by
  have hfilter : [record].filter (fun record => record.recordType = .nsec3) = [record] := by
    simp [htype]
  rw [parseNsec3Proofs, hfilter, List.mapM_cons,
    parseNsec3Proof_eq hchains hentry husable hname htype hrdata]
  rfl

/-- A single record is accepted when it is one for the name that shows neither the type nor a
    CNAME. -/
theorem validateNsec3NoData_single (hchains : Nsec3Chains zone) {entry : Nsec3Entry}
    {proof : Nsec3ProofRecord} (hproof : zone.ProofOf proof entry) {record : ResourceRecord}
    (hproofs : parseNsec3Proofs [record] zone.apex = .ok [proof])
    (hsecure : validateRrsetSignature zone.apex dnskeyRrset [record] rrsigRrset now = .ok .secure)
    {name : DnsName} {recordType : RecordType} :
    validateNsec3NoData ⟨zone.apex, dnskeyRrset, name, recordType, [record], rrsigRrset, now⟩ =
        .ok .secure ↔
      (entry.nsec3.iterations ≤ nsec3MaxIterations ∧
        entry.nsec3.hash name = entry.nsec3.hash entry.original) ∧
      ¬zone.ShowsHashed entry.original recordType.code ∧
      ¬zone.ShowsHashed entry.original RecordType.cname.code := by
  have hsigned : validateNsec3RrsetSignature zone.apex dnskeyRrset [record] rrsigRrset now =
      .ok .secure := by
    rw [validateNsec3RrsetSignature, if_neg (List.cons_ne_nil _ _), hsecure]
  rw [validateNsec3NoData, thenIfSecure_eq_secure, hsigned, hproofs, Except.ok_bind,
    secureIfAny_eq_secure, ← nsec3Lacks_eq_ok_true hchains hproof, Except.anyM_eq_ok_true]
  constructor
  · rintro ⟨-, k, a, hk, ha, -⟩
    obtain rfl : a = proof := List.mem_singleton.1 (List.mem_of_getElem? hk)
    exact ha
  · intro hlacks
    exact ⟨rfl, 0, proof, rfl, hlacks, by simp⟩

/-- Every such record is accepted. -/
theorem exists_secure_of_hasNsec3 (hchains : Nsec3Chains zone)
    (hsigned : zone.SignedAt dnskeyRrset now) {name : DnsName} {recordType : RecordType}
    (h : zone.HasNsec3 name) (hlacks : ¬zone.ShowsHashed name recordType.code)
    (hcname : ¬zone.ShowsHashed name RecordType.cname.code) :
    ∃ nsec3Rrset nsec3RrsigRrset, validateNsec3NoData ⟨zone.apex, dnskeyRrset, name, recordType,
      nsec3Rrset, nsec3RrsigRrset, now⟩ = .ok .secure := by
  obtain ⟨entry, hentry, husable, hmax, rfl⟩ := h
  let record : ResourceRecord := ⟨entry.owner, .nsec3, classIn, 0, entry.rdata⟩
  have hfrom : Nsec3Record.fromRecord record = .ok entry.nsec3 := fromRecord_nsec3 rfl rfl
  have hcanonical : canonicalRdata record = .ok entry.rdata :=
    (canonicalRdata_nsec3 rfl).2 ⟨rfl, _, hfrom⟩
  obtain ⟨rrsigRecord, hsecure⟩ := exists_signature hsigned (.nsec3 hentry) ⟨rfl, rfl, .inl rfl,
    entry.rdata, rfl, hcanonical, hchains.length_rdata entry hentry⟩
  exact ⟨[record], [rrsigRecord], (validateNsec3NoData_single hchains ⟨hentry, husable, rfl, rfl⟩
    (parseNsec3Proofs_single hchains hentry husable rfl rfl rfl) hsecure).2
      ⟨⟨hmax, rfl⟩, hlacks, hcname⟩⟩

omit [DnssecCrypto] in
theorem not_showsHashed_cname_of_isDelegation {name : DnsName} (h : zone.IsDelegation name) :
    ¬zone.ShowsHashed name RecordType.cname.code := by
  rintro (⟨rrset, -, -, -, hcode⟩ | ⟨hcode, -⟩)
  · exact absurd (hcode h) (by decide)
  · exact absurd hcode (by decide)

/-- Empty answers for a name are to be trusted just when no record says more than that the name is a
    delegation. -/
theorem noDataAt_of_validateNsec3NoData_iff (hchains : Nsec3Chains zone)
    (hkeys : zone.HonestKeys dnskeyRrset) (hsigned : zone.SignedAt dnskeyRrset now)
    {name : DnsName} (hfree : zone.NoCollision name) (recordType : RecordType) :
    (∀ signerName nsec3Rrset nsec3RrsigRrset, validateNsec3NoData ⟨signerName, dnskeyRrset, name,
        recordType, nsec3Rrset, nsec3RrsigRrset, now⟩ = .ok .secure →
      zone.NoDataAt name recordType) ↔
      (zone.IsDelegation name → zone.HasNsec3 name →
        recordType = .ds ∨ zone.ShowsHashed name recordType.code) := by
  constructor
  · intro h hcut hrecord
    rw [or_iff_not_imp_right]
    intro hlacks
    obtain ⟨nsec3Rrset, nsec3RrsigRrset, hsecure⟩ := exists_secure_of_hasNsec3 hchains hsigned
      hrecord hlacks (not_showsHashed_cname_of_isDelegation hcut)
    exact (h _ _ _ hsecure).notDelegated hcut
  · intro h signerName nsec3Rrset nsec3RrsigRrset hsecure
    obtain ⟨hrecord, hlacks, hcname⟩ := hasNsec3_of_secure hchains hkeys hfree hsecure
    have hcut (hcut : zone.IsDelegation name) : recordType = .ds :=
      (h hcut hrecord).resolve_right hlacks
    obtain ⟨entry, hentry, husable, -, rfl⟩ := hrecord
    rw [Zone.ShowsHashed, not_or] at hlacks hcname
    refine ⟨hchains.original entry hentry husable, hcut, ?_, ?_⟩
    · by_cases hdelegation : zone.IsDelegation entry.original
      · rintro ⟨rrset, hrrset, hname, hcode⟩
        refine hlacks.1 ⟨rrset, hrrset, hname, hcode, fun _ => .inr ?_⟩
        rw [hcut hdelegation]
      · rw [← Zone.lists_iff_of_not_isDelegation hdelegation]
        exact hlacks.1
    · by_cases hdelegation : zone.IsDelegation entry.original
      · exact hdelegation.not_holds_cname
      · rw [← Zone.lists_iff_of_not_isDelegation hdelegation]
        exact hcname.1

end

end SignedZone

/-! ## A zone with a delegation -/

namespace Nsec3Sample

open NsecSample (apex child publicKey soa ns dnskey childNs low)

def x : DnsLabel := ⟨[0x78], by decide, by decide, by decide, by decide⟩

/-- A name that does not exist. -/
def missing : DnsName := ⟨[x, NsecSample.z], by decide⟩

def apexHash : Octets 20 := ⟨Octet.toBE 20 0xe12fc7af55f9e060caecc00dae9f8d9423401ce3, by simp⟩

def childHash : Octets 20 := ⟨Octet.toBE 20 0x6858cb018a3caf89810851acef805c16a7c5d78f, by simp⟩

/-- SHA-1 of the names that are asked for. -/
def sha1 (data : List UInt8) : Octets 20 :=
  if data = wire apex.labels then apexHash
  else if data = wire child.labels then childHash
  else if data = wire missing.labels then ⟨Octet.toBE 20 0x37d9cc9e8fffcf2ae642fa060064326968706701, by simp⟩
  else if data = wire NsecSample.wildcard.labels then
    ⟨Octet.toBE 20 0x3fb64f6c8c2ea7bcdaa6518bd0c82ff8d3a0b19f, by simp⟩
  else .zero

def apexLabel : DnsLabel where
  bytes := Octet.toBE 32 0x73346e736662716c7637673631696e636f303671743773646967686b30373733
  length_pos := by decide
  length_le := by decide
  valid := by decide
  lower := by decide

def childLabel : DnsLabel where
  bytes := Octet.toBE 32 0x643163636d30636137696e6f6a30383861366d657630327332716a73626c7366
  length_pos := by decide
  length_le := by decide
  valid := by decide
  lower := by decide

def nsec3Apex : Nsec3Entry where
  original := apex
  owner := ⟨[apexLabel, NsecSample.z], by decide⟩
  nsec3 := ⟨1, 0, 0, [], childHash.bytes, [0, 7, 0x22, 0, 0, 0, 0, 2, 0x80]⟩
  bitmap := low [0x22, 0, 0, 0, 0, 2, 0x80] (by decide)
  typeBitMaps := rfl
  rdata := [1, 0, 0, 0, 0, 20] ++ childHash.bytes ++ [0, 7, 0x22, 0, 0, 0, 0, 2, 0x80]
  parse := by decide

def nsec3Child : Nsec3Entry where
  original := child
  owner := ⟨[childLabel, NsecSample.z], by decide⟩
  nsec3 := ⟨1, 0, 0, [], apexHash.bytes, [0, 1, 0x20]⟩
  bitmap := low [0x20] (by decide)
  typeBitMaps := rfl
  rdata := [1, 0, 0, 0, 0, 20] ++ apexHash.bytes ++ [0, 1, 0x20]
  parse := by decide

def zone : SignedZone where
  apex := apex
  rrsets := [soa, ns, dnskey, childNs]
  below := by decide
  types := by decide
  soa := by decide
  cname := by decide
  nsecs := []
  nsec3s := [nsec3Apex, nsec3Child]

def table : SignatureTable where
  apex := apex
  publicKey := publicKey
  signatures := [
    (soa, Octet.toBE 32 0xa5712e37f67ddaec29363c51cf76ac7afa7d848ba175af5b4e14d6f4b69352c4 ++
      Octet.toBE 32 0x7bc030f4a1660dde28bc3b902adce99287f8034aa11c9386f96a27177bbf9508),
    (ns, Octet.toBE 32 0xc53ca1063aa7b5fc8530cac1d9d10373b75f7514766d49c28b60526cb1a10969 ++
      Octet.toBE 32 0xb54fa6c2aa1a8d0303f7ee6d684016b906e7d4b9a26abb41c536a2513106d207),
    (dnskey, Octet.toBE 32 0x9a39cd7be90c02faec39e4d65084c610aa9c5b6245d95e48460cb52b3d58bd9e ++
      Octet.toBE 32 0xadd3ce991d64904b3089b09768ae8249d0d138d2330c3e610caca9bce88bcb06),
    (nsec3Apex.rrset,
      Octet.toBE 32 0x81dac2aa9fd0e91b4be75d2ff41a11381d3790e1429e923c70ab82a11c59bfeb ++
      Octet.toBE 32 0x932071ccb180d77d4b62dede0467120154d8e0a4ec29700f8149e787c898fa07),
    (nsec3Child.rrset,
      Octet.toBE 32 0x047ca51bfe262ba5c4e10bd66cdc4609fab771ac3a79e47ebe887e09a89c7ab8 ++
      Octet.toBE 32 0xe248864a52646f8c2a758672f0a61df508d212e42ddb1225e7bd704e263b980e)]

scoped instance : DnssecCrypto := table.crypto sha1

def dnskeyRrset : List ResourceRecord := [table.dnskeyRecord]

theorem fits : table.Fits zone dnskeyRrset where
  apex := rfl
  publicKey := by decide
  dnskeys := by decide
  published := by decide
  complete := by decide
  length_le := by decide
  labels := by decide
  parse := by decide

theorem honestKeys : zone.HonestKeys dnskeyRrset := fits.honestKeys

theorem signedAt : zone.SignedAt dnskeyRrset 1500 := fits.signedAt (by decide) (by decide)

theorem nsec3Chains : Nsec3Chains zone where
  owner := by
    have key : ∀ entry ∈ zone.nsec3s, entry.owner.labels.tail = zone.apex.labels ∧
        (entry.owner.labels.head?.bind fun label => decodeBase32hexNopad label.bytes) =
          some (entry.nsec3.hash entry.original) := by decide
    intro entry hentry _
    obtain ⟨htail, hhash⟩ := key entry hentry
    cases hlabels : entry.owner.labels with
    | nil => simp [hlabels] at hhash
    | cons label labels =>
      rw [hlabels] at htail hhash
      exact ⟨label, by rw [← htail]; rfl, hhash⟩
  length_next := by decide
  length_rdata := by decide
  original := by decide
  gap := by
    have key : ∀ entry ∈ zone.nsec3s, ∀ name, zone.Exists name →
        ¬HashBetween (entry.nsec3.hash entry.original) entry.nsec3.nextHashedOwnerName
          (entry.nsec3.hash name) := by decide
    exact fun entry hentry _ _ => key entry hentry
  bitmap := by
    intro entry hentry _
    have hwindows : ∀ entry ∈ zone.nsec3s, ∀ window ∈ entry.bitmap.windows,
        window.1 = 0 ∧ window.2.length ≤ 8 := by
      decide
    have h : ∀ entry ∈ zone.nsec3s, ∀ n < 8 * 8, entry.bitmap.Has (UInt16.ofNat n) ↔
        zone.ShowsHashed entry.original (UInt16.ofNat n) := by decide
    exact entry.bitmap.has_iff_of_low (hwindows entry hentry)
      (fun code hcode => hcode.lt (by decide)) (h entry hentry)

/-- The record of an entry, and its signature. -/
def record (entry : Nsec3Entry) : ResourceRecord := ⟨entry.owner, .nsec3, classIn, 3600, entry.rdata⟩

def rrsig (entry : Nsec3Entry) : ResourceRecord := table.rrsigRecord entry.rrset entry.owner

/-- The record of the apex shows that the apex is the closest encloser of the missing name, and
    covers it and the wildcard. -/
def nameError : Nsec3NameErrorValidationInput :=
  ⟨apex, dnskeyRrset, missing, apex, [record nsec3Apex], [rrsig nsec3Apex], [record nsec3Apex],
    [rrsig nsec3Apex], [record nsec3Apex], [rrsig nsec3Apex], 1500⟩

/-- No other name has the hash of the apex or of the delegation, and the records are accepted. -/
theorem validated :
    (zone.NoCollision apex ∧ zone.NoCollision child) ∧ zone.IsDelegation child ∧
      validateNsec3NameError nameError = .ok .secure ∧
      validateNsec3NoData ⟨apex, dnskeyRrset, child, .a, [record nsec3Child], [rrsig nsec3Child],
        1500⟩ = .ok .secure := by
  decide

theorem noCollision_child : zone.NoCollision child := validated.1.2

theorem nameErrorBelow_missing :
    validateNsec3NameError nameError = .ok .secure ∧ zone.NameErrorBelow missing apex := by
  obtain ⟨⟨hfree, -⟩, -, hsecure, -⟩ := validated
  have hkeys : zone.HonestKeys nameError.dnskeyRrset := honestKeys
  exact ⟨hsecure, SignedZone.validateNsec3NameError_sound nsec3Chains hkeys hfree hsecure⟩

/-- For the DS records of the delegation, an empty answer is to be trusted. -/
theorem noDataAt_child_ds :
    (Nsec3Chains zone ∧ zone.HonestKeys dnskeyRrset ∧ zone.SignedAt dnskeyRrset 1500) ∧
      ∀ signerName nsec3Rrset nsec3RrsigRrset, validateNsec3NoData ⟨signerName, dnskeyRrset, child,
        .ds, nsec3Rrset, nsec3RrsigRrset, 1500⟩ = .ok .secure → zone.NoDataAt child .ds :=
  ⟨⟨nsec3Chains, honestKeys, signedAt⟩, (SignedZone.noDataAt_of_validateNsec3NoData_iff nsec3Chains
    honestKeys signedAt noCollision_child .ds).2 fun _ _ => .inl rfl⟩

/-- The record of the delegation is taken for a proof that the child has no address. -/
theorem exists_secure_not_noDataAt :
    Nsec3Chains zone ∧ zone.HonestKeys dnskeyRrset ∧ zone.NoCollision child ∧
      validateNsec3NoData ⟨apex, dnskeyRrset, child, .a, [record nsec3Child], [rrsig nsec3Child],
        1500⟩ = .ok .secure ∧ zone.IsDelegation child ∧ ¬zone.NoDataAt child .a := by
  obtain ⟨-, hcut, -, hsecure⟩ := validated
  refine ⟨nsec3Chains, honestKeys, noCollision_child, hsecure, hcut, fun h => ?_⟩
  exact absurd (h.notDelegated hcut) (by decide)

end Nsec3Sample

end Hns
