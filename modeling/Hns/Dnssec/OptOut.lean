import Hns.Dnssec.Nsec3

/-!
# NSEC3 records of referrals and wildcards

What else the NSEC3 records of an honest zone are taken to show. Records that
opt out leave open whether there are delegations in between, but only of zones
that are not signed (`OptOutSpans`).

* A delegation that is taken to be unsigned has no DS records that the zone
  signs, be it that its own record says so or that it may lie in such a span
  (`validateNsec3DsNoData_sound`, `validateNsec3UnsignedReferral_sound`).
* An empty answer from a wildcard is to be trusted, and so is an answer that is
  expanded from one: there is no closer match
  (`validateNsec3WildcardNoData_sound`, `validateNsec3WildcardAnswer_sound`).
-/

namespace Hns

open DnsName

/-! ## Validation -/

section

variable [DnssecCrypto]

structure Nsec3DsNoDataValidationInput where
  signerName : DnsName
  dnskeyRrset : List ResourceRecord
  queryName : DnsName
  matchingNsec3Rrset : List ResourceRecord
  matchingNsec3RrsigRrset : List ResourceRecord
  closestEncloser : DnsName
  closestEncloserNsec3Rrset : List ResourceRecord
  closestEncloserNsec3RrsigRrset : List ResourceRecord
  nextCloserNsec3Rrset : List ResourceRecord
  nextCloserNsec3RrsigRrset : List ResourceRecord
  now : DnssecTime

/-- What `validate_nsec3_ds_no_data` and `validate_nsec3_unsigned_referral` do: the record that
    matches the name decides, if it is given, or else a proof that opts out. -/
def matchingOrOptOut (input : Nsec3DsNoDataValidationInput) (status : DnssecStatus)
    (shows : Nsec3Record → Except DnssecError Bool) : Except DnssecError DnssecStatus :=
  if input.matchingNsec3Rrset ≠ [] then
    thenIfSecure (validateNsec3RrsetSignature input.signerName input.dnskeyRrset
      input.matchingNsec3Rrset input.matchingNsec3RrsigRrset input.now) fun _ => do
    let proofs ← parseNsec3Proofs input.matchingNsec3Rrset input.signerName
    match ← findNsec3MatchingProof proofs input.queryName none with
    | none => return .bogus
    | some proof => if ← shows proof.nsec3 then return status else return .bogus
  else do
    match ← validateNsec3ClosestEncloserProof ⟨input.signerName, input.dnskeyRrset,
        input.queryName, input.closestEncloser, input.closestEncloserNsec3Rrset,
        input.closestEncloserNsec3RrsigRrset, input.nextCloserNsec3Rrset,
        input.nextCloserNsec3RrsigRrset, input.now⟩ with
    | .status status => return status
    | .valid closestProof =>
      if closestProof.nextCloser.nsec3.isOptOut then return .insecureDelegation else return .bogus

/-- Neither DS records nor a CNAME. -/
def lacksDs (nsec3 : Nsec3Record) : Except DnssecError Bool := do
  if ← nsec3.hasType .ds then return false else return !(← nsec3.hasType .cname)

def validateNsec3DsNoData (input : Nsec3DsNoDataValidationInput) : Except DnssecError DnssecStatus :=
  matchingOrOptOut input .secure lacksDs

structure Nsec3UnsignedReferralValidationInput where
  signerName : DnsName
  dnskeyRrset : List ResourceRecord
  delegationName : DnsName
  matchingNsec3Rrset : List ResourceRecord
  matchingNsec3RrsigRrset : List ResourceRecord
  closestEncloser : DnsName
  closestEncloserNsec3Rrset : List ResourceRecord
  closestEncloserNsec3RrsigRrset : List ResourceRecord
  nextCloserNsec3Rrset : List ResourceRecord
  nextCloserNsec3RrsigRrset : List ResourceRecord
  now : DnssecTime

/-- A delegation without DS records, and not the apex. -/
def isUnsignedReferral (nsec3 : Nsec3Record) : Except DnssecError Bool := do
  if !(← nsec3.hasType .ns) then return false
  else if ← nsec3.hasType .ds then return false
  else return !(← nsec3.hasType .soa)

def validateNsec3UnsignedReferral (input : Nsec3UnsignedReferralValidationInput) :
    Except DnssecError DnssecStatus :=
  matchingOrOptOut ⟨input.signerName, input.dnskeyRrset, input.delegationName,
    input.matchingNsec3Rrset, input.matchingNsec3RrsigRrset, input.closestEncloser,
    input.closestEncloserNsec3Rrset, input.closestEncloserNsec3RrsigRrset,
    input.nextCloserNsec3Rrset, input.nextCloserNsec3RrsigRrset, input.now⟩ .insecureDelegation
    isUnsignedReferral

structure Nsec3WildcardNoDataValidationInput where
  signerName : DnsName
  dnskeyRrset : List ResourceRecord
  queryName : DnsName
  closestEncloser : DnsName
  queryType : RecordType
  closestEncloserNsec3Rrset : List ResourceRecord
  closestEncloserNsec3RrsigRrset : List ResourceRecord
  nextCloserNsec3Rrset : List ResourceRecord
  nextCloserNsec3RrsigRrset : List ResourceRecord
  wildcardNsec3Rrset : List ResourceRecord
  wildcardNsec3RrsigRrset : List ResourceRecord
  now : DnssecTime

def validateNsec3WildcardNoData (input : Nsec3WildcardNoDataValidationInput) :
    Except DnssecError DnssecStatus := do
  match ← validateNsec3ClosestEncloserProof ⟨input.signerName, input.dnskeyRrset, input.queryName,
      input.closestEncloser, input.closestEncloserNsec3Rrset, input.closestEncloserNsec3RrsigRrset,
      input.nextCloserNsec3Rrset, input.nextCloserNsec3RrsigRrset, input.now⟩ with
  | .status status => return status
  | .valid closestProof =>
    if closestProof.nextCloser.nsec3.isOptOut then return .insecureDelegation
    else
      let wildcardName ← wildcardChild input.closestEncloser
      thenIfSecure (validateNsec3RrsetSignature input.signerName input.dnskeyRrset
        input.wildcardNsec3Rrset input.wildcardNsec3RrsigRrset input.now) fun _ => do
      let wildcardProofs ← parseNsec3Proofs input.wildcardNsec3Rrset input.signerName
      match ← findNsec3MatchingProof wildcardProofs wildcardName
          (some closestProof.closest.nsec3) with
      | none => return .bogus
      | some wildcardProof =>
        if ← wildcardProof.nsec3.hasType input.queryType then return .bogus
        else if ← wildcardProof.nsec3.hasType .cname then return .bogus
        else return .secure

structure Nsec3WildcardAnswerValidationInput where
  signerName : DnsName
  dnskeyRrset : List ResourceRecord
  queryName : DnsName
  closestEncloser : DnsName
  nextCloserNsec3Rrset : List ResourceRecord
  nextCloserNsec3RrsigRrset : List ResourceRecord
  now : DnssecTime

def validateNsec3WildcardAnswer (input : Nsec3WildcardAnswerValidationInput) :
    Except DnssecError DnssecStatus := do
  if !input.queryName.isStrictSubdomain input.closestEncloser then return .bogus
  else
    let nextCloser ← nextCloserName input.queryName input.closestEncloser
    thenIfSecure (validateNsec3RrsetSignature input.signerName input.dnskeyRrset
      input.nextCloserNsec3Rrset input.nextCloserNsec3RrsigRrset input.now) fun _ => do
    let nextProofs ← parseNsec3Proofs input.nextCloserNsec3Rrset input.signerName
    match ← findNsec3CoveringProof nextProofs nextCloser none with
    | none => return .bogus
    | some nextProof => if nextProof.nsec3.isOptOut then return .insecureDelegation else return .secure

/-! ## Spans -/

/-- What there may be in the span of a record that opts out: delegations without DS records, and the
    names above them. -/
def OptOutSpans (zone : SignedZone) : Prop :=
  ∀ entry ∈ zone.nsec3s, entry.nsec3.isUsable → entry.nsec3.isOptOut → ∀ name, zone.Exists name →
    HashBetween (entry.nsec3.hash entry.original) entry.nsec3.nextHashedOwnerName
      (entry.nsec3.hash name) →
    ∀ owner, zone.Owner owner → owner.isSubdomainOrEqual name →
      zone.IsDelegation owner ∧ ¬zone.Holds owner .ds

instance Zone.decidableForallOwner {zone : Zone} {p : DnsName → Prop} [DecidablePred p] :
    Decidable (∀ name, zone.Owner name → p name) :=
  decidable_of_iff _ Zone.forall_owner.symm

instance decidableOptOutSpans (zone : SignedZone) : Decidable (OptOutSpans zone) :=
  inferInstanceAs (Decidable (∀ entry ∈ zone.nsec3s, _))

end

/-- The zone signs DS records for the name. -/
def Zone.SignsDs (zone : Zone) (name : DnsName) : Prop :=
  ∃ rrset, zone.Signed rrset ∧ rrset.name = name ∧ rrset.typeCode = RecordType.ds.code

/-- What the parent shows of a name that may be delegated to a zone that is not signed. -/
structure Zone.Unsigned (zone : Zone) (name : DnsName) : Prop where
  noDs : ¬zone.SignsDs name
  delegations : ∀ owner, zone.Owner owner → owner.isSubdomainOrEqual name → zone.IsDelegation owner

/-- What an empty answer from a wildcard says. -/
structure Zone.WildcardNoData (zone : Zone) (name encloser : DnsName) (recordType : RecordType) :
    Prop where
  closest : zone.ClosestEncloser name encloser
  notExists : ¬zone.Exists name
  notOccluded : ¬zone.Occluded name
  exists_ : ∀ wildcard, wildcard.IsWildcardOf encloser → zone.Exists wildcard
  noData : ∀ wildcard, wildcard.IsWildcardOf encloser → ¬zone.IsDelegation wildcard →
    ¬zone.Holds wildcard recordType ∧ ¬zone.Holds wildcard .cname

namespace SignedZone

variable {zone : SignedZone}

section

variable [DnssecCrypto] {dnskeyRrset rrset rrsigRrset : List ResourceRecord}
  {signerName : DnsName} {now : DnssecTime}

theorem trySignatures_ne (rrset : List ResourceRecord) (now : DnssecTime)
    (pairs : List (RrsigRecord × DnskeyRecord)) (deferred : Option DnssecError) :
    trySignatures rrset now pairs deferred ≠ .ok .insecureDelegation := by
  induction pairs generalizing deferred with
  | nil => cases deferred <;> simp [trySignatures]
  | cons pair pairs ih =>
    obtain ⟨rrsig, dnskey⟩ := pair
    rw [trySignatures]
    cases verifyRrsig rrset rrsig dnskey now with
    | ok verified => cases verified with
      | true => simp
      | false => exact ih deferred
    | error e => exact ih _

/-- What a signature does not make secure is bogus. -/
theorem eq_bogus_of_ne_secure {status : DnssecStatus}
    (h : validateNsec3RrsetSignature signerName dnskeyRrset rrset rrsigRrset now = .ok status)
    (hsecure : status ≠ .secure) : status = .bogus := by
  rw [validateNsec3RrsetSignature] at h
  split_ifs at h with hempty
  · exact (Except.ok.inj h).symm
  · cases rrset with
    | nil => exact absurd rfl hempty
    | cons first rest =>
      obtain ⟨dnskeys, -, h⟩ := Except.bind_eq_ok.1 h
      obtain ⟨rrsigs, -, h⟩ := Except.bind_eq_ok.1 h
      cases status with
      | secure => exact absurd rfl hsecure
      | insecureDelegation => exact absurd h (trySignatures_ne _ _ _ _)
      | bogus => rfl

/-- Without a proof of the closest encloser everything is bogus. -/
theorem status_eq_bogus {input : Nsec3ClosestEncloserProofInput} {status : DnssecStatus}
    (h : validateNsec3ClosestEncloserProof input = .ok (.status status)) : status = .bogus := by
  rw [validateNsec3ClosestEncloserProof] at h
  split_ifs at h with hbelow
  · cases h
    rfl
  obtain ⟨closestStatus, hclosest, h⟩ := Except.bind_eq_ok.1 h
  split_ifs at h with hsecure
  · cases h
    exact eq_bogus_of_ne_secure hclosest hsecure
  obtain ⟨closestProofs, -, h⟩ := Except.bind_eq_ok.1 h
  obtain ⟨found, -, h⟩ := Except.bind_eq_ok.1 h
  cases found with
  | none =>
    cases h
    rfl
  | some closest =>
    obtain ⟨isAuthoritative, -, h⟩ := Except.bind_eq_ok.1 h
    split_ifs at h
    · cases h
      rfl
    obtain ⟨nextCloser, -, h⟩ := Except.bind_eq_ok.1 h
    obtain ⟨nextStatus, hnext, h⟩ := Except.bind_eq_ok.1 h
    split_ifs at h with hnextSecure
    · cases h
      exact eq_bogus_of_ne_secure hnext hnextSecure
    obtain ⟨nextProofs, -, h⟩ := Except.bind_eq_ok.1 h
    obtain ⟨found, -, h⟩ := Except.bind_eq_ok.1 h
    cases found with
    | none =>
      cases h
      rfl
    | some next => cases h

/-! ## Enclosers -/

/-- What a proof of the closest encloser says of the zone. -/
structure Encloses (zone : SignedZone) (queryName encloser nextCloser : DnsName) : Prop where
  below : queryName.isStrictSubdomain encloser
  exists_ : zone.Exists encloser
  notDelegated : ¬zone.IsDelegation encloser
  next : queryName.isSubdomainOrEqual nextCloser
  nextBelow : nextCloser.isStrictSubdomain encloser
  length : nextCloser.labels.length = encloser.labels.length + 1

theorem exists_encloses (hchains : Nsec3Chains zone) {input : Nsec3ClosestEncloserProofInput}
    (hkeys : zone.HonestKeys input.dnskeyRrset) (hfree : zone.NoCollision input.closestEncloser)
    {proof : Nsec3ClosestEncloserProof}
    (h : validateNsec3ClosestEncloserProof input = .ok (.valid proof)) :
    ∃ entry nextCloser, zone.Encloses input.queryName input.closestEncloser nextCloser ∧
      zone.ProofOf proof.nextCloser entry ∧
      nsec3CoversName proof.nextCloser.nsec3 proof.nextCloser.ownerHash nextCloser = .ok true := by
  obtain ⟨hbelow, ⟨entry, hentry, hmatches⟩, hauth, entry', nextCloser, hentry', hnextCloser,
    hcovers⟩ := encloserProof_of_valid hchains hkeys h
  have hclosest := hfree entry hentry.mem ((matches_iff hentry).1 hmatches).2
  have hcut := (authoritative_of_closest hchains hentry hauth).1
  have hexists := hchains.original entry hentry.mem hentry.usable
  rw [← hclosest] at hcut hexists
  obtain ⟨hquery, hnext, hlen⟩ := nextCloserName_eq_ok hnextCloser
  exact ⟨entry', nextCloser, ⟨hbelow, hexists, hcut, hquery, hnext, hlen⟩, hentry', hcovers⟩

omit [DnssecCrypto] in
theorem Encloses.inZone {queryName encloser nextCloser : DnsName}
    (h : zone.Encloses queryName encloser nextCloser) :
    nextCloser.isSubdomainOrEqual zone.apex :=
  isSubdomainOrEqual_trans (isStrictSubdomain_iff_ne.1 h.nextBelow).1 h.exists_.1

omit [DnssecCrypto] in
/-- Between a name and an encloser one label above the next closer name there is nothing else. -/
theorem isSubdomainOrEqual_nextCloser {queryName encloser nextCloser name : DnsName}
    (hnext : queryName.isSubdomainOrEqual nextCloser)
    (hlen : nextCloser.labels.length = encloser.labels.length + 1)
    (hquery : queryName.isSubdomainOrEqual name) (hname : name.isStrictSubdomain encloser) :
    name.isSubdomainOrEqual nextCloser := by
  have hlt := (isStrictSubdomain_iff.1 hname).2
  rw [isSubdomainOrEqual_iff] at hquery hnext ⊢
  exact List.suffix_of_suffix_length_le hnext hquery (by omega)

omit [DnssecCrypto] in
/-- Where the next closer name does not exist, the encloser is the closest one. -/
theorem closestEncloser_of_nextCloser {queryName encloser nextCloser : DnsName}
    (hexists : zone.Exists encloser) (hbelow : queryName.isStrictSubdomain encloser)
    (hnext : queryName.isSubdomainOrEqual nextCloser)
    (hlen : nextCloser.labels.length = encloser.labels.length + 1)
    (hzone : nextCloser.isSubdomainOrEqual zone.apex) (hnot : ¬zone.Exists nextCloser) :
    zone.ClosestEncloser queryName encloser := by
  refine ⟨hexists, hbelow, fun other hother hstrict => ?_⟩
  have hquery := (isStrictSubdomain_iff_ne.1 hstrict).1
  refine (isSubdomainOrEqual_or_isStrictSubdomain (isStrictSubdomain_iff_ne.1 hbelow).1
    hquery).resolve_right fun habove => ?_
  exact hnot (hother.of_isSubdomainOrEqual
    (isSubdomainOrEqual_nextCloser hnext hlen hquery habove) hzone)

/-! ## Delegations -/

/-- A record that is found for a name is the zone's. -/
theorem exists_matching (hchains : Nsec3Chains zone) (hkeys : zone.HonestKeys dnskeyRrset)
    (hsecure : validateNsec3RrsetSignature signerName dnskeyRrset rrset rrsigRrset now =
      .ok .secure)
    {proofs : List Nsec3ProofRecord} (hproofs : parseNsec3Proofs rrset signerName = .ok proofs)
    {name : DnsName} (hfree : zone.NoCollision name) {expected : Option Nsec3Record}
    {proof : Nsec3ProofRecord}
    (hfound : findNsec3MatchingProof proofs name expected = .ok (some proof)) :
    ∃ entry, zone.ProofOf proof entry ∧ name = entry.original := by
  obtain ⟨hmem, hmatches⟩ := findNsec3MatchingProof_eq_some hfound
  obtain ⟨entry, hentry⟩ := exists_proofOf hchains hkeys hsecure hproofs hmem
  exact ⟨entry, hentry, hfree entry hentry.mem ((matches_iff hentry).1 hmatches).2⟩

/-- What is not bogus has been shown by a record for the name, or by one that opts out. -/
theorem matchingOrOptOut_cases (hchains : Nsec3Chains zone)
    {input : Nsec3DsNoDataValidationInput} (hkeys : zone.HonestKeys input.dnskeyRrset)
    (hfree : zone.NoCollision input.queryName) {status : DnssecStatus}
    {shows : Nsec3Record → Except DnssecError Bool} {result : DnssecStatus}
    (h : matchingOrOptOut input status shows = .ok result) (hresult : result ≠ .bogus) :
    (result = status ∧ ∃ proof entry, zone.ProofOf proof entry ∧
      input.queryName = entry.original ∧ shows proof.nsec3 = .ok true) ∨
    (result = .insecureDelegation ∧ ∃ proof, validateNsec3ClosestEncloserProof
        ⟨input.signerName, input.dnskeyRrset, input.queryName, input.closestEncloser,
          input.closestEncloserNsec3Rrset, input.closestEncloserNsec3RrsigRrset,
          input.nextCloserNsec3Rrset, input.nextCloserNsec3RrsigRrset, input.now⟩ =
        .ok (.valid proof) ∧ proof.nextCloser.nsec3.isOptOut = true) := by
  rw [matchingOrOptOut] at h
  split_ifs at h
  · -- A record is given for the name.
    left
    obtain ⟨matchingStatus, hmatching, h⟩ := Except.bind_eq_ok.1 h
    split_ifs at h with hne
    · exact absurd (eq_bogus_of_ne_secure hmatching hne) (Except.ok.inj h ▸ hresult)
    rw [not_not.1 hne] at hmatching
    obtain ⟨proofs, hproofs, h⟩ := Except.bind_eq_ok.1 h
    obtain ⟨found, hfound, h⟩ := Except.bind_eq_ok.1 h
    cases found with
    | none => exact absurd (Except.ok.inj h).symm hresult
    | some proof =>
      obtain ⟨shown, hshown, h⟩ := Except.bind_eq_ok.1 h
      cases shown with
      | false => exact absurd (Except.ok.inj h).symm hresult
      | true =>
        obtain ⟨entry, hentry, hname⟩ := exists_matching hchains hkeys hmatching hproofs hfree hfound
        exact ⟨(Except.ok.inj h).symm, proof, entry, hentry, hname, hshown⟩
  · right
    obtain ⟨validation, hvalidation, h⟩ := Except.bind_eq_ok.1 h
    cases validation with
    | status status =>
      exact absurd (status_eq_bogus hvalidation) (Except.ok.inj h ▸ hresult)
    | valid proof =>
      dsimp only at h
      split_ifs at h with hopt
      · exact ⟨(Except.ok.inj h).symm, proof, hvalidation, hopt⟩
      · exact absurd (Except.ok.inj h).symm hresult

/-- In the span of a record that opts out there is nothing that is signed. -/
theorem unsigned_of_optOut (hchains : Nsec3Chains zone) (hspans : OptOutSpans zone)
    {input : Nsec3ClosestEncloserProofInput} (hkeys : zone.HonestKeys input.dnskeyRrset)
    (hfree : zone.NoCollision input.closestEncloser) {proof : Nsec3ClosestEncloserProof}
    (h : validateNsec3ClosestEncloserProof input = .ok (.valid proof))
    (hopt : proof.nextCloser.nsec3.isOptOut = true) : zone.Unsigned input.queryName := by
  obtain ⟨entry, nextCloser, hencloses, hentry, hcovers⟩ := exists_encloses hchains hkeys hfree h
  have howners (owner : DnsName) (howner : zone.Owner owner)
      (hbelow : owner.isSubdomainOrEqual input.queryName) :
      zone.IsDelegation owner ∧ ¬zone.Holds owner .ds := by
    have hnext := isSubdomainOrEqual_trans hbelow hencloses.next
    have hexists := howner.exists.of_isSubdomainOrEqual hnext hencloses.inZone
    exact hspans entry hentry.mem hentry.usable (hentry.nsec3 ▸ hopt) nextCloser hexists
      (hashBetween_of_covers hentry hcovers) owner howner hnext
  refine ⟨?_, fun owner howner hbelow => (howners owner howner hbelow).1⟩
  rintro ⟨rrset, hsigned, hname, hcode⟩
  refine (howners rrset.name ⟨⟨rrset, hsigned.1, rfl⟩, hsigned.2.1⟩ ?_).2
    ⟨rrset, hsigned.1, rfl, hcode⟩
  rw [hname]
  exact isSubdomainOrEqual_iff.2 List.suffix_rfl

/-- What a record of an honest zone does not show, the zone does not list. -/
theorem not_lists_of_not_has (hchains : Nsec3Chains zone) {proof : Nsec3ProofRecord}
    {entry : Nsec3Entry} (h : zone.ProofOf proof entry) {code : UInt16}
    (hhas : ¬entry.bitmap.Has code) : ¬zone.Lists entry.original code := fun hlists =>
  hhas ((hchains.bitmap entry h.mem h.usable code).2 (.inl hlists))

/-- What a record of an honest zone shows, apart from signatures, the zone lists. -/
theorem hasType_eq (hchains : Nsec3Chains zone) {proof : Nsec3ProofRecord} {entry : Nsec3Entry}
    (h : zone.ProofOf proof entry) {recordType : RecordType}
    (hne : recordType.code ≠ RecordType.rrsig.code) : proof.nsec3.hasType recordType =
      .ok (decide (zone.Lists entry.original recordType.code)) := by
  rw [hasType_nsec3 h]
  congr 1
  rw [decide_eq_decide, hchains.bitmap entry h.mem h.usable, Zone.ShowsHashed]
  exact ⟨fun hshows => hshows.resolve_right fun hrrsig => hne hrrsig.1, .inl⟩

omit [DnssecCrypto] in
/-- The DS records of a name are listed, be it a delegation or not. -/
theorem lists_ds_iff {name : DnsName} :
    zone.Lists name RecordType.ds.code ↔ zone.Holds name .ds := by
  constructor
  · rintro ⟨rrset, hrrset, hname, hcode, -⟩
    exact ⟨rrset, hrrset, hname, hcode⟩
  · rintro ⟨rrset, hrrset, hname, hcode⟩
    exact ⟨rrset, hrrset, hname, hcode, fun _ => .inr rfl⟩

/-- An empty answer for DS records is to be trusted, and so is what it says of a delegation that may
    not be signed. -/
theorem validateNsec3DsNoData_sound (hchains : Nsec3Chains zone) (hspans : OptOutSpans zone)
    {input : Nsec3DsNoDataValidationInput} (hkeys : zone.HonestKeys input.dnskeyRrset)
    (hfree : zone.NoCollision input.queryName)
    (hfree' : zone.NoCollision input.closestEncloser) :
    (validateNsec3DsNoData input = .ok .secure → zone.NoDataAt input.queryName .ds) ∧
      (validateNsec3DsNoData input = .ok .insecureDelegation →
        zone.Unsigned input.queryName) := by
  constructor
  · intro h
    obtain ⟨-, proof, entry, hentry, hname, hshows⟩ | ⟨hresult, -⟩ :=
      matchingOrOptOut_cases hchains hkeys hfree h (by decide)
    · rw [lacksDs, hasType_eq hchains hentry (by decide), hasType_eq hchains hentry (by decide),
        ← hname] at hshows
      by_cases hds : zone.Lists input.queryName RecordType.ds.code
      · simp [hds, pure, Except.pure] at hshows
      · have hcname : ¬zone.Lists input.queryName RecordType.cname.code := by
          simpa [hds, pure, Except.pure] using hshows
        refine ⟨?_, fun _ => rfl, fun hholds => hds (lists_ds_iff.2 hholds), ?_⟩
        · rw [hname]
          exact hchains.original entry hentry.mem hentry.usable
        · by_cases hcut : zone.IsDelegation input.queryName
          · exact hcut.not_holds_cname
          · rwa [← Zone.lists_iff_of_not_isDelegation hcut]
    · cases hresult
  · intro h
    obtain ⟨hresult, -⟩ | ⟨-, proof, hvalid, hopt⟩ :=
      matchingOrOptOut_cases hchains hkeys hfree h (by decide)
    · cases hresult
    · exact unsigned_of_optOut hchains hspans hkeys hfree' hvalid hopt

omit [DnssecCrypto] in
/-- What lies below a delegation without DS records is not signed. -/
theorem unsigned_of_isDelegation {name : DnsName} (hcut : zone.IsDelegation name)
    (hds : ¬zone.Holds name .ds) : zone.Unsigned name := by
  constructor
  · rintro ⟨rrset, hsigned, hname, hcode⟩
    exact hds ⟨rrset, hsigned.1, hname, hcode⟩
  · intro owner howner hbelow
    by_cases heq : owner = name
    · rwa [heq]
    · exact absurd ⟨name, hcut, isStrictSubdomain_iff_ne.2 ⟨hbelow, heq⟩⟩ howner.2

/-- A referral to a zone that is not signed is to be trusted, and it is never taken for more. -/
theorem validateNsec3UnsignedReferral_sound (hchains : Nsec3Chains zone)
    (hspans : OptOutSpans zone) {input : Nsec3UnsignedReferralValidationInput}
    (hkeys : zone.HonestKeys input.dnskeyRrset) (hfree : zone.NoCollision input.delegationName)
    (hfree' : zone.NoCollision input.closestEncloser) :
    validateNsec3UnsignedReferral input ≠ .ok .secure ∧
      (validateNsec3UnsignedReferral input = .ok .insecureDelegation →
        zone.Unsigned input.delegationName) := by
  constructor
  · intro h
    obtain ⟨hresult, -⟩ | ⟨hresult, -⟩ :=
      matchingOrOptOut_cases hchains hkeys hfree h (by decide)
    · cases hresult
    · cases hresult
  · intro h
    obtain ⟨-, proof, entry, hentry, hname, hshows⟩ | ⟨-, proof, hvalid, hopt⟩ :=
      matchingOrOptOut_cases hchains hkeys hfree h (by decide)
    · -- The record shows an NS RRset, no DS records and that this is not the apex.
      dsimp only at hname
      rw [isUnsignedReferral, hasType_eq hchains hentry (by decide),
        hasType_eq hchains hentry (by decide), hasType_eq hchains hentry (by decide),
        ← hname] at hshows
      by_cases hns : zone.Lists input.delegationName RecordType.ns.code
      · by_cases hds : zone.Lists input.delegationName RecordType.ds.code
        · simp [hns, hds, pure, Except.pure] at hshows
        · have hsoa : ¬zone.Lists input.delegationName RecordType.soa.code := by
            simpa [hns, hds, pure, Except.pure] using hshows
          have hapex : input.delegationName ≠ zone.apex := by
            intro hapex
            obtain ⟨rrset, hrrset, hsoaName, hcode⟩ := zone.soa
            exact hsoa ⟨rrset, hrrset, hsoaName.trans hapex.symm, hcode,
              fun hcut => absurd hapex hcut.1⟩
          obtain ⟨rrset, hrrset, hrrsetName, hcode, -⟩ := hns
          exact unsigned_of_isDelegation ⟨hapex, rrset, hrrset, hrrsetName, hcode⟩
            fun hholds => hds (lists_ds_iff.2 hholds)
      · simp [hns, pure, Except.pure] at hshows
    · exact unsigned_of_optOut hchains hspans hkeys hfree' hvalid hopt

/-! ## Wildcards -/

omit [DnssecCrypto] in
/-- Where the next closer name does not exist, neither does what lies below it. -/
theorem Encloses.notExists {queryName encloser nextCloser : DnsName}
    (h : zone.Encloses queryName encloser nextCloser) (hnot : ¬zone.Exists nextCloser) :
    ¬zone.Exists queryName := fun hexists =>
  hnot (hexists.of_isSubdomainOrEqual h.next h.inZone)

/-- An empty answer from a wildcard is to be trusted: no name is a closer match, and the wildcard
    has no such data. -/
theorem validateNsec3WildcardNoData_sound (hchains : Nsec3Chains zone)
    {input : Nsec3WildcardNoDataValidationInput} (hkeys : zone.HonestKeys input.dnskeyRrset)
    (hfree : zone.NoCollision input.closestEncloser)
    (hwild : ∀ wildcard : DnsName, wildcard.IsWildcardOf input.closestEncloser →
      zone.NoCollision wildcard)
    (h : validateNsec3WildcardNoData input = .ok .secure) :
    zone.WildcardNoData input.queryName input.closestEncloser input.queryType := by
  obtain ⟨validation, hvalidation, h⟩ := Except.bind_eq_ok.1 h
  cases validation with
  | status status => exact absurd (Except.ok.inj h) (status_ne_secure hvalidation)
  | valid proof =>
    dsimp only at h
    split_ifs at h with hopt
    · cases h
    obtain ⟨wildcard, hwildcard, h⟩ := Except.bind_eq_ok.1 h
    have hof := wildcardChild_eq_ok.1 hwildcard
    obtain ⟨hsecure, h⟩ := thenIfSecure_eq_secure.1 h
    obtain ⟨wildcardProofs, hwildcardProofs, h⟩ := Except.bind_eq_ok.1 h
    obtain ⟨found, hfound, h⟩ := Except.bind_eq_ok.1 h
    cases found with
    | none => cases h
    | some wildcardProof =>
      obtain ⟨entry, hentry, hname⟩ := exists_matching hchains hkeys hsecure hwildcardProofs
        (hwild wildcard hof) hfound
      obtain ⟨entry', nextCloser, hencloses, hentry', hcovers⟩ :=
        exists_encloses hchains hkeys hfree hvalidation
      have hnot := not_exists_of_covers hchains hentry' (by simpa using hopt) hcovers
      -- There is but one wildcard of the encloser.
      have hunique (wildcard' : DnsName) (hof' : wildcard'.IsWildcardOf input.closestEncloser) :
          wildcard' = entry.original := (ext (hof'.trans hof.symm)).trans hname
      refine ⟨closestEncloser_of_nextCloser hencloses.exists_ hencloses.below hencloses.next
          hencloses.length hencloses.inZone hnot, hencloses.notExists hnot,
        not_occluded_of_nextCloser hencloses.exists_ hencloses.notDelegated hencloses.next
          hencloses.nextBelow hencloses.length hnot, fun wildcard' hof' => ?_,
        fun wildcard' hof' hcut => ?_⟩
      · rw [hunique wildcard' hof']
        exact hchains.original entry hentry.mem hentry.usable
      · rw [← Zone.lists_iff_of_not_isDelegation hcut, ← Zone.lists_iff_of_not_isDelegation hcut,
          hunique wildcard' hof']
        dsimp only at h
        rw [hasType_nsec3 hentry, hasType_nsec3 hentry] at h
        by_cases hdata : entry.bitmap.Has input.queryType.code
        · simp [hdata, pure, Except.pure] at h
        · refine ⟨not_lists_of_not_has hchains hentry hdata,
            not_lists_of_not_has hchains hentry fun hcname => ?_⟩
          simp [hdata, hcname, pure, Except.pure] at h

/-- An answer that is expanded from a wildcard is to be trusted: the wildcard stands for the
    name. -/
theorem validateNsec3WildcardAnswer_sound (hchains : Nsec3Chains zone)
    {input : Nsec3WildcardAnswerValidationInput} (hkeys : zone.HonestKeys input.dnskeyRrset)
    (hzone : input.closestEncloser.isSubdomainOrEqual zone.apex)
    (h : validateNsec3WildcardAnswer input = .ok .secure) :
    ¬zone.Exists input.queryName ∧ ∀ wildcard, zone.Owner wildcard →
      wildcard.IsWildcardOf input.closestEncloser →
        zone.SourceOfSynthesis input.queryName wildcard := by
  rw [validateNsec3WildcardAnswer] at h
  split_ifs at h with hbelow
  · cases h
  rw [Bool.not_eq_true', Bool.not_eq_false] at hbelow
  obtain ⟨nextCloser, hnextCloser, h⟩ := Except.bind_eq_ok.1 h
  obtain ⟨hsecure, h⟩ := thenIfSecure_eq_secure.1 h
  obtain ⟨nextProofs, hnextProofs, h⟩ := Except.bind_eq_ok.1 h
  obtain ⟨found, hfound, h⟩ := Except.bind_eq_ok.1 h
  cases found with
  | none => cases h
  | some nextProof =>
    dsimp only at h
    split_ifs at h with hopt
    · cases h
    obtain ⟨hmem, hcovers⟩ := findNsec3CoveringProof_eq_some hfound
    obtain ⟨entry, hentry⟩ := exists_proofOf hchains hkeys hsecure hnextProofs hmem
    have hnot := not_exists_of_covers hchains hentry (by simpa using hopt) hcovers
    obtain ⟨hquery, hnext, hlen⟩ := nextCloserName_eq_ok hnextCloser
    have hin := isSubdomainOrEqual_trans (isStrictSubdomain_iff_ne.1 hnext).1 hzone
    have hname : ¬zone.Exists input.queryName := fun hexists =>
      hnot (hexists.of_isSubdomainOrEqual hquery hin)
    refine ⟨hname, fun wildcard howner hof => ⟨hname, howner, input.closestEncloser, ?_, hof⟩⟩
    have hexists := howner.exists.of_isSubdomainOrEqual
      (isStrictSubdomain_iff_ne.1 hof.isStrictSubdomain).1 hzone
    exact closestEncloser_of_nextCloser hexists hbelow hquery hlen hin hnot

end

end SignedZone

/-! ## A zone that opts out -/

namespace OptOutSample

open NsecSample (apex wildcard child publicKey soa ns dnskey wildcardA childNs low)
open Nsec3Sample (missing sha1 apexHash)

def wildcardHash : Octets 20 := sha1 (wire wildcard.labels)

def wildcardLabel : DnsLabel where
  bytes := Octet.toBE 32 0x377572347572346335716a72706d6c3661363574316931667633397131636376
  length_pos := by decide
  length_le := by decide
  valid := by decide
  lower := by decide

def nsec3Apex : Nsec3Entry where
  original := apex
  owner := Nsec3Sample.nsec3Apex.owner
  nsec3 := ⟨1, 0, 0, [], wildcardHash.bytes, [0, 7, 0x22, 0, 0, 0, 0, 2, 0x80]⟩
  bitmap := Nsec3Sample.nsec3Apex.bitmap
  typeBitMaps := rfl
  rdata := [1, 0, 0, 0, 0, 20] ++ wildcardHash.bytes ++ [0, 7, 0x22, 0, 0, 0, 0, 2, 0x80]
  parse := by decide

/-- The delegation lies in its span. -/
def nsec3Wildcard : Nsec3Entry where
  original := wildcard
  owner := ⟨[wildcardLabel, NsecSample.z], by decide⟩
  nsec3 := ⟨1, 1, 0, [], apexHash.bytes, [0, 6, 0x40, 0, 0, 0, 0, 2]⟩
  bitmap := low [0x40, 0, 0, 0, 0, 2] (by decide)
  typeBitMaps := rfl
  rdata := [1, 1, 0, 0, 0, 20] ++ apexHash.bytes ++ [0, 6, 0x40, 0, 0, 0, 0, 2]
  parse := by decide

def zone : SignedZone where
  apex := apex
  rrsets := [soa, ns, dnskey, wildcardA, childNs]
  below := by decide
  types := by decide
  soa := by decide
  cname := by decide
  nsecs := []
  nsec3s := [nsec3Apex, nsec3Wildcard]

def table : SignatureTable where
  apex := apex
  publicKey := publicKey
  signatures := [
    (soa, Octet.toBE 32 0xa5712e37f67ddaec29363c51cf76ac7afa7d848ba175af5b4e14d6f4b69352c4 ++
      Octet.toBE 32 0x7bc030f4a1660dde28bc3b902adce99287f8034aa11c9386f96a27177bbf9508),
    (ns, Octet.toBE 32 0xc53ca1063aa7b5fc8530cac1d9d10373b75f7514766d49c28b60526cb1a10969 ++
      Octet.toBE 32 0xb54fa6c2aa1a8d0303f7ee6d684016b906e7d4b9a26abb41c536a2513106d207),
    (dnskey, Octet.toBE 32 0x9a39cd7be90c02faec39e4d65084c610aa9c5b6245d95e48460cb52b3d58bd9e ++
      Octet.toBE 32 0xadd3ce991d64904b3089b09768ae8249d0d138d2330c3e610caca9bce88bcb06),
    (wildcardA, Octet.toBE 32 0x879067110d92cc4d4787fe09979e334fb8b787e5153f46abb92def6e46056a58 ++
      Octet.toBE 32 0x1aa8b0e12311e56933a8072b7bbf48f94862d42f8713876127d23f7987d02a0f),
    (nsec3Apex.rrset,
      Octet.toBE 32 0x1aa849141c9be5ac00ab639fa2fb26e000bd561d29f47b67f966894c99088a22 ++
      Octet.toBE 32 0xbb0d18709679d58935c77877d434c9513b0a2e1f4e7a6501926b0583ea477f06),
    (nsec3Wildcard.rrset,
      Octet.toBE 32 0xd447066a3b93e0fa5c5c3df2b12973c5e056d5244634a00fe112c7cdb6794b43 ++
      Octet.toBE 32 0x749a4e4926ed311546758314ebc30087edd567855aa96e7c9238ca1d2f49780a)]

scoped instance : DnssecCrypto := table.crypto sha1

def dnskeyRrset : List ResourceRecord := [table.dnskeyRecord]

theorem fits : table.Fits zone dnskeyRrset where
  apex := rfl
  publicKey := by decide
  dnskeys := by decide
  published := by decide
  complete := by decide
  length_le := by decide
  labels := by decide
  parse := by decide

theorem honestKeys : zone.HonestKeys dnskeyRrset := fits.honestKeys

/-- What is published fits the names, and the delegation is in the span that opts out. -/
theorem published : (∀ entry ∈ zone.nsec3s, entry.owner.labels.tail = zone.apex.labels ∧
      (entry.owner.labels.head?.bind fun label => decodeBase32hexNopad label.bytes) =
        some (entry.nsec3.hash entry.original)) ∧
    (∀ entry ∈ zone.nsec3s, entry.nsec3.isOptOut = false → ∀ name, zone.Exists name →
      ¬HashBetween (entry.nsec3.hash entry.original) entry.nsec3.nextHashedOwnerName
        (entry.nsec3.hash name)) ∧
    (∀ entry ∈ zone.nsec3s, ∀ window ∈ entry.bitmap.windows,
      window.1 = 0 ∧ window.2.length ≤ 8) ∧
    (∀ entry ∈ zone.nsec3s, ∀ n < 8 * 8, entry.bitmap.Has (UInt16.ofNat n) ↔
      zone.ShowsHashed entry.original (UInt16.ofNat n)) ∧
    (∀ entry ∈ zone.nsec3s, entry.nsec3.nextHashedOwnerName.length = 20 ∧
      entry.rdata.length ≤ 65535 ∧ zone.Exists entry.original) ∧
    ∀ rrset ∈ zone.rrsets, rrset.typeCode.toNat < 8 * 8 := by
  decide

theorem nsec3Chains : Nsec3Chains zone where
  owner := by
    intro entry hentry _
    obtain ⟨htail, hhash⟩ := published.1 entry hentry
    cases hlabels : entry.owner.labels with
    | nil => simp [hlabels] at hhash
    | cons label labels =>
      rw [hlabels] at htail hhash
      exact ⟨label, by rw [← htail]; rfl, hhash⟩
  length_next entry hentry _ := (published.2.2.2.2.1 entry hentry).1
  length_rdata entry hentry := (published.2.2.2.2.1 entry hentry).2.1
  original entry hentry _ := (published.2.2.2.2.1 entry hentry).2.2
  gap entry hentry _ := published.2.1 entry hentry
  bitmap entry hentry _ := by
    obtain ⟨-, -, hwindows, hlow, -, hcodes⟩ := published
    exact entry.bitmap.has_iff_of_low (hwindows entry hentry) (fun code hcode => hcode.lt hcodes)
      (hlow entry hentry)

/-- The record of an entry, and its signature. -/
def record (entry : Nsec3Entry) : ResourceRecord := ⟨entry.owner, .nsec3, classIn, 3600, entry.rdata⟩

def rrsig (entry : Nsec3Entry) : ResourceRecord := table.rrsigRecord entry.rrset entry.owner

/-- The delegation is in a span that opts out. -/
def dsNoData : Nsec3DsNoDataValidationInput :=
  ⟨apex, dnskeyRrset, child, [], [], apex, [record nsec3Apex], [rrsig nsec3Apex],
    [record nsec3Wildcard], [rrsig nsec3Wildcard], 1500⟩

def unsignedReferral : Nsec3UnsignedReferralValidationInput :=
  ⟨apex, dnskeyRrset, child, [], [], apex, [record nsec3Apex], [rrsig nsec3Apex],
    [record nsec3Wildcard], [rrsig nsec3Wildcard], 1500⟩

/-- The wildcard has no such address. -/
def wildcardNoData : Nsec3WildcardNoDataValidationInput :=
  ⟨apex, dnskeyRrset, missing, apex, .aaaa, [record nsec3Apex], [rrsig nsec3Apex],
    [record nsec3Apex], [rrsig nsec3Apex], [record nsec3Wildcard], [rrsig nsec3Wildcard], 1500⟩

def wildcardAnswer : Nsec3WildcardAnswerValidationInput :=
  ⟨apex, dnskeyRrset, missing, apex, [record nsec3Apex], [rrsig nsec3Apex], 1500⟩

/-- No other name has the hash of one of these, and all is accepted. -/
theorem validated : OptOutSpans zone ∧ zone.NoCollision apex ∧ zone.NoCollision child ∧
    zone.NoCollision wildcard ∧ validateNsec3DsNoData dsNoData = .ok .insecureDelegation ∧
    validateNsec3UnsignedReferral unsignedReferral = .ok .insecureDelegation ∧
    validateNsec3WildcardNoData wildcardNoData = .ok .secure ∧
    validateNsec3WildcardAnswer wildcardAnswer = .ok .secure ∧ zone.Owner wildcard := by
  decide

theorem unsigned_child :
    validateNsec3DsNoData dsNoData = .ok .insecureDelegation ∧ zone.Unsigned child := by
  obtain ⟨hspans, hapex, hchild, -, hinsecure, -⟩ := validated
  exact ⟨hinsecure, (SignedZone.validateNsec3DsNoData_sound nsec3Chains hspans honestKeys hchild
    hapex).2 hinsecure⟩

theorem unsigned_referral :
    validateNsec3UnsignedReferral unsignedReferral = .ok .insecureDelegation ∧
      zone.Unsigned child := by
  obtain ⟨hspans, hapex, hchild, -, -, hinsecure, -⟩ := validated
  exact ⟨hinsecure, (SignedZone.validateNsec3UnsignedReferral_sound nsec3Chains hspans honestKeys
    hchild hapex).2 hinsecure⟩

theorem wildcardNoData_missing :
    validateNsec3WildcardNoData wildcardNoData = .ok .secure ∧
      zone.WildcardNoData missing apex .aaaa := by
  obtain ⟨-, hapex, -, hwildcard, -, -, hsecure, -⟩ := validated
  have hwild (name : DnsName) (hof : name.IsWildcardOf apex) : zone.NoCollision name := by
    obtain rfl : name = wildcard := ext hof
    exact hwildcard
  exact ⟨hsecure, SignedZone.validateNsec3WildcardNoData_sound nsec3Chains honestKeys hapex hwild
    hsecure⟩

theorem sourceOfSynthesis_missing :
    validateNsec3WildcardAnswer wildcardAnswer = .ok .secure ∧
      zone.SourceOfSynthesis missing wildcard := by
  obtain ⟨-, -, -, -, -, -, -, hsecure, howner⟩ := validated
  have hzone : wildcardAnswer.closestEncloser.isSubdomainOrEqual zone.apex :=
    isSubdomainOrEqual_iff.2 List.suffix_rfl
  exact ⟨hsecure, (SignedZone.validateNsec3WildcardAnswer_sound nsec3Chains honestKeys hzone
    hsecure).2 wildcard howner rfl⟩

end OptOutSample

end Hns
