import Hns.Dnssec.Validate

/-!
# Chains of trust

What a secure result says. Every zone of a chain has to show a key that a DS
record matches and a key that signs the DNSKEY RRset, the DS RRset of every link
has to be signed by a key of the zone before it, and the target by a key of the
last zone (`validateDnssecChain_eq_secure`).

A DNSKEY RRset is anchored when one key does both (`ChainZone.Anchored`). The
validation asks for the two keys one after the other: a chain in which they
differ passes, and whoever has put a key of his own beside the published one
signs for the zone (`validateDnssecChain_anchored_iff`).
-/

namespace Hns

section

variable [DnssecCrypto]

/-- The key verifies a signature of the RRset that names `owner` as the signer. -/
def SignedBy (owner : DnsName) (rrset rrsigRrset : List ResourceRecord) (now : DnssecTime)
    (dnskey : DnskeyRecord) : Prop :=
  ∃ first rest rrsigs rrsig, rrset = first :: rest ∧ rrsigsFor first rrsigRrset = .ok rrsigs ∧
    rrsig ∈ rrsigs ∧ rrsig.typeCovered = first.recordType ∧ rrsig.signerName = owner ∧
    verifyRrsig rrset rrsig dnskey now = .ok true

/-- The key is one of the RRset, all of whose keys can be read. -/
def HasKey (dnskeyRrset : List ResourceRecord) (dnskey : DnskeyRecord) : Prop :=
  ∃ dnskeys, dnskeysOf dnskeyRrset = .ok dnskeys ∧ dnskey ∈ dnskeys

theorem trySignatures_eq_secure {rrset : List ResourceRecord} {now : DnssecTime}
    {pairs : List (RrsigRecord × DnskeyRecord)} {deferredError : Option DnssecError} :
    trySignatures rrset now pairs deferredError = .ok .secure ↔
      ∃ pair ∈ pairs, verifyRrsig rrset pair.1 pair.2 now = .ok true := by
  induction pairs generalizing deferredError with
  | nil => cases deferredError <;> simp [trySignatures]
  | cons pair pairs ih =>
    obtain ⟨rrsig, dnskey⟩ := pair
    rw [trySignatures]
    split
    · exact ⟨fun _ => ⟨_, List.mem_cons_self, ‹_›⟩, fun _ => rfl⟩
    all_goals
      -- The pair does not verify: the others decide.
      rename_i hverify
      simp [ih, hverify]

/-- A signature that verifies agrees with the key on the algorithm and the key tag. -/
theorem algorithm_eq_of_verifyRrsig {rrset : List ResourceRecord} {rrsig : RrsigRecord}
    {dnskey : DnskeyRecord} {now : DnssecTime} (h : verifyRrsig rrset rrsig dnskey now = .ok true) :
    dnskey.algorithm = rrsig.algorithm ∧ dnskey.keyTag = rrsig.keyTag := by
  by_cases hkey : rrsig.algorithm ≠ dnskey.algorithm ∨ rrsig.keyTag ≠ dnskey.keyTag
  · rw [verifyRrsig, if_pos hkey, ite_self] at h
    cases h
  · rw [not_or, not_not, not_not] at hkey
    exact ⟨hkey.1.symm, hkey.2.symm⟩

omit [DnssecCrypto] in
theorem mem_signaturePairs {dnskeyOwner : DnsName} {recordType : RecordType}
    {rrsigs : List RrsigRecord} {dnskeys : List DnskeyRecord} {rrsig : RrsigRecord}
    {dnskey : DnskeyRecord} :
    (rrsig, dnskey) ∈ signaturePairs dnskeyOwner recordType rrsigs dnskeys ↔
      (rrsig ∈ rrsigs ∧ rrsig.typeCovered = recordType ∧ rrsig.signerName = dnskeyOwner) ∧
        dnskey ∈ dnskeys ∧ dnskey.algorithm = rrsig.algorithm ∧ dnskey.keyTag = rrsig.keyTag := by
  simp only [signaturePairs, List.mem_flatMap, List.mem_filter, decide_eq_true_eq, List.mem_map,
    Prod.mk.injEq]
  constructor
  · rintro ⟨r, hr, k, hk, rfl, rfl⟩
    exact ⟨hr, hk⟩
  · rintro ⟨hr, hk⟩
    exact ⟨rrsig, hr, dnskey, hk, rfl, rfl⟩

/-- An RRset is secure under a DNSKEY RRset when one of its keys signs it. -/
theorem validateRrsetSignature_eq_secure {dnskeyOwner : DnsName}
    {dnskeyRrset rrset rrsigRrset : List ResourceRecord} {now : DnssecTime} :
    validateRrsetSignature dnskeyOwner dnskeyRrset rrset rrsigRrset now = .ok .secure ↔
      ∃ dnskey, HasKey dnskeyRrset dnskey ∧ SignedBy dnskeyOwner rrset rrsigRrset now dnskey := by
  cases rrset with
  | nil =>
    simp only [validateRrsetSignature, reduceCtorEq, false_iff]
    rintro ⟨dnskey, -, first, rest, -, -, h, -⟩
    cases h
  | cons first rest =>
    constructor
    · intro h
      obtain ⟨dnskeys, hkeys, h⟩ := Except.bind_eq_ok.1 h
      obtain ⟨rrsigs, hsigs, h⟩ := Except.bind_eq_ok.1 h
      obtain ⟨⟨rrsig, dnskey⟩, hpair, hverify⟩ := trySignatures_eq_secure.1 h
      obtain ⟨⟨hsig, htype, hsigner⟩, hkey, -⟩ := mem_signaturePairs.1 hpair
      exact ⟨dnskey, ⟨dnskeys, hkeys, hkey⟩, first, rest, rrsigs, rrsig, rfl, hsigs, hsig, htype,
        hsigner, hverify⟩
    · rintro ⟨dnskey, ⟨dnskeys, hkeys, hkey⟩, _, _, rrsigs, rrsig, ⟨⟩, hsigs, hsig, htype,
        hsigner, hverify⟩
      refine Except.bind_eq_ok.2 ⟨dnskeys, hkeys, Except.bind_eq_ok.2 ⟨rrsigs, hsigs, ?_⟩⟩
      exact trySignatures_eq_secure.2 ⟨(rrsig, dnskey), mem_signaturePairs.2
        ⟨⟨hsig, htype, hsigner⟩, hkey, algorithm_eq_of_verifyRrsig hverify⟩, hverify⟩

end

section

variable [Sha2] [DnssecCrypto]

/-! ## Delegations -/

/-- The digest of the key, under the name of its owner, is that of a DS record. -/
def MatchedBy (owner : DnsName) (dsRrset : List ResourceRecord) (dnskey : DnskeyRecord) : Prop :=
  ∃ dsRecords ds, dsRecordsOf dsRrset = .ok dsRecords ∧ ds ∈ dsRecords ∧
    verifyDsDigest owner dnskey ds = .ok true

theorem exists_of_tryDelegations {owner : DnsName} {pairs : List (DnskeyRecord × DsRecord)}
    (h : tryDelegations owner pairs = .ok .secure) :
    ∃ pair ∈ pairs, verifyDsDigest owner pair.1 pair.2 = .ok true := by
  induction pairs with
  | nil => cases h
  | cons pair pairs ih =>
    obtain ⟨isMatch, hmatch, h⟩ := Except.bind_eq_ok.1 h
    cases isMatch with
    | true => exact ⟨pair, List.mem_cons_self, hmatch⟩
    | false =>
      obtain ⟨p, hp, hverify⟩ := ih h
      exact ⟨p, List.mem_cons_of_mem _ hp, hverify⟩

/-- A secure delegation has a key that a DS record matches. -/
theorem exists_matchedBy {owner : DnsName} {dsRrset dnskeyRrset : List ResourceRecord}
    (h : validateDelegationLink owner dsRrset dnskeyRrset = .ok .secure) :
    ∃ dnskey, HasKey dnskeyRrset dnskey ∧ MatchedBy owner dsRrset dnskey := by
  obtain ⟨dsRecords, hds, h⟩ := Except.bind_eq_ok.1 h
  split_ifs at h
  · cases h
  obtain ⟨dnskeys, hkeys, h⟩ := Except.bind_eq_ok.1 h
  obtain ⟨⟨dnskey, ds⟩, hpair, hverify⟩ := exists_of_tryDelegations h
  simp only [List.mem_flatMap, List.mem_map, Prod.mk.injEq] at hpair
  obtain ⟨_, hkey, _, hmem, rfl, rfl⟩ := hpair
  exact ⟨_, ⟨dnskeys, hkeys, hkey⟩, dsRecords, _, hds, hmem, hverify⟩

/-! ## Chains -/

omit [Sha2] [DnssecCrypto] in
theorem thenIfSecure_eq_secure {status : Except DnssecError DnssecStatus}
    {rest : Unit → Except DnssecError DnssecStatus} :
    thenIfSecure status rest = .ok .secure ↔ status = .ok .secure ∧ rest () = .ok .secure := by
  rw [thenIfSecure]
  rcases status with e | (_ | _ | _) <;> simp [pure, Except.pure]

/-- A zone of a chain, with the DS records that are given for it. -/
structure ChainZone where
  owner : DnsName
  dsRrset : List ResourceRecord
  dnskeyRrset : List ResourceRecord
  dnskeyRrsigRrset : List ResourceRecord

namespace ChainZone

/-- A key of the zone that a DS record matches. -/
def Matched (zone : ChainZone) (dnskey : DnskeyRecord) : Prop :=
  HasKey zone.dnskeyRrset dnskey ∧ MatchedBy zone.owner zone.dsRrset dnskey

/-- A key of the zone that signs the DNSKEY RRset. -/
def SelfSigned (zone : ChainZone) (now : DnssecTime) (dnskey : DnskeyRecord) : Prop :=
  HasKey zone.dnskeyRrset dnskey ∧
    SignedBy zone.owner zone.dnskeyRrset zone.dnskeyRrsigRrset now dnskey

/-- The two checks of a zone. -/
structure Passes (zone : ChainZone) (now : DnssecTime) : Prop where
  delegation : validateDelegationLink zone.owner zone.dsRrset zone.dnskeyRrset = .ok .secure
  selfSigned : ∃ dnskey, zone.SelfSigned now dnskey

theorem passes_iff {zone : ChainZone} {now : DnssecTime} :
    zone.Passes now ↔
      validateDelegationLink zone.owner zone.dsRrset zone.dnskeyRrset = .ok .secure ∧
        validateDnskeyRrset zone.owner zone.dnskeyRrset zone.dnskeyRrsigRrset now =
          .ok .secure := by
  rw [validateDnskeyRrset, validateRrsetSignature_eq_secure]
  exact ⟨fun h => ⟨h.1, h.2⟩, fun h => ⟨h.1, h.2⟩⟩

end ChainZone

def DnssecChainLink.zone (link : DnssecChainLink) : ChainZone :=
  ⟨link.childDnskeyOwner, link.dsRrset, link.childDnskeyRrset, link.childDnskeyRrsigRrset⟩

namespace DnssecChainValidationInput

variable (input : DnssecChainValidationInput)

def initialZone : ChainZone :=
  ⟨input.initialDnskeyOwner, input.initialDsRrset, input.initialDnskeyRrset,
    input.initialDnskeyRrsigRrset⟩

/-- The zones of a chain, from the initial one on. -/
def zones : List ChainZone := input.initialZone :: input.delegationLinks.map DnssecChainLink.zone

/-- A key of the zone signs the DS RRset of the link. -/
def Links (zone : ChainZone) (link : DnssecChainLink) : Prop :=
  ∃ dnskey, HasKey zone.dnskeyRrset dnskey ∧
    SignedBy zone.owner link.dsRrset link.dsRrsigRrset input.now dnskey

/-- The zones, each signing for the next one, and the last one for the target. -/
def Linked : ChainZone → List DnssecChainLink → Prop
  | zone, [] => ∃ dnskey, HasKey zone.dnskeyRrset dnskey ∧
      SignedBy zone.owner input.targetRrset input.targetRrsigRrset input.now dnskey
  | zone, link :: links => input.Links zone link ∧ Linked link.zone links

/-- Everything that is checked of a chain. -/
structure Passes : Prop where
  zones : ∀ zone ∈ input.zones, zone.Passes input.now
  linked : input.Linked input.initialZone input.delegationLinks

variable {input}

theorem validateLinks_eq_secure {links : List DnssecChainLink} {zone : ChainZone} :
    validateLinks input links zone.owner zone.dnskeyRrset = .ok .secure ↔
      (∀ link ∈ links, link.zone.Passes input.now) ∧ input.Linked zone links := by
  induction links generalizing zone with
  | nil => simp [validateLinks, Linked, validateRrsetSignature_eq_secure]
  | cons link links ih =>
    have hzone : validateLinks input links link.childDnskeyOwner link.childDnskeyRrset =
        .ok .secure ↔ (∀ next ∈ links, next.zone.Passes input.now) ∧ input.Linked link.zone links :=
      @ih link.zone
    rw [validateLinks, thenIfSecure_eq_secure, thenIfSecure_eq_secure, thenIfSecure_eq_secure,
      hzone, validateRrsetSignature_eq_secure, List.forall_mem_cons, ChainZone.passes_iff]
    rw [Linked, Links]
    tauto

/-- A chain is secure when everything that is checked of it holds. -/
theorem validateDnssecChain_eq_secure :
    validateDnssecChain input = .ok .secure ↔ input.Passes := by
  have hlinks : validateLinks input input.delegationLinks input.initialDnskeyOwner
      input.initialDnskeyRrset = .ok .secure ↔
        (∀ link ∈ input.delegationLinks, link.zone.Passes input.now) ∧
          input.Linked input.initialZone input.delegationLinks :=
    @validateLinks_eq_secure _ _ input _ input.initialZone
  rw [validateDnssecChain, thenIfSecure_eq_secure, thenIfSecure_eq_secure, hlinks, ← and_assoc]
  constructor
  · rintro ⟨hinit, hzones, hlinked⟩
    refine ⟨?_, hlinked⟩
    rw [zones, List.forall_mem_cons, List.forall_mem_map]
    exact ⟨ChainZone.passes_iff.2 hinit, hzones⟩
  · rintro ⟨hzones, hlinked⟩
    rw [zones, List.forall_mem_cons, List.forall_mem_map] at hzones
    exact ⟨ChainZone.passes_iff.1 hzones.1, hzones.2, hlinked⟩

end DnssecChainValidationInput

end

end Hns
