import Hns.Dnssec.Nsec
import Hns.Resolver.Answers
import Hns.Resolver.Table

/-!
# Names along a chain

The validation of a chain compares no names from one zone to the next: neither
is the owner of a DS RRset that of the child it stands for, nor does the child
have to lie below its parent, or the target in the last zone (`LinkSample`).

The resolver takes care of the names (`NamedZones`). It validates no chain whose
names do not agree (`resolveDelegated_onlyNamed`), and where they do, the DS
records of a child are those that the parent has signed for its own name
(`exists_published_of_link`).
-/

namespace Hns

open DnsName
open EStateM (attempt checked)

/-- The names of the zones of a chain agree: the DS records that are given for a zone are at its own
    name, it lies below the zone before it, and the target in the last zone. -/
structure NamedZones (zones : List ChainZone) (targetRrset : List ResourceRecord) : Prop where
  ds : ∀ zone ∈ zones.tail, ∀ record ∈ zone.dsRrset, record.name = zone.owner
  below : zones.IsChain fun zone next => next.owner.isStrictSubdomain zone.owner
  target : ∀ zone ∈ zones.getLast?, ∀ record ∈ targetRrset,
    record.name.isSubdomainOrEqual zone.owner

instance (zones : List ChainZone) (targetRrset : List ResourceRecord) :
    Decidable (NamedZones zones targetRrset) :=
  decidable_of_iff (_ ∧ _ ∧ _) ⟨fun ⟨ds, below, target⟩ => ⟨ds, below, target⟩,
    fun h => ⟨h.ds, h.below, h.target⟩⟩

namespace DnssecChainValidationInput

variable [Sha2] [DnssecCrypto] {input : DnssecChainValidationInput}

omit [Sha2] in
/-- A zone signs the DS RRset of the one behind it. -/
theorem Linked.exists_signedBy {zone next next' : ChainZone} {links : List DnssecChainLink}
    (h : input.Linked zone links)
    (hsplit : [next, next'] <:+: zone :: links.map DnssecChainLink.zone) :
    ∃ link ∈ links, link.zone = next' ∧ input.Links next link := by
  induction links generalizing zone with
  | nil =>
    have hlen := hsplit.length_le
    simp at hlen
  | cons link links ih =>
    obtain ⟨hlink, hlinked⟩ := h
    rcases List.infix_cons_iff.1 hsplit with hprefix | hsplit
    · obtain ⟨rfl, hnext⟩ := List.cons_prefix_cons.1 hprefix
      obtain ⟨rfl, -⟩ := List.cons_prefix_cons.1 hnext
      exact ⟨link, List.mem_cons_self, rfl, hlink⟩
    · obtain ⟨other, hmem, hother⟩ := ih hlinked hsplit
      exact ⟨other, List.mem_cons_of_mem _ hmem, hother⟩

/-- Where the names agree and the keys of a zone are honest, the DS records of the zone behind it
    are those of its own name, or of a wildcard that stands for it. -/
theorem exists_published_of_link (hnamed : NamedZones input.zones input.targetRrset)
    (h : validateDnssecChain input = .ok .secure) {zone next : ChainZone}
    (hsplit : [zone, next] <:+: input.zones) {signed : SignedZone}
    (hkeys : signed.HonestKeys zone.dnskeyRrset) :
    zone.owner = signed.apex ∧ next.owner.isStrictSubdomain zone.owner ∧
      ∃ published, signed.Publishes published ∧ published.typeCode = RecordType.ds.code ∧
        Expands next.owner published.name ∧ SignedZone.Replays next.dsRrset published := by
  have hpasses := validateDnssecChain_eq_secure.1 h
  obtain ⟨link, hlink, rfl, dnskey, hkey, hsigned⟩ := hpasses.linked.exists_signedBy hsplit
  have hbelow : link.zone.owner.isStrictSubdomain zone.owner := by
    simpa using hnamed.below.infix hsplit
  obtain ⟨hne, hapex, published, hpub, hreplays⟩ := SignedZone.exists_published hkeys
    (validateRrsetSignature_eq_secure.2 ⟨dnskey, hkey, hsigned⟩)
  have hzone : link.zone ∈ input.zones.tail := List.mem_map_of_mem hlink
  -- The delegation is secure, and so there is a DS record.
  obtain ⟨_, -, dsRecords, ds, hds, hmem, -⟩ :=
    exists_matchedBy (hpasses.zones _ (List.mem_of_mem_tail hzone)).delegation
  obtain ⟨record, hrecord, -⟩ := (Except.mapM_eq_ok.1 hds).exists_left ds hmem
  obtain ⟨hrecord, htype⟩ := List.mem_filter.1 hrecord
  refine ⟨hapex, hbelow, published, hpub, ?_, ?_, hreplays⟩
  · have hcode := hreplays.recordType record hrecord
    rw [of_decide_eq_true htype] at hcode
    rw [hcode, RecordType.code_fromCode]
  · rw [← hnamed.ds _ hzone record hrecord]
    exact hreplays.owner record hrecord

end DnssecChainValidationInput

/-! ## The chains of the resolver -/

/-- The zones of the chain that is validated for a child. -/
def DelegatedChildKeys.zones (keys : DelegatedChildKeys) : List ChainZone :=
  [⟨keys.parentDnskeyOwner, keys.parentDsRrset, keys.parentDnskeyRrset,
    keys.parentDnskeyRrsigRrset⟩, keys.link.zone]

/-- The verifier with another check of chains whose names do not agree. -/
def DelegatedDnssecVerifier.onlyNamed {σ : Type} (verifier : DelegatedDnssecVerifier σ)
    (otherwise : DelegatedChildDnssecValidation → EStateM ResolverError σ Bool) :
    DelegatedDnssecVerifier σ :=
  { verifier with
    validateChildPositiveRrset := fun input =>
      if NamedZones input.toDelegatedChildKeys.zones input.targetRrset then
        verifier.validateChildPositiveRrset input
      else otherwise input }

section

variable {σ : Type} {env : Environment σ} {verifier : DelegatedDnssecVerifier σ}
  {otherwise : DelegatedChildDnssecValidation → EStateM ResolverError σ Bool}

/-- A loop asks for the validation of RRsets in its zone only. -/
theorem answerLoop_congr {source : AnswerSource σ}
    {validate : DnsName → List ResourceRecord → DnsMessage → EStateM ResolverError σ Unit}
    (h : ∀ owner recordType response, owner.isSubdomainOrEqual source.zoneOwner →
      validate owner (recordsFor response.answers owner recordType) response =
        source.validateRrset owner (recordsFor response.answers owner recordType) response)
    {owner : DnsName} (howner : owner.isSubdomainOrEqual source.zoneOwner) (rounds : ℕ)
    (response : DnsMessage) (cnameRecords : List ResourceRecord) :
    answerLoop { source with validateRrset := validate } rounds response owner cnameRecords =
      answerLoop source rounds response owner cnameRecords := by
  induction rounds generalizing owner response cnameRecords with
  | zero => rfl
  | succ rounds ih =>
    rw [answerLoop, answerLoop]
    dsimp only
    have hcnames : AnswerSource.cnamesAt { source with validateRrset := validate } response owner =
        source.cnamesAt response owner := rfl
    rw [hcnames]
    by_cases hboth : recordsFor response.answers owner source.qtype ≠ [] ∧
        source.cnamesAt response owner ≠ []
    · rw [if_pos hboth, if_pos hboth]
      rfl
    rw [if_neg hboth, if_neg hboth]
    split_ifs with htarget hcname
    · rw [h _ _ _ howner]
    · rw [AnswerSource.cnamesAt_of_ne_nil hcname, h _ _ _ howner]
      refine congrArg _ (funext fun _ => congrArg _ (funext fun nextOwner => ?_))
      by_cases hzone : nextOwner.isSubdomainOrEqual source.zoneOwner
      · rw [if_neg (by simp [hzone]), if_neg (by simp [hzone]), ih hzone]
      · rw [if_pos (by simp [hzone]), if_pos (by simp [hzone])]
        rfl
    · exact congrArg _ (funext fun _ => ih howner _ _)
    · rfl
    · rfl

variable {parent : DelegatedKeys} {requestName : DnsName} {qtype : RecordType}

/-- A referral leads to chains whose names agree. -/
theorem namedZones_of_referral {response : DnsMessage} {referral : ChildReferral}
    (h : childReferral response parent.dnskeyOwner requestName = some referral)
    (dnskeyRrset dnskeyRrsigRrset records : List ResourceRecord) {owner : DnsName}
    (howner : owner.isSubdomainOrEqual referral.owner) (recordType : RecordType) :
    NamedZones (referral.keys parent dnskeyRrset dnskeyRrsigRrset).zones
      (recordsFor records owner recordType) where
  ds := by
    obtain ⟨-, -, hds⟩ := childReferral_eq_some h
    intro zone hzone record hrecord
    obtain rfl : zone = _ := List.mem_singleton.1 hzone
    have hmem : record ∈ referral.dsRrset := hrecord
    rw [hds] at hmem
    exact (mem_recordsFor.1 hmem).2.1
  below := List.isChain_pair.2 (childReferral_eq_some h).1
  target := by
    intro zone hzone record hrecord
    obtain rfl : _ = zone := Option.some.inj hzone
    rw [(mem_recordsFor.1 hrecord).2.1]
    exact howner

theorem resolveSecureChildFromServer_onlyNamed {response : DnsMessage} {referral : ChildReferral}
    (h : childReferral response parent.dnskeyOwner requestName = some referral)
    (server : SocketAddr) :
    resolveSecureChildFromServer env (verifier.onlyNamed otherwise) parent referral requestName
        qtype server =
      resolveSecureChildFromServer env verifier parent referral requestName qtype server := by
  have hloop (dnskeyRrset dnskeyRrsigRrset : List ResourceRecord) (target : DnsMessage) :
      resolveSecureChildAnswerRecords env (verifier.onlyNamed otherwise) server
          (referral.keys parent dnskeyRrset dnskeyRrsigRrset) requestName qtype target =
        resolveSecureChildAnswerRecords env verifier server
          (referral.keys parent dnskeyRrset dnskeyRrsigRrset) requestName qtype target := by
    refine @answerLoop_congr _ (childAnswerSource env verifier server
      (referral.keys parent dnskeyRrset dnskeyRrsigRrset) requestName qtype)
      (validateSecureChildRrset (verifier.onlyNamed otherwise)
        (referral.keys parent dnskeyRrset dnskeyRrsigRrset)) ?_ _ (childReferral_eq_some h).2.1 _ _ _
    intro owner recordType response' howner
    simp only [childAnswerSource, validateSecureChildRrset]
    refine congrArg (fun validate => validateAnswered validate owner response') (funext fun _ => ?_)
    exact if_pos (namedZones_of_referral h _ _ _ howner recordType)
  simp only [resolveSecureChildFromServer, hloop]

theorem resolveSecureFromServer_onlyNamed (server : SocketAddr) (response : DnsMessage) :
    resolveSecureFromServer env (verifier.onlyNamed otherwise) parent requestName qtype server
        response =
      resolveSecureFromServer env verifier parent requestName qtype server response := by
  rw [resolveSecureFromServer, resolveSecureFromServer]
  cases hreferral : childReferral response parent.dnskeyOwner requestName with
  | none => rfl
  | some referral =>
    have hchild : resolveSecureChildFromServer env (verifier.onlyNamed otherwise) parent referral
        requestName qtype =
        resolveSecureChildFromServer env verifier parent referral requestName qtype :=
      funext (resolveSecureChildFromServer_onlyNamed hreferral)
    simp only [resolveSecureChildReferral, hchild]
    rfl

/-- The resolver validates no chain whose names do not agree: another check of these makes no
    difference. -/
theorem resolveDelegated_eq_onlyNamed (request : ResolutionRequest) (delegation : HnsDelegation) :
    resolveDelegated env (verifier.onlyNamed otherwise) request delegation =
      resolveDelegated env verifier request delegation := by
  have hserver (requestName : DnsName) (qtype : RecordType) (dsRrset : List ResourceRecord) :
      resolveDelegatedFromServer env (verifier.onlyNamed otherwise) delegation requestName qtype
          dsRrset =
        resolveDelegatedFromServer env verifier delegation requestName qtype dsRrset := by
    funext server
    simp only [resolveDelegatedFromServer, resolveSecureFromServer_onlyNamed]
  simp only [resolveDelegated, hserver]

end

/-- The names of every chain that the resolver validates agree, and with names that agree, the DS
    records of a child are those that an honest parent has signed for its name, or for a wildcard
    that stands for it. -/
theorem namedZones_of_resolver [Sha2] [DnssecCrypto] :
    (∀ (σ : Type) (env : Environment σ) (verifier : DelegatedDnssecVerifier σ)
      (otherwise : DelegatedChildDnssecValidation → EStateM ResolverError σ Bool)
      (request : ResolutionRequest) (delegation : HnsDelegation),
      resolveDelegated env (verifier.onlyNamed otherwise) request delegation =
        resolveDelegated env verifier request delegation) ∧
    ∀ input : DnssecChainValidationInput, NamedZones input.zones input.targetRrset →
      validateDnssecChain input = .ok .secure →
      ∀ (zone next : ChainZone) (signed : SignedZone), [zone, next] <:+: input.zones →
        signed.HonestKeys zone.dnskeyRrset →
        zone.owner = signed.apex ∧ next.owner.isStrictSubdomain zone.owner ∧
          ∃ published, signed.Publishes published ∧ published.typeCode = RecordType.ds.code ∧
            Expands next.owner published.name ∧ SignedZone.Replays next.dsRrset published :=
  ⟨fun _ _ _ _ => resolveDelegated_eq_onlyNamed,
    fun _ hnamed hsecure _ _ _ hsplit hkeys =>
      DnssecChainValidationInput.exists_published_of_link hnamed hsecure hsplit hkeys⟩

/-! ## DS records of another name -/

namespace LinkSample

open NsecSample (apex child site)

/-- The key of the child. -/
def childKey : List UInt8 :=
  Octet.toBE 32 0x8139770ea87d175f56a35466c34c7ecccb8d8a91b4ee37a25df60f5b8fc9b394

def apexDigest : Hash :=
  ⟨Octet.toBE 32 0x27b27ef82809e692f25646eb4ee19766a10737aa2910c994ac6c3a3d1ecda36a, by simp⟩

def childDigest : Hash :=
  ⟨Octet.toBE 32 0x7429664a24edd0c484e6b4d47f99c70f65a7405299835b5f8390f48ea166a63d, by simp⟩

/-- The digest of the same key under the name of the site. -/
def siteDigest : Hash :=
  ⟨Octet.toBE 32 0x930b0f1fd15d0f5fb8f24ef0988d8478306114612cded9682ccc46aa517a6a65, by simp⟩

def dsRdata (digest : Hash) : List UInt8 := [0x9c, 0xb7, 15, dsDigestSha256] ++ digest.bytes

/-- The DS records of the child, as the child has asked for them. -/
def childDs : ZoneRrset := ⟨child, 43, [dsRdata childDigest, dsRdata siteDigest]⟩

def zone : SignedZone where
  apex := apex
  rrsets := [NsecSample.soa, NsecSample.ns, NsecSample.dnskey, NsecSample.childNs, childDs]
  below := by decide
  types := by decide
  soa := by decide
  cname := by decide
  nsecs := []
  nsec3s := []

def table : SignatureTable where
  apex := apex
  publicKey := NsecSample.publicKey
  signatures := [
    (NsecSample.soa,
      Octet.toBE 32 0xa5712e37f67ddaec29363c51cf76ac7afa7d848ba175af5b4e14d6f4b69352c4 ++
      Octet.toBE 32 0x7bc030f4a1660dde28bc3b902adce99287f8034aa11c9386f96a27177bbf9508),
    (NsecSample.ns,
      Octet.toBE 32 0xc53ca1063aa7b5fc8530cac1d9d10373b75f7514766d49c28b60526cb1a10969 ++
      Octet.toBE 32 0xb54fa6c2aa1a8d0303f7ee6d684016b906e7d4b9a26abb41c536a2513106d207),
    (NsecSample.dnskey,
      Octet.toBE 32 0x9a39cd7be90c02faec39e4d65084c610aa9c5b6245d95e48460cb52b3d58bd9e ++
      Octet.toBE 32 0xadd3ce991d64904b3089b09768ae8249d0d138d2330c3e610caca9bce88bcb06),
    (childDs,
      Octet.toBE 32 0x923cc4fb0533f5d2bfb669b6e653d4bb36143cf659ee0b23c96537fb9b0ec1d4 ++
      Octet.toBE 32 0x306d7b50daf879734960afcdfe6372f089867237d5582a749194466ce5c4b902)]

/-- The DNSKEY RRset of a zone with the key of the child, and its address. -/
def ofChildKey (apex : DnsName) (dnskeySignature addressSignature : List UInt8) : SignatureTable where
  apex := apex
  publicKey := childKey
  signatures := [(⟨apex, 48, [[1, 1, 3, 15] ++ childKey]⟩, dnskeySignature),
    (⟨apex, 1, [[192, 0, 2, 9]]⟩, addressSignature)]

def childTable : SignatureTable := ofChildKey child
  (Octet.toBE 32 0x937b4561989c40b1175124860d5ce22d5a9cc5a1707de89f3606efdae7dfd391 ++
    Octet.toBE 32 0xf34f775f8781e4148aa02f90e57cd35c087bfe155192d88bbd087e2bcd77a70b)
  (Octet.toBE 32 0x682275c75f34ce9b1ff722a138d07cfd60575c2a54f56484f6344095f500ac02 ++
    Octet.toBE 32 0x6502321decd3ea4612cb750679b461ba5981984c345b41f6f74ce9f1adbb5604)

/-- What the child has signed as if it were the site. -/
def siteTable : SignatureTable := ofChildKey site
  (Octet.toBE 32 0x1275987b372fe3d357ec061bebb96c28cd89733960662441ab8973a2715a2a1f ++
    Octet.toBE 32 0x578ec10d58861ade06fd9000151b6c38949abe44ed5cc26de4659be2f85f7a05)
  (Octet.toBE 32 0x5d86b8bf91264e99a839ae1e4d593a984e6c25b956d976d6413f382ea9bb7bf5 ++
    Octet.toBE 32 0x864e2c4d45c0bba31d41d894fb879cb90acb0a3a0b6d37d9b98f368967874d08)

scoped instance : Sha2 where
  sha256 data :=
    if data = wire apex.labels ++ table.keyRdata then apexDigest
    else if data = wire child.labels ++ childTable.keyRdata then childDigest
    else if data = wire site.labels ++ childTable.keyRdata then siteDigest
    else .zero
  sha384 _ := .zero
  sha512 _ := .zero

/-- The signatures of all three tables. -/
scoped instance : DnssecCrypto :=
  { table.crypto fun _ => .zero with
    ed25519Verify := fun key data signature =>
      [table, childTable, siteTable].any fun t => key = t.publicKey ∧ t.signatures.any fun entry =>
        data = t.text entry.1 ∧ signature = entry.2 }

/-- A chain from the zone to the key of the child under the name of `t`. -/
def chain (t : SignatureTable) : DnssecChainValidationInput where
  initialDnskeyOwner := apex
  initialDsRrset := [table.dsRecord apexDigest]
  initialDnskeyRrset := [table.dnskeyRecord]
  initialDnskeyRrsigRrset := [table.rrsigRecord NsecSample.dnskey apex]
  delegationLinks := [{
    childDnskeyOwner := t.apex
    dsRrset := childDs.rdatas.map fun rdata => ⟨child, .ds, classIn, 3600, rdata⟩
    dsRrsigRrset := [table.rrsigRecord childDs child]
    childDnskeyRrset := [t.dnskeyRecord]
    childDnskeyRrsigRrset := [t.rrsigRecord ⟨t.apex, 48, [t.keyRdata]⟩ t.apex] }]
  targetRrset := [⟨t.apex, .a, classIn, 3600, [192, 0, 2, 9]⟩]
  targetRrsigRrset := [t.rrsigRecord ⟨t.apex, 1, [[192, 0, 2, 9]]⟩ t.apex]
  now := 1500

theorem fits : table.Fits zone [table.dnskeyRecord] where
  apex := rfl
  publicKey := by decide
  dnskeys := by decide
  published := by decide
  complete := by decide
  length_le := by decide
  labels := by decide
  parse := by decide

/-- The other tables are not those of the key of the zone. -/
theorem honestKeys : zone.HonestKeys [table.dnskeyRecord] := by
  intro dnskey hkey data signature hverifies
  obtain ⟨dnskeys, hkeys, hmem⟩ := id hkey
  rw [fits.dnskeys] at hkeys
  cases hkeys
  obtain rfl := List.mem_singleton.1 hmem
  have hne : table.publicKey ≠ childKey := by decide
  obtain ⟨hkey', hlen, hed⟩ := table.verifies_dnskey.1 hverifies
  refine @SignatureTable.Fits.honestKeys _ _ _ (fun _ => .zero) fits _ hkey data signature ?_
  refine (@SignatureTable.verifies_dnskey table (table.crypto fun _ => .zero) _ _).2 ⟨hkey', hlen, ?_⟩
  simpa [DnssecCrypto.ed25519Verify, childTable, siteTable, ofChildKey, hne] using hed

/-- The DS records of the child, for the child. -/
theorem exists_published_of_chain :
    (NamedZones (chain childTable).zones (chain childTable).targetRrset ∧
      validateDnssecChain (chain childTable) = .ok .secure ∧
      zone.HonestKeys (chain childTable).initialZone.dnskeyRrset) ∧
    ∃ published, zone.Publishes published ∧ published.typeCode = RecordType.ds.code ∧
      Expands child published.name := by
  have hnamed : NamedZones (chain childTable).zones (chain childTable).targetRrset := by
    decide
  have hsecure : validateDnssecChain (chain childTable) = .ok .secure := by decide
  obtain ⟨-, -, published, hpub, hcode, hexpands, -⟩ := namedZones_of_resolver.2 (chain childTable)
    hnamed hsecure _ _ zone List.infix_rfl honestKeys
  exact ⟨⟨hnamed, hsecure, honestKeys⟩, published, hpub, hcode, hexpands⟩

/-- The DS records of the child make its key that of the site. -/
theorem exists_secure_foreign_ds :
    validateDnssecChain (chain siteTable) = .ok .secure ∧
      ∃ link ∈ (chain siteTable).delegationLinks, ∃ record ∈ link.dsRrset,
        record.recordType = .ds ∧ record.name ≠ link.childDnskeyOwner := by
  decide

end LinkSample

end Hns
