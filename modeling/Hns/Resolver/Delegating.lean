import Hns.Resolver.Chained
import Hns.Resolver.Roots
import Hns.Resolver.Wildcard

/-!
# The delegating resolver

How the `DelegatingResolver` of `hns-resolver` answers a request: from the
records that are proven for the root of the name, or else from the servers that
those records delegate to. The addresses of the servers may come from other
proven names. A secure answer is taken from a matching secure proof, or has been
validated under DS records of such a proof (`validated_of_secure`).
-/

namespace Hns

open EStateM (checked attempt)
open DnsName (fromAscii)

structure ProvenNameRecords where
  rootName : List Char
  nameHash : NameHash
  records : List ResourceRecord
  secure : Bool
  nameExists : Bool

abbrev HnsProofProvider (σ : Type) :=
  List Char → NameHash → EStateM ResolverError σ ProvenNameRecords

/-- Whether the proof is a secure one for the name. -/
def ProvenNameRecords.isFor (proven : ProvenNameRecords) (rootName : List Char)
    (nameHash : NameHash) : Bool :=
  proven.rootName = rootName ∧ proven.nameHash = nameHash ∧ proven.secure

/-! ## Selections -/

def filterRecords (records : List ResourceRecord) (requestName : DnsName) (qtype : UInt16) :
    List ResourceRecord :=
  if qtype = 65535 then records else recordsFor records requestName (.fromCode qtype)

def rootRecordsAnswerRequest (requestName rootOwner : DnsName) (qtype : UInt16) : Bool :=
  requestName = rootOwner ∧
    (qtype = 65535 ∨ RecordType.fromCode qtype ∈ [RecordType.ds, .ns, .txt])

def hasOwnerRecord (records : List ResourceRecord) (owner : DnsName) (recordType : RecordType) :
    Bool :=
  records.any fun record => record.name = owner ∧ record.recordType = recordType

theorem hasOwnerRecord_iff {records : List ResourceRecord} {owner : DnsName}
    {recordType : RecordType} :
    hasOwnerRecord records owner recordType = true ↔ recordsFor records owner recordType ≠ [] := by
  rw [hasOwnerRecord, List.any_eq_true, recordsFor, Ne, List.filter_eq_nil_iff]
  push Not
  rfl

/-! ## Addresses of name servers -/

section

variable {σ : Type} [Digests] (provider : HnsProofProvider σ)

/-- A round of the loop of `hydrate_hns_nameserver_addresses`: the addresses that are proven for a
    server, if the records have none. -/
def hydrateNameserver (records : List ResourceRecord) (nsName : DnsName) :
    EStateM ResolverError σ (List ResourceRecord) :=
  if hasOwnerRecord records nsName .a ∨ hasOwnerRecord records nsName .aaaa then return records
  else match nsName.labels.getLast? with
  | none => return records
  | some nsRoot =>
    match NameHash.fromName nsRoot.text with
    | .error _ => return records
    | .ok nameHash => do
      match ← attempt (provider nsRoot.text nameHash) with
      | .error .proofUnavailable => return records
      | .error error => throw error
      | .ok proven =>
        if !proven.isFor nsRoot.text nameHash then throw .proofNameMismatch
        if !proven.nameExists then return records
        return records ++ proven.records.filter fun record =>
          record.name = nsName ∧ (record.recordType = .a ∨ record.recordType = .aaaa)

def hydrateHnsNameserverAddresses (delegationOwner : DnsName) (records : List ResourceRecord) :
    EStateM ResolverError σ (List ResourceRecord) :=
  (firstOccurrences ((recordsFor records delegationOwner .ns).filterMap recordNameRdata)).foldlM
    (hydrateNameserver provider) records

end

/-! ## The resolver -/

structure DelegatingResolver (σ : Type) where
  proofProvider : HnsProofProvider σ
  resolveDelegated : ResolutionRequest → HnsDelegation → EStateM ResolverError σ ResolutionAnswer

namespace DelegatingResolver

variable {σ : Type} [Digests] (resolver : DelegatingResolver σ)

/-- The answer of the servers of a delegation: secure only with DS records. -/
def resolveUnder (request : ResolutionRequest) (delegation : HnsDelegation) :
    EStateM ResolverError σ ResolutionAnswer := do
  let delegated ← resolver.resolveDelegated request delegation
  if !hasOwnerRecord delegation.records delegation.owner .ds then
    return { delegated with secure := false }
  if !delegated.secure then throw .dnssecFailed
  return delegated

/-- The rest of `resolve`, with the records that are proven. -/
def resolveProven (request : ResolutionRequest) (requestName : DnsName) (rootName : List Char)
    (rootOwner : DnsName) (proven : ProvenNameRecords) :
    EStateM ResolverError σ ResolutionAnswer := do
  let directRecords := filterRecords proven.records requestName request.qtype
  if (requestName = rootOwner ∧ directRecords ≠ []) ∨
      rootRecordsAnswerRequest requestName rootOwner request.qtype ∨
      !hasOwnerRecord proven.records rootOwner .ns then
    return ⟨requestName, directRecords, true⟩
  else
    let delegationRecords ←
      hydrateHnsNameserverAddresses resolver.proofProvider rootOwner proven.records
    resolver.resolveUnder request ⟨rootName, rootOwner, delegationRecords⟩

def resolve (request : ResolutionRequest) : EStateM ResolverError σ ResolutionAnswer := do
  let requestName ← checked ((fromAscii request.qname).mapError fun _ => .unsupportedBackend)
  let rootName ← checked (hnsRootLabel request.qname)
  let rootOwner ← checked ((fromAscii rootName).mapError fun _ => .unsupportedBackend)
  let nameHash ← checked ((NameHash.fromName rootName).mapError .invalidName)
  let proven ← resolver.proofProvider rootName nameHash
  if !proven.isFor rootName nameHash then throw .proofNameMismatch
  if !proven.nameExists then throw .nameNotFound
  resolver.resolveProven request requestName rootName rootOwner proven

end DelegatingResolver

/-! ## Secure answers -/

section

variable {σ : Type} [Digests] {provider : HnsProofProvider σ}

/-- A round adds addresses only. -/
theorem hydrateNameserver_recordsFor {records records' : List ResourceRecord} {nsName : DnsName}
    {s s' : σ} (h : hydrateNameserver provider records nsName s = .ok records' s')
    (owner : DnsName) {recordType : RecordType} (ha : recordType ≠ .a) (haaaa : recordType ≠ .aaaa) :
    recordsFor records' owner recordType = recordsFor records owner recordType := by
  rw [hydrateNameserver] at h
  split_ifs at h with hknown
  · cases h
    rfl
  · cases hroot : nsName.labels.getLast? with
    | none =>
      rw [hroot] at h
      cases h
      rfl
    | some nsRoot =>
      rw [hroot] at h
      dsimp only at h
      cases hhash : NameHash.fromName nsRoot.text with
      | error e =>
        rw [hhash] at h
        cases h
        rfl
      | ok nameHash =>
        rw [hhash] at h
        obtain ⟨outcome, s₁, -, h⟩ := EStateM.run_bind_eq_ok.1 h
        split at h
        · cases h
          rfl
        · cases h
        · next proven =>
          obtain ⟨-, h⟩ := EStateM.throw_unless.1 h
          split_ifs at h
          · cases h
            rfl
          · cases h
            -- What is added is of another type.
            have hnil : recordsFor (proven.records.filter fun record => record.name = nsName ∧
                (record.recordType = .a ∨ record.recordType = .aaaa)) owner recordType = [] := by
              refine List.filter_eq_nil_iff.2 fun record hmem hrecord => ?_
              obtain ⟨-, haddress⟩ := List.mem_filter.1 hmem
              have htype := (of_decide_eq_true hrecord).2
              obtain ⟨-, haddress | haddress⟩ := of_decide_eq_true haddress
              · exact ha (htype.symm.trans haddress)
              · exact haaaa (htype.symm.trans haddress)
            rw [recordsFor] at hnil
            rw [recordsFor, List.filter_append, hnil, List.append_nil]
            rfl

theorem hydrate_recordsFor {delegationOwner : DnsName} {records records' : List ResourceRecord}
    {s s' : σ}
    (h : hydrateHnsNameserverAddresses provider delegationOwner records s = .ok records' s')
    (owner : DnsName) {recordType : RecordType} (ha : recordType ≠ .a) (haaaa : recordType ≠ .aaaa) :
    recordsFor records' owner recordType = recordsFor records owner recordType := by
  rw [hydrateHnsNameserverAddresses] at h
  generalize firstOccurrences ((recordsFor records delegationOwner .ns).filterMap recordNameRdata) =
    nsNames at h
  induction nsNames generalizing records s with
  | nil =>
    cases h
    rfl
  | cons nsName nsNames ih =>
    rw [List.foldlM_cons] at h
    obtain ⟨next, s₁, hround, h⟩ := EStateM.run_bind_eq_ok.1 h
    rw [ih h, hydrateNameserver_recordsFor hround owner ha haaaa]

omit [Digests] in
/-- A secure answer under a delegation is that of the servers, and there are DS records. -/
theorem DelegatingResolver.resolveUnder_secure {resolver : DelegatingResolver σ}
    {request : ResolutionRequest} {delegation : HnsDelegation} {s s' : σ}
    {answer : ResolutionAnswer}
    (h : resolver.resolveUnder request delegation s = .ok answer s') (hsecure : answer.secure) :
    resolver.resolveDelegated request delegation s = .ok answer s' ∧
      recordsFor delegation.records delegation.owner .ds ≠ [] := by
  obtain ⟨delegated, s₁, hdelegated, h⟩ := EStateM.run_bind_eq_ok.1 h
  split_ifs at h with hds hinsecure
  · cases h
    cases hsecure
  · cases h
  · cases h
    exact ⟨hdelegated, hasOwnerRecord_iff.1 (by simpa using hds)⟩

/-- What a secure answer of the resolver comes from, which has gone from the one state to the other:
    a matching secure proof for the root of the name, whose records it takes or whose DS records
    another answer has been validated under. -/
structure SecureAnswer (env : Environment σ) (verifier : DelegatedDnssecVerifier σ)
    (provider : HnsProofProvider σ) (request : ResolutionRequest) (s s' : σ)
    (answer : ResolutionAnswer) where
  requestName : DnsName
  rootName : List Char
  rootOwner : DnsName
  nameHash : NameHash
  proven : ProvenNameRecords
  provenState : σ
  requestName_eq : fromAscii request.qname = .ok requestName
  rootName_eq : hnsRootLabel request.qname = .ok rootName
  rootOwner_eq : fromAscii rootName = .ok rootOwner
  nameHash_eq : NameHash.fromName rootName = .ok nameHash
  proven_eq : provider rootName nameHash s = .ok proven provenState
  isFor : proven.isFor rootName nameHash
  nameExists : proven.nameExists
  records : answer.records = filterRecords proven.records requestName request.qtype ∨
    ∃ delegation s₁, delegation.owner = rootOwner ∧
      recordsFor delegation.records rootOwner .ds = recordsFor proven.records rootOwner .ds ∧
      recordsFor proven.records rootOwner .ds ≠ [] ∧
      resolveDelegated env verifier request delegation s₁ = .ok answer s' ∧
      ValidatedUnder env verifier delegation requestName (.fromCode request.qtype) s₁ s'
        answer.records

variable {env : Environment σ} {verifier : DelegatedDnssecVerifier σ}

/-- Every secure answer under a delegation has been validated, with DS records of the delegation, and
    a secure answer of the delegating resolver is taken from a matching proof or is such an
    answer. -/
theorem validated_of_secure :
    (∀ request delegation s answer s',
      resolveDelegated env verifier request delegation s = .ok answer s' → answer.secure →
        ∃ requestName, fromAscii request.qname = .ok requestName ∧
          recordsFor delegation.records delegation.owner .ds ≠ [] ∧
          ValidatedUnder env verifier delegation requestName (.fromCode request.qtype) s s'
            answer.records) ∧
    ∀ request s answer s',
      (DelegatingResolver.mk provider (resolveDelegated env verifier)).resolve request s =
        .ok answer s' → answer.secure →
          Nonempty (SecureAnswer env verifier provider request s s' answer) := by
  refine ⟨fun request delegation s answer s' h hsecure => resolveDelegated_validated h hsecure,
    fun request s answer s' h hsecure => ?_⟩
  obtain ⟨requestName, hrequestName, h⟩ := EStateM.checked_bind_eq_ok.1 h
  obtain ⟨rootName, hrootName, h⟩ := EStateM.checked_bind_eq_ok.1 h
  obtain ⟨rootOwner, hrootOwner, h⟩ := EStateM.checked_bind_eq_ok.1 h
  obtain ⟨nameHash, hnameHash, h⟩ := EStateM.checked_bind_eq_ok.1 h
  obtain ⟨proven, s₁, hproven, h⟩ := EStateM.run_bind_eq_ok.1 h
  obtain ⟨hisFor, h⟩ := EStateM.throw_unless.1 h
  obtain ⟨hexists, h⟩ := EStateM.throw_unless.1 h
  refine ⟨⟨requestName, rootName, rootOwner, nameHash, proven, s₁, Except.mapError_eq_ok.1 hrequestName,
    hrootName, Except.mapError_eq_ok.1 hrootOwner, Except.mapError_eq_ok.1 hnameHash, hproven,
    by simpa using hisFor, by simpa using hexists, ?_⟩⟩
  rw [DelegatingResolver.resolveProven] at h
  dsimp only at h
  split_ifs at h
  · cases h
    exact .inl rfl
  · obtain ⟨delegationRecords, s₂, hhydrate, h⟩ := EStateM.run_bind_eq_ok.1 h
    obtain ⟨hdelegated, hds⟩ := DelegatingResolver.resolveUnder_secure h hsecure
    have hsame : recordsFor delegationRecords rootOwner .ds = recordsFor proven.records rootOwner .ds :=
      hydrate_recordsFor hhydrate rootOwner (by decide) (by decide)
    obtain ⟨name, hname, -, hvalidated⟩ := resolveDelegated_validated hdelegated hsecure
    obtain rfl : requestName = name := by
      rw [Except.mapError_eq_ok.1 hrequestName] at hname
      exact Except.ok.inj hname
    exact .inr ⟨_, s₂, rfl, hsame, fun hnil => hds (hsame.trans hnil), hdelegated, hvalidated⟩

end

namespace DelegatingSample

open NsecSample WildcardSample

/-- The hash of `z`. -/
scoped instance digests : Digests where
  blake2b256 _ := .zero
  blake2b512 _ := .zero
  sha3 input := if input = utf8 (Chars.of "z") then
      .ofNat 0x3b4aed1c401f71809c93e713f4b86fb6d56c5b668f4ad8b474cb8884756aac46
    else .zero

def environment : Environment Unit := .answering [table.dnskeyResponse, honest] 1500

/-- The delegation of the zone is proven. -/
def provider : HnsProofProvider Unit := fun rootName nameHash =>
  return ⟨rootName, nameHash, (table.delegation digest site).records, true, true⟩

theorem resolve_delegating :
    (DelegatingResolver.mk provider (resolveDelegated environment
      (systemDnssecVerifier environment))).resolve request () = .ok ⟨site, [own], true⟩ () := by
  decide +kernel

/-- The address of the site is a secure answer of the servers, and of the resolver in front of
    them. -/
theorem validated_site :
    (∃ requestName, fromAscii request.qname = .ok requestName ∧
      recordsFor (table.delegation digest site).records (table.delegation digest site).owner .ds ≠ [] ∧
      ValidatedUnder environment (systemDnssecVerifier environment) (table.delegation digest site)
        requestName (.fromCode request.qtype) () () [own]) ∧
    Nonempty (SecureAnswer environment (systemDnssecVerifier environment) provider request () ()
      ⟨site, [own], true⟩) :=
  have hsecure := @validated_of_secure _ _ provider environment (systemDnssecVerifier environment)
  ⟨hsecure.1 request _ () ⟨site, [own], true⟩ () resolve_honest rfl,
    hsecure.2 request () _ () resolve_delegating rfl⟩

end DelegatingSample

end Hns
