import Hns.Resolver.Chained
import Hns.Resolver.NoData

/-!
# Chains that end in nothing

A CNAME chain may end at a name that does not exist. The answer loop follows the
chain and asks for a proof at its end, and so its answers begin with the records
of the chain (`resolveSecureAnswerRecords_secure`). A server may also send the
chain together with the proof, as a name error. `resolve_delegated_from_server`
takes such a response for an error about the name that it has asked for, and has
no record in its answer, if it has one (`resolveDelegatedFromServer_ne`).
-/

namespace Hns

variable {σ τ : Type}

/-- What the answer loop has gathered stands at the front of its answer, which is secure. -/
theorem answerLoop_secure {env : Environment σ} {verifier : DelegatedDnssecVerifier σ}
    {server : SocketAddr} {keys : DelegatedKeys} {requestName : DnsName} {qtype : RecordType}
    {rounds : ℕ} {response : DnsMessage} {owner : DnsName} {cnameRecords : List ResourceRecord}
    {s s' : σ} {answer : ResolutionAnswer}
    (h : answerLoop (answerSource env verifier server keys requestName qtype) rounds response owner
      cnameRecords s = .ok answer s') :
    answer.secure ∧ cnameRecords <+: answer.records := by
  induction rounds generalizing response owner cnameRecords s with
  | zero => cases h
  | succ rounds ih =>
    obtain ⟨-, rfl⟩ | ⟨nextOwner, s₁, -, -, -, -, h⟩ | ⟨next, s₁, -, -, h⟩ | ⟨-, h⟩ | ⟨-, h⟩ :=
      answerLoop_succ_cases h
    · exact ⟨rfl, List.prefix_append _ _⟩
    · obtain ⟨hsecure, hprefix⟩ := ih h
      exact ⟨hsecure, (List.prefix_append _ _).trans hprefix⟩
    · exact ih h
    · rw [resolveSecureNameError_answer h]
      exact ⟨rfl, List.prefix_refl _⟩
    · obtain ⟨-, -, rfl⟩ := resolveSecureNoData_eq_ok.1 h
      exact ⟨rfl, List.prefix_refl _⟩

/-- An answer that is reached from a response with a CNAME record is secure, and has a record. -/
theorem resolveSecureAnswerRecords_secure {env : Environment σ}
    {verifier : DelegatedDnssecVerifier σ} {server : SocketAddr} {keys : DelegatedKeys}
    {requestName : DnsName} {qtype : RecordType} {response : DnsMessage} {s s' : σ}
    {answer : ResolutionAnswer} (hcname : recordsFor response.answers requestName .cname ≠ [])
    (h : resolveSecureAnswerRecords env verifier server keys requestName qtype response s =
      .ok answer s') : answer.secure ∧ answer.records ≠ [] := by
  have hsecure := (answerLoop_secure h).1
  -- The CNAME records are what is asked for, or they are followed.
  have hfound : ¬recordsFor response.answers requestName qtype ≠ [] →
      (answerSource env verifier server keys requestName qtype).cnamesAt response requestName ≠
        [] := by
    intro htarget
    rw [AnswerSource.cnamesAt, answerSource]
    dsimp only
    rw [if_neg]
    · exact hcname
    · rintro rfl
      exact htarget hcname
  refine ⟨hsecure, ?_⟩
  rw [resolveSecureAnswerRecords, answerLoop] at h
  obtain ⟨-, h⟩ := EStateM.throw_unless.1 h
  split_ifs at h with htarget hcnames
  · obtain ⟨⟨⟩, s₁, -, h⟩ := EStateM.run_bind_eq_ok.1 h
    cases h
    exact htarget
  · obtain ⟨⟨⟩, s₁, -, h⟩ := EStateM.run_bind_eq_ok.1 h
    obtain ⟨nextOwner, -, h⟩ := EStateM.checked_bind_eq_ok.1 h
    obtain ⟨-, h⟩ := EStateM.throw_unless.1 h
    obtain ⟨-, hprefix⟩ := answerLoop_secure h
    rw [List.nil_append] at hprefix
    exact fun hnil => hcnames (List.prefix_nil.1 (hnil ▸ hprefix))
  all_goals exact absurd (hfound htarget) hcnames

/-- A secure answer that is taken from a name error has no record. -/
theorem resolveDelegatedFromServer_nxdomain {env : Environment σ}
    {verifier : DelegatedDnssecVerifier σ} {delegation : HnsDelegation} {requestName : DnsName}
    {qtype : RecordType} {dsRrset : List ResourceRecord} {server : SocketAddr}
    {response : DnsMessage} {s s₁ s' : σ} {answer : ResolutionAnswer}
    (hquery : env.dnsQuery server requestName qtype s = .ok response s₁)
    (hrcode : response.header.flags.rcode = dnsRcodeNxdomain)
    (h : resolveDelegatedFromServer env verifier delegation requestName qtype dsRrset server s =
      .ok answer s') (hsecure : answer.secure) : answer.records = [] := by
  rw [resolveDelegatedFromServer, EStateM.bind_ok hquery] at h
  split_ifs at h with hds
  · cases h
    cases hsecure
  · obtain ⟨dnskeyResponse, s₂, -, h⟩ := EStateM.run_bind_eq_ok.1 h
    rw [resolveSecureFromServer] at h
    dsimp only at h
    rw [if_pos hrcode] at h
    exact resolveSecureNameError_records h

/-- **A chain that ends in nothing is not answered alike**: a secure answer that is taken from a
    name error has no record, so that it is never what is reached by following a chain. -/
theorem resolveDelegatedFromServer_ne {env : Environment σ} {verifier : DelegatedDnssecVerifier σ}
    {delegation : HnsDelegation} {requestName : DnsName} {qtype : RecordType}
    {dsRrset : List ResourceRecord} {server : SocketAddr} {response : DnsMessage} {s s₁ : σ}
    (hquery : env.dnsQuery server requestName qtype s = .ok response s₁)
    (hrcode : response.header.flags.rcode = dnsRcodeNxdomain) :
    (∀ answer s', resolveDelegatedFromServer env verifier delegation requestName qtype dsRrset
        server s = .ok answer s' → answer.secure → answer.records = []) ∧
      ∀ (env' : Environment τ) verifier' server' keys initial t answer t',
        recordsFor initial.answers requestName .cname ≠ [] →
        resolveSecureAnswerRecords env' verifier' server' keys requestName qtype initial t =
          .ok answer t' →
        ∀ s', resolveDelegatedFromServer env verifier delegation requestName qtype dsRrset server s ≠
          .ok answer s' := by
  have hempty := fun answer s' => @resolveDelegatedFromServer_nxdomain σ env verifier delegation
    requestName qtype dsRrset server response s s₁ s' answer hquery hrcode
  refine ⟨hempty, ?_⟩
  intro env' verifier' server' keys initial t answer t' hcname hfollowed s' h
  obtain ⟨hsecure, hrecords⟩ := resolveSecureAnswerRecords_secure hcname hfollowed
  exact hrecords (hempty answer s' h hsecure)

/-! ## A chain and its end -/

namespace ChainEndSample

open NsecSample (apex site soa ns dnskey low publicKey z)
open NameErrorSample (b nsecApex star)
open NoDataSample (server)
open WildcardSample (digest)

/-- The only name of the zone below its apex, which leads to a name before it. -/
def aliased : DnsName := NameErrorSample.only

def a : DnsLabel := .letter 0

def target : DnsName := ⟨[a, z], by decide⟩

def cname : ZoneRrset := ⟨aliased, 5, [DnsName.wire target.labels]⟩

def nsecAliased : NsecEntry := ⟨aliased, apex, low [4, 0, 0, 0, 0, 3] (by decide)⟩

def zone : SignedZone where
  apex := apex
  rrsets := [soa, ns, dnskey, cname]
  below := by decide +kernel
  types := by decide +kernel
  soa := by decide +kernel
  cname := by decide +kernel
  nsecs := [nsecApex, nsecAliased]
  nsec3s := []

def table : SignatureTable where
  apex := apex
  publicKey := publicKey
  signatures := [
    (soa, Octet.toBE 32 0xa5712e37f67ddaec29363c51cf76ac7afa7d848ba175af5b4e14d6f4b69352c4 ++
      Octet.toBE 32 0x7bc030f4a1660dde28bc3b902adce99287f8034aa11c9386f96a27177bbf9508),
    (ns, Octet.toBE 32 0xc53ca1063aa7b5fc8530cac1d9d10373b75f7514766d49c28b60526cb1a10969 ++
      Octet.toBE 32 0xb54fa6c2aa1a8d0303f7ee6d684016b906e7d4b9a26abb41c536a2513106d207),
    (dnskey, Octet.toBE 32 0x9a39cd7be90c02faec39e4d65084c610aa9c5b6245d95e48460cb52b3d58bd9e ++
      Octet.toBE 32 0xadd3ce991d64904b3089b09768ae8249d0d138d2330c3e610caca9bce88bcb06),
    (cname, Octet.toBE 32 0x16da4ce1c8b80a13f87ecbc62dd4f48c6c3400cbe04fa67a99c6ab2d56cf717d ++
      Octet.toBE 32 0xcbc736506332bd7a925377296b1646bd5490056e64d35aaa2dbb5278a56d8f04),
    (nsecApex.rrset,
      Octet.toBE 32 0x2f388ddb6b627682cc3a9bd51c51935b23c63d3638808831ab85d145fe7a8faa ++
      Octet.toBE 32 0x81981b8e976cfae2c2446f20db5f798268f95f3b92f883f45f5782734e321201),
    (nsecAliased.rrset,
      Octet.toBE 32 0x6f08e369723b9d2167c37d0c7568c9096e53e21885838724741b209e152cc617 ++
      Octet.toBE 32 0xd1ed8aacca370e98cce9bd2f4e3e83067858f75da1c5093ba5f1fd3565cde60d)]

scoped instance : DnssecCrypto := table.crypto fun _ => .zero

scoped instance : Sha2 := table.sha2 digest

theorem fits : table.Fits zone [table.dnskeyRecord] where
  apex := rfl
  publicKey := by decide +kernel
  dnskeys := by decide +kernel
  published := by decide +kernel
  complete := by decide +kernel
  length_le := by decide +kernel
  labels := by decide +kernel
  parse := by decide +kernel

theorem nsecChain : NsecChain zone := by
  apply NsecChain.of_forall <;> decide +kernel

/-- One record is before the name and before the wildcard, both of which do not exist. -/
theorem denied_target :
    (recordNameRdata cname.record = some target ∧ zone.NameErrorBelow target apex) ∧
      (apex < target ∧ target < aliased) ∧ (apex < star ∧ star < aliased) ∧
      ∀ rrset ∈ [soa, nsecApex.rrset], rrset ∈ zone.published ∧
        rrset.rdatas = [rrset.record.rdata] ∧
          canonicalRdata rrset.record = .ok rrset.record.rdata ∧
            rrset.record.rdata.length ≤ 65535 := by
  decide +kernel

theorem cnameChain : CnameChain aliased [cname.record] target :=
  @CnameChain.cons cname.record [] target target rfl denied_target.1.1 (.nil target)

def proof : NameErrorProof := .nsec nsecApex nsecApex

theorem proves_target : proof.Proves zone target apex := by
  obtain ⟨-, ⟨hname, hname'⟩, ⟨hwildcard, hwildcard'⟩, -⟩ := denied_target
  have hstar : star.IsWildcardOf apex := rfl
  have hmem : nsecApex ∈ zone.nsecs := by simp [zone]
  exact .nsec hmem hmem ⟨hname, .inl hname'⟩ hstar ⟨hwildcard, .inl hwildcard'⟩

/-- The chain and the name error, together and one after the other. -/
def chained : DnsMessage :=
  .ofSections 3 aliased .a (table.signedRecords [cname])
    (table.signedRecords [soa, nsecApex.rrset])

def followed : DnsMessage := .ofSections 0 aliased .a (table.signedRecords [cname]) []

def ended : DnsMessage :=
  .ofSections 3 target .a [] (table.signedRecords [soa, nsecApex.rrset])

def env : Environment Unit := .answering [table.dnskeyResponse, chained] 1500

def env' : Environment Unit := .answering [table.dnskeyResponse, followed, ended] 1500

/-- How the zone is asked, in both networks. -/
def resolve (env : Environment Unit) : EStateM.Result ResolverError Unit ResolutionAnswer :=
  resolveDelegatedFromServer env (systemDnssecVerifier env) (table.delegation digest site) aliased .a
    [table.dsRecord digest] server ()

/-- The networks are asked: the chain is followed to its end in the second one only. -/
theorem evaluated :
    (table.keys digest).status 1500 = .ok .secure ∧
      (env.dnsQuery server aliased .a () = .ok chained () ∧
        recordsFor followed.answers aliased .cname ≠ [] ∧
        resolveSecureAnswerRecords env' (systemDnssecVerifier env') server (table.keys digest)
          aliased .a followed () = .ok ⟨target, [cname.record], true⟩ ()) ∧
      resolve env' = .ok ⟨target, [cname.record], true⟩ () ∧
      resolve env = .error .dnssecFailed () := by
  decide +kernel

theorem denialResponse : DenialResponse zone [table.dnskeyRecord] {now | env'.Shows now} proof.rrsets
    ended := by
  obtain ⟨-, -, -, hpub⟩ := denied_target
  refine ⟨rfl, soa, rfl, rfl, ?_⟩
  refine fits.signedSection (fun rrset h => (hpub rrset h).1) (fun rrset h => (hpub rrset h).2) ?_
  rintro now ⟨s, s', hnow⟩
  cases hnow
  decide

/-- The answer to the chain alone is not one to the chain with the name error. -/
theorem resolve_ne : resolve env ≠ .ok ⟨target, [cname.record], true⟩ () := by
  obtain ⟨-, ⟨hquery, hcname, hfollowed⟩, -⟩ := evaluated
  exact (resolveDelegatedFromServer_ne hquery (by decide)).2 env' (systemDnssecVerifier env') server
    (table.keys digest) followed () _ () hcname hfollowed ()

/-- The zone is honest, and the name error is an answer only after the chain. -/
theorem exists_chained_rejected :
    Serves env (table.keys digest) zone ∧ NsecChain zone ∧ CnameChain aliased [cname.record] target ∧
      zone.NameErrorBelow target apex ∧ proof.Proves zone target apex ∧
      DenialResponse zone [table.dnskeyRecord] {now | env'.Shows now} proof.rrsets ended ∧
      chained.answers = followed.answers ∧ chained.authorities = ended.authorities ∧
      chained.header.flags.rcode = dnsRcodeNxdomain ∧
      resolve env' = .ok ⟨target, [cname.record], true⟩ () ∧
      resolve env = .error .dnssecFailed () := by
  obtain ⟨hstatus, -, hended, hrejected⟩ := evaluated
  exact ⟨fits.serves hstatus, nsecChain, cnameChain, denied_target.1.2, proves_target,
    denialResponse, rfl, rfl, by decide, hended, hrejected⟩

end ChainEndSample

end Hns
