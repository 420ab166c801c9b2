import Hns.Dns.Order
import Hns.Dnssec.Chain
import Hns.Resolver.Delegated

/-!
# Secure answers

What a secure answer is made of. Every RRset of it stands in a response that the
network has delivered, and is signed under keys that go back to the DS records
of the delegation, directly or through a child zone (`TrustedKeys`,
`exists_answeredRrsets`).
-/

namespace Hns

open DnsName
open EStateM (checked attempt)

variable {σ : Type}

/-- The network delivers octets that are read as the message. -/
def Environment.Delivers (env : Environment σ) (message : DnsMessage) : Prop :=
  ∃ server query octets s s', (env.exchangeUdp server query s = .ok octets s' ∨
    env.exchangeTcp server query s = .ok octets s') ∧ DnsMessage.parse octets = .ok message

section

variable [Sha2] [DnssecCrypto]

/-- The keys that the resolver comes to from a delegation: those of the delegated zone, with the DS
    records of the delegation, and those of a child, with DS records at its name that the delegated
    zone has signed. -/
inductive TrustedKeys (delegation : HnsDelegation) (now : DnssecTime) : DelegatedKeys → Prop
  | delegated {keys : DelegatedKeys} (howner : keys.dnskeyOwner = delegation.owner)
    (hds : keys.dsRrset = recordsFor delegation.records delegation.owner .ds) :
    TrustedKeys delegation now keys
  | child {parent keys : DelegatedKeys} {dsRrsigRrset : List ResourceRecord}
    (hparent : parent.dnskeyOwner = delegation.owner)
    (hds : parent.dsRrset = recordsFor delegation.records delegation.owner .ds)
    (hstatus : parent.status now = .ok .secure)
    (hbelow : keys.dnskeyOwner.isStrictSubdomain delegation.owner)
    (howner : ∀ record ∈ keys.dsRrset, record.name = keys.dnskeyOwner ∧ record.recordType = .ds)
    (hsigned : validateRrsetSignature parent.dnskeyOwner parent.dnskeyRrset keys.dsRrset
      dsRrsigRrset now = .ok .secure) : TrustedKeys delegation now keys

/-- The keys of a zone are secure when those of its link in a chain are. -/
theorem DelegatedKeys.status_eq_secure {keys : DelegatedKeys} {now : DnssecTime} :
    keys.status now = .ok .secure ↔
      validateDelegationLink keys.dnskeyOwner keys.dsRrset keys.dnskeyRrset = .ok .secure ∧
        validateDnskeyRrset keys.dnskeyOwner keys.dnskeyRrset keys.dnskeyRrsigRrset now =
          .ok .secure := by
  rw [status, validateSignedRrset, thenIfSecure_eq_secure, thenIfSecure_eq_secure]
  refine and_congr_right fun _ => ⟨fun h => h.1, fun h => ⟨h, h⟩⟩

/-! ## RRsets -/

/-- An RRset of an answer, in the response it has been taken from. -/
structure AnsweredRrset where
  response : DnsMessage
  owner : DnsName
  recordType : RecordType

namespace AnsweredRrset

variable (item : AnsweredRrset)

def rrset : List ResourceRecord := recordsFor item.response.answers item.owner item.recordType

def rrsigRrset : List ResourceRecord := recordsFor item.response.answers item.owner .rrsig

/-- The keys are secure, and sign the RRset. -/
structure SignedUnder (keys : DelegatedKeys) (now : DnssecTime) : Prop where
  status : keys.status now = .ok .secure
  rrset : validateRrsetSignature keys.dnskeyOwner keys.dnskeyRrset item.rrset item.rrsigRrset now =
    .ok .secure

end AnsweredRrset

end

/-! ## The answer loop -/

theorem AnswerSource.cnamesAt_of_ne_nil {source : AnswerSource σ} {response : DnsMessage}
    {owner : DnsName} (h : source.cnamesAt response owner ≠ []) :
    source.cnamesAt response owner = recordsFor response.answers owner .cname := by
  rw [cnamesAt] at h ⊢
  split_ifs at h ⊢ with hqtype
  · exact absurd rfl h
  · rfl

/-- What a round does that leads to an answer. -/
theorem answerLoop_succ_cases {source : AnswerSource σ} {rounds : ℕ} {response : DnsMessage}
    {owner : DnsName} {cnameRecords : List ResourceRecord} {s s' : σ} {answer : ResolutionAnswer}
    (h : answerLoop source (rounds + 1) response owner cnameRecords s = .ok answer s') :
    (source.validateRrset owner (recordsFor response.answers owner source.qtype) response s =
        .ok () s' ∧ answer = ⟨source.requestName,
          cnameRecords ++ recordsFor response.answers owner source.qtype, true⟩) ∨
      (∃ nextOwner s₁, source.cnamesAt response owner ≠ [] ∧
        source.validateRrset owner (source.cnamesAt response owner) response s = .ok () s₁ ∧
        cnameTarget (source.cnamesAt response owner) = .ok nextOwner ∧
        nextOwner.isSubdomainOrEqual source.zoneOwner ∧
        answerLoop source rounds response nextOwner
          (cnameRecords ++ source.cnamesAt response owner) s₁ = .ok answer s') ∨
      (∃ next s₁, owner ≠ source.requestName ∧ source.query owner s = .ok next s₁ ∧
        answerLoop source rounds next owner cnameRecords s₁ = .ok answer s') ∨
      (response.header.flags.rcode = dnsRcodeNxdomain ∧
        source.nameError owner response cnameRecords s = .ok answer s') ∨
      (response.header.flags.rcode ≠ dnsRcodeNxdomain ∧
        source.noData owner response cnameRecords s = .ok answer s') := by
  rw [answerLoop] at h
  obtain ⟨-, h⟩ := EStateM.throw_unless.1 h
  split_ifs at h with htarget hcname hother hnxdomain
  · obtain ⟨⟨⟩, s₁, hvalidate, h⟩ := EStateM.run_bind_eq_ok.1 h
    cases h
    exact .inl ⟨hvalidate, rfl⟩
  · obtain ⟨⟨⟩, s₁, hvalidate, h⟩ := EStateM.run_bind_eq_ok.1 h
    obtain ⟨nextOwner, hnext, h⟩ := EStateM.checked_bind_eq_ok.1 h
    obtain ⟨hzone, hloop⟩ := EStateM.throw_unless.1 h
    exact .inr (.inl ⟨nextOwner, s₁, hcname, hvalidate, hnext, by simpa using hzone, hloop⟩)
  · obtain ⟨next, s₁, hquery, h⟩ := EStateM.run_bind_eq_ok.1 h
    exact .inr (.inr (.inl ⟨next, s₁, hother.1, hquery, h⟩))
  · exact .inr (.inr (.inr (.inl ⟨hnxdomain, h⟩)))
  · exact .inr (.inr (.inr (.inr ⟨hnxdomain, h⟩)))

theorem tryClosestEnclosers_eq_ok {validate : DnsName → EStateM ResolverError σ Bool}
    {requestName : DnsName} {prefixRecords : List ResourceRecord} {candidates : List DnsName}
    {s s' : σ} {answer : ResolutionAnswer}
    (h : tryClosestEnclosers validate requestName prefixRecords candidates s = .ok answer s') :
    answer = provenAnswer requestName prefixRecords ∧
      ∃ closestEncloser ∈ candidates, ∃ s₁, validate closestEncloser s₁ = .ok true s' := by
  induction candidates generalizing s with
  | nil => cases h
  | cons closestEncloser candidates ih =>
    rw [tryClosestEnclosers] at h
    obtain ⟨isProof, s₁, hvalidate, h⟩ := EStateM.run_bind_eq_ok.1 h
    cases isProof with
    | true =>
      cases h
      exact ⟨rfl, closestEncloser, List.mem_cons_self, s, hvalidate⟩
    | false =>
      obtain ⟨hanswer, other, hmem, hother⟩ := ih h
      exact ⟨hanswer, other, List.mem_cons_of_mem _ hmem, hother⟩

/-- Candidates are tried one after the other, up to one that the proof is for. -/
theorem exists_tryClosestEnclosers {validate : DnsName → EStateM ResolverError σ Bool}
    {requestName closestEncloser : DnsName} {prefixRecords : List ResourceRecord}
    {candidates : List DnsName}
    (htotal : ∀ candidate ∈ candidates, ∀ s, ∃ isProof s', validate candidate s = .ok isProof s')
    (hmem : closestEncloser ∈ candidates)
    (hproof : ∀ s, ∃ s', validate closestEncloser s = .ok true s') (s : σ) :
    ∃ s', tryClosestEnclosers validate requestName prefixRecords candidates s =
      .ok (provenAnswer requestName prefixRecords) s' := by
  induction candidates generalizing s with
  | nil => cases hmem
  | cons candidate candidates ih =>
    rw [List.forall_mem_cons] at htotal
    obtain ⟨isProof, s₁, hvalidate⟩ := htotal.1 s
    rw [tryClosestEnclosers, EStateM.bind_ok hvalidate]
    cases isProof with
    | true => exact ⟨s₁, rfl⟩
    | false =>
      refine ih htotal.2 ((List.mem_cons.1 hmem).resolve_left ?_) s₁
      rintro rfl
      obtain ⟨s₂, htrue⟩ := hproof s
      rw [hvalidate] at htrue
      cases htrue

section

variable {verifier : DelegatedDnssecVerifier σ} {requestName : DnsName} {qtype : RecordType}
  {response : DnsMessage} {prefixRecords : List ResourceRecord} {s s' : σ}
  {answer : ResolutionAnswer}

/-- A check whose result decides. -/
theorem unless_secure_eq_ok {α : Type} {x : EStateM ResolverError σ Bool} {a a' : α} :
    (do
      let secure ← x
      if !secure then throw .dnssecFailed
      return a : EStateM ResolverError σ α) s = .ok a' s' ↔ x s = .ok true s' ∧ a' = a := by
  rw [EStateM.run_bind_eq_ok]
  constructor
  · rintro ⟨secure, s₁, hvalidate, h⟩
    obtain ⟨hsecure, h⟩ := EStateM.throw_unless.1 h
    cases h
    obtain rfl : secure = true := by simpa using hsecure
    exact ⟨hvalidate, rfl⟩
  · rintro ⟨hvalidate, rfl⟩
    exact ⟨true, s', hvalidate, EStateM.throw_unless.2 ⟨by simp, rfl⟩⟩

theorem resolveSecureNoData_eq_ok {keys : DelegatedKeys} :
    resolveSecureNoData verifier keys requestName qtype response prefixRecords s = .ok answer s' ↔
      ¬(keys.dnskeyRrset = [] ∨ keys.dnskeyRrsigRrset = []) ∧
      verifier.validateNoData ⟨keys, noDataRecords response requestName, requestName, qtype⟩ s =
        .ok true s' ∧ answer = provenAnswer requestName prefixRecords := by
  rw [resolveSecureNoData, EStateM.throw_unless, unless_secure_eq_ok]

theorem resolveSecureChildNoData_eq_ok {keys : DelegatedChildKeys} :
    resolveSecureChildNoData verifier keys requestName qtype response prefixRecords s =
        .ok answer s' ↔
      verifier.validateChildNoData ⟨keys, noDataRecords response requestName, requestName, qtype⟩ s =
        .ok true s' ∧ answer = provenAnswer requestName prefixRecords := by
  rw [resolveSecureChildNoData, unless_secure_eq_ok]

theorem resolveSecureChildNoData_records {keys : DelegatedChildKeys}
    (h : resolveSecureChildNoData verifier keys requestName qtype response prefixRecords s =
      .ok answer s') : answer.records = prefixRecords := by
  rw [(resolveSecureChildNoData_eq_ok.1 h).2]
  rfl

theorem resolveSecureNameError_answer {keys : DelegatedKeys}
    (h : resolveSecureNameError verifier keys requestName response prefixRecords s =
      .ok answer s') : answer = provenAnswer requestName prefixRecords := by
  rw [resolveSecureNameError] at h
  obtain ⟨-, h⟩ := EStateM.throw_unless.1 h
  obtain ⟨candidates, -, h⟩ := EStateM.checked_bind_eq_ok.1 h
  exact (tryClosestEnclosers_eq_ok h).1

theorem resolveSecureNameError_records {keys : DelegatedKeys}
    (h : resolveSecureNameError verifier keys requestName response prefixRecords s =
      .ok answer s') : answer.records = prefixRecords := by
  rw [resolveSecureNameError_answer h]
  rfl

theorem resolveSecureChildNameError_answer {keys : DelegatedChildKeys}
    (h : resolveSecureChildNameError verifier keys requestName response prefixRecords s =
      .ok answer s') : answer = provenAnswer requestName prefixRecords := by
  rw [resolveSecureChildNameError] at h
  obtain ⟨-, h⟩ := EStateM.throw_unless.1 h
  obtain ⟨candidates, -, h⟩ := EStateM.checked_bind_eq_ok.1 h
  exact (tryClosestEnclosers_eq_ok h).1

theorem resolveSecureChildNameError_records {keys : DelegatedChildKeys}
    (h : resolveSecureChildNameError verifier keys requestName response prefixRecords s =
      .ok answer s') : answer.records = prefixRecords := by
  rw [resolveSecureChildNameError_answer h]
  rfl

theorem validateAnswered_eq_ok {validate : List ResourceRecord → EStateM ResolverError σ Bool}
    {owner : DnsName} (h : validateAnswered validate owner response s = .ok () s') :
    validate (recordsFor response.answers owner .rrsig) s = .ok true s' := by
  rw [validateAnswered] at h
  obtain ⟨-, h⟩ := EStateM.throw_unless.1 h
  obtain ⟨secure, s₁, hvalidate, h⟩ := EStateM.run_bind_eq_ok.1 h
  obtain ⟨hsecure, h⟩ := EStateM.throw_unless.1 h
  cases h
  obtain rfl : secure = true := by simpa using hsecure
  exact hvalidate

end

/-! ## The verifier -/

@[simp] theorem isSecure_eq_ok_true {status : Except DnssecError DnssecStatus} :
    isSecure status = .ok true ↔ status = .ok .secure := by
  rcases status with e | status <;> simp [isSecure]

theorem ifSecure_eq_ok_true {status : Except DnssecError DnssecStatus}
    {rest : Unit → Except ResolverError Bool} :
    ifSecure status rest = .ok true ↔ status = .ok .secure ∧ rest () = .ok true := by
  rw [ifSecure]
  rcases status with e | (_ | _ | _) <;> simp [isSecure, pure, Except.pure]

theorem orSecure_eq_ok_true {records : List ResourceRecord} {status : Except DnssecError DnssecStatus}
    {rest : Unit → Except ResolverError Bool} (h : orSecure records status rest = .ok true) :
    records ≠ [] ∧ status = .ok .secure ∨ rest () = .ok true := by
  rw [orSecure] at h
  split_ifs at h with hne
  · obtain ⟨secure, hsecure, h⟩ := Except.bind_eq_ok.1 h
    cases secure with
    | true => exact .inl ⟨hne, isSecure_eq_ok_true.1 hsecure⟩
    | false => exact .inr h
  · exact .inr h

@[simp] theorem orSecure_nil {status : Except DnssecError DnssecStatus}
    {rest : Unit → Except ResolverError Bool} : orSecure [] status rest = rest () := rfl

theorem orSecure_of_ok {records : List ResourceRecord} (hne : records ≠ []) {status : DnssecStatus}
    {rest : Unit → Except ResolverError Bool} :
    orSecure records (.ok status) rest = if status = .secure then .ok true else rest () := by
  rw [orSecure, if_pos hne]
  cases status <;> rfl

theorem Environment.atNow_eq_ok {env : Environment σ} {α : Type}
    {check : DnssecTime → Except ResolverError α} {s s' : σ} {a : α} :
    env.atNow check s = .ok a s' ↔ ∃ now, env.now s = .ok now s' ∧ check now = .ok a := by
  rw [atNow, EStateM.run_bind_eq_ok]
  constructor
  · rintro ⟨now, s₁, hnow, h⟩
    obtain ⟨hcheck, rfl⟩ := EStateM.checked_eq_ok.1 h
    exact ⟨now, hnow, hcheck⟩
  · rintro ⟨now, hnow, hcheck⟩
    exact ⟨now, s', hnow, EStateM.checked_ok hcheck⟩

section

variable [Sha2] [DnssecCrypto]

/-- An RRset that is signed under keys that the delegation leads to. -/
def AnsweredRrset.Trusted (delegation : HnsDelegation) (item : AnsweredRrset) : Prop :=
  ∃ keys now, TrustedKeys delegation now keys ∧ item.SignedUnder keys now

/-- The RRsets of an answer have been delivered and are signed. -/
def AnsweredRrset.Accepted (env : Environment σ) (delegation : HnsDelegation)
    (item : AnsweredRrset) : Prop :=
  env.Delivers item.response ∧ item.Trusted delegation

variable {env : Environment σ} {delegation : HnsDelegation} {requestName : DnsName}
  {qtype : RecordType} {server : SocketAddr} {response : DnsMessage} {s s' : σ}
  {answer : ResolutionAnswer}

omit [Sha2] [DnssecCrypto] in
theorem mem_of_deepestName {names : List DnsName} {name : DnsName}
    (h : deepestName names = some name) : name ∈ names := by
  induction names generalizing name with
  | nil => cases h
  | cons first names ih =>
    rw [deepestName] at h
    cases hdeepest : deepestName names with
    | none =>
      rw [hdeepest] at h
      cases h
      exact List.mem_cons_self
    | some other =>
      rw [hdeepest] at h
      dsimp only at h
      split_ifs at h
      · cases h
        exact List.mem_cons_self
      · cases h
        exact List.mem_cons_of_mem _ (ih hdeepest)

omit [Sha2] [DnssecCrypto] in
theorem mem_recordsFor {records : List ResourceRecord} {owner : DnsName} {recordType : RecordType}
    {record : ResourceRecord} : record ∈ recordsFor records owner recordType ↔
      record ∈ records ∧ record.name = owner ∧ record.recordType = recordType := by
  rw [recordsFor, List.mem_filter, decide_eq_true_eq]

omit [Sha2] [DnssecCrypto] in
/-- A referral leads to a zone between the delegated one and the request. -/
theorem childReferral_eq_some {parentOwner : DnsName} {referral : ChildReferral}
    (h : childReferral response parentOwner requestName = some referral) :
    referral.owner.isStrictSubdomain parentOwner ∧ requestName.isSubdomainOrEqual referral.owner ∧
      referral.dsRrset = recordsFor response.authorities referral.owner .ds := by
  obtain ⟨owner, howner, h⟩ := Option.bind_eq_some_iff.1 h
  dsimp only at h
  split_ifs at h
  cases h
  obtain ⟨-, hfilter⟩ := List.mem_filter.1 (mem_of_deepestName howner)
  obtain ⟨hne, hbelow, hrequest⟩ := of_decide_eq_true hfilter
  exact ⟨isStrictSubdomain_iff_ne.2 ⟨hbelow, hne⟩, hrequest, rfl⟩

end

end Hns
