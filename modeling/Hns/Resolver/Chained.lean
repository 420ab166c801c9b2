import Hns.Resolver.Answers
import Mathlib.Logic.Relation

/-!
# Validated answers

A secure answer of the resolver is a CNAME chain from the name of the request,
and at its end the records that are asked for, or none (`ChainedAnswer`). One
zone serves all of it, the delegated one or a child of it, the chain does not
leave that zone, and a call of the verifier that was made on the way has accepted
each RRset (`ValidatedAnswer`, `resolveDelegated_validated`). The verifier and
the network can be any.
-/

namespace Hns

open EStateM (checked attempt Evolves Ran)

/-! ## Chains -/

/-- CNAME records that lead from the one name to the other, each one from where the one before it
    leads to. -/
inductive CnameChain : DnsName → List ResourceRecord → DnsName → Prop
  | nil (owner : DnsName) : CnameChain owner [] owner
  | cons {record : ResourceRecord} {chain : List ResourceRecord} {next target : DnsName} :
      record.recordType = .cname → recordNameRdata record = some next →
        CnameChain next chain target → CnameChain record.name (record :: chain) target

theorem CnameChain.recordType {owner target : DnsName} {chain : List ResourceRecord}
    (h : CnameChain owner chain target) : ∀ record ∈ chain, record.recordType = .cname := by
  induction h with
  | nil => exact fun _ hmem => absurd hmem List.not_mem_nil
  | cons htype _ _ ih => exact List.forall_mem_cons.2 ⟨htype, ih⟩

/-- What an answer about a name has: a CNAME chain, and at its end the records of a type. -/
structure ChainedAnswer (owner : DnsName) (qtype : RecordType) where
  chain : List ResourceRecord
  target : DnsName
  terminal : List ResourceRecord
  chained : CnameChain owner chain target
  terminal_spec : ∀ record ∈ terminal, record.name = target ∧ record.recordType = qtype

namespace ChainedAnswer

variable {owner : DnsName} {qtype : RecordType} (answer : ChainedAnswer owner qtype)

def records : List ResourceRecord := answer.chain ++ answer.terminal

/-- The names that the answer goes through. -/
def owners : List DnsName := answer.chain.map ResourceRecord.name ++ [answer.target]

theorem owners_eq : answer.owners = owner :: answer.owners.tail := by
  obtain ⟨chain, target, terminal, hchained, hspec⟩ := answer
  cases hchained with
  | nil => rfl
  | cons htype hnext hrest => rfl

/-- The records of the type are those at the end of the chain. -/
theorem recordsFor_records (hqtype : qtype ≠ .cname) (name : DnsName) :
    recordsFor answer.records name qtype = if answer.target = name then answer.terminal else [] := by
  have hchain : recordsFor answer.chain name qtype = [] := by
    refine List.filter_eq_nil_iff.2 fun record hmem hrecord => ?_
    obtain ⟨-, htype⟩ := of_decide_eq_true hrecord
    exact hqtype (htype.symm.trans (answer.chained.recordType record hmem))
  rw [records, recordsFor, List.filter_append]
  rw [recordsFor] at hchain
  rw [hchain, List.nil_append]
  by_cases hname : answer.target = name
  · rw [if_pos hname, List.filter_eq_self]
    intro record hmem
    obtain ⟨hrecord, htype⟩ := answer.terminal_spec record hmem
    exact decide_eq_true ⟨hrecord.trans hname, htype⟩
  · rw [if_neg hname, List.filter_eq_nil_iff]
    intro record hmem hrecord
    obtain ⟨htarget, -⟩ := answer.terminal_spec record hmem
    exact hname (htarget.symm.trans (of_decide_eq_true hrecord).1)

/-- The records at the end of the chain are found at a name just when there are none, or the chain
    ends at that name. -/
theorem recordsFor_eq_terminal_iff (hqtype : qtype ≠ .cname) :
    recordsFor answer.records owner qtype = answer.terminal ↔
      answer.terminal = [] ∨ answer.target = owner := by
  rw [answer.recordsFor_records hqtype]
  by_cases hname : answer.target = owner
  · rw [if_pos hname]
    exact ⟨fun _ => .inr hname, fun _ => rfl⟩
  · rw [if_neg hname]
    exact ⟨fun h => .inl h.symm, fun h => (h.resolve_right hname).symm⟩

theorem recordsFor_eq_nil (hqtype : qtype ≠ .cname) (h : answer.target ≠ owner) :
    recordsFor answer.records owner qtype = [] := by
  rw [answer.recordsFor_records hqtype, if_neg h]

end ChainedAnswer

/-! ## Calls -/

section

variable {σ : Type} (env : Environment σ) (verifier : DelegatedDnssecVerifier σ)

/-- A call of the network, of the counter or of the verifier. -/
inductive Calls : σ → σ → Prop
  | exchangeUdp (server : SocketAddr) (query : List UInt8) (s : σ) :
      Calls s (env.exchangeUdp server query s).state
  | exchangeTcp (server : SocketAddr) (query : List UInt8) (s : σ) :
      Calls s (env.exchangeTcp server query s).state
  | nextDnsQueryId (s : σ) : Calls s (env.nextDnsQueryId s).state
  | validatePositiveRrset (input : DelegatedDnssecValidation) (s : σ) :
      Calls s (verifier.validatePositiveRrset input s).state
  | validateNoData (input : DelegatedDnssecNoDataValidation) (s : σ) :
      Calls s (verifier.validateNoData input s).state
  | validateNameError (input : DelegatedDnssecNameErrorValidation) (s : σ) :
      Calls s (verifier.validateNameError input s).state
  | validateChildPositiveRrset (input : DelegatedChildDnssecValidation) (s : σ) :
      Calls s (verifier.validateChildPositiveRrset input s).state
  | validateChildNoData (input : DelegatedChildDnssecNoDataValidation) (s : σ) :
      Calls s (verifier.validateChildNoData input s).state
  | validateChildNameError (input : DelegatedChildDnssecNameErrorValidation) (s : σ) :
      Calls s (verifier.validateChildNameError input s).state

/-- One call after the other takes the one state to the other. -/
abbrev Reaches : σ → σ → Prop := Relation.ReflTransGen (Calls env verifier)

end

/-! ## Zones -/

/-- The zone that an answer comes from, with the keys that the verifier is given for it. -/
inductive ServingZone
  | delegated (keys : DelegatedKeys)
  | child (keys : DelegatedChildKeys)

namespace ServingZone

def owner : ServingZone → DnsName
  | .delegated keys => keys.dnskeyOwner
  | .child keys => keys.childDnskeyOwner

/-- The zone is the one that is delegated, or a child strictly below it. The keys go back to the DS
    records of the delegation. -/
def ServedUnder (delegation : HnsDelegation) : ServingZone → Prop
  | .delegated keys => keys.dnskeyOwner = delegation.owner ∧
      keys.dsRrset = recordsFor delegation.records delegation.owner .ds
  | .child keys => keys.parentDnskeyOwner = delegation.owner ∧
      keys.parentDsRrset = recordsFor delegation.records delegation.owner .ds ∧
      keys.childDnskeyOwner.isStrictSubdomain delegation.owner

variable {σ : Type}

/-- The positive call of the verifier for the zone. -/
def validate (verifier : DelegatedDnssecVerifier σ) (rrset rrsigRrset : List ResourceRecord) :
    ServingZone → EStateM ResolverError σ Bool
  | .delegated keys => verifier.validatePositiveRrset ⟨keys, rrset, rrsigRrset⟩
  | .child keys => verifier.validateChildPositiveRrset ⟨keys, rrset, rrsigRrset⟩

/-- Between the two states a positive call of the verifier has accepted the RRset. -/
def Accepts (zone : ServingZone) (env : Environment σ) (verifier : DelegatedDnssecVerifier σ)
    (s s' : σ) (rrset : List ResourceRecord) : Prop :=
  ∃ rrsigRrset, Ran (Reaches env verifier) (zone.validate verifier rrset rrsigRrset) true s s'

end ServingZone

/-! ## Validated answers -/

/-- An answer that comes from one zone, in RRsets that have been accepted. -/
structure ValidatedAnswer (zoneOwner : DnsName) (Accepted : List ResourceRecord → Prop) (hops : ℕ)
    (owner : DnsName) (qtype : RecordType) extends ChainedAnswer owner qtype where
  length_le : chain.length ≤ hops
  cname_accepted : ∀ record ∈ chain, Accepted [record]
  terminal_accepted : terminal ≠ [] → Accepted terminal
  inZone : ∀ next ∈ toChainedAnswer.owners.tail, next.isSubdomainOrEqual zoneOwner

namespace ValidatedAnswer

variable {zoneOwner owner next : DnsName} {Accepted : List ResourceRecord → Prop} {hops : ℕ}
  {qtype : RecordType}

/-- The records at the name itself, if there are any. -/
def ending (owner : DnsName) {terminal : List ResourceRecord}
    (hspec : ∀ record ∈ terminal, record.name = owner ∧ record.recordType = qtype)
    (haccepted : terminal ≠ [] → Accepted terminal) :
    ValidatedAnswer zoneOwner Accepted hops owner qtype where
  chain := []
  target := owner
  terminal := terminal
  chained := .nil owner
  terminal_spec := hspec
  length_le := Nat.zero_le _
  cname_accepted := fun _ hmem => absurd hmem List.not_mem_nil
  terminal_accepted := haccepted
  inZone := fun _ hmem => absurd hmem List.not_mem_nil

/-- A CNAME record that leads to the name of an answer. -/
def follow {record : ResourceRecord} (htype : record.recordType = .cname)
    (hnext : recordNameRdata record = some next) (haccepted : Accepted [record])
    (hzone : next.isSubdomainOrEqual zoneOwner)
    (rest : ValidatedAnswer zoneOwner Accepted hops next qtype) :
    ValidatedAnswer zoneOwner Accepted (hops + 1) record.name qtype where
  chain := record :: rest.chain
  target := rest.target
  terminal := rest.terminal
  chained := .cons htype hnext rest.chained
  terminal_spec := rest.terminal_spec
  length_le := Nat.succ_le_succ rest.length_le
  cname_accepted := List.forall_mem_cons.2 ⟨haccepted, rest.cname_accepted⟩
  terminal_accepted := rest.terminal_accepted
  inZone := by
    change ∀ name ∈ rest.toChainedAnswer.owners, name.isSubdomainOrEqual zoneOwner
    rw [rest.toChainedAnswer.owners_eq, List.forall_mem_cons]
    exact ⟨hzone, rest.inZone⟩

/-- An answer of RRsets that are accepted in one sense, in another sense. -/
def imp {Accepted' : List ResourceRecord → Prop} (h : ∀ rrset, Accepted rrset → Accepted' rrset)
    (answer : ValidatedAnswer zoneOwner Accepted hops owner qtype) :
    ValidatedAnswer zoneOwner Accepted' hops owner qtype where
  toChainedAnswer := answer.toChainedAnswer
  length_le := answer.length_le
  cname_accepted := fun record hmem => h _ (answer.cname_accepted record hmem)
  terminal_accepted := fun hne => h _ (answer.terminal_accepted hne)
  inZone := answer.inZone

/-- More hops could have been made. -/
def relax {hops' : ℕ} (h : hops ≤ hops')
    (answer : ValidatedAnswer zoneOwner Accepted hops owner qtype) :
    ValidatedAnswer zoneOwner Accepted hops' owner qtype where
  toChainedAnswer := answer.toChainedAnswer
  length_le := answer.length_le.trans h
  cname_accepted := answer.cname_accepted
  terminal_accepted := answer.terminal_accepted
  inZone := answer.inZone

end ValidatedAnswer

/-! ## Runs -/

/-- The computation changes the state by calls only. -/
def OnlyCalls {σ α : Type} (env : Environment σ) (verifier : DelegatedDnssecVerifier σ)
    (x : EStateM ResolverError σ α) : Prop := Evolves (Reaches env verifier) x

namespace OnlyCalls

variable {σ α β : Type} {env : Environment σ} {verifier : DelegatedDnssecVerifier σ}

theorem pure (a : α) : OnlyCalls env verifier (pure a) := Evolves.pure (fun _ => .refl) a

theorem of_throw (e : ResolverError) :
    OnlyCalls env verifier (throw e : EStateM ResolverError σ α) :=
  Evolves.of_throw (fun _ => .refl) e

theorem bind {x : EStateM ResolverError σ α} {f : α → EStateM ResolverError σ β}
    (hx : OnlyCalls env verifier x) (hf : ∀ a, OnlyCalls env verifier (f a)) :
    OnlyCalls env verifier (x >>= f) :=
  Evolves.bind (fun _ _ _ => .trans) hx hf

theorem checked_bind {x : Except ResolverError α} {f : α → EStateM ResolverError σ β}
    (hf : ∀ a, OnlyCalls env verifier (f a)) : OnlyCalls env verifier (checked x >>= f) :=
  bind (Evolves.checked (fun _ => .refl) x) hf

theorem ite {c : Prop} [Decidable c] {x y : EStateM ResolverError σ α}
    (hx : OnlyCalls env verifier x) (hy : OnlyCalls env verifier y) :
    OnlyCalls env verifier (if c then x else y) := Evolves.ite hx hy

/-- A check that throws. -/
theorem throw_unless {c : Prop} [Decidable c] {e : ResolverError}
    {f : PUnit → EStateM ResolverError σ α} (hf : OnlyCalls env verifier (f ⟨⟩)) :
    OnlyCalls env verifier (if c then throw e >>= f else f ⟨⟩) :=
  ite (bind (of_throw e) fun _ => hf) hf

/-- A check with the verifier, whose result decides. -/
theorem unless_secure {x : EStateM ResolverError σ Bool} {a : α}
    (hx : OnlyCalls env verifier x) :
    OnlyCalls env verifier (do
      let secure ← x
      if !secure then throw .dnssecFailed
      return a) := by
  refine bind hx fun secure => ?_
  exact throw_unless (pure a)

end OnlyCalls

section

variable {σ : Type} {env : Environment σ} {verifier : DelegatedDnssecVerifier σ}

theorem onlyCalls_dnsQueryTcp (server : SocketAddr) (id : UInt16) (qname : DnsName)
    (qtype : RecordType) (query : List UInt8) :
    OnlyCalls env verifier (env.dnsQueryTcp server id qname qtype query) := by
  refine .bind (fun s => .single (.exchangeTcp server query s)) fun octets => ?_
  refine .checked_bind fun response => ?_
  exact .throw_unless (.pure _)

theorem onlyCalls_dnsQuery (server : SocketAddr) (qname : DnsName) (qtype : RecordType) :
    OnlyCalls env verifier (env.dnsQuery server qname qtype) := by
  refine .bind (fun s => .single (.nextDnsQueryId s)) fun id => ?_
  refine .checked_bind fun query => ?_
  have hudp : OnlyCalls env verifier (env.exchangeUdp server query) :=
    fun s => .single (.exchangeUdp server query s)
  refine .bind (Evolves.attempt hudp) fun udpResponse => ?_
  cases udpResponse >>= parseDnsResponse id qname qtype with
  | error e => exact .ite (onlyCalls_dnsQueryTcp _ _ _ _ _) (.of_throw e)
  | ok response => exact .ite (onlyCalls_dnsQueryTcp _ _ _ _ _) (.pure response)

theorem onlyCalls_tryClosestEnclosers {validate : DnsName → EStateM ResolverError σ Bool}
    (hvalidate : ∀ encloser, OnlyCalls env verifier (validate encloser))
    (requestName : DnsName) (prefixRecords : List ResourceRecord) (candidates : List DnsName) :
    OnlyCalls env verifier
      (tryClosestEnclosers validate requestName prefixRecords candidates) := by
  induction candidates with
  | nil => exact .of_throw _
  | cons encloser candidates ih =>
    refine .bind (hvalidate encloser) fun isProof => ?_
    exact .ite (.pure _) ih

theorem onlyCalls_validateAnswered
    {validate : List ResourceRecord → EStateM ResolverError σ Bool}
    (hvalidate : ∀ rrsigRrset, OnlyCalls env verifier (validate rrsigRrset))
    (owner : DnsName) (response : DnsMessage) :
    OnlyCalls env verifier (validateAnswered validate owner response) := by
  rw [validateAnswered]
  refine .throw_unless (.bind (hvalidate _) fun secure => ?_)
  exact .ite (.of_throw _) (.pure ())

theorem ServingZone.onlyCalls_validate (zone : ServingZone) (rrset rrsigRrset : List ResourceRecord) :
    OnlyCalls env verifier (zone.validate verifier rrset rrsigRrset) := by
  intro s
  cases zone with
  | delegated keys => exact .single (.validatePositiveRrset _ s)
  | child keys => exact .single (.validateChildPositiveRrset _ s)

/-! ## The answer loop -/

/-- The answers of the source come from the zone. -/
structure AnswerSource.ServedBy (source : AnswerSource σ) (env : Environment σ)
    (verifier : DelegatedDnssecVerifier σ) (zone : ServingZone) : Prop where
  zoneOwner : source.zoneOwner = zone.owner
  query : ∀ owner, OnlyCalls env verifier (source.query owner)
  validateRrset : ∀ owner rrset response, source.validateRrset owner rrset response =
    validateAnswered (fun rrsigRrset => zone.validate verifier rrset rrsigRrset) owner response
  nameError : ∀ owner response prefixRecords,
    OnlyCalls env verifier (source.nameError owner response prefixRecords)
  noData : ∀ owner response prefixRecords,
    OnlyCalls env verifier (source.noData owner response prefixRecords)
  nameError_records : ∀ {owner response prefixRecords s answer s'},
    source.nameError owner response prefixRecords s = .ok answer s' →
      answer.records = prefixRecords
  noData_records : ∀ {owner response prefixRecords s answer s'},
    source.noData owner response prefixRecords s = .ok answer s' → answer.records = prefixRecords

variable {source : AnswerSource σ} {zone : ServingZone}

theorem AnswerSource.ServedBy.onlyCalls_validateRrset (hsource : source.ServedBy env verifier zone)
    (owner : DnsName) (rrset : List ResourceRecord) (response : DnsMessage) :
    OnlyCalls env verifier (source.validateRrset owner rrset response) := by
  rw [hsource.validateRrset]
  exact onlyCalls_validateAnswered (zone.onlyCalls_validate rrset) owner response

theorem onlyCalls_answerLoop (hsource : source.ServedBy env verifier zone) (rounds : ℕ)
    (response : DnsMessage) (owner : DnsName) (cnameRecords : List ResourceRecord) :
    OnlyCalls env verifier (answerLoop source rounds response owner cnameRecords) := by
  induction rounds generalizing response owner cnameRecords with
  | zero => exact .of_throw _
  | succ rounds ih =>
    rw [answerLoop]
    refine .throw_unless (.ite ?_ (.ite ?_ (.ite ?_ (.ite ?_ ?_))))
    · exact .bind (hsource.onlyCalls_validateRrset _ _ _) fun _ => .pure _
    · refine .bind (hsource.onlyCalls_validateRrset _ _ _) fun _ => .checked_bind fun nextOwner => ?_
      exact .throw_unless (ih _ _ _)
    · exact .bind (hsource.query owner) fun next => ih _ _ _
    · exact hsource.nameError _ _ _
    · exact hsource.noData _ _ _

/-- A CNAME RRset that is followed is one record. -/
theorem cnameTarget_eq_ok {cnameRrset : List ResourceRecord} {next : DnsName}
    (h : cnameTarget cnameRrset = .ok next) : ∃ record, cnameRrset = [record] ∧
      record.recordType = .cname ∧ recordNameRdata record = some next := by
  unfold cnameTarget at h
  split at h
  · next record =>
    split_ifs at h with htype
    exact ⟨record, rfl, not_not.1 htype, Except.ofOption_eq_ok.1 h⟩
  · cases h

/-- The RRset that a source has validated has been accepted. -/
theorem AnswerSource.ServedBy.accepts (hsource : source.ServedBy env verifier zone)
    {owner : DnsName} {rrset : List ResourceRecord} {response : DnsMessage} {s s₁ s' : σ}
    (h : source.validateRrset owner rrset response s = .ok () s₁)
    (hafter : Reaches env verifier s₁ s') : zone.Accepts env verifier s s' rrset := by
  rw [hsource.validateRrset] at h
  exact ⟨_, s, s₁, .refl, validateAnswered_eq_ok h, hafter⟩

/-- An RRset that has been accepted in a part of the run has been accepted in all of it. -/
theorem ServingZone.Accepts.mono {s₀ s s' s₁ : σ} {rrset : List ResourceRecord}
    (h : zone.Accepts env verifier s s' rrset) (hbefore : Reaches env verifier s₀ s)
    (hafter : Reaches env verifier s' s₁) : zone.Accepts env verifier s₀ s₁ rrset := by
  obtain ⟨rrsigRrset, hran⟩ := h
  exact ⟨rrsigRrset, hran.mono (fun _ _ _ => .trans) hbefore hafter⟩

/-- The loop adds a validated answer to the records it has, with fewer hops than there are
    rounds. -/
theorem answerLoop_validated (hsource : source.ServedBy env verifier zone) {rounds : ℕ}
    {response : DnsMessage} {owner : DnsName} {cnameRecords : List ResourceRecord} {s s' : σ}
    {answer : ResolutionAnswer}
    (h : answerLoop source rounds response owner cnameRecords s = .ok answer s') :
    ∃ hops < rounds, ∃ validated : ValidatedAnswer zone.owner (zone.Accepts env verifier s s') hops
      owner source.qtype, answer.records = cnameRecords ++ validated.records := by
  induction rounds generalizing response owner cnameRecords s with
  | zero => cases h
  | succ rounds ih =>
    obtain ⟨hvalidate, rfl⟩ | ⟨next, s₁, hcname, hvalidate, hnext, hzone, h⟩ |
      ⟨next, s₁, -, hquery, h⟩ | ⟨-, h⟩ | ⟨-, h⟩ := answerLoop_succ_cases h
    · -- The records that are asked for.
      have haccepted := hsource.accepts hvalidate .refl
      exact ⟨0, Nat.succ_pos _,
        .ending owner (fun record hmem => (mem_recordsFor.1 hmem).2) fun _ => haccepted, rfl⟩
    · -- A CNAME record, and what the rest of the loop finds behind it.
      have hafter : Reaches env verifier s₁ s' := (onlyCalls_answerLoop hsource _ _ _ _).of_ok h
      have haccepted := hsource.accepts hvalidate hafter
      have hbefore : Reaches env verifier s s₁ :=
        (hsource.onlyCalls_validateRrset _ _ _).of_ok hvalidate
      obtain ⟨record, hrecord, htype, hrdata⟩ := cnameTarget_eq_ok hnext
      have hname : record.name = owner := by
        have hmem : record ∈ source.cnamesAt response owner := hrecord ▸ List.mem_singleton_self _
        rw [AnswerSource.cnamesAt_of_ne_nil hcname] at hmem
        exact (mem_recordsFor.1 hmem).2.1
      subst hname
      rw [hrecord] at haccepted h
      obtain ⟨hops, hlt, validated, hrecords⟩ := ih h
      refine ⟨hops + 1, Nat.succ_lt_succ hlt, .follow htype hrdata haccepted (hsource.zoneOwner ▸ hzone)
        (validated.imp fun rrset hrrset => hrrset.mono hbefore .refl), ?_⟩
      rw [hrecords, List.append_assoc]
      rfl
    · -- The question is asked again at the end of the chain.
      have hbefore : Reaches env verifier s s₁ := (hsource.query owner).of_ok hquery
      obtain ⟨hops, hlt, validated, hrecords⟩ := ih h
      exact ⟨hops, Nat.lt_succ_of_lt hlt, validated.imp fun rrset hrrset => hrrset.mono hbefore .refl,
        hrecords⟩
    · exact ⟨0, Nat.succ_pos _, .ending owner (fun _ hmem => absurd hmem List.not_mem_nil)
        fun hne => absurd rfl hne, (hsource.nameError_records h).trans (List.append_nil _).symm⟩
    · exact ⟨0, Nat.succ_pos _, .ending owner (fun _ hmem => absurd hmem List.not_mem_nil)
        fun hne => absurd rfl hne, (hsource.noData_records h).trans (List.append_nil _).symm⟩

end

/-! ## Delegations -/

section

variable {σ : Type} {env : Environment σ} {verifier : DelegatedDnssecVerifier σ}
  {requestName : DnsName} {qtype : RecordType} {server : SocketAddr} {response : DnsMessage}
  {prefixRecords : List ResourceRecord}

theorem onlyCalls_resolveSecureNoData (keys : DelegatedKeys) :
    OnlyCalls env verifier
      (resolveSecureNoData verifier keys requestName qtype response prefixRecords) := by
  rw [resolveSecureNoData]
  refine .throw_unless (.bind (fun s => .single (.validateNoData _ s)) fun secure => ?_)
  exact .throw_unless (.pure _)

theorem onlyCalls_resolveSecureNameError (keys : DelegatedKeys) :
    OnlyCalls env verifier
      (resolveSecureNameError verifier keys requestName response prefixRecords) := by
  rw [resolveSecureNameError]
  refine .throw_unless (.checked_bind fun candidates => ?_)
  exact onlyCalls_tryClosestEnclosers (fun _ s => .single (.validateNameError _ s)) _ _ _

theorem onlyCalls_resolveSecureChildNoData (keys : DelegatedChildKeys) :
    OnlyCalls env verifier
      (resolveSecureChildNoData verifier keys requestName qtype response prefixRecords) := by
  rw [resolveSecureChildNoData]
  refine .bind (fun s => .single (.validateChildNoData _ s)) fun secure => ?_
  exact .throw_unless (.pure _)

theorem onlyCalls_resolveSecureChildNameError (keys : DelegatedChildKeys) :
    OnlyCalls env verifier
      (resolveSecureChildNameError verifier keys requestName response prefixRecords) := by
  rw [resolveSecureChildNameError]
  refine .throw_unless (.checked_bind fun candidates => ?_)
  exact onlyCalls_tryClosestEnclosers (fun _ s => .single (.validateChildNameError _ s)) _ _ _

theorem servedBy_answerSource (keys : DelegatedKeys) :
    (answerSource env verifier server keys requestName qtype).ServedBy env verifier
      (.delegated keys) where
  zoneOwner := rfl
  query _ := onlyCalls_dnsQuery _ _ _
  validateRrset _ _ _ := rfl
  nameError _ _ _ := onlyCalls_resolveSecureNameError keys
  noData _ _ _ := onlyCalls_resolveSecureNoData keys
  nameError_records := resolveSecureNameError_records
  noData_records h := by
    obtain ⟨-, -, rfl⟩ := resolveSecureNoData_eq_ok.1 h
    rfl

theorem servedBy_childAnswerSource (keys : DelegatedChildKeys) :
    (childAnswerSource env verifier server keys requestName qtype).ServedBy env verifier
      (.child keys) where
  zoneOwner := rfl
  query _ := onlyCalls_dnsQuery _ _ _
  validateRrset _ _ _ := rfl
  nameError _ _ _ := onlyCalls_resolveSecureChildNameError keys
  noData _ _ _ := onlyCalls_resolveSecureChildNoData keys
  nameError_records := resolveSecureChildNameError_records
  noData_records := resolveSecureChildNoData_records

theorem onlyCalls_firstAnswer {resolve : SocketAddr → EStateM ResolverError σ ResolutionAnswer}
    (hresolve : ∀ server, OnlyCalls env verifier (resolve server)) (lastError : ResolverError)
    (servers : List SocketAddr) :
    OnlyCalls env verifier (firstAnswer resolve lastError servers) := by
  induction servers generalizing lastError with
  | nil => exact .of_throw _
  | cons server servers ih =>
    refine .bind (Evolves.attempt (hresolve server)) fun outcome => ?_
    cases outcome with
    | ok answer => exact .pure answer
    | error e => exact ih e

/-- The servers before the one that has answered have been called. -/
theorem firstAnswer_reaches {resolve : SocketAddr → EStateM ResolverError σ ResolutionAnswer}
    (hresolve : ∀ server, OnlyCalls env verifier (resolve server)) {lastError : ResolverError}
    {servers : List SocketAddr} {s s' : σ} {answer : ResolutionAnswer}
    (h : firstAnswer resolve lastError servers s = .ok answer s') :
    ∃ server s₁, Reaches env verifier s s₁ ∧ resolve server s₁ = .ok answer s' := by
  induction servers generalizing lastError s with
  | nil => cases h
  | cons server servers ih =>
    rw [firstAnswer] at h
    obtain ⟨outcome, s₁, hattempt, h⟩ := EStateM.run_bind_eq_ok.1 h
    have hcalls : Reaches env verifier s s₁ := (Evolves.attempt (hresolve server)).of_ok hattempt
    obtain ⟨a, rfl, hrun⟩ | ⟨e, rfl, -⟩ := EStateM.attempt_eq_ok.1 hattempt
    · cases h
      exact ⟨server, s, .refl, hrun⟩
    · obtain ⟨other, s₂, hbefore, hother⟩ := ih h
      exact ⟨other, s₂, hcalls.trans hbefore, hother⟩

theorem onlyCalls_resolveSecureChildFromServer (parent : DelegatedKeys) (referral : ChildReferral) :
    OnlyCalls env verifier
      (resolveSecureChildFromServer env verifier parent referral requestName qtype server) := by
  rw [resolveSecureChildFromServer]
  refine .bind (onlyCalls_dnsQuery _ _ _) fun dnskeyResponse => .throw_unless ?_
  refine .bind (onlyCalls_dnsQuery _ _ _) fun targetResponse => ?_
  exact onlyCalls_answerLoop (servedBy_childAnswerSource _) _ _ _ _

theorem onlyCalls_resolveSecureChildReferral (parent : DelegatedKeys) (referral : ChildReferral) :
    OnlyCalls env verifier
      (resolveSecureChildReferral env verifier parent referral requestName qtype) := by
  rw [resolveSecureChildReferral]
  refine .throw_unless (.throw_unless ?_)
  exact onlyCalls_firstAnswer (fun _ => onlyCalls_resolveSecureChildFromServer parent referral) _ _

theorem onlyCalls_resolveSecureFromServer (keys : DelegatedKeys) :
    OnlyCalls env verifier
      (resolveSecureFromServer env verifier keys requestName qtype server response) := by
  rw [resolveSecureFromServer]
  refine .ite (onlyCalls_resolveSecureNameError keys) ?_
  cases childReferral response keys.dnskeyOwner requestName with
  | some referral => exact onlyCalls_resolveSecureChildReferral keys referral
  | none =>
    refine .ite (onlyCalls_resolveSecureNoData keys) (.ite (.of_throw _) ?_)
    exact onlyCalls_answerLoop (servedBy_answerSource _) _ _ _ _

theorem onlyCalls_resolveDelegatedFromServer (delegation : HnsDelegation)
    (dsRrset : List ResourceRecord) :
    OnlyCalls env verifier (resolveDelegatedFromServer env verifier delegation requestName qtype
      dsRrset server) := by
  rw [resolveDelegatedFromServer]
  refine .bind (onlyCalls_dnsQuery _ _ _) fun targetResponse => .ite (.pure _) ?_
  refine .bind (onlyCalls_dnsQuery _ _ _) fun dnskeyResponse => ?_
  exact onlyCalls_resolveSecureFromServer _

/-- What a secure answer under a delegation is, when the resolver goes from the one state to the
    other. -/
def ValidatedUnder (env : Environment σ) (verifier : DelegatedDnssecVerifier σ)
    (delegation : HnsDelegation) (requestName : DnsName) (qtype : RecordType) (s s' : σ)
    (records : List ResourceRecord) : Prop :=
  ∃ zone : ServingZone, zone.ServedUnder delegation ∧
    ∃ validated : ValidatedAnswer zone.owner (zone.Accepts env verifier s s') maxCnameChainLen
      requestName qtype, records = validated.records

theorem ValidatedUnder.mono {delegation : HnsDelegation} {s₀ s s' s₁ : σ}
    {records : List ResourceRecord}
    (h : ValidatedUnder env verifier delegation requestName qtype s s' records)
    (hbefore : Reaches env verifier s₀ s) (hafter : Reaches env verifier s' s₁) :
    ValidatedUnder env verifier delegation requestName qtype s₀ s₁ records := by
  obtain ⟨zone, hzone, validated, hrecords⟩ := h
  exact ⟨zone, hzone, validated.imp fun rrset hrrset => hrrset.mono hbefore hafter, hrecords⟩

/-- There is nothing to validate in a proof that there is no data. -/
theorem ValidatedUnder.nil {delegation : HnsDelegation} {keys : DelegatedKeys}
    (howner : keys.dnskeyOwner = delegation.owner)
    (hds : keys.dsRrset = recordsFor delegation.records delegation.owner .ds) (s s' : σ) :
    ValidatedUnder env verifier delegation requestName qtype s s' [] :=
  ⟨.delegated keys, ⟨howner, hds⟩, .ending requestName
    (fun _ hmem => absurd hmem List.not_mem_nil) (fun hne => absurd rfl hne), rfl⟩

variable {delegation : HnsDelegation} {s s' : σ} {answer : ResolutionAnswer}

/-- The answer loop of a zone, from the name of the request. -/
theorem validatedUnder_of_answerLoop {source : AnswerSource σ} {zone : ServingZone}
    (hsource : source.ServedBy env verifier zone) (hzone : zone.ServedUnder delegation)
    (h : answerLoop source (maxCnameChainLen + 1) response requestName [] s = .ok answer s') :
    ValidatedUnder env verifier delegation requestName source.qtype s s' answer.records := by
  obtain ⟨hops, hlt, validated, hrecords⟩ := answerLoop_validated hsource h
  exact ⟨zone, hzone, validated.relax (Nat.le_of_lt_succ hlt), hrecords⟩

theorem resolveSecureChildReferral_validated {keys : DelegatedKeys} {referral : ChildReferral}
    (howner : keys.dnskeyOwner = delegation.owner)
    (hds : keys.dsRrset = recordsFor delegation.records delegation.owner .ds)
    (hbelow : referral.owner.isStrictSubdomain delegation.owner)
    (h : resolveSecureChildReferral env verifier keys referral requestName qtype s =
      .ok answer s') :
    ValidatedUnder env verifier delegation requestName qtype s s' answer.records := by
  rw [resolveSecureChildReferral] at h
  obtain ⟨-, h⟩ := EStateM.throw_unless.1 h
  obtain ⟨-, h⟩ := EStateM.throw_unless.1 h
  obtain ⟨server, s₁, hbefore, h⟩ := firstAnswer_reaches
    (fun _ => onlyCalls_resolveSecureChildFromServer keys referral) h
  rw [resolveSecureChildFromServer] at h
  obtain ⟨dnskeyResponse, s₂, hdnskey, h⟩ := EStateM.run_bind_eq_ok.1 h
  obtain ⟨-, h⟩ := EStateM.throw_unless.1 h
  obtain ⟨targetResponse, s₃, hquery, h⟩ := EStateM.run_bind_eq_ok.1 h
  have hvalidated := validatedUnder_of_answerLoop (servedBy_childAnswerSource _)
    ⟨howner, hds, hbelow⟩ h
  have hqueries : Reaches env verifier s₁ s₃ := ((onlyCalls_dnsQuery _ _ _).of_ok hdnskey).trans
    ((onlyCalls_dnsQuery _ _ _).of_ok hquery)
  exact hvalidated.mono (hbefore.trans hqueries) .refl

theorem resolveSecureFromServer_validated {keys : DelegatedKeys}
    (howner : keys.dnskeyOwner = delegation.owner)
    (hds : keys.dsRrset = recordsFor delegation.records delegation.owner .ds)
    (h : resolveSecureFromServer env verifier keys requestName qtype server response s =
      .ok answer s') :
    ValidatedUnder env verifier delegation requestName qtype s s' answer.records := by
  rw [resolveSecureFromServer] at h
  cases hreferral : childReferral response keys.dnskeyOwner requestName with
  | some referral =>
    rw [hreferral] at h
    dsimp only at h
    split_ifs at h
    · rw [resolveSecureNameError_records h]
      exact .nil howner hds s s'
    · exact resolveSecureChildReferral_validated howner hds
        (howner ▸ (childReferral_eq_some hreferral).1) h
  | none =>
    rw [hreferral] at h
    dsimp only at h
    split_ifs at h
    · rw [resolveSecureNameError_records h]
      exact .nil howner hds s s'
    · obtain ⟨-, -, rfl⟩ := resolveSecureNoData_eq_ok.1 h
      exact .nil howner hds s s'
    · cases h
    · exact validatedUnder_of_answerLoop (servedBy_answerSource keys) ⟨howner, hds⟩ h

/-- A secure answer under a delegation has DS records behind it, and has been validated. -/
theorem resolveDelegated_validated {request : ResolutionRequest}
    (h : resolveDelegated env verifier request delegation s = .ok answer s')
    (hsecure : answer.secure) :
    ∃ requestName, DnsName.fromAscii request.qname = .ok requestName ∧
      recordsFor delegation.records delegation.owner .ds ≠ [] ∧
      ValidatedUnder env verifier delegation requestName (.fromCode request.qtype) s s'
        answer.records := by
  rw [resolveDelegated] at h
  obtain ⟨-, h⟩ := EStateM.throw_unless.1 h
  obtain ⟨requestName, hname, h⟩ := EStateM.checked_bind_eq_ok.1 h
  obtain ⟨-, h⟩ := EStateM.throw_unless.1 h
  obtain ⟨server, s₁, hbefore, h⟩ := firstAnswer_reaches
    (fun _ => onlyCalls_resolveDelegatedFromServer delegation _) h
  rw [resolveDelegatedFromServer] at h
  obtain ⟨targetResponse, s₂, htarget, h⟩ := EStateM.run_bind_eq_ok.1 h
  split_ifs at h with hds
  · -- Without DS records an answer is not secure.
    cases h
    cases hsecure
  · obtain ⟨dnskeyResponse, s₃, hdnskey, h⟩ := EStateM.run_bind_eq_ok.1 h
    have hqueries : Reaches env verifier s₁ s₃ := ((onlyCalls_dnsQuery _ _ _).of_ok htarget).trans
      ((onlyCalls_dnsQuery _ _ _).of_ok hdnskey)
    have hvalidated : ValidatedUnder env verifier delegation requestName (.fromCode request.qtype)
        s₃ s' answer.records := resolveSecureFromServer_validated rfl rfl h
    exact ⟨requestName, Except.mapError_eq_ok.1 hname, hds,
      hvalidated.mono (hbefore.trans hqueries) .refl⟩

end

end Hns
