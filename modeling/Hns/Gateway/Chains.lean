import Hns.Gateway.Closed
import Hns.Dane.Policy
import Hns.Resolver.Chained

/-!
# Answers behind a CNAME chain

The resolver answers with the CNAME records that lead away from the name, and
with the records at the end of the chain (`ChainedAnswer`), in one list. Three
parts of the gateway read such a list:

* addresses are looked for at the end of the chain (`resolvedAddress_chained`);
* TLSA and HTTPS records are taken at the name itself, so those at the end of
  the chain are not seen unless the chain leads nowhere else (`chained_iff`).

In compatibility mode a TLSA RRset that is not seen leaves the decision to
WebPKI.
-/

namespace Hns

open EStateM (checked)
open DnsName (fromAscii)

/-! ## Addresses -/

/-- A chain without a repetition is followed to its end, if it is not too long. -/
theorem resolvedAddressForOwner_chain {records : List ResourceRecord} {owner target : DnsName}
    {chain : List ResourceRecord} (hchain : CnameChain owner chain target)
    (hcname : ∀ record ∈ chain, recordsFor records record.name .cname = [record])
    (haddress : ∀ record ∈ chain, ∀ r ∈ records, r.name = record.name → recordAddress r = none)
    (fuel : ℕ) :
    resolvedAddressForOwner records (chain.length + fuel) owner =
      resolvedAddressForOwner records fuel target := by
  induction hchain with
  | nil => rw [List.length_nil, Nat.zero_add]
  | @cons record chain next target _ hnext _ ih =>
    have hnone : (records.filter fun r => r.name = record.name).findSome? recordAddress = none := by
      refine List.findSome?_eq_none_iff.2 fun r hr => ?_
      obtain ⟨hmem, hname⟩ := List.mem_filter.1 hr
      exact haddress record List.mem_cons_self r hmem (of_decide_eq_true hname)
    have htarget : cnameTargetForOwner records record.name = some next := by
      rw [cnameTargetForOwner, hcname record List.mem_cons_self]
      exact hnext
    rw [List.length_cons, Nat.add_right_comm, resolvedAddressForOwner, hnone, Option.none_or, htarget,
      Option.bind_some]
    exact ih (fun r hr => hcname r (List.mem_cons_of_mem _ hr))
      fun r hr => haddress r (List.mem_cons_of_mem _ hr)

theorem recordAddress_of_cname {record : ResourceRecord} (h : record.recordType = .cname) :
    recordAddress record = none := by
  simp [recordAddress, h]

/-- In a chain without a repetition each name has one CNAME record. -/
theorem recordsFor_chain {chain : List ResourceRecord} (htype : ∀ r ∈ chain, r.recordType = .cname)
    (hnodup : (chain.map ResourceRecord.name).Nodup) :
    ∀ record ∈ chain, recordsFor chain record.name .cname = [record] := by
  induction chain with
  | nil => exact fun _ hmem => absurd hmem List.not_mem_nil
  | cons first chain ih =>
    obtain ⟨hfirst, hnodup⟩ := List.nodup_cons.1 hnodup
    obtain ⟨hcname, htype⟩ := List.forall_mem_cons.1 htype
    have hother : ∀ r ∈ chain, r.name ≠ first.name :=
      fun r hr h => hfirst (h ▸ List.mem_map_of_mem hr)
    refine List.forall_mem_cons.2 ⟨?_, fun record hmem => ?_⟩
    · have hnone : recordsFor chain first.name .cname = [] :=
        List.filter_eq_nil_iff.2 fun r hr h => hother r hr (of_decide_eq_true h).1
      rw [recordsFor, List.filter_cons, if_pos (decide_eq_true ⟨rfl, hcname⟩)]
      exact congrArg _ hnone
    · have hskip : ¬decide (first.name = record.name ∧ first.recordType = .cname) = true :=
        fun h => hother record hmem (of_decide_eq_true h).1.symm
      rw [recordsFor, List.filter_cons, if_neg hskip]
      exact ih htype hnodup record hmem

/-- The address is the first one at the end of the chain, if no name occurs twice on the way and the
    chain is not too long. -/
theorem resolvedAddress_chained {owner : DnsName} {qtype : RecordType}
    (answer : ChainedAnswer owner qtype) (hqtype : qtype ≠ .cname)
    (hnodup : (answer.chain.map ResourceRecord.name).Nodup)
    (htarget : ∀ record ∈ answer.chain, record.name ≠ answer.target)
    (hlength : answer.chain.length ≤ maxCnameChainLen) {ip : IpAddr}
    (hip : answer.terminal.findSome? recordAddress = some ip) :
    resolvedAddressForOwner answer.records (maxCnameChainLen + 1) owner = some ip := by
  have htype := answer.chained.recordType
  obtain ⟨rest, hrest⟩ := Nat.exists_eq_add_of_le hlength
  rw [hrest, Nat.add_assoc, resolvedAddressForOwner_chain answer.chained]
  · have hfound : (answer.records.filter fun r => r.name = answer.target) = answer.terminal := by
      have hchain : (answer.chain.filter fun r => r.name = answer.target) = [] :=
        List.filter_eq_nil_iff.2 fun r hr h => htarget r hr (of_decide_eq_true h)
      rw [ChainedAnswer.records, List.filter_append, hchain, List.nil_append, List.filter_eq_self]
      exact fun r hr => decide_eq_true (answer.terminal_spec r hr).1
    rw [resolvedAddressForOwner, hfound, hip]
    rfl
  · intro record hmem
    have hterminal : recordsFor answer.terminal record.name .cname = [] := by
      refine List.filter_eq_nil_iff.2 fun r hr h => ?_
      exact hqtype ((answer.terminal_spec r hr).2.symm.trans (of_decide_eq_true h).2)
    have hchain := recordsFor_chain htype hnodup record hmem
    rw [recordsFor] at hterminal hchain
    rw [recordsFor, ChainedAnswer.records, List.filter_append, hterminal, List.append_nil, hchain]
  · intro record hmem r hr hname
    rcases List.mem_append.1 hr with hr | hr
    · exact recordAddress_of_cname (htype r hr)
    · exact absurd ((answer.terminal_spec r hr).1.symm.trans hname).symm (htarget record hmem)

/-! ## TLSA and HTTPS records -/

def tlsaOfRecord (record : ResourceRecord) : Except GatewayError TlsaRecord :=
  (TlsaRecord.parseRdata record.rdata).mapError .invalidTlsa

theorem tlsaRecords_eq {records : List ResourceRecord} {qname : List Char} {owner : DnsName}
    (h : fromAscii qname = .ok owner) :
    tlsaRecords records qname = (recordsFor records owner .tlsa).mapM tlsaOfRecord := by
  rw [tlsaRecords, h]
  rfl

/-- What the TLSA lookup has found makes the decision fall back to WebPKI, for some certificate. -/
def Degrades [Sha2] (found : Bool × List TlsaRecord) : Prop :=
  ∃ input : DaneCertificateChainValidationInput, input.mode = .hnsCompatibility ∧
    input.dnssecSecure = found.1 ∧ input.tlsaRecords = found.2 ∧
    evaluatePolicyWithCertificateChain input = .ok .webPkiFallback

theorem degrades_iff [Sha2] {found : Bool × List TlsaRecord} : Degrades found ↔ found.2 = [] := by
  constructor
  · rintro ⟨input, -, -, hrecords, hfallback⟩
    by_contra hne
    rw [← hrecords] at hne
    rcases evaluatePolicy_eq_ok hne hfallback with h | ⟨usage, h⟩ <;> cases h
  · intro hnone
    exact ⟨⟨.hnsCompatibility, found.1, [], [], [], .valid⟩, rfl, rfl, hnone.symm, rfl⟩

namespace Gateway

variable {τ : Type} [Digests] {gateway : Gateway τ}

/-- TLSA records are read as those of the service. -/
def readTlsa (records : List ResourceRecord) : GatewayM (Bool × List TlsaRecord) := do
  let records ← checked (records.mapM tlsaOfRecord)
  return (true, records)

/-- A secure answer is read at the name of the service. -/
theorem resolveTlsaRecords_of_secure {host : List Char} {port : UInt16} {query : ResolutionRequest}
    (hquery : tlsaResolutionRequest host port = some query) {owner : DnsName}
    (howner : fromAscii query.qname = .ok owner) {answer : ResolutionAnswer}
    (hanswer : gateway.resolver query = .ok answer) (hsecure : answer.secure = true)
    (s : GatewayState) :
    gateway.resolveTlsaRecords host port s = readTlsa (recordsFor answer.records owner .tlsa)
      { s with consulted := s.consulted ++ [(query, answer)] } := by
  have hrun : gateway.resolveSecurely query s =
      .ok answer { s with consulted := s.consulted ++ [(query, answer)] } := by
    have hresolve : gateway.resolve query s =
        .ok answer { s with consulted := s.consulted ++ [(query, answer)] } := by
      rw [resolve, hanswer]
    rw [resolveSecurely, EStateM.bind_ok hresolve, if_neg (by simp [hsecure])]
    rfl
  rw [resolveTlsaRecords, hquery]
  dsimp only
  rw [EStateM.bind_ok hrun, tlsaRecords_eq howner, hsecure]
  rfl

omit [Digests] in
theorem readTlsa_eq_iff {records records' : List ResourceRecord} {s : GatewayState}
    (hsub : records = records' ∨ records = []) :
    readTlsa records s = readTlsa records' s ↔ records = records' := by
  refine ⟨fun h => ?_, fun h => by rw [h]⟩
  rcases hsub with hsame | rfl
  · exact hsame
  -- Nothing has been read, so there was nothing to read.
  have hnil : readTlsa [] s = .ok (true, []) s := rfl
  obtain ⟨found, hfound, hrest⟩ := EStateM.checked_bind_eq_ok.1 (h.symm.trans hnil)
  cases hrest
  exact (List.forall₂_nil_right_iff.1 (Except.mapM_eq_ok.1 hfound)).symm

omit [Digests] in
/-- TLSA records that have been read degrade just when there are none. -/
theorem degrades_readTlsa_iff [Sha2] {records : List ResourceRecord} {s : GatewayState} :
    (∃ found s', readTlsa records s = .ok found s' ∧ Degrades found) ↔ records = [] := by
  constructor
  · rintro ⟨found, s', hread, hdegrades⟩
    obtain ⟨tlsa, hfound, hrest⟩ := EStateM.checked_bind_eq_ok.1 hread
    cases hrest
    obtain rfl := degrades_iff.1 hdegrades
    exact List.forall₂_nil_right_iff.1 (Except.mapM_eq_ok.1 hfound)
  · rintro rfl
    exact ⟨(true, []), s, rfl, degrades_iff.2 rfl⟩

/-- A secure answer to the TLSA query is read as its records at the end of the chain, a published
    TLSA RRset never degrades, and an answer to the HTTPS query is read as its records at the end of
    the chain, in each case just when there are no such records or the chain ends at the name that
    was asked for. -/
theorem chained_iff [Sha2] {host : List Char} {port : UInt16} {query : ResolutionRequest}
    (hquery : tlsaResolutionRequest host port = some query) {owner : DnsName}
    (howner : fromAscii query.qname = .ok owner) (tlsa : ChainedAnswer owner .tlsa) {name : DnsName}
    (hanswer : gateway.resolver query = .ok ⟨name, tlsa.records, true⟩) {hostName : DnsName}
    (hhost : fromAscii (normalizeHost host) = .ok hostName) (https : ChainedAnswer hostName .https)
    (protocols : List OriginProtocol) (s : GatewayState) :
    (gateway.resolveTlsaRecords host port s = readTlsa tlsa.terminal
        { s with consulted := s.consulted ++ [(query, ⟨name, tlsa.records, true⟩)] } ↔
      tlsa.terminal = [] ∨ tlsa.target = owner) ∧
    ((tlsa.terminal ≠ [] → ¬∃ found s', gateway.resolveTlsaRecords host port s = .ok found s' ∧
        Degrades found) ↔ tlsa.terminal = [] ∨ tlsa.target = owner) ∧
    (selectedHttpsService https.records host protocols =
        selectedServiceOf https.target https.terminal protocols ↔
      https.terminal = [] ∨ https.target = hostName) := by
  have htlsa : RecordType.tlsa ≠ .cname := by decide
  have hhttps : RecordType.https ≠ .cname := by decide
  rw [resolveTlsaRecords_of_secure hquery howner hanswer rfl]
  refine ⟨?_, ?_, ?_⟩
  · rw [readTlsa_eq_iff, tlsa.recordsFor_eq_terminal_iff htlsa]
    rw [tlsa.recordsFor_records htlsa]
    split_ifs
    · exact .inl rfl
    · exact .inr rfl
  · rw [degrades_readTlsa_iff, tlsa.recordsFor_records htlsa]
    by_cases htarget : tlsa.target = owner
    · simp [htarget]
    · simp [htarget]
  · rw [selectedHttpsService_eq hhost, https.recordsFor_records hhttps]
    by_cases htarget : https.target = hostName
    · simp [htarget]
    · rw [if_neg htarget]
      refine ⟨fun h => .inl ?_, fun h => ?_⟩
      · exact (selectedServiceOf_eq_ok h.symm).2.1 rfl
      · rw [h.resolve_right htarget]
        rfl

end Gateway

namespace ChainsSample

open GatewaySample

/-- Nothing is hashed here. -/
scoped instance sha2 : Sha2 where
  sha256 _ := .zero
  sha384 _ := .zero
  sha512 _ := .zero

def target : DnsName :=
  ⟨⟨[0x74, 0x6c, 0x73, 0x61], by decide, by decide, by decide, by decide⟩ :: site.labels, by decide⟩

/-- The record that leads from the service to the other name. -/
def cname : ResourceRecord := ⟨service, .cname, 1, 300, DnsName.wire target.labels⟩

theorem recordNameRdata_cname : recordNameRdata cname = some target := by decide +kernel

/-- The TLSA records of the service are published at another name. -/
def tlsa : ChainedAnswer service .tlsa where
  chain := [cname]
  target := target
  terminal := [⟨target, .tlsa, 1, 300, [3, 1, 1] ++ List.replicate 32 0⟩]
  chained := .cons rfl recordNameRdata_cname (.nil target)
  terminal_spec := by simp

/-- There are no HTTPS records. -/
def https : ChainedAnswer site .https := ⟨[], site, [], .nil site, by simp⟩

def gateway : Gateway Unit :=
  { GatewaySample.gateway with
    config := ⟨true, .compatibility, [.http11]⟩
    resolver := fun _ => .ok ⟨target, tlsa.records, true⟩ }

def query : ResolutionRequest := ⟨service.display, RecordType.tlsa.code⟩

theorem tlsaResolutionRequest_site :
    tlsaResolutionRequest (Chars.of "site") 443 = some query := by
  decide +kernel

theorem fromAscii_query : fromAscii query.qname = .ok service := DnsName.fromAscii_display service

/-- The RRset is published and secure, and a certificate is accepted without it. -/
theorem degrades :
    tlsa.terminal ≠ [] ∧ ∃ found s',
      gateway.resolveTlsaRecords (Chars.of "site") 443 .initial = .ok found s' ∧ Degrades found := by
  have hterminal : tlsa.terminal ≠ [] := by simp [tlsa]
  have hanswer : gateway.resolver query = .ok ⟨target, tlsa.records, true⟩ := rfl
  have hread := Gateway.resolveTlsaRecords_of_secure tlsaResolutionRequest_site fromAscii_query
    hanswer rfl .initial
  have htarget : tlsa.target ≠ service := by decide +kernel
  rw [tlsa.recordsFor_eq_nil (by decide) htarget] at hread
  exact ⟨hterminal, (true, []), _, hread,
    ⟨.hnsCompatibility, true, [], [], [], .valid⟩, rfl, rfl, rfl, rfl⟩

theorem chained_iff_site :
    (gateway.resolveTlsaRecords (Chars.of "site") 443 .initial = Gateway.readTlsa tlsa.terminal
        ⟨[(query, ⟨target, tlsa.records, true⟩)], [], []⟩ ↔
      tlsa.terminal = [] ∨ tlsa.target = service) ∧
    ((tlsa.terminal ≠ [] → ¬∃ found s',
        gateway.resolveTlsaRecords (Chars.of "site") 443 .initial = .ok found s' ∧
          Degrades found) ↔ tlsa.terminal = [] ∨ tlsa.target = service) ∧
    (selectedHttpsService https.records (Chars.of "site") [.http11] =
        selectedServiceOf https.target https.terminal [.http11] ↔
      https.terminal = [] ∨ https.target = site) :=
  have hanswer : gateway.resolver query = .ok ⟨target, tlsa.records, true⟩ := rfl
  Gateway.chained_iff tlsaResolutionRequest_site fromAscii_query tlsa hanswer (by decide +kernel)
    https [.http11] .initial

end ChainsSample

end Hns
