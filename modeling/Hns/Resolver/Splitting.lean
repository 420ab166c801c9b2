import Hns.Resolver.Serving

/-!
# Chains in parts

A server may send a CNAME chain with what is at its end, or a part of it, and
the rest when it is asked again (`Split`).
-/

namespace Hns

open DnsName

/-! ## Chains of a zone -/

/-- CNAME RRsets of a zone that lead from the one name to the other, and stay in the zone. -/
inductive CnameLinks (zone : SignedZone) : DnsName → List ServedRrset → DnsName → Prop
  | nil (owner : DnsName) : CnameLinks zone owner [] owner
  | cons {owner next target : DnsName} {link : ServedRrset} {links : List ServedRrset}
      (howner : link.owner = owner) (hof : link.Of zone) (htype : link.recordType = .cname)
      (hdata : link.published.rdatas = [wire next.labels])
      (hzone : next.isSubdomainOrEqual zone.apex) (hrest : CnameLinks zone next links target) :
      CnameLinks zone owner (link :: links) target

namespace CnameLinks

variable {zone : SignedZone} {owner next target : DnsName} {taken links : List ServedRrset}

theorem split (h : CnameLinks zone owner (taken ++ links) target) :
    ∃ next, CnameLinks zone owner taken next ∧ CnameLinks zone next links target := by
  induction taken generalizing owner with
  | nil => exact ⟨owner, .nil owner, h⟩
  | cons link taken ih =>
    cases h with
    | cons howner hof htype hdata hzone hrest =>
      obtain ⟨next, htaken, hlinks⟩ := ih hrest
      exact ⟨next, .cons howner hof htype hdata hzone htaken, hlinks⟩

/-- The links say where they lead. -/
theorem unique (h : CnameLinks zone owner links target) (h' : CnameLinks zone owner links next) :
    next = target := by
  induction h with
  | nil owner =>
    cases h'
    rfl
  | cons howner hof htype hdata hzone hrest ih =>
    cases h' with
    | cons howner' hof' htype' hdata' hzone' hrest' =>
      refine ih ?_
      rw [hdata, List.singleton_inj] at hdata'
      obtain rfl := (@wire_append_inj _ _ [] [] (by simpa using hdata')).1
      exact hrest'

theorem owner_mem (h : CnameLinks zone owner links target) :
    owner ∈ links.map ServedRrset.owner ++ [target] := by
  cases h with
  | nil => exact List.mem_singleton_self _
  | cons howner hof htype hdata hzone hrest => simp [howner]

theorem exists_first (h : CnameLinks zone owner links target) (hne : links ≠ []) :
    ∃ link ∈ links, link.owner = owner ∧ link.recordType = .cname := by
  cases h with
  | nil => exact absurd rfl hne
  | cons howner hof htype hdata hzone hrest => exact ⟨_, List.mem_cons_self, howner, htype⟩

end CnameLinks

/-- What is at the end of a chain: records of the type that is asked for, or a proof that there are
    none, or that there is no such name. -/
inductive ChainEnding
  | data (item : ServedRrset)
  | noData (proof : NoDataProof)
  | nameError (encloser : DnsName) (proof : NameErrorProof)

namespace ChainEnding

def records : ChainEnding → List ResourceRecord
  | .data item => item.records
  | .noData _ => []
  | .nameError _ _ => []

/-- The RRsets of the proof. -/
def rrsets : ChainEnding → List ZoneRrset
  | .data _ => []
  | .noData proof => proof.rrsets
  | .nameError _ proof => proof.rrsets

/-- The proof is one that the resolver takes. -/
def Accepted : ChainEnding → Prop
  | .data _ => True
  | .noData proof => proof.Accepted
  | .nameError _ proof => proof.Accepted

/-- The response code of a denial. -/
def Coded (ending : ChainEnding) (rcode : UInt8) : Prop :=
  match ending with
  | .data _ => False
  | .noData _ => rcode ≠ dnsRcodeNxdomain
  | .nameError _ _ => rcode = dnsRcodeNxdomain

/-- What the zone has at the name for the type. -/
inductive Of [DnssecCrypto] (zone : SignedZone) (target : DnsName) (qtype : RecordType) :
    ChainEnding → Prop
  | data {item : ServedRrset} (hof : item.Of zone) (howner : item.owner = target)
      (htype : item.recordType = qtype) : Of zone target qtype (.data item)
  | noData {proof : NoDataProof} (hproves : proof.Proves zone target qtype)
      (hfree : zone.NoCollision target) : Of zone target qtype (.noData proof)
  | nameError {encloser : DnsName} {proof : NameErrorProof}
      (hclosest : zone.ClosestEncloser target encloser)
      (hname : zone.NameErrorBelow target encloser) (hproves : proof.Proves zone target encloser) :
      Of zone target qtype (.nameError encloser proof)

end ChainEnding

/-- A CNAME chain of a zone from the name of a request, and what is at its end. It does not come
    back to a name. -/
structure SignedChain [DnssecCrypto] (zone : SignedZone) (requestName : DnsName)
    (qtype : RecordType) where
  links : List ServedRrset
  target : DnsName
  ending : ChainEnding
  linked : CnameLinks zone requestName links target
  nodup : (links.map ServedRrset.owner ++ [target]).Nodup
  /-- CNAME records that are asked for are not followed. -/
  cname : qtype = .cname → links = []
  ending_of : ending.Of zone target qtype

/-! ## Responses -/

/-- The response repeats the question for the name. -/
def DnsMessage.Asks (response : DnsMessage) (name : DnsName) : Prop :=
  response.questions.head?.map DnsQuestion.name = some name

/-- The responses of a server to the questions for names along a chain, with the number of them
    after the first. Each of them has one link of what is left of the chain, or more. When all that
    is left are the last records, or a proof, it has that. -/
inductive Split [DnssecCrypto] {σ : Type} (zone : SignedZone) (dnskeyRrset : List ResourceRecord)
    (times : Set DnssecTime) (query : DnsName → EStateM ResolverError σ DnsMessage)
    (target : DnsName) (ending : ChainEnding) :
    DnsName → List ServedRrset → DnsMessage → ℕ → Prop
  | whole {owner : DnsName} {links : List ServedRrset} {response : DnsMessage}
      {item : ServedRrset} (hending : ending = .data item) (hasks : response.Asks owner)
      (hsection : AnswerSection zone dnskeyRrset times (links ++ [item]) response.answers) :
      Split zone dnskeyRrset times query target ending owner links response 0
  | denial {response : DnsMessage} (hasks : response.Asks target)
      (hcode : ending.Coded response.header.flags.rcode)
      (hproof : DenialResponse zone dnskeyRrset times ending.rrsets response) :
      Split zone dnskeyRrset times query target ending target [] response 0
  | part {owner nextOwner : DnsName} {taken links : List ServedRrset}
      {response next : DnsMessage} {n : ℕ} (hne : taken ≠ []) (hasks : response.Asks owner)
      (hsection : AnswerSection zone dnskeyRrset times taken response.answers)
      (hlinked : CnameLinks zone owner taken nextOwner)
      (hquery : ∀ s, ∃ s', query nextOwner s = .ok next s')
      (hrest : Split zone dnskeyRrset times query target ending nextOwner links next n) :
      Split zone dnskeyRrset times query target ending owner (taken ++ links) response (n + 1)

/-- The first link is in the first response. -/
theorem Split.exists_first [DnssecCrypto] {σ : Type} {zone : SignedZone}
    {dnskeyRrset : List ResourceRecord} {times : Set DnssecTime}
    {query : DnsName → EStateM ResolverError σ DnsMessage} {target owner : DnsName}
    {ending : ChainEnding} {links : List ServedRrset} {response : DnsMessage} {n : ℕ}
    (h : Split zone dnskeyRrset times query target ending owner links response n)
    (hlinked : CnameLinks zone owner links target) (hne : links ≠ []) :
    ∃ items, AnswerSection zone dnskeyRrset times items response.answers ∧
      ∃ link ∈ items, link.owner = owner ∧ link.recordType = .cname := by
  cases h with
  | whole hending hasks hsection =>
    obtain ⟨link, hlink, hfirst⟩ := hlinked.exists_first hne
    exact ⟨_, hsection, link, List.mem_append_left _ hlink, hfirst⟩
  | denial hasks hcode hproof => exact absurd rfl hne
  | part htaken hasks hsection htakenLinked hquery hrest =>
    exact ⟨_, hsection, htakenLinked.exists_first htaken⟩

/-! ## Rounds of the loop -/

section

variable {σ : Type} {source : AnswerSource σ} {response : DnsMessage} {owner : DnsName}
  {s s' : σ}

/-- A round that ends with the records that are asked for. -/
theorem answerLoop_of_target (htarget : recordsFor response.answers owner source.qtype ≠ [])
    (hcname : source.cnamesAt response owner = [])
    (hvalidate : source.validateRrset owner (recordsFor response.answers owner source.qtype)
      response s = .ok () s') (rounds : ℕ) (cnameRecords : List ResourceRecord) :
    answerLoop source (rounds + 1) response owner cnameRecords s =
      .ok ⟨source.requestName, cnameRecords ++ recordsFor response.answers owner source.qtype,
        true⟩ s' := by
  rw [answerLoop, if_neg (by simp [hcname]), if_pos htarget]
  exact EStateM.bind_ok hvalidate

/-- A round that follows a CNAME record. -/
theorem answerLoop_of_cname (htarget : recordsFor response.answers owner source.qtype = [])
    (hcname : source.cnamesAt response owner ≠ [])
    (hvalidate : source.validateRrset owner (source.cnamesAt response owner) response s =
      .ok () s') {next : DnsName} (hnext : cnameTarget (source.cnamesAt response owner) = .ok next)
    (hzone : next.isSubdomainOrEqual source.zoneOwner) (rounds : ℕ)
    (cnameRecords : List ResourceRecord) :
    answerLoop source (rounds + 1) response owner cnameRecords s =
      answerLoop source rounds response next (cnameRecords ++ source.cnamesAt response owner)
        s' := by
  rw [answerLoop, if_neg (by simp [htarget]), if_neg (by simp [htarget]), if_pos hcname]
  refine (EStateM.bind_ok hvalidate).trans ?_
  dsimp only
  rw [EStateM.checked_bind, hnext]
  dsimp only
  rw [if_neg (by simp [hzone])]

/-- A round that asks again. -/
theorem answerLoop_of_query (htarget : recordsFor response.answers owner source.qtype = [])
    (hcname : source.cnamesAt response owner = []) (hrequest : owner ≠ source.requestName)
    (hasks : ¬response.Asks owner) {next : DnsMessage} (hquery : source.query owner s = .ok next s')
    (rounds : ℕ) (cnameRecords : List ResourceRecord) :
    answerLoop source (rounds + 1) response owner cnameRecords s =
      answerLoop source rounds next owner cnameRecords s' := by
  rw [answerLoop, if_neg (by simp [htarget]), if_neg (by simp [htarget]), if_neg (by simp [hcname]),
    if_pos ⟨hrequest, hasks⟩]
  exact EStateM.bind_ok hquery

/-- A round that asks for a proof. -/
theorem answerLoop_of_denial (htarget : recordsFor response.answers owner source.qtype = [])
    (hcname : source.cnamesAt response owner = []) (hasks : response.Asks owner) (rounds : ℕ)
    (cnameRecords : List ResourceRecord) :
    answerLoop source (rounds + 1) response owner cnameRecords s =
      if response.header.flags.rcode = dnsRcodeNxdomain then
        source.nameError owner response cnameRecords s
      else source.noData owner response cnameRecords s := by
  rw [answerLoop, if_neg (by simp [htarget]), if_neg (by simp [htarget]), if_neg (by simp [hcname]),
    if_neg fun hnot => hnot.2 hasks]
  split_ifs <;> rfl

/-- A round with a CNAME record beside what is asked for. -/
theorem answerLoop_of_both (htarget : recordsFor response.answers owner source.qtype ≠ [])
    (hcname : source.cnamesAt response owner ≠ []) (rounds : ℕ)
    (cnameRecords : List ResourceRecord) :
    answerLoop source (rounds + 1) response owner cnameRecords s = .error .dnssecFailed s := by
  rw [answerLoop, if_pos ⟨htarget, hcname⟩]
  rfl

end

section

variable [Sha2] [DnssecCrypto] {σ : Type} {env : Environment σ} {zone : SignedZone}
  {serving : ServingZone} {server : SocketAddr} {requestName : DnsName} {qtype : RecordType}
  {items : List ServedRrset} {response : DnsMessage}

omit [Sha2] [DnssecCrypto] in
/-- An RRset of one record. -/
theorem SignedZone.IsRrsetOf.exists_single {published : ZoneRrset} {owner : DnsName}
    {rrset : List ResourceRecord} (h : IsRrsetOf published owner rrset) {rdata : List UInt8}
    (hdata : published.rdatas = [rdata]) :
    ∃ record, rrset = [record] ∧ canonicalRdata record = .ok rdata := by
  obtain ⟨rdatas, hrdatas, hperm⟩ := h.data
  rw [hdata, List.perm_singleton] at hperm
  rw [hperm] at hrdatas
  obtain ⟨record, rest, ⟨hcanonical, -⟩, hnil, rfl⟩ := List.forall₂_cons_right_iff.1 hrdatas
  rw [List.forall₂_nil_right_iff.1 hnil]
  exact ⟨record, rfl, hcanonical⟩

omit [Sha2] [DnssecCrypto] in
/-- A CNAME record leads to the name that is its data. -/
theorem cnameTarget_of_canonical {record : ResourceRecord} {next : DnsName}
    (htype : record.recordType = .cname) (h : canonicalRdata record = .ok (wire next.labels)) :
    cnameTarget [record] = .ok next := by
  rw [canonicalRdata, htype] at h
  obtain ⟨⟨name, stop⟩, hparse, h⟩ := Except.bind_eq_ok.1 h
  rw [Except.mapError_eq_ok] at hparse
  obtain ⟨hstop, h⟩ := Except.throw_unless.1 h
  rw [encodeCanonicalName, Except.mapError_eq_ok, encodeWire_eq_ok, Except.ok.injEq] at h
  obtain rfl : name = next := (@wire_append_inj name next [] [] (by rw [h])).1
  rw [cnameTarget, if_neg (by simp [htype]), recordNameRdata, hparse]
  simp [not_not.1 hstop]

variable (server requestName) (h : serving.Honest env zone)
  (hsection : AnswerSection zone serving.dnskeyRrset {now | env.Shows now} items response.answers)

include h hsection

/-- A round that follows a link. -/
theorem answerLoop_link {link : ServedRrset} (hlink : link ∈ items) (htype : link.recordType = .cname)
    {next : DnsName} (hdata : link.published.rdatas = [wire next.labels])
    (hzone : next.isSubdomainOrEqual zone.apex) (hcname : qtype ≠ .cname) (hrrsig : qtype ≠ .rrsig)
    (rounds : ℕ) (cnameRecords : List ResourceRecord) (s : σ) :
    ∃ s', answerLoop (serving.source env server requestName qtype) (rounds + 1) response link.owner
        cnameRecords s =
      answerLoop (serving.source env server requestName qtype) rounds response next
        (cnameRecords ++ link.records) s' := by
  have hof := hsection.served link hlink
  -- The owner has nothing but the link.
  have htarget : recordsFor response.answers link.owner qtype = [] :=
    hsection.recordsFor_eq_nil hrrsig fun item hitem howner => by
      rw [hsection.eq_of_owner hitem hlink howner, htype]
      exact hcname.symm
  obtain ⟨record, hrecords, hcanonical⟩ := hof.isRrset.exists_single hdata
  have hperm := hsection.recordsFor_perm hlink
  rw [htype, hrecords, List.perm_singleton] at hperm
  have hcnames : (serving.source env server requestName qtype).cnamesAt response link.owner =
      [record] := by
    rw [AnswerSource.cnamesAt, ServingZone.source_qtype, if_neg hcname, hperm]
  have hrecordType : record.recordType = .cname := by
    rw [← htype]
    exact hof.isRrset.recordType record (hrecords ▸ List.mem_singleton_self _)
  have hvalidate : ∃ s', (serving.source env server requestName qtype).validateRrset link.owner
      ((serving.source env server requestName qtype).cnamesAt response link.owner) response s =
        .ok () s' := by
    refine h.exists_validateRrset (hsection.recordsFor_rrsig_ne_nil hlink) (fun now hnow => ?_) s
    rw [hcnames, ← hperm, ← htype]
    exact hsection.secure hlink hnow
  obtain ⟨s', hs'⟩ := hvalidate
  refine ⟨s', ?_⟩
  rw [answerLoop_of_cname (by simpa using htarget) (by simp [hcnames]) hs'
    (hcnames ▸ cnameTarget_of_canonical hrecordType hcanonical) (h.source_zoneOwner ▸ hzone),
    hcnames, hrecords]

/-- A round that ends with the RRset that is asked for. -/
theorem answerLoop_data {item : ServedRrset} (hitem : item ∈ items) (htype : item.recordType = qtype)
    (rounds : ℕ) (cnameRecords : List ResourceRecord) (s : σ) :
    ∃ records s', answerLoop (serving.source env server requestName qtype) (rounds + 1) response
        item.owner cnameRecords s = .ok ⟨requestName, cnameRecords ++ records, true⟩ s' ∧
      records.Perm item.records := by
  have hperm := hsection.recordsFor_perm hitem
  rw [htype] at hperm
  have htarget : recordsFor response.answers item.owner qtype ≠ [] := fun hnil =>
    (hsection.served item hitem).isRrset.ne_nil (hnil ▸ hperm).symm.eq_nil
  -- The owner has nothing but what is asked for.
  have hcname : (serving.source env server requestName qtype).cnamesAt response item.owner = [] := by
    rw [AnswerSource.cnamesAt, ServingZone.source_qtype]
    split_ifs with hqtype
    · rfl
    · refine hsection.recordsFor_eq_nil (by decide) fun other hother howner => ?_
      rw [hsection.eq_of_owner hother hitem howner, htype]
      exact hqtype
  have hvalidate : ∃ s', (serving.source env server requestName qtype).validateRrset item.owner
      (recordsFor response.answers item.owner qtype) response s = .ok () s' :=
    h.exists_validateRrset (hsection.recordsFor_rrsig_ne_nil hitem)
      (fun now hnow => htype ▸ hsection.secure hitem hnow) s
  obtain ⟨s', hs'⟩ := hvalidate
  refine ⟨recordsFor response.answers item.owner qtype, s', ?_, hperm⟩
  rw [answerLoop_of_target (by simpa using htarget) hcname (by simpa using hs')]
  simp

omit h in
/-- A round that asks for what comes after the links of a response. -/
theorem answerLoop_requery {owner nextOwner : DnsName} (hasks : response.Asks owner)
    (hnext : nextOwner ∉ items.map ServedRrset.owner) (howner : nextOwner ≠ owner)
    (hrequest : nextOwner ≠ requestName) (hrrsig : qtype ≠ .rrsig) {next : DnsMessage} {s s' : σ}
    (hquery : env.dnsQuery server nextOwner qtype s = .ok next s') (rounds : ℕ)
    (cnameRecords : List ResourceRecord) :
    answerLoop (serving.source env server requestName qtype) (rounds + 1) response nextOwner
        cnameRecords s =
      answerLoop (serving.source env server requestName qtype) rounds next nextOwner cnameRecords
        s' := by
  have hnone {recordType : RecordType} (htype : recordType ≠ .rrsig) :
      recordsFor response.answers nextOwner recordType = [] :=
    hsection.recordsFor_eq_nil htype fun item hitem hname =>
      absurd (List.mem_map.2 ⟨item, hitem, hname⟩) hnext
  refine answerLoop_of_query (by simpa using hnone hrrsig) ?_ (by simpa using hrequest)
    (fun hasks' => howner ?_) (by simpa using hquery) rounds cnameRecords
  · rw [AnswerSource.cnamesAt, hnone (by decide)]
    exact ite_self _
  · exact Option.some_inj.1 (hasks'.symm.trans hasks)

/-- The rounds that follow the links of a response. -/
theorem answerLoop_walk {owner nextOwner : DnsName} {taken : List ServedRrset}
    (hlinked : CnameLinks zone owner taken nextOwner) (htaken : ∀ link ∈ taken, link ∈ items)
    (hqtype : taken ≠ [] → qtype ≠ .cname ∧ qtype ≠ .rrsig) (rounds : ℕ)
    (cnameRecords : List ResourceRecord) (s : σ) :
    ∃ s', answerLoop (serving.source env server requestName qtype) (taken.length + rounds) response
        owner cnameRecords s =
      answerLoop (serving.source env server requestName qtype) rounds response nextOwner
        (cnameRecords ++ taken.flatMap ServedRrset.records) s' := by
  induction hlinked generalizing cnameRecords s with
  | nil owner => exact ⟨s, by simp⟩
  | @cons owner next target link links howner hof htype hdata hzone hrest ih =>
    subst howner
    obtain ⟨hcname, hrrsig⟩ := hqtype (List.cons_ne_nil _ _)
    obtain ⟨hlink, hlinks⟩ := List.forall_mem_cons.1 htaken
    obtain ⟨s₁, hs₁⟩ := answerLoop_link server requestName h hsection hlink htype hdata hzone hcname hrrsig
      (links.length + rounds) cnameRecords s
    obtain ⟨s', hs'⟩ := ih hlinks (fun _ => ⟨hcname, hrrsig⟩) (cnameRecords ++ link.records) s₁
    refine ⟨s', ?_⟩
    rw [List.length_cons, Nat.add_right_comm, hs₁, hs', List.flatMap_cons, List.append_assoc]

/-- The rounds do not suffice for the links of a response. -/
theorem answerLoop_walk_short {owner nextOwner : DnsName} {taken : List ServedRrset}
    (hlinked : CnameLinks zone owner taken nextOwner) (htaken : ∀ link ∈ taken, link ∈ items)
    (hqtype : taken ≠ [] → qtype ≠ .cname ∧ qtype ≠ .rrsig) {rounds : ℕ}
    (hrounds : rounds ≤ taken.length) (cnameRecords : List ResourceRecord) (s : σ) :
    ∃ s', answerLoop (serving.source env server requestName qtype) rounds response owner
      cnameRecords s = .error .dnssecFailed s' := by
  rw [← taken.take_append_drop rounds] at hlinked
  obtain ⟨next, hlinked, -⟩ := hlinked.split
  obtain ⟨s', hs'⟩ := answerLoop_walk server requestName h hsection hlinked
    (fun link hlink => htaken link (List.mem_of_mem_take hlink))
    (fun hne => hqtype fun hnil => hne (by rw [hnil, List.take_nil])) 0 cnameRecords s
  rw [List.length_take_of_le hrounds, Nat.add_zero] at hs'
  exact ⟨s', hs'⟩

end

/-! ## Whole runs -/

/-- The result is an answer with the records when it is due, and an error otherwise. -/
def AnswersWhen {σ : Type} (due : Prop) (records : List ResourceRecord) :
    EStateM.Result ResolverError σ ResolutionAnswer → Prop
  | .ok answer _ => due ∧ answer.secure ∧ answer.records.Perm records
  | .error _ _ => ¬due

theorem AnswersWhen.of_iff {σ : Type} {due due' : Prop} {records : List ResourceRecord}
    {result : EStateM.Result ResolverError σ ResolutionAnswer} (h : AnswersWhen due records result)
    (hdue : due ↔ due') : AnswersWhen due' records result :=
  propext hdue ▸ h

section

variable [Sha2] [DnssecCrypto] {σ : Type} {env : Environment σ} {zone : SignedZone}
  {serving : ServingZone} {server : SocketAddr} {requestName : DnsName} {qtype : RecordType}
  {target : DnsName} {ending : ChainEnding}

omit [Sha2] [DnssecCrypto] in
/-- What a proof gives. -/
theorem AnswersWhen.of_proven {accepted : Prop} {name : DnsName} {cnameRecords : List ResourceRecord}
    {result : EStateM.Result ResolverError σ ResolutionAnswer}
    (hiff : (∃ s', result = .ok (provenAnswer name cnameRecords) s') ↔ accepted)
    (hanswer : ∀ answer s', result = .ok answer s' → answer = provenAnswer name cnameRecords) :
    AnswersWhen accepted (cnameRecords ++ []) result := by
  cases result with
  | ok answer s' =>
    obtain rfl := hanswer answer s' rfl
    exact ⟨hiff.1 ⟨s', rfl⟩, rfl, by rw [List.append_nil, provenAnswer]⟩
  | error e s' =>
    intro haccepted
    obtain ⟨s', hs'⟩ := hiff.2 haccepted
    cases hs'

/-- A proof is an answer when it is one that the resolver takes. -/
theorem ServingZone.Honest.denial (h : serving.Honest env zone)
    (hnsec : zone.nsecs = [] ∨ NsecChain zone) (hnsec3 : Nsec3Chains zone)
    (hof : ending.Of zone target qtype) {response : DnsMessage}
    (hasks : response.Asks target) (hcode : ending.Coded response.header.flags.rcode)
    (hproof : DenialResponse zone serving.dnskeyRrset {now | env.Shows now} ending.rrsets response)
    (rounds : ℕ) (cnameRecords : List ResourceRecord) (s : σ) :
    AnswersWhen ending.Accepted (cnameRecords ++ ending.records)
      (answerLoop (serving.source env server requestName qtype) (rounds + 1) response target
        cnameRecords s) := by
  have hnone (recordType : RecordType) : recordsFor response.answers target recordType = [] := by
    rw [hproof.answers]
    rfl
  have hcname : (serving.source env server requestName qtype).cnamesAt response target = [] := by
    rw [AnswerSource.cnamesAt, hnone]
    exact ite_self _
  rw [answerLoop_of_denial (hnone _) hcname hasks]
  cases hof with
  | data hof howner htype => exact hcode.elim
  | noData hproves hfree =>
    rw [if_neg hcode]
    refine .of_proven (h.noData_iff hnsec hnsec3 hfree hproves hproof cnameRecords s)
      fun answer s' hs' => ?_
    cases serving with
    | delegated keys => exact (resolveSecureNoData_eq_ok.1 hs').2.2
    | child keys => exact (resolveSecureChildNoData_eq_ok.1 hs').2
  | nameError hclosest hname hproves =>
    rw [if_pos (show response.header.flags.rcode = dnsRcodeNxdomain from hcode)]
    refine .of_proven (h.nameError_iff hnsec hnsec3 hclosest hname hproves hproof cnameRecords s)
      fun answer s' hs' => ?_
    cases serving with
    | delegated keys => exact resolveSecureNameError_answer hs'
    | child keys => exact resolveSecureChildNameError_answer hs'

/-- The answer is there when there are rounds for the links and the responses. -/
theorem Split.answersWhen (h : serving.Honest env zone)
    (hnsec : zone.nsecs = [] ∨ NsecChain zone) (hnsec3 : Nsec3Chains zone)
    (hof : ending.Of zone target qtype) {owner : DnsName} {links : List ServedRrset}
    {response : DnsMessage} {n : ℕ}
    (hsplit : Split zone serving.dnskeyRrset {now | env.Shows now}
      (fun name => env.dnsQuery server name qtype) target ending owner links response n)
    (hlinked : CnameLinks zone owner links target)
    (hnodup : (links.map ServedRrset.owner ++ [target]).Nodup)
    (hrequest : requestName ∈ links.map ServedRrset.owner ++ [target] → owner = requestName)
    (hqtype : links ≠ [] → qtype ≠ .cname ∧ qtype ≠ .rrsig) (rounds : ℕ)
    (cnameRecords : List ResourceRecord) (s : σ) :
    AnswersWhen (links.length + n < rounds ∧ ending.Accepted)
      (cnameRecords ++ (links.flatMap ServedRrset.records ++ ending.records))
      (answerLoop (serving.source env server requestName qtype) rounds response owner cnameRecords
        s) := by
  induction hsplit generalizing rounds cnameRecords s with
  | @whole owner links response item hending hasks hsection =>
    subst hending
    obtain ⟨howner, htype⟩ : item.owner = target ∧ item.recordType = qtype := by
      cases hof with
      | data hof howner htype => exact ⟨howner, htype⟩
    have hlinks (link : ServedRrset) (hlink : link ∈ links) : link ∈ links ++ [item] :=
      List.mem_append_left _ hlink
    rcases Nat.lt_or_ge links.length rounds with hlt | hge
    · obtain ⟨rest, rfl⟩ := Nat.exists_eq_add_of_lt hlt
      obtain ⟨s₁, hs₁⟩ := answerLoop_walk server requestName h hsection hlinked hlinks hqtype
        (rest + 1) cnameRecords s
      obtain ⟨records, s', hs', hperm⟩ := answerLoop_data server requestName h hsection
        (List.mem_append_right _ (List.mem_singleton_self item)) htype rest
        (cnameRecords ++ links.flatMap ServedRrset.records) s₁
      rw [Nat.add_assoc, hs₁, ← howner, hs', AnswersWhen, ← List.append_assoc]
      exact ⟨⟨by omega, trivial⟩, rfl, hperm.append_left _⟩
    · obtain ⟨s', hs'⟩ :=
        answerLoop_walk_short server requestName h hsection hlinked hlinks hqtype hge cnameRecords s
      rw [hs']
      exact fun hdue => by omega
  | denial hasks hcode hproof =>
    cases rounds with
    | zero => exact fun hdue => absurd hdue.1 (by simp)
    | succ rounds =>
      refine (h.denial hnsec hnsec3 hof hasks hcode hproof rounds cnameRecords s).of_iff ?_
      simp
  | @part owner nextOwner taken links response next n hne hasks hsection htaken hquery hrest ih =>
    have hall (link : ServedRrset) (hlink : link ∈ taken) : link ∈ taken := hlink
    have hqtype' := hqtype (List.append_ne_nil_of_left_ne_nil hne links)
    rcases Nat.lt_or_ge taken.length rounds with hlt | hge
    · obtain ⟨rest, rfl⟩ := Nat.exists_eq_add_of_lt hlt
      obtain ⟨s₁, hs₁⟩ := answerLoop_walk server requestName h hsection htaken hall
        (fun _ => hqtype') (rest + 1) cnameRecords s
      obtain ⟨middle, htaken', hlinks⟩ := hlinked.split
      obtain rfl := htaken'.unique htaken
      -- The rest of the chain does not come back to what is before it.
      rw [List.map_append, List.append_assoc, List.nodup_append] at hnodup
      obtain ⟨-, hrestNodup, hdisjoint⟩ := hnodup
      have howner : owner ∈ taken.map ServedRrset.owner := by
        obtain ⟨link, hlink, howner, -⟩ := htaken.exists_first hne
        exact List.mem_map.2 ⟨link, hlink, howner⟩
      have hnew (name : DnsName) (hname : name ∈ links.map ServedRrset.owner ++ [target]) :
          name ≠ requestName := by
        rintro rfl
        refine hdisjoint _ howner _ hname (hrequest ?_)
        rw [List.map_append, List.append_assoc]
        exact List.mem_append_right _ hname
      have hnext := hlinks.owner_mem
      obtain ⟨s₂, hs₂⟩ := hquery s₁
      have hrequery := answerLoop_requery server requestName hsection hasks
        (fun hmem => hdisjoint _ hmem _ hnext rfl) (fun heq => hdisjoint _ howner _ hnext heq.symm)
        (hnew _ hnext) hqtype'.2 hs₂ rest (cnameRecords ++ taken.flatMap ServedRrset.records)
      rw [Nat.add_assoc, hs₁, hrequery, List.flatMap_append, List.append_assoc, ← List.append_assoc]
      refine (ih hlinks hrestNodup (fun hmem => absurd rfl (hnew _ hmem)) (fun _ => hqtype') rest _
        s₂).of_iff (and_congr_left fun _ => ?_)
      rw [List.length_append]
      omega
    · obtain ⟨s', hs'⟩ := answerLoop_walk_short server requestName h hsection htaken hall
        (fun _ => hqtype') hge cnameRecords s
      rw [hs']
      intro hdue
      have := hdue.1
      rw [List.length_append] at this
      omega

end

/-! ## Servers of a chain -/

/-- A server of a zone, and how it sends a chain. -/
structure Delivery [Sha2] [DnssecCrypto] (σ : Type) {zone : SignedZone} {requestName : DnsName}
    {qtype : RecordType} (chain : SignedChain zone requestName qtype) where
  env : Environment σ
  serving : ServingZone
  server : SocketAddr
  response : DnsMessage
  /-- The number of responses after the first. -/
  further : ℕ
  honest : serving.Honest env zone
  split : Split zone serving.dnskeyRrset {now | env.Shows now}
    (fun name => env.dnsQuery server name qtype) chain.target chain.ending requestName chain.links
    response further

/-- The chain can be an answer at all: its proof is one that the resolver takes, and its links are
    not signatures that are asked for. -/
def SignedChain.Answerable [DnssecCrypto] {zone : SignedZone} {requestName : DnsName}
    {qtype : RecordType} (chain : SignedChain zone requestName qtype) : Prop :=
  (chain.links = [] ∨ qtype ≠ .rrsig) ∧ chain.ending.Accepted

/-- The records and the flag are the same, or there is no answer in both. -/
def SameAnswer {σ τ : Type} :
    EStateM.Result ResolverError σ ResolutionAnswer →
      EStateM.Result ResolverError τ ResolutionAnswer → Prop
  | .ok answer _, .ok answer' _ =>
    answer.records.Perm answer'.records ∧ answer.secure = answer'.secure
  | .error _ _, .error _ _ => True
  | _, _ => False

theorem AnswersWhen.sameAnswer_iff {σ τ : Type} {due due' : Prop} {records : List ResourceRecord}
    {result : EStateM.Result ResolverError σ ResolutionAnswer}
    {result' : EStateM.Result ResolverError τ ResolutionAnswer}
    (h : AnswersWhen due records result) (h' : AnswersWhen due' records result') :
    SameAnswer result result' ↔ (due ↔ due') := by
  cases result with
  | ok answer s =>
    obtain ⟨hdue, hsecure, hperm⟩ := h
    cases result' with
    | ok answer' s' =>
      obtain ⟨hdue', hsecure', hperm'⟩ := h'
      exact iff_of_true ⟨hperm.trans hperm'.symm, hsecure.trans hsecure'.symm⟩ (iff_of_true hdue hdue')
    | error e' s' => exact iff_of_false id fun hiff => h' (hiff.1 hdue)
  | error e s =>
    cases result' with
    | ok answer' s' => exact iff_of_false id fun hiff => h (hiff.2 h'.1)
    | error e' s' => exact iff_of_true trivial (iff_of_false h h')

section

variable [Sha2] [DnssecCrypto] {σ τ : Type} {zone : SignedZone} {requestName : DnsName}
  {qtype : RecordType} {chain : SignedChain zone requestName qtype}

namespace Delivery

/-- What the resolver makes of the responses. -/
def resolve (delivery : Delivery σ chain) : EStateM ResolverError σ ResolutionAnswer :=
  delivery.serving.resolveAnswerRecords delivery.env delivery.server requestName qtype
    delivery.response

/-- Signatures that are asked for stand beside the first link. -/
theorem resolve_rrsig (delivery : Delivery σ chain) (hne : chain.links ≠ []) (hrrsig : qtype = .rrsig)
    (s : σ) : delivery.resolve s = .error .dnssecFailed s := by
  obtain ⟨items, hsection, link, hlink, howner, htype⟩ :=
    delivery.split.exists_first chain.linked hne
  have hsigned := hsection.recordsFor_rrsig_ne_nil hlink
  have hperm := hsection.recordsFor_perm hlink
  rw [howner] at hsigned
  rw [howner, htype] at hperm
  rw [resolve, ServingZone.resolveAnswerRecords_eq]
  refine answerLoop_of_both ?_ ?_ _ _
  · simpa [hrrsig] using hsigned
  · rw [AnswerSource.cnamesAt, ServingZone.source_qtype, if_neg (by simp [hrrsig])]
    exact fun hnil => (hsection.served link hlink).isRrset.ne_nil (hnil ▸ hperm).symm.eq_nil

/-- The answer is there when there are rounds for the links and the responses. -/
theorem answersWhen (delivery : Delivery σ chain) (hnsec : zone.nsecs = [] ∨ NsecChain zone)
    (hnsec3 : Nsec3Chains zone) (s : σ) :
    AnswersWhen (chain.Answerable ∧ chain.links.length + delivery.further ≤ maxCnameChainLen)
      (chain.links.flatMap ServedRrset.records ++ chain.ending.records) (delivery.resolve s) := by
  by_cases hqtype : chain.links = [] ∨ qtype ≠ .rrsig
  · have hrun := delivery.split.answersWhen delivery.honest hnsec hnsec3 chain.ending_of chain.linked
      chain.nodup (fun _ => rfl)
      (fun hne => ⟨fun hcname => hne (chain.cname hcname), hqtype.resolve_left hne⟩)
      (maxCnameChainLen + 1) [] s
    rw [List.nil_append, ← ServingZone.resolveAnswerRecords_eq] at hrun
    refine hrun.of_iff ?_
    rw [Nat.lt_succ_iff, SignedChain.Answerable, and_comm]
    exact and_congr_left' (and_iff_right hqtype).symm
  · rw [not_or, not_not] at hqtype
    rw [delivery.resolve_rrsig hqtype.1 hqtype.2 s]
    exact fun hdue => hdue.1.1.elim hqtype.1 fun hne => hne hqtype.2

/-- **Two servers of a chain are answered alike** exactly when there are rounds for all links and
    responses of both or of neither, or when the chain can be no answer. -/
theorem sameAnswer_resolve_iff (hnsec : zone.nsecs = [] ∨ NsecChain zone)
    (hnsec3 : Nsec3Chains zone) (delivery : Delivery σ chain) (delivery' : Delivery τ chain) (s : σ)
    (s' : τ) :
    SameAnswer (delivery.resolve s) (delivery'.resolve s') ↔
      (chain.Answerable →
        (chain.links.length + delivery.further ≤ maxCnameChainLen ↔
          chain.links.length + delivery'.further ≤ maxCnameChainLen)) := by
  rw [(delivery.answersWhen hnsec hnsec3 s).sameAnswer_iff (delivery'.answersWhen hnsec hnsec3 s')]
  exact and_congr_right_iff

end Delivery

end

/-! ## A chain link by link -/

namespace DeliverySample

open NsecSample (apex site soa ns dnskey publicKey z)
open NoDataSample (server)
open WildcardSample (digest)

/-- The letters from a to f. -/
def letter (i : Fin 6) : DnsLabel where
  bytes := [0x61 + UInt8.ofNat i]
  length_pos := by simp
  length_le := by decide +revert
  valid := by decide +revert
  lower := by decide +revert

def name (i : Fin 6) : DnsName := ⟨[letter i, z], by decide +revert⟩

/-- From one letter to the next. -/
def hop (i : Fin 5) : ZoneRrset := ⟨name i.castSucc, 5, [wire (name i.succ).labels]⟩

def hops : List ZoneRrset := [hop 0, hop 1, hop 2, hop 3, hop 4]

def address : ZoneRrset := ⟨name 5, 1, [[192, 0, 2, 9]]⟩

def zone : SignedZone where
  apex := apex
  rrsets := [soa, ns, dnskey] ++ hops ++ [address]
  below := by decide +kernel
  types := by decide +kernel
  soa := by decide +kernel
  cname := by decide +kernel
  nsecs := []
  nsec3s := []

def table : SignatureTable where
  apex := apex
  publicKey := publicKey
  signatures := [
    (soa, Octet.toBE 32 0xa5712e37f67ddaec29363c51cf76ac7afa7d848ba175af5b4e14d6f4b69352c4 ++
      Octet.toBE 32 0x7bc030f4a1660dde28bc3b902adce99287f8034aa11c9386f96a27177bbf9508),
    (ns, Octet.toBE 32 0xc53ca1063aa7b5fc8530cac1d9d10373b75f7514766d49c28b60526cb1a10969 ++
      Octet.toBE 32 0xb54fa6c2aa1a8d0303f7ee6d684016b906e7d4b9a26abb41c536a2513106d207),
    (dnskey, Octet.toBE 32 0x9a39cd7be90c02faec39e4d65084c610aa9c5b6245d95e48460cb52b3d58bd9e ++
      Octet.toBE 32 0xadd3ce991d64904b3089b09768ae8249d0d138d2330c3e610caca9bce88bcb06),
    (hop 0, Octet.toBE 32 0x6bf08150656dad8ea83a1ab683f49a9d85bf92ec397507c3b663ca2478e43ad9 ++
      Octet.toBE 32 0x638a288a0946de7d56bc9e5054bef090c82ca550f3570e9cad2e02df21550803),
    (hop 1, Octet.toBE 32 0x6c1efc22a56cce99cac0b7161a203b77f2ee0459ccaa4a5405395f8e7c8b54c9 ++
      Octet.toBE 32 0x155d0e58d338bfc302f6fc6d7ce102c3f0a6c3542314af6dcc9857b47be0ee0a),
    (hop 2, Octet.toBE 32 0x6253b2039d4706d52f3efb56c56b25bb3f8b2768680ea977ba05a7fb4ec5d704 ++
      Octet.toBE 32 0x4703fefa322a2146cadfb88b37814f7209f8d1c3e2e8def959211ab2371c5901),
    (hop 3, Octet.toBE 32 0x856f3b5e337c533924dcdd39e408820de487d7c3c705099d778d9d4924da5c2e ++
      Octet.toBE 32 0x66dd13b5f08434a68187b1cb5d8bd10ddbdf84571207c03a0998328e687d1d0d),
    (hop 4, Octet.toBE 32 0x9e82abf485608ddd565ec9001d7e30058628a67adb428b5e6de209c1d9cbb1a7 ++
      Octet.toBE 32 0xdb9ac61c6dc12092997778761a8209249d7bf6c9d8f1529f7bf9d92456a7b201),
    (address, Octet.toBE 32 0xe8dce5266924c0d410d399224cb8ad991d33a28707e72a8642b55635ed2167b5 ++
      Octet.toBE 32 0x380618d90622d80d314b67519cefbec3ab48ce7f66aa3b6525781dfcb5642607)]

scoped instance : DnssecCrypto := table.crypto fun _ => .zero

scoped instance : Sha2 := table.sha2 digest

theorem fits : table.Fits zone [table.dnskeyRecord] where
  apex := rfl
  publicKey := by decide +kernel
  dnskeys := by decide +kernel
  published := by decide +kernel
  complete := by decide +kernel
  length_le := by decide +kernel
  labels := by decide +kernel
  parse := by decide +kernel

theorem answerSection {rrsets : List ZoneRrset} (hsub : rrsets.Sublist (hops ++ [address]))
    (responses : List DnsMessage) :
    AnswerSection zone [table.dnskeyRecord]
      {now | (Environment.answering responses 1500).Shows now} (rrsets.map .ofRrset)
      (table.signedRecords rrsets) := by
  have hpub : ∀ rrset ∈ hops ++ [address], rrset ∈ zone.published := by decide +kernel
  have hrdata : ∀ rrset ∈ hops ++ [address], rrset.rdatas = [rrset.record.rdata] ∧
      canonicalRdata rrset.record = .ok rrset.record.rdata ∧ rrset.record.rdata.length ≤ 65535 := by
    decide +kernel
  have hnodup : ((hops ++ [address]).map ZoneRrset.name).Nodup := by decide +kernel
  refine fits.answerSection (fun rrset hrrset => hpub rrset (hsub.subset hrrset))
    (fun rrset hrrset => hrdata rrset (hsub.subset hrrset)) (hnodup.sublist (hsub.map _)) ?_
  rintro now ⟨s, s', hnow⟩
  cases hnow
  decide

theorem served {rrset : ZoneRrset} (hrrset : rrset ∈ hops ++ [address]) :
    (ServedRrset.ofRrset rrset).Of zone :=
  (answerSection (List.singleton_sublist.2 hrrset) []).served _ (List.mem_singleton_self _)

theorem hop_mem (i : Fin 5) : hop i ∈ hops ++ [address] := by decide +kernel +revert

theorem address_mem : address ∈ hops ++ [address] := by decide +kernel

theorem isSubdomainOrEqual_name (i : Fin 6) : (name i).isSubdomainOrEqual zone.apex := by
  decide +kernel +revert

theorem link (i : Fin 5) {links : List ServedRrset} {target : DnsName}
    (hrest : CnameLinks zone (name i.succ) links target) :
    CnameLinks zone (name i.castSucc) (.ofRrset (hop i) :: links) target :=
  .cons rfl (served (hop_mem i)) rfl rfl (isSubdomainOrEqual_name i.succ) hrest

def chain : SignedChain zone (name 0) .a where
  links := hops.map .ofRrset
  target := name 5
  ending := .data (.ofRrset address)
  linked := link 0 (link 1 (link 2 (link 3 (link 4 (.nil _)))))
  nodup := by decide +kernel
  cname h := absurd h (by decide)
  ending_of := .data (served address_mem) rfl rfl

/-- A response to the question for the name of a letter. -/
def reply (i : Fin 6) (rrsets : List ZoneRrset) : DnsMessage :=
  .ofSections 0 (name i) .a (table.signedRecords rrsets) []

/-- The whole chain in one response. -/
def whole : Delivery Unit chain where
  env := .answering [table.dnskeyResponse] 1500
  serving := .delegated (table.keys digest)
  server := server
  response := reply 0 (hops ++ [address])
  further := 0
  honest := fits.serves (by decide +kernel)
  split := .whole rfl rfl (answerSection (.refl _) [table.dnskeyResponse])

/-- The response that has one link. -/
def step (i : Fin 5) : DnsMessage := reply i.castSucc [hop i]

def single : List DnsMessage := [step 1, step 2, step 3, step 4, reply 5 [address]]

def env : Environment Unit := .answering single 1500

/-- One of the links, and what comes after it. -/
theorem split_step (i : Fin 5) {next : DnsMessage}
    (hquery : env.dnsQuery server (name i.succ) .a () = .ok next ()) {links : List ServedRrset}
    {n : ℕ}
    (hrest : Split zone [table.dnskeyRecord] {now | env.Shows now}
      (fun name => env.dnsQuery server name .a) chain.target chain.ending (name i.succ) links next n) :
    Split zone [table.dnskeyRecord] {now | env.Shows now}
      (fun name => env.dnsQuery server name .a) chain.target chain.ending (name i.castSucc)
      ([.ofRrset (hop i)] ++ links) (step i) (n + 1) := by
  have hsection := answerSection (List.singleton_sublist.2 (hop_mem i)) single
  exact .part (List.cons_ne_nil _ _) rfl hsection (link i (.nil _)) (fun _ => ⟨(), hquery⟩) hrest

/-- Every link in a response of its own. -/
def stepwise : Delivery Unit chain where
  env := env
  serving := .delegated (table.keys digest)
  server := server
  response := step 0
  further := 5
  honest := fits.serves (by decide +kernel)
  split := by
    have hlast : Split zone [table.dnskeyRecord] {now | env.Shows now}
        (fun name => env.dnsQuery server name .a) chain.target chain.ending (name 5) []
        (reply 5 [address]) 0 :=
      .whole rfl rfl (answerSection (List.singleton_sublist.2 address_mem) single)
    exact split_step 0 (by decide +kernel) (split_step 1 (by decide +kernel)
      (split_step 2 (by decide +kernel) (split_step 3 (by decide +kernel)
        (split_step 4 (by decide +kernel) hlast))))

theorem nsec3Chains : Nsec3Chains zone := by
  constructor <;> intro entry hentry <;> cases hentry

theorem nsecs_eq_nil : zone.nsecs = [] ∨ NsecChain zone := .inl rfl

theorem answersWhen (delivery : Delivery Unit chain) :
    AnswersWhen (chain.links.length + delivery.further ≤ maxCnameChainLen)
      (chain.links.flatMap ServedRrset.records ++ chain.ending.records) (delivery.resolve ()) :=
  (delivery.answersWhen nsecs_eq_nil nsec3Chains ()).of_iff
    (and_iff_right ⟨.inr (by decide), trivial⟩)

theorem length_links : chain.links.length = 5 := rfl

/-- A response for every link is too much for a chain of five. -/
theorem not_sameAnswer {delivery delivery' : Delivery Unit chain} (h : delivery.further = 0)
    (h' : delivery'.further = 5) : ¬SameAnswer (delivery.resolve ()) (delivery'.resolve ()) := by
  rw [(answersWhen delivery).sameAnswer_iff (answersWhen delivery'), h, h', length_links,
    maxCnameChainLen]
  omega

/-- The chain has no more links than the limit, and is not answered alike. -/
theorem exists_not_sameAnswer :
    chain.links.length ≤ maxCnameChainLen ∧
      ∃ delivery delivery' : Delivery Unit chain,
        ¬SameAnswer (delivery.resolve ()) (delivery'.resolve ()) := by
  refine ⟨?_, whole, stepwise, not_sameAnswer rfl rfl⟩
  rw [length_links]
  decide

/-- A server that sends the chain in one response is answered like itself. -/
theorem sameAnswer_whole : SameAnswer (whole.resolve ()) (whole.resolve ()) :=
  (Delivery.sameAnswer_resolve_iff nsecs_eq_nil nsec3Chains whole whole () ()).2 fun _ => Iff.rfl

end DeliverySample

end Hns
