import Hns.Gateway.Handle

/-!
# Failing closed

What is known when the gateway calls the transport and must have secure answers
(`Enforced`): every answer it has got is secure, the address was found in one of
them, at most eight CNAME steps away from the host, the HTTPS records of the
host are all understood, and the TLSA records handed on are all those of the
service, at the port that the HTTPS records have left.

* `Asks`: what a computation finds out, and from which answers; its rules follow
  the computation bind by bind;
* `asks_resolveOriginRequest`: what is found out about an origin;
* `enforced_of_transported`: nothing else is handed to the transport.

The one request that goes out without an address is for a name that has no root
in Handshake.
-/

namespace Hns

open EStateM (checked Keeps)
open DnsName (fromAscii)

/-! ## What the answers say -/

/-- A CNAME record of the list leads from the one name to the other. -/
def IsCname (records : List ResourceRecord) (owner target : DnsName) : Prop :=
  ∃ record ∈ records, record.name = owner ∧ record.recordType = .cname ∧
    recordNameRdata record = some target

/-- So many CNAME records of the list lead from the one name to the other. -/
inductive CnameSteps (records : List ResourceRecord) : ℕ → DnsName → DnsName → Prop
  | refl (owner : DnsName) : CnameSteps records 0 owner owner
  | step {n : ℕ} {owner next target : DnsName} :
      IsCname records owner next → CnameSteps records n next target →
        CnameSteps records (n + 1) owner target

/-- The list has an address for a name to which at most eight CNAME records lead. -/
def Reached (records : List ResourceRecord) (owner : DnsName) (address : List Char) : Prop :=
  ∃ n ≤ maxCnameChainLen, ∃ target, CnameSteps records n owner target ∧
    ∃ record ∈ records, record.name = target ∧
      ∃ ip, recordAddress record = some ip ∧ ip.display = address

theorem isCname_of_cnameTargetForOwner {records : List ResourceRecord} {owner target : DnsName}
    (h : cnameTargetForOwner records owner = some target) : IsCname records owner target := by
  rw [cnameTargetForOwner] at h
  split at h
  · rename_i record hrecords
    have hmem : record ∈ recordsFor records owner .cname := by
      rw [hrecords]
      exact List.mem_cons_self
    obtain ⟨hmem, hrecord⟩ := List.mem_filter.1 hmem
    obtain ⟨hname, htype⟩ := of_decide_eq_true hrecord
    exact ⟨record, hmem, hname, htype, h⟩
  · cases h

theorem exists_cnameSteps {records : List ResourceRecord} {fuel : ℕ} {owner : DnsName} {ip : IpAddr}
    (h : resolvedAddressForOwner records (fuel + 1) owner = some ip) :
    ∃ n ≤ fuel, ∃ target, CnameSteps records n owner target ∧
      ∃ record ∈ records, record.name = target ∧ recordAddress record = some ip := by
  induction fuel generalizing owner with
  | zero =>
    rw [resolvedAddressForOwner, Option.or_eq_some_iff] at h
    rcases h with h | ⟨-, h⟩
    · obtain ⟨record, hrecord, hip⟩ := List.exists_of_findSome?_eq_some h
      obtain ⟨hmem, hname⟩ := List.mem_filter.1 hrecord
      exact ⟨0, le_rfl, owner, .refl owner, record, hmem, of_decide_eq_true hname, hip⟩
    · obtain ⟨target, -, h⟩ := Option.bind_eq_some_iff.1 h
      cases h
  | succ fuel ih =>
    rw [resolvedAddressForOwner, Option.or_eq_some_iff] at h
    rcases h with h | ⟨-, h⟩
    · obtain ⟨record, hrecord, hip⟩ := List.exists_of_findSome?_eq_some h
      obtain ⟨hmem, hname⟩ := List.mem_filter.1 hrecord
      exact ⟨0, Nat.zero_le _, owner, .refl owner, record, hmem, of_decide_eq_true hname, hip⟩
    · obtain ⟨next, hnext, h⟩ := Option.bind_eq_some_iff.1 h
      obtain ⟨n, hn, target, hsteps, hrecord⟩ := ih h
      exact ⟨n + 1, Nat.succ_le_succ hn, target,
        .step (isCname_of_cnameTargetForOwner hnext) hsteps, hrecord⟩

theorem reached_of_firstResolvedAddress {records : List ResourceRecord} {host address : List Char}
    (h : firstResolvedAddress records host = some address) :
    ∃ owner, fromAscii (normalizeHost host) = .ok owner ∧ Reached records owner address := by
  rw [firstResolvedAddress] at h
  split at h
  · rename_i owner howner
    obtain ⟨ip, hip, rfl⟩ := Option.map_eq_some_iff.1 h
    obtain ⟨n, hn, target, hsteps, record, hmem, hname, hrecord⟩ := exists_cnameSteps hip
    exact ⟨owner, howner, n, hn, target, hsteps, record, hmem, hname, ip, hrecord, rfl⟩
  · cases h

/-- An HTTPS record that the gateway understands: well formed, of service mode, for the origin
    itself, and with no mandatory parameter but the protocols and the port. -/
def ServesOrigin (owner : DnsName) (record : ResourceRecord) : Prop :=
  ∃ svcb, SvcbRecord.fromRecord record = .ok svcb ∧ svcb.svcPriority ≠ 0 ∧
    (svcb.targetName = DnsName.root ∨ svcb.targetName = owner) ∧
    validateSupportedMandatoryParams svcb = .ok ()

theorem servesOrigin_of_httpsCandidate {owner : DnsName} {protocols : List OriginProtocol}
    {record : ResourceRecord} {candidate : Option (UInt16 × HttpsServicePolicy)}
    (h : httpsCandidate owner protocols record = .ok candidate) : ServesOrigin owner record := by
  obtain ⟨svcb, hsvcb, h⟩ := Except.bind_eq_ok.1 h
  obtain ⟨halias, h⟩ := Except.throw_unless.1 h
  obtain ⟨htarget, h⟩ := Except.throw_unless.1 h
  obtain ⟨_, hmandatory, _⟩ := Except.bind_eq_ok.1 h
  refine ⟨svcb, Except.mapError_eq_ok.1 hsvcb, ?_, ?_, hmandatory⟩
  · simpa [SvcbRecord.isAliasMode] using halias
  · by_contra hnot
    rw [not_or] at hnot
    exact htarget hnot

/-- The selection from HTTPS records of a name. -/
def selectedServiceOf (owner : DnsName) (services : List ResourceRecord)
    (supportedProtocols : List OriginProtocol) :
    Except GatewayError (Option HttpsServicePolicy) := do
  let candidates ← services.mapM (httpsCandidate owner supportedProtocols)
  match (candidates.filterMap id).foldl preferredPolicy none with
  | some (_, policy) => return some policy
  | none => if services ≠ [] then throw .unsupportedSvcb else return none

theorem selectedHttpsService_eq {records : List ResourceRecord} {host : List Char} {owner : DnsName}
    (h : fromAscii (normalizeHost host) = .ok owner) (protocols : List OriginProtocol) :
    selectedHttpsService records host protocols =
      selectedServiceOf owner (recordsFor records owner .https) protocols := by
  rw [selectedHttpsService, h]
  rfl

/-- A policy is selected only when every HTTPS record is understood, and none is selected only when
    there is no record. -/
theorem selectedServiceOf_eq_ok {owner : DnsName} {services : List ResourceRecord}
    {protocols : List OriginProtocol} {selection : Option HttpsServicePolicy}
    (h : selectedServiceOf owner services protocols = .ok selection) :
    (∀ record ∈ services, ServesOrigin owner record) ∧ (selection = none ↔ services = []) := by
  obtain ⟨candidates, hcandidates, h⟩ := Except.bind_eq_ok.1 h
  refine ⟨?_, ?_, ?_⟩
  · intro record hrecord
    obtain ⟨candidate, -, hcandidate⟩ := (Except.mapM_eq_ok.1 hcandidates).exists_right record hrecord
    exact servesOrigin_of_httpsCandidate hcandidate
  · rintro rfl
    by_contra hne
    cases hselected : (candidates.filterMap id).foldl preferredPolicy none with
    | none =>
      simp only [hselected, if_pos hne] at h
      cases h
    | some selected =>
      simp only [hselected] at h
      cases h
  · rintro rfl
    cases hcandidates
    exact (Except.ok.inj h).symm

theorem selectedHttpsService_eq_ok {records : List ResourceRecord} {host : List Char}
    {protocols : List OriginProtocol} {selection : Option HttpsServicePolicy}
    (h : selectedHttpsService records host protocols = .ok selection) :
    ∃ owner, fromAscii (normalizeHost host) = .ok owner ∧
      (∀ record ∈ recordsFor records owner .https, ServesOrigin owner record) ∧
      (selection = none ↔ recordsFor records owner .https = []) := by
  obtain ⟨owner, howner, -⟩ := Except.bind_eq_ok.1 h
  have howner := Except.mapError_eq_ok.1 howner
  rw [selectedHttpsService_eq howner] at h
  exact ⟨owner, howner, selectedServiceOf_eq_ok h⟩

theorem forall₂_of_tlsaRecords {records : List ResourceRecord} {qname : List Char}
    {service : DnsName} {found : List TlsaRecord} (hservice : fromAscii qname = .ok service)
    (h : tlsaRecords records qname = .ok found) :
    List.Forall₂ (fun record tlsa => TlsaRecord.parseRdata record.rdata = .ok tlsa)
      (recordsFor records service .tlsa) found := by
  rw [tlsaRecords, hservice] at h
  exact (Except.mapM_eq_ok.1 h).imp fun _ _ => Except.mapError_eq_ok.1

theorem exists_fromAscii_of_tlsaResolutionRequest {host : List Char} {port : UInt16}
    {query : ResolutionRequest} (h : tlsaResolutionRequest host port = some query) :
    ∃ service, fromAscii query.qname = .ok service := by
  rw [tlsaResolutionRequest] at h
  split at h
  · rename_i qname hqname
    cases h
    exact ⟨qname, DnsName.fromAscii_display qname⟩
  · cases h

/-- What a selection makes of a request. -/
def OriginRequest.applyPolicy (request : OriginRequest) :
    Option HttpsServicePolicy → OriginRequest
  | none => request
  | some policy =>
    { request with port := policy.port.getD request.port, protocol := policy.protocol }

theorem applyHttpsServicePolicy_eq_ok {records : List ResourceRecord} {request : OriginRequest}
    {protocols : List OriginProtocol} {applied : Option OriginRequest}
    (h : applyHttpsServicePolicy records request protocols = .ok applied) :
    ∃ selection, selectedHttpsService records request.host protocols = .ok selection ∧
      applied.getD request = request.applyPolicy selection ∧
      (applied = none ↔ selection = none) := by
  obtain ⟨selection, hselection, h⟩ := Except.bind_eq_ok.1 h
  refine ⟨selection, hselection, ?_⟩
  cases selection <;> cases h
  · exact ⟨rfl, by simp⟩
  · exact ⟨rfl, by simp⟩

theorem applyPolicy_frame (request : OriginRequest) (selection : Option HttpsServicePolicy) :
    (request.applyPolicy selection).host = request.host ∧
      (request.applyPolicy selection).connectHost = request.connectHost ∧
      (request.applyPolicy selection).tls = request.tls := by
  cases selection <;> exact ⟨rfl, rfl, rfl⟩

/-! ## What is asked -/

/-- The answers that a computation has got when it succeeds, in order, all secure, and what it has
    found out from them. -/
def Asks {α : Type} (x : GatewayM α)
    (post : List (ResolutionRequest × ResolutionAnswer) → α → Prop) : Prop :=
  ∀ s a s', x s = .ok a s' → ∃ asked, s'.consulted = s.consulted ++ asked ∧
    (∀ c ∈ asked, c.2.secure = true) ∧ post asked a

section Asks

variable {α β : Type} {post post' : List (ResolutionRequest × ResolutionAnswer) → α → Prop}
  {post'' : List (ResolutionRequest × ResolutionAnswer) → β → Prop}

theorem Asks.pure {a : α} (h : post [] a) : Asks (pure a : GatewayM α) post := by
  rintro s _ _ ⟨⟩
  exact ⟨[], (List.append_nil _).symm, fun _ hc => absurd hc List.not_mem_nil, h⟩

theorem Asks.of_throw (e : GatewayError) : Asks (throw e : GatewayM α) post := by
  rintro s _ _ ⟨⟩

theorem Asks.checked {x : Except GatewayError α} (h : ∀ a, x = .ok a → post [] a) :
    Asks (checked x) post := by
  intro s a s' hrun
  obtain ⟨hx, rfl⟩ := EStateM.checked_eq_ok.1 hrun
  exact ⟨[], (List.append_nil _).symm, fun _ hc => absurd hc List.not_mem_nil, h a hx⟩

theorem Asks.bind {x : GatewayM α} {f : α → GatewayM β} (hx : Asks x post)
    (hf : ∀ asked a, post asked a → Asks (f a) fun asked' b => post'' (asked ++ asked') b) :
    Asks (x >>= f) post'' := by
  intro s b s' h
  obtain ⟨a, s₁, h₁, h₂⟩ := EStateM.run_bind_eq_ok.1 h
  obtain ⟨asked, hlog, hsecure, hpost⟩ := hx s a s₁ h₁
  obtain ⟨asked', hlog', hsecure', hpost'⟩ := hf asked a hpost s₁ b s' h₂
  refine ⟨asked ++ asked', by rw [hlog', hlog, List.append_assoc], ?_, hpost'⟩
  rw [List.forall_mem_append]
  exact ⟨hsecure, hsecure'⟩

theorem Asks.throw_unless {c : Prop} [Decidable c] {e : GatewayError} {f : PUnit → GatewayM α}
    (hf : ¬c → Asks (f ⟨⟩) post) : Asks (if c then throw e >>= f else f ⟨⟩) post := by
  intro s a s' h
  obtain ⟨hc, h⟩ := EStateM.throw_unless.1 h
  exact hf hc s a s' h

theorem Asks.mono {x : GatewayM α} (hx : Asks x post) (h : ∀ asked a, post asked a → post' asked a) :
    Asks x post' := by
  intro s a s' hrun
  obtain ⟨asked, hlog, hsecure, hpost⟩ := hx s a s' hrun
  exact ⟨asked, hlog, hsecure, h asked a hpost⟩

end Asks

/-! ## What is found -/

section Finds

variable {host : List Char} {port : UInt16}
  {asked asked' : List (ResolutionRequest × ResolutionAnswer)}

/-- The selection that is applied: that of the first answer, or, if it has no HTTPS record of the
    host, that of the answer to a lookup. -/
def FindsService (host : List Char) (resolution : ResolutionAnswer)
    (protocols : List OriginProtocol) (asked : List (ResolutionRequest × ResolutionAnswer))
    (service : Option HttpsServicePolicy) : Prop :=
  ∃ selection, selectedHttpsService resolution.records host protocols = .ok selection ∧
    (selection ≠ none → service = selection) ∧
    (selection = none → ∃ answer, (⟨normalizeHost host, RecordType.https.code⟩, answer) ∈ asked ∧
      selectedHttpsService answer.records host protocols = .ok service)

theorem FindsService.mono {resolution : ResolutionAnswer} {protocols : List OriginProtocol}
    {service : Option HttpsServicePolicy} (h : FindsService host resolution protocols asked service)
    (hsub : asked ⊆ asked') : FindsService host resolution protocols asked' service := by
  obtain ⟨selection, hselection, hsame, hother⟩ := h
  refine ⟨selection, hselection, hsame, fun hnone => ?_⟩
  obtain ⟨answer, hmem, hanswer⟩ := hother hnone
  exact ⟨answer, hsub hmem, hanswer⟩

/-- The TLSA records that are handed on: none if the service has no name, else those of the name in
    the answer to a lookup of it. -/
def FindsTlsa (host : List Char) (port : UInt16)
    (asked : List (ResolutionRequest × ResolutionAnswer)) (secure : Bool)
    (found : List TlsaRecord) : Prop :=
  (tlsaResolutionRequest host port = none ∧ secure = false ∧ found = []) ∨
    ∃ query answer, tlsaResolutionRequest host port = some query ∧ (query, answer) ∈ asked ∧
      secure = true ∧ tlsaRecords answer.records query.qname = .ok found

theorem FindsTlsa.mono {secure : Bool} {found : List TlsaRecord}
    (h : FindsTlsa host port asked secure found) (hsub : asked ⊆ asked') :
    FindsTlsa host port asked' secure found := by
  rcases h with hnone | ⟨query, answer, hquery, hmem, rest⟩
  · exact .inl hnone
  · exact .inr ⟨query, answer, hquery, hsub hmem, rest⟩

end Finds

/-! ## What the gateway asks -/

namespace Gateway

variable {τ : Type} [Digests] {gateway : Gateway τ}

theorem asks_resolveSecurely (hsecure : gateway.config.requireSecureResolution = true)
    (request : ResolutionRequest) :
    Asks (gateway.resolveSecurely request) fun asked answer => asked = [(request, answer)] := by
  intro s answer s' h
  rw [resolveSecurely, EStateM.run_bind_eq_ok] at h
  obtain ⟨answer', s₁, hresolve, h⟩ := h
  obtain ⟨hinsecure, h⟩ := EStateM.throw_unless.1 h
  cases h
  rw [resolve] at hresolve
  cases hanswer : gateway.resolver request with
  | error error =>
    rw [hanswer] at hresolve
    cases hresolve
  | ok answer =>
    rw [hanswer] at hresolve
    cases hresolve
    refine ⟨[(request, answer)], rfl, ?_, rfl⟩
    rw [List.forall_mem_singleton]
    simpa [hsecure] using hinsecure

theorem asks_resolveTlsaRecords (hsecure : gateway.config.requireSecureResolution = true)
    (host : List Char) (port : UInt16) :
    Asks (gateway.resolveTlsaRecords host port) fun asked found =>
      FindsTlsa host port asked found.1 found.2 := by
  rw [resolveTlsaRecords]
  cases hrequest : tlsaResolutionRequest host port with
  | none => exact .pure (.inl ⟨hrequest, rfl, rfl⟩)
  | some request =>
    intro s found s' h
    obtain ⟨answer, s₁, hanswer, h⟩ := EStateM.run_bind_eq_ok.1 h
    obtain ⟨records, hrecords, h⟩ := EStateM.checked_bind_eq_ok.1 h
    cases h
    obtain ⟨asked, hlog, hall, rfl⟩ := asks_resolveSecurely hsecure request s answer s' hanswer
    have htrue : answer.secure = true := by simpa using hall
    exact ⟨_, hlog, hall, .inr ⟨request, answer, hrequest, List.mem_cons_self, htrue, hrecords⟩⟩

/-- The address that is looked up is from one of the answers. -/
theorem asks_resolveOriginAddress (hsecure : gateway.config.requireSecureResolution = true)
    (host : List Char) :
    Asks (gateway.resolveOriginAddress host) fun asked found =>
      ∀ address, found = some address →
        ∃ c ∈ asked, firstResolvedAddress c.2.records host = some address := by
  have hloop (qtypes : List RecordType) :
      Asks (gateway.resolveOriginAddressLoop host qtypes) fun asked found =>
        ∀ address, found = some address →
          ∃ c ∈ asked, firstResolvedAddress c.2.records host = some address := by
    induction qtypes with
    | nil => exact .pure fun _ h => absurd h (Option.some_ne_none _).symm
    | cons qtype qtypes ih =>
      refine (asks_resolveSecurely hsecure _).bind ?_
      rintro _ answer rfl
      cases haddress : firstResolvedAddress answer.records host with
      | some address =>
        refine .pure ?_
        rintro _ ⟨⟩
        exact ⟨_, List.mem_cons_self, haddress⟩
      | none =>
        refine ih.mono fun asked found hfound address h => ?_
        obtain ⟨c, hc, hfound⟩ := hfound address h
        exact ⟨c, List.mem_cons_of_mem _ hc, hfound⟩
  exact hloop _

/-- The address that is handed on: one found in an answer, or none if the name asked for has no root
    in Handshake. -/
def FindsConnectHost (request : GatewayRequest)
    (asked : List (ResolutionRequest × ResolutionAnswer)) (found : Option (List Char)) : Prop :=
  (∃ address, ∃ c ∈ asked, found = some address ∧
      firstResolvedAddress c.2.records request.origin.host = some address) ∨
    found = none ∧ (hnsRootLabel request.resolution.qname).isOk = false

theorem FindsConnectHost.mono {request : GatewayRequest}
    {asked asked' : List (ResolutionRequest × ResolutionAnswer)} {found : Option (List Char)}
    (h : FindsConnectHost request asked found) (hsub : asked ⊆ asked') :
    FindsConnectHost request asked' found := by
  rcases h with ⟨address, c, hc, rest⟩ | hnone
  · exact .inl ⟨address, c, hsub hc, rest⟩
  · exact .inr hnone

theorem asks_resolveConnectHost (hsecure : gateway.config.requireSecureResolution = true)
    {request : GatewayRequest} (hconnect : request.origin.connectHost = none)
    (resolution : ResolutionAnswer) :
    Asks (gateway.resolveConnectHost request resolution) fun asked found =>
      FindsConnectHost request ((request.resolution, resolution) :: asked) found := by
  rw [resolveConnectHost, hconnect]
  cases haddress : firstResolvedAddress resolution.records request.origin.host with
  | some address =>
    have hfound : FindsConnectHost request [(request.resolution, resolution)] (some address) :=
      .inl ⟨address, (request.resolution, resolution), List.mem_cons_self, rfl, haddress⟩
    exact .pure hfound
  | none =>
    cases hroot : (hnsRootLabel request.resolution.qname).isOk with
    | false =>
      have hfound : FindsConnectHost request [(request.resolution, resolution)] none :=
        .inr ⟨rfl, hroot⟩
      exact .pure hfound
    | true =>
      refine (asks_resolveOriginAddress hsecure request.origin.host).bind ?_
      intro asked found hfound
      cases found with
      | none => exact .of_throw _
      | some address =>
        obtain ⟨c, hc, hrecords⟩ := hfound address rfl
        refine .pure (.inl ⟨address, c, ?_, rfl, hrecords⟩)
        exact List.mem_cons_of_mem _ (List.mem_append_left _ hc)

theorem asks_resolveHttpsServicePolicy (hsecure : gateway.config.requireSecureResolution = true)
    (request : OriginRequest) (protocols : List OriginProtocol) :
    Asks (gateway.resolveHttpsServicePolicy request protocols) fun asked applied =>
      ∃ answer selection, (⟨normalizeHost request.host, RecordType.https.code⟩, answer) ∈ asked ∧
        selectedHttpsService answer.records request.host protocols = .ok selection ∧
        applied = request.applyPolicy selection := by
  refine (asks_resolveSecurely hsecure _).bind ?_
  rintro _ answer rfl
  intro s applied s' h
  obtain ⟨applied', happlied, h⟩ := EStateM.checked_bind_eq_ok.1 h
  cases h
  obtain ⟨selection, hselection, hresult, -⟩ := applyHttpsServicePolicy_eq_ok happlied
  exact ⟨[], (List.append_nil _).symm, fun _ hc => absurd hc List.not_mem_nil, answer, selection,
    List.mem_cons_self, hselection, hresult⟩

theorem asks_resolveService (hsecure : gateway.config.requireSecureResolution = true)
    (resolution : ResolutionAnswer) (protocols : List OriginProtocol) (request : OriginRequest) :
    Asks (gateway.resolveService resolution protocols request) fun asked applied =>
      ∃ service, FindsService request.host resolution protocols asked service ∧
        applied = request.applyPolicy service := by
  have hread : Asks (checked (applyHttpsServicePolicy resolution.records request protocols))
      fun asked applied => asked = [] ∧
        applyHttpsServicePolicy resolution.records request protocols = .ok applied :=
    .checked fun _ h => ⟨rfl, h⟩
  refine Asks.bind hread ?_
  rintro _ applied ⟨rfl, happlied⟩
  obtain ⟨selection, hselection, hresult, hnone⟩ := applyHttpsServicePolicy_eq_ok happlied
  cases applied with
  | some applied =>
    have hsome : selection ≠ none := fun h => absurd (hnone.2 h) (Option.some_ne_none _)
    exact .pure ⟨selection, ⟨selection, hselection, fun _ => rfl, fun h => absurd h hsome⟩, hresult⟩
  | none =>
    obtain rfl := hnone.1 rfl
    refine (asks_resolveHttpsServicePolicy hsecure request protocols).mono ?_
    rintro asked found ⟨answer, service, hmem, hservice, rfl⟩
    exact ⟨service, ⟨none, hselection, fun h => absurd rfl h, fun _ => ⟨answer, hmem, hservice⟩⟩, rfl⟩

/-- What is found for the TLS of an origin. -/
structure FindsTls (gateway : Gateway τ) (request : OriginRequest) (resolution : ResolutionAnswer)
    (protocols : List OriginProtocol) (asked : List (ResolutionRequest × ResolutionAnswer))
    (found : OriginRequest) : Prop where
  service : ∃ service, FindsService request.host resolution protocols asked service ∧
    found.port = (request.applyPolicy service).port
  tlsa : FindsTlsa request.host found.port asked found.tls.dnssecSecure found.tls.tlsaRecords
  mode : found.tls.mode = gateway.config.hnsHttpsMode.domainTrustMode

theorem FindsTls.mono {request : OriginRequest} {resolution : ResolutionAnswer}
    {protocols : List OriginProtocol} {asked asked' : List (ResolutionRequest × ResolutionAnswer)}
    {found : OriginRequest} (h : FindsTls gateway request resolution protocols asked found)
    (hsub : asked ⊆ asked') : FindsTls gateway request resolution protocols asked' found := by
  obtain ⟨⟨service, hservice, hport⟩, htlsa, hmode⟩ := h
  exact ⟨⟨service, hservice.mono hsub, hport⟩, htlsa.mono hsub, hmode⟩

theorem asks_resolveTls (hsecure : gateway.config.requireSecureResolution = true)
    (resolution : ResolutionAnswer) (protocols : List OriginProtocol) (request : OriginRequest) :
    Asks (gateway.resolveTls resolution protocols request) fun asked found =>
      found.connectHost = request.connectHost ∧
        FindsTls gateway request resolution protocols asked found := by
  refine (asks_resolveService hsecure resolution protocols _).bind ?_
  rintro asked _ ⟨service, hservice, rfl⟩
  obtain ⟨hhost, hconnect, htls⟩ := applyPolicy_frame { request with
    tls := { request.tls with mode := gateway.config.hnsHttpsMode.domainTrustMode } } service
  refine (asks_resolveTlsaRecords hsecure _ _).bind ?_
  rintro asked' ⟨secure, records⟩ hfound
  rw [hhost] at hfound
  have hsub : asked ⊆ asked ++ (asked' ++ []) := List.subset_append_left _ _
  have hsub' : asked' ⊆ asked ++ (asked' ++ []) := by simp
  refine .pure ⟨hconnect, ⟨service, hservice.mono hsub, ?_⟩, hfound.mono hsub', ?_⟩
  · cases service <;> rfl
  · rw [htls]

/-- What is found when an origin has been resolved. -/
structure FindsOrigin (gateway : Gateway τ) (request : GatewayRequest)
    (protocols : List OriginProtocol) (asked : List (ResolutionRequest × ResolutionAnswer))
    (found : ResolutionAnswer × OriginRequest) : Prop where
  first : (request.resolution, found.1) ∈ asked
  connectHost : FindsConnectHost request asked found.2.connectHost
  tls : isTlsOriginScheme request.origin.scheme = true →
    FindsTls gateway request.origin found.1 protocols asked found.2

theorem asks_resolveScheme (hsecure : gateway.config.requireSecureResolution = true)
    (resolution : ResolutionAnswer) (protocols : List OriginProtocol) (request : OriginRequest) :
    Asks (gateway.resolveScheme resolution protocols request) fun asked found =>
      found.connectHost = request.connectHost ∧ (isTlsOriginScheme request.scheme = true →
        FindsTls gateway request resolution protocols asked found) := by
  rw [resolveScheme]
  by_cases hscheme : isTlsOriginScheme request.scheme = true
  · rw [if_pos hscheme]
    refine (asks_resolveTls hsecure resolution protocols request).mono ?_
    rintro asked found ⟨hconnect, hfound⟩
    exact ⟨hconnect, fun _ => hfound⟩
  · rw [if_neg hscheme]
    exact .pure ⟨rfl, fun h => absurd h hscheme⟩

theorem asks_resolveOriginRequest (hsecure : gateway.config.requireSecureResolution = true)
    {request : GatewayRequest} (hconnect : request.origin.connectHost = none)
    (protocols : List OriginProtocol) :
    Asks (gateway.resolveOriginRequest request protocols)
      (FindsOrigin gateway request protocols) := by
  rw [resolveOriginRequest]
  apply Asks.throw_unless
  intro _
  refine (asks_resolveSecurely hsecure request.resolution).bind ?_
  rintro first resolution rfl
  refine (asks_resolveConnectHost hsecure hconnect resolution).bind ?_
  intro asked connectHost haddress
  refine (asks_resolveScheme hsecure resolution protocols _).bind ?_
  rintro asked' found ⟨hkept, htls⟩
  have hearlier : (request.resolution, resolution) :: asked ⊆
      [(request.resolution, resolution)] ++ (asked ++ (asked' ++ [])) := by
    rw [← List.append_assoc]
    exact List.subset_append_left _ _
  have hlater : asked' ⊆ [(request.resolution, resolution)] ++ (asked ++ (asked' ++ [])) := by
    intro c hc
    simp [hc]
  refine .pure ⟨hearlier List.mem_cons_self, ?_, fun hscheme => ?_⟩
  · rw [hkept]
    exact haddress.mono hearlier
  · obtain ⟨⟨service, hservice, hport⟩, htlsa, hmode⟩ := htls hscheme
    refine ⟨⟨service, hservice.mono hlater, ?_⟩, htlsa.mono hlater, hmode⟩
    rw [hport]
    cases service <;> rfl

/-! ## The transport is called -/

theorem keeps_resolveSecurely (request : ResolutionRequest) :
    Keeps GatewayState.transported (gateway.resolveSecurely request) := by
  refine Keeps.bind ?_ fun answer => .throw_unless (.pure answer)
  intro s
  rw [resolve]
  cases gateway.resolver request <;> rfl

theorem keeps_resolveTlsaRecords (host : List Char) (port : UInt16) :
    Keeps GatewayState.transported (gateway.resolveTlsaRecords host port) := by
  rw [resolveTlsaRecords]
  cases tlsaResolutionRequest host port with
  | none => exact .pure _
  | some request =>
    exact (keeps_resolveSecurely request).bind fun _ => (Keeps.checked _).bind fun _ => .pure _

theorem keeps_resolveOriginAddress (host : List Char) :
    Keeps GatewayState.transported (gateway.resolveOriginAddress host) := by
  have hloop (qtypes : List RecordType) :
      Keeps GatewayState.transported (gateway.resolveOriginAddressLoop host qtypes) := by
    induction qtypes with
    | nil => exact .pure _
    | cons qtype qtypes ih =>
      refine (keeps_resolveSecurely _).bind fun answer => ?_
      cases firstResolvedAddress answer.records host with
      | some address => exact .pure _
      | none => exact ih
  exact hloop _

theorem keeps_resolveConnectHost (request : GatewayRequest) (resolution : ResolutionAnswer) :
    Keeps GatewayState.transported (gateway.resolveConnectHost request resolution) := by
  rw [resolveConnectHost]
  cases request.origin.connectHost with
  | some connectHost => exact .pure _
  | none =>
    cases firstResolvedAddress resolution.records request.origin.host with
    | some address => exact .pure _
    | none =>
      refine .ite ((keeps_resolveOriginAddress _).bind fun found => ?_) (.pure _)
      cases found with
      | some address => exact .pure _
      | none => exact fun _ => rfl

theorem keeps_resolveTls (resolution : ResolutionAnswer) (protocols : List OriginProtocol)
    (request : OriginRequest) :
    Keeps GatewayState.transported (gateway.resolveTls resolution protocols request) := by
  refine Keeps.bind ?_ fun applied => (keeps_resolveTlsaRecords _ _).bind fun _ => .pure _
  refine (Keeps.checked _).bind fun applied => ?_
  cases applied with
  | some applied => exact .pure _
  | none => exact (keeps_resolveSecurely _).bind fun _ => (Keeps.checked _).bind fun _ => .pure _

/-- Nothing is handed to the transport while the origin is being resolved. -/
theorem keeps_resolveOriginRequest (request : GatewayRequest) (protocols : List OriginProtocol) :
    Keeps GatewayState.transported (gateway.resolveOriginRequest request protocols) := by
  rw [resolveOriginRequest]
  apply Keeps.throw_unless
  refine (keeps_resolveSecurely _).bind fun resolution => ?_
  refine (keeps_resolveConnectHost request resolution).bind fun connectHost => ?_
  refine Keeps.bind ?_ fun _ => .pure _
  rw [resolveScheme]
  exact .ite (keeps_resolveTls _ _ _) (.pure _)

/-- What is known of a request that is handed to the transport, and of the answers that have been
    got until then. -/
structure Enforced (gateway : Gateway τ) (request : GatewayRequest)
    (protocols : List OriginProtocol) (consulted : List (ResolutionRequest × ResolutionAnswer))
    (originRequest : OriginRequest) : Prop where
  secure : ∀ c ∈ consulted, c.2.secure = true
  address : (∃ address owner, originRequest.connectHost = some address ∧
      fromAscii (normalizeHost request.origin.host) = .ok owner ∧
      ∃ c ∈ consulted, Reached c.2.records owner address) ∨
    originRequest.connectHost = none ∧ (hnsRootLabel request.resolution.qname).isOk = false
  tlsa : isTlsOriginScheme request.origin.scheme = true →
    originRequest.tls.mode = gateway.config.hnsHttpsMode.domainTrustMode ∧
    ((tlsaResolutionRequest request.origin.host originRequest.port = none ∧
      originRequest.tls.dnssecSecure = false ∧ originRequest.tls.tlsaRecords = []) ∨
    ∃ query answer, tlsaResolutionRequest request.origin.host originRequest.port = some query ∧
      (query, answer) ∈ consulted ∧ originRequest.tls.dnssecSecure = true ∧
      ∃ service, fromAscii query.qname = .ok service ∧
        List.Forall₂ (fun record tlsa => TlsaRecord.parseRdata record.rdata = .ok tlsa)
          (recordsFor answer.records service .tlsa) originRequest.tls.tlsaRecords)
  https : isTlsOriginScheme request.origin.scheme = true →
    ∃ owner, fromAscii (normalizeHost request.origin.host) = .ok owner ∧
      ∃ resolution, (request.resolution, resolution) ∈ consulted ∧
        (∀ record ∈ recordsFor resolution.records owner .https, ServesOrigin owner record) ∧
        ∃ answer selection,
          (recordsFor resolution.records owner .https ≠ [] ∧ answer = resolution ∨
            recordsFor resolution.records owner .https = [] ∧
              (⟨normalizeHost request.origin.host, RecordType.https.code⟩, answer) ∈ consulted) ∧
          (∀ record ∈ recordsFor answer.records owner .https, ServesOrigin owner record) ∧
          selectedHttpsService answer.records request.origin.host protocols = .ok selection ∧
          (selection = none ↔ recordsFor answer.records owner .https = []) ∧
          originRequest.port = (request.origin.applyPolicy selection).port

/-- What is found out about an origin is what is known of the request. -/
theorem enforced_of_resolveOriginRequest
    (hsecure : gateway.config.requireSecureResolution = true) {request : GatewayRequest}
    (hconnect : request.origin.connectHost = none) {protocols : List OriginProtocol}
    {s : GatewayState} {found : ResolutionAnswer × OriginRequest}
    (h : gateway.resolveOriginRequest request protocols .initial = .ok found s) :
    Enforced gateway request protocols s.consulted found.2 := by
  obtain ⟨asked, hlog, hall, hfirst, haddress, htls⟩ :=
    asks_resolveOriginRequest hsecure hconnect protocols .initial found s h
  obtain rfl : s.consulted = asked := hlog
  refine ⟨hall, ?_, ?_, ?_⟩
  · rcases haddress with ⟨address, c, hc, hconnectHost, hfirst⟩ | hnone
    · obtain ⟨owner, howner, hreached⟩ := reached_of_firstResolvedAddress hfirst
      exact .inl ⟨address, owner, hconnectHost, howner, c, hc, hreached⟩
    · exact .inr hnone
  · intro hscheme
    obtain ⟨-, htlsa, hmode⟩ := htls hscheme
    refine ⟨hmode, ?_⟩
    rcases htlsa with hnone | ⟨query, answer, hquery, hmem, htrue, hrecords⟩
    · exact .inl hnone
    · obtain ⟨name, hname⟩ := exists_fromAscii_of_tlsaResolutionRequest hquery
      exact .inr ⟨query, answer, hquery, hmem, htrue, name, hname,
        forall₂_of_tlsaRecords hname hrecords⟩
  · intro hscheme
    obtain ⟨⟨service, ⟨selection, hselection, hsame, hother⟩, hport⟩, -, -⟩ := htls hscheme
    obtain ⟨owner, howner, hserves, hnone⟩ := selectedHttpsService_eq_ok hselection
    refine ⟨owner, howner, found.1, hfirst, hserves, ?_⟩
    cases selection with
    | some policy =>
      obtain rfl := hsame (Option.some_ne_none _)
      have hne : recordsFor found.1.records owner .https ≠ [] :=
        fun h => absurd (hnone.2 h) (Option.some_ne_none _)
      exact ⟨found.1, some policy, .inl ⟨hne, rfl⟩, hserves, hselection, hnone, hport⟩
    | none =>
      obtain ⟨answer, hmem, hanswer⟩ := hother rfl
      obtain ⟨owner', howner', hserves', hnone'⟩ := selectedHttpsService_eq_ok hanswer
      obtain rfl : owner = owner' := by simpa [howner] using howner'
      exact ⟨answer, service, .inr ⟨hnone.1 rfl, hmem⟩, hserves', hanswer, hnone', hport⟩

theorem enforced_of_bind (hsecure : gateway.config.requireSecureResolution = true)
    {request : GatewayRequest} (hconnect : request.origin.connectHost = none)
    {protocols : List OriginProtocol} {α : Type}
    {serve : ResolutionAnswer × OriginRequest → GatewayM α}
    (hserve : ∀ found s, (serve found s).state.consulted = s.consulted ∧
      (serve found s).state.transported = s.transported ++ [found.2]) :
    ∀ r ∈ ((gateway.resolveOriginRequest request protocols >>= serve) .initial).state.transported,
      Enforced gateway request protocols
        ((gateway.resolveOriginRequest request protocols >>= serve) .initial).state.consulted r := by
  have hkeeps : (gateway.resolveOriginRequest request protocols .initial).state.transported = [] :=
    keeps_resolveOriginRequest request protocols .initial
  intro r
  cases hresolve : gateway.resolveOriginRequest request protocols .initial with
  | error e s =>
    rw [EStateM.bind_error hresolve]
    rw [hresolve] at hkeeps
    intro hr
    change r ∈ s.transported at hr
    rw [show s.transported = [] from hkeeps] at hr
    cases hr
  | ok found s =>
    rw [EStateM.bind_ok hresolve]
    rw [hresolve] at hkeeps
    obtain ⟨hconsulted, htransported⟩ := hserve found s
    rw [hconsulted, htransported, show s.transported = [] from hkeeps, List.nil_append,
      List.mem_singleton]
    rintro rfl
    exact enforced_of_resolveOriginRequest hsecure hconnect hresolve

omit [Digests] in
theorem serve_state {α β : Type} (request : OriginRequest) (result : Except TransportError α)
    (response : α → β) (s : GatewayState) :
    ((call request result >>= fun origin => pure (response origin)) s).state =
      { s with transported := s.transported ++ [request] } := by
  cases result <;> rfl

/-- Whatever the resolver and the transport are: when a gateway that must have secure answers calls
    the transport for a request without an address of its own, what is handed on is `Enforced`. -/
theorem enforced_of_transported (hsecure : gateway.config.requireSecureResolution = true)
    {request : GatewayRequest} (hconnect : request.origin.connectHost = none) :
    (∀ r ∈ (gateway.handle request .initial).state.transported,
      Enforced gateway request gateway.config.supportedOriginProtocols
        (gateway.handle request .initial).state.consulted r) ∧
    (∀ r ∈ (gateway.handleToWriter request .initial).state.transported,
      Enforced gateway request gateway.config.supportedOriginProtocols
        (gateway.handleToWriter request .initial).state.consulted r) ∧
    ∀ r ∈ (gateway.handleTunnel request .initial).state.transported,
      Enforced gateway request [.http11]
        (gateway.handleTunnel request .initial).state.consulted r := by
  refine ⟨enforced_of_bind hsecure hconnect fun found s => ?_,
    enforced_of_bind hsecure hconnect fun found s => ?_,
    enforced_of_bind hsecure hconnect fun found s => ?_⟩
  · rw [serve_state]
    exact ⟨rfl, rfl⟩
  · have hget : (get : GatewayM GatewayState) s = .ok s s := rfl
    dsimp only
    rw [EStateM.bind_ok hget]
    have hwrite (written : List UInt8) :
        (modify fun s => { s with written := written } : GatewayM PUnit) s =
          .ok ⟨⟩ { s with written := written } := rfl
    rw [EStateM.bind_ok (hwrite _), serve_state]
    exact ⟨rfl, rfl⟩
  · rw [serve_state]
    exact ⟨rfl, rfl⟩

end Gateway

namespace GatewaySample

/-- The hash of `site`. -/
scoped instance digests : Digests where
  blake2b256 _ := .zero
  blake2b512 _ := .zero
  sha3 input := if input = utf8 (Chars.of "site") then
      .ofNat 0x9ce63625561f5d4a37958999a56c70d9929c888a339ebafeb6bd0e9a40f43660
    else .zero

def site : DnsName :=
  ⟨[⟨[0x73, 0x69, 0x74, 0x65], by decide, by decide, by decide, by decide⟩], by decide⟩

def service : DnsName :=
  ⟨⟨[0x5f, 0x34, 0x34, 0x33], by decide, by decide, by decide, by decide⟩ ::
    ⟨[0x5f, 0x74, 0x63, 0x70], by decide, by decide, by decide, by decide⟩ :: site.labels, by decide⟩

/-- The address of `site` and one TLSA record of it, and nothing of any other name. -/
def resolver : Resolver := fun request =>
  if request = ⟨Chars.of "site", RecordType.a.code⟩ then
    .ok ⟨site, [⟨site, .a, 1, 300, [192, 0, 2, 1]⟩], true⟩
  else if request.qtype = RecordType.tlsa.code then
    .ok ⟨service, [⟨service, .tlsa, 1, 300, [3, 1, 1] ++ List.replicate 32 0⟩], true⟩
  else .ok ⟨site, [], true⟩

def gateway : Gateway Unit where
  config := ⟨true, .strict, [.http11]⟩
  resolver := resolver
  transport := ⟨fun _ => .error .invalidRequest, fun _ body => (.error .invalidRequest, body),
    fun _ => .error .invalidRequest⟩

def request (scheme host : List Char) : GatewayRequest where
  origin := ⟨Chars.of "GET", scheme, host, none, 443, Chars.of "/", .http11, ⟨.hnsStrict, false, []⟩,
    [], []⟩
  resolution := ⟨host, RecordType.a.code⟩

/-- The request for `https://site` is handed to the transport once, and is enforced. -/
theorem site_enforced :
    (gateway.handle (request (Chars.of "https") (Chars.of "site")) .initial).state.transported.length =
        1 ∧
      ∀ r ∈ (gateway.handle (request (Chars.of "https") (Chars.of "site"))
          .initial).state.transported,
        Gateway.Enforced gateway (request (Chars.of "https") (Chars.of "site"))
          gateway.config.supportedOriginProtocols
          (gateway.handle (request (Chars.of "https") (Chars.of "site")) .initial).state.consulted r := by
  have hsecure : gateway.config.requireSecureResolution = true := rfl
  exact ⟨by decide +kernel, (Gateway.enforced_of_transported hsecure rfl).1⟩

/-- The request for `http://localhost`, a name that Handshake has no root for, is handed to the
    transport though no address of it is known. -/
theorem exists_transported_without_address :
    gateway.config.requireSecureResolution = true ∧
      (request (Chars.of "http") (Chars.of "localhost")).origin.connectHost = none ∧
      ∃ r ∈ (gateway.handle (request (Chars.of "http") (Chars.of "localhost"))
          .initial).state.transported, r.connectHost = none := by
  refine ⟨rfl, rfl, ?_⟩
  decide +kernel

end GatewaySample

end Hns
