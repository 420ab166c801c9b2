import Hns.Browser.GatewayHead
import Hns.Browser.SyncProgress

/-!
# The security state of a page

What the app shows beside the address of a page (`BrowserSecurityPolicy.state`): taken from what it
has read of the response or, as long as there is none, of the status of the synchronisation. A page
is shown as verified just when the gateway has found it so and no DoH server has been asked
(`state_respond`).
-/

namespace Hns

inductive BrowserTargetKind
  | exactUrl
  | hnsName
  | search
  deriving DecidableEq

inductive SecurityState
  | syncing
  | loading
  | hnsVerified
  | hnsCompatibility
  | daneVerified
  | daneCompatibility
  | webPkiOnly
  | mixedPolicy
  | validationFailed
  | proofUnavailable
  deriving DecidableEq

namespace BrowserSecurityPolicy

def hasSyncStatus (json : Option (List Char)) (status : List Char) : Bool :=
  json.any fun json => Chars.of "\"status\":\"" ++ status ++ Chars.of "\"" <:+: json

def isBehindPeerHeight (json : Option (List Char)) : Bool :=
  json.any fun json =>
    (longField json (Chars.of "bestHeight")).any fun best =>
      ((longField json (Chars.of "bestPeerHeight")).or
        (longField json (Chars.of "estimatedTipHeight"))).any fun target => target > best

def state (targetKind : Option BrowserTargetKind) (proxyAvailable : Bool)
    (syncStatusJson : Option (List Char)) (mainFrameHnsStatusCode : Option ℤ)
    (mainFrameHnsTlsPolicy : Option HnsPageTlsPolicy)
    (mainFrameHnsResolverPolicy : Option HnsPageResolverPolicy) : SecurityState :=
  if targetKind ≠ some .hnsName then .webPkiOnly
  else if !proxyAvailable then .proofUnavailable
  else if mainFrameHnsStatusCode.any fun code => 400 ≤ code ∧ code ≤ 599 then .validationFailed
  else if mainFrameHnsStatusCode.any fun code => 200 ≤ code ∧ code ≤ 299 then
    if mainFrameHnsTlsPolicy = some .dane then
      if mainFrameHnsResolverPolicy = some .hnsDohCompatibility then .daneCompatibility
      else .daneVerified
    else if mainFrameHnsTlsPolicy = some .webPkiFallback then .mixedPolicy
    else if mainFrameHnsResolverPolicy = some .hnsDohCompatibility then .hnsCompatibility
    else .hnsVerified
  else if hasSyncStatus syncStatusJson (Chars.of "error") ||
      hasSyncStatus syncStatusJson (Chars.of "seed_failed") ||
      hasSyncStatus syncStatusJson (Chars.of "peer_failed") then .proofUnavailable
  else if !isBehindPeerHeight syncStatusJson &&
      (hasSyncStatus syncStatusJson (Chars.of "synced") ||
        hasSyncStatus syncStatusJson (Chars.of "up_to_date")) then .loading
  else .syncing

/-- The state for a page of a Handshake name whose response the proxy has read. -/
def stateOf (syncStatusJson : Option (List Char)) (octets : List UInt8) : SecurityState :=
  let page := parseGatewayResponseHead octets
  state (some .hnsName) true syncStatusJson (some page.status) (readTlsPolicy page.headers)
    (readResolverPolicy page.headers)

/-! ## Pages -/

theorem stateOf_eq {told : Told} {octets : List UInt8} (h : told.IsTakenFrom octets)
    (syncStatusJson : Option (List Char)) : stateOf syncStatusJson octets =
      state (some .hnsName) true syncStatusJson (some told.status.toNat) told.tlsPolicy
        told.resolverPolicy := by
  rw [stateOf, h.proxy.status, h.proxy.tlsPolicy, h.proxy.resolverPolicy]

/-- A page is shown as verified for its certificate, or for its name only, by its status and by what
    it tells of the policies. -/
theorem state_page (syncStatusJson : Option (List Char)) (code : ℕ)
    (tlsPolicy : Option HnsPageTlsPolicy) (resolverPolicy : Option HnsPageResolverPolicy) :
    (state (some .hnsName) true syncStatusJson (some code) tlsPolicy resolverPolicy =
        .daneVerified ↔
      (200 ≤ code ∧ code ≤ 299) ∧ tlsPolicy = some .dane ∧ resolverPolicy = none) ∧
    (state (some .hnsName) true syncStatusJson (some code) tlsPolicy resolverPolicy =
        .hnsVerified ↔
      (200 ≤ code ∧ code ≤ 299) ∧ tlsPolicy = none ∧ resolverPolicy = none) ∧
    (400 ≤ code ∧ code ≤ 599 →
      state (some .hnsName) true syncStatusJson (some code) tlsPolicy resolverPolicy =
        .validationFailed) := by
  have hpolicy : resolverPolicy = none ↔ resolverPolicy ≠ some .hnsDohCompatibility := by
    rcases resolverPolicy with _ | ⟨⟩ <;> simp
  have htls : tlsPolicy = none ↔ tlsPolicy ≠ some .dane ∧ tlsPolicy ≠ some .webPkiFallback := by
    rcases tlsPolicy with _ | _ | _ <;> simp
  rw [hpolicy, htls]
  simp only [state, Option.any_some, ne_eq, not_true_eq_false, if_false, Bool.not_true,
    Bool.false_eq_true, decide_eq_true_eq]
  refine ⟨?_, ?_, fun herror => if_pos (by omega)⟩
  all_goals
    split_ifs <;> simp_all
  all_goals omega

/-! ## Before there is a response -/

section

open Json

theorem text_inj {a b : SyncStatus} : a.text = b.text ↔ a = b := by
  cases a <;> cases b <;> simp [SyncStatus.text, Chars.of_inj]

/-- The text that is looked for stands in the status just when it has that state, whatever else
    stands there. -/
theorem hasSyncStatus_toJson (status : NativeSyncStatus) (kind : SyncStatus) :
    hasSyncStatus (some status.toJson.render) kind.text = true ↔ status.status = kind := by
  have hfield : fieldText (Chars.of "status") (string kind.text) =
      Chars.of "\"status\":\"" ++ kind.text ++ Chars.of "\"" := by
    have hfront : Chars.of "\"status\":\"" = '"' :: Chars.of "status" ++ ['"', ':', '"'] := by
      unfold Chars.of
      decide
    have hback : Chars.of "\"" = ['"'] := by
      unfold Chars.of
      decide
    rw [fieldText, render, quote, escape_of_plain (text_plain kind), hfront, hback]
    simp
  have hmem : (Chars.of "status", string kind.text) ∈ status.toJson.fields ↔
      status.status = kind := by
    have hsame : kind.text = status.status.text ↔ status.status = kind := text_inj.trans eq_comm
    simp [NativeSyncStatus.toJson, HeaderPeerFailure.toJson, mem_fields_object, mem_fields_array,
      mem_fields_orNull, Chars.of_inj, hsame]
  rw [hasSyncStatus, Option.any_some, decide_eq_true_eq, ← hfield]
  exact (fieldText_infix_render_iff (plain_of (by decide)) (leads_string (text_plain kind))
    (hasPlainNames_toJson status)).trans hmem

/-- The chain is behind the height that its peers have told, or else behind that it should have. -/
def isBehindTarget (status : NativeSyncStatus) : Bool :=
  status.progress.bestHeight.any fun best =>
    (status.progress.bestPeerHeight.or status.progress.estimatedTipHeight).any fun target =>
      target > best

theorem isBehindPeerHeight_toJson (status : NativeSyncStatus) :
    isBehindPeerHeight (some status.toJson.render) = isBehindTarget status := by
  have h := fromJson_render status
  rw [isBehindTarget, ← h]
  rfl

/-- Before there is a response the state is that of the synchronisation, whatever the texts in its
    status look like. -/
theorem state_toJson (status : NativeSyncStatus) :
    let state := state (some .hnsName) true (some status.toJson.render) none none none
    (state = .proofUnavailable ↔ status.status ∈ [.error, .seedFailed, .peerFailed]) ∧
    (state = .loading ↔ status.status ∈ [.synced, .upToDate] ∧ isBehindTarget status = false) ∧
    (state = .syncing ↔ status.status ∈ [.idle, .attempted, .syncing, .cleared] ∨
      status.status ∈ [.synced, .upToDate] ∧ isBehindTarget status = true) := by
  have hstatus (kind : SyncStatus) :
      hasSyncStatus (some status.toJson.render) kind.text = decide (status.status = kind) := by
    rw [Bool.eq_iff_iff, hasSyncStatus_toJson, decide_eq_true_eq]
  have herror := hstatus .error
  have hseed := hstatus .seedFailed
  have hpeer := hstatus .peerFailed
  have hsynced := hstatus .synced
  have hcurrent := hstatus .upToDate
  simp only [SyncStatus.text] at herror hseed hpeer hsynced hcurrent
  simp only [state, herror, hseed, hpeer, hsynced, hcurrent, isBehindPeerHeight_toJson]
  cases status.status <;> cases isBehindTarget status <;> simp

end

/-! ## The pages of the gateway -/

theorem pagePolicy_eq_dane {decision : DaneDecision} :
    decision.pagePolicy = some .dane ↔ ∃ usage, decision = .matched usage := by
  cases decision <;> simp [DaneDecision.pagePolicy]

variable [Digests] [Sha2] {σ : Type}

/-- For a response to any request, however it has been resolved: the page is shown as verified for
    its certificate just when the origin has answered with success, a TLSA record has matched, and
    the DoH server has not been asked; it is shown as verified for its name just when the origin has
    answered with success, neither a TLSA record nor an authority stands for its certificate, and
    the DoH server has not been asked; and where the gateway has failed, so has the validation. -/
theorem state_respond (input : GatewayHttpRequestInput) (mode : GatewayResolutionMode)
    (primary fallback : StatefulResolver σ) (requests : List ResolutionRequest) (world : σ)
    (outcome : Except GatewayError (GatewayResponse OriginResponse)) (events : List DnsTraceEvent)
    (stores : TraceStores) (syncStatusJson : Option (List Char))
    (horigin : ∀ response, outcome = .ok response → IsOriginHead response.origin.head) :
    let run := (resolveAll (androidResolve mode primary fallback) requests (.initial world)).2
    let state := stateOf syncStatusJson (respond input mode ⟨outcome, run.marker, events, stores⟩)
    let isUnaided := ∀ lookup ∈ run.lookups, lookup.source = .primary
    (state = .daneVerified ↔ ∃ response, outcome = .ok response ∧
      (200 ≤ response.origin.status.toNat ∧ response.origin.status.toNat ≤ 299) ∧
      (∃ usage, response.origin.daneDecision = .matched usage) ∧ isUnaided) ∧
    (state = .hnsVerified ↔ ∃ response, outcome = .ok response ∧
      (200 ≤ response.origin.status.toNat ∧ response.origin.status.toNat ≤ 299) ∧
      response.origin.daneDecision.pagePolicy = none ∧ isUnaided) ∧
    (∀ error, outcome = .error error → state = .validationFailed) := by
  intro run state isUnaided
  -- The marker, which the response carries, knows whether the DoH server has been asked.
  have hunaided : isUnaided ↔
      (if run.marker.used then some HnsPageResolverPolicy.hnsDohCompatibility else none) =
        none := by
    refine (unused_resolveAll mode primary fallback requests world).symm.trans ?_
    change run.marker.used = false ↔ _
    cases run.marker.used <;> simp
  cases outcome with
  | ok response =>
    have htaken := @isTakenFrom_ok _ _ input mode ⟨.ok response, run.marker, events, stores⟩ _ rfl
      (horigin response rfl)
    have hstate := stateOf_eq htaken syncStatusJson
    obtain ⟨hdane, hhns, -⟩ := state_page syncStatusJson response.origin.status.toNat
      response.origin.daneDecision.pagePolicy
      (if run.marker.used then some HnsPageResolverPolicy.hnsDohCompatibility else none)
    rw [← hunaided] at hdane hhns
    rw [pagePolicy_eq_dane] at hdane
    refine ⟨?_, ?_, fun error herror => by cases herror⟩
    · rw [show state = _ from hstate]
      refine hdane.trans ⟨fun h => ⟨response, rfl, h⟩, ?_⟩
      rintro ⟨_, ⟨⟩, h⟩
      exact h
    · rw [show state = _ from hstate]
      refine hhns.trans ⟨fun h => ⟨response, rfl, h⟩, ?_⟩
      rintro ⟨_, ⟨⟩, h⟩
      exact h
  | error error =>
    have htaken :=
      @isTakenFrom_error _ _ input mode ⟨.error error, run.marker, events, stores⟩ _ rfl
    have hfailed : state = .validationFailed := by
      rw [show state = _ from stateOf_eq htaken syncStatusJson]
      exact (state_page _ _ _ _).2.2 (readable_mapGatewayError error).1
    rw [hfailed]
    refine ⟨iff_of_false ?_ ?_, iff_of_false ?_ ?_, fun _ _ => rfl⟩
    · exact SecurityState.noConfusion
    · rintro ⟨_, ⟨⟩, -⟩
    · exact SecurityState.noConfusion
    · rintro ⟨_, ⟨⟩, -⟩

end BrowserSecurityPolicy

namespace VerifiedSample

open GatewaySample ChainsSample

/-- Nothing is resolved here. -/
def silent : StatefulResolver Unit := fun _ => throw .unsupportedBackend

def requests : List ResolutionRequest := [⟨Chars.of "site", RecordType.a.code⟩]

def response : GatewayResponse OriginResponse where
  resolution := ⟨site, [], true⟩
  originRequest := (request (Chars.of "https") (Chars.of "site")).origin
  origin := ⟨200, HostileSample.origin.headers, [0x68, 0x69], .matched .daneEe, none⟩

theorem isOriginHead_response : IsOriginHead response.origin.head :=
  ⟨by decide, HostileSample.isOriginHead_origin.isField⟩

/-- In strict mode, after a lookup of the local resolver. -/
theorem stateOf_matched :
    BrowserSecurityPolicy.stateOf none (respond HostileSample.input .strict
      ⟨.ok response, (resolveAll (androidResolve .strict silent silent) requests
        (.initial ())).2.marker, [], ⟨none, none, none⟩⟩) = .daneVerified := by
  have horigin : ∀ r, (.ok response : Except GatewayError _) = .ok r →
      IsOriginHead r.origin.head := by
    rintro _ ⟨⟩
    exact isOriginHead_response
  refine (BrowserSecurityPolicy.state_respond HostileSample.input .strict silent silent requests ()
    (.ok response) [] ⟨none, none, none⟩ none horigin).1.2
      ⟨response, rfl, by decide, ⟨.daneEe, rfl⟩, ?_⟩
  exact (unused_resolveAll .strict silent silent requests ()).1 rfl

end VerifiedSample

end Hns
