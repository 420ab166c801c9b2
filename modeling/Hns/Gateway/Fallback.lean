import Hns.Gateway.Basic
import Hns.Resolver.Transport

/-!
# The fallback of the gateway

In compatibility mode a request that the chain and the servers it delegates to cannot answer is
given to a DoH server, and so is every later request under the same root (`FallbackResolver`). A
marker remembers that this has happened, and why.

What is told of it is true after any requests (`resolveAll_compatibility`): who has been asked
follows from the failures so far, the marker is set when the DoH server has been asked, and its
reason is the first of the failures that led there.
-/

namespace Hns

open EStateM (attempt checked)

inductive GatewayResolutionMode
  | strict
  | compatibility
  deriving DecidableEq

namespace GatewayResolutionMode

def fromStrictHnsMode (strictHnsMode : Bool) : GatewayResolutionMode :=
  if strictHnsMode then .strict else .compatibility

def asStr : GatewayResolutionMode → List Char
  | .strict => Chars.of "strict"
  | .compatibility => Chars.of "compatibility"

end GatewayResolutionMode

/-- `hns_trace_root` -/
def hnsTraceRoot (host : List Char) : List Char :=
  ((DnsName.trimEndMatches (· = '.') (DnsName.trim host)).splitOn '.').getLastD host

instance : ToString TransportError where
  toString
    | .daneFailed => "DANE validation failed"
    | .unsupportedTransport => "origin transport is not implemented for requested protocol"
    | .unsupportedScheme => "origin scheme is unsupported"
    | .unsupportedTransferEncoding => "HTTP transfer encoding is unsupported"
    | .unsupportedUpgrade => "HTTP protocol upgrade is unsupported"
    | .http2 text => "origin HTTP/2 error: " ++ text
    | .http3 text => "origin HTTP/3 error: " ++ text
    | .quic text => "origin QUIC error: " ++ text
    | .tls text => "origin TLS error: " ++ text
    | .invalidRequest => "origin request is invalid"
    | .requestTooLarge => "origin request body exceeds configured limit"
    | .responseTooLarge => "origin response exceeds configured limit"
    | .malformedResponse => "origin response is malformed"
    | .io text => "origin I/O error: " ++ text

/-! ## The trace of the DNS -/

inductive TraceProtocol
  | udp53
  | tcp53
  | hnsDoh
  deriving DecidableEq

inductive TraceStatus
  | ok
  | timeout
  | transportError
  | invalidResponse
  | dnssecFailed
  | httpError
  | error
  deriving DecidableEq

structure DnsTraceEvent where
  protocol : TraceProtocol
  server : List Char
  status : TraceStatus
  elapsedMs : ℕ
  error : Option String

def dnsTraceErrorStatus : ResolverError → TraceStatus
  | .dnsTransport message =>
    if Chars.of "timed out" <:+: message.toList ∨ Chars.of "timeout" <:+: message.toList ∨
      Chars.of "deadline" <:+: message.toList then .timeout
    else .transportError
  | .invalidDnsResponse => .invalidResponse
  | .dnssecFailed => .dnssecFailed
  | _ => .error

def dnsTraceEvent {α : Type} (protocol : TraceProtocol) (server : List Char) (elapsedMs : ℕ) :
    Except ResolverError α → DnsTraceEvent
  | .ok _ => ⟨protocol, server, .ok, elapsedMs, none⟩
  | .error error => ⟨protocol, server, dnsTraceErrorStatus error, elapsedMs, some (toString error)⟩

def dohTraceEvent (server : List Char) (elapsedMs : ℕ) :
    Except TransportError OriginResponse → DnsTraceEvent
  | .ok response =>
    if response.status = 200 then ⟨.hnsDoh, server, .ok, elapsedMs, none⟩
    else ⟨.hnsDoh, server, .httpError, elapsedMs, some ("HTTP " ++ toString response.status)⟩
  | .error error => ⟨.hnsDoh, server, .transportError, elapsedMs, some (toString error)⟩

/-- The world of a resolver, with what its trace has recorded. -/
structure Traced (σ : Type) where
  world : σ
  events : List DnsTraceEvent

namespace Traced

variable {ε σ α : Type}

/-- A step that is recorded, with the time it has taken. -/
def recording (elapsedMillis : σ → σ → ℕ) (event : ℕ → Except ε α → DnsTraceEvent)
    (x : EStateM ε σ α) : EStateM ε (Traced σ) α := fun t =>
  match x t.world with
  | .ok a world =>
    .ok a ⟨world, t.events ++ [event (elapsedMillis t.world world) (.ok a)]⟩
  | .error e world =>
    .error e ⟨world, t.events ++ [event (elapsedMillis t.world world) (.error e)]⟩

/-- A step that is not. -/
def untraced (x : EStateM ε σ α) : EStateM ε (Traced σ) α := fun t =>
  match x t.world with
  | .ok a world => .ok a { t with world }
  | .error e world => .error e { t with world }

/-- The outcome of a step as a value. -/
def attempted {ε' : Type} (x : EStateM ε (Traced σ) α) :
    EStateM ε' (Traced σ) (Except ε α) := fun t =>
  match x t with
  | .ok a t => .ok (.ok a) t
  | .error e t => .ok (.error e) t

end Traced

/-- `TracingDnsTransport` -/
def Environment.tracing {σ : Type} (env : Environment σ) (elapsedMillis : σ → σ → ℕ) :
    Environment (Traced σ) where
  exchangeUdp server query :=
    Traced.recording elapsedMillis (dnsTraceEvent .udp53 server.display)
      (env.exchangeUdp server query)
  exchangeTcp server query :=
    Traced.recording elapsedMillis (dnsTraceEvent .tcp53 server.display)
      (env.exchangeTcp server query)
  nextDnsQueryId := Traced.untraced env.nextDnsQueryId
  now := Traced.untraced env.now

/-! ## The DoH server -/

def hnsDohHost : List Char := Chars.of "hnsdoh.com"

def hnsDohPath : List Char := Chars.of "/dns-query"

/-- What `HnsDohResolver` finds outside: the counter of its query ids, its transport and the
    clock. -/
structure DohEnvironment (σ : Type) where
  nextDohQueryId : EStateM ResolverError σ UInt16
  fetch : OriginRequest → EStateM TransportError σ OriginResponse
  elapsedMillis : σ → σ → ℕ

def buildDohQuery (id : UInt16) (qname : DnsName) (qtype : RecordType) :
    Except ResolverError (List UInt8) :=
  let message : DnsMessage := {
    header := ⟨id, ⟨0x0100⟩, 1, 0, 0, 1⟩
    questions := [⟨qname, qtype, dnsClassIn⟩]
    answers := []
    authorities := []
    additionals := [⟨.root, .unknown dnsOptRecordType, UInt16.ofNat defaultDnsUdpPayload,
      dnssecDoFlag, []⟩] }
  (message.encode ⟨defaultDnsUdpPayload⟩).mapError fun _ => .invalidDnsResponse

def dohAnswerFromBody (id : UInt16) (qname : DnsName) (qtype : RecordType) (body : List UInt8) :
    Except ResolverError ResolutionAnswer := do
  let message ← (DnsMessage.parse body).mapError fun _ => .invalidDnsResponse
  if !message.respondsTo id qname qtype then throw .invalidDnsResponse
  return {
    name := qname
    records := message.answers
    secure := message.header.flags.bits &&& 0x0020 ≠ 0 }

/-- The request that carries a query. -/
def dohRequest (query : List UInt8) : OriginRequest where
  method := Chars.of "POST"
  scheme := Chars.of "https"
  host := hnsDohHost
  connectHost := none
  port := 443
  pathAndQuery := hnsDohPath
  protocol := .http11
  tls := ⟨.icannWebPki, false, []⟩
  headers := [
    (Chars.of "Accept", Chars.of "application/dns-message"),
    (Chars.of "Content-Type", Chars.of "application/dns-message")]
  body := query

/-- What a response to a query says. -/
def dohAnswer (id : UInt16) (qname : DnsName) (qtype : RecordType) :
    Except TransportError OriginResponse → Except ResolverError ResolutionAnswer
  | .error error =>
    .error (.dnsTransport ("HNS DoH compatibility resolver failed: " ++ toString error))
  | .ok response =>
    if response.status ≠ 200 then
      .error (.dnsTransport
        ("HNS DoH compatibility resolver returned HTTP " ++ toString response.status))
    else dohAnswerFromBody id qname qtype response.body

/-- `HnsDohResolver::resolve` -/
def DohEnvironment.resolve {σ : Type} (doh : DohEnvironment σ) (request : ResolutionRequest) :
    EStateM ResolverError (Traced σ) ResolutionAnswer := do
  let qname ← checked ((DnsName.fromAscii request.qname).mapError fun _ => .unsupportedBackend)
  let qtype := RecordType.fromCode request.qtype
  let id ← Traced.untraced doh.nextDohQueryId
  let query ← checked (buildDohQuery id qname qtype)
  let response ← Traced.attempted
    (Traced.recording doh.elapsedMillis
      (dohTraceEvent (hnsDohHost ++ Chars.of ":443" ++ hnsDohPath)) (doh.fetch (dohRequest query)))
  checked (dohAnswer id qname qtype response)

/-! ## The two resolvers -/

/-- Why a request is given to the DoH server. -/
inductive FallbackReason
  | localHnsProofUnavailable
  | localChainNotCurrent
  | noVerifiedNameserverAddress
  | authoritativeNameserverTransportFailed
  | authoritativeNameserverInvalidResponse
  | delegatedDnssecValidationFailed
  deriving DecidableEq

def FallbackReason.asStr : FallbackReason → List Char
  | .localHnsProofUnavailable => Chars.of "local_hns_proof_unavailable"
  | .localChainNotCurrent => Chars.of "local_chain_not_current"
  | .noVerifiedNameserverAddress => Chars.of "no_verified_nameserver_address"
  | .authoritativeNameserverTransportFailed =>
    Chars.of "authoritative_nameserver_transport_failed"
  | .authoritativeNameserverInvalidResponse =>
    Chars.of "authoritative_nameserver_invalid_response"
  | .delegatedDnssecValidationFailed => Chars.of "delegated_dnssec_validation_failed"

def dohFallbackReason : ResolverError → Option FallbackReason
  | .proofUnavailable => some .localHnsProofUnavailable
  | .localChainNotCurrent => some .localChainNotCurrent
  | .noNameserverAddress => some .noVerifiedNameserverAddress
  | .dnsTransport _ => some .authoritativeNameserverTransportFailed
  | .invalidDnsResponse => some .authoritativeNameserverInvalidResponse
  | .dnssecFailed => some .delegatedDnssecValidationFailed
  | _ => none

structure FallbackMarker where
  used : Bool
  reason : Option FallbackReason

namespace FallbackMarker

/-- `FallbackMarker::default()`. -/
def default : FallbackMarker := ⟨false, none⟩

def mark (marker : FallbackMarker) (reason : FallbackReason) : FallbackMarker :=
  ⟨true, marker.reason.or (some reason)⟩

end FallbackMarker

inductive LookupSource
  | primary
  | fallback
  deriving DecidableEq

abbrev Outcome := Except ResolverError ResolutionAnswer

/-- That one of the resolvers has been asked. -/
structure Lookup where
  source : LookupSource
  request : ResolutionRequest
  outcome : Outcome

abbrev StatefulResolver (σ : Type) := ResolutionRequest → EStateM ResolverError σ ResolutionAnswer

/-- The marker, the roots that have fallen back, and who has been asked, in order. -/
structure FallbackState (σ : Type) where
  world : σ
  marker : FallbackMarker
  fallbackRoots : Table (List Char) FallbackReason
  lookups : List Lookup

/-- Before anything is asked. -/
def FallbackState.initial {σ : Type} (world : σ) : FallbackState σ := ⟨world, .default, .empty, []⟩

def fallbackCacheRoot (request : ResolutionRequest) : List Char :=
  asciiLower (hnsTraceRoot request.qname)

section Resolve

variable {σ : Type}

/-- One of the resolvers is asked. -/
def ask (source : LookupSource) (resolver : StatefulResolver σ) (request : ResolutionRequest)
    (s : FallbackState σ) : Outcome × FallbackState σ :=
  match resolver request s.world with
  | .ok answer world =>
    (.ok answer, { s with world, lookups := s.lookups ++ [⟨source, request, .ok answer⟩] })
  | .error error world =>
    (.error error, { s with world, lookups := s.lookups ++ [⟨source, request, .error error⟩] })

/-- `remember_fallback_reason` -/
def FallbackState.remember (s : FallbackState σ) (request : ResolutionRequest)
    (reason : FallbackReason) : FallbackState σ :=
  let root := fallbackCacheRoot request
  { s with fallbackRoots := s.fallbackRoots.insert root ((s.fallbackRoots root).getD reason) }

def FallbackState.mark (s : FallbackState σ) (reason : FallbackReason) : FallbackState σ :=
  { s with marker := s.marker.mark reason }

/-- `FallbackResolver::resolve` -/
def fallbackResolve (primary fallback : StatefulResolver σ) (request : ResolutionRequest)
    (s : FallbackState σ) : Outcome × FallbackState σ :=
  match s.fallbackRoots (fallbackCacheRoot request) with
  | some reason => ask .fallback fallback request (s.mark reason)
  | none =>
    match ask .primary primary request s with
    | (.ok answer, s) => (.ok answer, s)
    | (.error error, s) =>
      match dohFallbackReason error with
      | some reason => ask .fallback fallback request ((s.remember request reason).mark reason)
      | none => (.error error, s)

/-- `AndroidGatewayResolver::resolve`, of the resolver for a mode. -/
def androidResolve (mode : GatewayResolutionMode) (primary fallback : StatefulResolver σ) :
    ResolutionRequest → FallbackState σ → Outcome × FallbackState σ :=
  match mode with
  | .strict => ask .primary primary
  | .compatibility => fallbackResolve primary fallback

/-- One request after the other, and what comes of each. -/
def resolveAll (resolve : ResolutionRequest → FallbackState σ → Outcome × FallbackState σ) :
    List ResolutionRequest → FallbackState σ →
      List (ResolutionRequest × Outcome) × FallbackState σ
  | [], s => ([], s)
  | request :: requests, s =>
    let (outcome, s) := resolve request s
    let (outcomes, s) := resolveAll resolve requests s
    ((request, outcome) :: outcomes, s)

end Resolve

/-! ## What is true of the lookups -/

namespace Lookup

variable (lookup : Lookup)

def root : List Char := fallbackCacheRoot lookup.request

/-- Why a lookup has led to the DoH server. -/
def reason : Option FallbackReason :=
  match lookup.source, lookup.outcome with
  | .primary, .error error => dohFallbackReason error
  | _, _ => none

/-- What the one who asks is told of a lookup: nothing, if another one follows. -/
def told : Option (ResolutionRequest × Outcome) :=
  if lookup.reason.isSome then none else some (lookup.request, lookup.outcome)

end Lookup

/-- Whether the lookups so far have led to the DoH server, under a root. -/
def HasFallen (lookups : List Lookup) (root : List Char) : Prop :=
  ∃ lookup ∈ lookups, lookup.root = root ∧ lookup.reason.isSome

/-- The DoH server is asked under the roots that have fallen back, and under no other. -/
def FollowsFailures (lookups : List Lookup) : Prop :=
  ∀ before lookup after, lookups = before ++ lookup :: after →
    (lookup.source = .fallback ↔ HasFallen before lookup.root)

theorem FollowsFailures.push {lookups : List Lookup} {lookup : Lookup}
    (h : FollowsFailures lookups)
    (hlookup : lookup.source = .fallback ↔ HasFallen lookups lookup.root) :
    FollowsFailures (lookups ++ [lookup]) := by
  intro before l after heq
  rcases List.eq_nil_or_concat after with rfl | ⟨after, last, rfl⟩
  · obtain ⟨rfl, hl⟩ := List.append_inj' heq rfl
    cases hl
    exact hlookup
  · rw [List.concat_eq_append, ← List.cons_append, ← List.append_assoc] at heq
    exact h before l after (List.append_inj' heq rfl).1

theorem hasFallen_append {lookups : List Lookup} {lookup : Lookup} {root : List Char} :
    HasFallen (lookups ++ [lookup]) root ↔
      HasFallen lookups root ∨ lookup.root = root ∧ lookup.reason.isSome := by
  simp only [HasFallen, List.mem_append, List.mem_singleton, or_and_right, exists_or,
    exists_eq_left]

theorem HasFallen.isSome_findSome {lookups : List Lookup} {root : List Char}
    (h : HasFallen lookups root) : (lookups.findSome? Lookup.reason).isSome := by
  obtain ⟨lookup, hmem, -, hreason⟩ := h
  rw [List.isSome_findSome?, List.any_eq_true]
  exact ⟨lookup, hmem, hreason⟩

namespace FallbackState

variable {σ : Type}

/-- The marker and the roots say what has happened. -/
structure Honest (s : FallbackState σ) : Prop where
  source : FollowsFailures s.lookups
  roots : ∀ root, (s.fallbackRoots root).isSome ↔ HasFallen s.lookups root
  used : s.marker.used ↔ ∃ lookup ∈ s.lookups, lookup.source = .fallback
  reason : s.marker.reason = s.lookups.findSome? Lookup.reason

theorem honest_initial (world : σ) : (initial world).Honest where
  source before lookup after h := by simp [initial] at h
  roots root := by simp [initial, HasFallen]
  used := by simp [initial, FallbackMarker.default]
  reason := rfl

/-- What a lookup changes. -/
theorem Honest.push {s s' : FallbackState σ} {lookup : Lookup} (h : s.Honest)
    (hlookups : s'.lookups = s.lookups ++ [lookup])
    (hsource : lookup.source = .fallback ↔ (s.fallbackRoots lookup.root).isSome)
    (hroots : ∀ root, (s'.fallbackRoots root).isSome ↔
      (s.fallbackRoots root).isSome ∨ lookup.root = root ∧ lookup.reason.isSome)
    (hused : s'.marker.used ↔ s.marker.used ∨ lookup.source = .fallback)
    (hreason : s'.marker.reason = s.marker.reason.or lookup.reason) : s'.Honest where
  source := by
    rw [hlookups]
    exact h.source.push (hsource.trans (h.roots _))
  roots root := by rw [hroots, h.roots, hlookups, hasFallen_append]
  used := by
    rw [hused, h.used, hlookups]
    simp only [List.mem_append, List.mem_singleton, or_and_right, exists_or, exists_eq_left]
  reason := by
    rw [hreason, h.reason, hlookups, List.findSome?_append]
    cases hl : lookup.reason <;> simp [hl]

end FallbackState

variable {σ : Type}

theorem ask_eq {source : LookupSource} {resolver : StatefulResolver σ} {request : ResolutionRequest}
    {s s' : FallbackState σ} {outcome : Outcome}
    (h : ask source resolver request s = (outcome, s')) :
    s'.lookups = s.lookups ++ [⟨source, request, outcome⟩] ∧ s'.marker = s.marker ∧
      s'.fallbackRoots = s.fallbackRoots := by
  rw [ask] at h
  split at h <;> (cases h; exact ⟨rfl, rfl, rfl⟩)

/-- What a request leads to: lookups after which the marker and the roots still say what has
    happened, and of which one is told. -/
structure Resolves (s : FallbackState σ) (request : ResolutionRequest) (outcome : Outcome)
    (s' : FallbackState σ) : Prop where
  honest : s.Honest → s'.Honest
  told : s'.lookups.filterMap Lookup.told =
    s.lookups.filterMap Lookup.told ++ [(request, outcome)]

/-- The DoH server is asked under a root that has fallen back. -/
theorem resolves_cached {fallback : StatefulResolver σ} {request : ResolutionRequest}
    {s s' : FallbackState σ} {reason : FallbackReason} {outcome : Outcome}
    (hroot : s.fallbackRoots (fallbackCacheRoot request) = some reason)
    (h : ask .fallback fallback request (s.mark reason) = (outcome, s')) :
    Resolves s request outcome s' := by
  obtain ⟨hlookups, hmarker, hroots⟩ := ask_eq h
  have hreason : (⟨.fallback, request, outcome⟩ : Lookup).reason = none := rfl
  refine ⟨fun hs => ?_, ?_⟩
  · refine hs.push hlookups (iff_of_true rfl (Option.isSome_iff_exists.2 ⟨_, hroot⟩)) ?_ ?_ ?_
    · intro root
      rw [hroots, hreason]
      simp [FallbackState.mark]
    · simp [hmarker, FallbackState.mark, FallbackMarker.mark]
    · -- The reason of the root is not the first one, for which the marker is set.
      have hfallen : HasFallen s.lookups (fallbackCacheRoot request) :=
        (hs.roots _).1 (Option.isSome_iff_exists.2 ⟨_, hroot⟩)
      have hsome := hfallen.isSome_findSome
      rw [← hs.reason, Option.isSome_iff_exists] at hsome
      obtain ⟨first, hfirst⟩ := hsome
      rw [hmarker, hreason]
      simp [FallbackState.mark, FallbackMarker.mark, hfirst]
  · rw [hlookups, List.filterMap_append]
    simp [FallbackState.mark, Lookup.told, hreason]

/-- The local resolver is asked, and no more. -/
theorem resolves_primary {primary : StatefulResolver σ} {request : ResolutionRequest}
    {s s' : FallbackState σ} {outcome : Outcome}
    (hroot : s.fallbackRoots (fallbackCacheRoot request) = none)
    (hreason : (⟨.primary, request, outcome⟩ : Lookup).reason = none)
    (h : ask .primary primary request s = (outcome, s')) : Resolves s request outcome s' := by
  obtain ⟨hlookups, hmarker, hroots⟩ := ask_eq h
  refine ⟨fun hs => ?_, ?_⟩
  · refine hs.push hlookups ?_ ?_ ?_ ?_
    · rw [Lookup.root, hroot]
      simp
    · simp [hroots, hreason]
    · simp [hmarker]
    · simp [hmarker, hreason]
  · rw [hlookups, List.filterMap_append]
    simp [Lookup.told, hreason]

/-- The DoH server is asked after the local resolver has failed. -/
theorem resolves_failed {primary fallback : StatefulResolver σ} {request : ResolutionRequest}
    {s s₁ s' : FallbackState σ} {error : ResolverError} {reason : FallbackReason}
    {outcome : Outcome} (hroot : s.fallbackRoots (fallbackCacheRoot request) = none)
    (herror : ask .primary primary request s = (.error error, s₁))
    (hreason : dohFallbackReason error = some reason)
    (h : ask .fallback fallback request ((s₁.remember request reason).mark reason) =
      (outcome, s')) : Resolves s request outcome s' := by
  obtain ⟨hlookups₁, hmarker₁, hroots₁⟩ := ask_eq herror
  obtain ⟨hlookups, hmarker, hroots⟩ := ask_eq h
  have hfailed : (⟨.primary, request, .error error⟩ : Lookup).reason = some reason := hreason
  have hfallback : (⟨.fallback, request, outcome⟩ : Lookup).reason = none := rfl
  -- The state between the two lookups, where nobody has asked the DoH server yet.
  let between : FallbackState σ :=
    { s₁.remember request reason with marker := ⟨s.marker.used, s.marker.reason.or (some reason)⟩ }
  refine ⟨fun hs => ?_, ?_⟩
  · have hbetween : between.Honest := by
      refine hs.push hlookups₁ ?_ ?_ ?_ ?_
      · rw [Lookup.root, hroot]
        simp
      · intro root
        rw [hfailed]
        by_cases heq : root = fallbackCacheRoot request
        · subst heq
          simp [between, FallbackState.remember, Lookup.root]
        · simp [between, FallbackState.remember, Lookup.root, hroots₁, Table.insert_of_ne _ _ heq,
            Ne.symm heq]
      · simp [between]
      · rw [hfailed]
    refine hbetween.push hlookups (iff_of_true rfl ?_) ?_ ?_ ?_
    · simp [between, FallbackState.remember, Lookup.root]
    · intro root
      rw [hroots, hfallback]
      simp [between, FallbackState.mark]
    · simp [hmarker, FallbackState.mark, FallbackMarker.mark]
    · rw [hmarker, hfallback]
      simp [between, FallbackState.mark, FallbackState.remember, FallbackMarker.mark, hmarker₁]
  · rw [hlookups]
    simp [FallbackState.mark, FallbackState.remember, hlookups₁, Lookup.told, hfailed, hfallback]

theorem resolves_fallbackResolve {primary fallback : StatefulResolver σ}
    {request : ResolutionRequest} {s s' : FallbackState σ} {outcome : Outcome}
    (h : fallbackResolve primary fallback request s = (outcome, s')) :
    Resolves s request outcome s' := by
  rw [fallbackResolve] at h
  cases hroot : s.fallbackRoots (fallbackCacheRoot request) with
  | some reason =>
    rw [hroot] at h
    exact resolves_cached hroot h
  | none =>
    rw [hroot] at h
    cases hask : ask .primary primary request s with
    | mk first s₁ =>
      rw [hask] at h
      cases first with
      | ok answer =>
        cases h
        exact resolves_primary hroot rfl hask
      | error error =>
        cases hreason : dohFallbackReason error with
        | some reason =>
          simp only [hreason] at h
          exact resolves_failed hroot hask hreason h
        | none =>
          simp only [hreason] at h
          cases h
          exact resolves_primary hroot hreason hask

theorem honest_resolveAll {primary fallback : StatefulResolver σ}
    (requests : List ResolutionRequest) {s : FallbackState σ} (hs : s.Honest) :
    (resolveAll (fallbackResolve primary fallback) requests s).2.Honest ∧
      (resolveAll (fallbackResolve primary fallback) requests s).2.lookups.filterMap Lookup.told =
        s.lookups.filterMap Lookup.told ++
          (resolveAll (fallbackResolve primary fallback) requests s).1 := by
  induction requests generalizing s with
  | nil => exact ⟨hs, (List.append_nil _).symm⟩
  | cons request requests ih =>
    have hstep := @resolves_fallbackResolve _ primary fallback request s _ _ rfl
    obtain ⟨hhonest, htold⟩ := ih (hstep.honest hs)
    refine ⟨hhonest, ?_⟩
    rw [hstep.told, List.append_assoc] at htold
    exact htold

/-- In compatibility mode, after any requests: the DoH server has been asked under the roots where
    the local resolver had failed, and under no other; the marker says whether it has been asked,
    and its reason is that of the first failure; and the outcomes are those of the lookups, but for
    the failures that another lookup has followed. -/
theorem resolveAll_compatibility (primary fallback : StatefulResolver σ)
    (requests : List ResolutionRequest) (world : σ) :
    let run := resolveAll (androidResolve .compatibility primary fallback) requests
      (.initial world)
    run.2.Honest ∧ run.2.lookups.filterMap Lookup.told = run.1 :=
  honest_resolveAll requests (FallbackState.honest_initial world)

/-- In strict mode the marker is never set, and nobody but the local resolver is asked. -/
theorem resolveAll_strict {primary : StatefulResolver σ} (requests : List ResolutionRequest)
    {s : FallbackState σ} (hused : s.marker.used = false)
    (hsource : ∀ lookup ∈ s.lookups, lookup.source = .primary) :
    (resolveAll (ask .primary primary) requests s).2.marker.used = false ∧
      ∀ lookup ∈ (resolveAll (ask .primary primary) requests s).2.lookups,
        lookup.source = .primary := by
  induction requests generalizing s with
  | nil => exact ⟨hused, hsource⟩
  | cons request requests ih =>
    obtain ⟨hlookups, hmarker, -⟩ := @ask_eq _ .primary primary request s _ _ rfl
    refine ih (by rw [hmarker, hused]) ?_
    rw [hlookups, List.forall_mem_append, List.forall_mem_singleton]
    exact ⟨hsource, rfl⟩

/-- In either mode the marker says whether the DoH server has been asked. -/
theorem unused_resolveAll (mode : GatewayResolutionMode) (primary fallback : StatefulResolver σ)
    (requests : List ResolutionRequest) (world : σ) :
    (resolveAll (androidResolve mode primary fallback) requests (.initial world)).2.marker.used =
        false ↔
      ∀ lookup ∈ (resolveAll (androidResolve mode primary fallback) requests
        (.initial world)).2.lookups, lookup.source = .primary := by
  cases mode with
  | strict =>
    obtain ⟨hused, hsource⟩ := @resolveAll_strict _ primary requests (.initial world) rfl
      fun lookup hlookup => absurd hlookup List.not_mem_nil
    exact iff_of_true hused hsource
  | compatibility =>
    have hhonest := (@honest_resolveAll _ primary fallback requests _
      (FallbackState.honest_initial world)).1
    have hprimary (lookup : Lookup) : lookup.source = .primary ↔ ¬lookup.source = .fallback := by
      cases lookup.source <;> simp
    rw [← Bool.not_eq_true, androidResolve, hhonest.used]
    simp only [hprimary, not_exists, not_and]

end Hns
