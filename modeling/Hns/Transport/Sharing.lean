import Hns.Transport.State

/-!
# Shared TLS state

Which requests share a certificate verifier, a store of TLS sessions or an open
TLS connection: those whose policies have one key. The key tells two policies
apart unless they only differ in the data of TLSA records, and the hashes of
these data agree (`tlsValidationKey_eq_iff`).

* `Clients.Reachable.keyed`: whatever is kept is kept under the key of the
  policy it has been made for, in every state that requests, in any order and
  with any of them under way, lead to;
* `reuses_iff`: a request is given what was made for the policy of another one
  when the two keys are equal, and only then;
* `tls_eq_of_reuses_iff`: so nothing is shared between different policies, as
  long as the two do not collide.
-/

namespace Hns

/-! ## What the key tells -/

/-- Records that differ at most in their data, with one hash. -/
structure TlsaRecord.Alike (a b : TlsaRecord) : Prop where
  usage : a.usage = b.usage
  selector : a.selector = b.selector
  matching : a.matching = b.matching
  hash : defaultHash a.associationData = defaultHash b.associationData

/-- Policies that differ at most in the data of their records, with the same hashes. -/
structure TlsValidation.Alike (a b : TlsValidation) : Prop where
  mode : a.mode = b.mode
  dnssecSecure : a.dnssecSecure = b.dnssecSecure
  records : List.Forall₂ TlsaRecord.Alike a.tlsaRecords b.tlsaRecords

/-- Different policies whose records differ only where their hashes do not. -/
def TlsValidation.Collide (a b : TlsValidation) : Prop := a ≠ b ∧ a.Alike b

theorem hashHex_inj {a b : List UInt8} : hashHex a = hashHex b ↔ defaultHash a = defaultHash b := by
  constructor
  · intro h
    have hlt (n : UInt64) : n.toNat < 16 ^ 16 := by
      calc n.toNat < 2 ^ 64 := n.toNat_lt
        _ = 16 ^ 16 := by norm_num
    have hnat : (defaultHash a).toNat = (defaultHash b).toNat :=
      Chars.hex_inj (w := 16) (hlt (defaultHash a)) (hlt (defaultHash b)) h
    exact UInt64.toNat_inj.1 hnat
  · intro h
    rw [hashHex, hashHex, h]

/-- The parts of what the key says of a record. -/
def TlsaRecord.keyParts (record : TlsaRecord) : List (List Char) :=
  [record.usage.debug, record.selector.debug, record.matching.debug,
    hashHex record.associationData]

/-- What the key says of a record. -/
def TlsaRecord.keyText (record : TlsaRecord) : List Char := [':'].intercalate record.keyParts

/-- The parts of the key. -/
def TlsValidation.keyParts (tls : TlsValidation) : List (List Char) :=
  (Chars.of "mode=" ++ tls.mode.debug) :: (Chars.of "secure=" ++ debugBool tls.dnssecSecure) ::
    (Chars.of "records=" ++ Chars.decimal tls.tlsaRecords.length) ::
    tls.tlsaRecords.map TlsaRecord.keyText

theorem tlsaRecordKey_eq (record : TlsaRecord) :
    tlsaRecordKey record = [';'] ++ record.keyText := by
  have hsemicolon : Chars.of ";" = [';'] := by simp [Chars.of]
  have hcolon : Chars.of ":" = [':'] := by simp [Chars.of]
  simp only [tlsaRecordKey, TlsaRecord.keyText, TlsaRecord.keyParts, Chars.intercalate_cons,
    List.flatMap_cons, List.flatMap_nil, hsemicolon, hcolon, List.append_assoc, List.append_nil]

theorem tlsValidationKey_eq (tls : TlsValidation) :
    tlsValidationKey tls = [';'].intercalate tls.keyParts := by
  have hsecure : Chars.of ";secure=" = [';'] ++ Chars.of "secure=" := by simp [Chars.of]
  have hrecords : Chars.of ";records=" = [';'] ++ Chars.of "records=" := by simp [Chars.of]
  have hloop : tlsaRecordKey = fun record => [';'] ++ record.keyText := by
    funext record
    exact tlsaRecordKey_eq record
  simp only [tlsValidationKey, TlsValidation.keyParts, Chars.intercalate_cons, List.flatMap_cons,
    List.flatMap_map, hsecure, hrecords, List.append_assoc, hloop]

/-- A character that no separator is. -/
def IsKeyChar (c : Char) : Prop := c ≠ ':' ∧ c ≠ ';' ∧ c ≠ '|'

theorem isKeyChar_debug (record : TlsaRecord) :
    (∀ c ∈ record.usage.debug, IsKeyChar c) ∧ (∀ c ∈ record.selector.debug, IsKeyChar c) ∧
      ∀ c ∈ record.matching.debug, IsKeyChar c := by
  simp only [IsKeyChar]
  refine ⟨?_, ?_, ?_⟩
  · cases record.usage <;> simp [TlsaUsage.debug, Chars.of]
  · cases record.selector <;> simp [TlsaSelector.debug, Chars.of]
  · cases record.matching <;> simp [TlsaMatching.debug, Chars.of]

theorem isKeyChar_hashHex (bytes : List UInt8) : ∀ c ∈ hashHex bytes, IsKeyChar c :=
  Chars.forall_mem_hex (by unfold IsKeyChar; decide) _ _

theorem TlsaRecord.isKeyChar_of_mem_keyParts (record : TlsaRecord) :
    ∀ part ∈ record.keyParts, ∀ c ∈ part, IsKeyChar c := by
  obtain ⟨husage, hselector, hmatching⟩ := isKeyChar_debug record
  simp only [keyParts, List.forall_mem_cons]
  exact ⟨husage, hselector, hmatching, isKeyChar_hashHex _, fun _ h => absurd h List.not_mem_nil⟩

theorem DomainTrustMode.debug_injective : Function.Injective DomainTrustMode.debug := by
  intro a b h
  cases a <;> cases b <;> first | rfl | simp [DomainTrustMode.debug, Chars.of] at h

theorem TlsaUsage.debug_injective : Function.Injective TlsaUsage.debug := by
  intro a b h
  cases a <;> cases b <;> first | rfl | simp [TlsaUsage.debug, Chars.of] at h

theorem TlsaSelector.debug_injective : Function.Injective TlsaSelector.debug := by
  intro a b h
  cases a <;> cases b <;> first | rfl | simp [TlsaSelector.debug, Chars.of] at h

theorem TlsaMatching.debug_injective : Function.Injective TlsaMatching.debug := by
  intro a b h
  cases a <;> cases b <;> first | rfl | simp [TlsaMatching.debug, Chars.of] at h

theorem TlsaRecord.keyText_eq_iff {a b : TlsaRecord} : a.keyText = b.keyText ↔ a.Alike b := by
  have hparts (record : TlsaRecord) : ∀ part ∈ record.keyParts, ':' ∉ part :=
    fun part hpart hc => (record.isKeyChar_of_mem_keyParts part hpart _ hc).1 rfl
  constructor
  · intro h
    have hkey : a.keyParts = b.keyParts :=
      Chars.intercalate_inj (hparts a) (hparts b) (List.cons_ne_nil _ _) (List.cons_ne_nil _ _) h
    simp only [keyParts, List.cons.injEq, and_true] at hkey
    obtain ⟨husage, hselector, hmatching, hhash⟩ := hkey
    exact ⟨TlsaUsage.debug_injective husage, TlsaSelector.debug_injective hselector,
      TlsaMatching.debug_injective hmatching, hashHex_inj.1 hhash⟩
  · intro h
    rw [keyText, keyText, keyParts, keyParts, h.usage, h.selector, h.matching,
      hashHex_inj.2 h.hash]

/-- No part has a semicolon or a bar. -/
theorem TlsValidation.not_mem_of_mem_keyParts (tls : TlsValidation) :
    ∀ part ∈ tls.keyParts, ';' ∉ part ∧ '|' ∉ part := by
  have hrecord (record : TlsaRecord) : ∀ c ∈ record.keyText, c ≠ ';' ∧ c ≠ '|' := by
    intro c hc
    rcases Chars.mem_intercalate hc with rfl | ⟨part, hpart, hc⟩
    · decide
    · exact (record.isKeyChar_of_mem_keyParts part hpart c hc).2
  have hdigits (n : ℕ) : ∀ c ∈ Chars.decimal n, c ≠ ';' ∧ c ≠ '|' := by
    intro c hc
    have hdigit : c.isDigit := Chars.isDigit_of_mem_decimal hc
    constructor <;> exact fun heq => absurd hdigit (by rw [heq]; decide)
  have hpart : ∀ part ∈ tls.keyParts, ∀ c ∈ part, c ≠ ';' ∧ c ≠ '|' := by
    simp only [keyParts, List.forall_mem_cons, List.forall_mem_append, List.forall_mem_map]
    refine ⟨⟨by simp [Chars.of], ?_⟩, ⟨by simp [Chars.of], ?_⟩, ⟨by simp [Chars.of], hdigits _⟩,
      fun record _ => hrecord record⟩
    · cases tls.mode <;> simp [DomainTrustMode.debug, Chars.of]
    · cases tls.dnssecSecure <;> simp [debugBool, Chars.of]
  intro part hmem
  exact ⟨fun hc => (hpart part hmem _ hc).1 rfl, fun hc => (hpart part hmem _ hc).2 rfl⟩

/-- The key tells two policies apart unless they only differ in data with equal hashes. -/
theorem tlsValidationKey_eq_iff {a b : TlsValidation} :
    tlsValidationKey a = tlsValidationKey b ↔ a.Alike b := by
  rw [tlsValidationKey_eq, tlsValidationKey_eq]
  constructor
  · intro h
    have hkey : a.keyParts = b.keyParts :=
      Chars.intercalate_inj (fun part hpart => (a.not_mem_of_mem_keyParts part hpart).1)
        (fun part hpart => (b.not_mem_of_mem_keyParts part hpart).1) (List.cons_ne_nil _ _)
        (List.cons_ne_nil _ _) h
    simp only [TlsValidation.keyParts, List.cons.injEq, List.append_cancel_left_eq] at hkey
    obtain ⟨hmode, hsecure, -, hrecords⟩ := hkey
    refine ⟨DomainTrustMode.debug_injective hmode, ?_, ?_⟩
    · cases ha : a.dnssecSecure <;> cases hb : b.dnssecSecure <;> rw [ha, hb] at hsecure <;>
        first | rfl | simp [debugBool, Chars.of] at hsecure
    · rw [← List.forall₂_eq_eq_eq, List.forall₂_map_left_iff, List.forall₂_map_right_iff]
        at hrecords
      exact hrecords.imp fun _ _ => TlsaRecord.keyText_eq_iff.1
  · intro h
    have hrecords : a.tlsaRecords.map TlsaRecord.keyText = b.tlsaRecords.map TlsaRecord.keyText := by
      rw [← List.forall₂_eq_eq_eq, List.forall₂_map_left_iff, List.forall₂_map_right_iff]
      exact h.records.imp fun _ _ => TlsaRecord.keyText_eq_iff.2
    rw [TlsValidation.keyParts, TlsValidation.keyParts, h.mode, h.dnssecSecure, hrecords,
      h.records.length_eq]

theorem tlsValidationKey_inj_iff {a b : TlsValidation} :
    (tlsValidationKey a = tlsValidationKey b → a = b) ↔ ¬ a.Collide b := by
  rw [tlsValidationKey_eq_iff, TlsValidation.Collide, not_and, not_imp_not]

/-- The key of a store of sessions begins with that of the policy. -/
theorem resumptionKey_inj {a b : TlsValidation} {alpn alpn' : List (List Char)}
    (h : TransportState.resumptionKey (tlsValidationKey a) alpn =
      TransportState.resumptionKey (tlsValidationKey b) alpn') :
    tlsValidationKey a = tlsValidationKey b := by
  have hbar (tls : TlsValidation) : '|' ∉ tlsValidationKey tls := by
    intro hc
    rw [tlsValidationKey_eq] at hc
    rcases Chars.mem_intercalate hc with heq | ⟨part, hpart, hc⟩
    · exact absurd heq (by decide)
    · exact (tls.not_mem_of_mem_keyParts part hpart).2 hc
  have halpn : Chars.of "|alpn=" = '|' :: Chars.of "alpn=" := by simp [Chars.of]
  simp only [TransportState.resumptionKey, halpn, List.append_assoc, List.cons_append] at h
  exact (Chars.append_cons_inj (hbar a) (hbar b) h).1

/-! ## Requests under way -/

/-- An open TLS connection, with the request it has been opened for. -/
structure TlsConnection where
  openedFor : OriginRequest
  deriving DecidableEq

/-- The state of the transport, and the connections that requests have taken from it or opened. -/
structure Clients where
  state : TransportState TlsConnection
  inUse : List (OriginRequest × TlsConnection)

namespace Clients

/-- What the requests, of which many may be under way, do to the state. -/
inductive Step : Clients → Clients → Prop
  | clientConfig (s : Clients) (request : OriginRequest) (alpnProtocols : List (List Char)) :
      Step s { s with state := (s.state.clientConfig request.tls alpnProtocols).2 }
  | connect (s : Clients) (request : OriginRequest) :
      Step s { s with inUse := (request, ⟨request⟩) :: s.inUse }
  | take {s : Clients} (request : OriginRequest) {connection : TlsConnection}
      {state : TransportState TlsConnection} :
      s.state.takeHttp11Connection (http11PoolKey request) = (some connection, state) →
        Step s ⟨state, (request, connection) :: s.inUse⟩
  | put {s : Clients} {request : OriginRequest} {connection : TlsConnection} :
      (request, connection) ∈ s.inUse →
        Step s ⟨s.state.putHttp11Connection (http11PoolKey request) connection,
          s.inUse.erase (request, connection)⟩
  | close {s : Clients} (request : OriginRequest) (connection : TlsConnection) :
      Step s { s with inUse := s.inUse.erase (request, connection) }

inductive Reachable : Clients → Prop
  | init : Reachable ⟨.default, []⟩
  | step {s s' : Clients} : Reachable s → Step s s' → Reachable s'

/-- Everything is kept under the key of the policy it has been made for. -/
structure Keyed (s : Clients) : Prop where
  verifiers : ∀ key verifier, s.state.tlsVerifiers key = some verifier →
    key = tlsValidationKey verifier.tls
  resumption : ∀ key resumption, s.state.tlsResumption key = some resumption →
    ∃ alpn, key = TransportState.resumptionKey (tlsValidationKey resumption.madeFor) alpn
  pool : ∀ key, ∀ connection ∈ s.state.http11Pool key,
    key.tlsKey = tlsValidationKey connection.openedFor.tls
  inUse : ∀ use ∈ s.inUse, tlsValidationKey use.1.tls = tlsValidationKey use.2.openedFor.tls

/-- A request is given what has been made for a policy. -/
inductive Gives (s : Clients) (request : OriginRequest) (tls : TlsValidation) : Prop
  | verifier (alpnProtocols : List (List Char)) :
      (s.state.clientConfig request.tls alpnProtocols).1.1.tls = tls → Gives s request tls
  | resumption (alpnProtocols : List (List Char)) :
      (s.state.clientConfig request.tls alpnProtocols).1.2.madeFor = tls → Gives s request tls
  | pooled {connection : TlsConnection} {state : TransportState TlsConnection} :
      s.state.takeHttp11Connection (http11PoolKey request) = (some connection, state) →
        connection.openedFor.tls = tls → Gives s request tls

/-! ## What is kept where -/

variable {s s' : Clients}

theorem daneVerifierFor_eq (state : TransportState TlsConnection) (tls : TlsValidation)
    (tlsKey : List Char) :
    (state.daneVerifierFor tls tlsKey).2.tlsResumption = state.tlsResumption ∧
      (state.daneVerifierFor tls tlsKey).2.http11Pool = state.http11Pool := by
  rw [TransportState.daneVerifierFor]
  cases state.tlsVerifiers tlsKey <;> exact ⟨rfl, rfl⟩

theorem resumptionFor_eq (state : TransportState TlsConnection) (tls : TlsValidation)
    (tlsKey : List Char) (alpnProtocols : List (List Char)) :
    (state.resumptionFor tls tlsKey alpnProtocols).2.tlsVerifiers = state.tlsVerifiers ∧
      (state.resumptionFor tls tlsKey alpnProtocols).2.http11Pool = state.http11Pool := by
  rw [TransportState.resumptionFor]
  cases state.tlsResumption (TransportState.resumptionKey tlsKey alpnProtocols) <;>
    exact ⟨rfl, rfl⟩

/-- The verifiers that are kept after one has been asked for. -/
theorem daneVerifierFor_verifiers (state : TransportState TlsConnection) (tls : TlsValidation)
    {tlsKey key : List Char} {verifier : DaneServerCertVerifier}
    (h : (state.daneVerifierFor tls tlsKey).2.tlsVerifiers key = some verifier) :
    state.tlsVerifiers key = some verifier ∨ key = tlsKey ∧ verifier.tls = tls := by
  rw [TransportState.daneVerifierFor] at h
  cases hkept : state.tlsVerifiers tlsKey with
  | some kept =>
    rw [hkept] at h
    exact .inl h
  | none =>
    rw [hkept] at h
    rcases Table.insert_eq_some h with ⟨rfl, rfl⟩ | ⟨-, h⟩
    · exact .inr ⟨rfl, rfl⟩
    · exact .inl h

/-- The stores that are kept after one has been asked for. -/
theorem resumptionFor_resumption (state : TransportState TlsConnection) (tls : TlsValidation)
    {tlsKey key : List Char} {alpnProtocols : List (List Char)} {resumption : Resumption}
    (h : (state.resumptionFor tls tlsKey alpnProtocols).2.tlsResumption key = some resumption) :
    state.tlsResumption key = some resumption ∨
      key = TransportState.resumptionKey tlsKey alpnProtocols ∧ resumption.madeFor = tls := by
  rw [TransportState.resumptionFor] at h
  cases hkept : state.tlsResumption (TransportState.resumptionKey tlsKey alpnProtocols) with
  | some kept =>
    rw [hkept] at h
    exact .inl h
  | none =>
    rw [hkept] at h
    rcases Table.insert_eq_some h with ⟨rfl, rfl⟩ | ⟨-, h⟩
    · exact .inr ⟨rfl, rfl⟩
    · exact .inl h

theorem takeHttp11Connection_eq_some {state state' : TransportState TlsConnection}
    {key : Http11PoolKey} {connection : TlsConnection}
    (h : state.takeHttp11Connection key = (some connection, state')) :
    ∃ rest, state.http11Pool key = connection :: rest ∧
      state' = { state with http11Pool := Function.update state.http11Pool key rest } := by
  rw [TransportState.takeHttp11Connection] at h
  cases hpool : state.http11Pool key with
  | nil =>
    rw [hpool] at h
    exact absurd (Prod.mk.inj h).1 (Option.some_ne_none connection).symm
  | cons first rest =>
    rw [hpool] at h
    obtain ⟨hfirst, hstate⟩ := Prod.mk.inj h
    exact ⟨rest, by rw [Option.some.inj hfirst], hstate.symm⟩

/-- The connections of a pool into which one has been put. -/
theorem mem_putHttp11Connection {state : TransportState TlsConnection} {key key' : Http11PoolKey}
    {connection connection' : TlsConnection}
    (h : connection' ∈ (state.putHttp11Connection key connection).http11Pool key') :
    connection' ∈ state.http11Pool key' ∨ key' = key ∧ connection' = connection := by
  rw [TransportState.putHttp11Connection] at h
  by_cases hkey : key' = key
  · subst hkey
    simp only [Function.update_self, List.mem_append, List.mem_singleton] at h
    rcases h with h | rfl
    · refine .inl ?_
      split at h
      · exact List.mem_of_mem_tail h
      · exact h
    · exact .inr ⟨rfl, rfl⟩
  · simp only [Function.update_of_ne hkey] at h
    exact .inl h

theorem Keyed.step (hkeyed : s.Keyed) (hstep : Step s s') : s'.Keyed := by
  cases hstep with
  | clientConfig request alpnProtocols =>
    obtain ⟨hsame, hpool⟩ :=
      daneVerifierFor_eq s.state request.tls (tlsValidationKey request.tls)
    obtain ⟨hsame', hpool'⟩ := resumptionFor_eq
      (s.state.daneVerifierFor request.tls (tlsValidationKey request.tls)).2 request.tls
      (tlsValidationKey request.tls) alpnProtocols
    refine ⟨?_, ?_, ?_, hkeyed.inUse⟩
    · intro key verifier h
      rw [TransportState.clientConfig, hsame'] at h
      rcases daneVerifierFor_verifiers s.state request.tls h with h | ⟨rfl, htls⟩
      · exact hkeyed.verifiers key verifier h
      · rw [htls]
    · intro key resumption h
      rw [TransportState.clientConfig] at h
      rcases resumptionFor_resumption _ request.tls h with h | ⟨rfl, htls⟩
      · rw [hsame] at h
        exact hkeyed.resumption key resumption h
      · exact ⟨alpnProtocols, by rw [htls]⟩
    · intro key connection h
      rw [TransportState.clientConfig, hpool', hpool] at h
      exact hkeyed.pool key connection h
  | connect request =>
    refine ⟨hkeyed.verifiers, hkeyed.resumption, hkeyed.pool, ?_⟩
    rw [List.forall_mem_cons]
    exact ⟨rfl, hkeyed.inUse⟩
  | take request htake =>
    obtain ⟨rest, hpool, rfl⟩ := takeHttp11Connection_eq_some htake
    refine ⟨hkeyed.verifiers, hkeyed.resumption, ?_, ?_⟩
    · intro key connection' h
      by_cases hkey : key = http11PoolKey request
      · subst hkey
        refine hkeyed.pool _ connection' ?_
        rw [hpool]
        exact List.mem_cons_of_mem _ (by simpa using h)
      · exact hkeyed.pool key connection' (by simpa [Function.update_of_ne hkey] using h)
    · rw [List.forall_mem_cons]
      refine ⟨hkeyed.pool (http11PoolKey request) _ ?_, hkeyed.inUse⟩
      rw [hpool]
      exact List.mem_cons_self
  | put hmem =>
    refine ⟨hkeyed.verifiers, hkeyed.resumption, ?_, ?_⟩
    · intro key connection' h
      rcases mem_putHttp11Connection h with h | ⟨rfl, rfl⟩
      · exact hkeyed.pool key connection' h
      · have hkey := hkeyed.inUse _ hmem
        exact hkey
    · exact fun use huse => hkeyed.inUse use (List.mem_of_mem_erase huse)
  | close request connection =>
    exact ⟨hkeyed.verifiers, hkeyed.resumption, hkeyed.pool,
      fun use huse => hkeyed.inUse use (List.mem_of_mem_erase huse)⟩

/-- In every state that requests lead to, everything is kept under its key. -/
theorem Reachable.keyed (h : Reachable s) : s.Keyed := by
  induction h with
  | init =>
    exact ⟨fun _ _ h => absurd h (Option.some_ne_none _).symm,
      fun _ _ h => absurd h (Option.some_ne_none _).symm, fun _ _ h => absurd h List.not_mem_nil,
      fun _ h => absurd h List.not_mem_nil⟩
  | step _ hstep ih => exact ih.step hstep

/-- What a request is given has been made for a policy with the key of its own. -/
theorem Keyed.tlsValidationKey_of_gives (hkeyed : s.Keyed) {request : OriginRequest}
    {tls : TlsValidation} (h : s.Gives request tls) :
    tlsValidationKey tls = tlsValidationKey request.tls := by
  cases h with
  | verifier alpnProtocols h =>
    rw [TransportState.clientConfig, TransportState.daneVerifierFor] at h
    cases hkept : s.state.tlsVerifiers (tlsValidationKey request.tls) with
    | some kept =>
      rw [hkept] at h
      rw [← h]
      exact (hkeyed.verifiers _ kept hkept).symm
    | none =>
      rw [hkept] at h
      rw [← h]
      rfl
  | resumption alpnProtocols h =>
    rw [TransportState.clientConfig] at h
    simp only [TransportState.resumptionFor, (daneVerifierFor_eq _ _ _).1] at h
    cases hkept : s.state.tlsResumption
        (TransportState.resumptionKey (tlsValidationKey request.tls) alpnProtocols) with
    | some kept =>
      rw [hkept] at h
      obtain ⟨alpn, hkey⟩ := hkeyed.resumption _ kept hkept
      rw [← h]
      exact (resumptionKey_inj hkey).symm
    | none =>
      rw [hkept] at h
      rw [← h]
  | pooled htake hconnection =>
    obtain ⟨rest, hpool, -⟩ := takeHttp11Connection_eq_some htake
    have hkey := hkeyed.pool (http11PoolKey request) _ (by rw [hpool]; exact List.mem_cons_self)
    rw [← hconnection]
    exact hkey.symm

end Clients

/-- The second request may be given what has been made for the first one. -/
def Reuses (r₁ r₂ : OriginRequest) : Prop := ∃ s, Clients.Reachable s ∧ s.Gives r₂ r₁.tls

/-- A request is given what has been made for the policy of another one if their keys are equal,
    and only then. -/
theorem reuses_iff {r₁ r₂ : OriginRequest} :
    Reuses r₁ r₂ ↔ tlsValidationKey r₁.tls = tlsValidationKey r₂.tls := by
  constructor
  · rintro ⟨s, hs, hgives⟩
    exact hs.keyed.tlsValidationKey_of_gives hgives
  · intro hkey
    -- The first request makes a verifier, which the second one finds under its own key.
    refine ⟨_, .step .init (.clientConfig _ r₁ []), .verifier [] ?_⟩
    have hmade : (TransportState.clientConfig (κ := TlsConnection) r₁.tls [] .default).2.tlsVerifiers
        (tlsValidationKey r₂.tls) = some (.new r₁.tls) := by
      rw [← hkey]
      exact Table.insert_self _ _ _
    rw [TransportState.clientConfig, TransportState.daneVerifierFor]
    simp only [hmade]
    rfl

/-- Nothing is shared between different policies, unless they only differ in data of records whose
    hashes agree; and the key is injective up to these. -/
theorem tls_eq_of_reuses_iff (r₁ r₂ : OriginRequest) (a b : TlsValidation) :
    ((Reuses r₁ r₂ → r₁.tls = r₂.tls) ↔ ¬ r₁.tls.Collide r₂.tls) ∧
      ((tlsValidationKey a = tlsValidationKey b → a = b) ↔ ¬ a.Collide b) := by
  refine ⟨?_, tlsValidationKey_inj_iff⟩
  rw [reuses_iff]
  exact tlsValidationKey_inj_iff

namespace SharingSample

/-- A SHA-256 association of an end entity. -/
def record (data : List UInt8) : TlsaRecord := ⟨.daneEe, .subjectPublicKeyInfo, .sha256, data⟩

def data : List UInt8 := List.replicate 24 0 ++ Octet.toLE 8 0x48146c3345aa0ae4

/-- Other data with the hash of `data`. -/
def data' : List UInt8 := List.replicate 24 0 ++ Octet.toLE 8 0x1607b9fe23f93260

def request (data : List UInt8) : OriginRequest where
  method := Chars.of "GET"
  scheme := Chars.of "https"
  host := Chars.of "site"
  connectHost := none
  port := 443
  pathAndQuery := Chars.of "/"
  protocol := .http11
  tls := ⟨.hnsStrict, true, [record data]⟩
  headers := []
  body := []

theorem collide : (request data).tls.Collide (request data').tls := by
  have hhash : defaultHash data = defaultHash data' := by decide
  refine ⟨by decide, rfl, rfl, ?_⟩
  rw [show (request data).tls.tlsaRecords = [record data] from rfl,
    show (request data').tls.tlsaRecords = [record data'] from rfl, List.forall₂_cons]
  exact ⟨⟨rfl, rfl, rfl, hhash⟩, .nil⟩

/-- Two requests for one origin, with one TLSA record each, of the same usage, selector and
    matching but of other data: the second one is given the verifier of the first one. -/
theorem exists_reuses_of_ne :
    ∃ r₁ r₂ : OriginRequest, Reuses r₁ r₂ ∧ r₁.tls ≠ r₂.tls ∧
      tlsValidationKey r₁.tls = tlsValidationKey r₂.tls := by
  have hkey : tlsValidationKey (request data).tls = tlsValidationKey (request data').tls :=
    tlsValidationKey_eq_iff.2 collide.2
  exact ⟨request data, request data', reuses_iff.2 hkey, collide.1, hkey⟩

end SharingSample

end Hns
