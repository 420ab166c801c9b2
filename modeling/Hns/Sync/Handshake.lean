import Hns.Sync.Session
import Hns.Lib.Fallible

/-!
# Runs of a session

What holds of a session with a peer after any packets and any requests, in any
order (`HeaderSyncSession.Reachable`). The history of a session has everything
that has happened, with the actions it has led to.

* `Reachable.safe`: nothing is asked of a peer before its version and its
  acknowledgement have been received, and there is at most one answer for each
  request;
* `handshakeOr_eq`: a handshake never ends without a version packet.
-/

namespace Hns

/-- What a session is told. -/
inductive SessionEvent
  | packet (packet : Packet)
  | requestHeaders (locator : List Hash) (stop : Hash)
  | requestProof (root key : Hash)

/-- Everything a session has been told, with the actions that it has asked for. -/
abbrev SessionHistory := List (SessionEvent × List HeaderSyncAction)

namespace SessionHistory

variable (history : SessionHistory)

def Received (packet : Packet) : Prop := ∃ actions, (.packet packet, actions) ∈ history

def actions : List HeaderSyncAction := history.flatMap Prod.snd

end SessionHistory

/-- The peer is one that headers and proofs can be asked of. -/
def VersionPacket.IsAccepted (version : VersionPacket) : Prop :=
  1 ≤ version.version ∧ version.services &&& serviceNetwork ≠ 0

/-- The handshake is over. -/
def HeaderSyncState.isConnected : HeaderSyncState → Bool
  | .ready | .headersRequested | .proofRequested => true
  | _ => false

namespace HeaderSyncAction

def isReady : HeaderSyncAction → Bool
  | .ready => true
  | _ => false

def isHeaders : HeaderSyncAction → Bool
  | .headers _ => true
  | _ => false

def isProof : HeaderSyncAction → Bool
  | .proof _ => true
  | _ => false

def sendsGetHeaders : HeaderSyncAction → Bool
  | .send (.getHeaders _) => true
  | _ => false

def sendsGetProof : HeaderSyncAction → Bool
  | .send (.getProof _) => true
  | _ => false

/-- An action that neither starts nor ends anything. -/
def isIdle (action : HeaderSyncAction) : Bool :=
  !action.isReady && !action.isHeaders && !action.isProof && !action.sendsGetHeaders &&
    !action.sendsGetProof

end HeaderSyncAction

namespace HeaderSyncSession

/-- The session after an event, and what is to be done. -/
def handle (session : HeaderSyncSession) : SessionEvent → HeaderSyncSession × List HeaderSyncAction
  | .packet packet => session.onPacket packet
  | .requestHeaders locator stop =>
    match session.requestHeaders locator stop with
    | (session, .ok action) => (session, [action])
    | (session, .error _) => (session, [])
  | .requestProof root key =>
    ((session.requestProof root key).1, [(session.requestProof root key).2])

/-- The sessions that a new one may become, with their histories. -/
inductive Reachable (localVersion : VersionPacket) : HeaderSyncSession → SessionHistory → Prop
  | new : Reachable localVersion (new localVersion) []
  | handle {session : HeaderSyncSession} {history : SessionHistory} (event : SessionEvent) :
      Reachable localVersion session history →
        Reachable localVersion (session.handle event).1
          (history ++ [(event, (session.handle event).2)])

/-! ## Steps -/

/-- What an event does to a session. -/
inductive Step : HeaderSyncSession → SessionEvent → HeaderSyncSession → List HeaderSyncAction → Prop
  | refuse {localVersion version remoteVersion ackReceived actions} :
      actions.all HeaderSyncAction.isIdle → Step ⟨.awaitingVersion, localVersion, remoteVersion, ackReceived⟩
        (.packet (.version version)) ⟨.closed, localVersion, remoteVersion, ackReceived⟩ actions
  | version {localVersion version remoteVersion} : version.IsAccepted →
      Step ⟨.awaitingVersion, localVersion, remoteVersion, false⟩ (.packet (.version version))
        ⟨.awaitingVerack, localVersion, some version, false⟩ [.send .verack]
  | versionLast {localVersion version remoteVersion} : version.IsAccepted →
      Step ⟨.awaitingVersion, localVersion, remoteVersion, true⟩ (.packet (.version version))
        ⟨.ready, localVersion, some version, true⟩ [.send .verack, .ready]
  | verack {localVersion remoteVersion ackReceived} :
      Step ⟨.awaitingVersion, localVersion, remoteVersion, ackReceived⟩ (.packet .verack)
        ⟨.awaitingVersion, localVersion, remoteVersion, true⟩ []
  | verackLast {localVersion remoteVersion ackReceived} :
      Step ⟨.awaitingVerack, localVersion, remoteVersion, ackReceived⟩ (.packet .verack)
        ⟨.ready, localVersion, remoteVersion, true⟩ [.ready]
  | headers {localVersion remoteVersion ackReceived items} :
      Step ⟨.headersRequested, localVersion, remoteVersion, ackReceived⟩ (.packet (.headers items))
        ⟨.ready, localVersion, remoteVersion, ackReceived⟩ [.headers items]
  | proof {localVersion remoteVersion ackReceived packet} :
      Step ⟨.proofRequested, localVersion, remoteVersion, ackReceived⟩ (.packet (.proof packet))
        ⟨.ready, localVersion, remoteVersion, ackReceived⟩ [.proof packet]
  | requestHeaders {localVersion remoteVersion ackReceived locator stop} :
      Step ⟨.ready, localVersion, remoteVersion, ackReceived⟩ (.requestHeaders locator stop)
        ⟨.headersRequested, localVersion, remoteVersion, ackReceived⟩
        [.send (.getHeaders ⟨locator, stop⟩)]
  | requestProof {localVersion remoteVersion ackReceived root key} :
      Step ⟨.ready, localVersion, remoteVersion, ackReceived⟩ (.requestProof root key)
        ⟨.proofRequested, localVersion, remoteVersion, ackReceived⟩ [.send (.getProof ⟨root, key⟩)]
  | idle {session event actions} : actions.all HeaderSyncAction.isIdle →
      Step session event session actions

theorem step_onPacket (session : HeaderSyncSession) (packet : Packet) :
    Step session (.packet packet) (session.onPacket packet).1 (session.onPacket packet).2 := by
  obtain ⟨state, localVersion, remoteVersion, ackReceived⟩ := session
  unfold onPacket
  split
  · next version hstate =>
    obtain rfl : state = .awaitingVersion := hstate
    split_ifs with hrefuse hack
    · exact .refuse rfl
    · obtain rfl : ackReceived = true := hack
      rw [not_or] at hrefuse
      exact .versionLast ⟨UInt32.not_lt.1 hrefuse.1, hrefuse.2⟩
    · obtain rfl : ackReceived = false := by simpa using hack
      rw [not_or] at hrefuse
      exact .version ⟨UInt32.not_lt.1 hrefuse.1, hrefuse.2⟩
  · next hstate =>
    obtain rfl : state = .awaitingVersion := hstate
    exact .verack
  · next hstate =>
    obtain rfl : state = .awaitingVerack := hstate
    exact .verackLast
  · next items hstate =>
    obtain rfl : state = .headersRequested := hstate
    exact .headers
  · next proof hstate =>
    obtain rfl : state = .proofRequested := hstate
    exact .proof
  all_goals exact .idle rfl

theorem step_handle (session : HeaderSyncSession) (event : SessionEvent) :
    Step session event (session.handle event).1 (session.handle event).2 := by
  cases event with
  | packet packet => exact step_onPacket session packet
  | requestHeaders locator stop =>
    obtain ⟨state, localVersion, remoteVersion, ackReceived⟩ := session
    rw [handle, HeaderSyncSession.requestHeaders]
    by_cases hready : state = .ready
    · subst hready
      rw [if_neg (not_not.2 rfl)]
      split_ifs
      · exact .idle rfl
      · exact .requestHeaders
    · rw [if_pos hready]
      exact .idle rfl
  | requestProof root key =>
    obtain ⟨state, localVersion, remoteVersion, ackReceived⟩ := session
    rw [handle, HeaderSyncSession.requestProof]
    by_cases hready : state = .ready
    · subst hready
      rw [if_neg (not_not.2 rfl)]
      exact .requestProof
    · rw [if_pos hready]
      exact .idle rfl

/-! ## What every step keeps -/

open HeaderSyncAction (isReady isHeaders isProof sendsGetHeaders sendsGetProof)

/-- What holds of a session and its history. -/
structure Safe (session : HeaderSyncSession) (history : SessionHistory) : Prop where
  version : ∀ version, session.remoteVersion = some version →
    version.IsAccepted ∧ history.Received (.version version)
  verack : session.ackReceived → history.Received .verack
  awaitingVerack : session.state = .awaitingVerack → session.remoteVersion ≠ none
  connected : session.state.isConnected → session.remoteVersion ≠ none ∧ session.ackReceived
  ready : history.actions.countP isReady =
    if session.state.isConnected then 1 else 0
  headers : history.actions.countP sendsGetHeaders =
    history.actions.countP isHeaders +
      if session.state = .headersRequested then 1 else 0
  proof : history.actions.countP sendsGetProof =
    history.actions.countP isProof +
      if session.state = .proofRequested then 1 else 0

theorem actions_append (history : SessionHistory) (event : SessionEvent)
    (actions : List HeaderSyncAction) :
    SessionHistory.actions (history ++ [(event, actions)]) = history.actions ++ actions := by
  rw [SessionHistory.actions, List.flatMap_append]
  simp [SessionHistory.actions]

theorem received_append {history : SessionHistory} {packet : Packet} (h : history.Received packet)
    (item : SessionEvent × List HeaderSyncAction) :
    SessionHistory.Received (history ++ [item]) packet := by
  obtain ⟨actions, hmem⟩ := h
  exact ⟨actions, List.mem_append_left _ hmem⟩

theorem received_last (history : SessionHistory) (packet : Packet)
    (actions : List HeaderSyncAction) :
    SessionHistory.Received (history ++ [(.packet packet, actions)]) packet :=
  ⟨actions, List.mem_append_right _ (List.mem_singleton_self _)⟩

/-- Actions that are idle are of no kind that is counted. -/
theorem countP_idle {actions : List HeaderSyncAction} (h : actions.all HeaderSyncAction.isIdle) :
    actions.countP isReady = 0 ∧ actions.countP isHeaders = 0 ∧
      actions.countP isProof = 0 ∧
      actions.countP sendsGetHeaders = 0 ∧
      actions.countP sendsGetProof = 0 := by
  have hidle : ∀ action ∈ actions, action.isIdle := List.all_eq_true.1 h
  simp only [List.countP_eq_zero]
  refine ⟨?_, ?_, ?_, ?_, ?_⟩ <;> intro action hmem haction <;>
    simpa [HeaderSyncAction.isIdle, haction] using hidle action hmem

theorem Safe.step {session session' : HeaderSyncSession} {history : SessionHistory}
    {event : SessionEvent} {actions : List HeaderSyncAction} (h : Safe session history)
    (hstep : Step session event session' actions) :
    Safe session' (history ++ [(event, actions)]) := by
  have hversion : ∀ version, session.remoteVersion = some version → version.IsAccepted ∧
      SessionHistory.Received (history ++ [(event, actions)]) (.version version) := by
    intro version hsome
    obtain ⟨haccepted, hreceived⟩ := h.version version hsome
    exact ⟨haccepted, received_append hreceived _⟩
  have hverack : session.ackReceived →
      SessionHistory.Received (history ++ [(event, actions)]) .verack :=
    fun hack => received_append (h.verack hack) _
  obtain ⟨-, -, hawaiting, hconnected, hready, hheaders, hproof⟩ := h
  cases hstep with
  | refuse hidle =>
    obtain ⟨hr, hh, hp, hgh, hgp⟩ := countP_idle hidle
    refine ⟨hversion, hverack, nofun, nofun, ?_, ?_, ?_⟩ <;>
      simpa [actions_append, List.countP_append, hr, hh, hp, hgh, hgp]
  | version haccepted =>
    refine ⟨?_, hverack, fun _ => Option.some_ne_none _, nofun, ?_, ?_, ?_⟩
    · rintro _ ⟨⟩
      exact ⟨haccepted, received_last _ _ _⟩
    · simpa [actions_append, isReady, HeaderSyncState.isConnected] using hready
    · simpa [actions_append, sendsGetHeaders, isHeaders] using hheaders
    · simpa [actions_append, sendsGetProof, isProof] using hproof
  | versionLast haccepted =>
    refine ⟨?_, fun _ => hverack rfl, nofun, fun _ => ⟨Option.some_ne_none _, rfl⟩, ?_, ?_, ?_⟩
    · rintro _ ⟨⟩
      exact ⟨haccepted, received_last _ _ _⟩
    · simpa [actions_append, isReady, HeaderSyncState.isConnected] using hready
    · simpa [actions_append, sendsGetHeaders, isHeaders] using hheaders
    · simpa [actions_append, sendsGetProof, isProof] using hproof
  | verack =>
    refine ⟨hversion, fun _ => received_last _ _ _, nofun, nofun, ?_, ?_, ?_⟩
    · simpa [actions_append] using hready
    · simpa [actions_append] using hheaders
    · simpa [actions_append] using hproof
  | verackLast =>
    refine ⟨hversion, fun _ => received_last _ _ _, nofun, fun _ => ⟨hawaiting rfl, rfl⟩, ?_, ?_, ?_⟩
    · simpa [actions_append, isReady, HeaderSyncState.isConnected] using hready
    · simpa [actions_append, sendsGetHeaders, isHeaders] using hheaders
    · simpa [actions_append, sendsGetProof, isProof] using hproof
  | headers =>
    refine ⟨hversion, hverack, nofun, fun _ => hconnected rfl, ?_, ?_, ?_⟩
    · simpa [actions_append, isReady, HeaderSyncState.isConnected] using hready
    · -- The request that was outstanding is answered.
      simpa [actions_append, sendsGetHeaders, isHeaders] using hheaders
    · simpa [actions_append, sendsGetProof, isProof] using hproof
  | proof =>
    refine ⟨hversion, hverack, nofun, fun _ => hconnected rfl, ?_, ?_, ?_⟩
    · simpa [actions_append, isReady, HeaderSyncState.isConnected] using hready
    · simpa [actions_append, sendsGetHeaders, isHeaders] using hheaders
    · simpa [actions_append, sendsGetProof, isProof] using hproof
  | requestHeaders =>
    refine ⟨hversion, hverack, nofun, fun _ => hconnected rfl, ?_, ?_, ?_⟩
    · simpa [actions_append, isReady, HeaderSyncState.isConnected] using hready
    · -- Nothing was outstanding, and now one request is.
      simpa [actions_append, sendsGetHeaders, isHeaders] using hheaders
    · simpa [actions_append, sendsGetProof, isProof] using hproof
  | requestProof =>
    refine ⟨hversion, hverack, nofun, fun _ => hconnected rfl, ?_, ?_, ?_⟩
    · simpa [actions_append, isReady, HeaderSyncState.isConnected] using hready
    · simpa [actions_append, sendsGetHeaders, isHeaders] using hheaders
    · simpa [actions_append, sendsGetProof, isProof] using hproof
  | idle hidle =>
    obtain ⟨hr, hh, hp, hgh, hgp⟩ := countP_idle hidle
    refine ⟨hversion, hverack, hawaiting, hconnected, ?_, ?_, ?_⟩ <;>
      simpa [actions_append, List.countP_append, hr, hh, hp, hgh, hgp]

theorem Reachable.keeps {localVersion : VersionPacket} {session : HeaderSyncSession}
    {history : SessionHistory} (h : Reachable localVersion session history) :
    Safe session history := by
  induction h with
  | new => exact ⟨nofun, nofun, nofun, nofun, rfl, rfl, rfl⟩
  | handle event _ ih => exact ih.step (step_handle _ event)

/-- An event that makes the session ready ends the handshake. -/
theorem connects_of_ready {session session' : HeaderSyncSession} {event : SessionEvent}
    {actions : List HeaderSyncAction} (hstep : Step session event session' actions)
    (hready : .ready ∈ actions) :
    session.state.isConnected = false ∧ session'.state = .ready := by
  cases hstep with
  | refuse hidle => exact absurd (List.all_eq_true.1 hidle _ hready) (by decide)
  | version haccepted => simp at hready
  | versionLast haccepted => exact ⟨rfl, rfl⟩
  | verack => cases hready
  | verackLast => exact ⟨rfl, rfl⟩
  | headers => simp at hready
  | proof => simp at hready
  | requestHeaders => simp at hready
  | requestProof => simp at hready
  | idle hidle => exact absurd (List.all_eq_true.1 hidle _ hready) (by decide)

/-- A closed session stays closed. -/
theorem closed_of_step {session session' : HeaderSyncSession} {event : SessionEvent}
    {actions : List HeaderSyncAction} (hstep : Step session event session' actions)
    (hclosed : session.state = .closed) : session'.state = .closed := by
  cases hstep with
  | idle => exact hclosed
  | _ => cases hclosed

/-- The session after the events. -/
def handleAll (session : HeaderSyncSession) (events : List SessionEvent) : HeaderSyncSession :=
  events.foldl (fun session event => (session.handle event).1) session

theorem closed_handleAll {session : HeaderSyncSession} (hclosed : session.state = .closed)
    (events : List SessionEvent) : (session.handleAll events).state = .closed := by
  induction events generalizing session with
  | nil => exact hclosed
  | cons event events ih => exact ih (closed_of_step (step_handle session event) hclosed)

/-! ## Handshakes -/

/-- A packet is sent, with what becomes of those after it. -/
def sendPacket : List (Option P2pError) → Except P2pError (List (Option P2pError))
  | some error :: _ => .error error
  | none :: sends => .ok sends
  | [] => .ok []

/-- The loop of `handshake` over the actions on a packet: the version packet, or how the peer takes
    what is sent next. `missing` is the error when there is no version packet. -/
def handshakeActions (session : HeaderSyncSession) (missing : P2pError) :
    List (Option P2pError) → List HeaderSyncAction →
      Except P2pError (VersionPacket ⊕ List (Option P2pError))
  | sends, [] => .ok (.inr sends)
  | sends, action :: actions =>
    match action with
    | .ready => (Except.ofOption missing session.remoteVersion).map .inl
    | .send _ => do
      let sends ← sendPacket sends
      handshakeActions session missing sends actions
    | .disconnect reason => .error (.sessionDisconnected reason)
    | .headers _ | .proof _ => .error .unexpectedAction

/-- The loop of `handshake` over the packets of the peer, which then fails. -/
def handshakeLoop (missing failure : P2pError) :
    HeaderSyncSession → List (Option P2pError) → List Packet →
      HeaderSyncSession × Except P2pError VersionPacket
  | session, _, [] => (session, .error failure)
  | session, sends, packet :: incoming =>
    let (session, actions) := session.onPacket packet
    match handshakeActions session missing sends actions with
    | .error error => (session, .error error)
    | .ok (.inl version) => (session, .ok version)
    | .ok (.inr sends) => handshakeLoop missing failure session sends incoming

/-- `PeerConnection::handshake`, but for the error when there is no version packet. -/
def handshakeOr (missing : P2pError) (session : HeaderSyncSession)
    (sends : List (Option P2pError)) (incoming : List Packet) (failure : P2pError) :
    HeaderSyncSession × Except P2pError VersionPacket :=
  match sendPacket sends with
  | .error error => (session, .error error)
  | .ok sends => handshakeLoop missing failure session sends incoming

def handshake : HeaderSyncSession → List (Option P2pError) → List Packet → P2pError →
    HeaderSyncSession × Except P2pError VersionPacket := handshakeOr .unexpectedAction

theorem handshakeActions_eq {session : HeaderSyncSession} {actions : List HeaderSyncAction}
    (h : .ready ∈ actions → session.remoteVersion ≠ none) (missing missing' : P2pError)
    (sends : List (Option P2pError)) :
    handshakeActions session missing sends actions =
      handshakeActions session missing' sends actions := by
  induction actions generalizing sends with
  | nil => rfl
  | cons action actions ih =>
    cases action with
    | ready =>
      obtain ⟨version, hversion⟩ := Option.ne_none_iff_exists'.1 (h List.mem_cons_self)
      rw [handshakeActions, handshakeActions, hversion]
      rfl
    | send packet =>
      rw [handshakeActions, handshakeActions]
      refine congrArg (sendPacket sends >>= ·) ?_
      funext sends
      exact ih (fun hmem => h (List.mem_cons_of_mem _ hmem)) sends
    | disconnect reason => rfl
    | headers items => rfl
    | proof packet => rfl

theorem handshakeLoop_eq {localVersion : VersionPacket} {session : HeaderSyncSession}
    {history : SessionHistory} (h : Reachable localVersion session history)
    (missing missing' failure : P2pError) (sends : List (Option P2pError))
    (incoming : List Packet) :
    handshakeLoop missing failure session sends incoming =
      handshakeLoop missing' failure session sends incoming := by
  induction incoming generalizing session history sends with
  | nil => rfl
  | cons packet incoming ih =>
    have hnext := h.handle (.packet packet)
    have hversion : .ready ∈ (session.onPacket packet).2 →
        (session.onPacket packet).1.remoteVersion ≠ none := by
      intro hready
      obtain ⟨-, hstate⟩ := connects_of_ready (step_onPacket session packet) hready
      exact (hnext.keeps.connected (by rw [handle, hstate]; rfl)).1
    simp only [handshakeLoop]
    rw [handshakeActions_eq hversion missing missing' sends]
    split
    · rfl
    · rfl
    · exact ih hnext _

/-- A session, after any packets and any requests: headers and proofs are asked for only of a peer
    whose version and acknowledgement have been received; the session gets ready once, when it has
    both; there are no more answers than requests, of which at most one is outstanding; a closed
    session stays closed; and a handshake does not end without a version packet. -/
theorem Reachable.safe {localVersion : VersionPacket} {session : HeaderSyncSession}
    {history : SessionHistory} (h : Reachable localVersion session history) :
    (session.state.isConnected → history.Received .verack ∧
      ∃ version, version.IsAccepted ∧ history.Received (.version version)) ∧
    history.actions.countP isReady ≤ 1 ∧
    (∀ event, .ready ∈ (session.handle event).2 →
      session.state.isConnected = false ∧ (session.handle event).1.state = .ready) ∧
    history.actions.countP isHeaders ≤ history.actions.countP sendsGetHeaders ∧
    history.actions.countP isProof ≤ history.actions.countP sendsGetProof ∧
    history.actions.countP sendsGetHeaders + history.actions.countP sendsGetProof ≤
      history.actions.countP isHeaders + history.actions.countP isProof + 1 ∧
    (session.state = .closed → ∀ events, (session.handleAll events).state = .closed) ∧
    ∀ missing sends incoming failure, handshakeOr missing session sends incoming failure =
      handshake session sends incoming failure := by
  have hsafe := h.keeps
  refine ⟨fun hconnected => ?_, ?_, fun event => connects_of_ready (step_handle session event), ?_,
    ?_, ?_, fun hclosed => closed_handleAll hclosed, fun missing sends incoming failure => ?_⟩
  · obtain ⟨hversion, hack⟩ := hsafe.connected hconnected
    obtain ⟨version, hsome⟩ := Option.ne_none_iff_exists'.1 hversion
    exact ⟨hsafe.verack hack, version, hsafe.version version hsome⟩
  · rw [hsafe.ready]
    split_ifs <;> decide
  · rw [hsafe.headers]
    exact Nat.le_add_right _ _
  · rw [hsafe.proof]
    exact Nat.le_add_right _ _
  · rw [hsafe.headers, hsafe.proof]
    by_cases hheaders : session.state = .headersRequested
    · rw [if_pos hheaders, if_neg (by rw [hheaders]; decide)]
      omega
    · rw [if_neg hheaders]
      split_ifs <;> omega
  · rw [handshake, handshakeOr, handshakeOr]
    cases sendPacket sends with
    | error e => rfl
    | ok sends => exact handshakeLoop_eq h _ _ _ _ _

end HeaderSyncSession

namespace HandshakeSample

open HeaderSyncSession HeaderSyncAction

/-- The version packet of a full node. -/
def version : VersionPacket where
  version := 3
  services := 1
  time := 0
  remote := ⟨0, 1, .v4 ⟨[192, 0, 2, 1], rfl⟩, 12038⟩
  nonce := ⟨List.replicate 8 0, rfl⟩
  agent := []
  height := 1
  noRelay := true

def events : List SessionEvent :=
  [.packet (.version version), .packet .verack, .requestHeaders [] .zero]

def history : SessionHistory :=
  [(.packet (.version version), [.send .verack]), (.packet .verack, [.ready]),
    (.requestHeaders [] .zero, [.send (.getHeaders ⟨[], .zero⟩)])]

theorem reachable_history :
    HeaderSyncSession.Reachable version ((new version).handleAll events) history :=
  .handle (.requestHeaders [] .zero) (.handle (.packet .verack)
    (.handle (.packet (.version version)) .new))

/-- Headers are asked for after the handshake, in which the session has got ready once. -/
theorem safe_history :
    ((new version).handleAll events).state = .headersRequested ∧ history.Received .verack ∧
      history.actions.countP isReady ≤ 1 ∧
      history.actions.countP isHeaders ≤ history.actions.countP sendsGetHeaders :=
  have hsafe := HeaderSyncSession.Reachable.safe reachable_history
  ⟨rfl, (hsafe.1 rfl).1, hsafe.2.1, hsafe.2.2.2.1⟩

end HandshakeSample

end Hns
