import Hns.Lib.Receiving
import Hns.Sync.Handshake
import Hns.Sync.Proofs

/-!
# Waiting for a peer

The five loops in which `hns-p2p` and `hns-sync` receive packets until one of
them is the answer that they wait for: those of `handshake`, `request_headers`,
`request_addresses` and `request_proof`, and that of
`request_hash_and_store_with_height`.

* `ReceiveCall.returnsWithin_iff`: the packets on which a call returns after at
  most so many of them. Other packets are answered or ignored, and none of the
  loops counts them.

What `receive_packet` returns, time after time, is any sequence of packets and
errors.
-/

namespace Hns

def IpAddr.isUnspecified : IpAddr → Bool
  | .v4 octets => octets.bytes.all (· = 0)
  | .v6 octets => octets.bytes.all (· = 0)

/-- The addresses that offer what is required, each once. -/
def serviceSockets (items : List NetAddress) (requiredServices : UInt64) : List SocketAddr :=
  ((items.filter fun item => item.services &&& requiredServices = requiredServices ∧ item.port ≠ 0 ∧
    item.address.isUnspecified = false).map fun item => ⟨item.address, item.port⟩).eraseDups

namespace HeaderSyncSession

def start (session : HeaderSyncSession) : HeaderSyncAction := .send (.version session.localVersion)

end HeaderSyncSession

/-! ## The loops of `PeerConnection` -/

open HeaderSyncSession (sendPacket)

/-- A session, with what becomes of the packets that are sent next. -/
abbrev Conversation := HeaderSyncSession × List (Option P2pError)

namespace PeerConnection

variable {α : Type}

/-- The loop over the actions on a packet: what is returned, or how the peer takes what is sent next.
    `answer` is what is returned on the action that is waited for. -/
def actionLoop (answer : HeaderSyncAction → Option (Except P2pError α)) :
    List (Option P2pError) → List HeaderSyncAction →
      Except P2pError (α ⊕ List (Option P2pError))
  | sends, [] => .ok (.inr sends)
  | sends, action :: actions =>
    match answer action with
    | some result => result.map .inl
    | none =>
      match action with
      | .send _ => do
        let sends ← sendPacket sends
        actionLoop answer sends actions
      | .disconnect reason => .error (.sessionDisconnected reason)
      | .ready | .headers _ | .proof _ => .error .unexpectedAction

/-- The loop over the packets. -/
def packetLoop (answer : HeaderSyncSession → HeaderSyncAction → Option (Except P2pError α)) :
    ReceiveLoop Conversation Packet P2pError (HeaderSyncSession × Except P2pError α) where
  next := fun (session, sends) packet =>
    let (session, actions) := session.onPacket packet
    match actionLoop (answer session) sends actions with
    | .error e => .inl (session, .error e)
    | .ok (.inl a) => .inl (session, .ok a)
    | .ok (.inr sends) => .inr (session, sends)
  fail := fun (session, _) e => (session, .error e)

def applyAction (action : HeaderSyncAction) (sends : List (Option P2pError)) :
    Except P2pError (List (Option P2pError)) :=
  match action with
  | .send _ => sendPacket sends
  | .disconnect reason => .error (.sessionDisconnected reason)
  | .ready | .headers _ | .proof _ => .error .unexpectedAction

/-- An action, and then a loop. -/
def startLoop (session : HeaderSyncSession) (action : Except P2pError HeaderSyncAction)
    (sends : List (Option P2pError)) : (HeaderSyncSession × Except P2pError α) ⊕ Conversation :=
  match action.bind (applyAction · sends) with
  | .error e => .inl (session, .error e)
  | .ok sends => .inr (session, sends)

def answerReady (session : HeaderSyncSession) :
    HeaderSyncAction → Option (Except P2pError VersionPacket)
  | .ready => some (Except.ofOption .unexpectedAction session.remoteVersion)
  | _ => none

def answerHeaders (_ : HeaderSyncSession) :
    HeaderSyncAction → Option (Except P2pError (List BlockHeader))
  | .headers items => some (.ok items)
  | _ => none

def answerProof (_ : HeaderSyncSession) : HeaderSyncAction → Option (Except P2pError ProofPacket)
  | .proof packet => some (.ok packet)
  | _ => none

/-- `handshake`, up to its loop, which is that of `answerReady`. -/
def handshake (session : HeaderSyncSession) (sends : List (Option P2pError)) :
    (HeaderSyncSession × Except P2pError VersionPacket) ⊕ Conversation :=
  startLoop session (.ok session.start) sends

/-- `request_headers`, up to its loop, which is that of `answerHeaders`. -/
def requestHeaders (session : HeaderSyncSession) (locator : List Hash) (stop : Hash)
    (sends : List (Option P2pError)) :
    (HeaderSyncSession × Except P2pError (List BlockHeader)) ⊕ Conversation :=
  let (session, action) := session.requestHeaders locator stop
  startLoop session action sends

/-- `request_proof`, up to its loop, which is that of `answerProof`. -/
def requestProof (session : HeaderSyncSession) (root key : Hash)
    (sends : List (Option P2pError)) :
    (HeaderSyncSession × Except P2pError ProofPacket) ⊕ Conversation :=
  let (session, action) := session.requestProof root key
  startLoop session (.ok action) sends

/-- The loop of `request_addresses`. -/
def addressLoop :
    ReceiveLoop (List (Option P2pError)) Packet P2pError (Except P2pError (List SocketAddr)) where
  next sends packet :=
    match packet with
    | .addr items => .inl (.ok (serviceSockets items serviceNetwork))
    | .ping _ =>
      match sendPacket sends with
      | .error e => .inl (.error e)
      | .ok sends => .inr sends
    | .getAddr | .pong _ | .sendHeaders | .unknown _ _ | .verack => .inr sends
    | .version _ | .getHeaders _ | .headers _ | .getProof _ | .proof _ =>
      .inl (.error .unexpectedAction)
  fail _ e := .error e

def requestAddresses (sends : List (Option P2pError)) :
    Except P2pError (List SocketAddr) ⊕ List (Option P2pError) :=
  match sendPacket sends with
  | .error e => .inl (.error e)
  | .ok sends => .inr sends

end PeerConnection

/-! ## The loop of `ProofScheduler` -/

namespace ProofScheduler

/-- The loop of `request_hash_and_store_with_height` over the packets. -/
def receiveLoop (scheduler : ProofScheduler) (call : ProofCall) (nameHash : NameHash) :
    ReceiveLoop (SchedulerState × Conversation) Packet P2pError
      (EStateM.Result SyncError SchedulerState ProofValidationResult) where
  next := fun (s, session, sends) packet =>
    let (session, actions) := session.onPacket packet
    match scheduler.actionLoop call nameHash sends actions s with
    | .error e s => .inl (.error e s)
    | .ok (.inl result) s => .inl (.ok result s)
    | .ok (.inr sends) s => .inr (s, session, sends)
  fail := fun (s, _) e =>
    (do forgetRequest call.root nameHash; throw (.p2p e) : SchedulerM ProofValidationResult) s

/-- `request_hash_and_store_with_height`, up to its loop. -/
def startRequest (call : ProofCall) (nameHash : NameHash) (sends : List (Option P2pError))
    (s : SchedulerState) : EStateM.Result SyncError SchedulerState ProofValidationResult ⊕
      (SchedulerState × Conversation) :=
  match call.session.requestProof call.root nameHash with
  | (session, .send _) =>
    match (do trackRequest call.root nameHash; sendOrForget call.root nameHash sends :
        SchedulerM (List (Option P2pError))) s with
    | .error e s => .inl (.error e s)
    | .ok sends s => .inr (s, session, sends)
  | (_, .disconnect reason) => .inl (.error (.p2p (.sessionDisconnected reason)) s)
  | _ => .inl (.error .unexpectedAction s)

end ProofScheduler

/-! ## Calls -/

/-- A call that waits for packets. That of a scheduler is for the name, the root and the session of a
    `ProofCall`. -/
inductive ReceiveCall
  | handshake (session : HeaderSyncSession)
  | requestHeaders (session : HeaderSyncSession) (locator : List Hash) (stop : Hash)
  | requestAddresses
  | requestProof (session : HeaderSyncSession) (root key : Hash)
  | requestHashAndStore (scheduler : ProofScheduler) (call : ProofCall) (nameHash : NameHash)
      (s : SchedulerState)

namespace ReceiveCall

open PeerConnection

/-- The call returns after at most `bound` packets. -/
def ReturnsWithin (call : ReceiveCall) (bound : ℕ) (sends : List (Option P2pError))
    (receive : ℕ → Except P2pError Packet) : Prop :=
  match call with
  | .handshake session =>
    (packetLoop answerReady).CallReturnsWithin bound (PeerConnection.handshake session sends) receive
  | .requestHeaders session locator stop =>
    (packetLoop answerHeaders).CallReturnsWithin bound
      (PeerConnection.requestHeaders session locator stop sends) receive
  | .requestAddresses =>
    addressLoop.CallReturnsWithin bound (PeerConnection.requestAddresses sends) receive
  | .requestProof session root key =>
    (packetLoop answerProof).CallReturnsWithin bound
      (PeerConnection.requestProof session root key sends) receive
  | .requestHashAndStore scheduler call nameHash s =>
    (scheduler.receiveLoop call nameHash).CallReturnsWithin bound
      (ProofScheduler.startRequest call nameHash sends s) receive

end ReceiveCall

/-- A packet that is answered, or ignored, at any time. -/
def Packet.isIdle : Packet → Bool
  | .getAddr | .addr _ | .sendHeaders | .unknown _ _ | .ping _ | .pong _ => true
  | _ => false

/-- A packet that may be answered by one. -/
def Packet.isAnswered : Packet → Bool
  | .ping _ | .version _ => true
  | _ => false

/-- Packets that `request_addresses` does not end on. -/
def Packet.keepsAddresses : Packet → Bool
  | .getAddr | .sendHeaders | .unknown _ _ | .ping _ | .pong _ | .verack => true
  | _ => false

/-- The packets do not end a handshake that has not received a version packet before: they have none
    either, or one that is accepted and no acknowledgement. -/
def AwaitsVersion (packets : List Packet) : Prop :=
  (∀ packet ∈ packets, packet.isIdle ∨ packet = .verack) ∨
    ∃ before version after, packets = before ++ .version version :: after ∧ version.IsAccepted ∧
      (∀ packet ∈ before, packet.isIdle) ∧ ∀ packet ∈ after, packet.isIdle

/-- The packets do not end a handshake. -/
def HeaderSyncSession.AwaitsReady (session : HeaderSyncSession) (packets : List Packet) : Prop :=
  match session.state, session.ackReceived with
  | .closed, _ => packets = []
  | .awaitingVersion, false => AwaitsVersion packets
  | .awaitingVersion, true => ∀ packet ∈ packets, packet.isIdle ∨ packet = .verack
  | _, _ => ∀ packet ∈ packets, packet.isIdle

namespace ReceiveCall

/-- The packets do not end the call. -/
def Waits (call : ReceiveCall) (packets : List Packet) : Prop :=
  match call with
  | .handshake session => session.AwaitsReady packets
  | .requestHeaders session locator _ => (session.state = .ready ∧ locator.length ≤ maxInv) ∧
      ∀ packet ∈ packets, packet.isIdle
  | .requestAddresses => ∀ packet ∈ packets, packet.keepsAddresses
  | .requestProof session _ _ => session.state = .ready ∧ ∀ packet ∈ packets, packet.isIdle
  | .requestHashAndStore _ call _ _ => call.session.state = .ready ∧
      ∀ packet ∈ packets, packet.isIdle

/-- The call does not wait: nothing is asked for, or the session is closed. -/
def Ends (call : ReceiveCall) : Prop :=
  match call with
  | .handshake session => session.state = .closed
  | .requestHeaders session locator _ => session.state ≠ .ready ∨ maxInv < locator.length
  | .requestAddresses => False
  | .requestProof session _ _ => session.state ≠ .ready
  | .requestHashAndStore _ call _ _ => call.session.state ≠ .ready

end ReceiveCall

/-! ## What is done about a packet -/

namespace HeaderSyncAction

def isSend : HeaderSyncAction → Bool
  | .send _ => true
  | _ => false

end HeaderSyncAction

/-- What is done about a packet that is idle. -/
def Packet.reply : Packet → List HeaderSyncAction
  | .ping nonce => [.send (.pong nonce)]
  | _ => []

namespace HeaderSyncSession

variable {session : HeaderSyncSession} {packet : Packet}

/-- A session is not changed by the packets that it keeps waiting on, if it has not to note that it
    has received an acknowledgement. -/
def keeps (session : HeaderSyncSession) (packet : Packet) : Prop :=
  match session.state with
  | .closed => False
  | .awaitingVersion => packet.isIdle ∨ packet = .verack
  | _ => packet.isIdle

theorem onPacket_idle (hopen : session.state ≠ .closed) (hidle : packet.isIdle) :
    session.onPacket packet = (session, packet.reply) := by
  obtain ⟨state, localVersion, remoteVersion, ackReceived⟩ := session
  cases state with
  | closed => exact absurd rfl hopen
  | _ => cases packet <;> first | rfl | cases hidle

theorem onPacket_keeps (hack : session.state = .awaitingVersion → session.ackReceived)
    (hkeeps : session.keeps packet) : session.onPacket packet = (session, packet.reply) := by
  by_cases hidle : packet.isIdle
  · refine onPacket_idle (fun hclosed => ?_) hidle
    rw [keeps, hclosed] at hkeeps
    exact hkeeps
  · obtain ⟨state, localVersion, remoteVersion, ackReceived⟩ := session
    cases state with
    | awaitingVersion =>
      obtain rfl : packet = .verack := hkeeps.resolve_left hidle
      obtain rfl : ackReceived = true := hack rfl
      rfl
    | closed => exact hkeeps.elim
    | _ => exact absurd hkeeps hidle

theorem onPacket_refused {localVersion version : VersionPacket} {remoteVersion ackReceived}
    (hrefused : ¬version.IsAccepted) :
    onPacket ⟨.awaitingVersion, localVersion, remoteVersion, ackReceived⟩ (.version version) =
      (⟨.closed, localVersion, remoteVersion, ackReceived⟩,
        [.disconnect "peer lacks required network service"]) := by
  have hcheck : version.version < 1 ∨ version.services &&& serviceNetwork = 0 := by
    rw [VersionPacket.IsAccepted, not_and_or, UInt32.not_le, not_not] at hrefused
    exact hrefused
  exact if_pos hcheck

theorem onPacket_accepted {localVersion version : VersionPacket} {remoteVersion ackReceived}
    (haccepted : version.IsAccepted) :
    onPacket ⟨.awaitingVersion, localVersion, remoteVersion, ackReceived⟩ (.version version) =
      if ackReceived then
        (⟨.ready, localVersion, some version, ackReceived⟩, [.send .verack, .ready])
      else (⟨.awaitingVerack, localVersion, some version, ackReceived⟩, [.send .verack]) := by
  have hcheck : ¬(version.version < 1 ∨ version.services &&& serviceNetwork = 0) :=
    not_or.2 ⟨UInt32.not_lt.2 haccepted.1, haccepted.2⟩
  exact if_neg hcheck

/-- On other packets a session does something else than to send a packet. -/
theorem exists_not_isSend (hack : session.state = .awaitingVersion → session.ackReceived)
    (hkeeps : ¬session.keeps packet) : ∃ action ∈ (session.onPacket packet).2, action.isSend = false := by
  obtain ⟨state, localVersion, remoteVersion, ackReceived⟩ := session
  cases state with
  | awaitingVersion =>
    obtain rfl : ackReceived = true := hack rfl
    cases packet with
    | version version =>
      by_cases haccepted : version.IsAccepted
      · rw [onPacket_accepted haccepted]
        exact ⟨.ready, by simp, rfl⟩
      · rw [onPacket_refused haccepted]
        exact ⟨_, List.mem_singleton_self _, rfl⟩
    | verack => exact absurd (.inr rfl) hkeeps
    | _ => first | exact absurd (.inl rfl) hkeeps | exact ⟨_, List.mem_singleton_self _, rfl⟩
  | closed => exact ⟨.disconnect _, List.mem_singleton_self _, rfl⟩
  | _ =>
    cases packet <;>
      first | exact absurd rfl hkeeps | exact ⟨_, List.mem_singleton_self _, rfl⟩

theorem keeps_idle (hkeeps : session.keeps packet) : packet.isIdle ∨ packet = .verack := by
  rw [keeps] at hkeeps
  split at hkeeps
  · exact hkeeps.elim
  · exact hkeeps
  · exact .inl hkeeps

/-- The only such packets that are answered are pings. -/
theorem reply_of_isAnswered (hkeeps : session.keeps packet) (hanswered : packet.isAnswered) :
    ∃ pong, packet.reply = [.send pong] := by
  cases packet with
  | ping nonce => exact ⟨.pong nonce, rfl⟩
  | version version => exact (keeps_idle hkeeps).elim nofun nofun
  | _ => cases hanswered

end HeaderSyncSession

theorem Packet.reply_of_not_isAnswered {packet : Packet} (h : packet.isAnswered = false) :
    packet.reply = [] := by
  cases packet <;> first | rfl | cases h

/-! ## What ends a loop -/

section Sent

variable {sends : List (Option P2pError)}

theorem sendPacket_of_allSent (h : AllSent sends 1) : sendPacket sends = .ok sends.tail := by
  rcases sends with _ | ⟨_ | e, sends⟩
  · rfl
  · rfl
  · exact absurd h (AllSent.some_cons e)

theorem exists_sendPacket_eq_error (h : ¬AllSent sends 1) : ∃ e, sendPacket sends = .error e := by
  rcases sends with _ | ⟨_ | e, sends⟩
  · exact absurd (AllSent.nil 1) h
  · exact absurd AllSent.none_cons h
  · exact ⟨e, rfl⟩

end Sent

namespace PeerConnection

variable {α : Type} {sends : List (Option P2pError)} {session : HeaderSyncSession}

/-- Something else than a packet to be sent ends the loop over the actions, if nothing before does. -/
theorem actionLoop_ne {answer : HeaderSyncAction → Option (Except P2pError α)}
    {actions : List HeaderSyncAction} (h : ∃ action ∈ actions, action.isSend = false)
    (rest : List (Option P2pError)) : actionLoop answer sends actions ≠ .ok (.inr rest) := by
  induction actions generalizing sends with
  | nil => simp at h
  | cons action actions ih =>
    rw [actionLoop.eq_def]
    dsimp only
    cases answer action with
    | some result => cases result <;> simp [Except.map]
    | none =>
      cases action with
      | send packet =>
        have hactions : ∃ action ∈ actions, action.isSend = false := by
          simpa [HeaderSyncAction.isSend] using h
        cases hsend : sendPacket sends with
        | error e => simp
        | ok sends' => simpa [hsend] using ih hactions
      | disconnect reason => simp
      | ready => simp
      | headers items => simp
      | proof packet => simp

/-- A loop that does not wait for a packet to be sent waits on what its session keeps waiting on. -/
theorem steady_packetLoop
    {answer : HeaderSyncSession → HeaderSyncAction → Option (Except P2pError α)}
    (hanswer : ∀ session packet, answer session (.send packet) = none)
    (hack : session.state = .awaitingVersion → session.ackReceived) :
    (packetLoop answer).Steady (session, ·) Packet.isAnswered session.keeps where
  ignored sends hkeeps hanswered := by
    simp only [packetLoop, HeaderSyncSession.onPacket_keeps hack hkeeps,
      Packet.reply_of_not_isAnswered hanswered, actionLoop]
  sent {packet sends} hkeeps hanswered hsent := by
    obtain ⟨pong, hreply⟩ := HeaderSyncSession.reply_of_isAnswered hkeeps hanswered
    simp only [packetLoop, HeaderSyncSession.onPacket_keeps hack hkeeps, hreply, actionLoop,
      hanswer, sendPacket_of_allSent hsent, Except.ok_bind]
  unsent {packet sends} hkeeps hanswered hsent := by
    obtain ⟨pong, hreply⟩ := HeaderSyncSession.reply_of_isAnswered hkeeps hanswered
    obtain ⟨e, herror⟩ := exists_sendPacket_eq_error hsent
    refine ⟨(session, .error e), ?_⟩
    simp only [packetLoop, HeaderSyncSession.onPacket_keeps hack hkeeps, hreply, actionLoop,
      hanswer, herror, Except.error_bind]
  ends {packet} sends hkeeps := by
    have hends := HeaderSyncSession.exists_not_isSend hack hkeeps
    simp only [packetLoop]
    split
    · exact ⟨_, rfl⟩
    · exact ⟨_, rfl⟩
    · next rest hactions => exact absurd hactions (actionLoop_ne hends rest)

theorem steady_addressLoop : addressLoop.Steady id Packet.isAnswered (Packet.keepsAddresses ·) where
  ignored {packet} sends hkeeps hanswered := by
    cases packet <;> first | rfl | (cases hanswered; done) | cases hkeeps
  sent {packet sends} hkeeps hanswered hsent := by
    cases packet with
    | ping nonce => simp [addressLoop, sendPacket_of_allSent hsent]
    | _ => first | (cases hanswered; done) | cases hkeeps
  unsent {packet sends} hkeeps hanswered hsent := by
    cases packet with
    | ping nonce =>
      obtain ⟨e, herror⟩ := exists_sendPacket_eq_error hsent
      exact ⟨.error e, by simp [addressLoop, herror]⟩
    | _ => first | (cases hanswered; done) | cases hkeeps
  ends {packet} sends hkeeps := by
    cases packet <;> first | exact ⟨_, rfl⟩ | exact absurd rfl hkeeps

end PeerConnection

namespace ProofScheduler

variable {scheduler : ProofScheduler} {call : ProofCall} {nameHash : NameHash} {s : SchedulerState}
  {sends : List (Option P2pError)} {session : HeaderSyncSession}

theorem sendOrForget_of_allSent {root key : Hash} (h : AllSent sends 1) :
    sendOrForget root key sends s = .ok sends.tail s := by
  rcases sends with _ | ⟨_ | e, sends⟩
  · rfl
  · rfl
  · exact absurd h (AllSent.some_cons e)

theorem exists_sendOrForget_eq_error {root key : Hash} (h : ¬AllSent sends 1) :
    ∃ e s', sendOrForget root key sends s = .error e s' := by
  rcases sends with _ | ⟨_ | e, sends⟩
  · exact absurd (AllSent.nil 1) h
  · exact absurd AllSent.none_cons h
  · exact ⟨_, _, rfl⟩

/-- A request to a peer that is ready is pending when it has been sent. -/
theorem startRequest_of_allSent (hstate : call.session.state = .ready) (h : AllSent sends 1) :
    startRequest call nameHash sends s =
      .inr ({ s with pending := insert (call.root, nameHash) s.pending },
        { call.session with state := .proofRequested }, sends.tail) := by
  rw [startRequest, HeaderSyncSession.requestProof, if_neg (not_not.2 hstate)]
  rcases sends with _ | ⟨_ | e, sends⟩
  · rfl
  · rfl
  · exact absurd h (AllSent.some_cons e)

theorem exists_startRequest_eq_inl (hstate : call.session.state = .ready) (h : ¬AllSent sends 1) :
    ∃ result, startRequest call nameHash sends s = .inl result := by
  rw [startRequest, HeaderSyncSession.requestProof, if_neg (not_not.2 hstate)]
  rcases sends with _ | ⟨_ | e, sends⟩
  · exact absurd (AllSent.nil 1) h
  · exact absurd AllSent.none_cons h
  · exact ⟨_, rfl⟩

/-- Something else than a packet to be sent ends the loop over the actions, if nothing before does. -/
theorem actionLoop_ne {actions : List HeaderSyncAction}
    (h : ∃ action ∈ actions, action.isSend = false) (rest : List (Option P2pError))
    (s' : SchedulerState) :
    scheduler.actionLoop call nameHash sends actions s ≠ .ok (.inr rest) s' := by
  induction actions generalizing sends s with
  | nil => simp at h
  | cons action actions ih =>
    rw [actionLoop.eq_def]
    cases action with
    | send packet =>
      have hactions : ∃ action ∈ actions, action.isSend = false := by
        simpa [HeaderSyncAction.isSend] using h
      by_cases hsent : AllSent sends 1
      · dsimp only
        rw [EStateM.bind_ok (sendOrForget_of_allSent hsent)]
        exact ih hactions
      · obtain ⟨e, s'', herror⟩ := exists_sendOrForget_eq_error hsent
        dsimp only
        rw [EStateM.bind_error herror]
        nofun
    | proof packet =>
      dsimp only
      cases hstore : scheduler.storeProof call nameHash packet s with
      | ok result s'' =>
        rw [EStateM.bind_ok hstore]
        nofun
      | error e s'' =>
        rw [EStateM.bind_error hstore]
        nofun
    | disconnect reason => nofun
    | ready => nofun
    | headers items => nofun

theorem steady_receiveLoop (hack : session.state = .awaitingVersion → session.ackReceived) :
    (scheduler.receiveLoop call nameHash).Steady (fun sends => (s, session, sends))
      Packet.isAnswered session.keeps where
  ignored sends hkeeps hanswered := by
    simp only [receiveLoop, HeaderSyncSession.onPacket_keeps hack hkeeps,
      Packet.reply_of_not_isAnswered hanswered]
    rfl
  sent {packet sends} hkeeps hanswered hsent := by
    obtain ⟨pong, hreply⟩ := HeaderSyncSession.reply_of_isAnswered hkeeps hanswered
    simp only [receiveLoop, HeaderSyncSession.onPacket_keeps hack hkeeps, hreply, actionLoop]
    rw [EStateM.bind_ok (sendOrForget_of_allSent hsent)]
    rfl
  unsent {packet sends} hkeeps hanswered hsent := by
    obtain ⟨pong, hreply⟩ := HeaderSyncSession.reply_of_isAnswered hkeeps hanswered
    obtain ⟨e, s', herror⟩ : ∃ e s', sendOrForget call.root nameHash sends s = .error e s' :=
      exists_sendOrForget_eq_error hsent
    refine ⟨.error e s', ?_⟩
    simp only [receiveLoop, HeaderSyncSession.onPacket_keeps hack hkeeps, hreply, actionLoop]
    rw [EStateM.bind_error herror]
  ends {packet} sends hkeeps := by
    have hends := HeaderSyncSession.exists_not_isSend hack hkeeps
    simp only [receiveLoop]
    split
    · exact ⟨_, rfl⟩
    · exact ⟨_, rfl⟩
    · next rest s' hactions => exact absurd hactions (actionLoop_ne hends rest s')

end ProofScheduler

/-! ## On finitely many packets -/

/-- The loop of a handshake, on packets after which the peer fails. -/
theorem HeaderSyncSession.handshake_eq_finishCall (session : HeaderSyncSession)
    (sends : List (Option P2pError)) (incoming : List Packet) (failure : P2pError) :
    session.handshake sends incoming failure =
      (PeerConnection.packetLoop PeerConnection.answerReady).finishCall
        (PeerConnection.handshake session sends) incoming failure := by
  have hactions : ∀ (session : HeaderSyncSession) sends actions,
      PeerConnection.actionLoop (PeerConnection.answerReady session) sends actions =
        handshakeActions session .unexpectedAction sends actions := by
    intro session sends actions
    induction actions generalizing sends with
    | nil => rfl
    | cons action actions ih =>
      cases action with
      | send packet =>
        rw [handshakeActions, ← funext fun sends => ih sends]
        rfl
      | _ => rfl
  have hloop : ∀ (session : HeaderSyncSession) sends,
      handshakeLoop .unexpectedAction failure session sends incoming =
        (PeerConnection.packetLoop PeerConnection.answerReady).finish (session, sends) incoming
          failure := by
    induction incoming with
    | nil => exact fun _ _ => rfl
    | cons packet incoming ih =>
      intro session sends
      cases hresult : handshakeActions (session.onPacket packet).1 .unexpectedAction sends
          (session.onPacket packet).2 with
      | error e =>
        have hnext : (PeerConnection.packetLoop PeerConnection.answerReady).next (session, sends)
            packet = .inl ((session.onPacket packet).1, .error e) := by
          simp only [PeerConnection.packetLoop, hactions, hresult]
        simp only [handshakeLoop, hresult, ReceiveLoop.finish, hnext]
      | ok next =>
        cases next with
        | inl version =>
          have hnext : (PeerConnection.packetLoop PeerConnection.answerReady).next (session, sends)
              packet = .inl ((session.onPacket packet).1, .ok version) := by
            simp only [PeerConnection.packetLoop, hactions, hresult]
          simp only [handshakeLoop, hresult, ReceiveLoop.finish, hnext]
        | inr rest =>
          have hnext : (PeerConnection.packetLoop PeerConnection.answerReady).next (session, sends)
              packet = .inr ((session.onPacket packet).1, rest) := by
            simp only [PeerConnection.packetLoop, hactions, hresult]
          simp only [handshakeLoop, hresult, ReceiveLoop.finish, hnext]
          exact ih _ rest
  rw [handshake, handshakeOr, PeerConnection.handshake, PeerConnection.startLoop]
  have hstart : (Except.ok session.start).bind (PeerConnection.applyAction · sends) =
      sendPacket sends := rfl
  rw [hstart]
  cases sendPacket sends with
  | error e => rfl
  | ok sends => exact hloop session sends

/-- The call of a scheduler, on packets after which the peer fails. -/
theorem ProofScheduler.requestHashAndStoreWithHeight_eq_finishCall (scheduler : ProofScheduler)
    (call : ProofCall) (nameHash : NameHash) (s : SchedulerState) :
    scheduler.requestHashAndStoreWithHeight call nameHash s =
      (scheduler.receiveLoop call nameHash).finishCall
        (startRequest call nameHash call.sends s) call.incoming call.failure := by
  have hloop : ∀ (incoming : List Packet) session sends s,
      scheduler.packetLoop call nameHash session sends incoming s =
        (scheduler.receiveLoop call nameHash).finish (s, session, sends) incoming call.failure := by
    intro incoming
    induction incoming with
    | nil => exact fun _ _ _ => rfl
    | cons packet incoming ih =>
      intro session sends s
      simp only [packetLoop, ReceiveLoop.finish, receiveLoop]
      cases hactions : scheduler.actionLoop call nameHash sends (session.onPacket packet).2 s with
      | error e s => rw [EStateM.bind_error hactions]
      | ok next s =>
        rw [EStateM.bind_ok hactions]
        cases next with
        | inl result => rfl
        | inr sends => exact ih _ sends s
  rw [requestHashAndStoreWithHeight, startRequest]
  rcases call.session.requestProof call.root nameHash with ⟨session, action⟩
  cases action with
  | send packet =>
    have htrack : trackRequest call.root nameHash s =
        .ok ⟨⟩ { s with pending := insert (call.root, nameHash) s.pending } := rfl
    dsimp only
    rw [EStateM.bind_ok htrack, EStateM.bind_ok htrack]
    cases hsend : sendOrForget call.root nameHash call.sends
        { s with pending := insert (call.root, nameHash) s.pending } with
    | error e s => rw [EStateM.bind_error hsend]; rfl
    | ok sends s =>
      rw [EStateM.bind_ok hsend]
      exact hloop call.incoming session sends s
  | _ => rfl

/-! ## Handshakes -/

namespace AwaitsVersion

variable {packet : Packet} {packets : List Packet}

theorem nil : AwaitsVersion [] := .inl (by simp)

theorem idle_cons (hidle : packet.isIdle) :
    AwaitsVersion (packet :: packets) ↔ AwaitsVersion packets := by
  constructor
  · rintro (h | ⟨before, version, after, heq, haccepted, hbefore, hafter⟩)
    · exact .inl (List.forall_mem_cons.1 h).2
    · cases before with
      | nil =>
        obtain ⟨rfl, -⟩ := List.cons.inj heq
        cases hidle
      | cons first before =>
        obtain ⟨-, rfl⟩ := List.cons.inj heq
        exact .inr ⟨before, version, after, rfl, haccepted, (List.forall_mem_cons.1 hbefore).2,
          hafter⟩
  · rintro (h | ⟨before, version, after, rfl, haccepted, hbefore, hafter⟩)
    · exact .inl (List.forall_mem_cons.2 ⟨.inl hidle, h⟩)
    · exact .inr ⟨packet :: before, version, after, rfl, haccepted,
        List.forall_mem_cons.2 ⟨hidle, hbefore⟩, hafter⟩

/-- If the first packet is not idle, it is the only one of its kind. -/
theorem cons_iff (hidle : packet.isIdle = false) :
    AwaitsVersion (packet :: packets) ↔
      packet = .verack ∧ (∀ packet ∈ packets, packet.isIdle ∨ packet = .verack) ∨
        ∃ version, packet = .version version ∧ version.IsAccepted ∧
          ∀ packet ∈ packets, packet.isIdle := by
  constructor
  · rintro (h | ⟨before, version, after, heq, haccepted, hbefore, hafter⟩)
    · obtain ⟨hfirst, hrest⟩ := List.forall_mem_cons.1 h
      exact .inl ⟨hfirst.resolve_left (by simp [hidle]), hrest⟩
    · cases before with
      | nil =>
        obtain ⟨hfirst, rfl⟩ := List.cons.inj heq
        exact .inr ⟨version, hfirst, haccepted, hafter⟩
      | cons first before =>
        obtain ⟨rfl, -⟩ := List.cons.inj heq
        have := (List.forall_mem_cons.1 hbefore).1
        simp [hidle] at this
  · rintro (⟨rfl, h⟩ | ⟨version, rfl, haccepted, h⟩)
    · exact .inl (List.forall_mem_cons.2 ⟨.inr rfl, h⟩)
    · exact .inr ⟨[], version, packets, rfl, haccepted, by simp, h⟩

end AwaitsVersion

namespace PeerConnection

open ReceiveLoop (after)

/-- An acknowledgement leaves a loop waiting for a version packet, and a version packet that is
    accepted leaves it waiting for an acknowledgement. -/
theorem after_awaitingVersion_eq_none_iff {session : HeaderSyncSession}
    (hstate : session.state = .awaitingVersion) (hack : session.ackReceived = false)
    (sends : List (Option P2pError)) (packets : List Packet) :
    (packetLoop answerReady).after (session, sends) packets = none ↔
      ¬(AwaitsVersion packets ∧ AllSent sends (packets.countP Packet.isAnswered)) := by
  induction packets generalizing sends with
  | nil => simp [after, AwaitsVersion.nil]
  | cons packet packets ih =>
    by_cases hidle : packet.isIdle
    · have hpacket : session.onPacket packet = (session, packet.reply) :=
        HeaderSyncSession.onPacket_idle (by rw [hstate]; decide) hidle
      have hkeeps : session.keeps packet := by
        rw [HeaderSyncSession.keeps, hstate]
        exact .inl hidle
      rw [AwaitsVersion.idle_cons hidle]
      cases hanswered : packet.isAnswered with
      | false =>
        have hreply := Packet.reply_of_not_isAnswered hanswered
        rw [List.countP_cons_of_neg (by simp [hanswered])]
        simp [after, packetLoop, hpacket, hreply, actionLoop, ← ih]
      | true =>
        obtain ⟨pong, hreply⟩ := HeaderSyncSession.reply_of_isAnswered hkeeps hanswered
        rw [List.countP_cons_of_pos hanswered, AllSent.succ_iff]
        by_cases hsent : AllSent sends 1
        · have hnext : (packetLoop answerReady).next (session, sends) packet =
              .inr (session, sends.tail) := by
            simp [packetLoop, hpacket, hreply, actionLoop, answerReady, sendPacket_of_allSent hsent]
          rw [after, hnext]
          simp [ih, hsent]
        · obtain ⟨e, herror⟩ := exists_sendPacket_eq_error hsent
          simp [after, packetLoop, hpacket, hreply, actionLoop, answerReady, herror, hsent]
    · obtain ⟨_, localVersion, remoteVersion, _⟩ := session
      obtain rfl := hstate
      obtain rfl := hack
      cases packet with
      | version version =>
        have hcount : (.version version :: packets).countP Packet.isAnswered =
            packets.countP Packet.isAnswered + 1 := List.countP_cons_of_pos rfl
        have hawaits : AwaitsVersion (.version version :: packets) ↔
            version.IsAccepted ∧ ∀ packet ∈ packets, packet.isIdle := by
          rw [AwaitsVersion.cons_iff rfl]
          simp
        rw [hcount, hawaits, AllSent.succ_iff]
        by_cases haccepted : version.IsAccepted
        · by_cases hsent : AllSent sends 1
          · have hnext : (packetLoop answerReady).next
                (⟨.awaitingVersion, localVersion, remoteVersion, false⟩, sends) (.version version) =
                  .inr (⟨.awaitingVerack, localVersion, some version, false⟩, sends.tail) := by
              simp [packetLoop, HeaderSyncSession.onPacket_accepted haccepted, actionLoop,
                answerReady, sendPacket_of_allSent hsent]
            have hsteady : (packetLoop answerReady).Steady
                (⟨.awaitingVerack, localVersion, some version, false⟩, ·) Packet.isAnswered _ :=
              steady_packetLoop (fun _ _ => rfl) fun h => by cases h
            rw [after, hnext]
            refine (hsteady.after_eq_none_iff sends.tail packets).trans ?_
            simp [HeaderSyncSession.keeps, haccepted, hsent]
          · obtain ⟨e, herror⟩ := exists_sendPacket_eq_error hsent
            simp [after, packetLoop, HeaderSyncSession.onPacket_accepted haccepted, actionLoop,
              answerReady, herror, hsent]
        · simp [after, packetLoop, HeaderSyncSession.onPacket_refused haccepted, actionLoop,
            answerReady, haccepted]
      | verack =>
        have hsteady : (packetLoop answerReady).Steady
            (⟨.awaitingVersion, localVersion, remoteVersion, true⟩, ·) Packet.isAnswered _ :=
          steady_packetLoop (fun _ _ => rfl) fun _ => rfl
        have hawaits : AwaitsVersion (.verack :: packets) ↔
            ∀ packet ∈ packets, packet.isIdle ∨ packet = .verack := by
          rw [AwaitsVersion.cons_iff rfl]
          simp
        rw [hawaits, List.countP_cons_of_neg (by decide)]
        exact hsteady.after_eq_none_iff sends packets
      | getHeaders _ | headers _ | getProof _ | proof _ =>
        have hawaits : AwaitsVersion (_ :: packets) ↔ _ :=
          AwaitsVersion.cons_iff (Bool.eq_false_iff.2 hidle)
        simp [after, packetLoop, HeaderSyncSession.onPacket, actionLoop, answerReady, hawaits]
      | _ => exact absurd rfl hidle

/-- What ends the loop of a handshake. -/
theorem after_answerReady_eq_none_iff (session : HeaderSyncSession) (sends : List (Option P2pError))
    (packets : List Packet) :
    (packetLoop answerReady).after (session, sends) packets = none ↔
      ¬(session.AwaitsReady packets ∧ AllSent sends (packets.countP Packet.isAnswered)) := by
  by_cases hack : session.state = .awaitingVersion → session.ackReceived
  · have hsteady : (packetLoop answerReady).Steady (session, ·) Packet.isAnswered _ :=
      steady_packetLoop (fun _ _ => rfl) hack
    have hawaits : session.AwaitsReady packets ↔ ∀ packet ∈ packets, session.keeps packet := by
      obtain ⟨state, localVersion, remoteVersion, ackReceived⟩ := session
      cases state with
      | awaitingVersion =>
        obtain rfl : ackReceived = true := hack rfl
        rfl
      | closed => exact List.eq_nil_iff_forall_not_mem
      | _ => rfl
    rw [hawaits]
    exact hsteady.after_eq_none_iff sends packets
  · obtain ⟨hstate, hack⟩ := Classical.not_imp.1 hack
    have hack : session.ackReceived = false := Bool.eq_false_iff.2 hack
    rw [HeaderSyncSession.AwaitsReady, hstate, hack]
    exact after_awaitingVersion_eq_none_iff hstate hack sends packets

end PeerConnection

namespace PeerConnection

variable {α : Type}

theorem startLoop_of_allSent {sends : List (Option P2pError)} (h : AllSent sends 1)
    (session : HeaderSyncSession) (packet : Packet) :
    (startLoop session (.ok (.send packet)) sends :
      (HeaderSyncSession × Except P2pError α) ⊕ Conversation) = .inr (session, sends.tail) := by
  have hsend : applyAction (.send packet) sends = .ok sends.tail := sendPacket_of_allSent h
  simp [startLoop, Except.bind, hsend]

theorem exists_startLoop_eq_inl {sends : List (Option P2pError)} (h : ¬AllSent sends 1)
    (session : HeaderSyncSession) (packet : Packet) :
    ∃ result, (startLoop session (.ok (.send packet)) sends :
      (HeaderSyncSession × Except P2pError α) ⊕ Conversation) = .inl result := by
  obtain ⟨e, herror⟩ := exists_sendPacket_eq_error h
  have hsend : applyAction (.send packet) sends = .error e := herror
  exact ⟨(session, .error e), by simp [startLoop, Except.bind, hsend]⟩

end PeerConnection

namespace ReceiveCall

open PeerConnection

variable {bound : ℕ} {sends : List (Option P2pError)} {receive : ℕ → Except P2pError Packet}

/-- In a request the session waits for one kind of packet, and is not changed by idle ones. -/
theorem after_requested_eq_none_iff {α : Type} {session : HeaderSyncSession}
    {answer : HeaderSyncSession → HeaderSyncAction → Option (Except P2pError α)}
    (hanswer : ∀ session packet, answer session (.send packet) = none)
    (hstate : session.state = .headersRequested ∨ session.state = .proofRequested)
    (sends : List (Option P2pError)) (packets : List Packet) :
    (packetLoop answer).after (session, sends) packets = none ↔
      ¬((∀ packet ∈ packets, packet.isIdle) ∧ AllSent sends (packets.countP Packet.isAnswered)) := by
  have hsteady : (packetLoop answer).Steady (session, ·) Packet.isAnswered session.keeps :=
    steady_packetLoop hanswer (by rcases hstate with h | h <;> rw [h] <;> nofun)
  have hkeeps : session.keeps = fun packet => packet.isIdle = true := by
    funext packet
    rcases hstate with h | h <;> rw [HeaderSyncSession.keeps, h]
  simpa only [hkeeps] using hsteady.after_eq_none_iff sends packets

/-- A call returns after at most `bound` packets just when receiving or sending fails, or when the
    first `bound` packets do not leave it waiting. -/
theorem returnsWithin_iff_waits (call : ReceiveCall) (bound : ℕ) (sends : List (Option P2pError))
    (receive : ℕ → Except P2pError Packet) :
    call.ReturnsWithin bound sends receive ↔
      (∃ k ≤ bound, ∃ e, receive k = .error e) ∨
        ¬(call.Waits (firstReceived receive bound) ∧
          AllSent sends ((firstReceived receive bound).countP Packet.isAnswered + 1)) := by
  cases call with
  | handshake session =>
    exact ReceiveLoop.callReturnsWithin_iff (fun h => startLoop_of_allSent h _ _)
      (fun h => exists_startLoop_eq_inl h _ _) (after_answerReady_eq_none_iff session) bound receive
  | requestHeaders session locator stop =>
    obtain ⟨state, localVersion, remoteVersion, ackReceived⟩ := session
    by_cases hstate : state = .ready
    · subst hstate
      by_cases hlength : maxInv < locator.length
      · have hrefused : PeerConnection.requestHeaders
            ⟨.ready, localVersion, remoteVersion, ackReceived⟩ locator stop sends =
              .inl (⟨.ready, localVersion, remoteVersion, ackReceived⟩, .error .countLimit) := by
          simp [PeerConnection.requestHeaders, HeaderSyncSession.requestHeaders, hlength, startLoop,
            Except.bind]
        rw [ReturnsWithin, hrefused]
        exact iff_of_true trivial (.inr fun h => absurd h.1.1.2 (Nat.not_le.2 hlength))
      · have hstart : PeerConnection.requestHeaders
            ⟨.ready, localVersion, remoteVersion, ackReceived⟩ locator stop sends =
              startLoop ⟨.headersRequested, localVersion, remoteVersion, ackReceived⟩
                (.ok (.send (.getHeaders ⟨locator, stop⟩))) sends := by
          simp [PeerConnection.requestHeaders, HeaderSyncSession.requestHeaders, hlength]
        have hwaits : ∀ packets, Waits (.requestHeaders
            ⟨.ready, localVersion, remoteVersion, ackReceived⟩ locator stop) packets ↔
              ∀ packet ∈ packets, packet.isIdle :=
          fun packets => and_iff_right ⟨rfl, Nat.not_lt.1 hlength⟩
        rw [ReturnsWithin, hstart, hwaits]
        exact ReceiveLoop.callReturnsWithin_iff (fun h => startLoop_of_allSent h _ _)
          (fun h => exists_startLoop_eq_inl h _ _)
          (after_requested_eq_none_iff (fun _ _ => rfl) (.inl rfl)) bound receive
    · have hrefused : PeerConnection.requestHeaders
          ⟨state, localVersion, remoteVersion, ackReceived⟩ locator stop sends =
            .inl (⟨state, localVersion, remoteVersion, ackReceived⟩,
              .error (.sessionDisconnected "headers requested before peer ready")) := by
        simp [PeerConnection.requestHeaders, HeaderSyncSession.requestHeaders, hstate, startLoop,
          Except.bind, applyAction]
      rw [ReturnsWithin, hrefused]
      exact iff_of_true trivial (.inr fun h => hstate h.1.1.1)
  | requestAddresses =>
    refine ReceiveLoop.callReturnsWithin_iff (fun h => ?_) (fun h => ?_)
      (fun sends => steady_addressLoop.after_eq_none_iff sends) bound receive
    · rw [PeerConnection.requestAddresses, sendPacket_of_allSent h]
      rfl
    · obtain ⟨e, herror⟩ := exists_sendPacket_eq_error h
      rw [PeerConnection.requestAddresses, herror]
      exact ⟨_, rfl⟩
  | requestProof session root key =>
    obtain ⟨state, localVersion, remoteVersion, ackReceived⟩ := session
    by_cases hstate : state = .ready
    · subst hstate
      have hstart : PeerConnection.requestProof
          ⟨.ready, localVersion, remoteVersion, ackReceived⟩ root key sends =
            startLoop ⟨.proofRequested, localVersion, remoteVersion, ackReceived⟩
              (.ok (.send (.getProof ⟨root, key⟩))) sends := rfl
      have hwaits : ∀ packets, Waits (.requestProof
          ⟨.ready, localVersion, remoteVersion, ackReceived⟩ root key) packets ↔
            ∀ packet ∈ packets, packet.isIdle := fun packets => and_iff_right rfl
      rw [ReturnsWithin, hstart, hwaits]
      exact ReceiveLoop.callReturnsWithin_iff (fun h => startLoop_of_allSent h _ _)
        (fun h => exists_startLoop_eq_inl h _ _)
        (after_requested_eq_none_iff (fun _ _ => rfl) (.inr rfl)) bound receive
    · have hrefused : PeerConnection.requestProof
          ⟨state, localVersion, remoteVersion, ackReceived⟩ root key sends =
            .inl (⟨state, localVersion, remoteVersion, ackReceived⟩,
              .error (.sessionDisconnected "proof requested before peer ready")) := by
        simp [PeerConnection.requestProof, HeaderSyncSession.requestProof, hstate, startLoop,
          Except.bind, applyAction]
      rw [ReturnsWithin, hrefused]
      exact iff_of_true trivial (.inr fun h => hstate h.1.1)
  | requestHashAndStore scheduler call nameHash s =>
    by_cases hstate : call.session.state = .ready
    · have hsteady : (scheduler.receiveLoop call nameHash).Steady
          (fun sends => ({ s with pending := insert (call.root, nameHash) s.pending },
            { call.session with state := .proofRequested }, sends)) Packet.isAnswered _ :=
        ProofScheduler.steady_receiveLoop fun h => by cases h
      have hwaits : ∀ packets, Waits (.requestHashAndStore scheduler call nameHash s) packets ↔
          ∀ packet ∈ packets, packet.isIdle := fun packets => and_iff_right hstate
      rw [ReturnsWithin, hwaits]
      exact ReceiveLoop.callReturnsWithin_iff (ProofScheduler.startRequest_of_allSent hstate)
        (ProofScheduler.exists_startRequest_eq_inl hstate) hsteady.after_eq_none_iff bound receive
    · have hrefused : ProofScheduler.startRequest call nameHash sends s =
          .inl (.error (.p2p (.sessionDisconnected "proof requested before peer ready")) s) := by
        rw [ProofScheduler.startRequest, HeaderSyncSession.requestProof, if_pos hstate]
      rw [ReturnsWithin, hrefused]
      exact iff_of_true trivial (.inr fun h => hstate h.1.1)

/-- A call that does not wait ends on the first packet, or before. -/
theorem not_waits_cons {call : ReceiveCall} (hends : call.Ends) (packet : Packet)
    (packets : List Packet) : ¬call.Waits (packet :: packets) := by
  cases call with
  | handshake session =>
    rw [Waits, HeaderSyncSession.AwaitsReady, show session.state = .closed from hends]
    exact List.cons_ne_nil packet packets
  | requestHeaders session locator stop =>
    exact fun h => hends.elim (absurd h.1.1) (Nat.not_lt.2 h.1.2)
  | requestAddresses => exact hends.elim
  | requestProof session root key => exact fun h => hends h.1
  | requestHashAndStore scheduler call nameHash s => exact fun h => hends h.1

/-- Any other call waits on pings, however many there are. -/
theorem waits_pings {call : ReceiveCall} (hends : ¬call.Ends) (nonce : Octets 8) (n : ℕ) :
    call.Waits (List.replicate n (.ping nonce)) := by
  have hidle : ∀ packet ∈ List.replicate n (Packet.ping nonce), packet.isIdle := by
    intro packet hmem
    rw [List.eq_of_mem_replicate hmem]
    rfl
  cases call with
  | handshake session =>
    obtain ⟨state, localVersion, remoteVersion, ackReceived⟩ := session
    have hverack : ∀ packet ∈ List.replicate n (Packet.ping nonce),
        packet.isIdle ∨ packet = .verack := fun packet hmem => .inl (hidle packet hmem)
    cases state with
    | awaitingVersion =>
      cases ackReceived with
      | false => exact .inl hverack
      | true => exact hverack
    | closed => exact absurd rfl hends
    | _ => exact hidle
  | requestHeaders session locator stop =>
    obtain ⟨hready, hlength⟩ := not_or.1 hends
    exact ⟨⟨not_not.1 hready, Nat.not_lt.1 hlength⟩, hidle⟩
  | requestAddresses =>
    intro packet hmem
    rw [List.eq_of_mem_replicate hmem]
    rfl
  | requestProof session root key => exact ⟨not_not.1 hends, hidle⟩
  | requestHashAndStore scheduler call nameHash s => exact ⟨not_not.1 hends, hidle⟩

theorem not_returnsWithin_pings {call : ReceiveCall} (hends : ¬call.Ends) (nonce : Octets 8)
    (bound : ℕ) : ¬call.ReturnsWithin bound [] fun _ => .ok (.ping nonce) := by
  rw [returnsWithin_iff_waits, firstReceived_const]
  rintro (⟨k, -, e, he⟩ | hwaits)
  · cases he
  · exact hwaits ⟨waits_pings hends nonce bound, AllSent.nil _⟩

/-- A call returns after at most `bound` packets just when receiving or sending fails by then, or one
    of the first `bound` packets ends it. There is a bound for all peers just when the call does not
    wait for any. -/
theorem returnsWithin_iff (call : ReceiveCall) :
    (∀ bound sends receive, call.ReturnsWithin bound sends receive ↔
      (∃ k ≤ bound, ∃ e, receive k = .error e) ∨
        ¬(call.Waits (firstReceived receive bound) ∧
          AllSent sends ((firstReceived receive bound).countP Packet.isAnswered + 1))) ∧
    ((∃ bound, ∀ sends receive, call.ReturnsWithin bound sends receive) ↔ call.Ends) := by
  refine ⟨returnsWithin_iff_waits call, fun ⟨bound, hbound⟩ => ?_, fun hends => ⟨1, ?_⟩⟩
  · by_contra hends
    exact not_returnsWithin_pings hends ⟨List.replicate 8 0, rfl⟩ bound (hbound _ _)
  · intro sends receive
    rw [returnsWithin_iff_waits]
    cases hreceive : receive 0 with
    | error e => exact .inl ⟨0, Nat.zero_le 1, e, hreceive⟩
    | ok packet =>
      rw [firstReceived_one hreceive]
      exact .inr fun hwaits => not_waits_cons hends packet [] hwaits.1

end ReceiveCall

namespace ReceiveSample

open HandshakeSample (version)

/-- A session after its handshake. -/
def session : HeaderSyncSession := ⟨.ready, version, some version, true⟩

/-- A call of each kind. -/
def calls : List ReceiveCall :=
  [.handshake (.new version), .requestHeaders session [] .zero, .requestAddresses,
    .requestProof session .zero .zero,
    .requestHashAndStore .accepting (ProofScheduler.deadendCall [] .zero .zero (.zero, .zero)) .zero
      .initial]

/-- None of them ever returns if the peer sends pings, whatever bound there were to be. -/
theorem not_returnsWithin_calls : ¬∃ call ∈ calls, ∃ bound,
    call.ReturnsWithin bound [] fun _ => .ok (.ping ⟨List.replicate 8 0, rfl⟩) := by
  have hends : ∀ call ∈ calls, ¬call.Ends := by
    simp [calls, ReceiveCall.Ends, session, HeaderSyncSession.new, ProofScheduler.deadendCall, maxInv]
  rintro ⟨call, hmem, bound, hreturns⟩
  exact ReceiveCall.not_returnsWithin_pings (hends call hmem) _ bound hreturns

end ReceiveSample

end Hns
