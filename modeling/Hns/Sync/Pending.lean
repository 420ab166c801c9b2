import Hns.Sync.Proofs

/-!
# Pending requests

What a call of the proof scheduler leaves of the requests that are pending. The
call adds its own request when the session is ready, and takes one off at its
end: its own, or that of the proof that has come first (`pending_eq`). A proof
that is not for the call's own request leaves that request behind, and so does a
session that is not ready, if the request has been left before.

* `pending_eq_erase_iff`: when a call forgets its own request and no other;
* `pending_runCalls`: nothing is pending after calls that are answered with
  their own proofs.
-/

namespace Hns

open EStateM (checked Keeps)

/-- A packet that nothing is done about while a proof is waited for. -/
def Packet.isIgnored : Packet → Bool
  | .getAddr | .addr _ | .sendHeaders | .unknown _ _ | .pong _ => true
  | _ => false

/-- The proof that the packets of the peer come to, if they do before the session ends, when what is
    sent to the peer, the answers to its pings, is taken as `sends` says. -/
def firstProof : List (Option P2pError) → List Packet → Option ProofPacket
  | _, [] => none
  | _, .proof packet :: _ => some packet
  | some _ :: _, .ping _ :: _ => none
  | sends, .ping _ :: incoming => firstProof sends.tail incoming
  | sends, packet :: incoming => if packet.isIgnored then firstProof sends incoming else none

/-- The proof that is sent in answer to the call, if the request can be sent. -/
def ProofCall.firstProof (call : ProofCall) : Option ProofPacket :=
  match call.sends with
  | some _ :: _ => none
  | sends => Hns.firstProof sends.tail call.incoming

/-- The request that is no longer pending after a call for the hash of a name. -/
def ProofCall.settled (call : ProofCall) (nameHash : NameHash) : Hash × Hash :=
  match call.firstProof with
  | some packet => (packet.root, packet.key)
  | none => (call.root, nameHash)

namespace ProofScheduler

variable {scheduler : ProofScheduler} {call : ProofCall} {nameHash : NameHash}

theorem pending_takeRequest (packet : ProofPacket) (s : SchedulerState) :
    (takeRequest packet s).state.pending = s.pending.erase (packet.root, packet.key) := by
  rw [takeRequest]
  split_ifs with hmem
  · rfl
  · exact (Finset.erase_eq_of_notMem hmem).symm

theorem keeps_insertVerifiedResourceValue (insertion : Insertion) :
    Keeps SchedulerState.pending (scheduler.insertVerifiedResourceValue insertion) := by
  intro s
  rw [insertVerifiedResourceValue]
  cases scheduler.sink s.stored insertion.verified with
  | ok _ => rfl
  | error e => rfl

/-- The request of a proof is taken off, whatever becomes of the proof. -/
theorem pending_storeProof (packet : ProofPacket) (s : SchedulerState) :
    (scheduler.storeProof call nameHash packet s).state.pending =
      s.pending.erase (packet.root, packet.key) := by
  have hstore (result : ProofValidationResult) : Keeps SchedulerState.pending (do
      let verified ← checked (verifiedResourceValue call.rootName nameHash result)
      scheduler.insertVerifiedResourceValue
        ⟨call.root, result, verified.anchoredAt result.root call.proofHeight⟩
      return result) :=
    (Keeps.checked _).bind fun verified =>
      (keeps_insertVerifiedResourceValue _).bind fun _ => Keeps.pure result
  calc
    _ = (scheduler.ingestProof packet s).state.pending := Keeps.state_bind hstore s
    _ = (takeRequest packet s).state.pending :=
      Keeps.state_bind (fun _ => Keeps.checked (scheduler.checkProof packet)) s
    _ = _ := pending_takeRequest packet s

/-- What the loop over the packets leaves pending, while a proof is waited for. -/
theorem pending_packetLoop {session : HeaderSyncSession} (hstate : session.state = .proofRequested)
    (sends : List (Option P2pError)) (incoming : List Packet) (s : SchedulerState) :
    (scheduler.packetLoop call nameHash session sends incoming s).state.pending =
      s.pending.erase (match firstProof sends incoming with
        | some packet => (packet.root, packet.key)
        | none => (call.root, nameHash)) := by
  obtain ⟨_, localVersion, remoteVersion, ackReceived⟩ := session
  obtain rfl : _ = HeaderSyncState.proofRequested := hstate
  induction incoming generalizing sends s with
  | nil => rfl
  | cons packet incoming ih =>
    cases packet with
    | proof packet =>
      -- The proof ends the call, with its result or with an error.
      have hloop : scheduler.packetLoop call nameHash
          ⟨.proofRequested, localVersion, remoteVersion, ackReceived⟩ sends
            (.proof packet :: incoming) s = scheduler.storeProof call nameHash packet s := by
        cases hstore : scheduler.storeProof call nameHash packet s with
        | ok result s' =>
          have haction : scheduler.actionLoop call nameHash sends [.proof packet] s =
              .ok (.inl result) s' := EStateM.bind_ok hstore
          exact EStateM.bind_ok haction
        | error e s' =>
          have haction : scheduler.actionLoop call nameHash sends [.proof packet] s =
              .error e s' := EStateM.bind_error hstore
          exact EStateM.bind_error haction
      rw [hloop]
      exact pending_storeProof packet s
    | ping nonce =>
      match sends with
      | some error :: sends => rfl
      | none :: sends => exact ih sends s
      | [] => exact ih [] s
    | getAddr => exact ih sends s
    | addr items => exact ih sends s
    | sendHeaders => exact ih sends s
    | unknown packetType payload => exact ih sends s
    | pong nonce => exact ih sends s
    | version version => rfl
    | verack => rfl
    | getHeaders locator => rfl
    | headers items => rfl
    | getProof request => rfl

/-- What a call leaves pending: the requests from before and its own, but for the one that is
    settled. A call that the session does not send leaves everything. -/
theorem pending_eq (scheduler : ProofScheduler) (call : ProofCall) (nameHash : NameHash)
    (s : SchedulerState) :
    (scheduler.requestHashAndStoreWithHeight call nameHash s).state.pending =
      if call.session.state = .ready then
        (insert (call.root, nameHash) s.pending).erase (call.settled nameHash)
      else s.pending := by
  obtain ⟨rootName, name, root, proofHeight, ⟨state, localVersion, remoteVersion, ackReceived⟩,
    sends, incoming, failure⟩ := call
  rw [requestHashAndStoreWithHeight, HeaderSyncSession.requestProof]
  by_cases hready : state = .ready
  · rw [if_neg (not_not.2 hready), if_pos hready]
    rcases sends with _ | ⟨_ | error, sends⟩
    · exact pending_packetLoop rfl [] incoming _
    · exact pending_packetLoop rfl sends incoming _
    · rfl
  · rw [if_pos hready, if_neg hready]
    rfl

/-- A call leaves what was pending before it, but for its own request, just when the first proof that
    it is answered with is for that request, or, if it is not sent, when its request was not
    pending. -/
theorem pending_eq_erase_iff (scheduler : ProofScheduler) (call : ProofCall) (nameHash : NameHash)
    (s : SchedulerState) :
    (scheduler.requestHashAndStoreWithHeight call nameHash s).state.pending =
        s.pending.erase (call.root, nameHash) ↔
      if call.session.state = .ready then
        ∀ packet, call.firstProof = some packet → (packet.root, packet.key) = (call.root, nameHash)
      else (call.root, nameHash) ∉ s.pending := by
  rw [pending_eq]
  split_ifs with hready
  · have hsettled : (∀ packet, call.firstProof = some packet →
        (packet.root, packet.key) = (call.root, nameHash)) ↔
          call.settled nameHash = (call.root, nameHash) := by
      rw [ProofCall.settled]
      cases call.firstProof with
      | none => simp
      | some packet => simp
    rw [hsettled]
    constructor
    · intro h
      by_contra hother
      have hmem : (call.root, nameHash) ∈
          (insert (call.root, nameHash) s.pending).erase (call.settled nameHash) :=
        Finset.mem_erase.2 ⟨Ne.symm hother, Finset.mem_insert_self _ _⟩
      rw [h] at hmem
      exact Finset.notMem_erase _ _ hmem
    · intro h
      rw [h, Finset.erase_insert_eq_erase]
  · exact ⟨fun h => h ▸ Finset.notMem_erase _ _, fun h => (Finset.erase_eq_of_notMem h).symm⟩

section Run

variable [Digests] {scheduler : ProofScheduler}

/-- Nothing is pending after calls that are answered with their own proofs, or with none. -/
theorem pending_runCalls {calls : List ProofCall} {s : SchedulerState} (hs : s.pending = ∅)
    (hanswered : ∀ call ∈ calls, ∀ nameHash, call.key = .ok nameHash →
      ∀ packet, call.firstProof = some packet → (packet.root, packet.key) = (call.root, nameHash)) :
    (scheduler.runCalls calls s).pending = ∅ := by
  induction calls generalizing s with
  | nil => exact hs
  | cons call calls ih =>
    rw [List.forall_mem_cons] at hanswered
    refine ih ?_ hanswered.2
    change (scheduler.requestAndStore call s).state.pending = ∅
    rcases scheduler.requestAndStore_state call s with ⟨e, -, hsame⟩ | ⟨nameHash, hkey, hrun⟩
    · rw [hsame, hs]
    · rw [hrun, scheduler.pending_eq, hs]
      split_ifs
      · have hsettled : call.settled nameHash = (call.root, nameHash) := by
          rw [ProofCall.settled]
          cases hproof : call.firstProof with
          | none => rfl
          | some packet => exact hanswered.1 nameHash hkey packet hproof
        rw [hsettled, Finset.erase_insert_eq_erase]
        rfl
      · rfl

end Run

end ProofScheduler

namespace PendingSample

open ProofsSample

/-- The peer answers the request for `alpha` with a proof for `beta`. -/
def call : ProofCall := ProofScheduler.deadendCall (Chars.of "alpha") .zero alpha (.zero, beta)

/-- The proof is refused, and the request stays pending. -/
theorem exists_leak :
    (scheduler.requestHashAndStoreWithHeight call alpha .initial).state.pending = {(.zero, alpha)} ∧
      (scheduler.requestHashAndStoreWithHeight call alpha .initial).state.pending ≠
        SchedulerState.initial.pending.erase (call.root, alpha) := by
  have hne : ((.zero, beta) : Hash × Hash) ≠ (.zero, alpha) := by decide +kernel
  have hpending : (scheduler.requestHashAndStoreWithHeight call alpha .initial).state.pending =
      {(.zero, alpha)} := by
    rw [scheduler.pending_eq]
    -- The proof for `beta` takes off what is not pending.
    exact Finset.erase_eq_of_notMem fun hmem => hne (Finset.mem_singleton.1 hmem)
  refine ⟨hpending, ?_⟩
  rw [hpending]
  exact Finset.singleton_ne_empty _

end PendingSample

end Hns
