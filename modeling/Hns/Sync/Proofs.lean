import Hns.Resolver.Values
import Hns.Sync.Runner
import Hns.Sync.Session

/-!
# Proof sync

`ProofScheduler` of `hns-sync`: a call asks a peer for the proof of a name,
checks what the peer sends back, and stores what the proof says. The requests
that have not been answered are kept from call to call.

* `call_spec`: what is stored was proven for a request that was pending;
* `justified_of_runCalls`: in a run whose calls all start without requests of
  others, what is stored was proven for the name and the root of its call;
* `subset_iff`: that is the exact condition on what is pending before a call.

The verifier is any function of a proof and a root, and so is the sink. A
session and a peer are handed to each call, with everything the peer will send.
-/

namespace Hns

open EStateM (checked Evolves)

def maxHsdNameStateNameBytes : ℕ := 63

def maxHsdNameStateDataBytes : ℕ := 512

def hsdNameStateFixedTailBytes : ℕ := 10

/-! ## Proofs of names -/

structure ParsedProof where
  kind : ProofKind
  root : Hash
  nameHash : NameHash
  payload : List UInt8
  proof : UrkelProof
  deriving DecidableEq

namespace ParsedProof

def parseForKey (bytes : List UInt8) (root : Hash) (nameHash : NameHash) :
    Except ProofError ParsedProof := do
  if maxProofSize < bytes.length then throw .tooLarge
  let proof ← UrkelProof.decode bytes
  return ⟨proof.kind, root, nameHash, bytes, proof⟩

def value (proof : ParsedProof) : Option (List UInt8) := proof.proof.value

end ParsedProof

/-- `ProofVerifier`. -/
abbrev ProofVerifier := ParsedProof → Hash → Except ProofError Bool

def urkelProofVerifier [Digests] : ProofVerifier := fun proof expectedRoot =>
  if proof.root ≠ expectedRoot then .ok false
  else .ok (proof.proof.verify expectedRoot proof.nameHash)

structure ProofValidationResult where
  root : Hash
  key : Hash
  kind : ProofKind
  value : Option (List UInt8)
  deriving DecidableEq

/-! ## States of names -/

def extractNameStateResourceValue (rootName : List Char) (value : List UInt8) :
    Except SyncError (List UInt8) := do
  let nameLen ← match value with
    | [] => .error .malformedNameStateValue
    | first :: _ => .ok first.toNat
  if maxHsdNameStateNameBytes < nameLen then throw .malformedNameStateValue
  let nameEnd := 1 + nameLen
  let dataLenEnd := nameEnd + 2
  if value.length < dataLenEnd then throw .malformedNameStateValue
  if (value.drop 1).take nameLen ≠ utf8 rootName then throw .proofMismatch
  let dataLen := (value.getD nameEnd 0).toNat + 256 * (value.getD (nameEnd + 1) 0).toNat
  if maxHsdNameStateDataBytes < dataLen then throw .malformedNameStateValue
  let dataEnd := dataLenEnd + dataLen
  if value.length < dataEnd + hsdNameStateFixedTailBytes then throw .malformedNameStateValue
  return (value.drop dataLenEnd).take dataLen

def verifiedResourceValue (rootName : List Char) (nameHash : NameHash)
    (result : ProofValidationResult) : Except SyncError VerifiedResourceValue :=
  match result.kind with
  | .inclusion => do
    let value ← Except.ofOption .missingProofValue result.value
    let resourceValue ← extractNameStateResourceValue rootName value
    return .inclusion rootName nameHash resourceValue
  | .nonInclusion => return .nonInclusion rootName nameHash

/-! ## The scheduler -/

/-- A value that has been stored, with the root that its call asked for and the result of the proof
    that it was taken from. -/
structure Insertion where
  root : Hash
  result : ProofValidationResult
  verified : VerifiedResourceValue
  deriving DecidableEq

/-- The requests that are not answered yet, and what has been stored. -/
structure SchedulerState where
  pending : Finset (Hash × Hash)
  stored : List Insertion

/-- `ProofScheduler::new`, before anything is stored. -/
def SchedulerState.initial : SchedulerState := ⟨∅, []⟩

abbrev SchedulerM := EStateM SyncError SchedulerState

structure ProofScheduler where
  verifier : ProofVerifier
  sink : List Insertion → VerifiedResourceValue → Except ResolverError Unit

/-- A call of the scheduler, with the hash of the name or without it. The peer takes what is sent as
    `sends` says, and everything from there on; after the packets it fails. -/
structure ProofCall where
  rootName : List Char
  nameHash : Option NameHash
  root : Hash
  proofHeight : Option ℕ
  session : HeaderSyncSession
  sends : List (Option P2pError)
  incoming : List Packet
  failure : P2pError

def trackRequest (root key : Hash) : SchedulerM Unit :=
  modify fun s => { s with pending := insert (root, key) s.pending }

def forgetRequest (root key : Hash) : SchedulerM Unit :=
  modify fun s => { s with pending := s.pending.erase (root, key) }

/-- The peer takes the packet, or the request is forgotten. -/
def sendOrForget (root key : Hash) (sends : List (Option P2pError)) :
    SchedulerM (List (Option P2pError)) :=
  match sends with
  | some error :: _ => do
    forgetRequest root key
    throw (.p2p error)
  | none :: sends => return sends
  | [] => return []

namespace ProofScheduler

variable (scheduler : ProofScheduler)

/-- The request of the packet is no longer pending, if it was. -/
def takeRequest (packet : ProofPacket) : SchedulerM Unit := fun s =>
  if (packet.root, packet.key) ∈ s.pending then
    .ok () { s with pending := s.pending.erase (packet.root, packet.key) }
  else .error .unexpectedProof s

/-- What is checked of a proof that was asked for. -/
def checkProof (packet : ProofPacket) : Except SyncError ProofValidationResult := do
  let proof ← (ParsedProof.parseForKey packet.proof packet.root packet.key).mapError .proof
  if proof.root ≠ packet.root ∨ proof.nameHash ≠ packet.key then throw .proofMismatch
  let verified ← (scheduler.verifier proof packet.root).mapError .proof
  if !verified then throw .unverifiedProof
  return ⟨packet.root, packet.key, proof.kind, proof.value⟩

def ingestProof (packet : ProofPacket) : SchedulerM ProofValidationResult := do
  takeRequest packet
  checked (scheduler.checkProof packet)

/-- The sink takes a value, or fails. -/
def insertVerifiedResourceValue (insertion : Insertion) : SchedulerM Unit := fun s =>
  match scheduler.sink s.stored insertion.verified with
  | .ok () => .ok () { s with stored := s.stored ++ [insertion] }
  | .error error => .error (.resolver error) s

/-- What is done about a proof. -/
def storeProof (call : ProofCall) (nameHash : NameHash) (packet : ProofPacket) :
    SchedulerM ProofValidationResult := do
  let result ← scheduler.ingestProof packet
  let verified ← checked (verifiedResourceValue call.rootName nameHash result)
  scheduler.insertVerifiedResourceValue
    ⟨call.root, result, verified.anchoredAt result.root call.proofHeight⟩
  return result

/-- The loop of `request_hash_and_store_with_height` over the actions on a packet: a result, or how
    the peer takes what is sent next. -/
def actionLoop (call : ProofCall) (nameHash : NameHash) :
    List (Option P2pError) → List HeaderSyncAction →
      SchedulerM (ProofValidationResult ⊕ List (Option P2pError))
  | sends, [] => return .inr sends
  | sends, action :: actions =>
    match action with
    | .proof packet => do
      let result ← scheduler.storeProof call nameHash packet
      return .inl result
    | .send _ => do
      let sends ← sendOrForget call.root nameHash sends
      actionLoop call nameHash sends actions
    | .disconnect reason => do
      forgetRequest call.root nameHash
      throw (.p2p (.sessionDisconnected reason))
    | .ready | .headers _ => do
      forgetRequest call.root nameHash
      throw .unexpectedAction

/-- The loop of `request_hash_and_store_with_height` over the packets of the peer. -/
def packetLoop (call : ProofCall) (nameHash : NameHash) :
    HeaderSyncSession → List (Option P2pError) → List Packet → SchedulerM ProofValidationResult
  | _, _, [] => do
    forgetRequest call.root nameHash
    throw (.p2p call.failure)
  | session, sends, packet :: incoming => do
    match ← scheduler.actionLoop call nameHash sends (session.onPacket packet).2 with
    | .inl result => return result
    | .inr sends => packetLoop call nameHash (session.onPacket packet).1 sends incoming

def requestHashAndStoreWithHeight (call : ProofCall) (nameHash : NameHash) :
    SchedulerM ProofValidationResult :=
  match call.session.requestProof call.root nameHash with
  | (session, .send _) => do
    trackRequest call.root nameHash
    let sends ← sendOrForget call.root nameHash call.sends
    scheduler.packetLoop call nameHash session sends call.incoming
  | (_, .disconnect reason) => throw (.p2p (.sessionDisconnected reason))
  | _ => throw .unexpectedAction

variable [Digests]

/-- `request_and_store` without the hash of the name, and `request_hash_and_store` with it. -/
def requestAndStore (call : ProofCall) : SchedulerM ProofValidationResult :=
  match call.nameHash with
  | some nameHash => scheduler.requestHashAndStoreWithHeight call nameHash
  | none => do
    let nameHash ← checked
      ((NameHash.fromName call.rootName).mapError fun error => .resolver (.invalidName error))
    scheduler.requestHashAndStoreWithHeight call nameHash

/-- The calls, one after the other, whatever comes of each. -/
def runCalls (calls : List ProofCall) (s : SchedulerState) : SchedulerState :=
  calls.foldl (fun s call => (scheduler.requestAndStore call s).state) s

end ProofScheduler

/-! ## What is stored -/

/-- A proof with this result has been verified. -/
def Proven (verifier : ProofVerifier) (result : ProofValidationResult) : Prop :=
  ∃ proof : ParsedProof, proof.root = result.root ∧ proof.nameHash = result.key ∧
    verifier proof result.root = .ok true ∧ proof.kind = result.kind ∧ proof.value = result.value

/-- The value is what the result of the proof says about the name. -/
def Insertion.Taken (i : Insertion) : Prop :=
  ∃ verified, verifiedResourceValue i.verified.rootName i.verified.nameHash i.result = .ok verified ∧
    i.verified.value = verified.value

/-- The proof that the value was taken from was verified for the name that it is stored under, and
    against the root that was asked for. -/
structure Insertion.Justified (verifier : ProofVerifier) (i : Insertion) : Prop where
  proven : Proven verifier i.result
  taken : i.Taken
  root : i.result.root = i.root
  key : i.result.key = i.verified.nameHash

/-- What a part of a call does after the request: what it stores was proven for a request that was
    pending. -/
def Advances (scheduler : ProofScheduler) (root : Hash) (nameHash : NameHash)
    (s s' : SchedulerState) : Prop :=
  s'.pending ⊆ s.pending ∧ ∃ new, s'.stored = s.stored ++ new ∧ ∀ i ∈ new,
    Proven scheduler.verifier i.result ∧ i.Taken ∧ i.root = root ∧ i.verified.nameHash = nameHash ∧
      (i.result.root, i.result.key) ∈ s.pending

section Advances

variable {scheduler : ProofScheduler} {root : Hash} {nameHash : NameHash}

theorem Advances.of_stored_eq {s s' : SchedulerState} (hpending : s'.pending ⊆ s.pending)
    (hstored : s'.stored = s.stored) : Advances scheduler root nameHash s s' :=
  ⟨hpending, [], by rw [hstored, List.append_nil], fun _ hmem => absurd hmem List.not_mem_nil⟩

theorem Advances.of_insertion {s s' : SchedulerState} {i : Insertion}
    (hpending : s'.pending ⊆ s.pending) (hproven : Proven scheduler.verifier i.result)
    (htaken : i.Taken) (hroot : i.root = root) (hkey : i.verified.nameHash = nameHash)
    (hmem : (i.result.root, i.result.key) ∈ s.pending)
    (hstored : s'.stored = s.stored ++ [i]) : Advances scheduler root nameHash s s' := by
  refine ⟨hpending, [i], hstored, ?_⟩
  rw [List.forall_mem_singleton]
  exact ⟨hproven, htaken, hroot, hkey, hmem⟩

theorem Advances.refl (s : SchedulerState) : Advances scheduler root nameHash s s :=
  .of_stored_eq (Finset.Subset.refl _) rfl

theorem Advances.trans (s₁ s₂ s₃ : SchedulerState) (h₁ : Advances scheduler root nameHash s₁ s₂)
    (h₂ : Advances scheduler root nameHash s₂ s₃) : Advances scheduler root nameHash s₁ s₃ := by
  obtain ⟨hpending, new, hstored, hnew⟩ := h₁
  obtain ⟨hpending', new', hstored', hnew'⟩ := h₂
  refine ⟨hpending'.trans hpending, new ++ new', ?_, ?_⟩
  · rw [hstored', hstored, List.append_assoc]
  · intro i hi
    rcases List.mem_append.1 hi with hi | hi
    · exact hnew i hi
    · obtain ⟨hproven, htaken, hroot, hkey, hmem⟩ := hnew' i hi
      exact ⟨hproven, htaken, hroot, hkey, hpending hmem⟩

end Advances

namespace ProofScheduler

variable {scheduler : ProofScheduler} {call : ProofCall} {nameHash : NameHash}

theorem evolves_forgetRequest {root key : Hash} {root' : Hash} :
    Evolves (Advances scheduler root' nameHash) (forgetRequest root key) :=
  fun _ => .of_stored_eq (Finset.erase_subset _ _) rfl

theorem evolves_sendOrForget {root key : Hash} {root' : Hash} (sends : List (Option P2pError)) :
    Evolves (Advances scheduler root' nameHash) (sendOrForget root key sends) := by
  match sends with
  | [] => exact .pure .refl _
  | none :: sends => exact .pure .refl _
  | some error :: sends =>
    exact .bind Advances.trans evolves_forgetRequest fun _ => .of_throw .refl _

/-- A checked proof is one of the packet's root and key. -/
theorem checkProof_eq_ok {packet : ProofPacket} {result : ProofValidationResult}
    (h : scheduler.checkProof packet = .ok result) :
    Proven scheduler.verifier result ∧ result.root = packet.root ∧ result.key = packet.key := by
  obtain ⟨proof, -, h⟩ := Except.bind_eq_ok.1 h
  obtain ⟨hmatch, h⟩ := Except.throw_unless.1 h
  obtain ⟨verified, hverified, h⟩ := Except.bind_eq_ok.1 h
  obtain ⟨htrue, h⟩ := Except.throw_unless.1 h
  cases h
  rw [not_or, not_not, not_not] at hmatch
  obtain rfl : verified = true := by simpa using htrue
  exact ⟨⟨proof, hmatch.1, hmatch.2, Except.mapError_eq_ok.1 hverified, rfl, rfl⟩, rfl, rfl⟩

theorem verifiedResourceValue_eq_ok {rootName : List Char} {result : ProofValidationResult}
    {verified : VerifiedResourceValue}
    (h : verifiedResourceValue rootName nameHash result = .ok verified) :
    verified.rootName = rootName ∧ verified.nameHash = nameHash := by
  rw [verifiedResourceValue] at h
  split at h
  · obtain ⟨value, -, h⟩ := Except.bind_eq_ok.1 h
    obtain ⟨resourceValue, -, h⟩ := Except.bind_eq_ok.1 h
    cases h
    exact ⟨rfl, rfl⟩
  · cases h
    exact ⟨rfl, rfl⟩

/-- An insertion is stored, or the sink fails. -/
theorem insertVerifiedResourceValue_state (insertion : Insertion) (result : ProofValidationResult)
    (s : SchedulerState) :
    ((scheduler.insertVerifiedResourceValue insertion >>= fun _ => pure result) s).state = s ∨
      ((scheduler.insertVerifiedResourceValue insertion >>= fun _ => pure result) s).state =
        { s with stored := s.stored ++ [insertion] } := by
  cases hsink : scheduler.sink s.stored insertion.verified with
  | ok _ =>
    have hinsert : scheduler.insertVerifiedResourceValue insertion s =
        .ok () { s with stored := s.stored ++ [insertion] } := by
      rw [insertVerifiedResourceValue, hsink]
    rw [EStateM.bind_ok hinsert]
    exact .inr rfl
  | error e =>
    have hinsert : scheduler.insertVerifiedResourceValue insertion s =
        .error (.resolver e) s := by
      rw [insertVerifiedResourceValue, hsink]
    rw [EStateM.bind_error hinsert]
    exact .inl rfl

theorem evolves_storeProof (packet : ProofPacket) :
    Evolves (Advances scheduler call.root nameHash)
      (scheduler.storeProof call nameHash packet) := by
  intro s
  by_cases hmem : (packet.root, packet.key) ∈ s.pending
  · -- The request is taken off, whatever becomes of the proof.
    have htake : takeRequest packet s =
        .ok () { s with pending := s.pending.erase (packet.root, packet.key) } := by
      rw [takeRequest, if_pos hmem]
    have herase : s.pending.erase (packet.root, packet.key) ⊆ s.pending := Finset.erase_subset _ _
    cases hcheck : scheduler.checkProof packet with
    | error e =>
      have hingest : scheduler.ingestProof packet s =
          .error e { s with pending := s.pending.erase (packet.root, packet.key) } := by
        rw [ingestProof, EStateM.bind_ok htake, EStateM.checked_error hcheck]
      rw [storeProof, EStateM.bind_error hingest]
      exact .of_stored_eq herase rfl
    | ok result =>
      obtain ⟨hproven, hroot, hkey⟩ := checkProof_eq_ok hcheck
      have hingest : scheduler.ingestProof packet s =
          .ok result { s with pending := s.pending.erase (packet.root, packet.key) } := by
        rw [ingestProof, EStateM.bind_ok htake, EStateM.checked_ok hcheck]
      rw [storeProof, EStateM.bind_ok hingest]
      cases hverified : verifiedResourceValue call.rootName nameHash result with
      | error e =>
        rw [EStateM.bind_error (EStateM.checked_error rfl)]
        exact .of_stored_eq herase rfl
      | ok verified =>
        rw [EStateM.bind_ok (EStateM.checked_ok rfl)]
        obtain ⟨hname, hhash⟩ := verifiedResourceValue_eq_ok hverified
        obtain ⟨hname', hhash', hvalue⟩ := verified.anchoredAt_frame result.root call.proofHeight
        have htaken : Insertion.Taken
            ⟨call.root, result, verified.anchoredAt result.root call.proofHeight⟩ := by
          refine ⟨verified, ?_, hvalue⟩
          rw [hname', hhash', hname, hhash]
          exact hverified
        have hpair : (result.root, result.key) ∈ s.pending := by
          rw [hroot, hkey]
          exact hmem
        rcases scheduler.insertVerifiedResourceValue_state
            ⟨call.root, result, verified.anchoredAt result.root call.proofHeight⟩ result
            { s with pending := s.pending.erase (packet.root, packet.key) } with hstate | hstate
        · rw [hstate]
          exact .of_stored_eq herase rfl
        · rw [hstate]
          exact .of_insertion herase hproven htaken rfl (hhash'.trans hhash) hpair rfl
  · have htake : takeRequest packet s = .error .unexpectedProof s := by
      rw [takeRequest, if_neg hmem]
    have hingest : scheduler.ingestProof packet s = .error .unexpectedProof s := by
      rw [ingestProof, EStateM.bind_error htake]
    rw [storeProof, EStateM.bind_error hingest]
    exact .refl s

theorem evolves_actionLoop (sends : List (Option P2pError)) (actions : List HeaderSyncAction) :
    Evolves (Advances scheduler call.root nameHash)
      (scheduler.actionLoop call nameHash sends actions) := by
  induction actions generalizing sends with
  | nil => exact .pure .refl _
  | cons action actions ih =>
    cases action with
    | proof packet => exact .bind Advances.trans (evolves_storeProof packet) fun _ => .pure .refl _
    | send packet => exact .bind Advances.trans (evolves_sendOrForget sends) fun sends => ih sends
    | disconnect reason =>
      exact .bind Advances.trans evolves_forgetRequest fun _ => .of_throw .refl _
    | ready => exact .bind Advances.trans evolves_forgetRequest fun _ => .of_throw .refl _
    | headers items => exact .bind Advances.trans evolves_forgetRequest fun _ => .of_throw .refl _

theorem evolves_packetLoop (session : HeaderSyncSession) (sends : List (Option P2pError))
    (incoming : List Packet) :
    Evolves (Advances scheduler call.root nameHash)
      (scheduler.packetLoop call nameHash session sends incoming) := by
  induction incoming generalizing session sends with
  | nil => exact .bind Advances.trans evolves_forgetRequest fun _ => .of_throw .refl _
  | cons packet incoming ih =>
    refine .bind Advances.trans (evolves_actionLoop _ _) fun next => ?_
    cases next with
    | inl result => exact .pure .refl _
    | inr sends => exact ih _ _

/-- What a call does: it stores nothing, or what was proven for a request that is pending when its
    own is. -/
theorem requestHashAndStoreWithHeight_spec (scheduler : ProofScheduler) (call : ProofCall)
    (nameHash : NameHash) (s : SchedulerState) :
    Advances scheduler call.root nameHash
      { s with pending := insert (call.root, nameHash) s.pending }
      (scheduler.requestHashAndStoreWithHeight call nameHash s).state := by
  have hkept : Advances scheduler call.root nameHash
      { s with pending := insert (call.root, nameHash) s.pending } s :=
    .of_stored_eq (Finset.subset_insert _ _) rfl
  rw [requestHashAndStoreWithHeight]
  rcases call.session.requestProof call.root nameHash with ⟨session, action⟩
  cases action with
  | send packet =>
    have htrack : trackRequest call.root nameHash s =
        .ok ⟨⟩ { s with pending := insert (call.root, nameHash) s.pending } := rfl
    dsimp only
    rw [EStateM.bind_ok htrack]
    exact Evolves.bind Advances.trans (evolves_sendOrForget _)
      (fun sends => evolves_packetLoop _ sends _) _
  | disconnect reason => exact hkept
  | ready => exact hkept
  | headers items => exact hkept
  | proof packet => exact hkept

end ProofScheduler

section Run

variable [Digests]

/-- The hash that a call asks for. -/
def ProofCall.key (call : ProofCall) : Except NameHashError NameHash :=
  match call.nameHash with
  | some nameHash => .ok nameHash
  | none => NameHash.fromName call.rootName

/-- Nothing is pending before the call but, perhaps, its own request. -/
def ProofCall.Clean (call : ProofCall) (s : SchedulerState) : Prop :=
  ∀ nameHash, call.key = .ok nameHash → s.pending ⊆ {(call.root, nameHash)}

namespace ProofScheduler

variable (scheduler : ProofScheduler)

/-- A call without a name does nothing; another is one with a hash. -/
theorem requestAndStore_state (call : ProofCall) (s : SchedulerState) :
    (∃ e, call.key = .error e ∧ (scheduler.requestAndStore call s).state = s) ∨
      ∃ nameHash, call.key = .ok nameHash ∧ (scheduler.requestAndStore call s).state =
        (scheduler.requestHashAndStoreWithHeight call nameHash s).state := by
  rw [requestAndStore, ProofCall.key]
  cases call.nameHash with
  | some nameHash => exact .inr ⟨nameHash, rfl, rfl⟩
  | none =>
    cases hname : NameHash.fromName call.rootName with
    | error e => exact .inl ⟨e, rfl, rfl⟩
    | ok nameHash => exact .inr ⟨nameHash, rfl, rfl⟩

variable {scheduler}

/-- A call before which nothing else is pending stores what is justified. -/
theorem justified_of_clean {call : ProofCall} {s : SchedulerState} (hclean : call.Clean s)
    (hstored : ∀ i ∈ s.stored, i.Justified scheduler.verifier) :
    ∀ i ∈ (scheduler.requestAndStore call s).state.stored, i.Justified scheduler.verifier := by
  rcases scheduler.requestAndStore_state call s with ⟨e, -, hsame⟩ | ⟨nameHash, hkey, hrun⟩
  · rw [hsame]
    exact hstored
  · obtain ⟨-, new, hnew, hspec⟩ :=
      scheduler.requestHashAndStoreWithHeight_spec call nameHash s
    rw [hrun, hnew]
    intro i hi
    rcases List.mem_append.1 hi with hi | hi
    · exact hstored i hi
    · obtain ⟨hproven, htaken, hroot, hhash, hmem⟩ := hspec i hi
      have hpair : (i.result.root, i.result.key) = (call.root, nameHash) := by
        rcases Finset.mem_insert.1 hmem with hown | hearlier
        · exact hown
        · exact Finset.mem_singleton.1 (hclean nameHash hkey hearlier)
      obtain ⟨hroot', hkey'⟩ := Prod.mk.inj hpair
      exact ⟨hproven, htaken, hroot'.trans hroot.symm, hkey'.trans hhash.symm⟩

/-- In a run whose calls all start with nothing else pending, what is stored was proven for the name
    that it is stored under and against the root that its call asked for. -/
theorem justified_of_runCalls (calls : List ProofCall)
    (hclean : ∀ earlier call later, calls = earlier ++ call :: later →
      call.Clean (scheduler.runCalls earlier .initial)) :
    ∀ i ∈ (scheduler.runCalls calls .initial).stored, i.Justified scheduler.verifier := by
  induction calls using List.reverseRecOn with
  | nil => exact fun _ hi => absurd hi List.not_mem_nil
  | append_singleton calls call ih =>
    have hrun : scheduler.runCalls (calls ++ [call]) .initial =
        (scheduler.requestAndStore call (scheduler.runCalls calls .initial)).state :=
      List.foldl_concat ..
    rw [hrun]
    refine justified_of_clean (hclean calls call [] rfl) (ih fun earlier call' later h => ?_)
    refine hclean earlier call' (later ++ [call]) ?_
    rw [h, List.append_assoc, List.cons_append]

/-- A proof that a path of the tree ends at once. -/
def deadendPayload : List UInt8 := [0, 0, 0, 0]

def deadendPacket (pair : Hash × Hash) : ProofPacket := ⟨pair.1, pair.2, deadendPayload⟩

/-- What the packet proves. -/
def deadendResult (pair : Hash × Hash) : ProofValidationResult := ⟨pair.1, pair.2, .nonInclusion, none⟩

/-- A ready peer answers with a proof that ends at once, of a root and a key of its own choice. -/
def deadendCall (rootName : List Char) (root nameHash : Hash) (pair : Hash × Hash) : ProofCall where
  rootName := rootName
  nameHash := some nameHash
  root := root
  proofHeight := none
  session := ⟨.ready, ⟨1, 1, 0, ⟨0, 1, .ofOctets 0 0 0 0, 0⟩, .zero, [], 0, true⟩, none, true⟩
  sends := []
  incoming := [.proof (deadendPacket pair)]
  failure := .connectionClosed

/-- A scheduler that takes every proof and every value. -/
def accepting : ProofScheduler := ⟨fun _ _ => .ok true, fun _ _ => .ok ()⟩

omit [Digests] in
theorem decode_deadendPayload :
    UrkelProof.decode deadendPayload = .ok ⟨typeDeadend, 0, [], .deadend⟩ := by
  decide +kernel

omit [Digests] in
theorem checkProof_deadendPacket (pair : Hash × Hash) :
    accepting.checkProof (deadendPacket pair) = .ok (deadendResult pair) := by
  have hparse : ParsedProof.parseForKey deadendPayload pair.1 pair.2 =
      .ok ⟨.nonInclusion, pair.1, pair.2, deadendPayload, ⟨typeDeadend, 0, [], .deadend⟩⟩ := by
    rw [ParsedProof.parseForKey, if_neg (by decide), decode_deadendPayload]
    rfl
  have hmatch : ¬(pair.1 ≠ pair.1 ∨ pair.2 ≠ pair.2) := by simp
  rw [checkProof, deadendPacket, hparse]
  exact if_neg hmatch

/-- The answer is stored under the name of the call if its request is pending. -/
theorem stored_deadendCall (rootName : List Char) (root nameHash : Hash) {pair : Hash × Hash}
    {pending : Finset (Hash × Hash)} (hmem : pair ∈ pending) :
    (accepting.requestAndStore (deadendCall rootName root nameHash pair) ⟨pending, []⟩).state.stored =
      [⟨root, deadendResult pair, .nonInclusion rootName nameHash⟩] := by
  have htake : takeRequest (deadendPacket pair) ⟨insert (root, nameHash) pending, []⟩ =
      .ok () ⟨(insert (root, nameHash) pending).erase pair, []⟩ := by
    rw [takeRequest, deadendPacket, if_pos (Finset.mem_insert_of_mem hmem)]
  have hingest : accepting.ingestProof (deadendPacket pair) ⟨insert (root, nameHash) pending, []⟩ =
      .ok (deadendResult pair) ⟨(insert (root, nameHash) pending).erase pair, []⟩ := by
    rw [ingestProof, EStateM.bind_ok htake]
    exact EStateM.checked_ok (checkProof_deadendPacket pair)
  have hstore : accepting.storeProof (deadendCall rootName root nameHash pair) nameHash
      (deadendPacket pair) ⟨insert (root, nameHash) pending, []⟩ =
        .ok (deadendResult pair) ⟨(insert (root, nameHash) pending).erase pair,
          [⟨root, deadendResult pair, .nonInclusion rootName nameHash⟩]⟩ :=
    (EStateM.bind_ok hingest).trans rfl
  have hactions : accepting.actionLoop (deadendCall rootName root nameHash pair) nameHash []
      [.proof (deadendPacket pair)] ⟨insert (root, nameHash) pending, []⟩ =
        .ok (.inl (deadendResult pair)) ⟨(insert (root, nameHash) pending).erase pair,
          [⟨root, deadendResult pair, .nonInclusion rootName nameHash⟩]⟩ :=
    (EStateM.bind_ok hstore).trans rfl
  have hrun : accepting.requestAndStore (deadendCall rootName root nameHash pair) ⟨pending, []⟩ =
      .ok (deadendResult pair) ⟨(insert (root, nameHash) pending).erase pair,
        [⟨root, deadendResult pair, .nonInclusion rootName nameHash⟩]⟩ :=
    (EStateM.bind_ok hactions).trans rfl
  rw [hrun]
  rfl

/-- Whatever the verifier, the sink, the session and the peer are, a call stores what is justified:
    this is so just when no request of another name or root is pending before it. -/
theorem subset_iff {rootName : List Char} {root nameHash : Hash} {pending : Finset (Hash × Hash)} :
    (∀ (scheduler : ProofScheduler) (call : ProofCall), call.rootName = rootName →
        call.nameHash = some nameHash → call.root = root →
        ∀ i ∈ (scheduler.requestAndStore call ⟨pending, []⟩).state.stored,
          i.Justified scheduler.verifier) ↔
      pending ⊆ {(root, nameHash)} := by
  constructor
  · intro h pair hmem
    have hjustified := h accepting (deadendCall rootName root nameHash pair) rfl rfl rfl
    rw [stored_deadendCall rootName root nameHash hmem, List.forall_mem_singleton] at hjustified
    exact Finset.mem_singleton.2 (Prod.ext hjustified.root hjustified.key)
  · rintro hsub scheduler call - hhash rfl
    refine justified_of_clean ?_ fun _ hi => absurd hi List.not_mem_nil
    intro hash hkey
    obtain rfl : nameHash = hash := by simpa [ProofCall.key, hhash] using hkey
    exact hsub

end ProofScheduler

end Run

namespace ProofsSample

/-- The hashes of two names. -/
def alpha : Hash := .ofNat 0x271878f8a927b4566ac951fc815b18dfad8d0302d61d11d80cbe15b7a3a056af

def beta : Hash := .ofNat 0xf0277d92062bd9a41dd26cddbaf2c41d576cf7b0173cbe96c23d5f5a4f92cc8f

scoped instance digests : Digests where
  blake2b256 _ := .zero
  blake2b512 _ := .zero
  sha3 input := if input = utf8 (Chars.of "alpha") then alpha
    else if input = utf8 (Chars.of "beta") then beta
    else .zero

def scheduler : ProofScheduler := ⟨urkelProofVerifier, fun _ _ => .ok ()⟩

/-- A call for a name; the peer answers about a pair of its own choice. The root of an empty tree is
    zero, and every path ends at once there. -/
def call (rootName : List Char) (root : Hash) (pair : Hash × Hash) : ProofCall :=
  { ProofScheduler.deadendCall rootName root .zero pair with nameHash := none }

/-- The request for `alpha` is not answered, and is answered in the call for `beta`: there, under
    another root, the absence of `alpha` is stored as that of `beta`. -/
theorem exists_not_justified :
    ∃ i ∈ (scheduler.runCalls [call (Chars.of "alpha") .zero (.zero, beta),
        call (Chars.of "beta") (.ofNat 1) (.zero, alpha)] .initial).stored,
      ¬i.Justified scheduler.verifier := by
  have hmem : ⟨.ofNat 1, ⟨.zero, alpha, .nonInclusion, none⟩, .nonInclusion (Chars.of "beta") beta⟩ ∈
      (scheduler.runCalls [call (Chars.of "alpha") .zero (.zero, beta),
        call (Chars.of "beta") (.ofNat 1) (.zero, alpha)] .initial).stored := by
    decide +kernel
  refine ⟨_, hmem, fun hjustified => ?_⟩
  have hkey : alpha ≠ beta := by decide +kernel
  exact hkey hjustified.key

/-- The request for `alpha` is answered, and its absence is stored. -/
theorem alpha_justified :
    (scheduler.runCalls [call (Chars.of "alpha") .zero (.zero, alpha)] .initial).stored.length = 1 ∧
      ∀ i ∈ (scheduler.runCalls [call (Chars.of "alpha") .zero (.zero, alpha)] .initial).stored,
        i.Justified scheduler.verifier := by
  refine ⟨by decide +kernel, ProofScheduler.justified_of_runCalls _ ?_⟩
  intro earlier c later h nameHash _
  cases earlier with
  | nil => exact Finset.empty_subset _
  | cons first earlier =>
    rw [List.cons_append, List.cons.injEq] at h
    exact absurd h.2.symm (by simp)

end ProofsSample

end Hns
