import Hns.Sync.Proofs

/-!
# What is stored of a proof

What a new `ProofScheduler` stores in one call (`stored_requestHash`): what a
proof says that has been verified for the name of the call and against its root.
-/

namespace Hns

open EStateM (checked Evolves)

/-- What a proof says about the resource of a name: the one of the state in its value, or that there
    is none. -/
def UrkelProof.Says (proof : UrkelProof) (rootName : List Char) (value : Option (List UInt8)) : Prop :=
  (proof.kind = .nonInclusion ∧ value = none) ∨
    ∃ state resource, proof.kind = .inclusion ∧ proof.value = some state ∧
      extractNameStateResourceValue rootName state = .ok resource ∧ value = some resource

/-- What a part of a call stores is taken from proofs that have been checked. -/
def Stores (scheduler : ProofScheduler) (call : ProofCall) (nameHash : NameHash)
    (s s' : SchedulerState) : Prop :=
  ∃ new, s'.stored = s.stored ++ new ∧ ∀ i ∈ new, ∃ packet verified,
    scheduler.checkProof packet = .ok i.result ∧
      verifiedResourceValue call.rootName nameHash i.result = .ok verified ∧
      i.verified = verified.anchoredAt i.result.root call.proofHeight

section Stores

variable {scheduler : ProofScheduler} {call : ProofCall} {nameHash : NameHash}

theorem Stores.of_stored_eq {s s' : SchedulerState} (h : s'.stored = s.stored) :
    Stores scheduler call nameHash s s' :=
  ⟨[], by rw [h, List.append_nil], fun _ hmem => absurd hmem List.not_mem_nil⟩

theorem Stores.refl (s : SchedulerState) : Stores scheduler call nameHash s s := .of_stored_eq rfl

theorem Stores.trans (s₁ s₂ s₃ : SchedulerState) (h₁ : Stores scheduler call nameHash s₁ s₂)
    (h₂ : Stores scheduler call nameHash s₂ s₃) : Stores scheduler call nameHash s₁ s₃ := by
  obtain ⟨new, hstored, hnew⟩ := h₁
  obtain ⟨new', hstored', hnew'⟩ := h₂
  refine ⟨new ++ new', by rw [hstored', hstored, List.append_assoc], fun i hi => ?_⟩
  exact (List.mem_append.1 hi).elim (hnew i) (hnew' i)

end Stores

namespace ProofScheduler

variable {scheduler : ProofScheduler} {call : ProofCall} {nameHash : NameHash}

theorem stores_forgetRequest {root key : Hash} :
    Evolves (Stores scheduler call nameHash) (forgetRequest root key) :=
  fun _ => .of_stored_eq rfl

theorem stores_sendOrForget {root key : Hash} (sends : List (Option P2pError)) :
    Evolves (Stores scheduler call nameHash) (sendOrForget root key sends) := by
  match sends with
  | [] => exact .pure .refl _
  | none :: sends => exact .pure .refl _
  | some error :: sends =>
    exact .bind Stores.trans stores_forgetRequest fun _ => .of_throw .refl _

theorem stores_ingestProof (packet : ProofPacket) :
    Evolves (Stores scheduler call nameHash) (scheduler.ingestProof packet) := by
  refine .bind Stores.trans (fun s => ?_) fun _ s => ?_
  · rw [takeRequest]
    split_ifs
    · exact .of_stored_eq rfl
    · exact .refl s
  · cases hcheck : scheduler.checkProof packet with
    | ok result => exact .refl s
    | error e => exact .refl s

theorem stores_storeProof (packet : ProofPacket) :
    Evolves (Stores scheduler call nameHash) (scheduler.storeProof call nameHash packet) := by
  intro s
  have hingest := @stores_ingestProof scheduler call nameHash packet s
  rw [storeProof]
  cases hresult : scheduler.ingestProof packet s with
  | error e s₁ =>
    rw [EStateM.bind_error hresult]
    rw [hresult] at hingest
    exact hingest
  | ok result s₁ =>
    rw [EStateM.bind_ok hresult]
    rw [hresult] at hingest
    refine .trans _ _ _ hingest ?_
    obtain ⟨u, s₂, -, hcheck⟩ := EStateM.run_bind_eq_ok.1 hresult
    have hcheck := (EStateM.checked_eq_ok.1 hcheck).1
    cases hverified : verifiedResourceValue call.rootName nameHash result with
    | error e =>
      rw [EStateM.bind_error (EStateM.checked_error rfl)]
      exact .refl s₁
    | ok verified =>
      rw [EStateM.bind_ok (EStateM.checked_ok rfl)]
      rcases scheduler.insertVerifiedResourceValue_state
          ⟨call.root, result, verified.anchoredAt result.root call.proofHeight⟩ result s₁ with
        hstate | hstate
      · rw [hstate]
        exact .refl s₁
      · rw [hstate]
        refine ⟨[_], rfl, List.forall_mem_singleton.2 ⟨packet, verified, hcheck, hverified, rfl⟩⟩

theorem stores_actionLoop (sends : List (Option P2pError)) (actions : List HeaderSyncAction) :
    Evolves (Stores scheduler call nameHash)
      (scheduler.actionLoop call nameHash sends actions) := by
  induction actions generalizing sends with
  | nil => exact .pure .refl _
  | cons action actions ih =>
    cases action with
    | proof packet => exact .bind Stores.trans (stores_storeProof packet) fun _ => .pure .refl _
    | send packet => exact .bind Stores.trans (stores_sendOrForget sends) fun sends => ih sends
    | disconnect reason => exact .bind Stores.trans stores_forgetRequest fun _ => .of_throw .refl _
    | ready => exact .bind Stores.trans stores_forgetRequest fun _ => .of_throw .refl _
    | headers items => exact .bind Stores.trans stores_forgetRequest fun _ => .of_throw .refl _

theorem stores_packetLoop (session : HeaderSyncSession) (sends : List (Option P2pError))
    (incoming : List Packet) :
    Evolves (Stores scheduler call nameHash)
      (scheduler.packetLoop call nameHash session sends incoming) := by
  induction incoming generalizing session sends with
  | nil => exact .bind Stores.trans stores_forgetRequest fun _ => .of_throw .refl _
  | cons packet incoming ih =>
    refine .bind Stores.trans (stores_actionLoop _ _) fun next => ?_
    cases next with
    | inl result => exact .pure .refl _
    | inr sends => exact ih _ _

theorem stores_requestHash (s : SchedulerState) :
    Stores scheduler call nameHash s
      (scheduler.requestHashAndStoreWithHeight call nameHash s).state := by
  rw [requestHashAndStoreWithHeight]
  rcases call.session.requestProof call.root nameHash with ⟨session, action⟩
  cases action with
  | send packet =>
    exact Evolves.bind Stores.trans (fun _ => .of_stored_eq rfl) (fun _ =>
      .bind Stores.trans (stores_sendOrForget _) fun sends => stores_packetLoop _ sends _) s
  | disconnect reason => exact .refl s
  | ready => exact .refl s
  | headers items => exact .refl s
  | proof packet => exact .refl s

/-- A proof that has been checked is one that verifies. -/
theorem verify_of_checkProof [Digests] {packet : ProofPacket} {result : ProofValidationResult}
    (hverifier : scheduler.verifier = urkelProofVerifier)
    (h : scheduler.checkProof packet = .ok result) :
    ∃ proof : UrkelProof, proof.verify result.root result.key ∧ result.kind = proof.kind ∧
      result.value = proof.value := by
  obtain ⟨parsed, hparse, h⟩ := Except.bind_eq_ok.1 h
  obtain ⟨-, h⟩ := Except.throw_unless.1 h
  obtain ⟨verified, hverified, h⟩ := Except.bind_eq_ok.1 h
  obtain ⟨htrue, h⟩ := Except.throw_unless.1 h
  cases h
  rw [Except.mapError_eq_ok, ParsedProof.parseForKey] at hparse
  obtain ⟨-, hparse⟩ := Except.throw_unless.1 hparse
  obtain ⟨proof, -, hparse⟩ := Except.bind_eq_ok.1 hparse
  cases hparse
  rw [hverifier, Except.mapError_eq_ok, urkelProofVerifier, if_neg (by simp)] at hverified
  cases hverified
  exact ⟨proof, by simpa using htrue, rfl, rfl⟩

theorem says_of_verifiedResourceValue {rootName : List Char} {result : ProofValidationResult}
    {verified : VerifiedResourceValue} {proof : UrkelProof} (hkind : result.kind = proof.kind)
    (hvalue : result.value = proof.value)
    (h : verifiedResourceValue rootName nameHash result = .ok verified) :
    proof.Says rootName verified.value ∧ verified.secure = true ∧ verified.anchor = none := by
  rw [verifiedResourceValue] at h
  split at h
  · next hinclusion =>
    obtain ⟨state, hstate, h⟩ := Except.bind_eq_ok.1 h
    obtain ⟨resource, hresource, h⟩ := Except.bind_eq_ok.1 h
    cases h
    exact ⟨.inr ⟨state, resource, hkind ▸ hinclusion,
      hvalue ▸ Except.ofOption_eq_ok.1 hstate, hresource, rfl⟩, rfl, rfl⟩
  · next hnone =>
    cases h
    exact ⟨.inl ⟨hkind ▸ hnone, rfl⟩, rfl, rfl⟩

/-- What a new scheduler stores in a call: what a proof says of the name of the call, under the root
    and the height of the call. -/
theorem stored_requestHash [Digests] (hverifier : scheduler.verifier = urkelProofVerifier)
    {height : ℕ} (hheight : call.proofHeight = some height) :
    ∀ i ∈ (scheduler.requestHashAndStoreWithHeight call nameHash .initial).state.stored,
      ∃ proof : UrkelProof, proof.verify call.root nameHash ∧
        proof.Says call.rootName i.verified.value ∧ i.verified.rootName = call.rootName ∧
        i.verified.nameHash = nameHash ∧ i.verified.secure = true ∧
        i.verified.anchor = some ⟨call.root, height⟩ := by
  obtain ⟨new, hnew, hchecked⟩ := @stores_requestHash scheduler call nameHash .initial
  obtain ⟨-, new', hnew', hadvances⟩ :=
    scheduler.requestHashAndStoreWithHeight_spec call nameHash .initial
  obtain rfl : new = new' := hnew.symm.trans hnew'
  intro i hi
  rw [hnew] at hi
  obtain ⟨packet, verified, hcheck, hverified, heq⟩ := hchecked i hi
  obtain ⟨-, -, -, -, hpending⟩ := hadvances i hi
  obtain ⟨hroot, hkey⟩ : i.result.root = call.root ∧ i.result.key = nameHash :=
    Prod.mk.inj (by simpa [SchedulerState.initial] using hpending)
  obtain ⟨proof, hverify, hkind, hvalue⟩ := verify_of_checkProof hverifier hcheck
  obtain ⟨hcontent, hsecure, -⟩ := says_of_verifiedResourceValue hkind hvalue hverified
  obtain ⟨hname, hhash⟩ := verifiedResourceValue_eq_ok hverified
  rw [hroot, hkey] at hverify
  rw [hheight, hroot, VerifiedResourceValue.anchoredAt] at heq
  rw [heq]
  exact ⟨proof, hverify, hcontent, hname, hhash, hsecure, rfl⟩

end ProofScheduler

end Hns
