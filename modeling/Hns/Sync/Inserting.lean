import Hns.Chain.Run
import Hns.Sync.Discovery

/-!
# A sync only inserts headers

What a round of the sync does to the chain, whatever its peers send and however
it ends: it inserts batches of headers, one after the other
(`inserts_syncOnceParallelAndPersist`). The store represents a tree afterwards,
with every header that there was (`Represents.of_inserts`).
-/

namespace Hns

open EStateM HeaderStore HeaderPeerClient

variable {S : Type} [HeaderStore S] [LawfulHeaderStore S] [Digests]

/-! ## The chain -/

omit [LawfulHeaderStore S] in
/-- A batch is inserted, whatever its result. -/
def Ingests (s s' : S) : Prop := ∃ headers, s' = (insertHeaders .mainnet headers s).state

theorem sub_insertHeaders (headers : List BlockHeader) (s : S) :
    Table.Sub (getHeader s) (getHeader (insertHeaders .mainnet headers s).state) := by
  rcases insertHeaders_cases headers s with ⟨e, hs⟩ | ⟨accepted, hgrows, -, hs⟩
  · rw [hs]
    exact Table.Sub.refl _
  · rw [hs, recordHeaders]
    split_ifs with hempty
    · exact Table.Sub.refl _
    · rw [reads_bind]
      cases hbest : bestHeader s with
      | error e => exact Table.Sub.refl _
      | ok best =>
        dsimp only
        rw [checked_bind]
        cases hmax : Except.ofOption ChainError.missingBestHeader (lastMaxByWork accepted) with
        | error e => exact Table.Sub.refl _
        | ok candidate =>
          obtain ⟨s₁, hput, hview⟩ :=
            LawfulHeaderStore.putHeaders_ok (s := s) hgrows.nodup hgrows.fresh
          have hheaders : getHeader s₁ = Headers.add (getHeader s) accepted := by
            rw [← view_headers, hview]
            rfl
          dsimp only
          rw [bind_ok hput]
          refine (congrArg (Table.Sub (getHeader s)) (Keeps.ite (.ite ?_ ?_) (.pure _) s₁)).mpr
            (hheaders ▸ hgrows.sub)
          · exact .bind (LawfulHeaderStore.promoteCanonicalTips_keeps _) fun _ => .pure _
          · exact .bind (promoteBestHash_keeps _) fun _ => .pure _

theorem Represents.of_inserts {s s' : S} {t : ChainTree} (h : Represents s t)
    (hs : Relation.ReflTransGen Ingests s s') (hbounded : HeightsBounded (getHeader s')) :
    ∃ t', Represents s' t' ∧ t.headers.Sub t'.headers := by
  induction hs with
  | refl => exact ⟨t, h, Table.Sub.refl _⟩
  | tail _ hlast ih =>
    obtain ⟨headers, rfl⟩ := hlast
    obtain ⟨t₁, h₁, hsub₁⟩ := ih (hbounded.of_sub (sub_insertHeaders headers _))
    rcases insertHeaders_spec h₁ headers hbounded with
      ⟨e, hs'⟩ | ⟨-, hs'⟩ | ⟨e, -, -, s', hs', hrep⟩
    · exact ⟨t₁, by rwa [hs'], hsub₁⟩
    · exact ⟨t₁, by rwa [hs'], hsub₁⟩
    · exact ⟨t₁.extend e, by rwa [hs'], hsub₁.trans e.grows.sub⟩

/-! ## The rounds -/

section Rounds

omit [LawfulHeaderStore S]

/-- What happens to the chain in a part of a round. -/
def Inserts (s s' : SyncState S) : Prop := Relation.ReflTransGen Ingests s.chain s'.chain

theorem Inserts.trans (s₁ s₂ s₃ : SyncState S) (h₁ : Inserts s₁ s₂) (h₂ : Inserts s₂ s₃) :
    Inserts s₁ s₃ := Relation.ReflTransGen.trans h₁ h₂

theorem Inserts.refl (s : SyncState S) : Inserts s s := Relation.ReflTransGen.refl

variable {α : Type}

theorem inserts_of_keeps {x : EStateM SyncError (SyncState S) α} (h : Keeps SyncState.chain x) :
    Evolves Inserts x := by
  intro s
  rw [Inserts, h s]

variable {P : Type} [HeaderPeerClient P] (runner : HeaderSyncRunner P) (address : SocketAddr)
  (now : ℕ)

omit [HeaderStore S] [Digests] in
theorem keeps_modifyPeers (change : PeerManager → PeerManager) :
    Keeps (SyncState.chain (S := S)) (modifyPeers change) := fun _ => rfl

omit [HeaderStore S] [Digests] [HeaderPeerClient P] in
theorem keeps_persist : Keeps (SyncState.chain (S := S)) (persistPeerManager runner) := .reads _

omit [HeaderStore S] [Digests] in
theorem keeps_readsChain (f : S → Except ChainError α) :
    Keeps (SyncState.chain (S := S)) (readsChain f) := .reads _

omit [HeaderStore S] [Digests] in
theorem keeps_discoverAddresses (peer : P) :
    Keeps (SyncState.chain (S := S)) (discoverAddresses runner peer) := by
  rw [discoverAddresses]
  refine .ite ?_ (.pure _)
  cases requestAddresses peer with
  | error e peer' => exact .pure _
  | ok discovered peer' =>
    exact .bind (keeps_modifyPeers _) fun _ => .bind (keeps_persist _) fun _ => .pure _

omit [HeaderStore S] [Digests] [HeaderPeerClient P] in
theorem keeps_finishSync (remoteHeight accepted : ℕ) (best : Option StoredHeader) :
    Keeps (SyncState.chain (S := S)) (finishSync runner address now remoteHeight accepted best) :=
  .bind (keeps_modifyPeers _) fun _ => .bind (keeps_persist _) fun _ => .pure _

theorem inserts_tryIngest (headers : List BlockHeader) :
    Evolves (Inserts (S := S)) (tryIngest .mainnet headers) := by
  intro s
  have hstate : (tryIngest .mainnet headers s).state.chain =
      (insertHeaders .mainnet headers s.chain).state := by
    have hkept : (ingestHeaders .mainnet headers s.chain).state =
        (insertHeaders .mainnet headers s.chain).state :=
      Keeps.state_bind (p := id) (fun _ => .bind (.reads _) fun _ => .pure _) s.chain
    rw [← hkept, tryIngest]
    split
    · next hrun => rw [hrun]; rfl
    · next hrun => rw [hrun]; rfl
  exact .single ⟨headers, hstate⟩

theorem inserts_headerBatches (locatorLimit batches : ℕ) (peer : P) (accepted : ℕ)
    (best : Option StoredHeader) : Evolves (Inserts (S := S))
      (headerBatches .mainnet locatorLimit runner address now batches peer accepted best) := by
  induction batches generalizing peer accepted best with
  | zero => exact .pure Inserts.refl _
  | succ batches ih =>
    refine .bind Inserts.trans (inserts_of_keeps (keeps_readsChain _)) fun locator => ?_
    cases requestHeaders locator runner.config.stop peer with
    | error e peer' =>
      exact inserts_of_keeps (.bind (keeps_modifyPeers _) fun _ => .pure _)
    | ok headers peer' =>
      refine .ite (.pure Inserts.refl _) ?_
      refine .bind Inserts.trans (inserts_tryIngest headers) fun outcome => ?_
      cases outcome with
      | ok batch => exact .ite (.pure Inserts.refl _) (ih peer' _ _)
      | error e =>
        refine .bind Inserts.trans (inserts_of_keeps (keeps_modifyPeers _)) fun _ => ?_
        cases e <;> first | exact .pure Inserts.refl _ | exact .of_throw Inserts.refl _

theorem inserts_syncPeer (locatorLimit : ℕ) :
    Evolves (Inserts (S := S)) (syncPeer .mainnet locatorLimit runner address now) := by
  have hfailure (failure : HeaderPeerFailure) : Evolves (Inserts (S := S)) (do
      modifyPeers fun peers => peers.recordTransientFailure address
      return HeaderPeerSyncOutcome.failure failure) :=
    inserts_of_keeps (.bind (keeps_modifyPeers _) fun _ => .pure _)
  rw [syncPeer]
  cases runner.connect address with
  | error e => exact hfailure _
  | ok peer =>
    dsimp only
    cases handshake peer with
    | error e peer' => exact hfailure _
    | ok height peer' =>
      refine .bind Inserts.trans (inserts_of_keeps (keeps_modifyPeers _)) fun _ => ?_
      refine .bind Inserts.trans (inserts_of_keeps (keeps_persist runner)) fun _ => ?_
      refine .bind Inserts.trans (inserts_of_keeps (keeps_discoverAddresses runner _))
        fun peer'' => ?_
      refine .bind Inserts.trans (inserts_of_keeps (keeps_readsChain _)) fun best => ?_
      have hfinish (accepted : ℕ) (best : Option StoredHeader) := inserts_of_keeps (S := S)
        (keeps_finishSync runner address now height accepted best)
      refine .ite (hfinish 0 best) ?_
      refine .bind Inserts.trans
        (inserts_headerBatches runner address now locatorLimit _ peer'' 0 best) fun r => ?_
      cases r with
      | error failure => exact .pure Inserts.refl _
      | ok reached => exact hfinish reached.1 reached.2

theorem inserts_syncPeers (locatorLimit : ℕ) (outbound : List SocketAddr)
    (result : HeaderSyncRunResult) : Evolves (Inserts (S := S))
      (syncPeers .mainnet locatorLimit runner now outbound result) := by
  induction outbound generalizing result with
  | nil => exact .pure Inserts.refl _
  | cons address outbound ih =>
    refine .bind Inserts.trans (inserts_syncPeer runner address now locatorLimit) fun outcome => ?_
    cases outcome with
    | success peerResult => exact ih _
    | failure failure => exact ih _

/-! ## The discovery of peers -/

omit [HeaderStore S] [Digests] in
theorem keeps_discoverFrom :
    Keeps (SyncState.chain (S := S)) (discoverFrom runner now address) := by
  rw [discoverFrom]
  cases runner.connect address with
  | error e => exact keeps_modifyPeers _
  | ok peer =>
    dsimp only
    cases handshake peer with
    | error e peer' => exact keeps_modifyPeers _
    | ok height peer' =>
      have hsuccess : Keeps (SyncState.chain (S := S)) (do
          modifyPeers fun peers => peers.recordSuccess address height now
          persistPeerManager runner) := .bind (keeps_modifyPeers _) fun _ => keeps_persist runner
      refine .bind (keeps_modifyPeers _) fun _ => .bind (keeps_persist runner) fun _ => ?_
      cases requestAddresses peer' with
      | error e peer'' => exact hsuccess
      | ok discovered peer'' =>
        exact .bind (keeps_modifyPeers _) fun _ => .bind (keeps_persist runner) fun _ => hsuccess

omit [HeaderStore S] [Digests] in
theorem keeps_discoverLoop (config : DiscoveryConfig) (candidates : List SocketAddr) :
    Keeps (SyncState.chain (S := S)) (discoverLoop runner config now candidates) := by
  induction candidates with
  | nil => exact .pure _
  | cons address candidates ih =>
    intro s
    rw [discoverLoop, get_bind]
    split_ifs
    · rfl
    · exact Keeps.bind (keeps_discoverFrom runner address now) (fun _ => ih) s

omit [HeaderStore S] [Digests] [HeaderPeerClient P] in
theorem keeps_takeProbes (probes : List ParallelPeerProbe) (successful : ℕ) :
    Keeps (SyncState.chain (S := S)) (takeProbes runner now probes successful) := by
  induction probes generalizing successful with
  | nil => exact .pure _
  | cons probe probes ih =>
    cases probe with
    | success address height discovered =>
      refine .bind (keeps_modifyPeers _) fun _ => .bind (keeps_modifyPeers _) fun _ => ?_
      exact .bind (keeps_persist runner) fun _ => ih _
    | failure failure =>
      exact .bind (keeps_modifyPeers _) fun _ => .bind (keeps_persist runner) fun _ => ih _

omit [HeaderStore S] [Digests] in
theorem keeps_probePeersParallel (config : DiscoveryConfig) (probe : HeaderRace P) :
    Keeps (SyncState.chain (S := S)) (probePeersParallel runner config now probe) := by
  intro s
  rw [probePeersParallel, get_bind]
  split_ifs
  · rfl
  · rfl
  · exact keeps_takeProbes runner now _ 0 s

theorem inserts_syncOnceAndPersist (config : DiscoveryConfig) (locatorLimit : ℕ) :
    Evolves (Inserts (S := S))
      (syncOnceAndPersist runner config now .mainnet locatorLimit) := by
  have hdiscover (attempted : List SocketAddr) :
      Keeps (SyncState.chain (S := S)) (discoverMorePeers runner config now attempted) := by
    intro s
    rw [discoverMorePeers, get_bind]
    split_ifs
    · rfl
    · exact keeps_discoverLoop runner now config _ s
  have hinner : Evolves (Inserts (S := S))
      (syncOnceInner runner config now .mainnet locatorLimit) := by
    intro s
    rw [syncOnceInner, get_bind]
    refine Evolves.bind Inserts.trans (inserts_syncPeers runner now locatorLimit _ _)
      (fun result => ?_) s
    exact inserts_of_keeps (.bind (hdiscover _) fun _ => .pure _)
  exact .bind Inserts.trans hinner fun result =>
    inserts_of_keeps (.bind (keeps_persist runner) fun _ => .pure _)

/-! ## The racing rounds -/

omit [HeaderStore S] [Digests] [HeaderPeerClient P] in
/-- The end of a batch: the table is changed and stored. -/
theorem keeps_record (change : PeerManager → PeerManager)
    {x : EStateM SyncError (SyncState S) α} (hx : Keeps SyncState.chain x) :
    Keeps SyncState.chain (do
      modifyPeers change
      persistPeerManager runner
      x) :=
  .bind (keeps_modifyPeers _) fun _ => .bind (keeps_persist runner) fun _ => hx

omit [HeaderPeerClient P] in
theorem inserts_takeBatch (height : ℕ) (headers : List BlockHeader)
    (result : HeaderSyncRunResult) : Evolves (Inserts (S := S))
      (takeBatch .mainnet runner now address height headers result) := by
  refine .bind Inserts.trans (inserts_of_keeps (keeps_modifyPeers _)) fun _ => ?_
  refine .bind Inserts.trans (inserts_of_keeps (keeps_persist runner)) fun _ => ?_
  refine .ite (inserts_of_keeps (keeps_record runner _ (.pure _))) ?_
  refine .bind Inserts.trans (inserts_tryIngest headers) fun outcome => ?_
  refine inserts_of_keeps ?_
  cases outcome with
  | ok batch => exact keeps_record runner _ (.ite (.pure _) (.pure _))
  | error e =>
    refine keeps_record runner _ ?_
    cases e <;> first | exact .pure _ | exact .checked (.error _)

theorem inserts_racingBatch (config : RacingConfig) (locatorLimit : ℕ) (race : HeaderRace P)
    (result : HeaderSyncRunResult) : Evolves (Inserts (S := S))
      (racingBatch .mainnet locatorLimit runner config now race result) := by
  intro s
  rw [racingBatch, get_bind]
  dsimp only
  split_ifs
  · exact Inserts.refl s
  · refine Evolves.bind Inserts.trans (inserts_of_keeps (keeps_readsChain _)) (fun locator => ?_) s
    cases race.raceTcpHeaderBatch (config.candidates now s.peers) locator runner.config.stop with
    | success address height headers =>
      exact inserts_takeBatch runner address now height headers _
    | failure failures => exact inserts_of_keeps (keeps_record runner _ (.pure _))

theorem inserts_racingBatches (config : RacingConfig) (locatorLimit : ℕ)
    (races : ℕ → HeaderRace P) (batches index : ℕ) (result : HeaderSyncRunResult) :
    Evolves (Inserts (S := S))
      (racingBatches .mainnet locatorLimit runner config now races batches index result) := by
  have hstored (result : HeaderSyncRunResult) : Evolves (Inserts (S := S)) (do
      persistPeerManager runner
      return result) :=
    inserts_of_keeps (.bind (keeps_persist runner) fun _ => .pure _)
  induction batches generalizing index result with
  | zero => exact hstored result
  | succ batches ih =>
    refine .bind Inserts.trans (inserts_racingBatch runner now config locatorLimit _ result)
      fun flow => ?_
    cases flow with
    | next result => exact ih _ result
    | stop result => exact hstored result
    | return_ result => exact .pure Inserts.refl result

/-- Whatever the peers of a round send, and whether it fails or not, the round only inserts headers
    into the chain. -/
theorem inserts_syncOnceParallelAndPersist (config : DiscoveryConfig) (locatorLimit : ℕ)
    (probe : HeaderRace P) (races : ℕ → HeaderRace P) : Evolves (Inserts (S := S))
      (syncOnceParallelAndPersist runner config now .mainnet locatorLimit probe races) :=
  .bind Inserts.trans (inserts_of_keeps (keeps_probePeersParallel runner now config probe))
    fun _ => .ite (inserts_racingBatches runner now config.toRacingConfig locatorLimit races _ 0 _)
      (inserts_syncOnceAndPersist runner now config locatorLimit)

end Rounds

end Hns
