import Hns.Sync.Selection

/-!
# The discovery of peers

The rounds of `HeaderSyncRunner` with everything they do to the table of peers:
`sync_once`, `sync_once_and_persist` and `sync_once_parallel_and_persist`, which
visit peers of the table, record what has come of the visits, and add the
addresses that the peers give when they are asked (`sync_peer`,
`discover_more_peers`, `probe_peers_parallel_and_persist`).

* `Visits`: visits to some peers change the entries of these, and add what they
  give;
* `visits_syncPeer`: a round asks every peer that it syncs with for addresses,
  however long the table is; `discoverLoop` and `probePeersParallel` look at its
  length first.
-/

namespace Hns

open Except EStateM HeaderStore HeaderPeerClient

/-! ## The table -/

namespace PeerManager

variable {manager manager' : PeerManager} {peer : PeerState} {address : SocketAddr}

def addresses (manager : PeerManager) : List SocketAddr := manager.peers.map PeerState.address

theorem mem_upsert (hpeer : peer ∈ manager.peers) (address : SocketAddr) :
    peer ∈ (manager.upsert address).peers := by
  rw [upsert]
  split_ifs
  · exact hpeer
  · exact List.mem_append_left _ hpeer

theorem mem_addresses_upsert {address' : SocketAddr} :
    address' ∈ (manager.upsert address).addresses ↔
      address' ∈ manager.addresses ∨ address' = address := by
  rw [addresses, addresses, upsert]
  split_ifs with h
  · exact ⟨.inl, fun h' => h'.elim id fun heq => heq ▸ h⟩
  · simp [PeerState.new]

theorem mem_addresses_modify {change : PeerState → PeerState}
    (hchange : ∀ peer, (change peer).address = peer.address) {address' : SocketAddr} :
    address' ∈ (manager.modify address change hchange).addresses ↔
      address' ∈ manager.addresses ∨ address' = address := by
  have haddresses : (manager.modify address change hchange).addresses =
      (manager.upsert address).addresses := by
    rw [addresses, addresses, modify, List.map_map]
    refine List.map_congr_left fun peer _ => ?_
    rw [Function.comp_apply]
    split_ifs
    · exact hchange peer
    · rfl
  rw [haddresses, mem_addresses_upsert]

theorem mem_modify_of_ne (hpeer : peer ∈ manager.peers) (hne : peer.address ≠ address)
    (change : PeerState → PeerState) (hchange : ∀ peer, (change peer).address = peer.address) :
    peer ∈ (manager.modify address change hchange).peers :=
  List.mem_map.2 ⟨peer, mem_upsert hpeer address, if_neg hne⟩

theorem mem_addresses_seed {discovered : List SocketAddr} :
    address ∈ (manager.seed discovered).addresses ↔
      address ∈ manager.addresses ∨ address ∈ discovered := by
  induction discovered generalizing manager with
  | nil => simp [seed]
  | cons first discovered ih =>
    rw [seed, List.foldl_cons, ← seed, ih, mem_addresses_upsert, List.mem_cons, or_assoc]

theorem mem_seed (hpeer : peer ∈ manager.peers) (discovered : List SocketAddr) :
    peer ∈ (manager.seed discovered).peers := by
  induction discovered generalizing manager with
  | nil => exact hpeer
  | cons first discovered ih => exact ih (mem_upsert hpeer first)

theorem length_addresses (manager : PeerManager) :
    manager.addresses.length = manager.peers.length := List.length_map _

/-- A table is not longer than a list that has all its addresses. -/
theorem length_le_of_subset {l : List SocketAddr} (h : manager.addresses ⊆ l) :
    manager.peers.length ≤ l.length := by
  rw [← length_addresses]
  exact (manager.nodup.subperm h).length_le

end PeerManager

/-! ## Visits -/

/-- What visits to some peers do to the table, when they give the addresses of `pool`. -/
structure Visits (visited : SocketAddr → Prop) (pool : List SocketAddr)
    (manager manager' : PeerManager) : Prop where
  others {peer : PeerState} (hpeer : peer ∈ manager.peers) (h : ¬visited peer.address) :
    peer ∈ manager'.peers
  kept : manager.addresses ⊆ manager'.addresses
  added {address : SocketAddr} (h : address ∈ manager'.addresses) :
    address ∈ manager.addresses ∨ visited address ∨ address ∈ pool

namespace Visits

variable {visited visited' : SocketAddr → Prop} {pool pool' : List SocketAddr}
  {manager manager₁ manager₂ : PeerManager}

@[refl] theorem refl (manager : PeerManager) : Visits visited pool manager manager :=
  ⟨fun hpeer _ => hpeer, fun _ h => h, .inl⟩

theorem trans (h : Visits visited pool manager manager₁)
    (h' : Visits visited pool manager₁ manager₂) : Visits visited pool manager manager₂ where
  others hpeer hother := h'.others (h.others hpeer hother) hother
  kept _ hmem := h'.kept (h.kept hmem)
  added hmem := (h'.added hmem).elim h.added .inr

theorem mono (h : Visits visited pool manager manager₁)
    (hvisited : ∀ address, visited address → visited' address) (hpool : pool ⊆ pool') :
    Visits visited' pool' manager manager₁ where
  others hpeer hother := h.others hpeer fun hvisit => hother (hvisited _ hvisit)
  kept := h.kept
  added hmem := (h.added hmem).imp_right (Or.imp (hvisited _) fun hmem => hpool hmem)

theorem modify {address : SocketAddr} (hvisited : visited address) (change : PeerState → PeerState)
    (hchange : ∀ peer, (change peer).address = peer.address) :
    Visits visited pool manager (manager.modify address change hchange) where
  others hpeer hother :=
    PeerManager.mem_modify_of_ne hpeer (fun heq => hother (heq ▸ hvisited)) change hchange
  kept _ hmem := (PeerManager.mem_addresses_modify hchange).2 (.inl hmem)
  added hmem := by
    rcases (PeerManager.mem_addresses_modify hchange).1 hmem with hmem | rfl
    · exact .inl hmem
    · exact .inr (.inl hvisited)

theorem seed {discovered : List SocketAddr} (hpool : discovered ⊆ pool) :
    Visits visited pool manager (manager.seed discovered) where
  others hpeer _ := PeerManager.mem_seed hpeer discovered
  kept _ hmem := PeerManager.mem_addresses_seed.2 (.inl hmem)
  added hmem := (PeerManager.mem_addresses_seed.1 hmem).imp_right fun hmem => .inr (hpool hmem)

section Records

variable {address : SocketAddr} (hvisited : visited address)

include hvisited

theorem recordSuccess (height now : ℕ) :
    Visits visited pool manager (manager.recordSuccess address height now) := by
  rw [PeerManager.recordSuccess]
  exact modify hvisited _ _

theorem recordObservedHeight (height now : ℕ) :
    Visits visited pool manager (manager.recordObservedHeight address height now) := by
  rw [PeerManager.recordObservedHeight]
  exact modify hvisited _ _

theorem recordTransientFailure :
    Visits visited pool manager (manager.recordTransientFailure address) := by
  rw [PeerManager.recordTransientFailure]
  exact modify hvisited _ _

theorem penalize (score : ℤ) (bannedUntil : Option ℕ) :
    Visits visited pool manager (manager.penalize address score bannedUntil) := by
  rw [PeerManager.penalize]
  exact modify hvisited _ _

theorem recordChainFailure (now : ℕ) (e : ChainError) (malformedBanSeconds : ℕ) :
    Visits visited pool manager (recordChainFailure manager address now e malformedBanSeconds) := by
  cases e with
  | unknownParent | duplicateHeader => exact penalize hvisited _ _
  | missingBestHeader | storage => exact recordTransientFailure hvisited
  | _ => exact penalize hvisited _ _

end Records

end Visits

/-! ## The rounds -/

/-- The settings of a runner that only the discovery of peers reads, next to those of its racing
    rounds. -/
structure DiscoveryConfig extends RacingConfig where
  peerDiscoveryTarget : ℕ
  peerDiscoveryQueryPeers : ℕ
  parallelPeerProbes : ℕ
  peerHeightRefreshInterval : ℕ

inductive ParallelPeerProbe
  | success (address : SocketAddr) (remoteHeight : ℕ) (discovered : List SocketAddr)
  | failure (failure : HeaderPeerFailure)

/-- `probe_tcp_header_peer`. -/
def probeTcpHeaderPeer {P : Type} [HeaderPeerClient P] (connect : SocketAddr → Except P2pError P)
    (address : SocketAddr) : ParallelPeerProbe :=
  match connect address with
  | .error e => .failure ⟨address, .connect, toString e⟩
  | .ok peer =>
    match handshake peer with
    | .error e _ => .failure ⟨address, .handshake, toString e⟩
    | .ok remoteHeight peer =>
      match requestAddresses peer with
      | .ok discovered _ => .success address remoteHeight discovered
      | .error _ _ => .success address remoteHeight []

/-- `peer_height_refresh_due`. -/
def peerHeightRefreshDue (peers : PeerManager) (now refreshInterval : ℕ) : Bool :=
  if refreshInterval = 0 then false
  else !peers.peers.any fun peer => 0 < peer.lastHeight ∧
    peer.lastConnectedAt.any fun seenAt => now - refreshInterval ≤ seenAt

section

variable {S : Type} {P : Type} [HeaderPeerClient P] (runner : HeaderSyncRunner P)
  (config : DiscoveryConfig) (now : ℕ)

/-- The body of the loop of `discover_more_peers`. -/
def discoverFrom (address : SocketAddr) : EStateM SyncError (SyncState S) Unit :=
  match runner.connect address with
  | .error _ => modifyPeers fun peers => peers.recordTransientFailure address
  | .ok peer =>
    match handshake peer with
    | .error _ _ => modifyPeers fun peers => peers.recordTransientFailure address
    | .ok remoteHeight peer => do
      modifyPeers fun peers => peers.recordObservedHeight address remoteHeight now
      persistPeerManager runner
      match requestAddresses peer with
      | .ok discovered _ => do
        modifyPeers fun peers => peers.seed discovered
        persistPeerManager runner
      | .error _ _ => pure ()
      modifyPeers fun peers => peers.recordSuccess address remoteHeight now
      persistPeerManager runner

/-- The loop of `discover_more_peers`: it ends when there are enough peers. -/
def discoverLoop : List SocketAddr → EStateM SyncError (SyncState S) Unit
  | [] => pure ()
  | address :: candidates => do
    let s ← get
    if config.peerDiscoveryTarget ≤ s.peers.peers.length then pure ()
    else do
      discoverFrom runner now address
      discoverLoop candidates

def discoverMorePeers (attempted : List SocketAddr) : EStateM SyncError (SyncState S) Unit := do
  let s ← get
  if runner.config.discoverPeers = false ∨ config.peerDiscoveryTarget ≤ s.peers.peers.length ∨
      config.peerDiscoveryQueryPeers = 0 then pure ()
  else
    discoverLoop runner config now
      (s.peers.selectDiscoveryOutbound config.peerDiscoveryQueryPeers now attempted)

/-- The loop of `probe_peers_parallel_and_persist`, over the probes as they arrive. -/
def takeProbes : List ParallelPeerProbe → ℕ → EStateM SyncError (SyncState S) ℕ
  | [], successful => return successful
  | .success address remoteHeight discovered :: probes, successful => do
    modifyPeers fun peers => peers.recordSuccess address remoteHeight now
    modifyPeers fun peers => peers.seed discovered
    persistPeerManager runner
    takeProbes probes (saturatingAdd 64 successful 1)
  | .failure failure :: probes, successful => do
    modifyPeers fun peers => peers.recordTransientFailure failure.address
    persistPeerManager runner
    takeProbes probes successful

/-- The peers that `probe_peers_parallel_and_persist` chooses, if it is to probe any. -/
def DiscoveryConfig.probed (peers : PeerManager) : List SocketAddr :=
  if peerHeightRefreshDue peers now config.peerHeightRefreshInterval then
    peers.selectDiscoveryOutbound config.parallelPeerProbes now []
  else peers.selectOutbound config.parallelPeerProbes now

def probePeersParallel (probe : HeaderRace P) : EStateM SyncError (SyncState S) ℕ := do
  let s ← get
  if runner.config.discoverPeers = false ∨ config.parallelPeerProbes = 0 ∨
      config.peerDiscoveryTarget ≤ s.peers.peers.length ∧
        (s.peers.peers.any fun peer => 0 < peer.lastHeight) ∧
        peerHeightRefreshDue s.peers now config.peerHeightRefreshInterval = false then return 0
  else if (config.probed now s.peers).length ≤ 1 then return 0
  else
    let arrived := probe.arrival (config.probed now s.peers)
    takeProbes runner now (arrived.map (probeTcpHeaderPeer probe.connect)) 0

variable [HeaderStore S] [Digests] (policy : DifficultyPolicy) (locatorLimit : ℕ)

/-- `sync_once`, of a runner without a store: every save succeeds. -/
def syncOnceInner : EStateM SyncError (SyncState S) HeaderSyncRunResult := do
  let s ← get
  let outbound := s.peers.selectOutbound config.preferredPeers now
  let result ← syncPeers policy locatorLimit runner now outbound .empty
  discoverMorePeers runner config now outbound
  return result

def syncOnceAndPersist : EStateM SyncError (SyncState S) HeaderSyncRunResult := do
  let result ← syncOnceInner runner config now policy locatorLimit
  persistPeerManager runner
  return result

def syncOnceParallelAndPersist (probe : HeaderRace P) (races : ℕ → HeaderRace P) :
    EStateM SyncError (SyncState S) HeaderSyncRunResult := do
  let _ ← probePeersParallel runner config now probe
  if 1 < config.parallelHeaderFetchPeers then
    syncOnceRacing policy locatorLimit runner config.toRacingConfig now races
  else syncOnceAndPersist runner config now policy locatorLimit

end

/-! ## Which peers are visited -/

/-- What a peer gives when it is asked right after the handshake. -/
def answersOf {P : Type} [HeaderPeerClient P] (connect : SocketAddr → Except P2pError P)
    (address : SocketAddr) : List SocketAddr :=
  match connect address with
  | .error _ => []
  | .ok peer =>
    match handshake peer with
    | .error _ _ => []
    | .ok _ peer =>
      match requestAddresses peer with
      | .ok discovered _ => discovered
      | .error _ _ => []

theorem answersOf_eq {P : Type} [HeaderPeerClient P] {connect : SocketAddr → Except P2pError P}
    {address : SocketAddr} {peer peer' peer'' : P} {height : ℕ} {discovered : List SocketAddr}
    (hconnect : connect address = .ok peer) (hshake : handshake peer = .ok height peer')
    (hasked : requestAddresses peer' = .ok discovered peer'') :
    answersOf connect address = discovered := by
  rw [answersOf, hconnect]
  simp only [hshake, hasked]

/-- The visits of a computation. -/
def VisitsPeers {S : Type} (visited : SocketAddr → Prop) (pool : List SocketAddr)
    (s s' : SyncState S) : Prop := Visits visited pool s.peers s'.peers

namespace VisitsPeers

variable {S α : Type} {visited visited' : SocketAddr → Prop} {pool pool' : List SocketAddr}

theorem refl (s : SyncState S) : VisitsPeers visited pool s s := Visits.refl s.peers

theorem trans (s₁ s₂ s₃ : SyncState S) (h : VisitsPeers visited pool s₁ s₂)
    (h' : VisitsPeers visited pool s₂ s₃) : VisitsPeers visited pool s₁ s₃ := Visits.trans h h'

theorem mono {x : EStateM SyncError (SyncState S) α} (h : Evolves (VisitsPeers visited pool) x)
    (hvisited : ∀ address, visited address → visited' address) (hpool : pool ⊆ pool') :
    Evolves (VisitsPeers visited' pool') x :=
  fun s => Visits.mono (h s) hvisited hpool

theorem of_keeps {x : EStateM SyncError (SyncState S) α} (h : Keeps SyncState.peers x) :
    Evolves (VisitsPeers visited pool) x := by
  intro s
  rw [VisitsPeers, h s]

theorem modifyPeers {change : PeerManager → PeerManager}
    (h : ∀ manager, Visits visited pool manager (change manager)) :
    Evolves (VisitsPeers visited pool) (modifyPeers (S := S) change) := fun s => h s.peers

theorem persist {P : Type} (runner : HeaderSyncRunner P) :
    Evolves (VisitsPeers (S := S) visited pool) (persistPeerManager runner) := of_keeps (.reads _)

theorem pure (a : α) :
    Evolves (VisitsPeers (S := S) visited pool) (Pure.pure a : EStateM SyncError (SyncState S) α) :=
  .pure refl a

end VisitsPeers

section

variable {S : Type} {P : Type} [HeaderPeerClient P] (runner : HeaderSyncRunner P)
  (config : DiscoveryConfig) (now : ℕ) {visited : SocketAddr → Prop} {pool : List SocketAddr}
  {address : SocketAddr}

omit [HeaderPeerClient P] in
theorem get_bind {α : Type} (f : SyncState S → EStateM SyncError (SyncState S) α)
    (s : SyncState S) : (get >>= f) s = f s s := rfl

theorem visits_discoverFrom (hvisited : visited address)
    (hpool : answersOf runner.connect address ⊆ pool) :
    Evolves (VisitsPeers (S := S) visited pool) (discoverFrom runner now address) := by
  have hfailure : Evolves (VisitsPeers (S := S) visited pool)
      (modifyPeers fun peers => peers.recordTransientFailure address) :=
    VisitsPeers.modifyPeers fun _ => .recordTransientFailure hvisited
  have hpersist : Evolves (VisitsPeers (S := S) visited pool) (persistPeerManager runner) :=
    VisitsPeers.persist runner
  rw [discoverFrom]
  cases hconnect : runner.connect address with
  | error e => exact hfailure
  | ok peer =>
    dsimp only
    cases hshake : handshake peer with
    | error e peer' => exact hfailure
    | ok height peer' =>
      have hsuccess : Evolves (VisitsPeers (S := S) visited pool) (do
          modifyPeers fun peers => peers.recordSuccess address height now
          persistPeerManager runner) :=
        .bind VisitsPeers.trans
          (VisitsPeers.modifyPeers fun _ => .recordSuccess hvisited height now) fun _ => hpersist
      refine .bind VisitsPeers.trans
        (VisitsPeers.modifyPeers fun _ => .recordObservedHeight hvisited height now) fun _ => ?_
      refine .bind VisitsPeers.trans hpersist fun _ => ?_
      cases hasked : requestAddresses peer' with
      | error e peer'' => exact hsuccess
      | ok discovered peer'' =>
        rw [answersOf_eq hconnect hshake hasked] at hpool
        refine .bind VisitsPeers.trans (VisitsPeers.modifyPeers fun _ => .seed hpool) fun _ => ?_
        exact .bind VisitsPeers.trans hpersist fun _ => hsuccess

theorem visits_discoverLoop (candidates : List SocketAddr)
    (hpool : candidates.flatMap (answersOf runner.connect) ⊆ pool)
    (hvisited : ∀ address ∈ candidates, visited address) :
    Evolves (VisitsPeers (S := S) visited pool) (discoverLoop runner config now candidates) := by
  induction candidates with
  | nil => exact VisitsPeers.pure _
  | cons address candidates ih =>
    rw [List.forall_mem_cons] at hvisited
    rw [List.flatMap_cons, List.append_subset] at hpool
    intro s
    rw [discoverLoop, get_bind]
    split_ifs
    · exact VisitsPeers.refl s
    · exact Evolves.bind VisitsPeers.trans (visits_discoverFrom runner now hvisited.1 hpool.1)
        (fun _ => ih hpool.2 hvisited.2) s

theorem visits_takeProbes (connect : SocketAddr → Except P2pError P) (arrived : List SocketAddr)
    (hpool : arrived.flatMap (answersOf connect) ⊆ pool)
    (hvisited : ∀ address ∈ arrived, visited address) (successful : ℕ) :
    Evolves (VisitsPeers (S := S) visited pool)
      (takeProbes runner now (arrived.map (probeTcpHeaderPeer connect)) successful) := by
  have hpersist : Evolves (VisitsPeers (S := S) visited pool) (persistPeerManager runner) :=
    VisitsPeers.persist runner
  induction arrived generalizing successful with
  | nil => exact VisitsPeers.pure _
  | cons address arrived ih =>
    rw [List.forall_mem_cons] at hvisited
    rw [List.flatMap_cons, List.append_subset] at hpool
    have hfailure (failure : HeaderPeerFailure) (h : failure.address = address) :
        Evolves (VisitsPeers (S := S) visited pool) (takeProbes runner now
          (.failure failure :: arrived.map (probeTcpHeaderPeer connect)) successful) := by
      refine .bind VisitsPeers.trans (VisitsPeers.modifyPeers fun _ =>
        .recordTransientFailure (h ▸ hvisited.1)) fun _ => ?_
      exact .bind VisitsPeers.trans hpersist fun _ => ih hpool.2 hvisited.2 _
    have hsuccess (height : ℕ) (discovered : List SocketAddr) (h : discovered ⊆ pool) :
        Evolves (VisitsPeers (S := S) visited pool) (takeProbes runner now
          (.success address height discovered :: arrived.map (probeTcpHeaderPeer connect))
          successful) := by
      refine .bind VisitsPeers.trans (VisitsPeers.modifyPeers fun _ =>
        .recordSuccess hvisited.1 height now) fun _ => ?_
      refine .bind VisitsPeers.trans (VisitsPeers.modifyPeers fun _ => .seed h) fun _ => ?_
      exact .bind VisitsPeers.trans hpersist fun _ => ih hpool.2 hvisited.2 _
    rw [List.map_cons, probeTcpHeaderPeer]
    cases hconnect : connect address with
    | error e => exact hfailure _ rfl
    | ok peer =>
      dsimp only
      cases hshake : handshake peer with
      | error e peer' => exact hfailure _ rfl
      | ok height peer' =>
        dsimp only
        cases hasked : requestAddresses peer' with
        | error e peer'' => exact hsuccess height [] (List.nil_subset _)
        | ok discovered peer'' =>
          exact hsuccess height discovered (answersOf_eq hconnect hshake hasked ▸ hpool.1)

variable [HeaderStore S] [Digests] (policy : DifficultyPolicy) (locatorLimit : ℕ)

omit [HeaderPeerClient P] in
theorem tryIngest_peers (headers : List BlockHeader) :
    Keeps SyncState.peers (tryIngest (S := S) policy headers) := by
  intro s
  rw [tryIngest]
  cases ingestHeaders policy headers s.chain <;> rfl

/-- The batches of a peer change its own entry only. -/
theorem visits_headerBatches (hvisited : visited address) (batches : ℕ) (peer : P)
    (accepted : ℕ) (best : Option StoredHeader) :
    Evolves (VisitsPeers (S := S) visited pool)
      (headerBatches policy locatorLimit runner address now batches peer accepted best) := by
  induction batches generalizing peer accepted best with
  | zero => exact VisitsPeers.pure _
  | succ batches ih =>
    refine .bind VisitsPeers.trans (VisitsPeers.of_keeps (.reads _)) fun locator => ?_
    cases requestHeaders locator runner.config.stop peer with
    | error e peer' =>
      exact .bind VisitsPeers.trans (VisitsPeers.modifyPeers fun _ =>
        .recordTransientFailure hvisited) fun _ => VisitsPeers.pure _
    | ok headers peer' =>
      refine .ite (VisitsPeers.pure _) ?_
      refine .bind VisitsPeers.trans (VisitsPeers.of_keeps (tryIngest_peers policy headers))
        fun outcome => ?_
      cases outcome with
      | ok batch => exact .ite (VisitsPeers.pure _) (ih peer' _ _)
      | error e =>
        refine .bind VisitsPeers.trans (VisitsPeers.modifyPeers fun _ =>
          .recordChainFailure hvisited now e runner.config.malformedBanSeconds) fun _ => ?_
        cases e <;> first | exact VisitsPeers.pure _ | exact .of_throw VisitsPeers.refl _

omit [HeaderPeerClient P] [HeaderStore S] [Digests] in
theorem visits_finishSync (hvisited : visited address) (height accepted : ℕ)
    (best : Option StoredHeader) :
    Evolves (VisitsPeers (S := S) visited pool)
      (finishSync runner address now height accepted best) :=
  .bind VisitsPeers.trans (VisitsPeers.modifyPeers fun _ => .recordSuccess hvisited height now)
    fun _ => .bind VisitsPeers.trans (VisitsPeers.persist runner) fun _ => VisitsPeers.pure _

/-- A peer is asked for addresses only when peers are to be discovered, but then whatever the length
    of the table is. -/
theorem visits_syncPeer (hvisited : visited address)
    (hpool : runner.config.discoverPeers → answersOf runner.connect address ⊆ pool) :
    Evolves (VisitsPeers (S := S) visited pool)
      (syncPeer policy locatorLimit runner address now) := by
  have hpersist : Evolves (VisitsPeers (S := S) visited pool) (persistPeerManager runner) :=
    VisitsPeers.persist runner
  rw [syncPeer]
  cases hconnect : runner.connect address with
  | error e =>
    exact .bind VisitsPeers.trans (VisitsPeers.modifyPeers fun _ =>
      .recordTransientFailure hvisited) fun _ => VisitsPeers.pure _
  | ok peer =>
    dsimp only
    cases hshake : handshake peer with
    | error e peer' =>
      exact .bind VisitsPeers.trans (VisitsPeers.modifyPeers fun _ =>
        .recordTransientFailure hvisited) fun _ => VisitsPeers.pure _
    | ok height peer' =>
      have hdiscover : Evolves (VisitsPeers (S := S) visited pool)
          (discoverAddresses runner peer') := by
        rw [discoverAddresses]
        split_ifs with hask
        · cases hasked : requestAddresses peer' with
          | error e peer'' => exact VisitsPeers.pure _
          | ok discovered peer'' =>
            have hsub := answersOf_eq hconnect hshake hasked ▸ hpool hask
            refine .bind VisitsPeers.trans (VisitsPeers.modifyPeers fun _ => .seed hsub) fun _ => ?_
            exact .bind VisitsPeers.trans hpersist fun _ => VisitsPeers.pure _
        · exact VisitsPeers.pure _
      refine .bind VisitsPeers.trans (VisitsPeers.modifyPeers fun _ =>
        .recordObservedHeight hvisited height now) fun _ => ?_
      refine .bind VisitsPeers.trans hpersist fun _ => ?_
      refine .bind VisitsPeers.trans hdiscover fun peer'' => ?_
      refine .bind VisitsPeers.trans (VisitsPeers.of_keeps (.reads _)) fun best => ?_
      refine .ite (visits_finishSync runner now hvisited height 0 best) ?_
      refine .bind VisitsPeers.trans
        (visits_headerBatches runner now policy locatorLimit hvisited _ peer'' 0 best) fun r => ?_
      cases r with
      | error failure => exact VisitsPeers.pure _
      | ok reached => exact visits_finishSync runner now hvisited height reached.1 reached.2

theorem visits_syncPeers (outbound : List SocketAddr)
    (hpool : runner.config.discoverPeers → outbound.flatMap (answersOf runner.connect) ⊆ pool)
    (hvisited : ∀ address ∈ outbound, visited address) (result : HeaderSyncRunResult) :
    Evolves (VisitsPeers (S := S) visited pool)
      (syncPeers policy locatorLimit runner now outbound result) := by
  induction outbound generalizing result with
  | nil => exact VisitsPeers.pure _
  | cons address outbound ih =>
    rw [List.forall_mem_cons] at hvisited
    simp only [List.flatMap_cons, List.append_subset] at hpool
    rw [syncPeers]
    refine .bind VisitsPeers.trans (visits_syncPeer runner now policy locatorLimit hvisited.1
      fun hask => (hpool hask).1) fun outcome => ?_
    cases outcome with
    | success peerResult => exact ih (fun hask => (hpool hask).2) hvisited.2 _
    | failure failure => exact ih (fun hask => (hpool hask).2) hvisited.2 _

omit [Digests] in
/-- The outcome of a race is that of candidates. -/
theorem raceTcpHeaderBatch_candidates (race : HeaderRace P) (candidates : List SocketAddr)
    (locator : List Hash) (stop : Hash) :
    match race.raceTcpHeaderBatch candidates locator stop with
    | .success address _ _ => address ∈ candidates
    | .failure failures => ∀ failure ∈ failures, failure.address ∈ candidates := by
  have hloop (arrived : List SocketAddr) (failures : List HeaderPeerFailure)
      (harrived : arrived ⊆ candidates)
      (hfailures : ∀ failure ∈ failures, failure.address ∈ candidates) :
      match firstSuccess (arrived.map fun address =>
        (requestTcpHeaderBatch race.connect address locator stop).1) failures with
      | .success address _ _ => address ∈ candidates
      | .failure failures => ∀ failure ∈ failures, failure.address ∈ candidates := by
    induction arrived generalizing failures with
    | nil => exact hfailures
    | cons address arrived ih =>
      rw [List.cons_subset] at harrived
      have hone (stage : HeaderPeerFailureStage) (error : String) :
          ∀ failure ∈ failures ++ [⟨address, stage, error⟩], failure.address ∈ candidates := by
        intro failure hmem
        rcases List.mem_append.1 hmem with hmem | hmem
        · exact hfailures failure hmem
        · rw [List.mem_singleton.1 hmem]
          exact harrived.1
      rw [List.map_cons, requestTcpHeaderBatch]
      cases race.connect address with
      | error e => exact ih _ harrived.2 (hone _ _)
      | ok peer =>
        dsimp only
        cases handshake peer with
        | error e peer' => exact ih _ harrived.2 (hone _ _)
        | ok height peer' =>
          dsimp only
          cases requestHeaders locator stop peer' with
          | error e peer'' => exact ih _ harrived.2 (hone _ _)
          | ok headers peer'' => exact harrived.1
  exact hloop _ [] (race.perm candidates).subset (by simp)

omit [HeaderPeerClient P] in
theorem visits_takeBatch {address : SocketAddr} (hvisited : visited address) (height : ℕ)
    (headers : List BlockHeader) (result : HeaderSyncRunResult) :
    Evolves (VisitsPeers (S := S) visited pool)
      (takeBatch policy runner now address height headers result) := by
  have hpersist : Evolves (VisitsPeers (S := S) visited pool) (persistPeerManager runner) :=
    VisitsPeers.persist runner
  refine .bind VisitsPeers.trans (VisitsPeers.modifyPeers fun _ =>
    .recordObservedHeight hvisited height now) fun _ => ?_
  refine .bind VisitsPeers.trans hpersist fun _ => ?_
  refine .ite ?_ ?_
  · refine .bind VisitsPeers.trans (VisitsPeers.modifyPeers fun _ =>
      .recordSuccess hvisited height now) fun _ => ?_
    exact .bind VisitsPeers.trans hpersist fun _ => VisitsPeers.pure _
  · refine .bind VisitsPeers.trans (VisitsPeers.of_keeps (tryIngest_peers policy headers))
      fun outcome => ?_
    cases outcome with
    | ok batch =>
      refine .bind VisitsPeers.trans (VisitsPeers.modifyPeers fun _ =>
        .recordSuccess hvisited height now) fun _ => ?_
      exact .bind VisitsPeers.trans hpersist fun _ =>
        .ite (VisitsPeers.pure _) (VisitsPeers.pure _)
    | error e =>
      refine .bind VisitsPeers.trans (VisitsPeers.modifyPeers fun _ =>
        .recordChainFailure hvisited now e runner.config.malformedBanSeconds) fun _ => ?_
      refine .bind VisitsPeers.trans hpersist fun _ => ?_
      cases e <;> first | exact VisitsPeers.pure _ | exact .of_throw VisitsPeers.refl _

omit [HeaderPeerClient P] [HeaderStore S] [Digests] in
theorem visits_takeFailures (failures : List HeaderPeerFailure)
    (hvisited : ∀ failure ∈ failures, visited failure.address) (result : HeaderSyncRunResult) :
    Evolves (VisitsPeers (S := S) visited pool) (takeFailures runner failures result) := by
  have hrecord (manager : PeerManager) : Visits visited pool manager (failures.foldl
      (fun peers failure => peers.recordTransientFailure failure.address) manager) := by
    induction failures generalizing manager with
    | nil => exact .refl manager
    | cons failure failures ih =>
      rw [List.forall_mem_cons] at hvisited
      exact (Visits.recordTransientFailure hvisited.1).trans (ih hvisited.2 _)
  refine .bind VisitsPeers.trans (VisitsPeers.modifyPeers hrecord) fun _ => ?_
  exact .bind VisitsPeers.trans (VisitsPeers.persist runner) fun _ => VisitsPeers.pure _

theorem visits_racingBatch (race : HeaderRace P) (result : HeaderSyncRunResult) (s : SyncState S)
    (hvisited : ∀ address ∈ config.candidates now s.peers, visited address) :
    VisitsPeers visited pool s
      (racingBatch policy locatorLimit runner config.toRacingConfig now race result s).state := by
  have hpersist : Evolves (VisitsPeers (S := S) visited pool) (persistPeerManager runner) :=
    VisitsPeers.persist runner
  rw [racingBatch, get_bind]
  dsimp only
  split_ifs
  · exact VisitsPeers.refl s
  · refine Evolves.bind VisitsPeers.trans (VisitsPeers.of_keeps (.reads _)) (fun locator => ?_) s
    have hrace := raceTcpHeaderBatch_candidates race (config.candidates now s.peers) locator
      runner.config.stop
    cases hwon : race.raceTcpHeaderBatch (config.candidates now s.peers) locator
        runner.config.stop with
    | success address height headers =>
      rw [hwon] at hrace
      exact visits_takeBatch runner now policy (hvisited address hrace) height headers _
    | failure failures =>
      rw [hwon] at hrace
      exact visits_takeFailures runner failures (fun failure hmem => hvisited _ (hrace failure hmem)) _

end

end Hns
