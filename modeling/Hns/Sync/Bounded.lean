import Hns.Chain.Sample
import Hns.Sync.Discovery

/-!
# The table of peers, over runs

What sync rounds do to the table of peers and to the peer store, round after
round, when the table is saved and loaded again in between (`SyncRun`), and when
the peers give any addresses (`SyncRun.table_bounded`): no entry is ever lost, and the
table is bounded as long as every round starts below the discovery target or
learns nothing new. The rounds do not see to that.
-/

namespace Hns

open Except EStateM HeaderStore HeaderPeerClient

/-! ## The peer store -/

namespace PeerManager

/-- `HashMap::insert` of an entry, and `save_peer` of a row. -/
def insert (manager : PeerManager) (state : PeerState) : PeerManager where
  peers :=
    if state.address ∈ manager.addresses then
      manager.peers.map fun peer => if peer.address = state.address then state else peer
    else manager.peers ++ [state]
  nodup := by
    split_ifs with h
    · rw [List.map_map]
      refine (List.map_congr_left fun peer _ => ?_) ▸ manager.nodup
      rw [Function.comp_apply]
      split_ifs with heq
      · exact heq
      · rfl
    · rw [List.map_append, List.map_singleton, ← List.concat_eq_append]
      exact manager.nodup.concat h

def fromStates (states : List PeerState) : PeerManager := states.foldl insert empty

end PeerManager

/-- The rows of a `SqlitePeerStore`, one for each address. -/
structure PeerStore where
  rows : PeerManager

namespace PeerStore

def savePeer (store : PeerStore) (peer : PeerState) : PeerStore := ⟨store.rows.insert peer⟩

def saveManager (store : PeerStore) (manager : PeerManager) : PeerStore :=
  manager.peers.foldl savePeer store

/-- `row_to_peer_state`: a ban without an end is not read. -/
def rowToPeerState (row : PeerState) : PeerState :=
  { row with bannedUntil := row.bannedUntil.filter (· ≠ 2 ^ 64 - 1) }

def loadManager (store : PeerStore) : PeerManager :=
  .fromStates (store.rows.peers.map rowToPeerState)

end PeerStore

namespace PeerManager

variable {manager : PeerManager} {state peer : PeerState} {address : SocketAddr}

theorem mem_addresses_insert :
    address ∈ (manager.insert state).addresses ↔
      address ∈ manager.addresses ∨ address = state.address := by
  rw [addresses, insert]
  dsimp only
  split_ifs with h
  · have haddresses : (manager.peers.map fun peer =>
        if peer.address = state.address then state else peer).map PeerState.address =
          manager.addresses := by
      rw [addresses, List.map_map]
      refine List.map_congr_left fun peer _ => ?_
      rw [Function.comp_apply]
      split_ifs with heq
      · exact heq.symm
      · rfl
    rw [haddresses]
    exact ⟨.inl, fun h' => h'.elim id fun heq => heq ▸ h⟩
  · simp [addresses]

theorem mem_insert_self : state ∈ (manager.insert state).peers := by
  rw [insert]
  dsimp only
  split_ifs with h
  · obtain ⟨peer, hpeer, haddress⟩ := List.mem_map.1 h
    exact List.mem_map.2 ⟨peer, hpeer, if_pos haddress⟩
  · simp

theorem mem_insert_of_ne (hpeer : peer ∈ manager.peers) (hne : peer.address ≠ state.address) :
    peer ∈ (manager.insert state).peers := by
  rw [insert]
  dsimp only
  split_ifs
  · exact List.mem_map.2 ⟨peer, hpeer, if_neg hne⟩
  · exact List.mem_append_left _ hpeer

theorem mem_addresses_foldl_insert (states : List PeerState) :
    address ∈ (states.foldl insert manager).addresses ↔
      address ∈ manager.addresses ∨ address ∈ states.map PeerState.address := by
  induction states generalizing manager with
  | nil => simp
  | cons state states ih =>
    rw [List.foldl_cons, ih, mem_addresses_insert, List.map_cons, List.mem_cons, or_assoc]

/-- Of states with different addresses all are there when all have been inserted. -/
theorem mem_foldl_insert {states : List PeerState}
    (hnodup : (states.map PeerState.address).Nodup) (hpeer : peer ∈ states) :
    peer ∈ (states.foldl insert manager).peers := by
  have hkept (states : List PeerState) (manager : PeerManager) (hpeer : peer ∈ manager.peers)
      (hother : peer.address ∉ states.map PeerState.address) :
      peer ∈ (states.foldl insert manager).peers := by
    induction states generalizing manager with
    | nil => exact hpeer
    | cons state states ih =>
      rw [List.map_cons, List.mem_cons, not_or] at hother
      exact ih _ (mem_insert_of_ne hpeer hother.1) hother.2
  induction states generalizing manager with
  | nil => cases hpeer
  | cons state states ih =>
    rw [List.map_cons, List.nodup_cons] at hnodup
    rw [List.foldl_cons]
    rcases List.mem_cons.1 hpeer with rfl | hpeer
    · exact hkept states _ mem_insert_self hnodup.1
    · exact ih hnodup.2 hpeer

end PeerManager

namespace PeerStore

variable {store : PeerStore} {manager : PeerManager} {peer : PeerState} {address : SocketAddr}

def addresses (store : PeerStore) : List SocketAddr := store.rows.addresses

theorem saveManager_rows (store : PeerStore) (manager : PeerManager) :
    (store.saveManager manager).rows = manager.peers.foldl PeerManager.insert store.rows :=
  (List.foldl_hom PeerStore.rows fun _ _ => rfl).symm

theorem mem_addresses_saveManager :
    address ∈ (store.saveManager manager).addresses ↔
      address ∈ store.addresses ∨ address ∈ manager.addresses := by
  rw [addresses, saveManager_rows]
  exact PeerManager.mem_addresses_foldl_insert manager.peers

theorem mem_saveManager (hpeer : peer ∈ manager.peers) :
    peer ∈ (store.saveManager manager).rows.peers := by
  rw [saveManager_rows]
  exact PeerManager.mem_foldl_insert manager.nodup hpeer

theorem map_address_rowToPeerState (rows : List PeerState) :
    (rows.map rowToPeerState).map PeerState.address = rows.map PeerState.address := by
  rw [List.map_map]
  rfl

theorem mem_addresses_loadManager :
    address ∈ store.loadManager.addresses ↔ address ∈ store.addresses := by
  rw [loadManager, PeerManager.fromStates, PeerManager.mem_addresses_foldl_insert,
    map_address_rowToPeerState]
  exact or_iff_right List.not_mem_nil

/-- An entry is loaded as it has been saved, but for a ban without an end. -/
theorem mem_loadManager (hpeer : peer ∈ store.rows.peers)
    (hban : peer.bannedUntil ≠ some (2 ^ 64 - 1)) : peer ∈ store.loadManager.peers := by
  have hsame : rowToPeerState peer = peer := by
    obtain ⟨address, score, lastHeight, lastConnectedAt, bannedUntil, successes, failures⟩ := peer
    cases bannedUntil with
    | none => rfl
    | some bannedUntil =>
      have hne : bannedUntil ≠ 2 ^ 64 - 1 := fun heq => hban (congrArg some heq)
      simpa [rowToPeerState, Option.filter] using hne
  refine PeerManager.mem_foldl_insert ?_ (hsame ▸ List.mem_map_of_mem hpeer)
  rw [map_address_rowToPeerState]
  exact store.rows.nodup

end PeerStore

/-! ## What a round does to the table -/

/-- The table grows by at most `count` entries, those that are banned at the time are kept as they
    are, and nothing is added when the peers of the table know only each other. -/
structure TableGrows (now : ℕ) (answers : SocketAddr → List SocketAddr) (count : ℕ)
    (manager manager' : PeerManager) : Prop where
  kept : manager.addresses ⊆ manager'.addresses
  banned {peer : PeerState} (hpeer : peer ∈ manager.peers) (h : peer.isBanned now) :
    peer ∈ manager'.peers
  length : manager'.peers.length ≤ manager.peers.length + count
  closed (h : ∀ address ∈ manager.addresses, answers address ⊆ manager.addresses) :
    manager'.addresses ⊆ manager.addresses

namespace TableGrows

variable {now count count' : ℕ} {answers : SocketAddr → List SocketAddr}
  {manager manager₁ manager₂ : PeerManager}

theorem refl (manager : PeerManager) : TableGrows now answers 0 manager manager :=
  ⟨fun _ h => h, fun hpeer _ => hpeer, le_rfl, fun _ _ h => h⟩

theorem trans (h : TableGrows now answers count manager manager₁)
    (h' : TableGrows now answers count' manager₁ manager₂) :
    TableGrows now answers (count + count') manager manager₂ where
  kept _ hmem := h'.kept (h.kept hmem)
  banned hpeer hban := h'.banned (h.banned hpeer hban) hban
  length := by
    have := h.length
    have := h'.length
    omega
  closed hclosed := by
    have hsub := h.closed hclosed
    refine fun address hmem => hsub (h'.closed (fun address hmem other hother => ?_) hmem)
    exact h.kept (hclosed address (hsub hmem) hother)

theorem mono (h : TableGrows now answers count manager manager₁) (hle : count ≤ count') :
    TableGrows now answers count' manager manager₁ :=
  ⟨h.kept, h.banned, h.length.trans (Nat.add_le_add_left hle _), h.closed⟩

/-- Visits to peers that are in the table and not banned. -/
theorem of_visits {visited pool : List SocketAddr}
    (h : Visits (· ∈ visited) pool manager manager₁)
    (hvisited : ∀ address ∈ visited, ∃ peer ∈ manager.peers,
      peer.isBanned now = false ∧ peer.address = address)
    (hpool : ∀ address ∈ pool, ∃ asked ∈ visited, address ∈ answers asked)
    (hcount : pool.length ≤ count) : TableGrows now answers count manager manager₁ := by
  have hknown : ∀ address ∈ visited, address ∈ manager.addresses := by
    intro address hmem
    obtain ⟨peer, hpeer, -, rfl⟩ := hvisited address hmem
    exact List.mem_map_of_mem hpeer
  refine ⟨h.kept, fun hpeer hban => h.others hpeer fun hmem => ?_, ?_, fun hclosed address hmem => ?_⟩
  · -- The entry of an address is unique, and that of a visited one is not banned.
    obtain ⟨other, hother, hfree, haddress⟩ := hvisited _ hmem
    obtain rfl := List.inj_on_of_nodup_map manager.nodup hother hpeer haddress
    rw [hfree] at hban
    cases hban
  · have hsub : manager₁.addresses ⊆ manager.addresses ++ pool := by
      intro address hmem
      rcases h.added hmem with hold | hvisit | hnew
      · exact List.mem_append_left _ hold
      · exact List.mem_append_left _ (hknown address hvisit)
      · exact List.mem_append_right _ hnew
    have hlength := PeerManager.length_le_of_subset hsub
    rw [List.length_append, PeerManager.length_addresses] at hlength
    omega
  · rcases h.added hmem with hold | hvisit | hnew
    · exact hold
    · exact hknown address hvisit
    · obtain ⟨asked, hasked, hanswer⟩ := hpool address hnew
      exact hclosed asked (hknown asked hasked) hanswer

/-- What a computation does, and then another one. -/
theorem bind {S α β : Type} {x : EStateM SyncError (SyncState S) α}
    {f : α → EStateM SyncError (SyncState S) β} {s : SyncState S}
    (hx : TableGrows now answers count s.peers (x s).state.peers)
    (hf : ∀ a s, TableGrows now answers count' s.peers (f a s).state.peers) :
    TableGrows now answers (count + count') s.peers ((x >>= f) s).state.peers := by
  cases h : x s with
  | error e s' =>
    rw [h] at hx
    rw [bind_error h]
    exact hx.mono (Nat.le_add_right _ _)
  | ok a s' =>
    rw [h] at hx
    rw [bind_ok h]
    exact hx.trans (hf a s')

/-- What a computation does, and then one that adds nothing. -/
theorem bind_kept {S α β : Type} {x : EStateM SyncError (SyncState S) α}
    {f : α → EStateM SyncError (SyncState S) β} {s : SyncState S}
    (hx : TableGrows now answers count s.peers (x s).state.peers)
    (hf : ∀ a s, TableGrows now answers 0 s.peers (f a s).state.peers) :
    TableGrows now answers count s.peers ((x >>= f) s).state.peers := bind hx hf

end TableGrows

/-- Peers that give no more addresses than an address packet holds. -/
class GivesAddresses (P : Type) [HeaderPeerClient P] : Prop where
  length_le (peer : P) {discovered : List SocketAddr} {peer' : P} :
    requestAddresses peer = .ok discovered peer' → discovered.length ≤ maxAddr

section

variable {P : Type} [HeaderPeerClient P] [GivesAddresses P]

theorem length_answersOf_le (connect : SocketAddr → Except P2pError P) (address : SocketAddr) :
    (answersOf connect address).length ≤ maxAddr := by
  rw [answersOf]
  cases connect address with
  | error e => exact Nat.zero_le _
  | ok peer =>
    dsimp only
    cases handshake peer with
    | error e peer' => exact Nat.zero_le _
    | ok height peer' =>
      dsimp only
      cases hasked : requestAddresses peer' with
      | error e peer'' => exact Nat.zero_le _
      | ok discovered peer'' => exact GivesAddresses.length_le peer' hasked

theorem length_flatMap_answersOf_le (connect : SocketAddr → Except P2pError P)
    {asked : List SocketAddr} {count : ℕ} (h : asked.length ≤ count) :
    (asked.flatMap (answersOf connect)).length ≤ count * maxAddr := by
  rw [List.length_flatMap]
  refine (List.sum_le_card_nsmul _ maxAddr fun n hmem => ?_).trans ?_
  · obtain ⟨address, -, rfl⟩ := List.mem_map.1 hmem
    exact length_answersOf_le connect address
  · rw [List.length_map, smul_eq_mul]
    exact Nat.mul_le_mul_right _ h

end

/-! ## Rounds -/

/-- The settings that all rounds of a run share. -/
structure SyncSettings where
  runner : HeaderSyncRunnerConfig
  discovery : DiscoveryConfig
  policy : DifficultyPolicy
  locatorLimit : ℕ

namespace SyncSettings

variable (settings : SyncSettings)

/-- The most addresses that the peers of a round can give. -/
def gossip : ℕ :=
  (settings.discovery.parallelPeerProbes + settings.discovery.preferredPeers +
    settings.discovery.peerDiscoveryQueryPeers) * maxAddr

def bound : ℕ := settings.discovery.peerDiscoveryTarget + settings.gossip

end SyncSettings

inductive SyncRoundKind
  | once
  | onceAndPersist
  | onceParallelAndPersist
  deriving DecidableEq

/-- A round: its time, the peers that it meets, and whether they can be saved. -/
structure SyncRound (P : Type) where
  kind : SyncRoundKind
  now : ℕ
  connect : SocketAddr → Except P2pError P
  saveManager : PeerManager → Except P2pError Unit
  probe : HeaderRace P
  races : ℕ → HeaderRace P

namespace SyncRound

variable {S P : Type} [HeaderPeerClient P] (settings : SyncSettings) (round : SyncRound P)

def runner : HeaderSyncRunner P where
  connect := round.connect
  saveManager := if round.kind = .once then fun _ => .ok () else round.saveManager
  config := settings.runner

/-- What a peer may give in the round, if it is asked. -/
def answers (address : SocketAddr) : List SocketAddr :=
  if settings.runner.discoverPeers then
    answersOf round.connect address ++ answersOf round.probe.connect address
  else []

variable [HeaderStore S] [Digests]

def run : EStateM SyncError (SyncState S) HeaderSyncRunResult :=
  match round.kind with
  | .once =>
    syncOnceInner (round.runner settings) settings.discovery round.now settings.policy
      settings.locatorLimit
  | .onceAndPersist =>
    syncOnceAndPersist (round.runner settings) settings.discovery round.now settings.policy
      settings.locatorLimit
  | .onceParallelAndPersist =>
    syncOnceParallelAndPersist (round.runner settings) settings.discovery round.now settings.policy
      settings.locatorLimit round.probe round.races

end SyncRound

theorem persistPeerManager_peers {S P : Type} (runner : HeaderSyncRunner P) (s : SyncState S) :
    (persistPeerManager runner s).state.peers = s.peers := Keeps.reads (p := SyncState.peers) _ s

section Rounds

variable {S P : Type} [HeaderPeerClient P] [GivesAddresses P] (settings : SyncSettings)
  (round : SyncRound P)

/-- What is selected in some order among the entries that are not banned. -/
def Selects (manager : PeerManager) (now count : ℕ) (selected : List SocketAddr) : Prop :=
  ∃ compare eligible, DiverseSelection compare eligible count selected ∧
    ∀ peer ∈ eligible, peer ∈ manager.peers ∧ peer.isBanned now = false

theorem selects_selectOutbound (manager : PeerManager) (now count : ℕ) :
    Selects manager now count (manager.selectOutbound count now) := by
  refine ⟨_, _, (selectOutbound_spec manager count now []).1, fun peer hpeer => ?_⟩
  have h := List.mem_filter.1 hpeer
  exact ⟨h.1, by simpa using h.2⟩

theorem selects_selectDiscoveryOutbound (manager : PeerManager) (now count : ℕ)
    (exclude : List SocketAddr) :
    Selects manager now count (manager.selectDiscoveryOutbound count now exclude) := by
  refine ⟨_, _, (selectOutbound_spec manager count now exclude).2.1, fun peer hpeer => ?_⟩
  have h := List.mem_filter.1 hpeer
  exact ⟨h.1, by simpa using (Bool.and_eq_true_iff.1 h.2).1⟩

theorem selects_probed (config : DiscoveryConfig) (manager : PeerManager) (now : ℕ) :
    Selects manager now config.parallelPeerProbes (config.probed now manager) := by
  rw [DiscoveryConfig.probed]
  split_ifs
  · exact selects_selectDiscoveryOutbound manager now _ []
  · exact selects_selectOutbound manager now _

/-- What is visited is selected in the table. -/
theorem SyncRound.tableGrows_of_selected {manager manager' : PeerManager}
    {connect : SocketAddr → Except P2pError P} {selected visited : List SocketAddr} {count : ℕ}
    (hselects : Selects manager round.now count selected)
    (hvisited : visited.Perm selected)
    (hconnect : connect = round.connect ∨ connect = round.probe.connect)
    (h : Visits (· ∈ visited)
      (if settings.runner.discoverPeers then visited.flatMap (answersOf connect) else [])
      manager manager') :
    TableGrows round.now (round.answers settings) (count * maxAddr) manager manager' := by
  obtain ⟨compare, eligible, hselected, heligible⟩ := hselects
  refine .of_visits h (fun address hmem => ?_) (fun address hmem => ?_) ?_
  · obtain ⟨peer, hpeer, rfl⟩ := hselected.mem (hvisited.mem_iff.1 hmem)
    exact ⟨peer, (heligible peer hpeer).1, (heligible peer hpeer).2, rfl⟩
  · split_ifs at hmem with hask
    · obtain ⟨asked, hasked, hanswer⟩ := List.mem_flatMap.1 hmem
      refine ⟨asked, hasked, ?_⟩
      rw [SyncRound.answers, if_pos hask]
      rcases hconnect with rfl | rfl
      · exact List.mem_append_left _ hanswer
      · exact List.mem_append_right _ hanswer
    · cases hmem
  · split_ifs
    · refine length_flatMap_answersOf_le connect ?_
      rw [hvisited.length_eq, hselected.length]
      exact min_le_left _ _
    · exact Nat.zero_le _

theorem SyncRound.tableGrows_discoverMorePeers (attempted : List SocketAddr) (s : SyncState S) :
    TableGrows round.now (round.answers settings)
      (settings.discovery.peerDiscoveryQueryPeers * maxAddr) s.peers
      (discoverMorePeers (round.runner settings) settings.discovery round.now attempted s).state.peers := by
  rw [discoverMorePeers, get_bind]
  split_ifs with hskip
  · exact (TableGrows.refl s.peers).mono (Nat.zero_le _)
  · have hask : settings.runner.discoverPeers = true := by
      by_contra hno
      exact hskip (.inl (Bool.eq_false_iff.2 hno))
    refine round.tableGrows_of_selected settings
      (selects_selectDiscoveryOutbound s.peers round.now _ attempted) (.refl _) (.inl rfl) ?_
    rw [if_pos hask]
    exact visits_discoverLoop (round.runner settings) settings.discovery round.now _
      (fun _ h => h) (fun _ h => h) s

theorem SyncRound.tableGrows_probePeersParallel (s : SyncState S) :
    TableGrows round.now (round.answers settings)
      (settings.discovery.parallelPeerProbes * maxAddr) s.peers
      (probePeersParallel (round.runner settings) settings.discovery round.now round.probe
        s).state.peers := by
  rw [probePeersParallel, get_bind]
  split_ifs with hskip hfew
  · exact (TableGrows.refl s.peers).mono (Nat.zero_le _)
  · exact (TableGrows.refl s.peers).mono (Nat.zero_le _)
  · have hask : settings.runner.discoverPeers = true := by
      by_contra hno
      exact hskip (.inl (Bool.eq_false_iff.2 hno))
    refine round.tableGrows_of_selected settings
      (selects_probed settings.discovery s.peers round.now) (round.probe.perm _) (.inr rfl) ?_
    rw [if_pos hask]
    exact visits_takeProbes (round.runner settings) round.now round.probe.connect _
      (fun _ h => h) (fun _ h => h) 0 s

variable [HeaderStore S] [Digests]

theorem SyncRound.tableGrows_syncOnceInner (s : SyncState S) :
    TableGrows round.now (round.answers settings)
      ((settings.discovery.preferredPeers + settings.discovery.peerDiscoveryQueryPeers) * maxAddr)
      s.peers (syncOnceInner (round.runner settings) settings.discovery round.now settings.policy
        settings.locatorLimit s).state.peers := by
  rw [syncOnceInner, get_bind, Nat.add_mul]
  refine TableGrows.bind ?_ fun result s' => TableGrows.bind_kept
    (round.tableGrows_discoverMorePeers settings _ s') fun _ s'' => .refl s''.peers
  refine round.tableGrows_of_selected settings (selects_selectOutbound s.peers round.now _)
    (.refl _) (.inl rfl) ?_
  refine visits_syncPeers (round.runner settings) round.now settings.policy
    settings.locatorLimit _ (fun hask => ?_) (fun _ h => h) .empty s
  rw [if_pos (show settings.runner.discoverPeers = true from hask)]
  exact fun _ h => h

theorem SyncRound.tableGrows_syncOnceAndPersist (s : SyncState S) :
    TableGrows round.now (round.answers settings)
      ((settings.discovery.preferredPeers + settings.discovery.peerDiscoveryQueryPeers) * maxAddr)
      s.peers (syncOnceAndPersist (round.runner settings) settings.discovery round.now
        settings.policy settings.locatorLimit s).state.peers := by
  refine TableGrows.bind_kept (round.tableGrows_syncOnceInner settings s) fun result s' => ?_
  refine TableGrows.bind_kept ?_ fun _ s'' => .refl s''.peers
  rw [persistPeerManager_peers]
  exact .refl _

omit [GivesAddresses P] in
/-- A racing round asks nobody for addresses. -/
theorem SyncRound.tableGrows_racingBatches (races : ℕ → HeaderRace P) (batches index : ℕ)
    (result : HeaderSyncRunResult) (s : SyncState S) :
    TableGrows round.now (round.answers settings) 0 s.peers
      (racingBatches settings.policy settings.locatorLimit (round.runner settings)
        settings.discovery.toRacingConfig round.now races batches index result s).state.peers := by
  have hsave (result : HeaderSyncRunResult) (s : SyncState S) :
      TableGrows round.now (round.answers settings) 0 s.peers ((do
        persistPeerManager (round.runner settings)
        return result : EStateM SyncError (SyncState S) HeaderSyncRunResult) s).state.peers := by
    refine TableGrows.bind_kept ?_ fun _ s' => .refl s'.peers
    rw [persistPeerManager_peers]
    exact .refl _
  induction batches generalizing index result s with
  | zero => exact hsave result s
  | succ batches ih =>
    refine TableGrows.bind_kept ?_ fun flow s' => ?_
    · obtain ⟨compare, eligible, hselected, heligible⟩ := selects_selectOutbound s.peers round.now
        (max settings.discovery.parallelHeaderFetchPeers 1)
      have hvisits : VisitsPeers (· ∈ settings.discovery.candidates round.now s.peers) [] s
          (racingBatch settings.policy settings.locatorLimit (round.runner settings)
            settings.discovery.toRacingConfig round.now (races index) result s).state :=
        visits_racingBatch _ settings.discovery round.now settings.policy _ _ result s fun _ h => h
      refine .of_visits hvisits (fun address hmem => ?_) (fun _ h => absurd h List.not_mem_nil) le_rfl
      obtain ⟨peer, hpeer, rfl⟩ := hselected.mem hmem
      exact ⟨peer, (heligible peer hpeer).1, (heligible peer hpeer).2, rfl⟩
    · cases flow with
      | next result => exact ih _ result s'
      | stop result => exact hsave result s'
      | return_ result => exact .refl s'.peers

/-- A round of any kind. -/
theorem SyncRound.tableGrows_run (s : SyncState S) :
    TableGrows round.now (round.answers settings) settings.gossip s.peers
      (round.run settings s).state.peers := by
  rw [SyncSettings.gossip, Nat.add_assoc, Nat.add_mul, SyncRound.run]
  cases round.kind
  · exact (round.tableGrows_syncOnceInner settings s).mono (Nat.le_add_left _ _)
  · exact (round.tableGrows_syncOnceAndPersist settings s).mono (Nat.le_add_left _ _)
  · refine TableGrows.bind (round.tableGrows_probePeersParallel settings s) fun _ s' => ?_
    split_ifs
    · exact (round.tableGrows_racingBatches settings round.races _ 0 .empty s').mono (Nat.zero_le _)
    · exact round.tableGrows_syncOnceAndPersist settings s'

end Rounds

/-! ## Runs -/

/-- The state of a runner, with the rows of the peer store. -/
structure TableState (S : Type) where
  sync : SyncState S
  store : PeerStore

inductive SyncEvent (P : Type)
  | round (round : SyncRound P)
  | reload

/-- What is in the store after a round: a round that has returned has saved the table in the end, one
    that has failed may have saved any part of it. -/
def SyncRound.Stores {S P : Type} (round : SyncRound P) (store store' : PeerStore)
    (result : EStateM.Result SyncError (SyncState S) HeaderSyncRunResult) : Prop :=
  if round.kind = .once then store' = store
  else
    match result with
    | .ok _ s => store' = store.saveManager s.peers
    | .error _ s => store.addresses ⊆ store'.addresses ∧
        ∀ address ∈ store'.addresses, address ∈ store.addresses ∨ address ∈ s.peers.addresses

section

variable {S P : Type} [HeaderPeerClient P] [HeaderStore S] [Digests] (settings : SyncSettings)

/-- A round, or the table is saved and loaded. -/
inductive SyncStep : TableState S → SyncEvent P → TableState S → Prop
  | round {s : TableState S} {round : SyncRound P} {store' : PeerStore}
      (hstore : round.Stores s.store store' (round.run settings s.sync)) :
      SyncStep s (.round round) ⟨(round.run settings s.sync).state, store'⟩
  | reload {s : TableState S} :
      SyncStep s .reload ⟨⟨s.sync.chain, (s.store.saveManager s.sync.peers).loadManager⟩,
        s.store.saveManager s.sync.peers⟩

/-- A run, with the states before its events. -/
inductive SyncRun (s : TableState S) : List (TableState S × SyncEvent P) → TableState S → Prop
  | nil : SyncRun s [] s
  | step {history : List (TableState S × SyncEvent P)} {s' s'' : TableState S}
      {event : SyncEvent P} (h : SyncRun s history s') (hstep : SyncStep settings s' event s'') :
      SyncRun s (history ++ [(s', event)]) s''

omit [HeaderStore S] [Digests] in
/-- A round begins below the discovery target, or the peers of the table know only each other. -/
def SyncEvent.Calm (s : TableState S) : SyncEvent P → Prop
  | .round syncRound => s.sync.peers.peers.length < settings.discovery.peerDiscoveryTarget ∨
      ∀ address ∈ s.sync.peers.addresses,
        syncRound.answers settings address ⊆ s.sync.peers.addresses
  | .reload => True

omit [HeaderPeerClient P] in
/-- At the time of a round the peer is banned. -/
def SyncEvent.DuringBan (peer : PeerState) : SyncEvent P → Prop
  | .round syncRound => peer.isBanned syncRound.now
  | .reload => True

variable {settings} {s s' : TableState S} {event : SyncEvent P}
  {history : List (TableState S × SyncEvent P)}

/-- The table has what is in the store, and is bounded. -/
def TableState.Bounded (s : TableState S) (bound : ℕ) : Prop :=
  s.store.addresses ⊆ s.sync.peers.addresses ∧ s.sync.peers.peers.length ≤ bound

variable [GivesAddresses P]

theorem SyncStep.kept (h : SyncStep settings s event s') :
    s.sync.peers.addresses ⊆ s'.sync.peers.addresses := by
  cases h with
  | @round round _ hstore => exact (round.tableGrows_run settings s.sync).kept
  | reload =>
    intro address hmem
    exact PeerStore.mem_addresses_loadManager.2 (PeerStore.mem_addresses_saveManager.2 (.inr hmem))

/-- A ban keeps the entry as it is, while it lasts. -/
theorem SyncStep.banned (h : SyncStep settings s event s') {peer : PeerState}
    (hpeer : peer ∈ s.sync.peers.peers) (hban : event.DuringBan peer)
    (hend : peer.bannedUntil ≠ some (2 ^ 64 - 1)) : peer ∈ s'.sync.peers.peers := by
  cases h with
  | @round round _ hstore => exact (round.tableGrows_run settings s.sync).banned hpeer hban
  | reload => exact PeerStore.mem_loadManager (PeerStore.mem_saveManager hpeer) hend

theorem SyncStep.bounded (h : SyncStep settings s event s') (hcalm : event.Calm settings s)
    (hbounded : s.Bounded settings.bound) : s'.Bounded settings.bound := by
  obtain ⟨hstored, hlength⟩ := hbounded
  cases h with
  | @round round store' hstore =>
    have hgrows := round.tableGrows_run settings s.sync
    constructor
    · -- What a round saves is in its table.
      intro address hmem
      unfold SyncRound.Stores at hstore
      split_ifs at hstore
      · exact hgrows.kept (hstored (hstore ▸ hmem))
      · cases hrun : round.run settings s.sync with
        | ok result sync =>
          rw [hrun] at hstore hgrows
          dsimp only at hstore
          rw [hstore] at hmem
          exact (PeerStore.mem_addresses_saveManager.1 hmem).elim
            (fun hmem => hgrows.kept (hstored hmem)) id
        | error e sync =>
          rw [hrun] at hstore hgrows
          exact (hstore.2 address hmem).elim (fun hmem => hgrows.kept (hstored hmem)) id
    · rcases hcalm with hbelow | hclosed
      · have hadded := hgrows.length
        rw [SyncSettings.bound]
        exact hadded.trans (Nat.add_le_add_right hbelow.le _)
      · have hsub := PeerManager.length_le_of_subset (hgrows.closed hclosed)
        rw [PeerManager.length_addresses] at hsub
        exact hsub.trans hlength
  | reload =>
    constructor
    · exact fun address hmem => PeerStore.mem_addresses_loadManager.2 hmem
    · have hsub : (s.store.saveManager s.sync.peers).loadManager.addresses ⊆
          s.sync.peers.addresses := by
        intro address hmem
        exact (PeerStore.mem_addresses_saveManager.1 (PeerStore.mem_addresses_loadManager.1 hmem)).elim
          (fun hmem => hstored hmem) id
      have hle := PeerManager.length_le_of_subset hsub
      rw [PeerManager.length_addresses] at hle
      exact hle.trans hlength

/-- In every run, no entry is lost, and an entry stays as it is as long as its ban lasts, but for a
    ban without an end, which is not loaded. If every round begins below the discovery target, or the
    peers of the table know only each other then, the table and the store stay bounded. -/
theorem SyncRun.table_bounded (h : SyncRun settings s history s') :
    s.sync.peers.addresses ⊆ s'.sync.peers.addresses ∧
    (∀ peer ∈ s.sync.peers.peers, peer.bannedUntil ≠ some (2 ^ 64 - 1) →
      (∀ step ∈ history, step.2.DuringBan peer) → peer ∈ s'.sync.peers.peers) ∧
    ((∀ step ∈ history, step.2.Calm settings step.1) → s.Bounded settings.bound →
      s'.sync.peers.peers.length ≤ settings.bound ∧
        s'.store.rows.peers.length ≤ settings.bound) := by
  have hbounded : (∀ step ∈ history, step.2.Calm settings step.1) → s.Bounded settings.bound →
      s'.Bounded settings.bound := by
    intro hcalm hstart
    induction h with
    | nil => exact hstart
    | step h hstep ih =>
      rw [List.forall_mem_append, List.forall_mem_singleton] at hcalm
      exact hstep.bounded hcalm.2 (ih hcalm.1)
  refine ⟨?_, ?_, fun hcalm hstart => ?_⟩
  · clear hbounded
    induction h with
    | nil => exact fun _ hmem => hmem
    | step h hstep ih => exact fun _ hmem => hstep.kept (ih hmem)
  · clear hbounded
    intro peer hpeer hend hbans
    induction h with
    | nil => exact hpeer
    | step h hstep ih =>
      rw [List.forall_mem_append, List.forall_mem_singleton] at hbans
      exact hstep.banned (ih hbans.1) hbans.2 hend
  · obtain ⟨hstored, hlength⟩ := hbounded hcalm hstart
    have hrows := PeerManager.length_le_of_subset hstored
    rw [PeerManager.length_addresses] at hrows
    exact ⟨hlength, hrows.trans hlength⟩

end

/-! ## Peers that gossip -/

namespace GossipSample

open Sample

/-- A peer without headers that knows of one address. -/
structure GossipPeer where
  known : SocketAddr

instance : HeaderPeerClient GossipPeer where
  handshake := pure 0
  requestHeaders _ _ := pure []
  requestAddresses peer := .ok [peer.known] peer

instance : GivesAddresses GossipPeer where
  length_le := by
    rintro peer _ _ ⟨⟩
    exact Nat.one_le_iff_ne_zero.2 (by decide)

/-- The default settings. -/
def defaults : SyncSettings where
  runner := ⟨16, true, .zero, 24 * 60 * 60⟩
  discovery :=
    { preferredPeers := 8
      parallelHeaderFetchPeers := 1
      peerDiscoveryTarget := 64
      peerDiscoveryQueryPeers := 8
      parallelPeerProbes := 0
      peerHeightRefreshInterval := 0 }
  policy := .mainnet
  locatorLimit := defaultLocatorLimit

/-- A round in which every peer gives the address. -/
def round (known : SocketAddr) : SyncRound GossipPeer where
  kind := .onceAndPersist
  now := 0
  connect _ := .ok ⟨known⟩
  saveManager _ := .ok ()
  probe := ⟨fun _ => .ok ⟨known⟩, id, List.Perm.refl⟩
  races _ := ⟨fun _ => .ok ⟨known⟩, id, List.Perm.refl⟩

/-- One peer, at the genesis block. -/
def start (address : SocketAddr) : TableState MemoryHeaderStore where
  sync := ⟨ChainTree.genesis.toStore, PeerManager.empty.seed [address]⟩
  store := ⟨PeerManager.empty⟩

/-- At the genesis block, with some peers, none of which is banned. -/
structure Open (s : SyncState MemoryHeaderStore) : Prop where
  chain : s.chain = ChainTree.genesis.toStore
  free : ∀ peer ∈ s.peers.peers, peer.bannedUntil = none
  nonempty : s.peers.peers ≠ []

/-- What a visit to a peer does to the table. -/
def visit (known address : SocketAddr) (peers : PeerManager) : PeerManager :=
  ((peers.recordObservedHeight address 0 0).seed [known]).recordSuccess address 0 0

variable {known address : SocketAddr} {s : SyncState MemoryHeaderStore}

theorem free_upsert {peers : PeerManager} (h : ∀ peer ∈ peers.peers, peer.bannedUntil = none)
    (address : SocketAddr) : ∀ peer ∈ (peers.upsert address).peers, peer.bannedUntil = none := by
  intro peer hmem
  rw [PeerManager.upsert] at hmem
  split_ifs at hmem
  · exact h peer hmem
  · rcases List.mem_append.1 hmem with hmem | hmem
    · exact h peer hmem
    · rw [List.mem_singleton.1 hmem]
      rfl

theorem free_modify {peers : PeerManager} (h : ∀ peer ∈ peers.peers, peer.bannedUntil = none)
    {change : PeerState → PeerState} (hchange : ∀ peer, (change peer).address = peer.address)
    (hban : ∀ peer, (change peer).bannedUntil = peer.bannedUntil) :
    ∀ peer ∈ (peers.modify address change hchange).peers, peer.bannedUntil = none := by
  intro peer hmem
  obtain ⟨old, hold, rfl⟩ := List.mem_map.1 hmem
  have hfree := free_upsert h address old hold
  split_ifs
  · rw [hban, hfree]
  · exact hfree

theorem free_visit {peers : PeerManager} (h : ∀ peer ∈ peers.peers, peer.bannedUntil = none) :
    ∀ peer ∈ (visit known address peers).peers, peer.bannedUntil = none := by
  have hobserved : ∀ peer ∈ (peers.recordObservedHeight address 0 0).peers,
      peer.bannedUntil = none := by
    rw [PeerManager.recordObservedHeight]
    exact free_modify h _ fun _ => rfl
  have hseed := free_upsert hobserved known
  rw [visit, PeerManager.recordSuccess]
  exact free_modify hseed _ fun _ => rfl

theorem addresses_visit (known address : SocketAddr) (peers : PeerManager) :
    known ∈ (visit known address peers).addresses ∧
      peers.addresses ⊆ (visit known address peers).addresses := by
  have hlast (peers : PeerManager) :
      peers.addresses ⊆ (peers.recordSuccess address 0 0).addresses := by
    have h : Visits (fun _ => True) [] peers (peers.recordSuccess address 0 0) :=
      .recordSuccess trivial 0 0
    exact h.kept
  refine ⟨hlast _ (PeerManager.mem_addresses_seed.2 (.inr (List.mem_singleton_self known))), ?_⟩
  have hfirst : Visits (fun _ => True) [] peers (peers.recordObservedHeight address 0 0) :=
    .recordObservedHeight trivial 0 0
  exact fun _ hmem => hlast _ (PeerManager.mem_addresses_seed.2 (.inl (hfirst.kept hmem)))

/-- What a round of visits has come to. -/
structure Visited (known : SocketAddr) (s s' : SyncState MemoryHeaderStore) : Prop where
  opened : Open s'
  kept : s.peers.addresses ⊆ s'.peers.addresses

theorem Visited.refl (h : Open s) : Visited known s s := ⟨h, fun _ hmem => hmem⟩

theorem Visited.trans {s₁ s₂ s₃ : SyncState MemoryHeaderStore} (h : Visited known s₁ s₂)
    (h' : Visited known s₂ s₃) : Visited known s₁ s₃ :=
  ⟨h'.opened, fun _ hmem => h'.kept (h.kept hmem)⟩

theorem visited_visit (h : Open s) (known address : SocketAddr) :
    Visited known s { s with peers := visit known address s.peers } := by
  obtain ⟨hchain, hfree, hne⟩ := h
  have hkept := (addresses_visit known address s.peers).2
  refine ⟨⟨hchain, free_visit hfree, fun hnil => ?_⟩, hkept⟩
  obtain ⟨peer, hpeer⟩ := List.exists_mem_of_ne_nil _ hne
  have hmem := hkept (List.mem_map_of_mem hpeer)
  rw [PeerManager.addresses, hnil] at hmem
  cases hmem

theorem modifyPeers_eq (change : PeerManager → PeerManager) (s : SyncState MemoryHeaderStore) :
    modifyPeers change s = .ok () { s with peers := change s.peers } := rfl

theorem persist_eq (known : SocketAddr) (s : SyncState MemoryHeaderStore) :
    persistPeerManager ((round known).runner defaults) s = .ok () s := rfl

theorem syncPeer_eq (h : Open s) (known address : SocketAddr) :
    syncPeer .mainnet defaultLocatorLimit ((round known).runner defaults) address 0 s =
      .ok (.success ⟨address, 0, 0, some genesisEntry⟩)
        { s with peers := visit known address s.peers } := by
  have hbest (peers : PeerManager) : readsChain bestHeader
      (⟨s.chain, peers⟩ : SyncState MemoryHeaderStore) = .ok (some genesisEntry) ⟨s.chain, peers⟩ := by
    have hrep : Represents ChainTree.genesis.toStore .genesis := rfl
    refine reads_ok ?_
    rw [h.chain, hrep.bestHeader_eq, ChainTree.genesis_tip]
    rfl
  have hdiscover (peers : PeerManager) :
      discoverAddresses ((round known).runner defaults) (⟨known⟩ : GossipPeer)
        (⟨s.chain, peers⟩ : SyncState MemoryHeaderStore) =
          .ok ⟨known⟩ ⟨s.chain, peers.seed [known]⟩ := rfl
  change (modifyPeers (fun peers => peers.recordObservedHeight address 0 0) >>= fun _ => _) s = _
  rw [bind_ok (modifyPeers_eq _ s), bind_ok (persist_eq known _), bind_ok (hdiscover _),
    bind_ok (hbest _)]
  rfl

theorem discoverFrom_eq (known address : SocketAddr) (s : SyncState MemoryHeaderStore) :
    discoverFrom ((round known).runner defaults) 0 address s =
      .ok () { s with peers := visit known address s.peers } := rfl

theorem exists_syncPeers (h : Open s) (known : SocketAddr) (outbound : List SocketAddr)
    (result : HeaderSyncRunResult) :
    ∃ result' s', syncPeers .mainnet defaultLocatorLimit ((round known).runner defaults) 0 outbound
        result s = .ok result' s' ∧ Visited known s s' ∧
      (outbound ≠ [] → known ∈ s'.peers.addresses) := by
  induction outbound generalizing s result with
  | nil => exact ⟨result, s, rfl, .refl h, fun hne => absurd rfl hne⟩
  | cons address outbound ih =>
    have hvisited := visited_visit h known address
    obtain ⟨result', s', hrun, hrest, -⟩ := ih hvisited.opened
      { attempted := saturatingAdd 64 result.attempted 1
        successful := saturatingAdd 64 result.successful 1
        accepted := saturatingAdd 64 result.accepted 0
        best := some genesisEntry
        failures := result.failures }
    refine ⟨result', s', ?_, hvisited.trans hrest, fun _ => ?_⟩
    · rw [syncPeers, bind_ok (syncPeer_eq h known address)]
      exact hrun
    · exact hrest.kept (addresses_visit known address s.peers).1

theorem exists_discoverLoop (h : Open s) (known : SocketAddr) (candidates : List SocketAddr) :
    ∃ s', discoverLoop ((round known).runner defaults) defaults.discovery 0 candidates s =
      .ok () s' ∧ Visited known s s' := by
  induction candidates generalizing s with
  | nil => exact ⟨s, rfl, .refl h⟩
  | cons address candidates ih =>
    have hvisited := visited_visit h known address
    rw [discoverLoop, get_bind]
    split_ifs
    · exact ⟨s, rfl, .refl h⟩
    · obtain ⟨s', hrun, hrest⟩ := ih hvisited.opened
      refine ⟨s', ?_, hvisited.trans hrest⟩
      rw [bind_ok (discoverFrom_eq known address s)]
      exact hrun

/-- After a round the address is in the table, however long the table is. -/
theorem exists_round (h : Open s) (known : SocketAddr) :
    ∃ result s', (round known).run defaults s = .ok result s' ∧ Visited known s s' ∧
      known ∈ s'.peers.addresses := by
  have houtbound : s.peers.selectOutbound 8 0 ≠ [] := by
    have hlength := (selectOutbound_spec s.peers 8 0 []).1.length
    have hall : s.peers.peers.filter (fun peer => !peer.isBanned 0) = s.peers.peers := by
      refine List.filter_eq_self.2 fun peer hpeer => ?_
      rw [PeerState.isBanned, h.free peer hpeer]
      rfl
    rw [hall] at hlength
    rw [← List.length_pos_iff, hlength]
    exact lt_min (by norm_num) (List.length_pos_iff.2 h.nonempty)
  obtain ⟨result, s₁, hsync, hvisited, hknown⟩ :=
    exists_syncPeers h known (s.peers.selectOutbound 8 0) .empty
  obtain ⟨s₂, hdiscover, hrest⟩ : ∃ s₂, discoverMorePeers ((round known).runner defaults)
      defaults.discovery 0 (s.peers.selectOutbound 8 0) s₁ = .ok () s₂ ∧ Visited known s₁ s₂ := by
    rw [discoverMorePeers, get_bind]
    split_ifs
    · exact ⟨s₁, rfl, .refl hvisited.opened⟩
    · exact exists_discoverLoop hvisited.opened known _
  refine ⟨result, s₂, ?_, hvisited.trans hrest, hrest.kept (hknown houtbound)⟩
  have hinner : syncOnceInner ((round known).runner defaults) defaults.discovery 0 .mainnet
      defaultLocatorLimit s = .ok result s₂ := by
    rw [syncOnceInner, get_bind]
    refine (bind_ok hsync).trans ?_
    exact (bind_ok hdiscover).trans rfl
  exact (bind_ok hinner).trans (bind_ok (persist_eq known s₂))

theorem open_start (address : SocketAddr) : Open (start address).sync := by
  refine ⟨rfl, ?_, List.cons_ne_nil _ _⟩
  intro peer hmem
  rw [List.mem_singleton.1 (show peer ∈ [PeerState.new address] from hmem)]
  rfl

/-- A run through rounds in which every peer gives the next address. -/
theorem exists_syncRun (address : SocketAddr) (addresses : List SocketAddr) :
    ∃ (history : List (TableState MemoryHeaderStore × SyncEvent GossipPeer))
      (s : TableState MemoryHeaderStore), SyncRun defaults (start address) history s ∧
        Open s.sync ∧ addresses ⊆ s.sync.peers.addresses := by
  induction addresses with
  | nil => exact ⟨[], start address, .nil, open_start address, List.nil_subset _⟩
  | cons known addresses ih =>
    obtain ⟨history, s, hrun, hopen, hsub⟩ := ih
    obtain ⟨result, sync, hround, hvisited, hknown⟩ := exists_round hopen known
    have hstores : (round known).Stores s.store (s.store.saveManager sync.peers)
        ((round known).run defaults s.sync) := by
      rw [hround]
      rfl
    have hstep : SyncStep defaults s (.round (round known)) _ := .round hstores
    rw [hround] at hstep
    refine ⟨_, _, hrun.step hstep, hvisited.opened, ?_⟩
    exact List.cons_subset.2 ⟨hknown, fun _ hmem => hvisited.kept (hsub hmem)⟩

/-- `10.0.0.1:12038`. -/
def first : SocketAddr := ⟨.v4 ⟨[10, 0, 0, 1], rfl⟩, 12038⟩

theorem exists_holding (addresses : List SocketAddr) :
    ∃ (history : List (TableState MemoryHeaderStore × SyncEvent GossipPeer))
      (s : TableState MemoryHeaderStore), SyncRun defaults (start first) history s ∧
        addresses ⊆ s.sync.peers.addresses ∧ addresses ⊆ s.store.addresses := by
  obtain ⟨history, s, hrun, -, hsub⟩ := exists_syncRun first addresses
  have hsaved : SyncStep defaults s (.reload : SyncEvent GossipPeer) _ := .reload
  refine ⟨_, _, hrun.step hsaved, fun _ hmem => hsaved.kept (hsub hmem), fun _ hmem => ?_⟩
  exact PeerStore.mem_addresses_saveManager.2 (.inr (hsub hmem))

/-- Under the default settings there are no addresses, however many, that the table and the store
    cannot be made to hold: no bound follows from the settings. -/
theorem not_exists_out_of_reach :
    ¬∃ addresses : List SocketAddr,
      ∀ (history : List (TableState MemoryHeaderStore × SyncEvent GossipPeer))
        (s : TableState MemoryHeaderStore), SyncRun defaults (start first) history s →
        ¬(addresses ⊆ s.sync.peers.addresses ∧ addresses ⊆ s.store.addresses) := by
  rintro ⟨addresses, hnone⟩
  obtain ⟨history, s, hrun, hholds⟩ := exists_holding addresses
  exact hnone history s hrun hholds

/-- A round that begins with one peer. -/
theorem bounded_first :
    ∃ (history : List (TableState MemoryHeaderStore × SyncEvent GossipPeer))
      (s : TableState MemoryHeaderStore), SyncRun defaults (start first) history s ∧
        history.length = 1 ∧ s.sync.peers.peers.length ≤ defaults.bound := by
  obtain ⟨result, sync, hround, -, -⟩ := exists_round (open_start first) first
  have hstores : (round first).Stores (start first).store
      ((start first).store.saveManager sync.peers) ((round first).run defaults (start first).sync) := by
    rw [hround]
    rfl
  have hrun : SyncRun defaults (start first) [(start first, .round (round first))] _ :=
    .step .nil (.round hstores)
  refine ⟨_, _, hrun, rfl, (hrun.table_bounded.2.2 ?_ ⟨?_, ?_⟩).1⟩
  · rw [List.forall_mem_singleton]
    exact .inl (by decide)
  · exact fun _ hmem => absurd hmem List.not_mem_nil
  · decide

end GossipSample

end Hns
