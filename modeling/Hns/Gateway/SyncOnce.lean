import Hns.Gateway.Proving
import Hns.Sync.Inserting

/-!
# A round of the sync

`run_sync_once`: the headers that the peers give are inserted, and then the cache
of resource values is pruned to the chain that has come of it, and to its size.

* `runSyncOnce_values`: what a round leaves in the cache is what a request would
  take from it, but for the oldest rows that are too many;
* `steps_runSyncOnce`: a round is a sequence of the steps that requests expect.
-/

namespace Hns

open Except EStateM HeaderStore Atomic

def androidHeaderSyncPeers : ℕ := 12

def androidHeaderSyncBatchesPerPeer : ℕ := 16

def androidParallelPeerProbes : ℕ := 32

def androidParallelHeaderFetchPeers : ℕ := 4

def androidMinPeerTarget : ℕ := 64

def androidPeerHeightRefreshIntervalSeconds : ℕ := 10 * 60

def defaultPeerDiscoveryQueryPeers : ℕ := 8

def defaultMalformedBanSeconds : ℕ := 24 * 60 * 60

/-! ## The status -/

/-- The texts of `NativeSyncStatus::status`. -/
inductive SyncStatus
  | idle
  | seedFailed
  | attempted
  | peerFailed
  | upToDate
  | syncing
  | synced
  | cleared
  | error
  deriving DecidableEq

structure NativeSyncStatus where
  status : SyncStatus
  attempted : ℕ
  successful : ℕ
  accepted : ℕ
  failed : ℕ
  peerCount : ℕ
  peerGroups : ℕ
  bestHeight : Option ℕ
  bestPeerHeight : Option ℕ
  estimatedTipHeight : Option ℕ
  resourceCacheEntries : ℕ
  resourceCacheBytes : ℕ
  resourceCacheEvicted : ℕ
  error : Option String
  failures : List HeaderPeerFailure

def NativeSyncStatus.empty : NativeSyncStatus :=
  ⟨.idle, 0, 0, 0, 0, 0, 0, none, none, none, 0, 0, 0, none, []⟩

def isSyncBehind (bestHeight bestPeerHeight : Option ℕ) : Bool :=
  match bestHeight, bestPeerHeight with
  | some best, some peer => best < peer
  | _, _ => false

def isSyncTargetUnknown (bestHeight bestPeerHeight : Option ℕ) : Bool :=
  match bestHeight, bestPeerHeight with
  | some best, none => 0 < best
  | _, _ => false

def classifySyncStatus (attempted successful accepted failed : ℕ) (seedFailed : Bool)
    (bestHeight bestPeerHeight : Option ℕ) : SyncStatus :=
  if 0 < successful ∧ 0 < accepted then
    if isSyncBehind bestHeight bestPeerHeight || isSyncTargetUnknown bestHeight bestPeerHeight then
      .syncing
    else .synced
  else if 0 < successful then
    if isSyncBehind bestHeight bestPeerHeight then .syncing else .upToDate
  else if 0 < attempted ∧ failed = attempted then .peerFailed
  else if 0 < attempted then .attempted
  else if seedFailed then .seedFailed
  else .idle

def classifyCachedSyncStatus (bestHeight bestPeerHeight : Option ℕ) : SyncStatus :=
  match bestHeight, bestPeerHeight with
  | some best, some peer =>
    if 0 < best ∧ peer ≤ best then .upToDate else if best < peer then .syncing else .idle
  | some best, none => if 0 < best then .syncing else .idle
  | none, _ => .idle

/-- `address_group_count` -/
def PeerManager.addressGroupCount (manager : PeerManager) (now : ℕ) : ℕ :=
  ((manager.peers.filter fun peer => !peer.isBanned now).map fun peer =>
    PeerAddressGroup.fromSocketAddr peer.address).dedup.length

/-! ## The cache -/

/-- A step that may fail, with its text. -/
def inStep {ε α : Type} [ToString ε] (step : String) (x : Except ε α) : Except String α :=
  x.mapError fun e => step ++ ": " ++ toString e

/-- How the cache is opened, and what the statements on it end in. -/
structure CacheConnection where
  opened : Except ResolverError Unit
  faults : Faults

section Cache

variable {S : Type} [HeaderStore S]

def recentCanonicalResourceAnchors (s : S) : Except String (List ResourceValueAnchor) := do
  match ← inStep "read best header for resource cache anchors" (bestHeader s) with
  | none => return []
  | some best =>
    if best.height = 0 then return []
    else
      let firstHeight := max (best.height - resourceProofCacheCanonicalWindow) 1
      return (List.range' firstHeight (best.height + 1 - firstHeight)).filterMap fun height =>
        (canonicalHeader s height).map fun header => ⟨header.header.treeRoot, header.height⟩

omit [HeaderStore S] in
/-- A step on the cache. -/
def changeValues {α : Type} (step : String)
    (f : ValueTable → Except ResolverError α × ValueTable) :
    EStateM String (GatewayStores S) α := fun s =>
  match f s.values with
  | (.ok a, values) => .ok a { s with values }
  | (.error e, values) => .error (step ++ ": " ++ toString e) { s with values }

def pruneResourceCacheToBestChain (pathExists : Bool) (connection : CacheConnection) :
    EStateM String (GatewayStores S) ℕ :=
  if !pathExists then pure 0
  else do
    checked (inStep "open resource cache" connection.opened)
    let validAnchors ← reads fun s => recentCanonicalResourceAnchors s.headers
    changeValues "prune resource cache anchors" fun values =>
      values.pruneInvalidAnchors false connection.faults validAnchors true

omit [HeaderStore S] in
def enforceResourceCacheLimit (pathExists : Bool) (connection : CacheConnection) (maxBytes : ℕ) :
    EStateM String (GatewayStores S) ℕ :=
  if !pathExists then pure 0
  else do
    checked (inStep "open resource cache" connection.opened)
    changeValues "enforce resource cache limit" fun values =>
      values.enforceValueByteLimit false connection.faults maxBytes

omit [HeaderStore S] in
def resourceCacheStats (pathExists : Bool) (connection : CacheConnection) :
    EStateM String (GatewayStores S) (ℕ × ℕ) :=
  if !pathExists then pure (0, 0)
  else do
    checked (inStep "open resource cache" connection.opened)
    let stats ← reads fun s => inStep "read resource cache stats" (s.values.stats connection.faults)
    return (stats.entries, stats.valueBytes)

end Cache

/-! ## The round -/

/-- What a round meets: what may fail, the seeds, the peers and the times, and whether there is a
    cache. A round that fails leaves the store of peers in a state of its own. -/
structure SyncInputs (P : Type) where
  seedOnEmpty : Bool
  resourceCacheLimitBytes : ℕ
  createDirectory : Except String Unit
  openHeaders : Except ChainError Unit
  openPeers : Except P2pError Unit
  loadPeers : Except P2pError Unit
  seeds : Except P2pError (List SocketAddr)
  saveSeeded : List (Option P2pError)
  connect : SocketAddr → Except P2pError P
  saveManager : PeerManager → Except P2pError Unit
  peersLeft : PeerManager
  probe : HeaderRace P
  races : ℕ → HeaderRace P
  startedAt : ℕ
  finishedAt : ℕ
  cache : Bool
  prune : CacheConnection
  limit : CacheConnection
  stats : CacheConnection

/-- The runner of the gateway. -/
def SyncInputs.runner {P : Type} (inputs : SyncInputs P) : HeaderSyncRunner P where
  connect := inputs.connect
  saveManager := inputs.saveManager
  config := {
    maxHeaderBatchesPerPeer := androidHeaderSyncBatchesPerPeer
    discoverPeers := true
    stop := .zero
    malformedBanSeconds := defaultMalformedBanSeconds }

/-- The other settings of the runner of the gateway. -/
def androidDiscoveryConfig : DiscoveryConfig where
  preferredPeers := androidHeaderSyncPeers
  parallelHeaderFetchPeers := androidParallelHeaderFetchPeers
  peerDiscoveryTarget := androidMinPeerTarget
  peerDiscoveryQueryPeers := defaultPeerDiscoveryQueryPeers
  parallelPeerProbes := androidParallelPeerProbes
  peerHeightRefreshInterval := androidPeerHeightRefreshIntervalSeconds

section Round

variable {S P : Type}

/-- The peers to begin with, and why they could not be seeded. -/
def seedPeers (inputs : SyncInputs P) (peers : PeerManager) :
    EStateM String (GatewayStores S) (PeerManager × Option String) :=
  if inputs.seedOnEmpty ∧ peers.peers.length < androidMinPeerTarget then
    match inputs.seeds with
    | .ok addresses => fun s =>
      let seeded := peers.seed addresses
      -- Nothing is saved unless there are new addresses.
      if peers.peers.length < seeded.peers.length then
        match PeerManager.saveManager inputs.saveSeeded s.peers seeded with
        | (.ok _, stored) => .ok (seeded, none) { s with peers := stored }
        | (.error e, stored) =>
          .error ("save seeded peers: " ++ toString e) { s with peers := stored }
      else .ok (seeded, none) s
    | .error e => pure (peers, if peers.peers = [] then some (toString e) else none)
  else pure (peers, none)

/-- The peers to begin with, from the store. -/
def loadPeers (inputs : SyncInputs P) :
    EStateM String (GatewayStores S) (PeerManager × Option String) := do
  checked (inStep "open peer store" inputs.openPeers)
  checked (inStep "load peer store" inputs.loadPeers)
  let loaded ← reads fun s => .ok s.peers.loadManager
  seedPeers inputs loaded

variable [HeaderStore S]

/-- A step on the headers. -/
def changeHeaders {α : Type} (step : String) (x : EStateM ChainError S α) :
    EStateM String (GatewayStores S) α := fun s =>
  match x s.headers with
  | .ok a headers => .ok a { s with headers }
  | .error e headers => .error (step ++ ": " ++ toString e) { s with headers }

/-- The chain, which has the genesis block from then on. -/
def openChain [Digests] (inputs : SyncInputs P) : EStateM String (GatewayStores S) Unit := do
  checked (inStep "create sync directory" inputs.createDirectory)
  checked (inStep "open header store" inputs.openHeaders)
  match ← reads fun s => inStep "read best header" (bestHeader s.headers) with
  | some _ => return ()
  | none => do
    let _ ← changeHeaders "insert genesis header" (insertGenesis .mainnet .mainnetGenesis)

/-- What is removed from the cache: the rows that are not on the chain, and those too many. -/
def pruneCache (inputs : SyncInputs P) : EStateM String (GatewayStores S) ℕ := do
  let pruned ← pruneResourceCacheToBestChain inputs.cache inputs.prune
  let evicted ← enforceResourceCacheLimit inputs.cache inputs.limit inputs.resourceCacheLimitBytes
  return saturatingAdd 64 pruned evicted

variable [Digests] [HeaderPeerClient P]

/-- The sync itself. The peers are saved at its end, after all that has been saved before. -/
def syncHeaders (inputs : SyncInputs P) (peers : PeerManager) :
    EStateM String (GatewayStores S) (HeaderSyncRunResult × PeerManager) := fun s =>
  match syncOnceParallelAndPersist inputs.runner androidDiscoveryConfig inputs.startedAt .mainnet
      defaultLocatorLimit inputs.probe inputs.races ⟨s.headers, peers⟩ with
  | .ok result round => .ok (result, round.peers)
    { s with headers := round.chain, peers := (s.peers.saveManager [] round.peers).2 }
  | .error e round => .error ("sync headers: " ++ toString e)
    { s with headers := round.chain, peers := inputs.peersLeft }

/-- The rest of `run_sync_once`, on a chain that has the genesis block. -/
def syncOpened (inputs : SyncInputs P) : EStateM String (GatewayStores S) NativeSyncStatus := do
  let (seeded, seedError) ← loadPeers inputs
  let (result, peers) ← syncHeaders inputs seeded
  let best ← reads fun s => inStep "read synced best header" (bestHeader s.headers)
  let evicted ← pruneCache inputs
  let (entries, bytes) ← resourceCacheStats inputs.cache inputs.stats
  let bestHeight := best.map StoredHeader.height
  let status := classifySyncStatus result.attempted result.successful result.accepted
    result.failures.length seedError.isSome bestHeight (bestPeerHeight peers)
  return {
    status
    attempted := result.attempted
    successful := result.successful
    accepted := result.accepted
    failed := result.failures.length
    peerCount := peers.peers.length
    peerGroups := peers.addressGroupCount inputs.finishedAt
    bestHeight
    bestPeerHeight := bestPeerHeight peers
    estimatedTipHeight := estimatedMainnetTipHeight inputs.finishedAt
    resourceCacheEntries := entries
    resourceCacheBytes := bytes
    resourceCacheEvicted := evicted
    error :=
      if status = .peerFailed then
        some ("all " ++ toString result.attempted ++ " attempted sync peers failed; see failures")
      else seedError
    failures := result.failures }

/-- `run_sync_once` -/
def runSyncOnce (inputs : SyncInputs P) : EStateM String (GatewayStores S) NativeSyncStatus := do
  openChain inputs
  syncOpened inputs

/-! ### The status between the rounds -/

omit [Digests] [HeaderPeerClient P] in
/-- `read_sync_status`, at the time `finishedAt`. -/
def readSyncStatus (inputs : SyncInputs P) : EStateM String (GatewayStores S) NativeSyncStatus := do
  checked (inStep "open header store" inputs.openHeaders)
  checked (inStep "open peer store" inputs.openPeers)
  checked (inStep "load peer store" inputs.loadPeers)
  let peers ← reads fun s => .ok s.peers.loadManager
  let best ← reads fun s => inStep "read best header" (bestHeader s.headers)
  let (entries, bytes) ← resourceCacheStats inputs.cache inputs.stats
  let bestHeight := best.map StoredHeader.height
  return { NativeSyncStatus.empty with
    status := classifyCachedSyncStatus bestHeight (bestPeerHeight peers)
    peerCount := peers.peers.length
    peerGroups := peers.addressGroupCount inputs.finishedAt
    bestHeight
    bestPeerHeight := bestPeerHeight peers
    estimatedTipHeight := estimatedMainnetTipHeight inputs.finishedAt
    resourceCacheEntries := entries
    resourceCacheBytes := bytes }

omit [Digests] [HeaderPeerClient P] in
/-- `clear_resolver_cache_inner` -/
def clearResolverCacheInner (inputs : SyncInputs P) (fault : Option StatementFault) :
    EStateM String (GatewayStores S) NativeSyncStatus := do
  checked (inStep "create sync directory" inputs.createDirectory)
  if inputs.cache then
    checked (inStep "open resource cache" inputs.prune.opened)
    changeValues "clear resource cache" fun values =>
      match values.clear fault with
      | .ok cleared => (.ok (), cleared)
      | .error e => (.error e, values)
  let status ← attempt (readSyncStatus inputs)
  return { status.toOption.getD .empty with
    status := .cleared
    resourceCacheEntries := 0
    resourceCacheBytes := 0
    resourceCacheEvicted := 0 }

end Round

/-! ## What a request takes -/

section Accepts

variable {S : Type} [HeaderStore S] [LawfulHeaderStore S] [Digests] {s : GatewayStores S}

omit [LawfulHeaderStore S] [Digests] in
/-- Whether a request alone finds that the anchor is recent and canonical. -/
def acceptsAnchor (s : GatewayStores S) (anchor : Option ResourceValueAnchor) : Bool :=
  match ((anchorIsRecentCanonical none anchor).run.alone ⟨s, []⟩).1 with
  | .ok recent => recent
  | .error _ => false

omit [LawfulHeaderStore S] [Digests] in
theorem acceptsAnchor_some {best : StoredHeader} (hbest : bestHeader s.headers = .ok (some best))
    (anchor : ResourceValueAnchor) :
    acceptsAnchor s (some anchor) ↔
      anchor.height ≠ 0 ∧ anchor.height ≤ best.height ∧
        best.height - anchor.height ≤ resourceProofCacheCanonicalWindow ∧
        ∃ header, canonicalHeader s.headers anchor.height = some header ∧
          header.header.treeRoot = anchor.treeRoot := by
  have hopen : ((settled (failing "open header store" (none : Option ChainError)) :
      Shared S Unit).run.alone ⟨s, []⟩) = (.ok (), ⟨s, []⟩) := rfl
  have hread : ((readStores bestHeaderIn : Shared S (Option StoredHeader)).run.alone ⟨s, []⟩) =
      (.ok (some best), ⟨s, [s]⟩) :=
    congrArg (fun x => (x, (⟨s, [s]⟩ : History (GatewayStores S)))) (Except.mapError_eq_ok.2 hbest)
  rw [acceptsAnchor, anchorIsRecentCanonical, alone_run_bind hopen, alone_run_bind hread]
  dsimp only
  split_ifs with hheight hwindow
  · exact iff_of_false Bool.false_ne_true fun h => by omega
  · exact iff_of_false Bool.false_ne_true fun h => absurd h.2.2.1 (not_le.2 hwindow)
  · change ((canonicalHeader s.headers anchor.height).any fun header =>
      decide (header.header.treeRoot = anchor.treeRoot)) = true ↔ _
    simp only [Option.any_eq_true, decide_eq_true_eq]
    rw [not_or, not_lt] at hheight
    exact ⟨fun h => ⟨hheight.1, hheight.2, not_lt.1 hwindow, h⟩, fun h => h.2.2.2⟩

omit [LawfulHeaderStore S] [Digests] in
theorem acceptsAnchor_none : acceptsAnchor s none = false := rfl

omit [LawfulHeaderStore S] [Digests] in
theorem acceptsAnchor_of_not_best (hbest : bestHeader s.headers = .ok none)
    (anchor : ResourceValueAnchor) : acceptsAnchor s (some anchor) = false := by
  have hopen : ((settled (failing "open header store" (none : Option ChainError)) :
      Shared S Unit).run.alone ⟨s, []⟩) = (.ok (), ⟨s, []⟩) := rfl
  have hread : ((readStores bestHeaderIn : Shared S (Option StoredHeader)).run.alone ⟨s, []⟩) =
      (.ok none, ⟨s, [s]⟩) :=
    congrArg (fun x => (x, (⟨s, [s]⟩ : History (GatewayStores S)))) (Except.mapError_eq_ok.2 hbest)
  rw [acceptsAnchor, anchorIsRecentCanonical, alone_run_bind hopen, alone_run_bind hread]
  rfl

omit [LawfulHeaderStore S] in
theorem height_canonicalHeader {s : S} {t : ChainTree} (h : Represents s t) {height : ℕ}
    {header : StoredHeader} (hheader : canonicalHeader s height = some header) :
    header.height = height := by
  obtain ⟨hash, hhash, hget⟩ := Option.bind_eq_some_iff.1 hheader
  have hindex : canonicalHash s height = canonicalOf t.headers t.best height :=
    congrFun (congrArg MemoryHeaderStore.canonical h) height
  rw [h.getHeader_eq] at hget
  rw [hindex] at hhash
  rcases t.tip_cases with ⟨hbest, -⟩ | ⟨tip, -, hbest, hmem, -⟩
  · rw [hbest] at hhash
    cases hhash
  · rw [hbest] at hhash
    have hle : height ≤ tip.height := by
      by_contra hgt
      rw [canonicalOf_some hmem, if_neg hgt] at hhash
      cases hhash
    obtain ⟨header', -, hknown, hheight, hcan⟩ := t.valid.canonicalOf_eq_some hmem hle
    rw [hcan] at hhash
    cases hhash
    rw [hknown] at hget
    cases hget
    exact hheight

omit [LawfulHeaderStore S] in
/-- The anchors that the cache is pruned to are those that a request accepts. -/
theorem keepsAnchor_recentCanonical (hs : ∃ t, Represents s.headers t)
    {valid : List ResourceValueAnchor}
    (hvalid : recentCanonicalResourceAnchors s.headers = .ok valid)
    (anchor : Option ResourceValueAnchor) :
    ValueTable.keepsAnchor valid true anchor = acceptsAnchor s anchor := by
  obtain ⟨t, ht⟩ := hs
  obtain ⟨best, hbest, hvalid⟩ := Except.bind_eq_ok.1 hvalid
  rw [inStep, Except.mapError_eq_ok] at hbest
  cases anchor with
  | none => rfl
  | some anchor =>
    rw [Bool.eq_iff_iff, ValueTable.keepsAnchor, decide_eq_true_eq]
    cases best with
    | none =>
      cases hvalid
      rw [acceptsAnchor_of_not_best hbest]
      exact iff_of_false List.not_mem_nil Bool.false_ne_true
    | some best =>
      rw [acceptsAnchor_some hbest]
      dsimp only at hvalid
      split_ifs at hvalid with hzero
      · cases hvalid
        exact iff_of_false List.not_mem_nil fun h => h.1 (Nat.le_zero.1 (hzero ▸ h.2.1))
      · rw [← Except.ok.inj hvalid]
        simp only [List.mem_filterMap, List.mem_range'_1, Option.map_eq_some_iff]
        constructor
        · rintro ⟨height, hrange, header, hheader, rfl⟩
          have hheight := height_canonicalHeader ht hheader
          dsimp only
          rw [hheight]
          exact ⟨by omega, by omega, by omega, header, hheader, rfl⟩
        · rintro ⟨hpos, hle, hwindow, header, hheader, hroot⟩
          have hheight := height_canonicalHeader ht hheader
          exact ⟨anchor.height, by omega, header, hheader, by rw [hroot, hheight]⟩

end Accepts

/-! ## What a round does -/

section Steps

variable {S P : Type} [HeaderStore S] [LawfulHeaderStore S] [Digests]

/-- What a part of a round does, if the heights stay small: steps that requests expect. -/
structure Syncs (s s' : GatewayStores S) : Prop where
  sub : Table.Sub (getHeader s.headers) (getHeader s'.headers)
  steps (hs : ∃ t, Represents s.headers t) (hbounded : HeightsBounded (getHeader s'.headers)) :
    (∃ t, Represents s'.headers t) ∧ Relation.ReflTransGen GatewayStep s s'

omit [LawfulHeaderStore S] in
theorem Syncs.refl (s : GatewayStores S) : Syncs s s := ⟨Table.Sub.refl _, fun hs _ => ⟨hs, .refl⟩⟩

omit [LawfulHeaderStore S] in
theorem Syncs.trans (s₁ s₂ s₃ : GatewayStores S) (h : Syncs s₁ s₂) (h' : Syncs s₂ s₃) :
    Syncs s₁ s₃ where
  sub := h.sub.trans h'.sub
  steps hs hbounded := by
    obtain ⟨hrep, hsteps⟩ := h.steps hs (hbounded.of_sub h'.sub)
    obtain ⟨hrep', hsteps'⟩ := h'.steps hrep hbounded
    exact ⟨hrep', hsteps.trans hsteps'⟩

omit [LawfulHeaderStore S] in
/-- A step that leaves the headers. -/
theorem Syncs.of_step {s s' : GatewayStores S} (hheaders : s'.headers = s.headers)
    (hstep : GatewayStep s s') : Syncs s s' where
  sub := hheaders ▸ Table.Sub.refl _
  steps hs _ := ⟨hheaders ▸ hs, .single hstep⟩

theorem Syncs.of_inserts (s : GatewayStores S) {headers : S}
    (hinserts : Relation.ReflTransGen Ingests s.headers headers) :
    Syncs s { s with headers } := by
  induction hinserts with
  | refl => exact .refl s
  | tail _ hlast ih =>
    obtain ⟨batch, rfl⟩ := hlast
    refine .trans _ _ _ ih ⟨sub_insertHeaders batch _, fun ⟨t, ht⟩ hbounded => ?_⟩
    exact ⟨ht.step (.headers batch _) hbounded, .single (.headers (.headers batch _) hbounded)⟩

variable (inputs : SyncInputs P)

omit [LawfulHeaderStore S] in
theorem syncs_seedPeers (peers : PeerManager) :
    Evolves (Syncs (S := S)) (seedPeers inputs peers) := by
  rw [seedPeers]
  refine .ite ?_ (.pure Syncs.refl _)
  cases inputs.seeds with
  | error e => exact .pure Syncs.refl _
  | ok addresses =>
    intro s
    dsimp only
    split_ifs
    · cases PeerManager.saveManager inputs.saveSeeded s.peers (peers.seed addresses) with
      | mk saved stored => cases saved <;> exact .of_step rfl (.peers s stored)
    · exact Syncs.refl s

omit [LawfulHeaderStore S] in
theorem syncs_reads {α : Type} (f : GatewayStores S → Except String α) :
    Evolves (Syncs (S := S)) (reads f) := by
  intro s
  have hs : (reads f s).state = s := Keeps.reads (p := id) f s
  rw [hs]
  exact .refl s

omit [LawfulHeaderStore S] in
theorem syncs_loadPeers : Evolves (Syncs (S := S)) (loadPeers inputs) :=
  .bind Syncs.trans (.checked Syncs.refl _) fun _ => .bind Syncs.trans (.checked Syncs.refl _)
    fun _ => .bind Syncs.trans (syncs_reads _) fun _ => syncs_seedPeers inputs _

theorem syncs_syncHeaders [HeaderPeerClient P] (peers : PeerManager) :
    Evolves (Syncs (S := S)) (syncHeaders inputs peers) := by
  intro s
  have hinserts := inserts_syncOnceParallelAndPersist inputs.runner inputs.startedAt
    androidDiscoveryConfig defaultLocatorLimit inputs.probe inputs.races ⟨s.headers, peers⟩
  rw [syncHeaders]
  cases hrun : syncOnceParallelAndPersist inputs.runner androidDiscoveryConfig inputs.startedAt
      .mainnet defaultLocatorLimit inputs.probe inputs.races ⟨s.headers, peers⟩ with
  | ok result round =>
    rw [hrun] at hinserts
    exact .trans _ _ _ (.of_inserts s hinserts) (.of_step rfl (.peers _ _))
  | error e round =>
    rw [hrun] at hinserts
    exact .trans _ _ _ (.of_inserts s hinserts) (.of_step rfl (.peers _ _))

omit [LawfulHeaderStore S] in
theorem syncs_changeValues {α : Type} (step : String)
    {f : ValueTable → Except ResolverError α × ValueTable}
    (hf : ∀ s : GatewayStores S, GatewayStep s { s with values := (f s.values).2 }) :
    Evolves (Syncs (S := S)) (changeValues step f) := by
  intro s
  have hstate : (changeValues step f s).state = { s with values := (f s.values).2 } := by
    rw [changeValues]
    split <;> next hrun => rw [hrun]; rfl
  rw [hstate]
  exact .of_step rfl (hf s)

omit [LawfulHeaderStore S] in
theorem syncs_pruneCache : Evolves (Syncs (S := S)) (pruneCache inputs) := by
  refine .bind Syncs.trans (.ite (.pure Syncs.refl _) ?_) fun _ =>
    .bind Syncs.trans (.ite (.pure Syncs.refl _) ?_) fun _ => .pure Syncs.refl _
  · exact .bind Syncs.trans (.checked Syncs.refl _) fun _ => .bind Syncs.trans (syncs_reads _)
      fun valid => syncs_changeValues _ fun s => .prune s _ _ valid true
  · exact .bind Syncs.trans (.checked Syncs.refl _) fun _ =>
      syncs_changeValues _ fun s => .limit s _ _ _

omit [LawfulHeaderStore S] in
theorem syncs_resourceCacheStats (pathExists : Bool) (connection : CacheConnection) :
    Evolves (Syncs (S := S)) (resourceCacheStats pathExists connection) :=
  .ite (.pure Syncs.refl _) (.bind Syncs.trans (.checked Syncs.refl _) fun _ =>
    .bind Syncs.trans (syncs_reads _) fun _ => .pure Syncs.refl _)

/-- What the beginning of a round does, which leaves the heights small. -/
def Opens (s s' : GatewayStores S) : Prop := (∃ t, Represents s.headers t) →
  (∃ t, Represents s'.headers t) ∧ Relation.ReflTransGen GatewayStep s s'

omit [LawfulHeaderStore S] in
theorem Opens.refl (s : GatewayStores S) : Opens s s := fun hs => ⟨hs, .refl⟩

omit [LawfulHeaderStore S] in
theorem Opens.trans (s₁ s₂ s₃ : GatewayStores S) (h : Opens s₁ s₂) (h' : Opens s₂ s₃) :
    Opens s₁ s₃ := fun hs => ⟨(h' (h hs).1).1, (h hs).2.trans (h' (h hs).1).2⟩

theorem opens_insertGenesis (step : String) :
    Evolves (Opens (S := S)) (changeHeaders step (insertGenesis .mainnet .mainnetGenesis)) := by
  rintro s ⟨t, ht⟩
  have hstate : (changeHeaders step (insertGenesis .mainnet .mainnetGenesis) s).state =
      { s with headers := (insertGenesis .mainnet .mainnetGenesis s.headers).state } := by
    rw [changeHeaders]
    split <;> next hrun => rw [hrun]; rfl
  have hrep : ∃ t, Represents (insertGenesis .mainnet .mainnetGenesis s.headers).state t := by
    rcases insertGenesis_spec ht .mainnetGenesis with ⟨e, s', hs', hrep, -⟩ | ⟨-, s', hs', hrep⟩
    · exact ⟨t, by rwa [hs']⟩
    · exact ⟨.genesis, by rwa [hs']⟩
  rw [hstate]
  obtain ⟨t', ht'⟩ := hrep
  exact ⟨⟨t', ht'⟩, .single (.headers (.genesis _ _) (ht'.getHeader_eq ▸ t'.valid.bounded))⟩

theorem opens_openChain : Evolves (Opens (S := S)) (openChain inputs) := by
  have hreads : Evolves (Opens (S := S))
      (reads fun s => inStep "read best header" (bestHeader s.headers)) := by
    intro s
    rw [show (reads (fun s : GatewayStores S => inStep "read best header" (bestHeader s.headers))
      s).state = s from Keeps.reads (p := id) _ s]
    exact Opens.refl s
  refine .bind Opens.trans (.checked Opens.refl _) fun _ => .bind Opens.trans
    (.checked Opens.refl _) fun _ => .bind Opens.trans hreads fun best => ?_
  cases best with
  | some best => exact .pure Opens.refl _
  | none => exact .bind Opens.trans (opens_insertGenesis _) fun _ => .pure Opens.refl _

theorem syncs_syncOpened [HeaderPeerClient P] : Evolves (Syncs (S := S)) (syncOpened inputs) :=
  .bind Syncs.trans (syncs_loadPeers inputs) fun _ => .bind Syncs.trans
    (syncs_syncHeaders inputs _) fun _ => .bind Syncs.trans (syncs_reads _) fun _ =>
    .bind Syncs.trans (syncs_pruneCache inputs) fun _ => .bind Syncs.trans
    (syncs_resourceCacheStats _ _) fun _ => .pure Syncs.refl _

/-- Whatever the peers of a round do and however it ends, a round is a sequence of the steps that
    requests expect. -/
theorem steps_runSyncOnce [HeaderPeerClient P] {s : GatewayStores S}
    (hs : ∃ t, Represents s.headers t)
    (hbounded : HeightsBounded (getHeader (runSyncOnce inputs s).state.headers)) :
    (∃ t, Represents (runSyncOnce inputs s).state.headers t) ∧
      Relation.ReflTransGen GatewayStep s (runSyncOnce inputs s).state := by
  obtain ⟨hopened, hsteps⟩ := opens_openChain inputs s hs
  rw [runSyncOnce] at hbounded ⊢
  cases hrun : openChain inputs s with
  | error e s₁ =>
    rw [hrun] at hopened hsteps
    rw [bind_error hrun]
    exact ⟨hopened, hsteps⟩
  | ok opened s₁ =>
    rw [hrun] at hopened hsteps
    rw [bind_ok hrun] at hbounded ⊢
    obtain ⟨hrep, hrest⟩ := (syncs_syncOpened inputs s₁).steps hopened hbounded
    exact ⟨hrep, hsteps.trans hrest⟩

end Steps

/-! ## What is left of the cache -/

section Cache

variable {S P : Type} [HeaderStore S] (inputs : SyncInputs P) {s s' : GatewayStores S}

omit [HeaderStore S] in
theorem values_changeHeaders {α : Type} (step : String) (x : EStateM ChainError S α) :
    Keeps GatewayStores.values (changeHeaders step x) := by
  intro s
  rw [changeHeaders]
  cases x s.headers <;> rfl

theorem values_openChain [Digests] : Keeps (GatewayStores.values (S := S)) (openChain inputs) := by
  refine .bind (.checked _) fun _ => .bind (.checked _) fun _ => .bind (.reads _) fun best => ?_
  cases best with
  | some best => exact .pure _
  | none => exact .bind (values_changeHeaders _ _) fun _ => .pure _

omit [HeaderStore S] in
theorem values_loadPeers : Keeps (GatewayStores.values (S := S)) (loadPeers inputs) := by
  refine .bind (.checked _) fun _ => .bind (.checked _) fun _ => .bind (.reads _) fun peers => ?_
  rw [seedPeers]
  refine .ite ?_ (.pure _)
  cases inputs.seeds with
  | error e => exact .pure _
  | ok addresses =>
    intro s
    dsimp only
    split_ifs
    · cases PeerManager.saveManager inputs.saveSeeded s.peers (peers.seed addresses) with
      | mk saved stored => cases saved <;> rfl
    · rfl

theorem values_syncHeaders [Digests] [HeaderPeerClient P] (peers : PeerManager) :
    Keeps (GatewayStores.values (S := S)) (syncHeaders inputs peers) := by
  intro s
  rw [syncHeaders]
  cases syncOnceParallelAndPersist inputs.runner androidDiscoveryConfig inputs.startedAt .mainnet
    defaultLocatorLimit inputs.probe inputs.races ⟨s.headers, peers⟩ <;> rfl

omit [HeaderStore S] in
theorem headers_changeValues {α : Type} (step : String)
    (f : ValueTable → Except ResolverError α × ValueTable) :
    Keeps (GatewayStores.headers (S := S)) (changeValues step f) := by
  intro s
  rw [changeValues]
  split <;> rfl

omit [HeaderStore S] in
theorem changeValues_eq_ok {α : Type} {step : String}
    {f : ValueTable → Except ResolverError α × ValueTable} {a : α}
    (h : changeValues step f s = .ok a s') : f s.values = (.ok a, s'.values) := by
  rw [changeValues] at h
  split at h
  · next hrun =>
    cases h
    exact hrun
  · cases h

theorem headers_pruneCache : Keeps (GatewayStores.headers (S := S)) (pruneCache inputs) := by
  refine .bind (.ite (.pure _) (.bind (.checked _) fun _ => .bind (.reads _) fun _ => ?_)) fun _ =>
    .bind (.ite (.pure _) (.bind (.checked _) fun _ => ?_)) fun _ => .pure _
  · exact headers_changeValues _ _
  · exact headers_changeValues _ _

omit [HeaderStore S] in
theorem keeps_resourceCacheStats {α : Type} (p : GatewayStores S → α) (pathExists : Bool)
    (connection : CacheConnection) : Keeps p (resourceCacheStats pathExists connection) :=
  .ite (.pure _) (.bind (.checked _) fun _ => .bind (.reads _) fun _ => .pure _)

omit [HeaderStore S] in
/-- The statistics are those of the cache. -/
theorem resourceCacheStats_eq_ok {pathExists : Bool} {connection : CacheConnection}
    {entries bytes : ℕ} (hexists : pathExists = false → s.values.rows = [])
    (h : resourceCacheStats pathExists connection s = .ok (entries, bytes) s') :
    entries = s.values.rows.length ∧ bytes = valueBytes s.values.sizes.rows := by
  rw [resourceCacheStats] at h
  cases pathExists with
  | false =>
    cases h
    have hsizes : s.values.sizes.rows = [] := List.map_eq_nil_iff.2 (hexists rfl)
    rw [hsizes, hexists rfl]
    exact ⟨rfl, rfl⟩
  | true =>
    rw [Bool.not_true, if_neg Bool.false_ne_true] at h
    obtain ⟨_, -, h⟩ := checked_bind_eq_ok.1 h
    obtain ⟨stats, s₁, hread, hpure⟩ := EStateM.run_bind_eq_ok.1 h
    obtain ⟨hstats, -⟩ := reads_eq_ok.1 hread
    rw [inStep, Except.mapError_eq_ok] at hstats
    obtain ⟨valueBytes, htotal, hstats⟩ := Except.bind_eq_ok.1 hstats
    cases hstats
    cases hpure
    exact ⟨rfl, ResourceTable.totalValueBytesIn_eq_ok htotal⟩

variable [Digests]

/-- What is left when the cache is pruned: the rows that a request accepts, but for the oldest ones
    that are too many. -/
theorem pruneCache_eq_ok (hs : ∃ t, Represents s'.headers t)
    (hcache : inputs.cache = false → s.values.rows = []) {evicted : ℕ}
    (h : pruneCache inputs s = .ok evicted s') :
    evicted + s'.values.rows.length = s.values.rows.length ∧
      ∃ (rows : List ValueRow) (count : ℕ),
        rows.Perm (s.values.rows.filter fun row => acceptsAnchor s' row.anchor) ∧
        (rows.Pairwise fun a b => ResourceRow.order a.toResourceRow b.toResourceRow = .lt) ∧
        IsShortestExcess inputs.resourceCacheLimitBytes (rows.map ValueRow.toResourceRow) count ∧
        s'.values.rows.Perm (rows.drop count) := by
  have hsame : s'.headers = s.headers := by
    have hkept := headers_pruneCache inputs s
    rwa [h] at hkept
  obtain ⟨pruned, s₁, hprune, h⟩ := EStateM.run_bind_eq_ok.1 h
  obtain ⟨evicted', s₂, hlimit, h⟩ := EStateM.run_bind_eq_ok.1 h
  cases h
  rw [pruneResourceCacheToBestChain] at hprune
  rw [enforceResourceCacheLimit] at hlimit
  cases hexists : inputs.cache with
  | false =>
    rw [hexists] at hprune hlimit
    cases hprune
    cases hlimit
    refine ⟨Nat.zero_add _, [], 0, ?_, .nil, ⟨le_rfl, Nat.zero_le _, nofun⟩, ?_⟩
    · rw [hcache hexists]
      exact .refl _
    · rw [hcache hexists]
      exact .refl _
  | true =>
    rw [hexists, Bool.not_true, if_neg Bool.false_ne_true] at hprune hlimit
    obtain ⟨_, -, hprune⟩ := checked_bind_eq_ok.1 hprune
    obtain ⟨valid, s₃, hread, hchange⟩ := EStateM.run_bind_eq_ok.1 hprune
    obtain ⟨hvalid, hs₃⟩ := reads_eq_ok.1 hread
    rw [hs₃] at hchange
    have hpruned := changeValues_eq_ok hchange
    obtain ⟨_, -, hlimit⟩ := checked_bind_eq_ok.1 hlimit
    have hlimited := changeValues_eq_ok hlimit
    rw [← hsame] at hvalid
    rcases s.values.pruneInvalidAnchors_spec false inputs.prune.faults valid true with
      ⟨e, herror⟩ | ⟨removed, after, hok, hrows, hremoved⟩
    · rw [herror] at hpruned
      cases hpruned
    · rw [hok] at hpruned
      obtain ⟨rfl, rfl⟩ : removed = pruned ∧ after = s₁.values := by simpa using hpruned
      obtain ⟨rows, hperm, hsorted, hshortest, hleft⟩ :=
        ValueTable.enforceValueByteLimit_eq_ok hlimited
      have hkept : s₁.values.rows = s.values.rows.filter fun row => acceptsAnchor s' row.anchor := by
        rw [hrows]
        exact List.filter_congr fun row _ => keepsAnchor_recentCanonical hs hvalid row.anchor
      have hcount : s'.values.rows.length + evicted' = s₁.values.rows.length := by
        have hle := hshortest.le_length
        rw [List.length_map] at hle
        rw [hleft.length_eq, List.length_drop, ← hperm.length_eq]
        omega
      have hfits := s.values.fits
      refine ⟨?_, rows, evicted', hkept ▸ hperm, hsorted, hshortest, hleft⟩
      rw [saturatingAdd]
      omega

/-- After a round, the rows of the cache are those that a request would accept then, but for the
    oldest ones that are too many; and the status tells how many rows these are, how many octets
    they have, and how many rows have been removed. -/
theorem runSyncOnce_values [LawfulHeaderStore S] [HeaderPeerClient P] {status : NativeSyncStatus}
    (hs : ∃ t, Represents s.headers t) (hbounded : HeightsBounded (getHeader s'.headers))
    (hcache : inputs.cache = false → s.values.rows = [])
    (hrun : runSyncOnce inputs s = .ok status s') :
    (∃ (rows : List ValueRow) (count : ℕ),
      rows.Perm (s.values.rows.filter fun row => acceptsAnchor s' row.anchor) ∧
      (rows.Pairwise fun a b => ResourceRow.order a.toResourceRow b.toResourceRow = .lt) ∧
      IsShortestExcess inputs.resourceCacheLimitBytes (rows.map ValueRow.toResourceRow) count ∧
      s'.values.rows.Perm (rows.drop count)) ∧
    status.resourceCacheEntries = s'.values.rows.length ∧
    status.resourceCacheBytes = valueBytes s'.values.sizes.rows ∧
    status.resourceCacheEvicted + s'.values.rows.length = s.values.rows.length := by
  have hrep : ∃ t, Represents s'.headers t := by
    have hstate : (runSyncOnce inputs s).state = s' := by rw [hrun]; rfl
    exact hstate ▸ (steps_runSyncOnce inputs hs (hstate ▸ hbounded)).1
  obtain ⟨_, s₁, hopen, hrest⟩ := EStateM.run_bind_eq_ok.1 hrun
  obtain ⟨⟨seeded, seedError⟩, s₂, hload, hrest⟩ := EStateM.run_bind_eq_ok.1 hrest
  obtain ⟨⟨result, peers⟩, s₃, hsync, hrest⟩ := EStateM.run_bind_eq_ok.1 hrest
  obtain ⟨best, s₄, hbest, hrest⟩ := EStateM.run_bind_eq_ok.1 hrest
  obtain ⟨evicted, s₅, hprune, hrest⟩ := EStateM.run_bind_eq_ok.1 hrest
  obtain ⟨⟨entries, bytes⟩, s₆, hstats, hrest⟩ := EStateM.run_bind_eq_ok.1 hrest
  cases hrest
  obtain ⟨-, rfl⟩ := reads_eq_ok.1 hbest
  have hvalues : s₄.values = s.values := by
    have hopened := values_openChain inputs s
    have hloaded := values_loadPeers inputs s₁
    have hsynced := values_syncHeaders inputs seeded s₂
    rw [hopen] at hopened
    rw [hload] at hloaded
    rw [hsync] at hsynced
    exact (hsynced.trans hloaded).trans hopened
  rw [← hvalues] at hcache ⊢
  have hsame : s' = s₅ := by
    have hkept := keeps_resourceCacheStats id inputs.cache inputs.stats s₅
    rwa [hstats] at hkept
  subst hsame
  obtain ⟨hevicted, rows, count, hleft⟩ := pruneCache_eq_ok inputs hrep hcache hprune
  have hempty : inputs.cache = false → s'.values.rows = [] := by
    intro hexists
    rw [hcache hexists, List.length_nil] at hevicted
    exact List.eq_nil_of_length_eq_zero (by omega)
  obtain ⟨rfl, rfl⟩ := resourceCacheStats_eq_ok hempty hstats
  exact ⟨⟨rows, count, hleft⟩, rfl, rfl, hevicted⟩

end Cache

/-! ### A round with a peer that says nothing -/

namespace SyncOnceSample

open Sample ProvingSample

structure SilentPeer where

instance : HeaderPeerClient SilentPeer where
  handshake := throw .connectionClosed
  requestHeaders _ _ := throw .connectionClosed

def race : HeaderRace SilentPeer := ⟨fun _ => .ok {}, id, fun _ => .refl _⟩

def connection : CacheConnection := ⟨.ok (), fun _ => none⟩

def inputs : SyncInputs SilentPeer where
  seedOnEmpty := false
  resourceCacheLimitBytes := 0
  createDirectory := .ok ()
  openHeaders := .ok ()
  openPeers := .ok ()
  loadPeers := .ok ()
  seeds := .ok []
  saveSeeded := []
  connect := race.connect
  saveManager := fun _ => .ok ()
  peersLeft := peers
  probe := race
  races := fun _ => race
  startedAt := 0
  finishedAt := 0
  cache := true
  prune := connection
  limit := connection
  stats := connection

/-- A value under the root of the only block, and one under that of a block to come. -/
def stores : GatewayStores MemoryHeaderStore where
  headers := headers
  peers := peers
  values := .insertAll [(0, ⟨Chars.of "a", .zero, none, true, some ⟨.zero, 1⟩⟩),
    (0, ⟨Chars.of "b", .zero, none, true, some ⟨.zero, 2⟩⟩)]

theorem headers_runSyncOnce : (runSyncOnce inputs stores).state.headers = headers := by
  have hopen : openChain inputs stores = .ok () stores := rfl
  have hload : loadPeers inputs stores = .ok (peers.loadManager, none) stores := rfl
  rw [runSyncOnce, bind_ok hopen, syncOpened, bind_ok hload]
  refine (Keeps.state_bind (fun result => ?_) stores).trans rfl
  exact .bind (.reads _) fun _ => .bind (headers_pruneCache inputs) fun _ =>
    .bind (keeps_resourceCacheStats _ _ _) fun _ => .pure _

end SyncOnceSample

section

open Sample ProvingSample SyncOnceSample

theorem runSyncOnce_values_silent : ∃ status s', runSyncOnce inputs stores = .ok status s' ∧
    (∃ (rows : List ValueRow) (count : ℕ),
      rows.Perm (stores.values.rows.filter fun row => acceptsAnchor s' row.anchor) ∧
      (rows.Pairwise fun a b => ResourceRow.order a.toResourceRow b.toResourceRow = .lt) ∧
      IsShortestExcess 0 (rows.map ValueRow.toResourceRow) count ∧
      s'.values.rows.Perm (rows.drop count)) ∧
    status.resourceCacheEntries = s'.values.rows.length ∧
    status.resourceCacheBytes = valueBytes s'.values.sizes.rows ∧
    status.resourceCacheEvicted + s'.values.rows.length = stores.values.rows.length := by
  have hok : (runSyncOnce inputs stores).isOk = true := by decide +kernel
  obtain ⟨status, hrun⟩ := EStateM.Result.eq_ok_of_isOk hok
  refine ⟨status, _, hrun, runSyncOnce_values inputs exists_represents ?_ nofun hrun⟩
  rw [headers_runSyncOnce]
  obtain ⟨t, ht⟩ := exists_represents
  exact ht.getHeader_eq ▸ t.valid.bounded

end

end Hns
