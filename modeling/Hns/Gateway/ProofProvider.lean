import Hns.Chain.Run
import Hns.Lib.Atomic
import Hns.Resolver.ValueStore
import Hns.Sync.Handshake
import Hns.Sync.PeerStore
import Hns.Sync.Proofs

/-!
# The proof provider of the gateway

`GatewayProofProvider`: the records of a name are those of a value in the cache,
if it is anchored in a recent header of the canonical chain, or else a peer is
asked for a proof, and the cache once more.

The databases are shared with the other requests and with the sync. Each
statement is an action of its own; a read of a header is one too, as no header
is ever deleted. So is what is said to a peer, with the insertion at its end.
-/

namespace Hns

open Except HeaderStore

def resourceProofCacheCanonicalWindow : ℕ := 144

def localChainCurrentnessAllowedLag : ℕ := resourceProofCacheCanonicalWindow

def mainnetGenesisTime : ℕ := 1580745078

def mainnetTargetSpacingSeconds : ℕ := 10 * 60

/-- The databases: headers, peers and resource values. -/
structure GatewayStores (S : Type) where
  headers : S
  peers : PeerManager
  values : ValueTable

/-- A program on the databases that may fail. -/
abbrev Shared (S α : Type) := ExceptT ResolverError (Atomic (GatewayStores S)) α

section

variable {S α : Type}

def readStores (f : GatewayStores S → Except ResolverError α) : Shared S α :=
  ExceptT.mk (.read f)

def changeStores (f : GatewayStores S → Except ResolverError α × GatewayStores S) : Shared S α :=
  ExceptT.mk (.change f)

/-- What does not depend on the databases. -/
def settled (x : Except ResolverError α) : Shared S α := ExceptT.mk (pure x)

end

/-- How a step fails that may fail. -/
def failing {ε : Type} [ToString ε] (step : String) : Option ε → Except ResolverError Unit
  | none => .ok ()
  | some e => .error (.storage (step ++ ": " ++ toString e))

/-! ## The state of the chain -/

def estimatedMainnetTipHeight (now : ℕ) : Option ℕ :=
  if now < mainnetGenesisTime then none
  else
    let height := (now - mainnetGenesisTime) / mainnetTargetSpacingSeconds
    if height < 2 ^ 32 then some height else none

def bestPeerHeight (peers : PeerManager) : Option ℕ :=
  ((peers.peers.map PeerState.lastHeight).filter fun height => 0 < height).max?

structure LocalChainCurrentness where
  bestHeight : Option ℕ
  targetHeight : Option ℕ
  estimatedTipHeight : Option ℕ
  stale : Option Bool

def LocalChainCurrentness.new (bestHeight targetHeight estimatedTipHeight : Option ℕ) :
    LocalChainCurrentness where
  bestHeight := bestHeight
  targetHeight := targetHeight
  estimatedTipHeight := estimatedTipHeight
  stale :=
    match bestHeight, targetHeight.or estimatedTipHeight with
    | some best, some target => some (localChainCurrentnessAllowedLag < target - best)
    | _, _ => none

/-- `select_live_proof_peers` -/
def selectLiveProofPeers (peers : PeerManager) (preferredCount now proofHeight : ℕ) :
    List SocketAddr :=
  let candidates := (peers.peers.filter fun peer =>
    !peer.isBanned now && proofHeight ≤ peer.lastHeight).insertionSort fun left right =>
      (PeerManager.compareOutbound left right).isLE
  (candidates.take preferredCount).map PeerState.address

/-! ## Peers -/

/-- `Default::default` -/
def VersionPacket.default : VersionPacket where
  version := 3
  services := serviceNetwork
  time := 0
  remote := ⟨0, serviceNetwork, .ofOctets 0 0 0 0, 0⟩
  nonce := .zero
  agent := Chars.of "/hns-browser:0.1.8/"
  height := 0
  noRelay := true

/-- What a peer does: whether it can be reached, how it takes what is sent, what it sends in the
    handshake and after it, and how it fails in the end. -/
structure PeerScript where
  connect : Option P2pError
  handshakeSends : List (Option P2pError)
  handshakeIncoming : List Packet
  handshakeFailure : P2pError
  sends : List (Option P2pError)
  incoming : List Packet
  failure : P2pError

/-- How values are inserted: what fails, and the time. -/
structure Insertions where
  fault : Option StatementFault
  now : ℤ

section

variable [Digests]

def insertStored (insertions : Insertions) (values : ValueTable) (stored : List Insertion) :
    ValueTable :=
  stored.foldl (fun values insertion =>
    (values.insert insertions.fault insertions.now insertion.verified).toOption.getD values) values

/-- A new scheduler that inserts the values into the table. -/
def proofScheduler (insertions : Insertions) (values : ValueTable) : ProofScheduler where
  verifier := urkelProofVerifier
  sink stored verified :=
    ((insertStored insertions values stored).insert insertions.fault insertions.now verified).map
      fun _ => ()

/-- `fetch_from_peer`, with the height of the peer or why it has failed, and the table after it. -/
def fetchFromPeer (script : PeerScript) (insertions : Insertions) (rootName : List Char)
    (nameHash : NameHash) (proofRoot : Hash) (proofHeight : ℕ) (values : ValueTable) :
    Except SyncError ℕ × ValueTable :=
  match script.connect with
  | some e => (.error (.p2p e), values)
  | none =>
    match HeaderSyncSession.handshake (.new .default) script.handshakeSends
        script.handshakeIncoming script.handshakeFailure with
    | (_, .error e) => (.error (.p2p e), values)
    | (session, .ok remote) =>
      if remote.height.toNat < proofHeight then (.error .unexpectedAction, values)
      else
        let outcome := (proofScheduler insertions values).requestHashAndStoreWithHeight
          ⟨rootName, some nameHash, proofRoot, some proofHeight, session, script.sends,
            script.incoming, script.failure⟩ nameHash .initial
        (match outcome with
          | .ok _ _ => .ok remote.height.toNat
          | .error e _ => .error e,
          insertStored insertions values outcome.state.stored)

end

/-! ## The provider -/

/-- What may fail when the cache is looked up, and the time. -/
structure CacheInputs where
  values : Option StatementFault
  openHeaders : Option ChainError
  openHeadersAgain : Option ChainError
  openPeers : Option P2pError
  loadPeers : Option P2pError
  now : ℕ

/-- What may fail when a proof is fetched, the time, the seeds, and what the peers do. -/
structure FetchInputs where
  openHeaders : Option ChainError
  openPeers : Option P2pError
  loadPeers : Option P2pError
  savePeers : List (Option P2pError)
  now : ℕ
  seeds : Except P2pError (List SocketAddr)
  scripts : SocketAddr → PeerScript
  insertions : SocketAddr → Insertions

structure GatewayProofProvider where
  preferredPeers : ℕ
  seedOnEmpty : Bool

/-- A call of `prove_name`, with everything it meets. The resolvers call it with the hash that they
    have found for the name. -/
structure ProveNameCall [Digests] where
  provider : GatewayProofProvider
  rootName : List Char
  nameHash : NameHash
  named : NameHash.fromName rootName = .ok nameHash
  first : CacheInputs
  fetch : FetchInputs
  second : CacheInputs

section

variable {S : Type} [HeaderStore S]

/-- `best_header`, with the error of the gateway. -/
def bestHeaderIn (s : GatewayStores S) : Except ResolverError (Option StoredHeader) :=
  (bestHeader s.headers).mapError fun e => .storage ("read best header: " ++ toString e)

def anchorIsRecentCanonical (openHeaders : Option ChainError) :
    Option ResourceValueAnchor → Shared S Bool
  | none => return false
  | some anchor => do
    settled (failing "open header store" openHeaders)
    match ← readStores bestHeaderIn with
    | none => return false
    | some best =>
      if anchor.height = 0 ∨ best.height < anchor.height then return false
      else if resourceProofCacheCanonicalWindow < best.height - anchor.height then return false
      else
        let header ← readStores fun s => .ok (canonicalHeader s.headers anchor.height)
        return header.any fun header => header.header.treeRoot = anchor.treeRoot

/-- `local_chain_is_stale_for_current_resolution` -/
def localChainIsStale (inputs : CacheInputs) : Shared S Bool := do
  settled (failing "open header store" inputs.openHeadersAgain)
  let best ← readStores bestHeaderIn
  settled (failing "open peer store" inputs.openPeers)
  settled (failing "load peer store" inputs.loadPeers)
  let peers ← readStores fun s => .ok s.peers.loadManager
  let currentness := LocalChainCurrentness.new (best.map StoredHeader.height)
    (bestPeerHeight peers) (estimatedMainnetTipHeight inputs.now)
  return currentness.stale.getD false

/-- Only when there is no value the chain has to be current. -/
def isStaleFor (inputs : CacheInputs) (value : Option (List UInt8)) : Shared S Bool :=
  if value.isNone then localChainIsStale inputs else pure false

/-- `best_synced_header` -/
def bestSyncedHeader (openHeaders : Option ChainError) : Shared S StoredHeader := do
  settled (failing "open header store" openHeaders)
  match ← readStores bestHeaderIn with
  | none => throw .proofUnavailable
  | some best => if best.height = 0 then throw .proofUnavailable else return best

/-- `save_manager`, a peer at a time. -/
def savePeerStates : List (Option P2pError) → List PeerState → Shared S Unit
  | _, [] => return ()
  | fault, peer :: peers => do
    settled (failing "save peer store" fault.head?.join)
    changeStores fun s => (.ok (), { s with peers := s.peers.savePeer peer })
    savePeerStates fault.tail peers

variable [Digests]

def cachedRecords (inputs : CacheInputs) (rootName : List Char) (nameHash : NameHash) :
    Shared S ProvenNameRecords := do
  let verified ← readStores fun s => s.values.proveResourceValue inputs.values rootName nameHash
  if verified.rootName ≠ rootName ∨ verified.nameHash ≠ nameHash ∨ !verified.secure then
    throw .proofNameMismatch
  else
    let recent ← anchorIsRecentCanonical inputs.openHeaders verified.anchor
    if !recent then throw .proofUnavailable
    else
      let stale ← isStaleFor inputs verified.value
      if stale then throw .localChainNotCurrent
      else settled (ProvenNameRecords.fromVerifiedResourceValue verified)

/-- The loop of `fetch_and_store_live_proof` over the peers that are selected. -/
def fetchLoop (inputs : FetchInputs) (rootName : List Char) (nameHash : NameHash)
    (best : StoredHeader) : List SocketAddr → PeerManager → Shared S Unit
  | [], peers => do
    savePeerStates inputs.savePeers peers.peers
    throw .proofUnavailable
  | address :: selected, peers => do
    let outcome ← changeStores fun s =>
      let (outcome, values) := fetchFromPeer (inputs.scripts address) (inputs.insertions address)
        rootName nameHash best.header.treeRoot best.height s.values
      (.ok outcome, { s with values })
    match outcome with
    | .ok remoteHeight =>
      savePeerStates inputs.savePeers (peers.recordSuccess address remoteHeight inputs.now).peers
    | .error _ =>
      fetchLoop inputs rootName nameHash best selected (peers.recordTransientFailure address)

def fetchAndStoreLiveProof (provider : GatewayProofProvider) (inputs : FetchInputs)
    (rootName : List Char) (nameHash : NameHash) : Shared S Unit := do
  let best ← bestSyncedHeader inputs.openHeaders
  settled (failing "open peer store" inputs.openPeers)
  settled (failing "load peer store" inputs.loadPeers)
  let loaded ← readStores fun s => .ok s.peers.loadManager
  let peers :=
    if provider.seedOnEmpty ∧ loaded.peers = [] then
      match inputs.seeds with
      | .ok addresses => loaded.seed addresses
      | .error _ => loaded
    else loaded
  -- Without a peer that is selected the loop ends at once.
  fetchLoop inputs rootName nameHash best
    (selectLiveProofPeers peers provider.preferredPeers inputs.now best.height) peers

/-- `prove_name` -/
def proveName (call : ProveNameCall) : Shared S ProvenNameRecords := ExceptT.mk do
  match ← (cachedRecords call.first call.rootName call.nameHash).run with
  | .ok records => return .ok records
  | .error .proofUnavailable =>
    (do
      fetchAndStoreLiveProof call.provider call.fetch call.rootName call.nameHash
      cachedRecords call.second call.rootName call.nameHash).run
  | .error e => return .error e

end

end Hns
