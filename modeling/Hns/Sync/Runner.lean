import Hns.Resolver.Basic
import Hns.Sync.Locator
import Hns.Sync.Peers
import Hns.Sync.Session
import Hns.Urkel.Proof

/-!
# Header sync with a peer

`HeaderSyncRunner::sync_peer`: connect to a peer, and ask it for headers from
the locator of the chain on, batch after batch, for as long as the batches are
full and bring something new.

A coordinator is its chain, together with the limit of its locators, which no
method changes. A peer is taken together with the session it is handed, which
nothing else reads; its answers are those of a `HeaderPeerClient`.
-/

namespace Hns

open Except EStateM HeaderStore

/-! ## Errors and their texts -/

instance : ToString PowError where
  toString
    | .negativeTarget => "compact target is negative"
    | .zeroTarget => "compact target is zero"
    | .overflow => "compact target exceeds 256 bits"
    | .invalidChainworkHex => "chainwork hex is invalid"

/-- `{:#010x}`. -/
def UInt32.hex (n : UInt32) : String :=
  "0x" ++ String.ofList ((Nat.toDigits 16 n.toNat).leftpad 8 '0')

instance : ToString ChainError where
  toString
    | .invalidGenesisHeader => "mainnet genesis header is invalid"
    | .unknownParent => "header parent is unknown"
    | .duplicateHeader => "header already exists"
    | .missingBestHeader => "best header is missing from store"
    | .invalidDifficultyBits actual expected =>
      "header difficulty bits are invalid: got " ++ UInt32.hex actual ++ ", expected " ++
        UInt32.hex expected
    | .invalidDifficultyWindow => "header difficulty window is invalid"
    | .invalidProofOfWork => "header proof-of-work does not satisfy target"
    | .pow e => "proof-of-work target error: " ++ toString e
    | .storage message => "storage error: " ++ message

inductive SyncError
  | chain (error : ChainError)
  | p2p (error : P2pError)
  | proof (error : ProofError)
  | resolver (error : ResolverError)
  | unexpectedAction
  | unexpectedProof
  | proofMismatch
  | unverifiedProof
  | missingProofValue
  | malformedNameStateValue
  deriving DecidableEq

instance : ToString SyncError where
  toString
    | .chain e => "chain error: " ++ toString e
    | .p2p e => "p2p error: " ++ toString e
    | .proof e => "proof error: " ++ toString e
    | .resolver e => "resolver error: " ++ toString e
    | .unexpectedAction => "unexpected sync action"
    | .unexpectedProof => "proof response was not requested"
    | .proofMismatch => "proof payload does not match requested root or key"
    | .unverifiedProof => "proof verification failed"
    | .missingProofValue => "verified inclusion proof did not contain a resource value"
    | .malformedNameStateValue => "HSD name state value is malformed"

/-! ## Peers and their answers -/

/-- The trait `HeaderPeerClient`: the height of the remote version packet, headers, addresses. -/
class HeaderPeerClient (P : Type) where
  handshake : EStateM P2pError P ℕ
  requestHeaders : List Hash → Hash → EStateM P2pError P (List BlockHeader)
  requestAddresses : EStateM P2pError P (List SocketAddr) := pure []

open HeaderPeerClient

inductive HeaderPeerFailureStage
  | connect
  | handshake
  | headers
  | chain
  deriving DecidableEq

structure HeaderPeerFailure where
  address : SocketAddr
  stage : HeaderPeerFailureStage
  error : String
  deriving DecidableEq

structure HeaderPeerSyncResult where
  address : SocketAddr
  remoteHeight : ℕ
  accepted : ℕ
  best : Option StoredHeader
  deriving DecidableEq

inductive HeaderPeerSyncOutcome
  | success (result : HeaderPeerSyncResult)
  | failure (failure : HeaderPeerFailure)
  deriving DecidableEq

structure HeaderBatchResult where
  accepted : ℕ
  best : Option StoredHeader

structure HeaderSyncRunnerConfig where
  maxHeaderBatchesPerPeer : ℕ
  discoverPeers : Bool
  stop : Hash
  malformedBanSeconds : ℕ

/-- A runner, with its connector and the peer store (none: it always succeeds). -/
structure HeaderSyncRunner (P : Type) where
  connect : SocketAddr → Except P2pError P
  saveManager : PeerManager → Except P2pError Unit
  config : HeaderSyncRunnerConfig

/-- What a round changes. -/
structure SyncState (S : Type) where
  chain : S
  peers : PeerManager

def recordChainFailure (peers : PeerManager) (address : SocketAddr) (now : ℕ) (e : ChainError)
    (malformedBanSeconds : ℕ) : PeerManager :=
  match e with
  | .invalidGenesisHeader | .invalidDifficultyBits _ _ | .invalidDifficultyWindow
  | .invalidProofOfWork | .pow _ => peers.recordMalformed address now malformedBanSeconds
  | .unknownParent | .duplicateHeader => peers.recordStaleTip address
  | .missingBestHeader | .storage _ => peers.recordTransientFailure address

/-! ## The round -/

section

variable {S : Type} [HeaderStore S]

def modifyPeers (change : PeerManager → PeerManager) : EStateM SyncError (SyncState S) Unit :=
  modify fun s => { s with peers := change s.peers }

/-- What the chain allows to read. -/
def readsChain {α : Type} (f : S → Except ChainError α) : EStateM SyncError (SyncState S) α :=
  reads fun s => (f s.chain).mapError .chain

variable [Digests] (policy : DifficultyPolicy)

def ingestHeaders (headers : List BlockHeader) : EStateM ChainError S HeaderBatchResult := do
  let accepted := (← insertHeaders policy headers).length
  return { accepted, best := ← reads bestHeader }

/-- The outcome of `ingestHeaders` on the chain of a round. -/
def tryIngest (headers : List BlockHeader) :
    EStateM SyncError (SyncState S) (Except ChainError HeaderBatchResult) := fun s =>
  match ingestHeaders policy headers s.chain with
  | .ok batch chain => .ok (.ok batch) { s with chain }
  | .error e chain => .ok (.error e) { s with chain }

variable (locatorLimit : ℕ) {P : Type} [HeaderPeerClient P] (runner : HeaderSyncRunner P)
  (address : SocketAddr) (now : ℕ)

/-- `persist_peer_manager`. -/
def persistPeerManager : EStateM SyncError (SyncState S) Unit :=
  reads fun s => (runner.saveManager s.peers).mapError .p2p

/-- The addresses the peer knows of, if they are asked for. -/
def discoverAddresses (peer : P) : EStateM SyncError (SyncState S) P :=
  if runner.config.discoverPeers then
    match requestAddresses peer with
    | .error _ peer => pure peer
    | .ok discovered peer => do
      modifyPeers fun peers => peers.seed discovered
      persistPeerManager runner
      return peer
  else pure peer

/-- The loop of `sync_peer`, for the batches that are left. -/
def headerBatches : ℕ → P → ℕ → Option StoredHeader → EStateM SyncError (SyncState S)
    (Except HeaderPeerFailure (ℕ × Option StoredHeader))
  | 0, _, accepted, best => return .ok (accepted, best)
  | batches + 1, peer, accepted, best => do
    let locator ← readsChain fun s => locatorWithLimit s locatorLimit
    match requestHeaders locator runner.config.stop peer with
    | .error e _ =>
      modifyPeers fun peers => peers.recordTransientFailure address
      return .error ⟨address, .headers, toString e⟩
    | .ok headers peer =>
      if headers.isEmpty then return .ok (accepted, best)
      match ← tryIngest policy headers with
      | .ok batch =>
        let accepted := saturatingAdd 64 accepted batch.accepted
        if headers.length < maxHeaders ∨ batch.accepted = 0 then return .ok (accepted, batch.best)
        headerBatches batches peer accepted batch.best
      | .error e =>
        modifyPeers fun peers =>
          recordChainFailure peers address now e runner.config.malformedBanSeconds
        match e with
        | .storage _ | .missingBestHeader => throw (.chain e)
        | _ => return .error ⟨address, .chain, toString e⟩

/-- The end of a round that has not failed. -/
def finishSync (remoteHeight accepted : ℕ) (best : Option StoredHeader) :
    EStateM SyncError (SyncState S) HeaderPeerSyncOutcome := do
  modifyPeers fun peers => peers.recordSuccess address remoteHeight now
  persistPeerManager runner
  return .success { address, remoteHeight, accepted, best }

def syncPeer : EStateM SyncError (SyncState S) HeaderPeerSyncOutcome :=
  match runner.connect address with
  | .error e => do
    modifyPeers fun peers => peers.recordTransientFailure address
    return .failure ⟨address, .connect, toString e⟩
  | .ok peer =>
    match handshake peer with
    | .error e _ => do
      modifyPeers fun peers => peers.recordTransientFailure address
      return .failure ⟨address, .handshake, toString e⟩
    | .ok remoteHeight peer => do
      modifyPeers fun peers => peers.recordObservedHeight address remoteHeight now
      persistPeerManager runner
      let peer ← discoverAddresses runner peer
      let best ← readsChain bestHeader
      if best.any fun best => remoteHeight ≤ best.height then
        return ← finishSync runner address now remoteHeight 0 best
      match ← headerBatches policy locatorLimit runner address now
          (max runner.config.maxHeaderBatchesPerPeer 1) peer 0 best with
      | .error failure => return .failure failure
      | .ok (accepted, best) => finishSync runner address now remoteHeight accepted best

end

end Hns
