import Hns.Core.Address

/-!
# Peers

The `PeerManager` of `hns-p2p`: what is known of the peers, by address, and how
the outcome of a connection changes it. Scores, counters and times are machine
integers that saturate.
-/

namespace Hns

/-! ## Saturating integers -/

/-- `i32::saturating_add`. -/
def saturatingAdd32 (a b : ℤ) : ℤ := max (-2 ^ 31) (min (2 ^ 31 - 1) (a + b))

/-- `saturating_add` of the unsigned type of `width` bits. -/
def saturatingAdd (width a b : ℕ) : ℕ := min (2 ^ width - 1) (a + b)

/-! ## The peers -/

def banScore : ℤ := 100

def malformedScore : ℤ := 100

def staleTipScore : ℤ := 10

def transientFailureScore : ℤ := 5

def successReward : ℤ := 2

structure PeerState where
  address : SocketAddr
  score : ℤ
  lastHeight : ℕ
  lastConnectedAt : Option ℕ
  bannedUntil : Option ℕ
  successes : ℕ
  failures : ℕ
  deriving DecidableEq

/-- `PeerState::new`. -/
def PeerState.new (address : SocketAddr) : PeerState where
  address := address
  score := 0
  lastHeight := 0
  lastConnectedAt := none
  bannedUntil := none
  successes := 0
  failures := 0

/-- The peers of a manager, one for each address. -/
structure PeerManager where
  peers : List PeerState
  nodup : (peers.map PeerState.address).Nodup

namespace PeerManager

/-- `Default::default`. -/
def empty : PeerManager := ⟨[], List.nodup_nil⟩

def get (manager : PeerManager) (address : SocketAddr) : Option PeerState :=
  manager.peers.find? fun peer => peer.address = address

/-- `upsert`: the entry of an address, made if there is none. -/
def upsert (manager : PeerManager) (address : SocketAddr) : PeerManager :=
  if h : address ∈ manager.peers.map PeerState.address then manager
  else ⟨manager.peers ++ [.new address], by
    rw [List.map_append, List.nodup_append]
    refine ⟨manager.nodup, List.nodup_singleton _, ?_⟩
    rintro a ha b hb rfl
    rw [List.map_singleton, List.mem_singleton] at hb
    exact h ((show a = address from hb) ▸ ha)⟩

/-- A change of the entry of an address, which is made if there is none. -/
def modify (manager : PeerManager) (address : SocketAddr) (change : PeerState → PeerState)
    (hchange : ∀ peer, (change peer).address = peer.address) : PeerManager where
  peers := (manager.upsert address).peers.map fun peer =>
    if peer.address = address then change peer else peer
  nodup := by
    rw [List.map_map]
    refine (List.map_congr_left fun peer _ => ?_) ▸ (manager.upsert address).nodup
    rw [Function.comp_apply]
    split_ifs
    · exact (hchange peer).symm
    · rfl

/-- `seed`: entries for some addresses. -/
def seed (manager : PeerManager) (addresses : List SocketAddr) : PeerManager :=
  addresses.foldl upsert manager

def recordSuccess (manager : PeerManager) (address : SocketAddr) (height now : ℕ) : PeerManager :=
  manager.modify address (fun peer =>
    { peer with
      score := max (saturatingAdd32 peer.score (-successReward)) 0
      lastHeight := height
      lastConnectedAt := some now
      successes := saturatingAdd 32 peer.successes 1 }) fun _ => rfl

def recordObservedHeight (manager : PeerManager) (address : SocketAddr) (height now : ℕ) :
    PeerManager :=
  manager.modify address (fun peer =>
    { peer with lastHeight := height, lastConnectedAt := some now }) fun _ => rfl

def recordTransientFailure (manager : PeerManager) (address : SocketAddr) : PeerManager :=
  manager.modify address (fun peer =>
    { peer with
      score := saturatingAdd32 peer.score transientFailureScore
      failures := saturatingAdd 32 peer.failures 1 }) fun _ => rfl

/-- `penalize`: only a score that has reached the limit bans. -/
def penalize (manager : PeerManager) (address : SocketAddr) (score : ℤ)
    (bannedUntil : Option ℕ) : PeerManager :=
  manager.modify address (fun peer =>
    let score := saturatingAdd32 peer.score score
    { peer with
      score
      bannedUntil :=
        if banScore ≤ score ∧ bannedUntil.isSome then bannedUntil else peer.bannedUntil })
    fun _ => rfl

def recordStaleTip (manager : PeerManager) (address : SocketAddr) : PeerManager :=
  manager.penalize address staleTipScore none

def recordMalformed (manager : PeerManager) (address : SocketAddr) (now banSeconds : ℕ) :
    PeerManager :=
  manager.penalize address malformedScore (some (saturatingAdd 64 now banSeconds))

end PeerManager

end Hns
