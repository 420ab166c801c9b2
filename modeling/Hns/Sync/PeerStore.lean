import Hns.Sync.Discovery

/-!
# The store of peers

`SqlitePeerStore` of `hns-p2p`. The peers of a manager are saved one by one, and
not in a transaction: a save that fails has saved some of them, and what others
have saved in the meantime stays for every other peer. A row is taken with the
values of its texts.

* `get_savePeers`: what is saved of some peers;
* `get_loadManager_saveManager`: what is loaded after a manager has been saved.
-/

namespace Hns

/-- `row_to_peer_state`: a ban without an end is forgotten. -/
def PeerState.loaded (peer : PeerState) : PeerState :=
  { peer with bannedUntil := peer.bannedUntil.filter fun bannedUntil => bannedUntil ≠ 2 ^ 64 - 1 }

namespace PeerManager

/-- `save_peer`, in a table with a row for each address. -/
def savePeer (table : PeerManager) (peer : PeerState) : PeerManager where
  peers := peer :: table.peers.filter fun row => row.address ≠ peer.address
  nodup := by
    rw [List.map_cons, List.nodup_cons]
    refine ⟨fun hmem => ?_, table.nodup.sublist (List.filter_sublist.map _)⟩
    obtain ⟨row, hrow, heq⟩ := List.mem_map.1 hmem
    exact of_decide_eq_true (List.mem_filter.1 hrow).2 heq

/-- The loop of `save_manager`, with the error that each statement ends in, if any. -/
def savePeers : List (Option P2pError) → List PeerState → PeerManager → ℕ →
    Except P2pError ℕ × PeerManager
  | _, [], table, saved => (.ok saved, table)
  | some error :: _, _ :: _, table, _ => (.error error, table)
  | none :: faults, peer :: peers, table, saved =>
    savePeers faults peers (table.savePeer peer) (saturatingAdd 64 saved 1)
  | [], peer :: peers, table, saved =>
    savePeers [] peers (table.savePeer peer) (saturatingAdd 64 saved 1)

def saveManager (faults : List (Option P2pError)) (table manager : PeerManager) :
    Except P2pError ℕ × PeerManager :=
  savePeers faults manager.peers table 0

def loadManager (table : PeerManager) : PeerManager where
  peers := table.peers.map PeerState.loaded
  nodup := by
    rw [List.map_map]
    exact table.nodup

/-! ## What is saved -/

variable {table manager : PeerManager} {peer : PeerState} {address : SocketAddr}

theorem get_eq_some_iff :
    manager.get address = some peer ↔ peer ∈ manager.peers ∧ peer.address = address := by
  rw [get]
  constructor
  · intro h
    exact ⟨List.mem_of_find?_eq_some h, by simpa using List.find?_some h⟩
  · rintro ⟨hmem, rfl⟩
    cases hfind : manager.peers.find? fun row => row.address = peer.address with
    | none => exact absurd (List.find?_eq_none.1 hfind peer hmem) (by simp)
    | some other =>
      have hsame : other.address = peer.address := by simpa using List.find?_some hfind
      exact congrArg some
        (List.inj_on_of_nodup_map manager.nodup (List.mem_of_find?_eq_some hfind) hmem hsame)

theorem get_savePeer (table : PeerManager) (peer : PeerState) (address : SocketAddr) :
    (table.savePeer peer).get address =
      if address = peer.address then some peer else table.get address := by
  refine Option.ext fun row => ?_
  rw [get_eq_some_iff, savePeer, List.mem_cons, List.mem_filter, decide_eq_true_eq]
  split_ifs with heq
  · subst heq
    constructor
    · rintro ⟨rfl | ⟨-, hne⟩, hsame⟩
      · rfl
      · exact absurd hsame hne
    · rintro ⟨⟩
      exact ⟨.inl rfl, rfl⟩
  · rw [get_eq_some_iff]
    constructor
    · rintro ⟨rfl | ⟨hmem, -⟩, rfl⟩
      · exact absurd rfl heq
      · exact ⟨hmem, rfl⟩
    · rintro ⟨hmem, rfl⟩
      exact ⟨.inr ⟨hmem, heq⟩, rfl⟩

/-- Some of the peers have been saved, and all of them unless a statement has failed. -/
theorem get_savePeers (faults : List (Option P2pError)) {peers : List PeerState}
    (hnodup : (peers.map PeerState.address).Nodup) (table : PeerManager) (saved : ℕ) :
    ∃ kept, kept <+: peers ∧
      ((savePeers faults peers table saved).1.isOk → kept = peers) ∧
      ∀ address, (savePeers faults peers table saved).2.get address =
        (kept.find? fun peer => peer.address = address).or (table.get address) := by
  induction peers generalizing faults table saved with
  | nil =>
    refine ⟨[], List.nil_prefix, fun _ => rfl, fun address => ?_⟩
    rw [savePeers]
    rfl
  | cons peer peers ih =>
    rw [List.map_cons, List.nodup_cons] at hnodup
    have hstep (faults : List (Option P2pError)) : ∃ kept, kept <+: peer :: peers ∧
        ((savePeers faults peers (table.savePeer peer) (saturatingAdd 64 saved 1)).1.isOk →
          kept = peer :: peers) ∧
        ∀ address, (savePeers faults peers (table.savePeer peer) (saturatingAdd 64 saved 1)).2.get
          address = (kept.find? fun peer => peer.address = address).or (table.get address) := by
      obtain ⟨kept, hleading, hall, hget⟩ :=
        ih faults hnodup.2 (table.savePeer peer) (saturatingAdd 64 saved 1)
      refine ⟨peer :: kept, List.cons_prefix_cons.2 ⟨rfl, hleading⟩,
        fun hok => congrArg _ (hall hok), fun address => ?_⟩
      rw [hget, get_savePeer, List.find?_cons]
      by_cases heq : peer.address = address
      · -- No other peer has the address.
        have hnone : kept.find? (fun row => row.address = address) = none := by
          rw [List.find?_eq_none]
          intro row hrow hsame
          refine hnodup.1 (List.mem_map.2 ⟨row, hleading.subset hrow, ?_⟩)
          rw [heq]
          simpa using hsame
        rw [hnone, if_pos heq.symm]
        simp [heq]
      · rw [if_neg (Ne.symm heq)]
        simp [heq]
    cases faults with
    | nil => exact hstep []
    | cons fault faults =>
      cases fault with
      | none => exact hstep faults
      | some error =>
        rw [savePeers]
        exact ⟨[], List.nil_prefix, fun hok => absurd hok Bool.false_ne_true, fun address => rfl⟩

theorem get_loadManager (table : PeerManager) (address : SocketAddr) :
    table.loadManager.get address = (table.get address).map PeerState.loaded := by
  refine Option.ext fun row => ?_
  rw [get_eq_some_iff, Option.map_eq_some_iff, loadManager, List.mem_map]
  constructor
  · rintro ⟨⟨peer, hpeer, rfl⟩, rfl⟩
    exact ⟨peer, get_eq_some_iff.2 ⟨hpeer, rfl⟩, rfl⟩
  · rintro ⟨peer, hpeer, rfl⟩
    obtain ⟨hmem, rfl⟩ := get_eq_some_iff.1 hpeer
    exact ⟨⟨peer, hmem, rfl⟩, rfl⟩

/-- What is loaded of an address after a manager has been saved: what the manager has, or what was
    there before, but for a ban without an end. When a save fails, this is so of each address or
    nothing has changed for it. -/
theorem get_loadManager_saveManager (faults : List (Option P2pError)) (table manager : PeerManager)
    (address : SocketAddr) :
    ((saveManager faults table manager).2.loadManager.get address =
        ((manager.get address).or (table.get address)).map PeerState.loaded ∨
      ¬(saveManager faults table manager).1.isOk ∧
        (saveManager faults table manager).2.loadManager.get address =
          table.loadManager.get address) ∧
      ∀ peer, (saveManager faults table manager).2.loadManager.get address = some peer →
        peer.bannedUntil ≠ some (2 ^ 64 - 1) := by
  obtain ⟨kept, hleading, hall, hget⟩ := get_savePeers faults manager.nodup table 0
  rw [saveManager, get_loadManager, get_loadManager, hget]
  refine ⟨?_, ?_⟩
  · by_cases hok : (savePeers faults manager.peers table 0).1.isOk
    · rw [hall hok]
      exact .inl rfl
    · cases hfind : kept.find? fun peer => peer.address = address with
      | none => exact .inr ⟨hok, rfl⟩
      | some peer =>
        have hmem := hleading.subset (List.mem_of_find?_eq_some hfind)
        have hpeer : manager.get address = some peer :=
          get_eq_some_iff.2 ⟨hmem, by simpa using List.find?_some hfind⟩
        rw [hpeer]
        exact .inl rfl
  · intro peer hpeer
    obtain ⟨row, -, rfl⟩ := Option.map_eq_some_iff.1 hpeer
    intro hban
    rw [PeerState.loaded, Option.filter_eq_some_iff] at hban
    exact of_decide_eq_true hban.2 rfl

end PeerManager

end Hns
