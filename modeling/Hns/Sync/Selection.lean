import Hns.Lib.Leaders
import Hns.Sync.Racing

/-!
# The selection of peers

`select_outbound` and `select_discovery_outbound`: peers that may be tried, in an
order, first one of each address group and then any others. The two loops take
the leaders of the groups and then the followers (`selectBy_eq`).

* `selectOutbound_spec`: the peers selected are distinct, as many as are asked for,
  of as many groups as can be, and the best ones of their groups; the order in
  which the peers are kept does not matter. The orders are total, as addresses
  are compared last (`compareOutbound_eq`, `compareDiscovery_eq`).
-/

namespace Hns

open Leaders

namespace PeerManager

/-- The order of `select_discovery_outbound`: few successes first, then low scores, old connections,
    great heights and low addresses. -/
def compareDiscovery (left right : PeerState) : Ordering :=
  ((((Ord.compare left.successes right.successes).then (Ord.compare left.score right.score)).then
    (Ord.compare left.lastConnectedAt right.lastConnectedAt)).then
    (Ord.compare right.lastHeight left.lastHeight)).then (left.address.compare right.address)

/-- The peers that may be selected. -/
def eligible (manager : PeerManager) (now : ℕ) (exclude : List SocketAddr) : List PeerState :=
  manager.peers.filter fun peer => !peer.isBanned now && peer.address ∉ exclude

/-- The body of `select_outbound` and of `select_discovery_outbound`. -/
def selectBy (compare : PeerState → PeerState → Ordering) (peers : List PeerState)
    (preferredCount : ℕ) : List SocketAddr :=
  let peers := peers.insertionSort fun left right => (compare left right).isLE
  selectOthers preferredCount peers (selectGroups preferredCount peers [] [])

def selectDiscoveryOutbound (manager : PeerManager) (preferredCount now : ℕ)
    (exclude : List SocketAddr) : List SocketAddr :=
  selectBy compareDiscovery (manager.eligible now exclude) preferredCount

theorem selectOutbound_eq (manager : PeerManager) (preferredCount now : ℕ) :
    manager.selectOutbound preferredCount now =
      selectBy compareOutbound (manager.eligible now []) preferredCount := by
  rw [eligible, selectOutbound, selectBy]
  simp

end PeerManager

/-! ## The orders -/

section Orders

open Std

/-- An address as a number, with its family and its port. -/
def SocketAddr.key (address : SocketAddr) : ℕ × ℕ × UInt16 :=
  match address.ip with
  | .v4 octets => (0, octets.value, address.port)
  | .v6 octets => (1, octets.value, address.port)

theorem SocketAddr.key_injective : Function.Injective SocketAddr.key := by
  rintro ⟨ip, port⟩ ⟨ip', port'⟩ h
  cases ip <;> cases ip' <;> simp only [key, Prod.mk.injEq] at h <;> obtain ⟨hip, hvalue, rfl⟩ := h
  · rw [Octets.value_injective hvalue]
  · cases hip
  · cases hip
  · rw [Octets.value_injective hvalue]

theorem SocketAddr.compare_eq (a b : SocketAddr) :
    a.compare b = compareLex (compareOn fun a => (key a).1)
      (compareLex (compareOn fun a => (key a).2.1) (compareOn fun a => (key a).2.2)) a b := by
  obtain ⟨ip, port⟩ := a
  obtain ⟨ip', port'⟩ := b
  cases ip <;> cases ip' <;> rfl

instance : Ord SocketAddr := ⟨SocketAddr.compare⟩

instance : TransOrd SocketAddr := by
  unfold TransOrd
  rw [show (Ord.compare : SocketAddr → SocketAddr → Ordering) = _ from
    funext₂ SocketAddr.compare_eq]
  infer_instance

instance : LawfulEqOrd SocketAddr where
  eq_of_compare {a b} h := by
    rw [show Ord.compare a b = a.compare b from rfl, SocketAddr.compare_eq, compareLex_eq_eq,
      compareLex_eq_eq] at h
    exact SocketAddr.key_injective (Prod.ext (LawfulEqOrd.eq_of_compare h.1)
      (Prod.ext (LawfulEqOrd.eq_of_compare h.2.1) (LawfulEqOrd.eq_of_compare h.2.2)))

/-- A comparison of peers that is total, and compares addresses in the end. -/
structure TotalComparison (compare : PeerState → PeerState → Ordering) : Prop where
  trans : TransCmp compare
  address_eq {left right : PeerState} (h : compare left right = .eq) : left.address = right.address

theorem compareOutbound_total : TotalComparison PeerManager.compareOutbound where
  trans := inferInstanceAs (TransCmp (compareLex (compareLex (compareOn PeerState.score)
    fun left right => compareOn PeerState.lastHeight right left) (compareOn PeerState.address)))
  address_eq h := LawfulEqOrd.eq_of_compare (Ordering.then_eq_eq.1 h).2

theorem compareDiscovery_total : TotalComparison PeerManager.compareDiscovery where
  trans := inferInstanceAs (TransCmp (compareLex (compareLex (compareLex (compareLex
    (compareOn PeerState.successes) (compareOn PeerState.score))
    (compareOn PeerState.lastConnectedAt))
    fun left right => compareOn PeerState.lastHeight right left) (compareOn PeerState.address)))
  address_eq h := LawfulEqOrd.eq_of_compare (Ordering.then_eq_eq.1 h).2

end Orders

/-! ## The loops -/

/-- The group of the address of a peer. -/
abbrev PeerState.group (peer : PeerState) : PeerAddressGroup := .fromSocketAddr peer.address

namespace PeerManager

/-- The first loop selects leaders. -/
theorem selectGroups_eq (preferredCount : ℕ) (peers : List PeerState)
    (groups : List PeerAddressGroup) (selected : List SocketAddr) :
    selectGroups preferredCount peers groups selected =
      selected ++ ((leaders PeerState.group groups peers).take (preferredCount - selected.length)).map
        PeerState.address := by
  induction peers generalizing groups selected with
  | nil => simp [selectGroups, leaders]
  | cons peer peers ih =>
    rw [selectGroups, leaders]
    dsimp only
    by_cases hfull : preferredCount ≤ selected.length
    · rw [if_pos hfull, Nat.sub_eq_zero_of_le hfull]
      simp
    · rw [if_neg hfull]
      split_ifs with hgroup
      · exact ih groups selected
      · obtain ⟨room, hroom⟩ := Nat.exists_eq_add_of_lt (not_le.1 hfull)
        rw [ih, List.length_append, List.length_singleton, List.append_assoc,
          (by omega : preferredCount - selected.length = room + 1),
          (by omega : preferredCount - (selected.length + 1) = room), List.take_succ_cons]
        rfl

/-- The second loop selects what is not selected yet. -/
theorem selectOthers_eq (preferredCount : ℕ) {peers : List PeerState}
    (hnodup : (peers.map PeerState.address).Nodup) (selected : List SocketAddr) :
    selectOthers preferredCount peers selected =
      selected ++ ((peers.filter fun peer => peer.address ∉ selected).take
        (preferredCount - selected.length)).map PeerState.address := by
  induction peers generalizing selected with
  | nil => simp [selectOthers]
  | cons peer peers ih =>
    rw [List.map_cons, List.nodup_cons] at hnodup
    rw [selectOthers]
    by_cases hfull : preferredCount ≤ selected.length
    · rw [if_pos hfull, Nat.sub_eq_zero_of_le hfull]
      simp
    · rw [if_neg hfull]
      split_ifs with hmem
      · rw [ih hnodup.2, List.filter_cons_of_neg (by simpa using hmem)]
      · obtain ⟨room, hroom⟩ := Nat.exists_eq_add_of_lt (not_le.1 hfull)
        -- The address that is added is none of those to come.
        have hfilter : peers.filter (fun p => p.address ∉ selected ++ [peer.address]) =
            peers.filter fun p => p.address ∉ selected := by
          refine List.filter_congr fun p hp => ?_
          have hne : p.address ≠ peer.address := fun heq =>
            hnodup.1 (heq ▸ List.mem_map_of_mem hp)
          simp [hne]
        rw [ih hnodup.2, hfilter, List.filter_cons_of_pos (by simpa using hmem),
          List.length_append, List.length_singleton, List.append_assoc,
          (by omega : preferredCount - selected.length = room + 1),
          (by omega : preferredCount - (selected.length + 1) = room), List.take_succ_cons]
        rfl

/-- The followers are the peers that are not leaders. -/
theorem followers_eq_filter {peers : List PeerState}
    (hnodup : (peers.map PeerState.address).Nodup) (groups : List PeerAddressGroup) :
    followers PeerState.group groups peers = peers.filter fun peer =>
      peer.address ∉ (leaders PeerState.group groups peers).map PeerState.address := by
  induction peers generalizing groups with
  | nil => rfl
  | cons peer peers ih =>
    rw [List.map_cons, List.nodup_cons] at hnodup
    have hsub (groups : List PeerAddressGroup) :
        peer.address ∉ (leaders PeerState.group groups peers).map PeerState.address := fun hmem =>
      hnodup.1 (List.map_subset _ (fun _ h =>
        (leaders_append_followers_perm groups peers).subset (List.mem_append_left _ h)) hmem)
    rw [followers, leaders]
    split_ifs with hgroup
    · rw [ih hnodup.2, List.filter_cons_of_pos (by simpa using hsub groups)]
    · rw [ih hnodup.2, List.filter_cons_of_neg (by simp)]
      refine List.filter_congr fun p hp => ?_
      have hne : p.address ≠ peer.address := fun heq => hnodup.1 (heq ▸ List.mem_map_of_mem hp)
      simp [hne]

/-- The two loops select leaders, and then followers. -/
theorem selectBy_eq (compare : PeerState → PeerState → Ordering) {peers : List PeerState}
    (hnodup : (peers.map PeerState.address).Nodup) (preferredCount : ℕ) :
    selectBy compare peers preferredCount =
      (diverse PeerState.group preferredCount (peers.insertionSort fun left right =>
        (compare left right).isLE)).map PeerState.address := by
  rw [selectBy]
  have hperm := List.perm_insertionSort (fun left right => (compare left right).isLE) peers
  generalize peers.insertionSort (fun left right => (compare left right).isLE) = sorted at hperm
  have hnodup' : (sorted.map PeerState.address).Nodup :=
    (hperm.map PeerState.address).nodup_iff.2 hnodup
  rw [selectGroups_eq, selectOthers_eq preferredCount hnodup', diverse, List.nil_append,
    List.length_nil, Nat.sub_zero, List.take_append, List.map_append, List.length_map,
    List.length_take]
  rcases le_total preferredCount (leaders PeerState.group [] sorted).length with hle | hle
  · rw [min_eq_left hle, Nat.sub_self, Nat.sub_eq_zero_of_le hle, List.take_zero, List.take_zero]
  · rw [min_eq_right hle, List.take_of_length_le hle, followers_eq_filter hnodup']

end PeerManager

/-! ## The selection -/

/-- What is asked of a selection among some peers, for an order of them. -/
structure DiverseSelection (compare : PeerState → PeerState → Ordering) (peers : List PeerState)
    (count : ℕ) (selected : List SocketAddr) : Prop where
  nodup : selected.Nodup
  mem {address : SocketAddr} (h : address ∈ selected) : ∃ peer ∈ peers, peer.address = address
  length : selected.length = min count peers.length
  groups : (selected.map PeerAddressGroup.fromSocketAddr).toFinset.card =
    min count (peers.map PeerState.group).toFinset.card
  /-- The first address of a group is that of its best peer. -/
  first {peer peer' : PeerState} {before after : List SocketAddr}
    (h : selected = before ++ peer.address :: after) (hpeer : peer ∈ peers)
    (hfirst : ∀ address ∈ before, PeerAddressGroup.fromSocketAddr address ≠ peer.group)
    (hpeer' : peer' ∈ peers) (hgroup : peer'.group = peer.group) :
    (compare peer peer').isLE
  /-- A peer is not passed over for another one of its group that is worse. -/
  fair {peer peer' : PeerState} (hpeer : peer ∈ peers) (h : peer.address ∈ selected)
    (hpeer' : peer' ∈ peers) (hgroup : peer'.group = peer.group) :
    peer'.address ∈ selected ∨ (compare peer peer').isLE

section

variable {compare : PeerState → PeerState → Ordering} (hcompare : TotalComparison compare)

include hcompare

theorem TotalComparison.total :
    Std.Total fun left right : PeerState => ((compare left right).isLE : Prop) := by
  have := hcompare.trans
  refine ⟨fun left right => ?_⟩
  have hswap : (compare left right).isGE ↔ (compare right left).isLE :=
    Std.OrientedCmp.isGE_iff_isLE
  rw [← hswap]
  cases compare left right <;> simp

theorem TotalComparison.isTrans :
    IsTrans PeerState fun left right : PeerState => ((compare left right).isLE : Prop) := by
  have := hcompare.trans
  exact ⟨fun _ _ _ => Std.TransCmp.isLE_trans⟩

/-- The selection, for a total comparison. -/
theorem diverseSelection {peers : List PeerState}
    (hnodup : (peers.map PeerState.address).Nodup) (count : ℕ) :
    DiverseSelection compare peers count (PeerManager.selectBy compare peers count) := by
  have htotal := hcompare.total
  have htrans := hcompare.isTrans
  rw [PeerManager.selectBy_eq compare hnodup]
  have hperm := List.perm_insertionSort (fun left right => (compare left right).isLE) peers
  have hsorted := List.pairwise_insertionSort
    (fun left right : PeerState => ((compare left right).isLE : Prop)) peers
  generalize peers.insertionSort (fun left right => (compare left right).isLE) = sorted at *
  have hnodup' : (sorted.map PeerState.address).Nodup :=
    (hperm.map PeerState.address).nodup_iff.2 hnodup
  -- A peer that may be selected is known by its address.
  have hsame {peer peer' : PeerState} (h : peer ∈ sorted) (h' : peer' ∈ peers)
      (heq : peer.address = peer'.address) : peer = peer' :=
    List.inj_on_of_nodup_map hnodup' h (hperm.mem_iff.2 h') heq
  -- An address that is selected is that of a peer that is selected.
  have hchosen {peer : PeerState} (hpeer : peer ∈ peers)
      (h : peer.address ∈ (diverse PeerState.group count sorted).map PeerState.address) :
      peer ∈ diverse PeerState.group count sorted := by
    obtain ⟨chosen, hmem, heq⟩ := List.mem_map.1 h
    exact hsame (diverse_subset _ _ _ hmem) hpeer heq ▸ hmem
  refine ⟨nodup_map_diverse hnodup', fun h => ?_, ?_, ?_, ?_, ?_⟩
  · obtain ⟨peer, hpeer, heq⟩ := List.mem_map.1 h
    exact ⟨peer, hperm.mem_iff.1 (diverse_subset _ _ _ hpeer), heq⟩
  · rw [List.length_map, length_diverse, hperm.length_eq]
  · rw [List.map_map, ← List.toFinset_eq_of_perm _ _ (hperm.map PeerState.group)]
    exact card_groups_diverse PeerState.group count sorted
  · intro peer peer' before after h hpeer hfirst hpeer' hgroup
    obtain ⟨front, back, heq, rfl, hback⟩ := List.map_eq_append_iff.1 h
    obtain ⟨chosen, rest, rfl, haddress, -⟩ := List.map_eq_cons_iff.1 hback
    have hmem : chosen ∈ sorted :=
      diverse_subset _ _ _ (heq ▸ List.mem_append_right _ List.mem_cons_self)
    obtain rfl := hsame hmem hpeer haddress
    exact rel_of_first hsorted heq (fun p hp => hfirst _ (List.mem_map_of_mem hp))
      (hperm.mem_iff.2 hpeer') hgroup
  · intro peer peer' hpeer h hpeer' hgroup
    rcases mem_diverse_or hsorted (hchosen hpeer h) (hperm.mem_iff.2 hpeer') hgroup with hmem | hle
    · exact .inl (List.mem_map_of_mem hmem)
    · exact .inr hle

/-- The selection does not depend on the order in which the peers are kept. -/
theorem selectBy_eq_of_perm {peers peers' : List PeerState}
    (hnodup : (peers.map PeerState.address).Nodup) (hperm : peers.Perm peers') (count : ℕ) :
    PeerManager.selectBy compare peers' count = PeerManager.selectBy compare peers count := by
  have htotal := hcompare.total
  have htrans := hcompare.isTrans
  have horiented := hcompare.trans.toOrientedCmp
  have heq : peers.insertionSort (fun left right => (compare left right).isLE) =
      peers'.insertionSort fun left right => (compare left right).isLE := by
    refine insertionSort_eq_of_perm (fun left hleft right hright hle hge => ?_) hperm
    have heq : compare left right = .eq := Std.OrientedCmp.isLE_antisymm hle hge
    exact List.inj_on_of_nodup_map hnodup hleft hright (hcompare.address_eq heq)
  rw [PeerManager.selectBy, PeerManager.selectBy, heq]

end

theorem PeerManager.nodup_eligible (manager : PeerManager) (now : ℕ)
    (exclude : List SocketAddr) :
    ((manager.eligible now exclude).map PeerState.address).Nodup :=
  manager.nodup.sublist (List.filter_sublist.map _)

/-- Both selections are diverse and fair, among the peers that are neither banned nor excluded, and
    do not depend on the order in which the peers are kept. -/
theorem selectOutbound_spec (manager : PeerManager) (count now : ℕ) (exclude : List SocketAddr) :
    DiverseSelection PeerManager.compareOutbound
        (manager.peers.filter fun peer => !peer.isBanned now) count
        (manager.selectOutbound count now) ∧
      DiverseSelection PeerManager.compareDiscovery
        (manager.peers.filter fun peer => !peer.isBanned now && peer.address ∉ exclude) count
        (manager.selectDiscoveryOutbound count now exclude) ∧
      ∀ manager' : PeerManager, manager.peers.Perm manager'.peers →
        manager'.selectOutbound count now = manager.selectOutbound count now ∧
          manager'.selectDiscoveryOutbound count now exclude =
            manager.selectDiscoveryOutbound count now exclude := by
  refine ⟨?_, ?_, fun manager' hperm => ⟨?_, ?_⟩⟩
  · have h := diverseSelection compareOutbound_total (manager.nodup_eligible now []) count
    rw [← PeerManager.selectOutbound_eq, PeerManager.eligible] at h
    simpa using h
  · exact diverseSelection compareDiscovery_total (manager.nodup_eligible now exclude) count
  · rw [PeerManager.selectOutbound_eq, PeerManager.selectOutbound_eq]
    exact selectBy_eq_of_perm compareOutbound_total (manager.nodup_eligible now [])
      (hperm.filter _) count
  · exact selectBy_eq_of_perm compareDiscovery_total (manager.nodup_eligible now exclude)
      (hperm.filter _) count

end Hns
