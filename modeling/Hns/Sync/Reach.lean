import Hns.Sync.Progress

/-!
# What a sync reaches

The rounds of `headerBatches` against an honest peer (`headerBatches_round`),
the run from a tip on the chain of the peer (`headerBatches_of_mem`) and from
any tip (`headerBatches_spec`).

* `syncPeer_reaches_iff`: a sync that succeeds has reached the work of the tip
  of the peer exactly when it was reached already or the first batch outweighs
  the tip.
-/

namespace Hns

open Except EStateM HeaderStore HeaderPeerClient

namespace PeerChain

variable [Digests] (c : PeerChain)

theorem getElem?_tip : c.blocks[c.entries.length]? = some c.tip := by
  rw [tip, ← List.getLast?_eq_some_getLast, List.getLast?_eq_getElem?]
  rfl

/-- The last header of a batch, by height. -/
theorem getElem?_last {start : ℕ} {batch : List StoredHeader}
    (hbatch : batch = (c.entries.drop start).take maxHeaders) {last : StoredHeader}
    (hlast : batch.getLast? = some last) :
    0 < batch.length ∧ c.blocks[start + batch.length]? = some last ∧
      (batch.length < maxHeaders → start + batch.length = c.entries.length) := by
  have hne : batch ≠ [] := fun hnil => by simp [hnil] at hlast
  have hpos := List.length_pos_iff.2 hne
  obtain ⟨n, hn⟩ := Nat.exists_eq_add_of_lt hpos
  rw [zero_add] at hn
  have hlength : batch.length = min maxHeaders (c.entries.length - start) := by
    rw [hbatch, List.length_take, List.length_drop]
  refine ⟨hpos, ?_, fun hlt => by omega⟩
  rw [List.getLast?_eq_getElem?, hn, Nat.add_sub_cancel, hbatch, List.getElem?_take_of_lt (by omega),
    List.getElem?_drop] at hlast
  rw [hn, blocks, ← Nat.add_assoc, List.getElem?_cons_succ, hlast]

theorem chainwork_lt {m n : ℕ} (h : m < n) {block block' : StoredHeader}
    (hm : c.blocks[m]? = some block) (hn : c.blocks[n]? = some block') :
    block.chainwork < block'.chainwork := by
  obtain ⟨hm', rfl⟩ := List.getElem?_eq_some_iff.1 hm
  obtain ⟨hn', rfl⟩ := List.getElem?_eq_some_iff.1 hn
  exact List.pairwise_iff_getElem.1 c.pairwise_chainwork m n hm' hn' h

end PeerChain

/-- A stored header of the hash of one of the chain is that one. -/
theorem PeerChain.get_of_ne_none [Digests] {t : ChainTree} (c : PeerChain) {tip : StoredHeader}
    (htip : t.tip = some tip) (hno : NoCollision t.headers c.entries) {n : ℕ}
    {block : StoredHeader} (h : c.blocks[n]? = some block) (hs : t.headers block.hash ≠ none) :
    t.headers block.hash = some block := by
  have hroot := t.valid.genesis_mem (ChainTree.tip_eq_some_iff.1 htip).2
  rcases List.mem_cons.1 (List.mem_of_getElem? h) with rfl | hmem
  · exact hroot
  · obtain ⟨old, new, hentries, hold, hgrows⟩ := c.split hroot hno
    rw [hentries] at hmem
    rcases List.mem_append.1 hmem with hmem | hmem
    · exact hold block hmem
    · exact absurd (hgrows.fresh block hmem) hs

theorem ChainTree.le_tip [Digests] {t : ChainTree} {tip : StoredHeader} (htip : t.tip = some tip)
    {hash : Hash} {stored : StoredHeader} (h : t.headers hash = some stored) :
    stored.chainwork ≤ tip.chainwork := by
  rcases t.tip_cases with ⟨-, hnone, -⟩ | ⟨tip', htip', -, -, hmax⟩
  · rw [htip] at hnone
    cases hnone
  · rw [htip, Option.some.injEq] at htip'
    exact htip' ▸ hmax _ _ h

/-- The locator of a store that represents a tree. -/
theorem Represents.locatorWithLimit_eq {S : Type} [HeaderStore S] [Digests] {s : S}
    {t : ChainTree} (h : Represents s t) {tip : StoredHeader} (htip : t.tip = some tip)
    (limit : ℕ) :
    locatorWithLimit s limit =
      .ok ((blockLocator t.headers tip limit).map StoredHeader.hash) := by
  have hget := h.getHeader_eq
  have hlocator := Hns.locatorWithLimit_eq (s := s) (hget ▸ t.valid)
    (hget ▸ (ChainTree.tip_eq_some_iff.1 htip).2)
    (h.bestHeader_eq.trans (congrArg Except.ok htip)) limit
  rwa [hget] at hlocator

section

variable {S : Type} [HeaderStore S] [LawfulHeaderStore S] [Digests] {P : Type}
  [HeaderPeerClient P] {c : PeerChain} {honest : P → Prop} (hhonest : HonestPeer c honest)
  {limit : ℕ} (runner : HeaderSyncRunner P) (address : SocketAddr) (now : ℕ)

include hhonest

/-- One round of the loop. -/
theorem headerBatches_round {s : S} {t : ChainTree} (h : Represents s t) {tip : StoredHeader}
    (htip : t.tip = some tip) (hno : NoCollision t.headers c.entries) {peer : P}
    (hpeer : honest peer) {batch : List StoredHeader}
    (hbatch : batch = c.follow ((blockLocator t.headers tip limit).map StoredHeader.hash))
    (batches accepted : ℕ) (best : Option StoredHeader) (peers : PeerManager) :
    (batch = [] ∧ headerBatches .mainnet limit runner address now (batches + 1) peer accepted best
        ⟨s, peers⟩ = .ok (.ok (accepted, best)) ⟨s, peers⟩) ∨
      ∃ last peer' accepted' s' t', batch.getLast? = some last ∧ honest peer' ∧
        Represents s' t' ∧ NoCollision t'.headers c.entries ∧ t.headers.Sub t'.headers ∧
        (∀ block ∈ batch, t'.headers block.hash = some block) ∧
        t'.tip = some (if tip.chainwork < last.chainwork then last else tip) ∧
        headerBatches .mainnet limit runner address now (batches + 1) peer accepted best
            ⟨s, peers⟩ =
          if batch.length < maxHeaders ∨ t.headers last.hash = some last then
            .ok (.ok (accepted', t'.tip)) ⟨s', peers⟩
          else headerBatches .mainnet limit runner address now batches peer' accepted' t'.tip
            ⟨s', peers⟩ := by
  have hmem := (ChainTree.tip_eq_some_iff.1 htip).2
  have hlocator := h.locatorWithLimit_eq htip limit
  obtain ⟨peer', hrequest, hpeer'⟩ := hhonest.requestHeaders hpeer
    ((blockLocator t.headers tip limit).map StoredHeader.hash) runner.config.stop
  rw [← hbatch] at hrequest
  rw [headerBatches, readsChain, reads_bind]
  dsimp only
  rw [hlocator, Except.mapError]
  dsimp only
  rw [hrequest]
  dsimp only
  cases hlast : batch.getLast? with
  | none =>
    rw [List.getLast?_eq_none_iff] at hlast
    refine .inl ⟨hlast, ?_⟩
    rw [hlast]
    rfl
  | some last =>
    have hne : batch ≠ [] := fun hnil => by simp [hnil] at hlast
    obtain ⟨block, hblock, hstored⟩ := c.start_spec (t.valid.genesis_mem hmem)
      ((blockLocator t.headers tip limit).map StoredHeader.hash) fun hash hmem' => by
        obtain ⟨stored, hs, rfl⟩ := List.mem_map.1 hmem'
        simp [(t.valid.of_mem_blockLocator hmem hs).1]
    obtain ⟨added, s', t', hingest, hrep, hno', hsub, hall, htip', hadded⟩ :=
      ingestHeaders_follow h htip c hno hblock hstored hbatch hlast
    refine .inr ⟨last, peer', saturatingAdd 64 accepted added, s', t', rfl, hpeer', hrep, hno', hsub,
      hall, htip', ?_⟩
    have htry : tryIngest .mainnet (batch.map StoredHeader.header) (⟨s, peers⟩ : SyncState S) =
        .ok (.ok ⟨added, t'.tip⟩) ⟨s', peers⟩ := by
      rw [tryIngest]
      dsimp only
      rw [hingest]
    rw [if_neg (by simpa using hne), bind_ok htry]
    dsimp only
    simp only [List.length_map, hadded]
    split_ifs <;> rfl

/-- From a tip on the chain of the peer, the loop gets to the tip of the peer. -/
theorem headerBatches_of_mem (hlimit : 0 < limit) {s : S} {t : ChainTree} (h : Represents s t)
    {tip : StoredHeader} (htip : t.tip = some tip) (hno : NoCollision t.headers c.entries) {n : ℕ}
    (hn : c.blocks[n]? = some tip) {batches : ℕ} (hbatches : c.entries.length ≤ n + batches)
    {peer : P} (hpeer : honest peer) (accepted : ℕ) (best : Option StoredHeader)
    (peers : PeerManager) :
    ∃ r s' t', headerBatches .mainnet limit runner address now batches peer accepted best
        ⟨s, peers⟩ = .ok (.ok r) ⟨s', peers⟩ ∧ Represents s' t' ∧ t'.tip = some c.tip := by
  have hlt : n < c.entries.length + 1 := by
    have := (List.getElem?_eq_some_iff.1 hn).1
    rwa [PeerChain.blocks, List.length_cons] at this
  have htop (heq : n = c.entries.length) : t.tip = some c.tip := by
    rw [heq, c.getElem?_tip] at hn
    rw [htip, hn]
  induction batches generalizing s t tip n peer accepted best with
  | zero => exact ⟨_, s, t, rfl, h, htop (by omega)⟩
  | succ batches ih =>
    obtain ⟨rest, hrest⟩ := blockLocator_eq_cons t.headers tip hlimit
    have hstart : c.start ((blockLocator t.headers tip limit).map StoredHeader.hash) = n := by
      rw [hrest]
      exact c.start_eq hn _
    rcases headerBatches_round hhonest runner address now h htip hno hpeer rfl batches accepted best
      peers with ⟨hnil, hrun⟩ | ⟨last, peer', accepted', s', t', hlast, hpeer', hrep, hno', -, -,
        htip', hrun⟩
    · refine ⟨_, s, t, hrun, h, htop ?_⟩
      have hlength := congrArg List.length hnil
      rw [PeerChain.follow, hstart, List.length_take, List.length_drop, maxHeaders] at hlength
      simp only [List.length_nil] at hlength
      omega
    · obtain ⟨hpos, hindex, hshort⟩ := c.getElem?_last (by rw [PeerChain.follow, hstart]) hlast
      have hlt := c.chainwork_lt (Nat.lt_add_of_pos_right hpos) hn hindex
      rw [if_pos hlt] at htip'
      have hnew : t.headers last.hash ≠ some last := fun hs =>
        (ChainTree.le_tip htip hs).not_gt hlt
      have hle := (List.getElem?_eq_some_iff.1 hindex).1
      rw [PeerChain.blocks, List.length_cons] at hle
      rw [hrun]
      split_ifs with hstop
      · refine ⟨_, s', t', rfl, hrep, ?_⟩
        rw [hshort (hstop.resolve_right hnew), c.getElem?_tip] at hindex
        rw [htip', ← hindex]
      · refine ih hrep htip' hno' hindex (by omega) hpeer' accepted' t'.tip hle fun heq => ?_
        rw [heq, c.getElem?_tip] at hindex
        rw [htip', ← hindex]

/-- What the loop reaches: the tip of the peer, when its first batch outweighs the tip there is. -/
theorem headerBatches_spec (hlimit : 0 < limit) {s : S} {t : ChainTree} (h : Represents s t)
    {tip : StoredHeader} (htip : t.tip = some tip) (hno : NoCollision t.headers c.entries)
    {batches : ℕ} (hbatches : c.entries.length ≤ batches) (hpos : 0 < batches) {peer : P}
    (hpeer : honest peer) (accepted : ℕ) (best : Option StoredHeader) (peers : PeerManager) :
    ∃ r s' t' tip', headerBatches .mainnet limit runner address now batches peer accepted best
        ⟨s, peers⟩ = .ok (.ok r) ⟨s', peers⟩ ∧ Represents s' t' ∧ t'.tip = some tip' ∧
      (c.tip.chainwork ≤ tip'.chainwork ↔
        c.tip.chainwork ≤ tip.chainwork ∨ c.Outweighs t.headers tip limit) := by
  obtain ⟨batches, rfl⟩ := Nat.exists_eq_add_of_le' hpos
  have hmem := (ChainTree.tip_eq_some_iff.1 htip).2
  obtain ⟨locator, hlocator⟩ : ∃ locator,
      locator = (blockLocator t.headers tip limit).map StoredHeader.hash := ⟨_, rfl⟩
  obtain ⟨batch, hbatch⟩ : ∃ batch, batch = c.follow locator := ⟨_, rfl⟩
  have houtweighs : c.Outweighs t.headers tip limit ↔
      ∃ last, batch.getLast? = some last ∧ tip.chainwork < last.chainwork := by
    rw [PeerChain.Outweighs, ← hlocator, ← hbatch]
  rw [houtweighs]
  rcases headerBatches_round hhonest runner address now h htip hno hpeer (hlocator ▸ hbatch) batches
    accepted best peers with ⟨hnil, hrun⟩ | ⟨last, peer', accepted', s', t', hlast, hpeer', hrep,
      hno', hsub, hall, htip', hrun⟩
  · -- The locator has the tip of the peer, which is stored.
    have hle : c.tip.chainwork ≤ tip.chainwork := by
      obtain ⟨block, hblock, hstored⟩ := c.start_spec (t.valid.genesis_mem hmem) locator
        fun hash hmem' => by
          rw [hlocator] at hmem'
          obtain ⟨stored, hs, rfl⟩ := List.mem_map.1 hmem'
          simp [(t.valid.of_mem_blockLocator hmem hs).1]
      have hend : block = c.tip := by
        rw [hbatch, PeerChain.follow, List.take_eq_nil_iff, List.drop_eq_nil_iff] at hnil
        have hle := (List.getElem?_eq_some_iff.1 hblock).1
        rw [PeerChain.blocks, List.length_cons] at hle
        have hstart : c.start locator = c.entries.length :=
          (Nat.le_of_lt_succ hle).antisymm (hnil.resolve_left (by decide))
        rw [hstart, c.getElem?_tip, Option.some.injEq] at hblock
        exact hblock.symm
      rw [hend] at hblock hstored
      exact ChainTree.le_tip htip (c.get_of_ne_none htip hno hblock hstored)
    exact ⟨_, s, t, tip, hrun, h, htip, iff_of_true hle (.inl hle)⟩
  · obtain ⟨hlength, hindex, hshort⟩ := c.getElem?_last (hbatch.trans rfl) hlast
    have hlast' (heq : batch.length < maxHeaders) : last = c.tip := by
      rw [hshort heq, c.getElem?_tip, Option.some.injEq] at hindex
      exact hindex.symm
    have hstays {x : ℕ} (hle : ¬tip.chainwork < last.chainwork) :
        x ≤ tip.chainwork ↔ x ≤ tip.chainwork ∨
          ∃ last, batch.getLast? = some last ∧ tip.chainwork < last.chainwork := by
      rw [hlast, or_iff_left]
      rintro ⟨_, ⟨⟩, hlt⟩
      exact hle hlt
    rw [hrun]
    by_cases hstop : batch.length < maxHeaders ∨ t.headers last.hash = some last
    · rw [if_pos hstop]
      refine ⟨_, s', t', _, rfl, hrep, htip', ?_⟩
      split_ifs with hlt
      · -- The tip has been moved to the last header, which was new.
        have hnew : t.headers last.hash ≠ some last := fun hs =>
          (ChainTree.le_tip htip hs).not_gt hlt
        rw [hlast' (hstop.resolve_right hnew)] at hlt ⊢
        exact iff_of_true le_rfl (.inr ⟨last, hlast, hlast' (hstop.resolve_right hnew) ▸ hlt⟩)
      · exact hstays hlt
    · rw [if_neg hstop]
      by_cases hlt : tip.chainwork < last.chainwork
      · rw [if_pos hlt] at htip'
        obtain ⟨r, s'', t'', hrun', hrep', htip''⟩ := headerBatches_of_mem hhonest runner address now
          hlimit hrep htip' hno' hindex
          (by omega : _ ≤ c.start locator + batch.length + batches) hpeer' accepted' t'.tip peers
        exact ⟨r, s'', t'', c.tip, hrun', hrep', htip'',
          iff_of_true le_rfl (.inr ⟨last, hlast, hlt⟩)⟩
      · -- The tip stays, and the batch is the same again.
        rw [if_neg hlt] at htip'
        cases batches with
        | zero => exact ⟨_, s', t', tip, rfl, hrep, htip', hstays hlt⟩
        | succ batches =>
          have hbatch' : batch =
              c.follow ((blockLocator t'.headers tip limit).map StoredHeader.hash) := by
            rw [t.valid.blockLocator_sub hmem hsub, ← hlocator, hbatch]
          rcases headerBatches_round hhonest runner address now hrep htip' hno' hpeer' hbatch'
            batches accepted' t'.tip peers with ⟨hnil, -⟩ | ⟨last', peer'', accepted'', s'', t'',
              hlast'', -, hrep', -, -, -, htip'', hrun'⟩
          · rw [hnil] at hlast
            cases hlast
          · rw [hlast, Option.some.injEq] at hlast''
            subst hlast''
            rw [if_neg hlt] at htip''
            rw [if_pos (.inr (hall last (List.mem_of_getLast? hlast)))] at hrun'
            exact ⟨_, s'', t'', tip, hrun', hrep', htip'', hstays hlt⟩

omit hhonest [HeaderStore S] [LawfulHeaderStore S] [Digests] [HeaderPeerClient P] in
/-- The end of a round leaves the chain. -/
theorem chain_of_finishSync {s s' : SyncState S} {outcome : HeaderPeerSyncOutcome}
    {height accepted : ℕ} {best : Option StoredHeader}
    (h : finishSync runner address now height accepted best s = .ok outcome s') :
    s'.chain = s.chain := by
  obtain ⟨_, s₁, hmodify, h⟩ := run_bind_eq_ok.1 h
  cases hmodify
  obtain ⟨_, s₂, hpersist, h⟩ := run_bind_eq_ok.1 h
  obtain ⟨-, rfl⟩ := reads_eq_ok.1 hpersist
  cases h
  rfl

omit hhonest [HeaderStore S] [LawfulHeaderStore S] [Digests] in
/-- Asking for addresses leaves the chain, and the peer as it is or as the question leaves it. -/
theorem discoverAddresses_cases {s s' : SyncState S} {peer peer' : P}
    (h : discoverAddresses runner peer s = .ok peer' s') :
    s'.chain = s.chain ∧ (peer' = peer ∨ peer' = (requestAddresses peer).state) := by
  rw [discoverAddresses] at h
  split_ifs at h
  · cases haddresses : requestAddresses peer with
    | ok discovered peer₁ =>
      rw [haddresses] at h
      obtain ⟨_, s₁, hmodify, h⟩ := run_bind_eq_ok.1 h
      cases hmodify
      obtain ⟨_, s₂, hpersist, h⟩ := run_bind_eq_ok.1 h
      obtain ⟨-, rfl⟩ := reads_eq_ok.1 hpersist
      cases h
      exact ⟨rfl, .inr rfl⟩
    | error e peer₁ =>
      rw [haddresses] at h
      cases h
      exact ⟨rfl, .inr rfl⟩
  · cases h
    exact ⟨rfl, .inl rfl⟩

omit [HeaderStore S] [LawfulHeaderStore S] in
theorem discoverAddresses_spec {s s' : SyncState S} {peer peer' : P} (hpeer : honest peer)
    (h : discoverAddresses runner peer s = .ok peer' s') : s'.chain = s.chain ∧ honest peer' := by
  obtain ⟨hchain, rfl | rfl⟩ := discoverAddresses_cases runner h
  · exact ⟨hchain, hpeer⟩
  · exact ⟨hchain, hhonest.requestAddresses hpeer⟩

/-- A sync with an honest peer succeeds, when the peer is connected to and the peers can be
    saved. -/
theorem exists_syncPeer (hlimit : 0 < limit)
    (hbatches : c.entries.length ≤ runner.config.maxHeaderBatchesPerPeer) {s : SyncState S}
    {t : ChainTree} (h : Represents s.chain t) {best : StoredHeader} (htip : t.tip = some best)
    (hheight : best.height < c.entries.length) (hno : NoCollision t.headers c.entries) {peer peer' : P}
    (hconnect : runner.connect address = .ok peer) (hpeer : honest peer) {height : ℕ}
    (hshake : handshake peer = .ok height peer') (hsave : ∀ peers, runner.saveManager peers = .ok ())
    (hdiscover : runner.config.discoverPeers = false) :
    ∃ result s' best', syncPeer .mainnet limit runner address now s = .ok (.success result) s' ∧
      bestHeader s'.chain = .ok (some best') ∧
      (c.tip.chainwork ≤ best'.chainwork ↔
        c.tip.chainwork ≤ best.chainwork ∨ c.Outweighs t.headers best limit) := by
  obtain ⟨rfl, hpeer'⟩ := hhonest.handshake hpeer hshake
  have hpersist (s : SyncState S) : persistPeerManager runner s = .ok () s :=
    reads_ok (by rw [hsave]; rfl)
  obtain ⟨r, chain, t', best', hloop, hrep', htip', hiff⟩ := headerBatches_spec hhonest runner
    address now hlimit h htip hno (hbatches.trans (le_max_left _ 1))
    (Nat.lt_of_lt_of_le one_pos (le_max_right _ 1)) hpeer' 0 (some best)
    (s.peers.recordObservedHeight address c.entries.length now)
  have hmodify (change : PeerManager → PeerManager) (s : SyncState S) :
      modifyPeers change s = .ok () { s with peers := change s.peers } := rfl
  have hread : readsChain bestHeader (⟨s.chain, s.peers.recordObservedHeight address
      c.entries.length now⟩ : SyncState S) = .ok (some best) _ :=
    reads_ok (by rw [h.bestHeader_eq, htip]; rfl)
  have hfinish (accepted : ℕ) (best : Option StoredHeader) (s : SyncState S) :
      finishSync runner address now c.entries.length accepted best s =
        .ok (.success ⟨address, c.entries.length, accepted, best⟩)
          { s with peers := s.peers.recordSuccess address c.entries.length now } := by
    rw [finishSync, bind_ok (hmodify _ s), bind_ok (hpersist _)]
    rfl
  have hrun : syncPeer .mainnet limit runner address now s =
      finishSync runner address now c.entries.length r.1 r.2
        ⟨chain, s.peers.recordObservedHeight address c.entries.length now⟩ := by
    rw [syncPeer, hconnect]
    dsimp only
    rw [hshake]
    dsimp only
    rw [bind_ok (hmodify _ s), bind_ok (hpersist _), discoverAddresses, hdiscover,
      if_neg Bool.false_ne_true, pure_bind, bind_ok hread, if_neg (by simpa using hheight),
      bind_ok hloop]
  rw [hfinish] at hrun
  exact ⟨_, _, best', hrun, hrep'.bestHeader_eq.trans (congrArg Except.ok htip'), hiff⟩

/-- A sync with an honest peer that is ahead, with no limit on its batches, reaches the work of the
    peer's tip exactly when it was reached before, or the first batch outweighs the best header. -/
theorem syncPeer_reaches_iff (hconnect : ∀ peer, runner.connect address = .ok peer → honest peer)
    (hlimit : 0 < limit) (hbatches : c.entries.length ≤ runner.config.maxHeaderBatchesPerPeer)
    {s s' : SyncState S} {t : ChainTree} (h : Represents s.chain t) {best : StoredHeader}
    (hbest : bestHeader s.chain = .ok (some best)) (hheight : best.height < c.entries.length)
    (hno : NoCollision (getHeader s.chain) c.entries) {result : HeaderPeerSyncResult}
    (hrun : syncPeer .mainnet limit runner address now s = .ok (.success result) s') :
    ∃ best', bestHeader s'.chain = .ok (some best') ∧
      (c.tip.chainwork ≤ best'.chainwork ↔
        c.tip.chainwork ≤ best.chainwork ∨ c.Outweighs (getHeader s.chain) best limit) := by
  have htip : t.tip = some best := Except.ok.inj (h.bestHeader_eq.symm.trans hbest)
  rw [syncPeer] at hrun
  cases hpeer : runner.connect address with
  | error e =>
    rw [hpeer] at hrun
    obtain ⟨_, _, -, hrun⟩ := run_bind_eq_ok.1 hrun
    cases hrun
  | ok peer =>
    rw [hpeer] at hrun
    dsimp only at hrun
    cases hshake : handshake peer with
    | error e peer' =>
      rw [hshake] at hrun
      obtain ⟨_, _, -, hrun⟩ := run_bind_eq_ok.1 hrun
      cases hrun
    | ok height peer' =>
      obtain ⟨rfl, hpeer'⟩ := hhonest.handshake (hconnect peer hpeer) hshake
      rw [hshake] at hrun
      obtain ⟨_, s₁, hmodify, hrun⟩ := run_bind_eq_ok.1 hrun
      cases hmodify
      obtain ⟨_, s₂, hpersist, hrun⟩ := run_bind_eq_ok.1 hrun
      obtain ⟨-, rfl⟩ := reads_eq_ok.1 hpersist
      obtain ⟨peer'', s₃, hdiscover, hrun⟩ := run_bind_eq_ok.1 hrun
      obtain ⟨hchain, hpeer''⟩ := discoverAddresses_spec hhonest runner hpeer' hdiscover
      obtain ⟨best', s₄, hread, hrun⟩ := run_bind_eq_ok.1 hrun
      obtain ⟨hread, rfl⟩ := reads_eq_ok.1 hread
      rw [hchain, hbest, Except.mapError, Except.ok.injEq] at hread
      subst hread
      rw [if_neg (by simpa using hheight)] at hrun
      have hrep : Represents s₄.chain t := by rwa [hchain]
      obtain ⟨r, chain, t', tip', hloop, hrep', htip', hiff⟩ := headerBatches_spec hhonest runner
        address now hlimit hrep htip (h.getHeader_eq ▸ hno) (hbatches.trans (le_max_left _ 1))
        (Nat.lt_of_lt_of_le one_pos (le_max_right _ 1)) hpeer'' 0 (some best) s₄.peers
      rw [bind_ok hloop] at hrun
      have hfinish := chain_of_finishSync runner address now hrun
      refine ⟨tip', ?_, ?_⟩
      · rw [hfinish, hrep'.bestHeader_eq, htip']
      · rw [hiff, h.getHeader_eq]

end

namespace Sample

theorem linked_entriesTo (n : ℕ) : (genesisEntry :: entriesTo true spaced n).IsChain
    fun a b => b.header.prevBlock = a.hash := by
  have hblocks : genesisEntry :: entriesTo true spaced n =
      (List.range (n + 1)).map (entryAt true spaced) := by
    rw [List.range_succ_eq_map, List.map_cons, List.map_map, entryAt_zero]
    rfl
  rw [hblocks, List.isChain_iff_getElem]
  intro i hi
  simp [entryAt, headerAt]

theorem bounded_entriesTo {n : ℕ} (hn : n < 2 ^ 31) :
    (entriesTo true spaced n).length < 2 ^ 32 - 1 := by
  rw [entriesTo, List.length_map, List.length_range]
  omega

/-- The chain of a peer with a block every ten minutes. -/
def peerChain {n : ℕ} (hn : n < 2 ^ 31) : PeerChain where
  entries := entriesTo true spaced n
  grows := grows_of_spaced hn
  linked := linked_entriesTo n
  bounded := bounded_entriesTo hn

/-- A peer that answers from its chain. -/
structure Serving (c : PeerChain) where

instance (c : PeerChain) : HeaderPeerClient (Serving c) where
  handshake := pure c.entries.length
  requestHeaders locator _ := pure ((c.follow locator).map StoredHeader.header)

theorem honestPeer_serving (c : PeerChain) : HonestPeer c fun _ : Serving c => True where
  handshake _ hs := by
    cases hs
    exact ⟨rfl, trivial⟩
  requestHeaders {peer} _ _ _ := ⟨peer, rfl, trivial⟩
  requestAddresses _ := trivial

/-- A runner that reaches the peer, with no limit on its batches. -/
def runner (c : PeerChain) : HeaderSyncRunner (Serving c) where
  connect _ := .ok ⟨⟩
  saveManager _ := .ok ()
  config :=
    { maxHeaderBatchesPerPeer := 2 ^ 64 - 1
      discoverPeers := false
      stop := .zero
      malformedBanSeconds := 86400 }

/-- `127.0.0.1:12038`. -/
def localAddress : SocketAddr := ⟨.v4 ⟨[127, 0, 0, 1], rfl⟩, 12038⟩

section

variable {n : ℕ} (hn : n < 2 ^ 31)

theorem entries_peerChain : (peerChain hn).entries = entriesTo true spaced n := rfl

theorem getElem?_peerChain {height : ℕ} (h : height ≤ n) :
    (peerChain hn).blocks[height]? = some (entryAt true spaced height) := by
  cases height with
  | zero => rw [PeerChain.blocks, List.getElem?_cons_zero, entryAt_zero]
  | succ height =>
    rw [PeerChain.blocks, List.getElem?_cons_succ, entries_peerChain, entriesTo, List.getElem?_map,
      List.getElem?_range (by omega)]
    rfl

theorem length_peerChain : (peerChain hn).entries.length = n := by
  rw [entries_peerChain, entriesTo, List.length_map, List.length_range]

/-- The batches are enough for the chain. -/
theorem length_le_batches :
    (peerChain hn).entries.length ≤ (runner (peerChain hn)).config.maxHeaderBatchesPerPeer := by
  rw [length_peerChain]
  exact hn.le.trans (by rw [runner]; norm_num)

theorem tip_peerChain : (peerChain hn).tip = entryAt true spaced n := by
  have htip := (peerChain hn).getElem?_tip
  rw [length_peerChain, getElem?_peerChain hn le_rfl, Option.some.injEq] at htip
  exact htip.symm

/-- A store with one chain, next to the peer's chain of other nonces: they share the genesis block,
    from where the first batch starts. -/
theorem exists_fork {m : ℕ} (hm : 0 < m) (hmn : m < n) :
    ∃ t : ChainTree, Reachable t.toStore ∧ t.tip = some (entryAt false spaced m) ∧
      NoCollision t.headers (peerChain hn).entries ∧
      ((peerChain hn).Outweighs t.headers (entryAt false spaced m) defaultLocatorLimit ↔
        m < maxHeaders) := by
  have hm' : m < 2 ^ 31 := hmn.trans hn
  obtain ⟨e, haccepted, hcandidate, hreach⟩ := exists_reachable hm' (grows_of_spaced hm') hm
  have hheaders : (ChainTree.genesis.extend e).headers = headersTo false spaced m :=
    congrArg ChainTree.genesis.headers.add haccepted
  have htip := tip_extend hm hcandidate
  have hstored {hash : Hash} {stored : StoredHeader}
      (h : (ChainTree.genesis.extend e).headers hash = some stored) :
      ∃ height ≤ m, stored = entryAt false spaced height := by
    rw [hheaders] at h
    rcases Table.insertAll_eq_some h with ⟨entry, hmem, -, rfl⟩ | h
    · obtain ⟨height, hlt, rfl⟩ := List.mem_map.1 hmem
      exact ⟨height + 1, List.mem_range.1 hlt, rfl⟩
    · rcases Table.insert_eq_some h with ⟨-, rfl⟩ | ⟨-, h⟩
      · exact ⟨0, Nat.zero_le m, (entryAt_zero _ _).symm⟩
      · cases h
  refine ⟨_, hreach, htip, ?_, ?_⟩
  · intro hash stored hs block hmem hhash
    obtain ⟨height, hle, rfl⟩ := hstored hs
    obtain ⟨height', hlt, rfl⟩ := List.mem_map.1 hmem
    rw [List.mem_range] at hlt
    have := height_eq_of_hash_eq (by omega) (by omega) hhash
    simp only [Bool.toNat_false, Bool.toNat_true] at this
    omega
  · obtain ⟨locator, hlocator⟩ : ∃ locator, locator =
        (blockLocator (ChainTree.genesis.extend e).headers (entryAt false spaced m)
          defaultLocatorLimit).map StoredHeader.hash := ⟨_, rfl⟩
    have hstart : (peerChain hn).start locator = 0 := by
      rw [PeerChain.start]
      cases hfind : locator.findSome? fun hash =>
        (peerChain hn).blocks.findIdx? fun block => block.hash = hash with
      | none => rfl
      | some index =>
        obtain ⟨hash, hmem, hindex⟩ := List.exists_of_findSome?_eq_some hfind
        obtain ⟨hlt, hhash, -⟩ := List.findIdx?_eq_some_iff_getElem.1 hindex
        rw [hlocator] at hmem
        obtain ⟨stored, hs, rfl⟩ := List.mem_map.1 hmem
        obtain ⟨height, hle, rfl⟩ := hstored
          ((ChainTree.genesis.extend e).valid.of_mem_blockLocator
            (ChainTree.tip_eq_some_iff.1 htip).2 hs).1
        have hle' : index ≤ n := by
          rw [PeerChain.blocks, List.length_cons, length_peerChain] at hlt
          omega
        have hblock := getElem?_peerChain hn hle'
        rw [List.getElem?_eq_getElem hlt, Option.some.injEq] at hblock
        rw [decide_eq_true_eq, hblock] at hhash
        have := height_eq_of_hash_eq (by omega) (by omega) hhash
        simp only [Bool.toNat_false, Bool.toNat_true] at this
        rw [Option.getD_some]
        omega
    have hbatch : (peerChain hn).follow locator =
        ((peerChain hn).entries.drop 0).take maxHeaders := by rw [PeerChain.follow, hstart]
    have hlength : ((peerChain hn).follow locator).length = min maxHeaders n := by
      rw [hbatch, List.length_take, List.drop_zero, length_peerChain]
    have hlast : ((peerChain hn).follow locator).getLast? =
        some (entryAt true spaced (min maxHeaders n)) := by
      cases hlast : ((peerChain hn).follow locator).getLast? with
      | none =>
        rw [List.getLast?_eq_none_iff.1 hlast, List.length_nil, maxHeaders] at hlength
        omega
      | some last =>
        obtain ⟨-, hindex, -⟩ := (peerChain hn).getElem?_last hbatch hlast
        rw [zero_add, hlength, getElem?_peerChain hn (min_le_right _ _)] at hindex
        exact hindex.symm
    rw [PeerChain.Outweighs, ← hlocator, hlast]
    simp only [Option.some.injEq, exists_eq_left']
    rw [entryAt, entryAt, Nat.mul_lt_mul_right blockWork_pos]
    omega

end

/-- A fork that leaves the genesis block, and is no longer than a batch, is overtaken. -/
theorem syncPeer_reaches_of_fork :
    ∃ (m : MemoryHeaderStore) (best best' : StoredHeader) (n : ℕ) (hn : n < 2 ^ 31)
      (result : HeaderPeerSyncResult) (s' : SyncState MemoryHeaderStore),
      bestHeader m = .ok (some best) ∧
        syncPeer .mainnet defaultLocatorLimit (runner (peerChain hn)) localAddress 0
          ⟨m, .empty⟩ = .ok (.success result) s' ∧
        best.chainwork < (peerChain hn).tip.chainwork ∧ bestHeader s'.chain = .ok (some best') ∧
        (peerChain hn).tip.chainwork ≤ best'.chainwork := by
  have hn : 3 < 2 ^ 31 := by norm_num
  obtain ⟨t, hreach, htip, hno, houtweighs⟩ := exists_fork hn (m := 2) (by norm_num) (by norm_num)
  have hrep : Represents t.toStore t := rfl
  have hbest := hrep.bestHeader_eq.trans (congrArg Except.ok htip)
  obtain ⟨result, s', -, hrun, -, -⟩ := exists_syncPeer (honestPeer_serving _)
    (runner (peerChain hn)) localAddress 0 (by decide : 0 < defaultLocatorLimit)
    (length_le_batches hn) (s := ⟨t.toStore, .empty⟩) hrep htip
    (by rw [length_peerChain]; decide) hno rfl trivial rfl (fun _ => rfl) rfl
  obtain ⟨best', hbest', hiff⟩ := syncPeer_reaches_iff (honestPeer_serving _)
    (runner (peerChain hn)) localAddress 0 (fun _ _ => trivial) (by decide)
    (length_le_batches hn) (s := ⟨t.toStore, .empty⟩) hrep hbest
    (by rw [length_peerChain]; decide) hno hrun
  refine ⟨t.toStore, _, best', 3, hn, result, s', hbest, hrun, ?_, hbest',
    hiff.2 (.inr (houtweighs.2 (by decide)))⟩
  rw [tip_peerChain]
  exact Nat.mul_lt_mul_of_pos_right (by norm_num) blockWork_pos

/-- A fork that leaves the genesis block, and is longer than a batch, is never overtaken: the sync
    succeeds, and the best header still has less work than the peer's tip. -/
theorem syncPeer_stalls_of_fork :
    ∃ (m : MemoryHeaderStore) (best best' : StoredHeader) (n : ℕ) (hn : n < 2 ^ 31)
      (result : HeaderPeerSyncResult) (s' : SyncState MemoryHeaderStore),
      Reachable m ∧ bestHeader m = .ok (some best) ∧
        best.height < (peerChain hn).entries.length ∧
        HonestPeer (peerChain hn) (fun _ : Serving (peerChain hn) => True) ∧
        syncPeer .mainnet defaultLocatorLimit (runner (peerChain hn)) localAddress 0
          ⟨m, .empty⟩ = .ok (.success result) s' ∧
        bestHeader s'.chain = .ok (some best') ∧
        best'.chainwork < (peerChain hn).tip.chainwork := by
  have hn : 2002 < 2 ^ 31 := by norm_num
  obtain ⟨t, hreach, htip, hno, houtweighs⟩ :=
    exists_fork hn (m := 2001) (by norm_num) (by norm_num)
  have hrep : Represents t.toStore t := rfl
  have hheight : (entryAt false spaced 2001).height < (peerChain hn).entries.length := by
    rw [length_peerChain]
    exact Nat.lt_succ_self 2001
  obtain ⟨result, s', best', hrun, hbest', hiff⟩ := exists_syncPeer (honestPeer_serving _)
    (runner (peerChain hn)) localAddress 0 (by decide : 0 < defaultLocatorLimit)
    (length_le_batches hn) (s := ⟨t.toStore, .empty⟩) hrep htip hheight hno rfl trivial rfl
    (fun _ => rfl) rfl
  refine ⟨t.toStore, _, best', 2002, hn, result, s', hreach,
    hrep.bestHeader_eq.trans (congrArg Except.ok htip), hheight, honestPeer_serving _, hrun, hbest',
    not_le.1 fun hle => ?_⟩
  rcases hiff.1 hle with hle | hout
  · rw [tip_peerChain] at hle
    exact absurd (Nat.le_of_mul_le_mul_right hle blockWork_pos) (by norm_num)
  · exact absurd (houtweighs.1 hout) (by decide)

end Sample

end Hns
