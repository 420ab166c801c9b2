import Hns.Sync.Runner
import Hns.Chain.Sample

/-!
# Syncing to the chain of an honest peer

An honest peer has a valid chain from the genesis block, and answers a locator
with the headers that follow the first of its hashes on that chain
(`PeerChain.follow`).

Once the tip is on the chain of the peer, every batch extends it, up to the tip
of the peer (`headerBatches_of_mem`). The first batch gets it there when its
last header has more work than the tip. When it has not, the tip stays, the
locator is the same again, and so is the second batch: it brings nothing new
and the loop ends.

* `syncPeer_reaches_iff`: a sync that succeeds has reached the work of the tip
  of the peer exactly when it was reached already or the first batch outweighs
  the tip.
-/

namespace Hns

open Except EStateM HeaderStore HeaderPeerClient

/-! ## The chain of a peer -/

/-- A valid chain from the genesis block: its other headers, each on the one before. -/
structure PeerChain [Digests] where
  entries : List StoredHeader
  grows : Grows .mainnet ChainTree.genesis.headers entries
  linked : (genesisEntry :: entries).IsChain fun a b => b.header.prevBlock = a.hash
  bounded : entries.length < 2 ^ 32 - 1

namespace PeerChain

variable [Digests] (c : PeerChain)

/-- All its headers, by height. -/
def blocks : List StoredHeader := genesisEntry :: c.entries

def tip : StoredHeader := (genesisEntry :: c.entries).getLast (List.cons_ne_nil _ _)

/-- The height of the first hash of a locator that is on the chain, or that of the genesis block
    if none is. -/
def start (locator : List Hash) : ℕ :=
  (locator.findSome? fun hash => c.blocks.findIdx? fun block => block.hash = hash).getD 0

/-- The answer to a locator. -/
def follow (locator : List Hash) : List StoredHeader :=
  (c.entries.drop (c.start locator)).take maxHeaders

/-- The answer to the locator for a tip ends with a header that has more work than the tip. -/
def Outweighs (known : Headers) (tip : StoredHeader) (limit : ℕ) : Prop :=
  ∃ last, (c.follow ((blockLocator known tip limit).map StoredHeader.hash)).getLast? = some last ∧
    tip.chainwork < last.chainwork

end PeerChain

/-- A predicate of peers that stays true of a peer, and makes it answer with the headers of a
    chain. -/
structure HonestPeer [Digests] {P : Type} [HeaderPeerClient P] (c : PeerChain)
    (honest : P → Prop) : Prop where
  handshake {peer peer' : P} {height : ℕ} (h : honest peer)
    (hs : handshake peer = .ok height peer') : height = c.entries.length ∧ honest peer'
  requestHeaders {peer : P} (h : honest peer) (locator : List Hash) (stop : Hash) :
    ∃ peer', requestHeaders locator stop peer =
      .ok ((c.follow locator).map StoredHeader.header) peer' ∧ honest peer'
  requestAddresses {peer : P} (h : honest peer) :
    honest (requestAddresses (P := P) peer).state

/-- Each header of an accepted chain is an entry on top of the one before. -/
theorem Grows.isChain_child [Digests] {known : Headers} {l : List StoredHeader}
    (h : Grows .mainnet known l) {first : StoredHeader} (hfirst : known first.hash = some first)
    (hlinked : (first :: l).IsChain fun a b => b.header.prevBlock = a.hash) :
    (first :: l).IsChain fun a b =>
      b.height ≤ a.height + 1 ∧ a.chainwork < b.chainwork := by
  induction h generalizing first with
  | nil => exact .singleton _
  | @cons known head rest haccept hfresh hgrows ih =>
    obtain ⟨hprev, hlinked⟩ := List.isChain_cons_cons.1 hlinked
    refine List.isChain_cons_cons.2 ⟨?_, ih (Table.insert_self ..) hlinked⟩
    obtain ⟨parent, work, hparent, -, -, hwork, hhead⟩ := accept_eq_ok.1 haccept
    rw [hprev, hfirst, Option.some.injEq] at hparent
    rw [hhead, hparent, StoredHeader.child]
    exact ⟨Nat.mod_le _ _, Nat.lt_add_of_pos_right (fromBits_pos hwork)⟩

namespace PeerChain

variable [Digests] (c : PeerChain)

theorem isChain : c.blocks.IsChain fun a b =>
    b.height ≤ a.height + 1 ∧ a.chainwork < b.chainwork :=
  c.grows.isChain_child ChainTree.genesis_apply c.linked

/-- The work grows along the chain. -/
theorem pairwise_chainwork : c.blocks.Pairwise fun a b => a.chainwork < b.chainwork :=
  List.isChain_iff_pairwise.1 (c.isChain.imp fun _ _ h => h.2)

theorem height_le {n : ℕ} {block : StoredHeader} (h : c.blocks[n]? = some block) :
    block.height ≤ n := by
  induction n generalizing block with
  | zero =>
    rw [blocks, List.getElem?_cons_zero, Option.some.injEq] at h
    rw [← h]
    exact le_rfl
  | succ n ih =>
    obtain ⟨hn, rfl⟩ := List.getElem?_eq_some_iff.1 h
    have hle := (List.isChain_iff_getElem.1 c.isChain n hn).1
    exact hle.trans (Nat.succ_le_succ (ih (List.getElem?_eq_getElem _)))

theorem height_lt_of_mem {stored : StoredHeader} (h : stored ∈ c.entries) :
    stored.height < 2 ^ 32 - 1 := by
  obtain ⟨n, hn, rfl⟩ := List.mem_iff_getElem.1 h
  have hle := c.height_le (n := n + 1) (by rw [blocks, List.getElem?_cons_succ,
    List.getElem?_eq_getElem hn])
  have := c.bounded
  omega

theorem nodup_hash : (c.blocks.map StoredHeader.hash).Nodup := by
  rw [blocks, List.map_cons, List.nodup_cons]
  refine ⟨fun hmem => ?_, c.grows.nodup⟩
  obtain ⟨stored, hs, hhash⟩ := List.mem_map.1 hmem
  have hfresh := c.grows.fresh stored hs
  rw [hhash, ChainTree.genesis_apply] at hfresh
  cases hfresh

end PeerChain

/-! ## The part of the chain that is stored -/

/-- No stored header has the hash of another header of the list. -/
def NoCollision [Digests] (known : Headers) (l : List StoredHeader) : Prop :=
  ∀ hash stored, known hash = some stored → ∀ block ∈ l,
    stored.header.hash = block.header.hash → stored.header = block.header

theorem NoCollision.subset [Digests] {known : Headers} {l l' : List StoredHeader}
    (h : NoCollision known l) (hl : ∀ block ∈ l', block ∈ l) : NoCollision known l' :=
  fun hash stored hs block hmem => h hash stored hs block (hl block hmem)

section Split

variable [Digests] {known known' : Headers} (tree : ValidTree known')

include tree

/-- A stored header that is not the genesis block is the accepted one of that hash. -/
theorem ValidTree.accept_of_hash {block stored : StoredHeader}
    (hstored : known' block.hash = some stored) (hhash : block.hash = block.header.hash)
    (hne : block.hash ≠ genesisEntry.hash)
    (hno : stored.header.hash = block.header.hash → stored.header = block.header) :
    accept .mainnet known' block.header = .ok stored := by
  have hheader := hno ((tree.hash_header hstored).trans hhash)
  rcases tree.accepted hstored with heq | haccept
  · exact absurd (tree.hash_eq hstored).symm (heq ▸ hne)
  · rwa [← hheader]

/-- Above a header that is not stored, none is. -/
theorem ValidTree.eq_none_of_linked {head : StoredHeader} {rest : List StoredHeader}
    (hlinked : (head :: rest).IsChain fun a b => b.header.prevBlock = a.hash)
    (hhead : known' head.hash = none) (hhash : ∀ block ∈ rest, block.hash = block.header.hash)
    (hne : ∀ block ∈ rest, block.hash ≠ genesisEntry.hash) (hno : NoCollision known' rest) :
    ∀ block ∈ rest, known' block.hash = none := by
  induction rest generalizing head with
  | nil => exact fun block hmem => absurd hmem List.not_mem_nil
  | cons next rest ih =>
    obtain ⟨hprev, hlinked⟩ := List.isChain_cons_cons.1 hlinked
    rw [List.forall_mem_cons] at hhash hne
    have hnext : known' next.hash = none := by
      cases hstored : known' next.hash with
      | none => rfl
      | some stored =>
        have haccept := tree.accept_of_hash hstored hhash.1 hne.1
          (hno _ _ hstored next List.mem_cons_self)
        obtain ⟨parent, _, hparent, -⟩ := accept_eq_ok.1 haccept
        rw [hprev, hhead] at hparent
        cases hparent
    exact List.forall_mem_cons.2 ⟨hnext, ih hlinked hnext hhash.2 hne.2
      (hno.subset fun _ => List.mem_cons_of_mem _)⟩

/-- An accepted chain is stored up to some header, and new to a tree from there on. -/
theorem Grows.split {l : List StoredHeader} (h : Grows .mainnet known l) (hsub : known.Sub known')
    (hroot : known genesisEntry.hash = some genesisEntry) {first : StoredHeader}
    (hlinked : (first :: l).IsChain fun a b => b.header.prevBlock = a.hash)
    (hno : NoCollision known' l) :
    ∃ old new, l = old ++ new ∧ (∀ block ∈ old, known' block.hash = some block) ∧
      Grows .mainnet known' new := by
  induction h generalizing first with
  | nil => exact ⟨[], [], rfl, fun _ hmem => absurd hmem List.not_mem_nil, .nil _⟩
  | @cons known head rest haccept hfresh hgrows ih =>
    have hgrows' := Grows.cons haccept hfresh hgrows
    have hlinked := (List.isChain_cons_cons.1 hlinked).2
    have hhash : ∀ block ∈ head :: rest, block.hash = block.header.hash := fun block hmem =>
      hash_of_accept (hgrows'.accept hmem)
    have hne : ∀ block ∈ head :: rest, block.hash ≠ genesisEntry.hash := by
      intro block hmem heq
      have := hgrows'.fresh block hmem
      rw [heq, hroot] at this
      cases this
    cases hstored : known' head.hash with
    | none =>
      rw [List.forall_mem_cons] at hhash hne
      refine ⟨[], head :: rest, rfl, fun _ hmem => absurd hmem List.not_mem_nil, ?_⟩
      refine hgrows'.mono hsub (List.forall_mem_cons.2 ⟨hstored, ?_⟩)
      exact tree.eq_none_of_linked hlinked hstored hhash.2 hne.2
        (hno.subset fun _ => List.mem_cons_of_mem _)
    | some stored =>
      have haccept' := tree.accept_of_hash hstored (hhash head List.mem_cons_self)
        (hne head List.mem_cons_self) (hno _ _ hstored head List.mem_cons_self)
      rw [accept_sub hsub haccept, Except.ok.injEq] at haccept'
      rw [← haccept'] at hstored
      have hsub' : (known.insert head.hash head).Sub known' := by
        intro hash stored hs
        rcases Table.insert_eq_some hs with ⟨rfl, rfl⟩ | ⟨-, hs⟩
        · exact hstored
        · exact hsub _ _ hs
      obtain ⟨old, new, hl, hold, hnew⟩ := ih hsub'
        (Table.sub_insert _ hfresh _ _ hroot) hlinked
        (hno.subset fun _ => List.mem_cons_of_mem _)
      exact ⟨head :: old, new, congrArg (head :: ·) hl, List.forall_mem_cons.2 ⟨hstored, hold⟩,
        hnew⟩

end Split

/-! ## One batch -/

/-- Stored headers at the beginning of a batch are skipped. -/
theorem unseen_append [Digests] {known : Headers} {seen : List Hash} {old new : List BlockHeader}
    (hold : ∀ header ∈ old, (known header.hash).isSome)
    (hnodup : (new.map BlockHeader.hash).Nodup)
    (hnew : ∀ header ∈ new, header.hash ∉ seen ∧ known header.hash = none) :
    unseen known seen (old ++ new) = new := by
  induction old generalizing seen with
  | nil => exact unseen_eq_self hnodup hnew
  | cons header old ih =>
    rw [List.forall_mem_cons] at hold
    rw [List.cons_append, unseen, if_pos (.inr hold.1)]
    refine ih hold.2 fun header' hmem => ⟨fun hseen => ?_, (hnew header' hmem).2⟩
    rcases List.mem_cons.1 hseen with heq | hseen
    · have hsome := hold.1
      rw [← heq, (hnew header' hmem).2] at hsome
      cases hsome
    · exact (hnew header' hmem).1 hseen

section Ingest

variable {S : Type} [HeaderStore S] [LawfulHeaderStore S] [Digests] {s : S} {t : ChainTree}

/-- A batch of stored headers, and of accepted ones on top, the last of which has the most work.
    That one is the tip when it has more work than the tip there was. -/
theorem ingestHeaders_append (h : Represents s t) {tip : StoredHeader} (htip : t.tip = some tip)
    {old new : List StoredHeader} (hold : ∀ block ∈ old, t.headers block.hash = some block)
    (hhash : ∀ block ∈ old, block.header.hash = block.hash)
    (hgrows : Grows .mainnet t.headers new) (hbounded : ∀ block ∈ new, block.height < 2 ^ 32 - 1)
    {last : StoredHeader} (hlast : (old ++ new).getLast? = some last)
    (hwork : (old ++ new).Pairwise fun a b => a.chainwork < b.chainwork) :
    ∃ s' t', ingestHeaders .mainnet ((old ++ new).map StoredHeader.header) s =
        .ok ⟨new.length, t'.tip⟩ s' ∧ Represents s' t' ∧ t'.headers = t.headers.add new ∧
      t'.tip = some (if tip.chainwork < last.chainwork then last else tip) := by
  have hmap : new.map StoredHeader.header =
      unseen (getHeader s) [] ((old ++ new).map StoredHeader.header) := by
    have hnewhash : (new.map StoredHeader.header).map BlockHeader.hash =
        new.map StoredHeader.hash := by
      rw [List.map_map]
      exact List.map_congr_left fun b hb => (hash_of_accept (hgrows.accept hb)).symm
    rw [List.map_append, h.getHeader_eq]
    refine (unseen_append ?_ (hnewhash ▸ hgrows.nodup) ?_).symm
    · intro header hmem
      obtain ⟨block, hb, rfl⟩ := List.mem_map.1 hmem
      rw [hhash block hb, hold block hb]
      rfl
    · intro header hmem
      obtain ⟨block, hb, rfl⟩ := List.mem_map.1 hmem
      rw [← hash_of_accept (hgrows.accept hb)]
      exact ⟨List.not_mem_nil, hgrows.fresh block hb⟩
  have hinsert := insertHeaders_of_grows (s := s) (h.getHeader_eq ▸ hgrows) hmap
  rcases eq_or_ne new [] with rfl | hne
  · -- The last header is stored, so the tip has at least its work.
    have hle : last.chainwork ≤ tip.chainwork := by
      rw [List.append_nil] at hlast
      rcases t.tip_cases with ⟨-, hnone, -⟩ | ⟨tip', htip', -, -, hmax⟩
      · rw [htip] at hnone
        cases hnone
      · rw [htip, Option.some.injEq] at htip'
        rw [htip']
        exact hmax _ _ (hold last (List.mem_of_getLast? hlast))
    refine ⟨s, t, ?_, h, rfl, ?_⟩
    · rw [ingestHeaders, bind_ok hinsert, reads_bind, h.bestHeader_eq]
      rfl
    · rw [htip, if_neg hle.not_gt]
  · obtain ⟨e, rfl, -, s', hs', hrep⟩ :=
      recordHeaders_ok h hne hgrows (t.valid.bounded.add hbounded)
    have hcandidate : e.candidate = last := by
      rw [List.getLast?_append_of_ne_nil _ hne] at hlast
      obtain ⟨init, hinit⟩ := List.getLast?_eq_some_iff.1 hlast
      have hle := e.le_candidate (List.mem_of_getLast? hlast)
      have hmem := e.candidate_mem
      rw [hinit] at hmem
      rcases List.mem_append.1 hmem with hmem | hmem
      · have hpair := (List.pairwise_append.1 hwork).2.1
        rw [hinit] at hpair
        have hlt := (List.pairwise_append.1 hpair).2.2 _ hmem last (List.mem_singleton.2 rfl)
        exact absurd hle hlt.not_ge
      · exact List.mem_singleton.1 hmem
    refine ⟨s', t.extend e, ?_, hrep, rfl, ?_⟩
    · rw [ingestHeaders, bind_ok (hinsert.trans hs'), reads_bind, hrep.bestHeader_eq]
      rfl
    · rw [ChainTree.tip_extend, htip, hcandidate, shouldPromote]
      simp only [decide_eq_true_eq]
      split_ifs <;> rfl

namespace PeerChain

omit S [HeaderStore S] [LawfulHeaderStore S]

variable (c : PeerChain)

theorem hash_header {block : StoredHeader} (h : block ∈ c.entries) :
    block.header.hash = block.hash := (hash_of_accept (c.grows.accept h)).symm

theorem eq_of_hash {block block' : StoredHeader} (h : block ∈ c.entries) (h' : block' ∈ c.entries)
    (hhash : block.hash = block'.hash) : block = block' :=
  List.inj_on_of_nodup_map c.grows.nodup h h' hhash

/-- The height found for a locator of stored headers is that of a stored header. -/
theorem start_spec {known : Headers} (hroot : known genesisEntry.hash = some genesisEntry)
    (locator : List Hash) (h : ∀ hash ∈ locator, known hash ≠ none) :
    ∃ block, c.blocks[c.start locator]? = some block ∧ known block.hash ≠ none := by
  rw [start]
  cases hfind : locator.findSome? fun hash => c.blocks.findIdx? fun block => block.hash = hash with
  | none => exact ⟨genesisEntry, rfl, by simp [hroot]⟩
  | some index =>
    obtain ⟨hash, hmem, hindex⟩ := List.exists_of_findSome?_eq_some hfind
    obtain ⟨hlt, hhash, -⟩ := List.findIdx?_eq_some_iff_getElem.1 hindex
    rw [decide_eq_true_eq] at hhash
    exact ⟨c.blocks[index], List.getElem?_eq_getElem hlt, hhash ▸ h hash hmem⟩

/-- The height found for a locator that begins with a header of the chain. -/
theorem start_eq {n : ℕ} {block : StoredHeader} (h : c.blocks[n]? = some block)
    (locator : List Hash) : c.start (block.hash :: locator) = n := by
  obtain ⟨hn, hblock⟩ := List.getElem?_eq_some_iff.1 h
  have hindex : (c.blocks.findIdx? fun b => b.hash = block.hash) = some n := by
    refine List.findIdx?_eq_some_iff_getElem.2 ⟨hn, by simp [hblock], fun m hm => ?_⟩
    rw [decide_eq_true_eq, ← hblock]
    intro heq
    refine hm.ne ((List.getElem?_inj (by simpa using hm.trans hn) c.nodup_hash).1 ?_)
    rw [List.getElem?_map, List.getElem?_map, List.getElem?_eq_getElem (hm.trans hn),
      List.getElem?_eq_getElem hn, Option.map_some, Option.map_some, heq]
  rw [start, List.findSome?_cons, hindex]
  rfl

/-- The chain is stored up to some header, and new to the tree from there on. -/
theorem split (hroot : t.headers genesisEntry.hash = some genesisEntry)
    (hno : NoCollision t.headers c.entries) :
    ∃ old new, c.entries = old ++ new ∧ (∀ block ∈ old, t.headers block.hash = some block) ∧
      Grows .mainnet t.headers new := by
  refine c.grows.split t.valid (fun hash stored hs => ?_) ChainTree.genesis_apply c.linked hno
  rcases Table.insert_eq_some hs with ⟨rfl, rfl⟩ | ⟨-, hs⟩
  · exact hroot
  · cases hs

end PeerChain

/-- The batch that follows a stored header of the chain. -/
theorem ingestHeaders_follow (h : Represents s t) {tip : StoredHeader} (htip : t.tip = some tip)
    (c : PeerChain) (hno : NoCollision t.headers c.entries) {start : ℕ} {block : StoredHeader}
    (hblock : c.blocks[start]? = some block) (hstored : t.headers block.hash ≠ none)
    {batch : List StoredHeader} (hbatch : batch = (c.entries.drop start).take maxHeaders)
    {last : StoredHeader} (hlast : batch.getLast? = some last) :
    ∃ accepted s' t', ingestHeaders .mainnet (batch.map StoredHeader.header) s =
        .ok ⟨accepted, t'.tip⟩ s' ∧ Represents s' t' ∧ NoCollision t'.headers c.entries ∧
      t.headers.Sub t'.headers ∧ (∀ block ∈ batch, t'.headers block.hash = some block) ∧
      t'.tip = some (if tip.chainwork < last.chainwork then last else tip) ∧
      (accepted = 0 ↔ t.headers last.hash = some last) := by
  have hroot := t.valid.genesis_mem (ChainTree.tip_eq_some_iff.1 htip).2
  obtain ⟨old, new, hentries, hold, hgrows⟩ := c.split hroot hno
  have hstart : start ≤ old.length := by
    by_contra hlt
    rw [not_le] at hlt
    obtain ⟨start, rfl⟩ := Nat.exists_eq_add_of_lt hlt
    rw [PeerChain.blocks, List.getElem?_cons_succ, hentries,
      List.getElem?_append_right (Nat.le_add_right _ _)] at hblock
    exact hstored (hgrows.fresh block (List.mem_of_getElem? hblock))
  have hsplit : batch = (old.drop start).take maxHeaders ++
      new.take (maxHeaders - (old.length - start)) := by
    rw [hbatch, hentries, List.drop_append_of_le_length hstart, List.take_append,
      List.length_drop]
  have hold' : ∀ block ∈ (old.drop start).take maxHeaders, block ∈ old := fun block hmem =>
    List.mem_of_mem_drop (List.mem_of_mem_take hmem)
  have hnew' : ∀ block ∈ new.take (maxHeaders - (old.length - start)), block ∈ c.entries :=
    fun block hmem => hentries ▸ List.mem_append_right _ (List.mem_of_mem_take hmem)
  have hgrows' := hgrows.take (maxHeaders - (old.length - start))
  have hwork : batch.Pairwise fun a b => a.chainwork < b.chainwork := by
    refine (List.Pairwise.of_cons c.pairwise_chainwork).sublist ?_
    rw [hbatch]
    exact (List.take_sublist _ _).trans (List.drop_sublist _ _)
  rw [hsplit] at hlast hwork ⊢
  obtain ⟨s', t', hs', hrep, hheaders, htip'⟩ := ingestHeaders_append h htip
    (fun block hmem => hold block (hold' block hmem))
    (fun block hmem => c.hash_header (hentries ▸ List.mem_append_left _ (hold' block hmem)))
    hgrows' (fun block hmem => c.height_lt_of_mem (hnew' block hmem)) hlast hwork
  refine ⟨_, s', t', hs', hrep, ?_, ?_, ?_, htip', ?_⟩
  · rw [hheaders]
    intro hash stored hs block hmem hhash
    rcases Table.insertAll_eq_some hs with ⟨entry, hentry, -, rfl⟩ | hs
    · have hentry := hnew' entry hentry
      rw [id, c.hash_header hentry, c.hash_header hmem] at hhash
      rw [id, c.eq_of_hash hentry hmem hhash]
    · exact hno hash stored hs block hmem hhash
  · rw [hheaders]
    exact hgrows'.sub
  · intro block hmem
    rw [hheaders]
    rcases List.mem_append.1 hmem with hmem | hmem
    · exact hgrows'.sub _ _ (hold block (hold' block hmem))
    · exact hgrows'.get hmem
  · rw [List.length_eq_zero_iff]
    constructor
    · intro hnil
      rw [hnil, List.append_nil] at hlast
      exact hold last (hold' last (List.mem_of_getLast? hlast))
    · intro hs
      by_contra hne
      rw [List.getLast?_append_of_ne_nil _ hne] at hlast
      have hfresh := hgrows'.fresh last (List.mem_of_getLast? hlast)
      rw [hs] at hfresh
      cases hfresh

end Ingest

end Hns
