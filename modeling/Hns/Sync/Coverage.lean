import Hns.Chain.Invariants
import Hns.Sync.Reach

/-!
# What a locator covers

The numbers of the headers of a locator are the first ones, up to the limit or to
the one whose depth reaches the genesis block (`exists_locatorNumbers_eq`). With
the depths, which increase, this is all there is to say of the headers
(`ValidTree.samples_blockLocator`).

* `locator_of_reachable`: the locator of a reachable chain samples its best header
  and the ancestors of that; a limit of eleven and more, for a chain that is not
  too long for it, reaches the genesis block, which is on the chain of every peer.
-/

namespace Hns

open Except HeaderStore Ancestry

/-- How far below the best header the hash number `k` of a locator is, from number one on. -/
def sampledDepth (k : ℕ) : ℕ := if k ≤ 11 then k - 1 else 10 + 2 ^ (k - 10) - 2

theorem sampledDepth_succ (k : ℕ) : sampledDepth (k + 1) = locatorDepth k := by
  rw [sampledDepth, locatorDepth]
  split_ifs with hk hlt hlt
  · rfl
  · rw [(by omega : k = 10)]
    norm_num
  · omega
  · rw [(by omega : k + 1 - 10 = k - 9)]
    have := Nat.two_pow_pos (k - 9)
    omega

theorem locatorDepth_strictMono : StrictMono locatorDepth := by
  refine strictMono_nat_of_lt_succ fun k => ?_
  rw [locatorDepth_succ, locatorGap]
  have := Nat.two_pow_pos (k - 9)
  split_ifs <;> omega

/-- The numbers of the headers of a locator: the first `count` ones. -/
theorem exists_locatorNumbers_eq (limit height : ℕ) :
    ∃ count ≤ limit, locatorNumbers limit height = List.range count ∧
      (∀ k < count, k = 0 ∨ locatorDepth (k - 1) < height) ∧
      (count < limit → 0 < count ∧ height ≤ locatorDepth (count - 1)) := by
  induction limit with
  | zero => exact ⟨0, le_rfl, rfl, fun k hk => absurd hk (Nat.not_lt_zero k), fun h => absurd h (lt_irrefl 0)⟩
  | succ limit ih =>
    obtain ⟨count, hle, hnumbers, hbelow, hstop⟩ := ih
    rw [locatorNumbers] at hnumbers ⊢
    rw [List.range_succ, List.takeWhile_append, hnumbers, List.length_range, List.length_range]
    rcases hle.lt_or_eq with hlt | rfl
    · -- It stopped before.
      rw [if_neg hlt.ne]
      exact ⟨count, hle.trans (Nat.le_succ _), rfl, hbelow, fun _ => hstop hlt⟩
    rw [if_pos rfl]
    by_cases hnext : count = 0 ∨ locatorDepth (count - 1) < height
    · refine ⟨count + 1, le_rfl, ?_, fun k hk => ?_, fun h => absurd h (lt_irrefl _)⟩
      · rw [List.takeWhile_cons_of_pos (by simpa using hnext), List.range_succ]
        rfl
      · rcases Nat.lt_succ_iff_lt_or_eq.1 hk with hk | rfl
        · exact hbelow k hk
        · exact hnext
    · refine ⟨count, Nat.le_succ _, ?_, hbelow, fun _ => ?_⟩
      · rw [List.takeWhile_cons_of_neg (by simpa using hnext), List.append_nil]
      · push Not at hnext
        exact ⟨Nat.pos_of_ne_zero hnext.1, hnext.2⟩

/-- Of the headers of a tree, only the genesis one has height zero. -/
theorem ValidTree.eq_genesisEntry [Digests] {known : Headers} (tree : ValidTree known)
    {hash : Hash} {stored : StoredHeader} (h : known hash = some stored)
    (hzero : stored.height = 0) : stored = genesisEntry := by
  rcases tree.accepted h with heq | hacc
  · exact heq
  · exact absurd hzero (tree.height_pos_of_accept hacc).ne'

/-- What the headers of a locator are, for a limit. -/
structure Samples [Digests] (known : Headers) (tip : StoredHeader) (limit : ℕ)
    (headers : List StoredHeader) : Prop where
  length_le : headers.length ≤ limit
  /-- They are stored, the tip or ancestors of it, at their depths or cut at the genesis block. -/
  ancestor_eq {k : ℕ} {stored : StoredHeader} (h : headers[k]? = some stored) :
    known stored.hash = some stored ∧
      ancestor (parentIn known) (min (sampledDepth (k + 1)) tip.height) tip = some stored
  heights : headers.Pairwise fun a b => b.height < a.height
  /-- Nothing comes after the genesis block. -/
  stops {k : ℕ} {stored : StoredHeader} (h : headers[k]? = some stored)
    (hzero : stored.height = 0) : k + 1 = headers.length
  /-- It is the last one, if there is room left. -/
  goesOn (h : headers.length < limit) : headers.getLast? = some genesisEntry
  reaches (hlimit : 11 ≤ limit) (h : tip.height ≤ 10 + 2 ^ (limit - 10) - 2) :
    headers.getLast? = some genesisEntry

/-- The headers of the locator for a tip. -/
theorem ValidTree.samples_blockLocator [Digests] {known : Headers} (tree : ValidTree known)
    {tip : StoredHeader} (htip : known tip.hash = some tip) (limit : ℕ) :
    Samples known tip limit (blockLocator known tip limit) := by
  obtain ⟨count, hle, hnumbers, hbelow, hstop⟩ := exists_locatorNumbers_eq limit tip.height
  -- The header number `k`.
  choose header hheader using fun k =>
    tree.ranked.exists_ancestor htip (min_le_right (locatorDepth k) tip.height)
  have heq : blockLocator known tip limit = (List.range count).map header := by
    rw [blockLocator, hnumbers, ← List.filterMap_eq_map']
    exact List.filterMap_congr fun k _ => (hheader k).1
  have hheight (k : ℕ) : (header k).height = tip.height - locatorDepth k := by
    have := (hheader k).2.2
    omega
  have hget {k : ℕ} {stored : StoredHeader} (h : (blockLocator known tip limit)[k]? = some stored) :
      k < count ∧ header k = stored := by
    rw [heq, List.getElem?_map, Option.map_eq_some_iff] at h
    obtain ⟨j, hj, hstored⟩ := h
    obtain ⟨hlt, hj⟩ := List.getElem?_eq_some_iff.1 hj
    rw [List.getElem_range] at hj
    rw [List.length_range] at hlt
    exact ⟨hlt, hj ▸ hstored⟩
  have hlength : (blockLocator known tip limit).length = count := by simp [heq]
  -- The last header is the genesis block if its depth is that of the tip at least.
  have hlast (hpos : 0 < count) (hdeep : tip.height ≤ locatorDepth (count - 1)) :
      (blockLocator known tip limit).getLast? = some genesisEntry := by
    have hzero := tree.eq_genesisEntry (hheader (count - 1)).2.1
      ((hheight (count - 1)).trans (Nat.sub_eq_zero_of_le hdeep))
    rw [List.getLast?_eq_getElem?, hlength, heq, List.getElem?_map,
      List.getElem?_range (Nat.sub_lt hpos one_pos), Option.map_some, hzero]
  refine ⟨hlength.trans_le hle, fun h => ?_, ?_, fun h hzero => ?_, fun h => ?_, fun hlimit h => ?_⟩
  · obtain ⟨-, rfl⟩ := hget h
    rw [sampledDepth_succ]
    exact ⟨(hheader _).2.1, (hheader _).1⟩
  · -- A number that is not zero comes after a depth above the genesis block.
    rw [heq, List.pairwise_map]
    refine List.pairwise_lt_range.imp_of_mem fun {i j} _ hj hij => ?_
    have hdepth := (hbelow j (List.mem_range.1 hj)).resolve_left (Nat.ne_zero_of_lt hij)
    have hmono := locatorDepth_strictMono.monotone (Nat.le_sub_one_of_lt hij)
    have hlt := locatorDepth_strictMono hij
    rw [hheight, hheight]
    omega
  · obtain ⟨hlt, rfl⟩ := hget h
    rw [hlength]
    by_contra hne
    have hdepth := (hbelow _ (lt_of_le_of_ne hlt hne)).resolve_left (Nat.succ_ne_zero _)
    rw [Nat.succ_eq_add_one, Nat.add_sub_cancel] at hdepth
    rw [hheight] at hzero
    omega
  · obtain ⟨hpos, hdeep⟩ := hstop (hlength ▸ h)
    exact hlast hpos hdeep
  · rcases hle.lt_or_eq with hlt | rfl
    · obtain ⟨hpos, hdeep⟩ := hstop hlt
      exact hlast hpos hdeep
    · refine hlast (by omega) (h.trans ?_)
      rw [← sampledDepth_succ, Nat.sub_add_cancel (by omega), sampledDepth]
      split_ifs with h11
      · rw [(by omega : count = 11)]
        norm_num
      · exact le_rfl

/-- The genesis block is on the chain of every store with a header. -/
theorem canonical_genesis {S : Type} [HeaderStore S] [LawfulHeaderStore S] [Digests] {s : S}
    (h : Reachable s) {tip : StoredHeader} (htip : bestHeader s = .ok (some tip)) :
    canonicalHash s 0 = some genesisEntry.hash := by
  obtain ⟨t, ht⟩ := h.represents
  rw [ht.bestHeader_eq, Except.ok.injEq] at htip
  obtain ⟨hbest, hmem⟩ := ChainTree.tip_eq_some_iff.1 htip
  have hcanonical := t.bestChain.canonical hbest hmem 0
  rw [if_pos (Nat.zero_le _)] at hcanonical
  obtain ⟨stored, hancestor, hzero, hcanonical⟩ := hcanonical
  have hstored := (t.valid.ranked.of_ancestor hmem (Nat.sub_le ..) hancestor).1
  rw [t.valid.eq_genesisEntry hstored hzero, ← ht] at hcanonical
  exact hcanonical

section

variable {S : Type} [HeaderStore S] [LawfulHeaderStore S] [Digests]

/-- The locator of a reachable chain, and what it shares with the chain of any peer that starts from
    the same genesis block. -/
theorem locator_of_reachable {s : S} (h : Reachable s) (limit : ℕ) :
    (bestHeader s = .ok none ∧ locatorWithLimit s limit = .ok []) ∨
      ∃ tip headers, bestHeader s = .ok (some tip) ∧
        locatorWithLimit s limit = .ok (headers.map StoredHeader.hash) ∧
        Samples (getHeader s) tip limit headers ∧
        (11 ≤ limit → tip.height ≤ 10 + 2 ^ (limit - 10) - 2 →
          ∀ {S' : Type} [HeaderStore S'] [LawfulHeaderStore S'] {peer : S'}, Reachable peer →
            ∀ best, bestHeader peer = .ok (some best) →
              ∃ hash ∈ headers.map StoredHeader.hash, ∃ n, canonicalHash peer n = some hash) := by
  obtain ⟨t, ht⟩ := h.represents
  cases htip : t.tip with
  | none =>
    have hbest := ht.bestHeader_eq.trans (congrArg Except.ok htip)
    refine .inl ⟨hbest, ?_⟩
    rw [locatorWithLimit, hbest]
    rfl
  | some tip =>
    have hmem := (ChainTree.tip_eq_some_iff.1 htip).2
    have hsamples := t.valid.samples_blockLocator hmem limit
    refine .inr ⟨tip, _, ht.bestHeader_eq.trans (congrArg Except.ok htip),
      ht.locatorWithLimit_eq htip limit, ht.getHeader_eq ▸ hsamples, ?_⟩
    intro hlimit hheight S' _ _ peer hpeer best hbest
    refine ⟨genesisEntry.hash, ?_, 0, canonical_genesis hpeer hbest⟩
    exact List.mem_map_of_mem (List.mem_of_getLast? (hsamples.reaches hlimit hheight))

end

open scoped Sample in
/-- Eighteen hashes reach the genesis block from a height of 200. -/
theorem locator_of_spaced : ∃ (m : MemoryHeaderStore) (headers : List StoredHeader),
    m.best = some (Sample.entryAt false Sample.spaced 200).hash ∧
      locatorWithLimit m 18 = .ok (headers.map StoredHeader.hash) ∧
      headers.getLast? = some genesisEntry := by
  obtain ⟨m, hreach, hheaders, hbest⟩ := Sample.exists_store_of_spaced (n := 200) (by norm_num)
    (by norm_num)
  have hbest' : bestHeader m = .ok (some (Sample.entryAt false Sample.spaced 200)) := by
    have hmem : Sample.headersTo false Sample.spaced 200
        (Sample.entryAt false Sample.spaced 200).hash =
          some (Sample.entryAt false Sample.spaced 200) :=
      Sample.headersTo_apply (Sample.grows_of_spaced (by norm_num)) le_rfl
    rw [bestHeader, show bestHash m = _ from hbest, show getHeader m = _ from hheaders]
    dsimp only
    rw [hmem]
    rfl
  rcases locator_of_reachable hreach 18 with ⟨hnone, -⟩ | ⟨tip, headers, htip, hlocator, hs, -⟩
  · rw [hbest'] at hnone
    cases hnone
  · rw [hbest', Except.ok.injEq, Option.some.injEq] at htip
    subst htip
    exact ⟨m, headers, hbest, hlocator, hs.reaches (by norm_num) (by decide)⟩

end Hns
