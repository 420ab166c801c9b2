import Hns.Chain.Tree

/-!
# The canonical index

`canonicalOf known best` is the index a store should hold when its best header
is `best`: the ancestors of the tip, by height. Both ways to update an index
lead to it: rebuilding it from the lineage of the new tip
(`promoteBestHash_ok`), and extending it with headers that each have the one
before as their parent (`insertAll_canonicalOf`).
-/

namespace Hns

open Except Ancestry HeaderStore

/-- The ancestors of the tip, by height. -/
def canonicalOf (known : Headers) (best : Option Hash) : Table ℕ Hash := fun n =>
  match best.bind known with
  | none => none
  | some tip =>
    if n ≤ tip.height then
      (ancestor (parentIn known) (tip.height - n) tip).map StoredHeader.hash
    else none

@[simp] theorem canonicalOf_none (known : Headers) : canonicalOf known none = .empty := rfl

theorem canonicalOf_some {known : Headers} {hash : Hash} {tip : StoredHeader}
    (h : known hash = some tip) (n : ℕ) :
    canonicalOf known (some hash) n =
      if n ≤ tip.height then
        (ancestor (parentIn known) (tip.height - n) tip).map StoredHeader.hash
      else none := by
  rw [canonicalOf, Option.bind_some, h]

section

variable [Digests] {known : Headers}

/-- The index of a tip at a height is the ancestor at that height. -/
theorem ValidTree.canonicalOf_eq_some (tree : ValidTree known) {tip : StoredHeader}
    (h : known tip.hash = some tip) {n : ℕ} (hn : n ≤ tip.height) :
    ∃ ancestor', ancestor (parentIn known) (tip.height - n) tip = some ancestor' ∧
      known ancestor'.hash = some ancestor' ∧ ancestor'.height = n ∧
      canonicalOf known (some tip.hash) n = some ancestor'.hash := by
  obtain ⟨y, hy, hnode, hrank⟩ := tree.ranked.exists_ancestor h (Nat.sub_le tip.height n)
  refine ⟨y, hy, hnode, by omega, ?_⟩
  rw [canonicalOf_some h, if_pos hn, hy, Option.map_some]

/-- A tree that grows keeps the index of a tip. -/
theorem ValidTree.canonicalOf_sub {known' : Headers} (tree : ValidTree known)
    (hsub : known.Sub known') {tip : StoredHeader} (h : known tip.hash = some tip) :
    canonicalOf known' (some tip.hash) = canonicalOf known (some tip.hash) := by
  funext n
  rw [canonicalOf_some h, canonicalOf_some (hsub _ _ h)]
  split_ifs with hn
  · obtain ⟨y, hy, -⟩ := tree.ranked.exists_ancestor h (Nat.sub_le tip.height n)
    have hy' : ancestor (parentIn known') (tip.height - n) tip = some y :=
      ancestor_mono (fun x p hp => hsub _ _ hp) hy
    rw [hy, hy']
  · rfl

/-- The index made of the lineage of a tip. -/
theorem ValidTree.insertAll_lineage (tree : ValidTree known) {tip : StoredHeader}
    (h : known tip.hash = some tip) :
    Table.empty.insertAll StoredHeader.height StoredHeader.hash
      (lineage (parentIn known) tip.height tip) = canonicalOf known (some tip.hash) := by
  have hranks := tree.ranked.map_rank_lineage h
  funext n
  by_cases hn : n ≤ tip.height
  · obtain ⟨y, hy, -, rfl, hcan⟩ := tree.canonicalOf_eq_some h hn
    rw [hcan]
    refine Table.insertAll_of_mem _ (hranks ▸ List.nodup_range) ?_
    exact tree.ranked.mem_lineage h (Nat.sub_le tip.height y.height) hy
  · rw [canonicalOf_some h, if_neg hn, Table.insertAll_of_not_mem]
    · rfl
    · rw [hranks, List.mem_range]
      omega

omit [Digests] in
/-- The index of a tip, with a child of the tip on top. -/
theorem insert_canonicalOf {tip child : StoredHeader}
    (htip : known tip.hash = some tip) (hchild : known child.hash = some child)
    (h : IsChild tip child) :
    (canonicalOf known (some tip.hash)).insert child.height child.hash =
      canonicalOf known (some child.hash) := by
  have hparent : parentIn known child = some tip := by rw [parentIn, h.prevBlock_eq, htip]
  funext n
  rcases lt_trichotomy n child.height with hlt | rfl | hgt
  · have hn : n ≤ tip.height := by rw [h.height_eq] at hlt; omega
    have hsub : child.height - n = tip.height - n + 1 := by rw [h.height_eq]; omega
    rw [Table.insert_of_ne _ _ hlt.ne, canonicalOf_some htip, canonicalOf_some hchild,
      if_pos hn, if_pos hlt.le, hsub, ancestor_succ_of_parent hparent]
  · rw [Table.insert_self, canonicalOf_some hchild, if_pos le_rfl, Nat.sub_self]
    rfl
  · have hn : ¬n ≤ tip.height := by rw [h.height_eq] at hgt; omega
    rw [Table.insert_of_ne _ _ hgt.ne', canonicalOf_some htip, canonicalOf_some hchild,
      if_neg hn, if_neg hgt.not_ge]

omit [Digests] in
/-- The index of a tip, with headers on top that each have the one before as their parent. -/
theorem insertAll_canonicalOf {tip : StoredHeader} {l : List StoredHeader}
    (htip : known tip.hash = some tip)
    (hl : ∀ stored ∈ l, known stored.hash = some stored) (h : (tip :: l).IsChain IsChild) :
    (canonicalOf known (some tip.hash)).insertAll StoredHeader.height StoredHeader.hash l =
      canonicalOf known (some (l.getLastD tip).hash) := by
  induction l generalizing tip with
  | nil => rfl
  | cons child l ih =>
    obtain ⟨hchild, h⟩ := List.isChain_cons_cons.1 h
    have hmem := hl child List.mem_cons_self
    rw [Table.insertAll, insert_canonicalOf htip hmem hchild,
      ih hmem (fun stored hs => hl stored (List.mem_cons_of_mem _ hs)) h, List.getLastD_cons]

end

/-! ## Rebuilding the index -/

section

variable {S : Type} [HeaderStore S] {s : S}

section

variable (ranked : Ranked (parentIn (getHeader s)) (fun stored => getHeader s stored.hash = some stored)
  StoredHeader.height)

include ranked

/-- The walk from a tip down to the genesis block lists its lineage. -/
theorem canonicalLoop_eq_ok {current : StoredHeader} (h : getHeader s current.hash = some current)
    (rest : List StoredHeader) {fuel : ℕ} (hfuel : current.height < fuel) :
    canonicalLoop s fuel current (current :: rest) =
      .ok (lineage (parentIn (getHeader s)) current.height current ++ rest) := by
  induction fuel generalizing current rest with
  | zero => exact absurd hfuel (Nat.not_lt_zero _)
  | succ fuel ih =>
    rw [canonicalLoop]
    split_ifs with hpos
    · obtain ⟨parent, hp, hnode, hrank⟩ := ranked current h hpos
      rw [show getHeader s current.header.prevBlock = some parent from hp, ofOption_some, ok_bind,
        ih hnode (current :: rest) (by omega), hrank, lineage, hp]
      simp
    · rw [Nat.eq_zero_of_not_pos hpos]
      rfl

theorem canonicalChainTo_eq_ok {tip : StoredHeader} (h : getHeader s tip.hash = some tip)
    (hfuel : tip.height < maxWalk) :
    canonicalChainTo s tip.hash =
      .ok (lineage (parentIn (getHeader s)) tip.height tip) := by
  rw [canonicalChainTo, h, ofOption_some, ok_bind, canonicalLoop_eq_ok ranked h [] hfuel,
    List.append_nil]

/-- Rebuilding the index for a stored header replaces the index by its lineage. -/
theorem promoteBestHash_lineage [LawfulHeaderStore S] {tip : StoredHeader}
    (h : getHeader s tip.hash = some tip) (hfuel : tip.height < maxWalk) :
    Succeeds s (promoteBestHash tip.hash) ({ view s with canonical := Table.empty }.promote
      (lineage (parentIn (getHeader s)) tip.height tip)) := by
  have hmem : ∀ header ∈ lineage (parentIn (getHeader s)) tip.height tip,
      getHeader s header.hash ≠ none := fun header hmem => by
    simp [ranked.node_of_mem_lineage h hmem]
  rw [promoteBestHash, Succeeds, EStateM.reads_bind, canonicalChainTo_eq_ok ranked h hfuel]
  exact LawfulHeaderStore.replaceCanonicalChain_ok (lineage_ne_nil _ _)
    (ranked.map_rank_lineage h ▸ List.nodup_range) hmem

end

variable [Digests]

/-- The contents with another tip, and its ancestors as the canonical index. -/
def MemoryHeaderStore.withTip (m : MemoryHeaderStore) (best : Option Hash) :
    MemoryHeaderStore :=
  { m with canonical := canonicalOf m.headers best, best := best }

/-- Rebuilding the index for a stored header makes it the tip. -/
theorem promoteBestHash_ok [LawfulHeaderStore S] (tree : ValidTree (getHeader s))
    {tip : StoredHeader} (h : getHeader s tip.hash = some tip) :
    Succeeds s (promoteBestHash tip.hash) ((view s).withTip (some tip.hash)) := by
  have hfuel : tip.height < maxWalk := (tree.bounded _ _ h).trans (by decide)
  obtain ⟨s', hs', hview⟩ := promoteBestHash_lineage tree.ranked h hfuel
  refine ⟨s', hs', hview.trans ?_⟩
  rw [MemoryHeaderStore.promote, MemoryHeaderStore.withTip, view_headers,
    ← tree.insertAll_lineage h, getLast?_lineage]
  rfl

end

end Hns
