import Hns.Chain.Sample

/-!
# What holds in every reachable state

* `bestChain_of_reachable`: the best header has the most work, the canonical
  index lists exactly its ancestors, and every header but the genesis one
  extends a stored one;
* `difficulty_of_reachable`: every header but the genesis one meets the target
  that its stored ancestors ask for, and what they ask for is always computed.
-/

namespace Hns

open Except HeaderStore Ancestry

/-! ## The best chain -/

section

variable {S : Type} [HeaderStore S] [LawfulHeaderStore S] [Digests]

/-- What the contents of a store should be: the headers form chains from the genesis block, the
    best one has the most work, and the canonical index lists its ancestors. -/
structure BestChain (m : MemoryHeaderStore) : Prop where
  best {hash stored} (h : m.headers hash = some stored) :
    ∃ tip, m.best = some tip.hash ∧ m.headers tip.hash = some tip ∧
      stored.chainwork ≤ tip.chainwork
  best_mem {hash} (h : m.best = some hash) :
    ∃ tip, m.headers hash = some tip ∧ tip.hash = hash
  canonical {tip} (hbest : m.best = some tip.hash) (htip : m.headers tip.hash = some tip) (n : ℕ) :
    if n ≤ tip.height then
      ∃ stored, ancestor (parentIn m.headers) (tip.height - n) tip = some stored ∧
        stored.height = n ∧ m.canonical n = some stored.hash
    else m.canonical n = none
  canonical_none (h : m.best = none) : m.canonical = .empty
  parent {hash stored} (h : m.headers hash = some stored)
    (hne : stored.header ≠ BlockHeader.mainnetGenesis) :
    ∃ parent, m.headers parent.hash = some parent ∧ IsChild parent stored

/-- The contents of a store for a tree are as they should be. -/
theorem ChainTree.bestChain (t : ChainTree) : BestChain t.toStore where
  best h := by
    rcases t.tip_cases with ⟨-, -, hempty⟩ | ⟨tip, -, hbest, hmem, hmax⟩
    · rw [toStore, hempty] at h
      cases h
    · exact ⟨tip, hbest, hmem, hmax _ _ h⟩
  best_mem h := by
    have hheaviest := t.heaviest
    rw [show t.best = _ from h] at hheaviest
    obtain ⟨tip, htip, -⟩ := hheaviest
    exact ⟨tip, htip, t.valid.hash_eq htip⟩
  canonical {tip} hbest htip n := by
    have hcanonical : t.toStore.canonical = canonicalOf t.headers (some tip.hash) :=
      congrArg (canonicalOf t.headers) hbest
    rw [hcanonical]
    split_ifs with hn
    · obtain ⟨stored, hanc, -, hheight, hcan⟩ := t.valid.canonicalOf_eq_some htip hn
      exact ⟨stored, hanc, hheight, hcan⟩
    · exact (canonicalOf_some htip n).trans (if_neg hn)
  canonical_none h := by rw [toStore, show t.best = none from h, canonicalOf_none]
  parent h hne := by
    obtain ⟨parent, hp, hchild⟩ := t.valid.parent_of_accept (t.valid.accept_of_ne h hne)
    exact ⟨parent, hchild.prevBlock_eq ▸ hp, hchild⟩

/-- In every reachable state the best header has the most work, the canonical index lists
    exactly its ancestors, and every header but the genesis one extends a stored one. -/
theorem bestChain_of_reachable {s : S} (h : Reachable s) : BestChain (view s) := by
  obtain ⟨t, ht⟩ := h.represents
  rw [ht]
  exact t.bestChain

end

open scoped Sample in
theorem bestChain_of_spaced : ∃ m : MemoryHeaderStore,
    m.best = some (Sample.entryAt false Sample.spaced 200).hash ∧ BestChain m := by
  obtain ⟨m, hreach, -, hbest⟩ := Sample.exists_store_of_spaced (n := 200) (by norm_num)
    (by norm_num)
  exact ⟨m, hbest, bestChain_of_reachable hreach⟩

/-! ## Difficulty -/

section

variable {S : Type} [HeaderStore S] [LawfulHeaderStore S] [Digests]

/-- The difficulty of the headers of a store. -/
structure DifficultyEnforced (known : Headers) : Prop where
  /-- A header but the genesis one meets the target of its bits, which is within the limit. -/
  pow {hash stored} (h : known hash = some stored)
    (hne : stored.header ≠ BlockHeader.mainnetGenesis) :
    ∃ target limit, compactToTarget stored.header.bits = .ok target ∧
      stored.header.hash.value ≤ target ∧ compactToTarget mainnetPowBits = .ok limit ∧
      target ≤ limit
  /-- Its bits are those recomputed from its ancestors. -/
  bits {hash stored} (h : known hash = some stored)
    (hne : stored.header ≠ BlockHeader.mainnetGenesis) :
    ∃ parent, known stored.header.prevBlock = some parent ∧
      expectedMainnetBitsWithPending known .empty parent = .ok stored.header.bits
  /-- The recomputation succeeds for every parent. -/
  recomputed {hash parent} (h : known hash = some parent) :
    ∃ bits, expectedMainnetBitsWithPending known .empty parent = .ok bits
  /-- In the midst of a batch, the check of a header agrees with the check made once the headers
      before it are stored. -/
  batch {headers batch}
    (h : List.foldlM (Batch.step .mainnet known) Batch.empty headers = .ok batch)
    (header : BlockHeader) (parent : StoredHeader) :
    validateDifficultyBitsWithPending known batch.pending .mainnet header parent =
      validateDifficultyBits (known.add batch.accepted) .mainnet header parent

theorem ValidTree.difficultyEnforced {known : Headers} (tree : ValidTree known) :
    DifficultyEnforced known where
  pow {hash stored} h hne := by
    have hacc := tree.accept_of_ne h hne
    obtain ⟨parent, work, hp, hbits, hpow, hwork, hstored⟩ := accept_eq_ok.1 hacc
    obtain ⟨target, htarget, hle, -⟩ := verifyPow_eq_true hpow hwork
    obtain ⟨bits, hexp, hlimit⟩ :=
      tree.headerTree.exists_expectedMainnetBits (tree.hash_eq hp ▸ hp)
    rw [validateDifficultyBits_mainnet, hexp, Except.ok.injEq] at hbits
    exact ⟨target, mainnetLimit, htarget, hle, compactToTarget_mainnetPowBits,
      hlimit target (hbits ▸ htarget)⟩
  bits h hne := by
    obtain ⟨parent, work, hp, hbits, -⟩ := accept_eq_ok.1 (tree.accept_of_ne h hne)
    exact ⟨parent, hp, validateDifficultyBits_mainnet.1 hbits⟩
  recomputed h := by
    obtain ⟨bits, hbits, -⟩ :=
      tree.headerTree.exists_expectedMainnetBits (tree.hash_eq h ▸ h)
    exact ⟨bits, hbits⟩
  batch h header parent := by
    obtain ⟨inv, -⟩ := (Batch.Inv.empty known).foldlM h
    rw [validateDifficultyBitsWithPending_eq, inv.pending_eq]

/-- In every reachable state, every header but the genesis one meets the target its stored
    ancestors ask for, and what they ask for is computed without error. -/
theorem difficulty_of_reachable {s : S} (h : Reachable s) :
    DifficultyEnforced (getHeader s) := by
  obtain ⟨t, ht⟩ := h.represents
  rw [ht.getHeader_eq]
  exact t.valid.difficultyEnforced

end

open scoped Sample in
theorem difficulty_of_spaced : ∃ m : MemoryHeaderStore,
    m.headers = Sample.headersTo false Sample.spaced 200 ∧ DifficultyEnforced m.headers := by
  obtain ⟨m, hreach, hheaders, -⟩ := Sample.exists_store_of_spaced (n := 200) (by norm_num)
    (by norm_num)
  exact ⟨m, hheaders, difficulty_of_reachable hreach⟩

end Hns
