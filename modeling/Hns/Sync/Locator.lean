import Hns.Chain.Run

/-!
# Block locators

The locator of a `HeaderSyncCoordinator` samples the best chain: its tip, the
ten headers below, and then headers at distances that double, down to the
genesis block or to the limit.

* `locatorWithLimit_eq`: these are the ancestors at the depths `locatorDepth`.
-/

namespace Hns

open Except HeaderStore Ancestry

/-- `DEFAULT_LOCATOR_LIMIT`. -/
def defaultLocatorLimit : ℕ := 32

section

variable {S : Type} [HeaderStore S]

/-- The inner loop of `locator_with_limit`: `step` headers down, or to the genesis block. -/
def locatorStep (s : S) : ℕ → StoredHeader → Except ChainError StoredHeader
  | 0, current => .ok current
  | step + 1, current =>
    if current.height = 0 then .ok current
    else do
      let current ← ofOption .unknownParent (getHeader s current.header.prevBlock)
      locatorStep s step current

/-- The outer loop, with the hashes that the limit leaves room for. -/
def locatorLoop (s : S) : ℕ → List Hash → ℕ → StoredHeader → Except ChainError (List Hash)
  | 0, locator, _, _ => .ok locator
  | room + 1, locator, step, current => do
    let locator := locator ++ [current.hash]
    if current.height = 0 then return locator
    let current ← locatorStep s step current
    let step := if 10 ≤ locator.length then min (2 ^ 64 - 1) (step * 2) else step
    locatorLoop s room locator step current

def locatorWithLimit (s : S) (limit : ℕ) : Except ChainError (List Hash) := do
  match ← bestHeader s with
  | none => .ok []
  | some current => locatorLoop s limit [] 1 current

end

/-! ## The headers of a locator -/

/-- How far below the tip the header number `k` of a locator is. -/
def locatorDepth (k : ℕ) : ℕ := if k < 10 then k else 8 + 2 ^ (k - 9)

/-- The number of headers from one of a locator down to the next. -/
def locatorGap (k : ℕ) : ℕ := if k < 10 then 1 else 2 ^ (k - 9)

/-- The numbers of the headers of a locator: they go on until the genesis block is among them, or
    the limit is reached. -/
def locatorNumbers (limit height : ℕ) : List ℕ :=
  (List.range limit).takeWhile fun k => k = 0 ∨ locatorDepth (k - 1) < height

/-- The headers of the locator for a tip, each an ancestor of it. -/
def blockLocator (known : Headers) (tip : StoredHeader) (limit : ℕ) : List StoredHeader :=
  (locatorNumbers limit tip.height).filterMap fun k =>
    ancestor (parentIn known) (min (locatorDepth k) tip.height) tip

theorem locatorDepth_succ (k : ℕ) : locatorDepth (k + 1) = locatorDepth k + locatorGap k := by
  rw [locatorDepth, locatorDepth, locatorGap]
  split_ifs with hsucc hk hk
  · rfl
  · omega
  · rw [(by omega : k = 9)]
    norm_num
  · rw [(by omega : k + 1 - 9 = k - 9 + 1), pow_succ]
    omega

theorem locatorGap_succ (k : ℕ) :
    locatorGap (k + 1) = if 10 ≤ k + 1 then locatorGap k * 2 else locatorGap k := by
  rw [locatorGap, locatorGap]
  by_cases hlt : k + 1 < 10
  · rw [if_pos hlt, if_neg hlt.not_ge, if_pos (by omega)]
  · rw [if_neg hlt, if_pos (not_lt.1 hlt), (by omega : k + 1 - 9 = k - 9 + 1), pow_succ]
    split_ifs with hk
    · rw [(by omega : k = 9)]
      norm_num
    · rfl

section

variable [Digests] {known : Headers} (tree : ValidTree known) {tip : StoredHeader}
  (htip : known tip.hash = some tip)

include tree htip

/-- The headers of a locator are stored ancestors of the tip. -/
theorem ValidTree.of_mem_blockLocator {limit : ℕ} {stored : StoredHeader}
    (h : stored ∈ blockLocator known tip limit) :
    known stored.hash = some stored ∧ ∃ n ≤ tip.height, ancestor (parentIn known) n tip = some stored := by
  obtain ⟨k, -, hk⟩ := List.mem_filterMap.1 h
  exact ⟨(tree.ranked.of_ancestor htip (min_le_right _ _) hk).1, _, min_le_right _ _, hk⟩

/-- A tree that grows keeps the locators of its headers. -/
theorem ValidTree.blockLocator_sub {known' : Headers} (hsub : known.Sub known') (limit : ℕ) :
    blockLocator known' tip limit = blockLocator known tip limit := by
  refine List.filterMap_congr fun k _ => ?_
  obtain ⟨stored, hstored, -⟩ := tree.ranked.exists_ancestor htip (min_le_right (locatorDepth k) _)
  have hsub : ∀ x p, parentIn known x = some p → parentIn known' x = some p :=
    fun _ _ => hsub _ _
  rw [hstored, ancestor_mono hsub hstored]

omit [Digests] tree htip in
/-- A locator begins with the tip. -/
theorem blockLocator_eq_cons (known : Headers) (tip : StoredHeader) {limit : ℕ} (hlimit : 0 < limit) :
    ∃ rest, blockLocator known tip limit = tip :: rest := by
  obtain ⟨limit, rfl⟩ := Nat.exists_eq_add_of_le' hlimit
  rw [blockLocator, locatorNumbers, List.range_succ_eq_map, List.takeWhile_cons_of_pos (by simp)]
  exact ⟨_, rfl⟩

end

/-! ## The loops -/

section

variable {S : Type} [HeaderStore S] [Digests] {s : S} (tree : ValidTree (getHeader s))

include tree

theorem locatorStep_eq_ok {current : StoredHeader} (h : getHeader s current.hash = some current)
    (step : ℕ) : ∃ stored, locatorStep s step current = .ok stored ∧
      ancestor (parentIn (getHeader s)) (min step current.height) current = some stored := by
  induction step generalizing current with
  | zero => exact ⟨current, rfl, by rw [Nat.zero_min]; rfl⟩
  | succ step ih =>
    rw [locatorStep]
    split_ifs with hzero
    · exact ⟨current, rfl, by rw [hzero]; rfl⟩
    · obtain ⟨parent, hp, hnode, hrank⟩ := tree.ranked current h (Nat.pos_of_ne_zero hzero)
      obtain ⟨stored, hstep, hancestor⟩ := ih hnode
      refine ⟨stored, ?_, ?_⟩
      · rw [show getHeader s current.header.prevBlock = some parent from hp, ofOption_some, ok_bind,
          hstep]
      · rw [hrank, Nat.add_min_add_right, ancestor_succ_of_parent hp, hancestor]

/-- The loop, once the headers below the number `k` are there: it is at the header number `k`. -/
theorem locatorLoop_eq_ok {tip : StoredHeader} (htip : getHeader s tip.hash = some tip)
    (room : ℕ) {k : ℕ} (hk : k = 0 ∨ locatorDepth (k - 1) < tip.height) {current : StoredHeader}
    (hcurrent : ancestor (parentIn (getHeader s)) (min (locatorDepth k) tip.height) tip =
      some current) {locator : List Hash} (hlength : locator.length = k) :
    locatorLoop s room locator (min (2 ^ 64 - 1) (locatorGap k)) current =
      .ok (locator ++ (((List.range' k room).takeWhile fun k =>
        k = 0 ∨ locatorDepth (k - 1) < tip.height).filterMap fun k =>
          ancestor (parentIn (getHeader s)) (min (locatorDepth k) tip.height) tip).map
            StoredHeader.hash) := by
  induction room generalizing k current locator with
  | zero => simp [locatorLoop]
  | succ room ih =>
    obtain ⟨hnode, hrank⟩ := tree.ranked.of_ancestor htip (min_le_right _ _) hcurrent
    have hbounded := tree.bounded _ _ htip
    rw [List.range'_succ, List.takeWhile_cons_of_pos (by simpa using hk),
      List.filterMap_cons_some (f := fun k => ancestor (parentIn (getHeader s))
        (min (locatorDepth k) tip.height) tip) hcurrent, locatorLoop]
    dsimp only
    by_cases hzero : current.height = 0
    · -- The genesis block has been reached.
      rw [if_pos hzero]
      have hdepth : ¬locatorDepth k < tip.height := by omega
      cases room with
      | zero => rfl
      | succ room =>
        rw [List.range'_succ, List.takeWhile_cons_of_neg (by simpa using hdepth)]
        rfl
    · have hdepth : locatorDepth k < tip.height := by omega
      obtain ⟨stored, hstep, hancestor⟩ :=
        locatorStep_eq_ok tree hnode (min (2 ^ 64 - 1) (locatorGap k))
      have hnext : ancestor (parentIn (getHeader s)) (min (locatorDepth (k + 1)) tip.height) tip =
          some stored := by
        rw [← hancestor, ← ancestor_add_of_ancestor hcurrent, locatorDepth_succ]
        congr 1
        omega
      have hgap : (if 10 ≤ (locator ++ [current.hash]).length then
          min (2 ^ 64 - 1) (min (2 ^ 64 - 1) (locatorGap k) * 2)
          else min (2 ^ 64 - 1) (locatorGap k)) = min (2 ^ 64 - 1) (locatorGap (k + 1)) := by
        rw [List.length_append, hlength, List.length_singleton, locatorGap_succ]
        split_ifs
        · omega
        · rfl
      have hlength : (locator ++ [current.hash]).length = k + 1 := by simp [hlength]
      rw [if_neg hzero, hstep, ok_bind, hgap, ih (k := k + 1) (.inr hdepth) hnext hlength]
      simp

/-- The locator of a store lists the headers of the one for its tip. -/
theorem locatorWithLimit_eq {tip : StoredHeader} (htip : getHeader s tip.hash = some tip)
    (hbest : bestHeader s = .ok (some tip)) (limit : ℕ) :
    locatorWithLimit s limit =
      .ok ((blockLocator (getHeader s) tip limit).map StoredHeader.hash) := by
  rw [locatorWithLimit, hbest, ok_bind, blockLocator, locatorNumbers, List.range_eq_range']
  have hzero : ancestor (parentIn (getHeader s)) (min (locatorDepth 0) tip.height) tip = some tip := by
    rw [locatorDepth, if_pos (by norm_num), Nat.zero_min]
    rfl
  exact locatorLoop_eq_ok tree htip limit (.inl rfl) hzero rfl

end

end Hns
