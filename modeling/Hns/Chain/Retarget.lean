import Hns.Chain.Run
import Hns.Lib.Distinct

/-!
# The retarget never fails

For a stored parent, the recomputation of the bits meets no error. Its
ancestors are all stored (`HeaderTree.windowsOf_eq`). The work of a
day is bounded although difficulty is not: the hashes of a chain are distinct
and each is at most its target, so the works are at most `2 ^ 256 / 1`,
`2 ^ 256 / 2`, `2 ^ 256 / 3` and so on (`HeaderTree.chainwork_le`), and a day of
them, over the least timespan, is at most the `2 ^ 255` of the target one
(`bitsForWork_eq`).
-/

namespace Hns

open Except HeaderStore Ancestry Finset

/-- A tree of headers with proof of work, whatever their bits and their times. -/
structure HeaderTree (known : Headers) : Prop where
  hash_eq {hash stored} (h : known hash = some stored) : stored.hash = hash
  parent {hash stored} (h : known hash = some stored) (hpos : 0 < stored.height) :
    ∃ parent, parentIn known stored = some parent ∧ IsChild parent stored
  pow {hash stored} (h : known hash = some stored) (hpos : 0 < stored.height) :
    verifyPow stored.hash stored.header.bits = .ok true
  bounded : HeightsBounded known

theorem ValidTree.headerTree [Digests] {known : Headers} (tree : ValidTree known) :
    HeaderTree known where
  hash_eq := tree.hash_eq
  parent := tree.parent
  pow h hpos := by
    have hacc := tree.accept_of_height_pos h hpos
    obtain ⟨_, _, -, -, hpow, -⟩ := accept_eq_ok.1 hacc
    rwa [hash_of_accept hacc]
  bounded := tree.bounded

/-- The target a hash meets. -/
theorem verifyPow_eq_true {hash : Hash} {bits : UInt32} {work : ℕ}
    (h : verifyPow hash bits = .ok true) (hwork : Chainwork.fromBits bits = .ok work) :
    ∃ target, compactToTarget bits = .ok target ∧ hash.value ≤ target ∧
      work = 2 ^ 256 / (target + 1) := by
  obtain ⟨target, htarget, hw⟩ := fromBits_eq_ok.1 hwork
  rw [verifyPow_eq htarget, Except.ok.injEq, decide_eq_true_eq] at h
  exact ⟨target, htarget, h, hw⟩

/-! ## The middle block -/

theorem middleByTime_eq (x y z : StoredHeader) :
    middleByTime x y z =
      if y.time ≤ z.time then
        if x.time ≤ y.time then y else if x.time ≤ z.time then x else z
      else if x.time ≤ z.time then z else if x.time ≤ y.time then x else y := by
  simp only [middleByTime, List.insertionSort, List.foldr, List.orderedInsert]
  by_cases hyz : y.time ≤ z.time
  · by_cases hxy : x.time ≤ y.time
    · simp [hyz, hxy]
    · by_cases hxz : x.time ≤ z.time <;> simp [hyz, hxy, hxz]
  · by_cases hxz : x.time ≤ z.time
    · simp [hyz, hxz]
    · by_cases hxy : x.time ≤ y.time <;> simp [hyz, hxy, hxz]

theorem middleByTime_mem (x y z : StoredHeader) :
    middleByTime x y z = x ∨ middleByTime x y z = y ∨ middleByTime x y z = z := by
  rw [middleByTime_eq]
  split_ifs <;> simp

/-! ## The windows of a retarget -/

/-- A block, its parent and its grandparent. -/
structure Window where
  x : StoredHeader
  y : StoredHeader
  z : StoredHeader

/-- The window of a block. -/
def windowOf (known : Headers) (z : StoredHeader) : Option Window := do
  let y ← parentIn known z
  let x ← parentIn known y
  return ⟨x, y, z⟩

/-- The windows of a block: that of its ancestor a day before, and its own. -/
def windowsOf (known : Headers) (parent : StoredHeader) : Option (Window × Window) := do
  let last ← windowOf known parent
  let first ← windowOf known (← ancestor (parentIn known) mainnetBlocksPerDay parent)
  return (first, last)

/-- The middle block of a window, by a stable sort. -/
def Window.middle (window : Window) : StoredHeader := middleByTime window.x window.y window.z

/-- The three blocks of a window. -/
def Window.Mem (window : Window) (block : StoredHeader) : Prop :=
  block = window.x ∨ block = window.y ∨ block = window.z

theorem Window.middle_mem (window : Window) : window.Mem window.middle :=
  middleByTime_mem window.x window.y window.z

namespace HeaderTree

variable {known : Headers} (tree : HeaderTree known)

include tree

theorem ranked :
    Ranked (parentIn known) (fun stored => known stored.hash = some stored)
      StoredHeader.height := by
  intro stored hstored hpos
  obtain ⟨parent, hp, hchild⟩ := tree.parent hstored hpos
  refine ⟨parent, hp, ?_, hchild.height_eq⟩
  rw [parentIn] at hp
  rwa [tree.hash_eq hp]

/-! ## The ancestors -/

theorem ancestorLoop_eq_ok {header stored : StoredHeader}
    (hheader : known header.hash = some header) {height fuel : ℕ} (hle : height ≤ header.height)
    (hfuel : header.height - height < fuel)
    (h : ancestor (parentIn known) (header.height - height) header = some stored) :
    ancestorLoop known .empty height fuel header = .ok stored := by
  induction fuel generalizing header with
  | zero => exact absurd hfuel (Nat.not_lt_zero _)
  | succ fuel ih =>
    rw [ancestorLoop]
    split_ifs with hlt
    · obtain ⟨parent, hp, hnode, hrank⟩ := tree.ranked header hheader (by omega)
      have hsub : header.height - height = parent.height - height + 1 := by omega
      rw [hsub, ancestor_succ_of_parent hp] at h
      rw [previousWithPending_empty, show known header.header.prevBlock = some parent from hp,
        ofOption_some, ok_bind]
      exact ih hnode (by omega) (by omega) h
    · have hzero : header.height - height = 0 := by omega
      rw [hzero, ancestor_zero, Option.some.injEq] at h
      rw [h]

/-- The window of a block of height at least two. -/
theorem windowOf_eq {z : StoredHeader} (hz : known z.hash = some z) (h : 2 ≤ z.height) :
    ∃ window, windowOf known z = some window ∧
      suitableBlockWithPending known .empty z = .ok window.middle ∧
      ∀ block, window.Mem block → ∃ i ≤ 2, ancestor (parentIn known) i z = some block := by
  obtain ⟨y, hy, hynode, hyrank⟩ := tree.ranked z hz (by omega)
  obtain ⟨x, hx, -⟩ := tree.ranked y hynode (by omega)
  refine ⟨⟨x, y, z⟩, ?_, ?_, ?_⟩
  · rw [windowOf, hy, Option.bind_eq_bind, Option.bind_some, hx]
    rfl
  · rw [suitableBlockWithPending, previousWithPending_empty,
      show known z.header.prevBlock = some y from hy, ofOption_some, ok_bind,
      previousWithPending_empty, show known y.header.prevBlock = some x from hx]
    rfl
  · rintro block (rfl | rfl | rfl)
    · exact ⟨2, le_rfl, by rw [ancestor_succ_of_parent hy, ancestor_succ_of_parent hx]; rfl⟩
    · exact ⟨1, by omega, by rw [ancestor_succ_of_parent hy]; rfl⟩
    · exact ⟨0, by omega, rfl⟩

/-! ## The work of distinct hashes -/

/-- The work from an ancestor is positive, and at most that of the easiest distinct hashes. -/
theorem chainwork_le {x y : StoredHeader} (hx : known x.hash = some x) {n : ℕ}
    (hn : n ≤ x.height) (h : ancestor (parentIn known) n x = some y) :
    y.chainwork ≤ x.chainwork ∧
      x.chainwork ≤ y.chainwork + ∑ j ∈ range n, 2 ^ 256 / (j + 1) := by
  -- The value of the hash of the `i`-th ancestor.
  let value (i : ℕ) : ℕ :=
    (ancestor (parentIn known) i x).elim 0 fun stored => stored.hash.value
  have hinj : Set.InjOn value (range n) := by
    intro i hi j hj hij
    rw [mem_coe, mem_range] at hi hj
    obtain ⟨a, ha, hanode, harank⟩ := tree.ranked.exists_ancestor hx (hi.le.trans hn)
    obtain ⟨b, hb, hbnode, hbrank⟩ := tree.ranked.exists_ancestor hx (hj.le.trans hn)
    simp only [value, ha, hb, Option.elim_some] at hij
    rw [Octets.value_injective hij, hbnode, Option.some.injEq] at hanode
    rw [hanode] at hbrank
    omega
  have hanti : Antitone fun v : ℕ => 2 ^ 256 / (v + 1) :=
    fun a b hab => Nat.div_le_div_left (Nat.succ_le_succ hab) (Nat.succ_pos a)
  suffices y.chainwork ≤ x.chainwork ∧
      x.chainwork ≤ y.chainwork + ∑ i ∈ range n, 2 ^ 256 / (value i + 1) from
    ⟨this.1, this.2.trans (Nat.add_le_add_left (sum_comp_le_sum_range hanti hinj) _)⟩
  clear hinj
  -- One ancestor at a time: its work is at most that of a target equal to its hash.
  induction n generalizing y with
  | zero =>
    rw [ancestor_zero, Option.some.injEq] at h
    simp [h]
  | succ n ih =>
    obtain ⟨a, ha, hanode, harank⟩ :=
      tree.ranked.exists_ancestor hx ((Nat.le_succ n).trans hn)
    obtain ⟨parent, hp, hchild⟩ := tree.parent hanode (by omega)
    rw [ancestor_add_of_ancestor ha 1, ancestor_succ_of_parent hp, ancestor_zero,
      Option.some.injEq] at h
    subst h
    obtain ⟨work, hwork, hsum⟩ := hchild.chainwork_eq
    obtain ⟨target, -, hle, hw⟩ := verifyPow_eq_true (tree.pow hanode (by omega)) hwork
    have hvalue : value n = a.hash.value := by simp only [value, ha, Option.elim_some]
    have hle : work ≤ 2 ^ 256 / (value n + 1) := by
      rw [hw, hvalue]
      exact hanti hle
    obtain ⟨hge, hle'⟩ := ih ((Nat.le_succ n).trans hn) ha
    rw [sum_range_succ]
    omega

omit tree in
/-- A day of distinct hashes. -/
theorem sum_day_le : ∑ j ∈ range 146, 2 ^ 256 / (j + 1) ≤ 36 * 2 ^ 255 := by decide +kernel

omit tree in
theorem actualTimespan_ge (first last : StoredHeader) :
    mainnetMinActualTimespan ≤ actualTimespan first last := le_max_left _ _

/-- Two ancestors of a block, at most 146 blocks apart: the retarget between them computes the
    bits of an amount of work of at most `2 ^ 255`. -/
theorem retargetBits_eq {parent first last : StoredHeader}
    (hp : known parent.hash = some parent) {i j : ℕ} (hij : i < j) (hj : j ≤ i + 146)
    (hheight : j ≤ parent.height) (hlast : ancestor (parentIn known) i parent = some last)
    (hfirst : ancestor (parentIn known) j parent = some first) :
    first.chainwork ≤ last.chainwork ∧
      (last.chainwork - first.chainwork) * mainnetTargetSpacing / actualTimespan first last ≤
        2 ^ 255 ∧
      retargetBits first last =
        bitsForWork (last.chainwork - first.chainwork) (actualTimespan first last) := by
  obtain ⟨hlnode, hlrank⟩ := tree.ranked.of_ancestor hp (hij.le.trans hheight) hlast
  obtain ⟨hfnode, hfrank⟩ := tree.ranked.of_ancestor hp hheight hfirst
  have hanc : ancestor (parentIn known) (j - i) last = some first := by
    rw [← ancestor_add_of_ancestor hlast, Nat.add_sub_cancel' hij.le, hfirst]
  obtain ⟨hge, hle⟩ := tree.chainwork_le hlnode (by omega) hanc
  refine ⟨hge, ?_, ?_⟩
  · have hday : ∑ k ∈ range (j - i), 2 ^ 256 / (k + 1) ≤ 36 * 2 ^ 255 :=
      (sum_le_sum_of_subset (range_subset_range.2 (by omega))).trans sum_day_le
    have hspan := actualTimespan_ge first last
    rw [mainnetMinActualTimespan] at hspan
    refine Nat.div_le_of_le_mul ?_
    calc (last.chainwork - first.chainwork) * mainnetTargetSpacing
        ≤ 36 * 2 ^ 255 * mainnetTargetSpacing := by
          gcongr
          omega
      _ = 36 * mainnetTargetSpacing * 2 ^ 255 := by ring
      _ ≤ actualTimespan first last * 2 ^ 255 := by gcongr
  · rw [retargetBits, if_neg (by omega), if_neg (by omega)]

/-- Past the first day, the bits are those of a retarget between the middle blocks of the two
    windows. Between any two blocks of them, the retarget computes the bits of an amount of work
    of at most `2 ^ 255`. -/
theorem windowsOf_eq {z : StoredHeader} (hz : known z.hash = some z) (h : 146 ≤ z.height) :
    ∃ first last, windowsOf known z = some (first, last) ∧
      expectedMainnetBits known z = retargetBits first.middle last.middle ∧
      ∀ f l, first.Mem f → last.Mem l → f.chainwork ≤ l.chainwork ∧
        (l.chainwork - f.chainwork) * mainnetTargetSpacing / actualTimespan f l ≤ 2 ^ 255 ∧
        retargetBits f l = bitsForWork (l.chainwork - f.chainwork) (actualTimespan f l) := by
  obtain ⟨a, ha, hanode, harank⟩ :=
    tree.ranked.exists_ancestor hz (show 144 ≤ z.height by omega)
  obtain ⟨last, hlast, hlastmid, hlastmem⟩ := tree.windowOf_eq hz (by omega)
  obtain ⟨first, hfirst, hfirstmid, hfirstmem⟩ := tree.windowOf_eq hanode (by omega)
  have hancestor : ancestorWithPending known .empty z (z.height - mainnetBlocksPerDay) =
      .ok a := by
    have hsub : z.height - (z.height - mainnetBlocksPerDay) = 144 := by
      rw [mainnetBlocksPerDay]
      omega
    rw [ancestorWithPending, if_neg (by omega)]
    refine tree.ancestorLoop_eq_ok hz (Nat.sub_le ..) ?_ (by rw [hsub, ha])
    rw [hsub, maxWalk]
    norm_num
  refine ⟨first, last, ?_, ?_, fun f l hf hl => ?_⟩
  · rw [windowsOf, hlast, mainnetBlocksPerDay, ha]
    simp [hfirst]
  · rw [expectedMainnetBits, expectedMainnetBitsWithPending,
      if_neg (by rw [mainnetBlocksPerDay]; omega), hlastmid, ok_bind, hancestor, ok_bind,
      hfirstmid, ok_bind]
  · obtain ⟨i, hi, hl⟩ := hlastmem l hl
    obtain ⟨j, hj, hf⟩ := hfirstmem f hf
    rw [← ancestor_add_of_ancestor ha] at hf
    exact tree.retargetBits_eq hz (by omega) (by omega) (by omega) hl hf

end HeaderTree

/-! ## The bits of some work -/

/-- The target of the genesis block, the easiest one. -/
def mainnetLimit : ℕ := 0xffff * 2 ^ 200

theorem compactToTarget_mainnetPowBits : compactToTarget mainnetPowBits = .ok mainnetLimit := by
  decide +kernel

/-- The bits of the target at which `work` is done in `timespan`, no easier than the limit. -/
def requiredBits (work timespan : ℕ) : UInt32 :=
  let work := work * mainnetTargetSpacing / timespan
  if work = 0 then mainnetPowBits
  else
    let target := 2 ^ 256 / work - 1
    if mainnetLimit < target then mainnetPowBits else targetToCompact target

/-- The bits are computed without error when there is a target for the work. -/
theorem bitsForWork_eq {work timespan : ℕ}
    (h : work * mainnetTargetSpacing / timespan ≤ 2 ^ 255) :
    bitsForWork work timespan = .ok (requiredBits work timespan) := by
  rw [bitsForWork, requiredBits]
  generalize work * mainnetTargetSpacing / timespan = work at h
  dsimp only
  split_ifs with hzero hlimit
  · rfl
  all_goals
    rw [targetForWork_eq (Nat.pos_of_ne_zero hzero) (h.trans (by norm_num)),
      compactToTarget_mainnetPowBits]
    simp only [Except.mapError, ok_bind, hlimit, if_true, if_false]
    rfl

/-- Bits that are required and have a target have one within the limit. -/
theorem requiredBits_le_limit {work timespan target : ℕ}
    (h : compactToTarget (requiredBits work timespan) = .ok target) : target ≤ mainnetLimit := by
  rw [requiredBits] at h
  generalize work * mainnetTargetSpacing / timespan = work at h
  dsimp only at h
  have hlimit {target} (h : compactToTarget mainnetPowBits = .ok target) :
      target ≤ mainnetLimit := by
    rw [compactToTarget_mainnetPowBits, Except.ok.injEq] at h
    exact h.ge
  split_ifs at h with hzero hlt
  · exact hlimit h
  · exact hlimit h
  · -- The target is rounded down, unless it is zero, which has no compact form.
    have hle := not_lt.1 hlt
    rcases Nat.eq_zero_or_pos (2 ^ 256 / work - 1) with h0 | hpos
    · rw [h0] at h
      cases h
    · obtain ⟨target', htarget', hle'⟩ :=
        compactToTarget_targetToCompact hpos (hle.trans_lt (by rw [mainnetLimit]; norm_num))
      rw [htarget', Except.ok.injEq] at h
      exact h ▸ hle'.trans hle

/-- The bits a stored parent asks for are computed without error, and no easier than the
    limit. -/
theorem HeaderTree.exists_expectedMainnetBits {known : Headers} (tree : HeaderTree known)
    {parent : StoredHeader} (hp : known parent.hash = some parent) :
    ∃ bits, expectedMainnetBits known parent = .ok bits ∧
      ∀ target, compactToTarget bits = .ok target → target ≤ mainnetLimit := by
  by_cases h : parent.height < 146
  · refine ⟨mainnetPowBits, if_pos h, fun target ht => ?_⟩
    rw [compactToTarget_mainnetPowBits, Except.ok.injEq] at ht
    exact ht.ge
  · obtain ⟨first, last, -, hbits, hmem⟩ := tree.windowsOf_eq hp (not_lt.1 h)
    obtain ⟨-, hle, hretarget⟩ := hmem _ _ first.middle_mem last.middle_mem
    rw [hbits, hretarget, bitsForWork_eq hle]
    exact ⟨_, rfl, fun target => requiredBits_le_limit⟩

end Hns
