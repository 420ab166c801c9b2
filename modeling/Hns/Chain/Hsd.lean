import Hns.Chain.Sample

/-!
# Agreement with the reference node

The difficulty rule of HSD, the reference node, which picks the middle block of
each window by three swaps instead of a stable sort. The two picks have the
same time. They are different blocks when two of the three share their time and
do not come last in it: then the chain takes one block more, or one less, into
the work of the day (`middle_eq_hsd`).

* `expectedMainnetBits_eq_hsdBits_iff`: the bits agree exactly when these shifts
  do not change them.
-/

namespace Hns

open Except Ancestry

/-! ## The rule of HSD -/

/-- The middle block of a window, after the swaps. -/
def hsdSuitableBlock (window : Window) : StoredHeader :=
  let ⟨x, y, z⟩ := window
  let (x, z) := if z.time < x.time then (z, x) else (x, z)
  let (_, y) := if y.time < x.time then (y, x) else (x, y)
  let (y, _) := if z.time < y.time then (z, y) else (y, z)
  y

/-- The time between two blocks, clamped. -/
def hsdTimespan (first last : StoredHeader) : ℕ :=
  (max (mainnetMinActualTimespan : ℤ)
    (min (mainnetMaxActualTimespan : ℤ) (last.time - first.time))).toNat

/-- The bits of the target at which the work between two blocks takes their time. -/
def hsdRetarget (first last : StoredHeader) : UInt32 :=
  requiredBits (last.chainwork - first.chainwork) (hsdTimespan first last)

/-- The bits HSD requires of a child of `parent`. -/
def hsdBits (known : Headers) (parent : StoredHeader) : Option UInt32 :=
  if parent.height < mainnetBlocksPerDay + 2 then some mainnetPowBits
  else (windowsOf known parent).map fun (first, last) =>
    hsdRetarget (hsdSuitableBlock first) (hsdSuitableBlock last)

/-! ## Where the picks differ -/

/-- The work between HSD's pick and the middle block by a stable sort: of one block, when the
    last two share a time before the first, or the first two one after the last. -/
def Window.tieShift (window : Window) : ℤ :=
  let ⟨x, y, z⟩ := window
  if y.time = z.time ∧ z.time < x.time then z.chainwork - y.chainwork
  else if x.time = y.time ∧ z.time < y.time then x.chainwork - y.chainwork
  else 0

theorem hsdSuitableBlock_eq (x y z : StoredHeader) :
    hsdSuitableBlock ⟨x, y, z⟩ =
      if z.time < x.time then
        if y.time < z.time then z else if x.time < y.time then x else y
      else if y.time < x.time then x else if z.time < y.time then z else y := by
  rw [hsdSuitableBlock]
  by_cases hxz : z.time < x.time
  · by_cases hyz : y.time < z.time
    · simp [hxz, hyz, hxz.not_gt]
    · by_cases hxy : x.time < y.time <;> simp [hxz, hyz, hxy]
  · by_cases hyx : y.time < x.time
    · simp [hxz, hyx]
    · by_cases hzy : z.time < y.time <;> simp [hxz, hyx, hzy]

theorem hsdSuitableBlock_mem (window : Window) : window.Mem (hsdSuitableBlock window) := by
  obtain ⟨x, y, z⟩ := window
  rw [hsdSuitableBlock_eq, Window.Mem]
  split_ifs <;> simp

/-- The picks have the same time, and works that differ by the shift. -/
theorem middle_eq_hsd (window : Window) :
    window.middle.time = (hsdSuitableBlock window).time ∧
      (window.middle.chainwork : ℤ) =
        (hsdSuitableBlock window).chainwork + window.tieShift := by
  obtain ⟨x, y, z⟩ := window
  simp only [Window.middle, middleByTime_eq, hsdSuitableBlock_eq, Window.tieShift]
  split_ifs <;> omega

theorem hsdTimespan_eq (first last : StoredHeader) :
    hsdTimespan first last = actualTimespan first last := by
  rw [hsdTimespan, actualTimespan]
  omega

/-- The shifts of the two windows cancel, or leave the bits as they are. -/
def TiesHarmless (known : Headers) (parent : StoredHeader) : Prop :=
  ∀ windows ∈ windowsOf known parent,
    let (first, last) := windows
    let shift := last.tieShift - first.tieShift
    let work := (hsdSuitableBlock last).chainwork - (hsdSuitableBlock first).chainwork
    let timespan := hsdTimespan (hsdSuitableBlock first) (hsdSuitableBlock last)
    shift = 0 ∨ requiredBits (work + shift).toNat timespan = requiredBits work timespan

/-- For a stored parent, the bits the chain expects, reading its ancestors from a batch and the
    store, are those HSD requires exactly when the ties of the two windows are harmless. -/
theorem expectedMainnetBits_eq_hsdBits_iff {known pending : Headers}
    (tree : HeaderTree (pending.overlay known)) {parent : StoredHeader}
    (hp : pending.overlay known parent.hash = some parent) (h : 146 ≤ parent.height) :
    (∃ bits, hsdBits (pending.overlay known) parent = some bits ∧
        expectedMainnetBitsWithPending known pending parent = .ok bits) ↔
      TiesHarmless (pending.overlay known) parent := by
  rw [expectedMainnetBitsWithPending_eq]
  generalize pending.overlay known = known at *
  obtain ⟨first, last, hwindows, hbits, hmem⟩ := tree.windowsOf_eq hp h
  obtain ⟨hle, hbound, hretarget⟩ := hmem _ _ first.middle_mem last.middle_mem
  obtain ⟨hle', -, -⟩ := hmem _ _ (hsdSuitableBlock_mem first) (hsdSuitableBlock_mem last)
  obtain ⟨htfirst, hwfirst⟩ := middle_eq_hsd first
  obtain ⟨htlast, hwlast⟩ := middle_eq_hsd last
  have hspan : actualTimespan first.middle last.middle =
      hsdTimespan (hsdSuitableBlock first) (hsdSuitableBlock last) := by
    rw [hsdTimespan_eq, actualTimespan, actualTimespan, htfirst, htlast]
  have hwork : last.middle.chainwork - first.middle.chainwork =
      (((hsdSuitableBlock last).chainwork - (hsdSuitableBlock first).chainwork : ℕ) +
        (last.tieShift - first.tieShift)).toNat := by
    omega
  rw [hbits, hretarget, bitsForWork_eq hbound, hsdBits,
    if_neg (by rw [mainnetBlocksPerDay]; omega), hwindows, TiesHarmless, hwindows]
  simp only [Option.map_some, Option.some.injEq, Except.ok.injEq, exists_eq_left',
    Option.mem_def, forall_eq', hsdRetarget]
  rw [hspan, hwork]
  constructor
  · exact fun heq => .inr heq
  · rintro (hzero | heq)
    · rw [hzero, add_zero, Int.toNat_natCast]
    · exact heq

/-! ## Two chains -/

namespace Sample

open HeaderStore

/-- The bits agree on a chain with a block every ten minutes. -/
theorem exists_hsdBits_of_spaced : ∃ bits,
    hsdBits (Table.empty.overlay (headersTo false spaced 146)) (entryAt false spaced 146) =
        some bits ∧
      expectedMainnetBitsWithPending (headersTo false spaced 146) .empty
        (entryAt false spaced 146) = .ok bits := by
  have hn : 146 < 2 ^ 31 := by norm_num
  have hgrows : Grows .mainnet ChainTree.genesis.headers (entriesTo false spaced 146) :=
    grows_of_spaced hn
  have htree := (validTree hn hgrows).headerTree
  have hmem := headersTo_apply hgrows (Nat.le_refl 146)
  have hwindows := windowsOf_entryAt hgrows (Nat.le_refl (0 + 146))
  rw [← Table.overlay_empty (headersTo false spaced 146)] at htree hmem hwindows
  refine (expectedMainnetBits_eq_hsdBits_iff htree hmem (Nat.le_refl 146)).2 ?_
  intro windows h
  rw [hwindows, Option.mem_some_iff] at h
  subst h
  left
  have htime {i : ℕ} (hi : i ≤ 146) : (entryAt false spaced (0 + i)).time = spaced (0 + i) :=
    time_entryAt_spaced (by omega)
  have hshift {i : ℕ} (hi : i ≤ 144) : Window.tieShift ⟨entryAt false spaced (0 + i),
      entryAt false spaced (0 + (i + 1)), entryAt false spaced (0 + (i + 2))⟩ = 0 := by
    rw [Window.tieShift, htime (by omega), htime (by omega), htime (by omega), spaced, spaced, spaced,
      if_neg (by omega), if_neg (by omega)]
  exact (congrArg₂ (· - ·) (hshift (Nat.le_refl 144)) (hshift (Nat.zero_le 144))).trans
    (sub_self 0)

/-- Five minutes apart, but for the last three blocks: the first of them is the latest, and the
    others share their time. -/
def tied (height : ℕ) : ℕ :=
  1580745078 + if height < 144 then 300 * height else if height = 144 then 43800 else 43500

theorem time_entryAt_tied {height : ℕ} (h : height ≤ 146) :
    (entryAt false tied height).time = tied height := by
  cases height with
  | zero => rfl
  | succ height =>
    refine UInt64.toNat_ofNat_of_lt' ?_
    rw [tied, UInt64.size]
    split_ifs <;> omega

/-- The picks in the windows of the last block: the sort takes the last block, the swaps the
    one before. -/
theorem picks_tied :
    middleByTime (entryAt false tied 0) (entryAt false tied 1) (entryAt false tied 2) =
        entryAt false tied 1 ∧
      middleByTime (entryAt false tied 144) (entryAt false tied 145) (entryAt false tied 146) =
        entryAt false tied 146 ∧
      hsdSuitableBlock ⟨entryAt false tied 0, entryAt false tied 1, entryAt false tied 2⟩ =
        entryAt false tied 1 ∧
      hsdSuitableBlock ⟨entryAt false tied 144, entryAt false tied 145, entryAt false tied 146⟩ =
        entryAt false tied 145 := by
  simp only [middleByTime_eq, hsdSuitableBlock_eq, time_entryAt_tied (Nat.zero_le 146),
    time_entryAt_tied (by omega : 1 ≤ 146), time_entryAt_tied (by omega : 2 ≤ 146),
    time_entryAt_tied (by omega : 144 ≤ 146), time_entryAt_tied (by omega : 145 ≤ 146),
    time_entryAt_tied (Nat.le_refl 146), tied]
  norm_num

/-- The bits do not agree in a store reached from the empty one, whose last three blocks are
    tied. -/
theorem exists_expectedMainnetBits_ne_hsdBits :
    ∃ (m : MemoryHeaderStore) (parent : StoredHeader) (expected required : UInt32),
      Reachable m ∧ m.headers parent.hash = some parent ∧ 146 ≤ parent.height ∧
        expectedMainnetBitsWithPending m.headers .empty parent = .ok expected ∧
        hsdBits m.headers parent = some required ∧ expected ≠ required := by
  have hn : 146 < 2 ^ 31 := by norm_num
  have hgrows : Grows .mainnet ChainTree.genesis.headers (entriesTo false tied 146) :=
    grows hn fun height hlt _ => if_pos hlt
  obtain ⟨e, haccepted, -, hreach⟩ := exists_reachable hn hgrows (by norm_num)
  have hheaders : (ChainTree.genesis.extend e).toStore.headers = headersTo false tied 146 :=
    congrArg ChainTree.genesis.headers.add haccepted
  obtain ⟨hfirst, hlast, hfirst', hlast'⟩ := picks_tied
  have htime {i : ℕ} (hi : i ≤ 146) : (entryAt false tied i).time = tied i :=
    time_entryAt_tied hi
  have hspan : actualTimespan (entryAt false tied 1) (entryAt false tied 146) = 43200 := by
    rw [actualTimespan, htime (by omega), htime (by omega)]
    decide
  have hspan' : hsdTimespan (entryAt false tied 1) (entryAt false tied 145) = 43200 := by
    rw [hsdTimespan_eq, actualTimespan, htime (by omega), htime (by omega)]
    decide
  have hwork (i : ℕ) : (entryAt false tied (i + 1)).chainwork - (entryAt false tied 1).chainwork =
      i * blockWork := by
    simp only [entryAt]
    rw [← Nat.sub_mul]
    rfl
  refine ⟨_, entryAt false tied 146, requiredBits (145 * blockWork) 43200,
    requiredBits (144 * blockWork) 43200, hreach, ?_, Nat.le_refl 146, ?_, ?_, by decide +kernel⟩
  · rw [hheaders]
    exact headersTo_apply hgrows (Nat.le_refl 146)
  · rw [hheaders]
    refine (expectedMainnetBits_entryAt hn hgrows (Nat.le_refl (0 + 146))).trans ?_
    rw [hfirst, hlast, retargetBits, hwork 145, hspan]
    decide +kernel
  · have hday : ¬(entryAt false tied 146).height < mainnetBlocksPerDay + 2 := Nat.lt_irrefl 146
    rw [hheaders, hsdBits, if_neg hday, windowsOf_entryAt hgrows (Nat.le_refl (0 + 146)),
      Option.map_some]
    dsimp only
    rw [hfirst', hlast', hsdRetarget, hwork 144, hspan']

end Sample

end Hns
