import Hns.Chain.Store

/-!
# The difficulty of the next block

What bits a header must carry, given its parent: those of the genesis block
over the first day, then those of a target recomputed from the work and the
time between two blocks a day apart. Each of the two is the middle one, by
time, of three blocks in a row.

The ancestors are read from the headers of a batch that are not stored yet
(`pending`) before the stored ones (`known`), which is reading them from the
one table `pending.overlay known` (`expectedMainnetBitsWithPending_eq`).
-/

namespace Hns

open Except

inductive DifficultyPolicy
  | mainnet
  | permissive
  deriving DecidableEq

def mainnetPowBits : UInt32 := 0x1c00ffff

def mainnetTargetSpacing : ℕ := 10 * 60

def mainnetBlocksPerDay : ℕ := 144

def mainnetMinActualTimespan : ℕ := 36 * mainnetTargetSpacing

def mainnetMaxActualTimespan : ℕ := 576 * mainnetTargetSpacing

/-- Headers by hash. -/
abbrev Headers := Table Hash StoredHeader

/-- The time of a header. -/
def StoredHeader.time (header : StoredHeader) : ℕ := header.header.time.toNat

/-- The more steps than there are heights, after which a walk to an ancestor is given up. -/
def maxWalk : ℕ := 2 ^ 32

section Source

variable (known pending : Headers)

def previousWithPending (header : StoredHeader) : Except ChainError StoredHeader :=
  match pending header.header.prevBlock with
  | some previous => .ok previous
  | none => ofOption .unknownParent (known header.header.prevBlock)

/-- The loop of `ancestor_with_pending`, for a number of rounds. -/
def ancestorLoop (height : ℕ) : ℕ → StoredHeader → Except ChainError StoredHeader
  | 0, _ => .error .invalidDifficultyWindow
  | fuel + 1, current =>
    if height < current.height then do
      ancestorLoop height fuel (← previousWithPending known pending current)
    else .ok current

def ancestorWithPending (header : StoredHeader) (height : ℕ) : Except ChainError StoredHeader :=
  if header.height < height then .error .invalidDifficultyWindow
  else ancestorLoop known pending height maxWalk header

/-- The second of three blocks sorted by time (`sort_by_key` is stable). -/
def middleByTime (x y z : StoredHeader) : StoredHeader :=
  ([x, y, z].insertionSort fun a b => a.time ≤ b.time).getD 1 y

def suitableBlockWithPending (header : StoredHeader) : Except ChainError StoredHeader := do
  let z := header
  let y ← previousWithPending known pending z
  let x ← previousWithPending known pending y
  return middleByTime x y z

/-- `saturating_sub` and `clamp` on the times of two blocks. -/
def actualTimespan (first last : StoredHeader) : ℕ :=
  max mainnetMinActualTimespan (min mainnetMaxActualTimespan (last.time - first.time))

/-- The bits of the target at which `work` is done in `timespan`. -/
def bitsForWork (work timespan : ℕ) : Except ChainError UInt32 := do
  let work := work * mainnetTargetSpacing / timespan
  if work = 0 then return mainnetPowBits
  let target ← (targetForWork work).mapError .pow
  if (← (compactToTarget mainnetPowBits).mapError .pow) < target then return mainnetPowBits
  return targetToCompact target

def retargetBits (first last : StoredHeader) : Except ChainError UInt32 := do
  if last.height ≤ first.height then throw .invalidDifficultyWindow
  if last.chainwork < first.chainwork then throw .invalidDifficultyWindow
  bitsForWork (last.chainwork - first.chainwork) (actualTimespan first last)

def expectedMainnetBitsWithPending (parent : StoredHeader) : Except ChainError UInt32 := do
  if parent.height < mainnetBlocksPerDay + 2 then return mainnetPowBits
  let last ← suitableBlockWithPending known pending parent
  let ancestor ← ancestorWithPending known pending parent (parent.height - mainnetBlocksPerDay)
  let first ← suitableBlockWithPending known pending ancestor
  retargetBits first last

def validateDifficultyBitsWithPending (policy : DifficultyPolicy) (header : BlockHeader)
    (parent : StoredHeader) : Except ChainError Unit := do
  match policy with
  | .permissive => return
  | .mainnet =>
    let expected ← expectedMainnetBitsWithPending known pending parent
    if header.bits ≠ expected then throw (.invalidDifficultyBits header.bits expected)

def validateDifficultyBits (policy : DifficultyPolicy) (header : BlockHeader)
    (parent : StoredHeader) : Except ChainError Unit :=
  validateDifficultyBitsWithPending known .empty policy header parent

def expectedMainnetBits (parent : StoredHeader) : Except ChainError UInt32 :=
  expectedMainnetBitsWithPending known .empty parent

end Source

/-! ## Reading the ancestors from one table -/

section Overlay

variable (known pending : Headers)

theorem previousWithPending_empty (header : StoredHeader) :
    previousWithPending known .empty header =
      ofOption .unknownParent (known header.header.prevBlock) := rfl

theorem previousWithPending_eq :
    previousWithPending known pending =
      previousWithPending (pending.overlay known) .empty := by
  funext header
  rw [previousWithPending_empty, previousWithPending, Table.overlay]
  cases pending header.header.prevBlock <;> rfl

theorem ancestorLoop_eq (height fuel : ℕ) :
    ancestorLoop known pending height fuel =
      ancestorLoop (pending.overlay known) .empty height fuel := by
  induction fuel with
  | zero => rfl
  | succ fuel ih =>
    funext current
    rw [ancestorLoop, ancestorLoop, ih, previousWithPending_eq]

theorem suitableBlockWithPending_eq :
    suitableBlockWithPending known pending =
      suitableBlockWithPending (pending.overlay known) .empty := by
  funext header
  rw [suitableBlockWithPending, suitableBlockWithPending, previousWithPending_eq]

/-- The bits only depend on what the two tables hold together. -/
theorem expectedMainnetBitsWithPending_eq (parent : StoredHeader) :
    expectedMainnetBitsWithPending known pending parent =
      expectedMainnetBits (pending.overlay known) parent := by
  rw [expectedMainnetBits, expectedMainnetBitsWithPending, expectedMainnetBitsWithPending,
    suitableBlockWithPending_eq, ancestorWithPending, ancestorWithPending, ancestorLoop_eq]

theorem validateDifficultyBitsWithPending_eq (policy : DifficultyPolicy) (header : BlockHeader)
    (parent : StoredHeader) :
    validateDifficultyBitsWithPending known pending policy header parent =
      validateDifficultyBits (pending.overlay known) policy header parent := by
  cases policy with
  | permissive => rfl
  | mainnet =>
    rw [validateDifficultyBits, validateDifficultyBitsWithPending,
      validateDifficultyBitsWithPending, expectedMainnetBitsWithPending_eq, expectedMainnetBits]

end Overlay

/-! ## Storing more headers -/

section Sub

variable {known known' : Headers} (hsub : known.Sub known')

include hsub

theorem previous_sub {header previous : StoredHeader}
    (h : previousWithPending known .empty header = .ok previous) :
    previousWithPending known' .empty header = .ok previous :=
  ofOption_eq_ok.2 (hsub _ _ (ofOption_eq_ok.1 h))

theorem ancestorLoop_sub {height fuel : ℕ} {header ancestor : StoredHeader}
    (h : ancestorLoop known .empty height fuel header = .ok ancestor) :
    ancestorLoop known' .empty height fuel header = .ok ancestor := by
  induction fuel generalizing header with
  | zero => simp [ancestorLoop] at h
  | succ fuel ih =>
    rw [ancestorLoop] at h ⊢
    split_ifs at h ⊢ with hlt
    · obtain ⟨previous, hprev, h⟩ := bind_eq_ok.1 h
      exact bind_eq_ok.2 ⟨previous, previous_sub hsub hprev, ih h⟩
    · exact h

theorem suitableBlock_sub {header suitable : StoredHeader}
    (h : suitableBlockWithPending known .empty header = .ok suitable) :
    suitableBlockWithPending known' .empty header = .ok suitable := by
  obtain ⟨y, hy, h⟩ := bind_eq_ok.1 h
  obtain ⟨x, hx, h⟩ := bind_eq_ok.1 h
  exact bind_eq_ok.2 ⟨y, previous_sub hsub hy, bind_eq_ok.2 ⟨x, previous_sub hsub hx, h⟩⟩

/-- Bits once found stay the same. -/
theorem expectedMainnetBits_sub {parent : StoredHeader} {bits : UInt32}
    (h : expectedMainnetBits known parent = .ok bits) :
    expectedMainnetBits known' parent = .ok bits := by
  rw [expectedMainnetBits, expectedMainnetBitsWithPending] at h ⊢
  split_ifs at h ⊢ with hlt
  · exact h
  · obtain ⟨last, hlast, h⟩ := bind_eq_ok.1 h
    obtain ⟨ancestor, hanc, h⟩ := bind_eq_ok.1 h
    obtain ⟨first, hfirst, h⟩ := bind_eq_ok.1 h
    refine bind_eq_ok.2 ⟨last, suitableBlock_sub hsub hlast, bind_eq_ok.2 ⟨ancestor, ?_,
      bind_eq_ok.2 ⟨first, suitableBlock_sub hsub hfirst, h⟩⟩⟩
    rw [ancestorWithPending] at hanc ⊢
    split_ifs at hanc ⊢ with hlt'
    exact ancestorLoop_sub hsub hanc

theorem validateDifficultyBits_sub {policy : DifficultyPolicy} {header : BlockHeader}
    {parent : StoredHeader} (h : validateDifficultyBits known policy header parent = .ok ()) :
    validateDifficultyBits known' policy header parent = .ok () := by
  cases policy with
  | permissive => rfl
  | mainnet =>
    obtain ⟨expected, hexp, h⟩ := bind_eq_ok.1 h
    exact bind_eq_ok.2 ⟨expected, expectedMainnetBits_sub hsub hexp, h⟩

end Sub

/-- On the main network, the bits of a header are those its parent asks for. -/
theorem validateDifficultyBits_mainnet {known : Headers} {header : BlockHeader}
    {parent : StoredHeader} :
    validateDifficultyBits known .mainnet header parent = .ok () ↔
      expectedMainnetBits known parent = .ok header.bits := by
  rw [validateDifficultyBits, validateDifficultyBitsWithPending, ← expectedMainnetBits]
  cases expectedMainnetBits known parent with
  | error e => simp
  | ok expected =>
    by_cases h : header.bits = expected
    · simp only [h, ok_bind, ne_eq, not_true_eq_false, if_false, iff_true]
      rfl
    · simp [h, Ne.symm h]

end Hns
