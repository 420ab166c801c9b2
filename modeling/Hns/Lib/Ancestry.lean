import Mathlib.Tactic

/-!
# Ancestry

A forest given by a partial `parent` function. `ancestor parent n x` is the
`n`-th ancestor of `x`, and `lineage parent n x` lists the ancestors of `x`
from the `n`-th one down to `x` itself.

In a *ranked* forest every node of positive rank has a parent, one rank below:
a node of rank `r` has exactly one ancestor at every rank `0, …, r`
(`Ranked.exists_ancestor`), and they only depend on the entries met on the way
(`ancestor_mono`): a forest that grows keeps the lineage of its nodes.
-/

namespace Ancestry

variable {α : Type*} (parent parent' : α → Option α)

/-- The `n`-th ancestor of a node. -/
def ancestor : ℕ → α → Option α
  | 0, x => some x
  | n + 1, x => (parent x).bind (ancestor n)

/-- The ancestors of `x`, from the `n`-th one (or the last there is) to `x`. -/
def lineage : ℕ → α → List α
  | 0, x => [x]
  | n + 1, x =>
    match parent x with
    | none => [x]
    | some p => lineage n p ++ [x]

/-- Every node of positive rank has a parent, one rank below. -/
def Ranked (node : α → Prop) (rank : α → ℕ) : Prop :=
  ∀ x, node x → 0 < rank x → ∃ p, parent x = some p ∧ node p ∧ rank x = rank p + 1

variable {parent parent'}

@[simp] theorem ancestor_zero (x : α) : ancestor parent 0 x = some x := rfl

theorem ancestor_succ (n : ℕ) (x : α) :
    ancestor parent (n + 1) x = (parent x).bind (ancestor parent n) := rfl

theorem ancestor_succ_of_parent {x p : α} (h : parent x = some p) (n : ℕ) :
    ancestor parent (n + 1) x = ancestor parent n p := by
  rw [ancestor_succ, h, Option.bind_some]

theorem ancestor_add (m n : ℕ) (x : α) :
    ancestor parent (m + n) x = (ancestor parent m x).bind (ancestor parent n) := by
  induction m generalizing x with
  | zero => simp
  | succ m ih =>
    rw [Nat.succ_add, ancestor_succ, ancestor_succ, Option.bind_assoc]
    congr 1
    funext p
    exact ih p

theorem ancestor_add_of_ancestor {x y : α} {m : ℕ} (h : ancestor parent m x = some y) (n : ℕ) :
    ancestor parent (m + n) x = ancestor parent n y := by
  rw [ancestor_add, h, Option.bind_some]

/-- Ancestors are kept when the forest grows. -/
theorem ancestor_mono (h : ∀ x p, parent x = some p → parent' x = some p) {n : ℕ} {x y : α}
    (hy : ancestor parent n x = some y) : ancestor parent' n x = some y := by
  induction n generalizing x with
  | zero => exact hy
  | succ n ih =>
    rw [ancestor_succ, Option.bind_eq_some_iff] at hy
    obtain ⟨p, hp, hy⟩ := hy
    rw [ancestor_succ_of_parent (h x p hp), ih hy]

theorem length_lineage {n : ℕ} {x y : α} (h : ancestor parent n x = some y) :
    (lineage parent n x).length = n + 1 := by
  induction n generalizing x with
  | zero => rfl
  | succ n ih =>
    rw [ancestor_succ, Option.bind_eq_some_iff] at h
    obtain ⟨p, hp, hy⟩ := h
    rw [lineage, hp]
    simp [ih hy]

/-- The entries of a lineage, from the end. -/
theorem getElem?_lineage {n : ℕ} {x y : α} (h : ancestor parent n x = some y) {i : ℕ}
    (hi : i ≤ n) : (lineage parent n x)[n - i]? = ancestor parent i x := by
  induction n generalizing x i with
  | zero => simp [Nat.le_zero.1 hi, lineage]
  | succ n ih =>
    rw [ancestor_succ, Option.bind_eq_some_iff] at h
    obtain ⟨p, hp, hy⟩ := h
    have hlen := length_lineage hy
    rw [lineage, hp]
    cases i with
    | zero => simp [hlen]
    | succ i =>
      rw [ancestor_succ_of_parent hp, ← ih hy (by omega), Nat.add_sub_add_right,
        List.getElem?_append_left (by omega)]

theorem lineage_ne_nil (n : ℕ) (x : α) : lineage parent n x ≠ [] := by
  cases n with
  | zero => simp [lineage]
  | succ n =>
    rw [lineage]
    split <;> simp

@[simp] theorem getLast?_lineage (n : ℕ) (x : α) : (lineage parent n x).getLast? = some x := by
  cases n with
  | zero => simp [lineage]
  | succ n =>
    rw [lineage]
    split <;> simp

/-- A member of a lineage is an ancestor. -/
theorem exists_of_mem_lineage {n : ℕ} {x z : α} (hz : z ∈ lineage parent n x) :
    ∃ i ≤ n, ancestor parent i x = some z := by
  induction n generalizing x with
  | zero =>
    rw [lineage, List.mem_singleton] at hz
    exact ⟨0, le_rfl, by rw [hz]; rfl⟩
  | succ n ih =>
    rw [lineage] at hz
    split at hz
    · rw [List.mem_singleton] at hz
      exact ⟨0, Nat.zero_le _, by rw [hz]; rfl⟩
    · next p hp =>
      rcases List.mem_append.1 hz with hz | hz
      · obtain ⟨i, hi, h⟩ := ih hz
        exact ⟨i + 1, by omega, by rw [ancestor_succ_of_parent hp, h]⟩
      · rw [List.mem_singleton] at hz
        exact ⟨0, Nat.zero_le _, by rw [hz]; rfl⟩

section Ranked

variable {node : α → Prop} {rank : α → ℕ} (hr : Ranked parent node rank)

include hr

/-- A node has an ancestor at every rank up to its own. -/
theorem Ranked.exists_ancestor {x : α} (hx : node x) {n : ℕ} (hn : n ≤ rank x) :
    ∃ y, ancestor parent n x = some y ∧ node y ∧ rank y + n = rank x := by
  induction n generalizing x with
  | zero => exact ⟨x, rfl, hx, rfl⟩
  | succ n ih =>
    obtain ⟨p, hp, hpn, hrank⟩ := hr x hx (by omega)
    obtain ⟨y, hy, hyn, hyr⟩ := ih hpn (by omega)
    exact ⟨y, by rw [ancestor_succ_of_parent hp, hy], hyn, by omega⟩

/-- What an ancestor within the rank of a node is. -/
theorem Ranked.of_ancestor {x y : α} (hx : node x) {n : ℕ} (hn : n ≤ rank x)
    (hy : ancestor parent n x = some y) : node y ∧ rank y + n = rank x := by
  obtain ⟨z, hz, hzn, hzr⟩ := hr.exists_ancestor hx hn
  rw [hy, Option.some.injEq] at hz
  exact hz ▸ ⟨hzn, hzr⟩

/-- A lineage from the root has one node at every rank. -/
theorem Ranked.map_rank_lineage {x : α} (hx : node x) :
    (lineage parent (rank x) x).map rank = List.range (rank x + 1) := by
  induction h : rank x generalizing x with
  | zero => simp [lineage, h]
  | succ n ih =>
    obtain ⟨p, hp, hpn, hrank⟩ := hr x hx (by omega)
    rw [lineage, hp]
    dsimp only
    rw [List.map_append, ih hpn (by omega), List.range_succ (n := n + 1), List.map_singleton, h]

/-- Every node of a lineage is one. -/
theorem Ranked.node_of_mem_lineage {x y : α} (hx : node x)
    (hy : y ∈ lineage parent (rank x) x) : node y := by
  obtain ⟨i, hi, h⟩ := exists_of_mem_lineage hy
  exact (hr.of_ancestor hx hi h).1

/-- Every ancestor within the rank of a node is in its lineage. -/
theorem Ranked.mem_lineage {x y : α} (hx : node x) {n : ℕ} (hn : n ≤ rank x)
    (hy : ancestor parent n x = some y) : y ∈ lineage parent (rank x) x := by
  obtain ⟨root, hroot, -, -⟩ := hr.exists_ancestor hx le_rfl
  exact List.mem_of_getElem? ((getElem?_lineage hroot hn).trans hy)

end Ranked

end Ancestry
