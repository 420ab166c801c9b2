import Mathlib.Data.List.Sort
import Hns.Resolver.Basic

/-!
# The size of the resource cache

`enforce_value_byte_limit` of `SqliteResourceValueProvider`: as long as the values have more octets
than they may, the oldest row is deleted. Any statement can fail (`Faults`). What is deleted is the
shortest beginning of the rows in order that is enough (`IsShortestExcess`).
-/

namespace Hns

open Except

/-- A row of `verified_resource_values`, its texts as the octets that they are compared by. -/
structure ResourceRow where
  rootName : List UInt8
  nameHash : List UInt8
  value : Option (List UInt8)
  updatedAtUnix : Int

namespace ResourceRow

/-- `PRIMARY KEY(root_name, name_hash)` -/
def key (row : ResourceRow) : List UInt8 × List UInt8 := (row.rootName, row.nameHash)

/-- `COALESCE(length(value), 0)` -/
def valueBytes (row : ResourceRow) : ℕ := (row.value.map List.length).getD 0

/-- `ORDER BY updated_at_unix ASC, root_name ASC, name_hash ASC` -/
def order : ResourceRow → ResourceRow → Ordering :=
  compareLex (compareOn updatedAtUnix) (compareLex (compareOn rootName) (compareOn nameHash))

end ResourceRow

/-- The octets of the values of some rows. -/
def valueBytes (rows : List ResourceRow) : ℕ := (rows.map ResourceRow.valueBytes).sum

/-- The table `verified_resource_values`. It has fewer rows than SQLite can have at all. -/
structure ResourceTable where
  rows : List ResourceRow
  nodup : (rows.map ResourceRow.key).Nodup
  fits : rows.length < 2 ^ 64

/-- The error that each statement of a connection ends in, if any. -/
abbrev Faults := ℕ → Option String

namespace ResourceTable

def inOrder (table : ResourceTable) : List ResourceRow :=
  table.rows.mergeSort fun a b => (ResourceRow.order a b).isLE

/-- `DELETE FROM verified_resource_values WHERE root_name = ?1 AND name_hash = ?2` -/
def delete (table : ResourceTable) (key : List UInt8 × List UInt8) : ResourceTable where
  rows := table.rows.filter fun row => row.key ≠ key
  nodup := table.nodup.sublist (List.filter_sublist.map _)
  fits := Nat.lt_of_le_of_lt (List.length_filter_le _ _) table.fits

/-- A statement that comes to something, unless it fails. -/
def execute {α : Type} (faults : Faults) (n : ℕ) (result : α) : Except ResolverError α :=
  match faults n with
  | some message => .error (.storage message)
  | none => .ok result

/-- `SUM` is of 64 bits, and with a sign. -/
def totalValueBytesIn (faults : Faults) (n : ℕ) (table : ResourceTable) : Except ResolverError ℕ :=
  if valueBytes table.rows < 2 ^ 63 then execute faults n (valueBytes table.rows)
  else .error (.storage "integer overflow")

def oldestResourceValueEntry (table : ResourceTable) : Option ResourceRow := table.inOrder.head?

theorem length_delete_lt {table : ResourceTable} {row : ResourceRow}
    (h : table.oldestResourceValueEntry = some row) :
    (table.delete row.key).rows.length < table.rows.length := by
  refine List.length_filter_lt_length_iff_exists.2 ⟨row, ?_, by simp⟩
  exact (List.mergeSort_perm _ _).mem_iff.1 (List.mem_of_mem_head? h)

/-- The loop of `enforce_value_byte_limit`, from its `n`-th statement on. -/
def enforceLoop (faults : Faults) (maxBytes n : ℕ) (table : ResourceTable) (total removed : ℕ) :
    Except ResolverError (ResourceTable × ℕ × ℕ) :=
  if total ≤ maxBytes then .ok (table, removed, n)
  else do
    execute faults n ()
    match h : table.oldestResourceValueEntry with
    | none => .ok (table, removed, n + 1)
    | some entry => do
      execute faults (n + 1) ()
      enforceLoop faults maxBytes (n + 2) (table.delete entry.key) (total - entry.valueBytes)
        (min (removed + 1) (2 ^ 64 - 1))
termination_by table.rows.length
decreasing_by exact length_delete_lt h

/-- What happens between the start of the transaction and its end. -/
def transaction (faults : Faults) (table : ResourceTable) (maxBytes : ℕ) :
    Except ResolverError (ResourceTable × ℕ) := do
  execute faults 0 ()
  let total ← totalValueBytesIn faults 1 table
  let (table, removed, n) ← enforceLoop faults maxBytes 2 table total 0
  execute faults n ()
  return (table, removed)

/-- A transaction that is not committed is rolled back. -/
def enforceValueByteLimit (poisoned : Bool) (faults : Faults) (table : ResourceTable)
    (maxBytes : ℕ) : Except ResolverError ℕ × ResourceTable :=
  if poisoned then (.error .cachePoisoned, table)
  else
    match transaction faults table maxBytes with
    | .error e => (.error e, table)
    | .ok (after, removed) => (.ok removed, after)

end ResourceTable

/-! ## The order of the rows -/

namespace ResourceRow

instance : Std.TransCmp order :=
  inferInstanceAs (Std.TransCmp (compareLex (compareOn updatedAtUnix)
    (compareLex (compareOn rootName) (compareOn nameHash))))

theorem key_eq_of_order {a b : ResourceRow} (h : order a b = .eq) : a.key = b.key := by
  rw [order, compareLex_eq_eq, compareLex_eq_eq] at h
  obtain ⟨-, hname, hhash⟩ := h
  exact Prod.ext (Std.LawfulEqCmp.eq_of_compare hname) (Std.LawfulEqCmp.eq_of_compare hhash)

end ResourceRow

/-- As many rows in front as it takes to bring the total to the limit, and no more. -/
structure IsShortestExcess (maxBytes : ℕ) (rows : List ResourceRow) (removed : ℕ) : Prop where
  le_length : removed ≤ rows.length
  le_limit : valueBytes (rows.drop removed) ≤ maxBytes
  minimal : ∀ fewer < removed, maxBytes < valueBytes (rows.drop fewer)

theorem IsShortestExcess.cons {maxBytes removed : ℕ} {row : ResourceRow} {rows : List ResourceRow}
    (h : IsShortestExcess maxBytes rows removed) (hlt : maxBytes < valueBytes (row :: rows)) :
    IsShortestExcess maxBytes (row :: rows) (removed + 1) where
  le_length := Nat.succ_le_succ h.le_length
  le_limit := h.le_limit
  minimal fewer hfewer := by
    cases fewer with
    | zero => exact hlt
    | succ fewer => exact h.minimal fewer (Nat.lt_of_succ_lt_succ hfewer)

theorem valueBytes_perm {rows rows' : List ResourceRow} (h : rows.Perm rows') :
    valueBytes rows = valueBytes rows' := (h.map _).sum_eq

namespace ResourceTable

variable {table after : ResourceTable} {rows : List ResourceRow} {faults : Faults}
  {maxBytes n n' removed removed' : ℕ}

theorem isLE_total (a b : ResourceRow) :
    ((ResourceRow.order a b).isLE || (ResourceRow.order b a).isLE) = true := by
  have hswap : ResourceRow.order b a = (ResourceRow.order a b).swap := Std.OrientedCmp.eq_swap
  rw [hswap]
  cases ResourceRow.order a b <;> rfl

theorem pairwise_inOrder (table : ResourceTable) :
    table.inOrder.Pairwise fun a b => ResourceRow.order a b = .lt := by
  have hle : table.inOrder.Pairwise fun a b => (ResourceRow.order a b).isLE :=
    List.pairwise_mergeSort (fun _ _ _ => Std.TransCmp.isLE_trans) isLE_total _
  have hne : table.inOrder.Pairwise fun a b => a.key ≠ b.key :=
    List.pairwise_map.1 (((List.mergeSort_perm _ _).map _).nodup_iff.2 table.nodup)
  refine (hle.and hne).imp fun h => ?_
  exact Ordering.isLE_iff_eq_lt_or_eq_eq.1 h.1 |>.resolve_right fun heq =>
    h.2 (ResourceRow.key_eq_of_order heq)

/-- There is only one way to put the rows in order. -/
theorem inOrder_eq (hperm : rows.Perm table.rows)
    (hsorted : rows.Pairwise fun a b => ResourceRow.order a b = .lt) : table.inOrder = rows := by
  refine List.Perm.eq_of_pairwise (fun a b _ _ hab hba => ?_) table.pairwise_inOrder hsorted
    ((List.mergeSort_perm _ _).trans hperm.symm)
  have hswap : ResourceRow.order a b = (ResourceRow.order b a).swap := Std.OrientedCmp.eq_swap
  rw [hba, hab] at hswap
  cases hswap

theorem execute_eq_ok {α : Type} {result result' : α} :
    execute faults n result = .ok result' ↔ faults n = none ∧ result = result' := by
  rw [execute]
  cases faults n <;> simp

theorem totalValueBytesIn_eq_ok {total : ℕ}
    (h : totalValueBytesIn faults n table = .ok total) : total = valueBytes table.rows := by
  rw [totalValueBytesIn] at h
  split_ifs at h
  exact (execute_eq_ok.1 h).2.symm

theorem exists_enforceLoop_eq_ok (maxBytes n : ℕ) (table : ResourceTable) (total removed : ℕ) :
    ∃ result, enforceLoop (fun _ => none) maxBytes n table total removed = .ok result := by
  induction hlength : table.rows.length using Nat.strong_induction_on
    generalizing table n total removed with
  | h length ih =>
    rw [enforceLoop]
    split_ifs with hle
    · exact ⟨_, rfl⟩
    · simp only [execute, Except.ok_bind]
      split
      · exact ⟨_, rfl⟩
      · next entry hentry => exact ih _ (hlength ▸ length_delete_lt hentry) _ _ _ _ rfl

/-- The key of a row is that of no other. -/
theorem perm_delete {row : ResourceRow} (hperm : (row :: rows).Perm table.rows) :
    rows.Perm (table.delete row.key).rows := by
  have hnodup := ((hperm.map ResourceRow.key).nodup_iff.2 table.nodup)
  rw [List.map_cons, List.nodup_cons] at hnodup
  have hfilter := hperm.filter fun row' => row'.key ≠ row.key
  rw [List.filter_cons_of_neg (by simp), List.filter_eq_self.2] at hfilter
  · exact hfilter
  · exact fun row' hrow' => decide_eq_true fun heq => hnodup.1 (heq ▸ List.mem_map_of_mem hrow')

/-- What the loop removes is the shortest beginning of the rows in order that is enough. -/
theorem enforceLoop_eq_ok (hperm : rows.Perm table.rows)
    (hsorted : rows.Pairwise fun a b => ResourceRow.order a b = .lt)
    (hfits : removed + rows.length < 2 ^ 64)
    (hloop : enforceLoop faults maxBytes n table (valueBytes rows) removed =
      .ok (after, removed', n')) :
    ∃ count, removed' = removed + count ∧ IsShortestExcess maxBytes rows count ∧
      after.rows.Perm (rows.drop count) := by
  induction rows generalizing table n removed with
  | nil =>
    have hzero : valueBytes [] ≤ maxBytes := Nat.zero_le maxBytes
    rw [enforceLoop, if_pos hzero] at hloop
    cases hloop
    exact ⟨0, rfl, ⟨Nat.le_refl _, Nat.zero_le _, nofun⟩, hperm.symm⟩
  | cons row rows ih =>
    rw [enforceLoop] at hloop
    split_ifs at hloop with hle
    · cases hloop
      exact ⟨0, rfl, ⟨Nat.zero_le _, hle, nofun⟩, hperm.symm⟩
    · have holdest : table.oldestResourceValueEntry = some row := by
        rw [oldestResourceValueEntry, inOrder_eq hperm hsorted, List.head?_cons]
      obtain ⟨-, -, hloop⟩ := Except.bind_eq_ok.1 hloop
      split at hloop
      · next hnone =>
        rw [holdest] at hnone
        cases hnone
      · next entry hentry =>
        obtain rfl : row = entry := Option.some.inj (holdest.symm.trans hentry)
        obtain ⟨-, -, hloop⟩ := Except.bind_eq_ok.1 hloop
        have hrest : valueBytes (row :: rows) - row.valueBytes = valueBytes rows :=
          Nat.add_sub_cancel_left _ _
        have hremoved : min (removed + 1) (2 ^ 64 - 1) = removed + 1 := by
          rw [List.length_cons] at hfits
          omega
        rw [hrest, hremoved] at hloop
        rw [List.length_cons, ← Nat.add_assoc, Nat.add_right_comm] at hfits
        obtain ⟨count, hcount, hshortest, hafter⟩ :=
          ih (perm_delete hperm) (List.pairwise_cons.1 hsorted).2 hfits hloop
        exact ⟨count + 1, by omega, hshortest.cons (Nat.lt_of_not_le hle), hafter⟩

/-- What a transaction that is committed has removed. -/
theorem transaction_eq_ok (h : transaction faults table maxBytes = .ok (after, removed)) :
    IsShortestExcess maxBytes table.inOrder removed ∧
      after.rows.Perm (table.inOrder.drop removed) := by
  obtain ⟨-, -, h⟩ := Except.bind_eq_ok.1 h
  obtain ⟨total, htotal, h⟩ := Except.bind_eq_ok.1 h
  obtain ⟨⟨after', removed', n⟩, hloop, h⟩ := Except.bind_eq_ok.1 h
  obtain ⟨-, -, h⟩ := Except.bind_eq_ok.1 h
  cases h
  have hperm : table.inOrder.Perm table.rows := List.mergeSort_perm _ _
  rw [totalValueBytesIn_eq_ok htotal, ← valueBytes_perm hperm] at hloop
  have hfits : 0 + table.inOrder.length < 2 ^ 64 := by
    rw [Nat.zero_add, hperm.length_eq]
    exact table.fits
  obtain ⟨count, hcount, hshortest, hafter⟩ :=
    enforceLoop_eq_ok hperm table.pairwise_inOrder hfits hloop
  obtain rfl : removed = count := by omega
  exact ⟨hshortest, hafter⟩

/-- `enforce_value_byte_limit` either removes the shortest beginning of the rows in order that is
    enough, and returns how many these are, or it leaves the table as it was. -/
theorem enforceValueByteLimit_removes (poisoned : Bool) (faults : Faults) (table : ResourceTable)
    (maxBytes : ℕ) :
    match enforceValueByteLimit poisoned faults table maxBytes with
    | (.ok removed, after) =>
      valueBytes after.rows ≤ maxBytes ∧ ∃ rows, rows.Perm table.rows ∧
        (rows.Pairwise fun a b => ResourceRow.order a b = .lt) ∧
        IsShortestExcess maxBytes rows removed ∧ after.rows.Perm (rows.drop removed)
    | (.error _, after) => after = table := by
  rw [enforceValueByteLimit]
  cases poisoned with
  | true => rfl
  | false =>
    rw [if_neg Bool.false_ne_true]
    cases hrun : transaction faults table maxBytes with
    | error e => rfl
    | ok result =>
      obtain ⟨after, removed⟩ := result
      obtain ⟨-, -, hrun⟩ := Except.bind_eq_ok.1 hrun
      obtain ⟨total, htotal, hrun⟩ := Except.bind_eq_ok.1 hrun
      obtain ⟨⟨after', removed', n⟩, hloop, hrun⟩ := Except.bind_eq_ok.1 hrun
      obtain ⟨-, -, hrun⟩ := Except.bind_eq_ok.1 hrun
      cases hrun
      have hperm : table.inOrder.Perm table.rows := List.mergeSort_perm _ _
      rw [totalValueBytesIn_eq_ok htotal, ← valueBytes_perm hperm] at hloop
      have hfits : 0 + table.inOrder.length < 2 ^ 64 := by
        rw [Nat.zero_add, hperm.length_eq]
        exact table.fits
      obtain ⟨count, hcount, hshortest, hafter⟩ :=
        enforceLoop_eq_ok hperm table.pairwise_inOrder hfits hloop
      rw [Nat.zero_add] at hcount
      subst hcount
      refine ⟨?_, table.inOrder, hperm, table.pairwise_inOrder, hshortest, hafter⟩
      rw [valueBytes_perm hafter]
      exact hshortest.le_limit

/-- Nothing else than a statement can fail, or a total that does not fit. -/
theorem enforceValueByteLimit_isOk (table : ResourceTable) (maxBytes : ℕ)
    (htotal : valueBytes table.rows < 2 ^ 63) :
    (enforceValueByteLimit false (fun _ => none) table maxBytes).1.isOk := by
  obtain ⟨⟨after, removed, n⟩, hloop⟩ :=
    exists_enforceLoop_eq_ok maxBytes 2 table (valueBytes table.rows) 0
  have hrun : transaction (fun _ => none) table maxBytes = .ok (after, removed) := by
    rw [transaction, totalValueBytesIn, if_pos htotal]
    simp only [execute, Except.ok_bind]
    rw [hloop]
    rfl
  rw [enforceValueByteLimit, if_neg Bool.false_ne_true, hrun]
  rfl

end ResourceTable

end Hns
