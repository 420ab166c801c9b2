import Hns.Core.Utf8
import Hns.Lib.HashMap
import Hns.Resolver.ByteLimit
import Hns.Resolver.Delegating
import Hns.Resolver.Values

/-!
# The stores of verified resource values

`MemoryResourceValueProvider` and `SqliteResourceValueProvider` of `hns-resolver`.
Both keep one value for each name, the latest one that has been inserted.

* `prove_inserted`: after the same insertions, both say the same of every name;
* `pruneInvalidAnchors_spec`: pruning leaves the rows with an anchor that is
  valid, and nothing is removed unless all else is.
-/

namespace Hns

open Except

section Stores

variable [Digests]

def normalizeVerifiedRoot (rootName : List Char) : Except ResolverError (List Char) :=
  hnsRootLabel rootName

def normalizeVerifiedResourceValue (verified : VerifiedResourceValue) :
    Except ResolverError VerifiedResourceValue := do
  let rootName ← normalizeVerifiedRoot verified.rootName
  let nameHash ← (NameHash.fromName rootName).mapError .invalidName
  if verified.nameHash ≠ nameHash then throw .proofNameMismatch
  return { verified with rootName }

/-- The name that a value is looked up by, if the hash is its own. -/
def lookupRoot (rootName : List Char) (nameHash : NameHash) :
    Except ResolverError (List Char) := do
  let rootName ← normalizeVerifiedRoot rootName
  let expected ← (NameHash.fromName rootName).mapError .invalidName
  if nameHash ≠ expected then throw .proofNameMismatch
  return rootName

namespace ProvenNameRecords

omit [Digests] in
/-- The records of a value. -/
def recordsOfValue (rootName : List Char) :
    Option (List UInt8) → Except ResolverError (List ResourceRecord)
  | some value => do
    let owner ← (DnsName.fromAscii rootName).mapError fun _ => .unsupportedBackend
    (decodeHandshakeResourceRecords owner value).mapError .invalidResource
  | none => .ok []

omit [Digests] in
def fromVerifiedResourceValue (verified : VerifiedResourceValue) :
    Except ResolverError ProvenNameRecords := do
  let records ← recordsOfValue verified.rootName verified.value
  return {
    rootName := verified.rootName
    nameHash := verified.nameHash
    records
    secure := verified.secure
    nameExists := verified.value.isSome }

end ProvenNameRecords

/-! ## The store in memory -/

abbrev MemoryResourceValueProvider := HashMap (List Char × NameHash) VerifiedResourceValue

namespace MemoryResourceValueProvider

def insert (poisoned : Bool) (verified : VerifiedResourceValue)
    (values : MemoryResourceValueProvider) : Except ResolverError MemoryResourceValueProvider := do
  let rootName ← normalizeVerifiedRoot verified.rootName
  let verified ← normalizeVerifiedResourceValue verified
  if poisoned then throw .cachePoisoned
  return HashMap.insert values (rootName, verified.nameHash) verified

def proveResourceValue (poisoned : Bool) (values : MemoryResourceValueProvider)
    (rootName : List Char) (nameHash : NameHash) : Except ResolverError VerifiedResourceValue := do
  let rootName ← lookupRoot rootName nameHash
  if poisoned then throw .cachePoisoned
  ofOption .proofUnavailable (values.get? (rootName, nameHash))

end MemoryResourceValueProvider

/-! ## The store in a database -/

/-- A row of `verified_resource_values`, with all its columns. -/
structure ValueRow extends ResourceRow where
  secure : ℤ
  proofTreeRoot : Option (List UInt8)
  proofHeight : Option ℤ

/-- The table `verified_resource_values`. It has fewer rows than SQLite can have at all. -/
structure ValueTable where
  rows : List ValueRow
  nodup : (rows.map fun row => row.key).Nodup
  fits : rows.length < 2 ^ 64

/-- How a statement may fail before it is run. -/
inductive StatementFault
  | poisoned
  | failed (message : String)

def StatementFault.error : StatementFault → ResolverError
  | .poisoned => .cachePoisoned
  | .failed message => .storage message

omit [Digests] in
/-- `rusqlite::Error::FromSqlConversionFailure`, as a text. -/
def conversionFailure (index : ℕ) (type error : String) : ResolverError :=
  .storage ("Conversion error from type " ++ type ++ " at index: " ++ toString index ++ ", " ++ error)

/-- `Hash::from_slice`, as a conversion of a column. -/
def columnHash (index : ℕ) (bytes : List UInt8) : Except ResolverError Hash :=
  if h : bytes.length = 32 then .ok ⟨bytes, h⟩
  else .error (conversionFailure index "Blob" "hash hex must decode to 32 bytes")

def sqliteAnchor : Option (List UInt8) → Option ℤ →
    Except ResolverError (Option ResourceValueAnchor)
  | some root, some height => do
    let treeRoot ← columnHash 2 root
    if height < 0 ∨ 2 ^ 32 ≤ height then
      throw (conversionFailure 3 "Integer" "out of range integral type conversion attempted")
    return some ⟨treeRoot, height.toNat⟩
  | _, _ => return none

namespace ValueRow

/-- The row that is written for a value. -/
def ofVerified (now : ℤ) (verified : VerifiedResourceValue) : ValueRow where
  rootName := utf8 verified.rootName
  nameHash := verified.nameHash.bytes
  value := verified.value
  updatedAtUnix := now
  secure := if verified.secure then 1 else 0
  proofTreeRoot := verified.anchor.map fun anchor => anchor.treeRoot.bytes
  proofHeight := verified.anchor.map fun anchor => anchor.height

/-- The value that is read from a row. -/
def toVerified (row : ValueRow) (rootName : List Char) :
    Except ResolverError VerifiedResourceValue := do
  let storedHash ← columnHash 0 row.nameHash
  let anchor ← sqliteAnchor row.proofTreeRoot row.proofHeight
  return ⟨rootName, storedHash, row.value, row.secure ≠ 0, anchor⟩

end ValueRow

namespace ValueTable

/-- `Default::default`. -/
def empty : ValueTable := ⟨[], List.nodup_nil, by decide⟩

def find (table : ValueTable) (key : List UInt8 × List UInt8) : Option ValueRow :=
  table.rows.find? fun row => row.key = key

/-- The rows that pass the test. -/
def retain (table : ValueTable) (keep : ValueRow → Bool) : ValueTable where
  rows := table.rows.filter keep
  nodup := table.nodup.sublist (List.filter_sublist.map _)
  fits := Nat.lt_of_le_of_lt (List.length_filter_le _ _) table.fits

/-- `DELETE FROM verified_resource_values WHERE root_name = ?1 AND name_hash = ?2` -/
def delete (table : ValueTable) (key : List UInt8 × List UInt8) : ValueTable :=
  table.retain fun row => row.key ≠ key

/-- `INSERT INTO .. ON CONFLICT(root_name, name_hash) DO UPDATE`. -/
def upsert (table : ValueTable) (row : ValueRow) : Except ResolverError ValueTable :=
  if h : (table.delete row.key).rows.length + 1 < 2 ^ 64 then
    .ok {
      rows := row :: (table.delete row.key).rows
      nodup := by
        rw [List.map_cons, List.nodup_cons]
        refine ⟨fun hmem => ?_, (table.delete row.key).nodup⟩
        obtain ⟨row', hrow', heq⟩ := List.mem_map.1 hmem
        exact of_decide_eq_true (List.mem_filter.1 hrow').2 heq
      fits := h }
  else .error (.storage "database or disk is full")

def insert (fault : Option StatementFault) (now : ℤ) (verified : VerifiedResourceValue)
    (table : ValueTable) : Except ResolverError ValueTable := do
  let verified ← normalizeVerifiedResourceValue verified
  match fault with
  | some fault => throw fault.error
  | none => table.upsert (.ofVerified now verified)

def proveResourceValue (fault : Option StatementFault) (table : ValueTable)
    (rootName : List Char) (nameHash : NameHash) : Except ResolverError VerifiedResourceValue := do
  let rootName ← lookupRoot rootName nameHash
  match fault with
  | some fault => throw fault.error
  | none =>
    let row ← ofOption .proofUnavailable (table.find (utf8 rootName, nameHash.bytes))
    row.toVerified rootName

/-- `clear` -/
def clear (fault : Option StatementFault) (_ : ValueTable) : Except ResolverError ValueTable :=
  match fault with
  | some fault => .error fault.error
  | none => .ok .empty

/-! ### Pruning -/

/-- `resource_value_anchor_entries` -/
def anchorEntries (table : ValueTable) :
    Except ResolverError (List ((List UInt8 × List UInt8) × Option ResourceValueAnchor)) :=
  table.rows.mapM fun row => do
    let anchor ← sqliteAnchor row.proofTreeRoot row.proofHeight
    return (row.key, anchor)

/-- Whether a row is kept. -/
def keepsAnchor (valid : List ResourceValueAnchor) (pruneUnanchored : Bool) :
    Option ResourceValueAnchor → Bool
  | some anchor => anchor ∈ valid
  | none => !pruneUnanchored

/-- The loop of `prune_invalid_anchors`, from its `n`-th statement on. -/
def pruneLoop (faults : Faults) (valid : List ResourceValueAnchor) (pruneUnanchored : Bool) :
    ℕ → List ((List UInt8 × List UInt8) × Option ResourceValueAnchor) → ValueTable → ℕ →
      Except ResolverError (ValueTable × ℕ × ℕ)
  | n, [], table, removed => .ok (table, removed, n)
  | n, (key, anchor) :: entries, table, removed =>
    if keepsAnchor valid pruneUnanchored anchor then
      pruneLoop faults valid pruneUnanchored n entries table removed
    else do
      ResourceTable.execute faults n ()
      pruneLoop faults valid pruneUnanchored (n + 1) entries (table.delete key)
        (min (removed + 1) (2 ^ 64 - 1))

/-- What happens between the start of the transaction and its end. -/
def pruneTransaction (faults : Faults) (valid : List ResourceValueAnchor) (pruneUnanchored : Bool)
    (table : ValueTable) : Except ResolverError (ValueTable × ℕ) := do
  ResourceTable.execute faults 0 ()
  ResourceTable.execute faults 1 ()
  let entries ← table.anchorEntries
  let (table, removed, n) ← pruneLoop faults valid pruneUnanchored 2 entries table 0
  ResourceTable.execute faults n ()
  return (table, removed)

/-- A transaction that is not committed is rolled back. -/
def pruneInvalidAnchors (poisoned : Bool) (faults : Faults) (valid : List ResourceValueAnchor)
    (pruneUnanchored : Bool) (table : ValueTable) : Except ResolverError ℕ × ValueTable :=
  if poisoned then (.error .cachePoisoned, table)
  else
    match pruneTransaction faults valid pruneUnanchored table with
    | .error e => (.error e, table)
    | .ok (after, removed) => (.ok removed, after)

/-! ### The limit of the size -/

/-- The columns that the limit of the size is about. -/
def sizes (table : ValueTable) : ResourceTable where
  rows := table.rows.map ValueRow.toResourceRow
  nodup := by
    rw [List.map_map]
    exact table.nodup
  fits := by
    rw [List.length_map]
    exact table.fits

/-- `enforce_value_byte_limit`, which deletes rows by their keys. -/
def enforceValueByteLimit (poisoned : Bool) (faults : Faults) (table : ValueTable) (maxBytes : ℕ) :
    Except ResolverError ℕ × ValueTable :=
  let (result, after) := table.sizes.enforceValueByteLimit poisoned faults maxBytes
  (result, table.retain fun row => row.key ∈ after.rows.map ResourceRow.key)

/-- `ResourceValueCacheStats`. -/
structure Stats where
  entries : ℕ
  valueBytes : ℕ

def stats (faults : Faults) (table : ValueTable) : Except ResolverError Stats := do
  let valueBytes ← ResourceTable.totalValueBytesIn faults 0 table.sizes
  return ⟨table.rows.length, valueBytes⟩

end ValueTable

/-! ## What the stores keep -/

section Rows

omit [Digests]

variable {table after : ValueTable} {row row' : ValueRow} {key : List UInt8 × List UInt8}

namespace ValueTable

theorem find_eq_some_iff : table.find key = some row ↔ row ∈ table.rows ∧ row.key = key := by
  rw [find]
  constructor
  · intro h
    exact ⟨List.mem_of_find?_eq_some h, by simpa using List.find?_some h⟩
  · rintro ⟨hmem, rfl⟩
    cases hfind : table.rows.find? fun row' => row'.key = row.key with
    | none => exact absurd (List.find?_eq_none.1 hfind row hmem) (by simp)
    | some other =>
      have hkey : other.key = row.key := by simpa using List.find?_some hfind
      exact congrArg some
        (List.inj_on_of_nodup_map table.nodup (List.mem_of_find?_eq_some hfind) hmem hkey)

theorem mem_delete : row ∈ (table.delete key).rows ↔ row ∈ table.rows ∧ row.key ≠ key := by
  rw [delete, retain, List.mem_filter, decide_eq_true_eq]

theorem mem_upsert (h : table.upsert row = .ok after) :
    row' ∈ after.rows ↔ row' = row ∨ row' ∈ table.rows ∧ row'.key ≠ row.key := by
  rw [upsert] at h
  split_ifs at h
  cases h
  rw [List.mem_cons, mem_delete]

/-- A row is found under its own key, and the others as before. -/
theorem find_upsert (h : table.upsert row = .ok after) :
    after.find key = if key = row.key then some row else table.find key := by
  split_ifs with hkey
  · subst hkey
    exact find_eq_some_iff.2 ⟨(mem_upsert h).2 (.inl rfl), rfl⟩
  · refine Option.ext fun other => ?_
    rw [find_eq_some_iff, find_eq_some_iff, mem_upsert h]
    constructor
    · rintro ⟨rfl | ⟨hmem, -⟩, rfl⟩
      · exact absurd rfl hkey
      · exact ⟨hmem, rfl⟩
    · rintro ⟨hmem, rfl⟩
      exact ⟨.inr ⟨hmem, hkey⟩, rfl⟩

theorem exists_upsert (row : ValueRow) (h : table.rows.length + 1 < 2 ^ 64) :
    ∃ after, table.upsert row = .ok after := by
  have hlength : (table.delete row.key).rows.length + 1 < 2 ^ 64 :=
    Nat.lt_of_le_of_lt (Nat.succ_le_succ (List.length_filter_le _ _)) h
  exact ⟨_, dif_pos hlength⟩

theorem length_upsert_le (h : table.upsert row = .ok after) :
    after.rows.length ≤ table.rows.length + 1 := by
  rw [upsert] at h
  split_ifs at h
  cases h
  exact Nat.succ_le_succ (List.length_filter_le _ _)

end ValueTable

theorem columnHash_bytes (index : ℕ) (hash : Hash) : columnHash index hash.bytes = .ok hash :=
  dif_pos hash.length_bytes

/-- The columns of an anchor say what the anchor is. -/
theorem sqliteAnchor_columns {anchor : Option ResourceValueAnchor}
    (h : ∀ a, anchor = some a → a.height < 2 ^ 32) :
    sqliteAnchor (anchor.map fun a => a.treeRoot.bytes) (anchor.map fun a => (a.height : ℤ)) =
      .ok anchor := by
  cases anchor with
  | none => rfl
  | some a =>
    have hheight : ¬((a.height : ℤ) < 0 ∨ 2 ^ 32 ≤ (a.height : ℤ)) := by
      have hlt := h a rfl
      omega
    simp only [Option.map_some, sqliteAnchor, columnHash_bytes, Except.ok_bind, if_neg hheight]
    rfl

/-- What is read from the row of a value is the value. -/
theorem ValueRow.toVerified_ofVerified {verified : VerifiedResourceValue} (now : ℤ)
    (h : ∀ a, verified.anchor = some a → a.height < 2 ^ 32) :
    (ofVerified now verified).toVerified verified.rootName = .ok verified := by
  rw [toVerified, ofVerified]
  dsimp only
  rw [columnHash_bytes, sqliteAnchor_columns h]
  obtain ⟨rootName, nameHash, value, secure, anchor⟩ := verified
  cases secure <;> rfl

end Rows

/-! ### The same insertions -/

/-- Both stores have the same values. -/
def SameValues (memory : MemoryResourceValueProvider) (table : ValueTable) : Prop :=
  ∀ rootName (nameHash : NameHash),
    (memory.get? (rootName, nameHash)).map Except.ok =
      (table.find (utf8 rootName, nameHash.bytes)).map fun row => row.toVerified rootName

theorem normalizeVerifiedResourceValue_eq_ok {verified verified' : VerifiedResourceValue}
    (h : normalizeVerifiedResourceValue verified = .ok verified') :
    normalizeVerifiedRoot verified.rootName = .ok verified'.rootName ∧
      NameHash.fromName verified'.rootName = .ok verified'.nameHash ∧
      verified' = { verified with rootName := verified'.rootName } := by
  obtain ⟨rootName, hroot, h⟩ := Except.bind_eq_ok.1 h
  obtain ⟨nameHash, hhash, h⟩ := Except.bind_eq_ok.1 h
  obtain ⟨heq, h⟩ := Except.throw_unless.1 h
  cases h
  exact ⟨hroot, (not_not.1 heq).symm ▸ Except.mapError_eq_ok.1 hhash, rfl⟩

omit [Digests] in
theorem SameValues.upsert {memory : MemoryResourceValueProvider} {table after : ValueTable}
    (h : SameValues memory table) {verified : VerifiedResourceValue} {now : ℤ}
    (hanchor : ∀ a, verified.anchor = some a → a.height < 2 ^ 32)
    (hupsert : table.upsert (.ofVerified now verified) = .ok after) :
    SameValues (HashMap.insert memory (verified.rootName, verified.nameHash) verified) after := by
  intro rootName nameHash
  rw [ValueTable.find_upsert hupsert, HashMap.get?_insert]
  by_cases hkey : rootName = verified.rootName ∧ nameHash = verified.nameHash
  · obtain ⟨rfl, rfl⟩ := hkey
    have hrow : (utf8 verified.rootName, verified.nameHash.bytes) =
        (ValueRow.ofVerified now verified).key := rfl
    rw [if_pos rfl, if_pos hrow, Option.map_some, Option.map_some,
      ValueRow.toVerified_ofVerified now hanchor]
  · rw [if_neg, if_neg]
    · exact h rootName nameHash
    · rintro heq
      obtain ⟨hroot, hhash⟩ := Prod.mk.inj heq
      exact hkey ⟨utf8_injective hroot, Octets.ext hhash⟩
    · rintro heq
      exact hkey (Prod.mk.inj heq)

/-- The insertions, one after the other; what fails changes nothing. -/
def MemoryResourceValueProvider.insertAll (values : List (ℤ × VerifiedResourceValue)) :
    MemoryResourceValueProvider :=
  values.foldl (fun memory value =>
    ((MemoryResourceValueProvider.insert false value.2 memory).toOption).getD memory) .empty

def ValueTable.insertAll (values : List (ℤ × VerifiedResourceValue)) : ValueTable :=
  values.foldl (fun table value => (table.insert none value.1 value.2).toOption.getD table) .empty

theorem MemoryResourceValueProvider.insert_eq (verified : VerifiedResourceValue)
    (memory : MemoryResourceValueProvider) :
    MemoryResourceValueProvider.insert false verified memory =
      (normalizeVerifiedResourceValue verified).map fun verified =>
        HashMap.insert memory (verified.rootName, verified.nameHash) verified := by
  rw [insert]
  cases hroot : normalizeVerifiedRoot verified.rootName with
  | error e =>
    have herror : normalizeVerifiedResourceValue verified = .error e := by
      rw [normalizeVerifiedResourceValue, hroot]
      rfl
    rw [herror]
    rfl
  | ok rootName =>
    cases hvalue : normalizeVerifiedResourceValue verified with
    | error e => rfl
    | ok verified' =>
      have hsame := (normalizeVerifiedResourceValue_eq_ok hvalue).1
      rw [hroot] at hsame
      cases hsame
      rfl

theorem sameValues_insertAll (values : List (ℤ × VerifiedResourceValue))
    (hanchor : ∀ value ∈ values, ∀ a, value.2.anchor = some a → a.height < 2 ^ 32)
    (hfits : values.length < 2 ^ 64) :
    SameValues (.insertAll values) (.insertAll values) ∧
      (ValueTable.insertAll values).rows.length ≤ values.length := by
  induction values using List.reverseRecOn with
  | nil => exact ⟨fun _ _ => rfl, Nat.le_refl _⟩
  | append_singleton values value ih =>
    rw [List.length_append, List.length_singleton] at hfits ⊢
    obtain ⟨hsame, hlength⟩ := ih (fun v hv => hanchor v (List.mem_append_left _ hv)) (by omega)
    rw [MemoryResourceValueProvider.insertAll, ValueTable.insertAll, List.foldl_concat,
      List.foldl_concat, ← MemoryResourceValueProvider.insertAll, ← ValueTable.insertAll,
      MemoryResourceValueProvider.insert_eq, ValueTable.insert]
    cases hvalue : normalizeVerifiedResourceValue value.2 with
    | error e => exact ⟨hsame, Nat.le_succ_of_le hlength⟩
    | ok verified =>
      obtain ⟨-, -, hverified⟩ := normalizeVerifiedResourceValue_eq_ok hvalue
      have hheight : ∀ a, verified.anchor = some a → a.height < 2 ^ 32 := by
        rw [hverified]
        exact hanchor value (List.mem_append_right _ List.mem_cons_self)
      obtain ⟨after, hafter⟩ := ValueTable.exists_upsert (.ofVerified value.1 verified)
        (show (ValueTable.insertAll values).rows.length + 1 < 2 ^ 64 by omega)
      rw [Except.ok_bind, hafter]
      exact ⟨hsame.upsert hheight hafter,
        (ValueTable.length_upsert_le hafter).trans (Nat.succ_le_succ hlength)⟩

/-- After the same insertions, whatever they are and whether they fail or not, the two stores answer
    alike, for every name and every hash. -/
theorem prove_inserted (values : List (ℤ × VerifiedResourceValue))
    (hanchor : ∀ value ∈ values, ∀ a, value.2.anchor = some a → a.height < 2 ^ 32)
    (hfits : values.length < 2 ^ 64) (rootName : List Char) (nameHash : NameHash) :
    (ValueTable.insertAll values).proveResourceValue none rootName nameHash =
      (MemoryResourceValueProvider.insertAll values).proveResourceValue false rootName nameHash := by
  have hsame := (sameValues_insertAll values hanchor hfits).1
  rw [ValueTable.proveResourceValue, MemoryResourceValueProvider.proveResourceValue]
  cases lookupRoot rootName nameHash with
  | error e => rfl
  | ok root =>
    have hboth := hsame root nameHash
    simp only [Except.ok_bind]
    cases hmemory : (MemoryResourceValueProvider.insertAll values).get? (root, nameHash) with
    | none =>
      rw [hmemory, Option.map_none, eq_comm, Option.map_eq_none_iff] at hboth
      rw [hboth]
      rfl
    | some verified =>
      rw [hmemory, Option.map_some, eq_comm, Option.map_eq_some_iff] at hboth
      obtain ⟨row, hrow, hread⟩ := hboth
      rw [hrow]
      exact hread

end Stores

namespace InsertedSample

/-- Two values of one name, and one of another. -/
def values : List (ℤ × VerifiedResourceValue) :=
  [(0, ⟨Chars.of "a", .zero, none, true, some ⟨.zero, 1⟩⟩),
    (1, ⟨Chars.of "b.c.", .zero, some [0], true, none⟩),
    (2, ⟨Chars.of "a.", .zero, some [0], true, some ⟨.zero, 2⟩⟩)]

theorem height_lt : ∀ value ∈ values, ∀ a, value.2.anchor = some a → a.height < 2 ^ 32 := by
  simp [values]

end InsertedSample

section

open DelegatingSample InsertedSample

theorem prove_inserted_subdomain :
    (ValueTable.insertAll values).proveResourceValue none (Chars.of "www.a") .zero =
      (MemoryResourceValueProvider.insertAll values).proveResourceValue false (Chars.of "www.a")
        .zero :=
  prove_inserted values height_lt (by decide) (Chars.of "www.a") .zero

end

/-! ### Pruning -/

section Pruning

/-- The anchor of a row, if its columns have one. -/
def ValueRow.anchor (row : ValueRow) : Option ResourceValueAnchor :=
  (sqliteAnchor row.proofTreeRoot row.proofHeight).toOption.join

namespace ValueTable

variable {faults : Faults} {valid : List ResourceValueAnchor} {pruneUnanchored : Bool}
  {table after : ValueTable} {n n' removed removed' : ℕ}

theorem anchorEntries_eq {entries : List ((List UInt8 × List UInt8) × Option ResourceValueAnchor)}
    (h : table.anchorEntries = .ok entries) :
    entries = table.rows.map fun row => (row.key, row.anchor) := by
  have hrows := Except.mapM_eq_ok.1 h
  rw [← List.forall₂_eq_eq_eq, List.forall₂_map_right_iff]
  refine hrows.flip.imp fun entry row hread => ?_
  obtain ⟨anchor, hanchor, hread⟩ := Except.bind_eq_ok.1 hread
  cases hread
  rw [ValueRow.anchor, hanchor]
  rfl

/-- The keys of the rows that are to be removed. -/
def prunedKeys (valid : List ResourceValueAnchor) (pruneUnanchored : Bool)
    (entries : List ((List UInt8 × List UInt8) × Option ResourceValueAnchor)) :
    List (List UInt8 × List UInt8) :=
  (entries.filter fun entry => !keepsAnchor valid pruneUnanchored entry.2).map Prod.fst

theorem pruneLoop_eq_ok {entries : List ((List UInt8 × List UInt8) × Option ResourceValueAnchor)}
    (hfits : removed + entries.length < 2 ^ 64)
    (h : pruneLoop faults valid pruneUnanchored n entries table removed = .ok (after, removed', n')) :
    after.rows = table.rows.filter (fun row => row.key ∉ prunedKeys valid pruneUnanchored entries) ∧
      removed' = removed + (prunedKeys valid pruneUnanchored entries).length := by
  induction entries generalizing table n removed with
  | nil =>
    cases h
    simp [prunedKeys]
  | cons entry entries ih =>
    obtain ⟨key, anchor⟩ := entry
    rw [List.length_cons] at hfits
    rw [pruneLoop] at h
    rw [prunedKeys, List.filter_cons]
    split_ifs at h with hkeep
    · rw [if_neg (by simpa using hkeep)]
      exact ih (by omega) h
    · obtain ⟨-, -, h⟩ := Except.bind_eq_ok.1 h
      have hremoved : min (removed + 1) (2 ^ 64 - 1) = removed + 1 := by omega
      rw [hremoved] at h
      obtain ⟨hrows, hcount⟩ := ih (by omega) h
      rw [if_pos (by simpa using hkeep), List.map_cons, ← prunedKeys]
      refine ⟨?_, by rw [hcount, List.length_cons]; omega⟩
      rw [hrows, delete, retain, List.filter_filter]
      refine List.filter_congr fun row _ => ?_
      simp [not_or, Bool.and_comm]

/-- A row has to go just when its key is among those to be removed. -/
theorem key_mem_prunedKeys {row : ValueRow} (hrow : row ∈ table.rows) :
    row.key ∈ prunedKeys valid pruneUnanchored (table.rows.map fun row => (row.key, row.anchor)) ↔
      keepsAnchor valid pruneUnanchored row.anchor = false := by
  simp only [prunedKeys, List.mem_map, List.mem_filter, Bool.not_eq_true']
  constructor
  · rintro ⟨-, ⟨⟨row', hrow', rfl⟩, hdrop⟩, hkey⟩
    obtain rfl := List.inj_on_of_nodup_map table.nodup hrow' hrow hkey
    exact hdrop
  · exact fun hdrop => ⟨_, ⟨⟨row, hrow, rfl⟩, hdrop⟩, rfl⟩

/-- Pruning fails and leaves everything, or it leaves the rows whose anchors are kept, and says how
    many others there were. -/
theorem pruneInvalidAnchors_spec (poisoned : Bool) (faults : Faults)
    (valid : List ResourceValueAnchor) (pruneUnanchored : Bool) (table : ValueTable) :
    (∃ e, table.pruneInvalidAnchors poisoned faults valid pruneUnanchored = (.error e, table)) ∨
      ∃ removed after,
        table.pruneInvalidAnchors poisoned faults valid pruneUnanchored = (.ok removed, after) ∧
        after.rows = table.rows.filter (fun row => keepsAnchor valid pruneUnanchored row.anchor) ∧
        removed + after.rows.length = table.rows.length := by
  rw [pruneInvalidAnchors]
  cases poisoned with
  | true => exact .inl ⟨_, rfl⟩
  | false =>
    rw [if_neg Bool.false_ne_true]
    cases hrun : pruneTransaction faults valid pruneUnanchored table with
    | error e => exact .inl ⟨e, rfl⟩
    | ok result =>
      obtain ⟨after, removed⟩ := result
      obtain ⟨-, -, hrun⟩ := Except.bind_eq_ok.1 hrun
      obtain ⟨-, -, hrun⟩ := Except.bind_eq_ok.1 hrun
      obtain ⟨entries, hentries, hrun⟩ := Except.bind_eq_ok.1 hrun
      obtain ⟨⟨after', removed', n⟩, hloop, hrun⟩ := Except.bind_eq_ok.1 hrun
      obtain ⟨-, -, hrun⟩ := Except.bind_eq_ok.1 hrun
      cases hrun
      obtain rfl := anchorEntries_eq hentries
      have hfits : 0 + (table.rows.map fun row => (row.key, row.anchor)).length < 2 ^ 64 := by
        rw [Nat.zero_add, List.length_map]
        exact table.fits
      obtain ⟨hrows, hcount⟩ := pruneLoop_eq_ok hfits hloop
      have hkept : after.rows =
          table.rows.filter fun row => keepsAnchor valid pruneUnanchored row.anchor := by
        rw [hrows]
        refine List.filter_congr fun row hrow => ?_
        simp [key_mem_prunedKeys hrow]
      refine .inr ⟨removed, after, rfl, hkept, ?_⟩
      have hsplit := List.length_eq_length_filter_add (l := table.rows)
        fun row => keepsAnchor valid pruneUnanchored row.anchor
      rw [hcount, hkept, prunedKeys, List.length_map, List.filter_map, List.length_map, hsplit,
        Nat.zero_add, Nat.add_comm]
      rfl

/-- What is left for the size of the rows, and what is removed: the shortest beginning of the rows
    in order that is enough. -/
theorem enforceValueByteLimit_eq_ok {poisoned : Bool} {maxBytes : ℕ}
    (h : table.enforceValueByteLimit poisoned faults maxBytes = (.ok removed, after)) :
    ∃ rows : List ValueRow, rows.Perm table.rows ∧
      (rows.Pairwise fun a b => ResourceRow.order a.toResourceRow b.toResourceRow = .lt) ∧
      IsShortestExcess maxBytes (rows.map ValueRow.toResourceRow) removed ∧
      after.rows.Perm (rows.drop removed) := by
  rw [enforceValueByteLimit, ResourceTable.enforceValueByteLimit] at h
  split_ifs at h
  · cases h
  cases hrun : table.sizes.transaction faults maxBytes with
  | error e =>
    rw [hrun] at h
    cases h
  | ok result =>
    obtain ⟨left, removed'⟩ := result
    rw [hrun] at h
    cases h
    obtain ⟨hshortest, hleft⟩ := ResourceTable.transaction_eq_ok hrun
    -- The rows in the order of the columns that the limit is about.
    let rows := table.rows.mergeSort fun a b =>
      (ResourceRow.order a.toResourceRow b.toResourceRow).isLE
    have hperm : rows.Perm table.rows := List.mergeSort_perm _ _
    have hnodup : (rows.map fun row => row.key).Nodup := (hperm.map _).nodup_iff.2 table.nodup
    have hsorted : rows.Pairwise fun a b =>
        ResourceRow.order a.toResourceRow b.toResourceRow = .lt := by
      have hle : rows.Pairwise fun a b =>
          (ResourceRow.order a.toResourceRow b.toResourceRow).isLE :=
        List.pairwise_mergeSort (fun _ _ _ => Std.TransCmp.isLE_trans)
          (fun _ _ => ResourceTable.isLE_total _ _) _
      refine (hle.and (List.pairwise_map.1 hnodup)).imp fun h => ?_
      exact Ordering.isLE_iff_eq_lt_or_eq_eq.1 h.1 |>.resolve_right fun heq =>
        h.2 (ResourceRow.key_eq_of_order heq)
    have hinOrder : table.sizes.inOrder = rows.map ValueRow.toResourceRow :=
      ResourceTable.inOrder_eq (hperm.map _) (List.pairwise_map.2 hsorted)
    rw [hinOrder] at hshortest hleft
    rw [← List.map_drop] at hleft
    refine ⟨rows, hperm, hsorted, hshortest, ?_⟩
    -- A row is left when its key is, and no two rows have the same one.
    refine (List.perm_ext_iff_of_nodup (.filter _ (.of_map _ table.nodup))
      ((List.Nodup.of_map _ hnodup).sublist (List.drop_sublist _ _))).2 fun row => ?_
    rw [List.mem_filter, decide_eq_true_eq, (hleft.map _).mem_iff, List.map_map, List.mem_map]
    constructor
    · rintro ⟨hrow, row', hrow', hkey⟩
      obtain rfl := List.inj_on_of_nodup_map hnodup (List.mem_of_mem_drop hrow')
        (hperm.mem_iff.2 hrow) hkey
      exact hrow'
    · exact fun hrow => ⟨hperm.mem_iff.1 (List.mem_of_mem_drop hrow), row, hrow, rfl⟩

end ValueTable

end Pruning

end Hns
