import Hns.Chain.Store

/-!
# The store in a database

`SqliteHeaderStore` of `hns-chain`: a table of headers, which are kept as they
are sent, with their work in hexadecimal, a table of the canonical index and the
best hash. An operation that fails is rolled back. The database has been written by the store alone: every
row can be read (`readable`), so that what is stored is what is found
(`getHeader_eq_none_iff`), and the store is lawful.
-/

namespace Hns

/-- A row of `headers_by_hash`. -/
structure HeaderRow where
  height : ℕ
  chainwork : List Char
  header : List UInt8
  deriving DecidableEq

/-- The row a header is kept in. -/
def HeaderRow.of (header : StoredHeader) : HeaderRow :=
  ⟨header.height, Chainwork.toHex header.chainwork, header.header.serialize⟩

structure SqliteHeaderStore where
  headersByHash : Table Hash HeaderRow
  hashByHeight : Table ℕ Hash
  best : Option Hash
  readable {hash : Hash} {row : HeaderRow} (h : headersByHash hash = some row) :
    ∃ header : StoredHeader, row = HeaderRow.of header

namespace SqliteHeaderStore

/-- The store right after `initialize`. -/
def empty : SqliteHeaderStore := ⟨.empty, .empty, none, fun h => by cases h⟩

/-- The entry of a row, if the row can be read. -/
def readRow (hash : Hash) (row : HeaderRow) : Option StoredHeader :=
  match BlockHeader.parse row.header, Chainwork.fromHex row.chainwork with
  | .ok header, .ok chainwork => some ⟨hash, header, row.height, chainwork⟩
  | _, _ => none

def getHeader (s : SqliteHeaderStore) (hash : Hash) : Option StoredHeader :=
  (s.headersByHash hash).bind (readRow hash)

/-- `INSERT OR IGNORE INTO headers_by_hash`, if it inserts a row. -/
def insertOrIgnore (s : SqliteHeaderStore) (header : StoredHeader) : Option SqliteHeaderStore :=
  if (s.headersByHash header.hash).isSome then none
  else some
    { s with
      headersByHash := s.headersByHash.insert header.hash (.of header)
      readable := fun h => by
        rcases Table.insert_eq_some h with ⟨-, rfl⟩ | ⟨-, h⟩
        · exact ⟨header, rfl⟩
        · exact s.readable h }

def putHeader (header : StoredHeader) : EStateM ChainError SqliteHeaderStore Unit := fun s =>
  match s.insertOrIgnore header with
  | none => .error .duplicateHeader s
  | some s' => .ok () s'

def putHeaders (headers : List StoredHeader) : EStateM ChainError SqliteHeaderStore Unit := fun s =>
  match headers.foldlM insertOrIgnore s with
  | none => .error .duplicateHeader s
  | some s' => .ok () s'

/-- The index refers to the rows of the headers. -/
def foreignKey : ChainError := .storage "FOREIGN KEY constraint failed"

def promoteCanonicalTip (header : StoredHeader) : EStateM ChainError SqliteHeaderStore Unit :=
  fun s =>
    if (s.headersByHash header.hash).isNone then .error foreignKey s
    else .ok ()
      { s with
        hashByHeight := s.hashByHeight.insert header.height header.hash
        best := some header.hash }

def promoteCanonicalTips (headers : List StoredHeader) :
    EStateM ChainError SqliteHeaderStore Unit := fun s =>
  match headers.getLast? with
  | none => .ok () s
  | some tip =>
    if headers.any fun header => (s.headersByHash header.hash).isNone then .error foreignKey s
    else .ok ()
      { s with
        hashByHeight := s.hashByHeight.insertAll StoredHeader.height StoredHeader.hash headers
        best := some tip.hash }

def replaceCanonicalChain (headers : List StoredHeader) :
    EStateM ChainError SqliteHeaderStore Unit := fun s =>
  match headers.getLast? with
  | none => .error .missingBestHeader s
  | some tip =>
    if headers.any fun header => (s.headersByHash header.hash).isNone then .error foreignKey s
    else if ¬(headers.map StoredHeader.height).Nodup then
      .error (.storage "UNIQUE constraint failed: hash_by_height.height") s
    else .ok ()
      { s with
        hashByHeight := Table.empty.insertAll StoredHeader.height StoredHeader.hash headers
        best := some tip.hash }

instance : HeaderStore SqliteHeaderStore where
  getHeader := getHeader
  putHeader := putHeader
  putHeaders := putHeaders
  bestHash s := s.best
  canonicalHash s := s.hashByHeight
  promoteCanonicalTip := promoteCanonicalTip
  promoteCanonicalTips := promoteCanonicalTips
  replaceCanonicalChain := replaceCanonicalChain

/-! ## What is stored is found -/

/-- A row that was written is read as the entry it was made of. -/
theorem readRow_of (hash : Hash) (header : StoredHeader) :
    readRow hash (.of header) = some { header with hash } := by
  rw [readRow, HeaderRow.of, BlockHeader.parse_serialize, fromHex_toHex]

theorem getHeader_eq_none_iff {s : SqliteHeaderStore} {hash : Hash} :
    s.getHeader hash = none ↔ s.headersByHash hash = none := by
  rw [getHeader]
  cases h : s.headersByHash hash with
  | none => simp
  | some row =>
    obtain ⟨header, rfl⟩ := s.readable h
    simp [readRow_of]

open HeaderStore

/-- A new header is inserted. -/
theorem exists_insertOrIgnore {s : SqliteHeaderStore} {header : StoredHeader}
    (h : s.getHeader header.hash = none) :
    ∃ s', s.insertOrIgnore header = some s' ∧ view s' = (view s).put [header] := by
  have hnone : (s.headersByHash header.hash).isSome = false := by
    rw [getHeader_eq_none_iff.1 h]
    rfl
  refine ⟨_, if_neg (by simp [hnone]), MemoryHeaderStore.ext ?_ rfl rfl⟩
  funext hash
  change (s.headersByHash.insert header.hash (.of header) hash).bind (readRow hash) =
    Table.insert s.getHeader header.hash header hash
  by_cases heq : hash = header.hash
  · rw [heq, Table.insert_self, Table.insert_self, Option.bind_some, readRow_of]
  · rw [Table.insert_of_ne _ _ heq, Table.insert_of_ne _ _ heq]
    rfl

theorem exists_foldlM_insertOrIgnore {s : SqliteHeaderStore} {headers : List StoredHeader}
    (hnodup : (headers.map StoredHeader.hash).Nodup)
    (h : ∀ header ∈ headers, s.getHeader header.hash = none) :
    ∃ s', headers.foldlM insertOrIgnore s = some s' ∧ view s' = (view s).put headers := by
  induction headers generalizing s with
  | nil => exact ⟨s, rfl, rfl⟩
  | cons header headers ih =>
    rw [List.map_cons, List.nodup_cons] at hnodup
    obtain ⟨s₁, hs₁, hview⟩ := exists_insertOrIgnore (h header List.mem_cons_self)
    have hget : s₁.getHeader = Table.insert s.getHeader header.hash header :=
      congrArg MemoryHeaderStore.headers hview
    obtain ⟨s₂, hs₂, hview₂⟩ := @ih s₁ hnodup.2 fun header' h' => by
      have hne : header'.hash ≠ header.hash := fun heq =>
        hnodup.1 (heq ▸ List.mem_map_of_mem h')
      rw [hget, Table.insert_of_ne _ _ hne]
      exact h header' (List.mem_cons_of_mem _ h')
    refine ⟨s₂, ?_, ?_⟩
    · rw [List.foldlM_cons, hs₁]
      exact hs₂
    · rw [hview₂, hview, ← MemoryHeaderStore.put_cons]

/-- No row is missing for headers that are stored. -/
theorem any_isNone_eq_false {s : SqliteHeaderStore} {headers : List StoredHeader}
    (h : ∀ header ∈ headers, s.getHeader header.hash ≠ none) :
    (headers.any fun header => (s.headersByHash header.hash).isNone) = false := by
  rw [List.any_eq_false]
  intro header hmem hnone
  exact h header hmem (getHeader_eq_none_iff.2 (by simpa using hnone))

instance : LawfulHeaderStore SqliteHeaderStore where
  putHeader_ok {s header} h := by
    obtain ⟨s', hs', hview⟩ := exists_insertOrIgnore h
    exact ⟨s', by change putHeader header s = _; rw [putHeader, hs'], hview⟩
  putHeader_duplicate {s header} h := by
    have hsome : (s.headersByHash header.hash).isSome := by
      rw [Option.isSome_iff_ne_none]
      exact fun hnone => h (getHeader_eq_none_iff.2 hnone)
    refine ⟨s, ?_, rfl⟩
    change putHeader header s = _
    rw [putHeader, insertOrIgnore, if_pos hsome]
  putHeaders_ok {s headers} hnodup h := by
    obtain ⟨s', hs', hview⟩ := exists_foldlM_insertOrIgnore hnodup h
    exact ⟨s', by change putHeaders headers s = _; rw [putHeaders, hs'], hview⟩
  promoteCanonicalTip_ok {s header} h := by
    have hsome : ¬(s.headersByHash header.hash).isNone := by
      rw [Option.isNone_iff_eq_none, ← getHeader_eq_none_iff]
      exact h
    exact ⟨_, if_neg hsome, rfl⟩
  promoteCanonicalTips_ok {s headers} h := by
    rcases eq_or_ne headers [] with rfl | hne
    · exact ⟨s, rfl, rfl⟩
    have hlast := List.getLast?_eq_some_getLast hne
    have hstored := any_isNone_eq_false h
    refine ⟨{ s with
      hashByHeight := s.hashByHeight.insertAll StoredHeader.height StoredHeader.hash headers
      best := some (headers.getLast hne).hash }, ?_, ?_⟩
    · change promoteCanonicalTips headers s = _
      simp only [promoteCanonicalTips, hlast, hstored, Bool.false_eq_true, if_false]
    · rw [MemoryHeaderStore.promote, hlast]
      rfl
  replaceCanonicalChain_ok {s headers} hne hnodup h := by
    have hlast := List.getLast?_eq_some_getLast hne
    have hstored := any_isNone_eq_false h
    refine ⟨{ s with
      hashByHeight := Table.empty.insertAll StoredHeader.height StoredHeader.hash headers
      best := some (headers.getLast hne).hash }, ?_, ?_⟩
    · change replaceCanonicalChain headers s = _
      simp only [replaceCanonicalChain, hlast, hstored, hnodup, Bool.false_eq_true, not_true_eq_false,
        if_false]
    · rw [MemoryHeaderStore.promote, hlast]
      rfl
  promoteCanonicalTip_keeps header := by
    intro s
    change HeaderStore.getHeader (promoteCanonicalTip header s).state = _
    rw [promoteCanonicalTip]
    split_ifs <;> rfl
  promoteCanonicalTips_keeps headers := by
    intro s
    change HeaderStore.getHeader (promoteCanonicalTips headers s).state = _
    rw [promoteCanonicalTips]
    cases headers.getLast? with
    | none => rfl
    | some tip =>
      dsimp only
      split_ifs <;> rfl
  replaceCanonicalChain_keeps headers := by
    intro s
    change HeaderStore.getHeader (replaceCanonicalChain headers s).state = _
    rw [replaceCanonicalChain]
    cases headers.getLast? with
    | none => rfl
    | some tip =>
      dsimp only
      split_ifs <;> rfl

end SqliteHeaderStore

end Hns
