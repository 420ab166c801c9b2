import Hns.Core.Header
import Hns.Core.Pow
import Hns.Lib.Fallible
import Hns.Lib.Table

/-!
# Header stores

What `HeaderChain` keeps its headers in: the headers by hash, the canonical
index by height and the best hash. An operation that fails leaves the store in
a state of its own, hence the monad `EStateM`.

`MemoryHeaderStore` is both a store and the contents of any other one
(`HeaderStore.view`). A store is *lawful* when its operations do not fail where
the chain uses them, and change its contents as those of the memory store do.
-/

namespace Hns

/-- A header with its hash, its height and the work of its chain. -/
structure StoredHeader where
  hash : Hash
  header : BlockHeader
  height : ℕ
  chainwork : ℕ
  deriving DecidableEq

inductive ChainError
  | invalidGenesisHeader
  | unknownParent
  | duplicateHeader
  | missingBestHeader
  | invalidDifficultyBits (actual expected : UInt32)
  | invalidDifficultyWindow
  | invalidProofOfWork
  | pow (error : PowError)
  | storage (message : String)
  deriving DecidableEq

/-- The trait `HeaderStore`, with its default methods. -/
class HeaderStore (S : Type) where
  getHeader : S → Hash → Option StoredHeader
  putHeader : StoredHeader → EStateM ChainError S Unit
  putHeaders : List StoredHeader → EStateM ChainError S Unit := fun headers =>
    headers.forM putHeader
  bestHash : S → Option Hash
  canonicalHash : S → ℕ → Option Hash
  promoteCanonicalTip : StoredHeader → EStateM ChainError S Unit
  promoteCanonicalTips : List StoredHeader → EStateM ChainError S Unit := fun headers =>
    headers.forM promoteCanonicalTip
  replaceCanonicalChain : List StoredHeader → EStateM ChainError S Unit

/-- The store in memory. -/
@[ext] structure MemoryHeaderStore where
  headers : Table Hash StoredHeader
  canonical : Table ℕ Hash
  best : Option Hash

namespace MemoryHeaderStore

/-- `Default::default`: the store without headers. -/
def empty : MemoryHeaderStore := ⟨.empty, .empty, none⟩

/-- The contents with some more headers. -/
def put (m : MemoryHeaderStore) (headers : List StoredHeader) : MemoryHeaderStore :=
  { m with headers := m.headers.insertAll StoredHeader.hash id headers }

/-- The contents with some more headers on the canonical chain, the last one as the tip. -/
def promote (m : MemoryHeaderStore) (headers : List StoredHeader) : MemoryHeaderStore :=
  { m with
    canonical := m.canonical.insertAll StoredHeader.height StoredHeader.hash headers
    best := (headers.getLast?.map StoredHeader.hash).or m.best }

def putHeader (header : StoredHeader) : EStateM ChainError MemoryHeaderStore Unit := fun m =>
  if (m.headers header.hash).isSome then .error .duplicateHeader m
  else .ok () { m with headers := m.headers.insert header.hash header }

def promoteCanonicalTip (header : StoredHeader) : EStateM ChainError MemoryHeaderStore Unit :=
  fun m =>
    if (m.headers header.hash).isNone then .error .missingBestHeader m
    else .ok () { m with
      canonical := m.canonical.insert header.height header.hash
      best := some header.hash }

def replaceCanonicalChain (headers : List StoredHeader) :
    EStateM ChainError MemoryHeaderStore Unit := fun m =>
  match headers.getLast? with
  | none => .error .missingBestHeader m
  | some tip =>
    if headers.any fun header => (m.headers header.hash).isNone then .error .missingBestHeader m
    else .ok () { m with
      canonical := Table.empty.insertAll StoredHeader.height StoredHeader.hash headers
      best := some tip.hash }

instance : HeaderStore MemoryHeaderStore where
  getHeader m := m.headers
  putHeader := putHeader
  bestHash m := m.best
  canonicalHash m := m.canonical
  promoteCanonicalTip := promoteCanonicalTip
  replaceCanonicalChain := replaceCanonicalChain

@[simp] theorem put_nil (m : MemoryHeaderStore) : m.put [] = m := rfl

@[simp] theorem put_headers (m : MemoryHeaderStore) (headers : List StoredHeader) :
    (m.put headers).headers = m.headers.insertAll StoredHeader.hash id headers := rfl

@[simp] theorem put_canonical (m : MemoryHeaderStore) (headers : List StoredHeader) :
    (m.put headers).canonical = m.canonical := rfl

@[simp] theorem put_best (m : MemoryHeaderStore) (headers : List StoredHeader) :
    (m.put headers).best = m.best := rfl

theorem put_cons (m : MemoryHeaderStore) (header : StoredHeader) (headers : List StoredHeader) :
    m.put (header :: headers) = (m.put [header]).put headers := rfl

@[simp] theorem promote_headers (m : MemoryHeaderStore) (headers : List StoredHeader) :
    (m.promote headers).headers = m.headers := rfl

theorem promote_cons (m : MemoryHeaderStore) (header : StoredHeader)
    (headers : List StoredHeader) :
    m.promote (header :: headers) = (m.promote [header]).promote headers := by
  cases headers with
  | nil => simp [promote, Table.insertAll]
  | cons header' headers =>
    simp [promote, Table.insertAll, List.getLast?_eq_some_getLast (List.cons_ne_nil _ _)]

end MemoryHeaderStore

namespace HeaderStore

variable {S : Type} [HeaderStore S]

/-- The contents of a store. -/
def view (s : S) : MemoryHeaderStore := ⟨getHeader s, canonicalHash s, bestHash s⟩

@[simp] theorem view_headers (s : S) : (view s).headers = getHeader s := rfl

@[simp] theorem view_canonical (s : S) : (view s).canonical = canonicalHash s := rfl

@[simp] theorem view_best (s : S) : (view s).best = bestHash s := rfl

@[simp] theorem view_memory (m : MemoryHeaderStore) : view m = m := rfl

/-- The operation succeeds, and the contents become `m`. -/
def Succeeds (s : S) (op : EStateM ChainError S Unit) (m : MemoryHeaderStore) : Prop :=
  ∃ s', op s = .ok () s' ∧ view s' = m

end HeaderStore

open HeaderStore

/-- A store whose operations do what those of the memory store do, where the chain uses them.
    Those on the canonical index leave the headers alone, even when they fail. -/
class LawfulHeaderStore (S : Type) [HeaderStore S] : Prop where
  putHeader_ok {s : S} {header : StoredHeader} (h : getHeader s header.hash = none) :
    Succeeds s (putHeader header) ((view s).put [header])
  putHeader_duplicate {s : S} {header : StoredHeader} (h : getHeader s header.hash ≠ none) :
    ∃ s', putHeader header s = .error .duplicateHeader s' ∧ view s' = view s
  putHeaders_ok {s : S} {headers : List StoredHeader}
    (hnodup : (headers.map StoredHeader.hash).Nodup)
    (h : ∀ header ∈ headers, getHeader s header.hash = none) :
    Succeeds s (putHeaders headers) ((view s).put headers)
  promoteCanonicalTip_ok {s : S} {header : StoredHeader} (h : getHeader s header.hash ≠ none) :
    Succeeds s (promoteCanonicalTip header) ((view s).promote [header])
  promoteCanonicalTips_ok {s : S} {headers : List StoredHeader}
    (h : ∀ header ∈ headers, getHeader s header.hash ≠ none) :
    Succeeds s (promoteCanonicalTips headers) ((view s).promote headers)
  replaceCanonicalChain_ok {s : S} {headers : List StoredHeader} (hne : headers ≠ [])
    (hnodup : (headers.map StoredHeader.height).Nodup)
    (h : ∀ header ∈ headers, getHeader s header.hash ≠ none) :
    Succeeds s (replaceCanonicalChain headers)
      ({ view s with canonical := Table.empty }.promote headers)
  promoteCanonicalTip_keeps (header : StoredHeader) :
    EStateM.Keeps (getHeader (S := S)) (promoteCanonicalTip header)
  promoteCanonicalTips_keeps (headers : List StoredHeader) :
    EStateM.Keeps (getHeader (S := S)) (promoteCanonicalTips headers)
  replaceCanonicalChain_keeps (headers : List StoredHeader) :
    EStateM.Keeps (getHeader (S := S)) (replaceCanonicalChain headers)

namespace MemoryHeaderStore

theorem putHeader_ok {m : MemoryHeaderStore} {header : StoredHeader}
    (h : m.headers header.hash = none) : putHeader header m = .ok () (m.put [header]) := by
  rw [putHeader, h]
  rfl

theorem promoteCanonicalTip_ok {m : MemoryHeaderStore} {header : StoredHeader}
    (h : m.headers header.hash ≠ none) :
    promoteCanonicalTip header m = .ok () (m.promote [header]) := by
  rw [promoteCanonicalTip, if_neg (by simpa using h)]
  simp [promote, Table.insertAll]

theorem promoteCanonicalTip_keeps (header : StoredHeader) :
    EStateM.Keeps MemoryHeaderStore.headers (promoteCanonicalTip header) := by
  intro m
  rw [promoteCanonicalTip]
  split_ifs <;> rfl

theorem replaceCanonicalChain_keeps (headers : List StoredHeader) :
    EStateM.Keeps MemoryHeaderStore.headers (replaceCanonicalChain headers) := by
  intro m
  rw [replaceCanonicalChain]
  cases headers.getLast? with
  | none => rfl
  | some tip =>
    dsimp only
    split_ifs <;> rfl

theorem putHeaders_ok {m : MemoryHeaderStore} {headers : List StoredHeader}
    (hnodup : (headers.map StoredHeader.hash).Nodup)
    (h : ∀ header ∈ headers, m.headers header.hash = none) :
    headers.forM putHeader m = .ok () (m.put headers) := by
  induction headers generalizing m with
  | nil => rfl
  | cons header headers ih =>
    rw [List.map_cons, List.nodup_cons] at hnodup
    rw [EStateM.forM_cons_ok (putHeader_ok (h header List.mem_cons_self)), put_cons]
    refine ih hnodup.2 fun header' h' => ?_
    have hne : header'.hash ≠ header.hash := fun heq =>
      hnodup.1 (heq ▸ List.mem_map_of_mem h')
    exact (Table.insert_of_ne _ _ hne).trans (h header' (List.mem_cons_of_mem _ h'))

theorem promoteCanonicalTips_ok {m : MemoryHeaderStore} {headers : List StoredHeader}
    (h : ∀ header ∈ headers, m.headers header.hash ≠ none) :
    headers.forM promoteCanonicalTip m = .ok () (m.promote headers) := by
  induction headers generalizing m with
  | nil => rfl
  | cons header headers ih =>
    rw [EStateM.forM_cons_ok (promoteCanonicalTip_ok (h header List.mem_cons_self)),
      promote_cons m header headers]
    exact ih fun header' h' => h header' (List.mem_cons_of_mem _ h')

theorem replaceCanonicalChain_ok {m : MemoryHeaderStore} {headers : List StoredHeader}
    (hne : headers ≠ []) (h : ∀ header ∈ headers, m.headers header.hash ≠ none) :
    replaceCanonicalChain headers m =
      .ok () ({ m with canonical := Table.empty }.promote headers) := by
  rw [replaceCanonicalChain, List.getLast?_eq_some_getLast hne]
  dsimp only
  rw [if_neg]
  · simp [promote, List.getLast?_eq_some_getLast hne]
  · rw [List.any_eq_true]
    rintro ⟨header, hmem, hnone⟩
    exact h header hmem (by simpa using hnone)

instance : LawfulHeaderStore MemoryHeaderStore where
  putHeader_ok h := ⟨_, putHeader_ok h, rfl⟩
  putHeader_duplicate {m _} h :=
    ⟨m, if_pos (Option.isSome_iff_ne_none.2 h), rfl⟩
  putHeaders_ok hnodup h := ⟨_, putHeaders_ok hnodup h, rfl⟩
  promoteCanonicalTip_ok h := ⟨_, promoteCanonicalTip_ok h, rfl⟩
  promoteCanonicalTips_ok h := ⟨_, promoteCanonicalTips_ok h, rfl⟩
  replaceCanonicalChain_ok hne _ h := ⟨_, replaceCanonicalChain_ok hne h, rfl⟩
  promoteCanonicalTip_keeps := promoteCanonicalTip_keeps
  promoteCanonicalTips_keeps := .forM promoteCanonicalTip_keeps
  replaceCanonicalChain_keeps := replaceCanonicalChain_keeps

end MemoryHeaderStore

end Hns
