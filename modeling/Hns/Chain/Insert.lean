import Hns.Chain.Difficulty

/-!
# Inserting headers

The methods of `HeaderChain`: the genesis block, one header, a batch of
headers. A chain is its store together with the difficulty policy, which no
method changes and all of them read.

Both ways to insert a header check it and build its entry alike: they `accept`
it against the headers known so far (`insertHeader_eq`, `Batch.step_eq`).
-/

namespace Hns

open Except EStateM HeaderStore

variable {S : Type} [HeaderStore S]

/-! ## Reading the chain -/

/-- `HeaderChain::best_header`. -/
def bestHeader (s : S) : Except ChainError (Option StoredHeader) :=
  match bestHash s with
  | none => .ok none
  | some hash => some <$> ofOption .missingBestHeader (getHeader s hash)

/-- `HeaderChain::canonical_header`. -/
def canonicalHeader (s : S) (height : ℕ) : Option StoredHeader :=
  (canonicalHash s height).bind (getHeader s)

/-- The loop of `canonical_chain_to`: the headers below `current`, and `headers`. -/
def canonicalLoop (s : S) :
    ℕ → StoredHeader → List StoredHeader → Except ChainError (List StoredHeader)
  | 0, _, _ => .error .unknownParent
  | fuel + 1, current, headers =>
    if 0 < current.height then do
      let current ← ofOption .unknownParent (getHeader s current.header.prevBlock)
      canonicalLoop s fuel current (current :: headers)
    else .ok headers

def canonicalChainTo (s : S) (hash : Hash) : Except ChainError (List StoredHeader) := do
  let current ← ofOption .missingBestHeader (getHeader s hash)
  canonicalLoop s maxWalk current [current]

/-! ## Changing the chain -/

def promoteBestHash (hash : Hash) : EStateM ChainError S Unit := do
  let headers ← reads fun s => canonicalChainTo s hash
  replaceCanonicalChain headers

/-- Whether a header becomes the tip: only when it has more work than the best one. -/
def shouldPromote (best : Option StoredHeader) (candidate : StoredHeader) : Bool :=
  match best with
  | some best => best.chainwork < candidate.chainwork
  | none => true

variable [Digests] (policy : DifficultyPolicy)

def validateGenesis (header : BlockHeader) : Except ChainError Unit :=
  if policy = .mainnet ∧ header ≠ BlockHeader.mainnetGenesis then .error .invalidGenesisHeader
  else .ok ()

def insertGenesis (header : BlockHeader) : EStateM ChainError S StoredHeader := do
  checked (validateGenesis policy header)
  let hash := header.hash
  let chainwork ← checked ((Chainwork.fromBits header.bits).mapError .pow)
  let stored : StoredHeader := { hash, header, height := 0, chainwork }
  putHeader stored
  promoteBestHash hash
  return stored

/-- The entry of a header whose parent is `parent`; heights are `u32`. -/
def StoredHeader.child (parent : StoredHeader) (header : BlockHeader) (work : ℕ) :
    StoredHeader where
  hash := header.hash
  header := header
  height := (parent.height + 1) % 2 ^ 32
  chainwork := parent.chainwork + work

def insertHeader (header : BlockHeader) : EStateM ChainError S StoredHeader := do
  let parent ← reads fun s => ofOption .unknownParent (getHeader s header.prevBlock)
  let hash := header.hash
  reads fun s => validateDifficultyBits (getHeader s) policy header parent
  if !(← checked ((verifyPow hash header.bits).mapError .pow)) then
    throw .invalidProofOfWork
  let work ← checked ((Chainwork.fromBits header.bits).mapError .pow)
  let stored := parent.child header work
  putHeader stored
  let best ← reads bestHeader
  let extendsBest := best.any fun best => stored.header.prevBlock = best.hash
  if shouldPromote best stored then
    if extendsBest then promoteCanonicalTip stored
    else promoteBestHash hash
  return stored

/-- What `insert_headers` has gathered from the headers of the batch so far. -/
structure Batch where
  accepted : List StoredHeader
  pending : Headers
  seen : List Hash
  chainworkByBits : Table UInt32 ℕ

/-- A batch of which no header is read. -/
def Batch.empty : Batch := ⟨[], .empty, [], .empty⟩

/-- The work of some bits: the one kept for them, or computed. -/
def cachedWork (chainworkByBits : Table UInt32 ℕ) (bits : UInt32) : Except ChainError ℕ :=
  match chainworkByBits bits with
  | some work => .ok work
  | none => (Chainwork.fromBits bits).mapError .pow

/-- The round of the loop of `insert_headers`, for one header. -/
def Batch.step (known : Headers) (batch : Batch) (header : BlockHeader) :
    Except ChainError Batch := do
  let hash := header.hash
  let skipped := hash ∈ batch.seen ∨ (known hash).isSome
  let batch := { batch with seen := hash :: batch.seen }
  if skipped then return batch
  let parent ← ofOption .unknownParent
    ((batch.pending header.prevBlock).or (known header.prevBlock))
  validateDifficultyBitsWithPending known batch.pending policy header parent
  if !(← (verifyPow hash header.bits).mapError .pow) then throw .invalidProofOfWork
  let work ← cachedWork batch.chainworkByBits header.bits
  let stored := parent.child header work
  return { batch with
    accepted := batch.accepted ++ [stored]
    pending := batch.pending.insert hash stored
    chainworkByBits := batch.chainworkByBits.insert header.bits work }

/-- `max_by`: the last of the greatest, with its index. -/
def lastMaxByWork (headers : List StoredHeader) : Option (ℕ × StoredHeader) :=
  headers.zipIdx.foldl (fun max item =>
    match max with
    | some (index, greatest) =>
      if item.1.chainwork < greatest.chainwork then some (index, greatest)
      else some (item.2, item.1)
    | none => some (item.2, item.1)) none

/-- Whether every header is the parent of the next one (`windows(2)`). -/
def linked : List StoredHeader → Bool
  | [] => true
  | [_] => true
  | first :: second :: headers =>
    second.header.prevBlock = first.hash && linked (second :: headers)

def insertHeaders (headers : List BlockHeader) : EStateM ChainError S (List StoredHeader) := do
  let batch ← reads fun s => headers.foldlM (Batch.step policy (getHeader s)) Batch.empty
  let accepted := batch.accepted
  if accepted.isEmpty then return accepted
  let best ← reads bestHeader
  let (bestIndex, bestCandidate) ←
    checked (ofOption .missingBestHeader (lastMaxByWork accepted))
  let extendsBest := best.any fun best =>
    (accepted.head?.any fun header => header.header.prevBlock = best.hash) &&
      linked (accepted.take (bestIndex + 1))
  putHeaders accepted
  if shouldPromote best bestCandidate then
    if extendsBest then promoteCanonicalTips (accepted.take (bestIndex + 1))
    else promoteBestHash bestCandidate.hash
  return accepted

end Hns
