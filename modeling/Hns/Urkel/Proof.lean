import Hns.Core.Hash
import Hns.Lib.Bits
import Hns.Lib.Fallible

/-!
# Urkel proofs

The proofs of `hns-urkel`: what is decoded from the payload of a proof packet
(`UrkelProof.decode`), and how a proof is checked against a root and a key
(`UrkelProof.verify`): the root is rebuilt from the body of the proof up, node
by node.
-/

namespace Hns

def maxProofSize : ℕ := 256 * 1024

def urkelBits : ℕ := 256

def urkelHashSize : ℕ := 32

def typeDeadend : ℕ := 0

def typeShort : ℕ := 1

def typeCollision : ℕ := 2

def typeExists : ℕ := 3

inductive ProofKind
  | inclusion
  | nonInclusion
  deriving DecidableEq

inductive ProofError
  | tooLarge
  | malformed
  | unsupportedVerifier
  deriving DecidableEq

instance : ToString ProofError where
  toString
    | .tooLarge => "proof exceeds maximum size"
    | .malformed => "proof is malformed"
    | .unsupportedVerifier => "Urkel verification is not implemented"

/-- `has_bit`. -/
def hasBit (key : List UInt8) (index : ℕ) : Bool :=
  let byte := key.getD (index / 8) 0
  let bit := index % 8
  (byte >>> UInt8.ofNat (7 - bit)) &&& 1 != 0

/-! ## Prefixes -/

/-- Some bits, packed. -/
structure BitPrefix where
  size : ℕ
  data : List UInt8
  deriving DecidableEq

namespace BitPrefix

def empty : BitPrefix := ⟨0, []⟩

def encodedLen (bits : BitPrefix) : ℕ := (if 0x80 ≤ bits.size then 2 else 1) + bits.data.length

/-- How many of the bits are those of the key from `depth` on, up to the first that is not. -/
def count (bits : BitPrefix) (key : List UInt8) (depth : ℕ) : ℕ :=
  let keyBits := key.length * 8
  if keyBits ≤ depth then 0
  else
    let len := min bits.size (keyBits - depth)
    ((List.range len).takeWhile fun index =>
      hasBit bits.data index = hasBit key (depth + index)).length

def has (bits : BitPrefix) (key : List UInt8) (depth : ℕ) : Bool :=
  bits.count key depth = bits.size

end BitPrefix

/-! ## Proofs -/

structure UrkelProofNode where
  bits : BitPrefix
  hash : Hash
  deriving DecidableEq

inductive ProofBody
  | deadend
  | short (bits : BitPrefix) (left right : Hash)
  | collision (key valueHash : Hash)
  | exists (value : List UInt8)
  deriving DecidableEq

structure UrkelProof where
  proofType : ℕ
  depth : ℕ
  nodes : List UrkelProofNode
  body : ProofBody
  deriving DecidableEq

namespace UrkelProof

def kind (proof : UrkelProof) : ProofKind :=
  if proof.proofType = typeExists then .inclusion else .nonInclusion

def value (proof : UrkelProof) : Option (List UInt8) :=
  match proof.body with
  | .exists value => some value
  | _ => none

def isSane (proof : UrkelProof) : Bool :=
  if urkelBits < proof.depth ∨ urkelBits < proof.nodes.length then false
  else if proof.nodes.any fun node => urkelBits < node.bits.size then false
  else
    match proof.body with
    | .deadend => proof.proofType = typeDeadend
    | .short bits _ _ => proof.proofType = typeShort ∧ 0 < bits.size ∧ bits.size ≤ urkelBits
    | .collision _ _ => proof.proofType = typeCollision
    | .exists value => proof.proofType = typeExists ∧ value.length ≤ 0xffff

/-- What a sane proof has for its body. -/
def SaneBody (proofType : ℕ) : ProofBody → Prop
  | .deadend => proofType = typeDeadend
  | .short bits _ _ => proofType = typeShort ∧ 0 < bits.size ∧ bits.size ≤ urkelBits
  | .collision _ _ => proofType = typeCollision
  | .exists value => proofType = typeExists ∧ value.length ≤ 0xffff

theorem isSane_iff {proof : UrkelProof} :
    proof.isSane ↔ proof.depth ≤ urkelBits ∧ proof.nodes.length ≤ urkelBits ∧
      (∀ node ∈ proof.nodes, node.bits.size ≤ urkelBits) ∧ SaneBody proof.proofType proof.body := by
  have hnodes : (proof.nodes.any fun node => urkelBits < node.bits.size) = true ↔
      ¬∀ node ∈ proof.nodes, node.bits.size ≤ urkelBits := by
    rw [List.any_eq_true]
    push Not
    simp only [decide_eq_true_eq]
  rw [isSane]
  split_ifs with hbounds hsizes
  · refine iff_of_false id fun h => ?_
    rcases hbounds with hlt | hlt
    · exact absurd h.1 (not_le.2 hlt)
    · exact absurd h.2.1 (not_le.2 hlt)
  · exact iff_of_false id fun h => hnodes.1 hsizes h.2.2.1
  · rw [not_or, not_lt, not_lt] at hbounds
    rw [hnodes, not_not] at hsizes
    simp only [hbounds.1, hbounds.2, true_and]
    rw [and_iff_right hsizes]
    cases proof.body <;> simp [SaneBody]

end UrkelProof

/-! ## Decoding -/

/-- The rest of the payload. -/
abbrev Cursor := StateT (List UInt8) (Except ProofError)

namespace Cursor

def readBytes (len : ℕ) : Cursor (List UInt8) := fun data =>
  if len ≤ data.length then .ok (data.take len, data.drop len) else .error .malformed

def readU8 : Cursor UInt8 := fun data =>
  match data with
  | [] => .error .malformed
  | byte :: data => .ok (byte, data)

def readU16Le : Cursor ℕ := do
  let bytes ← readBytes 2
  return (bytes.getD 0 0).toNat + 256 * (bytes.getD 1 0).toNat

def readHash : Cursor Hash := do
  let bytes ← readBytes urkelHashSize
  if h : bytes.length = 32 then return ⟨bytes, h⟩ else throw .malformed

/-- `read_prefix`: the size takes two octets from 128 on, and only then. -/
def readPrefix : Cursor BitPrefix := do
  let start := (← get).length
  let first ← readU8
  let size ←
    if first &&& 0x80 ≠ 0 then do
      let second ← readU8
      pure ((first.toNat - 0x80) <<< 8 ||| second.toNat)
    else pure first.toNat
  let data ← readBytes ((size + 7) / 8)
  let bits : BitPrefix := { size, data }
  if start - (← get).length ≠ bits.encodedLen then throw .malformed
  return bits

/-- The node at a place, with a prefix if the bitmap says so. -/
def readNode (prefixBitmap : List UInt8) (index : ℕ) : Cursor UrkelProofNode := do
  let bits ←
    if hasBit prefixBitmap index then do
      let bits ← readPrefix
      if bits.size = 0 ∨ urkelBits < bits.size then throw .malformed
      pure bits
    else pure .empty
  let hash ← readHash
  return { bits, hash }

def readBody (proofType : ℕ) : Cursor ProofBody :=
  if proofType = typeDeadend then pure .deadend
  else if proofType = typeShort then do
    let bits ← readPrefix
    if bits.size = 0 ∨ urkelBits < bits.size then throw .malformed
    return .short bits (← readHash) (← readHash)
  else if proofType = typeCollision then do
    return .collision (← readHash) (← readHash)
  else if proofType = typeExists then do
    let size ← readU16Le
    return .exists (← readBytes size)
  else throw .malformed

def readProof : Cursor UrkelProof := do
  let field ← readU16Le
  let proofType := field >>> 14
  let depth := field % 2 ^ 14
  if urkelBits < depth then throw .malformed
  let count ← readU16Le
  if urkelBits < count then throw .malformed
  let prefixBitmap ← readBytes ((count + 7) / 8)
  let nodes ← (List.range count).mapM (readNode prefixBitmap)
  let body ← readBody proofType
  if !(← get).isEmpty then throw .malformed
  let proof : UrkelProof := { proofType, depth, nodes, body }
  if !proof.isSane then throw .malformed
  return proof

end Cursor

def UrkelProof.decode (bytes : List UInt8) : Except ProofError UrkelProof :=
  if maxProofSize < bytes.length then .error .tooLarge
  else Prod.fst <$> Cursor.readProof bytes

/-- A decoded proof is sane: its type is that of its body, and its sizes are in bounds. -/
theorem UrkelProof.isSane_of_decode {bytes : List UInt8} {proof : UrkelProof}
    (h : decode bytes = .ok proof) : proof.isSane := by
  have hensures : StateT.Ensures Cursor.readProof fun proof => proof.isSane := by
    refine .bind fun field => .ite (fun _ => .throw_bind) fun _ => ?_
    refine .bind fun count => .ite (fun _ => .throw_bind) fun _ => ?_
    refine .bind fun _ => .bind fun nodes => .bind fun body => .bind fun rest => ?_
    refine .ite (fun _ => .throw_bind) fun _ => .ite (fun _ => .throw_bind) fun hsane => ?_
    exact .pure (by simpa using hsane)
  rw [decode] at h
  split_ifs at h
  cases hread : Cursor.readProof bytes with
  | error e => rw [hread] at h; cases h
  | ok r =>
    rw [hread] at h
    cases h
    exact hensures bytes r.1 r.2 hread

/-! ## Verification -/

def internalPrefix : List UInt8 := [0x01]

def skipPrefix : List UInt8 := [0x02]

def leafPrefix : List UInt8 := [0x00]

section

variable [Digests]

def hashInternal (bits : BitPrefix) (left right : Hash) : Hash :=
  if bits.size = 0 then blake2b_256 [internalPrefix, left.bytes, right.bytes]
  else blake2b_256 [skipPrefix, Octet.toLE 2 bits.size, bits.data, left.bytes, right.bytes]

def hashLeaf (key valueHash : Hash) : Hash :=
  blake2b_256 [leafPrefix, key.bytes, valueHash.bytes]

def hashValue (key : Hash) (value : List UInt8) : Hash := hashLeaf key (blake2b_256 [value])

namespace UrkelProof

/-- The hash at the end of the path, where the body is one for the key. -/
def leaf (proof : UrkelProof) (key : Hash) : Option Hash :=
  match proof.body with
  | .deadend => some .zero
  | .short bits left right =>
    if bits.has key.bytes proof.depth then none else some (hashInternal bits left right)
  | .collision other valueHash => if other = key then none else some (hashLeaf other valueHash)
  | .exists value => some (hashValue key value)

/-- The loop of `verify`, over the nodes from the last to the first: the depth and the hash it ends
    with. -/
def climb (key : Hash) : List UrkelProofNode → ℕ → Hash → Option (ℕ × Hash)
  | [], depth, next => some (depth, next)
  | node :: nodes, depth, next =>
    if depth < node.bits.size + 1 then none
    else
      let depth := depth - 1
      let next :=
        if hasBit key.bytes depth then hashInternal node.bits node.hash next
        else hashInternal node.bits next node.hash
      let depth := depth - node.bits.size
      if !node.bits.has key.bytes depth then none
      else climb key nodes depth next

def verify (proof : UrkelProof) (root key : Hash) : Bool :=
  if !proof.isSane then false
  else
    match proof.leaf key with
    | none => false
    | some leaf =>
      match climb key proof.nodes.reverse proof.depth leaf with
      | none => false
      | some (depth, next) => depth = 0 ∧ next = root

end UrkelProof

end

end Hns
