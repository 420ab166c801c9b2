import Hns.Core.Bytes
import Hns.Core.Hash
import Hns.Lib.Reader

/-!
# Block headers

The Handshake block header and its proof-of-work hash: the header is split into
a *subhead* and, committing to it, a *prehead*; the hash of the latter is
masked with the header's mask. A header is sent as its fields, one after the
other, in `headerSize` octets (`serialize`), and read back from them (`parse`).
-/

namespace Hns

def headerSize : ℕ := 236

/-- A block header. -/
structure BlockHeader where
  nonce : UInt32
  time : UInt64
  prevBlock : Hash
  treeRoot : Hash
  extraNonce : Octets 24
  reservedRoot : Hash
  witnessRoot : Hash
  merkleRoot : Hash
  version : UInt32
  bits : UInt32
  mask : Hash
  deriving DecidableEq

namespace BlockHeader

/-- The header of the mainnet genesis block. -/
def mainnetGenesis : BlockHeader where
  nonce := 0
  time := 1580745078
  prevBlock := .zero
  treeRoot := .zero
  extraNonce := .zero
  reservedRoot := .zero
  witnessRoot := .ofNat 0x1a2c60b9439206938f8d7823782abdb8b211a57431e9c9b6a6365d8d42893351
  merkleRoot := .ofNat 0x8e4c9756fef2ad10375f360e0560fcc7587eb5223ddf8cd7c7e06e60a1140b15
  version := 0
  bits := 0x1c00ffff
  mask := .zero

/-- `n` octets of the previous block's hash xor the tree root, repeated. -/
def padding (header : BlockHeader) (n : ℕ) : List UInt8 :=
  (List.range n).map fun index =>
    header.prevBlock.bytes.getD (index % 32) 0 ^^^ header.treeRoot.bytes.getD (index % 32) 0

/-- `to_subhead`. -/
def toSubhead (header : BlockHeader) : List UInt8 :=
  header.extraNonce.bytes ++ header.reservedRoot.bytes ++ header.witnessRoot.bytes ++
    header.merkleRoot.bytes ++ Octet.toLE 4 header.version.toNat ++
    Octet.toLE 4 header.bits.toNat

variable [Digests] (header : BlockHeader)

def subHash : Hash := blake2b_256 [header.toSubhead]

def maskHash : Hash := blake2b_256 [header.prevBlock.bytes, header.mask.bytes]

def commitHash : Hash := blake2b_256 [header.subHash.bytes, header.maskHash.bytes]

/-- `to_prehead`. -/
def toPrehead : List UInt8 :=
  Octet.toLE 4 header.nonce.toNat ++ Octet.toLE 8 header.time.toNat ++ header.padding 20 ++
    header.prevBlock.bytes ++ header.treeRoot.bytes ++ header.commitHash.bytes

def shareHash : Hash :=
  let prehead := header.toPrehead
  let left := blake2b_512 [prehead]
  let right := sha3_256 [prehead, header.padding 8]
  blake2b_256 [left.bytes, header.padding 32, right.bytes]

/-- `pow_hash`: the share hash, masked. -/
def powHash : Hash where
  bytes := List.zipWith (· ^^^ ·) header.shareHash.bytes header.mask.bytes
  length_bytes := by simp [Octets.length_bytes]

def hash : Hash := header.powHash

end BlockHeader

/-! ## Serialisation -/

namespace BlockHeader

def serialize (header : BlockHeader) : List UInt8 :=
  Octet.toLE 4 header.nonce.toNat ++ Octet.toLE 8 header.time.toNat ++ header.prevBlock.bytes ++
    header.treeRoot.bytes ++ header.extraNonce.bytes ++ header.reservedRoot.bytes ++
    header.witnessRoot.bytes ++ header.merkleRoot.bytes ++ Octet.toLE 4 header.version.toNat ++
    Octet.toLE 4 header.bits.toNat ++ header.mask.bytes

/-- The fields of a header, in order. -/
def fields : Reader ParseError BlockHeader := do
  let nonce ← Reader.u32Le .unexpectedEof
  let time ← Reader.u64Le .unexpectedEof
  let prevBlock ← Reader.array .unexpectedEof 32
  let treeRoot ← Reader.array .unexpectedEof 32
  let extraNonce ← Reader.array .unexpectedEof 24
  let reservedRoot ← Reader.array .unexpectedEof 32
  let witnessRoot ← Reader.array .unexpectedEof 32
  let merkleRoot ← Reader.array .unexpectedEof 32
  let version ← Reader.u32Le .unexpectedEof
  let bits ← Reader.u32Le .unexpectedEof
  let mask ← Reader.array .unexpectedEof 32
  return ⟨nonce, time, prevBlock, treeRoot, extraNonce, reservedRoot, witnessRoot, merkleRoot,
    version, bits, mask⟩

def parse (data : List UInt8) : Except ParseError BlockHeader := do
  if data.length ≠ headerSize then throw .unexpectedEof
  let (header, rest) ← fields.run data
  if rest ≠ [] then throw .trailingBytes
  return header

@[simp] theorem length_serialize (header : BlockHeader) : header.serialize.length = headerSize := by
  simp [serialize, Octets.length_bytes, headerSize]

theorem reads_fields (header : BlockHeader) : fields.Reads header.serialize header := by
  have hash (hash : Hash) : (Reader.array ParseError.unexpectedEof 32).Reads hash.bytes hash :=
    Reader.reads_array _ hash
  have word (n : UInt32) : (Reader.u32Le ParseError.unexpectedEof).Reads (Octet.toLE 4 n.toNat) n :=
    Reader.reads_u32Le _ n
  rw [serialize]
  simp only [List.append_assoc]
  refine (word _).bind <| (Reader.reads_u64Le _ _).bind <| (hash _).bind <| (hash _).bind ?_
  refine (Reader.reads_array _ _).bind <| (hash _).bind <| (hash _).bind <| (hash _).bind ?_
  exact (word _).bind <| (word _).bind <| (hash _).bind_pure _

/-- A header that has been sent is read back. -/
theorem parse_serialize (header : BlockHeader) : parse header.serialize = .ok header := by
  rw [parse, if_neg (by simp)]
  simp [(reads_fields header).run_eq, pure, Except.pure]

end BlockHeader

end Hns
