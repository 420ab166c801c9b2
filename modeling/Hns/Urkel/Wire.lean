import Mathlib.Data.Nat.Bitwise
import Hns.Lib.Reader
import Hns.Urkel.Tree

/-!
# Urkel proofs on the wire

How a proof is written: a field with its type and its depth, the number of its
nodes, a bitmap of the nodes that have a prefix, the nodes and the body. A prefix
is written with its size in one octet, or in two from 128 on.

* `UrkelProof.decode_encode`: a sane proof is read back as it was. Its encoding
  is never too large (`UrkelProof.length_encode_le`).
-/

namespace Hns

open Reader

/-! ## Writing -/

/-- `set_bit`. -/
def setBit (bytes : List UInt8) (index : ℕ) : List UInt8 :=
  bytes.modify (index / 8) fun byte => byte ||| (1 <<< UInt8.ofNat (7 - index % 8))

/-- `write_prefix`. -/
def writePrefix (bits : BitPrefix) : List UInt8 :=
  (if 0x80 ≤ bits.size then [(0x80 : UInt8) ||| UInt8.ofNat (bits.size >>> 8)] else []) ++
    UInt8.ofNat bits.size :: bits.data

/-- A node, with its prefix if it has one. -/
def writeNode (node : UrkelProofNode) : List UInt8 :=
  (if node.bits.size ≠ 0 then writePrefix node.bits else []) ++ node.hash.bytes

/-- The bitmap of the nodes that have a prefix, as it is when the nodes from `index` on are still
    to be written. -/
def markPrefixes : List UrkelProofNode → ℕ → List UInt8 → List UInt8
  | [], _, bitmap => bitmap
  | node :: nodes, index, bitmap =>
    markPrefixes nodes (index + 1) (if node.bits.size ≠ 0 then setBit bitmap index else bitmap)

def writeBody : ProofBody → List UInt8
  | .deadend => []
  | .short bits left right => writePrefix bits ++ (left.bytes ++ right.bytes)
  | .collision key valueHash => key.bytes ++ valueHash.bytes
  | .exists value => Octet.toLE 2 value.length ++ value

/-- `proof_with_nodes_payload`. -/
def UrkelProof.encode (proof : UrkelProof) : List UInt8 :=
  Octet.toLE 2 (proof.proofType <<< 14 ||| proof.depth) ++
    (Octet.toLE 2 proof.nodes.length ++
      (markPrefixes proof.nodes 0 (List.replicate ((proof.nodes.length + 7) / 8) 0) ++
        (proof.nodes.flatMap writeNode ++ writeBody proof.body)))

/-! ## The bitmap -/

@[simp] theorem length_setBit (bytes : List UInt8) (index : ℕ) :
    (setBit bytes index).length = bytes.length := List.length_modify ..

/-- Setting a bit sets this bit. -/
theorem hasBit_setBit {bytes : List UInt8} {index : ℕ} (h : index < 8 * bytes.length) (i : ℕ) :
    hasBit (setBit bytes index) i = (decide (i = index) || hasBit bytes i) := by
  have hmask : (1 <<< UInt8.ofNat (7 - index % 8) : UInt8).toNat = 2 ^ (7 - index % 8) := by
    have hlt : index % 8 < 8 := Nat.mod_lt _ (by norm_num)
    generalize index % 8 = k at hlt
    interval_cases k <;> decide
  rw [hasBit_eq, hasBit_eq, Octet.bit, Octet.bit, setBit, List.getD_eq_getElem?_getD,
    List.getD_eq_getElem?_getD, List.getElem?_modify]
  by_cases hbyte : index / 8 = i / 8
  · have hlt : i / 8 < bytes.length := by omega
    rw [List.getElem?_eq_getElem hlt]
    simp only [Option.map_eq_map, Option.map_some, Option.getD_some, if_pos hbyte, UInt8.toNat_or,
      Nat.testBit_or, hmask, Nat.testBit_two_pow]
    rw [Bool.or_comm]
    congr 1
    rw [decide_eq_decide]
    omega
  · have hne : i ≠ index := fun heq => hbyte (heq ▸ rfl)
    simp [hbyte, hne]

theorem length_mark (node : UrkelProofNode) (index : ℕ) (bitmap : List UInt8) :
    (if node.bits.size ≠ 0 then setBit bitmap index else bitmap).length = bitmap.length := by
  split_ifs
  · exact length_setBit bitmap index
  · rfl

theorem length_markPrefixes (nodes : List UrkelProofNode) (index : ℕ) (bitmap : List UInt8) :
    (markPrefixes nodes index bitmap).length = bitmap.length := by
  induction nodes generalizing index bitmap with
  | nil => rfl
  | cons node nodes ih => rw [markPrefixes, ih, length_mark]

/-- A bit that is behind the nodes is left as it is. -/
theorem hasBit_markPrefixes_of_lt {nodes : List UrkelProofNode} {index : ℕ} {bitmap : List UInt8}
    (h : index + nodes.length ≤ 8 * bitmap.length) {i : ℕ} (hi : i < index) :
    hasBit (markPrefixes nodes index bitmap) i = hasBit bitmap i := by
  induction nodes generalizing index bitmap with
  | nil => rfl
  | cons node nodes ih =>
    rw [List.length_cons] at h
    rw [markPrefixes, ih (by rw [length_mark]; omega) (by omega)]
    split_ifs
    · rw [hasBit_setBit (by omega), decide_eq_false hi.ne, Bool.false_or]
    · rfl

/-- The bit of a node tells whether it has a prefix. -/
theorem hasBit_markPrefixes {nodes : List UrkelProofNode} {index : ℕ} {bitmap : List UInt8}
    (h : index + nodes.length ≤ 8 * bitmap.length)
    (hzero : ∀ i, index ≤ i → hasBit bitmap i = false) {i : ℕ} (hi : i < nodes.length) :
    hasBit (markPrefixes nodes index bitmap) (index + i) = decide (nodes[i].bits.size ≠ 0) := by
  induction nodes generalizing index bitmap i with
  | nil => exact absurd hi (Nat.not_lt_zero i)
  | cons node nodes ih =>
    rw [List.length_cons] at h
    rw [markPrefixes]
    have hlength : index + 1 + nodes.length ≤
        8 * (if node.bits.size ≠ 0 then setBit bitmap index else bitmap).length := by
      rw [length_mark]
      omega
    cases i with
    | zero =>
      rw [hasBit_markPrefixes_of_lt hlength (by omega), List.getElem_cons_zero]
      split_ifs with hsize
      · rw [hasBit_setBit (by omega), decide_eq_true hsize]
        simp
      · rw [add_zero, hzero index le_rfl, decide_eq_false hsize]
    | succ i =>
      have hnext : ∀ j, index + 1 ≤ j →
          hasBit (if node.bits.size ≠ 0 then setBit bitmap index else bitmap) j = false := by
        intro j hj
        split_ifs
        · rw [hasBit_setBit (by omega), decide_eq_false (by omega), hzero j (by omega),
            Bool.false_or]
        · exact hzero j (by omega)
      rw [List.getElem_cons_succ, ← ih hlength hnext (by simpa using hi)]
      congr 1
      omega

/-- A bitmap of zeros has no bit. -/
theorem hasBit_replicate_zero (n i : ℕ) : hasBit (List.replicate n 0) i = false := by
  rw [hasBit_eq, Octet.bit, List.getD_eq_getElem?_getD, List.getElem?_replicate]
  split_ifs <;> simp

/-! ## Reading back -/

/-- The data of a prefix are as long as its bits need. -/
def BitPrefix.Packed (bits : BitPrefix) : Prop := bits.data.length = (bits.size + 7) / 8

namespace Cursor

theorem reads_readBytes {piece : List UInt8} {length : ℕ} (h : piece.length = length) :
    Reads (readBytes length) piece piece := by
  intro rest
  subst h
  change (if piece.length ≤ (piece ++ rest).length then _ else _) = _
  rw [if_pos (by simp), List.take_left, List.drop_left]

theorem reads_readU8 (byte : UInt8) : Reads readU8 [byte] byte := fun _ => rfl

theorem reads_readU16Le {n : ℕ} (h : n < 2 ^ 16) : Reads readU16Le (Octet.toLE 2 n) n := by
  have hread := (reads_readBytes (Octet.length_toLE 2 n)).bind_pure fun bytes =>
    (bytes.getD 0 0).toNat + 256 * (bytes.getD 1 0).toNat
  have hvalue : ((Octet.toLE 2 n).getD 0 0).toNat + 256 * ((Octet.toLE 2 n).getD 1 0).toNat = n := by
    simp only [Octet.toLE, List.getD_cons_zero, List.getD_cons_succ, UInt8.toNat_ofNat']
    omega
  rw [hvalue] at hread
  exact hread

theorem reads_readHash (hash : Hash) : Reads readHash hash.bytes hash := by
  refine (reads_readBytes hash.length_bytes).bind_nil ?_
  rw [dif_pos hash.length_bytes]
  exact .pure hash

/-- The size of a prefix, as `readPrefix` reads it. -/
def readSize : Cursor ℕ := do
  let first ← readU8
  if first &&& 0x80 ≠ 0 then do
    let second ← readU8
    pure ((first.toNat - 0x80) <<< 8 ||| second.toNat)
  else pure first.toNat

theorem readPrefix_eq : readPrefix = do
    let start := (← get).length
    let size ← readSize
    let data ← readBytes ((size + 7) / 8)
    let rest := (← get).length
    if start - rest ≠ (⟨size, data⟩ : BitPrefix).encodedLen then throw .malformed
    return ⟨size, data⟩ := by
  rw [readPrefix, readSize]
  simp only [bind_assoc]
  congr 1
  funext start
  congr 1
  funext first
  split_ifs
  · rw [bind_assoc]
  · rfl

/-- The size takes one octet, or two. -/
theorem reads_readSize {size : ℕ} (h : size < 2 ^ 15) :
    Reads readSize ((if 0x80 ≤ size then [(0x80 : UInt8) ||| UInt8.ofNat (size >>> 8)] else []) ++
        [UInt8.ofNat size]) size := by
  split_ifs with hlong
  · -- The first octet has the mark, and the high bits.
    have hhigh : size >>> 8 < 128 := by
      rw [Nat.shiftRight_eq_div_pow]
      omega
    have hfirst : ((0x80 : UInt8) ||| UInt8.ofNat (size >>> 8)).toNat = 0x80 + size >>> 8 := by
      rw [UInt8.toNat_or, UInt8.toNat_ofNat_of_lt' (by rw [UInt8.size]; omega)]
      exact (Nat.two_pow_add_eq_or_of_lt (i := 7) hhigh 1).symm
    have hmark : ((0x80 : UInt8) ||| UInt8.ofNat (size >>> 8)) &&& 0x80 ≠ 0 := by
      rw [ne_eq, ← UInt8.toNat_inj, UInt8.toNat_and, hfirst]
      change ¬((0x80 + size >>> 8) &&& 2 ^ 7 = 0)
      rw [Nat.and_two_pow, Nat.testBit_of_two_pow_le_and_two_pow_add_one_gt (by omega) (by omega)]
      norm_num
    refine (reads_readU8 _).bind ?_
    rw [if_pos hmark]
    have hsize : (((0x80 : UInt8) ||| UInt8.ofNat (size >>> 8)).toNat - 0x80) <<< 8 |||
        (UInt8.ofNat size).toNat = size := by
      rw [hfirst, Nat.add_sub_cancel_left, UInt8.toNat_ofNat', ← Nat.shiftLeft_add_eq_or_of_lt
        (Nat.mod_lt _ (by norm_num)), Nat.shiftLeft_eq, Nat.shiftRight_eq_div_pow]
      omega
    have hread := (reads_readU8 (UInt8.ofNat size)).bind_pure fun second =>
      (((0x80 : UInt8) ||| UInt8.ofNat (size >>> 8)).toNat - 0x80) <<< 8 ||| second.toNat
    rwa [hsize] at hread
  · have hfirst : (UInt8.ofNat size).toNat = size :=
      UInt8.toNat_ofNat_of_lt' (by rw [UInt8.size]; omega)
    have hmark : ¬(UInt8.ofNat size &&& 0x80 ≠ 0) := by
      rw [not_not, ← UInt8.toNat_inj, UInt8.toNat_and, hfirst]
      change size &&& 2 ^ 7 = 0
      rw [Nat.and_two_pow, Nat.testBit_lt_two_pow (by omega)]
      rfl
    refine (reads_readU8 _).bind_nil ?_
    rw [if_neg hmark, hfirst]
    exact .pure size

/-- A prefix of fewer than `2 ^ 15` bits is read back, in both forms of its size. -/
theorem reads_readPrefix {bits : BitPrefix} (hpacked : bits.Packed) (hsize : bits.size < 2 ^ 15) :
    Reads readPrefix (writePrefix bits) bits := by
  intro rest
  have hencoded : (writePrefix bits ++ rest).length - rest.length = bits.encodedLen := by
    rw [writePrefix, BitPrefix.encodedLen]
    split_ifs <;> simp <;> omega
  rw [readPrefix_eq, StateT.run_bind, StateT.run_get, pure_bind]
  dsimp only
  generalize (writePrefix bits ++ rest).length = start at hencoded
  have hpieces : writePrefix bits ++ rest =
      (if 0x80 ≤ bits.size then [(0x80 : UInt8) ||| UInt8.ofNat (bits.size >>> 8)] else []) ++
        [UInt8.ofNat bits.size] ++ (bits.data ++ rest) := by simp [writePrefix]
  rw [hpieces, (reads_readSize hsize).run_bind, (reads_readBytes hpacked).run_bind,
    StateT.run_bind, StateT.run_get, pure_bind]
  dsimp only
  rw [if_neg (not_not.2 hencoded)]
  rfl

/-- A node is read back where the bitmap tells whether it has a prefix. -/
theorem reads_readNode {bitmap : List UInt8} {index : ℕ} {node : UrkelProofNode}
    (hbit : hasBit bitmap index = decide (node.bits.size ≠ 0)) (hpacked : node.bits.Packed)
    (hsize : node.bits.size ≤ urkelBits) : Reads (readNode bitmap index) (writeNode node) node := by
  obtain ⟨bits, hash⟩ := node
  have hsize' : bits.size ≤ 256 := hsize
  rw [readNode, writeNode, hbit]
  by_cases hzero : bits.size = 0
  · have hempty : bits = .empty := by
      obtain ⟨size, data⟩ := bits
      have hdata : data.length = (size + 7) / 8 := hpacked
      rw [show size = 0 from hzero] at hdata ⊢
      rw [List.length_eq_zero_iff.1 hdata, BitPrefix.empty]
    rw [if_neg (by simpa using hzero), if_neg (not_not.2 hzero), hempty]
    refine .nil_bind (.pure _) ?_
    exact (reads_readHash hash).bind_pure _
  · rw [if_pos (by simpa using hzero), if_pos hzero]
    refine (reads_readPrefix hpacked (hsize.trans_lt (by decide))).bind (.guard ?_ ?_)
    · rintro (h | h)
      · exact hzero h
      · exact absurd hsize (not_le.2 h)
    · exact .nil_bind (.pure bits) ((reads_readHash hash).bind_pure _)

/-- A body is read back by its type. -/
theorem reads_readBody {proofType : ℕ} {body : ProofBody} (h : UrkelProof.SaneBody proofType body)
    (hpacked : ∀ bits left right, body = .short bits left right → bits.Packed) :
    Reads (readBody proofType) (writeBody body) body := by
  rw [readBody]
  cases body with
  | deadend =>
    refine .ite_pos h (.pure _)
  | short bits left right =>
    obtain ⟨rfl, hpos, hsize⟩ := h
    refine .ite_neg (by decide) (.ite_pos rfl ?_)
    refine (reads_readPrefix (hpacked bits left right rfl) (hsize.trans_lt (by decide))).bind
      (.guard ?_ ((reads_readHash left).bind ((reads_readHash right).bind_pure _)))
    rintro (h | h)
    · exact hpos.ne' h
    · exact absurd hsize (not_le.2 h)
  | collision key valueHash =>
    obtain rfl := h
    refine .ite_neg (by decide) (.ite_neg (by decide) (.ite_pos rfl ?_))
    exact (reads_readHash key).bind ((reads_readHash valueHash).bind_pure _)
  | «exists» value =>
    obtain ⟨rfl, hlength⟩ := h
    refine .ite_neg (by decide) (.ite_neg (by decide) (.ite_neg (by decide) (.ite_pos rfl ?_)))
    exact (reads_readU16Le (hlength.trans_lt (by norm_num))).bind
      ((reads_readBytes rfl).bind_pure _)

end Cursor

/-! ## Proofs -/

namespace UrkelProof

variable {proof : UrkelProof}

/-- A sane proof whose prefixes are packed, as all prefixes are that are read or made. -/
structure WellFormed (proof : UrkelProof) : Prop where
  sane : proof.isSane
  nodes {node : UrkelProofNode} (h : node ∈ proof.nodes) : node.bits.Packed
  body {bits : BitPrefix} {left right : Hash} (h : proof.body = .short bits left right) :
    bits.Packed

theorem proofType_lt (h : proof.isSane) : proof.proofType < 4 := by
  obtain ⟨-, -, -, hbody⟩ := isSane_iff.1 h
  cases hcase : proof.body with
  | deadend =>
    rw [hcase] at hbody
    exact hbody.trans_lt (by decide)
  | short bits left right =>
    rw [hcase] at hbody
    exact hbody.1.trans_lt (by decide)
  | collision key valueHash =>
    rw [hcase] at hbody
    exact hbody.trans_lt (by decide)
  | «exists» value =>
    rw [hcase] at hbody
    exact hbody.1.trans_lt (by decide)

/-- The field with the type and the depth. -/
theorem field_eq (h : proof.isSane) :
    proof.proofType <<< 14 ||| proof.depth = proof.proofType * 2 ^ 14 + proof.depth := by
  have hdepth : proof.depth < 2 ^ 14 := (isSane_iff.1 h).1.trans_lt (by decide)
  rw [← Nat.shiftLeft_add_eq_or_of_lt hdepth, Nat.shiftLeft_eq]

/-- The nodes are read back with the bitmap that was written for them. -/
theorem reads_nodes (h : proof.WellFormed) :
    Reads ((List.range proof.nodes.length).mapM (Cursor.readNode
      (markPrefixes proof.nodes 0 (List.replicate ((proof.nodes.length + 7) / 8) 0))))
      (proof.nodes.flatMap writeNode) proof.nodes := by
  obtain ⟨-, -, hsizes, -⟩ := isSane_iff.1 h.sane
  refine .mapM (List.forall₂_iff_get.2 ⟨List.length_range, fun i hi hi' => ?_⟩)
  rw [List.get_eq_getElem, List.get_eq_getElem, List.getElem_range]
  have hmem : proof.nodes[i] ∈ proof.nodes := List.getElem_mem hi'
  refine Cursor.reads_readNode ?_ (h.nodes hmem) (hsizes _ hmem)
  have hroom : 0 + proof.nodes.length ≤
      8 * (List.replicate ((proof.nodes.length + 7) / 8) (0 : UInt8)).length := by
    rw [List.length_replicate]
    omega
  have hbit := hasBit_markPrefixes hroom (fun j _ => hasBit_replicate_zero _ j) hi'
  rwa [zero_add] at hbit

/-- A well-formed proof is read back. -/
theorem readProof_encode (h : proof.WellFormed) :
    Cursor.readProof.run proof.encode = .ok (proof, []) := by
  obtain ⟨hdepth, hcount, hsizes, hbody⟩ := isSane_iff.1 h.sane
  have htype := proofType_lt h.sane
  rw [urkelBits] at hdepth hcount
  have hfield : (proof.proofType * 2 ^ 14 + proof.depth) >>> 14 = proof.proofType := by
    rw [Nat.shiftRight_eq_div_pow]
    omega
  have hmod : (proof.proofType * 2 ^ 14 + proof.depth) % 2 ^ 14 = proof.depth := by omega
  have hbitmap : (markPrefixes proof.nodes 0
      (List.replicate ((proof.nodes.length + 7) / 8) 0)).length =
        (proof.nodes.length + 7) / 8 := by
    rw [length_markPrefixes, List.length_replicate]
  rw [Cursor.readProof, encode, field_eq h.sane,
    (Cursor.reads_readU16Le (by omega)).run_bind]
  dsimp only
  rw [hfield, hmod, if_neg (by rw [urkelBits]; omega),
    (Cursor.reads_readU16Le (by omega)).run_bind]
  rw [if_neg (by rw [urkelBits]; omega), (Cursor.reads_readBytes hbitmap).run_bind,
    (reads_nodes h).run_bind]
  have hread := Cursor.reads_readBody hbody fun _ _ _ heq => h.body heq
  rw [← List.append_nil (writeBody proof.body), hread.run_bind, StateT.run_bind, StateT.run_get,
    pure_bind]
  dsimp only
  rw [if_neg (by simp), if_neg (by simpa using h.sane)]
  rfl

theorem length_writePrefix_le {bits : BitPrefix} (hpacked : bits.Packed)
    (hsize : bits.size ≤ urkelBits) : (writePrefix bits).length ≤ 34 := by
  rw [BitPrefix.Packed] at hpacked
  rw [urkelBits] at hsize
  rw [writePrefix]
  split_ifs <;> simp <;> omega

theorem length_writeNodes_le {nodes : List UrkelProofNode}
    (hpacked : ∀ node ∈ nodes, node.bits.Packed) (hsizes : ∀ node ∈ nodes, node.bits.size ≤ urkelBits) :
    (nodes.flatMap writeNode).length ≤ 66 * nodes.length := by
  induction nodes with
  | nil => exact le_rfl
  | cons node nodes ih =>
    rw [List.forall_mem_cons] at hpacked hsizes
    have hnode : (writeNode node).length ≤ 66 := by
      have := length_writePrefix_le hpacked.1 hsizes.1
      have := node.hash.length_bytes
      rw [writeNode]
      split_ifs <;> simp <;> omega
    have := ih hpacked.2 hsizes.2
    rw [List.flatMap_cons, List.length_append, List.length_cons]
    omega

/-- The encoding of a well-formed proof is not too large. -/
theorem length_encode_le (h : proof.WellFormed) : proof.encode.length ≤ maxProofSize := by
  obtain ⟨hdepth, hcount, hsizes, hbody⟩ := isSane_iff.1 h.sane
  have hnodes := length_writeNodes_le (fun _ hmem => h.nodes hmem) hsizes
  have hlength : (writeBody proof.body).length ≤ 2 ^ 17 := by
    cases hcase : proof.body with
    | deadend => exact Nat.zero_le _
    | short bits left right =>
      rw [hcase] at hbody
      have := length_writePrefix_le (h.body hcase) hbody.2.2
      have := left.length_bytes
      have := right.length_bytes
      rw [writeBody, List.length_append, List.length_append]
      omega
    | collision key valueHash =>
      have := key.length_bytes
      have := valueHash.length_bytes
      rw [writeBody, List.length_append]
      omega
    | «exists» value =>
      rw [hcase] at hbody
      have := hbody.2
      rw [writeBody, List.length_append, Octet.length_toLE]
      omega
  rw [urkelBits] at hcount
  rw [encode, maxProofSize]
  simp only [List.length_append, Octet.length_toLE, length_markPrefixes, List.length_replicate]
  omega

/-- Decoding a well-formed proof that has been encoded. -/
theorem decode_encode (h : proof.WellFormed) : decode proof.encode = .ok proof := by
  rw [decode, if_neg (not_lt.2 (length_encode_le h))]
  exact congrArg (Prod.fst <$> ·) (readProof_encode h)

end UrkelProof

end Hns
