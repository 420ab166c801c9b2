import Hns.Urkel.Tree

/-!
# Soundness of Urkel proofs

A proof that verifies against the root of a tree tells what the tree holds for
the key. The inputs of the hash function are compared from the root down: the
hash rebuilt from a node of the proof is that of the subtree on the path of the
key, so that the node is the one of the tree (`eq_internal_of_root_eq`) and the
hash below is that of the next subtree on the path (`climb_sound`). The body of
the proof meets the subtree where the path ends.

The hash function is taken to be free of collisions on what it is fed, for the
tree and for the proof.
-/

namespace Hns

section

variable [Digests]

/-- The hash function on some inputs: different hashes for different inputs, none of them zero. -/
structure CollisionFree (inputs : List (List UInt8)) : Prop where
  injective {x y} (hx : x ∈ inputs) (hy : y ∈ inputs) (h : blake2b_256 [x] = blake2b_256 [y]) : x = y
  ne_zero {x} (hx : x ∈ inputs) : blake2b_256 [x] ≠ .zero

/-! ## What is hashed -/

/-- The input of the hash of an internal node. -/
def internalInput (bits : BitPrefix) (left right : Hash) : List UInt8 :=
  if bits.size = 0 then 0x01 :: (left.bytes ++ right.bytes)
  else 0x02 :: (Octet.toLE 2 bits.size ++ (bits.data ++ (left.bytes ++ right.bytes)))

/-- The input of the hash of a leaf. -/
def leafInput (key valueHash : Hash) : List UInt8 := 0x00 :: (key.bytes ++ valueHash.bytes)

theorem hashInternal_eq (bits : BitPrefix) (left right : Hash) :
    hashInternal bits left right = blake2b_256 [internalInput bits left right] := by
  rw [hashInternal, internalInput]
  split_ifs <;> simp [blake2b_256, internalPrefix, skipPrefix]

theorem hashLeaf_eq (key valueHash : Hash) :
    hashLeaf key valueHash = blake2b_256 [leafInput key valueHash] := by
  simp [hashLeaf, leafInput, blake2b_256, leafPrefix]

/-- What is hashed for a tree. -/
def UrkelTree.fed {path : List Bool} : UrkelTree path → List (List UInt8)
  | empty => []
  | leaf key value _ => [value, leafInput key (blake2b_256 [value])]
  | internal bits _ left right =>
    internalInput (.ofBits bits) left.root right.root :: (left.fed ++ right.fed)

namespace UrkelProof

/-- What is hashed for the body of a proof. -/
def bodyFed (proof : UrkelProof) (key : Hash) : List (List UInt8) :=
  match proof.body with
  | .deadend => []
  | .short bits left right => [internalInput bits left right]
  | .collision other valueHash => [leafInput other valueHash]
  | .exists value => [value, leafInput key (blake2b_256 [value])]

/-- What is hashed by the loop over the nodes. -/
def climbFed (key : Hash) : List UrkelProofNode → ℕ → Hash → List (List UInt8)
  | [], _, _ => []
  | node :: nodes, depth, next =>
    let (left, right) :=
      if hasBit key.bytes (depth - 1) then (node.hash, next) else (next, node.hash)
    internalInput node.bits left right ::
      climbFed key nodes (depth - 1 - node.bits.size) (hashInternal node.bits left right)

/-- What is hashed to verify a proof. -/
def fed (proof : UrkelProof) (key : Hash) : List (List UInt8) :=
  proof.bodyFed key ++
    match proof.leaf key with
    | none => []
    | some leaf => climbFed key proof.nodes.reverse proof.depth leaf

end UrkelProof

/-! ## The input of an internal node and of a leaf -/

omit [Digests] in
/-- The size is read back, and with it the end of the prefix. -/
theorem internalInput_inj {bits bits' : BitPrefix} {left right left' right' : Hash}
    (hsize : bits.size < 2 ^ 16) (hsize' : bits'.size < 2 ^ 16)
    (h : internalInput bits left right = internalInput bits' left' right') :
    bits.size = bits'.size ∧ (0 < bits.size → bits.data = bits'.data) ∧ left = left' ∧
      right = right' := by
  have hhash {l r l' r' : Hash} (h : l.bytes ++ r.bytes = l'.bytes ++ r'.bytes) :
      l = l' ∧ r = r' := by
    obtain ⟨hl, hr⟩ := List.append_inj h (l.length_bytes.trans l'.length_bytes.symm)
    exact ⟨Octets.ext hl, Octets.ext hr⟩
  rw [internalInput, internalInput] at h
  split_ifs at h with hzero hzero'
  · obtain ⟨hl, hr⟩ := hhash (List.cons.inj h).2
    exact ⟨hzero.trans hzero'.symm, fun hpos => absurd hzero hpos.ne', hl, hr⟩
  · exact absurd (List.cons.inj h).1 (by decide)
  · exact absurd (List.cons.inj h).1 (by decide)
  · obtain ⟨hsizes, h⟩ := List.append_inj (List.cons.inj h).2 (by simp)
    have hsizes := Octet.toLE_inj hsizes
    rw [Nat.mod_eq_of_lt (by simpa using hsize), Nat.mod_eq_of_lt (by simpa using hsize')] at hsizes
    obtain ⟨hdata, h⟩ := List.append_inj' h (by simp [Octets.length_bytes])
    obtain ⟨hl, hr⟩ := hhash h
    exact ⟨hsizes, fun _ => hdata, hl, hr⟩

omit [Digests] in
theorem leafInput_ne_internalInput (key valueHash : Hash) (bits : BitPrefix) (left right : Hash) :
    leafInput key valueHash ≠ internalInput bits left right := by
  rw [leafInput, internalInput]
  split_ifs
  · exact fun h => absurd (List.cons.inj h).1 (by decide)
  · exact fun h => absurd (List.cons.inj h).1 (by decide)

omit [Digests] in
theorem leafInput_inj {key valueHash key' valueHash' : Hash}
    (h : leafInput key valueHash = leafInput key' valueHash') :
    key = key' ∧ valueHash = valueHash' := by
  obtain ⟨hkey, hvalue⟩ := List.append_inj (List.cons.inj h).2
    (key.length_bytes.trans key'.length_bytes.symm)
  exact ⟨Octets.ext hkey, Octets.ext hvalue⟩

/-! ## Trees from their roots -/

section

variable {inputs : List (List UInt8)} (hfree : CollisionFree inputs) {path : List Bool}
  {tree : UrkelTree path} (hfed : ∀ x ∈ tree.fed, x ∈ inputs)

include hfree hfed

/-- Only the empty tree has the zero root. -/
theorem eq_empty_of_root_eq (h : tree.root = .zero) : tree = .empty := by
  cases tree with
  | empty => rfl
  | leaf key value _ =>
    rw [UrkelTree.root, hashValue, hashLeaf_eq] at h
    exact absurd h (hfree.ne_zero (hfed _ (by simp [UrkelTree.fed])))
  | internal bits _ left right =>
    rw [UrkelTree.root, hashInternal_eq] at h
    exact absurd h (hfree.ne_zero (hfed _ List.mem_cons_self))

/-- A tree with the root of an internal node is that node. -/
theorem eq_internal_of_root_eq {bits : BitPrefix} {left right : Hash} (hsize : bits.size ≤ 256)
    (hinput : internalInput bits left right ∈ inputs) (h : tree.root = hashInternal bits left right) :
    ∃ (treeBits : List Bool) (hlt : path.length + treeBits.length < 256)
      (l : UrkelTree (path ++ treeBits ++ [false])) (r : UrkelTree (path ++ treeBits ++ [true])),
      tree = .internal treeBits hlt l r ∧ Octet.bits bits.size bits.data = treeBits ∧
        l.root = left ∧ r.root = right := by
  rw [hashInternal_eq] at h
  cases tree with
  | empty => exact absurd h.symm (hfree.ne_zero hinput)
  | leaf key value _ =>
    rw [UrkelTree.root, hashValue, hashLeaf_eq] at h
    exact absurd (hfree.injective (hfed _ (by simp [UrkelTree.fed])) hinput h)
      (leafInput_ne_internalInput _ _ _ _ _)
  | internal treeBits hlt l r =>
    rw [UrkelTree.root, hashInternal_eq] at h
    have hlength : treeBits.length < 2 ^ 16 := by omega
    obtain ⟨hsizes, hdata, hl, hr⟩ := internalInput_inj hlength (by omega)
      (hfree.injective (hfed _ List.mem_cons_self) hinput h)
    refine ⟨treeBits, hlt, l, r, rfl, ?_, hl, hr⟩
    rw [BitPrefix.ofBits] at hsizes hdata
    rw [← hsizes]
    rcases Nat.eq_zero_or_pos treeBits.length with hzero | hpos
    · rw [List.length_eq_zero_iff.1 hzero]
      rfl
    · rw [← hdata hpos]
      exact Octet.bits_pack treeBits

/-- A tree with the root of a leaf is that leaf. -/
theorem eq_leaf_of_root_eq {key valueHash : Hash} (hinput : leafInput key valueHash ∈ inputs)
    (h : tree.root = hashLeaf key valueHash) :
    ∃ value hpath, tree = .leaf key value hpath ∧ blake2b_256 [value] = valueHash := by
  rw [hashLeaf_eq] at h
  cases tree with
  | empty => exact absurd h.symm (hfree.ne_zero hinput)
  | leaf key' value hpath =>
    rw [UrkelTree.root, hashValue, hashLeaf_eq] at h
    obtain ⟨rfl, hvalue⟩ := leafInput_inj
      (hfree.injective (hfed _ (by simp [UrkelTree.fed])) hinput h)
    exact ⟨value, hpath, rfl, hvalue⟩
  | internal bits _ l r =>
    rw [UrkelTree.root, hashInternal_eq] at h
    exact absurd (hfree.injective (hfed _ List.mem_cons_self) hinput h).symm
      (leafInput_ne_internalInput _ _ _ _ _)

end

/-! ## The path of the key -/

omit [Digests] in
/-- The side of an internal node on which a key is. -/
theorem UrkelTree.mem_entries_internal {path bits : List Bool} {h : path.length + bits.length < 256}
    {left : UrkelTree (path ++ bits ++ [false])} {right : UrkelTree (path ++ bits ++ [true])}
    {key : Hash} {value : List UInt8} {depth : ℕ} (hdepth : depth = path.length + bits.length) :
    (key, value) ∈ (internal bits h left right).entries ↔
      if hasBit key.bytes depth then (key, value) ∈ right.entries
      else (key, value) ∈ left.entries := by
  -- The bit after the prefix is that of the key.
  have hbit {side : Bool} (hside : path ++ bits ++ [side] <+: keyBits key) :
      hasBit key.bytes depth = side := by
    have hget := List.prefix_iff_getElem?.1 hside depth (by simp [hdepth])
    rw [getElem?_keyBits key (by omega), Option.some.injEq] at hget
    rw [hget, List.getElem_append_right (by simp [hdepth])]
    simp
  rw [entries, List.mem_append]
  constructor
  · rintro (hleft | hright)
    · rw [hbit (prefix_of_mem_entries hleft), if_neg Bool.false_ne_true]
      exact hleft
    · rw [hbit (prefix_of_mem_entries hright), if_pos rfl]
      exact hright
  · intro hmem
    split_ifs at hmem
    · exact .inr hmem
    · exact .inl hmem

open UrkelProof in
/-- A climb that ends with the root of a tree began with that of the subtree on the path of the
    key, which holds what the tree holds for the key. -/
theorem climb_sound {inputs : List (List UInt8)} (hfree : CollisionFree inputs)
    {tree : UrkelTree []} (hfed : ∀ x ∈ tree.fed, x ∈ inputs) {key : Hash}
    {nodes : List UrkelProofNode} {depth : ℕ} {next : Hash} (hdepth : depth ≤ 256)
    (hnodes : ∀ node ∈ nodes, node.bits.size ≤ 256)
    (hinputs : ∀ x ∈ climbFed key nodes depth next, x ∈ inputs)
    (h : climb key nodes depth next = some (0, tree.root)) :
    ∃ (path : List Bool) (sub : UrkelTree path), path = (keyBits key).take depth ∧
      sub.root = next ∧ (∀ x ∈ sub.fed, x ∈ inputs) ∧
      ∀ value, (key, value) ∈ tree.entries ↔ (key, value) ∈ sub.entries := by
  induction nodes generalizing depth next with
  | nil =>
    rw [climb, Option.some.injEq, Prod.mk.injEq] at h
    obtain ⟨rfl, rfl⟩ := h
    exact ⟨[], tree, rfl, rfl, hfed, fun _ => Iff.rfl⟩
  | cons node nodes ih =>
    obtain ⟨left, right, hsides⟩ : ∃ left right, (left, right) =
        if hasBit key.bytes (depth - 1) then (node.hash, next) else (next, node.hash) := ⟨_, _, rfl⟩
    have hnext : (if hasBit key.bytes (depth - 1) then hashInternal node.bits node.hash next
        else hashInternal node.bits next node.hash) = hashInternal node.bits left right := by
      split_ifs at hsides ⊢
      all_goals
        obtain ⟨rfl, rfl⟩ := Prod.mk.inj hsides
        rfl
    rw [climbFed, ← hsides] at hinputs
    obtain ⟨hinput, hinputs⟩ := List.forall_mem_cons.1 hinputs
    obtain ⟨hsize, hnodes⟩ := List.forall_mem_cons.1 hnodes
    rw [climb] at h
    dsimp only at h
    rw [hnext] at h
    split_ifs at h with hlt hhas
    rw [Bool.not_eq_true, Bool.not_eq_false', BitPrefix.has_iff] at hhas
    -- The node of the proof is the one at the end of the path so far.
    obtain ⟨path, sub, hpath, hroot, hsub, hentries⟩ := ih (by omega) hnodes hinputs h
    obtain ⟨bits, hlen, l, r, rfl, hbits, hl, hr⟩ :=
      eq_internal_of_root_eq hfree hsub hsize hinput hroot
    have hlength : node.bits.size = bits.length := by rw [← hbits, Octet.length_bits]
    have hend : depth - 1 = path.length + bits.length := by
      rw [hpath, List.length_take, length_keyBits]
      omega
    -- The path goes on with its bits, and with the bit of the key that chooses the side.
    have hgoes (side : Bool) (hside : hasBit key.bytes (depth - 1) = side) :
        path ++ bits ++ [side] = (keyBits key).take depth := by
      have hsplit : depth = depth - 1 - node.bits.size + (node.bits.size + 1) := by omega
      have hnth : (keyBits key).drop (depth - 1 - node.bits.size) =
          bits ++ ((keyBits key).drop (depth - 1 - node.bits.size)).drop bits.length := by
        rw [hbits] at hhas
        exact (List.prefix_iff_eq_append.1 hhas).symm
      rw [hsplit, List.take_add, ← hpath, List.append_assoc]
      congr 1
      rw [hnth, hlength, List.take_length_add_append, List.drop_drop]
      congr 1
      rw [List.take_one, List.head?_drop, (by omega :
        depth - 1 - bits.length + bits.length = depth - 1), getElem?_keyBits key (by omega), hside]
      rfl
    simp only [hentries, UrkelTree.mem_entries_internal hend]
    cases hside : hasBit key.bytes (depth - 1) with
    | false =>
      rw [hside, if_neg Bool.false_ne_true, Prod.mk.injEq] at hsides
      refine ⟨_, l, hgoes false hside, hl.trans hsides.1, fun x hx => hsub x ?_, fun _ => by simp⟩
      exact List.mem_cons_of_mem _ (List.mem_append_left _ hx)
    | true =>
      rw [hside, if_pos rfl, Prod.mk.injEq] at hsides
      refine ⟨_, r, hgoes true hside, hr.trans hsides.2, fun x hx => hsub x ?_, fun _ => by simp⟩
      exact List.mem_cons_of_mem _ (List.mem_append_right _ hx)

/-! ## What a proof proves -/

namespace UrkelProof

/-- The type of a body. -/
def bodyType : ProofBody → ℕ
  | .deadend => typeDeadend
  | .short _ _ _ => typeShort
  | .collision _ _ => typeCollision
  | .exists _ => typeExists

variable {proof : UrkelProof}

omit [Digests] in
theorem of_isSane (h : proof.isSane) :
    proof.depth ≤ 256 ∧ (∀ node ∈ proof.nodes, node.bits.size ≤ 256) ∧
      proof.proofType = bodyType proof.body ∧
      ∀ bits left right, proof.body = .short bits left right → bits.size ≤ 256 := by
  obtain ⟨hdepth, -, hsizes, hbody⟩ := isSane_iff.1 h
  refine ⟨hdepth, hsizes, ?_⟩
  cases hcase : proof.body with
  | deadend =>
    rw [hcase] at hbody
    exact ⟨hbody, fun _ _ _ hshort => by cases hshort⟩
  | short bits left right =>
    rw [hcase] at hbody
    refine ⟨hbody.1, ?_⟩
    rintro _ _ _ ⟨⟩
    exact hbody.2.2
  | collision key valueHash =>
    rw [hcase] at hbody
    exact ⟨hbody, fun _ _ _ hshort => by cases hshort⟩
  | «exists» value =>
    rw [hcase] at hbody
    exact ⟨hbody.1, fun _ _ _ hshort => by cases hshort⟩

/-- What is known of a proof that verifies. -/
theorem of_verify {root key : Hash} (h : proof.verify root key) :
    proof.isSane ∧ ∃ leaf, proof.leaf key = some leaf ∧
      climb key proof.nodes.reverse proof.depth leaf = some (0, root) := by
  rw [verify] at h
  split_ifs at h with hsane
  rw [Bool.not_eq_true, Bool.not_eq_false'] at hsane
  cases hleaf : proof.leaf key with
  | none => simp [hleaf] at h
  | some leaf =>
    cases hclimb : climb key proof.nodes.reverse proof.depth leaf with
    | none => simp [hleaf, hclimb] at h
    | some last =>
      simp only [hleaf, hclimb, decide_eq_true_eq] at h
      exact ⟨hsane, leaf, rfl, hclimb.trans (congrArg some (Prod.ext h.1 h.2))⟩

/-- A proof that verifies against the root of a tree is an inclusion exactly when the tree has the
    key, and its value is then the one of the tree. -/
theorem verify_sound (tree : UrkelTree []) (key : Hash) (proof : UrkelProof)
    (hfree : CollisionFree (tree.fed ++ proof.fed key)) (h : proof.verify tree.root key) :
    (proof.kind = .inclusion ↔ ∃ value, (key, value) ∈ tree.entries) ∧
      ∀ value, (key, value) ∈ tree.entries → proof.value = some value := by
  obtain ⟨hsane, leaf, hleaf, hclimb⟩ := of_verify h
  obtain ⟨hdepth, hnodes, htype, hshort⟩ := of_isSane hsane
  have hfed : proof.fed key =
      proof.bodyFed key ++ climbFed key proof.nodes.reverse proof.depth leaf := by rw [fed, hleaf]
  obtain ⟨inputs, hinputs⟩ : ∃ inputs, tree.fed ++ proof.fed key = inputs := ⟨_, rfl⟩
  have htree : ∀ x ∈ tree.fed, x ∈ inputs := fun x hx =>
    hinputs ▸ List.mem_append_left _ hx
  have hbody : ∀ x ∈ proof.bodyFed key, x ∈ inputs := fun x hx =>
    hinputs ▸ List.mem_append_right _ (hfed ▸ List.mem_append_left _ hx)
  have hnodesFed : ∀ x ∈ climbFed key proof.nodes.reverse proof.depth leaf, x ∈ inputs :=
    fun x hx => hinputs ▸ List.mem_append_right _ (hfed ▸ List.mem_append_right _ hx)
  rw [hinputs] at hfree
  obtain ⟨path, sub, hpath, hroot, hsub, hentries⟩ := climb_sound hfree htree hdepth
    (fun node hnode => hnodes node (List.mem_reverse.1 hnode)) hnodesFed hclimb
  have hkind : proof.kind = .inclusion ↔ bodyType proof.body = typeExists := by
    rw [kind, htype]
    split_ifs with heq <;> simp [heq]
  rw [hkind, UrkelProof.value]
  simp only [hentries]
  rw [UrkelProof.leaf] at hleaf
  rw [UrkelProof.bodyFed] at hbody
  cases hcase : proof.body with
  | deadend =>
    rw [hcase, Option.some.injEq] at hleaf
    subst hleaf
    rw [eq_empty_of_root_eq hfree hsub hroot]
    simp [UrkelTree.entries, bodyType, typeDeadend, typeExists]
  | short bits left right =>
    simp only [hcase] at hleaf hbody
    split_ifs at hleaf with hhas
    cases hleaf
    obtain ⟨treeBits, hlen, l, r, rfl, hbits, -, -⟩ := eq_internal_of_root_eq hfree hsub
      (hshort bits left right hcase) (hbody _ (List.mem_singleton.2 rfl)) hroot
    -- A key below would have the prefix.
    have hnone (value : List UInt8) :
        (key, value) ∉ (UrkelTree.internal treeBits hlen l r).entries := by
      intro hmem
      have hend : path.length = proof.depth := by
        rw [hpath, List.length_take, length_keyBits, min_eq_left hdepth]
      have hgoes {side : Bool} (hside : path ++ treeBits ++ [side] <+: keyBits key) :
          bits.has key.bytes proof.depth := by
        rw [BitPrefix.has_iff, hbits, ← hend]
        rw [List.append_assoc] at hside
        obtain ⟨rest, hrest⟩ := hside
        rw [← hrest, List.append_assoc, List.drop_left, List.append_assoc]
        exact List.prefix_append _ _
      rcases List.mem_append.1 hmem with hmem | hmem
      · exact hhas (hgoes (UrkelTree.prefix_of_mem_entries hmem))
      · exact hhas (hgoes (UrkelTree.prefix_of_mem_entries hmem))
    simp [hnone, bodyType, typeShort, typeExists]
  | collision other valueHash =>
    simp only [hcase] at hleaf hbody
    split_ifs at hleaf with hother
    cases hleaf
    obtain ⟨value, hprefix, rfl, -⟩ := eq_leaf_of_root_eq hfree hsub
      (hbody _ (List.mem_singleton.2 rfl)) hroot
    simp [UrkelTree.entries, bodyType, typeCollision, typeExists, Ne.symm hother]
  | «exists» value =>
    simp only [hcase] at hleaf hbody
    cases hleaf
    obtain ⟨value', hprefix, rfl, hvalue⟩ := eq_leaf_of_root_eq hfree hsub
      (hbody (leafInput key (blake2b_256 [value])) (by simp)) hroot
    have heq : value' = value := hfree.injective (hsub _ (by simp [UrkelTree.fed]))
      (hbody _ (by simp)) hvalue
    simp [UrkelTree.entries, bodyType, heq]

end UrkelProof

end

/-! ## A tree of two keys -/

namespace UrkelSample

/-- BLAKE2b-256 on what is hashed for the tree and for the proof below. -/
def table : List (List UInt8 × Hash) :=
  let zeros := List.replicate 31 0
  let dns : Hash := .ofNat 0x7a00622e69b525870b9aead7f0e30603da4ce968e3614d65d0497298ff8f4a23
  let www : Hash := .ofNat 0x88386d971bc13a137d21bc6e424b6ebbcdd534907281ae320025dbb2beb33809
  let left : Hash := .ofNat 0xbe32397da401e1737f10602ed281f47ceba381a19413b6ee0c13e14b8c449a45
  let right : Hash := .ofNat 0xf3976796e4f21d92f70abda5cd00e5e2ff8270014404001ddb5ea8084a3ffb16
  [([0x64, 0x6e, 0x73], dns), ([0x77, 0x77, 0x77], www),
    (0x00 :: 0x00 :: (zeros ++ dns.bytes), left), (0x00 :: 0x80 :: (zeros ++ www.bytes), right),
    (0x01 :: (left.bytes ++ right.bytes),
      .ofNat 0x5c915569226c73c20e4c06a33a1376166deb9fdd3439e8f24db38dcafc93cc5e)]

scoped instance digests : Digests where
  blake2b256 input := (table.lookup input).getD .zero
  blake2b512 _ := .zero
  sha3 _ := .zero

/-- A key that begins with a bit, followed by zeros. -/
def key (side : Bool) : Hash := ⟨(if side then 0x80 else 0x00) :: List.replicate 31 0, by simp⟩

/-- The tree of two keys, with the values `dns` and `www`. -/
def tree : UrkelTree [] :=
  .internal [] (by decide)
    (.leaf (key false) [0x64, 0x6e, 0x73] (by decide))
    (.leaf (key true) [0x77, 0x77, 0x77] (by decide))

/-- The payload of the proof for the first key. -/
def payload : List UInt8 :=
  [0x01, 0xc0, 0x01, 0x00, 0x00] ++
    (Hash.ofNat 0xf3976796e4f21d92f70abda5cd00e5e2ff8270014404001ddb5ea8084a3ffb16).bytes ++
    [0x03, 0x00, 0x64, 0x6e, 0x73]

def proof : UrkelProof where
  proofType := typeExists
  depth := 1
  nodes := [⟨.empty, .ofNat 0xf3976796e4f21d92f70abda5cd00e5e2ff8270014404001ddb5ea8084a3ffb16⟩]
  body := .exists [0x64, 0x6e, 0x73]

theorem verify_payload :
    UrkelProof.decode payload = .ok proof ∧ proof.verify tree.root (key false) ∧
      (proof.kind = .inclusion ↔ ∃ value, (key false, value) ∈ tree.entries) ∧
      ∀ value, (key false, value) ∈ tree.entries → proof.value = some value := by
  have hverify : proof.verify tree.root (key false) := by decide +kernel
  refine ⟨by decide +kernel, hverify, proof.verify_sound tree (key false) ⟨?_, ?_⟩ hverify⟩
  · have h : ∀ x ∈ tree.fed ++ proof.fed (key false), ∀ y ∈ tree.fed ++ proof.fed (key false),
        blake2b_256 [x] = blake2b_256 [y] → x = y := by decide +kernel
    intro x y hx hy
    exact h x hx y hy
  · have h : ∀ x ∈ tree.fed ++ proof.fed (key false), blake2b_256 [x] ≠ .zero := by decide +kernel
    intro x hx
    exact h x hx

end UrkelSample

end Hns
