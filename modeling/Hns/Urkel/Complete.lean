import Hns.Urkel.Sound
import Hns.Urkel.Wire

/-!
# Completeness of Urkel proofs

The honest proof for a key follows the bits of the key down the tree for as long
as there is a subtree on its path (`UrkelTree.prove`). It ends at an empty
subtree, at a leaf, of the key or of another one, or at a node whose prefix is
not that of the key.

* `UrkelTree.prove_complete`: the proof is read back from the wire, and verifies
  against the root of the tree.
-/

namespace Hns

section

variable [Digests]

/-- The honest proof for a key. -/
def UrkelTree.prove (key : Hash) : {path : List Bool} → UrkelTree path → UrkelProof
  | path, .empty => ⟨typeDeadend, path.length, [], .deadend⟩
  | path, .leaf other value _ =>
    if other = key then ⟨typeExists, path.length, [], .exists value⟩
    else ⟨typeCollision, path.length, [], .collision other (blake2b_256 [value])⟩
  | path, .internal bits _ left right =>
    if bits <+: (keyBits key).drop path.length then
      -- The key goes on to the side of its next bit.
      if (keyBits key)[path.length + bits.length]? = some true then
        let proof := right.prove key
        { proof with nodes := ⟨.ofBits bits, left.root⟩ :: proof.nodes }
      else
        let proof := left.prove key
        { proof with nodes := ⟨.ofBits bits, right.root⟩ :: proof.nodes }
    else ⟨typeShort, path.length, [], .short (.ofBits bits) left.root right.root⟩

namespace UrkelTree

open UrkelProof

variable {path : List Bool} {key : Hash}

omit [Digests] in
theorem has_ofBits (bits : List Bool) (key : Hash) (depth : ℕ) :
    (BitPrefix.ofBits bits).has key.bytes depth ↔ bits <+: (keyBits key).drop depth := by
  rw [BitPrefix.has_iff, BitPrefix.ofBits, Octet.bits_pack]

theorem climb_append (key : Hash) (nodes nodes' : List UrkelProofNode) (depth : ℕ) (next : Hash) :
    climb key (nodes ++ nodes') depth next =
      (climb key nodes depth next).bind fun last => climb key nodes' last.1 last.2 := by
  induction nodes generalizing depth next with
  | nil => rfl
  | cons node nodes ih =>
    rw [List.cons_append, climb, climb]
    dsimp only
    split_ifs
    · rfl
    · rfl
    · exact ih _ _
    · exact ih _ _

/-- One node of the climb, where the path goes on with its prefix and then to a side. -/
theorem climb_singleton {bits : List Bool} (hbits : bits <+: (keyBits key).drop path.length)
    (sibling next : Hash) :
    climb key [⟨.ofBits bits, sibling⟩] (path.length + bits.length + 1) next =
      some (path.length, if hasBit key.bytes (path.length + bits.length) then
        hashInternal (.ofBits bits) sibling next else hashInternal (.ofBits bits) next sibling) := by
  have hhas := (has_ofBits bits key path.length).2 hbits
  have hsize : (BitPrefix.ofBits bits).size = bits.length := rfl
  rw [climb]
  dsimp only
  rw [hsize, if_neg (by omega), Nat.add_sub_cancel, Nat.add_sub_cancel, hhas]
  rfl

omit [Digests] in
/-- The path to the side of the next bit of the key. -/
theorem goesOn {bits : List Bool} (hpath : path <+: keyBits key)
    (hbits : bits <+: (keyBits key).drop path.length) {side : Bool}
    (hside : (keyBits key)[path.length + bits.length]? = some side) :
    path ++ bits ++ [side] <+: keyBits key := by
  obtain ⟨rest, hrest⟩ := hpath
  rw [← hrest, List.drop_left] at hbits
  obtain ⟨rest', rfl⟩ := hbits
  rw [← hrest, ← List.append_assoc, List.getElem?_append_right (by simp)] at hside
  cases rest' with
  | nil => simp at hside
  | cons b rest' =>
    simp only [List.length_append, Nat.sub_self, List.getElem?_cons_zero, Option.some.injEq] at hside
    subst hside
    rw [← hrest]
    exact ⟨rest', by simp⟩

/-- The honest proof leads from its body up to the root of the tree. -/
theorem climb_prove (tree : UrkelTree path) (hpath : path <+: keyBits key) :
    ∃ leaf, (tree.prove key).leaf key = some leaf ∧
      climb key (tree.prove key).nodes.reverse (tree.prove key).depth leaf =
        some (path.length, tree.root) := by
  induction tree with
  | empty => exact ⟨.zero, rfl, rfl⟩
  | leaf other value h =>
    rw [prove]
    split_ifs with heq
    · subst heq
      exact ⟨_, rfl, rfl⟩
    · exact ⟨_, if_neg heq, rfl⟩
  | @internal path bits hlength left right ihl ihr =>
    have hbit := getElem?_keyBits key hlength
    rw [prove]
    split_ifs with hbits hside
    · -- The key goes on to the right.
      obtain ⟨leaf, hleaf, hclimb⟩ := ihr (goesOn hpath hbits hside)
      refine ⟨leaf, hleaf, ?_⟩
      rw [hbit, Option.some.injEq] at hside
      dsimp only
      rw [List.reverse_cons, climb_append, hclimb, Option.bind_some, List.length_append,
        List.length_append, List.length_singleton, climb_singleton hbits, hside]
      rfl
    · -- The key goes on to the left.
      rw [hbit, Option.some.injEq, Bool.not_eq_true] at hside
      obtain ⟨leaf, hleaf, hclimb⟩ := ihl (goesOn hpath hbits (hside ▸ hbit))
      refine ⟨leaf, hleaf, ?_⟩
      dsimp only
      rw [List.reverse_cons, climb_append, hclimb, Option.bind_some, List.length_append,
        List.length_append, List.length_singleton, climb_singleton hbits, hside]
      rfl
    · refine ⟨_, if_neg ?_, rfl⟩
      rw [Bool.not_eq_true, ← Bool.not_eq_true, has_ofBits]
      exact hbits

omit [Digests] in
theorem packed_ofBits (bits : List Bool) : (BitPrefix.ofBits bits).Packed := Octet.length_pack bits

/-- The sizes of the honest proof: every node takes at least one bit of the key. -/
theorem sizes_prove (tree : UrkelTree path) (hpath : path <+: keyBits key) :
    path.length + (tree.prove key).nodes.length ≤ (tree.prove key).depth ∧
      (tree.prove key).depth ≤ urkelBits ∧
      ∀ node ∈ (tree.prove key).nodes, node.bits.size ≤ urkelBits ∧ node.bits.Packed := by
  have hlength : path.length ≤ urkelBits := by
    have := hpath.length_le
    rwa [length_keyBits] at this
  induction tree with
  | empty => exact ⟨le_rfl, hlength, fun _ h => absurd h List.not_mem_nil⟩
  | leaf other value h =>
    rw [prove]
    split_ifs
    · exact ⟨le_rfl, hlength, fun _ h => absurd h List.not_mem_nil⟩
    · exact ⟨le_rfl, hlength, fun _ h => absurd h List.not_mem_nil⟩
  | @internal path bits hbound left right ihl ihr =>
    have hbit := getElem?_keyBits key hbound
    have hsize : bits.length ≤ urkelBits := by
      rw [urkelBits]
      omega
    -- One node more than the proof of the subtree.
    have hnode {side : Bool} {sub : UrkelTree (path ++ bits ++ [side])} (sibling : Hash)
        (hgoes : path ++ bits ++ [side] <+: keyBits key)
        (ih : (path ++ bits ++ [side]).length + (sub.prove key).nodes.length ≤
            (sub.prove key).depth ∧ (sub.prove key).depth ≤ urkelBits ∧
          ∀ node ∈ (sub.prove key).nodes, node.bits.size ≤ urkelBits ∧ node.bits.Packed) :
        path.length + ((⟨.ofBits bits, sibling⟩ : UrkelProofNode) :: (sub.prove key).nodes).length ≤
            (sub.prove key).depth ∧ (sub.prove key).depth ≤ urkelBits ∧
          ∀ node ∈ (⟨.ofBits bits, sibling⟩ : UrkelProofNode) :: (sub.prove key).nodes,
            node.bits.size ≤ urkelBits ∧ node.bits.Packed := by
      obtain ⟨hcount, hdepth, hnodes⟩ := ih
      refine ⟨?_, hdepth, List.forall_mem_cons.2 ⟨⟨hsize, packed_ofBits bits⟩, hnodes⟩⟩
      simp only [List.length_append, List.length_cons, List.length_nil] at hcount ⊢
      omega
    have hgoesLength {side : Bool} (hgoes : path ++ bits ++ [side] <+: keyBits key) :
        (path ++ bits ++ [side]).length ≤ urkelBits := by
      have := hgoes.length_le
      rwa [length_keyBits] at this
    rw [prove]
    split_ifs with hbits hside
    · have hgoes := goesOn hpath hbits hside
      exact hnode left.root hgoes (ihr hgoes (hgoesLength hgoes))
    · rw [hbit, Option.some.injEq, Bool.not_eq_true] at hside
      have hgoes := goesOn hpath hbits (hside ▸ hbit)
      exact hnode right.root hgoes (ihl hgoes (hgoesLength hgoes))
    · exact ⟨le_rfl, hlength, fun _ h => absurd h List.not_mem_nil⟩

/-- The body of the honest proof has its type, and a prefix that is not empty. -/
theorem saneBody_prove (tree : UrkelTree path)
    (hvalue : ∀ value, (tree.prove key).value = some value → value.length ≤ 0xffff) :
    SaneBody (tree.prove key).proofType (tree.prove key).body ∧
      ∀ bits left right, (tree.prove key).body = .short bits left right → bits.Packed := by
  induction tree with
  | empty => exact ⟨rfl, fun _ _ _ h => by cases h⟩
  | leaf other value h =>
    rw [prove] at hvalue ⊢
    split_ifs at hvalue ⊢
    · exact ⟨⟨rfl, hvalue value rfl⟩, fun _ _ _ h => by cases h⟩
    · exact ⟨rfl, fun _ _ _ h => by cases h⟩
  | @internal path bits hbound left right ihl ihr =>
    rw [prove] at hvalue ⊢
    split_ifs at hvalue ⊢ with hbits hside
    · exact ihr hvalue
    · exact ihl hvalue
    · refine ⟨⟨rfl, ?_, ?_⟩, fun _ _ _ h => ?_⟩
      · -- The empty prefix is that of every key.
        exact List.length_pos_of_ne_nil fun hnil => hbits (hnil ▸ List.nil_prefix)
      · change bits.length ≤ urkelBits
        rw [urkelBits]
        omega
      · cases h
        exact packed_ofBits bits

theorem wellFormed_prove (tree : UrkelTree []) (key : Hash)
    (hvalue : ∀ value, (tree.prove key).value = some value → value.length ≤ 0xffff) :
    (tree.prove key).WellFormed := by
  obtain ⟨hcount, hdepth, hnodes⟩ := tree.sizes_prove (List.nil_prefix : [] <+: keyBits key)
  obtain ⟨hbody, hshort⟩ := tree.saneBody_prove hvalue
  rw [List.length_nil, zero_add] at hcount
  exact ⟨isSane_iff.2 ⟨hdepth, hcount.trans hdepth, fun node h => (hnodes node h).1, hbody⟩,
    fun h => (hnodes _ h).2, fun h => hshort _ _ _ h⟩

theorem verify_prove (tree : UrkelTree []) (key : Hash)
    (hvalue : ∀ value, (tree.prove key).value = some value → value.length ≤ 0xffff) :
    (tree.prove key).verify tree.root key := by
  obtain ⟨leaf, hleaf, hclimb⟩ := tree.climb_prove (List.nil_prefix : [] <+: keyBits key)
  rw [verify, if_neg (by simpa using (tree.wellFormed_prove key hvalue).sane), hleaf]
  dsimp only
  rw [hclimb]
  simp

/-- Encoding a well-formed proof and decoding it gives the proof back. The honest proof for a key is
    well formed, as long as its value is, and verifies against the root of the tree. -/
theorem prove_complete :
    (∀ proof : UrkelProof, proof.WellFormed → decode proof.encode = .ok proof) ∧
      ∀ (tree : UrkelTree []) (key : Hash),
        (∀ value, (tree.prove key).value = some value → value.length ≤ 0xffff) →
          (tree.prove key).WellFormed ∧
            decode (tree.prove key).encode = .ok (tree.prove key) ∧
            (tree.prove key).verify tree.root key :=
  ⟨fun _ h => decode_encode h, fun tree key hvalue =>
    ⟨tree.wellFormed_prove key hvalue, decode_encode (tree.wellFormed_prove key hvalue),
      tree.verify_prove key hvalue⟩⟩

end UrkelTree

end

namespace UrkelSample

/-- The honest proof for the other key of the tree of two keys. -/
theorem prove_key : UrkelProof.decode (tree.prove (key true)).encode = .ok (tree.prove (key true)) ∧
    (tree.prove (key true)).verify tree.root (key true) ∧
    (tree.prove (key true)).value = some [0x77, 0x77, 0x77] := by
  have hvalue : (tree.prove (key true)).value = some [0x77, 0x77, 0x77] := by decide +kernel
  have hshort : ∀ value, (tree.prove (key true)).value = some value → value.length ≤ 0xffff := by
    intro value h
    rw [hvalue, Option.some.injEq] at h
    rw [← h]
    decide
  obtain ⟨hdecode, hprove⟩ := UrkelTree.prove_complete
  obtain ⟨hwell, -, hverify⟩ := hprove tree (key true) hshort
  exact ⟨hdecode _ hwell, hverify, hvalue⟩

end UrkelSample

end Hns
