import Hns.Urkel.Proof

/-!
# Urkel trees

What a proof is about: a radix tree of keys and values, where every subtree
knows the bits that lead to it, and its root hash. The tree may have any shape,
with prefixes of any length and with empty subtrees, as long as the bits on the
way to a leaf are those of its key.
-/

namespace Hns

/-- The bits of a key. -/
def keyBits (key : Hash) : List Bool := Octet.bits 256 key.bytes

/-- Packed bits as a prefix. -/
def BitPrefix.ofBits (bits : List Bool) : BitPrefix := ⟨bits.length, Octet.pack bits⟩

/-- The trees at the end of a path. -/
inductive UrkelTree : List Bool → Type
  | empty {path : List Bool} : UrkelTree path
  | leaf {path : List Bool} (key : Hash) (value : List UInt8) (h : path <+: keyBits key) :
      UrkelTree path
  | internal {path : List Bool} (bits : List Bool) (h : path.length + bits.length < 256)
      (left : UrkelTree (path ++ bits ++ [false])) (right : UrkelTree (path ++ bits ++ [true])) :
      UrkelTree path

namespace UrkelTree

/-- The keys and the values of a tree. -/
def entries {path : List Bool} : UrkelTree path → List (Hash × List UInt8)
  | empty => []
  | leaf key value _ => [(key, value)]
  | internal _ _ left right => left.entries ++ right.entries

/-- The path to a tree is the beginning of its keys. -/
theorem prefix_of_mem_entries {path : List Bool} {tree : UrkelTree path} {key : Hash}
    {value : List UInt8} (h : (key, value) ∈ tree.entries) : path <+: keyBits key := by
  induction tree with
  | empty => exact absurd h List.not_mem_nil
  | leaf key' value' hpath =>
    obtain ⟨rfl, rfl⟩ := Prod.mk.inj (List.mem_singleton.1 h)
    exact hpath
  | @internal path bits _ left right ihl ihr =>
    have hpath (side : Bool) (hside : path ++ bits ++ [side] <+: keyBits key) :
        path <+: keyBits key := by
      rw [List.append_assoc] at hside
      exact (List.prefix_append _ _).trans hside
    rcases List.mem_append.1 h with h | h
    · exact hpath false (ihl h)
    · exact hpath true (ihr h)

variable [Digests]

/-- The root hash, zero for the empty tree. -/
def root {path : List Bool} : UrkelTree path → Hash
  | empty => .zero
  | leaf key value _ => hashValue key value
  | internal bits _ left right => hashInternal (.ofBits bits) left.root right.root

end UrkelTree

/-! ## Bits of keys -/

theorem hasBit_eq (key : List UInt8) (index : ℕ) : hasBit key index = Octet.bit key index := by
  have hlt : (UInt8.ofNat (7 - index % 8)).toNat % 8 = 7 - index % 8 := by
    rw [UInt8.toNat_ofNat_of_lt' (by rw [UInt8.size]; omega)]
    omega
  rw [hasBit, Octet.bit, Nat.testBit, Nat.and_comm, Bool.eq_iff_iff, bne_iff_ne, bne_iff_ne, ne_eq, ne_eq,
    ← UInt8.toNat_inj, UInt8.toNat_and, UInt8.toNat_shiftRight, hlt]
  rfl

@[simp] theorem length_keyBits (key : Hash) : (keyBits key).length = 256 := Octet.length_bits _ _

theorem getElem?_keyBits (key : Hash) {index : ℕ} (h : index < 256) :
    (keyBits key)[index]? = some (hasBit key.bytes index) := by
  rw [keyBits, Octet.getElem?_bits h, hasBit_eq]

/-- A prefix is had at a depth when its bits are those of the key there. -/
theorem BitPrefix.has_iff (bits : BitPrefix) (key : Hash) (depth : ℕ) :
    bits.has key.bytes depth ↔ Octet.bits bits.size bits.data <+: (keyBits key).drop depth := by
  have hlen : key.bytes.length * 8 = 256 := by rw [key.length_bytes]
  rw [has, decide_eq_true_eq, count, hlen]
  dsimp only
  split_ifs with hdepth
  · rw [List.drop_eq_nil_of_le (by simpa using hdepth), List.prefix_nil,
      ← List.length_eq_zero_iff, Octet.length_bits, eq_comm]
  · rw [not_le] at hdepth
    have hcount : ((List.range (min bits.size (256 - depth))).takeWhile fun index =>
        decide (hasBit bits.data index = hasBit key.bytes (depth + index))).length = bits.size ↔
        bits.size ≤ 256 - depth ∧
          ∀ index < bits.size, hasBit bits.data index = hasBit key.bytes (depth + index) := by
      rcases le_or_gt bits.size (256 - depth) with hle | hgt
      · have hall := List.length_takeWhile_eq_iff (l := List.range bits.size) (p := fun index =>
          decide (hasBit bits.data index = hasBit key.bytes (depth + index)))
        rw [List.length_range] at hall
        rw [min_eq_left hle, hall]
        simp [hle]
      · have hlt := (List.takeWhile_prefix (l := List.range (256 - depth)) fun index =>
          decide (hasBit bits.data index = hasBit key.bytes (depth + index))).length_le
        rw [List.length_range] at hlt
        rw [min_eq_right hgt.le]
        exact iff_of_false (by omega) fun h => absurd h.1 hgt.not_ge
    rw [hcount, List.prefix_iff_getElem?]
    constructor
    · rintro ⟨hle, hall⟩ index hindex
      rw [Octet.length_bits] at hindex
      rw [← List.getElem?_eq_getElem, Octet.getElem?_bits hindex, List.getElem?_drop,
        getElem?_keyBits key (by omega), ← hall index hindex, hasBit_eq]
    · intro hall
      have hle : bits.size ≤ 256 - depth := by
        have := (List.prefix_iff_getElem?.2 hall).length_le
        simpa using this
      refine ⟨hle, fun index hindex => ?_⟩
      have hbit := hall index (by simpa using hindex)
      rw [← List.getElem?_eq_getElem, Octet.getElem?_bits hindex, List.getElem?_drop,
        getElem?_keyBits key (by omega), Option.some.injEq] at hbit
      rw [hbit, hasBit_eq]

end Hns
