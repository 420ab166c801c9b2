import Hns.Chain.Insert
import Hns.Lib.Ancestry

/-!
# Trees of headers

What a chain is for: the headers that pass the checks, a tree rooted at the
genesis block, and one of those with the most work as its tip. `accept` is the
check of a header against the ones known before it. It gives the entry of the
header, and gives it again when more headers are known (`accept_sub`).

* `ValidTree`: every entry is the genesis one or an accepted one, at a height
  below `2 ^ 32 - 1`. The entries below it are then its ancestors, one for each
  height (`ValidTree.ranked`);
* `canonicalOf`: the ancestors of a tip by height, which is what the canonical
  index of a store should hold;
* `ChainTree`: a valid tree with a heaviest tip, and how it is extended.
-/

namespace Hns

open Except Ancestry

/-! ## Accepting a header -/

section Accept

variable [Digests] (policy : DifficultyPolicy)

/-- The checks on a header, and its entry. -/
def accept (known : Headers) (header : BlockHeader) : Except ChainError StoredHeader := do
  let parent ← ofOption .unknownParent (known header.prevBlock)
  validateDifficultyBits known policy header parent
  if !(← (verifyPow header.hash header.bits).mapError .pow) then throw .invalidProofOfWork
  let work ← (Chainwork.fromBits header.bits).mapError .pow
  return parent.child header work

variable {policy} {known known' : Headers} {header : BlockHeader} {stored : StoredHeader}

/-- What is known of an accepted header. -/
theorem accept_eq_ok : accept policy known header = .ok stored ↔
    ∃ parent work, known header.prevBlock = some parent ∧
      validateDifficultyBits known policy header parent = .ok () ∧
      verifyPow header.hash header.bits = .ok true ∧
      Chainwork.fromBits header.bits = .ok work ∧ stored = parent.child header work := by
  rw [accept]
  cases hp : known header.prevBlock with
  | none => simp
  | some parent =>
    cases hv : validateDifficultyBits known policy header parent with
    | error e => simp [hv]
    | ok u =>
      cases hw : verifyPow header.hash header.bits with
      | error e => simp [hv, Except.mapError]
      | ok b =>
        cases b with
        | false =>
          refine iff_of_false (fun h => ?_) (by simp)
          simp only [ofOption_some, ok_bind, hv, Except.mapError] at h
          cases h
        | true =>
          cases hb : Chainwork.fromBits header.bits with
          | error e => simp [hv, Except.mapError]
          | ok work =>
            simp only [ofOption_some, ok_bind, hv, Except.mapError, Bool.not_true,
              Bool.false_eq_true, if_false, Option.some.injEq, Except.ok.injEq, true_and]
            change Except.ok (parent.child header work) = .ok stored ↔ _
            simp [eq_comm, hv]

/-- A header accepted once is accepted with the same entry when more are known. -/
theorem accept_sub (hsub : known.Sub known') (h : accept policy known header = .ok stored) :
    accept policy known' header = .ok stored := by
  obtain ⟨parent, work, hp, hv, h⟩ := accept_eq_ok.1 h
  exact accept_eq_ok.2 ⟨parent, work, hsub _ _ hp, validateDifficultyBits_sub hsub hv, h⟩

theorem header_of_accept (h : accept policy known header = .ok stored) :
    stored.header = header := by
  obtain ⟨_, _, -, -, -, -, rfl⟩ := accept_eq_ok.1 h
  rfl

theorem hash_of_accept (h : accept policy known header = .ok stored) :
    stored.hash = header.hash := by
  obtain ⟨_, _, -, -, -, -, rfl⟩ := accept_eq_ok.1 h
  rfl

/-- The headers of a list are accepted one after the other, and are new. -/
inductive Grows (policy : DifficultyPolicy) : Headers → List StoredHeader → Prop
  | nil (known : Headers) : Grows policy known []
  | cons {known : Headers} {stored : StoredHeader} {rest : List StoredHeader}
      (accepted : accept policy known stored.header = .ok stored)
      (fresh : known stored.hash = none)
      (grows : Grows policy (known.insert stored.hash stored) rest) :
      Grows policy known (stored :: rest)

/-- The headers known once those of a list are stored. -/
abbrev Headers.add (known : Headers) (l : List StoredHeader) : Headers :=
  known.insertAll StoredHeader.hash id l

omit [Digests] in
theorem Headers.add_append (known : Headers) (l l' : List StoredHeader) :
    known.add (l ++ l') = (known.add l).add l' := Table.insertAll_append known l l'

theorem Grows.fresh {l : List StoredHeader} (h : Grows policy known l) :
    ∀ stored ∈ l, known stored.hash = none := by
  induction h with
  | nil => simp
  | @cons known head rest hacc hfresh hgrows ih =>
    intro stored hmem
    rcases List.mem_cons.1 hmem with rfl | hmem
    · exact hfresh
    · have := ih stored hmem
      by_cases heq : stored.hash = head.hash
      · rw [heq, Table.insert_self] at this
        cases this
      · rwa [Table.insert_of_ne _ _ heq] at this

theorem Grows.nodup {l : List StoredHeader} (h : Grows policy known l) :
    (l.map StoredHeader.hash).Nodup := by
  induction h with
  | nil => exact List.nodup_nil
  | @cons known head rest hacc hfresh hgrows ih =>
    rw [List.map_cons, List.nodup_cons]
    refine ⟨fun hmem => ?_, ih⟩
    obtain ⟨stored, hstored, heq⟩ := List.mem_map.1 hmem
    have := hgrows.fresh stored hstored
    rw [heq, Table.insert_self] at this
    cases this

theorem Grows.sub {l : List StoredHeader} (h : Grows policy known l) :
    known.Sub (known.add l) := Table.sub_insertAll h.fresh

theorem Grows.get {l : List StoredHeader} (h : Grows policy known l) (hmem : stored ∈ l) :
    known.add l stored.hash = some stored := Table.insertAll_of_mem known h.nodup hmem

/-- What has been accepted is accepted by all the headers. -/
theorem Grows.accept {l : List StoredHeader} (h : Grows policy known l) (hmem : stored ∈ l) :
    accept policy (known.add l) stored.header = .ok stored := by
  induction h with
  | nil => exact absurd hmem List.not_mem_nil
  | @cons known head rest hacc hfresh hgrows ih =>
    rcases List.mem_cons.1 hmem with rfl | hmem
    · exact accept_sub ((Table.sub_insert _ hfresh).trans hgrows.sub) hacc
    · exact ih hmem

/-- What is accepted on some headers is accepted on more, as long as it is new to them. -/
theorem Grows.mono {l : List StoredHeader} (h : Grows policy known l) (hsub : known.Sub known')
    (hfresh : ∀ stored ∈ l, known' stored.hash = none) : Grows policy known' l := by
  induction h generalizing known' with
  | nil => exact .nil _
  | @cons known head rest hacc _ hgrows ih =>
    refine .cons (accept_sub hsub hacc) (hfresh head List.mem_cons_self) (ih ?_ ?_)
    · intro hash stored hs
      rcases Table.insert_eq_some hs with ⟨rfl, rfl⟩ | ⟨hne, hs⟩
      · exact Table.insert_self ..
      · rw [Table.insert_of_ne _ _ hne, hsub _ _ hs]
    · intro stored hs
      have hne : stored.hash ≠ head.hash := fun heq => by
        have := hgrows.fresh stored hs
        rw [heq, Table.insert_self] at this
        cases this
      rw [Table.insert_of_ne _ _ hne, hfresh stored (List.mem_cons_of_mem _ hs)]

theorem Grows.append {l l' : List StoredHeader} (h : Grows policy known l)
    (h' : Grows policy (known.add l) l') : Grows policy known (l ++ l') := by
  induction h with
  | nil => exact h'
  | cons hacc hfresh _ ih => exact .cons hacc hfresh (ih h')

theorem Grows.take {l : List StoredHeader} (h : Grows policy known l) (n : ℕ) :
    Grows policy known (l.take n) := by
  induction h generalizing n with
  | nil => simpa using Grows.nil _
  | cons hacc hfresh _ ih =>
    cases n with
    | zero => exact .nil _
    | succ n => exact .cons hacc hfresh (ih n)

end Accept

/-! ## Valid trees -/

/-- The entry of the genesis block. -/
def genesisEntry [Digests] : StoredHeader where
  hash := BlockHeader.mainnetGenesis.hash
  header := .mainnetGenesis
  height := 0
  chainwork := 2 ^ 256 / (0xffff * 2 ^ 200 + 1)

theorem fromBits_mainnetGenesis :
    Chainwork.fromBits BlockHeader.mainnetGenesis.bits = .ok (2 ^ 256 / (0xffff * 2 ^ 200 + 1)) := by
  decide +kernel

/-- The heights that leave room for a child. -/
def HeightsBounded (known : Headers) : Prop :=
  ∀ hash stored, known hash = some stored → stored.height < 2 ^ 32 - 1

/-- The tree of the headers below: the parent of an entry. -/
def parentIn (known : Headers) (stored : StoredHeader) : Option StoredHeader :=
  known stored.header.prevBlock

/-- The headers stored on the main network. -/
structure ValidTree [Digests] (known : Headers) : Prop where
  hash_eq {hash stored} (h : known hash = some stored) : stored.hash = hash
  accepted {hash stored} (h : known hash = some stored) :
    stored = genesisEntry ∨ accept .mainnet known stored.header = .ok stored
  bounded : HeightsBounded known

theorem HeightsBounded.of_sub {known known' : Headers} (hsub : known.Sub known')
    (h : HeightsBounded known') : HeightsBounded known :=
  fun hash stored hs => h hash stored (hsub _ _ hs)

theorem HeightsBounded.add {known : Headers} {l : List StoredHeader} (h : HeightsBounded known)
    (hl : ∀ stored ∈ l, stored.height < 2 ^ 32 - 1) : HeightsBounded (known.add l) := by
  intro hash stored hs
  rcases Table.insertAll_eq_some hs with ⟨stored', hmem, -, rfl⟩ | hs
  · exact hl stored' hmem
  · exact h hash stored hs

/-- An entry of positive height: its parent, its height and its work. -/
structure IsChild (parent stored : StoredHeader) : Prop where
  prevBlock_eq : stored.header.prevBlock = parent.hash
  height_eq : stored.height = parent.height + 1
  chainwork_eq : ∃ work, Chainwork.fromBits stored.header.bits = .ok work ∧
    stored.chainwork = parent.chainwork + work

namespace ValidTree

variable [Digests] {known : Headers}

theorem empty : ValidTree (Table.empty : Headers) where
  hash_eq h := by cases h
  accepted h := by cases h
  bounded _ _ h := by cases h

variable (tree : ValidTree known)

include tree

/-- The parent of an accepted header, whose entry is its child. -/
theorem parent_of_accept {header : BlockHeader} {stored : StoredHeader}
    (h : accept .mainnet known header = .ok stored) :
    ∃ parent, parentIn known stored = some parent ∧ IsChild parent stored := by
  obtain ⟨parent, work, hp, -, -, hw, rfl⟩ := accept_eq_ok.1 h
  have := tree.bounded _ _ hp
  refine ⟨parent, hp, (tree.hash_eq hp).symm, ?_, work, hw, rfl⟩
  exact Nat.mod_eq_of_lt (by omega)

theorem height_pos_of_accept {header : BlockHeader} {stored : StoredHeader}
    (h : accept .mainnet known header = .ok stored) : 0 < stored.height := by
  obtain ⟨parent, -, hchild⟩ := tree.parent_of_accept h
  rw [hchild.height_eq]
  exact Nat.succ_pos _

theorem hash_header {hash : Hash} {stored : StoredHeader} (h : known hash = some stored) :
    stored.header.hash = hash := by
  rw [← tree.hash_eq h]
  rcases tree.accepted h with rfl | hacc
  · rfl
  · exact (hash_of_accept hacc).symm

/-- A stored header that is not the genesis one has been accepted. -/
theorem accept_of_ne {hash : Hash} {stored : StoredHeader} (h : known hash = some stored)
    (hne : stored.header ≠ BlockHeader.mainnetGenesis) :
    accept .mainnet known stored.header = .ok stored :=
  (tree.accepted h).resolve_left fun heq => hne (heq ▸ rfl)

theorem accept_of_height_pos {hash : Hash} {stored : StoredHeader} (h : known hash = some stored)
    (hpos : 0 < stored.height) : accept .mainnet known stored.header = .ok stored :=
  (tree.accepted h).resolve_left fun heq => by simp [heq, genesisEntry] at hpos

/-- A stored header of positive height has its parent stored, one height below. -/
theorem parent {hash : Hash} {stored : StoredHeader} (h : known hash = some stored)
    (hpos : 0 < stored.height) :
    ∃ parent, parentIn known stored = some parent ∧ IsChild parent stored :=
  tree.parent_of_accept (tree.accept_of_height_pos h hpos)

theorem ranked :
    Ranked (parentIn known) (fun stored => known stored.hash = some stored)
      StoredHeader.height := by
  intro stored hstored hpos
  obtain ⟨parent, hp, hchild⟩ := tree.parent hstored hpos
  refine ⟨parent, hp, ?_, hchild.height_eq⟩
  rw [parentIn] at hp
  rwa [tree.hash_eq hp]

/-- A tree with a header has the genesis block. -/
theorem genesis_mem {hash : Hash} {stored : StoredHeader} (h : known hash = some stored) :
    known genesisEntry.hash = some genesisEntry := by
  have hnode : known stored.hash = some stored := by rwa [tree.hash_eq h]
  obtain ⟨root, -, hroot, hrank⟩ := tree.ranked.exists_ancestor hnode le_rfl
  rcases tree.accepted hroot with rfl | hacc
  · exact hroot
  · have := tree.height_pos_of_accept hacc
    omega

end ValidTree

/-- A valid tree stays one when it grows, as long as the heights leave room. -/
theorem ValidTree.add [Digests] {known : Headers} (tree : ValidTree known) {l : List StoredHeader}
    (h : Grows .mainnet known l) (hbounded : HeightsBounded (known.add l)) :
    ValidTree (known.add l) := by
  induction h with
  | nil => exact tree
  | @cons known head rest hacc hfresh hgrows ih =>
    have hsub := Table.sub_insert head hfresh
    refine ih ⟨?_, ?_, hbounded.of_sub hgrows.sub⟩ hbounded
    · intro hash stored hs
      rcases Table.insert_eq_some hs with ⟨rfl, rfl⟩ | ⟨-, hs⟩
      · rfl
      · exact tree.hash_eq hs
    · intro hash stored hs
      rcases Table.insert_eq_some hs with ⟨rfl, rfl⟩ | ⟨-, hs⟩
      · exact .inr (accept_sub hsub hacc)
      · exact (tree.accepted hs).imp_right (accept_sub hsub)

end Hns
