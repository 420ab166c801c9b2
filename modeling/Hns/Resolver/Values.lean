import Hns.Resolver.Roots

/-!
# Verified resource values

What `hns-resolver` keeps of the proofs of names: the resource of a name, or
that the name does not exist, and the tree root and height it was proven at.
-/

namespace Hns

structure ResourceValueAnchor where
  treeRoot : Hash
  height : ℕ
  deriving DecidableEq

structure VerifiedResourceValue where
  rootName : List Char
  nameHash : NameHash
  value : Option (List UInt8)
  secure : Bool
  anchor : Option ResourceValueAnchor
  deriving DecidableEq

namespace VerifiedResourceValue

def inclusion (rootName : List Char) (nameHash : NameHash) (value : List UInt8) :
    VerifiedResourceValue :=
  ⟨rootName, nameHash, some value, true, none⟩

def nonInclusion (rootName : List Char) (nameHash : NameHash) : VerifiedResourceValue :=
  ⟨rootName, nameHash, none, true, none⟩

def withAnchor (verified : VerifiedResourceValue) (treeRoot : Hash) (height : ℕ) :
    VerifiedResourceValue :=
  { verified with anchor := some ⟨treeRoot, height⟩ }

/-- The value with an anchor, if there is a height. -/
def anchoredAt (verified : VerifiedResourceValue) (treeRoot : Hash) :
    Option ℕ → VerifiedResourceValue
  | some height => verified.withAnchor treeRoot height
  | none => verified

theorem anchoredAt_frame (verified : VerifiedResourceValue) (treeRoot : Hash) (height : Option ℕ) :
    (verified.anchoredAt treeRoot height).rootName = verified.rootName ∧
      (verified.anchoredAt treeRoot height).nameHash = verified.nameHash ∧
      (verified.anchoredAt treeRoot height).value = verified.value := by
  cases height <;> exact ⟨rfl, rfl, rfl⟩

end VerifiedResourceValue

end Hns
