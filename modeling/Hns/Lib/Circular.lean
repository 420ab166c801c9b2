import Mathlib.Order.Circular

/-!
# Intervals of a circle

The points of a total order, in a circle: the first one comes behind the last. An interval begins
behind a point and ends before another, which may be the same.
-/

namespace Circular

variable {α : Type*} [LT α]

/-- Behind `first`, and before `last` is reached; all points but one when they are the same. -/
def Between (first last x : α) : Prop :=
  first = last ∧ x ≠ first ∨ (LT.toSBtw α).sbtw first x last

theorem between_def {first last x : α} : Between first last x ↔ first = last ∧ x ≠ first ∨
    (first < x ∧ x < last ∨ x < last ∧ last < first ∨ last < first ∧ first < x) := Iff.rfl

variable [IsStrictTotalOrder α (· < ·)]

/-- An interval lies between two points, or without a gap between them. -/
theorem between_iff {first last x : α} : Between first last x ↔
    x ≠ first ∧ (first < last ∧ first < x ∧ x < last ∨
      last < first ∧ (first < x ∨ x < last) ∨ first = last) := by
  have hirrefl (a : α) : ¬a < a := irrefl_of (· < ·) a
  have htrans {a b c : α} : a < b → b < c → a < c := trans_of (· < ·)
  rw [between_def]
  constructor
  · rintro (⟨rfl, hne⟩ | ⟨hfirst, hlast⟩ | ⟨hlast, hwrap⟩ | ⟨hwrap, hfirst⟩)
    · exact ⟨hne, .inr (.inr rfl)⟩
    · exact ⟨fun h => hirrefl _ (h ▸ hfirst), .inl ⟨htrans hfirst hlast, hfirst, hlast⟩⟩
    · exact ⟨fun h => hirrefl _ (htrans (h ▸ hlast) hwrap), .inr (.inl ⟨hwrap, .inr hlast⟩)⟩
    · exact ⟨fun h => hirrefl _ (h ▸ hfirst), .inr (.inl ⟨hwrap, .inl hfirst⟩)⟩
  · rintro ⟨hne, ⟨-, hfirst, hlast⟩ | ⟨hwrap, hfirst | hlast⟩ | rfl⟩
    · exact .inr (.inl ⟨hfirst, hlast⟩)
    · exact .inr (.inr (.inr ⟨hwrap, hfirst⟩))
    · exact .inr (.inr (.inl ⟨hlast, hwrap⟩))
    · exact .inl ⟨rfl, hne⟩

end Circular
