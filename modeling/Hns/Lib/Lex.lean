import Mathlib.Order.Defs.LinearOrder
import Mathlib.Data.List.Basic

/-!
# Lexicographic comparison

The lists that begin with a given one lie next to each other: what lies between
two of them begins with it too (`List.prefix_of_between`). A list comes before
another when it is the beginning of it, or by what it has where they differ first
(`List.compareLex_eq_lt`). A comparison that is lawful is one of a linear order
(`LinearOrder.ofCmp`).
-/

open Std

namespace List

variable {α : Type*} {cmp : α → α → Ordering}

/-- A common beginning does not count. -/
theorem compareLex_append_append [ReflCmp cmp] (p a b : List α) :
    List.compareLex cmp (p ++ a) (p ++ b) = List.compareLex cmp a b := by
  induction p with
  | nil => rfl
  | cons x p ih =>
    have hself : cmp x x = .eq := ReflCmp.compare_self
    rw [cons_append, cons_append, List.compareLex_cons_cons, hself, ih]
    rfl

theorem isLE_compareLex_append [ReflCmp cmp] (p a : List α) :
    (List.compareLex cmp p (p ++ a)).isLE := by
  have h : List.compareLex cmp (p ++ []) (p ++ a) = _ := compareLex_append_append p [] a
  rw [append_nil] at h
  rw [h]
  exact List.isLE_compareLex_nil_left

/-- What lies between two lists with a common beginning begins alike. -/
theorem prefix_of_between [TransCmp cmp] [LawfulEqCmp cmp] {p a b x : List α}
    (hax : (List.compareLex cmp (p ++ a) x).isLE) (hxb : (List.compareLex cmp x (p ++ b)).isLE) :
    p <+: x := by
  induction p generalizing x with
  | nil => exact nil_prefix
  | cons c p ih =>
    cases x with
    | nil => cases hax
    | cons y x =>
      rw [cons_append, List.compareLex_cons_cons, Ordering.isLE_then_iff_and] at hax hxb
      obtain rfl : c = y := LawfulEqCmp.eq_of_compare (OrientedCmp.isLE_antisymm hax.1 hxb.1)
      have hself : cmp c c = .eq := ReflCmp.compare_self
      rw [hself] at hax hxb
      rw [prefix_cons_inj]
      exact ih (by simpa using hax.2) (by simpa using hxb.2)

/-- One list ends where the other goes on, or the first elements that differ are in order. -/
def Before (r : α → α → Prop) (a b : List α) : Prop :=
  (a <+: b ∧ a ≠ b) ∨ ∃ p x y s t, a = p ++ x :: s ∧ b = p ++ y :: t ∧ r x y

theorem before_cons_cons {r : α → α → Prop} {x y : α} {a b : List α} :
    Before r (x :: a) (y :: b) ↔ r x y ∨ x = y ∧ Before r a b := by
  constructor
  · rintro (⟨hinit, hne⟩ | ⟨p, x', y', s, t, ha, hb, hr⟩)
    · obtain ⟨rfl, htail⟩ := cons_prefix_cons.1 hinit
      exact .inr ⟨rfl, .inl ⟨htail, fun h => hne (by rw [h])⟩⟩
    · cases p with
      | nil =>
        cases ha
        cases hb
        exact .inl hr
      | cons z p =>
        cases ha
        cases hb
        exact .inr ⟨rfl, .inr ⟨p, x', y', s, t, rfl, rfl, hr⟩⟩
  · rintro (hr | ⟨rfl, ⟨hinit, hne⟩ | ⟨p, x', y', s, t, rfl, rfl, hr⟩⟩)
    · exact .inr ⟨[], x, y, a, b, rfl, rfl, hr⟩
    · exact .inl ⟨cons_prefix_cons.2 ⟨rfl, hinit⟩, fun h => hne (List.cons.inj h).2⟩
    · exact .inr ⟨x :: p, x', y', s, t, rfl, rfl, hr⟩

theorem compareLex_eq_lt [LawfulEqCmp cmp] {a b : List α} :
    List.compareLex cmp a b = .lt ↔ Before (cmp · · = .lt) a b := by
  induction a generalizing b with
  | nil =>
    cases b with
    | nil => exact iff_of_false nofun (by simp [Before])
    | cons y b => exact iff_of_true rfl (.inl ⟨ nil_prefix, (cons_ne_nil _ _).symm⟩)
  | cons x a ih =>
    cases b with
    | nil => exact iff_of_false nofun (by simp [Before])
    | cons y b =>
      rw [List.compareLex_cons_cons, before_cons_cons, ← ih, Ordering.then_eq_lt,
        LawfulEqCmp.compare_eq_iff_eq]

end List

/-- The order of a comparison. -/
abbrev LinearOrder.ofCmp {α : Type*} [DecidableEq α] (cmp : α → α → Ordering) [TransCmp cmp]
    [LawfulEqCmp cmp] : LinearOrder α where
  le a b := (cmp a b).isLE
  lt a b := cmp a b = .lt
  le_refl _ := ReflCmp.isLE_rfl
  le_trans _ _ _ := TransCmp.isLE_trans
  lt_iff_le_not_ge a b := by
    have hswap : cmp b a = (cmp a b).swap := OrientedCmp.eq_swap
    rw [hswap]
    cases cmp a b <;> simp
  le_antisymm a b hab hba := LawfulEqCmp.eq_of_compare (OrientedCmp.isLE_antisymm hab hba)
  le_total a b := by
    have hswap : cmp b a = (cmp a b).swap := OrientedCmp.eq_swap
    rw [hswap]
    cases cmp a b <;> simp
  toDecidableLE := fun a b => inferInstanceAs (Decidable ((cmp a b).isLE = true))
  toDecidableEq := inferInstance
  toDecidableLT := fun a b => inferInstanceAs (Decidable (cmp a b = .lt))
