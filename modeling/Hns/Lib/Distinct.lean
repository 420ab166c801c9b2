import Mathlib.Tactic

/-!
# Sums over distinct naturals

Of all the choices of `n` distinct naturals, `0, …, n - 1` is the one at which
an antitone function has the greatest sum.
-/

open Finset

/-- The sum of an antitone function over a set of naturals is at most its sum over as many
    first ones. -/
theorem sum_le_sum_range_card {g : ℕ → ℕ} (hg : Antitone g) (s : Finset ℕ) :
    ∑ v ∈ s, g v ≤ ∑ j ∈ range s.card, g j := by
  induction s using Finset.induction_on_max with
  | empty => simp
  | insert a s hmax ih =>
    have ha : a ∉ s := fun h => lt_irrefl a (hmax a h)
    -- The greatest of the set is at least the number of the others.
    have hcard : s.card ≤ a := by
      simpa using card_le_card fun v hv => mem_range.2 (hmax v hv)
    rw [sum_insert ha, card_insert_of_notMem ha, sum_range_succ, add_comm]
    exact Nat.add_le_add ih (hg hcard)

/-- The same for a family of `n` distinct naturals. -/
theorem sum_comp_le_sum_range {g : ℕ → ℕ} (hg : Antitone g) {n : ℕ} {f : ℕ → ℕ}
    (hf : Set.InjOn f (range n)) : ∑ i ∈ range n, g (f i) ≤ ∑ j ∈ range n, g j := by
  calc ∑ i ∈ range n, g (f i) = ∑ v ∈ (range n).image f, g v := (sum_image hf).symm
    _ ≤ ∑ j ∈ range ((range n).image f).card, g j := sum_le_sum_range_card hg _
    _ = ∑ j ∈ range n, g j := by rw [card_image_of_injOn hf, card_range]
