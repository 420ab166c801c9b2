import Mathlib.Tactic

/-!
# Windows of time

How many of some items fall into a window of time, wherever it begins. A log that is only extended
while fewer items than the limit are in the window that ends now keeps the limit in every window
(`AtMostPer.concat`).
-/

namespace SlidingWindow

variable {α : Type*} (time : α → ℤ) (width : ℤ)

/-- The item is in the window from `t` on. -/
def Within (t : ℤ) (a : α) : Prop := t ≤ time a ∧ time a < t + width

instance (t : ℤ) : DecidablePred (Within time width t) := fun _ => inferInstanceAs (Decidable (_ ∧ _))

/-- The item is in the window that ends at `now`. -/
def Recent (now : ℤ) (a : α) : Prop := now - width < time a

instance (now : ℤ) : DecidablePred (Recent time width now) := fun _ =>
  inferInstanceAs (Decidable (_ < _))

/-- There are at most so many of the items in any window. -/
def AtMostPer (limit : ℕ) (items : List α) : Prop :=
  ∀ t : ℤ, (items.filter fun a => Within time width t a).length ≤ limit

variable {time width}

theorem atMostPer_nil (limit : ℕ) : AtMostPer time width limit [] := fun _ => Nat.zero_le _

theorem AtMostPer.concat {limit : ℕ} {items : List α} (h : AtMostPer time width limit items) {a : α}
    (hroom : (items.filter fun b => Recent time width (time a) b).length < limit) :
    AtMostPer time width limit (items ++ [a]) := by
  intro t
  rw [List.filter_append]
  by_cases ha : Within time width t a
  · -- What is in the window with `a` is also in the one that ends with `a`.
    have hsub : (items.filter fun b => Within time width t b).length ≤
        (items.filter fun b => Recent time width (time a) b).length := by
      refine (List.monotone_filter_right items fun b hb => ?_).length_le
      rw [decide_eq_true_iff] at hb ⊢
      have := hb.1
      have := ha.2
      rw [Recent]
      omega
    rw [List.length_append]
    have hone := List.length_filter_le (fun b => decide (Within time width t b)) [a]
    rw [List.length_singleton] at hone
    omega
  · rw [List.filter_cons_of_neg (by simpa using ha), List.filter_nil, List.append_nil]
    exact h t

/-- What is recent later has been recent before. -/
theorem Recent.of_le {now now' : ℤ} (hle : now ≤ now') {a : α} (h : Recent time width now' a) :
    Recent time width now a := by
  rw [Recent] at h ⊢
  omega

theorem filter_recent_filter_recent {now now' : ℤ} (hle : now ≤ now') (items : List α) :
    (items.filter fun a => Recent time width now a).filter (fun a => Recent time width now' a) =
      items.filter fun a => Recent time width now' a := by
  rw [List.filter_filter]
  refine List.filter_congr fun a _ => ?_
  rw [Bool.eq_iff_iff, Bool.and_eq_true, decide_eq_true_iff, decide_eq_true_iff]
  exact ⟨fun h => h.1, fun h => ⟨h, h.of_le hle⟩⟩

/-- In the order of time, what is not recent stands in front. -/
theorem dropWhile_eq_filter_recent {now : ℤ} {items : List α}
    (h : items.Pairwise fun a b => time a ≤ time b) :
    items.dropWhile (fun a => ¬Recent time width now a) =
      items.filter fun a => Recent time width now a := by
  induction items with
  | nil => rfl
  | cons a items ih =>
    rw [List.pairwise_cons] at h
    by_cases ha : Recent time width now a
    · have hall : ∀ b ∈ a :: items, Recent time width now b := by
        rw [List.forall_mem_cons]
        exact ⟨ha, fun b hb => lt_of_lt_of_le ha (h.1 b hb)⟩
      rw [List.dropWhile_cons_of_neg (by simpa using ha), List.filter_eq_self.2 (by simpa using hall)]
    · rw [List.dropWhile_cons_of_pos (by simpa using ha), List.filter_cons_of_neg (by simpa using ha),
        ih h.2]

end SlidingWindow
