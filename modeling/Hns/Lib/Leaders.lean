import Mathlib.Data.Finset.Card
import Mathlib.Data.List.Perm.Lattice
import Mathlib.Data.List.Sort

/-!
# Leaders of groups

The entries of a list fall into groups. The *leaders* are the first entries of
their groups, the *followers* are the others, both in the order of the list. A
selection that takes leaders as long as there are any, and followers then
(`diverse`), has as many groups as it has room for (`card_groups_diverse`), and
of each group it takes the first entries (`filter_diverse_prefix`).

A list sorted by a comparison under which no two entries are equal does not
depend on the order of the entries before (`insertionSort_eq_of_perm`).
-/

namespace Leaders

open List

variable {α γ : Type*} [DecidableEq γ] (group : α → γ)

/-- The first entries of the groups that have not been seen. -/
def leaders : List γ → List α → List α
  | _, [] => []
  | seen, a :: l => if group a ∈ seen then leaders seen l else a :: leaders (group a :: seen) l

/-- The other entries. -/
def followers : List γ → List α → List α
  | _, [] => []
  | seen, a :: l => if group a ∈ seen then a :: followers seen l else followers (group a :: seen) l

/-- The leaders and then the followers, as long as there is room. -/
def diverse (count : ℕ) (l : List α) : List α :=
  (leaders group [] l ++ followers group [] l).take count

variable {group}

theorem leaders_append_followers_perm (seen : List γ) (l : List α) :
    leaders group seen l ++ followers group seen l ~ l := by
  induction l generalizing seen with
  | nil => exact Perm.refl _
  | cons a l ih =>
    rw [leaders, followers]
    split_ifs
    · exact perm_middle.trans ((ih seen).cons a)
    · exact (ih (group a :: seen)).cons a

/-- A group that has been seen has no leader. -/
theorem group_not_mem_of_mem_leaders {seen : List γ} {l : List α} {a : α}
    (h : a ∈ leaders group seen l) : group a ∉ seen := by
  induction l generalizing seen with
  | nil => cases h
  | cons b l ih =>
    rw [leaders] at h
    split_ifs at h with hseen
    · exact ih h
    · rcases mem_cons.1 h with rfl | h
      · exact hseen
      · exact fun hmem => ih h (mem_cons_of_mem _ hmem)

/-- A group has one leader. -/
theorem nodup_group_leaders (seen : List γ) (l : List α) :
    ((leaders group seen l).map group).Nodup := by
  induction l generalizing seen with
  | nil => exact nodup_nil
  | cons a l ih =>
    rw [leaders]
    split_ifs
    · exact ih seen
    · rw [map_cons, nodup_cons]
      refine ⟨fun hmem => ?_, ih _⟩
      obtain ⟨b, hb, heq⟩ := mem_map.1 hmem
      exact group_not_mem_of_mem_leaders hb (heq ▸ mem_cons_self)

/-- The groups of the leaders are those that have not been seen. -/
theorem mem_group_leaders {seen : List γ} {l : List α} {g : γ} :
    g ∈ (leaders group seen l).map group ↔ g ∈ l.map group ∧ g ∉ seen := by
  induction l generalizing seen with
  | nil => simp [leaders]
  | cons a l ih =>
    rw [leaders, map_cons, mem_cons]
    split_ifs with hseen
    · rw [ih]
      constructor
      · exact fun h => ⟨.inr h.1, h.2⟩
      · rintro ⟨rfl | h, hg⟩
        · exact absurd hseen hg
        · exact ⟨h, hg⟩
    · rw [map_cons, mem_cons, ih, mem_cons]
      by_cases hg : g = group a
      · simp [hg, hseen]
      · simp [hg]

/-- The entries of one group keep their order. -/
theorem filter_leaders_append_followers (seen : List γ) (l : List α) (g : γ) :
    (leaders group seen l ++ followers group seen l).filter (fun a => group a = g) =
      l.filter fun a => group a = g := by
  induction l generalizing seen with
  | nil => rfl
  | cons a l ih =>
    rw [leaders, followers]
    split_ifs with hseen
    · by_cases hg : group a = g
      · -- The group has been seen: its entries are all followers.
        have hnil : (leaders group seen l).filter (fun a => group a = g) = [] := by
          refine filter_eq_nil_iff.2 fun b hb => ?_
          have := group_not_mem_of_mem_leaders hb
          simp only [decide_eq_true_eq]
          rintro rfl
          exact this (hg ▸ hseen)
        have ih := ih seen
        rw [filter_append, hnil, nil_append] at ih ⊢
        rw [filter_cons_of_pos (by simpa using hg), filter_cons_of_pos (by simpa using hg), ih]
      · rw [filter_append, filter_cons_of_neg (by simpa using hg), ← filter_append, ih,
          filter_cons_of_neg (by simpa using hg)]
    · rw [cons_append, filter_cons, filter_cons, ih]

/-! ## The selection -/

section Diverse

variable (group) (count : ℕ) (l : List α)

theorem diverse_subset : diverse group count l ⊆ l := fun _ h =>
  (leaders_append_followers_perm [] l).subset (take_subset _ _ h)

theorem length_diverse : (diverse group count l).length = min count l.length := by
  rw [diverse, length_take, (leaders_append_followers_perm [] l).length_eq]

/-- Of a group, the first entries are selected. -/
theorem filter_diverse_prefix (g : γ) :
    (diverse group count l).filter (fun a => group a = g) <+: l.filter fun a => group a = g := by
  rw [← filter_leaders_append_followers [] l g]
  exact List.IsPrefix.filter _ ( take_prefix _ _)

/-- The groups that are selected: as many as there is room for. -/
theorem card_groups_diverse :
    ((diverse group count l).map group).toFinset.card =
      min count (l.map group).toFinset.card := by
  have hgroups : (l.map group).toFinset = ((leaders group [] l).map group).toFinset := by
    ext g
    rw [mem_toFinset, mem_toFinset, mem_group_leaders]
    simp
  have hcard : (l.map group).toFinset.card = (leaders group [] l).length := by
    rw [hgroups, toFinset_card_of_nodup (nodup_group_leaders _ _), length_map]
  rw [hcard, diverse, take_append]
  rcases le_total count (leaders group [] l).length with hle | hle
  · -- There is room for leaders only.
    rw [Nat.sub_eq_zero_of_le hle, take_zero, append_nil, min_eq_left hle,
      toFinset_card_of_nodup, length_map, length_take, min_eq_left hle]
    exact (nodup_group_leaders [] l).sublist ((take_sublist _ _).map group)
  · -- All groups are there.
    rw [take_of_length_le hle, min_eq_right hle, ← hcard]
    congr 1
    refine Finset.Subset.antisymm (fun g hg => ?_) (hgroups ▸ fun g hg => ?_)
    · rw [mem_toFinset] at hg ⊢
      refine map_subset _ (append_subset.2 ⟨?_, ?_⟩) hg
      · exact fun a ha => (leaders_append_followers_perm [] l).subset (mem_append_left _ ha)
      · exact fun a ha => (leaders_append_followers_perm [] l).subset
          (mem_append_right _ (take_subset _ _ ha))
    · rw [mem_toFinset, map_append] at *
      exact mem_append_left _ hg

variable {group count l}

theorem nodup_map_diverse {β : Type*} {f : α → β} (h : (l.map f).Nodup) :
    ((diverse group count l).map f).Nodup :=
  (((leaders_append_followers_perm [] l).map f).nodup_iff.2 h).sublist ((take_sublist _ _).map f)

/-- In a sorted list, no entry is passed over for another one of its group that comes after it. -/
theorem mem_diverse_or {r : α → α → Prop} (hsorted : l.Pairwise r) {a b : α}
    (ha : a ∈ diverse group count l) (hb : b ∈ l) (hgroup : group b = group a) :
    b ∈ diverse group count l ∨ r a b := by
  obtain ⟨rest, hrest⟩ := filter_diverse_prefix group count l (group a)
  have hb' : b ∈ l.filter fun x => group x = group a := mem_filter.2 ⟨hb, by simpa using hgroup⟩
  have hsorted' := hsorted.sublist (filter_sublist (p := fun x => decide (group x = group a)))
  rw [← hrest] at hb' hsorted'
  rcases mem_append.1 hb' with hmem | hmem
  · exact .inl (mem_filter.1 hmem).1
  · exact .inr ((pairwise_append.1 hsorted').2.2 a (mem_filter.2 ⟨ha, by simp⟩) b hmem)

/-- In a sorted list, the first entry that is selected of a group comes before the others. -/
theorem rel_of_first {r : α → α → Prop} [Std.Refl r] (hsorted : l.Pairwise r) {a b : α}
    {before after : List α} (heq : diverse group count l = before ++ a :: after)
    (hfirst : ∀ x ∈ before, group x ≠ group a) (hb : b ∈ l) (hgroup : group b = group a) :
    r a b := by
  obtain ⟨rest, hrest⟩ := filter_diverse_prefix group count l (group a)
  have hb' : b ∈ l.filter fun x => group x = group a := mem_filter.2 ⟨hb, by simpa using hgroup⟩
  have hsorted' := hsorted.sublist (filter_sublist (p := fun x => decide (group x = group a)))
  have hnil : before.filter (fun x => group x = group a) = [] :=
    filter_eq_nil_iff.2 fun x hx => by simpa using hfirst x hx
  rw [heq, filter_append, hnil, nil_append, filter_cons_of_pos (by simp), cons_append] at hrest
  rw [← hrest] at hb' hsorted'
  rcases mem_cons.1 hb' with rfl | hmem
  · exact refl_of r b
  · exact (pairwise_cons.1 hsorted').1 b hmem

end Diverse

/-! ## Sorting by a comparison -/

/-- An insertion sort by a comparison that is total on the entries does not depend on their order. -/
theorem insertionSort_eq_of_perm {r : α → α → Prop} [DecidableRel r] [Std.Total r] [IsTrans α r]
    {l l' : List α} (hanti : ∀ a ∈ l, ∀ b ∈ l, r a b → r b a → a = b) (h : l ~ l') :
    l.insertionSort r = l'.insertionSort r := by
  have hanti' : ∀ a b, a ∈ l.insertionSort r → b ∈ l'.insertionSort r → r a b → r b a → a = b := by
    intro a b ha hb
    rw [mem_insertionSort] at ha hb
    exact hanti a ha b (h.mem_iff.2 hb)
  exact Perm.eq_of_pairwise hanti' (pairwise_insertionSort r l) (pairwise_insertionSort r l')
    ((perm_insertionSort r l).trans (h.trans (perm_insertionSort r l').symm))

end Leaders
