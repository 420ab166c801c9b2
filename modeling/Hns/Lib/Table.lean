import Mathlib.Tactic

/-!
# Tables

A table is a partial map, updated one entry at a time (`insert`) or with the
items of a list, each at its key (`insertAll`). `m ⊑ m'` is
written `m.Sub m'`: every entry of `m` is one of `m'`. A table that only grows
keeps every answer it has given (`Sub.trans`, `sub_insert`, `sub_insertAll`).
-/

/-- A partial map from `α` to `β`. -/
abbrev Table (α β : Type*) := α → Option β

namespace Table

variable {α β : Type*} [DecidableEq α]

/-- The table without entries. -/
def empty : Table α β := fun _ => none

/-- The table with the entry of `a` replaced by `b`. -/
def insert (m : Table α β) (a : α) (b : β) : Table α β := Function.update m a (some b)

omit [DecidableEq α] in
@[simp] theorem empty_apply (a : α) : (empty : Table α β) a = none := rfl

@[simp] theorem insert_self (m : Table α β) (a : α) (b : β) : m.insert a b a = some b :=
  Function.update_self ..

theorem insert_of_ne (m : Table α β) {a a' : α} (b : β) (h : a' ≠ a) :
    m.insert a b a' = m a' := Function.update_of_ne h ..

theorem insert_eq_some {m : Table α β} {a a' : α} {b b' : β} (h : m.insert a b a' = some b') :
    (a' = a ∧ b' = b) ∨ (a' ≠ a ∧ m a' = some b') := by
  by_cases ha : a' = a
  · subst ha
    exact .inl ⟨rfl, by simpa [eq_comm] using h⟩
  · exact .inr ⟨ha, by rwa [insert_of_ne m b ha] at h⟩

/-- Every entry of `m` is an entry of `m'`. -/
def Sub (m m' : Table α β) : Prop := ∀ a b, m a = some b → m' a = some b

omit [DecidableEq α] in
theorem Sub.refl (m : Table α β) : m.Sub m := fun _ _ h => h

omit [DecidableEq α] in
theorem Sub.trans {m₁ m₂ m₃ : Table α β} (h : m₁.Sub m₂) (h' : m₂.Sub m₃) : m₁.Sub m₃ :=
  fun a b hab => h' a b (h a b hab)

/-- Inserting at a fresh key keeps every entry. -/
theorem sub_insert {m : Table α β} {a : α} (b : β) (h : m a = none) : m.Sub (m.insert a b) := by
  intro a' b' h'
  have hne : a' ≠ a := by
    rintro rfl
    simp [h] at h'
  rw [insert_of_ne m b hne, h']

/-- The entries of `m'` before those of `m`. -/
def overlay (m' m : Table α β) : Table α β := fun a => (m' a).or (m a)

omit [DecidableEq α] in
@[simp] theorem overlay_empty (m : Table α β) : (empty : Table α β).overlay m = m := by
  funext a
  simp [overlay]

theorem insert_overlay (m' m : Table α β) (a : α) (b : β) :
    (m'.insert a b).overlay m = (m'.overlay m).insert a b := by
  funext a'
  by_cases ha : a' = a
  · subst ha
    simp [overlay]
  · simp [overlay, insert_of_ne _ _ ha]

section InsertAll

variable {γ : Type*} (key : γ → α) (val : γ → β)

/-- The table with the items of a list inserted in turn, at their keys. -/
def insertAll (m : Table α β) : List γ → Table α β
  | [] => m
  | c :: l => insertAll (m.insert (key c) (val c)) l

variable {key val}

theorem insertAll_append (m : Table α β) (l l' : List γ) :
    m.insertAll key val (l ++ l') = (m.insertAll key val l).insertAll key val l' := by
  induction l generalizing m with
  | nil => rfl
  | cons c l ih => exact ih _

/-- An entry of `m` with the items of `l` inserted is one of `l` or of `m`. -/
theorem insertAll_eq_some {m : Table α β} {l : List γ} {a : α} {b : β}
    (h : m.insertAll key val l a = some b) :
    (∃ c ∈ l, key c = a ∧ val c = b) ∨ m a = some b := by
  induction l generalizing m with
  | nil => exact .inr h
  | cons c l ih =>
    rcases ih h with ⟨d, hd, hk⟩ | h
    · exact .inl ⟨d, List.mem_cons_of_mem _ hd, hk⟩
    · rcases insert_eq_some h with ⟨ha, hb⟩ | ⟨-, h⟩
      · exact .inl ⟨c, List.mem_cons_self, ha.symm, hb.symm⟩
      · exact .inr h

/-- A key that is not among those of `l` keeps its entry. -/
theorem insertAll_of_not_mem (m : Table α β) {l : List γ} {a : α} (h : a ∉ l.map key) :
    m.insertAll key val l a = m a := by
  induction l generalizing m with
  | nil => rfl
  | cons c l ih =>
    rw [List.map_cons, List.mem_cons, not_or] at h
    rw [insertAll, ih _ h.2, insert_of_ne m _ h.1]

/-- Distinct keys: every inserted item is found at its key. -/
theorem insertAll_of_mem (m : Table α β) {l : List γ} (hl : (l.map key).Nodup) {c : γ}
    (hc : c ∈ l) : m.insertAll key val l (key c) = some (val c) := by
  induction l generalizing m with
  | nil => exact absurd hc List.not_mem_nil
  | cons d l ih =>
    rw [List.map_cons, List.nodup_cons] at hl
    rcases List.mem_cons.1 hc with rfl | hc
    · rw [insertAll, insertAll_of_not_mem _ hl.1, insert_self]
    · exact ih _ hl.2 hc

/-- Inserting at fresh keys keeps every entry. -/
theorem sub_insertAll {m : Table α β} {l : List γ} (h : ∀ c ∈ l, m (key c) = none) :
    m.Sub (m.insertAll key val l) := by
  intro a b hab
  rw [insertAll_of_not_mem m, hab]
  intro ha
  obtain ⟨c, hc, rfl⟩ := List.mem_map.1 ha
  simp [h c hc] at hab

end InsertAll

end Table
