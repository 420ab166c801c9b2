import Mathlib.Data.List.Perm.Basic
import Mathlib.Data.List.Nodup

/-!
# Hash maps

A hash map as the list of its entries, in any order, with each key once. What is known of a map is
what it has at each key (`get?`) and which keys these are.
-/

structure HashMap (α β : Type*) where
  entries : List (α × β)
  nodup : (entries.map Prod.fst).Nodup

namespace HashMap

variable {α β : Type*} [DecidableEq α] (m : HashMap α β)

def empty : HashMap α β := ⟨[], List.nodup_nil⟩

def keys (m : HashMap α β) : List α := m.entries.map Prod.fst

def len (m : HashMap α β) : ℕ := m.entries.length

def get? (a : α) : Option β := m.entries.lookup a

/-- The entries that pass the test. -/
def retain (m : HashMap α β) (p : α → β → Bool) : HashMap α β where
  entries := m.entries.filter fun entry => p entry.1 entry.2
  nodup := m.nodup.sublist (List.filter_sublist.map _)

def remove (a : α) : HashMap α β := m.retain fun key _ => key ≠ a

def insert (a : α) (b : β) : HashMap α β where
  entries := (a, b) :: (m.remove a).entries
  nodup := by
    rw [List.map_cons, List.nodup_cons]
    refine ⟨fun h => ?_, (m.remove a).nodup⟩
    obtain ⟨entry, hentry, heq⟩ := List.mem_map.1 h
    exact of_decide_eq_true (List.mem_filter.1 hentry).2 heq

omit [DecidableEq α] in
theorem nodup_keys : m.keys.Nodup := m.nodup

omit [DecidableEq α] in
theorem length_keys : m.keys.length = m.len := List.length_map _

variable {m}

theorem get?_eq_some_iff {a : α} {b : β} : m.get? a = some b ↔ (a, b) ∈ m.entries := by
  obtain ⟨entries, hnodup⟩ := m
  rw [get?]
  dsimp only
  induction entries with
  | nil => simp
  | cons entry entries ih =>
    obtain ⟨key, value⟩ := entry
    rw [List.map_cons, List.nodup_cons] at hnodup
    rw [List.lookup_cons, List.mem_cons, Prod.mk.injEq]
    by_cases heq : a = key
    · subst heq
      rw [beq_self_eq_true]
      refine ⟨fun h => .inl ⟨rfl, (Option.some.inj h).symm⟩, ?_⟩
      rintro (⟨-, rfl⟩ | hmem)
      · rfl
      · exact absurd (List.mem_map_of_mem hmem) hnodup.1
    · rw [beq_false_of_ne heq, ih hnodup.2]
      simp [heq]

theorem isSome_get?_iff {a : α} : (m.get? a).isSome ↔ a ∈ m.keys := by
  rw [Option.isSome_iff_exists, keys, List.mem_map]
  constructor
  · rintro ⟨b, h⟩
    exact ⟨(a, b), get?_eq_some_iff.1 h, rfl⟩
  · rintro ⟨⟨_, b⟩, hmem, rfl⟩
    exact ⟨b, get?_eq_some_iff.2 hmem⟩

theorem get?_eq_none_iff {a : α} : m.get? a = none ↔ a ∉ m.keys := by
  rw [← isSome_get?_iff, Bool.not_eq_true, Option.isSome_eq_false_iff, Option.isNone_iff_eq_none]

@[simp] theorem get?_empty (a : α) : (empty : HashMap α β).get? a = none := rfl

theorem get?_retain (p : α → β → Bool) (a : α) :
    (m.retain p).get? a = (m.get? a).filter (p a) := by
  ext b
  rw [get?_eq_some_iff, retain, List.mem_filter, Option.filter_eq_some_iff, get?_eq_some_iff]

theorem get?_remove (a a' : α) : (m.remove a).get? a' = if a' = a then none else m.get? a' := by
  rw [remove, get?_retain]
  split_ifs with heq
  · simp [heq]
  · cases m.get? a' <;> simp [heq, Option.filter]

theorem get?_insert (a a' : α) (b : β) :
    (m.insert a b).get? a' = if a' = a then some b else m.get? a' := by
  split_ifs with heq
  · rw [heq, get?_eq_some_iff]
    exact List.mem_cons_self
  · ext b'
    rw [get?_eq_some_iff, insert, List.mem_cons, ← get?_eq_some_iff, get?_remove, if_neg heq,
      Prod.mk.injEq]
    simp [heq]

/-- A list of all keys without duplicates is one in another order. -/
theorem keys_perm {keys : List α} (hnodup : keys.Nodup) (h : ∀ a, a ∈ keys ↔ (m.get? a).isSome) :
    keys.Perm m.keys :=
  (List.perm_ext_iff_of_nodup hnodup m.nodup_keys).2 fun a => by rw [h, isSome_get?_iff]

end HashMap
