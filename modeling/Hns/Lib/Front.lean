import Mathlib.Tactic

/-!
# Parsers that wait for more

A parser that reads one item from the front of what has arrived, or waits for more, and never
changes its mind when more arrives (`FrontParser`). What is read from data that arrives in pieces
does not depend on the pieces (`FrontParser.drain_append`).
-/

/-- A parser of one item. What it has read, or refused, it reads or refuses with more behind. -/
structure FrontParser (α β ε : Type*) where
  parse : List α → Except ε (Option (β × List α))
  length_lt : ∀ {data rest b}, parse data = .ok (some (b, rest)) → rest.length < data.length
  some_append : ∀ {data rest b}, parse data = .ok (some (b, rest)) →
    ∀ more, parse (data ++ more) = .ok (some (b, rest ++ more))
  error_append : ∀ {data e}, parse data = .error e → ∀ more, parse (data ++ more) = .error e

namespace FrontParser

variable {α β ε : Type*} (parser : FrontParser α β ε)

/-- All items in front, and what is left behind them, unless something is refused. -/
def drain (data : List α) : List β × Except ε (List α) :=
  match _h : parser.parse data with
  | .error e => ([], .error e)
  | .ok none => ([], .ok data)
  | .ok (some (b, rest)) => (b :: (drain rest).1, (drain rest).2)
termination_by data.length
decreasing_by all_goals exact parser.length_lt _h

variable {parser}

theorem drain_of_error {data : List α} {e : ε} (h : parser.parse data = .error e) :
    parser.drain data = ([], .error e) := by
  rw [drain]
  split <;> simp_all

theorem drain_of_none {data : List α} (h : parser.parse data = .ok none) :
    parser.drain data = ([], .ok data) := by
  rw [drain]
  split <;> simp_all

theorem drain_of_some {data rest : List α} {b : β} (h : parser.parse data = .ok (some (b, rest))) :
    parser.drain data = (b :: (parser.drain rest).1, (parser.drain rest).2) := by
  rw [drain]
  split <;> simp_all

/-- What has been read, and is left, does not depend on what comes next. -/
theorem drain_append {data rest : List α} {items : List β}
    (h : parser.drain data = (items, .ok rest)) (more : List α) :
    parser.drain (data ++ more) =
      (items ++ (parser.drain (rest ++ more)).1, (parser.drain (rest ++ more)).2) := by
  induction hlength : data.length using Nat.strong_induction_on generalizing data items with
  | h length ih =>
    cases hparse : parser.parse data with
    | error e =>
      rw [drain_of_error hparse] at h
      cases h
    | ok read =>
      cases read with
      | none =>
        rw [drain_of_none hparse] at h
        cases h
        rfl
      | some read =>
        obtain ⟨b, data'⟩ := read
        rw [drain_of_some hparse, Prod.mk.injEq] at h
        obtain ⟨rfl, hrest⟩ := h
        rw [drain_of_some (parser.some_append hparse more),
          ih _ (hlength ▸ parser.length_lt hparse) (Prod.ext rfl hrest) rfl]
        rfl

/-- What is refused is refused at once. -/
theorem exists_drain_of_append {data more rest : List α} {items : List β}
    (h : parser.drain (data ++ more) = (items, .ok rest)) :
    ∃ items' rest', parser.drain data = (items', .ok rest') := by
  induction hlength : data.length using Nat.strong_induction_on generalizing data items with
  | h length ih =>
    cases hparse : parser.parse data with
    | error e =>
      rw [drain_of_error (parser.error_append hparse more)] at h
      cases h
    | ok read =>
      cases read with
      | none => exact ⟨[], data, drain_of_none hparse⟩
      | some read =>
        obtain ⟨b, data'⟩ := read
        rw [drain_of_some (parser.some_append hparse more), Prod.mk.injEq] at h
        obtain ⟨items', rest', hdrain⟩ :=
          ih _ (hlength ▸ parser.length_lt hparse) (Prod.ext rfl h.2) rfl
        exact ⟨b :: items', rest', by rw [drain_of_some hparse, hdrain]⟩

/-- Items that are written one behind the other are read one after the other. -/
theorem drain_flatten {items : List β} {texts : List (List α)}
    (hnil : parser.parse [] = .ok none)
    (h : List.Forall₂ (fun b text => ∀ rest, parser.parse (text ++ rest) = .ok (some (b, rest)))
      items texts) : parser.drain texts.flatten = (items, .ok []) := by
  induction h with
  | nil => exact drain_of_none hnil
  | cons hread _ ih => rw [List.flatten_cons, drain_of_some (hread _), ih]

end FrontParser
