import Mathlib.Data.List.Basic
import Mathlib.Tactic.Linarith

/-!
# Texts

Texts as lists of characters: literals (`of`), numbers in decimal (`decimal`) or,
in a fixed width, in hexadecimal (`hex`), and texts made of parts, which can be
told from the text when none of them has the separator (`intercalate_inj`).
-/

namespace Chars

/-- The characters of a literal. -/
@[irreducible] def of (s : String) : List Char := s.toList

/-- Literals are told apart. -/
theorem of_inj {s t : String} : of s = of t ↔ s = t := by
  unfold of
  exact String.toList_inj

/-- The decimal digits of a number. -/
def decimal (n : ℕ) : List Char := Nat.toDigits 10 n

theorem isDigit_of_mem_decimal {c : Char} {n : ℕ} (h : c ∈ decimal n) : c.isDigit := by
  rw [decimal] at h
  exact Nat.isDigit_of_mem_toDigits (by decide) (by decide) h

theorem exists_decimal (n : ℕ) : ∃ c digits, decimal n = c :: digits ∧ c.isDigit := by
  cases h : decimal n with
  | nil => exact absurd h Nat.toDigits_ne_nil
  | cons c digits => exact ⟨c, digits, rfl, isDigit_of_mem_decimal (h ▸ List.mem_cons_self)⟩

/-- The `w` low hexadecimal digits of `n`, most significant first. -/
def hex : ℕ → ℕ → List Char
  | 0, _ => []
  | w + 1, n => hex w (n / 16) ++ [Nat.digitChar (n % 16)]

@[simp] theorem length_hex (w n : ℕ) : (hex w n).length = w := by
  induction w generalizing n with
  | zero => rfl
  | succ w ih => simp [hex, ih]

theorem digitChar_inj {m n : ℕ} (hm : m < 16) (hn : n < 16)
    (h : Nat.digitChar m = Nat.digitChar n) : m = n := by
  have key : ∀ m < 16, ∀ n < 16, Nat.digitChar m = Nat.digitChar n → m = n := by decide
  exact key m hm n hn h

/-- Numbers within the width are told apart. -/
theorem hex_inj {w m n : ℕ} (hm : m < 16 ^ w) (hn : n < 16 ^ w) (h : hex w m = hex w n) :
    m = n := by
  induction w generalizing m n with
  | zero =>
    rw [pow_zero] at hm hn
    omega
  | succ w ih =>
    obtain ⟨hdiv, hmod⟩ := List.append_inj' h rfl
    rw [pow_succ, mul_comm] at hm hn
    have hquot : m / 16 = n / 16 := ih (Nat.div_lt_of_lt_mul hm) (Nat.div_lt_of_lt_mul hn) hdiv
    have hrem : m % 16 = n % 16 :=
      digitChar_inj (Nat.mod_lt _ (by decide)) (Nat.mod_lt _ (by decide)) (by simpa using hmod)
    rw [← Nat.div_add_mod m 16, ← Nat.div_add_mod n 16, hquot, hrem]

theorem forall_mem_hex {p : Char → Prop} (h : ∀ d < 16, p (Nat.digitChar d)) (w n : ℕ) :
    ∀ c ∈ hex w n, p c := by
  induction w generalizing n with
  | zero => exact fun c hc => absurd hc List.not_mem_nil
  | succ w ih =>
    intro c hc
    rcases List.mem_append.1 hc with hc | hc
    · exact ih (n / 16) c hc
    · rw [List.mem_singleton] at hc
      exact hc ▸ h _ (Nat.mod_lt _ (by decide))

/-- What holds of every character of a literal can be computed. -/
theorem forall_mem_of_all {p : Char → Prop} [DecidablePred p] {text : List Char}
    (h : text.all (fun c => decide (p c)) = true) : ∀ c ∈ text, p c :=
  fun c hc => of_decide_eq_true (List.all_eq_true.1 h c hc)

/-! ## Texts of parts -/

variable {α : Type*} [DecidableEq α]

omit [DecidableEq α] in
/-- The first part, and every other one after a separator. -/
theorem intercalate_cons (sep part : List α) (parts : List (List α)) :
    sep.intercalate (part :: parts) = part ++ parts.flatMap (sep ++ ·) := by
  induction parts generalizing part with
  | nil => simp [List.intercalate]
  | cons part' parts ih =>
    rw [List.flatMap_cons, List.append_assoc, ← ih part']
    simp [List.intercalate]

omit [DecidableEq α] in
/-- A text up to the first separator. -/
theorem append_cons_inj {sep : α} {a b x y : List α} (ha : sep ∉ a) (hb : sep ∉ b)
    (h : a ++ sep :: x = b ++ sep :: y) : a = b ∧ x = y := by
  induction a generalizing b with
  | nil =>
    cases b with
    | nil => exact ⟨rfl, (List.cons.inj h).2⟩
    | cons c b => exact absurd ((List.cons.inj h).1 ▸ List.mem_cons_self) hb
  | cons c a ih =>
    cases b with
    | nil => exact absurd ((List.cons.inj h).1 ▸ List.mem_cons_self) ha
    | cons d b =>
      rw [List.cons_append, List.cons_append, List.cons.injEq] at h
      obtain ⟨rfl, h⟩ := h
      rw [List.mem_cons, not_or] at ha hb
      obtain ⟨rfl, rfl⟩ := ih ha.2 hb.2 h
      exact ⟨rfl, rfl⟩

omit [DecidableEq α] in
/-- An item of a text is the separator, or one of a part. -/
theorem mem_intercalate {sep c : α} {parts : List (List α)} (h : c ∈ [sep].intercalate parts) :
    c = sep ∨ ∃ part ∈ parts, c ∈ part := by
  cases parts with
  | nil => exact absurd h List.not_mem_nil
  | cons part parts =>
    rw [intercalate_cons, List.mem_append, List.mem_flatMap] at h
    rcases h with h | ⟨part', hpart', h⟩
    · exact .inr ⟨part, List.mem_cons_self, h⟩
    · rcases List.mem_cons.1 h with rfl | h
      · exact .inl rfl
      · exact .inr ⟨part', List.mem_cons_of_mem _ hpart', h⟩

/-- The parts of a text, none of which has the separator. -/
theorem intercalate_inj {sep : α} {l l' : List (List α)} (hl : ∀ part ∈ l, sep ∉ part)
    (hl' : ∀ part ∈ l', sep ∉ part) (hne : l ≠ []) (hne' : l' ≠ [])
    (h : [sep].intercalate l = [sep].intercalate l') : l = l' := by
  rw [← List.splitOn_intercalate sep hl hne, h, List.splitOn_intercalate sep hl' hne']

end Chars
