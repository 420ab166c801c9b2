import Hns.Lib.Fallible

/-!
# Searches in another order

A search that may fail (`List.anyM`) stops at the first item that is found or that
fails. Where no item fails, or none is found, the order of the items does not
matter; where there are both, it does, as any item may come first
(`List.exists_perm_cons`).
-/

theorem List.exists_perm_cons {α : Type} {a : α} {l : List α} (h : a ∈ l) :
    ∃ l', (a :: l').Perm l := by
  obtain ⟨front, back, rfl⟩ := List.append_of_mem h
  exact ⟨front ++ back, List.perm_middle.symm⟩

namespace Except

variable {ε α β : Type}

/-- A computation on the items in another order. -/
theorem exists_mapM_of_perm {f : α → Except ε β} {l l' : List α} {r : List β}
    (hperm : l'.Perm l) (h : l.mapM f = .ok r) : ∃ r', l'.mapM f = .ok r' ∧ r'.Perm r := by
  obtain ⟨r', hr', hr⟩ := List.perm_comp_forall₂ hperm (mapM_eq_ok.1 h)
  exact ⟨r', mapM_eq_ok.2 hr', hr⟩

/-- Any of the results may come first. -/
theorem exists_mapM_cons_of_mem {f : α → Except ε β} {q : α → Bool} {l : List α} {r : List β} {b : β}
    (h : (l.filter q).mapM f = .ok r) (hb : b ∈ r) :
    ∃ l' : List α, l'.Perm l ∧ ∃ r', (l'.filter q).mapM f = .ok (b :: r') := by
  obtain ⟨a, ha, hf⟩ := (mapM_eq_ok.1 h).exists_left b hb
  obtain ⟨hmem, hq⟩ := List.mem_filter.1 ha
  obtain ⟨l', hperm⟩ := List.exists_perm_cons hmem
  obtain ⟨r', hr', -⟩ := exists_mapM_of_perm (hperm.filter q) h
  rw [List.filter_cons_of_pos hq] at hr'
  cases mapM_eq_ok.1 hr' with
  | @cons _ c _ rest hc hrest =>
    obtain rfl := ok.inj (hf.symm.trans hc)
    refine ⟨a :: l', hperm, rest, ?_⟩
    rw [List.filter_cons_of_pos hq]
    exact hr'

variable {p : α → Except ε Bool} {a : α} {l : List α}

theorem anyM_cons_of_true (h : p a = .ok true) : (a :: l).anyM p = .ok true := by
  rw [List.anyM, h]
  rfl

theorem anyM_cons_of_error {e : ε} (h : p a = .error e) : (a :: l).anyM p = .error e := by
  rw [List.anyM, h]
  rfl

theorem anyM_cons_of_false (h : p a = .ok false) : (a :: l).anyM p = l.anyM p := by
  rw [List.anyM, h]
  rfl

/-- What a search finds is among the items. -/
theorem exists_of_anyM (h : l.anyM p = .ok true) : ∃ a ∈ l, p a = .ok true := by
  obtain ⟨k, a, hk, ha, -⟩ := anyM_eq_ok_true.1 h
  exact ⟨a, List.mem_of_getElem? hk, ha⟩

theorem anyM_of_forall_false (h : ∀ a ∈ l, p a = .ok false) : l.anyM p = .ok false := by
  induction l with
  | nil => rfl
  | cons a l ih =>
    rw [List.forall_mem_cons] at h
    rw [anyM_cons_of_false h.1]
    exact ih h.2

/-- A search without failures finds what is there. -/
theorem anyM_of_exists (hok : ∀ a ∈ l, ∃ found, p a = .ok found) (h : ∃ a ∈ l, p a = .ok true) :
    l.anyM p = .ok true := by
  induction l with
  | nil => simp at h
  | cons b l ih =>
    rw [List.forall_mem_cons] at hok
    obtain ⟨⟨_ | _, hb⟩, hok⟩ := hok
    · rw [anyM_cons_of_false hb]
      refine ih hok ?_
      simpa [hb] using h
    · exact anyM_cons_of_true hb

/-- A search in which nothing can be found fails, if an item fails. -/
theorem anyM_of_forall_ne {e : ε} (hne : ∀ a ∈ l, p a ≠ .ok true)
    (he : ∀ a ∈ l, ∀ e', p a = .error e' → e' = e) (h : ∃ a ∈ l, p a = .error e) :
    l.anyM p = .error e := by
  induction l with
  | nil => simp at h
  | cons b l ih =>
    rw [List.forall_mem_cons] at hne he
    rcases hb : p b with e' | _ | _
    · rw [anyM_cons_of_error hb, he.1 e' hb]
    · rw [anyM_cons_of_false hb]
      refine ih hne.2 he.2 ?_
      simpa [hb] using h
    · exact absurd hb hne.1

/-- A search fails only where an item does. -/
theorem exists_error_of_anyM {e : ε} (h : l.anyM p = .error e) : ∃ a ∈ l, p a = .error e := by
  induction l with
  | nil => cases h
  | cons b l ih =>
    rcases hb : p b with e' | _ | _
    · rw [anyM_cons_of_error hb] at h
      exact ⟨b, List.mem_cons_self, hb.trans h⟩
    · rw [anyM_cons_of_false hb] at h
      obtain ⟨a, ha, herror⟩ := ih h
      exact ⟨a, List.mem_cons_of_mem _ ha, herror⟩
    · rw [anyM_cons_of_true hb] at h
      cases h

end Except
