import Hns.Core.HandshakeName

/-!
# Texts in UTF-8

The texts that octets stand for. An octet below 128 is a character of its own,
and never part of another one, so that a text falls apart wherever its octets do
at such an octet (`utf8_eq_append_cons`).
-/

namespace Hns

/-- `std::str::from_utf8`. -/
def fromUtf8 (octets : List UInt8) : Option (List Char) :=
  octets.toByteArray.utf8Decode?.map Array.toList

theorem fromUtf8_utf8 (text : List Char) : fromUtf8 (utf8 text) = some text := by
  have hencode : (utf8 text).toByteArray = text.utf8Encode := rfl
  rw [fromUtf8, hencode, List.utf8Decode?_utf8Encode]
  rfl

theorem fromUtf8_eq_some {octets : List UInt8} {text : List Char} :
    fromUtf8 octets = some text ↔ octets = utf8 text := by
  constructor
  · intro h
    obtain ⟨chars, hdecode, rfl⟩ := Option.map_eq_some_iff.1 h
    have hget := ByteArray.utf8Encode_get_utf8Decode? (b := octets.toByteArray)
      (h := by rw [hdecode]; rfl)
    simp only [hdecode, Option.get_some] at hget
    exact List.toByteArray_inj.1 hget.symm
  · rintro rfl
    exact fromUtf8_utf8 text

theorem utf8_injective {text text' : List Char} (h : utf8 text = utf8 text') : text = text' := by
  have hsome := congrArg fromUtf8 h
  rw [fromUtf8_utf8, fromUtf8_utf8] at hsome
  exact Option.some.inj hsome

@[simp] theorem utf8_nil : utf8 [] = [] := rfl

@[simp] theorem utf8_cons (c : Char) (text : List Char) :
    utf8 (c :: text) = String.utf8EncodeChar c ++ utf8 text := rfl

@[simp] theorem utf8_append (text text' : List Char) :
    utf8 (text ++ text') = utf8 text ++ utf8 text' := List.flatMap_append

/-- A character of ASCII is its own octet. -/
theorem utf8EncodeChar_of_lt {c : Char} (h : c.toNat < 128) :
    String.utf8EncodeChar c = [UInt8.ofNat c.toNat] := by
  rw [String.utf8EncodeChar]
  exact if_pos (Nat.le_of_lt_succ h)

/-- The octets of any other character are above those of ASCII. -/
theorem le_of_mem_utf8EncodeChar {c : Char} (h : 128 ≤ c.toNat) {octet : UInt8}
    (hmem : octet ∈ String.utf8EncodeChar c) : 128 ≤ octet.toNat := by
  have hoctet {n : ℕ} (hle : 128 ≤ n) (hlt : n < 256) : 128 ≤ (UInt8.ofNat n).toNat := by
    rwa [UInt8.toNat_ofNat_of_lt' hlt]
  rw [String.utf8EncodeChar] at hmem
  change 128 ≤ c.val.toNat at h
  rw [if_neg (by omega)] at hmem
  split_ifs at hmem <;> simp only [List.mem_cons, List.not_mem_nil, or_false] at hmem
  · rcases hmem with rfl | rfl <;> exact hoctet (by omega) (by omega)
  · rcases hmem with rfl | rfl | rfl <;> exact hoctet (by omega) (by omega)
  · rcases hmem with rfl | rfl | rfl | rfl <;> exact hoctet (by omega) (by omega)

/-- A text falls apart where its octets do, at an octet of ASCII. -/
theorem utf8_eq_append_cons {text : List Char} {front back : List UInt8} {octet : UInt8}
    (hascii : octet.toNat < 128) (h : utf8 text = front ++ octet :: back) :
    ∃ text' text'', text = text' ++ Char.ofNat octet.toNat :: text'' ∧ utf8 text' = front ∧
      utf8 text'' = back := by
  induction text generalizing front with
  | nil => simp at h
  | cons c text ih =>
    rw [utf8_cons] at h
    by_cases hc : c.toNat < 128
    · rw [utf8EncodeChar_of_lt hc, List.singleton_append] at h
      cases front with
      | nil =>
        rw [List.nil_append, List.cons.injEq] at h
        refine ⟨[], text, ?_, rfl, h.2⟩
        rw [List.nil_append, ← h.1, UInt8.toNat_ofNat_of_lt' (hc.trans (by decide)),
          Char.ofNat_toNat]
      | cons first front =>
        rw [List.cons_append, List.cons.injEq] at h
        obtain ⟨text', text'', rfl, rfl, rfl⟩ := ih h.2
        exact ⟨c :: text', text'', rfl, by rw [utf8_cons, utf8EncodeChar_of_lt hc, ← h.1]; rfl, rfl⟩
    · -- The octets of the character are all in the front.
      obtain ⟨more, hmore⟩ : ∃ more, front = String.utf8EncodeChar c ++ more := by
        rcases List.append_eq_append_iff.1 h with ⟨more, hfront, -⟩ | ⟨more, hchar, hrest⟩
        · exact ⟨more, hfront⟩
        · cases more with
          | nil => exact ⟨[], by rw [hchar, List.append_nil, List.append_nil]⟩
          | cons first more =>
            rw [List.cons_append, List.cons.injEq] at hrest
            have hge := le_of_mem_utf8EncodeChar (not_lt.1 hc) (by rw [hchar]; simp : first ∈ _)
            rw [← hrest.1] at hge
            omega
      rw [hmore, List.append_assoc, List.append_cancel_left_eq] at h
      obtain ⟨text', text'', rfl, rfl, rfl⟩ := ih h
      exact ⟨c :: text', text'', rfl, by rw [utf8_cons, hmore], rfl⟩

end Hns
