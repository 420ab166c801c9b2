import Hns.Lib.Octets

/-!
# Self-delimiting codes

A code is self-delimiting when what it writes can be told from what follows
(`SelfDelimiting`). Words of one length are, and so is a word followed by
another one; a text of words without an end mark can be told apart too
(`SelfDelimiting.flatMap_injective`), as long as no word is empty.
-/

namespace Octet

variable {α β : Type*}

/-- What is written for a value ends before what follows it. -/
def SelfDelimiting (enc : α → List UInt8) : Prop :=
  ∀ ⦃a b : α⦄ ⦃x y : List UInt8⦄, enc a ++ x = enc b ++ y → a = b ∧ x = y

/-- Two texts that begin with words of one length. -/
theorem append_inj_of_length {a b x y : List UInt8} (hl : a.length = b.length)
    (h : a ++ x = b ++ y) : a = b ∧ x = y := List.append_inj h hl

theorem SelfDelimiting.of_length {enc : α → List UInt8} (n : ℕ) (hn : ∀ a, (enc a).length = n)
    (hinj : Function.Injective enc) : SelfDelimiting enc := by
  intro a b x y h
  obtain ⟨hab, hxy⟩ := append_inj_of_length ((hn a).trans (hn b).symm) h
  exact ⟨hinj hab, hxy⟩

theorem SelfDelimiting.append {enc : α → List UInt8} {enc' : β → List UInt8}
    (h : SelfDelimiting enc) (h' : SelfDelimiting enc') :
    SelfDelimiting fun p : α × β => enc p.1 ++ enc' p.2 := by
  rintro ⟨a, b⟩ ⟨a', b'⟩ x y heq
  rw [List.append_assoc, List.append_assoc] at heq
  obtain ⟨rfl, heq⟩ := h heq
  obtain ⟨rfl, rfl⟩ := h' heq
  exact ⟨rfl, rfl⟩

theorem SelfDelimiting.injective {enc : α → List UInt8} (h : SelfDelimiting enc) :
    Function.Injective enc := by
  intro a b hab
  exact (h (show enc a ++ [] = enc b ++ [] by rw [hab])).1

/-- A text of words: which ones they are, in order. -/
theorem SelfDelimiting.flatMap_injective {enc : α → List UInt8} (h : SelfDelimiting enc)
    (hne : ∀ a, enc a ≠ []) : Function.Injective fun l : List α => l.flatMap enc := by
  intro l
  induction l with
  | nil =>
    rintro (_ | ⟨b, l'⟩) heq
    · rfl
    · simp [hne b] at heq
  | cons a l ih =>
    rintro (_ | ⟨b, l'⟩) heq
    · simp [hne a] at heq
    · simp only [List.flatMap_cons] at heq
      obtain ⟨rfl, hrest⟩ := h heq
      rw [ih hrest]

/-- A word after its length, which is not zero, and a zero at the end. -/
theorem selfDelimiting_labels {enc : α → List UInt8} (hinj : Function.Injective enc)
    (hpos : ∀ a, 0 < (enc a).length) (hlt : ∀ a, (enc a).length < 256) :
    SelfDelimiting fun l : List α =>
      l.flatMap (fun a => UInt8.ofNat (enc a).length :: enc a) ++ [0] := by
  have hlen (a : α) : (UInt8.ofNat (enc a).length).toNat = (enc a).length := by
    rw [UInt8.toNat_ofNat', Nat.mod_eq_of_lt (hlt a)]
  have hzero (a : α) : UInt8.ofNat (enc a).length ≠ 0 := by
    intro h
    have := hlen a
    rw [h] at this
    exact absurd this (hpos a).ne
  intro l
  induction l with
  | nil =>
    rintro (_ | ⟨b, l'⟩) x y heq
    · simpa using heq
    · exact absurd (by simpa using (List.cons.inj heq).1) (hzero b).symm
  | cons a l ih =>
    rintro (_ | ⟨b, l'⟩) x y heq
    · exact absurd (by simpa using (List.cons.inj heq).1) (hzero a)
    · simp only [List.flatMap_cons, List.cons_append, List.append_assoc, List.cons.injEq] at heq
      obtain ⟨hab, heq⟩ := heq
      have hl : (enc a).length = (enc b).length := by rw [← hlen a, hab, hlen b]
      obtain ⟨henc, heq⟩ := append_inj_of_length hl heq
      obtain ⟨rfl, rfl⟩ := ih (by simpa using heq)
      exact ⟨by rw [hinj henc], rfl⟩

end Octet

/-! ## Machine words -/

/-- What holds of the octets of all numbers below 256 holds of every octet. -/
theorem UInt8.forall_of_lt {p : UInt8 → Prop} (h : ∀ n < 256, p (UInt8.ofNat n)) (b : UInt8) :
    p b := by
  simpa using h b.toNat b.toNat_lt

/-- Big-endian octets. -/
def UInt16.toBE (n : UInt16) : List UInt8 := Octet.toBE 2 n.toNat

/-- Big-endian octets. -/
def UInt32.toBE (n : UInt32) : List UInt8 := Octet.toBE 4 n.toNat

namespace Octet

@[simp] theorem length_toBE16 (n : UInt16) : n.toBE.length = 2 := length_toBE 2 _

@[simp] theorem length_toBE32 (n : UInt32) : n.toBE.length = 4 := length_toBE 4 _

theorem selfDelimiting_toBE16 : SelfDelimiting UInt16.toBE := by
  refine .of_length 2 length_toBE16 fun a b h => ?_
  have h := congrArg ofBE h
  rw [UInt16.toBE, UInt16.toBE, ofBE_toBE_of_lt a.toNat_lt, ofBE_toBE_of_lt b.toNat_lt] at h
  exact UInt16.toNat_inj.1 h

theorem selfDelimiting_toBE32 : SelfDelimiting UInt32.toBE := by
  refine .of_length 4 length_toBE32 fun a b h => ?_
  have h := congrArg ofBE h
  rw [UInt32.toBE, UInt32.toBE, ofBE_toBE_of_lt a.toNat_lt, ofBE_toBE_of_lt b.toNat_lt] at h
  exact UInt32.toNat_inj.1 h

/-- `u16::from_be_bytes`. -/
def be16 (a b : UInt8) : UInt16 := UInt16.ofNat (ofBE [a, b])

/-- `u32::from_be_bytes`. -/
def be32 (a b c d : UInt8) : UInt32 := UInt32.ofNat (ofBE [a, b, c, d])

theorem toBE_be16 (a b : UInt8) : (be16 a b).toBE = [a, b] := by
  have hlt : ofBE [a, b] < 256 ^ 2 := ofBE_lt [a, b]
  refine ofBE_inj (by simp) ?_
  rw [UInt16.toBE, be16, UInt16.toNat_ofNat', Nat.mod_eq_of_lt (by simpa using hlt),
    ofBE_toBE_of_lt (by simpa using hlt)]

theorem toBE_be32 (a b c d : UInt8) : (be32 a b c d).toBE = [a, b, c, d] := by
  have hlt : ofBE [a, b, c, d] < 256 ^ 4 := ofBE_lt [a, b, c, d]
  refine ofBE_inj (by simp) ?_
  rw [UInt32.toBE, be32, UInt32.toNat_ofNat', Nat.mod_eq_of_lt (by simpa using hlt),
    ofBE_toBE_of_lt (by simpa using hlt)]

/-- The octets of a number, from which it is read. -/
theorem exists_toBE16 (n : UInt16) : ∃ a b, n.toBE = [a, b] ∧ be16 a b = n := by
  obtain ⟨a, b, h⟩ := List.length_eq_two.1 (length_toBE16 n)
  refine ⟨a, b, h, ?_⟩
  rw [be16, ← h, UInt16.toBE, ofBE_toBE_of_lt n.toNat_lt, UInt16.ofNat_toNat]

/-- The octets of a number, from which it is read. -/
theorem exists_toBE32 (n : UInt32) : ∃ a b c d, n.toBE = [a, b, c, d] ∧ be32 a b c d = n := by
  obtain ⟨a, l, hl⟩ := List.exists_cons_of_length_eq_add_one (length_toBE32 n)
  have hlength : l.length = 3 := by
    have := length_toBE32 n
    rw [hl] at this
    exact Nat.succ.inj this
  obtain ⟨b, c, d, rfl⟩ := List.length_eq_three.1 hlength
  refine ⟨a, b, c, d, hl, ?_⟩
  rw [be32, ← hl, UInt32.toBE, ofBE_toBE_of_lt n.toNat_lt, UInt32.ofNat_toNat]

end Octet
