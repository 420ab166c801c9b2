import Hns.Lib.Code
import Hns.Lib.Octets
import Hns.Dane.Der

/-!
# Certificates in DER

What DER says of the elements of a certificate: a tag, the length in its minimal
form (`DerLength`), and the contents (`IsElement`). The readers read just the
elements that stand at the cursor and end within the limit
(`run_readDerElementWithLimit`), and so the key that is extracted is the one of a
certificate (`extractSpkiDer_eq_ok`), and no octets make the extraction panic
(`extractSpkiDer_spec`).
-/

namespace Hns

/-! ## Elements -/

/-- The octets of a length: one below 128, else as many as are needed after their number. -/
inductive DerLength : ℕ → List UInt8 → Prop
  | short {octet : UInt8} : octet.toNat < 128 → DerLength octet.toNat [octet]
  | long {lead : UInt8} {octets : List UInt8} : lead ≠ 0 → octets.length < 126 →
      128 ≤ Octet.ofBE (lead :: octets) → DerLength (Octet.ofBE (lead :: octets))
        (UInt8.ofNat (128 + (octets.length + 1)) :: lead :: octets)

/-- The octets of an element, with its tag and its contents. -/
def IsElement (tag : UInt8) (value octets : List UInt8) : Prop :=
  ∃ length, DerLength value.length length ∧ octets = tag :: (length ++ value)

/-- Five fields, the key, and anything else. -/
def IsKeyAfterFields (contents spki : List UInt8) : Prop :=
  ∃ (fields : List (List UInt8)) (more : List UInt8), contents = fields.flatten ++ (spki ++ more) ∧
    fields.length = 5 ∧ (∀ field ∈ fields, ∃ tag value, IsElement tag value field) ∧
    ∃ value, IsElement tagSequence value spki

/-- What the contents of a `tbsCertificate` are, as far as the key is concerned: the explicit version
    may come before the fields. -/
def IsTbsCertificate (contents spki : List UInt8) : Prop :=
  (contents.head? ≠ some tagExplicitVersion ∧ IsKeyAfterFields contents spki) ∨
    ∃ version rest, contents = version ++ rest ∧
      (∃ value, IsElement tagExplicitVersion value version) ∧ IsKeyAfterFields rest spki

/-- What a certificate is, as far as its key is concerned; its size is that of a `usize`. -/
def IsCertificate (certDer spki : List UInt8) : Prop :=
  certDer.length < 2 ^ 64 ∧ ∃ tbs contents rest, IsElement tagSequence (tbs ++ rest) certDer ∧
    IsElement tagSequence contents tbs ∧ IsTbsCertificate contents spki

/-- The octets of a length say how many they are. -/
theorem first_of_length : ∀ octet : UInt8, ¬octet &&& 0x80 = 0 →
    octet = UInt8.ofNat (128 + (octet &&& 0x7f).toNat) ∧ 128 ≤ octet.toNat :=
  UInt8.forall_of_lt (by decide +kernel)

theorem lt_of_and_eq_zero : ∀ octet : UInt8, octet &&& 0x80 = 0 → octet.toNat < 128 :=
  UInt8.forall_of_lt (by decide +kernel)

theorem and_of_long : ∀ n < 128, UInt8.ofNat (128 + n) &&& 0x80 ≠ 0 ∧
    (UInt8.ofNat (128 + n) &&& 0x7f).toNat = n := by
  decide +kernel

theorem and_of_short : ∀ octet : UInt8, octet.toNat < 128 → octet &&& 0x80 = 0 :=
  UInt8.forall_of_lt (by decide +kernel)

/-- A length is read in one way. -/
theorem DerLength.unique {n n' : ℕ} {octets octets' rest rest' : List UInt8}
    (h : DerLength n octets) (h' : DerLength n' octets') (heq : octets ++ rest = octets' ++ rest') :
    n = n' ∧ octets = octets' := by
  have hlong {a b : ℕ} (ha : a < 126) (hb : b < 126)
      (h : UInt8.ofNat (128 + (a + 1)) = UInt8.ofNat (128 + (b + 1))) : a = b := by
    have hand := congrArg (fun octet : UInt8 => (octet &&& 0x7f).toNat) h
    simp only [(and_of_long (a + 1) (by omega)).2, (and_of_long (b + 1) (by omega)).2] at hand
    omega
  have hmixed {octet : UInt8} {a : ℕ} (hoctet : octet.toNat < 128) (ha : a < 126)
      (h : octet = UInt8.ofNat (128 + (a + 1))) : False :=
    (and_of_long (a + 1) (by omega)).1 (h ▸ and_of_short octet hoctet)
  cases h with
  | short hoctet =>
    cases h' with
    | short hoctet' =>
      obtain ⟨rfl, -⟩ := List.cons.inj heq
      exact ⟨rfl, rfl⟩
    | long _ hlength => exact (hmixed hoctet hlength (List.cons.inj heq).1).elim
  | long _ hlength =>
    cases h' with
    | short hoctet' => exact (hmixed hoctet' hlength (List.cons.inj heq).1.symm).elim
    | long _ hlength' =>
      obtain ⟨hfirst, htail⟩ := List.cons.inj heq
      have hsame := hlong hlength hlength' hfirst
      obtain ⟨hoctets, -⟩ := List.append_inj htail (congrArg (· + 1) hsame)
      rw [hoctets, hsame]
      exact ⟨rfl, rfl⟩

/-! ## Lengths -/

section Sequences

variable {α β : Type} {x : DerReader α} {f : α → DerReader β} {s s' : ℕ}

theorem run_bind_of_ok {a : α} (h : x.run s = .ok (a, s')) : (x >>= f).run s = (f a).run s' := by
  rw [StateT.run_bind, h]
  rfl

theorem run_bind_of_error {e : Fault DaneError} (h : x.run s = .error e) :
    (x >>= f).run s = .error e := by
  rw [StateT.run_bind, h]
  rfl

theorem run_lift_ok {y : DaneResult α} {a : α} (h : y = .ok a) :
    (liftM y : DerReader α).run s = .ok (a, s) := by
  rw [h]
  rfl

theorem run_lift_error {y : DaneResult α} {e : Fault DaneError} (h : y = .error e) :
    (liftM y : DerReader α).run s = .error e := by
  rw [h]
  rfl

theorem run_get_bind (g : ℕ → DerReader β) : ((get : DerReader ℕ) >>= g).run s = (g s).run s := rfl

end Sequences

section Readers

variable {data : List UInt8} {limit cursor : ℕ}

theorem fits_iff {count : ℕ} :
    fits cursor count limit ↔ cursor + count < 2 ^ 64 ∧ cursor + count ≤ limit := by
  rw [fits, checkedAdd]
  split_ifs with h
  · simpa using fun _ => h
  · simpa using fun h' => absurd h' h

theorem run_advance (h : cursor + 1 < 2 ^ 64) : advance.run cursor = .ok ((), cursor + 1) := by
  have hadd : Except.ofOption (Fault.panic : Fault DaneError) (checkedAdd cursor 1) =
      .ok (cursor + 1) := by rw [checkedAdd, if_pos h, Except.ofOption_some]
  rw [advance, run_get_bind, run_bind_of_ok (run_lift_ok hadd)]
  rfl

theorem run_readLengthOctets {count length : ℕ} (hdata : cursor + count ≤ data.length)
    (hcursor : cursor + count < 2 ^ 64) (hlength : length < 2 ^ 64) :
    (readLengthOctets data count length).run cursor =
      if length * 256 ^ count + Octet.ofBE ((data.drop cursor).take count) < 2 ^ 64 then
        .ok (length * 256 ^ count + Octet.ofBE ((data.drop cursor).take count), cursor + count)
      else .error malformed := by
  induction count generalizing cursor length with
  | zero =>
    have hvalue : length * 256 ^ 0 + Octet.ofBE ((data.drop cursor).take 0) = length := by simp
    rw [hvalue, if_pos hlength]
    rfl
  | succ count ih =>
    have hinside : cursor < data.length := by omega
    -- The next octet, and the value of all of them.
    obtain ⟨octet, hoctet⟩ : ∃ octet, data[cursor]? = some octet :=
      ⟨_, List.getElem?_eq_getElem hinside⟩
    have hdrop : data.drop cursor = octet :: data.drop (cursor + 1) := by
      rw [List.drop_eq_getElem_cons hinside]
      rw [List.getElem?_eq_getElem hinside] at hoctet
      rw [Option.some.inj hoctet]
    have hcount : ((data.drop (cursor + 1)).take count).length = count := by
      rw [List.length_take, List.length_drop]
      omega
    have hvalue : length * 256 ^ (count + 1) + Octet.ofBE ((data.drop cursor).take (count + 1)) =
        (length * 256 + octet.toNat) * 256 ^ count +
          Octet.ofBE ((data.drop (cursor + 1)).take count) := by
      rw [hdrop, List.take_succ_cons, Octet.ofBE_cons, hcount, pow_succ]
      ring
    have hmore : length * 256 + octet.toNat ≤ (length * 256 + octet.toNat) * 256 ^ count :=
      Nat.le_mul_of_pos_right _ (by positivity)
    have hindex : index data cursor = .ok octet := by rw [index, hoctet, Except.ofOption_some]
    rw [hvalue, readLengthOctets]
    by_cases hmul : length * 256 < 2 ^ 64
    · have hvalue : Except.ofOption malformed (checkedMul length 256) = .ok (length * 256) := by
        rw [checkedMul, if_pos hmul, Except.ofOption_some]
      rw [run_bind_of_ok (run_lift_ok hvalue), run_get_bind, run_bind_of_ok (run_lift_ok hindex)]
      by_cases hadd : length * 256 + octet.toNat < 2 ^ 64
      · have hlength : Except.ofOption malformed (checkedAdd (length * 256) octet.toNat) =
            .ok (length * 256 + octet.toNat) := by
          rw [checkedAdd, if_pos hadd, Except.ofOption_some]
        rw [run_bind_of_ok (run_lift_ok hlength), run_bind_of_ok (run_advance (by omega)),
          ih (by omega) (by omega) hadd, Nat.add_assoc, Nat.add_comm 1 count]
      · have hover : Except.ofOption malformed (checkedAdd (length * 256) octet.toNat) =
            .error malformed := by rw [checkedAdd, if_neg hadd, Except.ofOption_none]
        rw [run_bind_of_error (run_lift_error hover), if_neg (by omega)]
    · have hover : Except.ofOption malformed (checkedMul length 256) = .error malformed := by
        rw [checkedMul, if_neg hmul, Except.ofOption_none]
      rw [run_bind_of_error (run_lift_error hover), if_neg (by omega)]

/-- A length stands at the cursor and ends within the limit. -/
def LengthAt (data : List UInt8) (limit cursor n : ℕ) (octets : List UInt8) : Prop :=
  DerLength n octets ∧ n < 2 ^ 64 ∧ cursor + octets.length < 2 ^ 64 ∧
    ∃ rest, (data.take limit).drop cursor = octets ++ rest

/-- What stands before the limit, from the cursor on. -/
theorem drop_take_eq_cons {octet : UInt8} (hcursor : cursor < limit)
    (h : data[cursor]? = some octet) :
    (data.take limit).drop cursor = octet :: (data.take limit).drop (cursor + 1) := by
  have hget : (data.take limit)[cursor]? = some octet := by
    rw [List.getElem?_take_of_lt hcursor, h]
  obtain ⟨hlt, hoctet⟩ := List.getElem?_eq_some_iff.1 hget
  rw [List.drop_eq_getElem_cons hlt, hoctet]

/-- A length of more than one octet. -/
theorem LengthAt.long {n : ℕ} {first : UInt8} {octets : List UInt8}
    (h : LengthAt data limit cursor n octets) (hcursor : cursor < limit)
    (hget : data[cursor]? = some first) (hfirst : ¬first &&& 0x80 = 0) :
    (first &&& 0x7f).toNat ≠ 0 ∧ (first &&& 0x7f).toNat ≤ 8 ∧
      cursor + 1 + (first &&& 0x7f).toNat ≤ limit ∧
      cursor + 1 + (first &&& 0x7f).toNat < 2 ^ 64 ∧ data[cursor + 1]? ≠ some 0 ∧
      Octet.ofBE ((data.drop (cursor + 1)).take (first &&& 0x7f).toNat) = n ∧ 128 ≤ n := by
  obtain ⟨hlength, hn, hmachine, rest, hrest⟩ := h
  have hle : cursor + octets.length ≤ limit := by
    have hlengths := congrArg List.length hrest
    simp only [List.length_drop, List.length_take, List.length_append] at hlengths
    omega
  rw [drop_take_eq_cons hcursor hget] at hrest
  cases hlength with
  | short hoctet =>
    obtain ⟨rfl, -⟩ := List.cons.inj hrest
    exact absurd (and_of_short _ hoctet) hfirst
  | @long lead octets hlead hlength hmin =>
    obtain ⟨rfl, htail⟩ := List.cons.inj hrest
    rw [(and_of_long (octets.length + 1) (by omega)).2]
    simp only [List.length_cons] at hle hmachine
    have hdrop : (data.drop (cursor + 1)).take (octets.length + 1) = lead :: octets := by
      have htake : ((data.take limit).drop (cursor + 1)).take (octets.length + 1) =
          lead :: octets := by
        rw [htail]
        exact @List.take_left _ (lead :: octets) rest
      rw [List.drop_take, List.take_take, min_eq_left (by omega)] at htake
      exact htake
    refine ⟨Nat.succ_ne_zero _, ?_, by omega, by omega, ?_, by rw [hdrop], hmin⟩
    · -- More than eight octets say more than a `usize`.
      by_contra hmany
      have hpow : 256 ^ 8 ≤ 256 ^ octets.length := Nat.pow_le_pow_right (by decide) (by omega)
      have hpos : 0 < lead.toNat := by
        rw [Nat.pos_iff_ne_zero]
        exact fun h => hlead (UInt8.toNat_inj.1 h)
      have hmul := Nat.le_mul_of_pos_left (256 ^ octets.length) hpos
      rw [Octet.ofBE_cons] at hn
      omega
    · intro hzero
      have hhead : ((data.drop (cursor + 1)).take (octets.length + 1)).head? = some 0 := by
        rw [List.head?_take, if_neg (Nat.succ_ne_zero _), List.head?_drop, hzero]
      rw [hdrop] at hhead
      exact hlead (Option.some.inj hhead)

/-- The reader reads the length that stands at the cursor, if one does. -/
theorem run_readDerLength (hlimit : limit ≤ data.length) (hcursor : cursor < limit)
    (hmachine : cursor + 1 < 2 ^ 64) :
    (∃ n octets, LengthAt data limit cursor n octets ∧
      (readDerLength data limit).run cursor = .ok (n, cursor + octets.length)) ∨
    (∀ n octets, ¬LengthAt data limit cursor n octets) ∧
      (readDerLength data limit).run cursor = .error malformed := by
  have hinside : cursor < data.length := hcursor.trans_le hlimit
  obtain ⟨first, hget⟩ : ∃ first, data[cursor]? = some first :=
    ⟨_, List.getElem?_eq_getElem hinside⟩
  have hdrop := drop_take_eq_cons hcursor hget
  have hread : Except.ofOption malformed data[cursor]? = .ok first := by
    rw [hget, Except.ofOption_some]
  rw [readDerLength, run_get_bind, run_bind_of_ok (run_lift_ok hread),
    run_bind_of_ok (run_advance hmachine)]
  by_cases hfirst : first &&& 0x80 = 0
  · rw [if_pos hfirst]
    have hlt := lt_of_and_eq_zero first hfirst
    exact .inl ⟨_, [first], ⟨.short hlt, by omega, hmachine, _, hdrop⟩, rfl⟩
  rw [if_neg hfirst]
  have hlong := fun n octets (h : LengthAt data limit cursor n octets) => h.long hcursor hget hfirst
  by_cases hcount : (first &&& 0x7f).toNat = 0 ∨ 8 < (first &&& 0x7f).toNat
  · rw [if_pos hcount]
    refine .inr ⟨fun n octets h => ?_, rfl⟩
    have := hlong n octets h
    omega
  rw [if_neg hcount, run_get_bind]
  by_cases hfits : cursor + 1 + (first &&& 0x7f).toNat < 2 ^ 64 ∧
      cursor + 1 + (first &&& 0x7f).toNat ≤ limit
  swap
  · have hbad : (!fits (cursor + 1) (first &&& 0x7f).toNat limit) = true := by
      rw [Bool.not_eq_true', Bool.eq_false_iff, ne_eq, fits_iff]
      exact hfits
    rw [if_pos hbad]
    refine .inr ⟨fun n octets h => ?_, rfl⟩
    have := hlong n octets h
    omega
  have hgood : ¬(!fits (cursor + 1) (first &&& 0x7f).toNat limit) = true := by
    rw [Bool.not_eq_true', Bool.eq_false_iff, not_not, fits_iff]
    exact hfits
  obtain ⟨hmachine', hfits⟩ := hfits
  rw [if_neg hgood, run_get_bind]
  obtain ⟨lead, hlead⟩ : ∃ lead, data[cursor + 1]? = some lead :=
    ⟨_, List.getElem?_eq_getElem (by omega)⟩
  have hindex : index data (cursor + 1) = .ok lead := by rw [index, hlead, Except.ofOption_some]
  rw [run_bind_of_ok (run_lift_ok hindex)]
  by_cases hzero : lead = 0
  · rw [if_pos hzero]
    refine .inr ⟨fun n octets h => ?_, rfl⟩
    have := (hlong n octets h).2.2.2.2.1
    rw [hlead, hzero] at this
    exact absurd rfl this
  rw [if_neg hzero]
  have hvalue := run_readLengthOctets (show cursor + 1 + (first &&& 0x7f).toNat ≤ data.length by omega)
    hmachine' (show 0 < 2 ^ 64 by decide)
  rw [Nat.zero_mul, Nat.zero_add] at hvalue
  by_cases hover : Octet.ofBE ((data.drop (cursor + 1)).take (first &&& 0x7f).toNat) < 2 ^ 64
  swap
  · rw [if_neg hover] at hvalue
    rw [run_bind_of_error hvalue]
    refine .inr ⟨fun n octets h => ?_, rfl⟩
    have hn := (hlong n octets h).2.2.2.2.2.1
    exact hover (hn ▸ h.2.1)
  rw [if_pos hover] at hvalue
  rw [run_bind_of_ok hvalue]
  by_cases hmin : Octet.ofBE ((data.drop (cursor + 1)).take (first &&& 0x7f).toNat) < 128
  · rw [if_pos hmin]
    refine .inr ⟨fun n octets h => ?_, rfl⟩
    have := hlong n octets h
    omega
  rw [if_neg hmin]
  -- The octets of the length, after the first one.
  obtain ⟨octets, hoctets⟩ : ∃ octets,
      (data.drop (cursor + 1)).take (first &&& 0x7f).toNat = lead :: octets := by
    obtain ⟨k, hk⟩ := Nat.exists_eq_succ_of_ne_zero (not_or.1 hcount).1
    obtain ⟨hlt, hget⟩ := List.getElem?_eq_some_iff.1 hlead
    rw [hk, List.drop_eq_getElem_cons hlt, hget, List.take_succ_cons]
    exact ⟨_, rfl⟩
  have hlength : octets.length + 1 = (first &&& 0x7f).toNat := by
    have hlengths := congrArg List.length hoctets
    rw [List.length_take, List.length_drop, List.length_cons] at hlengths
    omega
  rw [hoctets] at hover hmin ⊢
  have hbytes : first :: lead :: octets =
      UInt8.ofNat (128 + (octets.length + 1)) :: lead :: octets := by
    rw [hlength, ← (first_of_length first hfirst).1]
  have hder : DerLength (Octet.ofBE (lead :: octets)) (first :: lead :: octets) := by
    rw [hbytes]
    exact .long hzero (by omega) (not_lt.1 hmin)
  refine .inl ⟨_, first :: lead :: octets, ⟨hder, hover, ?_, ?_⟩, ?_⟩
  · simp only [List.length_cons]
    omega
  · refine ⟨((data.take limit).drop (cursor + 1)).drop (first &&& 0x7f).toNat, ?_⟩
    have htake : ((data.take limit).drop (cursor + 1)).take (first &&& 0x7f).toNat =
        lead :: octets := by
      rw [List.drop_take, List.take_take, min_eq_left (by omega), hoctets]
    rw [hdrop, List.cons_append, ← htake, List.take_append_drop]
  · have hstop : cursor + 1 + (first &&& 0x7f).toNat = cursor + (first :: lead :: octets).length := by
      simp only [List.length_cons]
      omega
    rw [hstop]
    rfl

/-! ## Reading elements -/

theorem DerLength.length_pos {n : ℕ} {octets : List UInt8} (h : DerLength n octets) :
    0 < octets.length := by
  cases h <;> simp

/-- An element is read in one way. -/
theorem IsElement.unique {tag tag' : UInt8} {value value' octets octets' rest rest' : List UInt8}
    (h : IsElement tag value octets) (h' : IsElement tag' value' octets')
    (heq : octets ++ rest = octets' ++ rest') : tag = tag' ∧ value = value' ∧ octets = octets' := by
  obtain ⟨length, hlength, rfl⟩ := h
  obtain ⟨length', hlength', rfl⟩ := h'
  simp only [List.cons_append, List.append_assoc, List.cons.injEq] at heq
  obtain ⟨rfl, heq⟩ := heq
  obtain ⟨hn, rfl⟩ := hlength.unique hlength' heq
  obtain ⟨rfl, -⟩ := List.append_inj (List.append_cancel_left heq) hn
  exact ⟨rfl, rfl, rfl⟩

/-- An element stands at the cursor and ends within the limit. -/
def ElementAt (data : List UInt8) (limit cursor : ℕ) (tag : UInt8) (value octets : List UInt8) :
    Prop :=
  IsElement tag value octets ∧ cursor + octets.length < 2 ^ 64 ∧
    ∃ rest, (data.take limit).drop cursor = octets ++ rest

theorem ElementAt.stop_le {tag : UInt8} {value octets : List UInt8}
    (h : ElementAt data limit cursor tag value octets) : cursor + octets.length ≤ limit := by
  obtain ⟨⟨length, hlength, rfl⟩, -, rest, hrest⟩ := h
  have hlengths := congrArg List.length hrest
  simp only [List.length_drop, List.length_take, List.length_append, List.length_cons] at hlengths ⊢
  omega

/-- The length of an element stands behind its tag. -/
theorem ElementAt.lengthAt {tag : UInt8} {value octets : List UInt8}
    (h : ElementAt data limit cursor tag value octets) :
    ∃ length, LengthAt data limit (cursor + 1) value.length length ∧
      octets = tag :: (length ++ value) := by
  obtain ⟨⟨length, hlength, rfl⟩, hmachine, rest, hrest⟩ := h
  simp only [List.length_cons, List.length_append] at hmachine
  refine ⟨length, ⟨hlength, by omega, by omega, value ++ rest, ?_⟩, rfl⟩
  rw [← List.drop_drop, hrest]
  simp

/-- The element that is read at the cursor. -/
def elementOf (cursor : ℕ) (tag : UInt8) (value octets : List UInt8) : DerElement :=
  ⟨tag, cursor, cursor + (octets.length - value.length), cursor + octets.length⟩

/-- The reader reads the element that stands at the cursor, if one does. -/
theorem run_readDerElementWithLimit (hlimit : limit ≤ data.length) :
    (∃ tag value octets, ElementAt data limit cursor tag value octets ∧
      (readDerElementWithLimit data limit).run cursor =
        .ok (elementOf cursor tag value octets, cursor + octets.length)) ∨
    (∀ tag value octets, ¬ElementAt data limit cursor tag value octets) ∧
      (readDerElementWithLimit data limit).run cursor = .error malformed := by
  rw [readDerElementWithLimit, run_get_bind]
  by_cases hfits : cursor + 2 < 2 ^ 64 ∧ cursor + 2 ≤ limit
  swap
  · have hbad : (!fits cursor 2 limit) = true := by
      rw [Bool.not_eq_true', Bool.eq_false_iff, ne_eq, fits_iff]
      exact hfits
    rw [if_pos hbad]
    refine .inr ⟨fun tag value octets h => ?_, rfl⟩
    have hstop := h.stop_le
    obtain ⟨⟨length, hlength, rfl⟩, hmachine, -⟩ := h
    have hpos := hlength.length_pos
    simp only [List.length_cons, List.length_append] at hstop hmachine
    omega
  have hgood : ¬(!fits cursor 2 limit) = true := by
    rw [Bool.not_eq_true', Bool.eq_false_iff, not_not, fits_iff]
    exact hfits
  obtain ⟨tag, htag⟩ : ∃ tag, data[cursor]? = some tag :=
    ⟨_, List.getElem?_eq_getElem (by omega)⟩
  have hindex : index data cursor = .ok tag := by rw [index, htag, Except.ofOption_some]
  rw [if_neg hgood, run_bind_of_ok (run_lift_ok hindex), run_bind_of_ok (run_advance (by omega))]
  obtain ⟨n, length, hlength, hrun⟩ | ⟨hnone, hrun⟩ :=
    @run_readDerLength data limit (cursor + 1) hlimit (by omega) (by omega)
  swap
  · rw [run_bind_of_error hrun]
    refine .inr ⟨fun tag value octets h => ?_, rfl⟩
    obtain ⟨length, hlength, -⟩ := h.lengthAt
    exact hnone _ _ hlength
  rw [run_bind_of_ok hrun, run_get_bind]
  -- What the element is, if one stands there.
  have hunique : ∀ tag value octets, ElementAt data limit cursor tag value octets →
      cursor + 1 + length.length + n = cursor + octets.length := by
    intro tag value octets h
    obtain ⟨length', hlength', rfl⟩ := h.lengthAt
    obtain ⟨hder, -, -, rest, hrest⟩ := hlength
    obtain ⟨hder', -, -, rest', hrest'⟩ := hlength'
    obtain ⟨rfl, rfl⟩ := hder.unique hder' (hrest.symm.trans hrest')
    simp only [List.length_cons, List.length_append]
    omega
  by_cases hstop : cursor + 1 + length.length + n < 2 ^ 64
  swap
  · have hover : Except.ofOption malformed (checkedAdd (cursor + 1 + length.length) n) =
        .error malformed := by rw [checkedAdd, if_neg hstop, Except.ofOption_none]
    rw [run_bind_of_error (run_lift_error hover)]
    refine .inr ⟨fun tag value octets h => hstop ?_, rfl⟩
    rw [hunique tag value octets h]
    exact h.2.1
  have hadd : Except.ofOption malformed (checkedAdd (cursor + 1 + length.length) n) =
      .ok (cursor + 1 + length.length + n) := by
    rw [checkedAdd, if_pos hstop, Except.ofOption_some]
  rw [run_bind_of_ok (run_lift_ok hadd)]
  by_cases hpast : limit < cursor + 1 + length.length + n
  · rw [if_pos hpast]
    refine .inr ⟨fun tag value octets h => ?_, rfl⟩
    have hsame := hunique tag value octets h
    have hle := h.stop_le
    omega
  rw [if_neg hpast]
  obtain ⟨hder, -, -, rest, hrest⟩ := hlength
  have hvalue : (rest.take n).length = n := by
    have hlengths := congrArg List.length hrest
    simp only [List.length_drop, List.length_take, List.length_append] at hlengths ⊢
    omega
  have hcount : (tag :: (length ++ rest.take n)).length = 1 + length.length + n := by
    simp only [List.length_cons, List.length_append, hvalue]
    omega
  refine .inl ⟨tag, rest.take n, tag :: (length ++ rest.take n), ⟨⟨length, ?_, rfl⟩, ?_, ?_⟩, ?_⟩
  · rw [hvalue]
    exact hder
  · rw [hcount]
    omega
  · refine ⟨rest.drop n, ?_⟩
    rw [drop_take_eq_cons (by omega) htag, hrest]
    simp
  · rw [elementOf, hcount, hvalue, ← Nat.add_assoc, ← Nat.add_assoc]
    have hstart : 1 + length.length + n - n = 1 + length.length := by omega
    rw [hstart, ← Nat.add_assoc]
    rfl

theorem run_of_elementAt {tag : UInt8} {value octets : List UInt8} (hlimit : limit ≤ data.length)
    (h : ElementAt data limit cursor tag value octets) :
    (readDerElementWithLimit data limit).run cursor =
      .ok (elementOf cursor tag value octets, cursor + octets.length) := by
  obtain ⟨tag', value', octets', h', hrun⟩ | ⟨hnone, -⟩ :=
    @run_readDerElementWithLimit data limit cursor hlimit
  · obtain ⟨helement, -, rest, hrest⟩ := h
    obtain ⟨helement', -, rest', hrest'⟩ := h'
    obtain ⟨rfl, rfl, rfl⟩ := helement.unique helement' (hrest.symm.trans hrest')
    exact hrun
  · exact absurd h (hnone _ _ _)

theorem elementAt_of_run {element : DerElement} {next : ℕ} (hlimit : limit ≤ data.length)
    (h : (readDerElementWithLimit data limit).run cursor = .ok (element, next)) :
    ∃ value octets, ElementAt data limit cursor element.tag value octets ∧
      element = elementOf cursor element.tag value octets ∧ next = cursor + octets.length := by
  obtain ⟨tag, value, octets, hat, hrun⟩ | ⟨-, hrun⟩ :=
    @run_readDerElementWithLimit data limit cursor hlimit
  · obtain ⟨rfl, rfl⟩ := Prod.mk.inj (Except.ok.inj (h.symm.trans hrun))
    exact ⟨value, octets, hat, rfl, rfl⟩
  · cases h.symm.trans hrun

theorem malformed_of_run {fault : Fault DaneError} (hlimit : limit ≤ data.length)
    (h : (readDerElementWithLimit data limit).run cursor = .error fault) : fault = malformed := by
  obtain ⟨tag, value, octets, -, hrun⟩ | ⟨-, hrun⟩ :=
    @run_readDerElementWithLimit data limit cursor hlimit
  · cases h.symm.trans hrun
  · exact Except.error.inj (h.symm.trans hrun)

/-! ## The key among the fields -/

theorem elementAt_of_drop {tag : UInt8} {value octets rest : List UInt8} (hmachine : limit < 2 ^ 64)
    (helement : IsElement tag value octets) (hrest : (data.take limit).drop cursor = octets ++ rest) :
    ElementAt data limit cursor tag value octets := by
  refine ⟨helement, ?_, rest, hrest⟩
  obtain ⟨length, -, rfl⟩ := helement
  have hlengths := congrArg List.length hrest
  simp only [List.length_drop, List.length_take, List.length_append, List.length_cons] at hlengths ⊢
  omega

theorem drop_add {l front back : List UInt8} (h : l.drop cursor = front ++ back) :
    l.drop (cursor + front.length) = back := by
  rw [← List.drop_drop, h, List.drop_left]

theorem run_skipDerElement {tag : UInt8} {value octets : List UInt8} (hlimit : limit ≤ data.length)
    (h : ElementAt data limit cursor tag value octets) :
    (skipDerElement data limit).run cursor = .ok ((), cursor + octets.length) := by
  rw [skipDerElement, run_bind_of_ok (run_of_elementAt hlimit h)]
  rfl

theorem elementAt_of_skipDerElement {next : ℕ} (hlimit : limit ≤ data.length)
    (h : (skipDerElement data limit).run cursor = .ok ((), next)) :
    ∃ tag value octets, ElementAt data limit cursor tag value octets ∧
      next = cursor + octets.length := by
  rcases hrun : (readDerElementWithLimit data limit).run cursor with fault | ⟨element, stop⟩
  · rw [skipDerElement, run_bind_of_error hrun] at h
    cases h
  · rw [skipDerElement, run_bind_of_ok hrun] at h
    cases h
    obtain ⟨value, octets, hat, -, hnext⟩ := elementAt_of_run hlimit hrun
    exact ⟨_, value, octets, hat, hnext⟩

/-- Fields that stand at the cursor are skipped. -/
theorem run_forM_skip {rounds : List ℕ} {fields : List (List UInt8)} {rest : List UInt8}
    (hlimit : limit ≤ data.length) (hmachine : limit < 2 ^ 64)
    (hfields : ∀ field ∈ fields, ∃ tag value, IsElement tag value field)
    (hcount : fields.length = rounds.length)
    (hrest : (data.take limit).drop cursor = fields.flatten ++ rest) :
    (rounds.forM fun _ => skipDerElement data limit).run cursor =
      .ok ((), cursor + fields.flatten.length) := by
  induction fields generalizing rounds cursor with
  | nil =>
    obtain rfl := List.length_eq_zero_iff.1 hcount.symm
    rfl
  | cons field fields ih =>
    rw [List.forall_mem_cons] at hfields
    obtain ⟨⟨tag, value, helement⟩, hfields⟩ := hfields
    rw [List.flatten_cons, List.append_assoc] at hrest
    have hskip := run_skipDerElement hlimit (elementAt_of_drop hmachine helement hrest)
    cases rounds with
    | nil => cases hcount
    | cons round rounds =>
      have hmore := ih hfields (Nat.succ.inj hcount) (drop_add hrest)
      rw [List.flatten_cons, List.length_append, ← Nat.add_assoc]
      exact (run_bind_of_ok hskip).trans hmore

/-- What is skipped are fields. -/
theorem fields_of_run_forM {rounds : List ℕ} {next : ℕ} (hlimit : limit ≤ data.length)
    (h : (rounds.forM fun _ => skipDerElement data limit).run cursor = .ok ((), next)) :
    ∃ fields : List (List UInt8), fields.length = rounds.length ∧
      (∀ field ∈ fields, ∃ tag value, IsElement tag value field) ∧
      (data.take limit).drop cursor = fields.flatten ++ (data.take limit).drop next := by
  induction rounds generalizing cursor with
  | nil =>
    cases h
    exact ⟨[], rfl, by simp, rfl⟩
  | cons round rounds ih =>
    rcases hskip : (skipDerElement data limit).run cursor with fault | ⟨⟨⟩, middle⟩
    · cases (run_bind_of_error hskip).symm.trans h
    · obtain ⟨fields, hcount, hfields, hrest⟩ := ih ((run_bind_of_ok hskip).symm.trans h)
      obtain ⟨tag, value, octets, ⟨helement, -, rest, hat⟩, rfl⟩ :=
        elementAt_of_skipDerElement hlimit hskip
      refine ⟨octets :: fields, congrArg (· + 1) hcount,
        List.forall_mem_cons.2 ⟨⟨tag, value, helement⟩, hfields⟩, ?_⟩
      rw [List.flatten_cons, List.append_assoc, ← hrest, hat, drop_add hat]

/-- What `readSpki` does after the version. -/
def readAfterVersion (certDer : List UInt8) (limit : ℕ) : DerReader DerElement := do
  (List.range 5).forM fun _ => skipDerElement certDer limit
  if limit ≤ (← get) then throw (.failed .missingSubjectPublicKeyInfo)
  let spki ← readDerElementWithLimit certDer limit
  if spki.tag ≠ tagSequence then throw (.failed .missingSubjectPublicKeyInfo)
  return spki

theorem run_readAfterVersion {spki : List UInt8} (hlimit : limit ≤ data.length)
    (hmachine : limit < 2 ^ 64) (h : IsKeyAfterFields ((data.take limit).drop cursor) spki) :
    ∃ start value, ElementAt data limit start tagSequence value spki ∧
      (readAfterVersion data limit).run cursor =
        .ok (elementOf start tagSequence value spki, start + spki.length) := by
  obtain ⟨fields, more, hrest, hcount, hfields, value, helement⟩ := h
  have hskip := @run_forM_skip data limit cursor (List.range 5) _ _ hlimit hmachine hfields hcount
    hrest
  have hat := elementAt_of_drop hmachine helement (drop_add hrest)
  have hinside : ¬limit ≤ cursor + fields.flatten.length := by
    have hstop := hat.stop_le
    obtain ⟨length, -, rfl⟩ := helement
    rw [List.length_cons] at hstop
    omega
  refine ⟨_, value, hat, ?_⟩
  rw [readAfterVersion, run_bind_of_ok hskip, run_get_bind, if_neg hinside,
    run_bind_of_ok (run_of_elementAt hlimit hat)]
  rfl

theorem isKeyAfterFields_of_run {element : DerElement} {next : ℕ} (hlimit : limit ≤ data.length)
    (h : (readAfterVersion data limit).run cursor = .ok (element, next)) :
    ∃ start value spki, ElementAt data limit start tagSequence value spki ∧
      element = elementOf start tagSequence value spki ∧
      IsKeyAfterFields ((data.take limit).drop cursor) spki := by
  rw [readAfterVersion] at h
  rcases hskip : ((List.range 5).forM fun _ => skipDerElement data limit).run cursor with
    fault | ⟨⟨⟩, start⟩
  · rw [run_bind_of_error hskip] at h
    cases h
  rw [run_bind_of_ok hskip, run_get_bind] at h
  by_cases hinside : limit ≤ start
  · rw [if_pos hinside] at h
    cases h
  rw [if_neg hinside] at h
  rcases hread : (readDerElementWithLimit data limit).run start with fault | ⟨element', stop⟩
  · rw [run_bind_of_error hread] at h
    cases h
  rw [run_bind_of_ok hread] at h
  by_cases htag : element'.tag ≠ tagSequence
  · rw [if_pos htag] at h
    cases h
  rw [if_neg htag] at h
  cases h
  obtain ⟨fields, hcount, hfields, hrest⟩ := fields_of_run_forM hlimit hskip
  obtain ⟨value, spki, hat, helement, -⟩ := elementAt_of_run hlimit hread
  rw [not_not.1 htag] at hat helement
  obtain ⟨hspki, -, more, hmore⟩ := id hat
  exact ⟨start, value, spki, hat, helement, fields, more, by rw [hrest, hmore], hcount, hfields,
    value, hspki⟩

theorem peekDerTag_eq (hlimit : limit ≤ data.length) (hcursor : cursor ≤ limit) :
    peekDerTag data cursor limit = .ok ((data.take limit).drop cursor).head? := by
  rw [peekDerTag, List.head?_drop]
  rcases hcursor.lt_or_eq with hlt | rfl
  · rw [if_neg hlt.ne, if_pos hlt, List.getElem?_take_of_lt hlt, index,
      List.getElem?_eq_getElem (hlt.trans_le hlimit)]
    rfl
  · rw [if_pos rfl, List.getElem?_eq_none (List.length_take_le _ _)]

theorem readSpki_eq : readSpki data limit = (do
    if (← peekDerTag data (← get) limit) = some tagExplicitVersion then
      skipDerElement data limit
    readAfterVersion data limit) := rfl

theorem run_readSpki {spki : List UInt8} (hlimit : limit ≤ data.length) (hcursor : cursor ≤ limit)
    (hmachine : limit < 2 ^ 64) (h : IsTbsCertificate ((data.take limit).drop cursor) spki) :
    ∃ start value, ElementAt data limit start tagSequence value spki ∧
      (readSpki data limit).run cursor =
        .ok (elementOf start tagSequence value spki, start + spki.length) := by
  rw [readSpki_eq, run_get_bind, run_bind_of_ok (run_lift_ok (peekDerTag_eq hlimit hcursor))]
  rcases h with ⟨hnone, hkey⟩ | ⟨version, rest, hrest, ⟨value, hversion⟩, hkey⟩
  · rw [if_neg hnone]
    exact run_readAfterVersion hlimit hmachine hkey
  · have hhead : ((data.take limit).drop cursor).head? = some tagExplicitVersion := by
      obtain ⟨length, -, rfl⟩ := hversion
      rw [hrest]
      rfl
    rw [if_pos hhead,
      run_bind_of_ok (run_skipDerElement hlimit (elementAt_of_drop hmachine hversion hrest))]
    rw [← drop_add hrest] at hkey
    exact run_readAfterVersion hlimit hmachine hkey

theorem isTbsCertificate_of_run {element : DerElement} {next : ℕ} (hlimit : limit ≤ data.length)
    (hcursor : cursor ≤ limit) (h : (readSpki data limit).run cursor = .ok (element, next)) :
    ∃ start value spki, ElementAt data limit start tagSequence value spki ∧
      element = elementOf start tagSequence value spki ∧
      IsTbsCertificate ((data.take limit).drop cursor) spki := by
  rw [readSpki_eq, run_get_bind,
    run_bind_of_ok (run_lift_ok (peekDerTag_eq hlimit hcursor))] at h
  by_cases hhead : ((data.take limit).drop cursor).head? = some tagExplicitVersion
  · rw [if_pos hhead] at h
    rcases hskip : (skipDerElement data limit).run cursor with fault | ⟨⟨⟩, middle⟩
    · rw [run_bind_of_error hskip] at h
      cases h
    rw [run_bind_of_ok hskip] at h
    obtain ⟨tag, version, octets, ⟨hversion, -, rest, hrest⟩, rfl⟩ :=
      elementAt_of_skipDerElement hlimit hskip
    obtain ⟨start, value, spki, hat, helement, hkey⟩ := isKeyAfterFields_of_run hlimit h
    rw [drop_add hrest] at hkey
    obtain rfl : tag = tagExplicitVersion := by
      obtain ⟨length, -, rfl⟩ := hversion
      rw [hrest] at hhead
      exact Option.some.inj hhead
    exact ⟨start, value, spki, hat, helement, .inr ⟨octets, rest, hrest, ⟨version, hversion⟩, hkey⟩⟩
  · rw [if_neg hhead] at h
    obtain ⟨start, value, spki, hat, helement, hkey⟩ := isKeyAfterFields_of_run hlimit h
    exact ⟨start, value, spki, hat, helement, .inl ⟨hhead, hkey⟩⟩

/-! ## The key of a certificate -/

/-- The octets of an element are cut out. -/
theorem take_of_elementAt {tag : UInt8} {value octets : List UInt8}
    (h : ElementAt data limit cursor tag value octets) :
    (data.take (cursor + octets.length)).drop cursor = octets := by
  have hstop := h.stop_le
  obtain ⟨-, -, rest, hrest⟩ := h
  have hcut : ((data.take limit).drop cursor).take octets.length = octets := by
    rw [hrest, List.take_left]
  rwa [List.take_drop, List.take_take, min_eq_left hstop] at hcut

theorem slice_of_elementAt {tag : UInt8} {value octets : List UInt8} (hlimit : limit ≤ data.length)
    (h : ElementAt data limit cursor tag value octets) :
    slice data cursor (cursor + octets.length) = .ok octets := by
  rw [slice, if_pos ⟨Nat.le_add_right _ _, h.stop_le.trans hlimit⟩, take_of_elementAt h]

/-- The contents of an element stand behind its tag and its length. -/
theorem drop_valueStart {tag : UInt8} {value octets rest : List UInt8}
    (helement : IsElement tag value octets) (hrest : (data.take limit).drop cursor = octets ++ rest) :
    (data.take limit).drop (elementOf cursor tag value octets).valueStart = value ++ rest := by
  obtain ⟨length, -, rfl⟩ := helement
  have hcount : (tag :: (length ++ value)).length - value.length = (tag :: length).length := by
    simp only [List.length_cons, List.length_append]
    omega
  rw [elementOf, hcount]
  refine drop_add ?_
  rw [hrest]
  simp

/-- Up to its end there are the contents of an element behind its length. -/
theorem contents_of_elementAt {tag : UInt8} {value octets : List UInt8}
    (h : ElementAt data limit cursor tag value octets) :
    (data.take (cursor + octets.length)).drop (elementOf cursor tag value octets).valueStart =
      value := by
  have hvalue := @drop_valueStart data (cursor + octets.length) cursor tag value octets [] h.1
    ((take_of_elementAt h).trans (List.append_nil _).symm)
  rwa [List.append_nil] at hvalue

theorem valueStart_le {tag : UInt8} {value octets : List UInt8} :
    (elementOf cursor tag value octets).valueStart ≤ cursor + octets.length :=
  Nat.add_le_add_left (Nat.sub_le _ _) _

end Readers

/-- What is extracted is the key of a certificate. -/
theorem extractSpkiDer_eq_ok {certDer spki : List UInt8} :
    extractSpkiDer certDer = .ok spki ↔ IsCertificate certDer spki := by
  have hwhole : (certDer.take certDer.length).drop 0 = certDer ++ [] := by simp
  constructor
  · intro h
    obtain ⟨⟨certificate, cursor⟩, hcert, h⟩ := Except.bind_eq_ok.1 h
    obtain ⟨hcheck, h⟩ := Except.throw_unless.1 h
    obtain ⟨⟨tbsCertificate, _⟩, htbs, h⟩ := Except.bind_eq_ok.1 h
    obtain ⟨hcheck', h⟩ := Except.throw_unless.1 h
    obtain ⟨⟨element, _⟩, hspki, h⟩ := Except.bind_eq_ok.1 h
    dsimp only at h hcheck hcheck' htbs hspki
    -- The outer element is all there is.
    obtain ⟨value, octets, hat, hcertificate, hcursor⟩ := elementAt_of_run le_rfl hcert
    obtain ⟨htag, hend⟩ := not_or.1 hcheck
    rw [not_not.1 htag] at hat hcertificate
    rw [hcursor] at hend
    obtain ⟨helement, hsize, rest, hrest⟩ := hat
    obtain rfl : octets = certDer := by
      have happend := hwhole.symm.trans hrest
      rw [List.append_nil] at happend
      obtain rfl : rest = [] := by
        have hlengths := congrArg List.length happend
        rw [List.length_append] at hlengths
        exact List.length_eq_zero_iff.1 (by omega)
      rw [happend, List.append_nil]
    -- The inner element, and the key in it.
    obtain ⟨contents, tbs, hat', htbsCertificate, -⟩ := elementAt_of_run le_rfl htbs
    rw [not_not.1 (not_or.1 hcheck').1] at hat' htbsCertificate
    obtain ⟨start, keyValue, spki', hatKey, hkey, htbsContents⟩ := isTbsCertificate_of_run
      (htbsCertificate ▸ hat'.stop_le) (htbsCertificate ▸ valueStart_le) hspki
    rw [htbsCertificate] at htbsContents hatKey
    rw [show (elementOf certificate.valueStart tagSequence contents tbs).stop =
      certificate.valueStart + tbs.length from rfl, contents_of_elementAt hat'] at htbsContents
    rw [hkey] at h
    obtain rfl := Except.ok.inj ((slice_of_elementAt hat'.stop_le hatKey).symm.trans h)
    have hvalue := drop_valueStart helement hwhole
    rw [← hcertificate, List.append_nil] at hvalue
    obtain ⟨htbsElement, -, rest', hrest'⟩ := hat'
    refine ⟨by omega, tbs, contents, rest', ?_, htbsElement, htbsContents⟩
    rw [← hrest', hvalue]
    exact helement
  · rintro ⟨hsize, tbs, contents, rest, hcert, htbs, hcontents⟩
    have hat := elementAt_of_drop hsize hcert hwhole
    have hrest := drop_valueStart hcert hwhole
    rw [List.append_nil] at hrest
    have hat' := elementAt_of_drop hsize htbs hrest
    have hmachine := hat'.2.1
    rw [← contents_of_elementAt hat'] at hcontents
    obtain ⟨start, value, hatKey, hkey⟩ := run_readSpki hat'.stop_le valueStart_le hmachine hcontents
    have hwhole' := run_of_elementAt le_rfl hat
    rw [Nat.zero_add] at hwhole'
    rw [extractSpkiDer, readDerElement, hwhole', Except.ok_bind]
    dsimp only
    rw [if_neg (by simp [elementOf]), run_of_elementAt le_rfl hat', Except.ok_bind]
    dsimp only
    have hstop := hat'.stop_le
    rw [if_neg (by simp [elementOf] at hstop ⊢; omega)]
    change ((readSpki certDer (_ + tbs.length)).run _ >>= _) = _
    rw [hkey, Except.ok_bind]
    exact slice_of_elementAt hstop hatKey

/-- The readers do not panic in the data. -/
theorem readSpki_ne_panic {data : List UInt8} {limit cursor : ℕ} (hlimit : limit ≤ data.length) :
    (readSpki data limit).run cursor ≠ .error .panic := by
  have hread : StateT.Fails (· ≠ .panic) (readDerElementWithLimit data limit) := by
    intro cursor fault h
    rw [malformed_of_run hlimit h]
    rintro ⟨⟩
  have hskip : StateT.Fails (· ≠ .panic) (skipDerElement data limit) :=
    .bind hread fun _ => .pure _
  have hmissing : (Fault.failed DaneError.missingSubjectPublicKeyInfo) ≠ .panic := by rintro ⟨⟩
  have hrest : StateT.Fails (· ≠ .panic) (readAfterVersion data limit) := by
    refine .bind (.forM (fun _ => hskip) _) fun _ => .bind .get fun cursor => ?_
    refine .ite (.throw_bind hmissing) <| .bind hread fun spki => ?_
    exact .ite (.throw_bind hmissing) (.pure _)
  have hpeek (cursor : ℕ) (fault : Fault DaneError) (h : peekDerTag data cursor limit = .error fault) :
      fault ≠ .panic := by
    rw [peekDerTag] at h
    split_ifs at h with heq hlt
    · rw [index, List.getElem?_eq_getElem (hlt.trans_le hlimit)] at h
      cases h
    · rw [← Except.error.inj h]
      rintro ⟨⟩
  intro h
  have hall : StateT.Fails (· ≠ .panic) (readSpki data limit) := by
    rw [readSpki_eq]
    refine .bind .get fun cursor => .bind (.lift (hpeek cursor)) fun tag => ?_
    exact .ite (.bind hskip fun _ => hrest) hrest
  exact hall cursor _ h rfl

theorem extractSpkiDer_ne_panic (certDer : List UInt8) : extractSpkiDer certDer ≠ .error .panic := by
  intro h
  rcases Except.bind_eq_error.1 h with h | ⟨⟨certificate, cursor⟩, -, h⟩
  · cases malformed_of_run le_rfl h
  dsimp only at h
  split_ifs at h
  · cases h
  rcases Except.bind_eq_error.1 h with h | ⟨⟨tbsCertificate, _⟩, htbs, h⟩
  · cases malformed_of_run le_rfl h
  dsimp only at h
  split_ifs at h
  · cases h
  -- The inner element ends in the data, and so does the key.
  obtain ⟨contents, tbs, hat, htbsCertificate, -⟩ := elementAt_of_run le_rfl htbs
  have hstop : tbsCertificate.stop ≤ certDer.length := htbsCertificate ▸ hat.stop_le
  have hstart : tbsCertificate.valueStart ≤ tbsCertificate.stop := htbsCertificate ▸ valueStart_le
  rcases Except.bind_eq_error.1 h with h | ⟨⟨spki, _⟩, hspki, h⟩
  · exact readSpki_ne_panic hstop h
  · obtain ⟨start, value, octets, hatKey, rfl, -⟩ := isTbsCertificate_of_run hstop hstart hspki
    cases (slice_of_elementAt hstop hatKey).symm.trans h

/-- The key of a certificate is extracted, from any other octets at most an element among those of
    a `tbsCertificate`, and never is an octet missing or a number too large. -/
theorem extractSpkiDer_spec (certDer : List UInt8) :
    (∀ spki, IsCertificate certDer spki → extractSpkiDer certDer = .ok spki) ∧
    (∀ spki, extractSpkiDer certDer = .ok spki → ∃ tbs contents rest value,
      IsElement tagSequence (tbs ++ rest) certDer ∧ IsElement tagSequence contents tbs ∧
        spki <:+: contents ∧ IsElement tagSequence value spki) ∧
    extractSpkiDer certDer ≠ .error .panic := by
  refine ⟨fun spki => extractSpkiDer_eq_ok.2, fun spki h => ?_, extractSpkiDer_ne_panic certDer⟩
  obtain ⟨-, tbs, contents, rest, hcert, htbs, hcontents⟩ := extractSpkiDer_eq_ok.1 h
  rcases hcontents with ⟨-, fields, more, hkey, -, -, value, hspki⟩ |
    ⟨version, after, hversion, -, fields, more, hkey, -, -, value, hspki⟩
  · exact ⟨tbs, contents, rest, value, hcert, htbs, ⟨fields.flatten, more, by simp [hkey]⟩, hspki⟩
  · exact ⟨tbs, contents, rest, value, hcert, htbs,
      ⟨version ++ fields.flatten, more, by simp [hversion, hkey]⟩, hspki⟩

theorem isElement_of_short {tag octet : UInt8} {value : List UInt8} (hlt : octet.toNat < 128)
    (hlength : value.length = octet.toNat) : IsElement tag value (tag :: octet :: value) :=
  ⟨[octet], hlength ▸ .short hlt, rfl⟩

/-- A certificate with the explicit version, and as little else as there can be. -/
theorem extractSpkiDer_of_smallest :
    extractSpkiDer [0x30, 16, 0x30, 14, 0xa0, 0, 2, 0, 2, 0, 2, 0, 2, 0, 2, 0, 0x30, 0] =
      .ok [0x30, 0] := by
  have hempty (tag : UInt8) : IsElement tag [] [tag, 0] :=
    @isElement_of_short tag 0 [] (by decide) rfl
  have htbs := @isElement_of_short 0x30 14 [0xa0, 0, 2, 0, 2, 0, 2, 0, 2, 0, 2, 0, 0x30, 0]
    (by decide) rfl
  have hcert := @isElement_of_short 0x30 16
    [0x30, 14, 0xa0, 0, 2, 0, 2, 0, 2, 0, 2, 0, 2, 0, 0x30, 0] (by decide) rfl
  rw [← List.append_nil (_ :: _ :: 0xa0 :: _)] at hcert
  refine (extractSpkiDer_spec _).1 _ ⟨by decide, _, _, [], hcert, htbs,
    .inr ⟨[0xa0, 0], _, rfl, ⟨[], hempty 0xa0⟩, List.replicate 5 [2, 0], [], rfl, rfl, ?_, [],
      hempty 0x30⟩⟩
  intro field hfield
  rw [List.eq_of_mem_replicate hfield]
  exact ⟨2, [], hempty 2⟩

end Hns
