import Hns.Core.Utf8
import Hns.Dns.Resource
import Hns.Dnssec.Denial
import Hns.Lib.Regroup

/-!
# Hashes in owner names

The label of an NSEC3 record is the hash of a name, in digits of five bits. The
digits of some octets have their bits, and zeros up to the end of the last digit
(`exists_base32hexNopad`); they are read as the octets whose bits they have, with
less than eight zeros behind (`decodeBase32hexNopad_eq_some`). So a hash is read
as it was written, in any letter case.

Up to seven zeros may be left where no more than four were written: a digit too
many is accepted when it is a zero (`IsSurplus`). These are the texts that are
read but that nothing writes, and the only way in which two labels are of one
hash (`decode_base32hex_iff`).
-/

namespace Hns

open Bits Resource

/-! ## Digits -/

/-- The digit of an octet, in either letter case. -/
def base32hexValue (byte : UInt8) : Option ℕ :=
  if 0x30 ≤ byte ∧ byte ≤ 0x39 then some (byte.toNat - 0x30)
  else if 0x61 ≤ byte ∧ byte ≤ 0x76 then some (byte.toNat - 0x61 + 10)
  else if 0x41 ≤ byte ∧ byte ≤ 0x56 then some (byte.toNat - 0x41 + 10)
  else none

/-- The octet of a digit. -/
def base32hexByte (index : ℕ) : UInt8 :=
  if index < 10 then UInt8.ofNat (0x30 + index) else UInt8.ofNat (0x61 + (index - 10))

/-- Every digit is read as what it was written for. -/
theorem base32hexByte_spec : ∀ i < 2 ^ 5,
    String.utf8EncodeChar (base32hexDigit i) = [base32hexByte i] ∧
      base32hexValue (base32hexByte i) = some i := by
  decide

/-- Octets that are read as digits are those of the digits, up to letter case. -/
theorem base32hexValue_spec : ∀ byte : UInt8,
    base32hexValue (toAsciiLowercase byte) = base32hexValue byte ∧
      (base32hexValue byte).all fun value =>
        value < 32 ∧ toAsciiLowercase byte = base32hexByte value :=
  UInt8.forall_of_lt (by decide +kernel)

theorem base32hexValue_eq_some {byte : UInt8} {value : ℕ} (h : base32hexValue byte = some value) :
    value < 2 ^ 5 ∧ toAsciiLowercase byte = base32hexByte value := by
  simpa [h] using (base32hexValue_spec byte).2

theorem of_mod_32 (n : ℕ) : of 5 (n % 32) = of 5 n := of_mod (Nat.le_refl 5) n

/-- The digits that are written have the first bits of the buffer, and less than five are left. -/
theorem base32hexDigits_spec {buffer count bits : ℕ} (h : bits ≤ count) :
    (base32hexDigits buffer count bits).2 < 5 ∧ ∃ indices : List ℕ, (∀ i ∈ indices, i < 2 ^ 5) ∧
      (base32hexDigits buffer count bits).1 = indices.map base32hexDigit ∧
      of bits buffer = spread 5 indices ++ of (base32hexDigits buffer count bits).2 buffer := by
  induction count generalizing bits with
  | zero =>
    obtain rfl : bits = 0 := Nat.le_zero.1 h
    exact ⟨Nat.succ_pos 4, [], by simp, rfl, rfl⟩
  | succ count ih =>
    rw [base32hexDigits]
    split
    case isTrue hbits =>
      have hrest : bits - 5 ≤ count := by omega
      obtain ⟨hleft, indices, hindices, hdigits, hof⟩ := ih hrest
      refine ⟨hleft, (buffer / 2 ^ (bits - 5) % 32) :: indices, ?_, ?_, ?_⟩
      · exact List.forall_mem_cons.2 ⟨Nat.mod_lt _ (by decide), hindices⟩
      · rw [List.map_cons, ← hdigits]
      · have hsplit : bits = 5 + (bits - 5) := by omega
        rw [spread_cons, List.append_assoc, ← hof, of_mod_32]
        nth_rewrite 1 [hsplit]
        exact of_add 5 (bits - 5) buffer
    case isFalse hbits => exact ⟨not_le.1 hbits, [], by simp, rfl, rfl⟩

/-- The bits of what is still to be written are those of the digits, but for zeros at the end. -/
theorem base32hexLoop_spec (input : List UInt8) {buffer bits : ℕ} (h : bits < 5) :
    ∃ indices : List ℕ, (∀ i ∈ indices, i < 2 ^ 5) ∧
      base32hexLoop input buffer bits = indices.map base32hexDigit ∧
      Padded 5 (of bits buffer ++ spread 8 (input.map UInt8.toNat)) (spread 5 indices) := by
  induction input generalizing buffer bits with
  | nil =>
    rw [base32hexLoop]
    split
    case isTrue hpos =>
      refine ⟨[buffer * 2 ^ (5 - bits) % 32], by simpa using Nat.mod_lt _ (by decide), rfl,
        5 - bits, by omega, ?_⟩
      have hof := of_mul_add bits buffer (Nat.two_pow_pos (5 - bits))
      rw [Nat.add_zero, of_zero_right, Nat.add_sub_cancel' h.le] at hof
      rw [spread_cons, of_mod_32, hof]
      simp
    case isFalse hpos =>
      obtain rfl : bits = 0 := Nat.eq_zero_of_not_pos hpos
      exact ⟨[], by simp, rfl, 0, by decide, rfl⟩
  | cons byte input ih =>
    rw [base32hexLoop]
    set buffer' := (buffer * 256 + byte.toNat) % 2 ^ 32 with hbuffer
    obtain ⟨hleft, front, hfront, hdigits, hof⟩ :=
      @base32hexDigits_spec buffer' _ _ (Nat.le_refl (bits + 8))
    obtain ⟨back, hback, hrest, hpadded⟩ := @ih buffer' _ hleft
    refine ⟨front ++ back, List.forall_mem_append.2 ⟨hfront, hback⟩, ?_, ?_⟩
    · rw [List.map_append, ← hdigits, ← hrest]
    · have hbyte : of (bits + 8) buffer' = of bits buffer ++ of 8 byte.toNat := by
        rw [hbuffer, of_mod (by omega)]
        exact of_mul_add bits buffer byte.toNat_lt
      rw [List.map_cons, spread_cons, ← List.append_assoc, ← hbyte, hof, spread_append,
        List.append_assoc]
      exact hpadded.append _

/-- What is written of some octets. -/
theorem exists_base32hexNopad (input : List UInt8) :
    ∃ indices : List ℕ, (∀ i ∈ indices, i < 2 ^ 5) ∧
      base32hexNopad input = indices.map base32hexDigit ∧
      Padded 5 (spread 8 (input.map UInt8.toNat)) (spread 5 indices) :=
  base32hexLoop_spec input (by decide)

theorem decodeBase32hexLoop_cons (byte : UInt8) (input : List UInt8) (buffer bits : ℕ) :
    decodeBase32hexLoop (byte :: input) buffer bits = (base32hexValue byte).bind fun value =>
      if 8 ≤ bits + 5 then
        (decodeBase32hexLoop input ((buffer * 32 + value) % 2 ^ 32) (bits + 5 - 8)).map fun out =>
          UInt8.ofNat ((buffer * 32 + value) % 2 ^ 32 / 2 ^ (bits + 5 - 8)) :: out
      else decodeBase32hexLoop input ((buffer * 32 + value) % 2 ^ 32) (bits + 5) := by
  rw [decodeBase32hexLoop, base32hexValue]
  simp only [Option.map_eq_bind]
  split_ifs <;> rfl

/-- The octets of a number are those of its last eight bits. -/
theorem of_ofNat (n : ℕ) : of 8 (UInt8.ofNat n).toNat = of 8 n := by
  rw [UInt8.toNat_ofNat']
  exact of_mod (Nat.le_refl 8) n

/-- Octets of which the first one is at hand. -/
theorem padded_octets_append {n : ℕ} {out : List UInt8} {padded : List Bool} :
    Padded 8 (spread 8 (out.map UInt8.toNat)) (of 8 n ++ padded) ↔
      ∃ out', Padded 8 (spread 8 (out'.map UInt8.toNat)) padded ∧ UInt8.ofNat n :: out' = out := by
  cases out with
  | nil =>
    refine iff_of_false ?_ (by simp)
    rintro ⟨count, hlt, heq⟩
    have hlen := congrArg List.length heq
    simp only [List.length_append, length_of, List.map_nil, spread_nil, List.nil_append,
      List.length_replicate] at hlen
    omega
  | cons octet out =>
    have hoctet : of 8 n = of 8 octet.toNat ↔ UInt8.ofNat n = octet := by
      rw [← of_ofNat]
      refine ⟨fun heq => ?_, fun heq => by rw [heq]⟩
      exact UInt8.toNat_inj.1 (of_inj (UInt8.toNat_lt _) (UInt8.toNat_lt _) heq)
    rw [List.map_cons, spread_cons, Padded.append_iff (by rw [length_of, length_of]), hoctet]
    constructor
    · rintro ⟨rfl, hpadded⟩
      exact ⟨out, hpadded, rfl⟩
    · rintro ⟨out', hpadded, heq⟩
      obtain ⟨hhead, rfl⟩ := List.cons_eq_cons.1 heq
      exact ⟨hhead, hpadded⟩

/-- At the end of the text, what is left are zeros. -/
theorem decodeBase32hexLoop_nil_eq_some {buffer bits : ℕ} {out : List UInt8} (h : bits < 8) :
    decodeBase32hexLoop [] buffer bits = some out ↔
      Padded 8 (spread 8 (out.map UInt8.toNat)) (of bits buffer) := by
  have hzero : (0 < bits ∧ buffer % 2 ^ bits ≠ 0) ↔ of bits buffer ≠ List.replicate bits false := by
    rw [ne_eq, ne_eq, of_eq_replicate, and_iff_right_iff_imp]
    intro hne
    refine Nat.pos_of_ne_zero ?_
    rintro rfl
    exact hne (Nat.mod_one _)
  rw [decodeBase32hexLoop, if_congr hzero rfl rfl]
  constructor
  · intro hout
    split at hout
    case isTrue => exact absurd hout (by simp)
    case isFalse hof =>
      obtain rfl : [] = out := Option.some_inj.1 hout
      exact ⟨bits, h, not_not.1 hof⟩
  · rintro ⟨count, hlt, hof⟩
    have hlen := congrArg List.length hof
    simp only [length_of, List.length_append, length_spread, List.length_map,
      List.length_replicate] at hlen
    obtain rfl : out = [] := List.length_eq_zero_iff.1 (by omega)
    obtain rfl : bits = count := by simpa using hlen
    have hall : ¬of bits buffer ≠ List.replicate bits false := not_not.2 hof
    rw [if_neg hall]

theorem exists_cons_eq_map_some {α : Type*} {a : α} {l : List (Option α)} {p : List α → Prop} :
    (∃ as, some a :: l = as.map some ∧ p as) ↔ ∃ as, l = as.map some ∧ p (a :: as) := by
  constructor
  · rintro ⟨as, has, hp⟩
    cases as with
    | nil => exact absurd has (List.cons_ne_nil _ _)
    | cons a' as =>
      obtain ⟨hhead, htail⟩ := List.cons_eq_cons.1 has
      obtain rfl : a = a' := Option.some_inj.1 hhead
      exact ⟨as, htail, hp⟩
  · rintro ⟨as, has, hp⟩
    exact ⟨a :: as, by rw [List.map_cons, has], hp⟩

/-- What is read has the bits of the digits, but for zeros at the end. -/
theorem decodeBase32hexLoop_eq_some {input : List UInt8} {buffer bits : ℕ} {out : List UInt8}
    (h : bits < 8) :
    decodeBase32hexLoop input buffer bits = some out ↔
      ∃ values : List ℕ, input.map base32hexValue = values.map some ∧
        Padded 8 (spread 8 (out.map UInt8.toNat)) (of bits buffer ++ spread 5 values) := by
  induction input generalizing buffer bits out with
  | nil =>
    have hvalues (values : List ℕ) : ([] : List UInt8).map base32hexValue = values.map some ↔
        values = [] := by rw [List.map_nil, eq_comm, List.map_eq_nil_iff]
    simp only [hvalues, exists_eq_left, spread_nil, List.append_nil]
    exact decodeBase32hexLoop_nil_eq_some h
  | cons byte input ih =>
    rw [decodeBase32hexLoop_cons, List.map_cons]
    cases hvalue : base32hexValue byte with
    | none =>
      refine iff_of_false (by simp) ?_
      rintro ⟨values, hvalues, -⟩
      cases values with
      | nil => exact absurd hvalues (List.cons_ne_nil _ _)
      | cons value values => exact absurd (List.cons_eq_cons.1 hvalues).1 (by simp)
    | some value =>
      set buffer' := (buffer * 32 + value) % 2 ^ 32 with hbuffer
      have hof : of bits buffer ++ of 5 value = of (bits + 5) buffer' := by
        rw [hbuffer, of_mod (by omega)]
        exact (of_mul_add bits buffer (base32hexValue_eq_some hvalue).1).symm
      have hread (values : List ℕ) : of bits buffer ++ spread 5 (value :: values) =
          of (bits + 5) buffer' ++ spread 5 values := by
        rw [spread_cons, ← List.append_assoc, hof]
      rw [exists_cons_eq_map_some, Option.bind_some]
      simp only [hread]
      split
      case isFalse hbits => exact ih (not_le.1 hbits)
      case isTrue hbits =>
        -- Eight bits of those at hand are an octet.
        have hsplit : of (bits + 5) buffer' =
            of 8 (buffer' / 2 ^ (bits + 5 - 8)) ++ of (bits + 5 - 8) buffer' := by
          rw [← of_add, Nat.add_sub_cancel' hbits]
        have hleft : bits + 5 - 8 < 8 := by omega
        simp only [hsplit, List.append_assoc, padded_octets_append, Option.map_eq_some_iff]
        constructor
        · rintro ⟨out', hdecode, rfl⟩
          obtain ⟨values, hvalues, hpadded⟩ := (ih hleft).1 hdecode
          exact ⟨values, hvalues, out', hpadded, rfl⟩
        · rintro ⟨values, hvalues, out', hpadded, rfl⟩
          exact ⟨out', (ih hleft).2 ⟨values, hvalues, hpadded⟩, rfl⟩

/-- The texts that are read, and as what. -/
theorem decodeBase32hexNopad_eq_some {input out : List UInt8} :
    decodeBase32hexNopad input = some out ↔
      ∃ values : List ℕ, input.map base32hexValue = values.map some ∧
        Padded 8 (spread 8 (out.map UInt8.toNat)) (spread 5 values) :=
  decodeBase32hexLoop_eq_some (by decide)

/-! ## Letter case -/

theorem utf8_map_base32hexDigit {indices : List ℕ} (h : ∀ i ∈ indices, i < 2 ^ 5) :
    utf8 (indices.map base32hexDigit) = indices.map base32hexByte := by
  induction indices with
  | nil => rfl
  | cons i indices ih =>
    obtain ⟨hi, hindices⟩ := List.forall_mem_cons.1 h
    rw [List.map_cons, utf8_cons, (base32hexByte_spec i hi).1, ih hindices]
    rfl

theorem forall_lt_of_map_base32hexValue {text : List UInt8} {values : List ℕ}
    (h : text.map base32hexValue = values.map some) : ∀ value ∈ values, value < 2 ^ 5 := by
  intro value hvalue
  have hmem : some value ∈ text.map base32hexValue := h ▸ List.mem_map_of_mem hvalue
  obtain ⟨byte, -, hbyte⟩ := List.mem_map.1 hmem
  exact (base32hexValue_eq_some hbyte).1

/-- Texts of digits are those of numbers, up to letter case. -/
theorem map_base32hexValue_iff {text : List UInt8} {values : List ℕ} :
    text.map base32hexValue = values.map some ↔
      (∀ value ∈ values, value < 2 ^ 5) ∧ text.map toAsciiLowercase = values.map base32hexByte := by
  constructor
  · intro h
    refine ⟨forall_lt_of_map_base32hexValue h, ?_⟩
    induction text generalizing values with
    | nil =>
      rw [List.map_nil, eq_comm, List.map_eq_nil_iff] at h
      rw [h]
      rfl
    | cons byte text ih =>
      rw [List.map_cons] at h
      obtain ⟨value, values, rfl, hbyte, htext⟩ := List.map_eq_cons_iff.1 h.symm
      rw [List.map_cons, List.map_cons, ih htext.symm,
        (base32hexValue_eq_some hbyte.symm).2]
  · rintro ⟨hlt, h⟩
    have hlower := congrArg (List.map base32hexValue) h
    rw [List.map_map, List.map_map] at hlower
    refine (List.map_congr_left fun byte _ => ?_).trans
      (hlower.trans (List.map_congr_left fun value hvalue => ?_))
    · exact (base32hexValue_spec byte).1.symm
    · exact (base32hexByte_spec value (hlt value hvalue)).2

/-- The text is, in some letter case, what is written of the octets. -/
def IsBase32hexOf (out text : List UInt8) : Prop :=
  text.map toAsciiLowercase = utf8 (base32hexNopad out)

theorem isBase32hexOf_iff {out text : List UInt8} :
    IsBase32hexOf out text ↔ ∃ values : List ℕ, text.map base32hexValue = values.map some ∧
      Padded 5 (spread 8 (out.map UInt8.toNat)) (spread 5 values) := by
  obtain ⟨indices, hlt, hwritten, hpadded⟩ := exists_base32hexNopad out
  rw [IsBase32hexOf, hwritten, utf8_map_base32hexDigit hlt]
  constructor
  · intro h
    exact ⟨indices, map_base32hexValue_iff.2 ⟨hlt, h⟩, hpadded⟩
  · rintro ⟨values, hvalues, hpadded'⟩
    obtain ⟨hlt', hlower⟩ := map_base32hexValue_iff.1 hvalues
    have hspread : spread 5 values = spread 5 indices :=
      hpadded'.unique hpadded (by simp) (by simp)
    rw [hlower, spread_inj (by decide) hlt' hlt hspread]

/-! ## Surplus digits -/

/-- A text of digits, of a length that nothing written has, where no bit behind the last octet is
    set. -/
def IsSurplus (text : List UInt8) : Prop :=
  text.length % 8 ∈ [1, 3, 6] ∧ ∃ values : List ℕ, text.map base32hexValue = values.map some ∧
    ∀ bit ∈ (spread 5 values).drop (8 * (5 * text.length / 8)), bit = false

/-- The digits of a text have the bits of the octets, and enough zeros behind them for a digit. -/
def LeavesDigit (out text : List UInt8) : Prop :=
  ∃ (values : List ℕ) (count : ℕ), text.map base32hexValue = values.map some ∧ 5 ≤ count ∧
    count < 8 ∧ spread 5 values = spread 8 (out.map UInt8.toNat) ++ List.replicate count false

theorem isSurplus_iff {text : List UInt8} : IsSurplus text ↔ ∃ out, LeavesDigit out text := by
  constructor
  · rintro ⟨hlength, values, hvalues, hzero⟩
    have hlen : text.length = values.length := by simpa using congrArg List.length hvalues
    have hspread : (spread 5 values).length = 5 * text.length := by rw [length_spread, hlen]
    have htake : ((spread 5 values).take (8 * (5 * text.length / 8))).length =
        8 * (5 * text.length / 8) := by
      rw [List.length_take, hspread]
      exact Nat.min_eq_left (Nat.mul_div_le _ _)
    obtain ⟨l, -, hl, htaken⟩ := exists_spread 8 htake
    have hmap : (l.map UInt8.ofNat).map UInt8.toNat = l := by
      rw [List.map_map]
      refine (List.map_congr_left fun n hn => ?_).trans (List.map_id l)
      exact UInt8.toNat_ofNat_of_lt' (hl n hn)
    have hdrop := List.eq_replicate_iff.2 ⟨rfl, hzero⟩
    rw [List.length_drop, hspread] at hdrop
    simp only [List.mem_cons, List.not_mem_nil, or_false] at hlength
    refine ⟨l.map UInt8.ofNat, values, 5 * text.length - 8 * (5 * text.length / 8), hvalues,
      by omega, by omega, ?_⟩
    rw [hmap, htaken, ← hdrop, List.take_append_drop]
  · rintro ⟨out, values, count, hvalues, hle, hlt, hspread⟩
    have hlen : text.length = values.length := by simpa using congrArg List.length hvalues
    have hbits := congrArg List.length hspread
    simp only [length_spread, List.length_append, List.length_map, List.length_replicate] at hbits
    refine ⟨?_, values, hvalues, ?_⟩
    · simp only [List.mem_cons, List.not_mem_nil, or_false]
      obtain rfl | rfl | rfl : count = 5 ∨ count = 6 ∨ count = 7 := by omega
      all_goals omega
    · have hplace : 8 * (5 * text.length / 8) = (spread 8 (out.map UInt8.toNat)).length := by
        rw [length_spread, List.length_map]
        omega
      rw [hspread, hplace, List.drop_left]
      exact fun bit hbit => List.eq_of_mem_replicate hbit

/-- What is read is written, but for a digit too many. -/
theorem decodeBase32hexNopad_eq_some_iff {text out : List UInt8} :
    decodeBase32hexNopad text = some out ↔ IsBase32hexOf out text ∨ LeavesDigit out text := by
  rw [decodeBase32hexNopad_eq_some, isBase32hexOf_iff]
  constructor
  · rintro ⟨values, hvalues, count, hlt, hspread⟩
    rcases Nat.lt_or_ge count 5 with hfew | hmany
    · exact .inl ⟨values, hvalues, count, hfew, hspread⟩
    · exact .inr ⟨values, count, hvalues, hmany, hlt, hspread⟩
  · rintro (⟨values, hvalues, count, hlt, hspread⟩ | ⟨values, count, hvalues, -, hlt, hspread⟩)
    · exact ⟨values, hvalues, count, Nat.lt_trans hlt (by decide), hspread⟩
    · exact ⟨values, hvalues, count, hlt, hspread⟩

/-- Nothing written is surplus. -/
theorem IsBase32hexOf.not_isSurplus {out text : List UInt8} (h : IsBase32hexOf out text) :
    ¬IsSurplus text := by
  obtain ⟨values, hvalues, count, hlt, hspread⟩ := isBase32hexOf_iff.1 h
  rw [isSurplus_iff]
  rintro ⟨out', values', count', hvalues', hle, hlt', hspread'⟩
  obtain rfl : values = values' := by
    rw [hvalues'] at hvalues
    exact (List.map_injective_iff.2 (Option.some_injective ℕ) hvalues).symm
  have hlen := congrArg List.length (hspread.symm.trans hspread')
  simp only [length_spread, List.length_append, List.length_map, List.length_replicate] at hlen
  omega

/-- The texts that are read are those that are written, unless the text is surplus. -/
theorem exists_decode_iff_iff (text : List UInt8) :
    ((∃ out, decodeBase32hexNopad text = some out) ↔ ∃ out, IsBase32hexOf out text) ↔
      ¬IsSurplus text := by
  simp only [decodeBase32hexNopad_eq_some_iff, exists_or, ← isSurplus_iff]
  constructor
  · intro h hsurplus
    obtain ⟨out, hwritten⟩ := h.1 (.inr hsurplus)
    exact hwritten.not_isSurplus hsurplus
  · intro h
    exact or_iff_left h

/-- The first text is surplus, and is the other one with a zero behind it. -/
def OneZeroMore (text text' : List UInt8) : Prop :=
  IsSurplus text ∧ text.map toAsciiLowercase = text'.map toAsciiLowercase ++ [0x30]

theorem spread_concat_zero (values : List ℕ) :
    spread 5 (values ++ [0]) = spread 5 values ++ List.replicate 5 false := by
  rw [spread_append, spread_cons, of_zero_right]
  rfl

/-- A digit too many is read over. -/
theorem OneZeroMore.decode_eq {text text' : List UInt8} (h : OneZeroMore text text') :
    ∃ out, decodeBase32hexNopad text = some out ∧ decodeBase32hexNopad text' = some out := by
  obtain ⟨hsurplus, hlower⟩ := h
  obtain ⟨out, values, count, hvalues, hle, hlt, hspread⟩ := isSurplus_iff.1 hsurplus
  obtain ⟨hdigits, hbytes⟩ := map_base32hexValue_iff.1 hvalues
  rw [hbytes] at hlower
  obtain ⟨values', last, rfl, hbytes', hlast⟩ := List.map_eq_append_iff.1 hlower
  obtain ⟨digit, rfl, hdigit⟩ := List.map_eq_singleton_iff.1 hlast
  obtain ⟨hdigits', hdigitLt⟩ := List.forall_mem_append.1 hdigits
  have hzero : digit = 0 := by
    have hvalue := (base32hexByte_spec digit (hdigitLt digit (List.mem_singleton_self _))).2
    rw [hdigit] at hvalue
    exact (Option.some_inj.1 hvalue).symm
  rw [hzero, spread_concat_zero, ← Nat.sub_add_cancel hle, List.replicate_add,
    ← List.append_assoc] at hspread
  refine ⟨out, decodeBase32hexNopad_eq_some.2 ⟨_, hvalues, count, hlt, ?_⟩,
    decodeBase32hexNopad_eq_some.2 ⟨values', map_base32hexValue_iff.2 ⟨hdigits', hbytes'.symm⟩,
      count - 5, by omega, List.append_cancel_right hspread⟩⟩
  rw [hzero, spread_concat_zero, hspread, List.append_assoc, ← List.replicate_add,
    Nat.sub_add_cancel hle]

/-- Two texts that are read as the same octets, with not fewer zeros behind those of the first. -/
theorem eq_or_oneZeroMore {text text' out : List UInt8} {values values' : List ℕ}
    {count count' : ℕ} (hvalues : text.map base32hexValue = values.map some)
    (hvalues' : text'.map base32hexValue = values'.map some) (hlt : count < 8)
    (hspread : spread 5 values = spread 8 (out.map UInt8.toNat) ++ List.replicate count false)
    (hspread' : spread 5 values' = spread 8 (out.map UInt8.toNat) ++ List.replicate count' false)
    (hle : count' ≤ count) :
    text.map toAsciiLowercase = text'.map toAsciiLowercase ∨ OneZeroMore text text' := by
  obtain ⟨hdigits, hbytes⟩ := map_base32hexValue_iff.1 hvalues
  obtain ⟨hdigits', hbytes'⟩ := map_base32hexValue_iff.1 hvalues'
  have hlen := congrArg List.length hspread
  have hlen' := congrArg List.length hspread'
  simp only [length_spread, List.length_append, List.length_map, List.length_replicate]
    at hlen hlen'
  obtain rfl | rfl : count = count' ∨ count = count' + 5 := by omega
  · have hsame := spread_inj (by decide) hdigits hdigits' (hspread.trans hspread'.symm)
    exact .inl (by rw [hbytes, hbytes', hsame])
  · right
    have hmore : spread 5 values = spread 5 (values' ++ [0]) := by
      rw [spread_concat_zero, hspread, hspread', List.replicate_add, List.append_assoc]
    have hsame : values = values' ++ [0] := spread_inj (by decide) hdigits
      (List.forall_mem_append.2 ⟨hdigits', by simp⟩) hmore
    refine ⟨isSurplus_iff.2 ⟨out, values, count' + 5, hvalues, by omega, hlt, hspread⟩, ?_⟩
    rw [hbytes, hbytes', hsame, List.map_append]
    rfl

/-- Texts of one hash are the same up to letter case, unless there is a digit too many. -/
theorem lower_eq_of_decode_iff (text text' : List UInt8) :
    (∀ out, decodeBase32hexNopad text = some out → decodeBase32hexNopad text' = some out →
      text.map toAsciiLowercase = text'.map toAsciiLowercase) ↔
      ¬(OneZeroMore text text' ∨ OneZeroMore text' text) := by
  have hne {text text' : List UInt8} (h : OneZeroMore text text') :
      text.map toAsciiLowercase ≠ text'.map toAsciiLowercase := by
    intro heq
    have hlen := congrArg List.length (heq.symm.trans h.2)
    simp at hlen
  constructor
  · rintro h (hmore | hmore)
    · obtain ⟨out, hout, hout'⟩ := hmore.decode_eq
      exact hne hmore (h out hout hout')
    · obtain ⟨out, hout, hout'⟩ := hmore.decode_eq
      exact hne hmore (h out hout' hout).symm
  · intro h out hout hout'
    obtain ⟨values, hvalues, count, hlt, hspread⟩ := decodeBase32hexNopad_eq_some.1 hout
    obtain ⟨values', hvalues', count', hlt', hspread'⟩ := decodeBase32hexNopad_eq_some.1 hout'
    rcases Nat.le_total count' count with hle | hle
    · rcases eq_or_oneZeroMore hvalues hvalues' hlt hspread hspread' hle with heq | hmore
      · exact heq
      · exact absurd (.inl hmore) h
    · rcases eq_or_oneZeroMore hvalues' hvalues hlt' hspread' hspread hle with heq | hmore
      · exact heq.symm
      · exact absurd (.inr hmore) h

/-! ## Owner names -/

theorem nsec3OwnerHash_eq_ok {owner zoneName : DnsName} {hash : List UInt8} :
    nsec3OwnerHash owner zoneName = .ok hash ↔ ∃ label, owner.labels = label :: zoneName.labels ∧
      decodeBase32hexNopad label.bytes = some hash := by
  rw [nsec3OwnerHash]
  cases howner : owner.labels with
  | nil => simp
  | cons label labels =>
    by_cases hzone : labels = zoneName.labels
    · cases hdecode : decodeBase32hexNopad label.bytes <;> simp [hzone, hdecode, Except.ofOption]
    · simp [hzone]

/-- Names of NSEC3 records of one hash are the same, unless there is a digit too many. -/
theorem owner_eq_of_nsec3OwnerHash_iff (zoneName owner owner' : DnsName) :
    (∀ hash, nsec3OwnerHash owner zoneName = .ok hash → nsec3OwnerHash owner' zoneName = .ok hash →
      owner = owner') ↔
      ¬∃ label label', owner.labels = label :: zoneName.labels ∧
        owner'.labels = label' :: zoneName.labels ∧
        (OneZeroMore label.bytes label'.bytes ∨ OneZeroMore label'.bytes label.bytes) := by
  constructor
  · rintro h ⟨label, label', howner, howner', hmore⟩
    refine (lower_eq_of_decode_iff _ _).1 (fun hash hdecode hdecode' => ?_) hmore
    have heq := h hash (nsec3OwnerHash_eq_ok.2 ⟨label, howner, hdecode⟩)
      (nsec3OwnerHash_eq_ok.2 ⟨label', howner', hdecode'⟩)
    rw [heq, howner'] at howner
    rw [(List.cons_eq_cons.1 howner).1]
  · intro h hash hash_owner hash_owner'
    obtain ⟨label, howner, hdecode⟩ := nsec3OwnerHash_eq_ok.1 hash_owner
    obtain ⟨label', howner', hdecode'⟩ := nsec3OwnerHash_eq_ok.1 hash_owner'
    have hlower := (lower_eq_of_decode_iff label.bytes label'.bytes).2
      (fun hmore => h ⟨label, label', howner, howner', hmore⟩) hash hdecode hdecode'
    rw [label.lower, label'.lower] at hlower
    refine DnsName.ext ?_
    rw [howner, howner', DnsLabel.ext hlower]

/-- **Base32hex.** What is written is read again, whatever the octets. A text is read just when it
    is that of some octets up to letter case, unless it is surplus; two texts, or two names of
    records of one zone, are of one hash only when they are the same up to letter case, unless one
    of them is surplus and the other one with a zero behind it. -/
theorem base32hex_exact_iff (input text text' : List UInt8) (zoneName owner owner' : DnsName) :
    decodeBase32hexNopad (utf8 (base32hexNopad input)) = some input ∧
    (((∃ out, decodeBase32hexNopad text = some out) ↔
      ∃ input, text.map toAsciiLowercase = utf8 (base32hexNopad input)) ↔ ¬IsSurplus text) ∧
    ((∀ out, decodeBase32hexNopad text = some out → decodeBase32hexNopad text' = some out →
      text.map toAsciiLowercase = text'.map toAsciiLowercase) ↔
      ¬(OneZeroMore text text' ∨ OneZeroMore text' text)) ∧
    ((∀ hash, nsec3OwnerHash owner zoneName = .ok hash →
      nsec3OwnerHash owner' zoneName = .ok hash → owner = owner') ↔
      ¬∃ label label', owner.labels = label :: zoneName.labels ∧
        owner'.labels = label' :: zoneName.labels ∧
        (OneZeroMore label.bytes label'.bytes ∨ OneZeroMore label'.bytes label.bytes)) := by
  refine ⟨?_, exists_decode_iff_iff text, lower_eq_of_decode_iff text text',
    owner_eq_of_nsec3OwnerHash_iff zoneName owner owner'⟩
  obtain ⟨indices, hlt, hwritten, count, hcount, hspread⟩ := exists_base32hexNopad input
  rw [hwritten, utf8_map_base32hexDigit hlt, decodeBase32hexNopad_eq_some]
  refine ⟨indices, ?_, count, Nat.lt_trans hcount (by decide), hspread⟩
  rw [List.map_map]
  exact List.map_congr_left fun i hi => (base32hexByte_spec i (hlt i hi)).2

/-- A zero behind the hash `00`, of one octet, is read over: nothing is written in so many digits,
    and the two labels are of one hash. -/
theorem base32hex_surplus :
    ¬((∀ input, decodeBase32hexNopad (utf8 (base32hexNopad input)) = some input) ∧
      (∀ text, (∃ out, decodeBase32hexNopad text = some out) ↔
        ∃ input, text.map toAsciiLowercase = utf8 (base32hexNopad input)) ∧
      ∀ text text' out, decodeBase32hexNopad text = some out →
        decodeBase32hexNopad text' = some out →
        text.map toAsciiLowercase = text'.map toAsciiLowercase) := by
  rintro ⟨-, -, h⟩
  exact absurd (h [0x30, 0x30, 0x30] [0x30, 0x30] [0] (by decide) (by decide)) (by decide)

end Hns
