import Hns.Dnssec.Bitmap
import Hns.Lib.Bits
import Mathlib.Data.Finset.Defs
import Mathlib.Data.List.DropRight

/-!
# Windows of type bitmaps

Any set of types has a bitmap (`TypeBitMap.ofTypes`): the windows in which there
are types, in order, without the zeros at the end of each. It shows the types of
the set and no other (`has_ofTypes`), and the octets that are accepted are those
of bitmaps (`validateNsecTypeBitMaps_eq_ok`), with more zeros perhaps.

The loops go through the bitmaps with a cursor. `Indexed` has them as they are,
with all that they read from the buffer; they never read outside of it
(`Indexed.validateNsecTypeBitMaps_eq`, `Indexed.nsecTypeBitMapsContain_eq`).
-/

namespace Hns

namespace TypeBitMap

/-! ## Bitmaps of sets of types -/

/-- The type at a place of a window. -/
def codeAt (number : UInt8) (place : ℕ) : UInt16 := UInt16.ofNat (256 * number.toNat + place)

theorem codeAt_placeOf (code : UInt16) : codeAt (windowOf code) (placeOf code) = code := by
  have hplace : placeOf code = code.toNat % 256 := Nat.and_two_pow_sub_one_eq_mod code.toNat 8
  have hwindow : (windowOf code).toNat = code.toNat / 256 := by
    have hcode := code.toNat_lt
    simp only [windowOf, UInt16.toNat_toUInt8, UInt16.toNat_shiftRight,
      Nat.shiftRight_eq_div_pow]
    simp
    omega
  rw [codeAt, hplace, hwindow, Nat.div_add_mod, UInt16.ofNat_toNat]

theorem placeOf_lt (code : UInt16) : placeOf code < 256 := by
  rw [placeOf, UInt16.toNat_and]
  exact Nat.lt_succ_of_le Nat.and_le_right

variable (types : Finset UInt16)

/-- All the bits of a window. -/
def allBits (number : UInt8) : List UInt8 :=
  (List.range 32).map fun i => Octet.ofBits fun k => decide (codeAt number (8 * i + k) ∈ types)

/-- The bits of a window, without the zero octets at the end. -/
def bitsOf (number : UInt8) : List UInt8 := (allBits types number).rdropWhile fun byte => byte = 0

theorem bit_allBits (number : UInt8) {place : ℕ} (h : place < 256) :
    bit (allBits types number) place = decide (codeAt number place ∈ types) := by
  rw [bit, allBits, List.getD_eq_getElem?_getD, List.getElem?_map, List.getElem?_range (by omega),
    Option.map_some, Option.getD_some, Octet.testBit_ofBits _ (Nat.mod_lt _ (by decide)),
    Nat.div_add_mod]

/-- Zeros at the end are like none. -/
theorem getD_rdropWhile (bits : List UInt8) (i : ℕ) :
    (bits.rdropWhile fun byte => byte = 0).getD i 0 = bits.getD i 0 := by
  induction bits using List.reverseRecOn with
  | nil => rfl
  | append_singleton bits byte ih =>
    rw [List.rdropWhile_concat]
    split
    case isTrue hzero =>
      have hbyte : byte = 0 := of_decide_eq_true hzero
      rw [ih, hbyte]
      rcases Nat.lt_trichotomy i bits.length with h | h | h
      · simp [List.getElem?_append_left h]
      · simp [h]
      · rw [List.getD_eq_getElem?_getD, List.getD_eq_getElem?_getD,
          List.getElem?_eq_none h.le, List.getElem?_eq_none (by simpa using h)]
    case isFalse => rfl

theorem bit_bitsOf (number : UInt8) {place : ℕ} (h : place < 256) :
    bit (bitsOf types number) place = decide (codeAt number place ∈ types) := by
  rw [← bit_allBits types number h, bit, bit, bitsOf, getD_rdropWhile]

theorem length_bitsOf_le (number : UInt8) : (bitsOf types number).length ≤ 32 := by
  have hle := (List.rdropWhile_prefix (fun byte => decide (byte = (0 : UInt8)))
    (allBits types number)).length_le
  rwa [allBits, List.length_map, List.length_range] at hle

/-- The window of a number, when there are types in it. -/
def windowAt (number : UInt8) : Option (UInt8 × List UInt8) :=
  if bitsOf types number = [] then none else some (number, bitsOf types number)

theorem windowAt_eq_some {types : Finset UInt16} {number : UInt8} {window : UInt8 × List UInt8} :
    windowAt types number = some window ↔
      bitsOf types number ≠ [] ∧ window = (number, bitsOf types number) := by
  rw [windowAt]
  split
  case isTrue h => simp [h]
  case isFalse h => simp only [Option.some.injEq, ne_eq, h, not_false_iff, true_and, eq_comm]

/-- The bitmap of a set of types. -/
def ofTypes : TypeBitMap where
  windows := (List.range 256).filterMap fun n => windowAt types (UInt8.ofNat n)
  sizes := by
    intro window h
    obtain ⟨n, -, hn⟩ := List.mem_filterMap.1 h
    obtain ⟨hne, rfl⟩ := windowAt_eq_some.1 hn
    exact ⟨List.length_pos_iff.2 hne, length_bitsOf_le types _⟩
  sorted := by
    rw [List.pairwise_filterMap]
    refine List.pairwise_lt_range.imp_of_mem fun hm hn hlt a ha b hb => ?_
    obtain ⟨-, rfl⟩ := windowAt_eq_some.1 ha
    obtain ⟨-, rfl⟩ := windowAt_eq_some.1 hb
    rw [List.mem_range] at hm hn
    rw [UInt8.lt_iff_toNat_lt, UInt8.toNat_ofNat_of_lt' hm, UInt8.toNat_ofNat_of_lt' hn]
    exact hlt

theorem mem_windows_ofTypes {number : UInt8} {bits : List UInt8} :
    (number, bits) ∈ (ofTypes types).windows ↔
      bitsOf types number ≠ [] ∧ bits = bitsOf types number := by
  rw [ofTypes, List.mem_filterMap]
  constructor
  · rintro ⟨n, -, hn⟩
    obtain ⟨hne, hwindow⟩ := windowAt_eq_some.1 hn
    obtain ⟨rfl, hbits⟩ := Prod.mk.inj hwindow
    exact ⟨hne, hbits⟩
  · rintro ⟨hne, rfl⟩
    refine ⟨number.toNat, List.mem_range.2 number.toNat_lt, ?_⟩
    rw [UInt8.ofNat_toNat, windowAt_eq_some]
    exact ⟨hne, rfl⟩

/-- The bitmap of a set shows the types of the set. -/
theorem has_ofTypes (code : UInt16) : (ofTypes types).Has code ↔ code ∈ types := by
  have hbit := bit_bitsOf types (windowOf code) (placeOf_lt code)
  rw [codeAt_placeOf] at hbit
  constructor
  · rintro ⟨bits, hmem, h⟩
    obtain ⟨-, rfl⟩ := (mem_windows_ofTypes types).1 hmem
    exact of_decide_eq_true (hbit.symm.trans h)
  · intro h
    have hset : bit (bitsOf types (windowOf code)) (placeOf code) := by rw [hbit, decide_eq_true h]
    refine ⟨_, (mem_windows_ofTypes types).2 ⟨fun hnil => ?_, rfl⟩, hset⟩
    have hlt := lt_of_bit hset
    rw [hnil] at hlt
    exact absurd hlt (Nat.not_lt_zero _)

-- The types A, MX, RRSIG, NSEC and 1234: the window of the last one.
example : bitsOf {1, 15, 46, 47, 1234} 4 = List.replicate 26 0 ++ [0x20] := by decide +kernel

/-- No window of it has a zero octet at the end. -/
theorem getLast_ne_zero_of_mem_ofTypes {number : UInt8} {bits : List UInt8}
    (h : (number, bits) ∈ (ofTypes types).windows) (hne : bits ≠ []) : bits.getLast hne ≠ 0 := by
  obtain ⟨-, rfl⟩ := (mem_windows_ofTypes types).1 h
  have hlast := List.rdropWhile_last_not (fun byte => decide (byte = (0 : UInt8)))
    (allBits types number) hne
  exact fun hzero => hlast (decide_eq_true hzero)

/-! ## What is accepted -/

/-- Windows that are accepted behind one are those of larger numbers, of 1 to 32 octets. -/
theorem windows_of_validateTypeBitMapsLoop {fuel : ℕ} {maps : List UInt8}
    {previousWindow : Option UInt8} (h : validateTypeBitMapsLoop fuel maps previousWindow = .ok ()) :
    ∃ windows, maps = octetsOf windows ∧
      (∀ window ∈ windows, 0 < window.2.length ∧ window.2.length ≤ 32) ∧
      windows.Pairwise (fun a b => a.1 < b.1) ∧
      ∀ previous ∈ previousWindow, ∀ window ∈ windows, previous < window.1 := by
  fun_induction validateTypeBitMapsLoop with
  | case1 => exact ⟨[], rfl, by simp, List.Pairwise.nil, by simp⟩
  | case2 => exact absurd h (by simp)
  | case3 => exact absurd h (by simp)
  | case4 fuel number length rest previousWindow hlength hnumber ih =>
    obtain ⟨windows, hrest, hsizes, hsorted, hlarger⟩ := ih h
    simp only [not_or, UInt8.not_lt, not_lt] at hlength
    obtain ⟨hzero, hle, hrestLength⟩ := hlength
    have htake : (rest.take length.toNat).length = length.toNat := by simpa using hrestLength
    refine ⟨(number, rest.take length.toNat) :: windows, ?_, ?_, ?_, ?_⟩
    · simp only [octetsOf, List.flatMap_cons, htake, UInt8.ofNat_toNat, List.cons_append]
      change _ = _ :: _ :: (_ ++ octetsOf windows)
      rw [← hrest, List.take_append_drop]
    · refine List.forall_mem_cons.2 ⟨?_, hsizes⟩
      rw [htake]
      refine ⟨Nat.pos_of_ne_zero fun h0 => hzero (UInt8.toNat_inj.1 h0), ?_⟩
      exact UInt8.le_iff_toNat_le.1 hle
    · exact List.pairwise_cons.2 ⟨hlarger number rfl, hsorted⟩
    · intro previous hprevious
      rw [Option.mem_def] at hprevious
      have hlt : previous < number := by simpa [hprevious] using hnumber
      refine List.forall_mem_cons.2 ⟨hlt, fun window hwindow => ?_⟩
      exact UInt8.lt_trans hlt (hlarger number rfl window hwindow)
  | case5 => exact absurd h (by simp)

/-- The bitmaps that are accepted. -/
theorem validateNsecTypeBitMaps_eq_ok {maps : List UInt8} :
    validateNsecTypeBitMaps maps = .ok () ↔ ∃ bitmap : TypeBitMap, bitmap.octets = maps := by
  constructor
  · intro h
    obtain ⟨windows, hmaps, hsizes, hsorted, -⟩ := windows_of_validateTypeBitMapsLoop h
    exact ⟨⟨windows, hsizes, hsorted⟩, hmaps.symm⟩
  · rintro ⟨bitmap, rfl⟩
    exact bitmap.validateNsecTypeBitMaps_octets

end TypeBitMap

/-! ## What is read -/

namespace Indexed

/-- The loop of `validate_nsec_type_bit_maps`; `none` where it reads outside of the buffer, or goes
    on for more rounds. -/
def validateLoop (typeBitMaps : List UInt8) :
    ℕ → ℕ → Option UInt8 → Option (Except DnssecError Unit)
  | 0, cursor, _ => if cursor < typeBitMaps.length then none else some (.ok ())
  | rounds + 1, cursor, previousWindow =>
    if cursor < typeBitMaps.length then
      if typeBitMaps.length < cursor + 2 then some (.error .invalidNsec)
      else do
        let window ← typeBitMaps[cursor]?
        let length ← typeBitMaps[cursor + 1]?
        let cursor := cursor + 2
        if length = 0 ∨ 32 < length ∨ typeBitMaps.length < cursor + length.toNat then
          some (.error .invalidNsec)
        else if previousWindow.any fun previous => window ≤ previous then
          some (.error .invalidNsec)
        else validateLoop typeBitMaps rounds (cursor + length.toNat) (some window)
    else some (.ok ())

def validateNsecTypeBitMaps (typeBitMaps : List UInt8) : Option (Except DnssecError Unit) :=
  validateLoop typeBitMaps typeBitMaps.length 0 none

/-- The loop of `nsec_type_bit_maps_contain`; `none` as in `validateLoop`. -/
def containLoop (typeBitMaps : List UInt8) (targetWindow : UInt8) (targetBit : ℕ) :
    ℕ → ℕ → Option Bool
  | 0, cursor => if cursor < typeBitMaps.length then none else some false
  | rounds + 1, cursor =>
    if cursor < typeBitMaps.length then do
      let window ← typeBitMaps[cursor]?
      let length ← typeBitMaps[cursor + 1]?
      let cursor := cursor + 2
      if window = targetWindow then
        let byteIndex := targetBit / 8
        if length.toNat ≤ byteIndex then some false
        else do
          let byte ← typeBitMaps[cursor + byteIndex]?
          some (byte &&& (1 <<< UInt8.ofNat (7 - targetBit % 8)) ≠ 0)
      else containLoop typeBitMaps targetWindow targetBit rounds (cursor + length.toNat)
    else some false

def nsecTypeBitMapsContain (typeBitMaps : List UInt8) (recordType : RecordType) :
    Option (Except DnssecError Bool) := do
  match ← validateNsecTypeBitMaps typeBitMaps with
  | .error error => some (.error error)
  | .ok () =>
    let code := recordType.code
    let found ← containLoop typeBitMaps (code >>> 8).toUInt8 (code &&& 0x00ff).toNat
      typeBitMaps.length 0
    some (.ok found)

variable {typeBitMaps : List UInt8}

theorem validateTypeBitMapsLoop_singleton (fuel : ℕ) (byte : UInt8)
    (previousWindow : Option UInt8) :
    validateTypeBitMapsLoop fuel [byte] previousWindow = .error .invalidNsec := by
  cases fuel <;> rfl

/-- From any place on, all that is validated is in the buffer. -/
theorem validateLoop_eq {rounds cursor : ℕ} {previousWindow : Option UInt8}
    (h : typeBitMaps.length - cursor ≤ rounds) :
    validateLoop typeBitMaps rounds cursor previousWindow =
      some (validateTypeBitMapsLoop rounds (typeBitMaps.drop cursor) previousWindow) := by
  induction rounds generalizing cursor previousWindow with
  | zero =>
    have hend : typeBitMaps.length ≤ cursor := by omega
    rw [validateLoop, if_neg hend.not_gt, List.drop_eq_nil_of_le hend, validateTypeBitMapsLoop]
  | succ rounds ih =>
    rw [validateLoop]
    by_cases hcursor : cursor < typeBitMaps.length
    · rw [if_pos hcursor, List.drop_eq_getElem_cons hcursor]
      by_cases hnext : typeBitMaps.length < cursor + 2
      · -- One octet is left: there is no length behind it.
        have hend : typeBitMaps.length ≤ cursor + 1 := by omega
        rw [if_pos hnext, List.drop_eq_nil_of_le hend, validateTypeBitMapsLoop_singleton]
      · have hlength : cursor + 1 < typeBitMaps.length := by omega
        rw [if_neg hnext, List.drop_eq_getElem_cons hlength, validateTypeBitMapsLoop,
          List.getElem?_eq_getElem hcursor, List.getElem?_eq_getElem hlength, List.length_drop,
          List.drop_drop]
        simp only [Option.bind_eq_bind, Option.bind_some]
        have hrest (length : UInt8) : typeBitMaps.length < cursor + 2 + length.toNat ↔
            typeBitMaps.length - (cursor + 1 + 1) < length.toNat := by omega
        simp only [hrest]
        split
        case isTrue => rfl
        case isFalse =>
          split
          case isTrue => rfl
          case isFalse => exact ih (by omega)
    · rw [if_neg hcursor, List.drop_eq_nil_of_le (not_lt.1 hcursor), validateTypeBitMapsLoop]

/-- Validation reads nothing outside of the buffer, whatever is in it. -/
theorem validateNsecTypeBitMaps_eq (typeBitMaps : List UInt8) :
    validateNsecTypeBitMaps typeBitMaps = some (Hns.validateNsecTypeBitMaps typeBitMaps) :=
  validateLoop_eq (Nat.sub_le _ _)

/-- From the beginning of a window on, all that is looked at is in the buffer. -/
theorem containLoop_eq {targetWindow : UInt8} {targetBit rounds cursor : ℕ}
    {windows : List (UInt8 × List UInt8)} (hsizes : ∀ window ∈ windows, window.2.length ≤ 32)
    (hrounds : typeBitMaps.length - cursor ≤ rounds)
    (h : typeBitMaps.drop cursor = TypeBitMap.octetsOf windows) :
    containLoop typeBitMaps targetWindow targetBit rounds cursor =
      some (typeBitMapsContainLoop targetWindow targetBit rounds (typeBitMaps.drop cursor)) := by
  induction windows generalizing rounds cursor with
  | nil =>
    have hend : typeBitMaps.length ≤ cursor := List.drop_eq_nil_iff.1 h
    rw [h]
    cases rounds with
    | zero => rw [containLoop, if_neg hend.not_gt]; rfl
    | succ rounds => rw [containLoop, if_neg hend.not_gt]; rfl
  | cons window windows ih =>
    obtain ⟨number, bits⟩ := window
    obtain ⟨hsize, hsizes⟩ := List.forall_mem_cons.1 hsizes
    have hlength : (UInt8.ofNat bits.length).toNat = bits.length := TypeBitMap.toNat_length hsize
    have hdrop : typeBitMaps.drop cursor =
        number :: UInt8.ofNat bits.length :: (bits ++ TypeBitMap.octetsOf windows) := h
    have hget (i : ℕ) : typeBitMaps[cursor + i]? = (number :: UInt8.ofNat bits.length ::
        (bits ++ TypeBitMap.octetsOf windows))[i]? := by rw [← hdrop, List.getElem?_drop]
    have hcount := congrArg List.length hdrop
    simp only [List.length_drop, List.length_cons, List.length_append] at hcount
    cases rounds with
    | zero => omega
    | succ rounds =>
      rw [containLoop, if_pos (by omega), hdrop, typeBitMapsContainLoop, hget 1,
        show typeBitMaps[cursor]? = some number from hget 0]
      simp only [List.getElem?_cons_succ, List.getElem?_cons_zero, Option.bind_eq_bind,
        Option.bind_some, hlength]
      split
      case isTrue =>
        split
        case isTrue => rfl
        case isFalse hplace =>
          -- The octet of the type is one of those of the window.
          rw [not_le] at hplace
          rw [show cursor + 2 + targetBit / 8 = cursor + (targetBit / 8 + 2) by omega, hget,
            List.getElem?_cons_succ, List.getElem?_cons_succ, List.getD_eq_getElem?_getD,
            List.getElem?_append_left hplace, List.getElem?_eq_getElem hplace]
          rfl
      case isFalse =>
        have hrest : typeBitMaps.drop (cursor + 2 + bits.length) =
            TypeBitMap.octetsOf windows := by
          rw [Nat.add_assoc, ← List.drop_drop, hdrop, Nat.add_comm, List.drop_succ_cons,
            List.drop_succ_cons, List.drop_left]
        rw [ih hsizes (by omega) hrest, hrest, List.drop_left]

/-- The lookup reads nothing outside of the buffer: it is for bitmaps that have been validated. -/
theorem nsecTypeBitMapsContain_eq (typeBitMaps : List UInt8) (recordType : RecordType) :
    nsecTypeBitMapsContain typeBitMaps recordType =
      some (Hns.nsecTypeBitMapsContain typeBitMaps recordType) := by
  rw [nsecTypeBitMapsContain, Hns.nsecTypeBitMapsContain, validateNsecTypeBitMaps_eq]
  cases hvalid : Hns.validateNsecTypeBitMaps typeBitMaps with
  | error error => rfl
  | ok =>
    obtain ⟨bitmap, rfl⟩ := TypeBitMap.validateNsecTypeBitMaps_eq_ok.1 hvalid
    simp only [Option.bind_eq_bind, Option.bind_some]
    rw [containLoop_eq (fun window hwindow => (bitmap.sizes window hwindow).2) (Nat.sub_le _ _) rfl]
    rfl

/-- **Bitmaps of types.** The bitmap of a set shows its types and no other; the octets that are
    accepted are windows of increasing numbers, of 1 to 32 octets each; and whatever the octets,
    nothing is read outside of them. -/
theorem typeBitMaps_exact :
    (∀ (types : Finset UInt16) (recordType : RecordType),
      nsecTypeBitMapsContain (TypeBitMap.ofTypes types).octets recordType =
        some (.ok (decide (recordType.code ∈ types)))) ∧
    (∀ typeBitMaps : List UInt8, validateNsecTypeBitMaps typeBitMaps = some (.ok ()) ↔
      ∃ windows : List (UInt8 × List UInt8),
        (∀ window ∈ windows, 1 ≤ window.2.length ∧ window.2.length ≤ 32) ∧
        windows.Pairwise (fun a b => a.1 < b.1) ∧
        typeBitMaps = windows.flatMap fun window =>
          window.1 :: UInt8.ofNat window.2.length :: window.2) ∧
    ∀ typeBitMaps : List UInt8, (validateNsecTypeBitMaps typeBitMaps).isSome ∧
      ∀ recordType, (nsecTypeBitMapsContain typeBitMaps recordType).isSome := by
  refine ⟨fun types recordType => ?_, fun typeBitMaps => ?_, fun typeBitMaps => ?_⟩
  · rw [nsecTypeBitMapsContain_eq, TypeBitMap.nsecTypeBitMapsContain_octets]
    simp only [TypeBitMap.has_ofTypes]
  · rw [validateNsecTypeBitMaps_eq, Option.some_inj, TypeBitMap.validateNsecTypeBitMaps_eq_ok]
    constructor
    · rintro ⟨bitmap, rfl⟩
      exact ⟨bitmap.windows, bitmap.sizes, bitmap.sorted, rfl⟩
    · rintro ⟨windows, hsizes, hsorted, rfl⟩
      exact ⟨⟨windows, hsizes, hsorted⟩, rfl⟩
  · rw [validateNsecTypeBitMaps_eq]
    refine ⟨rfl, fun recordType => ?_⟩
    rw [nsecTypeBitMapsContain_eq]
    rfl

end Indexed

end Hns
