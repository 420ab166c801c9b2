import Hns.Dnssec.Record

/-!
# Type bitmaps

The types that a denial shows, as windows of bits in increasing order
(`TypeBitMap`). The octets of the windows pass `validateNsecTypeBitMaps`, and a
type is found in them when its bit is set (`nsecTypeBitMapsContain_octets`).
-/

namespace Hns

/-- The windows of a bitmap, each with its bits. -/
structure TypeBitMap where
  windows : List (UInt8 × List UInt8)
  sizes : ∀ window ∈ windows, 0 < window.2.length ∧ window.2.length ≤ 32
  sorted : windows.Pairwise fun a b => a.1 < b.1

namespace TypeBitMap

def octetsOf (windows : List (UInt8 × List UInt8)) : List UInt8 :=
  windows.flatMap fun window => window.1 :: UInt8.ofNat window.2.length :: window.2

def octets (bitmap : TypeBitMap) : List UInt8 := octetsOf bitmap.windows

/-- A bit, counted from the front. -/
def bit (bits : List UInt8) (i : ℕ) : Bool := (bits.getD (i / 8) 0).toNat.testBit (7 - i % 8)

/-- The number of the window a type is in. -/
def windowOf (code : UInt16) : UInt8 := (code >>> 8).toUInt8

/-- The place of a type in its window. -/
def placeOf (code : UInt16) : ℕ := (code &&& 0x00ff).toNat

/-- The bit of the type is set. -/
def Has (bitmap : TypeBitMap) (code : UInt16) : Prop :=
  ∃ bits, (windowOf code, bits) ∈ bitmap.windows ∧ bit bits (placeOf code)

instance (bitmap : TypeBitMap) (code : UInt16) : Decidable (bitmap.Has code) :=
  decidable_of_iff (∃ window ∈ bitmap.windows,
      window.1 = windowOf code ∧ bit window.2 (placeOf code)) <| by
    constructor
    · rintro ⟨⟨_, bits⟩, hmem, rfl, hbit⟩
      exact ⟨bits, hmem, hbit⟩
    · rintro ⟨bits, hmem, hbit⟩
      exact ⟨_, hmem, rfl, hbit⟩

theorem mask_ne_zero (k : ℕ) (hk : k < 8) :
    ∀ byte : UInt8, (byte &&& (1 <<< UInt8.ofNat (7 - k)) ≠ 0) ↔ byte.toNat.testBit (7 - k) := by
  interval_cases k <;> exact UInt8.forall_of_lt (by decide +kernel)

/-- A length that is written. -/
theorem toNat_length {bits : List UInt8} (h : bits.length ≤ 32) :
    (UInt8.ofNat bits.length).toNat = bits.length := by
  rw [UInt8.toNat_ofNat', Nat.mod_eq_of_lt (by omega)]

theorem validateTypeBitMapsLoop_octetsOf {windows : List (UInt8 × List UInt8)}
    (hsizes : ∀ window ∈ windows, 0 < window.2.length ∧ window.2.length ≤ 32)
    (hsorted : windows.Pairwise fun a b => a.1 < b.1) {fuel : ℕ} {previousWindow : Option UInt8}
    (hfuel : (octetsOf windows).length ≤ fuel)
    (hprevious : ∀ previous ∈ previousWindow, ∀ window ∈ windows, previous < window.1) :
    validateTypeBitMapsLoop fuel (octetsOf windows) previousWindow = .ok () := by
  induction windows generalizing fuel previousWindow with
  | nil => cases fuel <;> rfl
  | cons window windows ih =>
    obtain ⟨number, bits⟩ := window
    obtain ⟨⟨hpos, hle⟩, hsizes⟩ := List.forall_mem_cons.1 hsizes
    obtain ⟨hnumber, hsorted⟩ := List.pairwise_cons.1 hsorted
    have hlen : (UInt8.ofNat bits.length).toNat = bits.length := toNat_length hle
    have hbits : (UInt8.ofNat bits.length) ≠ 0 := fun h => hpos.ne (by rw [← hlen, h]; rfl)
    cases fuel with
    | zero => simp [octetsOf] at hfuel
    | succ fuel =>
      have hrest : octetsOf ((number, bits) :: windows) =
          number :: UInt8.ofNat bits.length :: (bits ++ octetsOf windows) := rfl
      rw [hrest] at hfuel ⊢
      rw [validateTypeBitMapsLoop, if_neg, if_neg, hlen, List.drop_left]
      · refine ih hsizes hsorted (by simp at hfuel; omega) fun previous hprev => ?_
        rw [Option.mem_some_iff] at hprev
        exact hprev ▸ hnumber
      · rw [Option.any_eq_true]
        rintro ⟨previous, hprev, h⟩
        have hlt := hprevious previous hprev _ List.mem_cons_self
        exact absurd (of_decide_eq_true h) (UInt8.not_le.2 hlt)
      · rw [hlen, List.length_append]
        rintro (h | h | h)
        · exact hbits h
        · exact absurd (UInt8.lt_iff_toNat_lt.1 h) (by rw [hlen]; exact not_lt.2 hle)
        · omega

theorem typeBitMapsContainLoop_octetsOf {windows : List (UInt8 × List UInt8)}
    (hsizes : ∀ window ∈ windows, 0 < window.2.length ∧ window.2.length ≤ 32)
    (hsorted : windows.Pairwise fun a b => a.1 < b.1) {fuel : ℕ} {target : UInt8} {place : ℕ}
    (hfuel : (octetsOf windows).length ≤ fuel) :
    typeBitMapsContainLoop target place fuel (octetsOf windows) = true ↔
      ∃ bits, (target, bits) ∈ windows ∧ bit bits place := by
  induction windows generalizing fuel with
  | nil => cases fuel <;> simp [octetsOf, typeBitMapsContainLoop]
  | cons window windows ih =>
    obtain ⟨number, bits⟩ := window
    obtain ⟨⟨hpos, hle⟩, hsizes⟩ := List.forall_mem_cons.1 hsizes
    obtain ⟨hnumber, hsorted⟩ := List.pairwise_cons.1 hsorted
    have hlen : (UInt8.ofNat bits.length).toNat = bits.length := toNat_length hle
    cases fuel with
    | zero => simp [octetsOf] at hfuel
    | succ fuel =>
      have hrest : octetsOf ((number, bits) :: windows) =
          number :: UInt8.ofNat bits.length :: (bits ++ octetsOf windows) := rfl
      rw [hrest] at hfuel ⊢
      rw [typeBitMapsContainLoop, hlen]
      by_cases htarget : number = target
      · -- The window of the type: it is the only one of its number.
        subst htarget
        have honly (bits' : List UInt8) : (number, bits') ∈ (number, bits) :: windows ↔
            bits' = bits := by
          rw [List.mem_cons, Prod.mk.injEq]
          refine ⟨?_, fun h => .inl ⟨rfl, h⟩⟩
          rintro (⟨-, h⟩ | h)
          · exact h
          · exact absurd (hnumber _ h) (UInt8.lt_irrefl _)
        simp only [if_true, honly, exists_eq_left]
        by_cases hplace : bits.length ≤ place / 8
        · simp [hplace, bit]
        · rw [not_le] at hplace
          have hget : (bits ++ octetsOf windows).getD (place / 8) 0 = bits.getD (place / 8) 0 := by
            rw [List.getD_eq_getElem?_getD, List.getElem?_append_left hplace,
              List.getD_eq_getElem?_getD]
          rw [if_neg (not_le.2 hplace), hget, decide_eq_true_eq, bit]
          exact mask_ne_zero _ (Nat.mod_lt _ (by decide)) _
      · rw [if_neg htarget, List.drop_left, ih hsizes hsorted (by simp at hfuel; omega)]
        have hne (bits' : List UInt8) : (target, bits') ≠ (number, bits) := fun h =>
          htarget (congrArg Prod.fst h).symm
        simp only [List.mem_cons, hne, false_or]

variable (bitmap : TypeBitMap)

/-- There are not more windows than numbers for them. -/
theorem length_windows_le : bitmap.windows.length ≤ 256 := by
  have hnodup : (bitmap.windows.map fun window => window.1.toNat).Nodup := by
    rw [List.nodup_iff_pairwise_ne, List.pairwise_map]
    exact bitmap.sorted.imp fun h => (UInt8.lt_iff_toNat_lt.1 h).ne
  have hsub : (bitmap.windows.map fun window => window.1.toNat) ⊆ List.range 256 := by
    intro n hn
    obtain ⟨window, -, rfl⟩ := List.mem_map.1 hn
    exact List.mem_range.2 window.1.toNat_lt
  simpa using (hnodup.subperm hsub).length_le

theorem length_octets_le : bitmap.octets.length ≤ 8704 := by
  have key (windows : List (UInt8 × List UInt8)) (h : ∀ window ∈ windows, window.2.length ≤ 32) :
      (octetsOf windows).length ≤ 34 * windows.length := by
    induction windows with
    | nil => simp [octetsOf]
    | cons window windows ih =>
      obtain ⟨hwindow, hwindows⟩ := List.forall_mem_cons.1 h
      have hrest := ih hwindows
      simp only [octetsOf, List.flatMap_cons, List.length_append, List.length_cons] at hrest ⊢
      omega
  have := key bitmap.windows fun window hwindow => (bitmap.sizes window hwindow).2
  have := bitmap.length_windows_le
  rw [octets]
  omega

/-- A bitmap with a type is not empty. -/
theorem octets_ne_nil {code : UInt16} (h : bitmap.Has code) : bitmap.octets ≠ [] := by
  obtain ⟨bits, hmem, -⟩ := h
  rw [octets, octetsOf, ne_eq, List.flatMap_eq_nil_iff]
  exact fun hnil => List.cons_ne_nil _ _ (hnil _ hmem)

theorem validateNsecTypeBitMaps_octets : validateNsecTypeBitMaps bitmap.octets = .ok () :=
  validateTypeBitMapsLoop_octetsOf bitmap.sizes bitmap.sorted le_rfl (by simp)

/-- A bitmap is read as it was meant. -/
theorem nsecTypeBitMapsContain_octets (recordType : RecordType) :
    nsecTypeBitMapsContain bitmap.octets recordType = .ok (decide (bitmap.Has recordType.code)) := by
  rw [nsecTypeBitMapsContain, validateNsecTypeBitMaps_octets, Except.ok_bind]
  refine congrArg Except.ok (Bool.eq_iff_iff.2 ?_)
  rw [decide_eq_true_iff]
  exact typeBitMapsContainLoop_octetsOf bitmap.sizes bitmap.sorted le_rfl

/-- Bits that are set are in the bitmap. -/
theorem lt_of_bit {bits : List UInt8} {i : ℕ} (h : bit bits i) : i < 8 * bits.length := by
  by_contra hle
  rw [bit, List.getD_eq_getElem?_getD, List.getElem?_eq_none (by omega)] at h
  simp at h

/-- A type of the first window is at its own place. -/
theorem toNat_eq_placeOf {code : UInt16} (h : windowOf code = 0) : code.toNat = placeOf code := by
  have hzero := congrArg UInt8.toNat h
  simp only [windowOf, UInt16.toNat_toUInt8, UInt16.toNat_shiftRight,
    Nat.shiftRight_eq_div_pow] at hzero
  have hplace : placeOf code = code.toNat % 256 := Nat.and_two_pow_sub_one_eq_mod code.toNat 8
  have hcode := code.toNat_lt
  simp at hzero
  omega

/-- A bitmap of a few octets in the first window, compared with what it is to show there. -/
theorem has_iff_of_low {p : UInt16 → Prop} {n : ℕ}
    (hwindows : ∀ window ∈ bitmap.windows, window.1 = 0 ∧ window.2.length ≤ n)
    (hp : ∀ code, p code → code.toNat < 8 * n)
    (h : ∀ i < 8 * n, bitmap.Has (UInt16.ofNat i) ↔ p (UInt16.ofNat i)) (code : UInt16) :
    bitmap.Has code ↔ p code := by
  by_cases hlt : code.toNat < 8 * n
  · simpa using h code.toNat hlt
  · refine iff_of_false ?_ fun hcode => hlt (hp code hcode)
    rintro ⟨bits, hmem, hbit⟩
    obtain ⟨hzero, hlength⟩ := hwindows _ hmem
    have hplace := lt_of_bit hbit
    rw [← toNat_eq_placeOf hzero] at hplace
    exact hlt (hplace.trans_le (Nat.mul_le_mul_left 8 hlength))

end TypeBitMap

end Hns
