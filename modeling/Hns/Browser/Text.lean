import Mathlib.Data.List.DropRight
import Hns.Lib.Chars

/-!
# Texts of the app

What Kotlin does with the texts of the app: code units that are white space, trimming, and
numbers.
-/

namespace Hns

/-- `Char.isWhitespace`, of a code unit. -/
def isKotlinWhitespace (unit : UInt16) : Bool :=
  (0x09 ≤ unit ∧ unit ≤ 0x0d) ∨ (0x1c ≤ unit ∧ unit ≤ 0x20) ∨ unit = 0xa0 ∨ unit = 0x1680 ∨
    (0x2000 ≤ unit ∧ unit ≤ 0x200a) ∨ unit = 0x2028 ∨ unit = 0x2029 ∨ unit = 0x202f ∨
    unit = 0x205f ∨ unit = 0x3000

/-- `trimEnd`. -/
def kotlinTrimEnd (p : UInt16 → Bool) (text : List UInt16) : List UInt16 :=
  (text.reverse.dropWhile p).reverse

/-- `trim`. -/
def kotlinTrim (text : List UInt16) : List UInt16 :=
  kotlinTrimEnd isKotlinWhitespace (text.dropWhile isKotlinWhitespace)

/-- `trim`, of a text in ISO 8859-1. -/
def trimLatin1 (text : List UInt8) : List UInt8 :=
  (text.dropWhile fun octet => isKotlinWhitespace octet.toUInt16).rdropWhile fun octet =>
    isKotlinWhitespace octet.toUInt16

/-! ## Numbers -/

/-- `toIntOrNull` and `toLongOrNull`: an integer of so many bits. -/
def toSignedOrNull (bits : ℕ) (text : List Char) : Option ℤ :=
  let (negative, digits) :=
    if text.head? = some '-' then (true, text.tail)
    else if text.head? = some '+' then (false, text.tail) else (false, text)
  if digits = [] ∨ ¬digits.all Char.isDigit then none
  else
    let n := Nat.ofDigitChars 10 digits 0
    if negative then if n ≤ 2 ^ (bits - 1) then some (-(n : ℤ)) else none
    else if n < 2 ^ (bits - 1) then some n else none

/-- A number in decimal is read, if it is within the bounds. -/
theorem toSignedOrNull_decimal (bits n : ℕ) :
    toSignedOrNull bits (Chars.decimal n) = if n < 2 ^ (bits - 1) then some (n : ℤ) else none := by
  obtain ⟨c, digits, hdigits, hc⟩ := Chars.exists_decimal n
  have hhead (d : Char) (hd : ¬d.isDigit) : (Chars.decimal n).head? ≠ some d := by
    rw [hdigits]
    rintro h
    rw [Option.some.inj h] at hc
    exact hd hc
  have hall : ¬(Chars.decimal n = [] ∨ ¬(Chars.decimal n).all Char.isDigit) := by
    rw [not_or, not_not, List.all_eq_true]
    exact ⟨hdigits ▸ List.cons_ne_nil c digits, fun d hd => Chars.isDigit_of_mem_decimal hd⟩
  rw [toSignedOrNull, if_neg (hhead '-' (by decide)), if_neg (hhead '+' (by decide))]
  dsimp only
  rw [if_neg hall, if_neg (by decide), Chars.decimal,
    Nat.ofDigitChars_toDigits (by decide) (by decide)]

end Hns
