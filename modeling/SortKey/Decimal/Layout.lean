import SortKey.Decimal.Shortest

namespace SortKey
namespace Decimal

/-!
# Doubles as text

The plain text of a double never has an exponent and gives whole numbers
without a point.  The detailed text gives whole numbers one place, and very
small or very large numbers an exponent.  Every NaN has the same text.
-/

/-- The decisions that make up a text of doubles. -/
structure Style where
  /-- Whether a whole number gets a point and a zero. -/
  wholePlace : Bool
  /-- Exponents of the leading digit below which the text has an exponent. -/
  positionalFrom : Option Int
  /-- Exponents of the leading digit from which the text has an exponent. -/
  positionalBelow : Option Int

/-- Always positional, and whole numbers without a point. -/
def plain : Style := ⟨false, none, none⟩

/-- Positional from `1e-4` up to, not including, `1e16`. -/
def detailed : Style := ⟨true, some (-4), some 16⟩

/-- Digits and a point, without an exponent. -/
def positional (style : Style) (digits : List Char) (exponent : Int) : List Char :=
  let zeros (n : Nat) := List.replicate n '0'
  if 0 ≤ exponent then
    digits ++ zeros exponent.toNat ++ if style.wholePlace then ['.', '0'] else []
  else
    let places := (-exponent).toNat
    if places < digits.length then
      digits.take (digits.length - places) ++ '.' :: digits.drop (digits.length - places)
    else
      '0' :: '.' :: zeros (places - digits.length) ++ digits

/-- One digit, a point if more follow, and the exponent of the first. -/
def scientific (digits : List Char) (leading : Int) : List Char :=
  digits.take 1 ++ (if digits.length > 1 then '.' :: digits.drop 1 else []) ++ 'e' ::
    (toString leading).toList

/-- The text of a positive decimal that does not end in a zero. -/
def Style.decimal (style : Style) (d : Numeral) : List Char :=
  let digits := Nat.toDigits 10 d.digits
  let leading := d.exponent + digits.length - 1
  let small := match style.positionalFrom with
    | some least => leading < least
    | none => false
  let large := match style.positionalBelow with
    | some bound => bound ≤ leading
    | none => false
  if small || large then scientific digits leading else positional style digits d.exponent

/-- The text of a double. -/
def Style.text (style : Style) (bits : UInt64) : String :=
  let sign := if isNegative bits then ['-'] else []
  if exponentBits bits = 2047 then
    if fractionBits bits = 0 then String.ofList (sign ++ ['i', 'n', 'f']) else "NaN"
  else if exponentBits bits = 0 ∧ fractionBits bits = 0 then
    String.ofList (sign ++ if style.wholePlace then ['0', '.', '0'] else ['0'])
  else
    String.ofList (sign ++ style.decimal (shortest (rounding bits)))

end Decimal
end SortKey
