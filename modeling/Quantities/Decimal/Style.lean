import Quantities.Decimal.Shortest

/-!
# Number text

How the digits of a double are laid out: with the decimal point in place, or with an exponent.
-/

namespace Quantities

namespace Decimal

/-- The digits with the decimal point in place, and `fraction` after a whole number. -/
def positional (fraction : String) (d : Decimal) : List Char :=
  let digits := Nat.toDigits 10 d.digits
  if 0 ≤ d.exponent then
    digits ++ List.replicate d.exponent.toNat '0' ++ fraction.toList
  else
    let places := (-d.exponent).toNat
    if places < digits.length then
      digits.take (digits.length - places) ++ '.' :: digits.drop (digits.length - places)
    else
      '0' :: '.' :: List.replicate (places - digits.length) '0' ++ digits

/-- One digit before the point, the others after it, and a signed exponent. -/
def scientific (d : Decimal) : List Char :=
  let mantissa :=
    match Nat.toDigits 10 d.digits with
    | lead :: second :: rest => lead :: '.' :: second :: rest
    | digits => digits
  let sign := if d.order < 0 then '-' else '+'
  mantissa ++ 'e' :: sign :: Nat.toDigits 10 d.order.natAbs

end Decimal

structure NumberStyle where
  /-- Orders of magnitude that are written without an exponent. -/
  isPositional : Int → Bool
  /-- What follows the digits of a whole number. -/
  fraction : String
  /-- Which of two equally near shortest decimals is written. -/
  tie : Tie

namespace NumberStyle

def layOut (style : NumberStyle) (d : Decimal) : List Char :=
  if style.isPositional d.order then d.positional style.fraction else d.scientific

def write (style : NumberStyle) (x : Float) : List Char :=
  if x.isNaN then
    "NaN".toList
  else
    let magnitude :=
      if x.isFinite then style.layOut (Decimal.shortest style.tie x) else "inf".toList
    if Binary64.isNegative x then '-' :: magnitude else magnitude

/-- Numbers in messages: never an exponent, and whole numbers without a fraction. -/
def plain : NumberStyle where
  isPositional := fun _ => true
  fraction := ""
  tie := .up

example : plain.write 1e21 = "1000000000000000000000".toList := by decide +kernel

example : plain.write 1.5e-7 = "0.00000015".toList := by decide +kernel

example : plain.write (-0.0) = "-0".toList := by decide +kernel

end NumberStyle

end Quantities
