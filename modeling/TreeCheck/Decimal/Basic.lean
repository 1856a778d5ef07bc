import TreeCheck.Text.Numeral

/-!
# Decimal numbers

A decimal number keeps the digits and the exponent it was written with, so `1.50` and `1.5` are
different. Its exponent is bounded; within the bounds nothing is ever rounded. Beside the finite
numbers there are the two infinities and values that are no number.

Source: `SPEC_FULL.md`, section 3 (values of literals).
-/

namespace TreeCheck

/-- A decimal number: `coefficient * 10 ^ exponent` with a sign, an infinity, or no number. -/
inductive Decimal where
  | finite (negative : Bool) (coefficient : Nat) (exponent : Int)
  | infinite (negative : Bool)
  | notANumber (negative signaling : Bool) (payload : Nat)
deriving DecidableEq, Repr

namespace Decimal

/-- The number of digits of a coefficient; zero has one. -/
def digitCount (coefficient : Nat) : Nat := (Nat.toDigits 10 coefficient).length

/-- The exponent of the first digit. -/
def adjusted (coefficient : Nat) (exponent : Int) : Int := exponent + digitCount coefficient - 1

/-- The largest exponent of a first digit. -/
def maxAdjusted : Int := 999999999999999999

/-- The least exponent. -/
def minExponent : Int := -1999999999999999997

/-- The finite number with these parts, unless its exponent is out of bounds. -/
def ofParts? (negative : Bool) (coefficient : Nat) (exponent : Int) : Option Decimal :=
  if adjusted coefficient exponent ≤ maxAdjusted ∧ minExponent ≤ exponent then
    some (finite negative coefficient exponent)
  else none

/-- Whether a number is a zero of either sign and any exponent. -/
def isZero : Decimal → Bool
  | finite _ coefficient _ => coefficient = 0
  | _ => false

/-- A run of the digit zero. -/
def zeros (n : Nat) : Text := List.replicate n (.scalar '0')

/-- Digits with a point after the first `place` of them; a place outside them is reached by
zeros. -/
def pointed (digits : Text) (place : Int) : Text :=
  if place ≤ 0 then "0." ++ zeros place.natAbs ++ digits
  else if place < digits.length then
    digits.take place.toNat ++ "." ++ digits.drop place.toNat
  else digits ++ zeros (place.toNat - digits.length)

/-- A finite number without its sign. Plain notation is used if the exponent is not positive and
the first digit stands at most six places behind the point, else one digit before the point and
an exponent. -/
def magnitudeText (coefficient : Nat) (exponent : Int) : Text :=
  let digits := Text.ofNat coefficient
  let place := exponent + digits.length
  if exponent ≤ 0 ∧ -6 < place then pointed digits place
  else
    let shift := place - 1
    pointed digits 1 ++ "E" ++ (if shift < 0 then Text.ofInt shift else "+" ++ Text.ofInt shift)

/-- A decimal number as it is printed. -/
def toText : Decimal → Text
  | finite negative coefficient exponent =>
    signText negative ++ magnitudeText coefficient exponent
  | infinite negative => signText negative ++ "Infinity"
  | notANumber negative signaling payload =>
    signText negative ++ (if signaling then "sNaN" else "NaN") ++
      (if payload = 0 then [] else Text.ofNat payload)
where
  /-- A minus sign for a negative number. -/
  signText (negative : Bool) : Text := if negative then "-" else []

end Decimal

end TreeCheck
