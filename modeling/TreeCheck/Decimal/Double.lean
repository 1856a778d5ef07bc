import TreeCheck.Decimal.Basic

/-!
# Decimal numbers that a double can hold

A finite decimal number rounds to a finite double exactly when its magnitude is below the midpoint
between the largest double and the next power of two. Only a number whose first digit stands at the
same place as that of the midpoint is compared with it, so no large power of ten is computed.

Source: `SPEC_FULL.md`, section 4.5 (decimal literals).
-/

namespace TreeCheck.Decimal

/-- The least magnitude that rounds to infinity. -/
def doubleBound : Nat := Nat.pow 2 1024 - Nat.pow 2 970

/-- The exponent of the first digit of the bound. -/
def doubleBoundAdjusted : Int := 308

/-- Whether `coefficient * 10 ^ exponent` is below the bound, by multiplying out. -/
def isBelowDoubleBound (coefficient : Nat) (exponent : Int) : Bool :=
  if 0 ≤ exponent then coefficient * Nat.pow 10 exponent.toNat < doubleBound
  else coefficient < doubleBound * Nat.pow 10 (-exponent).toNat

/-- Whether a number rounds to a finite double. -/
def fitsDouble : Decimal → Bool
  | finite _ coefficient exponent =>
    let place := adjusted coefficient exponent
    coefficient = 0 || place < doubleBoundAdjusted ||
      (place = doubleBoundAdjusted && isBelowDoubleBound coefficient exponent)
  | infinite _ => false
  | notANumber _ _ _ => false

end TreeCheck.Decimal
