import TreeCheck.Text.Basic

/-!
# Whole numbers in decimal

Numbers are written in base ten without leading zeros. A number of more than `maxDigits` digits is
never written out: where a message must mention one, its size in bits stands in for it.
-/

namespace TreeCheck.Text

/-- The decimal digits of a natural number. -/
def ofNat (n : Nat) : Text := (Nat.toDigits 10 n).map .scalar

/-- The decimal digits of an integer, after a minus sign if it is negative. -/
def ofInt (n : Int) : Text :=
  if n < 0 then "-" ++ ofNat n.natAbs else ofNat n.natAbs

/-- The value of a run of decimal digits; other code points count as the digit zero. -/
def digitsValue (t : Text) : Nat :=
  t.foldl (fun value c ↦ 10 * value + c.digit?.getD 0) 0

/-- The largest number of digits that is written out. -/
def maxDigits : Nat := 4300

/-- Whether an integer is short enough to be written out. -/
def isWritable (n : Int) : Bool := n.natAbs < Nat.pow 10 maxDigits

/-- The number of binary digits of a natural number. -/
def bitLength (n : Nat) : Nat := if n = 0 then 0 else n.log2 + 1

/-- An integer for a message: the ends of a long one, the size of one too long to write. -/
def abbreviatedInt (n : Int) : Text :=
  if isWritable n then
    let shown := ofInt n
    if 40 < shown.length then
      shown.take 20 ++ "..." ++ shown.drop (shown.length - 10) ++
        " (" ++ ofNat (ofNat n.natAbs).length ++ " digits)"
    else shown
  else
    (if n < 0 then ("-" : Text) else []) ++ "<" ++ ofNat (bitLength n.natAbs) ++ "-bit integer>"

end TreeCheck.Text
