import TreeCheck.Decimal.Basic

/-!
# Reading decimal numbers

A written decimal number is a sign, digits with at most one point among them, and an exponent; or
a sign and the word for an infinity or for no number, in any case, the latter with a payload of
digits. Blanks around it and underscores anywhere are ignored, and the digits of any script count.

Source: `SPEC_FULL.md`, section 3 (values of literals).
-/

namespace TreeCheck.Decimal

/-- The zeros of all scripts in the Unicode character database, version 14; the other digits of a
script follow its zero. -/
def scriptZeros : List Nat := [
  0x30, 0x660, 0x6F0, 0x7C0, 0x966, 0x9E6, 0xA66, 0xAE6, 0xB66, 0xBE6, 0xC66, 0xCE6, 0xD66,
   0xDE6, 0xE50, 0xED0, 0xF20, 0x1040, 0x1090, 0x17E0, 0x1810, 0x1946, 0x19D0, 0x1A80, 0x1A90,
   0x1B50, 0x1BB0, 0x1C40, 0x1C50, 0xA620, 0xA8D0, 0xA900, 0xA9D0, 0xA9F0, 0xAA50, 0xABF0,
   0xFF10, 0x104A0, 0x10D30, 0x11066, 0x110F0, 0x11136, 0x111D0, 0x112F0, 0x11450, 0x114D0,
   0x11650, 0x116C0, 0x11730, 0x118E0, 0x11950, 0x11C50, 0x11D50, 0x11DA0, 0x16A60, 0x16AC0,
   0x16B50, 0x1D7CE, 0x1D7D8, 0x1D7E2, 0x1D7EC, 0x1D7F6, 0x1E140, 0x1E2F0, 0x1E950, 0x1FBF0]

/-- The value of a decimal digit of any script. -/
def digitOfScript? (c : CodePoint) : Option Nat :=
  (scriptZeros.find? fun first ↦ first ≤ c.toNat ∧ c.toNat < first + 10).map fun first ↦
    c.toNat - first

/-- Whether a code point is a blank. -/
def isBlank (c : CodePoint) : Bool :=
  let n := c.toNat
  (0x9 ≤ n && n ≤ 0xD) || (0x1C ≤ n && n ≤ 0x20) || n == 0x85 || n == 0xA0 || n == 0x1680 ||
    (0x2000 ≤ n && n ≤ 0x200A) || n == 0x2028 || n == 0x2029 || n == 0x202F || n == 0x205F ||
    n == 0x3000

/-- The characters that matter: blanks around the number and underscores are dropped, and digits
are written in ASCII. -/
def plainCharacters (t : Text) : Option (List Char) :=
  let inner := ((t.dropWhile isBlank).reverse.dropWhile isBlank).reverse
  (inner.filter fun c ↦ c != .scalar '_').mapM fun c ↦
    match digitOfScript? c with
    | some d => some (Nat.digitChar d)
    | none => if c.toNat < 0x80 then c.toChar? else none

/-- The value of a run of digits, unless something else is in it. -/
def digitRun? (cs : List Char) : Option Nat :=
  if cs.all Char.isDigit then some (Nat.ofDigitChars 10 cs 0) else none

/-- The value of a signed run of at least one digit. -/
def exponentValue? (cs : List Char) : Option Int :=
  let (negative, digits) := match cs with
    | '-' :: rest => (true, rest)
    | '+' :: rest => (false, rest)
    | _ => (false, cs)
  if digits.isEmpty then none
  else (digitRun? digits).map fun n ↦ if negative then -(n : Int) else n

/-- An unsigned finite number. -/
def magnitudeOf? (negative : Bool) (cs : List Char) : Option Decimal := do
  let isMark := fun c ↦ c == 'e' || c == 'E'
  let mantissa := cs.takeWhile fun c ↦ !isMark c
  let exponent ← match cs.dropWhile fun c ↦ !isMark c with
    | [] => some 0
    | _ :: rest => exponentValue? rest
  let whole := mantissa.takeWhile fun c ↦ c != '.'
  let fraction := (mantissa.dropWhile fun c ↦ c != '.').drop 1
  if whole.isEmpty && fraction.isEmpty then none
  else
    let coefficient ← digitRun? (whole ++ fraction)
    ofParts? negative coefficient (exponent - fraction.length)

/-- A number without its sign. -/
def unsignedOf? (negative : Bool) (cs : List Char) : Option Decimal :=
  let lower := cs.map Char.toLower
  if lower == "inf".toList || lower == "infinity".toList then some (infinite negative)
  else if "nan".toList.isPrefixOf lower then
    (digitRun? (cs.drop 3)).map (notANumber negative false)
  else if "snan".toList.isPrefixOf lower then
    (digitRun? (cs.drop 4)).map (notANumber negative true)
  else magnitudeOf? negative cs

/-- Read a decimal number; there is none if the text is malformed or the exponent is out of
bounds. -/
def ofText? (t : Text) : Option Decimal := do
  match ← plainCharacters t with
  | '-' :: rest => unsignedOf? true rest
  | '+' :: rest => unsignedOf? false rest
  | cs => unsignedOf? false cs

end TreeCheck.Decimal
