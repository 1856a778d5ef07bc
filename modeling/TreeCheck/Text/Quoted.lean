import TreeCheck.Text.Numeral
import TreeCheck.Text.Printable

/-!
# Quoted texts

A quoted text stands between single quotes, or between double quotes if it holds a single quote
and no double quote. The backslash, the quote, and what cannot be shown are escaped, so a quoted
text fills one line.
-/

namespace TreeCheck.Text

private def singleQuote : CodePoint := .scalar '\x27'

private def doubleQuote : CodePoint := .scalar '\x22'

private def backslash : CodePoint := .scalar '\x5c'

/-- The hexadecimal digits of a number, filled up with zeros to `width`. -/
def hexadecimal (width n : Nat) : Text :=
  let digits := (Nat.toDigits 16 n).map CodePoint.scalar
  List.replicate (width - digits.length) (.scalar '0') ++ digits

/-- How one code point is written between `quote` marks. -/
def escaped (quote c : CodePoint) : Text :=
  if c = backslash ∨ c = quote then [backslash, c]
  else if c = .scalar '\n' then [backslash, .scalar 'n']
  else if c = .scalar '\r' then [backslash, .scalar 'r']
  else if c = .scalar '\t' then [backslash, .scalar 't']
  else if c.isPrintable then [c]
  else if c.toNat < 0x100 then backslash :: .scalar 'x' :: hexadecimal 2 c.toNat
  else if c.toNat < 0x10000 then backslash :: .scalar 'u' :: hexadecimal 4 c.toNat
  else backslash :: .scalar 'U' :: hexadecimal 8 c.toNat

/-- The mark that a text is quoted with. -/
def quoteMark (t : Text) : CodePoint :=
  if singleQuote ∈ t ∧ doubleQuote ∉ t then doubleQuote else singleQuote

/-- A text between quote marks. -/
def quoted (t : Text) : Text :=
  quoteMark t :: t.flatMap (escaped (quoteMark t)) ++ [quoteMark t]

/-- Quoted texts between square brackets. -/
def quotedList (ts : List Text) : Text := "[" ++ join ", " (ts.map quoted) ++ "]"

/-- Quoted texts between parentheses; a single one is followed by a comma. -/
def quotedTuple (ts : List Text) : Text :=
  match ts with
  | [t] => "(" ++ quoted t ++ ",)"
  | _ => "(" ++ join ", " (ts.map quoted) ++ ")"

end TreeCheck.Text
