/-!
# Texts as sequences of code points

A document may spell half of a surrogate pair on its own, and such a half can end up in a name or
a message. A text is therefore a list of code points, and a code point is a character or an
unpaired half. Texts are ordered by the values of their code points.
-/

namespace TreeCheck

/-- A character, or half of a surrogate pair that stands alone. -/
inductive CodePoint where
  | scalar (c : Char)
  | surrogate (half : Fin 2048)
deriving DecidableEq, Repr, Inhabited

namespace CodePoint

/-- The first surrogate value. -/
def surrogateBase : Nat := 0xD800

/-- The value of a code point. -/
def toNat : CodePoint → Nat
  | scalar c => c.toNat
  | surrogate half => surrogateBase + half.val

/-- The code point of a value; a value that is no code point gives NUL. -/
def ofNat (n : Nat) : CodePoint :=
  if surrogateBase ≤ n ∧ n < surrogateBase + 2048 then
    surrogate (Fin.ofNat 2048 (n - surrogateBase))
  else scalar (Char.ofNat n)

/-- The character that a code point is, unless it is an unpaired surrogate. -/
def toChar? : CodePoint → Option Char
  | scalar c => some c
  | surrogate _ => none

instance : Ord CodePoint where
  compare a b := compare a.toNat b.toNat

/-- The value of a decimal digit. -/
def digit? : CodePoint → Option Nat
  | scalar c => if c.isDigit then some (c.toNat - 48) else none
  | surrogate _ => none

/-- Whether a code point is one of the ten decimal digits. -/
def isDigit : CodePoint → Bool
  | scalar c => c.isDigit
  | surrogate _ => false

/-- The value of a hexadecimal digit in either case. -/
def hexDigit? : CodePoint → Option Nat
  | scalar c =>
    if c.isDigit then some (c.toNat - 48)
    else if 'a' ≤ c ∧ c ≤ 'f' then some (c.toNat - 87)
    else if 'A' ≤ c ∧ c ≤ 'F' then some (c.toNat - 55)
    else none
  | surrogate _ => none

/-- Whether a code point is a letter from `a` to `z` in either case. -/
def isLatinLetter : CodePoint → Bool
  | scalar c => c.isAlpha
  | surrogate _ => false

end CodePoint

/-- A sequence of code points. -/
abbrev Text := List CodePoint

namespace Text

/-- The text that a string holds. -/
def ofString (s : String) : Text := s.toList.map .scalar

instance : Coe String Text where
  coe := ofString

/-- A text of one character. -/
def ofChar (c : Char) : Text := [.scalar c]

/-- The string that a text holds, unless a surrogate stands alone in it. -/
def toString? (t : Text) : Option String :=
  (t.mapM CodePoint.toChar?).map String.ofList

/-- Put `separator` between the parts. -/
def join (separator : Text) (parts : List Text) : Text := List.intercalate separator parts

/-- Cut a text at every occurrence of `separator`; the result is never empty. -/
def split (separator : CodePoint) : Text → List Text
  | [] => [[]]
  | c :: rest =>
    if c = separator then [] :: split separator rest
    else match split separator rest with
      | [] => [[c]]
      | part :: parts => (c :: part) :: parts

/-- What follows `start` in `t`, if `t` begins with it. -/
def after? (start t : Text) : Option Text :=
  if start.isPrefixOf t then some (t.drop start.length) else none

/-- Whether `t` ends with `ending`. -/
def endsWith (t ending : Text) : Bool := ending.isSuffixOf t

/-- The text repeated `n` times. -/
def times (n : Nat) (t : Text) : Text := (List.replicate n t).flatten

end Text

end TreeCheck
