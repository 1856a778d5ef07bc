import TreeCheck.Json.Value

/-!
# Reading JSON

The reader works from left to right and stops at the first mistake, which it reports by its line.
It accepts the words `NaN`, `Infinity` and `-Infinity`, joins the halves of an escaped surrogate
pair, and leaves a half that stands alone as it is. A decimal number whose exponent is out of
bounds ends the reading where it stands.

Source: `SPEC_FULL.md`, section 6 (tree interchange).
-/

namespace TreeCheck.Json

/-- What is wrong with a document. -/
inductive Problem where
  | expectedValue
  | expectedName
  | expectedColon
  | expectedComma
  | extraData
  | unterminatedString
  | controlCharacter
  | badEscape
  | badUnicodeEscape
  | byteOrderMark
deriving DecidableEq, Repr

/-- The wording of a problem. -/
def Problem.message : Problem → Text
  | expectedValue => "Expecting value"
  | expectedName => "Expecting property name enclosed in double quotes"
  | expectedColon => "Expecting ':' delimiter"
  | expectedComma => "Expecting ',' delimiter"
  | extraData => "Extra data"
  | unterminatedString => "Unterminated string starting at"
  | controlCharacter => "Invalid control character at"
  | badEscape => "Invalid \\escape"
  | badUnicodeEscape => "Invalid \\uXXXX escape"
  | byteOrderMark => "Unexpected UTF-8 BOM (decode using utf-8-sig)"

/-- Why reading stopped: a problem where `rest` begins, or an exponent out of bounds. -/
inductive Stop where
  | problem (rest : Text) (what : Problem)
  | exponentOutOfBounds
deriving DecidableEq, Repr

/-- Whether a code point may stand between the parts of a document. -/
def isBlank (c : CodePoint) : Bool :=
  c = .scalar ' ' || c = .scalar '\t' || c = .scalar '\n' || c = .scalar '\r'

/-- Pass over blanks. -/
def skipBlanks (t : Text) : Text := t.dropWhile isBlank

/-- The code unit that four hexadecimal digits spell. -/
def codeUnit? (a b c d : CodePoint) : Option Nat := do
  return ((← a.hexDigit?) * 16 + (← b.hexDigit?)) * 256 + (← c.hexDigit?) * 16 + (← d.hexDigit?)

/-- Whether a code unit is the first half of a surrogate pair. -/
def isHighSurrogate (unit : Nat) : Bool := 0xD800 ≤ unit && unit < 0xDC00

/-- Whether a code unit is the second half of a surrogate pair. -/
def isLowSurrogate (unit : Nat) : Bool := 0xDC00 ≤ unit && unit < 0xE000

/-- The code point that a surrogate pair stands for. -/
def joinSurrogates (high low : Nat) : CodePoint :=
  .ofNat (0x10000 + (high - 0xD800) * 0x400 + (low - 0xDC00))

/-- The code point that a letter behind a backslash stands for. -/
def simpleEscape? : CodePoint → Option CodePoint
  | .scalar '\x22' => some (.scalar '\x22')
  | .scalar '\x5c' => some (.scalar '\x5c')
  | .scalar '/' => some (.scalar '/')
  | .scalar 'b' => some (.scalar '\x08')
  | .scalar 'f' => some (.scalar '\x0c')
  | .scalar 'n' => some (.scalar '\n')
  | .scalar 'r' => some (.scalar '\r')
  | .scalar 't' => some (.scalar '\t')
  | _ => none

/-- Read a string up to its closing quote. `opening` is the text from the opening quote on, and
`done` is what has been read, last code point first. A unicode escape must have something behind
it. -/
def stringBody (opening done : Text) : Text → Except Stop (Text × Text)
  | [] => .error (.problem opening .unterminatedString)
  | .scalar '\x22' :: rest => .ok (done.reverse, rest)
  | [.scalar '\x5c'] => .error (.problem opening .unterminatedString)
  | .scalar '\x5c' :: .scalar 'u' :: a :: b :: c :: d :: e :: rest =>
    match codeUnit? a b c d with
    | none => .error (.problem opening .badUnicodeEscape)
    | some unit =>
      if isHighSurrogate unit then
        match e, rest with
        | .scalar '\x5c', .scalar 'u' :: f :: g :: h :: i :: j :: rest =>
          match codeUnit? f g h i with
          | none => .error (.problem opening .badUnicodeEscape)
          | some second =>
            if isLowSurrogate second then
              stringBody opening (joinSurrogates unit second :: done) (j :: rest)
            else
              stringBody opening (.ofNat unit :: done)
                (.scalar '\x5c' :: .scalar 'u' :: f :: g :: h :: i :: j :: rest)
        | e, rest => stringBody opening (.ofNat unit :: done) (e :: rest)
      else stringBody opening (.ofNat unit :: done) (e :: rest)
  | .scalar '\x5c' :: .scalar 'u' :: _ => .error (.problem opening .badUnicodeEscape)
  | .scalar '\x5c' :: c :: rest =>
    match simpleEscape? c with
    | none => .error (.problem opening .badEscape)
    | some c => stringBody opening (c :: done) rest
  | c :: rest =>
    if c.toNat < 0x20 then .error (.problem opening .controlCharacter)
    else stringBody opening (c :: done) rest

/-- Read a string whose opening quote has been passed. -/
def string (rest : Text) : Except Stop (Text × Text) := stringBody rest [] rest

/-- The digits at the start of a text, and the rest. -/
def digits (t : Text) : Text × Text :=
  (t.takeWhile CodePoint.isDigit, t.dropWhile CodePoint.isDigit)

/-- The whole part of a number: a zero, or digits that do not start with one. -/
def wholePart? : Text → Option (Text × Text)
  | .scalar '0' :: rest => some ([.scalar '0'], rest)
  | c :: rest => if c.isDigit then some (digits (c :: rest)) else none
  | [] => none

/-- The fraction of a number: a point and at least one digit. -/
def fraction? : Text → Option (Text × Text)
  | .scalar '.' :: rest => if (digits rest).1.isEmpty then none else some (digits rest)
  | _ => none

/-- The exponent of a number: its mark, perhaps a sign, and at least one digit. -/
def exponent? : Text → Option (Int × Text)
  | .scalar mark :: rest =>
    if mark = 'e' ∨ mark = 'E' then
      match rest with
      | .scalar '-' :: rest => (magnitude? rest).map fun (n, rest) ↦ (-(n : Int), rest)
      | .scalar '+' :: rest => (magnitude? rest).map fun (n, rest) ↦ ((n : Int), rest)
      | rest => (magnitude? rest).map fun (n, rest) ↦ ((n : Int), rest)
    else none
  | _ => none
where
  /-- At least one digit. -/
  magnitude? (t : Text) : Option (Nat × Text) :=
    if (digits t).1.isEmpty then none else some (Text.digitsValue (digits t).1, (digits t).2)

/-- Read a number; `start` is the text from its sign on, where a missing number is reported. A
number without a fraction and an exponent is whole. -/
def number (start : Text) : Except Stop (Value × Text) :=
  let (negative, unsigned) := match start with
    | .scalar '-' :: rest => (true, rest)
    | _ => (false, start)
  match wholePart? unsigned with
  | none => .error (.problem start .expectedValue)
  | some (whole, rest) =>
    let (fraction, afterFraction) := (fraction? rest).getD ([], rest)
    match fraction, exponent? afterFraction with
    | [], none =>
      let value : Int := Text.digitsValue whole
      .ok (.integer (if negative then -value else value), rest)
    | fraction, exponent =>
      let (exponent, rest) := exponent.getD (0, afterFraction)
      match Decimal.ofParts? negative (Text.digitsValue (whole ++ fraction))
          (exponent - fraction.length) with
      | none => .error .exponentOutOfBounds
      | some d => .ok (.decimal d, rest)

/-- The words that stand for a value. -/
def words : List (Text × Value) :=
  [("null", .null), ("true", .bool true), ("false", .bool false),
   ("NaN", .nonFinite .notANumber), ("Infinity", .nonFinite .infinity),
   ("-Infinity", .nonFinite .negativeInfinity)]

/-- Read a word or a number. -/
def scalar (t : Text) : Except Stop (Value × Text) :=
  match words.findSome? fun (word, value) ↦ (Text.after? word t).map (value, ·) with
  | some found => .ok found
  | none => number t

/-- The number of nested calls that reading a value can take: two for every code point, because
a bracket leads from the value to its parts and from there to the first part. -/
def callBound (t : Text) : Nat := 2 * t.length + 1

mutual

/-- Read a value. `callBound` is always enough, and then the bound is never met. -/
def value : (bound : Nat) → Text → Except Stop (Value × Text)
  | 0, t => .error (.problem t .expectedValue)
  | bound + 1, t =>
    match t with
    | .scalar '\x22' :: rest => do
      let (s, rest) ← string rest
      return (.string s, rest)
    | .scalar '\x7b' :: rest =>
      match skipBlanks rest with
      | .scalar '\x7d' :: rest => .ok (.object [], rest)
      | rest => members bound [] rest
    | .scalar '[' :: rest =>
      match skipBlanks rest with
      | .scalar ']' :: rest => .ok (.array [], rest)
      | rest => elements bound [] rest
    | t => scalar t

/-- Read the remaining members of an object and its closing brace. -/
def members : (bound : Nat) → (done : Entries) → Text → Except Stop (Value × Text)
  | 0, _, t => .error (.problem t .expectedName)
  | bound + 1, done, t =>
    match t with
    | .scalar '\x22' :: rest => do
      let (key, rest) ← string rest
      match skipBlanks rest with
      | .scalar ':' :: rest =>
        let (v, rest) ← value bound (skipBlanks rest)
        let done := done.insert key v
        match skipBlanks rest with
        | .scalar '\x7d' :: rest => return (.object done, rest)
        | .scalar ',' :: rest => members bound done (skipBlanks rest)
        | rest => throw (.problem rest .expectedComma)
      | rest => throw (.problem rest .expectedColon)
    | t => .error (.problem t .expectedName)

/-- Read the remaining elements of an array, the last first in `done`, and its closing bracket. -/
def elements : (bound : Nat) → (done : List Value) → Text → Except Stop (Value × Text)
  | 0, _, t => .error (.problem t .expectedValue)
  | bound + 1, done, t => do
    let (v, rest) ← value bound t
    match skipBlanks rest with
    | .scalar ']' :: rest => return (.array (v :: done).reverse, rest)
    | .scalar ',' :: rest => elements bound (v :: done) (skipBlanks rest)
    | rest => throw (.problem rest .expectedComma)

end

/-- Why a document cannot be read. -/
inductive ReadError where
  | malformed (line : Nat) (what : Problem)
  | exponentOutOfBounds
deriving DecidableEq, Repr

/-- The line on which `rest`, the end of `whole`, begins. -/
def lineOf (whole rest : Text) : Nat :=
  1 + whole.count (.scalar '\n') - rest.count (.scalar '\n')

/-- Read a document that holds one value between blanks. -/
def document (t : Text) : Except Stop (Value × Text) :=
  match t with
  | .scalar '\ufeff' :: _ => .error (.problem t .byteOrderMark)
  | _ => do
    let (v, rest) ← value (callBound t) (skipBlanks t)
    match skipBlanks rest with
    | [] => return (v, [])
    | rest => throw (.problem rest .extraData)

/-- The value that a document holds. -/
def parse (t : Text) : Except ReadError Value :=
  match document t with
  | .ok (v, _) => .ok v
  | .error (.problem rest what) => .error (.malformed (lineOf t rest) what)
  | .error .exponentOutOfBounds => .error .exponentOutOfBounds

end TreeCheck.Json
