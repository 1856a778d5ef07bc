import TreeCheck.Toml.Value

/-!
# Strings, numbers and dates in TOML

Each reader takes a text and gives what stands at its start together with the rest.

Source: `SPEC_FULL.md`, section 8 (configuration).
-/

namespace TreeCheck.Toml

/-- Whether a code point is a blank within a line. -/
def isBlank (c : CodePoint) : Bool := c = .scalar ' ' || c = .scalar '\t'

/-- Whether a code point is a blank or a line feed. -/
def isSpace (c : CodePoint) : Bool := isBlank c || c = .scalar '\n'

/-- Pass over blanks within a line. -/
def skipBlanks (t : Text) : Text := t.dropWhile isBlank

/-- Whether a code point is a control character that no string or comment on one line may hold. -/
def isControl (c : CodePoint) : Bool :=
  (c.toNat < 0x20 && c != .scalar '\t') || c.toNat = 0x7F

/-- Whether a code point is a control character that no string on many lines may hold. -/
def isControlInLines (c : CodePoint) : Bool := isControl c && c != .scalar '\n'

/-- The text before the first occurrence of `mark`, and the text from there on. -/
def splitAt? (mark : Text) : Text → Option (Text × Text)
  | [] => if mark.isEmpty then some ([], []) else none
  | c :: rest =>
    if mark.isPrefixOf (c :: rest) then some ([], c :: rest)
    else (splitAt? mark rest).map fun (before, after) ↦ (c :: before, after)

/-- Refuse the first code point of `body` that is forbidden; `rest` follows `body`. -/
def refuse (forbidden : CodePoint → Bool) : (body rest : Text) → Except Stop Unit
  | [], _ => .ok ()
  | c :: body, rest =>
    if forbidden c then .error (.problem (c :: body ++ rest) (.invalidCharacter c))
    else refuse forbidden body rest

/-- Pass over a comment, if there is one, up to the end of its line. -/
def skipComment (t : Text) : Except Stop Text :=
  match t with
  | .scalar '#' :: rest => do
    let body := rest.takeWhile fun c ↦ c != .scalar '\n'
    let rest := rest.dropWhile fun c ↦ c != .scalar '\n'
    refuse isControl body rest
    return rest
  | t => .ok t

/-- Read up to `mark` and pass over it; nothing is escaped. -/
def literalBody (mark : Text) (forbidden : CodePoint → Bool) (t : Text) :
    Except Stop (Text × Text) :=
  match splitAt? mark t with
  | none => .error (.problem [] (.expectedMark mark))
  | some (body, rest) => do
    refuse forbidden body rest
    return (body, rest.drop mark.length)

/-- Read a literal string whose opening mark has been passed. -/
def literalString (t : Text) : Except Stop (Text × Text) := literalBody "'" isControl t

/-- The code point that hexadecimal digits spell. -/
def hexEscape (count : Nat) (t : Text) : Except Stop (Text × Text) :=
  let written := t.take count
  match written.mapM CodePoint.hexDigit? with
  | none => .error (.problem t .invalidHex)
  | some digits =>
    if written.length ≠ count then .error (.problem t .invalidHex)
    else
      let n := digits.foldl (fun value d ↦ 16 * value + d) 0
      let rest := t.drop count
      if n < 0xD800 ∨ (0xE000 ≤ n ∧ n < 0x110000) then .ok ([.ofNat n], rest)
      else .error (.problem rest .notAScalarValue)

/-- The rest of a line that ends in a backslash, and the blanks and empty lines after it. -/
def lineContinuation (t : Text) : Except Stop (Text × Text) :=
  match skipBlanks t with
  | [] => .ok ([], [])
  | .scalar '\n' :: rest => .ok ([], rest.dropWhile isSpace)
  | rest => .error (.problem rest .strayBackslash)

/-- Read what follows a backslash in a basic string. -/
def escape (manyLines : Bool) (t : Text) : Except Stop (Text × Text) :=
  match t with
  | [] => .error (.problem [] .strayBackslash)
  | c :: rest =>
    if manyLines && isSpace c then lineContinuation (c :: rest)
    else match c with
      | .scalar 'u' => hexEscape 4 rest
      | .scalar 'U' => hexEscape 8 rest
      | .scalar 'b' => .ok ([.scalar '\x08'], rest)
      | .scalar 't' => .ok ([.scalar '\t'], rest)
      | .scalar 'n' => .ok ([.scalar '\n'], rest)
      | .scalar 'f' => .ok ([.scalar '\x0c'], rest)
      | .scalar 'r' => .ok ([.scalar '\r'], rest)
      | .scalar '\x22' => .ok ([.scalar '\x22'], rest)
      | .scalar '\x5c' => .ok ([.scalar '\x5c'], rest)
      | _ => .error (.problem rest .strayBackslash)

/-- Read a basic string up to its closing mark; `done` is what has been read, in reverse. Every
step takes at least one code point, so the length of the text bounds their number. -/
def basicBody (manyLines : Bool) : (bound : Nat) → (done : Text) → Text → Except Stop (Text × Text)
  | 0, _, t => .error (.problem t .unterminatedString)
  | bound + 1, done, t =>
    match t with
    | [] => .error (.problem [] .unterminatedString)
    | .scalar '\x5c' :: rest => do
      let (piece, rest) ← escape manyLines rest
      basicBody manyLines bound (piece.reverse ++ done) rest
    | .scalar '\x22' :: rest =>
      if !manyLines then .ok (done.reverse, rest)
      else match rest with
        | .scalar '\x22' :: .scalar '\x22' :: rest => .ok (done.reverse, rest)
        | rest => basicBody manyLines bound (.scalar '\x22' :: done) rest
    | c :: rest =>
      if (if manyLines then isControlInLines c else isControl c) then
        .error (.problem (c :: rest) (.illegalCharacter c))
      else basicBody manyLines bound (c :: done) rest

/-- Read a basic string whose opening mark has been passed. -/
def basicString (t : Text) : Except Stop (Text × Text) := basicBody false (t.length + 1) [] t

/-- One or two further marks behind a string on many lines belong to it. -/
def extraMarks (mark : CodePoint) (body rest : Text) : Text × Text :=
  match rest with
  | c :: rest =>
    if c ≠ mark then (body, c :: rest)
    else match rest with
      | c :: rest =>
        if c ≠ mark then (body ++ [mark], c :: rest) else (body ++ [mark, mark], rest)
      | [] => (body ++ [mark], [])
  | [] => (body, [])

/-- A line feed right behind the opening mark is left out. -/
def skipFirstLineFeed : Text → Text
  | .scalar '\n' :: rest => rest
  | t => t

/-- Read a string whose opening mark stands at the start: basic or literal, on one line or on
many. -/
def string? (t : Text) : Option (Except Stop (Text × Text)) :=
  match t with
  | .scalar '\x22' :: .scalar '\x22' :: .scalar '\x22' :: rest => some do
    let rest := skipFirstLineFeed rest
    let (body, rest) ← basicBody true (rest.length + 1) [] rest
    return extraMarks (.scalar '\x22') body rest
  | .scalar '\x22' :: rest => some (basicString rest)
  | .scalar '\x27' :: .scalar '\x27' :: .scalar '\x27' :: rest => some do
    let (body, rest) ← literalBody "'''" isControlInLines (skipFirstLineFeed rest)
    return extraMarks (.scalar '\x27') body rest
  | .scalar '\x27' :: rest => some (literalString rest)
  | _ => none

/-! ### Dates and times -/

/-- Exactly `count` digits and their value. -/
def fixedDigits? (count : Nat) (t : Text) : Option (Nat × Text) :=
  let digits := t.take count
  if digits.length = count ∧ digits.all CodePoint.isDigit then
    some (Text.digitsValue digits, t.drop count)
  else none

/-- Pass over one given character. -/
def mark? (c : Char) : Text → Option Text
  | d :: rest => if d = .scalar c then some rest else none
  | [] => none

/-- Two digits within bounds. -/
def twoDigits? (low high : Nat) (t : Text) : Option (Nat × Text) := do
  let (n, rest) ← fixedDigits? 2 t
  if low ≤ n ∧ n ≤ high then some (n, rest) else none

/-- Pass over a time of day; a fraction of a second needs a digit. -/
def time? (t : Text) : Option Text := do
  let (_, rest) ← twoDigits? 0 23 t
  let (_, rest) ← twoDigits? 0 59 (← mark? ':' rest)
  let (_, rest) ← twoDigits? 0 59 (← mark? ':' rest)
  match rest with
  | .scalar '.' :: d :: more =>
    if d.isDigit then some (more.dropWhile CodePoint.isDigit) else some rest
  | _ => some rest

/-- Pass over the offset of a time, if there is one. -/
def skipOffset (t : Text) : Text :=
  match t with
  | .scalar 'Z' :: rest => rest
  | .scalar 'z' :: rest => rest
  | .scalar '+' :: rest => (clock? rest).getD t
  | .scalar '-' :: rest => (clock? rest).getD t
  | _ => t
where
  /-- Hours and minutes. -/
  clock? (t : Text) : Option Text := do
    let (_, rest) ← twoDigits? 0 23 t
    let (_, rest) ← twoDigits? 0 59 (← mark? ':' rest)
    some rest

/-- The number of days of a month. -/
def daysInMonth (year month : Nat) : Nat :=
  if month = 2 then
    if year % 4 = 0 ∧ (year % 100 ≠ 0 ∨ year % 400 = 0) then 29 else 28
  else if month ∈ [4, 6, 9, 11] then 30
  else 31

/-- Pass over a date and perhaps a time; also says whether the date exists. -/
def dateTime? (t : Text) : Option (Bool × Text) := do
  let (year, rest) ← fixedDigits? 4 t
  let (month, rest) ← twoDigits? 1 12 (← mark? '-' rest)
  let (day, rest) ← twoDigits? 1 31 (← mark? '-' rest)
  let real := 1 ≤ year ∧ day ≤ daysInMonth year month
  match rest with
  | c :: more =>
    if c = .scalar 'T' ∨ c = .scalar 't' ∨ c = .scalar ' ' then
      match time? more with
      | some rest => some (real, skipOffset rest)
      | none => some (real, rest)
    else some (real, rest)
  | [] => some (real, rest)

/-! ### Numbers -/

/-- Digits of a kind with single underscores between them, without the underscores. -/
def groupedDigits (isDigit : CodePoint → Bool) : Text → Text × Text
  | .scalar '_' :: d :: rest =>
    if isDigit d then
      let (digits, rest) := groupedDigits isDigit rest
      (d :: digits, rest)
    else ([], .scalar '_' :: d :: rest)
  | d :: rest =>
    if isDigit d then
      let (digits, rest) := groupedDigits isDigit rest
      (d :: digits, rest)
    else ([], d :: rest)
  | [] => ([], [])

/-- At least one digit of a kind, the first without an underscore before it. -/
def digitGroup? (isDigit : CodePoint → Bool) (t : Text) : Option (Text × Text) :=
  match t with
  | d :: _ => if isDigit d then some (groupedDigits isDigit t) else none
  | [] => none

/-- The value of digits in a base. -/
def valueInBase (base : Nat) (digits : Text) : Nat :=
  digits.foldl (fun value c ↦ base * value + c.hexDigit?.getD 0) 0

/-- Whether a code point is a digit in a base up to sixteen. -/
def isDigitInBase (base : Nat) (c : CodePoint) : Bool := c.hexDigit?.any (· < base)

/-- A whole number in base sixteen, two or eight. -/
def prefixedInteger? (t : Text) : Option (Value × Text) :=
  match t with
  | .scalar '0' :: .scalar 'x' :: rest => inBase 16 rest
  | .scalar '0' :: .scalar 'b' :: rest => inBase 2 rest
  | .scalar '0' :: .scalar 'o' :: rest => inBase 8 rest
  | _ => none
where
  /-- Digits in a base. -/
  inBase (base : Nat) (t : Text) : Option (Value × Text) :=
    (digitGroup? (isDigitInBase base) t).map fun (digits, rest) ↦
      (.integer (valueInBase base digits), rest)

/-- The digits before the point: a zero, or digits that do not start with one. -/
def wholeDigits? : Text → Option (Text × Text)
  | .scalar '0' :: rest => some ([.scalar '0'], rest)
  | t => digitGroup? CodePoint.isDigit t

/-- A point and digits. -/
def skipFraction? : Text → Option Text
  | .scalar '.' :: rest => (digitGroup? CodePoint.isDigit rest).map Prod.snd
  | _ => none

/-- A mark, perhaps a sign, and digits. -/
def skipExponent? : Text → Option Text
  | c :: rest =>
    if c = .scalar 'e' ∨ c = .scalar 'E' then
      let rest := match rest with
        | .scalar '+' :: rest => rest
        | .scalar '-' :: rest => rest
        | rest => rest
      (digitGroup? CodePoint.isDigit rest).map Prod.snd
    else none
  | [] => none

/-- A number in base ten; one with a fraction or an exponent is kept as it is written. -/
def decimalNumber? (t : Text) : Option (Except Stop (Value × Text)) := do
  let (negative, unsigned) := match t with
    | .scalar '-' :: rest => (true, rest)
    | .scalar '+' :: rest => (false, rest)
    | t => (false, t)
  let (digits, afterWhole) ← wholeDigits? unsigned
  let afterFraction := (skipFraction? afterWhole).getD afterWhole
  let rest := (skipExponent? afterFraction).getD afterFraction
  if rest.length < afterWhole.length then
    some (.ok (.float (t.take (t.length - rest.length)), rest))
  else if Text.maxDigits < digits.length then some (.error .tooManyDigits)
  else
    let n : Int := Text.digitsValue digits
    some (.ok (.integer (if negative then -n else n), rest))

/-- The words for numbers that are not finite. -/
def specialFloat? (t : Text) : Option (Value × Text) :=
  (["inf", "nan", "-inf", "+inf", "-nan", "+nan"] : List Text).findSome? fun word ↦
    (Text.after? word t).map fun rest ↦ (.float word, rest)

/-- Read a date, a time or a number. -/
def number (t : Text) : Except Stop (Value × Text) :=
  match dateTime? t with
  | some (true, rest) => .ok (.dateTime (t.take (t.length - rest.length)), rest)
  | some (false, _) => .error (.problem t .invalidDate)
  | none =>
    match time? t with
    | some rest => .ok (.dateTime (t.take (t.length - rest.length)), rest)
    | none =>
      match prefixedInteger? t with
      | some found => .ok found
      | none =>
        match decimalNumber? t with
        | some found => found
        | none =>
          match specialFloat? t with
          | some found => .ok found
          | none => .error (.problem t .invalidValue)

end TreeCheck.Toml
