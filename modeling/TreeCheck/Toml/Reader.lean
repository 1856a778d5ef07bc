import TreeCheck.Text.Encoding
import TreeCheck.Toml.Document
import TreeCheck.Toml.Scalar

/-!
# Reading TOML

A document is read statement by statement: a pair of a key and a value, the header of a table, or
the header of an element of an array of tables. Reading stops at the first mistake, which is
reported by its line and column.

Source: `SPEC_FULL.md`, section 8 (configuration).
-/

namespace TreeCheck.Toml

/-- Whether a code point may stand in a key that is not quoted. -/
def isBareKey (c : CodePoint) : Bool :=
  c.isLatinLetter || c.isDigit || c = .scalar '-' || c = .scalar '_'

/-- Report a problem where `rest` begins, unless all is well. -/
def located {α : Type} (rest : Text) (x : Except Problem α) : Except Stop α :=
  x.mapError (.problem rest)

/-- Pass over blanks, line feeds and comments. -/
def skipLines : (bound : Nat) → Text → Except Stop Text
  | 0, t => .ok t
  | bound + 1, t =>
    match t.dropWhile isSpace with
    | .scalar '#' :: rest => do skipLines bound (← skipComment (.scalar '#' :: rest))
    | rest => .ok rest

/-- Read one part of a key. -/
def keyPart (t : Text) : Except Stop (Text × Text) :=
  match t with
  | .scalar '\x27' :: rest => literalString rest
  | .scalar '\x22' :: rest => basicString rest
  | c :: rest =>
    if isBareKey c then .ok (c :: rest.takeWhile isBareKey, rest.dropWhile isBareKey)
    else .error (.problem t .invalidKey)
  | [] => .error (.problem t .invalidKey)

/-- Read the parts of a key between points, and the blanks behind it. -/
def keyParts : (bound : Nat) → Text → Except Stop (Key × Text)
  | 0, t => .error (.problem t .invalidKey)
  | bound + 1, t => do
    let (part, rest) ← keyPart t
    match skipBlanks rest with
    | .scalar '.' :: rest => do
      let (parts, rest) ← keyParts bound (skipBlanks rest)
      return (part :: parts, rest)
    | rest => return ([part], rest)

/-- Read a key and the blanks behind it. -/
def key (t : Text) : Except Stop (Key × Text) := keyParts (t.length + 1) t

/-- Read a key, the sign behind it and the blanks behind that. -/
def keyAndEquals (t : Text) : Except Stop (Key × Text) := do
  let (k, rest) ← key t
  match rest with
  | .scalar '=' :: rest => return (k, skipBlanks rest)
  | rest => throw (.problem rest .expectedEquals)

/-- The number of nested calls that reading a value can take: two for every code point, because
a bracket leads from the value to its parts and from there to the first part. -/
def callBound (t : Text) : Nat := 2 * t.length + 1

mutual

/-- Read a value. `callBound` is always enough, and then the bound is never met. -/
def value : (bound : Nat) → Text → Except Stop (Value × Text)
  | 0, t => .error (.problem t .invalidValue)
  | bound + 1, t =>
    match string? t with
    | some found => do
      let (s, rest) ← found
      return (.string s, rest)
    | none =>
      match t with
      | .scalar '[' :: rest => do
        match ← skipLines rest.length rest with
        | .scalar ']' :: rest => return (.array [], rest)
        | rest => elements bound [] rest
      | .scalar '\x7b' :: rest =>
        match skipBlanks rest with
        | .scalar '\x7d' :: rest => .ok (.table [], rest)
        | rest => entries bound .empty rest
      | t =>
        match Text.after? "true" t, Text.after? "false" t with
        | some rest, _ => .ok (.boolean true, rest)
        | none, some rest => .ok (.boolean false, rest)
        | none, none => number t

/-- Read the remaining elements of an array, the last first in `done`, and its closing bracket. -/
def elements : (bound : Nat) → (done : List Value) → Text → Except Stop (Value × Text)
  | 0, _, t => .error (.problem t .unclosedArray)
  | bound + 1, done, t => do
    let (v, rest) ← value bound t
    match ← skipLines rest.length rest with
    | .scalar ']' :: rest => return (.array (v :: done).reverse, rest)
    | .scalar ',' :: rest =>
      match ← skipLines rest.length rest with
      | .scalar ']' :: rest => return (.array (v :: done).reverse, rest)
      | rest => elements bound (v :: done) rest
    | rest => throw (.problem rest .unclosedArray)

/-- Read the remaining entries of a table written in place, and its closing brace. -/
def entries : (bound : Nat) → (done : InlineTable) → Text → Except Stop (Value × Text)
  | 0, _, t => .error (.problem t .unclosedInlineTable)
  | bound + 1, done, t => do
    let (k, rest) ← keyAndEquals t
    let (v, rest) ← value bound rest
    let done ← located rest (done.assign k v)
    match skipBlanks rest with
    | .scalar '\x7d' :: rest => return (.table done.entries, rest)
    | .scalar ',' :: rest => entries bound done (skipBlanks rest)
    | rest => throw (.problem rest .unclosedInlineTable)

end

/-- Read a header whose opening brackets have been passed: its key, and `closing` behind it. -/
def header (d : Document) (place : Document → Key → Except Problem Document) (closing : Text)
    (unclosed : Problem) (t : Text) : Except Stop (Document × Text) := do
  let (k, rest) ← key (skipBlanks t)
  let d ← located rest (place d.closePending k)
  match Text.after? closing rest with
  | some rest => return (d, rest)
  | none => throw (.problem rest unclosed)

/-- Read a statement that is not empty, and the blanks behind it. -/
def statement (d : Document) (t : Text) : Except Stop (Document × Text) :=
  match t with
  | .scalar '[' :: .scalar '[' :: rest => do
    let (d, rest) ← header d Document.openArray "]]" .expectedArrayEnd rest
    return (d, skipBlanks rest)
  | .scalar '[' :: rest => do
    let (d, rest) ← header d Document.openTable "]" .expectedTableEnd rest
    return (d, skipBlanks rest)
  | .scalar '#' :: _ => .ok (d, t)
  | c :: _ =>
    if isBareKey c ∨ c = .scalar '\x22' ∨ c = .scalar '\x27' then do
      let (k, rest) ← keyAndEquals t
      let (v, rest) ← value (callBound rest) rest
      let d ← located rest (d.assign k v)
      return (d, skipBlanks rest)
    else .error (.problem t .invalidStatement)
  | [] => .ok (d, [])

/-- Read all statements. Every line takes at least one code point, so the length of the text bounds
their number. -/
def statements : (bound : Nat) → Document → Text → Except Stop Document
  | 0, d, _ => .ok d
  | bound + 1, d, t =>
    match skipBlanks t with
    | [] => .ok d
    | .scalar '\n' :: rest => statements bound d rest
    | t => do
      let (d, rest) ← statement d t
      match ← skipComment rest with
      | [] => return d
      | .scalar '\n' :: rest => statements bound d rest
      | rest => throw (.problem rest .expectedLineEnd)

/-- The place where `rest`, the end of `whole`, begins. -/
def place (whole rest : Text) : Text :=
  if rest.isEmpty then "end of document"
  else
    let before := whole.take (whole.length - rest.length)
    let line := 1 + before.count (.scalar '\n')
    let column := 1 + (before.reverse.takeWhile fun c ↦ c != .scalar '\n').length
    "line " ++ Text.ofNat line ++ ", column " ++ Text.ofNat column

/-- Why a document cannot be read. -/
inductive ReadError where
  | malformed (message : Text)
  | tooManyDigits
deriving DecidableEq, Repr

/-- The table that a document holds. -/
def parse (t : Text) : Except ReadError Table :=
  let t := t.joinLineEnds
  match statements (t.length + 1) .empty t with
  | .ok d => .ok d.root
  | .error (.problem rest what) =>
    .error (.malformed (what.message ++ " (at " ++ place t rest ++ ")"))
  | .error .tooManyDigits => .error .tooManyDigits

end TreeCheck.Toml
