import TreeCheck.Text.Quoted

/-!
# TOML values

A table is a list of entries in the order of the document. Numbers with a fraction or an exponent,
dates and times are kept as they are written, since nothing computes with them.

Source: `SPEC_FULL.md`, section 8 (configuration).
-/

namespace TreeCheck.Toml

/-- A value of a document. -/
inductive Value where
  | string (t : Text)
  | integer (n : Int)
  | float (written : Text)
  | boolean (b : Bool)
  | dateTime (written : Text)
  | array (items : List Value)
  | table (entries : List (Text × Value))
deriving Repr, Inhabited

/-- The entries of a table, each key once. -/
abbrev Table := List (Text × Value)

/-- The parts of a key, from the outside in. -/
abbrev Key := List Text

/-- Whether a value is made of others. -/
def Value.isContainer : Value → Bool
  | array _ => true
  | table _ => true
  | _ => false

/-- What is wrong with a document. -/
inductive Problem where
  | invalidValue
  | invalidStatement
  | invalidKey
  | expectedEquals
  | expectedLineEnd
  | expectedTableEnd
  | expectedArrayEnd
  | overwritten
  | declaredTwice (key : Key)
  | immutable (key : Key)
  | redefined (key : Key)
  | duplicateInlineKey (part : Text)
  | unclosedArray
  | unclosedInlineTable
  | unterminatedString
  | expectedMark (mark : Text)
  | illegalCharacter (c : CodePoint)
  | invalidCharacter (c : CodePoint)
  | strayBackslash
  | invalidHex
  | notAScalarValue
  | invalidDate
deriving DecidableEq, Repr

/-- The wording of a problem. -/
def Problem.message : Problem → Text
  | invalidValue => "Invalid value"
  | invalidStatement => "Invalid statement"
  | invalidKey => "Invalid initial character for a key part"
  | expectedEquals => "Expected '=' after a key in a key/value pair"
  | expectedLineEnd => "Expected newline or end of document after a statement"
  | expectedTableEnd => "Expected ']' at the end of a table declaration"
  | expectedArrayEnd => "Expected ']]' at the end of an array declaration"
  | overwritten => "Cannot overwrite a value"
  | declaredTwice key => "Cannot declare " ++ Text.quotedTuple key ++ " twice"
  | immutable key => "Cannot mutate immutable namespace " ++ Text.quotedTuple key
  | redefined key => "Cannot redefine namespace " ++ Text.quotedTuple key
  | duplicateInlineKey part => "Duplicate inline table key " ++ part.quoted
  | unclosedArray => "Unclosed array"
  | unclosedInlineTable => "Unclosed inline table"
  | unterminatedString => "Unterminated string"
  | expectedMark mark => "Expected " ++ mark.quoted
  | illegalCharacter c => "Illegal character " ++ Text.quoted [c]
  | invalidCharacter c => "Found invalid character " ++ Text.quoted [c]
  | strayBackslash => "Unescaped '\\' in a string"
  | invalidHex => "Invalid hex value"
  | notAScalarValue => "Escaped character is not a Unicode scalar value"
  | invalidDate => "Invalid date or datetime"

/-- Why reading stopped: a problem where `rest` begins, or a whole number with too many digits. -/
inductive Stop where
  | problem (rest : Text) (what : Problem)
  | tooManyDigits
deriving DecidableEq, Repr

end TreeCheck.Toml
