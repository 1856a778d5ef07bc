import TreeCheck.Decimal.Basic

/-!
# JSON values

Whole numbers and decimal numbers are kept exactly, and the three words for numbers that are not
finite are values of their own. An object is a list of entries in the order in which its keys first
appeared, with the last value given for each.

Source: `SPEC_FULL.md`, section 6 (tree interchange).
-/

namespace TreeCheck.Json

/-- A number that is not finite. -/
inductive NonFinite where
  | notANumber
  | infinity
  | negativeInfinity
deriving DecidableEq, Repr

/-- How a number that is not finite is shown. -/
def NonFinite.text : NonFinite → Text
  | notANumber => "nan"
  | infinity => "inf"
  | negativeInfinity => "-inf"

/-- A decoded document. -/
inductive Value where
  | null
  | bool (b : Bool)
  | integer (n : Int)
  | decimal (d : Decimal)
  | nonFinite (n : NonFinite)
  | string (t : Text)
  | array (items : List Value)
  | object (entries : List (Text × Value))
deriving Repr, Inhabited

/-- The entries of an object. -/
abbrev Entries := List (Text × Value)

namespace Entries

/-- The value of a key. -/
def get? (entries : Entries) (key : Text) : Option Value := entries.lookup key

/-- Give a key a value, in its old place if it has one. -/
def insert (entries : Entries) (key : Text) (value : Value) : Entries :=
  match entries with
  | [] => [(key, value)]
  | entry :: rest =>
    if entry.1 = key then (key, value) :: rest else entry :: insert rest key value

end Entries

namespace Value

/-- The word for the sort of a value. -/
def sort : Value → Text
  | null => "NoneType"
  | bool _ => "bool"
  | integer _ => "int"
  | decimal _ => "Decimal"
  | nonFinite _ => "float"
  | string _ => "str"
  | array _ => "list"
  | object _ => "dict"

/-- Whether a value counts as true: all do but null, false, zeros, and what is empty. -/
def isTrue : Value → Bool
  | null => false
  | bool b => b
  | integer n => n ≠ 0
  | decimal d => !d.isZero
  | nonFinite _ => true
  | string t => !t.isEmpty
  | array items => !items.isEmpty
  | object entries => !entries.isEmpty

end Value

end TreeCheck.Json
