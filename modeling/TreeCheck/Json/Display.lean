import TreeCheck.Json.Value
import TreeCheck.Text.Quoted

/-!
# JSON values on one line

A value is shown with the word for its sort. An integer that is too long to be written makes the
whole value impossible to show.

Source: `SPEC_FULL.md`, section 6 (tree interchange).
-/

namespace TreeCheck.Json.Value

mutual

/-- A value on one line. -/
def display : Value → Text
  | null => "None"
  | bool true => "True"
  | bool false => "False"
  | integer n => Text.ofInt n
  | decimal d => "Decimal('" ++ d.toText ++ "')"
  | nonFinite n => n.text
  | string t => t.quoted
  | array items => "[" ++ Text.join ", " (displayAll items) ++ "]"
  | object entries => "\x7b" ++ Text.join ", " (displayEntries entries) ++ "\x7d"

/-- Values, each on one line. -/
def displayAll : List Value → List Text
  | [] => []
  | v :: vs => v.display :: displayAll vs

/-- Entries of an object, each on one line. -/
def displayEntries : List (Text × Value) → List Text
  | [] => []
  | (key, v) :: rest => (key.quoted ++ ": " ++ v.display) :: displayEntries rest

end

mutual

/-- Whether every integer in a value can be written out. -/
def isWritable : Value → Bool
  | integer n => Text.isWritable n
  | array items => areWritable items
  | object entries => entriesAreWritable entries
  | _ => true

/-- Whether every integer in some values can be written out. -/
def areWritable : List Value → Bool
  | [] => true
  | v :: vs => v.isWritable && areWritable vs

/-- Whether every integer in some entries can be written out. -/
def entriesAreWritable : List (Text × Value) → Bool
  | [] => true
  | (_, v) :: rest => v.isWritable && entriesAreWritable rest

end

/-- A value with the word for its sort, if it can be written out. -/
def outlineText? (v : Value) : Option Text :=
  if v.isWritable then some (v.sort ++ ": " ++ v.display) else none

end TreeCheck.Json.Value
