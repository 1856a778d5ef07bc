import TreeCheck.ProgramError

/-!
# Diagnostics

A diagnostic is rendered as a line with its severity, code and message, a line with the place it
comes from, and a line for each remark. Colours are control sequences around the parts; they change
nothing else.

Source: `SPEC_FULL.md`, section 7 (error handling).
-/

namespace TreeCheck

/-- How serious a diagnostic is. -/
inductive Severity where
  | error | warning | note
deriving DecidableEq, Repr

namespace Severity

/-- The word for a severity. -/
def word : Severity → Text
  | error => "error"
  | warning => "warning"
  | note => "note"

/-- The colour of a severity. -/
def color : Severity → Text
  | error => "\x1b[1;31m"
  | warning => "\x1b[1;33m"
  | note => "\x1b[1;36m"

/-- The severity that a word stands for. -/
def ofWord? (t : Text) : Option Severity := [error, warning, note].find? fun s ↦ s.word = t

end Severity

/-- A message for the user. -/
structure Diagnostic where
  severity : Severity
  code : Text
  message : Text
  notes : List Text
  origin : Option Text
deriving DecidableEq, Repr

namespace Diagnostic

/-- Bold writing. -/
def bold : Text := "\x1b[1m"

/-- Blue writing. -/
def blue : Text := "\x1b[1;34m"

/-- Plain writing. -/
def reset : Text := "\x1b[0m"

/-- The lines of a diagnostic; an empty origin is left out. Source: `SPEC_FULL.md:225–227`. -/
def lines (color : Bool) (d : Diagnostic) : List Text :=
  (paint d.severity.color ++ d.severity.word ++ "[" ++ d.code ++ "]" ++ paint reset ++
      paint bold ++ ": " ++ d.message ++ paint reset) ::
    (originLine ++ d.notes.map fun note ↦
      "  " ++ paint blue ++ "=" ++ paint reset ++ " note: " ++ note)
where
  /-- A control sequence, if colours are wanted. -/
  paint (sequence : Text) : Text := if color then sequence else []
  /-- The line with the origin. -/
  originLine : List Text :=
    match d.origin with
    | none | some [] => []
    | some origin => ["  " ++ paint blue ++ "-->" ++ paint reset ++ " " ++ origin]

/-- The text of a diagnostic. -/
def render (color : Bool) (d : Diagnostic) : Text := Text.join "\n" (d.lines color)

end Diagnostic

/-- The diagnostic for an error that comes from a place. -/
def ProgramError.diagnostic (e : ProgramError) (origin : Option Text) : Diagnostic :=
  ⟨.error, e.code, e.message, e.notes, origin⟩

end TreeCheck
