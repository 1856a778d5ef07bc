import TreeCheck.Text.Basic

/-!
# Control sequences of a terminal

A control sequence is an escape character, an opening bracket, any number of digits, semicolons
and question marks, and a Latin letter. Output that does not go to a terminal is written without
them.

Source: `SPEC_FULL.md`, section 7 (error handling).
-/

namespace TreeCheck.Text

/-- The escape character. -/
def escapeCharacter : CodePoint := .scalar '\x1b'

/-- Whether a code point may stand between the bracket and the letter of a control sequence. -/
def isControlParameter (c : CodePoint) : Bool :=
  c.isDigit || c = .scalar ';' || c = .scalar '?'

mutual

/-- A text without its control sequences, found from left to right. -/
def withoutControls : Text → Text
  | [] => []
  | c :: rest => if c = escapeCharacter then afterEscape rest else c :: withoutControls rest

/-- What is left when an escape character has been read and not yet written. -/
def afterEscape : Text → Text
  | [] => [escapeCharacter]
  | c :: rest =>
    if c = .scalar '[' then afterBracket [] rest
    else if c = escapeCharacter then escapeCharacter :: afterEscape rest
    else escapeCharacter :: c :: withoutControls rest

/-- What is left when an escape character, a bracket and the parameters `held` have been read and
not yet written. -/
def afterBracket (held : Text) : Text → Text
  | [] => escapeCharacter :: .scalar '[' :: held
  | c :: rest =>
    if isControlParameter c then afterBracket (held ++ [c]) rest
    else if c.isLatinLetter then withoutControls rest
    else if c = escapeCharacter then escapeCharacter :: .scalar '[' :: (held ++ afterEscape rest)
    else escapeCharacter :: .scalar '[' :: (held ++ c :: withoutControls rest)

end

end TreeCheck.Text
