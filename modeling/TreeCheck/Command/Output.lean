import TreeCheck.Project.Check
import TreeCheck.Text.Control
import TreeCheck.Text.Quoted

/-!
# What a command writes

A command writes messages, each on lines of its own, to one of two streams, and ends with a status
or a crash. A terminal gets the messages as they are; otherwise control sequences are left out.

Source: `SPEC_FULL.md`, sections 7 (error handling) and 9 (commands).
-/

namespace TreeCheck

/-- A message to the standard output or to the error output. -/
inductive Message where
  | out (t : Text)
  | err (t : Text)
deriving DecidableEq, Repr

/-- How a command ends. -/
inductive Ending where
  | exit (status : Nat)
  | crash (c : Crash)

/-- A command that has run: its messages in order, and its end. -/
structure Run where
  messages : List Message
  ending : Ending

/-- What a command leaves behind. -/
structure Output where
  stdout : Text
  stderr : Text
  ending : Ending

namespace Output

/-- Write a surrogate that stands alone by its number. -/
def spellSurrogates (t : Text) : Text :=
  t.flatMap fun c ↦
    match c with
    | .scalar _ => [c]
    | .surrogate _ => "\\u" ++ Text.hexadecimal 4 c.toNat

/-- A message as it reaches its stream. -/
def shown (terminal : Bool) (t : Text) : Text := (if terminal then t else t.withoutControls) ++ "\n"

end Output

namespace Run

/-- End with a status. -/
def exit (messages : List Message) (status : Nat) : Run := ⟨messages, .exit status⟩

/-- Write the messages. The standard output takes only what can be encoded and crashes otherwise;
the error output spells surrogates out. -/
def output (terminal : Bool) (r : Run) : Output :=
  write r.messages
where
  /-- Write the given messages, then end. -/
  write : List Message → Output
    | [] => ⟨[], [], r.ending⟩
    | .out t :: rest =>
      let t := Output.shown terminal t
      if t.isEncodable then
        let o := write rest
        { o with stdout := t ++ o.stdout }
      else ⟨[], [], .crash .notEncodable⟩
    | .err t :: rest =>
      let o := write rest
      { o with stderr := Output.spellSurrogates (Output.shown terminal t) ++ o.stderr }

end Run

/-- The status that a command reports when it ends. -/
def Ending.status : Ending → Nat
  | exit status => status
  | crash _ => 1

end TreeCheck
