import TreeCheck.Text.Alphanumeric
import TreeCheck.Text.Bytes
import TreeCheck.Text.Quoted
import TreeCheck.Text.Similarity

/-!
# Command lines

A command line is a sequence of options and other arguments. All options are long flags without a
value. Two dashes end the options. The program itself takes options only before the name of a
command, a command takes them anywhere.

Source: `SPEC_FULL.md`, section 9 (commands).
-/

namespace TreeCheck

/-- What the program can be told to do. -/
inductive Command where
  | check
  | view
deriving DecidableEq, Repr

/-- An option. -/
inductive Flag where
  | version
  | help
  | noColor
deriving DecidableEq, Repr

/-- How an option is written. -/
def Flag.spelling : Flag → Text
  | version => "--version"
  | help => "--help"
  | noColor => "--no-color"

namespace Command

/-- The name of a command. -/
def name : Command → Text
  | check => "check"
  | view => "view"

/-- The command of a name. -/
def ofName? (t : Text) : Option Command := [check, view].find? fun c ↦ c.name = t

/-- What a command does. -/
def summary : Command → Text
  | check => "Type-check syntax trees without running them."
  | view => "Show a syntax tree annotated with resolved types and bindings."

/-- How the argument of a command is shown. -/
def operand : Command → Text
  | check => "[PATH]"
  | view => "FILE"

end Command

/-- What is wrong with a command line. -/
inductive UsageError where
  | noSuchOption (name : Text) (similar : List Text)
  | unexpectedValue (name : Text)
  | missingCommand
  | noSuchCommand (name : Text)
  | missingArgument (operand : Text)
  | noSuchPath (operand sort path : Text)
  | isDirectory (operand path : Text)
  | extraArguments (arguments : List Text)
deriving DecidableEq, Repr

namespace UsageError

/-- The wording of a mistake. -/
def message : UsageError → Text
  | noSuchOption name [] => "No such option: " ++ name
  | noSuchOption name [one] => "No such option: " ++ name ++ " Did you mean " ++ one ++ "?"
  | noSuchOption name several =>
    "No such option: " ++ name ++ " (Possible options: " ++
      Text.join ", " (several.mergeSort fun a b ↦ (compare a b).isLE) ++ ")"
  | unexpectedValue name => "Option " ++ name.quoted ++ " does not take a value."
  | missingCommand => "Missing command."
  | noSuchCommand name => "No such command " ++ name.quoted ++ "."
  | missingArgument operand => "Missing argument '" ++ operand ++ "'."
  | noSuchPath operand sort path =>
    "Invalid value for '" ++ operand ++ "': " ++ sort ++ " " ++ path.replaceBroken.quoted ++
      " does not exist."
  | isDirectory operand path =>
    "Invalid value for '" ++ operand ++ "': File " ++ path.replaceBroken.quoted ++
      " is a directory."
  | extraArguments [one] => "Got unexpected extra argument (" ++ one ++ ")"
  | extraArguments several => "Got unexpected extra arguments (" ++ Text.join " " several ++ ")"

/-- Whether a reminder of the usage stands before a mistake. -/
def showsUsage : UsageError → Bool
  | unexpectedValue _ => false
  | _ => true

end UsageError

/-- Arguments taken apart: the options in order, and the rest. -/
structure Arguments where
  flags : List Flag
  operands : List Text
deriving DecidableEq, Repr

namespace Arguments

/-- Whether an argument is written like an option. -/
def looksLikeOption (t : Text) : Bool := t.head? = some (.scalar '-') && 1 < t.length

/-- The option that an argument is. -/
def flag (known : List Flag) (t : Text) : Except UsageError Flag :=
  let name := t.takeWhile fun c ↦ c != .scalar '='
  match known.find? fun f ↦ f.spelling = name with
  | some f => if name.length < t.length then .error (.unexpectedValue name) else .ok f
  | none =>
    if t.take 2 = "--" then
      .error (.noSuchOption name
        ((Similarity.closeMatches name (known.map Flag.spelling)).take 3))
    else .error (.noSuchOption (t.take 2) [])

/-- Take arguments apart; if not `anywhere`, options end at the first other argument. -/
def parse (known : List Flag) (anywhere : Bool) : List Text → Except UsageError Arguments
  | [] => .ok ⟨[], []⟩
  | t :: rest =>
    if t = "--" then .ok ⟨[], rest⟩
    else if looksLikeOption t then do
      let f ← flag known t
      let a ← parse known anywhere rest
      return { a with flags := f :: a.flags }
    else if anywhere then do
      let a ← parse known anywhere rest
      return { a with operands := t :: a.operands }
    else .ok ⟨[], t :: rest⟩

end Arguments

/-- What a command line asks for; `none` stands for the program as a whole. -/
inductive Request where
  | help (of : Option Command)
  | version
  | run (command : Command) (noColor : Bool) (operands : List Text)
deriving DecidableEq, Repr

namespace Request

/-- The options of the program. -/
def programFlags : List Flag := [.version, .help]

/-- The options of a command. -/
def commandFlags : List Flag := [.noColor, .help]

/-- The first of the options that answer on their own. -/
def immediate? (of : Option Command) (flags : List Flag) : Option Request :=
  flags.findSome? fun f ↦
    match f with
    | .help => some (.help of)
    | .version => some .version
    | .noColor => none

/-- Read the arguments of a command. -/
def ofCommandArguments (c : Command) (args : List Text) : Except UsageError Request := do
  let a ← Arguments.parse commandFlags true args
  return (immediate? (some c) a.flags).getD (.run c (a.flags.contains .noColor) a.operands)

/-- A name that is no command. If it does not begin with a letter or a number, it is taken for an
option that came too late, and the help of the program answers it. -/
def ofUnknownName (name : Text) : Except UsageError Request :=
  if name.head?.all CodePoint.isAlphanumeric then .error (.noSuchCommand name) else .ok (.help none)

end Request

/-- A mistake, and the command it concerns. -/
structure UsageFailure where
  concerns : Option Command
  error : UsageError
deriving DecidableEq, Repr

/-- Read a command line. -/
def Request.ofArguments (args : List Text) : Except UsageFailure Request :=
  if args.isEmpty then .ok (.help none)
  else
    match Arguments.parse programFlags false args with
    | .error e => .error ⟨none, e⟩
    | .ok a =>
      match immediate? none a.flags, a.operands with
      | some r, _ => .ok r
      | none, [] => .error ⟨none, .missingCommand⟩
      | none, name :: rest =>
        match Command.ofName? name with
        | some c => (ofCommandArguments c rest).mapError fun e ↦ ⟨some c, e⟩
        | none => (ofUnknownName name).mapError fun e ↦ ⟨none, e⟩

end TreeCheck
