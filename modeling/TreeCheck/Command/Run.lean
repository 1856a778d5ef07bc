import TreeCheck.Command.Arguments
import TreeCheck.Command.Output

/-!
# Running a command

Everything the program does is a function of its arguments and the files. The status is 0 if all
went well, 1 if a tree or the settings are at fault, and 2 if the command line is.

Source: `SPEC_FULL.md`, section 9 (commands).
-/

namespace TreeCheck

/-! ### Help -/

/-- The line that shows how the program or a command is used. -/
def usageLine : Option Command → Text
  | none => "Usage: plc [OPTIONS] COMMAND [ARGS]..."
  | some c => "Usage: plc " ++ c.name ++ " [OPTIONS] " ++ c.operand

/-- Two columns, the first one `width` wide. -/
def columns (width : Nat) (rows : List (Text × Text)) : List Text :=
  rows.map fun (left, right) ↦
    "  " ++ left ++ Text.times (width - left.length) " " ++ "  " ++ right

/-- What the help says about an option. -/
def Flag.summary : Flag → Text
  | version => "Show the version and exit."
  | help => "Show this message and exit."
  | noColor => "Render diagnostics without ANSI colors."

/-- The rows for options. -/
def flagRows (flags : List Flag) : List (Text × Text) := flags.map fun f ↦ (f.spelling, f.summary)

/-- The lines of the help. -/
def helpLines : Option Command → List Text
  | none =>
    [usageLine none, "", "  Semantic analyzer for the PLC language.", "", "Options:"] ++
      columns 9 (flagRows Request.programFlags) ++ (["", "Commands:"] : List Text) ++
      columns 5 ([Command.check, Command.view].map fun c ↦ (c.name, c.summary))
  | some c =>
    [usageLine (some c), "", "  " ++ c.summary, "", "Options:"] ++
      columns 10 (flagRows Request.commandFlags)

/-- The version of the program. -/
def versionLine : Text := "plc, version 0.1.0"

/-- Where to find help. -/
def helpHint : Option Command → Text
  | none => "Try 'plc --help' for help."
  | some c => "Try 'plc " ++ c.name ++ " --help' for help."

/-- The report of a mistake in the command line. -/
def UsageFailure.run (f : UsageFailure) : Run :=
  let usage := if f.error.showsUsage then
    [.err (usageLine f.concerns), .err (helpHint f.concerns), .err ""] else []
  .exit (usage ++ [.err ("Error: " ++ f.error.message)]) 2

/-! ### Commands -/

/-- The report of a project that cannot be set up. -/
def SetupError.run : SetupError → Run
  | crash c => ⟨[], .crash c⟩
  | config e => .exit [.err ("error: " ++ e.message)] 1
  | catalog color e => .exit [.err ((e.diagnostic (some Files.configName)).render color)] 1

/-- The complaints about tree files. -/
def complaints (color : Bool) (verdicts : List (Path × Verdict)) : List Message :=
  verdicts.filterMap fun (p, v) ↦ (v.complaint? color p).map .err

/-- The number of files that failed. -/
def failures (verdicts : List (Path × Verdict)) : Nat :=
  verdicts.countP fun (_, v) ↦ v.isFailure

/-- The last message of a check that came to its end, and the status. -/
def checkSummary (name : Text) (failed total : Nat) : Message × Nat :=
  if failed = 0 then
    (.out ("checked " ++ name ++ ": " ++ Text.ofNat total ++ " tree(s), no errors"), 0)
  else (.err (Text.ofNat failed ++ " of " ++ Text.ofNat total ++ " tree(s) failed to check"), 1)

/-- Check the trees of a project. -/
def Project.check (project : Project) (trees : List (Path × FileTree)) : Run :=
  if trees.isEmpty then .exit [.err "warning: no .json syntax trees found"] 0
  else
    let name := project.config.package.name
    let (verdicts, crash) := project.symbols.judgeFiles project.machine trees
    let messages := .out ("checking " ++ name ++ "...") :: complaints project.color verdicts
    match crash with
    | some c => ⟨messages, .crash c⟩
    | none =>
      let (last, status) := checkSummary name (failures verdicts) trees.length
      .exit (messages ++ [last]) status

/-- Show a tree with what the analysis found. -/
def Project.view (project : Project) (target : Path) (t : FileTree) : Run :=
  match project.symbols.judgeFile project.machine target t with
  | .error c => ⟨[], .crash c⟩
  | .ok (.accepted tree table) =>
    match tree.outlineText? table.notes with
    | some t => .exit [.out t] 0
    | none => ⟨[], .crash .tooManyDigits⟩
  | .ok verdict =>
    .exit ((verdict.complaint? project.color target).toList.map .err) 1

namespace Files

/-- Check the tree files that a path stands for, `t` being what it leads to. Source:
`SPEC_FULL.md:261–264`. -/
def check (fs : Files) (target : Path) (t : FileTree) (noColor : Bool) : Run :=
  match fs.project target noColor with
  | .error e => e.run
  | .ok project =>
    match fs.trees target t project.config.check.sources with
    | .error f => ⟨[], .crash f.crash⟩
    | .ok trees => project.check trees

/-- Show the tree in the file that a path leads to. Source: `SPEC_FULL.md:265–266`. -/
def view (fs : Files) (target : Path) (t : FileTree) (noColor : Bool) : Run :=
  match fs.project target noColor with
  | .error e => e.run
  | .ok project => project.view target t

/-- The argument of a command, or the default. -/
def operand (c : Command) (operands : List Text) : Except UsageError Text :=
  match operands, c with
  | t :: _, _ => .ok t
  | [], .check => .ok Path.here
  | [], .view => .error (.missingArgument c.operand)

/-- What the argument of a command leads to: anything for a check, a file for a view. -/
def target (fs : Files) (c : Command) (t : Text) : Except UsageError FileTree :=
  match fs.find t, c with
  | .ok tree, .check => .ok tree
  | .error _, .check => .error (.noSuchPath c.operand "Path" t)
  | .error _, .view => .error (.noSuchPath c.operand "File" t)
  | .ok tree, .view => if tree.isDirectory then .error (.isDirectory c.operand t) else .ok tree

/-- Run a command on its arguments. The first one is looked up before the others are counted. -/
def runCommand (fs : Files) (c : Command) (noColor : Bool) (operands : List Text) : Run :=
  match operand c operands with
  | .error e => UsageFailure.run ⟨some c, e⟩
  | .ok t =>
    match t.pathFault? with
    | some f => ⟨[], .crash (.path f)⟩
    | none =>
      match fs.target c t with
      | .error e => UsageFailure.run ⟨some c, e⟩
      | .ok tree =>
        if 1 < operands.length then
          UsageFailure.run ⟨some c, .extraArguments (operands.drop 1)⟩
        else
          match c with
          | .check => fs.check (.ofText t) tree noColor
          | .view => fs.view (.ofText t) tree noColor

/-- Run the program. -/
def run (fs : Files) (args : List Text) : Run :=
  match Request.ofArguments args with
  | .error f => f.run
  | .ok (.help of) => .exit ((helpLines of).map .out) 0
  | .ok .version => .exit [.out versionLine] 0
  | .ok (.run c noColor operands) => fs.runCommand c noColor operands

end Files

end TreeCheck
