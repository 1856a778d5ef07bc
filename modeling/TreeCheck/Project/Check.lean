import TreeCheck.Analysis.Run
import TreeCheck.Diagnostic
import TreeCheck.Project.Config
import TreeCheck.Project.Files
import TreeCheck.Text.Encoding
import TreeCheck.Tree.Reader

/-!
# Checking the trees of a project

A tree file is accepted, or it is malformed, or the analysis rejects it. Every file is analysed on
its own against the types that the project declares. Some contents end a run at once, whatever
files are left.

Source: `SPEC_FULL.md`, sections 7 (error handling) and 9 (commands).
-/

namespace TreeCheck

/-- What ends a run at once. -/
inductive Crash where
  | notUtf8
  | configIsDirectory
  | exponentOutOfBounds
  | tooManyDigits
  | notEncodable
  | tooDeep
  | path (f : PathFault)
  | fault (f : Fault)

/-- How a search that fails ends a run. -/
def Files.SearchFault.crash : Files.SearchFault → Crash
  | tooLong => .path .tooLong
  | tooDeep => .tooDeep

/-- How the check of a tree file ends. -/
inductive Verdict where
  | accepted (tree : Node NodeId) (table : Resolutions)
  | malformed (e : FormatError)
  | rejected (e : ProgramError)

namespace Verdict

/-- Whether a file has failed. -/
def isFailure : Verdict → Bool
  | accepted .. => false
  | malformed _ => true
  | rejected _ => true

/-- What is reported about a file. -/
def complaint? (color : Bool) (p : Path) : Verdict → Option Text
  | accepted .. => none
  | malformed e => some ("error: " ++ p.toText ++ ": " ++ e.message)
  | rejected e => some ((e.diagnostic (some p.toText)).render color)

end Verdict

/-- Read the tree of a file. A path that is longer than any path can be opens nothing. -/
def readTree (m : Machine) (p : Path) (t : FileTree) :
    Except Crash (Except FormatError (Node Unit)) :=
  if Files.maxPathBytes < p.toText.byteLength then
    .ok (.error (.unreadable p.toText "File name too long"))
  else
    match t with
    | .directory _ => .ok (.error (.unreadable p.toText "Is a directory"))
    | .file bytes =>
      match Text.ofUtf8? bytes with
      | none => .error .notUtf8
      | some t =>
        if m.bearsTree t.unifyLineEnds then
          match Node.ofText t.unifyLineEnds with
          | .error (.format e) => .ok (.error e)
          | .error .exponentOutOfBounds => .error .exponentOutOfBounds
          | .ok tree => .ok (.ok tree)
        else .error .tooDeep

/-- Analyse a tree against the types of a project. -/
def Symbols.judge (s : Symbols) (tree : Node Unit) : Except Crash Verdict :=
  let (s, tree) := s.label tree
  match (s.analyze none tree).result with
  | .ok table => .ok (.accepted tree table)
  | .error (.error e) => .ok (.rejected e)
  | .error (.fault f) => .error (.fault f)

/-- Read and analyse a tree file. -/
def Symbols.judgeFile (s : Symbols) (m : Machine) (p : Path) (t : FileTree) :
    Except Crash Verdict := do
  match ← readTree m p t with
  | .error e => return .malformed e
  | .ok tree => s.judge tree

/-- Read and analyse tree files one after another, until a crash. -/
def Symbols.judgeFiles (s : Symbols) (m : Machine) :
    List (Path × FileTree) → List (Path × Verdict) × Option Crash
  | [] => ([], none)
  | (p, t) :: rest =>
    match s.judgeFile m p t with
    | .error crash => ([], some crash)
    | .ok verdict =>
      let (verdicts, crash) := s.judgeFiles m rest
      ((p, verdict) :: verdicts, crash)

/-- Why a project cannot be set up. -/
inductive SetupError where
  | crash (c : Crash)
  | config (e : ConfigError)
  | catalog (color : Bool) (e : ProgramError)

/-- The settings that hold for a path. -/
def Files.config (fs : Files) (target : Path) : Except SetupError Config :=
  match fs.nearestConfig target with
  | .error f => .error (.crash (.path f))
  | .ok none => .ok .default
  | .ok (some place) =>
    match fs.look place with
    | .ok (.file bytes) =>
      match Text.ofUtf8? bytes with
      | none => .error (.crash .notUtf8)
      | some t =>
        if fs.machine.bearsSettings t then
          match Config.ofText (Place.toPath place).toText t with
          | .ok c => .ok c
          | .error (.refused e) => .error (.config e)
          | .error .tooManyDigits => .error (.crash .tooManyDigits)
        else .error (.crash .tooDeep)
    | _ => .error (.crash .configIsDirectory)

/-- A project that is ready to be checked. -/
structure Project where
  config : Config
  symbols : Symbols
  color : Bool
  machine : Machine

/-- Set up the project of a path. -/
def Files.project (fs : Files) (target : Path) (noColor : Bool) : Except SetupError Project := do
  let config ← fs.config target
  let color := config.check.color && !noColor
  match config.symbols with
  | .ok symbols => return ⟨config, symbols, color, fs.machine⟩
  | .error e => throw (.catalog color e)

end TreeCheck
