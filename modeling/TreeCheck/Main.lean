import TreeCheck.Command.Run

/-!
# The program

The files that a command line can concern are read once; the run itself is a function of them.
These are the file or directory that the command line names, the directories that lead to it, the
settings in the directories above it, and the directory that the settings name.

Source: `SPEC_FULL.md`, section 9 (commands).
-/

namespace TreeCheck.Main

/-- A place as the system writes it. -/
def systemPath (place : Place) : String := ((Place.toPath place).toText.toString?).getD "/"

/-- Whether the bytes of a file with this name can matter. -/
def isOfInterest (name : Text) : Bool := name.endsWith Files.treeEnding || name = Files.configName

/-- Read what stands at a place, `depth` directories deep. Only files of interest are read. The
directories that are too deep stand without their entries, so that a search still meets them. What
cannot be looked at because its path is too long ends the program. -/
def readPlace (place : Place) (wanted : Bool) : (depth : Nat) → IO (Option FileTree)
  | 0 => do
    let path := (← IO.currentDir) / systemPath place
    return if ← path.isDir then some (.directory []) else none
  | depth + 1 => do
    let path := (← IO.currentDir) / systemPath place
    if ← path.isDir then
      let mut entries := []
      for entry in ← path.readDir do
        let name := Text.ofString entry.fileName
        if let some t ← readPlace (place ++ [name]) (isOfInterest name) depth then
          entries := (name, t) :: entries
      return some (.directory entries)
    else if ← path.pathExists then
      return some (.file (← if wanted then IO.FS.readBinFile path else pure .empty))
    else if Files.maxPathBytes < (Place.toPath place).toText.byteLength then
      throw (IO.userError "a path is too long to be looked at")
    else return none

/-- Add a tree to the files. -/
def add (fs : Files) (place : Place) (t : FileTree) : Files :=
  match FileTree.put t place fs.root with
  | .directory entries => { fs with entries }
  | .file _ => fs

/-- Add a directory without its entries, if it exists and is not known yet. -/
def addDirectory (fs : Files) (place : Place) : IO Files := do
  if (fs.at? place).isSome then return fs
  let path := (← IO.currentDir) / systemPath place
  return if ← path.isDir then add fs place (.directory []) else fs

/-- The depth to which directories are read: one more than a search enters. -/
def maxDepth : Nat := Machine.usual.depth + 1

/-- Add everything at a place. -/
def addPlace (fs : Files) (place : Place) : IO Files := do
  match ← readPlace place true maxDepth with
  | some t => return add fs place t
  | none => return fs

/-- Add the settings of all directories from a place upwards. -/
def addConfigs (fs : Files) (place : Place) : IO Files :=
  (Place.upward place).foldlM (fun fs directory ↦ addPlace fs (directory ++ [Files.configName])) fs

/-- Add what a path needs. -/
def addPath (fs : Files) (p : Path) : IO Files := do
  let leading := (List.range p.parts.length).map fun n ↦
    fs.resolve { p with parts := p.parts.take n }
  let fs ← leading.foldlM addDirectory fs
  let fs ← addConfigs fs (fs.resolve p)
  addPlace fs (fs.resolve p)

/-- The files that a command line can concern. -/
def readFiles (args : List Text) : IO Files := do
  let working := (Path.ofText (Text.ofString (← IO.currentDir).toString)).parts
  let fs ← addDirectory ⟨[], working, .usual⟩ working
  match Request.ofArguments args with
  | .ok (.run c _ operands) =>
    match Files.operand c operands with
    | .ok t =>
      let target := Path.ofText t
      let fs ← addPath fs target
      match fs.config target with
      | .ok config => addPath fs (target.join (.ofText config.check.sources))
      | .error _ => return fs
    | .error _ => return fs
  | _ => return fs

/-- The wording of a crash. -/
def crashMessage : Crash → String
  | .notUtf8 => "a file is not encoded in UTF-8"
  | .configIsDirectory => "the settings are a directory"
  | .exponentOutOfBounds => "the exponent of a number is out of bounds"
  | .tooManyDigits => "a whole number has too many digits"
  | .notEncodable => "a text cannot be encoded"
  | .tooDeep => "a document or a directory is nested too deep"
  | .path .notEncodable => "a path cannot be encoded"
  | .path .nullCharacter => "a path holds a null character"
  | .path .tooLong => "a path or a name on it is too long"
  | .fault _ => "a node was resolved twice"

end TreeCheck.Main

open TreeCheck in
/-- Run the program on the arguments. -/
def main (args : List String) : IO UInt32 := do
  let args := args.map Text.ofString
  let run := (← Main.readFiles args).run args
  let stdout ← IO.getStdout
  let stderr ← IO.getStderr
  let out := run.output (← stdout.isTty)
  let err := run.output (← stderr.isTty)
  stdout.putStr (out.stdout.toString?.getD "")
  stderr.putStr (err.stderr.toString?.getD "")
  if let .crash c := out.ending then stderr.putStrLn ("fatal: " ++ Main.crashMessage c)
  return UInt32.ofNat out.ending.status
