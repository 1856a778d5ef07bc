import TreeCheck.Project.Machine
import TreeCheck.Project.Path

/-!
# Files and directories

The files are a tree without links. A place in it is the list of names that lead to it from the
root. Names that lead through a file, or through a directory that is not there, lead nowhere. A name
that is longer than any name can be is a fault of its own, once the directory is reached in which it
is looked up.

A search for tree files goes through all directories below the one where it begins. It fails on the
first of them whose path is longer than any path can be, or for which the machine has no room. Who
may read a file or a directory is not part of the picture: all of them can be read.

Source: `SPEC_FULL.md`, sections 8 and 9.
-/

namespace TreeCheck

/-- A file with its bytes, or a directory with its entries by name. -/
inductive FileTree where
  | file (bytes : ByteArray)
  | directory (entries : List (Text × FileTree))
deriving Inhabited

/-- The names that lead to a place. -/
abbrev Place := List Text

namespace FileTree

/-- Whether a tree is a file. -/
def isFile : FileTree → Bool
  | file _ => true
  | directory _ => false

/-- Whether a tree is a directory. -/
def isDirectory : FileTree → Bool
  | file _ => false
  | directory _ => true

/-- What stands under a name. -/
def child? : FileTree → Text → Option FileTree
  | file _, _ => none
  | directory entries, name => entries.lookup name

/-- What stands at a place. -/
def at? : FileTree → Place → Option FileTree
  | t, [] => some t
  | t, name :: names => (t.child? name).bind fun child ↦ child.at? names

/-- Replace an entry, or add it at the end. -/
def putEntry (name : Text) (t : FileTree) : List (Text × FileTree) → List (Text × FileTree)
  | [] => [(name, t)]
  | entry :: rest =>
    if entry.1 = name then (name, t) :: rest else entry :: putEntry name t rest

/-- Put a tree at a place, making the directories that lead there. -/
def put (t : FileTree) : Place → FileTree → FileTree
  | [], _ => t
  | name :: names, file _ => directory [(name, put t names (directory []))]
  | name :: names, directory entries =>
    directory (putEntry name (put t names ((entries.lookup name).getD (directory []))) entries)

mutual

/-- Everything below a tree, with the names that lead to it. -/
def descendants : FileTree → List (Place × FileTree)
  | file _ => []
  | directory entries => entryDescendants entries

/-- The entries and everything below them. -/
def entryDescendants : List (Text × FileTree) → List (Place × FileTree)
  | [] => []
  | (name, t) :: rest =>
    ([name], t) :: (descendants t).map (fun found ↦ (name :: found.1, found.2)) ++
      entryDescendants rest

end

end FileTree

/-- All files, the place where relative paths start, and the machine that holds them. -/
structure Files where
  entries : List (Text × FileTree)
  working : Place
  machine : Machine

namespace Files

/-- The directory at the top. -/
def root (fs : Files) : FileTree := .directory fs.entries

/-- What stands at a place. -/
def at? (fs : Files) (place : Place) : Option FileTree := fs.root.at? place

/-- The greatest number of bytes in a name. -/
def maxNameBytes : Nat := 255

/-- The greatest number of bytes in a path. -/
def maxPathBytes : Nat := 4095

/-- Why looking up a path gives nothing. -/
inductive LookupError where
  | notFound
  | tooLong
deriving DecidableEq, Repr

/-- The place where the parts of a written path lead from `place`. Every part, an empty one too,
has to be looked up in a directory. -/
def follow (fs : Files) (place : Place) : List Text → Except LookupError Place
  | [] => .ok place
  | part :: parts =>
    if !(fs.at? place).any FileTree.isDirectory then .error .notFound
    else if part = [] ∨ part = Path.here then follow fs place parts
    else if part = Path.above then follow fs place.dropLast parts
    else if maxNameBytes < part.byteLength then .error .tooLong
    else if (fs.at? (place ++ [part.canonical])).isSome then
      follow fs (place ++ [part.canonical]) parts
    else .error .notFound

/-- Where the anchor of a path is. -/
def start (fs : Files) : Anchor → Place
  | .working => fs.working
  | _ => []

/-- Look up the path `written`, whose parts are to be followed from `place`. A path that no file
can have leads nowhere. -/
def lookup (fs : Files) (written : Text) (place : Place) (parts : List Text) :
    Except LookupError FileTree :=
  if written = [] ∨ written.pathFault?.isSome then .error .notFound
  else if maxPathBytes < written.byteLength then .error .tooLong
  else do
    match fs.at? (← fs.follow place parts) with
    | some t => return t
    | none => throw .notFound

/-- What a written path leads to; the empty path leads nowhere. -/
def find (fs : Files) (t : Text) : Except LookupError FileTree :=
  fs.lookup t (fs.start (.ofText t)) (t.split (.scalar '/'))

/-- Follow one part of a path without looking at the files. -/
def step (place : Place) (part : Text) : Place :=
  if part = Path.above then place.dropLast else place ++ [part]

/-- The place that a path names, whether something stands there or not. -/
def resolve (fs : Files) (p : Path) : Place := p.parts.foldl step (fs.start p.anchor)

end Files

/-- A directory and all directories above it, from the inside out. -/
def Place.upward (place : Place) : List Place :=
  (List.range (place.length + 1)).map fun n ↦ place.take (place.length - n)

/-- A place as a path from the root. -/
def Place.toPath (place : Place) : Path := ⟨.root, place⟩

namespace Files

/-- The name of the file with the settings of a project. -/
def configName : Text := "plc.toml"

/-- What stands at a place, its path being written from the root. -/
def look (fs : Files) (place : Place) : Except LookupError FileTree :=
  fs.lookup (Place.toPath place).toText [] place

/-- The directory where the search for settings starts. -/
def searchStart (fs : Files) (p : Path) : Except PathFault Place :=
  let place := fs.resolve p
  match fs.look place with
  | .ok t => .ok (if t.isFile then place.dropLast else place)
  | .error .notFound => .ok place
  | .error .tooLong => .error .tooLong

/-- The first of the directories that has an entry with the name of the settings, and this name. -/
def firstConfig (fs : Files) : List Place → Except PathFault (Option Place)
  | [] => .ok none
  | directory :: rest =>
    match fs.look (directory ++ [configName]) with
    | .ok _ => .ok (some (directory ++ [configName]))
    | .error .notFound => firstConfig fs rest
    | .error .tooLong => .error .tooLong

/-- The settings that are nearest to a path: in its directory, or in the first one above it that has
any. Source: `SPEC_FULL.md:234–235`. -/
def nearestConfig (fs : Files) (p : Path) : Except PathFault (Option Place) :=
  match p.fault? with
  | some f => .error f
  | none => do fs.firstConfig (Place.upward (← fs.searchStart p))

/-- The wording when there are no settings. -/
def noConfigMessage : Text := "No plc.toml found in any parent directory"

/-- The ending of the names of tree files. -/
def treeEnding : Text := ".json"

/-- Everything below a directory whose name has the ending of tree files, in the order of names. -/
def treesBelow (t : FileTree) : List (Place × FileTree) :=
  (t.descendants.filter fun found ↦ (found.1.getLastD []).endsWith treeEnding).mergeSort fun a b ↦
    (compare a.1 b.1).isLE

/-- Why a search for tree files fails. -/
inductive SearchFault where
  | tooLong
  | tooDeep
deriving DecidableEq, Repr

/-- What keeps a search that began at the path `p` from entering the directory at a place below. The
room for it is needed before the directory is opened. -/
def refusal? (m : Machine) (p : Path) (place : Place) : Option SearchFault :=
  if m.depth < place.length then some .tooDeep
  else if maxPathBytes < (p.append place).toText.byteLength then some .tooLong
  else none

/-- What ends a search of the directory `t` at a path: the first directory, from the outside in and
in the order of the entries, that cannot be entered. -/
def obstacle? (m : Machine) (p : Path) (t : FileTree) : Option SearchFault :=
  (([], t) :: t.descendants).findSome? fun (place, u) ↦
    if u.isDirectory then refusal? m p place else none

/-- The tree files of a directory at a path. Nothing is listed before the search is over. -/
def treesIn (m : Machine) (p : Path) (t : FileTree) :
    Except SearchFault (List (Path × FileTree)) :=
  match obstacle? m p t with
  | some f => .error f
  | none => .ok ((treesBelow t).map fun found ↦ (p.append found.1, found.2))

/-- The tree files that a path stands for, `t` being what it leads to: the file itself, or those
below the directory `sources` in it, or, if there is no such directory, those below the path.
Source: `SPEC_FULL.md:261–262`. -/
def trees (fs : Files) (target : Path) (t : FileTree) (sources : Text) :
    Except SearchFault (List (Path × FileTree)) :=
  if t.isFile then .ok [(target, t)]
  else
    let narrowed := target.join (.ofText sources)
    match fs.find narrowed.toText with
    | .ok (.directory entries) => treesIn fs.machine narrowed (.directory entries)
    | .error .tooLong => .error .tooLong
    | _ => treesIn fs.machine target t

end Files

end TreeCheck
