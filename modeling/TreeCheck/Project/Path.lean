import TreeCheck.Text.Bytes

/-!
# Paths

A path is a place to start from and the names to follow from there. A single dot and repeated
slashes mean nothing and are dropped; two dots stay. A path that begins with exactly two slashes is
kept apart from one that begins with a single slash.

The system takes a path as bytes, none of which is null, and limits their number. Asking it about
a path that it does not take is a fault.

Source: `SPEC_FULL.md`, sections 8 (configuration) and 9 (commands).
-/

namespace TreeCheck

/-- Where a path starts. -/
inductive Anchor where
  | working
  | root
  | doubleRoot
deriving DecidableEq, Repr

namespace Anchor

/-- How an anchor is written. -/
def toText : Anchor → Text
  | working => ""
  | root => "/"
  | doubleRoot => "//"

/-- The anchor of a written path. -/
def ofText (t : Text) : Anchor :=
  match (t.takeWhile fun c ↦ c = .scalar '/').length with
  | 0 => working
  | 2 => doubleRoot
  | _ => root

end Anchor

/-- A path. -/
structure Path where
  anchor : Anchor
  parts : List Text
deriving DecidableEq, Repr

namespace Path

/-- The name that stands for the directory itself. -/
def here : Text := "."

/-- The name that stands for the directory above. -/
def above : Text := ".."

/-- The path that a text is. -/
def ofText (t : Text) : Path :=
  ⟨.ofText t, (t.split (.scalar '/')).filter fun part ↦ part ≠ [] ∧ part ≠ here⟩

/-- How a path is written; the working directory is a single dot. -/
def toText (p : Path) : Text :=
  match p.anchor, p.parts with
  | .working, [] => here
  | anchor, parts => anchor.toText ++ Text.join "/" parts

/-- The path that follows further names. -/
def append (p : Path) (names : List Text) : Path := { p with parts := p.parts ++ names }

/-- The path `q` as seen from `p`. -/
def join (p q : Path) : Path :=
  match q.anchor with
  | .working => p.append q.parts
  | _ => q

end Path

/-- Why the system does not take a path. -/
inductive PathFault where
  | notEncodable
  | nullCharacter
  | tooLong
deriving DecidableEq, Repr

/-- What is wrong with a written path or a name, whatever the files. -/
def Text.pathFault? (t : Text) : Option PathFault :=
  if t.bytes?.isNone then some .notEncodable
  else if t.contains (.scalar '\x00') then some .nullCharacter
  else none

/-- The fault of the first name on a path that has one. -/
def Path.fault? (p : Path) : Option PathFault := p.parts.findSome? Text.pathFault?

end TreeCheck
