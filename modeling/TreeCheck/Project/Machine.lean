import TreeCheck.Json.Reader

/-!
# What a machine bears

A run takes room for every directory that a search has entered and not left yet, and for every
bracket of a document that is open. How much room there is belongs to the machine and not to the
files. A run that needs more ends at once.

Source: `SPEC_FULL.md`, section 5 (recursion).
-/

namespace TreeCheck

namespace Text

/-- Whether a code point opens a list or an object of a document. -/
def isOpening (c : CodePoint) : Bool := c = .scalar '[' || c = .scalar '\x7b'

/-- Whether a code point closes a list or an object of a document. -/
def isClosing (c : CodePoint) : Bool := c = .scalar ']' || c = .scalar '\x7d'

mutual

/-- The greatest number of brackets that are open at a time, when `depth` of them are open
already. Brackets in strings do not count. -/
def nestingFrom (depth : Nat) : Text → Nat
  | [] => depth
  | c :: rest =>
    if c = .scalar '"' then nestingInString depth rest
    else if isOpening c then nestingFrom (depth + 1) rest
    else if isClosing c then max depth (nestingFrom (depth - 1) rest)
    else nestingFrom depth rest

/-- The same in a string. -/
def nestingInString (depth : Nat) : Text → Nat
  | [] => depth
  | c :: rest =>
    if c = .scalar '"' then nestingFrom depth rest
    else if c = .scalar '\\' then nestingAfterBackslash depth rest
    else nestingInString depth rest

/-- The same after a backslash in a string. -/
def nestingAfterBackslash (depth : Nat) : Text → Nat
  | [] => depth
  | _ :: rest => nestingInString depth rest

end

/-- How deep the lists and objects of a document are nested. -/
def nesting (t : Text) : Nat := nestingFrom 0 t

end Text

/-- What a machine bears before a run ends for lack of room. -/
structure Machine where
  /-- How many directories, one in another, a search enters below the one where it begins. -/
  depth : Nat
  /-- Whether there is room to read a document and to analyse its tree. -/
  bearsTree : Text → Bool
  /-- Whether there is room to read the settings of a project. -/
  bearsSettings : Text → Bool

/-- What the reader of documents has passed over when it stops. -/
def Json.passedOver (t : Text) : Text :=
  match document t with
  | .error (.problem rest _) => t.take (t.length - rest.length)
  | _ => t

/-- A machine of the usual size. It has room for a thousand calls, one in another, so brackets
behind the place where a reader stops do not count. -/
def Machine.usual : Machine where
  depth := 999
  bearsTree t := (Json.passedOver t).nesting < 1000
  bearsSettings t := t.nesting < 1000

end TreeCheck
