import TreeCheck.Json.Reader
import TreeCheck.Tree.Basic

/-!
# The tree format

A document describes a node as a JSON object whose key `kind` names it. This module holds the names
that the format gives to the kinds, what can be wrong with a document, and how the keys of a node's
object are looked up. Keys that a kind does not use are never looked at.

Source: `SPEC_FULL.md`, section 6 (tree interchange).
-/

namespace TreeCheck

/-- The name of a kind in a document. -/
def Kind.keyword : Kind → Text
  | literal => "Literal"
  | group => "Group"
  | binary => "Binary"
  | access => "Access"
  | call => "Call"
  | expression => "Expression"
  | declaration => "Declaration"
  | assignment => "Assignment"
  | ifElse => "If"
  | forLoop => "For"
  | whileLoop => "While"
  | ret => "Return"
  | field => "Field"
  | method => "Method"
  | source => "Source"

/-- All kinds. -/
def Kind.all : List Kind :=
  [.literal, .group, .binary, .access, .call, .expression, .declaration, .assignment, .ifElse,
   .forLoop, .whileLoop, .ret, .field, .method, .source]

/-- The kind that a name in a document stands for. -/
def Kind.ofKeyword? (t : Text) : Option Kind := Kind.all.find? fun k ↦ k.keyword = t

/-- What can be wrong with a tree document. -/
inductive FormatError where
  | invalidJson (line : Nat) (what : Json.Problem)
  | notAnObject (sort : Text)
  | noKind
  | otherKind (expected : Kind) (actual : Text)
  | notAString (kind : Kind) (key : Text)
  | notAList (kind : Kind) (key : Text)
  | entryNotAString (key : Text)
  | unknownStatement (kind : Text)
  | unknownExpression (kind : Text)
  | badCharacter
  | notAScalar
  | unreadable (path reason : Text)
deriving DecidableEq, Repr

/-- The wording of a mistake in a tree document. -/
def FormatError.message : FormatError → Text
  | invalidJson line what => "invalid JSON at line " ++ Text.ofNat line ++ ": " ++ what.message
  | notAnObject sort => "expected a node object, got " ++ sort
  | noKind => "node is missing its 'kind'"
  | otherKind expected actual =>
    "expected a " ++ expected.keyword ++ " node, got '" ++ actual ++ "'"
  | notAString kind key => kind.keyword ++ " '" ++ key ++ "' must be a string"
  | notAList kind key => kind.keyword ++ " '" ++ key ++ "' must be a list"
  | entryNotAString key => "'" ++ key ++ "' entries must be strings"
  | unknownStatement kind => "unknown statement kind '" ++ kind ++ "'"
  | unknownExpression kind => "unknown expression kind '" ++ kind ++ "'"
  | badCharacter => "character literal must be a one-character string"
  | notAScalar => "literal value must be a JSON scalar"
  | unreadable path reason => "cannot read " ++ path ++ ": " ++ reason

namespace Json.Entries

/-- The value of a key; an absent key counts as null. -/
def child (o : Entries) (key : Text) : Value := (o.get? key).getD .null

/-- The list that a key holds; anything else counts as empty. -/
def items (o : Entries) (key : Text) : List Value :=
  match o.get? key with
  | some (.array items) => items
  | _ => []

/-- The name of a node's kind. -/
def kind (o : Entries) : Except FormatError Text :=
  match o.get? "kind" with
  | some (.string kind) => .ok kind
  | _ => .error .noKind

/-- A string that a kind requires under a key. -/
def string (o : Entries) (kind : Kind) (key : Text) : Except FormatError Text :=
  match o.get? key with
  | some (.string t) => .ok t
  | _ => .error (.notAString kind key)

/-- A string that may be absent or null. -/
def string? (o : Entries) (kind : Kind) (key : Text) : Except FormatError (Option Text) :=
  match o.child key with
  | .null => .ok none
  | .string t => .ok (some t)
  | _ => .error (.notAString kind key)

/-- Refuse a key that is present and holds no list. -/
def requireList (o : Entries) (kind : Kind) (key : Text) : Except FormatError Unit :=
  match o.get? key with
  | none => .ok ()
  | some (.array _) => .ok ()
  | some _ => .error (.notAList kind key)

/-- A list of strings; an absent key counts as the empty list. -/
def strings (o : Entries) (kind : Kind) (key : Text) : Except FormatError (List Text) := do
  o.requireList kind key
  (o.items key).mapM fun
    | .string t => .ok t
    | _ => .error (.entryNotAString key)

/-- Whether a key holds something that counts as true. -/
def flag (o : Entries) (key : Text) : Bool := (o.child key).isTrue

/-- A value under a key is smaller than the object. -/
theorem sizeOf_child_lt (o : Entries) (key : Text) :
    sizeOf (o.child key) < sizeOf (Value.object o) := by
  unfold child get?
  induction o with
  | nil => simp
  | cons entry rest ih =>
    obtain ⟨k, v⟩ := entry
    simp only [List.lookup_cons]
    split
    · simp; omega
    · simp only [Value.object.sizeOf_spec, List.cons.sizeOf_spec] at ih ⊢; omega

/-- A list under a key is smaller than the object. -/
theorem sizeOf_items_lt (o : Entries) (key : Text) :
    sizeOf (o.items key) < sizeOf (Value.object o) := by
  have bound := sizeOf_child_lt o key
  unfold items
  unfold child at bound
  split
  · next found => simp [found] at bound ⊢; omega
  · simp only [List.nil.sizeOf_spec, Value.object.sizeOf_spec]
    cases o <;> simp only [List.nil.sizeOf_spec, List.cons.sizeOf_spec] <;> omega

/-- Reading a value under a key comes before reading the object. -/
theorem weight_child_lt (o : Entries) (key : Text) {k : Nat} (h : k < 3) :
    3 * sizeOf (o.child key) + k < 3 * sizeOf (Value.object o) := by
  have := sizeOf_child_lt o key
  omega

/-- Reading a list under a key comes before reading the object. -/
theorem weight_items_lt (o : Entries) (key : Text) :
    3 * sizeOf (o.items key) < 3 * sizeOf (Value.object o) := by
  have := sizeOf_items_lt o key
  omega

end Json.Entries

end TreeCheck
