import TreeCheck.Tree.Display

/-!
# Outlines of trees

An outline shows a tree on many lines: a node is the name of its kind, and its parts stand two
places further in, each with its name; nodes below a name stand two places further in again. Parts
that are absent are left out, and an empty list is written in place. A node may carry notes on its
type and its binding, which stand right below its name.

Source: `SPEC_FULL.md`, section 6 (tree interchange).
-/

namespace TreeCheck

/-- A line of an outline, at a depth counted in steps of two places. -/
inductive Entry where
  | node (depth : Nat) (kind : Kind)
  | type (depth : Nat) (name : Text)
  | binding (depth : Nat) (description : Text)
  | heading (depth : Nat) (part : Text)
  | item (depth : Nat) (part value : Text)
deriving DecidableEq, Repr

namespace Entry

/-- The blanks before a line. -/
def indent (depth : Nat) : Text := List.replicate (2 * depth) (.scalar ' ')

/-- A line as it is written. -/
def render : Entry → Text
  | node depth kind => indent depth ++ kind.name
  | type depth name => indent depth ++ ": " ++ name
  | binding depth description => indent depth ++ "-> " ++ description
  | heading depth part => indent depth ++ part ++ ":"
  | item depth part value => indent depth ++ part ++ ": " ++ value

/-- Whether a line is a note. -/
def isNote : Entry → Bool
  | type _ _ => true
  | binding _ _ => true
  | _ => false

end Entry

/-- What an outline says about a node beside its parts. -/
structure Notes where
  type : Option Text
  binding : Option Text

/-- Nothing is said. -/
def Notes.none : Notes := ⟨.none, .none⟩

variable {α : Type}

/-- The first lines of a node: its kind and its notes. -/
def Kind.header (kind : Kind) (depth : Nat) (notes : Notes) : List Entry :=
  .node depth kind :: (notes.type.map (Entry.type (depth + 1))).toList ++
    (notes.binding.map (Entry.binding (depth + 1))).toList

/-- The payload of a literal; nil is left out. -/
def Literal.outline (depth : Nat) : Literal → List Entry
  | nil => []
  | character c => [.item depth "value" (Text.quoted [c] ++ " (character)")]
  | value => [.item depth "value" value.display]

/-- A name that may be absent. -/
def outlineName (depth : Nat) (part : Text) : Option Text → List Entry
  | none => []
  | some t => [.item depth part t.quoted]

/-- A list of nodes below a name; an empty one is written in place. -/
def outlineList (depth : Nat) (part : Text) (entries : List Entry) : List Entry :=
  match entries with
  | [] => [.item depth part "[]"]
  | entries => .heading depth part :: entries

namespace Expr

mutual

/-- The outline of an expression. -/
def outline (notes : α → Notes) (depth : Nat) : Expr α → List Entry
  | literal tag value => Kind.literal.header depth (notes tag) ++ value.outline (depth + 1)
  | group tag inner =>
    Kind.group.header depth (notes tag) ++
      .heading (depth + 1) "expr" :: inner.outline notes (depth + 2)
  | binary tag operator left right =>
    Kind.binary.header depth (notes tag) ++ .item (depth + 1) "op" operator.quoted ::
      .heading (depth + 1) "left" :: left.outline notes (depth + 2) ++
      .heading (depth + 1) "right" :: right.outline notes (depth + 2)
  | access tag none name =>
    Kind.access.header depth (notes tag) ++ [.item (depth + 1) "name" name.quoted]
  | access tag (some receiver) name =>
    Kind.access.header depth (notes tag) ++
      .heading (depth + 1) "receiver" :: receiver.outline notes (depth + 2) ++
      [.item (depth + 1) "name" name.quoted]
  | call tag none name arguments =>
    Kind.call.header depth (notes tag) ++ .item (depth + 1) "name" name.quoted ::
      outlineList (depth + 1) "args" (outlineAll notes (depth + 2) arguments)
  | call tag (some receiver) name arguments =>
    Kind.call.header depth (notes tag) ++
      .heading (depth + 1) "receiver" :: receiver.outline notes (depth + 2) ++
      .item (depth + 1) "name" name.quoted ::
      outlineList (depth + 1) "args" (outlineAll notes (depth + 2) arguments)

/-- The outlines of some expressions. -/
def outlineAll (notes : α → Notes) (depth : Nat) : List (Expr α) → List Entry
  | [] => []
  | e :: es => e.outline notes depth ++ outlineAll notes depth es

end

/-- The outline of an expression that may be absent, below its name. -/
def outlineOption (notes : α → Notes) (depth : Nat) (part : Text) : Option (Expr α) → List Entry
  | none => []
  | some e => .heading depth part :: e.outline notes (depth + 1)

end Expr

namespace Stmt

mutual

/-- The outline of a statement. -/
def outline (notes : α → Notes) (depth : Nat) : Stmt α → List Entry
  | expression tag e =>
    Kind.expression.header depth (notes tag) ++
      .heading (depth + 1) "expr" :: e.outline notes (depth + 2)
  | declaration tag name typeName value =>
    Kind.declaration.header depth (notes tag) ++ .item (depth + 1) "name" name.quoted ::
      outlineName (depth + 1) "type_name" typeName ++
      Expr.outlineOption notes (depth + 1) "value" value
  | assignment tag receiver value =>
    Kind.assignment.header depth (notes tag) ++
      .heading (depth + 1) "receiver" :: receiver.outline notes (depth + 2) ++
      .heading (depth + 1) "value" :: value.outline notes (depth + 2)
  | ifElse tag condition thenBody elseBody =>
    Kind.ifElse.header depth (notes tag) ++
      .heading (depth + 1) "condition" :: condition.outline notes (depth + 2) ++
      outlineList (depth + 1) "then_body" (outlineAll notes (depth + 2) thenBody) ++
      outlineList (depth + 1) "else_body" (outlineAll notes (depth + 2) elseBody)
  | forLoop tag initialization condition increment body =>
    Kind.forLoop.header depth (notes tag) ++
      outlineOption notes (depth + 1) "initialization" initialization ++
      .heading (depth + 1) "condition" :: condition.outline notes (depth + 2) ++
      outlineOption notes (depth + 1) "increment" increment ++
      outlineList (depth + 1) "body" (outlineAll notes (depth + 2) body)
  | whileLoop tag condition body =>
    Kind.whileLoop.header depth (notes tag) ++
      .heading (depth + 1) "condition" :: condition.outline notes (depth + 2) ++
      outlineList (depth + 1) "body" (outlineAll notes (depth + 2) body)
  | ret tag value =>
    Kind.ret.header depth (notes tag) ++
      .heading (depth + 1) "value" :: value.outline notes (depth + 2)

/-- The outlines of some statements. -/
def outlineAll (notes : α → Notes) (depth : Nat) : List (Stmt α) → List Entry
  | [] => []
  | s :: ss => s.outline notes depth ++ outlineAll notes depth ss

/-- The outline of a statement that may be absent, below its name. -/
def outlineOption (notes : α → Notes) (depth : Nat) (part : Text) : Option (Stmt α) → List Entry
  | none => []
  | some s => .heading depth part :: s.outline notes (depth + 1)

end

end Stmt

/-- The outline of a field. -/
def Field.outline (notes : α → Notes) (depth : Nat) (d : Field α) : List Entry :=
  Kind.field.header depth (notes d.tag) ++ .item (depth + 1) "name" d.name.quoted ::
    .item (depth + 1) "type_name" d.typeName.quoted ::
    .item (depth + 1) "constant" (Literal.boolean d.constant).display ::
    Expr.outlineOption notes (depth + 1) "value" d.value

/-- The outline of a method. -/
def Method.outline (notes : α → Notes) (depth : Nat) (m : Method α) : List Entry :=
  Kind.method.header depth (notes m.tag) ++ .item (depth + 1) "name" m.name.quoted ::
    .item (depth + 1) "parameters" (Text.quotedList m.parameters) ::
    .item (depth + 1) "parameter_type_names" (Text.quotedList m.parameterTypes) ::
    outlineName (depth + 1) "return_type_name" m.returnType ++
    outlineList (depth + 1) "body" (Stmt.outlineAll notes (depth + 2) m.body)

/-- The outline of a source. -/
def Source.outline (notes : α → Notes) (depth : Nat) (s : Source α) : List Entry :=
  Kind.source.header depth (notes s.tag) ++
    outlineList (depth + 1) "fields" (s.fields.flatMap (Field.outline notes (depth + 2))) ++
    outlineList (depth + 1) "methods" (s.methods.flatMap (Method.outline notes (depth + 2)))

namespace Node

/-- The outline of a tree. Source: `SPEC_FULL.md:196–197`. -/
def outline (notes : α → Notes) (depth : Nat) : Node α → List Entry
  | source s => s.outline notes depth
  | field d => d.outline notes depth
  | method m => m.outline notes depth
  | stmt s => s.outline notes depth
  | expr e => e.outline notes depth

/-- The text of an outline, if every literal can be written out. -/
def outlineText? (notes : α → Notes) (n : Node α) : Option Text :=
  if n.isWritable then some (Text.join "\n" ((n.outline notes 0).map Entry.render)) else none

end Node

end TreeCheck
