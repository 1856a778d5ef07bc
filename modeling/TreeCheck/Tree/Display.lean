import TreeCheck.Text.Quoted
import TreeCheck.Tree.Basic

/-!
# Trees on one line

A node is shown as the name of its kind and its parts in order, each with its name. An integer that
is too long to be written makes the whole tree impossible to show.

Source: `SPEC_FULL.md`, section 3 (data model).
-/

namespace TreeCheck

/-- A literal's payload as a value. -/
def Literal.display : Literal → Text
  | nil => "None"
  | boolean true => "True"
  | boolean false => "False"
  | character c => "Char(value=" ++ Text.quoted [c] ++ ")"
  | string t => t.quoted
  | integer n => Text.ofInt n
  | decimal d => "Decimal('" ++ d.toText ++ "')"
  | nonFinite n => n.text

/-- Whether a literal can be written out. -/
def Literal.isWritable : Literal → Bool
  | integer n => Text.isWritable n
  | _ => true

/-- A text that may be absent. -/
def displayName : Option Text → Text
  | none => "None"
  | some t => t.quoted

variable {α : Type}

/-- A node: the name of its kind and its named parts. -/
def Kind.display (kind : Kind) (parts : List (Text × Text)) : Text :=
  kind.name ++ "(" ++ Text.join ", " (parts.map fun (name, part) ↦ name ++ "=" ++ part) ++ ")"

namespace Expr

mutual

/-- An expression on one line. -/
def display : Expr α → Text
  | literal _ value => Kind.literal.display [("value", value.display)]
  | group _ inner => Kind.group.display [("expr", inner.display)]
  | binary _ operator left right =>
    Kind.binary.display [("op", operator.quoted), ("left", left.display), ("right", right.display)]
  | access _ none name => Kind.access.display [("receiver", "None"), ("name", name.quoted)]
  | access _ (some receiver) name =>
    Kind.access.display [("receiver", receiver.display), ("name", name.quoted)]
  | call _ none name arguments =>
    Kind.call.display [("receiver", "None"), ("name", name.quoted),
      ("args", "[" ++ Text.join ", " (displayAll arguments) ++ "]")]
  | call _ (some receiver) name arguments =>
    Kind.call.display [("receiver", receiver.display), ("name", name.quoted),
      ("args", "[" ++ Text.join ", " (displayAll arguments) ++ "]")]

/-- Expressions, each on one line. -/
def displayAll : List (Expr α) → List Text
  | [] => []
  | e :: es => e.display :: displayAll es

end

/-- An expression that may be absent. -/
def displayOption : Option (Expr α) → Text
  | none => "None"
  | some e => e.display

mutual

/-- Whether every literal of an expression can be written out. -/
def isWritable : Expr α → Bool
  | literal _ value => value.isWritable
  | group _ inner => inner.isWritable
  | binary _ _ left right => left.isWritable && right.isWritable
  | access _ none _ => true
  | access _ (some receiver) _ => receiver.isWritable
  | call _ none _ arguments => areWritable arguments
  | call _ (some receiver) _ arguments => receiver.isWritable && areWritable arguments

/-- Whether every literal of some expressions can be written out. -/
def areWritable : List (Expr α) → Bool
  | [] => true
  | e :: es => e.isWritable && areWritable es

end

end Expr

namespace Stmt

mutual

/-- A statement on one line. -/
def display : Stmt α → Text
  | expression _ e => Kind.expression.display [("expr", e.display)]
  | declaration _ name typeName value =>
    Kind.declaration.display [("name", name.quoted), ("type_name", displayName typeName),
      ("value", Expr.displayOption value)]
  | assignment _ receiver value =>
    Kind.assignment.display [("receiver", receiver.display), ("value", value.display)]
  | ifElse _ condition thenBody elseBody =>
    Kind.ifElse.display [("condition", condition.display),
      ("then_body", "[" ++ Text.join ", " (displayAll thenBody) ++ "]"),
      ("else_body", "[" ++ Text.join ", " (displayAll elseBody) ++ "]")]
  | forLoop _ initialization condition increment body =>
    Kind.forLoop.display [("initialization", displayOption initialization),
      ("condition", condition.display), ("increment", displayOption increment),
      ("body", "[" ++ Text.join ", " (displayAll body) ++ "]")]
  | whileLoop _ condition body =>
    Kind.whileLoop.display [("condition", condition.display),
      ("body", "[" ++ Text.join ", " (displayAll body) ++ "]")]
  | ret _ value => Kind.ret.display [("value", value.display)]

/-- Statements, each on one line. -/
def displayAll : List (Stmt α) → List Text
  | [] => []
  | s :: ss => s.display :: displayAll ss

/-- A statement that may be absent. -/
def displayOption : Option (Stmt α) → Text
  | none => "None"
  | some s => s.display

end

mutual

/-- Whether every literal of a statement can be written out. -/
def isWritable : Stmt α → Bool
  | expression _ e => e.isWritable
  | declaration _ _ _ value => value.all Expr.isWritable
  | assignment _ receiver value => receiver.isWritable && value.isWritable
  | ifElse _ condition thenBody elseBody =>
    condition.isWritable && areWritable thenBody && areWritable elseBody
  | forLoop _ initialization condition increment body =>
    optionIsWritable initialization && condition.isWritable && optionIsWritable increment &&
      areWritable body
  | whileLoop _ condition body => condition.isWritable && areWritable body
  | ret _ value => value.isWritable

/-- Whether every literal of some statements can be written out. -/
def areWritable : List (Stmt α) → Bool
  | [] => true
  | s :: ss => s.isWritable && areWritable ss

/-- Whether every literal of a statement that may be absent can be written out. -/
def optionIsWritable : Option (Stmt α) → Bool
  | none => true
  | some s => s.isWritable

end

end Stmt

/-- A field on one line. -/
def Field.display (d : Field α) : Text :=
  Kind.field.display [("name", d.name.quoted), ("type_name", d.typeName.quoted),
    ("constant", (Literal.boolean d.constant).display), ("value", Expr.displayOption d.value)]

/-- A method on one line. -/
def Method.display (m : Method α) : Text :=
  Kind.method.display [("name", m.name.quoted), ("parameters", Text.quotedList m.parameters),
    ("parameter_type_names", Text.quotedList m.parameterTypes),
    ("return_type_name", displayName m.returnType),
    ("body", "[" ++ Text.join ", " (Stmt.displayAll m.body) ++ "]")]

/-- A source on one line. -/
def Source.display (s : Source α) : Text :=
  Kind.source.display [("fields", "[" ++ Text.join ", " (s.fields.map Field.display) ++ "]"),
    ("methods", "[" ++ Text.join ", " (s.methods.map Method.display) ++ "]")]

namespace Node

/-- Whether every literal of a tree can be written out. -/
def isWritable : Node α → Bool
  | source s =>
    s.fields.all (fun d ↦ d.value.all Expr.isWritable) &&
      s.methods.all fun m ↦ Stmt.areWritable m.body
  | field d => d.value.all Expr.isWritable
  | method m => Stmt.areWritable m.body
  | stmt s => s.isWritable
  | expr e => e.isWritable

/-- A tree on one line, if it can be written out. -/
def display? (n : Node α) : Option Text :=
  if n.isWritable then some shown else none
where
  /-- A tree on one line. -/
  shown : Text :=
    match n with
    | source s => s.display
    | field d => d.display
    | method m => m.display
    | stmt s => s.display
    | expr e => e.display

end Node

end TreeCheck
