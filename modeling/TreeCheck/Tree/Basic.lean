import TreeCheck.Json.Value

/-!
# Syntax trees

A tree is a whole source, a field, a method, a statement or an expression. Every node carries a
tag of a type `α`: plain trees carry nothing, and trees to be analysed carry the identity of each
node. Trees with the same tags everywhere are the same tree.

Source: `SPEC_FULL.md`, section 3 (data model).
-/

namespace TreeCheck

/-- The payload of a literal. A character is kept apart from a string of one code point. Source:
`SPEC_FULL.md:60–61`. -/
inductive Literal where
  | nil
  | boolean (b : Bool)
  | character (c : CodePoint)
  | string (t : Text)
  | integer (n : Int)
  | decimal (d : Decimal)
  | nonFinite (n : Json.NonFinite)
deriving DecidableEq, Repr

/-- An expression. An access or a call without a receiver names a variable or a function; with one,
a field or a method of the receiver. Source: `SPEC_FULL.md:59–60`. -/
inductive Expr (α : Type) where
  | literal (tag : α) (value : Literal)
  | group (tag : α) (inner : Expr α)
  | binary (tag : α) (operator : Text) (left right : Expr α)
  | access (tag : α) (receiver : Option (Expr α)) (name : Text)
  | call (tag : α) (receiver : Option (Expr α)) (name : Text) (arguments : List (Expr α))
deriving Repr

/-- A statement. Source: `SPEC_FULL.md:58–59`. -/
inductive Stmt (α : Type) where
  | expression (tag : α) (expr : Expr α)
  | declaration (tag : α) (name : Text) (typeName : Option Text) (value : Option (Expr α))
  | assignment (tag : α) (receiver value : Expr α)
  | ifElse (tag : α) (condition : Expr α) (thenBody elseBody : List (Stmt α))
  | forLoop (tag : α) (initialization : Option (Stmt α)) (condition : Expr α)
      (increment : Option (Stmt α)) (body : List (Stmt α))
  | whileLoop (tag : α) (condition : Expr α) (body : List (Stmt α))
  | ret (tag : α) (value : Expr α)
deriving Repr

/-- A field of a source. -/
structure Field (α : Type) where
  tag : α
  name : Text
  typeName : Text
  constant : Bool
  value : Option (Expr α)
deriving Repr

/-- A method of a source. The names of its parameters and of their types are separate lists. -/
structure Method (α : Type) where
  tag : α
  name : Text
  parameters : List Text
  parameterTypes : List Text
  returnType : Option Text
  body : List (Stmt α)
deriving Repr

/-- A whole program: fields, then methods. -/
structure Source (α : Type) where
  tag : α
  fields : List (Field α)
  methods : List (Method α)
deriving Repr

/-- A syntax tree of any kind. -/
inductive Node (α : Type) where
  | source (s : Source α)
  | field (f : Field α)
  | method (m : Method α)
  | stmt (s : Stmt α)
  | expr (e : Expr α)
deriving Repr

/-- The kinds of nodes. -/
inductive Kind where
  | literal | group | binary | access | call
  | expression | declaration | assignment | ifElse | forLoop | whileLoop | ret
  | field | method | source
deriving DecidableEq, Repr

/-- How a kind is shown. -/
def Kind.name : Kind → Text
  | literal => "Literal"
  | group => "GroupExpr"
  | binary => "BinaryExpr"
  | access => "AccessExpr"
  | call => "CallExpr"
  | expression => "ExprStmt"
  | declaration => "Declaration"
  | assignment => "Assignment"
  | ifElse => "IfStmt"
  | forLoop => "ForStmt"
  | whileLoop => "WhileStmt"
  | ret => "ReturnStmt"
  | field => "FieldDef"
  | method => "MethodDef"
  | source => "Source"

variable {α β : Type}

namespace Expr

/-- The tag of an expression. -/
def tag : Expr α → α
  | literal tag _ => tag
  | group tag _ => tag
  | binary tag _ _ _ => tag
  | access tag _ _ => tag
  | call tag _ _ _ => tag

/-- The kind of an expression. -/
def kind : Expr α → Kind
  | literal _ _ => .literal
  | group _ _ => .group
  | binary _ _ _ _ => .binary
  | access _ _ _ => .access
  | call _ _ _ _ => .call

mutual

/-- Change every tag of an expression. -/
def map (f : α → β) : Expr α → Expr β
  | literal tag value => literal (f tag) value
  | group tag inner => group (f tag) (inner.map f)
  | binary tag operator left right => binary (f tag) operator (left.map f) (right.map f)
  | access tag none name => access (f tag) none name
  | access tag (some receiver) name => access (f tag) (some (receiver.map f)) name
  | call tag none name arguments => call (f tag) none name (mapAll f arguments)
  | call tag (some receiver) name arguments =>
    call (f tag) (some (receiver.map f)) name (mapAll f arguments)

/-- Change every tag of a list of expressions. -/
def mapAll (f : α → β) : List (Expr α) → List (Expr β)
  | [] => []
  | e :: es => e.map f :: mapAll f es

end

/-- An expression without its tags. -/
def plain (e : Expr α) : Expr Unit := e.map fun _ ↦ ()

end Expr

namespace Stmt

/-- The tag of a statement. -/
def tag : Stmt α → α
  | expression tag _ => tag
  | declaration tag _ _ _ => tag
  | assignment tag _ _ => tag
  | ifElse tag _ _ _ => tag
  | forLoop tag _ _ _ _ => tag
  | whileLoop tag _ _ => tag
  | ret tag _ => tag

/-- The kind of a statement. -/
def kind : Stmt α → Kind
  | expression _ _ => .expression
  | declaration _ _ _ _ => .declaration
  | assignment _ _ _ => .assignment
  | ifElse _ _ _ _ => .ifElse
  | forLoop _ _ _ _ _ => .forLoop
  | whileLoop _ _ _ => .whileLoop
  | ret _ _ => .ret

mutual

/-- Change every tag of a statement. -/
def map (f : α → β) : Stmt α → Stmt β
  | expression tag e => expression (f tag) (e.map f)
  | declaration tag name typeName value =>
    declaration (f tag) name typeName (value.map fun e ↦ e.map f)
  | assignment tag receiver value => assignment (f tag) (receiver.map f) (value.map f)
  | ifElse tag condition thenBody elseBody =>
    ifElse (f tag) (condition.map f) (mapAll f thenBody) (mapAll f elseBody)
  | forLoop tag initialization condition increment body =>
    forLoop (f tag) (mapOption f initialization) (condition.map f) (mapOption f increment)
      (mapAll f body)
  | whileLoop tag condition body => whileLoop (f tag) (condition.map f) (mapAll f body)
  | ret tag value => ret (f tag) (value.map f)

/-- Change every tag of a list of statements. -/
def mapAll (f : α → β) : List (Stmt α) → List (Stmt β)
  | [] => []
  | s :: ss => s.map f :: mapAll f ss

/-- Change every tag of a statement that may be absent. -/
def mapOption (f : α → β) : Option (Stmt α) → Option (Stmt β)
  | none => none
  | some s => some (s.map f)

end

/-- A statement without its tags. -/
def plain (s : Stmt α) : Stmt Unit := s.map fun _ ↦ ()

end Stmt

/-- Change every tag of a field. -/
def Field.map (f : α → β) (d : Field α) : Field β :=
  { d with tag := f d.tag, value := d.value.map fun e ↦ e.map f }

/-- Change every tag of a method. -/
def Method.map (f : α → β) (m : Method α) : Method β :=
  { m with tag := f m.tag, body := Stmt.mapAll f m.body }

/-- Change every tag of a source. -/
def Source.map (f : α → β) (s : Source α) : Source β :=
  ⟨f s.tag, s.fields.map fun d ↦ d.map f, s.methods.map fun m ↦ m.map f⟩

namespace Node

/-- The tag of the root. -/
def tag : Node α → α
  | source s => s.tag
  | field f => f.tag
  | method m => m.tag
  | stmt s => s.tag
  | expr e => e.tag

/-- The kind of the root. -/
def kind : Node α → Kind
  | source _ => .source
  | field _ => .field
  | method _ => .method
  | stmt s => s.kind
  | expr e => e.kind

/-- Change every tag of a tree. -/
def map (f : α → β) : Node α → Node β
  | source s => source (s.map f)
  | field d => field (d.map f)
  | method m => method (m.map f)
  | stmt s => stmt (s.map f)
  | expr e => expr (e.map f)

/-- A tree without its tags. -/
def plain (n : Node α) : Node Unit := n.map fun _ ↦ ()

end Node

end TreeCheck
