import TreeCheck.Tree.Format

/-!
# Reading trees

Reading checks the parts of a node in a fixed order, which decides the mistake that is reported
when a document has several. Reading a text first decodes it as JSON.

Source: `SPEC_FULL.md`, section 6 (tree interchange).
-/

namespace TreeCheck

open Json (Value)

/-- The payload of a literal. -/
def Literal.ofEntries (o : Json.Entries) : Except FormatError Literal :=
  if o.flag "character" then
    match o.child "value" with
    | .string [c] => .ok (.character c)
    | _ => .error .badCharacter
  else
    match o.child "value" with
    | .null => .ok .nil
    | .bool b => .ok (.boolean b)
    | .integer n => .ok (.integer n)
    | .decimal d => .ok (.decimal d)
    | .nonFinite n => .ok (.nonFinite n)
    | .string t => .ok (.string t)
    | .array _ => .error .notAScalar
    | .object _ => .error .notAScalar

namespace Expr

mutual

/-- Read an expression from the entries of its object. -/
def ofEntries (o : Json.Entries) : Except FormatError (Expr Unit) := do
  let kind ← o.kind
  match Kind.ofKeyword? kind with
  | some .literal => return literal () (← Literal.ofEntries o)
  | some .group => return group () (← ofJson (o.child "expression"))
  | some .binary =>
    let operator ← o.string .binary "operator"
    let left ← ofJson (o.child "left")
    let right ← ofJson (o.child "right")
    return binary () operator left right
  | some .access =>
    let receiver ← optional (o.child "receiver")
    let name ← o.string .access "name"
    return access () receiver name
  | some .call =>
    let receiver ← optional (o.child "receiver")
    let name ← o.string .call "name"
    o.requireList .call "arguments"
    let arguments ← ofJsonAll (o.items "arguments")
    return call () receiver name arguments
  | _ => throw (.unknownExpression kind)
termination_by 3 * sizeOf (Value.object o)
decreasing_by
  all_goals
    first
    | exact Json.Entries.weight_child_lt _ _ (by decide)
    | exact Json.Entries.weight_items_lt ..

/-- Read an expression. -/
def ofJson : Value → Except FormatError (Expr Unit)
  | .object o => ofEntries o
  | v => .error (.notAnObject v.sort)
termination_by v => 3 * sizeOf v + 1

/-- Read an expression unless it is null. -/
def optional (v : Value) : Except FormatError (Option (Expr Unit)) :=
  match v with
  | .null => .ok none
  | v => some <$> ofJson v
termination_by 3 * sizeOf v + 2

/-- Read a list of expressions. -/
def ofJsonAll : List Value → Except FormatError (List (Expr Unit))
  | [] => .ok []
  | v :: vs => do
    let e ← ofJson v
    let es ← ofJsonAll vs
    return e :: es
termination_by vs => 3 * sizeOf vs
decreasing_by
  all_goals simp only [List.cons.sizeOf_spec]; omega

end

end Expr

namespace Stmt

mutual

/-- Read a statement from the entries of its object. -/
def ofEntries (o : Json.Entries) : Except FormatError (Stmt Unit) := do
  let kind ← o.kind
  match Kind.ofKeyword? kind with
  | some .expression => return expression () (← Expr.ofJson (o.child "expression"))
  | some .declaration =>
    let typeName ← o.string? .declaration "type"
    let name ← o.string .declaration "name"
    let value ← Expr.optional (o.child "value")
    return declaration () name typeName value
  | some .assignment =>
    let receiver ← Expr.ofJson (o.child "receiver")
    let value ← Expr.ofJson (o.child "value")
    return assignment () receiver value
  | some .ifElse =>
    let condition ← Expr.ofJson (o.child "condition")
    o.requireList .ifElse "then"
    let thenBody ← ofJsonAll (o.items "then")
    o.requireList .ifElse "else"
    let elseBody ← ofJsonAll (o.items "else")
    return ifElse () condition thenBody elseBody
  | some .forLoop =>
    let initialization ← optional (o.child "initialization")
    let condition ← Expr.ofJson (o.child "condition")
    let increment ← optional (o.child "increment")
    o.requireList .forLoop "statements"
    let body ← ofJsonAll (o.items "statements")
    return forLoop () initialization condition increment body
  | some .whileLoop =>
    let condition ← Expr.ofJson (o.child "condition")
    o.requireList .whileLoop "statements"
    let body ← ofJsonAll (o.items "statements")
    return whileLoop () condition body
  | some .ret => return ret () (← Expr.ofJson (o.child "value"))
  | _ => throw (.unknownStatement kind)
termination_by 3 * sizeOf (Value.object o)
decreasing_by
  all_goals
    first
    | exact Json.Entries.weight_child_lt _ _ (by decide)
    | exact Json.Entries.weight_items_lt ..

/-- Read a statement. -/
def ofJson : Value → Except FormatError (Stmt Unit)
  | .object o => ofEntries o
  | v => .error (.notAnObject v.sort)
termination_by v => 3 * sizeOf v + 1

/-- Read a statement unless it is null. -/
def optional (v : Value) : Except FormatError (Option (Stmt Unit)) :=
  match v with
  | .null => .ok none
  | v => some <$> ofJson v
termination_by 3 * sizeOf v + 2

/-- Read a list of statements. -/
def ofJsonAll : List Value → Except FormatError (List (Stmt Unit))
  | [] => .ok []
  | v :: vs => do
    let s ← ofJson v
    let ss ← ofJsonAll vs
    return s :: ss
termination_by vs => 3 * sizeOf vs
decreasing_by
  all_goals simp only [List.cons.sizeOf_spec]; omega

end

end Stmt

/-- The entries of the object that describes a node. -/
def Json.Value.entries : Value → Except FormatError Json.Entries
  | .object o => .ok o
  | v => .error (.notAnObject v.sort)

/-- The entries of the object that describes a node of the kind expected. -/
def Kind.entries (expected : Kind) (v : Value) : Except FormatError Json.Entries := do
  let o ← v.entries
  let kind ← o.kind
  if kind = expected.keyword then return o else throw (.otherKind expected kind)

/-- Read a field. -/
def Field.ofJson (v : Value) : Except FormatError (Field Unit) := do
  let o ← Kind.entries .field v
  let name ← o.string .field "name"
  let typeName ← o.string .field "type"
  let value ← Expr.optional (o.child "value")
  return ⟨(), name, typeName, o.flag "constant", value⟩

/-- Read a method. -/
def Method.ofJson (v : Value) : Except FormatError (Method Unit) := do
  let o ← Kind.entries .method v
  let returnType ← o.string? .method "return_type"
  let name ← o.string .method "name"
  let parameters ← o.strings .method "parameters"
  let parameterTypes ← o.strings .method "parameter_types"
  o.requireList .method "statements"
  let body ← Stmt.ofJsonAll (o.items "statements")
  return ⟨(), name, parameters, parameterTypes, returnType, body⟩

/-- Read a source. -/
def Source.ofJson (v : Value) : Except FormatError (Source Unit) := do
  let o ← Kind.entries .source v
  o.requireList .source "fields"
  let fields ← (o.items "fields").mapM Field.ofJson
  o.requireList .source "methods"
  let methods ← (o.items "methods").mapM Method.ofJson
  return ⟨(), fields, methods⟩

namespace Node

/-- Read a tree of any kind. -/
def ofJson (v : Value) : Except FormatError (Node Unit) := do
  let o ← v.entries
  let kind ← o.kind
  match Kind.ofKeyword? kind with
  | some .source => source <$> Source.ofJson v
  | some .field => field <$> Field.ofJson v
  | some .method => method <$> Method.ofJson v
  | some .expression | some .declaration | some .assignment | some .ifElse | some .forLoop
  | some .whileLoop | some .ret => stmt <$> Stmt.ofJson v
  | _ => expr <$> Expr.ofJson v

/-- Why a text cannot be read as a tree. -/
inductive ReadError where
  | format (e : FormatError)
  | exponentOutOfBounds
deriving DecidableEq, Repr

/-- Read a tree from the text of a document. Source: `SPEC_FULL.md:189–196`. -/
def ofText (t : Text) : Except ReadError (Node Unit) :=
  match Json.parse t with
  | .error (.malformed line what) => .error (.format (.invalidJson line what))
  | .error .exponentOutOfBounds => .error .exponentOutOfBounds
  | .ok v => (ofJson v).mapError .format

end Node

end TreeCheck
