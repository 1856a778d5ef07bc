import TreeCheck.Tree.Basic

/-!
# Identities of nodes

Analysis tells nodes apart by identity, not by shape. Labelling gives the nodes of a plain tree
consecutive numbers in the order in which they are written, so no two share one.

Source: `SPEC_FULL.md`, section 3, last item (resolved types and bindings).
-/

namespace TreeCheck

/-- The identity of a node. -/
abbrev NodeId := Nat

variable {α : Type}

namespace Expr

mutual

/-- The number of nodes of an expression. -/
def size : Expr α → Nat
  | literal _ _ => 1
  | group _ inner => 1 + inner.size
  | binary _ _ left right => 1 + left.size + right.size
  | access _ none _ => 1
  | access _ (some receiver) _ => 1 + receiver.size
  | call _ none _ arguments => 1 + sizeAll arguments
  | call _ (some receiver) _ arguments => 1 + receiver.size + sizeAll arguments

/-- The number of nodes of a list of expressions. -/
def sizeAll : List (Expr α) → Nat
  | [] => 0
  | e :: es => e.size + sizeAll es

end

/-- The number of nodes of an expression that may be absent. -/
def sizeOption : Option (Expr α) → Nat
  | none => 0
  | some e => e.size

mutual

/-- Number the nodes of an expression from `n` on. -/
def label (n : NodeId) : Expr α → Expr NodeId
  | literal _ value => literal n value
  | group _ inner => group n (inner.label (n + 1))
  | binary _ operator left right =>
    binary n operator (left.label (n + 1)) (right.label (n + 1 + left.size))
  | access _ none name => access n none name
  | access _ (some receiver) name => access n (some (receiver.label (n + 1))) name
  | call _ none name arguments => call n none name (labelAll (n + 1) arguments)
  | call _ (some receiver) name arguments =>
    call n (some (receiver.label (n + 1))) name (labelAll (n + 1 + receiver.size) arguments)

/-- Number the nodes of a list of expressions from `n` on. -/
def labelAll (n : NodeId) : List (Expr α) → List (Expr NodeId)
  | [] => []
  | e :: es => e.label n :: labelAll (n + e.size) es

end

/-- Number the nodes of an expression that may be absent from `n` on. -/
def labelOption (n : NodeId) : Option (Expr α) → Option (Expr NodeId)
  | none => none
  | some e => some (e.label n)

end Expr

namespace Stmt

mutual

/-- The number of nodes of a statement. -/
def size : Stmt α → Nat
  | expression _ e => 1 + e.size
  | declaration _ _ _ value => 1 + Expr.sizeOption value
  | assignment _ receiver value => 1 + receiver.size + value.size
  | ifElse _ condition thenBody elseBody =>
    1 + condition.size + sizeAll thenBody + sizeAll elseBody
  | forLoop _ initialization condition increment body =>
    1 + sizeOption initialization + condition.size + sizeOption increment + sizeAll body
  | whileLoop _ condition body => 1 + condition.size + sizeAll body
  | ret _ value => 1 + value.size

/-- The number of nodes of a list of statements. -/
def sizeAll : List (Stmt α) → Nat
  | [] => 0
  | s :: ss => s.size + sizeAll ss

/-- The number of nodes of a statement that may be absent. -/
def sizeOption : Option (Stmt α) → Nat
  | none => 0
  | some s => s.size

end

mutual

/-- Number the nodes of a statement from `n` on. -/
def label (n : NodeId) : Stmt α → Stmt NodeId
  | expression _ e => expression n (e.label (n + 1))
  | declaration _ name typeName value =>
    declaration n name typeName (Expr.labelOption (n + 1) value)
  | assignment _ receiver value =>
    assignment n (receiver.label (n + 1)) (value.label (n + 1 + receiver.size))
  | ifElse _ condition thenBody elseBody =>
    ifElse n (condition.label (n + 1)) (labelAll (n + 1 + condition.size) thenBody)
      (labelAll (n + 1 + condition.size + sizeAll thenBody) elseBody)
  | forLoop _ initialization condition increment body =>
    forLoop n (labelOption (n + 1) initialization)
      (condition.label (n + 1 + sizeOption initialization))
      (labelOption (n + 1 + sizeOption initialization + condition.size) increment)
      (labelAll (n + 1 + sizeOption initialization + condition.size + sizeOption increment) body)
  | whileLoop _ condition body =>
    whileLoop n (condition.label (n + 1)) (labelAll (n + 1 + condition.size) body)
  | ret _ value => ret n (value.label (n + 1))

/-- Number the nodes of a list of statements from `n` on. -/
def labelAll (n : NodeId) : List (Stmt α) → List (Stmt NodeId)
  | [] => []
  | s :: ss => s.label n :: labelAll (n + s.size) ss

/-- Number the nodes of a statement that may be absent from `n` on. -/
def labelOption (n : NodeId) : Option (Stmt α) → Option (Stmt NodeId)
  | none => none
  | some s => some (s.label n)

end

end Stmt

namespace Field

/-- The number of nodes of a field. -/
def size (d : Field α) : Nat := 1 + Expr.sizeOption d.value

/-- The number of nodes of a list of fields. -/
def sizeAll : List (Field α) → Nat
  | [] => 0
  | d :: ds => d.size + sizeAll ds

/-- Number the nodes of a field from `n` on. -/
def label (n : NodeId) (d : Field α) : Field NodeId :=
  { d with tag := n, value := Expr.labelOption (n + 1) d.value }

/-- Number the nodes of a list of fields from `n` on. -/
def labelAll (n : NodeId) : List (Field α) → List (Field NodeId)
  | [] => []
  | d :: ds => d.label n :: labelAll (n + d.size) ds

end Field

namespace Method

/-- The number of nodes of a method. -/
def size (m : Method α) : Nat := 1 + Stmt.sizeAll m.body

/-- The number of nodes of a list of methods. -/
def sizeAll : List (Method α) → Nat
  | [] => 0
  | m :: ms => m.size + sizeAll ms

/-- Number the nodes of a method from `n` on. -/
def label (n : NodeId) (m : Method α) : Method NodeId :=
  { m with tag := n, body := Stmt.labelAll (n + 1) m.body }

/-- Number the nodes of a list of methods from `n` on. -/
def labelAll (n : NodeId) : List (Method α) → List (Method NodeId)
  | [] => []
  | m :: ms => m.label n :: labelAll (n + m.size) ms

end Method

namespace Source

/-- The number of nodes of a source. -/
def size (s : Source α) : Nat := 1 + Field.sizeAll s.fields + Method.sizeAll s.methods

/-- Number the nodes of a source from `n` on. -/
def label (n : NodeId) (s : Source α) : Source NodeId :=
  ⟨n, Field.labelAll (n + 1) s.fields, Method.labelAll (n + 1 + Field.sizeAll s.fields) s.methods⟩

end Source

namespace Node

/-- The number of nodes of a tree. -/
def size : Node α → Nat
  | source s => s.size
  | field d => d.size
  | method m => m.size
  | stmt s => s.size
  | expr e => e.size

/-- Number the nodes of a tree from `n` on. -/
def label (n : NodeId) : Node α → Node NodeId
  | source s => source (s.label n)
  | field d => field (d.label n)
  | method m => method (m.label n)
  | stmt s => stmt (s.label n)
  | expr e => expr (e.label n)

end Node

end TreeCheck
