import Mathlib.Data.List.Nodup
import TreeCheck.Tree.Label

/-!
# The nodes of a tree

The nodes of a tree are listed with every node before the nodes inside it, in the order in which
labelling numbers them. A labelled tree therefore has consecutive identities, and no identity
belongs to two of its nodes.
-/

namespace TreeCheck

variable {α : Type}

namespace Expr

mutual

/-- The nodes of an expression. -/
def nodes : Expr α → List (Node α)
  | literal tag value => [.expr (literal tag value)]
  | group tag inner => .expr (group tag inner) :: inner.nodes
  | binary tag operator left right =>
    .expr (binary tag operator left right) :: (left.nodes ++ right.nodes)
  | access tag none name => [.expr (access tag none name)]
  | access tag (some receiver) name =>
    .expr (access tag (some receiver) name) :: receiver.nodes
  | call tag none name arguments => .expr (call tag none name arguments) :: nodesAll arguments
  | call tag (some receiver) name arguments =>
    .expr (call tag (some receiver) name arguments) :: (receiver.nodes ++ nodesAll arguments)

/-- The nodes of a list of expressions. -/
def nodesAll : List (Expr α) → List (Node α)
  | [] => []
  | e :: es => e.nodes ++ nodesAll es

end

/-- The nodes of an expression that may be absent. -/
def nodesOption : Option (Expr α) → List (Node α)
  | none => []
  | some e => e.nodes

end Expr

namespace Stmt

mutual

/-- The nodes of a statement. -/
def nodes : Stmt α → List (Node α)
  | expression tag e => .stmt (expression tag e) :: e.nodes
  | declaration tag name typeName value =>
    .stmt (declaration tag name typeName value) :: Expr.nodesOption value
  | assignment tag receiver value =>
    .stmt (assignment tag receiver value) :: (receiver.nodes ++ value.nodes)
  | ifElse tag condition thenBody elseBody =>
    .stmt (ifElse tag condition thenBody elseBody) ::
      (condition.nodes ++ nodesAll thenBody ++ nodesAll elseBody)
  | forLoop tag initialization condition increment body =>
    .stmt (forLoop tag initialization condition increment body) ::
      (nodesOption initialization ++ condition.nodes ++ nodesOption increment ++ nodesAll body)
  | whileLoop tag condition body =>
    .stmt (whileLoop tag condition body) :: (condition.nodes ++ nodesAll body)
  | ret tag value => .stmt (ret tag value) :: value.nodes

/-- The nodes of a list of statements. -/
def nodesAll : List (Stmt α) → List (Node α)
  | [] => []
  | s :: ss => s.nodes ++ nodesAll ss

/-- The nodes of a statement that may be absent. -/
def nodesOption : Option (Stmt α) → List (Node α)
  | none => []
  | some s => s.nodes

end

end Stmt

/-- The nodes of a field. -/
def Field.nodes (d : Field α) : List (Node α) := .field d :: Expr.nodesOption d.value

/-- The nodes of a method. -/
def Method.nodes (m : Method α) : List (Node α) := .method m :: Stmt.nodesAll m.body

/-- The nodes of a source. -/
def Source.nodes (s : Source α) : List (Node α) :=
  .source s :: (s.fields.flatMap Field.nodes ++ s.methods.flatMap Method.nodes)

namespace Node

/-- The nodes of a tree. -/
def nodes : Node α → List (Node α)
  | source s => s.nodes
  | field d => d.nodes
  | method m => m.nodes
  | stmt s => s.nodes
  | expr e => e.nodes

/-- Whether analysis gives a node a type. -/
def hasType : Node α → Bool
  | expr _ => true
  | _ => false

/-- Whether analysis binds a node to a variable or a function. -/
def hasBinding (node : Node α) : Bool :=
  match node.kind with
  | .access | .call | .field | .method | .declaration => true
  | _ => false

end Node

/-- The identities of nodes. -/
def ids (nodes : List (Node α)) : List α := nodes.map Node.tag

/-- The identities of some nodes begin with that of the first. -/
@[simp] theorem ids_cons (node : Node α) (nodes : List (Node α)) :
    ids (node :: nodes) = node.tag :: ids nodes := rfl

/-- The identities of two lists of nodes in a row. -/
@[simp] theorem ids_append (first second : List (Node α)) :
    ids (first ++ second) = ids first ++ ids second := List.map_append

/-! ### Identities of labelled trees -/

private theorem range_append {n m k : Nat} (l : Nat) (h : m = n + k) :
    List.range' n k ++ List.range' m l = List.range' n (k + l) := by
  rw [h]
  simp

private theorem cons_range (n : Nat) {k l : Nat} (h : l = 1 + k) :
    n :: List.range' (n + 1) k = List.range' n l := by
  rw [h, Nat.add_comm 1 k, List.range'_succ]

namespace Expr

mutual

/-- A labelled expression has consecutive identities. -/
theorem ids_label (n : NodeId) (e : Expr α) : ids (e.label n).nodes = List.range' n e.size := by
  match e with
  | literal _ _ => rfl
  | group _ inner =>
    simp only [label, nodes, size, ids_cons, ids_label (n + 1) inner]
    exact cons_range n rfl
  | binary _ _ left right =>
    simp only [label, nodes, size, ids_cons, ids_append, ids_label _ left, ids_label _ right]
    rw [range_append _ rfl]
    exact cons_range n (by omega)
  | access _ none _ => rfl
  | access _ (some receiver) _ =>
    simp only [label, nodes, size, ids_cons, ids_label (n + 1) receiver]
    exact cons_range n rfl
  | call _ none _ arguments =>
    simp only [label, nodes, size, ids_cons, ids_labelAll (n + 1) arguments]
    exact cons_range n rfl
  | call _ (some receiver) _ arguments =>
    simp only [label, nodes, size, ids_cons, ids_append, ids_label _ receiver,
      ids_labelAll _ arguments]
    rw [range_append _ rfl]
    exact cons_range n (by omega)

/-- Labelled expressions have consecutive identities. -/
theorem ids_labelAll (n : NodeId) (es : List (Expr α)) :
    ids (nodesAll (labelAll n es)) = List.range' n (sizeAll es) := by
  match es with
  | [] => rfl
  | e :: es =>
    simp only [labelAll, nodesAll, sizeAll, ids_append, ids_label n e, ids_labelAll _ es]
    exact range_append _ rfl

end

/-- A labelled expression that may be absent has consecutive identities. -/
theorem ids_labelOption (n : NodeId) (e : Option (Expr α)) :
    ids (nodesOption (labelOption n e)) = List.range' n (sizeOption e) := by
  cases e with
  | none => rfl
  | some e => exact ids_label n e

end Expr

namespace Stmt

mutual

/-- A labelled statement has consecutive identities. -/
theorem ids_label (n : NodeId) (s : Stmt α) : ids (s.label n).nodes = List.range' n s.size := by
  match s with
  | expression _ e =>
    simp only [label, nodes, size, ids_cons, Expr.ids_label]
    exact cons_range n rfl
  | declaration _ _ _ value =>
    simp only [label, nodes, size, ids_cons, Expr.ids_labelOption]
    exact cons_range n rfl
  | assignment _ receiver value =>
    simp only [label, nodes, size, ids_cons, ids_append, Expr.ids_label]
    rw [range_append _ rfl]
    exact cons_range n (by omega)
  | ifElse _ condition thenBody elseBody =>
    simp only [label, nodes, size, ids_cons, ids_append, Expr.ids_label, ids_labelAll _ thenBody,
      ids_labelAll _ elseBody]
    rw [range_append _ rfl, range_append _ (by omega)]
    exact cons_range n (by omega)
  | forLoop _ initialization condition increment body =>
    simp only [label, nodes, size, ids_cons, ids_append, Expr.ids_label,
      ids_labelOption _ initialization, ids_labelOption _ increment, ids_labelAll _ body]
    rw [range_append _ rfl, range_append _ (by omega), range_append _ (by omega)]
    exact cons_range n (by omega)
  | whileLoop _ condition body =>
    simp only [label, nodes, size, ids_cons, ids_append, Expr.ids_label, ids_labelAll _ body]
    rw [range_append _ rfl]
    exact cons_range n (by omega)
  | ret _ value =>
    simp only [label, nodes, size, ids_cons, Expr.ids_label]
    exact cons_range n rfl

/-- Labelled statements have consecutive identities. -/
theorem ids_labelAll (n : NodeId) (ss : List (Stmt α)) :
    ids (nodesAll (labelAll n ss)) = List.range' n (sizeAll ss) := by
  match ss with
  | [] => rfl
  | s :: ss =>
    simp only [labelAll, nodesAll, sizeAll, ids_append, ids_label n s, ids_labelAll _ ss]
    exact range_append _ rfl

/-- A labelled statement that may be absent has consecutive identities. -/
theorem ids_labelOption (n : NodeId) (s : Option (Stmt α)) :
    ids (nodesOption (labelOption n s)) = List.range' n (sizeOption s) := by
  match s with
  | none => rfl
  | some s => exact ids_label n s

end

end Stmt

/-- A labelled field has consecutive identities. -/
theorem Field.ids_label (n : NodeId) (d : Field α) :
    ids (d.label n).nodes = List.range' n d.size := by
  simp only [label, nodes, size, ids_cons, Expr.ids_labelOption]
  exact cons_range n rfl

/-- Labelled fields have consecutive identities. -/
theorem Field.ids_labelAll (n : NodeId) (ds : List (Field α)) :
    ids ((labelAll n ds).flatMap nodes) = List.range' n (sizeAll ds) := by
  induction ds generalizing n with
  | nil => rfl
  | cons d ds ih =>
    simp only [labelAll, sizeAll, List.flatMap_cons, ids_append, ids_label]
    rw [ih]
    exact range_append _ rfl

/-- A labelled method has consecutive identities. -/
theorem Method.ids_label (n : NodeId) (m : Method α) :
    ids (m.label n).nodes = List.range' n m.size := by
  simp only [label, nodes, size, ids_cons, Stmt.ids_labelAll]
  exact cons_range n rfl

/-- Labelled methods have consecutive identities. -/
theorem Method.ids_labelAll (n : NodeId) (ms : List (Method α)) :
    ids ((labelAll n ms).flatMap nodes) = List.range' n (sizeAll ms) := by
  induction ms generalizing n with
  | nil => rfl
  | cons m ms ih =>
    simp only [labelAll, sizeAll, List.flatMap_cons, ids_append, ids_label]
    rw [ih]
    exact range_append _ rfl

namespace Node

/-- A labelled tree has consecutive identities. -/
theorem ids_label (n : NodeId) (tree : Node α) :
    ids (tree.label n).nodes = List.range' n tree.size := by
  cases tree with
  | source s =>
    simp only [label, Source.label, nodes, Source.nodes, size, Source.size, ids_cons, ids_append,
      Field.ids_labelAll, Method.ids_labelAll]
    rw [range_append _ rfl]
    exact cons_range n (by omega)
  | field d => exact d.ids_label n
  | method m => exact m.ids_label n
  | stmt s => exact s.ids_label n
  | expr e => exact e.ids_label n

/-- No two nodes of a labelled tree share an identity. -/
theorem nodup_ids_label (n : NodeId) (tree : Node α) : (ids (tree.label n).nodes).Nodup := by
  rw [ids_label]
  exact List.nodup_range'

end Node

end TreeCheck
