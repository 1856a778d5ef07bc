import TreeCheck.Symbol.Binding
import TreeCheck.Tree.Display
import TreeCheck.Tree.Label

/-!
# What analysis finds out about a tree

The types of expressions and the bindings of nodes are kept beside the tree, by the identity of the
node. Each is written at most once; a second writing, and a reading of what has not been written,
is a fault.

Source: `SPEC_FULL.md`, section 3, last item (resolved types and bindings).
-/

namespace TreeCheck

/-- What can be found out about a node. -/
inductive Slot where
  | type | binding
deriving DecidableEq, Repr

/-- The word for what is found out. -/
def Slot.word : Slot → Text
  | type => "type"
  | binding => "binding"

/-- A misuse of the table. -/
inductive Fault where
  | resolvedTwice (slot : Slot) (kind : Kind)
  | unresolved (slot : Slot) (node : Node Unit)
  | boundToFunction (kind : Kind)
  | boundToVariable (kind : Kind)
deriving Repr

/-- The wording of a fault; there is none if it would show a node that cannot be written out. -/
def Fault.message? : Fault → Option Text
  | resolvedTwice slot kind => some (slot.word ++ " of " ++ kind.name ++ " resolved twice")
  | unresolved slot node => node.display?.map fun shown ↦
    "no resolved " ++ slot.word ++ " for " ++ shown
  | boundToFunction kind => some (kind.name ++ " is bound to a function")
  | boundToVariable kind => some (kind.name ++ " is bound to a variable")

/-- The sorts of faults. -/
inductive FaultSort where
  | resolvedTwice | unresolved | otherBinding | unwritable
deriving DecidableEq, Repr

/-- The sort of a fault. If there is no wording for it then writing out the node is what fails. -/
def Fault.sort (f : Fault) : FaultSort :=
  match f.message? with
  | none => .unwritable
  | some _ =>
    match f with
    | resolvedTwice _ _ => .resolvedTwice
    | unresolved _ _ => .unresolved
    | boundToFunction _ => .otherBinding
    | boundToVariable _ => .otherBinding

/-- Types of expressions and bindings of nodes, the latest first. Source: `SPEC_FULL.md:63–68`. -/
structure Resolutions where
  types : List (NodeId × Ty)
  bindings : List (NodeId × Binding)
deriving DecidableEq, Repr

namespace Resolutions

/-- Nothing has been found out. -/
def empty : Resolutions := ⟨[], []⟩

/-- The type of a node, if it has been written. -/
def type? (r : Resolutions) (id : NodeId) : Option Ty := r.types.lookup id

/-- The binding of a node, if it has been written. -/
def binding? (r : Resolutions) (id : NodeId) : Option Binding := r.bindings.lookup id

/-- The number of types and bindings. -/
def size (r : Resolutions) : Nat := r.types.length + r.bindings.length

/-- Write the type of a node. Source: `SPEC_FULL.md:67`. -/
def setType (r : Resolutions) (node : Node NodeId) (t : Ty) : Except Fault Resolutions :=
  if (r.type? node.tag).isSome then .error (.resolvedTwice .type node.kind)
  else .ok { r with types := (node.tag, t) :: r.types }

/-- Write the binding of a node. Source: `SPEC_FULL.md:67`. -/
def setBinding (r : Resolutions) (node : Node NodeId) (b : Binding) : Except Fault Resolutions :=
  if (r.binding? node.tag).isSome then .error (.resolvedTwice .binding node.kind)
  else .ok { r with bindings := (node.tag, b) :: r.bindings }

/-- The type of a node. -/
def typeOf (r : Resolutions) (node : Node NodeId) : Except Fault Ty :=
  match r.type? node.tag with
  | some t => .ok t
  | none => .error (.unresolved .type node.plain)

/-- The binding of a node. -/
def bindingOf (r : Resolutions) (node : Node NodeId) : Except Fault Binding :=
  match r.binding? node.tag with
  | some b => .ok b
  | none => .error (.unresolved .binding node.plain)

/-- The variable that a node is bound to. -/
def variableOf (r : Resolutions) (node : Node NodeId) : Except Fault Variable := do
  match ← r.bindingOf node with
  | .variable v => return v
  | .function _ => throw (.boundToFunction node.kind)

/-- The function that a node is bound to. -/
def functionOf (r : Resolutions) (node : Node NodeId) : Except Fault Function := do
  match ← r.bindingOf node with
  | .function f => return f
  | .variable _ => throw (.boundToVariable node.kind)

end Resolutions

end TreeCheck
