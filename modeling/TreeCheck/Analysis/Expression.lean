import TreeCheck.Analysis.Resolutions
import TreeCheck.Analysis.Rules
import TreeCheck.Symbol.Scope

/-!
# Types of expressions

The type of an expression is found from the inside out: operands and arguments first, then the
receiver, then the name. Every expression's type is recorded, and every access and call is bound to
what its name stands for. The first rule that is broken ends the search.

Source: `SPEC_FULL.md`, section 4.5 (expressions).
-/

namespace TreeCheck

/-- Why an analysis ends early: the program breaks a rule, or the table is misused. -/
inductive Failure where
  | error (e : ProgramError)
  | fault (f : Fault)
deriving Repr

variable {σ α : Type}

/-- Go on unless a rule is broken. -/
def obey (x : Except ProgramError α) : EStateM Failure σ α :=
  match x with
  | .ok a => pure a
  | .error e => throw (.error e)

/-- Go on unless the table is misused. -/
def trust (x : Except Fault α) : EStateM Failure σ α :=
  match x with
  | .ok a => pure a
  | .error f => throw (.fault f)

/-- Record the type of an expression and give it back. -/
def recordType (e : Expr NodeId) (t : Ty) : EStateM Failure Resolutions Ty := do
  set (← trust ((← get).setType (.expr e) t))
  return t

/-- Record what a node is bound to. -/
def recordBinding (node : Node NodeId) (b : Binding) : EStateM Failure Resolutions Unit := do
  set (← trust ((← get).setBinding node b))

namespace Expr

mutual

/-- Find the type of an expression where the blocks of `chain` are visible; `scopes` holds the
members of types. Source: `SPEC_FULL.md:141–155`. -/
def infer (scopes : Scopes) (chain : Chain) (e : Expr NodeId) : EStateM Failure Resolutions Ty :=
  match e with
  | literal tag value => do
    let t ← obey (Rules.literalType value)
    recordType (literal tag value) t
  | group tag inner => do
    obey (Rules.require (inner.kind = .binary) .groupNotBinary)
    let t ← inner.infer scopes chain
    recordType (group tag inner) t
  | binary tag operator left right => do
    let leftType ← left.infer scopes chain
    let rightType ← right.infer scopes chain
    let t ← obey (Rules.binaryType operator leftType rightType)
    recordType (binary tag operator left right) t
  | access tag none name => do
    let v ← obey (chain.lookupVariable name)
    recordBinding (.expr (access tag none name)) (.variable v)
    recordType (access tag none name) v.type
  | access tag (some receiver) name => do
    let owner ← receiver.infer scopes chain
    let v ← obey (scopes.lookupField owner name)
    recordBinding (.expr (access tag (some receiver) name)) (.variable v)
    recordType (access tag (some receiver) name) v.type
  | call tag none name arguments => do
    let types ← inferAll scopes chain arguments
    let f ← obey (chain.lookupFunction name arguments.length)
    obey (Rules.requireArguments f.parameters types)
    recordBinding (.expr (call tag none name arguments)) (.function f)
    recordType (call tag none name arguments) f.returns
  | call tag (some receiver) name arguments => do
    let types ← inferAll scopes chain arguments
    let owner ← receiver.infer scopes chain
    let f ← obey (scopes.lookupMethod owner name arguments.length)
    obey (Rules.requireArguments f.parameters.tail types)
    recordBinding (.expr (call tag (some receiver) name arguments)) (.function f)
    recordType (call tag (some receiver) name arguments) f.returns

/-- Find the types of expressions in order. -/
def inferAll (scopes : Scopes) (chain : Chain) (es : List (Expr NodeId)) :
    EStateM Failure Resolutions (List Ty) :=
  match es with
  | [] => pure []
  | e :: es => do
    let t ← e.infer scopes chain
    let ts ← inferAll scopes chain es
    return t :: ts

end

end Expr

end TreeCheck
