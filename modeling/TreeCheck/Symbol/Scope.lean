import TreeCheck.Symbol.Block

/-!
# Scopes

A scope is a block with an identity, inside an earlier scope or on its own. A definition made in a
scope at any time is visible from all scopes inside it. The scopes are kept with the latest first,
and a scope's identity is the number of scopes made before it.

Source: `SPEC_FULL.md`, section 4.1 (binding table).
-/

namespace TreeCheck

/-- A scope: its definitions, and the scope around it. Source: `SPEC_FULL.md:80`. -/
structure Scope where
  parent : Option ScopeId
  block : Block
deriving DecidableEq, Repr

/-- All scopes made so far, the latest first. -/
structure Scopes where
  latestFirst : List Scope
deriving DecidableEq, Repr

namespace Scopes

/-- No scopes. -/
def empty : Scopes := ⟨[]⟩

/-- The number of scopes. -/
def size (s : Scopes) : Nat := s.latestFirst.length

/-- Make a scope without definitions. -/
def create (s : Scopes) (parent : Option ScopeId) : Scopes :=
  ⟨⟨parent, .empty⟩ :: s.latestFirst⟩

/-- The scope with an identity, among scopes with the latest first. -/
def find? : List Scope → ScopeId → Option Scope
  | [], _ => none
  | scope :: earlier, id => if id = earlier.length then some scope else find? earlier id

/-- The definitions of a scope. -/
def block (s : Scopes) (id : ScopeId) : Block :=
  ((find? s.latestFirst id).map Scope.block).getD .empty

/-- The blocks of a scope and of the scopes around it, among scopes with the latest first. -/
def chainFrom : List Scope → ScopeId → Chain
  | [], _ => []
  | scope :: earlier, id =>
    if id = earlier.length then
      scope.block :: match scope.parent with
        | none => []
        | some parent => chainFrom earlier parent
    else chainFrom earlier id

/-- The blocks of a scope and of the scopes around it, the innermost first. -/
def chain (s : Scopes) (id : ScopeId) : Chain := chainFrom s.latestFirst id

/-- Replace the block of a scope, among scopes with the latest first. -/
def replace : List Scope → ScopeId → Block → List Scope
  | [], _, _ => []
  | scope :: earlier, id, block =>
    if id = earlier.length then { scope with block } :: earlier
    else scope :: replace earlier id block

/-- Replace the block of a scope. -/
def setBlock (s : Scopes) (id : ScopeId) (block : Block) : Scopes :=
  ⟨replace s.latestFirst id block⟩

/-- Define a variable in a scope. -/
def defineVariable (s : Scopes) (id : ScopeId) (v : Variable) : Except ProgramError Scopes := do
  return s.setBlock id (← (s.block id).defineVariable v)

/-- Define a function in a scope. -/
def defineFunction (s : Scopes) (id : ScopeId) (f : Function) : Except ProgramError Scopes := do
  return s.setBlock id (← (s.block id).defineFunction f)

/-- The members of a type; a built-in type has none. -/
def members (s : Scopes) : Ty → Chain
  | .builtin _ => []
  | .object o => s.chain o.members

/-- Look up a field of a type. -/
def lookupField (s : Scopes) (owner : Ty) (name : Text) : Except ProgramError Variable :=
  (s.members owner).lookupField owner name

/-- Look up a method of a type by its number of arguments. -/
def lookupMethod (s : Scopes) (owner : Ty) (name : Text) (arity : Int) :
    Except ProgramError Function :=
  (s.members owner).lookupMethod owner name arity

end Scopes

end TreeCheck
