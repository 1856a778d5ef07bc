import TreeCheck.ProgramError
import TreeCheck.Symbol.Binding
import TreeCheck.Text.Similarity

/-!
# Blocks of definitions

A block holds variables, each name once, and functions, each name and number of parameters once, in
the order of their definition. Blocks are nested: a lookup goes through a chain of blocks, the
innermost first, and takes the first one that has what it looks for. Variables and functions do not
hide one another, nor do functions with different numbers of parameters.

Source: `SPEC_FULL.md`, section 4.1 (binding table).
-/

namespace TreeCheck

/-- Definitions that belong together. -/
structure Block where
  vars : List Variable
  funs : List Function
deriving DecidableEq, Repr

namespace Block

/-- A block without definitions. -/
def empty : Block := ⟨[], []⟩

/-- The variable of a name in this block. -/
def findVariable? (b : Block) (name : Text) : Option Variable :=
  b.vars.find? fun v ↦ v.name = name

/-- The function of a name and a number of parameters in this block. -/
def findFunction? (b : Block) (name : Text) (arity : Int) : Option Function :=
  b.funs.find? fun f ↦ f.name = name ∧ (f.arity : Int) = arity

/-- Add a variable, unless its name is taken. Source: `SPEC_FULL.md:74,81–83`. -/
def defineVariable (b : Block) (v : Variable) : Except ProgramError Block :=
  if (b.findVariable? v.name).isSome then .error (.duplicateVariable v.name)
  else .ok { b with vars := b.vars ++ [v] }

/-- Add a function, unless its name is taken for its number of parameters. Source:
`SPEC_FULL.md:75,81–83`. -/
def defineFunction (b : Block) (f : Function) : Except ProgramError Block :=
  if (b.findFunction? f.name f.arity).isSome then .error (.duplicateFunction f.name f.arity)
  else .ok { b with funs := b.funs ++ [f] }

end Block

/-- Nested blocks, the innermost first. -/
abbrev Chain := List Block

namespace Chain

/-- The variable that a name stands for. -/
def findVariable? (c : Chain) (name : Text) : Option Variable :=
  c.findSome? fun b ↦ b.findVariable? name

/-- The function that a name and a number of parameters stand for. -/
def findFunction? (c : Chain) (name : Text) (arity : Int) : Option Function :=
  c.findSome? fun b ↦ b.findFunction? name arity

/-- The names of the visible variables, the innermost first, each once. Source:
`SPEC_FULL.md:84–85`. -/
def variableNames (c : Chain) : List Text :=
  (c.flatMap fun b ↦ b.vars.map Variable.name).eraseDups

/-- The names of the visible functions, the innermost first, each once. Source:
`SPEC_FULL.md:84–85`. -/
def functionNames (c : Chain) : List Text :=
  (c.flatMap fun b ↦ b.funs.map Function.name).eraseDups

/-- Look up a variable; a failure suggests a visible one. Source: `SPEC_FULL.md:76–77`. -/
def lookupVariable (c : Chain) (name : Text) : Except ProgramError Variable :=
  match c.findVariable? name with
  | some v => .ok v
  | none => .error (.undefinedVariable name (Similarity.closest name c.variableNames))

/-- Look up a function; a failure suggests the name of a visible one. Source: `SPEC_FULL.md:78–79`.
-/
def lookupFunction (c : Chain) (name : Text) (arity : Int) : Except ProgramError Function :=
  match c.findFunction? name arity with
  | some f => .ok f
  | none => .error (.undefinedFunction name arity (Similarity.closest name c.functionNames))

/-- Look up a field among the members of a type; a failure suggests one. -/
def lookupField (members : Chain) (owner : Ty) (name : Text) : Except ProgramError Variable :=
  match members.findVariable? name with
  | some v => .ok v
  | none => .error (.noField owner name (Similarity.closest name members.variableNames))

/-- Look up a method among the members of a type by its number of arguments; a failure suggests one.
The receiver is a method's first parameter, so it has one parameter more than arguments. -/
def lookupMethod (members : Chain) (owner : Ty) (name : Text) (arity : Int) :
    Except ProgramError Function :=
  match members.findFunction? name (arity + 1) with
  | some f => .ok f
  | none => .error (.noMethod owner name arity (Similarity.closest name members.functionNames))

end Chain

end TreeCheck
