import TreeCheck.Proofs.Declarations

/-!
# Keys

Variables are found by their names, and functions by their names and numbers of parameters. Both are
bindings under a key, and a block takes one binding under each key.
-/

namespace TreeCheck

/-- What a scope is asked for: the variable of a name, or the function of a name with a number of
parameters. -/
inductive Scopes.Key where
  | ofVariable (name : Text)
  | ofFunction (name : Text) (arity : Int)
deriving DecidableEq, Repr

/-- The key under which a binding is found. -/
def Binding.key : Binding → Scopes.Key
  | .variable v => .ofVariable v.name
  | .function f => .ofFunction f.name f.arity

/-- Where a binding was introduced. -/
def Binding.site : Binding → Site
  | .variable v => v.site
  | .function f => f.site

namespace Block

variable {b : Block} {x y : Binding} {key : Scopes.Key}

/-- What a block holds under a key. -/
def find? (b : Block) : Scopes.Key → Option Binding
  | .ofVariable name => (b.findVariable? name).map .variable
  | .ofFunction name arity => (b.findFunction? name arity).map .function

/-- Define a binding, unless its key is taken. -/
def define (b : Block) : Binding → Except ProgramError Block
  | .variable v => b.defineVariable v
  | .function f => b.defineFunction f

/-- A block with one more binding. -/
def add (b : Block) : Binding → Block
  | .variable v => b.addVariable v
  | .function f => b.addFunction f

/-- Nothing is found in an empty block. -/
theorem find?_empty (key : Scopes.Key) : empty.find? key = none := by
  cases key <;> rfl

/-- A binding that is added is found where nothing was found before. -/
theorem find?_add (b : Block) (x : Binding) (key : Scopes.Key) :
    (b.add x).find? key = (b.find? key).or (if x.key = key then some x else none) := by
  rcases x with v | f
  · cases key with
    | ofVariable name =>
      by_cases h : v.name = name <;>
        simp [add, addVariable, find?, findVariable?, List.find?_append, Binding.key, h]
    | ofFunction name arity => simp [add, addVariable, find?, findFunction?, Binding.key]
  · cases key with
    | ofVariable name => simp [add, addFunction, find?, findVariable?, Binding.key]
    | ofFunction name arity =>
      by_cases h : f.name = name ∧ (f.arity : Int) = arity <;>
        simp [add, addFunction, find?, findFunction?, List.find?_append, Binding.key, h]

/-- A binding under a free key is added. -/
theorem define_of_none (h : b.find? x.key = none) : b.define x = .ok (b.add x) := by
  rcases x with v | f
  · exact defineVariable_ok_iff.mpr ⟨by simpa [find?, Binding.key] using h, rfl⟩
  · exact defineFunction_ok_iff.mpr ⟨by simpa [find?, Binding.key] using h, rfl⟩

/-- A binding under a taken key is a duplicate. -/
theorem define_of_some (h : b.find? x.key = some y) :
    ∃ e, b.define x = .error e ∧ e.kind = .duplicateDefinition := by
  rcases x with v | f
  · refine ⟨.duplicateVariable v.name, ?_, rfl⟩
    have htaken : (b.findVariable? v.name).isSome := by
      simpa [find?, Binding.key] using congrArg Option.isSome h
    simp [define, defineVariable, htaken]
  · refine ⟨.duplicateFunction f.name f.arity, ?_, rfl⟩
    have htaken : (b.findFunction? f.name f.arity).isSome := by
      simpa [find?, Binding.key] using congrArg Option.isSome h
    simp [define, defineFunction, htaken]

/-- Variables that are added one after another stand at the end. -/
theorem foldl_add_variables {α : Type} (b : Block) (v : α → Variable) (l : List α) :
    (l.map fun a ↦ .variable (v a)).foldl add b = { b with vars := b.vars ++ l.map v } := by
  induction l generalizing b with
  | nil => simp
  | cons a l ih => simp [ih, add, addVariable]

/-- Functions that are added one after another stand at the end. -/
theorem foldl_add_functions {α : Type} (b : Block) (f : α → Function) (l : List α) :
    (l.map fun a ↦ .function (f a)).foldl add b = { b with funs := b.funs ++ l.map f } := by
  induction l generalizing b with
  | nil => simp
  | cons a l ih => simp [ih, add, addFunction]

end Block

end TreeCheck
