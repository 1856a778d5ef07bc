import TreeCheck.Symbol.Type

/-!
# Bindings

A name stands for a variable or a function. A binding remembers where it was introduced; with its
name that tells it from every other binding, also from those that look the same.

Source: `SPEC_FULL.md`, section 3 (data model).
-/

namespace TreeCheck

/-- Where a binding was introduced: by a node of a tree, as a parameter of a method, or directly
in a scope. -/
inductive Site where
  | node (id : Nat)
  | parameter (method position : Nat)
  | scope (id : ScopeId)
deriving DecidableEq, Repr

/-- What a variable's name stands for. Source: `SPEC_FULL.md:51–52`. -/
structure Variable where
  name : Text
  internalName : Text
  type : Ty
  constant : Bool
  site : Site
deriving DecidableEq, Repr

/-- Whether two variables look the same, wherever they were introduced. -/
def Variable.agrees (a b : Variable) : Bool :=
  a.name = b.name && a.internalName = b.internalName && a.type = b.type && a.constant = b.constant

/-- What the name of a function with a number of parameters stands for. Source:
`SPEC_FULL.md:53–54`. -/
structure Function where
  name : Text
  internalName : Text
  parameters : List Ty
  returns : Ty
  site : Site
deriving DecidableEq, Repr

namespace Function

/-- The number of parameters. -/
def arity (f : Function) : Nat := f.parameters.length

/-- Whether two functions look the same, wherever they were introduced. -/
def agrees (f g : Function) : Bool :=
  f.name = g.name && f.internalName = g.internalName && f.parameters = g.parameters &&
    f.returns = g.returns

end Function

/-- A variable or a function. -/
inductive Binding where
  | variable (v : Variable)
  | function (f : Function)
deriving DecidableEq, Repr

namespace Binding

/-- Whether two bindings look the same, wherever they were introduced. -/
def agrees : Binding → Binding → Bool
  | .variable a, .variable b => a.agrees b
  | .function f, .function g => f.agrees g
  | _, _ => false

/-- A binding on one line. -/
def describe : Binding → Text
  | .variable v =>
    (if v.constant then "constant " else "variable ") ++ v.internalName ++ ": " ++ v.type.name
  | .function f =>
    "function " ++ f.internalName ++ "(" ++ Text.join ", " (f.parameters.map Ty.name) ++ "): " ++
      f.returns.name

end Binding

end TreeCheck
