import TreeCheck.Symbol.Scope

/-!
# Catalogs of types

A catalog lists the types that a program may name, each name once: the built-in types, then object
types in the order of their registration.

Source: `SPEC_FULL.md`, section 6 (external interfaces).
-/

namespace TreeCheck

/-- The types that a program may name. -/
structure Catalog where
  types : List Ty
deriving DecidableEq, Repr

namespace Catalog

/-- The built-in types. -/
def builtins : Catalog := ⟨Builtin.all.map Ty.builtin⟩

/-- The type of a name. -/
def find? (c : Catalog) (name : Text) : Option Ty := c.types.find? fun t ↦ t.name = name

/-- The names of all types. -/
def names (c : Catalog) : List Text := c.types.map Ty.name

/-- Look up a type; a failure suggests one. Source: `SPEC_FULL.md:182`. -/
def resolve (c : Catalog) (name : Text) : Except ProgramError Ty :=
  match c.find? name with
  | some t => .ok t
  | none => .error (.unknownType name (Similarity.closest name c.names))

/-- Add a type, unless its name is taken. Source: `SPEC_FULL.md:185–187`. -/
def register (c : Catalog) (t : Ty) : Except ProgramError Catalog :=
  if (c.find? t.name).isSome then .error (.duplicateType t.name)
  else .ok ⟨c.types ++ [t]⟩

end Catalog

/-- Look up types in order. -/
def Catalog.resolveAll (c : Catalog) : List Text → Except ProgramError (List Ty)
  | [] => .ok []
  | name :: names => do
    let t ← c.resolve name
    let ts ← c.resolveAll names
    return t :: ts

/-- The type that a function returns whose return type may be left out. -/
def Catalog.resolveReturn (c : Catalog) : Option Text → Except ProgramError Ty
  | some name => c.resolve name
  | none => .ok .nil

end TreeCheck
