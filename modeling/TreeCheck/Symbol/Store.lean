import TreeCheck.Symbol.Catalog

/-!
# Symbols

Scopes, types and nodes have identities. The symbols hold all scopes and the catalog of types, and
the identities that are given out next, so that no identity is given out twice.

Source: `SPEC_FULL.md`, sections 3 (data model) and 4.1 (binding table).
-/

namespace TreeCheck

/-- Everything that is declared outside of a tree. -/
structure Symbols where
  scopes : Scopes
  catalog : Catalog
  nextType : TypeId
  nextNode : Nat
deriving DecidableEq, Repr

namespace Symbols

/-- The built-in types and no scopes. -/
def initial : Symbols := ⟨.empty, .builtins, 0, 0⟩

/-- Make a scope. -/
def createScope (s : Symbols) (parent : Option ScopeId) : Symbols × ScopeId :=
  ({ s with scopes := s.scopes.create parent }, s.scopes.size)

/-- Make an object type whose members a scope holds; it is not in the catalog yet. -/
def createType (s : Symbols) (name internalName : Text) (members : ScopeId) :
    Symbols × ObjectType :=
  ({ s with nextType := s.nextType + 1 }, ⟨s.nextType, name, internalName, members⟩)

/-- Define a variable in a scope. -/
def defineVariable (s : Symbols) (id : ScopeId) (v : Variable) : Except ProgramError Symbols := do
  return { s with scopes := (← s.scopes.defineVariable id v) }

/-- Define a function in a scope. -/
def defineFunction (s : Symbols) (id : ScopeId) (f : Function) : Except ProgramError Symbols := do
  return { s with scopes := (← s.scopes.defineFunction id f) }

/-- Put a type into the catalog. -/
def register (s : Symbols) (t : Ty) : Except ProgramError Symbols := do
  return { s with catalog := (← s.catalog.register t) }

end Symbols

end TreeCheck
