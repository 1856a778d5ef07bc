import TreeCheck.Symbol.Store

/-!
# Declared object types

A project may declare object types with fields and methods. All of them are registered before their
members are defined, so a member may name any of them. What was registered or defined before a
failure stays.

Source: `SPEC_FULL.md`, section 8 (configuration).
-/

namespace TreeCheck

/-- A declared method; its parameters do not count the receiver. -/
structure MethodDeclaration where
  name : Text
  parameters : List Text
  returns : Option Text
deriving DecidableEq, Repr

/-- A declared object type. The fields are names with the names of their types, each name once. -/
structure TypeDeclaration where
  name : Text
  fields : List (Text × Text)
  constants : List Text
  methods : List MethodDeclaration
deriving DecidableEq, Repr

/-- Declaring with the symbols so far. -/
abbrev DeclareM := EStateM ProgramError Symbols

variable {α : Type}

/-- Go on unless a rule is broken. -/
def DeclareM.obey (x : Except ProgramError α) : DeclareM α :=
  match x with
  | .ok a => pure a
  | .error e => throw e

/-- Look up a type among the symbols. -/
def DeclareM.resolve (name : Text) : DeclareM Ty := do
  DeclareM.obey ((← get).catalog.resolve name)

namespace TypeDeclaration

/-- Make an object type without members and register it. -/
def registerType (d : TypeDeclaration) : DeclareM ObjectType := do
  let (s, members) := (← get).createScope none
  let (s, o) := s.createType d.name d.name members
  set (← DeclareM.obey (s.register (.object o)))
  return o

/-- Define a field of a type. -/
def defineField (d : TypeDeclaration) (o : ObjectType) (field : Text × Text) : DeclareM Unit := do
  let type ← DeclareM.resolve field.2
  let v : Variable := ⟨field.1, field.1, type, field.1 ∈ d.constants, .scope o.members⟩
  set (← DeclareM.obey ((← get).defineVariable o.members v))

/-- Define a method of a type, with the receiver as its first parameter. -/
def defineMethod (d : TypeDeclaration) (o : ObjectType) (m : MethodDeclaration) :
    DeclareM Unit := do
  let parameters ← DeclareM.obey ((← get).catalog.resolveAll m.parameters)
  let returns ← DeclareM.obey ((← get).catalog.resolveReturn m.returns)
  let f : Function :=
    ⟨m.name, d.name ++ "." ++ m.name, .object o :: parameters, returns, .scope o.members⟩
  set (← DeclareM.obey ((← get).defineFunction o.members f))

/-- Define the fields of a type, then its methods. -/
def defineMembers (d : TypeDeclaration) (o : ObjectType) : DeclareM Unit := do
  d.fields.forM (d.defineField o)
  d.methods.forM (d.defineMethod o)

end TypeDeclaration

/-- Declare object types: register all of them, then define their members. Source:
`SPEC_FULL.md:252–255`. -/
def declareTypes (declared : List TypeDeclaration) : DeclareM (List ObjectType) := do
  let created ← declared.mapM TypeDeclaration.registerType
  (declared.zip created).forM fun (d, o) ↦ d.defineMembers o
  return created

end TreeCheck
