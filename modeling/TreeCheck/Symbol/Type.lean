import TreeCheck.Text.Basic

/-!
# Types

There are eight built-in types, and object types that are made as a program or a project declares
them. An object type has an identity of its own, so two of the same name are different, and a scope
that holds its fields and methods.

A value of type `source` may stand where `target` is wanted if the types are the same, if `target`
is `Any`, or if `target` is `Comparable` and `source` is one of its four members.

Source: `SPEC_FULL.md`, sections 3 (data model) and 4.3 (assignability).
-/

namespace TreeCheck

/-- The identity of a scope. -/
abbrev ScopeId := Nat

/-- The identity of an object type. -/
abbrev TypeId := Nat

/-- A built-in type. -/
inductive Builtin where
  | any | nil | comparable | boolean | integer | decimal | character | string
deriving DecidableEq, Repr

namespace Builtin

/-- All built-in types. -/
def all : List Builtin :=
  [any, nil, comparable, boolean, integer, decimal, character, string]

/-- The name of a built-in type. -/
def name : Builtin → Text
  | any => "Any"
  | nil => "Nil"
  | comparable => "Comparable"
  | boolean => "Boolean"
  | integer => "Integer"
  | decimal => "Decimal"
  | character => "Character"
  | string => "String"

/-- The name of a built-in type in generated code. -/
def internalName : Builtin → Text
  | any => "object"
  | nil => "None"
  | comparable => "Comparable"
  | boolean => "bool"
  | integer => "int"
  | decimal => "float"
  | character => "str"
  | string => "str"

/-- The members of `Comparable`. -/
def isComparable : Builtin → Bool
  | integer | decimal | character | string => true
  | any | nil | comparable | boolean => false

end Builtin

/-- A type with fields and methods of its own, which the scope `members` holds. Source:
`SPEC_FULL.md:45–50`. -/
structure ObjectType where
  id : TypeId
  name : Text
  internalName : Text
  members : ScopeId
deriving DecidableEq, Repr

/-- A type. -/
inductive Ty where
  | builtin (b : Builtin)
  | object (o : ObjectType)
deriving DecidableEq, Repr

namespace Ty

/-- The type of all values. -/
abbrev any : Ty := builtin .any

/-- The type of nil, which a method without a return type returns. -/
abbrev nil : Ty := builtin .nil

/-- The type of values that can be compared. -/
abbrev comparable : Ty := builtin .comparable

/-- The type of truth values. -/
abbrev boolean : Ty := builtin .boolean

/-- The type of whole numbers. -/
abbrev integer : Ty := builtin .integer

/-- The type of decimal numbers. -/
abbrev decimal : Ty := builtin .decimal

/-- The type of characters. -/
abbrev character : Ty := builtin .character

/-- The type of strings. -/
abbrev string : Ty := builtin .string

/-- The name of a type. -/
def name : Ty → Text
  | builtin b => b.name
  | object o => o.name

/-- The name of a type in generated code. -/
def internalName : Ty → Text
  | builtin b => b.internalName
  | object o => o.internalName

/-- Whether a type is a member of `Comparable`. -/
def isComparable : Ty → Bool
  | builtin b => b.isComparable
  | object _ => false

/-- Whether a value of type `source` may stand where `target` is wanted. Source:
`SPEC_FULL.md:109–111`. -/
def accepts (target source : Ty) : Bool :=
  target = source || target = any || (target = comparable && source.isComparable)

end Ty

end TreeCheck
