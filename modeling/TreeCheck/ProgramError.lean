import TreeCheck.Decimal.Basic
import TreeCheck.Json.Value
import TreeCheck.Symbol.Type
import TreeCheck.Text.Numeral

/-!
# Errors in programs

Every rule of the language that a program can break is a case of `ProgramError`. Cases fall into
kinds, each with a code. A lookup that fails may suggest the visible name that is most like the one
asked for.

Source: `SPEC_FULL.md`, section 7 (error handling).
-/

namespace TreeCheck

/-- The kinds of errors. Source: `SPEC_FULL.md:205–222`. -/
inductive ErrorKind where
  | unknownType
  | duplicateDefinition
  | undefinedName
  | typeMismatch
  | notAssignable
  | structural
  | emptyBody
  | integerOutOfRange
  | decimalOutOfRange
  | constantAssignment
  | constantRequiresInitializer
  | missingType
  | missingEntryPoint
  | entryPointSignature
  | returnOutsideFunction
  | unknownOperator
deriving DecidableEq, Repr

/-- The code of a kind of errors. -/
def ErrorKind.code : ErrorKind → Text
  | unknownType => "E300"
  | duplicateDefinition => "E301"
  | undefinedName => "E310"
  | typeMismatch => "E320"
  | notAssignable => "E321"
  | structural => "E330"
  | emptyBody => "E331"
  | integerOutOfRange => "E340"
  | decimalOutOfRange => "E341"
  | constantAssignment => "E350"
  | constantRequiresInitializer => "E351"
  | missingType => "E352"
  | missingEntryPoint => "E360"
  | entryPointSignature => "E361"
  | returnOutsideFunction => "E370"
  | unknownOperator => "E380"

/-- The statements that have a condition. -/
inductive Construct where
  | ifElse | forLoop | whileLoop
deriving DecidableEq, Repr

/-- The word for a statement that has a condition. -/
def Construct.word : Construct → Text
  | ifElse => "if"
  | forLoop => "for"
  | whileLoop => "while"

/-- A rule of the language that a program breaks. -/
inductive ProgramError where
  /-- No type has this name. -/
  | unknownType (name : Text) (suggestion : Option Text)
  /-- The block defines this variable already. -/
  | duplicateVariable (name : Text)
  /-- The block defines a function of this name and number of parameters already. -/
  | duplicateFunction (name : Text) (arity : Nat)
  /-- A type of this name exists already. -/
  | duplicateType (name : Text)
  /-- No visible variable has this name. -/
  | undefinedVariable (name : Text) (suggestion : Option Text)
  /-- No visible function has this name and number of parameters. -/
  | undefinedFunction (name : Text) (arity : Int) (suggestion : Option Text)
  /-- The type has no field of this name. -/
  | noField (owner : Ty) (name : Text) (suggestion : Option Text)
  /-- The type has no method of this name and number of arguments. -/
  | noMethod (owner : Ty) (name : Text) (arity : Int) (suggestion : Option Text)
  /-- A condition is not a truth value. -/
  | conditionNotBoolean (construct : Construct) (found : Ty)
  /-- A logical operator is applied to something else than truth values. -/
  | operandsNotBoolean (operator : Text) (left right : Ty)
  /-- Two comparable types differ. -/
  | operandsNotComparable (left right : Ty)
  /-- An arithmetic operator is applied to something else than numbers. -/
  | operandNotNumeric (operator : Text) (left : Ty)
  /-- The operands of an arithmetic operator have different types. -/
  | operandsDiffer (operator : Text) (left right : Ty)
  /-- The increment of a for loop assigns to another type than its initialization. -/
  | incrementDiffers (step control : Ty)
  /-- A value of type `source` stands where `target` is wanted. -/
  | notAssignable (target source : Ty)
  /-- An expression that is no call is used as a statement. -/
  | statementNotACall
  /-- A value is assigned to something else than an access. -/
  | targetNotAnAccess
  /-- Something else than a binary expression is grouped. -/
  | groupNotBinary
  /-- A method has another number of parameters than of parameter types. -/
  | parameterCount (method : Text) (parameters types : Nat)
  /-- A literal is a number that is not finite. -/
  | unsupportedLiteral (value : Json.NonFinite)
  /-- A statement that needs a body has none. -/
  | emptyBody (construct : Construct)
  /-- A whole number has more than 32 bits. -/
  | integerOutOfRange (value : Int)
  /-- A decimal number is no finite double. -/
  | decimalOutOfRange (value : Decimal)
  /-- A constant is assigned to. -/
  | constantAssignment (name : Text)
  /-- A constant field has no value. -/
  | constantWithoutValue (field : Text)
  /-- A declaration has neither a type nor a value. -/
  | declarationWithoutType (name : Text)
  /-- There is no function to start with. -/
  | missingEntryPoint
  /-- The function to start with does not return a whole number. -/
  | entryPointReturns (found : Ty)
  /-- A return statement stands outside of a method. -/
  | returnOutsideMethod
  /-- There is no such operator. -/
  | unknownOperator (operator : Text)
deriving DecidableEq, Repr

namespace ProgramError

/-- The kind of an error. -/
def kind : ProgramError → ErrorKind
  | unknownType .. => .unknownType
  | duplicateVariable .. | duplicateFunction .. | duplicateType .. => .duplicateDefinition
  | undefinedVariable .. | undefinedFunction .. | noField .. | noMethod .. => .undefinedName
  | conditionNotBoolean .. | operandsNotBoolean .. | operandsNotComparable ..
  | operandNotNumeric .. | operandsDiffer .. | incrementDiffers .. => .typeMismatch
  | notAssignable .. => .notAssignable
  | statementNotACall | targetNotAnAccess | groupNotBinary | parameterCount ..
  | unsupportedLiteral .. => .structural
  | emptyBody .. => .emptyBody
  | integerOutOfRange .. => .integerOutOfRange
  | decimalOutOfRange .. => .decimalOutOfRange
  | constantAssignment .. => .constantAssignment
  | constantWithoutValue .. => .constantRequiresInitializer
  | declarationWithoutType .. => .missingType
  | missingEntryPoint => .missingEntryPoint
  | entryPointReturns .. => .entryPointSignature
  | returnOutsideMethod => .returnOutsideFunction
  | unknownOperator .. => .unknownOperator

/-- The code of an error. -/
def code (e : ProgramError) : Text := e.kind.code

/-- A name between single quotes, as it is. -/
def named (t : Text) : Text := "'" ++ t ++ "'"

/-- The wording of an error. -/
def message : ProgramError → Text
  | unknownType name _ => "unknown type " ++ named name
  | duplicateVariable name => "variable " ++ named name ++ " is already defined in this scope"
  | duplicateFunction name arity =>
    "function " ++ named (name ++ "/" ++ Text.ofNat arity) ++ " is already defined in this scope"
  | duplicateType name => "type " ++ named name ++ " is already defined"
  | undefinedVariable name _ => "undefined variable " ++ named name
  | undefinedFunction name arity _ =>
    "undefined function " ++ named (name ++ "/" ++ Text.ofInt arity)
  | noField owner name _ => "type " ++ named owner.name ++ " has no field " ++ named name
  | noMethod owner name arity _ =>
    "type " ++ named owner.name ++ " has no method " ++ named (name ++ "/" ++ Text.ofInt arity)
  | conditionNotBoolean construct found =>
    construct.word ++ " condition must be 'Boolean', not " ++ named found.name
  | operandsNotBoolean operator left right =>
    "operator " ++ operator ++ " requires 'Boolean' operands, got " ++ named left.name ++
      " and " ++ named right.name
  | operandsNotComparable left right =>
    "cannot compare " ++ named left.name ++ " with " ++ named right.name
  | operandNotNumeric operator left =>
    "operator " ++ operator ++ " requires 'Integer' or 'Decimal' operands, got " ++
      named left.name
  | operandsDiffer operator left right =>
    "operator " ++ operator ++ " requires operands of the same type, got " ++ named left.name ++
      " and " ++ named right.name
  | incrementDiffers step control =>
    "for increment assigns " ++ named step.name ++ " but the loop variable is " ++
      named control.name
  | notAssignable target source =>
    "type " ++ named source.name ++ " is not assignable to " ++ named target.name
  | statementNotACall => "expression statement must be a function call"
  | targetNotAnAccess => "assignment target must be a variable or field access"
  | groupNotBinary => "only binary expressions may be grouped"
  | parameterCount method parameters types =>
    "method " ++ named method ++ " has " ++ Text.ofNat parameters ++ " parameters but " ++
      Text.ofNat types ++ " parameter types"
  | unsupportedLiteral value => "unsupported literal value " ++ value.text
  | emptyBody construct => construct.word ++ " statement must have at least one statement"
  | integerOutOfRange value =>
    "integer literal " ++ Text.abbreviatedInt value ++ " is outside the 32-bit signed range"
  | decimalOutOfRange value =>
    "decimal literal " ++ value.toText ++ " is not representable as a finite double"
  | constantAssignment name => "cannot assign to constant " ++ named name
  | constantWithoutValue field =>
    "constant field " ++ named field ++ " must have an initial value"
  | declarationWithoutType name =>
    "declaration of " ++ named name ++ " needs a type or an initial value"
  | missingEntryPoint => "entry point 'main/0' is not defined"
  | entryPointReturns found =>
    "entry point 'main/0' must return 'Integer', not " ++ named found.name
  | returnOutsideMethod => "return statement outside of a method"
  | unknownOperator operator => "unknown binary operator " ++ named operator

/-- The name that an error suggests. Source: `SPEC_FULL.md:224–225`. -/
def suggestion : ProgramError → Option Text
  | unknownType _ suggestion => suggestion
  | undefinedVariable _ suggestion => suggestion
  | undefinedFunction _ _ suggestion => suggestion
  | noField _ _ suggestion => suggestion
  | noMethod _ _ _ suggestion => suggestion
  | _ => none

/-- The remark that suggests a name. -/
def suggestionNote (name : Text) : Text := "did you mean " ++ named name ++ "?"

/-- The remarks on an error. -/
def notes (e : ProgramError) : List Text := (e.suggestion.map suggestionNote).toList

end ProgramError

end TreeCheck
