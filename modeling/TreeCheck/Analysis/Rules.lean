import TreeCheck.Decimal.Double
import TreeCheck.ProgramError
import TreeCheck.Tree.Basic

/-!
# Rules for types

The rules that need no names: which type a literal has, which type an operator gives, and what may
be assigned.

Source: `SPEC_FULL.md`, sections 4.3 (assignability) and 4.5 (expressions).
-/

namespace TreeCheck.Rules

/-- Go on if a condition holds. -/
def require (p : Prop) [Decidable p] (e : ProgramError) : Except ProgramError Unit :=
  if p then .ok () else .error e

/-- A value of type `source` must be allowed where `target` is wanted. Source:
`SPEC_FULL.md:109–111`. -/
def requireAssignable (target source : Ty) : Except ProgramError Unit :=
  require (target.accepts source) (.notAssignable target source)

/-- The variable that the initialization of a for loop sets must be comparable. -/
def requireComparable : Option Ty → Except ProgramError Unit
  | none => .ok ()
  | some control => requireAssignable .comparable control

/-- A returned value must be allowed by the enclosing method, and there must be one. -/
def requireReturn : (wanted : Option Ty) → (found : Ty) → Except ProgramError Unit
  | none, _ => .error .returnOutsideMethod
  | some wanted, found => requireAssignable wanted found

/-- Every argument must be allowed where its parameter stands; the shorter list ends both. -/
def requireArguments : (parameters arguments : List Ty) → Except ProgramError Unit
  | p :: ps, a :: as => do
    requireAssignable p a
    requireArguments ps as
  | _, _ => .ok ()

/-- Whether a whole number has at most 32 bits with its sign. -/
def isInt32 (n : Int) : Bool := -2147483648 ≤ n && n ≤ 2147483647

/-- The type of a literal. Source: `SPEC_FULL.md:141–146`. -/
def literalType : Literal → Except ProgramError Ty
  | .nil => .ok .nil
  | .boolean _ => .ok .boolean
  | .character _ => .ok .character
  | .string _ => .ok .string
  | .integer n => if isInt32 n then .ok .integer else .error (.integerOutOfRange n)
  | .decimal d => if d.fitsDouble then .ok .decimal else .error (.decimalOutOfRange d)
  | .nonFinite n => .error (.unsupportedLiteral n)

/-- The operators on truth values. -/
def isLogical (operator : Text) : Bool := (["AND", "OR"] : List Text).contains operator

/-- The operators that compare. -/
def isComparison (operator : Text) : Bool :=
  (["<", "<=", ">", ">=", "==", "!="] : List Text).contains operator

/-- The operator that adds numbers and joins strings. -/
def isPlus (operator : Text) : Bool := operator = "+"

/-- The operators on numbers, addition apart. -/
def isArithmetic (operator : Text) : Bool := (["-", "*", "/"] : List Text).contains operator

/-- The type that an arithmetic operator gives: that of its operands, which must be numbers of one
type. -/
def arithmeticType (operator : Text) (left right : Ty) : Except ProgramError Ty :=
  if left ≠ .integer ∧ left ≠ .decimal then .error (.operandNotNumeric operator left)
  else if left ≠ right then .error (.operandsDiffer operator left right)
  else .ok left

/-- The type that a comparison gives: its operands must be comparable and of one type. -/
def comparisonType (left right : Ty) : Except ProgramError Ty := do
  requireAssignable .comparable left
  requireAssignable .comparable right
  if left = right then return .boolean else throw (.operandsNotComparable left right)

/-- The type that an operator gives. Source: `SPEC_FULL.md:147–148`. -/
def binaryType (operator : Text) (left right : Ty) : Except ProgramError Ty :=
  if isLogical operator then
    if left = .boolean ∧ right = .boolean then .ok .boolean
    else .error (.operandsNotBoolean operator left right)
  else if isComparison operator then comparisonType left right
  else if isPlus operator then
    if left = .string ∨ right = .string then .ok .string else arithmeticType operator left right
  else if isArithmetic operator then arithmeticType operator left right
  else .error (.unknownOperator operator)

end TreeCheck.Rules
