import TreeCheck.Analysis.Expression
import TreeCheck.Symbol.Catalog

/-!
# Checking statements, fields, methods and sources

A statement is checked in a block, to which a declaration adds a variable. The bodies of methods,
branches and loops are blocks of their own inside the current one; the initialization and the
increment of a for loop belong to the block around the loop. What was defined before a failure
stays.

Source: `SPEC_FULL.md`, sections 4.2 (declarations) and 4.4 (statements).
-/

namespace TreeCheck

/-- Where a statement stands: the types and members there are, the blocks around the current one,
and the type that the enclosing method returns. Source: `SPEC_FULL.md:159–162`. -/
structure Env where
  scopes : Scopes
  catalog : Catalog
  outer : Chain
  returns : Option Ty

/-- What changes while statements are checked. -/
structure State where
  block : Block
  resolutions : Resolutions

/-- Checking with the current block and the table. -/
abbrev CheckM := EStateM Failure State

variable {α : Type}

/-- Do something that only changes the table. -/
def withResolutions (x : EStateM Failure Resolutions α) : CheckM α := fun s ↦
  match x s.resolutions with
  | .ok a resolutions => .ok a { s with resolutions }
  | .error f resolutions => .error f { s with resolutions }

/-- Do something in a block of its own, and come back to the current block in any case. -/
def within (block : Block) (x : CheckM α) : CheckM α := fun s ↦
  match x { s with block } with
  | .ok a inner => .ok a { inner with block := s.block }
  | .error f inner => .error f { inner with block := s.block }

/-- Change the current block. -/
def define (f : Block → Except ProgramError Block) : CheckM Unit := do
  let s ← get
  set { s with block := (← obey (f s.block)) }

/-- Record what a node is bound to. -/
def bindNode (node : Node NodeId) (b : Binding) : CheckM Unit :=
  withResolutions (recordBinding node b)

/-- Read the table. -/
def consult (f : Resolutions → Except Fault α) : CheckM α := do
  trust (f (← get).resolutions)

namespace Env

/-- The same place inside one more block. -/
def inside (env : Env) (block : Block) : Env := { env with outer := block :: env.outer }

/-- Do something in a new block inside the current one. -/
def nested (env : Env) (x : Env → CheckM α) : CheckM α := do
  within .empty (x (env.inside (← get).block))

/-- Find the type of an expression. -/
def infer (env : Env) (e : Expr NodeId) : CheckM Ty := do
  withResolutions (e.infer env.scopes ((← get).block :: env.outer))

/-- Find the type of an expression that may be absent. -/
def inferOption (env : Env) : Option (Expr NodeId) → CheckM (Option Ty)
  | none => pure none
  | some e => some <$> env.infer e

/-- A condition must be a truth value. -/
def requireBoolean (env : Env) (construct : Construct) (condition : Expr NodeId) :
    CheckM Unit := do
  let t ← env.infer condition
  obey (Rules.require (t = .boolean) (.conditionNotBoolean construct t))

end Env

namespace Stmt

/-- The type of the variable that the initialization of a for loop sets, if it sets one. -/
def controlType : Stmt NodeId → CheckM (Option Ty)
  | declaration tag name typeName value => do
    let v ← consult fun r ↦ r.variableOf (.stmt (declaration tag name typeName value))
    return some v.type
  | assignment _ receiver _ => do
    let t ← consult fun r ↦ r.typeOf (.expr receiver)
    return some t
  | _ => return none

/-- The increment of a for loop must assign to the type of the variable that its initialization
sets. -/
def requireSameStep (control : Option Ty) (increment : Stmt NodeId) : CheckM Unit :=
  match control, increment with
  | some control, assignment _ receiver _ => do
    let step ← consult fun r ↦ r.typeOf (.expr receiver)
    obey (Rules.require (step = control) (.incrementDiffers step control))
  | _, _ => pure ()

/-- The type of a declared variable: the one that is named, else the one of its value. -/
def declaredType (c : Catalog) (name : Text) :
    (typeName : Option Text) → (found : Option Ty) → Except ProgramError Ty
  | some typeName, some found => do
    let wanted ← c.resolve typeName
    Rules.requireAssignable wanted found
    return wanted
  | some typeName, none => c.resolve typeName
  | none, some found => .ok found
  | none, none => .error (.declarationWithoutType name)

/-- Check a declaration: its value does not see the variable. -/
def checkDeclaration (env : Env) (tag : NodeId) (name : Text) (typeName : Option Text)
    (value : Option (Expr NodeId)) : CheckM Unit := do
  let found ← env.inferOption value
  let type ← obey (declaredType env.catalog name typeName found)
  let v : Variable := ⟨name, name, type, false, .node tag⟩
  define fun b ↦ b.defineVariable v
  bindNode (.stmt (declaration tag name typeName value)) (.variable v)

/-- Check an assignment to a variable or a field. -/
def checkAssignment (env : Env) (receiver value : Expr NodeId) : CheckM Unit := do
  obey (Rules.require (receiver.kind = .access) .targetNotAnAccess)
  let target ← env.infer receiver
  let found ← env.infer value
  let v ← consult fun r ↦ r.variableOf (.expr receiver)
  obey (Rules.require (v.constant = false) (.constantAssignment v.name))
  obey (Rules.requireAssignable target found)

/-- Check a return statement against the enclosing method. -/
def checkReturn (env : Env) (value : Expr NodeId) : CheckM Unit := do
  let found ← env.infer value
  obey (Rules.requireReturn env.returns found)

mutual

/-- Check a statement. Source: `SPEC_FULL.md:117–137`. -/
def check (env : Env) (s : Stmt NodeId) : CheckM Unit :=
  match s with
  | expression _ e => do
    obey (Rules.require (e.kind = .call) .statementNotACall)
    let _ ← env.infer e
  | declaration tag name typeName value => checkDeclaration env tag name typeName value
  | assignment _ receiver value => checkAssignment env receiver value
  | ifElse _ condition thenBody elseBody => do
    obey (Rules.require (thenBody ≠ []) (.emptyBody .ifElse))
    env.requireBoolean .ifElse condition
    env.nested fun inner ↦ checkAll inner thenBody
    env.nested fun inner ↦ checkAll inner elseBody
  | forLoop _ initialization condition increment body => do
    obey (Rules.require (body ≠ []) (.emptyBody .forLoop))
    let control ← checkFirst env initialization
    env.requireBoolean .forLoop condition
    checkStep env control increment
    env.nested fun inner ↦ checkAll inner body
  | whileLoop _ condition body => do
    env.requireBoolean .whileLoop condition
    env.nested fun inner ↦ checkAll inner body
  | ret _ value => checkReturn env value

/-- Check the initialization of a for loop and give back the type of the variable it sets. -/
def checkFirst (env : Env) (initialization : Option (Stmt NodeId)) : CheckM (Option Ty) :=
  match initialization with
  | none => pure none
  | some first => do
    check env first
    let control ← controlType first
    obey (Rules.requireComparable control)
    return control

/-- Check the increment of a for loop. -/
def checkStep (env : Env) (control : Option Ty) (increment : Option (Stmt NodeId)) :
    CheckM Unit :=
  match increment with
  | none => pure ()
  | some step => do
    check env step
    requireSameStep control step

/-- Check statements in order. -/
def checkAll (env : Env) (ss : List (Stmt NodeId)) : CheckM Unit :=
  match ss with
  | [] => pure ()
  | s :: ss => do
    check env s
    checkAll env ss

end

end Stmt

/-- The value of a field must be allowed by its type, and a constant must have one. -/
def Field.requireValue (d : Field NodeId) (type : Ty) : Option Ty → Except ProgramError Unit
  | some found => Rules.requireAssignable type found
  | none => Rules.require (d.constant = false) (.constantWithoutValue d.name)

/-- Check a field: its value does not see the field. Source: `SPEC_FULL.md:92–95`. -/
def Field.check (env : Env) (d : Field NodeId) : CheckM Unit := do
  let type ← obey (env.catalog.resolve d.typeName)
  let found ← env.inferOption d.value
  obey (d.requireValue type found)
  let v : Variable := ⟨d.name, d.name, type, d.constant, .node d.tag⟩
  define fun b ↦ b.defineVariable v
  bindNode (.field d) (.variable v)

/-- A block with the parameters of a method, those before `position` being in `b` already. -/
def Block.defineParameters (b : Block) (method : NodeId) (position : Nat) :
    List (Text × Ty) → Except ProgramError Block
  | [] => .ok b
  | (name, type) :: rest => do
    let b ← b.defineVariable ⟨name, name, type, false, .parameter method position⟩
    b.defineParameters method (position + 1) rest

namespace Method

/-- The function that a method defines. -/
def signature (c : Catalog) (m : Method NodeId) : Except ProgramError Function := do
  Rules.require (m.parameters.length = m.parameterTypes.length)
    (.parameterCount m.name m.parameters.length m.parameterTypes.length)
  let parameters ← c.resolveAll m.parameterTypes
  let returns ← c.resolveReturn m.returnType
  return ⟨m.name, m.name, parameters, returns, .node m.tag⟩

/-- Check a method. It is defined before its body is checked, so it may call itself; its parameters
and the statements of its body share a block. Source: `SPEC_FULL.md:96–102`. -/
def check (env : Env) (m : Method NodeId) : CheckM Unit := do
  let f ← obey (m.signature env.catalog)
  define fun b ↦ b.defineFunction f
  bindNode (.method m) (.function f)
  let around := (← get).block
  let block ← obey (Block.empty.defineParameters m.tag 0 (m.parameters.zip f.parameters))
  within block (Stmt.checkAll { env.inside around with returns := some f.returns } m.body)

end Method

/-- A program must have a function to start with, which takes nothing and returns a whole number.
Source: `SPEC_FULL.md:89–91`. -/
def requireEntryPoint (c : Chain) : Except ProgramError Unit :=
  match c.findFunction? "main" 0 with
  | none => .error .missingEntryPoint
  | some f => if f.returns = .integer then .ok () else .error (.entryPointReturns f.returns)

/-- Check a source: its fields, then its methods, then that it can be started. Source:
`SPEC_FULL.md:89–91`. -/
def Source.check (env : Env) (s : Source NodeId) : CheckM Unit := do
  s.fields.forM (Field.check env)
  s.methods.forM (Method.check env)
  obey (requireEntryPoint ((← get).block :: env.outer))

/-- Check a tree of any kind. -/
def Node.check (env : Env) : Node NodeId → CheckM Unit
  | source s => s.check env
  | field d => d.check env
  | method m => m.check env
  | stmt s => s.check env
  | expr e => do let _ ← env.infer e

end TreeCheck
