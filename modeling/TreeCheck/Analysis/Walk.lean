import TreeCheck.Analysis.Run

/-!
# Analysis among live scopes

The scopes of a program are live objects that everything shares: the member scopes of all types,
built-in ones included, the scope that an analysis is inside, and the scopes that it makes. An
analysis holds references to them and changes them in place. This module models just that.
A walk through a tree has all scopes, the catalog and the table at hand, each definition goes into
the scope that is named by its identity, and a nested block is one more scope, which stays when the
block ends. Nothing in the types of the steps keeps a walk from changing a scope of somebody else.

Source: `SPEC_FULL.md`, sections 4.1 (binding table), 4.4 (statements), 4.5 (expressions) and 4.6
(context and results).
-/

namespace TreeCheck

/-- What a walk can change: all scopes with the catalog, and the table. -/
structure Live where
  symbols : Symbols
  resolutions : Resolutions

/-- Walking through a tree. -/
abbrev WalkM := EStateM Failure Live

/-- Where a node stands: the innermost scope, the type that the enclosing method returns, and the
member scopes of the built-in types. -/
structure Surroundings where
  homes : Builtin → ScopeId
  scope : ScopeId
  returns : Option Ty

/-- The scope with the members of a type, where `homes` has those of the built-in types. -/
def Ty.home (homes : Builtin → ScopeId) : Ty → ScopeId
  | builtin b => homes b
  | object o => o.members

namespace WalkM

variable {α : Type}

/-- Do something that only changes the table. -/
def onTable (x : EStateM Failure Resolutions α) : WalkM α := fun l ↦
  match x l.resolutions with
  | .ok a resolutions => .ok a { l with resolutions }
  | .error f resolutions => .error f { l with resolutions }

/-- Read the table. -/
def readTable (f : Resolutions → Except Fault α) : WalkM α := do
  trust (f (← get).resolutions)

/-- Look something up among what is visible in a scope. -/
def look (scope : ScopeId) (f : Chain → Except ProgramError α) : WalkM α := do
  obey (f ((← get).symbols.scopes.chain scope))

/-- Look something up in the catalog. -/
def resolve (f : Catalog → Except ProgramError α) : WalkM α := do
  obey (f (← get).symbols.catalog)

/-- Change what is shared. -/
def change (f : Symbols → Except ProgramError Symbols) : WalkM Unit := do
  let l ← get
  set { l with symbols := (← obey (f l.symbols)) }

/-- Make a scope inside another. -/
def make (parent : ScopeId) : WalkM ScopeId := do
  let l ← get
  let (symbols, scope) := l.symbols.createScope (some parent)
  set { l with symbols }
  return scope

end WalkM

open WalkM

namespace Expr

mutual

/-- Find the type of an expression. -/
def walk (c : Surroundings) (e : Expr NodeId) : WalkM Ty :=
  match e with
  | literal tag value => do
    let t ← obey (Rules.literalType value)
    onTable (recordType (literal tag value) t)
  | group tag inner => do
    obey (Rules.require (inner.kind = .binary) .groupNotBinary)
    let t ← inner.walk c
    onTable (recordType (group tag inner) t)
  | binary tag operator left right => do
    let leftType ← left.walk c
    let rightType ← right.walk c
    let t ← obey (Rules.binaryType operator leftType rightType)
    onTable (recordType (binary tag operator left right) t)
  | access tag none name => do
    let v ← look c.scope fun visible ↦ visible.lookupVariable name
    onTable (recordBinding (.expr (access tag none name)) (.variable v))
    onTable (recordType (access tag none name) v.type)
  | access tag (some receiver) name => do
    let owner ← receiver.walk c
    let v ← look (owner.home c.homes) fun members ↦ members.lookupField owner name
    onTable (recordBinding (.expr (access tag (some receiver) name)) (.variable v))
    onTable (recordType (access tag (some receiver) name) v.type)
  | call tag none name arguments => do
    let types ← walkAll c arguments
    let f ← look c.scope fun visible ↦ visible.lookupFunction name arguments.length
    obey (Rules.requireArguments f.parameters types)
    onTable (recordBinding (.expr (call tag none name arguments)) (.function f))
    onTable (recordType (call tag none name arguments) f.returns)
  | call tag (some receiver) name arguments => do
    let types ← walkAll c arguments
    let owner ← receiver.walk c
    let f ← look (owner.home c.homes) fun members ↦
      members.lookupMethod owner name arguments.length
    obey (Rules.requireArguments f.parameters.tail types)
    onTable (recordBinding (.expr (call tag (some receiver) name arguments)) (.function f))
    onTable (recordType (call tag (some receiver) name arguments) f.returns)

/-- Find the types of expressions in order. -/
def walkAll (c : Surroundings) (es : List (Expr NodeId)) : WalkM (List Ty) :=
  match es with
  | [] => pure []
  | e :: es => do
    let t ← e.walk c
    let ts ← walkAll c es
    return t :: ts

end

/-- Find the type of an expression that may be absent. -/
def walkOption (c : Surroundings) : Option (Expr NodeId) → WalkM (Option Ty)
  | none => pure none
  | some e => some <$> e.walk c

end Expr

namespace Surroundings

variable {α : Type}

/-- Do something in a new scope inside the current one. -/
def nested (c : Surroundings) (x : Surroundings → WalkM α) : WalkM α := do
  let scope ← make c.scope
  x { c with scope }

/-- A condition must be a truth value. -/
def requireBoolean (c : Surroundings) (construct : Construct) (condition : Expr NodeId) :
    WalkM Unit := do
  let t ← condition.walk c
  obey (Rules.require (t = .boolean) (.conditionNotBoolean construct t))

end Surroundings

namespace Stmt

/-- The type of the variable that the initialization of a for loop sets, if it sets one. -/
def walkControl : Stmt NodeId → WalkM (Option Ty)
  | declaration tag name typeName value => do
    let v ← readTable fun r ↦ r.variableOf (.stmt (declaration tag name typeName value))
    return some v.type
  | assignment _ receiver _ => do
    let t ← readTable fun r ↦ r.typeOf (.expr receiver)
    return some t
  | _ => return none

/-- The increment of a for loop must assign to the type of the variable that its initialization
sets. -/
def walkSameStep (control : Option Ty) (increment : Stmt NodeId) : WalkM Unit :=
  match control, increment with
  | some control, assignment _ receiver _ => do
    let step ← readTable fun r ↦ r.typeOf (.expr receiver)
    obey (Rules.require (step = control) (.incrementDiffers step control))
  | _, _ => pure ()

/-- Check a declaration, which defines its variable in the current scope. -/
def walkDeclaration (c : Surroundings) (tag : NodeId) (name : Text) (typeName : Option Text)
    (value : Option (Expr NodeId)) : WalkM Unit := do
  let found ← Expr.walkOption c value
  let type ← resolve fun catalog ↦ declaredType catalog name typeName found
  let v : Variable := ⟨name, name, type, false, .node tag⟩
  change fun s ↦ s.defineVariable c.scope v
  onTable (recordBinding (.stmt (declaration tag name typeName value)) (.variable v))

/-- Check an assignment to a variable or a field. -/
def walkAssignment (c : Surroundings) (receiver value : Expr NodeId) : WalkM Unit := do
  obey (Rules.require (receiver.kind = .access) .targetNotAnAccess)
  let target ← receiver.walk c
  let found ← value.walk c
  let v ← readTable fun r ↦ r.variableOf (.expr receiver)
  obey (Rules.require (v.constant = false) (.constantAssignment v.name))
  obey (Rules.requireAssignable target found)

/-- Check a return statement against the enclosing method. -/
def walkReturn (c : Surroundings) (value : Expr NodeId) : WalkM Unit := do
  let found ← value.walk c
  obey (Rules.requireReturn c.returns found)

mutual

/-- Check a statement. -/
def walk (c : Surroundings) (s : Stmt NodeId) : WalkM Unit :=
  match s with
  | expression _ e => do
    obey (Rules.require (e.kind = .call) .statementNotACall)
    let _ ← e.walk c
  | declaration tag name typeName value => walkDeclaration c tag name typeName value
  | assignment _ receiver value => walkAssignment c receiver value
  | ifElse _ condition thenBody elseBody => do
    obey (Rules.require (thenBody ≠ []) (.emptyBody .ifElse))
    c.requireBoolean .ifElse condition
    c.nested fun inner ↦ walkAll inner thenBody
    c.nested fun inner ↦ walkAll inner elseBody
  | forLoop _ initialization condition increment body => do
    obey (Rules.require (body ≠ []) (.emptyBody .forLoop))
    let control ← walkFirst c initialization
    c.requireBoolean .forLoop condition
    walkStep c control increment
    c.nested fun inner ↦ walkAll inner body
  | whileLoop _ condition body => do
    c.requireBoolean .whileLoop condition
    c.nested fun inner ↦ walkAll inner body
  | ret _ value => walkReturn c value

/-- Check the initialization of a for loop and give back the type of the variable it sets. -/
def walkFirst (c : Surroundings) (initialization : Option (Stmt NodeId)) : WalkM (Option Ty) :=
  match initialization with
  | none => pure none
  | some first => do
    walk c first
    let control ← walkControl first
    obey (Rules.requireComparable control)
    return control

/-- Check the increment of a for loop. -/
def walkStep (c : Surroundings) (control : Option Ty) (increment : Option (Stmt NodeId)) :
    WalkM Unit :=
  match increment with
  | none => pure ()
  | some step => do
    walk c step
    walkSameStep control step

/-- Check statements in order. -/
def walkAll (c : Surroundings) (ss : List (Stmt NodeId)) : WalkM Unit :=
  match ss with
  | [] => pure ()
  | s :: ss => do
    walk c s
    walkAll c ss

end

end Stmt

/-- Check a field, which is defined in the current scope. -/
def Field.walk (c : Surroundings) (d : Field NodeId) : WalkM Unit := do
  let type ← resolve fun catalog ↦ catalog.resolve d.typeName
  let found ← Expr.walkOption c d.value
  obey (d.requireValue type found)
  let v : Variable := ⟨d.name, d.name, type, d.constant, .node d.tag⟩
  change fun s ↦ s.defineVariable c.scope v
  onTable (recordBinding (.field d) (.variable v))

namespace Method

/-- Define the parameters of a method in a scope, those before `position` being there already. -/
def walkParameters (scope : ScopeId) (method : NodeId) (position : Nat) :
    List (Text × Ty) → WalkM Unit
  | [] => pure ()
  | (name, type) :: rest => do
    change fun s ↦ s.defineVariable scope ⟨name, name, type, false, .parameter method position⟩
    walkParameters scope method (position + 1) rest

/-- Check the body of a method in a scope made for it, which gets its parameters first. -/
def walkBody (homes : Builtin → ScopeId) (m : Method NodeId) (f : Function) (scope : ScopeId) :
    WalkM Unit := do
  walkParameters scope m.tag 0 (m.parameters.zip f.parameters)
  Stmt.walkAll ⟨homes, scope, some f.returns⟩ m.body

/-- Check a method, which is defined in the current scope; its parameters and the statements of its
body share a new one. -/
def walk (c : Surroundings) (m : Method NodeId) : WalkM Unit := do
  let f ← resolve fun catalog ↦ m.signature catalog
  change fun s ↦ s.defineFunction c.scope f
  onTable (recordBinding (.method m) (.function f))
  c.nested fun inner ↦ walkBody inner.homes m f inner.scope

end Method

/-- Check a source: its fields, then its methods, then that it can be started. -/
def Source.walk (c : Surroundings) (s : Source NodeId) : WalkM Unit := do
  s.fields.forM (Field.walk c)
  s.methods.forM (Method.walk c)
  look c.scope requireEntryPoint

/-- Check a tree of any kind. -/
def Node.walk (c : Surroundings) : Node NodeId → WalkM Unit
  | source s => s.walk c
  | field d => d.walk c
  | method m => m.walk c
  | stmt s => s.walk c
  | expr e => do let _ ← e.walk c

namespace Symbols

/-- Analyse a tree among live scopes, inside one of them or inside none. -/
def walk (s : Symbols) (homes : Builtin → ScopeId) (parent : Option ScopeId)
    (tree : Node NodeId) : Analysis :=
  let (s, scope) := s.openScope parent
  match tree.walk ⟨homes, scope, none⟩ ⟨s, .empty⟩ with
  | .ok _ l => ⟨l.symbols, scope, .ok l.resolutions⟩
  | .error failure l => ⟨l.symbols, scope, .error failure⟩

/-- Make a member scope for each of the built-in types. -/
def furnish (s : Symbols) : Symbols × (Builtin → ScopeId) :=
  ({ s with scopes := Builtin.all.foldl (fun scopes _ ↦ scopes.create none) s.scopes },
    fun b ↦ s.scopes.size + Builtin.all.idxOf b)

end Symbols

end TreeCheck
