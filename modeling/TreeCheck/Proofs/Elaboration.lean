import TreeCheck.Analysis.Run

/-!
# Elaboration: analysis without a table

Elaboration finds the same types and bindings as the analysis and breaks off at the same errors, but
it neither reads nor writes a table: it returns what there is to write. Where the analysis reads
back what it wrote about a part of a statement, elaboration uses what it returned for that part. It
can therefore end only in a type or in an error of the program, and what it returns for a tree is
put together from what it returns for the parts.
-/

namespace TreeCheck

variable {α : Type}

/-! ### What is written -/

namespace Resolutions

/-- The entries of two tables, the first being the later one. -/
instance : Append Resolutions where
  append later earlier := ⟨later.types ++ earlier.types, later.bindings ++ earlier.bindings⟩

/-- The type of one node. -/
def ofType (id : NodeId) (t : Ty) : Resolutions := ⟨[(id, t)], []⟩

/-- The binding of one node. -/
def ofBinding (id : NodeId) (b : Binding) : Resolutions := ⟨[], [(id, b)]⟩

/-- The binding and the type of one node. -/
def ofBound (id : NodeId) (b : Binding) (t : Ty) : Resolutions := ofType id t ++ ofBinding id b

/-- Putting tables together puts their types together. -/
@[simp] theorem types_append (d e : Resolutions) : (d ++ e).types = d.types ++ e.types := rfl

/-- Putting tables together puts their bindings together. -/
@[simp] theorem bindings_append (d e : Resolutions) :
    (d ++ e).bindings = d.bindings ++ e.bindings := rfl

/-- Tables can be put together in any grouping. -/
theorem append_assoc (c d e : Resolutions) : c ++ d ++ e = c ++ (d ++ e) := by
  change Resolutions.mk _ _ = Resolutions.mk _ _
  simp

/-- An empty table adds nothing. -/
@[simp] theorem append_empty (d : Resolutions) : d ++ empty = d := by
  change Resolutions.mk _ _ = d
  simp [empty]

end Resolutions

/-! ### Expressions -/

namespace Expr

mutual

/-- Elaborate an expression: its type, and what is written about it and its parts. -/
def elaborate (scopes : Scopes) (chain : Chain) (e : Expr NodeId) :
    Except ProgramError (Ty × Resolutions) :=
  match e with
  | literal tag value => do
    let t ← Rules.literalType value
    return (t, .ofType tag t)
  | group tag inner => do
    Rules.require (inner.kind = .binary) .groupNotBinary
    let (t, d) ← inner.elaborate scopes chain
    return (t, .ofType tag t ++ d)
  | binary tag operator left right => do
    let (leftType, d₁) ← left.elaborate scopes chain
    let (rightType, d₂) ← right.elaborate scopes chain
    let t ← Rules.binaryType operator leftType rightType
    return (t, .ofType tag t ++ (d₂ ++ d₁))
  | access tag none name => do
    let v ← chain.lookupVariable name
    return (v.type, .ofBound tag (.variable v) v.type)
  | access tag (some receiver) name => do
    let (owner, d) ← receiver.elaborate scopes chain
    let v ← scopes.lookupField owner name
    return (v.type, .ofBound tag (.variable v) v.type ++ d)
  | call tag none name arguments => do
    let (types, d) ← elaborateAll scopes chain arguments
    let f ← chain.lookupFunction name arguments.length
    Rules.requireArguments f.parameters types
    return (f.returns, .ofBound tag (.function f) f.returns ++ d)
  | call tag (some receiver) name arguments => do
    let (types, d₁) ← elaborateAll scopes chain arguments
    let (owner, d₂) ← receiver.elaborate scopes chain
    let f ← scopes.lookupMethod owner name arguments.length
    Rules.requireArguments f.parameters.tail types
    return (f.returns, .ofBound tag (.function f) f.returns ++ (d₂ ++ d₁))

/-- Elaborate expressions in order. -/
def elaborateAll (scopes : Scopes) (chain : Chain) (es : List (Expr NodeId)) :
    Except ProgramError (List Ty × Resolutions) :=
  match es with
  | [] => return ([], .empty)
  | e :: es => do
    let (t, d₁) ← e.elaborate scopes chain
    let (ts, d₂) ← elaborateAll scopes chain es
    return (t :: ts, d₂ ++ d₁)

end

/-- Elaborate the target of an assignment: the variable that it is bound to. -/
def elaborateTarget (scopes : Scopes) (chain : Chain) :
    Expr NodeId → Except ProgramError (Variable × Resolutions)
  | access tag none name => do
    let v ← chain.lookupVariable name
    return (v, .ofBound tag (.variable v) v.type)
  | access tag (some receiver) name => do
    let (owner, d) ← receiver.elaborate scopes chain
    let v ← scopes.lookupField owner name
    return (v, .ofBound tag (.variable v) v.type ++ d)
  | _ => throw .targetNotAnAccess

/-- The target of an assignment is an access, elaborated like any other. -/
theorem elaborate_of_elaborateTarget {scopes : Scopes} {chain : Chain} {e : Expr NodeId}
    (h : e.kind = .access) :
    e.elaborate scopes chain = (fun p ↦ (p.1.type, p.2)) <$> e.elaborateTarget scopes chain := by
  match e, h with
  | access tag none name, _ =>
    simp only [elaborate, elaborateTarget, map_bind]
    rfl
  | access tag (some receiver) name, _ =>
    simp only [elaborate, elaborateTarget, map_bind]
    rfl

end Expr

/-! ### Statements -/

/-- Elaborating with the current block. -/
abbrev ElabM := EStateM ProgramError Block

namespace ElabM

/-- Go on unless a rule is broken. -/
def obey (x : Except ProgramError α) : ElabM α := fun b ↦
  match x with
  | .ok a => .ok a b
  | .error e => .error e b

/-- Do something in a block of its own, and come back to the current block in any case. -/
def within (block : Block) (x : ElabM α) : ElabM α := fun b ↦
  match x block with
  | .ok a _ => .ok a b
  | .error e _ => .error e b

/-- Change the current block. -/
def define (f : Block → Except ProgramError Block) : ElabM Unit := fun b ↦
  match f b with
  | .ok b' => .ok () b'
  | .error e => .error e b

end ElabM

namespace Env

/-- Elaborate something in a new block inside the current one. -/
def elaborateNested (env : Env) (x : Env → ElabM α) : ElabM α := do
  ElabM.within .empty (x (env.inside (← get)))

/-- Elaborate an expression. -/
def elaborate (env : Env) (e : Expr NodeId) : ElabM (Ty × Resolutions) := do
  ElabM.obey (e.elaborate env.scopes ((← get) :: env.outer))

/-- Elaborate an expression that may be absent. -/
def elaborateOption (env : Env) : Option (Expr NodeId) → ElabM (Option Ty × Resolutions)
  | none => return (none, .empty)
  | some e => do
    let (t, d) ← env.elaborate e
    return (some t, d)

/-- Elaborate a condition. -/
def elaborateCondition (env : Env) (construct : Construct) (condition : Expr NodeId) :
    ElabM Resolutions := do
  let (t, d) ← env.elaborate condition
  ElabM.obey (Rules.require (t = .boolean) (.conditionNotBoolean construct t))
  return d

end Env

namespace Stmt

/-- The increment of a for loop must assign to the type of the variable that its initialization
sets; `set` is the type of the variable that the increment sets. -/
def requireStep : (control : Option Ty) → (increment : Stmt NodeId) → (set : Option Ty) →
    Except ProgramError Unit
  | some control, assignment _ _ _, some set =>
    Rules.require (set = control) (.incrementDiffers set control)
  | _, _, _ => .ok ()

/-- Elaborate a declaration. -/
def elaborateDeclaration (env : Env) (tag : NodeId) (name : Text) (typeName : Option Text)
    (value : Option (Expr NodeId)) : ElabM (Option Ty × Resolutions) := do
  let (found, d) ← env.elaborateOption value
  let type ← ElabM.obey (declaredType env.catalog name typeName found)
  let v : Variable := ⟨name, name, type, false, .node tag⟩
  ElabM.define fun b ↦ b.defineVariable v
  return (some type, .ofBinding tag (.variable v) ++ d)

/-- Elaborate an assignment. -/
def elaborateAssignment (env : Env) (receiver value : Expr NodeId) :
    ElabM (Option Ty × Resolutions) := do
  let (v, d₁) ← ElabM.obey (receiver.elaborateTarget env.scopes ((← get) :: env.outer))
  let (found, d₂) ← env.elaborate value
  ElabM.obey (Rules.require (v.constant = false) (.constantAssignment v.name))
  ElabM.obey (Rules.requireAssignable v.type found)
  return (some v.type, d₂ ++ d₁)

mutual

/-- Elaborate a statement: the type of the variable that it sets, if it is a declaration or an
assignment, and what is written. -/
def elaborate (env : Env) (s : Stmt NodeId) : ElabM (Option Ty × Resolutions) :=
  match s with
  | expression _ e => do
    ElabM.obey (Rules.require (e.kind = .call) .statementNotACall)
    let (_, d) ← env.elaborate e
    return (none, d)
  | declaration tag name typeName value => elaborateDeclaration env tag name typeName value
  | assignment _ receiver value => elaborateAssignment env receiver value
  | ifElse _ condition thenBody elseBody => do
    ElabM.obey (Rules.require (thenBody ≠ []) (.emptyBody .ifElse))
    let d₁ ← env.elaborateCondition .ifElse condition
    let d₂ ← env.elaborateNested fun inner ↦ elaborateAll inner thenBody
    let d₃ ← env.elaborateNested fun inner ↦ elaborateAll inner elseBody
    return (none, d₃ ++ (d₂ ++ d₁))
  | forLoop _ initialization condition increment body => do
    ElabM.obey (Rules.require (body ≠ []) (.emptyBody .forLoop))
    let (control, d₁) ← elaborateFirst env initialization
    let d₂ ← env.elaborateCondition .forLoop condition
    let d₃ ← elaborateStep env control increment
    let d₄ ← env.elaborateNested fun inner ↦ elaborateAll inner body
    return (none, d₄ ++ (d₃ ++ (d₂ ++ d₁)))
  | whileLoop _ condition body => do
    let d₁ ← env.elaborateCondition .whileLoop condition
    let d₂ ← env.elaborateNested fun inner ↦ elaborateAll inner body
    return (none, d₂ ++ d₁)
  | ret _ value => do
    let (found, d) ← env.elaborate value
    ElabM.obey (Rules.requireReturn env.returns found)
    return (none, d)

/-- Elaborate the initialization of a for loop. -/
def elaborateFirst (env : Env) (initialization : Option (Stmt NodeId)) :
    ElabM (Option Ty × Resolutions) :=
  match initialization with
  | none => return (none, .empty)
  | some first => do
    let (control, d) ← elaborate env first
    ElabM.obey (Rules.requireComparable control)
    return (control, d)

/-- Elaborate the increment of a for loop. -/
def elaborateStep (env : Env) (control : Option Ty) (increment : Option (Stmt NodeId)) :
    ElabM Resolutions :=
  match increment with
  | none => return .empty
  | some step => do
    let (set, d) ← elaborate env step
    ElabM.obey (requireStep control step set)
    return d

/-- Elaborate statements in order. -/
def elaborateAll (env : Env) (ss : List (Stmt NodeId)) : ElabM Resolutions :=
  match ss with
  | [] => return .empty
  | s :: ss => do
    let (_, d₁) ← elaborate env s
    let d₂ ← elaborateAll env ss
    return d₂ ++ d₁

end

section

variable (env : Env) (tag : NodeId)

/-- A declaration sets the variable that it declares. -/
theorem elaborate_declaration (name : Text) (typeName : Option Text)
    (value : Option (Expr NodeId)) :
    (declaration tag name typeName value).elaborate env =
      elaborateDeclaration env tag name typeName value := by rw [elaborate]

/-- An assignment sets the variable of its receiver. -/
theorem elaborate_assignment (receiver value : Expr NodeId) :
    (assignment tag receiver value).elaborate env = elaborateAssignment env receiver value := by
  rw [elaborate]

end

end Stmt

/-! ### Fields, methods and sources -/

/-- Elaborate a field. -/
def Field.elaborate (env : Env) (d : Field NodeId) : ElabM Resolutions := do
  let type ← ElabM.obey (env.catalog.resolve d.typeName)
  let (found, r) ← env.elaborateOption d.value
  ElabM.obey (d.requireValue type found)
  let v : Variable := ⟨d.name, d.name, type, d.constant, .node d.tag⟩
  ElabM.define fun b ↦ b.defineVariable v
  return .ofBinding d.tag (.variable v) ++ r

/-- Elaborate fields in order. -/
def Field.elaborateAll (env : Env) : List (Field NodeId) → ElabM Resolutions
  | [] => return .empty
  | d :: ds => do
    let d₁ ← d.elaborate env
    let d₂ ← elaborateAll env ds
    return d₂ ++ d₁

/-- The place of a method's body: inside the block around the method. -/
def Env.inMethod (env : Env) (around : Block) (f : Function) : Env :=
  { env.inside around with returns := some f.returns }

/-- Elaborate a method. -/
def Method.elaborate (env : Env) (m : Method NodeId) : ElabM Resolutions := do
  let f ← ElabM.obey (m.signature env.catalog)
  ElabM.define fun b ↦ b.defineFunction f
  let around ← get
  let block ← ElabM.obey (Block.empty.defineParameters m.tag 0 (m.parameters.zip f.parameters))
  let d ← ElabM.within block (Stmt.elaborateAll (env.inMethod around f) m.body)
  return d ++ .ofBinding m.tag (.function f)

/-- Elaborate methods in order. -/
def Method.elaborateAll (env : Env) : List (Method NodeId) → ElabM Resolutions
  | [] => return .empty
  | m :: ms => do
    let d₁ ← m.elaborate env
    let d₂ ← elaborateAll env ms
    return d₂ ++ d₁

/-- Elaborate a source. -/
def Source.elaborate (env : Env) (s : Source NodeId) : ElabM Resolutions := do
  let d₁ ← Field.elaborateAll env s.fields
  let d₂ ← Method.elaborateAll env s.methods
  ElabM.obey (requireEntryPoint ((← get) :: env.outer))
  return d₂ ++ d₁

/-- Elaborate a tree of any kind. -/
def Node.elaborate (env : Env) : Node NodeId → ElabM Resolutions
  | source s => s.elaborate env
  | field d => d.elaborate env
  | method m => m.elaborate env
  | stmt s => do return (← s.elaborate env).2
  | expr e => do return (← env.elaborate e).2

end TreeCheck
