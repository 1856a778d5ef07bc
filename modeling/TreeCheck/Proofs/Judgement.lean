import TreeCheck.Proofs.Rules

/-!
# Typing judgements

A declarative account of the trees that are well typed. Every judgement is made in a context: nested
blocks of variables and functions, the type that the enclosing method returns, the types that can be
named, and the members of types. A context never changes. A statement is judged to declare
variables, and what comes after it in the same block is judged in a context extended by them.
-/

namespace TreeCheck

/-! ### Types -/

/-- A value of type `source` may stand where `target` is wanted. -/
inductive Assignable : (target source : Ty) → Prop
  | same (t : Ty) : Assignable t t
  | any (source : Ty) : Assignable .any source
  | comparable {b : Builtin} (hb : b ∈ [Builtin.integer, .decimal, .character, .string]) :
      Assignable .comparable (.builtin b)

/-- The type of a literal. Numbers without a type are out of range. -/
inductive Literal.HasType : Literal → Ty → Prop
  | nil : HasType .nil .nil
  | boolean (b : Bool) : HasType (.boolean b) .boolean
  | character (c : CodePoint) : HasType (.character c) .character
  | string (t : Text) : HasType (.string t) .string
  | integer {n : Int} (hn : -2147483648 ≤ n ∧ n ≤ 2147483647) : HasType (.integer n) .integer
  | decimal {d : Decimal} (hd : d.fitsDouble) : HasType (.decimal d) .decimal

/-- The type that an operator gives for the types of its operands. -/
inductive Operates : (operator : Text) → (left right result : Ty) → Prop
  | logical {o : Text} (ho : o ∈ (["AND", "OR"] : List Text)) :
      Operates o .boolean .boolean .boolean
  | comparison {o : Text} {t : Ty} (ho : o ∈ (["<", "<=", ">", ">=", "==", "!="] : List Text))
      (ht : Assignable .comparable t) : Operates o t t .boolean
  | joinLeft (t : Ty) : Operates "+" .string t .string
  | joinRight (t : Ty) : Operates "+" t .string .string
  | arithmetic {o : Text} {t : Ty} (ho : o ∈ (["+", "-", "*", "/"] : List Text))
      (ht : t = .integer ∨ t = .decimal) : Operates o t t t

/-! ### Contexts -/

/-- What a tree is judged in. -/
structure Context where
  /-- The block that declarations extend. -/
  inner : Block
  /-- The blocks around it, the innermost first. -/
  outer : Chain
  /-- The type that the enclosing method returns. -/
  returns : Option Ty
  /-- The types that can be named. -/
  catalog : Catalog
  /-- The fields and methods of types. -/
  members : Ty → Chain

/-- The innermost block of a chain in which `find` finds something holds `x`. -/
inductive Sees {β : Type} (find : Block → Option β) (x : β) : Chain → Prop
  | here {b : Block} {c : Chain} (hb : find b = some x) : Sees find x (b :: c)
  | outer {b : Block} {c : Chain} (hb : find b = none) (hc : Sees find x c) : Sees find x (b :: c)

namespace Context

/-- All blocks of a context, the innermost first. -/
def blocks (Γ : Context) : Chain := Γ.inner :: Γ.outer

/-- The context after the declaration of variables. -/
def extend (Γ : Context) (vs : List Variable) : Context :=
  { Γ with inner := { Γ.inner with vars := Γ.inner.vars ++ vs } }

/-- The context after the definition of a function. -/
def define (Γ : Context) (f : Function) : Context :=
  { Γ with inner := { Γ.inner with funs := Γ.inner.funs ++ [f] } }

/-- The context of a new block. -/
def nested (Γ : Context) : Context := { Γ with inner := .empty, outer := Γ.blocks }

/-- The context of the body of a method. -/
def body (Γ : Context) (parameters : List Variable) (returns : Ty) : Context :=
  { Γ with inner := ⟨parameters, []⟩, outer := Γ.blocks, returns := some returns }

/-- A name stands for a variable. -/
def HasVariable (Γ : Context) (name : Text) (v : Variable) : Prop :=
  Sees (fun b ↦ b.findVariable? name) v Γ.blocks

/-- A name with a number of arguments stands for a function. -/
def HasFunction (Γ : Context) (name : Text) (arity : Nat) (f : Function) : Prop :=
  Sees (fun b ↦ b.findFunction? name arity) f Γ.blocks

/-- A name stands for a field of a type. -/
def HasField (Γ : Context) (owner : Ty) (name : Text) (v : Variable) : Prop :=
  Sees (fun b ↦ b.findVariable? name) v (Γ.members owner)

/-- A name with a number of arguments stands for a method of a type. The receiver is one more
argument. -/
def HasMethod (Γ : Context) (owner : Ty) (name : Text) (arity : Nat) (f : Function) : Prop :=
  Sees (fun b ↦ b.findFunction? name (arity + 1)) f (Γ.members owner)

/-- A name stands for a type. -/
def NamesType (Γ : Context) (name : Text) (t : Ty) : Prop := Γ.catalog.find? name = some t

/-- The innermost block has no variable of this name. -/
def NewVariable (Γ : Context) (name : Text) : Prop := ∀ v ∈ Γ.inner.vars, v.name ≠ name

/-- The innermost block has no function of this name and number of parameters. -/
def NewFunction (Γ : Context) (name : Text) (arity : Nat) : Prop :=
  ∀ f ∈ Γ.inner.funs, f.name = name → f.arity ≠ arity

end Context

/-! ### Expressions -/

namespace Expr

/-- The type of an expression. -/
inductive HasType {α : Type} (Γ : Context) : Expr α → Ty → Prop
  | literal {tag : α} {value : Literal} {t : Ty} (h : value.HasType t) :
      HasType Γ (.literal tag value) t
  | group {tag : α} {inner : Expr α} {t : Ty} (hk : inner.kind = .binary) (h : HasType Γ inner t) :
      HasType Γ (.group tag inner) t
  | binary {tag : α} {operator : Text} {left right : Expr α} {t₁ t₂ t : Ty}
      (hl : HasType Γ left t₁) (hr : HasType Γ right t₂) (ho : Operates operator t₁ t₂ t) :
      HasType Γ (.binary tag operator left right) t
  | access {tag : α} {name : Text} {v : Variable} (hv : Γ.HasVariable name v) :
      HasType Γ (.access tag none name) v.type
  | field {tag : α} {receiver : Expr α} {name : Text} {owner : Ty} {v : Variable}
      (hr : HasType Γ receiver owner) (hv : Γ.HasField owner name v) :
      HasType Γ (.access tag (some receiver) name) v.type
  | call {tag : α} {name : Text} {arguments : List (Expr α)} {ts : List Ty} {f : Function}
      (ha : List.Forall₂ (HasType Γ) arguments ts) (hf : Γ.HasFunction name arguments.length f)
      (hp : List.Forall₂ Assignable f.parameters ts) :
      HasType Γ (.call tag none name arguments) f.returns
  | method {tag : α} {receiver : Expr α} {name : Text} {arguments : List (Expr α)} {owner : Ty}
      {ts : List Ty} {f : Function} (ha : List.Forall₂ (HasType Γ) arguments ts)
      (hr : HasType Γ receiver owner) (hf : Γ.HasMethod owner name arguments.length f)
      (hp : List.Forall₂ Assignable f.parameters.tail ts) :
      HasType Γ (.call tag (some receiver) name arguments) f.returns

/-- An access designates the variable that can be assigned to. -/
inductive Designates {α : Type} (Γ : Context) : Expr α → Variable → Prop
  | access {tag : α} {name : Text} {v : Variable} (hv : Γ.HasVariable name v) :
      Designates Γ (.access tag none name) v
  | field {tag : α} {receiver : Expr α} {name : Text} {owner : Ty} {v : Variable}
      (hr : HasType Γ receiver owner) (hv : Γ.HasField owner name v) :
      Designates Γ (.access tag (some receiver) name) v

end Expr

/-! ### Statements -/

namespace Stmt

/-- The variable that the initialization of a for loop sets has this type; `vs` are the variables
that the initialization declares. -/
inductive Controls (Γ : Context) : Option (Stmt NodeId) → (vs : List Variable) → Ty → Prop
  | declaration {tag : NodeId} {name : Text} {typeName : Option Text}
      {value : Option (Expr NodeId)} (v : Variable) :
      Controls Γ (some (.declaration tag name typeName value)) [v] v.type
  | assignment {tag : NodeId} {receiver value : Expr NodeId} {v : Variable} (vs : List Variable)
      (hv : receiver.Designates Γ v) : Controls Γ (some (.assignment tag receiver value)) vs v.type

mutual

/-- A statement is well typed and declares variables in its block. -/
inductive Checks : Context → Stmt NodeId → List Variable → Prop
  | expression {Γ : Context} {tag : NodeId} {e : Expr NodeId} {t : Ty} (hk : e.kind = .call)
      (he : e.HasType Γ t) : Checks Γ (.expression tag e) []
  | inferred {Γ : Context} {tag : NodeId} {name : Text} {value : Expr NodeId} {t : Ty}
      (hv : value.HasType Γ t) (hn : Γ.NewVariable name) :
      Checks Γ (.declaration tag name none (some value)) [⟨name, name, t, false, .node tag⟩]
  | uninitialized {Γ : Context} {tag : NodeId} {name typeName : Text} {t : Ty}
      (ht : Γ.NamesType typeName t) (hn : Γ.NewVariable name) :
      Checks Γ (.declaration tag name (some typeName) none) [⟨name, name, t, false, .node tag⟩]
  | initialized {Γ : Context} {tag : NodeId} {name typeName : Text} {value : Expr NodeId}
      {t found : Ty} (ht : Γ.NamesType typeName t) (hv : value.HasType Γ found)
      (ha : Assignable t found) (hn : Γ.NewVariable name) :
      Checks Γ (.declaration tag name (some typeName) (some value))
        [⟨name, name, t, false, .node tag⟩]
  | assignment {Γ : Context} {tag : NodeId} {receiver value : Expr NodeId} {v : Variable}
      {found : Ty} (hr : receiver.Designates Γ v) (hc : v.constant = false)
      (hv : value.HasType Γ found) (ha : Assignable v.type found) :
      Checks Γ (.assignment tag receiver value) []
  | ifElse {Γ : Context} {tag : NodeId} {condition : Expr NodeId}
      {thenBody elseBody : List (Stmt NodeId)} {vs ws : List Variable} (hn : thenBody ≠ [])
      (hc : condition.HasType Γ .boolean) (ht : ChecksAll Γ.nested thenBody vs)
      (he : ChecksAll Γ.nested elseBody ws) :
      Checks Γ (.ifElse tag condition thenBody elseBody) []
  | forLoop {Γ : Context} {tag : NodeId} {initialization increment : Option (Stmt NodeId)}
      {condition : Expr NodeId} {body : List (Stmt NodeId)} {us vs ws : List Variable}
      (hn : body ≠ []) (hi : ChecksOption Γ initialization us)
      (hi' : ∀ t, Controls Γ initialization us t → Assignable .comparable t)
      (hc : condition.HasType (Γ.extend us) .boolean) (hs : ChecksOption (Γ.extend us) increment vs)
      (hs' : ∀ t tag receiver value v, Controls Γ initialization us t →
        increment = some (.assignment tag receiver value) → receiver.Designates (Γ.extend us) v →
        v.type = t)
      (hb : ChecksAll (Γ.extend (us ++ vs)).nested body ws) :
      Checks Γ (.forLoop tag initialization condition increment body) (us ++ vs)
  | whileLoop {Γ : Context} {tag : NodeId} {condition : Expr NodeId} {body : List (Stmt NodeId)}
      {vs : List Variable} (hc : condition.HasType Γ .boolean) (hb : ChecksAll Γ.nested body vs) :
      Checks Γ (.whileLoop tag condition body) []
  | ret {Γ : Context} {tag : NodeId} {value : Expr NodeId} {wanted found : Ty}
      (hr : Γ.returns = some wanted) (hv : value.HasType Γ found) (ha : Assignable wanted found) :
      Checks Γ (.ret tag value) []

/-- A statement that may be absent is well typed. -/
inductive ChecksOption : Context → Option (Stmt NodeId) → List Variable → Prop
  | none {Γ : Context} : ChecksOption Γ none []
  | some {Γ : Context} {s : Stmt NodeId} {vs : List Variable} (h : Checks Γ s vs) :
      ChecksOption Γ (some s) vs

/-- Statements are well typed, each in the context that the ones before it extend. -/
inductive ChecksAll : Context → List (Stmt NodeId) → List Variable → Prop
  | nil {Γ : Context} : ChecksAll Γ [] []
  | cons {Γ : Context} {s : Stmt NodeId} {ss : List (Stmt NodeId)} {vs ws : List Variable}
      (hs : Checks Γ s vs) (hss : ChecksAll (Γ.extend vs) ss ws) : ChecksAll Γ (s :: ss) (vs ++ ws)

end

end Stmt

/-! ### Fields, methods and sources -/

namespace Field

/-- A field is well typed and stands for a variable. A constant field has a value. -/
inductive Checks (Γ : Context) : Field NodeId → Variable → Prop
  | uninitialized {tag : NodeId} {name typeName : Text} {t : Ty} (ht : Γ.NamesType typeName t)
      (hn : Γ.NewVariable name) :
      Checks Γ ⟨tag, name, typeName, false, none⟩ ⟨name, name, t, false, .node tag⟩
  | initialized {tag : NodeId} {name typeName : Text} {constant : Bool} {value : Expr NodeId}
      {t found : Ty} (ht : Γ.NamesType typeName t) (hv : value.HasType Γ found)
      (ha : Assignable t found) (hn : Γ.NewVariable name) :
      Checks Γ ⟨tag, name, typeName, constant, some value⟩ ⟨name, name, t, constant, .node tag⟩

/-- Fields are well typed, each in the context that the ones before it extend. -/
inductive ChecksAll : Context → List (Field NodeId) → List Variable → Prop
  | nil {Γ : Context} : ChecksAll Γ [] []
  | cons {Γ : Context} {d : Field NodeId} {ds : List (Field NodeId)} {v : Variable}
      {vs : List Variable} (hd : Checks Γ d v) (hds : ChecksAll (Γ.extend [v]) ds vs) :
      ChecksAll Γ (d :: ds) (v :: vs)

end Field

namespace Method

/-- The type that a method returns. -/
inductive Returns (Γ : Context) : Option Text → Ty → Prop
  | nothing : Returns Γ none .nil
  | named {name : Text} {t : Ty} (h : Γ.NamesType name t) : Returns Γ (some name) t

/-- A method is well typed and stands for a function, which its body sees. -/
inductive Checks (Γ : Context) : Method NodeId → Function → Prop
  | intro {m : Method NodeId} {ps : List Ty} {t : Ty} {f : Function} {vs : List Variable}
      (hl : m.parameters.length = m.parameterTypes.length)
      (hp : List.Forall₂ Γ.NamesType m.parameterTypes ps) (ht : Returns Γ m.returnType t)
      (hf : f = ⟨m.name, m.name, ps, t, .node m.tag⟩) (hn : Γ.NewFunction m.name ps.length)
      (hd : m.parameters.Nodup)
      (hb : Stmt.ChecksAll
        ((Γ.define f).body (parameterVariables m.tag 0 (m.parameters.zip ps)) t) m.body vs) :
      Checks Γ m f

/-- Methods are well typed, each in the context that the ones before it extend. -/
inductive ChecksAll : Context → List (Method NodeId) → List Function → Prop
  | nil {Γ : Context} : ChecksAll Γ [] []
  | cons {Γ : Context} {m : Method NodeId} {ms : List (Method NodeId)} {f : Function}
      {fs : List Function} (hm : Checks Γ m f) (hms : ChecksAll (Γ.define f) ms fs) :
      ChecksAll Γ (m :: ms) (f :: fs)

end Method

/-- A source is well typed: its fields and then its methods are, and it has a function to start
with. -/
inductive Source.Checks (Γ : Context) : Source NodeId → Prop
  | intro {s : Source NodeId} {vs : List Variable} {fs : List Function} {start : Function}
      (hf : Field.ChecksAll Γ s.fields vs) (hm : Method.ChecksAll (Γ.extend vs) s.methods fs)
      (hs : (fs.foldl Context.define (Γ.extend vs)).HasFunction "main" 0 start)
      (hr : start.returns = .integer) : Checks Γ s

/-- A tree of any kind is well typed. -/
inductive Node.Checks (Γ : Context) : Node NodeId → Prop
  | source {s : Source NodeId} (h : s.Checks Γ) : Checks Γ (.source s)
  | field {d : Field NodeId} {v : Variable} (h : d.Checks Γ v) : Checks Γ (.field d)
  | method {m : Method NodeId} {f : Function} (h : m.Checks Γ f) : Checks Γ (.method m)
  | stmt {s : Stmt NodeId} {vs : List Variable} (h : s.Checks Γ vs) : Checks Γ (.stmt s)
  | expr {e : Expr NodeId} {t : Ty} (h : e.HasType Γ t) : Checks Γ (.expr e)

end TreeCheck
