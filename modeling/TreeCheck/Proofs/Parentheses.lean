import TreeCheck.Proofs.Runs

/-!
# Parentheses

Putting a binary expression into a group changes nothing but that the group gets a type of its own,
that of the expression. It stands everywhere where an expression may stand: the places that ask for
the kind of an expression ask for a call or an access, which neither a binary expression nor a group
is, or for the binary expression in a group, which is not put into a second one.
-/

namespace TreeCheck

variable {α : Type} (k g : NodeId)

/-! ### A group around one expression -/

namespace Expr

mutual

/-- Put the binary expression of identity `k` into a group of identity `g`. -/
def parenthesize : Expr NodeId → Expr NodeId
  | literal tag value => literal tag value
  | group tag inner => group tag inner.parenthesize
  | binary tag operator left right =>
    if tag = k then group g (binary tag operator left.parenthesize right.parenthesize)
    else binary tag operator left.parenthesize right.parenthesize
  | access tag none name => access tag none name
  | access tag (some receiver) name => access tag (some receiver.parenthesize) name
  | call tag none name arguments => call tag none name (parenthesizeAll arguments)
  | call tag (some receiver) name arguments =>
    call tag (some receiver.parenthesize) name (parenthesizeAll arguments)

/-- Put the binary expression into a group if it is in a list of expressions. -/
def parenthesizeAll : List (Expr NodeId) → List (Expr NodeId)
  | [] => []
  | e :: es => e.parenthesize :: parenthesizeAll es

end

/-- Put the binary expression into a group if it is in an expression that may be absent. -/
def parenthesizeOption : Option (Expr NodeId) → Option (Expr NodeId)
  | none => none
  | some e => some (e.parenthesize k g)

end Expr

namespace Stmt

mutual

/-- Put the binary expression into a group if it is in a statement. -/
def parenthesize : Stmt NodeId → Stmt NodeId
  | expression tag e => expression tag (e.parenthesize k g)
  | declaration tag name typeName value =>
    declaration tag name typeName (Expr.parenthesizeOption k g value)
  | assignment tag receiver value =>
    assignment tag (receiver.parenthesize k g) (value.parenthesize k g)
  | ifElse tag condition thenBody elseBody =>
    ifElse tag (condition.parenthesize k g) (parenthesizeAll thenBody) (parenthesizeAll elseBody)
  | forLoop tag initialization condition increment body =>
    forLoop tag (parenthesizeOption initialization) (condition.parenthesize k g)
      (parenthesizeOption increment) (parenthesizeAll body)
  | whileLoop tag condition body =>
    whileLoop tag (condition.parenthesize k g) (parenthesizeAll body)
  | ret tag value => ret tag (value.parenthesize k g)

/-- Put the binary expression into a group if it is in a list of statements. -/
def parenthesizeAll : List (Stmt NodeId) → List (Stmt NodeId)
  | [] => []
  | s :: ss => s.parenthesize :: parenthesizeAll ss

/-- Put the binary expression into a group if it is in a statement that may be absent. -/
def parenthesizeOption : Option (Stmt NodeId) → Option (Stmt NodeId)
  | none => none
  | some s => some s.parenthesize

end

end Stmt

/-- Put the binary expression into a group if it is in a field. -/
def Field.parenthesize (d : Field NodeId) : Field NodeId :=
  { d with value := Expr.parenthesizeOption k g d.value }

/-- Put the binary expression into a group if it is in a method. -/
def Method.parenthesize (m : Method NodeId) : Method NodeId :=
  { m with body := Stmt.parenthesizeAll k g m.body }

/-- Put the binary expression into a group if it is in a source. -/
def Source.parenthesize (s : Source NodeId) : Source NodeId :=
  { s with
    fields := s.fields.map (Field.parenthesize k g)
    methods := s.methods.map (Method.parenthesize k g) }

/-- Put the binary expression of identity `k` into a group of identity `g`. -/
def Node.parenthesize : Node NodeId → Node NodeId
  | source s => source (s.parenthesize k g)
  | field d => field (d.parenthesize k g)
  | method m => method (m.parenthesize k g)
  | stmt s => stmt (s.parenthesize k g)
  | expr e => expr (e.parenthesize k g)

/-- The identities that come for one: a group comes before the expression in it. -/
def withGroup (id : NodeId) : List NodeId := if id = k then [g, id] else [id]

/-- The entries with a group: its type is that of the expression in it. -/
def Resolutions.parenthesize (r : Resolutions) : Resolutions :=
  { r with types := r.types.flatMap fun p ↦ (withGroup k g p.1).map fun id ↦ (id, p.2) }

/-- If the node has the identity `k` then it is a binary expression, and it is no group around the
expression of that identity. -/
structure Node.Bare (node : Node NodeId) : Prop where
  binary : node.tag = k → node.kind = .binary
  ungrouped : ∀ tag inner, node = .expr (.group tag inner) → inner.tag ≠ k

variable {k g}

private theorem Node.Bare.tag_ne {node : Node NodeId} (h : node.Bare k)
    (hkind : node.kind ≠ .binary) :
    node.tag ≠ k := fun he ↦ hkind (h.binary he)

/-! ### Entries with a group -/

namespace Resolutions

private theorem parenthesize_append (d e : Resolutions) :
    (d ++ e).parenthesize k g = d.parenthesize k g ++ e.parenthesize k g := by
  change Resolutions.mk (List.flatMap _ (d.types ++ e.types)) _ = _
  rw [List.flatMap_append]
  rfl

private theorem parenthesize_ofType_self (t : Ty) :
    (ofType k t).parenthesize k g = ofType g t ++ ofType k t := by
  change Resolutions.mk _ _ = Resolutions.mk _ _
  simp [ofType, withGroup]

private theorem parenthesize_ofType {id : NodeId} (h : id ≠ k) (t : Ty) :
    (ofType id t).parenthesize k g = ofType id t := by
  simp [ofType, parenthesize, withGroup, h]

private theorem parenthesize_ofBinding (id : NodeId) (b : Binding) :
    (ofBinding id b).parenthesize k g = ofBinding id b := rfl

private theorem parenthesize_ofBound {id : NodeId} (h : id ≠ k) (b : Binding) (t : Ty) :
    (ofBound id b t).parenthesize k g = ofBound id b t := by
  rw [ofBound, parenthesize_append, parenthesize_ofType h, parenthesize_ofBinding]

end Resolutions

open Resolutions (parenthesize_append parenthesize_ofType_self parenthesize_ofType
  parenthesize_ofBinding parenthesize_ofBound)

/-- What elaboration finds, with the entry of a group. -/
def Findings.parenthesize (k g : NodeId) (p : α × Resolutions) : α × Resolutions :=
  (p.1, p.2.parenthesize k g)

/-! ### Expressions -/

namespace Expr

private theorem kind_parenthesize {e : Expr NodeId} {kind : Kind} (hb : kind ≠ .binary)
    (hg : kind ≠ .group) : (e.parenthesize k g).kind = kind ↔ e.kind = kind := by
  cases e with
  | literal _ _ => rfl
  | group _ _ => rfl
  | binary tag _ _ _ =>
    rw [parenthesize]
    split
    · exact iff_of_false hg.symm hb.symm
    · rfl
  | access _ receiver _ => cases receiver <;> rfl
  | call _ receiver _ _ => cases receiver <;> rfl

private theorem kind_parenthesize_of_ne {e : Expr NodeId} (h : e.tag ≠ k) :
    (e.parenthesize k g).kind = e.kind := by
  cases e with
  | literal _ _ => rfl
  | group _ _ => rfl
  | binary tag _ _ _ =>
    have htag : tag ≠ k := h
    rw [parenthesize, if_neg htag]
    rfl
  | access _ receiver _ => cases receiver <;> rfl
  | call _ receiver _ _ => cases receiver <;> rfl

/-- Parentheses keep the number of expressions. -/
@[simp] theorem length_parenthesizeAll (es : List (Expr NodeId)) :
    (parenthesizeAll k g es).length = es.length := by
  induction es with
  | nil => rfl
  | cons e es ih => simp [parenthesizeAll, ih]

variable {scopes : Scopes} {chain : Chain}

/-- A group of a binary expression adds its own type to what is found. -/
theorem elaborate_group_binary (tag id : NodeId) (operator : Text) (left right : Expr NodeId) :
    (group tag (binary id operator left right)).elaborate scopes chain = do
      let (t, d) ← (binary id operator left right).elaborate scopes chain
      return (t, .ofType tag t ++ d) := by
  rw [elaborate]
  rfl

mutual

/-- An expression with a group inside has the same type, and the group has that of the expression
in it. -/
theorem elaborate_parenthesize (e : Expr NodeId) (h : ∀ node ∈ e.nodes, node.Bare k) :
    (e.parenthesize k g).elaborate scopes chain =
      Findings.parenthesize k g <$> e.elaborate scopes chain := by
  match e with
  | literal tag value =>
    have htag : tag ≠ k := (h _ List.mem_cons_self).tag_ne (by rintro ⟨⟩)
    simp only [parenthesize, elaborate, map_bind, map_pure, Findings.parenthesize,
      parenthesize_ofType htag]
  | group tag inner =>
    rw [nodes, List.forall_mem_cons] at h
    have htag : tag ≠ k := h.1.tag_ne (by rintro ⟨⟩)
    simp only [parenthesize, elaborate, map_bind, map_pure, bind_map_left, Findings.parenthesize,
      kind_parenthesize_of_ne (h.1.ungrouped tag inner rfl), elaborate_parenthesize inner h.2,
      parenthesize_append, parenthesize_ofType htag]
  | binary tag operator left right =>
    rw [nodes, List.forall_mem_cons, List.forall_mem_append] at h
    by_cases htag : tag = k
    · rw [parenthesize, if_pos htag, elaborate_group_binary]
      simp only [htag, elaborate, map_bind, map_pure, bind_map_left, bind_assoc, pure_bind,
        Findings.parenthesize, elaborate_parenthesize left h.2.1,
        elaborate_parenthesize right h.2.2, parenthesize_append, parenthesize_ofType_self,
        Resolutions.append_assoc]
    · simp only [parenthesize, elaborate, map_bind, map_pure, bind_map_left, Findings.parenthesize,
        if_neg htag, elaborate_parenthesize left h.2.1, elaborate_parenthesize right h.2.2,
        parenthesize_append, parenthesize_ofType htag]
  | access tag none name =>
    have htag : tag ≠ k := (h _ List.mem_cons_self).tag_ne (by rintro ⟨⟩)
    simp only [parenthesize, elaborate, map_bind, map_pure, Findings.parenthesize,
      parenthesize_ofBound htag]
  | access tag (some receiver) name =>
    rw [nodes, List.forall_mem_cons] at h
    have htag : tag ≠ k := h.1.tag_ne (by rintro ⟨⟩)
    simp only [parenthesize, elaborate, map_bind, map_pure, bind_map_left, Findings.parenthesize,
      elaborate_parenthesize receiver h.2, parenthesize_append, parenthesize_ofBound htag]
  | call tag none name arguments =>
    rw [nodes, List.forall_mem_cons] at h
    have htag : tag ≠ k := h.1.tag_ne (by rintro ⟨⟩)
    simp only [parenthesize, elaborate, map_bind, map_pure, bind_map_left, Findings.parenthesize,
      elaborateAll_parenthesize arguments h.2, length_parenthesizeAll, parenthesize_append,
      parenthesize_ofBound htag]
  | call tag (some receiver) name arguments =>
    rw [nodes, List.forall_mem_cons, List.forall_mem_append] at h
    have htag : tag ≠ k := h.1.tag_ne (by rintro ⟨⟩)
    simp only [parenthesize, elaborate, map_bind, map_pure, bind_map_left, Findings.parenthesize,
      elaborateAll_parenthesize arguments h.2.2, elaborate_parenthesize receiver h.2.1,
      length_parenthesizeAll, parenthesize_append, parenthesize_ofBound htag]

private theorem elaborateAll_parenthesize (es : List (Expr NodeId))
    (h : ∀ node ∈ nodesAll es, node.Bare k) :
    elaborateAll scopes chain (parenthesizeAll k g es) =
      Findings.parenthesize k g <$> elaborateAll scopes chain es := by
  match es with
  | [] => rfl
  | e :: es =>
    rw [nodesAll, List.forall_mem_append] at h
    simp only [parenthesizeAll, elaborateAll, map_bind, map_pure, bind_map_left,
      Findings.parenthesize, elaborate_parenthesize e h.1, elaborateAll_parenthesize es h.2,
      parenthesize_append]

end

/-- A group is no target of an assignment, and neither is the expression in it. -/
theorem elaborateTarget_parenthesize (e : Expr NodeId) (h : ∀ node ∈ e.nodes, node.Bare k) :
    (e.parenthesize k g).elaborateTarget scopes chain =
      Findings.parenthesize k g <$> e.elaborateTarget scopes chain := by
  match e with
  | access tag none name =>
    have htag : tag ≠ k := (h _ List.mem_cons_self).tag_ne (by rintro ⟨⟩)
    simp only [parenthesize, elaborateTarget, map_bind, map_pure, Findings.parenthesize,
      parenthesize_ofBound htag]
  | access tag (some receiver) name =>
    rw [nodes, List.forall_mem_cons] at h
    have htag : tag ≠ k := h.1.tag_ne (by rintro ⟨⟩)
    simp only [parenthesize, elaborateTarget, map_bind, map_pure, bind_map_left,
      Findings.parenthesize, elaborate_parenthesize receiver h.2, parenthesize_append,
      parenthesize_ofBound htag]
  | literal _ _ => rfl
  | group _ _ => rfl
  | binary tag _ _ _ =>
    rw [parenthesize]
    split <;> rfl
  | call _ none _ _ => rfl
  | call _ (some _) _ _ => rfl

end Expr

/-! ### Statements -/

private theorem Rules.require_congr {p q : Prop} [Decidable p] [Decidable q] (h : p ↔ q)
    (e : ProgramError) : require p e = require q e := by
  unfold require
  by_cases hp : p
  · rw [if_pos hp, if_pos (h.mp hp)]
  · rw [if_neg hp, if_neg (h.not.mp hp)]

namespace ElabM

variable {β : Type}

private theorem map_of_ok {f : α → β} {x : ElabM α} {a : α} {b b' : Block} (h : x b = .ok a b') :
    (f <$> x) b = .ok (f a) b' := by
  change EStateM.map f x b = _
  rw [EStateM.map, h]

private theorem map_of_error {f : α → β} {x : ElabM α} {e : ProgramError} {b b' : Block}
    (h : x b = .error e b') : (f <$> x) b = .error e b' := by
  change EStateM.map f x b = _
  rw [EStateM.map, h]

private theorem obey_map (f : α → β) (x : Except ProgramError α) :
    obey (f <$> x) = f <$> obey x := by
  funext b
  cases x <;> rfl

private theorem within_map (f : α → β) (block : Block) (x : ElabM α) :
    within block (f <$> x) = f <$> within block x := by
  funext b
  change within block (EStateM.map f x) b = EStateM.map f (within block x) b
  unfold within EStateM.map
  cases x block <;> rfl

end ElabM

namespace Env

variable (env : Env)

private theorem elaborateNested_map {β : Type} (f : α → β) (x : Env → ElabM α) :
    (env.elaborateNested fun inner ↦ f <$> x inner) = f <$> env.elaborateNested x := by
  unfold elaborateNested
  rw [map_bind]
  simp only [ElabM.within_map]

private theorem elaborate_parenthesize {e : Expr NodeId} (h : ∀ node ∈ e.nodes, node.Bare k) :
    env.elaborate (e.parenthesize k g) = Findings.parenthesize k g <$> env.elaborate e := by
  unfold elaborate
  simp only [map_bind, Expr.elaborate_parenthesize e h, ElabM.obey_map]

private theorem elaborateOption_parenthesize {e : Option (Expr NodeId)}
    (h : ∀ node ∈ Expr.nodesOption e, node.Bare k) :
    env.elaborateOption (Expr.parenthesizeOption k g e) =
      Findings.parenthesize k g <$> env.elaborateOption e := by
  cases e with
  | none => rfl
  | some e =>
    simp only [Expr.parenthesizeOption, elaborateOption, map_bind, map_pure, bind_map_left,
      Findings.parenthesize, env.elaborate_parenthesize h]

private theorem elaborateCondition_parenthesize (construct : Construct) {e : Expr NodeId}
    (h : ∀ node ∈ e.nodes, node.Bare k) :
    env.elaborateCondition construct (e.parenthesize k g) =
      Resolutions.parenthesize k g <$> env.elaborateCondition construct e := by
  simp only [elaborateCondition, map_bind, map_pure, bind_map_left, Findings.parenthesize,
    env.elaborate_parenthesize h]
  rfl

end Env

namespace Stmt

/-- Parentheses make no list of statements empty. -/
@[simp] theorem parenthesizeAll_eq_nil_iff (ss : List (Stmt NodeId)) :
    parenthesizeAll k g ss = [] ↔ ss = [] := by
  cases ss <;> simp [parenthesizeAll]

private theorem requireStep_parenthesize (control : Option Ty) (s : Stmt NodeId) (set : Option Ty) :
    requireStep control (s.parenthesize k g) set = requireStep control s set := by
  cases s <;> cases control <;> cases set <;> rfl

mutual

/-- A statement with a group inside is checked alike. -/
theorem elaborate_parenthesize (env : Env) (s : Stmt NodeId) (h : ∀ node ∈ s.nodes, node.Bare k) :
    (s.parenthesize k g).elaborate env = Findings.parenthesize k g <$> s.elaborate env := by
  match s with
  | expression tag e =>
    rw [nodes, List.forall_mem_cons] at h
    have hkind : Rules.require ((e.parenthesize k g).kind = .call) .statementNotACall =
        Rules.require (e.kind = .call) .statementNotACall :=
      Rules.require_congr (Expr.kind_parenthesize (by decide) (by decide)) _
    simp only [parenthesize, elaborate, map_bind, map_pure, bind_map_left, Findings.parenthesize,
      hkind, env.elaborate_parenthesize h.2]
  | declaration tag name typeName value =>
    rw [nodes, List.forall_mem_cons] at h
    simp only [parenthesize, elaborate, elaborateDeclaration, map_bind, map_pure, bind_map_left,
      Findings.parenthesize, env.elaborateOption_parenthesize h.2, parenthesize_append,
      parenthesize_ofBinding]
  | assignment tag receiver value =>
    rw [nodes, List.forall_mem_cons, List.forall_mem_append] at h
    simp only [parenthesize, elaborate, elaborateAssignment, map_bind, map_pure, bind_map_left,
      Findings.parenthesize, Expr.elaborateTarget_parenthesize receiver h.2.1, ElabM.obey_map,
      env.elaborate_parenthesize h.2.2, parenthesize_append]
    rfl
  | ifElse tag condition thenBody elseBody =>
    rw [nodes, List.forall_mem_cons, List.forall_mem_append, List.forall_mem_append] at h
    simp only [parenthesize, elaborate, map_bind, map_pure, bind_map_left, Findings.parenthesize,
      ne_eq, parenthesizeAll_eq_nil_iff, env.elaborateCondition_parenthesize _ h.2.1.1,
      elaborateAll_parenthesize _ thenBody h.2.1.2, elaborateAll_parenthesize _ elseBody h.2.2,
      Env.elaborateNested_map, parenthesize_append]
  | forLoop tag initialization condition increment body =>
    rw [nodes, List.forall_mem_cons, List.forall_mem_append, List.forall_mem_append,
      List.forall_mem_append] at h
    obtain ⟨_, ⟨⟨hfirst, hcondition⟩, hstep⟩, hbody⟩ := h
    simp only [parenthesize, elaborate, map_bind, map_pure, bind_map_left, Findings.parenthesize,
      ne_eq, parenthesizeAll_eq_nil_iff, elaborateFirst_parenthesize env initialization hfirst,
      env.elaborateCondition_parenthesize _ hcondition,
      elaborateStep_parenthesize env _ increment hstep, elaborateAll_parenthesize _ body hbody,
      Env.elaborateNested_map, parenthesize_append]
  | whileLoop tag condition body =>
    rw [nodes, List.forall_mem_cons, List.forall_mem_append] at h
    simp only [parenthesize, elaborate, map_bind, map_pure, bind_map_left, Findings.parenthesize,
      env.elaborateCondition_parenthesize _ h.2.1, elaborateAll_parenthesize _ body h.2.2,
      Env.elaborateNested_map, parenthesize_append]
  | ret tag value =>
    rw [nodes, List.forall_mem_cons] at h
    simp only [parenthesize, elaborate, map_bind, map_pure, bind_map_left, Findings.parenthesize,
      env.elaborate_parenthesize h.2]

private theorem elaborateFirst_parenthesize (env : Env) (s : Option (Stmt NodeId))
    (h : ∀ node ∈ nodesOption s, node.Bare k) :
    elaborateFirst env (parenthesizeOption k g s) =
      Findings.parenthesize k g <$> elaborateFirst env s := by
  match s with
  | none => rfl
  | some s =>
    simp only [parenthesizeOption, elaborateFirst, map_bind, map_pure, bind_map_left,
      Findings.parenthesize, elaborate_parenthesize env s h]

private theorem elaborateStep_parenthesize (env : Env) (control : Option Ty)
    (s : Option (Stmt NodeId)) (h : ∀ node ∈ nodesOption s, node.Bare k) :
    elaborateStep env control (parenthesizeOption k g s) =
      Resolutions.parenthesize k g <$> elaborateStep env control s := by
  match s with
  | none => rfl
  | some s =>
    simp only [parenthesizeOption, elaborateStep, map_bind, map_pure, bind_map_left,
      Findings.parenthesize, elaborate_parenthesize env s h, requireStep_parenthesize]

private theorem elaborateAll_parenthesize (env : Env) (ss : List (Stmt NodeId))
    (h : ∀ node ∈ nodesAll ss, node.Bare k) :
    elaborateAll env (parenthesizeAll k g ss) =
      Resolutions.parenthesize k g <$> elaborateAll env ss := by
  match ss with
  | [] => rfl
  | s :: ss =>
    rw [nodesAll, List.forall_mem_append] at h
    simp only [parenthesizeAll, elaborateAll, map_bind, map_pure, bind_map_left,
      Findings.parenthesize, elaborate_parenthesize env s h.1,
      elaborateAll_parenthesize env ss h.2, parenthesize_append]

end

end Stmt

/-! ### Fields, methods and sources -/

private theorem Field.elaborate_parenthesize (env : Env) (d : Field NodeId)
    (h : ∀ node ∈ d.nodes, node.Bare k) :
    (d.parenthesize k g).elaborate env = Resolutions.parenthesize k g <$> d.elaborate env := by
  rw [nodes, List.forall_mem_cons] at h
  have hvalue (t : Ty) (found : Option Ty) :
      (d.parenthesize k g).requireValue t found = d.requireValue t found := by
    cases found <;> rfl
  simp only [elaborate, hvalue]
  simp only [parenthesize, map_bind, map_pure, bind_map_left, Findings.parenthesize,
    env.elaborateOption_parenthesize h.2, parenthesize_append, parenthesize_ofBinding]

private theorem Field.elaborateAll_parenthesize (env : Env) (ds : List (Field NodeId))
    (h : ∀ node ∈ ds.flatMap nodes, node.Bare k) :
    elaborateAll env (ds.map (parenthesize k g)) =
      Resolutions.parenthesize k g <$> elaborateAll env ds := by
  induction ds with
  | nil => rfl
  | cons d ds ih =>
    rw [List.flatMap_cons, List.forall_mem_append] at h
    simp only [List.map_cons, elaborateAll, map_bind, map_pure, bind_map_left,
      elaborate_parenthesize env d h.1, ih h.2, parenthesize_append]

private theorem Method.elaborate_parenthesize (env : Env) (m : Method NodeId)
    (h : ∀ node ∈ m.nodes, node.Bare k) :
    (m.parenthesize k g).elaborate env = Resolutions.parenthesize k g <$> m.elaborate env := by
  rw [nodes, List.forall_mem_cons] at h
  have hsignature (c : Catalog) : (m.parenthesize k g).signature c = m.signature c := rfl
  simp only [elaborate, hsignature]
  simp only [parenthesize, map_bind, map_pure, bind_map_left,
    Stmt.elaborateAll_parenthesize _ m.body h.2, ElabM.within_map, parenthesize_append,
    parenthesize_ofBinding]

private theorem Method.elaborateAll_parenthesize (env : Env) (ms : List (Method NodeId))
    (h : ∀ node ∈ ms.flatMap nodes, node.Bare k) :
    elaborateAll env (ms.map (parenthesize k g)) =
      Resolutions.parenthesize k g <$> elaborateAll env ms := by
  induction ms with
  | nil => rfl
  | cons m ms ih =>
    rw [List.flatMap_cons, List.forall_mem_append] at h
    simp only [List.map_cons, elaborateAll, map_bind, map_pure, bind_map_left,
      elaborate_parenthesize env m h.1, ih h.2, parenthesize_append]

/-- A tree with a group inside is elaborated alike: the group adds one entry. -/
theorem Node.elaborate_parenthesize (env : Env) (tree : Node NodeId)
    (h : ∀ node ∈ tree.nodes, node.Bare k) :
    (tree.parenthesize k g).elaborate env =
      Resolutions.parenthesize k g <$> tree.elaborate env := by
  cases tree with
  | source s =>
    rw [nodes, Source.nodes, List.forall_mem_cons, List.forall_mem_append] at h
    simp only [parenthesize, elaborate, Source.elaborate, Source.parenthesize, map_bind, map_pure,
      bind_map_left, Field.elaborateAll_parenthesize env s.fields h.2.1,
      Method.elaborateAll_parenthesize env s.methods h.2.2, parenthesize_append]
  | field d => exact d.elaborate_parenthesize env h
  | method m => exact m.elaborate_parenthesize env h
  | stmt s =>
    simp only [parenthesize, elaborate, map_bind, map_pure, bind_map_left, Findings.parenthesize,
      s.elaborate_parenthesize env h]
  | expr e =>
    simp only [parenthesize, elaborate, map_bind, map_pure, bind_map_left, Findings.parenthesize,
      env.elaborate_parenthesize h]

/-! ### Identities with a group -/

private theorem withGroup_self : withGroup k g k = [g, k] := if_pos rfl

private theorem withGroup_of_ne {id : NodeId} (h : id ≠ k) : withGroup k g id = [id] := if_neg h

/-- A node that stays as it is but for the nodes inside it. -/
theorem ids_cons_parenthesize {node node' : Node NodeId} {nodes nodes' : List (Node NodeId)}
    (hn : node'.tag = node.tag) (h : node.tag ≠ k)
    (hnodes : ids nodes' = (ids nodes).flatMap (withGroup k g)) :
    ids (node' :: nodes') = (ids (node :: nodes)).flatMap (withGroup k g) := by
  rw [ids_cons, ids_cons, List.flatMap_cons, withGroup_of_ne h, hn, hnodes]
  rfl

private theorem ids_append_parenthesize {nodes₁ nodes₂ nodes₁' nodes₂' : List (Node NodeId)}
    (h₁ : ids nodes₁' = (ids nodes₁).flatMap (withGroup k g))
    (h₂ : ids nodes₂' = (ids nodes₂).flatMap (withGroup k g)) :
    ids (nodes₁' ++ nodes₂') = (ids (nodes₁ ++ nodes₂)).flatMap (withGroup k g) := by
  rw [ids_append, ids_append, List.flatMap_append, h₁, h₂]

namespace Expr

mutual

private theorem ids_parenthesize (e : Expr NodeId) (h : ∀ node ∈ e.nodes, node.Bare k) :
    ids (e.parenthesize k g).nodes = (ids e.nodes).flatMap (withGroup k g) := by
  match e with
  | literal tag value =>
    exact ids_cons_parenthesize rfl ((h _ List.mem_cons_self).tag_ne (by rintro ⟨⟩)) rfl
  | group tag inner =>
    rw [nodes, List.forall_mem_cons] at h
    rw [parenthesize, nodes, nodes]
    exact ids_cons_parenthesize rfl (h.1.tag_ne (by rintro ⟨⟩)) (ids_parenthesize inner h.2)
  | binary tag operator left right =>
    rw [nodes, List.forall_mem_cons, List.forall_mem_append] at h
    have hinner := ids_append_parenthesize (ids_parenthesize left h.2.1)
      (ids_parenthesize right h.2.2)
    by_cases htag : tag = k
    · rw [parenthesize, if_pos htag, nodes, nodes, nodes, ids_cons, ids_cons, ids_cons, hinner,
        List.flatMap_cons]
      change _ = withGroup k g tag ++ _
      rw [htag, withGroup_self]
      rfl
    · rw [parenthesize, if_neg htag, nodes, nodes]
      exact ids_cons_parenthesize rfl htag hinner
  | access tag none name =>
    exact ids_cons_parenthesize rfl ((h _ List.mem_cons_self).tag_ne (by rintro ⟨⟩)) rfl
  | access tag (some receiver) name =>
    rw [nodes, List.forall_mem_cons] at h
    rw [parenthesize, nodes, nodes]
    exact ids_cons_parenthesize rfl (h.1.tag_ne (by rintro ⟨⟩)) (ids_parenthesize receiver h.2)
  | call tag none name arguments =>
    rw [nodes, List.forall_mem_cons] at h
    rw [parenthesize, nodes, nodes]
    exact ids_cons_parenthesize rfl (h.1.tag_ne (by rintro ⟨⟩))
      (ids_parenthesizeAll arguments h.2)
  | call tag (some receiver) name arguments =>
    rw [nodes, List.forall_mem_cons, List.forall_mem_append] at h
    rw [parenthesize, nodes, nodes]
    exact ids_cons_parenthesize rfl (h.1.tag_ne (by rintro ⟨⟩))
      (ids_append_parenthesize (ids_parenthesize receiver h.2.1)
        (ids_parenthesizeAll arguments h.2.2))

private theorem ids_parenthesizeAll (es : List (Expr NodeId))
    (h : ∀ node ∈ nodesAll es, node.Bare k) :
    ids (nodesAll (parenthesizeAll k g es)) = (ids (nodesAll es)).flatMap (withGroup k g) := by
  match es with
  | [] => rfl
  | e :: es =>
    rw [nodesAll, List.forall_mem_append] at h
    exact ids_append_parenthesize (ids_parenthesize e h.1) (ids_parenthesizeAll es h.2)

end

private theorem ids_parenthesizeOption {e : Option (Expr NodeId)}
    (h : ∀ node ∈ nodesOption e, node.Bare k) :
    ids (nodesOption (parenthesizeOption k g e)) =
      (ids (nodesOption e)).flatMap (withGroup k g) := by
  cases e with
  | none => rfl
  | some e => exact ids_parenthesize e h

end Expr

namespace Stmt

mutual

private theorem ids_parenthesize (s : Stmt NodeId) (h : ∀ node ∈ s.nodes, node.Bare k) :
    ids (s.parenthesize k g).nodes = (ids s.nodes).flatMap (withGroup k g) := by
  match s with
  | expression tag e =>
    rw [nodes, List.forall_mem_cons] at h
    rw [parenthesize, nodes, nodes]
    exact ids_cons_parenthesize rfl (h.1.tag_ne (by rintro ⟨⟩)) (e.ids_parenthesize h.2)
  | declaration tag name typeName value =>
    rw [nodes, List.forall_mem_cons] at h
    rw [parenthesize, nodes, nodes]
    exact ids_cons_parenthesize rfl (h.1.tag_ne (by rintro ⟨⟩)) (Expr.ids_parenthesizeOption h.2)
  | assignment tag receiver value =>
    rw [nodes, List.forall_mem_cons, List.forall_mem_append] at h
    rw [parenthesize, nodes, nodes]
    exact ids_cons_parenthesize rfl (h.1.tag_ne (by rintro ⟨⟩))
      (ids_append_parenthesize (receiver.ids_parenthesize h.2.1) (value.ids_parenthesize h.2.2))
  | ifElse tag condition thenBody elseBody =>
    rw [nodes, List.forall_mem_cons, List.forall_mem_append, List.forall_mem_append] at h
    rw [parenthesize, nodes, nodes]
    exact ids_cons_parenthesize rfl (h.1.tag_ne (by rintro ⟨⟩))
      (ids_append_parenthesize
        (ids_append_parenthesize (condition.ids_parenthesize h.2.1.1)
          (ids_parenthesizeAll thenBody h.2.1.2))
        (ids_parenthesizeAll elseBody h.2.2))
  | forLoop tag initialization condition increment body =>
    rw [nodes, List.forall_mem_cons, List.forall_mem_append, List.forall_mem_append,
      List.forall_mem_append] at h
    obtain ⟨hnode, ⟨⟨hfirst, hcondition⟩, hstep⟩, hbody⟩ := h
    rw [parenthesize, nodes, nodes]
    exact ids_cons_parenthesize rfl (hnode.tag_ne (by rintro ⟨⟩))
      (ids_append_parenthesize
        (ids_append_parenthesize
          (ids_append_parenthesize (ids_parenthesizeOption initialization hfirst)
            (condition.ids_parenthesize hcondition))
          (ids_parenthesizeOption increment hstep))
        (ids_parenthesizeAll body hbody))
  | whileLoop tag condition body =>
    rw [nodes, List.forall_mem_cons, List.forall_mem_append] at h
    rw [parenthesize, nodes, nodes]
    exact ids_cons_parenthesize rfl (h.1.tag_ne (by rintro ⟨⟩))
      (ids_append_parenthesize (condition.ids_parenthesize h.2.1) (ids_parenthesizeAll body h.2.2))
  | ret tag value =>
    rw [nodes, List.forall_mem_cons] at h
    rw [parenthesize, nodes, nodes]
    exact ids_cons_parenthesize rfl (h.1.tag_ne (by rintro ⟨⟩)) (value.ids_parenthesize h.2)

private theorem ids_parenthesizeAll (ss : List (Stmt NodeId))
    (h : ∀ node ∈ nodesAll ss, node.Bare k) :
    ids (nodesAll (parenthesizeAll k g ss)) = (ids (nodesAll ss)).flatMap (withGroup k g) := by
  match ss with
  | [] => rfl
  | s :: ss =>
    rw [nodesAll, List.forall_mem_append] at h
    exact ids_append_parenthesize (ids_parenthesize s h.1) (ids_parenthesizeAll ss h.2)

private theorem ids_parenthesizeOption (s : Option (Stmt NodeId))
    (h : ∀ node ∈ nodesOption s, node.Bare k) :
    ids (nodesOption (parenthesizeOption k g s)) =
      (ids (nodesOption s)).flatMap (withGroup k g) := by
  match s with
  | none => rfl
  | some s => exact ids_parenthesize s h

end

end Stmt

private theorem Field.ids_parenthesize (d : Field NodeId) (h : ∀ node ∈ d.nodes, node.Bare k) :
    ids (d.parenthesize k g).nodes = (ids d.nodes).flatMap (withGroup k g) := by
  rw [nodes, List.forall_mem_cons] at h
  exact ids_cons_parenthesize rfl (h.1.tag_ne (by rintro ⟨⟩)) (Expr.ids_parenthesizeOption h.2)

private theorem Method.ids_parenthesize (m : Method NodeId) (h : ∀ node ∈ m.nodes, node.Bare k) :
    ids (m.parenthesize k g).nodes = (ids m.nodes).flatMap (withGroup k g) := by
  rw [nodes, List.forall_mem_cons] at h
  exact ids_cons_parenthesize rfl (h.1.tag_ne (by rintro ⟨⟩)) (Stmt.ids_parenthesizeAll _ h.2)

/-- Nodes of parts that are listed one after another. -/
theorem ids_flatMap_parenthesize {f : α → List (Node NodeId)} {change : α → α} {xs : List α}
    (hf : ∀ x, (∀ node ∈ f x, node.Bare k) →
      ids (f (change x)) = (ids (f x)).flatMap (withGroup k g))
    (h : ∀ node ∈ xs.flatMap f, node.Bare k) :
    ids ((xs.map change).flatMap f) = (ids (xs.flatMap f)).flatMap (withGroup k g) := by
  induction xs with
  | nil => rfl
  | cons x xs ih =>
    rw [List.flatMap_cons, List.forall_mem_append] at h
    rw [List.map_cons, List.flatMap_cons, List.flatMap_cons]
    exact ids_append_parenthesize (hf x h.1) (ih h.2)

/-- The group is one more node. -/
theorem Node.ids_parenthesize (tree : Node NodeId) (h : ∀ node ∈ tree.nodes, node.Bare k) :
    ids (tree.parenthesize k g).nodes = (ids tree.nodes).flatMap (withGroup k g) := by
  cases tree with
  | source s =>
    rw [nodes, Source.nodes, List.forall_mem_cons, List.forall_mem_append] at h
    exact ids_cons_parenthesize rfl (h.1.tag_ne (by rintro ⟨⟩))
      (ids_append_parenthesize (ids_flatMap_parenthesize Field.ids_parenthesize h.2.1)
        (ids_flatMap_parenthesize Method.ids_parenthesize h.2.2))
  | field d => exact d.ids_parenthesize h
  | method m => exact m.ids_parenthesize h
  | stmt s => exact s.ids_parenthesize h
  | expr e => exact e.ids_parenthesize h

private theorem mem_withGroup {id j : NodeId} : j ∈ withGroup k g id ↔ j = id ∨ id = k ∧ j = g := by
  by_cases h : id = k
  · rw [h, withGroup_self]
    simp [or_comm]
  · rw [withGroup_of_ne h]
    simp [h]

/-- A group of a new identity leaves identities distinct. -/
theorem nodup_flatMap_withGroup {l : List NodeId} (h : l.Nodup) (hg : g ∉ l) :
    (l.flatMap (withGroup k g)).Nodup := by
  rw [List.nodup_flatMap]
  constructor
  · intro id hid
    by_cases hk : id = k
    · rw [hk, withGroup_self]
      have hne : g ≠ k := fun he ↦ hg (he ▸ hk ▸ hid)
      simp [hne]
    · rw [withGroup_of_ne hk]
      exact List.nodup_singleton id
  · refine h.imp_of_mem fun {a b} ha hb hab j hja hjb ↦ ?_
    rcases mem_withGroup.mp hja with rfl | ⟨hak, rfl⟩
    · rcases mem_withGroup.mp hjb with rfl | ⟨_, rfl⟩
      · exact hab rfl
      · exact hg ha
    · rcases mem_withGroup.mp hjb with rfl | ⟨hbk, _⟩
      · exact hg hb
      · exact hab (hak.trans hbk.symm)

/-! ### Reading a table with a group -/

namespace Resolutions

variable {r : Resolutions}

/-- The group does not change what is found about other nodes. -/
theorem type?_parenthesize {j : NodeId} (h : j ≠ g) :
    (r.parenthesize k g).type? j = r.type? j := by
  unfold type? parenthesize
  dsimp only
  induction r.types with
  | nil => rfl
  | cons p rest ih =>
    rw [List.flatMap_cons, List.lookup_append, ih, List.lookup_cons]
    by_cases hp : p.1 = k
    · rw [hp, withGroup_self]
      simp only [List.map_cons, List.map_nil, List.lookup_cons, List.lookup_nil,
        beq_false_of_ne h]
      cases j == k <;> rfl
    · rw [withGroup_of_ne hp]
      simp only [List.map_cons, List.map_nil, List.lookup_cons, List.lookup_nil]
      cases j == p.1 <;> rfl

/-- The group has the type of the expression in it. -/
theorem type?_parenthesize_group (h : r.type? g = none) :
    (r.parenthesize k g).type? g = r.type? k := by
  unfold type? at h ⊢
  unfold parenthesize
  dsimp only
  generalize r.types = types at h ⊢
  induction types with
  | nil => rfl
  | cons p rest ih =>
    rw [List.lookup_cons] at h
    have hgp : (g == p.1) = false := by
      cases hgp : g == p.1 with
      | false => rfl
      | true => rw [hgp] at h; cases h
    rw [hgp] at h
    rw [List.flatMap_cons, List.lookup_append, ih h, List.lookup_cons]
    by_cases hp : p.1 = k
    · rw [hp, withGroup_self]
      simp
    · rw [withGroup_of_ne hp, beq_false_of_ne (Ne.symm hp)]
      simp only [List.map_cons, List.map_nil, List.lookup_cons, List.lookup_nil, hgp,
        Option.none_or]

/-- There is one more entry for each entry of the expression in the group. -/
theorem size_parenthesize :
    (r.parenthesize k g).size = r.size + (r.types.map Prod.fst).count k := by
  have hlength : (r.parenthesize k g).types.length =
      r.types.length + (r.types.map Prod.fst).count k := by
    unfold parenthesize
    dsimp only
    induction r.types with
    | nil => rfl
    | cons p rest ih =>
      rw [List.flatMap_cons, List.length_append, ih, List.map_cons, List.length_map]
      by_cases hp : p.1 = k
      · rw [hp, withGroup_self, List.count_cons_self, List.length_cons, List.length_cons]
        simp only [List.length_cons, List.length_nil]
        omega
      · rw [withGroup_of_ne hp, List.count_cons_of_ne hp, List.length_cons]
        simp only [List.length_cons, List.length_nil]
        omega
  unfold size
  rw [hlength]
  exact Nat.add_right_comm _ _ _

end Resolutions

namespace Symbols

/-- A node of a labelled tree is told by its identity. -/
theorem bare_of_mem {tree : Node α} {n : NodeId} {operator : Text} {left right : Expr NodeId}
    (hk : .expr (.binary k operator left right) ∈ (tree.label n).nodes)
    (hgroup : ∀ tag inner, .expr (.group tag inner) ∈ (tree.label n).nodes → inner.tag ≠ k) :
    ∀ node ∈ (tree.label n).nodes, node.Bare k := by
  intro node hnode
  constructor
  · intro htag
    have he := List.inj_on_of_nodup_map (Node.nodup_ids_label n tree) hnode hk htag
    rw [he]
    rfl
  · rintro tag inner rfl
    exact hgroup tag inner hnode

/-- Parentheses are transparent. If a binary expression that stands in no group is put into one,
then the analysis leaves the same symbols, and it fails with the same error or succeeds as before.
If it succeeds, then all nodes have the types and bindings that they had, and the only new entry is
the type of the group, which is that of the expression in it. -/
theorem parentheses_are_transparent (s : Symbols) (parent : Option ScopeId) (tree : Node α)
    (n k g : NodeId) (operator : Text) (left right : Expr NodeId)
    (hk : .expr (.binary k operator left right) ∈ (tree.label n).nodes)
    (hgroup : ∀ tag inner, .expr (.group tag inner) ∈ (tree.label n).nodes → inner.tag ≠ k)
    (hg : g ∉ ids (tree.label n).nodes) :
    (s.analyze parent ((tree.label n).parenthesize k g)).symbols =
        (s.analyze parent (tree.label n)).symbols ∧
      (s.analyze parent ((tree.label n).parenthesize k g)).scope =
        (s.analyze parent (tree.label n)).scope ∧
      (∀ e, (s.analyze parent ((tree.label n).parenthesize k g)).result = .error e ↔
        (s.analyze parent (tree.label n)).result = .error e) ∧
      ∀ r, (s.analyze parent (tree.label n)).result = .ok r →
        ∃ r', (s.analyze parent ((tree.label n).parenthesize k g)).result = .ok r' ∧
          (∀ id, id ≠ g → r'.type? id = r.type? id) ∧
          (∀ id, r'.binding? id = r.binding? id) ∧
          (∃ t, r.type? k = some t ∧ r'.type? g = some t) ∧
          r.type? g = none ∧ r'.size = r.size + 1 := by
  have hbare := bare_of_mem hk hgroup
  have hn := Node.nodup_ids_label n tree
  have hn' : (ids ((tree.label n).parenthesize k g).nodes).Nodup := by
    rw [Node.ids_parenthesize _ hbare]
    exact nodup_flatMap_withGroup hn hg
  rw [analyze_eq_elaborate hn', Node.elaborate_parenthesize (s.top parent) _ hbare]
  cases h : (tree.label n).elaborate (s.top parent) s.topBlock with
  | error e b =>
    rw [analyze_eq_elaborate hn, h, ElabM.map_of_error h]
    exact ⟨rfl, rfl, fun _ ↦ Iff.rfl, by rintro r ⟨⟩⟩
  | ok d b =>
    have hc : d.Covers (tree.label n).nodes := Node.covers_of_elaborate h
    rw [analyze_eq_elaborate hn, h, ElabM.map_of_ok h]
    refine ⟨rfl, rfl, fun e ↦ ⟨by rintro ⟨⟩, by rintro ⟨⟩⟩, ?_⟩
    rintro r ⟨⟩
    have hgroupless : d.type? g = none := (hc.silent hg).1
    obtain ⟨t, ht⟩ := Option.isSome_iff_exists.mp (hc.type?_isSome_iff.mpr ⟨_, hk, rfl, rfl⟩)
    refine ⟨d.parenthesize k g, rfl, fun id hid ↦ Resolutions.type?_parenthesize hid,
      fun _ ↦ rfl, ⟨t, ht, ?_⟩, hgroupless, ?_⟩
    · exact (Resolutions.type?_parenthesize_group hgroupless).trans ht
    · rw [Resolutions.size_parenthesize, hc.types.count_eq, List.count_eq_one_of_mem]
      · exact hn.sublist (List.filter_sublist.map _)
      · exact Resolutions.mem_ids_filter.mpr ⟨_, hk, rfl, rfl⟩

end Symbols

/-- A program with a sum in a group and a sum that is an operand of a product. -/
def sums : Node Unit :=
  .source ⟨(), [], [⟨(), "main", [], [], some "Integer",
    [.expression () (.call () none "print"
        [.group () (.binary () "+" (.literal () (.integer 1)) (.literal () (.integer 2)))]),
      .ret () (.binary () "*"
        (.binary () "+" (.literal () (.integer 1)) (.literal () (.integer 2)))
        (.literal () (.integer 3)))]⟩]⟩

/-- Parentheses around a sum get its type and add one entry to the table. -/
theorem sums_parenthesized :
    (sums.label 0).parenthesize 10 14 =
        .source ⟨0, [], [⟨1, "main", [], [], some "Integer",
          [.expression 2 (.call 3 none "print"
              [.group 4 (.binary 5 "+" (.literal 6 (.integer 1)) (.literal 7 (.integer 2)))]),
            .ret 8 (.binary 9 "*"
              (.group 14 (.binary 10 "+" (.literal 11 (.integer 1)) (.literal 12 (.integer 2))))
              (.literal 13 (.integer 3)))]⟩]⟩ ∧
      ∃ r r', (Symbols.initial.analyze none (sums.label 0)).result = .ok r ∧
        (Symbols.initial.analyze none ((sums.label 0).parenthesize 10 14)).result = .ok r' ∧
        (∃ t, r.type? 10 = some t ∧ r'.type? 14 = some t) ∧ r'.size = r.size + 1 := by
  have hok : (Symbols.initial.analyze none (sums.label 0)).result.isOk = true := by
    decide +kernel
  obtain ⟨r, hr⟩ := exists_of_isOk hok
  have hgroups : (sums.label 0).nodes.filter (fun node ↦ node.kind = .group) =
      [.expr (.group 4 (.binary 5 "+" (.literal 6 (.integer 1)) (.literal 7 (.integer 2))))] := rfl
  have hgroup (tag : NodeId) (inner : Expr NodeId)
      (h : .expr (.group tag inner) ∈ (sums.label 0).nodes) : inner.tag ≠ 10 := by
    have hmem : .expr (.group tag inner) ∈
        (sums.label 0).nodes.filter fun node ↦ node.kind = .group := List.mem_filter.mpr ⟨h, rfl⟩
    rw [hgroups] at hmem
    cases List.mem_singleton.mp hmem
    decide
  obtain ⟨_, _, _, hall⟩ := Symbols.parentheses_are_transparent .initial none sums 0 10 14 "+"
    (.literal 11 (.integer 1)) (.literal 12 (.integer 2))
    (List.mem_of_getElem? (i := 10) rfl) hgroup (by decide)
  obtain ⟨r', hr', _, _, htype, _, hsize⟩ := hall r hr
  exact ⟨rfl, r, r', hr, hr', htype, hsize⟩

end TreeCheck
