import TreeCheck.Analysis.Walk
import TreeCheck.Proofs.Histories

/-!
# What a walk leaves alone

A walk holds all scopes and could change any of them. It makes scopes, each inside the current one
or inside one that it has made, and of the scopes that were there before it changes the current one
only; the catalog stays as it is. This holds of every walk, from whatever scopes it starts and
whether it succeeds or breaks off in the middle of a nested block. The step lemma is that of a
definition in the current scope; the current scope of a nested block is one that the walk has made,
so what is defined there is no concern of anybody else.
-/

namespace TreeCheck

variable {α β ε σ : Type}

/-- Where a run ends, with success or not. -/
def endState : EStateM.Result ε σ α → σ
  | .ok _ s => s
  | .error _ s => s

/-! ### Scopes that are the same -/

namespace Scopes

variable {s t : Scopes} {id : ScopeId}

/-- The scope with an identity. -/
def scope? (s : Scopes) (id : ScopeId) : Option Scope := find? s.latestFirst id

private theorem find?_append {later l : List Scope} {id : Nat} (h : id < l.length) :
    find? (later ++ l) id = find? l id := by
  induction later with
  | nil => rfl
  | cons scope later ih =>
    have hne : id ≠ (later ++ l).length := by
      rw [List.length_append]
      omega
    rw [List.cons_append, find?, if_neg hne, ih]

private theorem eq_of_find? {l l' : List Scope} (hlen : l.length = l'.length)
    (h : ∀ id < l.length, find? l' id = find? l id) : l = l' := by
  induction l generalizing l' with
  | nil => exact (List.eq_nil_of_length_eq_zero hlen.symm).symm
  | cons scope l ih =>
    cases l' with
    | nil => cases hlen
    | cons scope' l' =>
      have hlen : l.length = l'.length := Nat.succ.inj hlen
      have hfirst := h l.length (Nat.lt_succ_self _)
      rw [find?, find?, if_pos hlen, if_pos rfl] at hfirst
      have hrest : l = l' := by
        refine ih hlen fun id hid ↦ ?_
        have hid' := h id (Nat.lt_succ_of_lt hid)
        rwa [find?, find?, if_neg (hlen ▸ Nat.ne_of_lt hid), if_neg (Nat.ne_of_lt hid)] at hid'
      rw [hrest, Option.some.inj hfirst]

/-- Scopes of which the first ones are the same have been extended. -/
private theorem suffix_of_find? {l l' : List Scope} (hlen : l.length ≤ l'.length)
    (h : ∀ id < l.length, find? l' id = find? l id) : l <:+ l' := by
  induction l' with
  | nil =>
    exact List.eq_nil_of_length_eq_zero (Nat.le_zero.mp hlen) ▸ List.suffix_rfl
  | cons scope' l' ih =>
    by_cases he : l.length = (scope' :: l').length
    · exact eq_of_find? he h ▸ List.suffix_rfl
    · have hle : l.length ≤ l'.length := by
        rw [List.length_cons] at hlen he
        omega
      refine (ih hle fun id hid ↦ ?_).trans (List.suffix_cons _ _)
      have hid' := h id hid
      rwa [find?, if_neg (Nat.ne_of_lt (Nat.lt_of_lt_of_le hid hle))] at hid'

/-- If the first scopes are the same then what is added comes in front. -/
theorem suffix_of_scope? (hsize : s.size ≤ t.size) (h : ∀ id < s.size, t.scope? id = s.scope? id) :
    s.latestFirst <:+ t.latestFirst := suffix_of_find? hsize h

/-- What is visible in a scope depends on the scopes up to it only. -/
theorem chain_congr (hs : id < s.size) (ht : id < t.size)
    (h : ∀ i ≤ id, t.scope? i = s.scope? i) : t.chain id = s.chain id := by
  -- `first` has the scopes up to `id`, with which both lists of scopes end.
  obtain ⟨first, hfirst⟩ : ∃ l, l = s.latestFirst.drop (s.size - (id + 1)) := ⟨_, rfl⟩
  have hlength : first.length = id + 1 := by
    rw [hfirst, List.length_drop]
    exact Nat.sub_sub_self hs
  have hsuffix : first <:+ s.latestFirst := hfirst ▸ List.drop_suffix _ _
  have hsuffix' : first <:+ t.latestFirst := by
    refine suffix_of_find? (hlength ▸ ht) fun i hi ↦ ?_
    obtain ⟨later, hlater⟩ := hsuffix
    have hle : i ≤ id := Nat.le_of_lt_succ (Nat.lt_of_lt_of_eq hi hlength)
    have hi' := h i hle
    unfold scope? at hi'
    rw [hi', ← hlater, find?_append hi]
  have hid : id < first.length := hlength ▸ Nat.lt_succ_self id
  exact (chain_of_suffix (s := ⟨first⟩) hsuffix' hid).trans
    (chain_of_suffix (s := ⟨first⟩) hsuffix hid).symm

private theorem scope?_setBlock_of_ne {b : Block} {own : ScopeId} (h : id ≠ own) :
    (s.setBlock own b).scope? id = s.scope? id := by
  simp [scope?, setBlock, find?_replace, h]

private theorem scope?_create_of_lt {parent : Option ScopeId} (h : id < s.size) :
    (s.create parent).scope? id = s.scope? id := by
  have hne : id ≠ s.latestFirst.length := Nat.ne_of_lt h
  rw [scope?, create, find?, if_neg hne, scope?]

end Scopes

/-! ### What may happen to the symbols -/

/-- A variable goes into the block of its scope. -/
theorem Symbols.defineVariable_eq (s : Symbols) (own : ScopeId) (v : Variable) :
    s.defineVariable own v = ((s.scopes.block own).defineVariable v).map fun b ↦
      { s with scopes := s.scopes.setBlock own b } := by
  unfold defineVariable Scopes.defineVariable
  cases (s.scopes.block own).defineVariable v <;> rfl

/-- A function goes into the block of its scope. -/
theorem Symbols.defineFunction_eq (s : Symbols) (own : ScopeId) (f : Function) :
    s.defineFunction own f = ((s.scopes.block own).defineFunction f).map fun b ↦
      { s with scopes := s.scopes.setBlock own b } := by
  unfold defineFunction Scopes.defineFunction
  cases (s.scopes.block own).defineFunction f <;> rfl

/-- What may happen to the symbols while something is checked in the scope `own`: scopes are made
inside it, and of the scopes that were there only `own` changes, which stays where it is. -/
structure Symbols.Frame (own : ScopeId) (s t : Symbols) : Prop where
  catalog : t.catalog = s.catalog
  nextType : t.nextType = s.nextType
  nextNode : t.nextNode = s.nextNode
  size : s.scopes.size ≤ t.scopes.size
  scope : ∀ id < s.scopes.size, id ≠ own → t.scopes.scope? id = s.scopes.scope? id
  parent : ∀ id < s.scopes.size, t.scopes.parent? id = s.scopes.parent? id
  inside : ∀ id < t.scopes.size, s.scopes.size ≤ id →
    ∃ p, t.scopes.parent? id = some p ∧ (p = own ∨ s.scopes.size ≤ p)

namespace Symbols.Frame

variable {own inner id : ScopeId} {s t u : Symbols}

private theorem refl (own : ScopeId) (s : Symbols) : s.Frame own s where
  catalog := rfl
  nextType := rfl
  nextNode := rfl
  size := Nat.le_refl _
  scope _ _ _ := rfl
  parent _ _ := rfl
  inside _ hlt hle := absurd hlt (Nat.not_lt_of_le hle)

/-- What happens in the current scope and then in a scope made since, or in the current one again,
is one change of the current scope. -/
theorem trans (h : s.Frame own t) (hinner : inner = own ∨ s.scopes.size ≤ inner)
    (h' : t.Frame inner u) : s.Frame own u where
  catalog := h'.catalog.trans h.catalog
  nextType := h'.nextType.trans h.nextType
  nextNode := h'.nextNode.trans h.nextNode
  size := Nat.le_trans h.size h'.size
  scope id hid hne := by
    have hne' : id ≠ inner := by
      rcases hinner with rfl | hle
      · exact hne
      · omega
    rw [h'.scope id (Nat.lt_of_lt_of_le hid h.size) hne', h.scope id hid hne]
  parent id hid := by
    rw [h'.parent id (Nat.lt_of_lt_of_le hid h.size), h.parent id hid]
  inside id hid hle := by
    by_cases ht : id < t.scopes.size
    · rw [h'.parent id ht]
      exact h.inside id ht hle
    · obtain ⟨p, hp, hin⟩ := h'.inside id hid (Nat.le_of_not_lt ht)
      refine ⟨p, hp, ?_⟩
      rcases hin with rfl | hin
      · exact hinner
      · exact .inr (Nat.le_trans h.size hin)

/-- The step: a definition in the current scope. -/
theorem setBlock (own : ScopeId) (s : Symbols) (b : Block) :
    s.Frame own { s with scopes := s.scopes.setBlock own b } where
  catalog := rfl
  nextType := rfl
  nextNode := rfl
  size := Nat.le_of_eq Scopes.size_setBlock.symm
  scope _ _ hne := Scopes.scope?_setBlock_of_ne hne
  parent _ _ := Scopes.parent?_setBlock
  inside id hlt hle := by
    change id < (s.scopes.setBlock own b).size at hlt
    rw [Scopes.size_setBlock] at hlt
    exact absurd hlt (Nat.not_lt_of_le hle)

/-- The step: a scope made inside the current one. -/
theorem createScope (own : ScopeId) (s : Symbols) :
    s.Frame own (s.createScope (some own)).1 where
  catalog := rfl
  nextType := rfl
  nextNode := rfl
  size := Nat.le_succ _
  scope _ hid _ := Scopes.scope?_create_of_lt hid
  parent id hid := (Scopes.parent?_create _).trans (if_neg (Nat.ne_of_lt hid))
  inside id hlt hle := by
    have he : id = s.scopes.size := Nat.le_antisymm (Nat.le_of_lt_succ hlt) hle
    exact ⟨own, (Scopes.parent?_create _).trans (if_pos he), .inl rfl⟩

/-- A new block for the current scope, if there is one, is all that changes. -/
theorem of_map {x : Except ProgramError Block}
    (h : (x.map fun b ↦ { s with scopes := s.scopes.setBlock own b }) = .ok t) : s.Frame own t := by
  cases x with
  | error e => cases h
  | ok b =>
    cases h
    exact setBlock own s b

/-- What is visible in a scope stays if neither it nor a scope before it is the current one. -/
theorem chain (h : s.Frame own t) (hid : id < s.scopes.size) (hown : id < own) :
    t.scopes.chain id = s.scopes.chain id :=
  Scopes.chain_congr hid (Nat.lt_of_lt_of_le hid h.size) fun i hi ↦
    h.scope i (Nat.lt_of_le_of_lt hi hid) (Nat.ne_of_lt (Nat.lt_of_le_of_lt hi hown))

end Symbols.Frame

/-! ### Steps that change the table only -/

/-- A walk that changes neither a scope nor the catalog. -/
def WalkM.Still (x : WalkM α) : Prop := ∀ l, (endState (x l)).symbols = l.symbols

namespace WalkM.Still

private theorem pure (a : α) : Still (Pure.pure a : WalkM α) := fun _ ↦ rfl

private theorem get : Still (MonadState.get : WalkM Live) := fun _ ↦ rfl

private theorem obey (x : Except ProgramError α) : Still (TreeCheck.obey x : WalkM α) := by
  intro l
  cases x <;> rfl

private theorem trust (x : Except Fault α) : Still (TreeCheck.trust x : WalkM α) := by
  intro l
  cases x <;> rfl

private theorem onTable (x : EStateM Failure Resolutions α) : Still (WalkM.onTable x) := by
  intro l
  unfold WalkM.onTable
  cases x l.resolutions <;> rfl

private theorem bind {x : WalkM α} {k : α → WalkM β} (hx : Still x) (hk : ∀ a, Still (k a)) :
    Still (x >>= k) := by
  intro l
  have hl := hx l
  cases hr : x l with
  | error e l₁ =>
    rw [hr] at hl
    rw [run_bind_of_error hr]
    exact hl
  | ok a l₁ =>
    rw [hr] at hl
    rw [run_bind_of_ok hr]
    exact (hk a l₁).trans hl

private theorem map {x : WalkM α} (f : α → β) (hx : Still x) : Still (f <$> x) :=
  bind hx fun a ↦ pure (f a)

private theorem readTable (f : Resolutions → Except Fault α) : Still (WalkM.readTable f) :=
  get.bind fun l ↦ trust (f l.resolutions)

private theorem look (scope : ScopeId) (f : Chain → Except ProgramError α) :
    Still (WalkM.look scope f) :=
  get.bind fun l ↦ obey (f (l.symbols.scopes.chain scope))

private theorem resolve (f : Catalog → Except ProgramError α) : Still (WalkM.resolve f) :=
  get.bind fun l ↦ obey (f l.symbols.catalog)

end WalkM.Still

open WalkM

namespace Expr

variable (c : Surroundings)

mutual

/-- Finding the type of an expression defines nothing. -/
theorem walk_still (e : Expr NodeId) : Still (e.walk c) := by
  match e with
  | literal tag value =>
    rw [walk]
    exact (Still.obey _).bind fun _ ↦ Still.onTable _
  | group tag inner =>
    rw [walk]
    exact (Still.obey _).bind fun _ ↦ (walk_still inner).bind fun _ ↦ Still.onTable _
  | binary tag operator left right =>
    rw [walk]
    exact (walk_still left).bind fun _ ↦ (walk_still right).bind fun _ ↦
      (Still.obey _).bind fun _ ↦ Still.onTable _
  | access tag none name =>
    rw [walk]
    exact (Still.look _ _).bind fun _ ↦ (Still.onTable _).bind fun _ ↦ Still.onTable _
  | access tag (some receiver) name =>
    rw [walk]
    exact (walk_still receiver).bind fun _ ↦ (Still.look _ _).bind fun _ ↦
      (Still.onTable _).bind fun _ ↦ Still.onTable _
  | call tag none name arguments =>
    rw [walk]
    exact (walkAll_still arguments).bind fun _ ↦ (Still.look _ _).bind fun _ ↦
      (Still.obey _).bind fun _ ↦ (Still.onTable _).bind fun _ ↦ Still.onTable _
  | call tag (some receiver) name arguments =>
    rw [walk]
    exact (walkAll_still arguments).bind fun _ ↦ (walk_still receiver).bind fun _ ↦
      (Still.look _ _).bind fun _ ↦ (Still.obey _).bind fun _ ↦
      (Still.onTable _).bind fun _ ↦ Still.onTable _

/-- Finding the types of expressions defines nothing. -/
theorem walkAll_still (es : List (Expr NodeId)) : Still (walkAll c es) := by
  match es with
  | [] =>
    rw [walkAll]
    exact Still.pure _
  | e :: es =>
    rw [walkAll]
    exact (walk_still e).bind fun _ ↦ (walkAll_still es).bind fun _ ↦ Still.pure _

end

/-- Finding the type of an expression that may be absent defines nothing. -/
theorem walkOption_still (e : Option (Expr NodeId)) : Still (walkOption c e) := by
  cases e with
  | none => exact Still.pure _
  | some e => exact (walk_still c e).map some

end Expr

/-! ### Steps that define -/

/-- A walk that does to the symbols what may be done in the scope `own`. -/
def WalkM.Confined (own : ScopeId) (x : WalkM α) : Prop :=
  ∀ l : Live, l.symbols.Frame own (endState (x l)).symbols

private theorem WalkM.Still.confined {x : WalkM α} (h : Still x) (own : ScopeId) :
    Confined own x := by
  intro l
  rw [h l]
  exact .refl _ _

namespace WalkM.Confined

variable {own : ScopeId}

private theorem bind {x : WalkM α} {k : α → WalkM β} (hx : Confined own x)
    (hk : ∀ a, Confined own (k a)) :
    Confined own (x >>= k) := by
  intro l
  have hl := hx l
  cases hr : x l with
  | error e l₁ =>
    rw [hr] at hl
    rw [run_bind_of_error hr]
    exact hl
  | ok a l₁ =>
    rw [hr] at hl
    rw [run_bind_of_ok hr]
    exact hl.trans (.inl rfl) (hk a l₁)

private theorem forM {f : α → WalkM PUnit} (h : ∀ a, Confined own (f a)) (as : List α) :
    Confined own (as.forM f) := by
  induction as with
  | nil => exact (Still.pure _).confined own
  | cons a as ih => exact (h a).bind fun _ ↦ ih

/-- The symbols change as the step says, or not at all. -/
theorem change {f : Symbols → Except ProgramError Symbols}
    (h : ∀ s t, f s = .ok t → s.Frame own t) : Confined own (WalkM.change f) := by
  intro l
  have hrun : WalkM.change f l =
      (TreeCheck.obey (f l.symbols) >>= fun symbols ↦ set { l with symbols } : WalkM Unit) l := rfl
  rw [hrun]
  cases hf : f l.symbols with
  | error e => exact .refl _ _
  | ok t => exact h _ _ hf

private theorem defineVariable (v : Variable) :
    Confined own (WalkM.change fun s ↦ s.defineVariable own v) :=
  change fun s _ h ↦ .of_map (s.defineVariable_eq own v ▸ h)

private theorem defineFunction (f : Function) :
    Confined own (WalkM.change fun s ↦ s.defineFunction own f) :=
  change fun s _ h ↦ .of_map (s.defineFunction_eq own f ▸ h)

/-- A nested block starts in a scope made inside the current one. -/
theorem run_nested (c : Surroundings) (x : Surroundings → WalkM α) (l : Live) :
    c.nested x l = x { c with scope := l.symbols.scopes.size }
      { l with symbols := (l.symbols.createScope (some c.scope)).1 } := rfl

/-- What is done in a nested block is done inside the current scope. -/
theorem nested (c : Surroundings) {x : Surroundings → WalkM α}
    (hx : ∀ scope, Confined scope (x { c with scope })) : Confined c.scope (c.nested x) := by
  intro l
  rw [run_nested]
  have hinner := hx l.symbols.scopes.size
    { l with symbols := (l.symbols.createScope (some c.scope)).1 }
  exact (Symbols.Frame.createScope c.scope l.symbols).trans (.inr (Nat.le_refl _)) hinner

end WalkM.Confined

/-- A condition defines nothing. -/
theorem Surroundings.requireBoolean_still (c : Surroundings) (construct : Construct)
    (condition : Expr NodeId) : Still (c.requireBoolean construct condition) :=
  (Expr.walk_still c condition).bind fun _ ↦ Still.obey _

namespace Stmt

private theorem walkControl_still (s : Stmt NodeId) : Still (walkControl s) := by
  cases s with
  | declaration => exact (Still.readTable _).bind fun _ ↦ Still.pure _
  | assignment => exact (Still.readTable _).bind fun _ ↦ Still.pure _
  | _ => exact Still.pure _

private theorem walkSameStep_still (control : Option Ty) (s : Stmt NodeId) :
    Still (walkSameStep control s) := by
  unfold walkSameStep
  split
  · exact (Still.readTable _).bind fun _ ↦ Still.obey _
  · exact Still.pure _

variable (c : Surroundings)

private theorem walkDeclaration_confined (tag : NodeId) (name : Text) (typeName : Option Text)
    (value : Option (Expr NodeId)) :
    Confined c.scope (walkDeclaration c tag name typeName value) :=
  ((Expr.walkOption_still c value).confined _).bind fun _ ↦
    ((Still.resolve _).confined _).bind fun _ ↦
    (Confined.defineVariable _).bind fun _ ↦ (Still.onTable _).confined _

private theorem walkAssignment_still (receiver value : Expr NodeId) :
    Still (walkAssignment c receiver value) :=
  (Still.obey _).bind fun _ ↦ (Expr.walk_still c receiver).bind fun _ ↦
    (Expr.walk_still c value).bind fun _ ↦ (Still.readTable _).bind fun _ ↦
    (Still.obey _).bind fun _ ↦ Still.obey _

private theorem walkReturn_still (value : Expr NodeId) : Still (walkReturn c value) :=
  (Expr.walk_still c value).bind fun _ ↦ Still.obey _

mutual

/-- Of the scopes there are a statement changes the current one only. -/
theorem walk_confined (c : Surroundings) (s : Stmt NodeId) : Confined c.scope (walk c s) := by
  match s with
  | expression tag e =>
    rw [walk]
    exact (((Still.obey _).bind fun _ ↦ (Expr.walk_still c e).bind fun _ ↦
      Still.pure ()).confined c.scope)
  | declaration tag name typeName value =>
    rw [walk]
    exact walkDeclaration_confined c tag name typeName value
  | assignment tag receiver value =>
    rw [walk]
    exact (walkAssignment_still c receiver value).confined _
  | ifElse tag condition thenBody elseBody =>
    rw [walk]
    exact ((Still.obey _).confined _).bind fun _ ↦
      ((c.requireBoolean_still _ _).confined _).bind fun _ ↦
      (Confined.nested c fun scope ↦ walkAll_confined { c with scope } thenBody).bind fun _ ↦
      Confined.nested c fun scope ↦ walkAll_confined { c with scope } elseBody
  | forLoop tag initialization condition increment body =>
    rw [walk]
    exact ((Still.obey _).confined _).bind fun _ ↦
      (walkFirst_confined c initialization).bind fun control ↦
      ((c.requireBoolean_still _ _).confined _).bind fun _ ↦
      (walkStep_confined c control increment).bind fun _ ↦
      Confined.nested c fun scope ↦ walkAll_confined { c with scope } body
  | whileLoop tag condition body =>
    rw [walk]
    exact ((c.requireBoolean_still _ _).confined _).bind fun _ ↦
      Confined.nested c fun scope ↦ walkAll_confined { c with scope } body
  | ret tag value =>
    rw [walk]
    exact (walkReturn_still c value).confined _

private theorem walkFirst_confined (c : Surroundings) (initialization : Option (Stmt NodeId)) :
    Confined c.scope (walkFirst c initialization) := by
  match initialization with
  | none =>
    rw [walkFirst]
    exact (Still.pure _).confined _
  | some first =>
    rw [walkFirst]
    exact (walk_confined c first).bind fun _ ↦
      ((walkControl_still first).bind fun _ ↦ (Still.obey _).bind fun _ ↦ Still.pure _).confined _

private theorem walkStep_confined (c : Surroundings) (control : Option Ty)
    (increment : Option (Stmt NodeId)) :
    Confined c.scope (walkStep c control increment) := by
  match increment with
  | none =>
    rw [walkStep]
    exact (Still.pure _).confined _
  | some step =>
    rw [walkStep]
    exact (walk_confined c step).bind fun _ ↦ (walkSameStep_still control step).confined _

/-- Of the scopes there are the statements of a body change the current one only. -/
theorem walkAll_confined (c : Surroundings) (ss : List (Stmt NodeId)) :
    Confined c.scope (walkAll c ss) := by
  match ss with
  | [] =>
    rw [walkAll]
    exact (Still.pure _).confined _
  | s :: ss =>
    rw [walkAll]
    exact (walk_confined c s).bind fun _ ↦ walkAll_confined c ss

end

end Stmt

/-- Of the scopes there are a field changes the current one only. -/
theorem Field.walk_confined (c : Surroundings) (d : Field NodeId) : Confined c.scope (d.walk c) :=
  ((Still.resolve _).confined _).bind fun _ ↦
    ((Expr.walkOption_still c d.value).confined _).bind fun _ ↦
    ((Still.obey _).confined _).bind fun _ ↦
    (Confined.defineVariable _).bind fun _ ↦ (Still.onTable _).confined _

/-- The parameters of a method go into the scope of its body. -/
theorem Method.walkParameters_confined (scope : ScopeId) (method : NodeId) (position : Nat)
    (parameters : List (Text × Ty)) :
    Confined scope (walkParameters scope method position parameters) := by
  induction parameters generalizing position with
  | nil => exact (Still.pure _).confined _
  | cons p rest ih => exact (Confined.defineVariable _).bind fun _ ↦ ih (position + 1)

/-- Of the scopes there are the body of a method changes its own only. -/
theorem Method.walkBody_confined (homes : Builtin → ScopeId) (m : Method NodeId) (f : Function)
    (scope : ScopeId) : Confined scope (walkBody homes m f scope) :=
  (walkParameters_confined scope m.tag 0 (m.parameters.zip f.parameters)).bind fun _ ↦
    Stmt.walkAll_confined ⟨homes, scope, some f.returns⟩ m.body

/-- Of the scopes there are a method changes the current one only. -/
theorem Method.walk_confined (c : Surroundings) (m : Method NodeId) : Confined c.scope (m.walk c) :=
  ((Still.resolve _).confined _).bind fun f ↦
    (Confined.defineFunction f).bind fun _ ↦ ((Still.onTable _).confined _).bind fun _ ↦
    Confined.nested c fun scope ↦ walkBody_confined c.homes m f scope

/-- Of the scopes there are a tree changes the current one only. -/
theorem Node.walk_confined (c : Surroundings) (tree : Node NodeId) :
    Confined c.scope (tree.walk c) := by
  cases tree with
  | source s =>
    exact (Confined.forM (Field.walk_confined c) s.fields).bind fun _ ↦
      (Confined.forM (Method.walk_confined c) s.methods).bind fun _ ↦ (Still.look _ _).confined _
  | field d => exact d.walk_confined c
  | method m => exact m.walk_confined c
  | stmt s => exact Stmt.walk_confined c s
  | expr e => exact ((Expr.walk_still c e).bind fun _ ↦ Still.pure ()).confined c.scope

/-! ### Whole analyses -/

/-- An analysis has done no more than make scopes: one inside `parent`, the others inside that one.
The catalog and all scopes that were there before are as they were. -/
structure Analysis.Extends (a : Analysis) (s : Symbols) (parent : Option ScopeId) : Prop where
  catalog : a.symbols.catalog = s.catalog
  nextType : a.symbols.nextType = s.nextType
  nextNode : a.symbols.nextNode = s.nextNode
  earlier : s.scopes.latestFirst <:+ a.symbols.scopes.latestFirst
  scope : a.scope = s.scopes.size
  made : a.scope < a.symbols.scopes.size
  own : a.symbols.scopes.parent? a.scope = parent
  inside : ∀ id < a.symbols.scopes.size, a.scope < id →
    ∃ p, a.symbols.scopes.parent? id = some p ∧ a.scope ≤ p

/-- What is visible in a scope that was there before an analysis stays as it was. -/
theorem Analysis.Extends.chain {a : Analysis} {s : Symbols} {parent : Option ScopeId}
    (h : a.Extends s parent) {id : ScopeId} (hid : id < s.scopes.size) :
    a.symbols.scopes.chain id = s.scopes.chain id := Scopes.chain_of_suffix h.earlier hid

namespace Symbols

variable (s : Symbols) (parent : Option ScopeId)

private theorem scope?_openScope {id : ScopeId} (h : id < s.scopes.size) :
    (s.openScope parent).1.scopes.scope? id = s.scopes.scope? id :=
  (Scopes.scope?_setBlock_of_ne (Nat.ne_of_lt h)).trans (Scopes.scope?_create_of_lt h)

private theorem parent?_openScope : (s.openScope parent).1.scopes.parent? s.scopes.size = parent :=
  Scopes.parent?_setBlock.trans ((Scopes.parent?_create _).trans (if_pos rfl))

/-- Opening an analysis makes one scope. -/
theorem size_openScope : (s.openScope parent).1.scopes.size = s.scopes.size + 1 :=
  Scopes.size_setBlock

/-- The scopes after a walk in the scope of an analysis. -/
private theorem extends_of_frame {t : Symbols} {result : Except Failure Resolutions}
    (h : (s.openScope parent).1.Frame s.scopes.size t) :
    Analysis.Extends ⟨t, s.scopes.size, result⟩ s parent := by
  have hsize : s.scopes.size < (s.openScope parent).1.scopes.size := by
    rw [size_openScope]
    exact Nat.lt_succ_self _
  refine ⟨h.catalog, h.nextType, h.nextNode, ?_, rfl, Nat.lt_of_lt_of_le hsize h.size, ?_, ?_⟩
  · refine Scopes.suffix_of_scope? (Nat.le_trans (Nat.le_of_lt hsize) h.size) fun id hid ↦ ?_
    rw [h.scope id (Nat.lt_trans hid hsize) (Nat.ne_of_lt hid), scope?_openScope s parent hid]
  · change t.scopes.parent? s.scopes.size = parent
    rw [h.parent _ hsize, parent?_openScope]
  · intro id hid hlt
    have hle : (s.openScope parent).1.scopes.size ≤ id := by
      rw [size_openScope]
      exact hlt
    obtain ⟨p, hp, hin⟩ := h.inside id hid hle
    refine ⟨p, hp, ?_⟩
    rcases hin with rfl | hin
    · exact Nat.le_refl _
    · exact Nat.le_trans (Nat.le_of_lt hsize) hin

/-- An analysis among live scopes that succeeds, by what the walk of the tree leaves. -/
theorem walk_of_ok {tree : Node NodeId} {homes : Builtin → ScopeId} {u : Unit} {l : Live}
    (h : tree.walk ⟨homes, s.scopes.size, none⟩ ⟨(s.openScope parent).1, .empty⟩ = .ok u l) :
    s.walk homes parent tree = ⟨l.symbols, s.scopes.size, .ok l.resolutions⟩ := by
  have hopen : s.openScope parent = ((s.openScope parent).1, s.scopes.size) := rfl
  rw [walk, hopen]
  simp only [h]

/-- An analysis among live scopes that fails, by what the walk of the tree leaves. -/
theorem walk_of_error {tree : Node NodeId} {homes : Builtin → ScopeId} {f : Failure} {l : Live}
    (h : tree.walk ⟨homes, s.scopes.size, none⟩ ⟨(s.openScope parent).1, .empty⟩ = .error f l) :
    s.walk homes parent tree = ⟨l.symbols, s.scopes.size, .error f⟩ := by
  have hopen : s.openScope parent = ((s.openScope parent).1, s.scopes.size) := rfl
  rw [walk, hopen]
  simp only [h]

/-- An analysis, however it ends, makes scopes and changes nothing else. -/
theorem walk_extends (homes : Builtin → ScopeId) (tree : Node NodeId) :
    (s.walk homes parent tree).Extends s parent := by
  have h := tree.walk_confined ⟨homes, s.scopes.size, none⟩ ⟨(s.openScope parent).1, .empty⟩
  cases hr : tree.walk ⟨homes, s.scopes.size, none⟩ ⟨(s.openScope parent).1, .empty⟩ with
  | ok u l =>
    rw [hr] at h
    rw [walk_of_ok s parent hr]
    exact extends_of_frame s parent h
  | error f l =>
    rw [hr] at h
    rw [walk_of_error s parent hr]
    exact extends_of_frame s parent h

end Symbols

end TreeCheck
