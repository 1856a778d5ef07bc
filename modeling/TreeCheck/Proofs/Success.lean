import TreeCheck.Proofs.Elaboration
import TreeCheck.Proofs.Rules

/-!
# When elaboration succeeds

For every kind of tree, elaboration succeeds exactly if it succeeds on the parts and the rule for
the kind holds of what the parts return; what is written for the tree is what is written for the
parts and the entries of its root, the latest first.
-/

namespace TreeCheck

/-! ### Steps -/

namespace ElabM

variable {α : Type}

/-- A rule that is obeyed leaves the block as it is. -/
theorem obey_eq_ok {x : Except ProgramError α} {a : α} {b b' : Block} :
    obey x b = .ok a b' ↔ x = .ok a ∧ b = b' := by
  unfold obey
  cases x <;> simp

private theorem within_eq_ok {block b b' : Block} {x : ElabM α} {a : α} :
    within block x b = .ok a b' ↔ (∃ inner, x block = .ok a inner) ∧ b = b' := by
  unfold within
  cases x block <;> simp

private theorem define_eq_ok {f : Block → Except ProgramError Block} {u : Unit} {b b' : Block} :
    define f b = .ok u b' ↔ f b = .ok b' := by
  unfold define
  cases f b <;> simp

end ElabM

/-! ### Expressions -/

namespace Expr

variable {scopes : Scopes} {chain : Chain} {tag : NodeId} {t : Ty} {d : Resolutions}

/-- When a literal is elaborated. -/
theorem elaborate_literal_ok_iff {value : Literal} :
    (literal tag value).elaborate scopes chain = .ok (t, d) ↔
      Rules.literalType value = .ok t ∧ d = .ofType tag t := by
  simp only [elaborate, except_bind_ok_iff, except_pure_ok_iff, Prod.mk.injEq]
  constructor
  · rintro ⟨_, hv, rfl, rfl⟩
    exact ⟨hv, rfl⟩
  · rintro ⟨hv, rfl⟩
    exact ⟨t, hv, rfl, rfl⟩

/-- When a group is elaborated: it holds a binary expression. -/
theorem elaborate_group_ok_iff {inner : Expr NodeId} :
    (group tag inner).elaborate scopes chain = .ok (t, d) ↔
      inner.kind = .binary ∧
      ∃ d₁, inner.elaborate scopes chain = .ok (t, d₁) ∧ d = .ofType tag t ++ d₁ := by
  simp only [elaborate, except_bind_ok_iff, except_pure_ok_iff, Prod.exists, Prod.mk.injEq,
    Rules.require_ok_iff]
  constructor
  · rintro ⟨_, hk, _, d₁, hi, rfl, rfl⟩
    exact ⟨hk, d₁, hi, rfl⟩
  · rintro ⟨hk, d₁, hi, rfl⟩
    exact ⟨(), hk, t, d₁, hi, rfl, rfl⟩

/-- When a binary expression is elaborated: its operands first, then the operator. -/
theorem elaborate_binary_ok_iff {operator : Text} {left right : Expr NodeId} :
    (binary tag operator left right).elaborate scopes chain = .ok (t, d) ↔
      ∃ t₁ d₁ t₂ d₂, left.elaborate scopes chain = .ok (t₁, d₁) ∧
        right.elaborate scopes chain = .ok (t₂, d₂) ∧
        Rules.binaryType operator t₁ t₂ = .ok t ∧ d = .ofType tag t ++ (d₂ ++ d₁) := by
  simp only [elaborate, except_bind_ok_iff, except_pure_ok_iff, Prod.exists, Prod.mk.injEq]
  constructor
  · rintro ⟨t₁, d₁, hl, t₂, d₂, hr, _, ho, rfl, rfl⟩
    exact ⟨t₁, d₁, t₂, d₂, hl, hr, ho, rfl⟩
  · rintro ⟨t₁, d₁, t₂, d₂, hl, hr, ho, rfl⟩
    exact ⟨t₁, d₁, hl, t₂, d₂, hr, t, ho, rfl, rfl⟩

/-- When an access to a variable is elaborated. -/
theorem elaborate_variable_ok_iff {name : Text} :
    (access tag none name).elaborate scopes chain = .ok (t, d) ↔
      ∃ v, chain.findVariable? name = some v ∧ t = v.type ∧
        d = .ofBound tag (.variable v) v.type := by
  simp only [elaborate, except_bind_ok_iff, except_pure_ok_iff, Prod.mk.injEq,
    Chain.lookupVariable_ok_iff]
  constructor
  · rintro ⟨v, hv, rfl, rfl⟩
    exact ⟨v, hv, rfl, rfl⟩
  · rintro ⟨v, hv, rfl, rfl⟩
    exact ⟨v, hv, rfl, rfl⟩

/-- When an access to a field is elaborated: its receiver first. -/
theorem elaborate_field_ok_iff {receiver : Expr NodeId} {name : Text} :
    (access tag (some receiver) name).elaborate scopes chain = .ok (t, d) ↔
      ∃ owner d₁ v, receiver.elaborate scopes chain = .ok (owner, d₁) ∧
        (scopes.members owner).findVariable? name = some v ∧ t = v.type ∧
        d = .ofBound tag (.variable v) v.type ++ d₁ := by
  simp only [elaborate, except_bind_ok_iff, except_pure_ok_iff, Prod.exists, Prod.mk.injEq,
    Scopes.lookupField_ok_iff]
  constructor
  · rintro ⟨owner, d₁, hr, v, hv, rfl, rfl⟩
    exact ⟨owner, d₁, v, hr, hv, rfl, rfl⟩
  · rintro ⟨owner, d₁, v, hr, hv, rfl, rfl⟩
    exact ⟨owner, d₁, hr, v, hv, rfl, rfl⟩

/-- No expressions are elaborated to nothing. -/
theorem elaborateAll_nil_ok_iff {ts : List Ty} :
    elaborateAll scopes chain [] = .ok (ts, d) ↔ ts = [] ∧ d = .empty := by
  simp only [elaborateAll, except_pure_ok_iff, Prod.mk.injEq]
  exact and_congr eq_comm eq_comm

/-- When a list of expressions is elaborated: one after another. -/
theorem elaborateAll_cons_ok_iff {e : Expr NodeId} {es : List (Expr NodeId)} {ts : List Ty} :
    elaborateAll scopes chain (e :: es) = .ok (ts, d) ↔
      ∃ t d₁ ts' d₂, e.elaborate scopes chain = .ok (t, d₁) ∧
        elaborateAll scopes chain es = .ok (ts', d₂) ∧ ts = t :: ts' ∧ d = d₂ ++ d₁ := by
  simp only [elaborateAll, except_bind_ok_iff, except_pure_ok_iff, Prod.exists, Prod.mk.injEq]
  constructor
  · rintro ⟨t, d₁, he, ts', d₂, hes, rfl, rfl⟩
    exact ⟨t, d₁, ts', d₂, he, hes, rfl, rfl⟩
  · rintro ⟨t, d₁, ts', d₂, he, hes, rfl, rfl⟩
    exact ⟨t, d₁, he, ts', d₂, hes, rfl, rfl⟩

/-- There is a type for every expression of a list. -/
theorem length_of_elaborateAll {es : List (Expr NodeId)} {ts : List Ty}
    (h : elaborateAll scopes chain es = .ok (ts, d)) : ts.length = es.length := by
  induction es generalizing ts d with
  | nil =>
    obtain ⟨rfl, _⟩ := elaborateAll_nil_ok_iff.mp h
    rfl
  | cons e es ih =>
    obtain ⟨t, d₁, ts', d₂, _, hes, rfl, _⟩ := elaborateAll_cons_ok_iff.mp h
    simp [ih hes]

/-- A function is found by the number of its parameters, so every argument is checked. -/
theorem elaborate_function_ok_iff {name : Text} {arguments : List (Expr NodeId)} :
    (call tag none name arguments).elaborate scopes chain = .ok (t, d) ↔
      ∃ ts d₁ f, elaborateAll scopes chain arguments = .ok (ts, d₁) ∧
        chain.findFunction? name arguments.length = some f ∧
        List.Forall₂ (fun p a ↦ p.accepts a = true) f.parameters ts ∧ t = f.returns ∧
        d = .ofBound tag (.function f) f.returns ++ d₁ := by
  have hlen {ts d₁} {f : Function} (ha : elaborateAll scopes chain arguments = .ok (ts, d₁))
      (hf : chain.findFunction? name arguments.length = some f) :
      f.parameters.length = ts.length := by
    have hk := (Chain.key_of_findFunction hf).2
    rw [length_of_elaborateAll ha]
    exact Int.ofNat.inj hk
  simp only [elaborate, except_bind_ok_iff, except_pure_ok_iff, Prod.exists, Prod.mk.injEq,
    Chain.lookupFunction_ok_iff]
  constructor
  · rintro ⟨ts, d₁, ha, f, hf, _, hp, rfl, rfl⟩
    exact ⟨ts, d₁, f, ha, hf, (Rules.requireArguments_ok_iff (hlen ha hf)).mp hp, rfl, rfl⟩
  · rintro ⟨ts, d₁, f, ha, hf, hp, rfl, rfl⟩
    exact ⟨ts, d₁, ha, f, hf, (), (Rules.requireArguments_ok_iff (hlen ha hf)).mpr hp, rfl, rfl⟩

/-- A method has its receiver as one more parameter, so every argument is checked. -/
theorem elaborate_method_ok_iff {receiver : Expr NodeId} {name : Text}
    {arguments : List (Expr NodeId)} :
    (call tag (some receiver) name arguments).elaborate scopes chain = .ok (t, d) ↔
      ∃ ts d₁ owner d₂ f, elaborateAll scopes chain arguments = .ok (ts, d₁) ∧
        receiver.elaborate scopes chain = .ok (owner, d₂) ∧
        (scopes.members owner).findFunction? name (arguments.length + 1) = some f ∧
        List.Forall₂ (fun p a ↦ p.accepts a = true) f.parameters.tail ts ∧ t = f.returns ∧
        d = .ofBound tag (.function f) f.returns ++ (d₂ ++ d₁) := by
  have hlen {ts d₁ owner} {f : Function}
      (ha : elaborateAll scopes chain arguments = .ok (ts, d₁))
      (hf : (scopes.members owner).findFunction? name (arguments.length + 1) = some f) :
      f.parameters.tail.length = ts.length := by
    have hk : (f.parameters.length : Int) = arguments.length + 1 := (Chain.key_of_findFunction hf).2
    rw [length_of_elaborateAll ha, List.length_tail]
    omega
  simp only [elaborate, except_bind_ok_iff, except_pure_ok_iff, Prod.exists, Prod.mk.injEq,
    Scopes.lookupMethod_ok_iff]
  constructor
  · rintro ⟨ts, d₁, ha, owner, d₂, hr, f, hf, _, hp, rfl, rfl⟩
    exact ⟨ts, d₁, owner, d₂, f, ha, hr, hf,
      (Rules.requireArguments_ok_iff (hlen ha hf)).mp hp, rfl, rfl⟩
  · rintro ⟨ts, d₁, owner, d₂, f, ha, hr, hf, hp, rfl, rfl⟩
    exact ⟨ts, d₁, ha, owner, d₂, hr, f, hf, (),
      (Rules.requireArguments_ok_iff (hlen ha hf)).mpr hp, rfl, rfl⟩

/-- When a variable is elaborated as the target of an assignment. -/
theorem elaborateTarget_variable_ok_iff {name : Text} {v : Variable} :
    (access tag none name).elaborateTarget scopes chain = .ok (v, d) ↔
      chain.findVariable? name = some v ∧ d = .ofBound tag (.variable v) v.type := by
  simp only [elaborateTarget, except_bind_ok_iff, except_pure_ok_iff, Prod.mk.injEq,
    Chain.lookupVariable_ok_iff]
  constructor
  · rintro ⟨_, hv, rfl, rfl⟩
    exact ⟨hv, rfl⟩
  · rintro ⟨hv, rfl⟩
    exact ⟨v, hv, rfl, rfl⟩

/-- When a field is elaborated as the target of an assignment. -/
theorem elaborateTarget_field_ok_iff {receiver : Expr NodeId} {name : Text} {v : Variable} :
    (access tag (some receiver) name).elaborateTarget scopes chain = .ok (v, d) ↔
      ∃ owner d₁, receiver.elaborate scopes chain = .ok (owner, d₁) ∧
        (scopes.members owner).findVariable? name = some v ∧
        d = .ofBound tag (.variable v) v.type ++ d₁ := by
  simp only [elaborateTarget, except_bind_ok_iff, except_pure_ok_iff, Prod.exists, Prod.mk.injEq,
    Scopes.lookupField_ok_iff]
  constructor
  · rintro ⟨owner, d₁, hr, _, hv, rfl, rfl⟩
    exact ⟨owner, d₁, hr, hv, rfl⟩
  · rintro ⟨owner, d₁, hr, hv, rfl⟩
    exact ⟨owner, d₁, hr, v, hv, rfl, rfl⟩

/-- Only an access can be assigned to. -/
theorem kind_of_elaborateTarget {e : Expr NodeId} {v : Variable}
    (h : e.elaborateTarget scopes chain = .ok (v, d)) : e.kind = .access := by
  cases e with
  | access tag receiver name => rfl
  | literal tag value => cases h
  | group tag inner => cases h
  | binary tag operator left right => cases h
  | call tag receiver name arguments => cases h

/-- An assignment's target is typed as its variable is. -/
theorem elaborate_ok_of_target {e : Expr NodeId} {v : Variable}
    (h : e.elaborateTarget scopes chain = .ok (v, d)) :
    e.elaborate scopes chain = .ok (v.type, d) := by
  rw [elaborate_of_elaborateTarget (kind_of_elaborateTarget h), h]
  rfl

end Expr

/-! ### Statements -/

section Statements

variable {env : Env} {b b' : Block} {d : Resolutions}

namespace Env

/-- An expression is elaborated in the visible chain and leaves the block as it is. -/
theorem elaborate_ok_iff {e : Expr NodeId} {t : Ty} :
    env.elaborate e b = .ok (t, d) b' ↔
      e.elaborate env.scopes (b :: env.outer) = .ok (t, d) ∧ b' = b := by
  simp only [elaborate, run_bind_ok_iff, run_get_ok_iff, ElabM.obey_eq_ok]
  constructor
  · rintro ⟨_, _, ⟨rfl, rfl⟩, he, rfl⟩
    exact ⟨he, rfl⟩
  · rintro ⟨he, rfl⟩
    exact ⟨b', b', ⟨rfl, rfl⟩, he, rfl⟩

/-- An expression that is absent is elaborated to nothing. -/
theorem elaborateOption_none_ok_iff {t : Option Ty} :
    env.elaborateOption none b = .ok (t, d) b' ↔ t = none ∧ d = .empty ∧ b' = b := by
  simp only [elaborateOption, run_pure_ok_iff, Prod.mk.injEq, and_assoc]
  exact and_congr eq_comm (and_congr eq_comm eq_comm)

/-- When an expression that is present is elaborated. -/
theorem elaborateOption_some_ok_iff {e : Expr NodeId} {t : Option Ty} :
    env.elaborateOption (some e) b = .ok (t, d) b' ↔
      ∃ t₁, e.elaborate env.scopes (b :: env.outer) = .ok (t₁, d) ∧ t = some t₁ ∧ b' = b := by
  simp only [elaborateOption, run_bind_ok_iff, run_pure_ok_iff, Prod.exists, Prod.mk.injEq,
    elaborate_ok_iff]
  constructor
  · rintro ⟨t₁, d₁, _, ⟨he, rfl⟩, ⟨rfl, rfl⟩, rfl⟩
    exact ⟨t₁, he, rfl, rfl⟩
  · rintro ⟨t₁, he, rfl, rfl⟩
    exact ⟨t₁, d, b', ⟨he, rfl⟩, ⟨rfl, rfl⟩, rfl⟩

/-- Finding the type of a value defines nothing. -/
theorem block_of_elaborateOption {e : Option (Expr NodeId)} {t : Option Ty}
    (h : env.elaborateOption e b = .ok (t, d) b') : b' = b := by
  cases e with
  | none => exact (elaborateOption_none_ok_iff.mp h).2.2
  | some e =>
    obtain ⟨_, _, _, hb⟩ := elaborateOption_some_ok_iff.mp h
    exact hb

/-- A condition is elaborated if it is a Boolean. -/
theorem elaborateCondition_ok_iff {construct : Construct} {e : Expr NodeId} :
    env.elaborateCondition construct e b = .ok d b' ↔
      e.elaborate env.scopes (b :: env.outer) = .ok (.boolean, d) ∧ b' = b := by
  simp only [elaborateCondition, run_bind_ok_iff, run_pure_ok_iff, Prod.exists, elaborate_ok_iff,
    ElabM.obey_eq_ok, Rules.require_ok_iff]
  constructor
  · rintro ⟨_, d₁, _, ⟨he, rfl⟩, _, _, ⟨rfl, rfl⟩, rfl, rfl⟩
    exact ⟨he, rfl⟩
  · rintro ⟨he, rfl⟩
    exact ⟨.boolean, d, b', ⟨he, rfl⟩, (), b', ⟨rfl, rfl⟩, rfl, rfl⟩

/-- A nested block is elaborated from nothing and forgotten. -/
theorem elaborateNested_ok_iff {x : Env → ElabM Resolutions} :
    env.elaborateNested x b = .ok d b' ↔
      (∃ inner, x (env.inside b) .empty = .ok d inner) ∧ b' = b := by
  simp only [elaborateNested, run_bind_ok_iff, run_get_ok_iff, ElabM.within_eq_ok]
  constructor
  · rintro ⟨_, _, ⟨rfl, rfl⟩, hx, rfl⟩
    exact ⟨hx, rfl⟩
  · rintro ⟨hx, rfl⟩
    exact ⟨b', b', ⟨rfl, rfl⟩, hx, rfl⟩

end Env

namespace Stmt

variable {tag : NodeId} {set : Option Ty}

/-- When an expression statement is elaborated: it is a call. -/
theorem elaborate_expression_ok_iff {e : Expr NodeId} :
    (expression tag e).elaborate env b = .ok (set, d) b' ↔
      e.kind = .call ∧ set = none ∧ b' = b ∧
      ∃ t, e.elaborate env.scopes (b :: env.outer) = .ok (t, d) := by
  simp only [elaborate, run_bind_ok_iff, run_pure_ok_iff, Prod.exists, Prod.mk.injEq,
    ElabM.obey_eq_ok, Rules.require_ok_iff, Env.elaborate_ok_iff]
  constructor
  · rintro ⟨_, _, ⟨hk, rfl⟩, t, d₁, _, ⟨he, rfl⟩, ⟨rfl, rfl⟩, rfl⟩
    exact ⟨hk, rfl, rfl, t, he⟩
  · rintro ⟨hk, rfl, rfl, t, he⟩
    exact ⟨(), b', ⟨hk, rfl⟩, t, d, b', ⟨he, rfl⟩, ⟨rfl, rfl⟩, rfl⟩

/-- When a declaration is elaborated: its value, its type, its name. -/
theorem elaborate_declaration_ok_iff {name : Text} {typeName : Option Text}
    {value : Option (Expr NodeId)} :
    (declaration tag name typeName value).elaborate env b = .ok (set, d) b' ↔
      ∃ found d₁ t, env.elaborateOption value b = .ok (found, d₁) b ∧
        declaredType env.catalog name typeName found = .ok t ∧ set = some t ∧
        b.defineVariable ⟨name, name, t, false, .node tag⟩ = .ok b' ∧
        d = .ofBinding tag (.variable ⟨name, name, t, false, .node tag⟩) ++ d₁ := by
  simp only [elaborate_declaration, elaborateDeclaration, run_bind_ok_iff, run_pure_ok_iff,
    Prod.exists, Prod.mk.injEq, ElabM.obey_eq_ok, ElabM.define_eq_ok]
  constructor
  · rintro ⟨found, d₁, b₁, hv, t, _, ⟨ht, rfl⟩, _, _, hb, ⟨rfl, rfl⟩, rfl⟩
    cases Env.block_of_elaborateOption hv
    exact ⟨found, d₁, t, hv, ht, rfl, hb, rfl⟩
  · rintro ⟨found, d₁, t, hv, ht, rfl, hb, rfl⟩
    exact ⟨found, d₁, b, hv, t, b, ⟨ht, rfl⟩, (), b', hb, ⟨rfl, rfl⟩, rfl⟩

/-- When an assignment is elaborated: the target is no constant and accepts the value. -/
theorem elaborate_assignment_ok_iff {receiver value : Expr NodeId} :
    (assignment tag receiver value).elaborate env b = .ok (set, d) b' ↔
      b' = b ∧ ∃ v d₁ t d₂,
        receiver.elaborateTarget env.scopes (b :: env.outer) = .ok (v, d₁) ∧
        value.elaborate env.scopes (b :: env.outer) = .ok (t, d₂) ∧
        v.constant = false ∧ v.type.accepts t = true ∧ set = some v.type ∧ d = d₂ ++ d₁ := by
  simp only [elaborate_assignment, elaborateAssignment, run_bind_ok_iff, run_pure_ok_iff,
    run_get_ok_iff, Prod.exists, Prod.mk.injEq, ElabM.obey_eq_ok, Rules.require_ok_iff,
    Rules.requireAssignable_ok_iff, Env.elaborate_ok_iff]
  constructor
  · rintro ⟨_, _, ⟨rfl, rfl⟩, v, d₁, _, ⟨hv, rfl⟩, t, d₂, _, ⟨ht, rfl⟩, _, _, ⟨hc, rfl⟩, _, _,
      ⟨ha, rfl⟩, ⟨rfl, rfl⟩, rfl⟩
    exact ⟨rfl, v, d₁, t, d₂, hv, ht, hc, ha, rfl, rfl⟩
  · rintro ⟨rfl, v, d₁, t, d₂, hv, ht, hc, ha, rfl, rfl⟩
    exact ⟨b', b', ⟨rfl, rfl⟩, v, d₁, b', ⟨hv, rfl⟩, t, d₂, b', ⟨ht, rfl⟩, (), b', ⟨hc, rfl⟩, (),
      b', ⟨ha, rfl⟩, ⟨rfl, rfl⟩, rfl⟩

/-- When a conditional is elaborated: its condition, then both branches. -/
theorem elaborate_ifElse_ok_iff {condition : Expr NodeId} {thenBody elseBody : List (Stmt NodeId)} :
    (ifElse tag condition thenBody elseBody).elaborate env b = .ok (set, d) b' ↔
      thenBody ≠ [] ∧ set = none ∧ b' = b ∧ ∃ d₁ d₂ b₂ d₃ b₃,
        condition.elaborate env.scopes (b :: env.outer) = .ok (.boolean, d₁) ∧
        elaborateAll (env.inside b) thenBody .empty = .ok d₂ b₂ ∧
        elaborateAll (env.inside b) elseBody .empty = .ok d₃ b₃ ∧ d = d₃ ++ (d₂ ++ d₁) := by
  simp only [elaborate, run_bind_ok_iff, run_pure_ok_iff, Prod.mk.injEq, ElabM.obey_eq_ok,
    Rules.require_ok_iff, Env.elaborateCondition_ok_iff, Env.elaborateNested_ok_iff]
  constructor
  · rintro ⟨_, _, ⟨hn, rfl⟩, d₁, _, ⟨hc, rfl⟩, d₂, _, ⟨⟨b₂, h₂⟩, rfl⟩, d₃, _, ⟨⟨b₃, h₃⟩, rfl⟩,
      ⟨rfl, rfl⟩, rfl⟩
    exact ⟨hn, rfl, rfl, d₁, d₂, b₂, d₃, b₃, hc, h₂, h₃, rfl⟩
  · rintro ⟨hn, rfl, rfl, d₁, d₂, b₂, d₃, b₃, hc, h₂, h₃, rfl⟩
    exact ⟨(), b', ⟨hn, rfl⟩, d₁, b', ⟨hc, rfl⟩, d₂, b', ⟨⟨b₂, h₂⟩, rfl⟩, d₃, b', ⟨⟨b₃, h₃⟩, rfl⟩,
      ⟨rfl, rfl⟩, rfl⟩

/-- When a for loop is elaborated: initialization, condition, increment, then the body. -/
theorem elaborate_forLoop_ok_iff {initialization increment : Option (Stmt NodeId)}
    {condition : Expr NodeId} {body : List (Stmt NodeId)} :
    (forLoop tag initialization condition increment body).elaborate env b = .ok (set, d) b' ↔
      body ≠ [] ∧ set = none ∧ ∃ control d₁ b₁ d₂ d₃ d₄ b₄,
        elaborateFirst env initialization b = .ok (control, d₁) b₁ ∧
        condition.elaborate env.scopes (b₁ :: env.outer) = .ok (.boolean, d₂) ∧
        elaborateStep env control increment b₁ = .ok d₃ b' ∧
        elaborateAll (env.inside b') body .empty = .ok d₄ b₄ ∧
        d = d₄ ++ (d₃ ++ (d₂ ++ d₁)) := by
  simp only [elaborate, run_bind_ok_iff, run_pure_ok_iff, Prod.exists, Prod.mk.injEq,
    ElabM.obey_eq_ok, Rules.require_ok_iff, Env.elaborateCondition_ok_iff,
    Env.elaborateNested_ok_iff]
  constructor
  · rintro ⟨_, _, ⟨hn, rfl⟩, control, d₁, b₁, h₁, d₂, _, ⟨h₂, rfl⟩, d₃, b₃, h₃, d₄, _,
      ⟨⟨b₄, h₄⟩, rfl⟩, ⟨rfl, rfl⟩, rfl⟩
    exact ⟨hn, rfl, control, d₁, _, d₂, d₃, d₄, b₄, h₁, h₂, h₃, h₄, rfl⟩
  · rintro ⟨hn, rfl, control, d₁, b₁, d₂, d₃, d₄, b₄, h₁, h₂, h₃, h₄, rfl⟩
    exact ⟨(), b, ⟨hn, rfl⟩, control, d₁, b₁, h₁, d₂, b₁, ⟨h₂, rfl⟩, d₃, b', h₃, d₄, b',
      ⟨⟨b₄, h₄⟩, rfl⟩, ⟨rfl, rfl⟩, rfl⟩

/-- When a while loop is elaborated: its condition, then its body. -/
theorem elaborate_whileLoop_ok_iff {condition : Expr NodeId} {body : List (Stmt NodeId)} :
    (whileLoop tag condition body).elaborate env b = .ok (set, d) b' ↔
      set = none ∧ b' = b ∧ ∃ d₁ d₂ b₂,
        condition.elaborate env.scopes (b :: env.outer) = .ok (.boolean, d₁) ∧
        elaborateAll (env.inside b) body .empty = .ok d₂ b₂ ∧ d = d₂ ++ d₁ := by
  simp only [elaborate, run_bind_ok_iff, run_pure_ok_iff, Prod.mk.injEq,
    Env.elaborateCondition_ok_iff, Env.elaborateNested_ok_iff]
  constructor
  · rintro ⟨d₁, _, ⟨hc, rfl⟩, d₂, _, ⟨⟨b₂, h₂⟩, rfl⟩, ⟨rfl, rfl⟩, rfl⟩
    exact ⟨rfl, rfl, d₁, d₂, b₂, hc, h₂, rfl⟩
  · rintro ⟨rfl, rfl, d₁, d₂, b₂, hc, h₂, rfl⟩
    exact ⟨d₁, b', ⟨hc, rfl⟩, d₂, b', ⟨⟨b₂, h₂⟩, rfl⟩, ⟨rfl, rfl⟩, rfl⟩

/-- When a return is elaborated: a method is around it and accepts the value. -/
theorem elaborate_ret_ok_iff {value : Expr NodeId} :
    (ret tag value).elaborate env b = .ok (set, d) b' ↔
      set = none ∧ b' = b ∧ ∃ t wanted,
        value.elaborate env.scopes (b :: env.outer) = .ok (t, d) ∧
        env.returns = some wanted ∧ wanted.accepts t = true := by
  simp only [elaborate, run_bind_ok_iff, run_pure_ok_iff, Prod.exists, Prod.mk.injEq,
    ElabM.obey_eq_ok, Rules.requireReturn_ok_iff, Env.elaborate_ok_iff]
  constructor
  · rintro ⟨t, d₁, _, ⟨hv, rfl⟩, _, _, ⟨⟨wanted, hw, ha⟩, rfl⟩, ⟨rfl, rfl⟩, rfl⟩
    exact ⟨rfl, rfl, t, wanted, hv, hw, ha⟩
  · rintro ⟨rfl, rfl, t, wanted, hv, hw, ha⟩
    exact ⟨t, d, b', ⟨hv, rfl⟩, (), b', ⟨⟨wanted, hw, ha⟩, rfl⟩, ⟨rfl, rfl⟩, rfl⟩

/-- An initialization that is absent is elaborated to nothing. -/
theorem elaborateFirst_none_ok_iff {control : Option Ty} :
    elaborateFirst env none b = .ok (control, d) b' ↔
      control = none ∧ d = .empty ∧ b' = b := by
  simp only [elaborateFirst, run_pure_ok_iff, Prod.mk.injEq, and_assoc]
  exact and_congr eq_comm (and_congr eq_comm eq_comm)

/-- When an initialization is elaborated: what it sets is comparable. -/
theorem elaborateFirst_some_ok_iff {first : Stmt NodeId} {control : Option Ty} :
    elaborateFirst env (some first) b = .ok (control, d) b' ↔
      first.elaborate env b = .ok (control, d) b' ∧
        ∀ t ∈ control, Ty.comparable.accepts t = true := by
  simp only [elaborateFirst, run_bind_ok_iff, run_pure_ok_iff, Prod.exists, Prod.mk.injEq,
    ElabM.obey_eq_ok, Rules.requireComparable_ok_iff]
  constructor
  · rintro ⟨_, _, _, hf, _, _, ⟨hc, rfl⟩, ⟨rfl, rfl⟩, rfl⟩
    exact ⟨hf, hc⟩
  · rintro ⟨hf, hc⟩
    exact ⟨control, d, b', hf, (), b', ⟨hc, rfl⟩, ⟨rfl, rfl⟩, rfl⟩

/-- The increment is compared with the initialization only if it is an assignment. -/
theorem requireStep_ok_iff {control : Option Ty} {step : Stmt NodeId} {u : Unit} :
    requireStep control step set = .ok u ↔
      (step.kind = .assignment → ∀ c ∈ control, ∀ t ∈ set, t = c) := by
  cases step with
  | assignment tag receiver value =>
    cases control <;> cases set <;> simp [requireStep, kind]
  | expression tag e => simp [requireStep, kind]
  | declaration tag name typeName value => simp [requireStep, kind]
  | ifElse tag condition thenBody elseBody => simp [requireStep, kind]
  | forLoop tag initialization condition increment body => simp [requireStep, kind]
  | whileLoop tag condition body => simp [requireStep, kind]
  | ret tag value => simp [requireStep, kind]

/-- An increment that is absent is elaborated to nothing. -/
theorem elaborateStep_none_ok_iff {control : Option Ty} :
    elaborateStep env control none b = .ok d b' ↔ d = .empty ∧ b' = b := by
  simp only [elaborateStep, run_pure_ok_iff]
  exact and_congr eq_comm eq_comm

/-- When an increment is elaborated: an assignment sets the type of the loop variable. -/
theorem elaborateStep_some_ok_iff {control : Option Ty} {step : Stmt NodeId} :
    elaborateStep env control (some step) b = .ok d b' ↔
      ∃ set, step.elaborate env b = .ok (set, d) b' ∧
        (step.kind = .assignment → ∀ c ∈ control, ∀ t ∈ set, t = c) := by
  simp only [elaborateStep, run_bind_ok_iff, run_pure_ok_iff, Prod.exists, ElabM.obey_eq_ok,
    requireStep_ok_iff]
  constructor
  · rintro ⟨set, _, _, hs, _, _, ⟨hc, rfl⟩, rfl, rfl⟩
    exact ⟨set, hs, hc⟩
  · rintro ⟨set, hs, hc⟩
    exact ⟨set, d, b', hs, (), b', ⟨hc, rfl⟩, rfl, rfl⟩

/-- No statements are elaborated to nothing. -/
theorem elaborateAll_nil_ok_iff : elaborateAll env [] b = .ok d b' ↔ d = .empty ∧ b' = b := by
  simp only [elaborateAll, run_pure_ok_iff]
  exact and_congr eq_comm eq_comm

/-- When a list of statements is elaborated: one after another in one block. -/
theorem elaborateAll_cons_ok_iff {s : Stmt NodeId} {ss : List (Stmt NodeId)} :
    elaborateAll env (s :: ss) b = .ok d b' ↔
      ∃ set d₁ b₁ d₂, s.elaborate env b = .ok (set, d₁) b₁ ∧
        elaborateAll env ss b₁ = .ok d₂ b' ∧ d = d₂ ++ d₁ := by
  simp only [elaborateAll, run_bind_ok_iff, run_pure_ok_iff, Prod.exists]
  constructor
  · rintro ⟨set, d₁, b₁, hs, d₂, _, hss, rfl, rfl⟩
    exact ⟨set, d₁, b₁, d₂, hs, hss, rfl⟩
  · rintro ⟨set, d₁, b₁, d₂, hs, hss, rfl⟩
    exact ⟨set, d₁, b₁, hs, d₂, b', hss, rfl, rfl⟩

end Stmt

end Statements

/-! ### Fields, methods and sources -/

variable {env : Env} {b b' : Block} {r : Resolutions}

/-- When a field is elaborated: its type, its value, its name. -/
theorem Field.elaborate_ok_iff {d : Field NodeId} :
    d.elaborate env b = .ok r b' ↔
      ∃ t found d₁, env.catalog.find? d.typeName = some t ∧
        env.elaborateOption d.value b = .ok (found, d₁) b ∧ d.requireValue t found = .ok () ∧
        b.defineVariable ⟨d.name, d.name, t, d.constant, .node d.tag⟩ = .ok b' ∧
        r = .ofBinding d.tag (.variable ⟨d.name, d.name, t, d.constant, .node d.tag⟩) ++ d₁ := by
  simp only [elaborate, run_bind_ok_iff, run_pure_ok_iff, Prod.exists, ElabM.obey_eq_ok,
    ElabM.define_eq_ok, Catalog.resolve_ok_iff]
  constructor
  · rintro ⟨t, _, ⟨ht, rfl⟩, found, d₁, b₁, hv, _, _, ⟨hr, rfl⟩, _, _, hb, rfl, rfl⟩
    cases Env.block_of_elaborateOption hv
    exact ⟨t, found, d₁, ht, hv, hr, hb, rfl⟩
  · rintro ⟨t, found, d₁, ht, hv, hr, hb, rfl⟩
    exact ⟨t, b, ⟨ht, rfl⟩, found, d₁, b, hv, (), b, ⟨hr, rfl⟩, (), b', hb, rfl, rfl⟩

/-- No fields are elaborated to nothing. -/
theorem Field.elaborateAll_nil_ok_iff :
    elaborateAll env [] b = .ok r b' ↔ r = .empty ∧ b' = b := by
  simp only [elaborateAll, run_pure_ok_iff]
  exact and_congr eq_comm eq_comm

/-- When a list of fields is elaborated: one after another. -/
theorem Field.elaborateAll_cons_ok_iff {d : Field NodeId} {ds : List (Field NodeId)} :
    elaborateAll env (d :: ds) b = .ok r b' ↔
      ∃ d₁ b₁ d₂, d.elaborate env b = .ok d₁ b₁ ∧ elaborateAll env ds b₁ = .ok d₂ b' ∧
        r = d₂ ++ d₁ := by
  simp only [elaborateAll, run_bind_ok_iff, run_pure_ok_iff]
  constructor
  · rintro ⟨d₁, b₁, hd, d₂, _, hds, rfl, rfl⟩
    exact ⟨d₁, b₁, d₂, hd, hds, rfl⟩
  · rintro ⟨d₁, b₁, d₂, hd, hds, rfl⟩
    exact ⟨d₁, b₁, hd, d₂, b', hds, rfl, rfl⟩

/-- The names of a method's parameters are all given types. -/
theorem Method.names_of_signature {c : Catalog} {m : Method NodeId} {f : Function}
    (h : m.signature c = .ok f) : (m.parameters.zip f.parameters).map Prod.fst = m.parameters := by
  obtain ⟨hl, ps, t, hp, _, rfl⟩ := signature_ok_iff.mp h
  exact List.map_fst_zip (Nat.le_of_eq (hl.trans hp.length_eq))

/-- When a method is elaborated: it is defined before its body, which has its parameters. -/
theorem Method.elaborate_ok_iff {m : Method NodeId} :
    m.elaborate env b = .ok r b' ↔
      ∃ f d₁ b₂, m.signature env.catalog = .ok f ∧ b.defineFunction f = .ok b' ∧
        m.parameters.Nodup ∧
        Stmt.elaborateAll (env.inMethod b' f) m.body
          ⟨parameterVariables m.tag 0 (m.parameters.zip f.parameters), []⟩ = .ok d₁ b₂ ∧
        r = d₁ ++ .ofBinding m.tag (.function f) := by
  simp only [elaborate, run_bind_ok_iff, run_pure_ok_iff, run_get_ok_iff, ElabM.obey_eq_ok,
    ElabM.define_eq_ok, ElabM.within_eq_ok, Block.defineParameters_ok_iff]
  constructor
  · rintro ⟨f, _, ⟨hf, rfl⟩, _, _, hb, _, _, ⟨rfl, rfl⟩, _, _, ⟨⟨_, hd, rfl⟩, rfl⟩, d₁, _,
      ⟨⟨b₂, hs⟩, rfl⟩, rfl, rfl⟩
    rw [names_of_signature hf] at hd
    exact ⟨f, d₁, b₂, hf, hb, hd, hs, rfl⟩
  · rintro ⟨f, d₁, b₂, hf, hb, hd, hs, rfl⟩
    rw [← names_of_signature hf] at hd
    exact ⟨f, b, ⟨hf, rfl⟩, (), b', hb, b', b', ⟨rfl, rfl⟩, _, b', ⟨⟨fun _ _ ↦ rfl, hd, rfl⟩, rfl⟩,
      d₁, b', ⟨⟨b₂, hs⟩, rfl⟩, rfl, rfl⟩

/-- No methods are elaborated to nothing. -/
theorem Method.elaborateAll_nil_ok_iff :
    elaborateAll env [] b = .ok r b' ↔ r = .empty ∧ b' = b := by
  simp only [elaborateAll, run_pure_ok_iff]
  exact and_congr eq_comm eq_comm

/-- When a list of methods is elaborated: one after another. -/
theorem Method.elaborateAll_cons_ok_iff {m : Method NodeId} {ms : List (Method NodeId)} :
    elaborateAll env (m :: ms) b = .ok r b' ↔
      ∃ d₁ b₁ d₂, m.elaborate env b = .ok d₁ b₁ ∧ elaborateAll env ms b₁ = .ok d₂ b' ∧
        r = d₂ ++ d₁ := by
  simp only [elaborateAll, run_bind_ok_iff, run_pure_ok_iff]
  constructor
  · rintro ⟨d₁, b₁, hd, d₂, _, hds, rfl, rfl⟩
    exact ⟨d₁, b₁, d₂, hd, hds, rfl⟩
  · rintro ⟨d₁, b₁, d₂, hd, hds, rfl⟩
    exact ⟨d₁, b₁, hd, d₂, b', hds, rfl, rfl⟩

/-- When a source is elaborated: its fields, its methods, its entry point. -/
theorem Source.elaborate_ok_iff {s : Source NodeId} :
    s.elaborate env b = .ok r b' ↔
      ∃ d₁ b₁ d₂, Field.elaborateAll env s.fields b = .ok d₁ b₁ ∧
        Method.elaborateAll env s.methods b₁ = .ok d₂ b' ∧
        (∃ f, Chain.findFunction? (b' :: env.outer) "main" 0 = some f ∧ f.returns = .integer) ∧
        r = d₂ ++ d₁ := by
  simp only [elaborate, run_bind_ok_iff, run_pure_ok_iff, run_get_ok_iff, ElabM.obey_eq_ok,
    requireEntryPoint_ok_iff]
  constructor
  · rintro ⟨d₁, b₁, hf, d₂, _, hm, _, _, ⟨rfl, rfl⟩, _, _, ⟨he, rfl⟩, rfl, rfl⟩
    exact ⟨d₁, b₁, d₂, hf, hm, he, rfl⟩
  · rintro ⟨d₁, b₁, d₂, hf, hm, he, rfl⟩
    exact ⟨d₁, b₁, hf, d₂, b', hm, b', b', ⟨rfl, rfl⟩, (), b', ⟨he, rfl⟩, rfl, rfl⟩

/-- A statement is elaborated as a tree just as in a block. -/
theorem Node.elaborate_stmt_ok_iff {s : Stmt NodeId} :
    (Node.stmt s).elaborate env b = .ok r b' ↔ ∃ set, s.elaborate env b = .ok (set, r) b' := by
  simp only [elaborate, run_bind_ok_iff, run_pure_ok_iff, Prod.exists]
  constructor
  · rintro ⟨set, _, _, hs, rfl, rfl⟩
    exact ⟨set, hs⟩
  · rintro ⟨set, hs⟩
    exact ⟨set, r, b', hs, rfl, rfl⟩

/-- An expression is elaborated as a tree just as in a block. -/
theorem Node.elaborate_expr_ok_iff {e : Expr NodeId} :
    (Node.expr e).elaborate env b = .ok r b' ↔
      ∃ t, e.elaborate env.scopes (b :: env.outer) = .ok (t, r) ∧ b' = b := by
  simp only [elaborate, run_bind_ok_iff, run_pure_ok_iff, Prod.exists, Env.elaborate_ok_iff]
  constructor
  · rintro ⟨t, _, _, ⟨he, rfl⟩, rfl, rfl⟩
    exact ⟨t, he, rfl⟩
  · rintro ⟨t, he, rfl⟩
    exact ⟨t, r, b', ⟨he, rfl⟩, rfl, rfl⟩

end TreeCheck
