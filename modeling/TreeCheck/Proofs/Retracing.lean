import TreeCheck.Proofs.Correspondence
import TreeCheck.Proofs.Relabel
import TreeCheck.Proofs.Renaming
import TreeCheck.Proofs.Runs

/-!
# Elaboration in corresponding places

A tree is elaborated in two places that see corresponding definitions, the second time with renamed
variables and with other identities of its nodes. Whatever the first run finds the second one finds
too: the same types, and corresponding bindings. If the correspondence is faithful, then the second
run also fails where the first one does, with a corresponding error, and leaves corresponding
definitions behind.
-/

namespace TreeCheck

variable {α β γ δ : Type}

namespace Correspondence

variable (C : Correspondence)

/-- Places that see corresponding definitions. -/
structure Places (env env' : Env) : Prop where
  members : ∀ t, C.known t → C.fixed.Chains (env.scopes.members t) (env'.scopes.members t)
  catalog : C.Catalogs env.catalog env'.catalog
  outer : C.Chains env.outer env'.outer
  returns : env'.returns = env.returns

/-- A change of identities that keeps definitions at corresponding sites. -/
structure Relabels (f : NodeId → NodeId) : Prop where
  node : ∀ id, C.site (.node id) (.node (f id))
  parameter : ∀ id position, C.site (.parameter id position) (.parameter (f id) position)

/-- Tables with the same types and corresponding bindings under changed identities. -/
structure Tables (f : NodeId → NodeId) (d d' : Resolutions) : Prop where
  types : d'.types = d.types.map fun p ↦ (f p.1, p.2)
  bindings : List.Forall₂ (fun p q ↦ q.1 = f p.1 ∧ C.Bindings p.2 q.2) d.bindings d'.bindings

/-- The second run ends as the first one does, as far as the correspondence tells, and leaves
corresponding definitions. -/
def Retraces (Q : α → β → Prop) (x : EStateM.Result ProgramError Block α)
    (y : EStateM.Result ProgramError Block β) : Prop :=
  match x with
  | .ok a b => ∃ a' b', y = .ok a' b' ∧ Q a a' ∧ C.Blocks b b'
  | .error e b => C.faithful → ∃ e' b', y = .error e' b' ∧ C.Errors e e' ∧ C.Blocks b b'

variable {C} {f : NodeId → NodeId}

/-! ### Tables -/

namespace Tables

variable {d d' e e' : Resolutions} {id : NodeId}

private theorem empty : C.Tables f .empty .empty := ⟨rfl, .nil⟩

private theorem append (h₁ : C.Tables f d d') (h₂ : C.Tables f e e') :
    C.Tables f (d ++ e) (d' ++ e') where
  types := by
    rw [Resolutions.types_append, Resolutions.types_append, List.map_append, h₁.types, h₂.types]
  bindings := List.rel_append h₁.bindings h₂.bindings

private theorem ofType (t : Ty) : C.Tables f (.ofType id t) (.ofType (f id) t) := ⟨rfl, .nil⟩

private theorem ofBinding {x y : Binding} (h : C.Bindings x y) :
    C.Tables f (.ofBinding id x) (.ofBinding (f id) y) := ⟨rfl, .cons ⟨rfl, h⟩ .nil⟩

private theorem ofBound {x y : Binding} (h : C.Bindings x y) (t : Ty) :
    C.Tables f (.ofBound id x t) (.ofBound (f id) y t) := (ofType t).append (ofBinding h)

end Tables

/-! ### Steps with a current block -/

namespace Retraces

variable {Q : α → β → Prop} {P : γ → δ → Prop} {b b' c c' : Block}

private theorem pure {a : α} {a' : β} (ha : Q a a') (hb : C.Blocks b b') :
    C.Retraces Q ((Pure.pure a : ElabM α) b) ((Pure.pure a' : ElabM β) b') :=
  ⟨a', b', rfl, ha, hb⟩

private theorem bind {x : ElabM α} {y : ElabM β} {k : α → ElabM γ} {k' : β → ElabM δ}
    (h : C.Retraces Q (x b) (y b'))
    (hk : ∀ a a' c c', Q a a' → C.Blocks c c' → C.Retraces P (k a c) (k' a' c')) :
    C.Retraces P ((x >>= k) b) ((y >>= k') b') := by
  change C.Retraces P (EStateM.bind x k b) (EStateM.bind y k' b')
  unfold EStateM.bind
  cases hx : x b with
  | ok a c =>
    rw [hx] at h
    obtain ⟨a', c', hy, ha, hc⟩ := h
    rw [hy]
    exact hk a a' c c' ha hc
  | error e c =>
    rw [hx] at h
    intro hl
    obtain ⟨e', c', hy, he, hc⟩ := h hl
    exact ⟨e', c', by rw [hy], he, hc⟩

private theorem obey {x : Except ProgramError α} {y : Except ProgramError β} (h : C.Repeats Q x y)
    (hb : C.Blocks b b') : C.Retraces Q (ElabM.obey x b) (ElabM.obey y b') := by
  cases x with
  | ok a =>
    obtain ⟨a', rfl, ha⟩ := h
    exact ⟨a', b', rfl, ha, hb⟩
  | error e =>
    intro hl
    obtain ⟨e', rfl, he⟩ := h hl
    exact ⟨e', b', rfl, he, hb⟩

/-- A rule that both runs follow. -/
theorem rule_bind {x : Except ProgramError α} {k : α → ElabM γ} {k' : α → ElabM δ}
    (hb : C.Blocks b b') (hk : ∀ a, C.Retraces P (k a b) (k' a b')) :
    C.Retraces P ((ElabM.obey x >>= k) b) ((ElabM.obey x >>= k') b') := by
  cases x with
  | ok a => exact hk a
  | error e => exact fun _ ↦ ⟨e, b', rfl, .refl e, hb⟩

private theorem get_bind {k : Block → ElabM γ} {k' : Block → ElabM δ}
    (h : C.Retraces P (k b b) (k' b' b')) : C.Retraces P ((get >>= k) b) ((get >>= k') b') := h

private theorem define {k k' : Block → Except ProgramError Block} (hb : C.Blocks b b')
    (h : C.Repeats C.Blocks (k b) (k' b')) :
    C.Retraces (fun _ _ ↦ True) (ElabM.define k b) (ElabM.define k' b') := by
  unfold ElabM.define
  cases hx : k b with
  | ok c =>
    rw [hx] at h
    obtain ⟨c', hy, hc⟩ := h
    rw [hy]
    exact ⟨(), c', rfl, trivial, hc⟩
  | error e =>
    rw [hx] at h
    intro hl
    obtain ⟨e', hy, he⟩ := h hl
    rw [hy]
    exact ⟨e', b', rfl, he, hb⟩

/-- What is done in a block of its own does not change the current one. -/
theorem within {x : ElabM α} {y : ElabM β} (h : C.Retraces Q (x c) (y c')) (hb : C.Blocks b b') :
    C.Retraces Q (ElabM.within c x b) (ElabM.within c' y b') := by
  unfold ElabM.within
  cases hx : x c with
  | ok a c₁ =>
    rw [hx] at h
    obtain ⟨a', c₁', hy, ha, _⟩ := h
    rw [hy]
    exact ⟨a', b', rfl, ha, hb⟩
  | error e c₁ =>
    rw [hx] at h
    intro hl
    obtain ⟨e', c₁', hy, he, _⟩ := h hl
    rw [hy]
    exact ⟨e', b', rfl, he, hb⟩

end Retraces

namespace Places

variable {env env' : Env} {b b' : Block}

private theorem inside (h : C.Places env env') (hb : C.Blocks b b') :
    C.Places (env.inside b) (env'.inside b') where
  members := h.members
  catalog := h.catalog
  outer := h.outer.cons hb
  returns := h.returns

private theorem inMethod (h : C.Places env env') (hb : C.Blocks b b') {g g' : Function}
    (hg : C.Functions g g') : C.Places (env.inMethod b g) (env'.inMethod b' g') where
  members := h.members
  catalog := h.catalog
  outer := h.outer.cons hb
  returns := by rw [Env.inMethod, Env.inMethod, hg.returns_eq]

end Places

/-! ### Expressions -/

private theorem known_of_literalType {value : Literal} {t : Ty}
    (h : Rules.literalType value = .ok t) :
    C.known t := by
  obtain ⟨b, rfl⟩ := Rules.builtin_of_literalType h
  exact C.known_builtin b

private theorem known_of_binaryType {operator : Text} {left right t : Ty}
    (h : Rules.binaryType operator left right = .ok t) : C.known t := by
  obtain ⟨b, rfl⟩ := Rules.builtin_of_binaryType h
  exact C.known_builtin b

section Expressions

variable {scopes scopes' : Scopes} {chain chain' : Chain}

mutual

/-- An expression has the same type in corresponding places. -/
theorem expr_repeats
    (hm : ∀ t, C.known t → C.fixed.Chains (scopes.members t) (scopes'.members t))
    (hc : C.Chains chain chain') (e : Expr NodeId) :
    C.Repeats (fun p q ↦ q.1 = p.1 ∧ C.known p.1 ∧ C.Tables f p.2 q.2)
      (e.elaborate scopes chain) (((e.map f).rename C.rename).elaborate scopes' chain') := by
  match e with
  | .literal tag value =>
    simp only [Expr.map, Expr.rename, Expr.elaborate]
    refine Repeats.rule_bind fun t ht ↦ ?_
    exact .ok ⟨rfl, known_of_literalType ht, .ofType t⟩
  | .group tag inner =>
    simp only [Expr.map, Expr.rename, Expr.elaborate, Expr.kind_map, Expr.kind_rename]
    refine Repeats.rule_bind fun _ _ ↦ ?_
    refine Repeats.bind (expr_repeats hm hc inner) ?_
    rintro ⟨t, d⟩ ⟨_, d'⟩ _ ⟨rfl, ht, hd⟩
    exact .ok ⟨rfl, ht, (Tables.ofType _).append hd⟩
  | .binary tag operator left right =>
    simp only [Expr.map, Expr.rename, Expr.elaborate]
    refine Repeats.bind (expr_repeats hm hc left) ?_
    rintro ⟨t₁, d₁⟩ ⟨_, d₁'⟩ _ ⟨rfl, _, hd₁⟩
    refine Repeats.bind (expr_repeats hm hc right) ?_
    rintro ⟨t₂, d₂⟩ ⟨_, d₂'⟩ _ ⟨rfl, _, hd₂⟩
    refine Repeats.rule_bind fun t ht ↦ ?_
    exact .ok ⟨rfl, known_of_binaryType ht, (Tables.ofType t).append (hd₂.append hd₁)⟩
  | .access tag none name =>
    simp only [Expr.map, Expr.rename, Expr.elaborate]
    refine Repeats.bind (hc.lookupVariable name) fun v w _ hvw ↦ ?_
    refine .ok ⟨hvw.type_eq, hvw.known, ?_⟩
    rw [hvw.type_eq]
    exact .ofBound (.ofVariable hvw) _
  | .access tag (some receiver) name =>
    simp only [Expr.map, Expr.rename, Expr.elaborate]
    refine Repeats.bind (expr_repeats hm hc receiver) ?_
    rintro ⟨owner, d⟩ ⟨_, d'⟩ _ ⟨rfl, ho, hd⟩
    refine Repeats.bind ((hm _ ho).lookupField name) fun v w _ hvw ↦ ?_
    refine .ok ⟨hvw.type_eq, hvw.known, ?_⟩
    rw [hvw.type_eq]
    exact (Tables.ofBound (.ofField hvw) _).append hd
  | .call tag none name arguments =>
    simp only [Expr.map, Expr.rename, Expr.elaborate, Expr.length_mapAll, Expr.length_renameAll]
    refine Repeats.bind (exprs_repeat hm hc arguments) ?_
    rintro ⟨ts, d⟩ ⟨_, d'⟩ _ ⟨rfl, hd⟩
    refine Repeats.bind (hc.lookupFunction name _) fun g g' _ hg ↦ ?_
    refine Repeats.bind (hg.arguments _) fun _ _ _ _ ↦ ?_
    refine .ok ⟨hg.returns_eq, hg.known, ?_⟩
    rw [hg.returns_eq]
    exact (Tables.ofBound (.ofFunction hg) _).append hd
  | .call tag (some receiver) name arguments =>
    simp only [Expr.map, Expr.rename, Expr.elaborate, Expr.length_mapAll, Expr.length_renameAll]
    refine Repeats.bind (exprs_repeat hm hc arguments) ?_
    rintro ⟨ts, d₁⟩ ⟨_, d₁'⟩ _ ⟨rfl, hd₁⟩
    refine Repeats.bind (expr_repeats hm hc receiver) ?_
    rintro ⟨owner, d₂⟩ ⟨_, d₂'⟩ _ ⟨rfl, ho, hd₂⟩
    refine Repeats.bind ((hm _ ho).lookupMethod name _) fun g g' _ hg ↦ ?_
    refine Repeats.bind (hg.methodArguments _) fun _ _ _ _ ↦ ?_
    refine .ok ⟨hg.returns_eq, hg.known, ?_⟩
    rw [hg.returns_eq]
    exact (Tables.ofBound (.ofFunction hg) _).append (hd₂.append hd₁)

private theorem exprs_repeat
    (hm : ∀ t, C.known t → C.fixed.Chains (scopes.members t) (scopes'.members t))
    (hc : C.Chains chain chain') (es : List (Expr NodeId)) :
    C.Repeats (fun p q ↦ q.1 = p.1 ∧ C.Tables f p.2 q.2) (Expr.elaborateAll scopes chain es)
      (Expr.elaborateAll scopes' chain' (Expr.renameAll C.rename (Expr.mapAll f es))) := by
  match es with
  | [] => exact .ok ⟨rfl, .empty⟩
  | e :: es =>
    simp only [Expr.mapAll, Expr.renameAll, Expr.elaborateAll]
    refine Repeats.bind (expr_repeats hm hc e) ?_
    rintro ⟨t, d₁⟩ ⟨_, d₁'⟩ _ ⟨rfl, _, hd₁⟩
    refine Repeats.bind (exprs_repeat hm hc es) ?_
    rintro ⟨ts, d₂⟩ ⟨_, d₂'⟩ _ ⟨rfl, hd₂⟩
    exact .ok ⟨rfl, hd₂.append hd₁⟩

end

/-- The target of an assignment is a corresponding variable or field. -/
theorem target_repeats
    (hm : ∀ t, C.known t → C.fixed.Chains (scopes.members t) (scopes'.members t))
    (hc : C.Chains chain chain') (e : Expr NodeId) :
    C.Repeats (fun p q ↦ C.Bindings (.variable p.1) (.variable q.1) ∧ C.Tables f p.2 q.2)
      (e.elaborateTarget scopes chain)
      (((e.map f).rename C.rename).elaborateTarget scopes' chain') := by
  match e with
  | .access tag none name =>
    simp only [Expr.map, Expr.rename, Expr.elaborateTarget]
    refine Repeats.bind (hc.lookupVariable name) fun v w _ hvw ↦ ?_
    refine .ok ⟨.ofVariable hvw, ?_⟩
    rw [hvw.type_eq]
    exact .ofBound (.ofVariable hvw) _
  | .access tag (some receiver) name =>
    simp only [Expr.map, Expr.rename, Expr.elaborateTarget]
    refine Repeats.bind (expr_repeats hm hc receiver) ?_
    rintro ⟨owner, d⟩ ⟨_, d'⟩ _ ⟨rfl, ho, hd⟩
    refine Repeats.bind ((hm _ ho).lookupField name) fun v w _ hvw ↦ ?_
    refine .ok ⟨.ofField hvw, ?_⟩
    rw [hvw.type_eq]
    exact (Tables.ofBound (.ofField hvw) _).append hd
  | .literal _ _ => exact .error (.refl _)
  | .group _ _ => exact .error (.refl _)
  | .binary _ _ _ _ => exact .error (.refl _)
  | .call _ none _ _ => exact .error (.refl _)
  | .call _ (some _) _ _ => exact .error (.refl _)

end Expressions

/-! ### Statements -/

section Statements

variable {env env' : Env} {b b' : Block}

private theorem elaborate_retraces (h : C.Places env env') (hb : C.Blocks b b') (e : Expr NodeId) :
    C.Retraces (fun p q ↦ q.1 = p.1 ∧ C.known p.1 ∧ C.Tables f p.2 q.2)
      (env.elaborate e b) (env'.elaborate ((e.map f).rename C.rename) b') :=
  Retraces.obey (expr_repeats h.members (h.outer.cons hb) e) hb

private theorem option_retraces (h : C.Places env env') (hb : C.Blocks b b')
    (e : Option (Expr NodeId)) :
    C.Retraces (fun p q ↦ q.1 = p.1 ∧ (∀ t ∈ p.1, C.known t) ∧ C.Tables f p.2 q.2)
      (env.elaborateOption e b)
      (env'.elaborateOption (Expr.renameOption C.rename (e.map fun e ↦ e.map f)) b') := by
  cases e with
  | none => exact Retraces.pure ⟨rfl, nofun, .empty⟩ hb
  | some e =>
    refine Retraces.bind (elaborate_retraces h hb e) ?_
    rintro ⟨t, d⟩ ⟨_, d'⟩ c c' ⟨rfl, ht, hd⟩ hc
    refine Retraces.pure ⟨rfl, ?_, hd⟩ hc
    rintro _ ⟨⟩
    exact ht

private theorem condition_retraces (h : C.Places env env') (hb : C.Blocks b b')
    (construct : Construct) (e : Expr NodeId) :
    C.Retraces (C.Tables f) (env.elaborateCondition construct e b)
      (env'.elaborateCondition construct ((e.map f).rename C.rename) b') := by
  refine Retraces.bind (elaborate_retraces h hb e) ?_
  rintro ⟨t, d⟩ ⟨_, d'⟩ c c' ⟨rfl, _, hd⟩ hc
  exact Retraces.rule_bind hc fun _ ↦ .pure hd hc

private theorem nested_retraces {Q : α → β → Prop} {x : Env → ElabM α} {y : Env → ElabM β}
    (hb : C.Blocks b b')
    (hxy : C.Retraces Q (x (env.inside b) .empty) (y (env'.inside b') .empty)) :
    C.Retraces Q (env.elaborateNested x b) (env'.elaborateNested y b') :=
  Retraces.within hxy hb

private theorem declaration_retraces (hf : C.Relabels f) (h : C.Places env env')
    (hb : C.Blocks b b')
    (tag : NodeId) (name : Text) (typeName : Option Text) (value : Option (Expr NodeId)) :
    C.Retraces (fun p q ↦ q.1 = p.1 ∧ C.Tables f p.2 q.2)
      (Stmt.elaborateDeclaration env tag name typeName value b)
      (Stmt.elaborateDeclaration env' (f tag) (C.rename name) typeName
        (Expr.renameOption C.rename (value.map fun e ↦ e.map f)) b') := by
  refine Retraces.bind (option_retraces h hb value) ?_
  rintro ⟨found, d⟩ ⟨_, d'⟩ c c' ⟨rfl, hk, hd⟩ hc
  refine Retraces.bind (.obey (h.catalog.declaredType name typeName hk) hc) ?_
  rintro t _ c c' ⟨rfl, ht⟩ hc
  have hv : C.Variables ⟨name, name, _, false, .node tag⟩
      ⟨C.rename name, C.rename name, _, false, .node (f tag)⟩ := .declared name ht (hf.node tag)
  refine Retraces.bind (.define hc (hc.defineVariable hv)) fun _ _ c c' _ hc ↦ ?_
  exact .pure ⟨rfl, (Tables.ofBinding (.ofVariable hv)).append hd⟩ hc

private theorem assignment_retraces (h : C.Places env env') (hb : C.Blocks b b')
    (receiver value : Expr NodeId) :
    C.Retraces (fun p q ↦ q.1 = p.1 ∧ C.Tables f p.2 q.2)
      (Stmt.elaborateAssignment env receiver value b)
      (Stmt.elaborateAssignment env' ((receiver.map f).rename C.rename)
        ((value.map f).rename C.rename) b') := by
  refine Retraces.get_bind ?_
  refine Retraces.bind (.obey (target_repeats h.members (h.outer.cons hb) receiver) hb) ?_
  rintro ⟨v, d₁⟩ ⟨w, d₁'⟩ c c' ⟨(hvw : C.Bindings (.variable v) (.variable w)), hd₁⟩ hc
  refine Retraces.bind (elaborate_retraces h hc value) ?_
  rintro ⟨found, d₂⟩ ⟨_, d₂'⟩ c c' ⟨rfl, _, hd₂⟩ hc
  simp only [hvw.constant_eq, hvw.type_eq]
  refine Retraces.bind (.obey (Repeats.require Iff.rfl hvw.errors) hc) fun _ _ c c' _ hc ↦ ?_
  refine Retraces.rule_bind hc fun _ ↦ ?_
  exact .pure ⟨rfl, hd₂.append hd₁⟩ hc

private theorem requireStep_rename (control : Option Ty) (s : Stmt NodeId) (set : Option Ty) :
    Stmt.requireStep control ((s.map f).rename C.rename) set = Stmt.requireStep control s set := by
  cases s <;> cases control <;> cases set <;> rfl

mutual

/-- A statement is checked alike in corresponding places. -/
theorem stmt_retraces (hf : C.Relabels f) (s : Stmt NodeId) {env env' : Env} {b b' : Block}
    (h : C.Places env env') (hb : C.Blocks b b') :
    C.Retraces (fun p q ↦ q.1 = p.1 ∧ C.Tables f p.2 q.2)
      (s.elaborate env b) (((s.map f).rename C.rename).elaborate env' b') := by
  match s with
  | .expression tag e =>
    simp only [Stmt.map, Stmt.rename, Stmt.elaborate, Expr.kind_map, Expr.kind_rename]
    refine Retraces.rule_bind hb fun _ ↦ ?_
    refine Retraces.bind (elaborate_retraces h hb e) ?_
    rintro ⟨t, d⟩ ⟨_, d'⟩ c c' ⟨rfl, _, hd⟩ hc
    exact .pure ⟨rfl, hd⟩ hc
  | .declaration tag name typeName value =>
    simp only [Stmt.map, Stmt.rename, Stmt.elaborate_declaration]
    exact declaration_retraces hf h hb tag name typeName value
  | .assignment tag receiver value =>
    simp only [Stmt.map, Stmt.rename, Stmt.elaborate_assignment]
    exact assignment_retraces h hb receiver value
  | .ifElse tag condition thenBody elseBody =>
    simp only [Stmt.map, Stmt.rename, Stmt.elaborate, ne_eq, Stmt.renameAll_eq_nil_iff,
      Stmt.mapAll_eq_nil_iff]
    refine Retraces.rule_bind hb fun _ ↦ ?_
    refine Retraces.bind (condition_retraces h hb .ifElse condition) fun d₁ d₁' b b' hd₁ hb ↦ ?_
    refine Retraces.bind (nested_retraces hb (stmts_retrace hf thenBody (h.inside hb) .empty))
      fun d₂ d₂' b b' hd₂ hb ↦ ?_
    refine Retraces.bind (nested_retraces hb (stmts_retrace hf elseBody (h.inside hb) .empty))
      fun d₃ d₃' b b' hd₃ hb ↦ ?_
    exact .pure ⟨rfl, hd₃.append (hd₂.append hd₁)⟩ hb
  | .forLoop tag initialization condition increment body =>
    simp only [Stmt.map, Stmt.rename, Stmt.elaborate, ne_eq, Stmt.renameAll_eq_nil_iff,
      Stmt.mapAll_eq_nil_iff]
    refine Retraces.rule_bind hb fun _ ↦ ?_
    refine Retraces.bind (first_retraces hf initialization h hb) ?_
    rintro ⟨control, d₁⟩ ⟨_, d₁'⟩ b b' ⟨rfl, hd₁⟩ hb
    refine Retraces.bind (condition_retraces h hb .forLoop condition) fun d₂ d₂' b b' hd₂ hb ↦ ?_
    refine Retraces.bind (step_retraces hf increment h hb) fun d₃ d₃' b b' hd₃ hb ↦ ?_
    refine Retraces.bind (nested_retraces hb (stmts_retrace hf body (h.inside hb) .empty))
      fun d₄ d₄' b b' hd₄ hb ↦ ?_
    exact .pure ⟨rfl, hd₄.append (hd₃.append (hd₂.append hd₁))⟩ hb
  | .whileLoop tag condition body =>
    simp only [Stmt.map, Stmt.rename, Stmt.elaborate]
    refine Retraces.bind (condition_retraces h hb .whileLoop condition) fun d₁ d₁' b b' hd₁ hb ↦ ?_
    refine Retraces.bind (nested_retraces hb (stmts_retrace hf body (h.inside hb) .empty))
      fun d₂ d₂' b b' hd₂ hb ↦ ?_
    exact .pure ⟨rfl, hd₂.append hd₁⟩ hb
  | .ret tag value =>
    simp only [Stmt.map, Stmt.rename, Stmt.elaborate, h.returns]
    refine Retraces.bind (elaborate_retraces h hb value) ?_
    rintro ⟨found, d⟩ ⟨_, d'⟩ b b' ⟨rfl, _, hd⟩ hb
    exact Retraces.rule_bind hb fun _ ↦ .pure ⟨rfl, hd⟩ hb

private theorem first_retraces (hf : C.Relabels f) (s : Option (Stmt NodeId)) {env env' : Env}
    {b b' : Block} (h : C.Places env env') (hb : C.Blocks b b') :
    C.Retraces (fun p q ↦ q.1 = p.1 ∧ C.Tables f p.2 q.2) (Stmt.elaborateFirst env s b)
      (Stmt.elaborateFirst env' (Stmt.renameOption C.rename (Stmt.mapOption f s)) b') := by
  match s with
  | none =>
    simp only [Stmt.mapOption, Stmt.renameOption, Stmt.elaborateFirst]
    exact .pure ⟨rfl, .empty⟩ hb
  | some s =>
    simp only [Stmt.mapOption, Stmt.renameOption, Stmt.elaborateFirst]
    refine Retraces.bind (stmt_retraces hf s h hb) ?_
    rintro ⟨control, d⟩ ⟨_, d'⟩ b b' ⟨rfl, hd⟩ hb
    exact Retraces.rule_bind hb fun _ ↦ .pure ⟨rfl, hd⟩ hb

private theorem step_retraces (hf : C.Relabels f) (s : Option (Stmt NodeId)) {env env' : Env}
    {control : Option Ty} {b b' : Block} (h : C.Places env env') (hb : C.Blocks b b') :
    C.Retraces (C.Tables f) (Stmt.elaborateStep env control s b)
      (Stmt.elaborateStep env' control (Stmt.renameOption C.rename (Stmt.mapOption f s)) b') := by
  match s with
  | none =>
    simp only [Stmt.mapOption, Stmt.renameOption, Stmt.elaborateStep]
    exact .pure .empty hb
  | some s =>
    simp only [Stmt.mapOption, Stmt.renameOption, Stmt.elaborateStep, requireStep_rename]
    refine Retraces.bind (stmt_retraces hf s h hb) ?_
    rintro ⟨set, d⟩ ⟨_, d'⟩ b b' ⟨rfl, hd⟩ hb
    exact Retraces.rule_bind hb fun _ ↦ .pure hd hb

private theorem stmts_retrace (hf : C.Relabels f) (ss : List (Stmt NodeId)) {env env' : Env}
    {b b' : Block} (h : C.Places env env') (hb : C.Blocks b b') :
    C.Retraces (C.Tables f) (Stmt.elaborateAll env ss b)
      (Stmt.elaborateAll env' (Stmt.renameAll C.rename (Stmt.mapAll f ss)) b') := by
  match ss with
  | [] =>
    simp only [Stmt.mapAll, Stmt.renameAll, Stmt.elaborateAll]
    exact .pure .empty hb
  | s :: ss =>
    simp only [Stmt.mapAll, Stmt.renameAll, Stmt.elaborateAll]
    refine Retraces.bind (stmt_retraces hf s h hb) ?_
    rintro ⟨set, d₁⟩ ⟨_, d₁'⟩ b b' ⟨_, hd₁⟩ hb
    refine Retraces.bind (stmts_retrace hf ss h hb) fun d₂ d₂' b b' hd₂ hb ↦ ?_
    exact .pure (hd₂.append hd₁) hb

end

end Statements

/-! ### Fields, methods and sources -/

section Sources

variable {env env' : Env} {b b' : Block}

private theorem value_repeats (d : Field NodeId) (t : Ty) (found : Option Ty) :
    C.Repeats (fun _ _ ↦ True) (d.requireValue t found)
      (((d.map f).rename C.rename).requireValue t found) := by
  cases found with
  | none => exact .require Iff.rfl (.renamed .constantWithoutValue (fun _ _ ↦ rfl) d.name)
  | some found => exact (Repeats.self _).mono fun _ _ _ ↦ trivial

private theorem field_retraces (hf : C.Relabels f) (h : C.Places env env') (hb : C.Blocks b b')
    (d : Field NodeId) :
    C.Retraces (C.Tables f) (d.elaborate env b)
      (((d.map f).rename C.rename).elaborate env' b') := by
  refine Retraces.bind (.obey (h.catalog.resolve d.typeName) hb) ?_
  rintro t _ c c' ⟨rfl, ht⟩ hc
  refine Retraces.bind (option_retraces h hc d.value) ?_
  rintro ⟨found, r⟩ ⟨_, r'⟩ c c' ⟨rfl, _, hr⟩ hc
  refine Retraces.bind (.obey (value_repeats d _ _) hc) fun _ _ c c' _ hc ↦ ?_
  have hv : C.Variables ⟨d.name, d.name, _, d.constant, .node d.tag⟩
      ⟨C.rename d.name, C.rename d.name, _, d.constant, .node (f d.tag)⟩ :=
    .declared d.name ht (hf.node d.tag)
  refine Retraces.bind (.define hc (hc.defineVariable hv)) fun _ _ c c' _ hc ↦ ?_
  exact .pure ((Tables.ofBinding (.ofVariable hv)).append hr) hc

/-- Corresponding runs through the fields of a source correspond. -/
theorem fields_retrace (hf : C.Relabels f) (h : C.Places env env') (hb : C.Blocks b b')
    (ds : List (Field NodeId)) :
    C.Retraces (C.Tables f) (Field.elaborateAll env ds b)
      (Field.elaborateAll env' ((ds.map fun d ↦ d.map f).map (Field.rename C.rename)) b') := by
  induction ds generalizing b b' with
  | nil => exact .pure .empty hb
  | cons d ds ih =>
    refine Retraces.bind (field_retraces hf h hb d) fun d₁ d₁' b b' hd₁ hb ↦ ?_
    refine Retraces.bind (ih hb) fun d₂ d₂' b b' hd₂ hb ↦ ?_
    exact .pure (hd₂.append hd₁) hb

private theorem signature_repeats (hf : C.Relabels f) {c c' : Catalog} (h : C.Catalogs c c')
    (m : Method NodeId) :
    C.Repeats
      (fun g g' ↦ C.Functions g g' ∧ g'.parameters = g.parameters ∧ ∀ p ∈ g.parameters, C.known p)
      (m.signature c) (((m.map f).rename C.rename).signature c') := by
  have hl : ((m.map f).rename C.rename).parameters.length = m.parameters.length :=
    List.length_map _
  unfold Method.signature
  rw [hl]
  refine Repeats.rule_bind fun _ _ ↦ ?_
  refine Repeats.bind (h.resolveAll m.parameterTypes) ?_
  rintro ps _ _ ⟨rfl, hps⟩
  refine Repeats.bind (h.resolveReturn m.returnType) ?_
  rintro t _ _ ⟨rfl, ht⟩
  exact .ok ⟨.declared ht (hf.node m.tag), rfl, hps⟩

/-- Corresponding runs through a method correspond. -/
theorem method_retraces (hf : C.Relabels f) (h : C.Places env env') (hb : C.Blocks b b')
    (m : Method NodeId) :
    C.Retraces (C.Tables f) (m.elaborate env b)
      (((m.map f).rename C.rename).elaborate env' b') := by
  refine Retraces.bind (.obey (signature_repeats hf h.catalog m) hb) ?_
  rintro g g' c c' ⟨hg, hparameters, hps⟩ hc
  refine Retraces.bind (.define hc (hc.defineFunction hg)) fun _ _ c c' _ hc ↦ ?_
  have hp : ∀ p ∈ m.parameters.zip g.parameters, C.known p.2 :=
    fun p hp ↦ hps p.2 (List.of_mem_zip hp).2
  have hz : ((m.map f).rename C.rename).parameters.zip g'.parameters =
      (m.parameters.zip g.parameters).map fun p ↦ (C.rename p.1, p.2) := by
    rw [hparameters]
    exact List.zip_map_left
  refine Retraces.get_bind ?_
  rw [hz]
  refine Retraces.bind (.obey (Blocks.empty.defineParameters (hf.parameter m.tag) hp) hc)
    fun block block' c₁ c₁' hblock hc₁ ↦ ?_
  refine Retraces.bind (.within (stmts_retrace hf m.body (h.inMethod hc hg) hblock) hc₁)
    fun d d' c c' hd hc ↦ ?_
  exact .pure (hd.append (.ofBinding (.ofFunction hg))) hc

private theorem methods_retrace (hf : C.Relabels f) (h : C.Places env env') (hb : C.Blocks b b')
    (ms : List (Method NodeId)) :
    C.Retraces (C.Tables f) (Method.elaborateAll env ms b)
      (Method.elaborateAll env' ((ms.map fun m ↦ m.map f).map (Method.rename C.rename)) b') := by
  induction ms generalizing b b' with
  | nil => exact .pure .empty hb
  | cons m ms ih =>
    refine Retraces.bind (method_retraces hf h hb m) fun d₁ d₁' b b' hd₁ hb ↦ ?_
    refine Retraces.bind (ih hb) fun d₂ d₂' b b' hd₂ hb ↦ ?_
    exact .pure (hd₂.append hd₁) hb

/-- A tree of any kind is elaborated alike in corresponding places. -/
theorem node_retraces (hf : C.Relabels f) (h : C.Places env env') (hb : C.Blocks b b')
    (tree : Node NodeId) :
    C.Retraces (C.Tables f) (tree.elaborate env b)
      (((tree.map f).rename C.rename).elaborate env' b') := by
  cases tree with
  | source s =>
    refine Retraces.bind (fields_retrace hf h hb s.fields) fun d₁ d₁' b b' hd₁ hb ↦ ?_
    refine Retraces.bind (methods_retrace hf h hb s.methods) fun d₂ d₂' b b' hd₂ hb ↦ ?_
    refine Retraces.get_bind ?_
    refine Retraces.bind (.obey (h.outer.cons hb).requireEntryPoint hb) fun _ _ b b' _ hb ↦ ?_
    exact .pure (hd₂.append hd₁) hb
  | field d => exact field_retraces hf h hb d
  | method m => exact method_retraces hf h hb m
  | stmt s =>
    refine Retraces.bind (stmt_retraces hf s h hb) fun p q b b' hpq hb ↦ ?_
    exact .pure hpq.2 hb
  | expr e =>
    refine Retraces.bind (elaborate_retraces h hb e) fun p q b b' hpq hb ↦ ?_
    exact .pure hpq.2.2 hb

end Sources

/-! ### Analyses -/

section Analyses

variable {s s' : Symbols} {parent parent' : Option ScopeId}

/-- Tables under the same identities have the same types. -/
theorem Tables.type?_id {r r' : Resolutions} (h : C.Tables id r r') (k : NodeId) :
    r'.type? k = r.type? k := by
  unfold Resolutions.type?
  rw [h.types]
  exact congrArg _ (List.map_id _)

/-- A tree that is accepted is accepted in a corresponding place. -/
theorem analyze_ok_retraces {tree : Node α} {n : NodeId} {r : Resolutions} (hf : C.Relabels id)
    (h : C.Places (s.top parent) (s'.top parent')) (hb : C.Blocks s.topBlock s'.topBlock)
    (hr : (s.analyze parent (tree.label n)).result = .ok r) :
    ∃ r', (s'.analyze parent' ((tree.rename C.rename).label n)).result = .ok r' ∧
      C.Tables id r r' := by
  obtain ⟨b, he⟩ := (Symbols.analyze_ok_iff_elaborate (Node.nodup_ids_label n tree)).mp hr
  have ht := node_retraces hf h hb (tree.label n)
  rw [Node.map_id, ← Node.label_rename, he] at ht
  obtain ⟨r', b', he', hr', _⟩ := ht
  exact ⟨r', (Symbols.analyze_ok_iff_elaborate (Node.nodup_ids_label n _)).mpr ⟨b', he'⟩, hr'⟩

/-- A tree that is rejected is rejected in a corresponding place, if the correspondence is
faithful. -/
theorem analyze_error_retraces {tree : Node α} {n : NodeId} {e : ProgramError}
    (hl : C.faithful) (hf : C.Relabels id) (h : C.Places (s.top parent) (s'.top parent'))
    (hb : C.Blocks s.topBlock s'.topBlock)
    (he : (s.analyze parent (tree.label n)).result = .error (.error e)) :
    ∃ e', (s'.analyze parent' ((tree.rename C.rename).label n)).result = .error (.error e') ∧
      C.Errors e e' := by
  have ht := node_retraces hf h hb (tree.label n)
  rw [Node.map_id, ← Node.label_rename] at ht
  rw [Symbols.analyze_eq_elaborate (Node.nodup_ids_label n tree)] at he
  rw [Symbols.analyze_eq_elaborate (Node.nodup_ids_label n _)]
  cases hx : (tree.label n).elaborate (s.top parent) s.topBlock with
  | ok r b =>
    rw [hx] at he
    cases he
  | error e₀ b =>
    rw [hx] at he ht
    cases he
    obtain ⟨e', b', hy, hee, _⟩ := ht hl
    exact ⟨e', by rw [hy]; rfl, hee⟩

end Analyses

end Correspondence

end TreeCheck
