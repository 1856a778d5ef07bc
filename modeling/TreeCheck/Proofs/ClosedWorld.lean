import TreeCheck.Proofs.Inference
import TreeCheck.Proofs.Visits

/-!
# A closed world of types

If the catalog lists all types that visible definitions and members of types mention, then
elaboration only finds types of the catalog, and so do the definitions it makes. A receiver is
therefore always of a type whose methods take it as their first parameter.
-/

namespace TreeCheck

/-- The definitions of a block only mention types of the catalog. -/
structure Block.Known (c : Catalog) (b : Block) : Prop where
  vars : ∀ v ∈ b.vars, v.type ∈ c.types
  parameters : ∀ f ∈ b.funs, ∀ p ∈ f.parameters, p ∈ c.types
  returns : ∀ f ∈ b.funs, f.returns ∈ c.types

/-- The functions of a block are methods of a type: they take a receiver of that type first. -/
def Block.MethodsOf (o : ObjectType) (b : Block) : Prop :=
  ∀ f ∈ b.funs, f.parameters.head? = some (.object o)

/-- The members of the types in a catalog only mention types of the catalog. -/
structure Catalog.Closed (c : Catalog) (members : Ty → Chain) : Prop where
  builtins : ∀ b, .builtin b ∈ c.types
  known : ∀ o, .object o ∈ c.types → ∀ b ∈ members (.object o), b.Known c
  methods : ∀ o, .object o ∈ c.types → ∀ b ∈ members (.object o), b.MethodsOf o

/-- A place where only types of the catalog are mentioned. -/
structure Env.Closed (env : Env) (b : Block) : Prop where
  catalog : env.catalog.Closed env.scopes.members
  visible : ∀ block ∈ b :: env.outer, block.Known env.catalog

/-- A type that is found is in the catalog. -/
theorem Catalog.mem_of_find {c : Catalog} {name : Text} {t : Ty} (h : c.find? name = some t) :
    t ∈ c.types := List.mem_of_find?_eq_some h

namespace Chain

variable {c : Catalog} {chain : Chain} {name : Text}

/-- A variable that is found in blocks of known types has a known type. -/
theorem type_mem_of_findVariable {v : Variable} (hc : ∀ b ∈ chain, b.Known c)
    (h : chain.findVariable? name = some v) : v.type ∈ c.types := by
  obtain ⟨b, hb, hv⟩ := List.exists_of_findSome?_eq_some h
  exact (hc b hb).vars v (List.mem_of_find?_eq_some hv)

private theorem returns_mem_of_findFunction {arity : Int} {f : Function}
    (hc : ∀ b ∈ chain, b.Known c)
    (h : chain.findFunction? name arity = some f) : f.returns ∈ c.types := by
  obtain ⟨b, hb, hf⟩ := List.exists_of_findSome?_eq_some h
  exact (hc b hb).returns f (List.mem_of_find?_eq_some hf)

end Chain

namespace Catalog.Closed

variable {c : Catalog} {members : Ty → Chain} {owner : Ty} {name : Text}

/-- Whatever has members is an object type. -/
theorem known_of_mem (hc : c.Closed members) (hm : ∀ b, members (.builtin b) = [])
    (ho : owner ∈ c.types) : ∀ b ∈ members owner, b.Known c := by
  cases owner with
  | builtin b =>
    rw [hm b]
    exact List.forall_mem_nil _
  | object o => exact hc.known o ho

/-- A method takes its receiver as its first parameter. -/
theorem head_of_findFunction (hc : c.Closed members) (hm : ∀ b, members (.builtin b) = [])
    (ho : owner ∈ c.types) {arity : Int} {f : Function}
    (h : (members owner).findFunction? name arity = some f) : f.parameters.head? = some owner := by
  obtain ⟨b, hb, hf⟩ := List.exists_of_findSome?_eq_some h
  cases owner with
  | builtin =>
    rw [hm] at hb
    cases hb
  | object o => exact hc.methods o ho b hb f (List.mem_of_find?_eq_some hf)

end Catalog.Closed

/-- Nothing is found among the members of a built-in type. -/
theorem Scopes.members_builtin (s : Scopes) (b : Builtin) : s.members (.builtin b) = [] := rfl

/-! ### Expressions -/

private theorem Literal.HasType.mem {value : Literal} {t : Ty} {c : Catalog} {members : Ty → Chain}
    (hc : c.Closed members) (h : value.HasType t) : t ∈ c.types := by
  cases h <;> exact hc.builtins _

private theorem Operates.mem {operator : Text} {left right t : Ty} {c : Catalog}
    {members : Ty → Chain}
    (hc : c.Closed members) (h : Operates operator left right t) : t ∈ c.types := by
  cases h with
  | arithmetic _ ht =>
    obtain rfl | rfl := ht
    · exact hc.builtins _
    · exact hc.builtins _
  | logical => exact hc.builtins _
  | comparison => exact hc.builtins _
  | joinLeft => exact hc.builtins _
  | joinRight => exact hc.builtins _

/-- The type of an expression is in the catalog. -/
theorem Expr.type_mem_of_elaborate {env : Env} {b : Block} (hc : env.Closed b) {e : Expr NodeId}
    {t : Ty} {d : Resolutions} (h : e.elaborate env.scopes (b :: env.outer) = .ok (t, d)) :
    t ∈ env.catalog.types := by
  match e with
  | literal tag value =>
    obtain ⟨hv, _⟩ := elaborate_literal_ok_iff.mp h
    exact (Literal.hasType_iff.mpr hv).mem hc.catalog
  | group tag inner =>
    obtain ⟨_, d₁, hi, _⟩ := elaborate_group_ok_iff.mp h
    exact type_mem_of_elaborate hc hi
  | binary tag operator left right =>
    obtain ⟨t₁, d₁, t₂, d₂, _, _, ho, _⟩ := elaborate_binary_ok_iff.mp h
    exact (operates_iff.mpr ho).mem hc.catalog
  | access tag none name =>
    obtain ⟨v, hv, rfl, _⟩ := elaborate_variable_ok_iff.mp h
    exact Chain.type_mem_of_findVariable hc.visible hv
  | access tag (some receiver) name =>
    obtain ⟨owner, d₁, v, hr, hv, rfl, _⟩ := elaborate_field_ok_iff.mp h
    have ho := type_mem_of_elaborate hc hr
    exact Chain.type_mem_of_findVariable (hc.catalog.known_of_mem (Scopes.members_builtin _) ho) hv
  | call tag none name arguments =>
    obtain ⟨ts, d₁, f, _, hf, _, rfl, _⟩ := elaborate_function_ok_iff.mp h
    exact Chain.returns_mem_of_findFunction hc.visible hf
  | call tag (some receiver) name arguments =>
    obtain ⟨ts, d₁, owner, d₂, f, _, hr, hf, _, rfl, _⟩ := elaborate_method_ok_iff.mp h
    have ho := type_mem_of_elaborate hc hr
    exact Chain.returns_mem_of_findFunction
      (hc.catalog.known_of_mem (Scopes.members_builtin _) ho) hf

/-! ### Definitions -/

namespace Block.Known

variable {c : Catalog} {b : Block}

/-- An empty block has known types only. -/
theorem empty : Block.empty.Known c := ⟨nofun, nofun, nofun⟩

/-- A variable of a known type may be added. -/
theorem addVariable (h : b.Known c) {v : Variable} (hv : v.type ∈ c.types) :
    ({ b with vars := b.vars ++ [v] } : Block).Known c where
  vars := by
    rw [List.forall_mem_append, List.forall_mem_singleton]
    exact ⟨h.vars, hv⟩
  parameters := h.parameters
  returns := h.returns

/-- A function of known types may be added. -/
theorem addFunction (h : b.Known c) {f : Function} (hp : ∀ p ∈ f.parameters, p ∈ c.types)
    (hr : f.returns ∈ c.types) : ({ b with funs := b.funs ++ [f] } : Block).Known c where
  vars := h.vars
  parameters := by
    rw [List.forall_mem_append, List.forall_mem_singleton]
    exact ⟨h.parameters, hp⟩
  returns := by
    rw [List.forall_mem_append, List.forall_mem_singleton]
    exact ⟨h.returns, hr⟩

end Block.Known

/-- Types that are found by their names are in the catalog. -/
theorem Catalog.mem_of_resolveAll {c : Catalog} {names : List Text} {ts : List Ty}
    (h : List.Forall₂ (fun name t ↦ c.find? name = some t) names ts) : ∀ t ∈ ts, t ∈ c.types := by
  induction h with
  | nil => exact List.forall_mem_nil _
  | cons ht _ ih =>
    rw [List.forall_mem_cons]
    exact ⟨mem_of_find ht, ih⟩

/-- A return type that is resolved is in the catalog. -/
theorem Catalog.mem_of_resolveReturn {c : Catalog} (hc : ∀ b, .builtin b ∈ c.types)
    {name : Option Text} {t : Ty} (h : c.resolveReturn name = .ok t) : t ∈ c.types := by
  obtain ⟨n, _, ht⟩ | ⟨_, rfl⟩ := resolveReturn_ok_iff.mp h
  · exact mem_of_find ht
  · exact hc _

private theorem type_mem_of_parameterVariables {c : Catalog} {method position : Nat}
    {ps : List (Text × Ty)} (h : ∀ p ∈ ps, p.2 ∈ c.types) :
    ∀ v ∈ parameterVariables method position ps, v.type ∈ c.types := by
  induction ps generalizing position with
  | nil => exact List.forall_mem_nil _
  | cons p ps ih =>
    rw [List.forall_mem_cons] at h
    rw [parameterVariables, List.forall_mem_cons]
    exact ⟨h.1, ih h.2⟩

/-- A closed world stays closed. -/
theorem Env.Closed.invariant : Env.Invariant Env.Closed where
  nested h := by
    refine ⟨h.catalog, ?_⟩
    rw [List.forall_mem_cons]
    exact ⟨.empty, h.visible⟩
  declaration := by
    intro env b b' tag name typeName value set d hI h
    obtain ⟨found, d₁, t, hv, ht, _, hb, _⟩ := Stmt.elaborate_declaration_ok_iff.mp h
    obtain ⟨_, rfl⟩ := Block.defineVariable_ok_iff.mp hb
    have hmem : t ∈ env.catalog.types := by
      obtain ⟨n, _, hn, _⟩ | ⟨_, rfl⟩ := Stmt.declaredType_ok_iff.mp ht
      · exact Catalog.mem_of_find hn
      · cases value with
        | none => cases (Env.elaborateOption_none_ok_iff.mp hv).1
        | some e =>
          obtain ⟨_, he, ⟨⟩, _⟩ := Env.elaborateOption_some_ok_iff.mp hv
          exact Expr.type_mem_of_elaborate hI he
    obtain ⟨hc, hvis⟩ := hI
    rw [List.forall_mem_cons] at hvis
    refine ⟨hc, ?_⟩
    rw [List.forall_mem_cons]
    exact ⟨hvis.1.addVariable hmem, hvis.2⟩
  field := by
    intro env b b' d r hI h
    obtain ⟨t, found, d₁, ht, _, _, hb, _⟩ := Field.elaborate_ok_iff.mp h
    obtain ⟨_, rfl⟩ := Block.defineVariable_ok_iff.mp hb
    obtain ⟨hc, hvis⟩ := hI
    rw [List.forall_mem_cons] at hvis
    refine ⟨hc, ?_⟩
    rw [List.forall_mem_cons]
    exact ⟨hvis.1.addVariable (Catalog.mem_of_find ht), hvis.2⟩
  method := by
    intro env b b' m f hI hf hb
    obtain ⟨_, ps, t, hp, ht, rfl⟩ := Method.signature_ok_iff.mp hf
    obtain ⟨_, rfl⟩ := Block.defineFunction_ok_iff.mp hb
    obtain ⟨hc, hvis⟩ := hI
    rw [List.forall_mem_cons] at hvis
    have hps := Catalog.mem_of_resolveAll hp
    have hb' := hvis.1.addFunction (f := ⟨m.name, m.name, ps, t, .node m.tag⟩) hps
      (Catalog.mem_of_resolveReturn hc.builtins ht)
    have hvs : ∀ v ∈ parameterVariables m.tag 0 (m.parameters.zip ps), v.type ∈ env.catalog.types :=
      type_mem_of_parameterVariables fun p hp ↦ hps p.2 (List.of_mem_zip hp).2
    refine ⟨⟨hc, ?_⟩, ⟨hc, ?_⟩⟩
    · rw [List.forall_mem_cons]
      exact ⟨hb', hvis.2⟩
    · rw [List.forall_mem_cons]
      exact ⟨⟨hvs, nofun, nofun⟩, List.forall_mem_cons.mpr ⟨hb', hvis.2⟩⟩

/-- The function that a call with a receiver is bound to takes the receiver's type first. -/
theorem Expr.head_of_elaborated {r : Resolutions} {tag : NodeId} {receiver : Expr NodeId}
    {name : Text} {arguments : List (Expr NodeId)}
    (h : (Node.expr (call tag (some receiver) name arguments)).Elaborated Env.Closed r) :
    ∃ f owner, r.binding? tag = some (.function f) ∧ r.type? receiver.tag = some owner ∧
      f.parameters.head? = some owner := by
  obtain ⟨env, b, t, d, hc, h, hd⟩ := h
  obtain ⟨ts, d₁, owner, d₂, f, _, hr, hf, _, rfl, rfl⟩ := elaborate_method_ok_iff.mp h
  obtain ⟨hd, hd₁⟩ := Resolutions.within_append.mp hd
  refine ⟨f, owner, (Resolutions.within_ofBound.mp hd).2,
    type?_of_elaborate hr (Resolutions.within_append.mp hd₁).1, ?_⟩
  exact hc.catalog.head_of_findFunction (Scopes.members_builtin _) (type_mem_of_elaborate hc hr) hf

end TreeCheck
