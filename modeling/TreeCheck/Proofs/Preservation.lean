import TreeCheck.Proofs.ClosedWorld

/-!
# What checking keeps, also where it fails

Checking is put together from rules, lookups, definitions and entries in the table. Each of them
keeps a closed world: whether it succeeds or fails, the current block and the table only mention
types of the catalog afterwards, and so does the error. An error that sets two types against each
other mentions different ones.
-/

namespace TreeCheck

variable {α β ε σ : Type} {c : Catalog}

/-! ### Types that are mentioned -/

namespace ProgramError

/-- The types that an error mentions. -/
def types : ProgramError → List Ty
  | noField owner _ _ => [owner]
  | noMethod owner _ _ _ => [owner]
  | conditionNotBoolean _ found => [found]
  | operandsNotBoolean _ left right => [left, right]
  | operandsNotComparable left right => [left, right]
  | operandNotNumeric _ left => [left]
  | operandsDiffer _ left right => [left, right]
  | incrementDiffers step control => [step, control]
  | notAssignable target source => [target, source]
  | entryPointReturns found => [found]
  | _ => []

/-- The two types of an error whose reason is that they differ or that one is not allowed where the
other is wanted. -/
def mismatch? : ProgramError → Option (Ty × Ty)
  | operandsNotComparable left right => some (left, right)
  | operandsDiffer _ left right => some (left, right)
  | incrementDiffers step control => some (step, control)
  | notAssignable target source => some (target, source)
  | _ => none

/-- An error only mentions types of the catalog, and sets only different ones against each other. -/
structure Known (c : Catalog) (e : ProgramError) : Prop where
  types : ∀ t ∈ e.types, t ∈ c.types
  differ : ∀ t u, e.mismatch? = some (t, u) → t ≠ u

/-- The types that an error mentions as a mismatch are all that it mentions. -/
theorem types_of_mismatch {e : ProgramError} {t u : Ty} (h : e.mismatch? = some (t, u)) :
    e.types = [t, u] := by
  cases e <;> simp_all [mismatch?, types]

namespace Known

variable {e : ProgramError} {t u : Ty}

private theorem of_silent (h : e.types = []) : e.Known c := by
  refine ⟨by simp [h], fun t u hm ↦ ?_⟩
  rw [types_of_mismatch hm] at h
  cases h

private theorem of_single (h : e.types = [t]) (ht : t ∈ c.types) : e.Known c := by
  refine ⟨by simpa [h] using ht, fun t u hm ↦ ?_⟩
  rw [types_of_mismatch hm] at h
  cases h

private theorem of_pair (h : e.types = [t, u]) (ht : t ∈ c.types) (hu : u ∈ c.types) (hne : t ≠ u) :
    e.Known c := by
  refine ⟨by simp [h, ht, hu], fun t' u' hm ↦ ?_⟩
  rw [types_of_mismatch hm] at h
  cases h
  exact hne

end Known

end ProgramError

/-- The types that a binding mentions. -/
def Binding.types : Binding → List Ty
  | .variable v => [v.type]
  | .function f => f.returns :: f.parameters

/-- A table only mentions types of the catalog. -/
structure Resolutions.Known (c : Catalog) (r : Resolutions) : Prop where
  types : ∀ entry ∈ r.types, entry.2 ∈ c.types
  bindings : ∀ entry ∈ r.bindings, ∀ t ∈ entry.2.types, t ∈ c.types

/-- The current block and the table only mention types of the catalog. -/
structure State.Known (c : Catalog) (s : State) : Prop where
  block : s.block.Known c
  resolutions : s.resolutions.Known c

/-- If a program breaks a rule, then the error only mentions types of the catalog. -/
def Failure.Known (c : Catalog) : Failure → Prop
  | .error e => e.Known c
  | .fault _ => True

/-- The surroundings of a statement only mention types of the catalog. -/
structure Env.Known (env : Env) : Prop where
  catalog : env.catalog.Closed env.scopes.members
  outer : ∀ b ∈ env.outer, b.Known env.catalog
  returns : ∀ t ∈ env.returns, t ∈ env.catalog.types

namespace Env.Known

variable {env : Env} {b : Block}

/-- Known types stay known in a nested block. -/
theorem inside (h : env.Known) (hb : b.Known env.catalog) : (env.inside b).Known :=
  ⟨h.catalog, List.forall_mem_cons.mpr ⟨hb, h.outer⟩, h.returns⟩

/-- Known types stay known in the body of a method. -/
theorem inMethod (h : env.Known) (hb : b.Known env.catalog) {f : Function}
    (hf : f.returns ∈ env.catalog.types) : (env.inMethod b f).Known := by
  refine ⟨h.catalog, (h.inside hb).outer, ?_⟩
  rintro t ⟨⟩
  exact hf

/-- All visible blocks have known types only. -/
theorem visible (h : env.Known) (hb : b.Known env.catalog) :
    ∀ block ∈ b :: env.outer, block.Known env.catalog := List.forall_mem_cons.mpr ⟨hb, h.outer⟩

end Env.Known

/-- What is found in a table is one of its entries. -/
private theorem entry_of_lookup {entries : List (NodeId × α)} {id : NodeId} {a : α}
    (h : entries.lookup id = some a) : (id, a) ∈ entries := by
  obtain ⟨l₁, l₂, rfl, _⟩ := List.lookup_eq_some_iff.mp h
  exact List.mem_append_right l₁ List.mem_cons_self

namespace Resolutions.Known

variable {r r' : Resolutions}

/-- An empty table has known types only. -/
theorem empty : Resolutions.empty.Known c := ⟨List.forall_mem_nil _, List.forall_mem_nil _⟩

private theorem setType (h : r.Known c) {node : Node NodeId} {t : Ty} (ht : t ∈ c.types)
    (hr : r.setType node t = .ok r') : r'.Known c := by
  unfold Resolutions.setType at hr
  split at hr
  · cases hr
  · cases hr
    exact ⟨List.forall_mem_cons.mpr ⟨ht, h.types⟩, h.bindings⟩

private theorem setBinding (h : r.Known c) {node : Node NodeId} {b : Binding}
    (hb : ∀ t ∈ b.types, t ∈ c.types) (hr : r.setBinding node b = .ok r') : r'.Known c := by
  unfold Resolutions.setBinding at hr
  split at hr
  · cases hr
  · cases hr
    exact ⟨h.types, List.forall_mem_cons.mpr ⟨hb, h.bindings⟩⟩

private theorem typeOf (h : r.Known c) {node : Node NodeId} {t : Ty} (ht : r.typeOf node = .ok t) :
    t ∈ c.types := by
  unfold Resolutions.typeOf at ht
  split at ht
  · next hl =>
    cases ht
    exact h.types _ (entry_of_lookup hl)
  · cases ht

private theorem variableOf (h : r.Known c) {node : Node NodeId} {v : Variable}
    (hv : r.variableOf node = .ok v) : v.type ∈ c.types := by
  obtain ⟨b, hb, hv⟩ := except_bind_ok_iff.mp hv
  obtain w | f := b
  · cases hv
    unfold Resolutions.bindingOf at hb
    split at hb
    · next hl =>
      cases hb
      exact List.forall_mem_singleton.mp (h.bindings _ (entry_of_lookup hl))
    · cases hb
  · cases hv

end Resolutions.Known

/-! ### Rules -/

/-- A rule ends with something of which `Q` holds, or in an error that only mentions types of the
catalog. -/
def Respects (c : Catalog) (Q : α → Prop) (x : Except ProgramError α) : Prop :=
  match x with
  | .ok a => Q a
  | .error e => e.Known c

namespace Respects

private theorem bind {P : α → Prop} {Q : β → Prop} {x : Except ProgramError α}
    {f : α → Except ProgramError β} (hx : Respects c P x) (hf : ∀ a, P a → Respects c Q (f a)) :
    Respects c Q (x >>= f) := by
  cases x with
  | error e => exact hx
  | ok a => exact hf a hx

private theorem require {p : Prop} [Decidable p] {e : ProgramError} (he : ¬p → e.Known c) :
    Respects c (fun _ ↦ True) (Rules.require p e) := by
  unfold Rules.require
  split
  · exact trivial
  · next hp => exact he hp

end Respects

private theorem Ty.accepts_self (t : Ty) : t.accepts t = true := by
  simp [accepts]

namespace Rules

variable {members : Ty → Chain} {target source left right : Ty}

/-- A value that may not stand somewhere is of another type than the one wanted. -/
theorem requireAssignable_respects (ht : target ∈ c.types) (hs : source ∈ c.types) :
    Respects c (fun _ ↦ True) (requireAssignable target source) := by
  refine Respects.require fun h ↦ .of_pair rfl ht hs ?_
  rintro rfl
  exact h target.accepts_self

private theorem requireArguments_respects {parameters arguments : List Ty}
    (hp : ∀ p ∈ parameters, p ∈ c.types) (ha : ∀ a ∈ arguments, a ∈ c.types) :
    Respects c (fun _ ↦ True) (requireArguments parameters arguments) := by
  induction parameters generalizing arguments with
  | nil => exact trivial
  | cons p ps ih =>
    cases arguments with
    | nil => exact trivial
    | cons a as =>
      rw [List.forall_mem_cons] at hp ha
      exact (requireAssignable_respects hp.1 ha.1).bind fun _ _ ↦ ih hp.2 ha.2

private theorem literalType_respects (hc : c.Closed members) (value : Literal) :
    Respects c (· ∈ c.types) (literalType value) := by
  cases value with
  | nil => exact hc.builtins _
  | boolean => exact hc.builtins _
  | character => exact hc.builtins _
  | string => exact hc.builtins _
  | nonFinite => exact .of_silent rfl
  | integer n =>
    rw [literalType]
    split
    · exact hc.builtins _
    · exact .of_silent rfl
  | decimal d =>
    rw [literalType]
    split
    · exact hc.builtins _
    · exact .of_silent rfl

private theorem arithmeticType_respects {operator : Text} (hl : left ∈ c.types)
    (hr : right ∈ c.types) :
    Respects c (· ∈ c.types) (arithmeticType operator left right) := by
  unfold arithmeticType
  split
  · exact .of_single rfl hl
  · split
    · next hne => exact .of_pair rfl hl hr hne
    · exact hl

private theorem comparisonType_respects (hc : c.Closed members) (hl : left ∈ c.types)
    (hr : right ∈ c.types) : Respects c (· ∈ c.types) (comparisonType left right) := by
  refine (requireAssignable_respects (hc.builtins _) hl).bind fun _ _ ↦
    (requireAssignable_respects (hc.builtins _) hr).bind fun _ _ ↦ ?_
  split
  · exact hc.builtins _
  · next hne => exact .of_pair rfl hl hr hne

private theorem binaryType_respects (hc : c.Closed members) {operator : Text} (hl : left ∈ c.types)
    (hr : right ∈ c.types) : Respects c (· ∈ c.types) (binaryType operator left right) := by
  unfold binaryType
  split
  · split
    · exact hc.builtins _
    · exact ⟨by simp [ProgramError.types, hl, hr], nofun⟩
  · split
    · exact comparisonType_respects hc hl hr
    · split
      · split
        · exact hc.builtins _
        · exact arithmeticType_respects hl hr
      · split
        · exact arithmeticType_respects hl hr
        · exact .of_silent rfl

private theorem requireComparable_respects (hc : c.Closed members) {control : Option Ty}
    (h : ∀ t ∈ control, t ∈ c.types) : Respects c (fun _ ↦ True) (requireComparable control) := by
  cases control with
  | none => exact trivial
  | some t => exact requireAssignable_respects (hc.builtins _) (h t rfl)

private theorem requireReturn_respects {wanted : Option Ty} {found : Ty}
    (hw : ∀ t ∈ wanted, t ∈ c.types)
    (hf : found ∈ c.types) : Respects c (fun _ ↦ True) (requireReturn wanted found) := by
  cases wanted with
  | none => exact .of_silent rfl
  | some t => exact requireAssignable_respects (hw t rfl) hf

end Rules

/-! ### Lookups -/

/-- A function only mentions types of the catalog. -/
structure Function.Known (c : Catalog) (f : Function) : Prop where
  parameters : ∀ p ∈ f.parameters, p ∈ c.types
  returns : f.returns ∈ c.types

/-- The binding of a function with known types mentions known types only. -/
theorem Function.Known.binding {f : Function} (h : f.Known c) :
    ∀ t ∈ (Binding.function f).types, t ∈ c.types :=
  List.forall_mem_cons.mpr ⟨h.returns, h.parameters⟩

private theorem Variable.known_binding {v : Variable} (h : v.type ∈ c.types) :
    ∀ t ∈ (Binding.variable v).types, t ∈ c.types := List.forall_mem_singleton.mpr h

section Lookups

variable {chain : Chain} {scopes : Scopes} {owner : Ty} {name : Text} {arity : Int}

private theorem Chain.known_of_findFunction {f : Function} (hc : ∀ b ∈ chain, b.Known c)
    (h : chain.findFunction? name arity = some f) : f.Known c := by
  obtain ⟨b, hb, hf⟩ := List.exists_of_findSome?_eq_some h
  have hmem := List.mem_of_find?_eq_some hf
  exact ⟨(hc b hb).parameters f hmem, (hc b hb).returns f hmem⟩

private theorem Chain.lookupVariable_respects (hc : ∀ b ∈ chain, b.Known c) :
    Respects c (fun v ↦ v.type ∈ c.types) (chain.lookupVariable name) := by
  unfold lookupVariable
  split
  · next h => exact type_mem_of_findVariable hc h
  · exact .of_silent rfl

private theorem Chain.lookupFunction_respects (hc : ∀ b ∈ chain, b.Known c) :
    Respects c (Function.Known c) (chain.lookupFunction name arity) := by
  unfold lookupFunction
  split
  · next h => exact known_of_findFunction hc h
  · exact .of_silent rfl

private theorem Scopes.lookupField_respects (hc : c.Closed scopes.members) (ho : owner ∈ c.types) :
    Respects c (fun v ↦ v.type ∈ c.types) (scopes.lookupField owner name) := by
  unfold lookupField Chain.lookupField
  split
  · next h => exact Chain.type_mem_of_findVariable (hc.known_of_mem scopes.members_builtin ho) h
  · exact .of_single rfl ho

private theorem Scopes.lookupMethod_respects (hc : c.Closed scopes.members) (ho : owner ∈ c.types) :
    Respects c (Function.Known c) (scopes.lookupMethod owner name arity) := by
  unfold lookupMethod Chain.lookupMethod
  split
  · next h => exact Chain.known_of_findFunction (hc.known_of_mem scopes.members_builtin ho) h
  · exact .of_single rfl ho

private theorem Catalog.resolve_respects : Respects c (· ∈ c.types) (c.resolve name) := by
  unfold resolve
  split
  · next h => exact mem_of_find h
  · exact .of_silent rfl

private theorem Catalog.resolveAll_respects (names : List Text) :
    Respects c (fun ts ↦ ∀ t ∈ ts, t ∈ c.types) (c.resolveAll names) := by
  induction names with
  | nil => exact List.forall_mem_nil _
  | cons name names ih =>
    exact resolve_respects.bind fun t ht ↦ ih.bind fun ts hts ↦ List.forall_mem_cons.mpr ⟨ht, hts⟩

private theorem Catalog.resolveReturn_respects {members : Ty → Chain} (hc : c.Closed members)
    (returns : Option Text) : Respects c (· ∈ c.types) (c.resolveReturn returns) := by
  cases returns with
  | none => exact hc.builtins _
  | some name => exact resolve_respects

end Lookups

/-! ### Definitions -/

section Definitions

variable {b : Block} {members : Ty → Chain}

private theorem Block.defineVariable_respects (hb : b.Known c) {v : Variable}
    (hv : v.type ∈ c.types) :
    Respects c (Block.Known c) (b.defineVariable v) := by
  unfold defineVariable
  split
  · exact .of_silent rfl
  · exact hb.addVariable hv

/-- Defining a function with known types keeps the types of a block known. -/
theorem Block.defineFunction_respects (hb : b.Known c) {f : Function} (hf : f.Known c) :
    Respects c (Block.Known c) (b.defineFunction f) := by
  unfold defineFunction
  split
  · exact .of_silent rfl
  · exact hb.addFunction hf.parameters hf.returns

/-- Defining parameters with known types keeps the types of a block known. -/
theorem Block.defineParameters_respects {method : NodeId} {position : Nat} {ps : List (Text × Ty)}
    (hb : b.Known c) (hp : ∀ p ∈ ps, p.2 ∈ c.types) :
    Respects c (Block.Known c) (b.defineParameters method position ps) := by
  induction ps generalizing b position with
  | nil => exact hb
  | cons p ps ih =>
    rw [List.forall_mem_cons] at hp
    exact (defineVariable_respects hb hp.1).bind fun b' hb' ↦ ih hb' hp.2

private theorem Stmt.declaredType_respects {name : Text} {typeName : Option Text}
    {found : Option Ty} (hf : ∀ t ∈ found, t ∈ c.types) :
    Respects c (· ∈ c.types) (declaredType c name typeName found) := by
  cases typeName with
  | none =>
    cases found with
    | none => exact .of_silent rfl
    | some t => exact hf t rfl
  | some typeName =>
    cases found with
    | none => exact Catalog.resolve_respects
    | some t =>
      exact Catalog.resolve_respects.bind fun wanted hw ↦
        (Rules.requireAssignable_respects hw (hf t rfl)).bind fun _ _ ↦ hw

private theorem Field.requireValue_respects {d : Field NodeId} {type : Ty} {found : Option Ty}
    (ht : type ∈ c.types) (hf : ∀ t ∈ found, t ∈ c.types) :
    Respects c (fun _ ↦ True) (d.requireValue type found) := by
  cases found with
  | none => exact Respects.require fun _ ↦ .of_silent rfl
  | some t => exact Rules.requireAssignable_respects ht (hf t rfl)

/-- The signature of a method mentions known types only. -/
theorem Method.signature_respects (hc : c.Closed members) (m : Method NodeId) :
    Respects c (Function.Known c) (m.signature c) := by
  refine (Respects.require fun _ ↦ .of_silent rfl).bind fun _ _ ↦
    (Catalog.resolveAll_respects m.parameterTypes).bind fun ps hps ↦
    (Catalog.resolveReturn_respects hc m.returnType).bind fun t ht ↦ ?_
  exact ⟨hps, ht⟩

private theorem requireEntryPoint_respects {chain : Chain} (hc : ∀ b ∈ chain, b.Known c) :
    Respects c (fun _ ↦ True) (requireEntryPoint chain) := by
  unfold requireEntryPoint
  split
  · exact .of_silent rfl
  · next f hf =>
    split
    · exact trivial
    · exact .of_single rfl (Chain.known_of_findFunction hc hf).returns

end Definitions

/-! ### Computations -/

/-- Whether a computation succeeds or fails, `I` holds of what it leaves, `Q` of its result and `F`
of its failure. -/
def Keeps (I : σ → Prop) (Q : α → Prop) (F : ε → Prop) (x : EStateM ε σ α) : Prop :=
  ∀ s, I s → match x s with
    | .ok a s' => I s' ∧ Q a
    | .error f s' => I s' ∧ F f

namespace Keeps

variable {I : σ → Prop} {P Q : α → Prop} {R : β → Prop} {F : ε → Prop}

/-- What an action that keeps an invariant yields when it succeeds. -/
theorem ok {x : EStateM ε σ α} (h : Keeps I Q F x) {s s' : σ} {a : α} (hs : I s)
    (hx : x s = .ok a s') : I s' ∧ Q a := by
  have hres := h s hs
  rwa [hx] at hres

/-- What an action that keeps an invariant leaves when it fails. -/
theorem error {x : EStateM ε σ α} (h : Keeps I Q F x) {s s' : σ} {f : ε} (hs : I s)
    (hx : x s = .error f s') : I s' ∧ F f := by
  have hres := h s hs
  rwa [hx] at hres

/-- Returning a value keeps every invariant. -/
theorem pure {a : α} (h : Q a) : Keeps I Q F (Pure.pure a : EStateM ε σ α) := fun _ hs ↦ ⟨hs, h⟩

/-- Reading the state keeps an invariant, and what is read has it. -/
theorem get : Keeps I I F (MonadState.get : EStateM ε σ σ) := fun _ hs ↦ ⟨hs, hs⟩

/-- Writing a state that has the invariant keeps it. -/
theorem set {s : σ} (h : I s) : Keeps I (fun _ ↦ True) F (MonadStateOf.set s : EStateM ε σ PUnit) :=
  fun _ _ ↦ ⟨h, trivial⟩

/-- Actions that keep an invariant, done in sequence, keep it. -/
theorem bind {x : EStateM ε σ α} {f : α → EStateM ε σ β} (hx : Keeps I P F x)
    (hf : ∀ a, P a → Keeps I R F (f a)) : Keeps I R F (x >>= f) := by
  intro s hs
  cases hr : x s with
  | error e s' =>
    rw [run_bind_of_error hr]
    exact hx.error hs hr
  | ok a s' =>
    obtain ⟨hs', ha⟩ := hx.ok hs hr
    rw [run_bind_of_ok hr]
    exact hf a ha s' hs'

/-- An action that keeps an invariant, done for every member of a list, keeps it. -/
theorem forM {f : α → EStateM ε σ PUnit} {l : List α}
    (h : ∀ a ∈ l, Keeps I (fun _ ↦ True) F (f a)) : Keeps I (fun _ ↦ True) F (l.forM f) := by
  induction l with
  | nil => exact pure trivial
  | cons a l ih =>
    rw [List.forall_mem_cons] at h
    exact bind h.1 fun _ _ ↦ ih h.2

private theorem obey {I : σ → Prop} {x : Except ProgramError α} (h : Respects c Q x) :
    Keeps I Q (Failure.Known c) (TreeCheck.obey x) := by
  intro s hs
  cases x with
  | error e => exact ⟨hs, h⟩
  | ok a => exact ⟨hs, h⟩

private theorem trust {I : σ → Prop} {x : Except Fault α} (h : ∀ a, x = .ok a → Q a) :
    Keeps I Q (Failure.Known c) (TreeCheck.trust x) := by
  intro s hs
  cases x with
  | error f => exact ⟨hs, trivial⟩
  | ok a => exact ⟨hs, h a rfl⟩

end Keeps

/-! ### Expressions -/

private theorem recordType_keeps {e : Expr NodeId} {t : Ty} (ht : t ∈ c.types) :
    Keeps (Resolutions.Known c) (· ∈ c.types) (Failure.Known c) (recordType e t) :=
  Keeps.get.bind fun _ hr ↦ (Keeps.trust fun _ ↦ hr.setType ht).bind fun _ hr' ↦
    (Keeps.set hr').bind fun _ _ ↦ .pure ht

private theorem recordBinding_keeps {node : Node NodeId} {b : Binding}
    (hb : ∀ t ∈ b.types, t ∈ c.types) :
    Keeps (Resolutions.Known c) (fun _ ↦ True) (Failure.Known c) (recordBinding node b) :=
  Keeps.get.bind fun _ hr ↦ (Keeps.trust fun _ ↦ hr.setBinding hb).bind fun _ hr' ↦ Keeps.set hr'

namespace Expr

variable {scopes : Scopes} {chain : Chain}

mutual

/-- Finding the type of an expression keeps the table known, and the type is in the catalog. -/
theorem infer_keeps (hc : c.Closed scopes.members) (hchain : ∀ b ∈ chain, b.Known c)
    (e : Expr NodeId) :
    Keeps (Resolutions.Known c) (· ∈ c.types) (Failure.Known c) (e.infer scopes chain) := by
  match e with
  | literal tag value =>
    rw [infer]
    exact (Keeps.obey (Rules.literalType_respects hc value)).bind fun t ht ↦ recordType_keeps ht
  | group tag inner =>
    rw [infer]
    exact (Keeps.obey (Respects.require fun _ ↦ .of_silent rfl)).bind fun _ _ ↦
      (infer_keeps hc hchain inner).bind fun t ht ↦ recordType_keeps ht
  | binary tag operator left right =>
    rw [infer]
    refine (infer_keeps hc hchain left).bind fun t₁ h₁ ↦
      (infer_keeps hc hchain right).bind fun t₂ h₂ ↦ ?_
    exact (Keeps.obey (Rules.binaryType_respects hc h₁ h₂)).bind fun t ht ↦ recordType_keeps ht
  | access tag none name =>
    rw [infer]
    refine (Keeps.obey (Chain.lookupVariable_respects hchain)).bind fun v hv ↦ ?_
    exact (recordBinding_keeps (v.known_binding hv)).bind fun _ _ ↦ recordType_keeps hv
  | access tag (some receiver) name =>
    rw [infer]
    refine (infer_keeps hc hchain receiver).bind fun owner ho ↦
      (Keeps.obey (Scopes.lookupField_respects hc ho)).bind fun v hv ↦ ?_
    exact (recordBinding_keeps (v.known_binding hv)).bind fun _ _ ↦ recordType_keeps hv
  | call tag none name arguments =>
    rw [infer]
    refine (inferAll_keeps hc hchain arguments).bind fun ts hts ↦
      (Keeps.obey (Chain.lookupFunction_respects hchain)).bind fun f hf ↦
      (Keeps.obey (Rules.requireArguments_respects hf.parameters hts)).bind fun _ _ ↦ ?_
    exact (recordBinding_keeps hf.binding).bind fun _ _ ↦ recordType_keeps hf.returns
  | call tag (some receiver) name arguments =>
    rw [infer]
    refine (inferAll_keeps hc hchain arguments).bind fun ts hts ↦
      (infer_keeps hc hchain receiver).bind fun owner ho ↦
      (Keeps.obey (Scopes.lookupMethod_respects hc ho)).bind fun f hf ↦ ?_
    have hp : ∀ p ∈ f.parameters.tail, p ∈ c.types :=
      fun p hp ↦ hf.parameters p (List.mem_of_mem_tail hp)
    exact (Keeps.obey (Rules.requireArguments_respects hp hts)).bind fun _ _ ↦
      (recordBinding_keeps hf.binding).bind fun _ _ ↦ recordType_keeps hf.returns

private theorem inferAll_keeps (hc : c.Closed scopes.members) (hchain : ∀ b ∈ chain, b.Known c)
    (es : List (Expr NodeId)) :
    Keeps (Resolutions.Known c) (fun ts ↦ ∀ t ∈ ts, t ∈ c.types) (Failure.Known c)
      (inferAll scopes chain es) := by
  match es with
  | [] =>
    rw [inferAll]
    exact .pure (List.forall_mem_nil _)
  | e :: es =>
    rw [inferAll]
    exact (infer_keeps hc hchain e).bind fun t ht ↦
      (inferAll_keeps hc hchain es).bind fun ts hts ↦ .pure (List.forall_mem_cons.mpr ⟨ht, hts⟩)

end

end Expr

/-! ### Statements -/

/-- Checking something keeps a closed world. -/
abbrev CheckM.KeepsKnown (c : Catalog) (Q : α → Prop) (x : CheckM α) : Prop :=
  Keeps (State.Known c) Q (Failure.Known c) x

section Steps

variable {Q : α → Prop}

private theorem withResolutions_keeps {x : EStateM Failure Resolutions α}
    (h : Keeps (Resolutions.Known c) Q (Failure.Known c) x) :
    CheckM.KeepsKnown c Q (withResolutions x) := by
  intro s hs
  unfold withResolutions
  cases hx : x s.resolutions with
  | ok a r =>
    obtain ⟨hr, ha⟩ := h.ok hs.resolutions hx
    exact ⟨⟨hs.block, hr⟩, ha⟩
  | error f r =>
    obtain ⟨hr, hf⟩ := h.error hs.resolutions hx
    exact ⟨⟨hs.block, hr⟩, hf⟩

private theorem within_keeps {block : Block} {x : CheckM α} (hb : block.Known c)
    (h : CheckM.KeepsKnown c Q x) : CheckM.KeepsKnown c Q (within block x) := by
  intro s hs
  unfold within
  cases hx : x { s with block } with
  | ok a inner =>
    obtain ⟨hi, ha⟩ := h.ok (s := { s with block }) ⟨hb, hs.resolutions⟩ hx
    exact ⟨⟨hs.block, hi.resolutions⟩, ha⟩
  | error f inner =>
    obtain ⟨hi, hf⟩ := h.error (s := { s with block }) ⟨hb, hs.resolutions⟩ hx
    exact ⟨⟨hs.block, hi.resolutions⟩, hf⟩

/-- A definition of known types keeps the types known. -/
theorem define_keeps {f : Block → Except ProgramError Block}
    (h : ∀ b, b.Known c → Respects c (Block.Known c) (f b)) :
    CheckM.KeepsKnown c (fun _ ↦ True) (define f) :=
  Keeps.get.bind fun s hs ↦ (Keeps.obey (h s.block hs.block)).bind fun _ hb ↦
    Keeps.set ⟨hb, hs.resolutions⟩

/-- Binding a node to something with known types keeps the types known. -/
theorem bindNode_keeps {node : Node NodeId} {b : Binding} (hb : ∀ t ∈ b.types, t ∈ c.types) :
    CheckM.KeepsKnown c (fun _ ↦ True) (bindNode node b) :=
  withResolutions_keeps (recordBinding_keeps hb)

private theorem consult_keeps {f : Resolutions → Except Fault α}
    (h : ∀ r a, r.Known c → f r = .ok a → Q a) : CheckM.KeepsKnown c Q (consult f) :=
  Keeps.get.bind fun _ hs ↦ Keeps.trust fun a ha ↦ h _ a hs.resolutions ha

end Steps

namespace Env

variable {env : Env} {Q : α → Prop}

private theorem nested_keeps {x : Env → CheckM α}
    (h : ∀ b, b.Known env.catalog → CheckM.KeepsKnown env.catalog Q (x (env.inside b))) :
    CheckM.KeepsKnown env.catalog Q (env.nested x) :=
  Keeps.get.bind fun s hs ↦ within_keeps .empty (h s.block hs.block)

private theorem infer_keeps (h : env.Known) (e : Expr NodeId) :
    CheckM.KeepsKnown env.catalog (· ∈ env.catalog.types) (env.infer e) :=
  Keeps.get.bind fun _ hs ↦ withResolutions_keeps (e.infer_keeps h.catalog (h.visible hs.block))

private theorem inferOption_keeps (h : env.Known) (e : Option (Expr NodeId)) :
    CheckM.KeepsKnown env.catalog (fun found ↦ ∀ t ∈ found, t ∈ env.catalog.types)
      (env.inferOption e) := by
  cases e with
  | none => exact .pure (by simp)
  | some e => exact (infer_keeps h e).bind fun t ht ↦ .pure (by simpa using ht)

/-- Checking a condition keeps the types known. -/
theorem requireBoolean_keeps (h : env.Known) (construct : Construct) (condition : Expr NodeId) :
    CheckM.KeepsKnown env.catalog (fun _ ↦ True) (env.requireBoolean construct condition) :=
  (infer_keeps h condition).bind fun _ ht ↦
    .obey (Respects.require fun _ ↦ .of_single rfl ht)

end Env

namespace Stmt

variable {env : Env}

private theorem controlType_keeps (s : Stmt NodeId) :
    CheckM.KeepsKnown c (fun control ↦ ∀ t ∈ control, t ∈ c.types) s.controlType := by
  cases s with
  | declaration tag name typeName value =>
    exact (consult_keeps fun _ _ hr hv ↦ hr.variableOf hv).bind fun v hv ↦ .pure (by simpa using hv)
  | assignment tag receiver value =>
    exact (consult_keeps fun _ _ hr ht ↦ hr.typeOf ht).bind fun t ht ↦ .pure (by simpa using ht)
  | expression => exact .pure (by simp)
  | ifElse => exact .pure (by simp)
  | forLoop => exact .pure (by simp)
  | whileLoop => exact .pure (by simp)
  | ret => exact .pure (by simp)

private theorem requireSameStep_keeps {control : Option Ty} (hcontrol : ∀ t ∈ control, t ∈ c.types)
    (increment : Stmt NodeId) :
    CheckM.KeepsKnown c (fun _ ↦ True) (requireSameStep control increment) := by
  unfold requireSameStep
  split
  · refine (consult_keeps fun _ _ hr ht ↦ hr.typeOf ht).bind fun step hstep ↦ ?_
    exact .obey (Respects.require fun hne ↦ .of_pair rfl hstep (hcontrol _ rfl) hne)
  · exact .pure trivial

private theorem checkDeclaration_keeps (h : env.Known) (tag : NodeId) (name : Text)
    (typeName : Option Text) (value : Option (Expr NodeId)) :
    CheckM.KeepsKnown env.catalog (fun _ ↦ True)
      (checkDeclaration env tag name typeName value) := by
  refine (Env.inferOption_keeps h value).bind fun found hf ↦
    (Keeps.obey (declaredType_respects hf)).bind fun t ht ↦ ?_
  exact (define_keeps fun b hb ↦ Block.defineVariable_respects hb ht).bind fun _ _ ↦
    bindNode_keeps (Variable.known_binding ht)

private theorem checkAssignment_keeps (h : env.Known) (receiver value : Expr NodeId) :
    CheckM.KeepsKnown env.catalog (fun _ ↦ True) (checkAssignment env receiver value) := by
  refine (Keeps.obey (Respects.require fun _ ↦ .of_silent rfl)).bind fun _ _ ↦
    (Env.infer_keeps h receiver).bind fun target ht ↦
    (Env.infer_keeps h value).bind fun found hf ↦
    (consult_keeps fun _ _ hr hv ↦ hr.variableOf hv).bind fun v _ ↦
    (Keeps.obey (Respects.require fun _ ↦ .of_silent rfl)).bind fun _ _ ↦ ?_
  exact .obey (Rules.requireAssignable_respects ht hf)

private theorem checkReturn_keeps (h : env.Known) (value : Expr NodeId) :
    CheckM.KeepsKnown env.catalog (fun _ ↦ True) (checkReturn env value) :=
  (Env.infer_keeps h value).bind fun _ hf ↦ .obey (Rules.requireReturn_respects h.returns hf)

mutual

/-- Checking a statement keeps a closed world. -/
theorem check_keeps {env : Env} (h : env.Known) (s : Stmt NodeId) :
    CheckM.KeepsKnown env.catalog (fun _ ↦ True) (s.check env) := by
  match s with
  | expression tag e =>
    rw [check]
    exact (Keeps.obey (Respects.require fun _ ↦ .of_silent rfl)).bind fun _ _ ↦
      (Env.infer_keeps h e).bind fun _ _ ↦ .pure trivial
  | declaration tag name typeName value =>
    rw [check]
    exact checkDeclaration_keeps h tag name typeName value
  | assignment tag receiver value =>
    rw [check]
    exact checkAssignment_keeps h receiver value
  | ifElse tag condition thenBody elseBody =>
    rw [check]
    refine (Keeps.obey (Respects.require fun _ ↦ .of_silent rfl)).bind fun _ _ ↦
      (Env.requireBoolean_keeps h .ifElse condition).bind fun _ _ ↦ ?_
    refine Keeps.bind (P := fun _ ↦ True) (Env.nested_keeps ?_) fun _ _ ↦ Env.nested_keeps ?_
    · exact fun b hb ↦ checkAll_keeps (h.inside hb) thenBody
    · exact fun b hb ↦ checkAll_keeps (h.inside hb) elseBody
  | forLoop tag initialization condition increment body =>
    rw [check]
    refine (Keeps.obey (Respects.require fun _ ↦ .of_silent rfl)).bind fun _ _ ↦
      (checkFirst_keeps h initialization).bind fun control hcontrol ↦
      (Env.requireBoolean_keeps h .forLoop condition).bind fun _ _ ↦
      (checkStep_keeps h hcontrol increment).bind fun _ _ ↦ ?_
    exact Env.nested_keeps fun b hb ↦ checkAll_keeps (h.inside hb) body
  | whileLoop tag condition body =>
    rw [check]
    exact (Env.requireBoolean_keeps h .whileLoop condition).bind fun _ _ ↦
      Env.nested_keeps fun b hb ↦ checkAll_keeps (h.inside hb) body
  | ret tag value =>
    rw [check]
    exact checkReturn_keeps h value

/-- The initialization of a loop keeps the types known and sets a variable of a known type. -/
theorem checkFirst_keeps {env : Env} (h : env.Known) (initialization : Option (Stmt NodeId)) :
    CheckM.KeepsKnown env.catalog (fun control ↦ ∀ t ∈ control, t ∈ env.catalog.types)
      (checkFirst env initialization) := by
  match initialization with
  | none =>
    rw [checkFirst]
    exact .pure (by simp)
  | some first =>
    rw [checkFirst]
    exact (check_keeps h first).bind fun _ _ ↦ (controlType_keeps first).bind fun control hc ↦
      (Keeps.obey (Rules.requireComparable_respects h.catalog hc)).bind fun _ _ ↦ .pure hc

/-- The increment of a loop keeps the types known. -/
theorem checkStep_keeps {env : Env} (h : env.Known) {control : Option Ty}
    (hcontrol : ∀ t ∈ control, t ∈ env.catalog.types) (increment : Option (Stmt NodeId)) :
    CheckM.KeepsKnown env.catalog (fun _ ↦ True) (checkStep env control increment) := by
  match increment with
  | none =>
    rw [checkStep]
    exact .pure trivial
  | some step =>
    rw [checkStep]
    exact (check_keeps h step).bind fun _ _ ↦ requireSameStep_keeps hcontrol step

/-- Checking a list of statements keeps the types known. -/
theorem checkAll_keeps {env : Env} (h : env.Known) (ss : List (Stmt NodeId)) :
    CheckM.KeepsKnown env.catalog (fun _ ↦ True) (checkAll env ss) := by
  match ss with
  | [] =>
    rw [checkAll]
    exact .pure trivial
  | s :: ss =>
    rw [checkAll]
    exact (check_keeps h s).bind fun _ _ ↦ checkAll_keeps h ss

end

/-- Checking statements in a block of their own keeps the types known. -/
theorem nested_checkAll_keeps (h : env.Known) (ss : List (Stmt NodeId)) :
    CheckM.KeepsKnown env.catalog (fun _ ↦ True) (env.nested fun inner ↦ checkAll inner ss) :=
  Env.nested_keeps fun _ hb ↦ checkAll_keeps (h.inside hb) ss

end Stmt

/-! ### Fields, methods and sources -/

section Trees

variable {env : Env}

/-- Checking a field keeps the types known. -/
theorem Field.check_keeps (h : env.Known) (d : Field NodeId) :
    CheckM.KeepsKnown env.catalog (fun _ ↦ True) (d.check env) := by
  refine (Keeps.obey Catalog.resolve_respects).bind fun t ht ↦
    (Env.inferOption_keeps h d.value).bind fun found hf ↦
    (Keeps.obey (requireValue_respects ht hf)).bind fun _ _ ↦ ?_
  exact (define_keeps fun b hb ↦ Block.defineVariable_respects hb ht).bind fun _ _ ↦
    bindNode_keeps (Variable.known_binding ht)

/-- Checking a method keeps the types known. -/
theorem Method.check_keeps (h : env.Known) (m : Method NodeId) :
    CheckM.KeepsKnown env.catalog (fun _ ↦ True) (m.check env) := by
  refine (Keeps.obey (signature_respects h.catalog m)).bind fun f hf ↦
    (define_keeps fun b hb ↦ Block.defineFunction_respects hb hf).bind fun _ _ ↦
    (bindNode_keeps hf.binding).bind fun _ _ ↦ Keeps.get.bind fun s hs ↦ ?_
  have hp : ∀ p ∈ m.parameters.zip f.parameters, p.2 ∈ env.catalog.types :=
    fun p hp ↦ hf.parameters p.2 (List.of_mem_zip hp).2
  exact (Keeps.obey (Block.defineParameters_respects .empty hp)).bind fun b hb ↦
    within_keeps hb (Stmt.checkAll_keeps (h.inMethod hs.block hf.returns) m.body)

private theorem Source.check_keeps (h : env.Known) (s : Source NodeId) :
    CheckM.KeepsKnown env.catalog (fun _ ↦ True) (s.check env) := by
  refine (Keeps.forM fun d _ ↦ Field.check_keeps h d).bind fun _ _ ↦
    (Keeps.forM fun m _ ↦ Method.check_keeps h m).bind fun _ _ ↦ Keeps.get.bind fun st hs ↦ ?_
  exact .obey (requireEntryPoint_respects (h.visible hs.block))

/-- Checking a tree keeps a closed world. -/
theorem Node.check_keeps (h : env.Known) (tree : Node NodeId) :
    CheckM.KeepsKnown env.catalog (fun _ ↦ True) (tree.check env) := by
  cases tree with
  | source s => exact s.check_keeps h
  | field d => exact d.check_keeps h
  | method m => exact m.check_keeps h
  | stmt s => exact s.check_keeps h
  | expr e => exact (Env.infer_keeps h e).bind fun _ _ ↦ .pure trivial

end Trees

end TreeCheck
