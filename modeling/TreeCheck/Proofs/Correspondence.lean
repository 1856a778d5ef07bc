import TreeCheck.Proofs.Likeness

/-!
# Corresponding definitions

Two runs are compared through the definitions they see. A correspondence says how a definition of
the second run may differ from that of the first: its variables may be renamed, its functions may
accept more, and definitions may come from other sites. If it is faithful, then the second run also
sees nothing that the first one does not, so that lookups fail together, with errors of the same
kind. Names of members are never renamed, so the members of types correspond under a correspondence
that keeps all names.
-/

namespace TreeCheck

variable {α β γ δ : Type}

/-- How two runs correspond. -/
structure Correspondence where
  /-- Whether the second run also fails as the first one does. -/
  faithful : Prop
  /-- Whether definitions look the same, so that errors are the same too. -/
  verbatim : Prop
  /-- Whether functions have the same parameters; otherwise the second run's may accept more. -/
  sameParameters : Prop
  /-- The names of variables in the second run. -/
  rename : Text → Text
  /-- The types that the first run can meet. -/
  known : Ty → Prop
  /-- Where corresponding definitions were introduced. -/
  site : Site → Site → Prop
  known_builtin : ∀ b, known (.builtin b)
  rename_injective : Function.Injective rename
  rename_of_verbatim : verbatim → rename = id
  sameParameters_of_faithful : faithful → sameParameters

namespace Correspondence

variable (C : Correspondence)

/-- The same correspondence without renaming. -/
def fixed : Correspondence :=
  { C with
    rename := id
    rename_injective := fun _ _ h ↦ h
    rename_of_verbatim := fun _ ↦ rfl }

/-! ### Definitions -/

/-- Corresponding variables. -/
structure Variables (v w : Variable) : Prop where
  name_eq : w.name = C.rename v.name
  internalName_eq : C.verbatim → w.internalName = v.internalName
  type_eq : w.type = v.type
  constant_eq : w.constant = v.constant
  known : C.known v.type
  site : C.site v.site w.site

/-- Corresponding functions. -/
structure Functions (f g : Function) : Prop where
  name_eq : g.name = f.name
  internalName_eq : g.internalName = f.internalName
  accepts : List.Forall₂ (fun p q ↦ q.accepts p = true) f.parameters g.parameters
  parameters_eq : C.sameParameters → g.parameters = f.parameters
  returns_eq : g.returns = f.returns
  known : C.known f.returns
  site : C.site f.site g.site

/-- Corresponding bindings. -/
inductive Bindings : Binding → Binding → Prop where
  | ofVariable {v w : Variable} (h : C.Variables v w) : Bindings (.variable v) (.variable w)
  | ofField {v w : Variable} (h : C.fixed.Variables v w) : Bindings (.variable v) (.variable w)
  | ofFunction {f g : Function} (h : C.Functions f g) : Bindings (.function f) (.function g)

/-- Blocks with corresponding definitions in the same order. -/
structure Blocks (b c : Block) : Prop where
  vars : List.Forall₂ C.Variables b.vars c.vars
  funs : List.Forall₂ C.Functions b.funs c.funs

/-- What is visible in the first chain has its counterpart in the second; if the correspondence is
faithful, then block by block. -/
structure Chains (c c' : Chain) : Prop where
  findVariable : ∀ {name : Text} {v : Variable}, c.findVariable? name = some v →
    ∃ w, c'.findVariable? (C.rename name) = some w ∧ C.Variables v w
  findFunction : ∀ {name : Text} {arity : Int} {f : Function},
    c.findFunction? name arity = some f →
      ∃ g, c'.findFunction? name arity = some g ∧ C.Functions f g
  blocks : C.faithful → List.Forall₂ C.Blocks c c'

/-- The types of the first catalog are in the second; if the correspondence is faithful, then the
catalogs are the same. -/
structure Catalogs (c c' : Catalog) : Prop where
  find : ∀ {name : Text} {t : Ty}, c.find? name = some t → c'.find? name = some t ∧ C.known t
  same : C.faithful → c' = c

/-- Corresponding errors are of one kind, and they are the same if definitions look the same. -/
def Errors (e e' : ProgramError) : Prop := e'.kind = e.kind ∧ (C.verbatim → e' = e)

/-- The second outcome repeats the first: results correspond by `Q`, and so do errors if the
correspondence is faithful. -/
def Repeats (Q : α → β → Prop) (x : Except ProgramError α) (y : Except ProgramError β) : Prop :=
  match x with
  | .ok a => ∃ b, y = .ok b ∧ Q a b
  | .error e => C.faithful → ∃ e', y = .error e' ∧ C.Errors e e'

variable {C}

/-- An error corresponds to itself. -/
theorem Errors.refl (e : ProgramError) : C.Errors e e := ⟨rfl, fun _ ↦ rfl⟩

/-- An error that names a variable. -/
theorem Errors.renamed (e : Text → ProgramError) (hk : ∀ a b, (e a).kind = (e b).kind)
    (name : Text) : C.Errors (e name) (e (C.rename name)) := by
  refine ⟨hk _ _, fun hv ↦ ?_⟩
  rw [C.rename_of_verbatim hv, id]

/-- Definitions of a variable and of the renamed one at corresponding sites. -/
theorem Variables.declared (name : Text) {t : Ty} {constant : Bool} {a b : Site} (ht : C.known t)
    (hs : C.site a b) :
    C.Variables ⟨name, name, t, constant, a⟩
      ⟨C.rename name, C.rename name, t, constant, b⟩ where
  name_eq := rfl
  internalName_eq hv := by rw [C.rename_of_verbatim hv, id]
  type_eq := rfl
  constant_eq := rfl
  known := ht
  site := hs

/-- Every type in a list accepts itself. -/
theorem forall₂_accepts_self (ts : List Ty) :
    List.Forall₂ (fun p q ↦ Ty.accepts q p = true) ts ts :=
  List.forall₂_same.mpr fun t _ ↦ by simp [Ty.accepts]

namespace Functions

variable {f g : Function}

private theorem arity_eq (h : C.Functions f g) : g.arity = f.arity := h.accepts.length_eq.symm

/-- Definitions of one signature at corresponding sites. -/
theorem declared {name internalName : Text} {ps : List Ty} {t : Ty} {a b : Site} (ht : C.known t)
    (hs : C.site a b) :
    C.Functions ⟨name, internalName, ps, t, a⟩ ⟨name, internalName, ps, t, b⟩ :=
  ⟨rfl, rfl, forall₂_accepts_self ps, fun _ ↦ rfl, rfl, ht, hs⟩

private theorem ofFixed (h : C.fixed.Functions f g) : C.Functions f g :=
  ⟨h.name_eq, h.internalName_eq, h.accepts, h.parameters_eq, h.returns_eq, h.known, h.site⟩

end Functions

namespace Bindings

variable {v w : Variable}

/-- Corresponding variables have the same type. -/
theorem type_eq (h : C.Bindings (.variable v) (.variable w)) : w.type = v.type := by
  cases h with
  | ofVariable h => exact h.type_eq
  | ofField h => exact h.type_eq

/-- Corresponding variables are both constant or both not. -/
theorem constant_eq (h : C.Bindings (.variable v) (.variable w)) : w.constant = v.constant := by
  cases h with
  | ofVariable h => exact h.constant_eq
  | ofField h => exact h.constant_eq

/-- Assigning to corresponding constants gives corresponding errors. -/
theorem errors (h : C.Bindings (.variable v) (.variable w)) :
    C.Errors (.constantAssignment v.name) (.constantAssignment w.name) := by
  cases h with
  | ofVariable h =>
    rw [h.name_eq]
    exact Errors.renamed .constantAssignment (fun _ _ ↦ rfl) v.name
  | ofField h =>
    rw [h.name_eq]
    exact Errors.refl _

end Bindings

/-! ### Lookups in blocks and chains -/

open Likeness (rel_find? rel_or eq_none_of_rel exists_of_rel map_eq_of_forall₂ findVariable_cons
  findFunction_cons)

namespace Blocks

variable {b c : Block}

/-- Empty blocks correspond. -/
theorem empty : C.Blocks .empty .empty := ⟨.nil, .nil⟩

private theorem findVariable (h : C.Blocks b c) (name : Text) :
    Option.Rel C.Variables (b.findVariable? name) (c.findVariable? (C.rename name)) := by
  refine rel_find? h.vars fun v w hvw ↦ ?_
  rw [hvw.name_eq, decide_eq_decide]
  exact C.rename_injective.eq_iff.symm

private theorem findFunction (h : C.Blocks b c) (name : Text) (arity : Int) :
    Option.Rel C.Functions (b.findFunction? name arity) (c.findFunction? name arity) := by
  refine rel_find? h.funs fun f g hfg ↦ ?_
  rw [hfg.name_eq, hfg.arity_eq]

private theorem variableNames (h : C.Blocks b c) (hv : C.verbatim) :
    c.vars.map Variable.name = b.vars.map Variable.name := by
  refine map_eq_of_forall₂ h.vars fun v w hvw ↦ ?_
  rw [hvw.name_eq, C.rename_of_verbatim hv, id]

private theorem functionNames (h : C.Blocks b c) :
    c.funs.map Function.name = b.funs.map Function.name :=
  map_eq_of_forall₂ h.funs fun _ _ hfg ↦ hfg.name_eq

end Blocks

section Blockwise

variable {c c' : Chain}

private theorem rel_findVariable (h : List.Forall₂ C.Blocks c c') (name : Text) :
    Option.Rel C.Variables (c.findVariable? name) (c'.findVariable? (C.rename name)) := by
  induction h with
  | nil => exact .none
  | cons hb _ ih =>
    rw [findVariable_cons, findVariable_cons]
    exact rel_or (hb.findVariable name) ih

private theorem rel_findFunction (h : List.Forall₂ C.Blocks c c') (name : Text) (arity : Int) :
    Option.Rel C.Functions (c.findFunction? name arity) (c'.findFunction? name arity) := by
  induction h with
  | nil => exact .none
  | cons hb _ ih =>
    rw [findFunction_cons, findFunction_cons]
    exact rel_or (hb.findFunction name arity) ih

private theorem variableNames_eq (h : List.Forall₂ C.Blocks c c') (hv : C.verbatim) :
    c'.variableNames = c.variableNames := by
  unfold Chain.variableNames
  congr 1
  induction h with
  | nil => rfl
  | cons hb _ ih => rw [List.flatMap_cons, List.flatMap_cons, hb.variableNames hv, ih]

private theorem functionNames_eq (h : List.Forall₂ C.Blocks c c') :
    c'.functionNames = c.functionNames := by
  unfold Chain.functionNames
  congr 1
  induction h with
  | nil => rfl
  | cons hb _ ih => rw [List.flatMap_cons, List.flatMap_cons, hb.functionNames, ih]

/-- Chains that correspond block by block. -/
theorem Chains.ofBlocks (h : List.Forall₂ C.Blocks c c') : C.Chains c c' where
  findVariable hv := exists_of_rel (rel_findVariable h _) hv
  findFunction hf := exists_of_rel (rel_findFunction h _ _) hf
  blocks _ := h

/-- One more block in front of both. -/
theorem Chains.cons {b b' : Block} (hb : C.Blocks b b') (h : C.Chains c c') :
    C.Chains (b :: c) (b' :: c') where
  findVariable := by
    intro name v hv
    have hr := hb.findVariable name
    rw [findVariable_cons] at hv ⊢
    cases hv' : b.findVariable? name with
    | some u =>
      rw [hv'] at hv
      obtain ⟨w, hw, huw⟩ := exists_of_rel hr hv'
      obtain rfl := Option.some.inj hv
      exact ⟨w, by rw [hw, Option.some_or], huw⟩
    | none =>
      rw [hv', Option.none_or] at hv
      rw [eq_none_of_rel hr hv', Option.none_or]
      exact h.findVariable hv
  findFunction := by
    intro name arity f hf
    have hr := hb.findFunction name arity
    rw [findFunction_cons] at hf ⊢
    cases hf' : b.findFunction? name arity with
    | some u =>
      rw [hf'] at hf
      obtain ⟨g, hg, hug⟩ := exists_of_rel hr hf'
      obtain rfl := Option.some.inj hf
      exact ⟨g, by rw [hg, Option.some_or], hug⟩
    | none =>
      rw [hf', Option.none_or] at hf
      rw [eq_none_of_rel hr hf', Option.none_or]
      exact h.findFunction hf
  blocks hl := .cons hb (h.blocks hl)

end Blockwise

/-! ### Steps that are repeated -/

namespace Repeats

/-- Corresponding results. -/
theorem ok {Q : α → β → Prop} {a : α} {b : β} (h : Q a b) :
    C.Repeats Q (.ok a) (.ok b) := ⟨b, rfl, h⟩

/-- Corresponding errors. -/
theorem error {Q : α → β → Prop} {e e' : ProgramError} (h : C.Errors e e') :
    C.Repeats Q (.error e) (.error e') := fun _ ↦ ⟨e', rfl, h⟩

/-- Every outcome repeats itself. -/
theorem self (x : Except ProgramError α) : C.Repeats (fun a b ↦ b = a) x x := by
  cases x with
  | ok a => exact ok rfl
  | error e => exact error (.refl e)

/-- What holds of corresponding results may be weakened. -/
theorem mono {Q P : α → β → Prop} {x : Except ProgramError α} {y : Except ProgramError β}
    (h : C.Repeats Q x y) (hq : ∀ a b, Q a b → P a b) : C.Repeats P x y := by
  cases x with
  | ok a =>
    obtain ⟨b, hy, hab⟩ := h
    exact ⟨b, hy, hq a b hab⟩
  | error e => exact h

/-- Steps that repeat one another, done in sequence, do so as a whole. -/
theorem bind {Q : α → β → Prop} {P : γ → δ → Prop} {x : Except ProgramError α}
    {y : Except ProgramError β} {f : α → Except ProgramError γ} {g : β → Except ProgramError δ}
    (h : C.Repeats Q x y) (hf : ∀ a b, x = .ok a → Q a b → C.Repeats P (f a) (g b)) :
    C.Repeats P (x >>= f) (y >>= g) := by
  cases x with
  | ok a =>
    obtain ⟨b, rfl, hab⟩ := h
    exact hf a b rfl hab
  | error e =>
    intro hl
    obtain ⟨e', rfl, he⟩ := h hl
    exact ⟨e', rfl, he⟩

/-- A rule that both runs follow. -/
theorem rule_bind {P : γ → δ → Prop} {x : Except ProgramError α} {f : α → Except ProgramError γ}
    {g : α → Except ProgramError δ} (hf : ∀ a, x = .ok a → C.Repeats P (f a) (g a)) :
    C.Repeats P (x >>= f) (x >>= g) := by
  refine bind (self x) ?_
  rintro a _ hx rfl
  exact hf _ hx

/-- Demanding equivalent conditions gives corresponding outcomes. -/
theorem require {p q : Prop} [Decidable p] [Decidable q] {e e' : ProgramError} (hpq : p ↔ q)
    (he : C.Errors e e') :
    C.Repeats (fun _ _ ↦ True) (Rules.require p e) (Rules.require q e') := by
  unfold Rules.require
  by_cases hp : p
  · rw [if_pos hp, if_pos (hpq.mp hp)]
    exact ok trivial
  · rw [if_neg hp, if_neg (hpq.not.mp hp)]
    exact error he

end Repeats

/-! ### Arguments -/

/-- What a type accepts that a wider type accepts, the wider type accepts. -/
theorem accepts_trans {wide narrow t : Ty} (h : wide.accepts narrow = true)
    (ht : narrow.accepts t = true) : wide.accepts t = true := by
  rw [← assignable_iff] at h ht ⊢
  cases h with
  | same => exact ht
  | any => exact .any t
  | comparable hb =>
    cases ht with
    | same => exact .comparable hb
    | any => exact absurd hb (by decide)
    | comparable => exact absurd hb (by decide)

private theorem requireArguments_of_accepts {ps qs ts : List Ty}
    (h : List.Forall₂ (fun p q ↦ Ty.accepts q p = true) ps qs)
    (hts : Rules.requireArguments ps ts = .ok ()) : Rules.requireArguments qs ts = .ok () := by
  induction h generalizing ts with
  | nil => exact hts
  | @cons p q ps qs hpq _ ih =>
    cases ts with
    | nil => rfl
    | cons t ts =>
      obtain ⟨_, hp, hps⟩ := except_bind_ok_iff.mp hts
      have hq : Rules.requireAssignable q t = .ok () := by
        rw [Rules.requireAssignable_ok_iff] at hp ⊢
        exact accepts_trans hpq hp
      rw [Rules.requireArguments, hq]
      exact ih hps

/-- Arguments that a function accepts the corresponding function accepts. -/
theorem arguments_repeat {ps qs : List Ty}
    (h : List.Forall₂ (fun p q ↦ Ty.accepts q p = true) ps qs) (he : C.sameParameters → qs = ps)
    (ts : List Ty) :
    C.Repeats (fun _ _ ↦ True) (Rules.requireArguments ps ts) (Rules.requireArguments qs ts) := by
  cases hx : Rules.requireArguments ps ts with
  | ok u =>
    rw [requireArguments_of_accepts h hx]
    exact .ok trivial
  | error e =>
    intro hl
    rw [he (C.sameParameters_of_faithful hl), hx]
    exact ⟨e, rfl, .refl e⟩

/-- Corresponding functions take the same arguments. -/
theorem Functions.arguments {f g : Function} (h : C.Functions f g) (ts : List Ty) :
    C.Repeats (fun _ _ ↦ True) (Rules.requireArguments f.parameters ts)
      (Rules.requireArguments g.parameters ts) :=
  arguments_repeat h.accepts h.parameters_eq ts

/-- The receiver of a method is not among its arguments. -/
theorem Functions.methodArguments {f g : Function} (h : C.Functions f g) (ts : List Ty) :
    C.Repeats (fun _ _ ↦ True) (Rules.requireArguments f.parameters.tail ts)
      (Rules.requireArguments g.parameters.tail ts) := by
  refine arguments_repeat ?_ (fun hs ↦ by rw [h.parameters_eq hs]) ts
  have ha := h.accepts
  generalize f.parameters = ps at ha
  generalize g.parameters = qs at ha
  cases ha with
  | nil => exact .nil
  | cons _ hps => exact hps

/-! ### Names that are looked up -/

namespace Chains

variable {c c' : Chain}

private theorem missVariable (h : C.Chains c c') (hl : C.faithful) {name : Text}
    (hv : c.findVariable? name = none) : c'.findVariable? (C.rename name) = none :=
  eq_none_of_rel (rel_findVariable (h.blocks hl) name) hv

private theorem missFunction (h : C.Chains c c') (hl : C.faithful) {name : Text} {arity : Int}
    (hf : c.findFunction? name arity = none) : c'.findFunction? name arity = none :=
  eq_none_of_rel (rel_findFunction (h.blocks hl) name arity) hf

/-- Corresponding chains give corresponding variables for corresponding names. -/
theorem lookupVariable (h : C.Chains c c') (name : Text) :
    C.Repeats C.Variables (c.lookupVariable name) (c'.lookupVariable (C.rename name)) := by
  unfold Chain.lookupVariable
  cases hv : c.findVariable? name with
  | some v =>
    obtain ⟨w, hw, hvw⟩ := h.findVariable hv
    rw [hw]
    exact .ok hvw
  | none =>
    intro hl
    rw [h.missVariable hl hv]
    refine ⟨_, rfl, rfl, fun hs ↦ ?_⟩
    rw [C.rename_of_verbatim hs, variableNames_eq (h.blocks hl) hs, id]

/-- Corresponding chains give corresponding functions. -/
theorem lookupFunction (h : C.Chains c c') (name : Text) (arity : Int) :
    C.Repeats C.Functions (c.lookupFunction name arity) (c'.lookupFunction name arity) := by
  unfold Chain.lookupFunction
  cases hf : c.findFunction? name arity with
  | some f =>
    obtain ⟨g, hg, hfg⟩ := h.findFunction hf
    rw [hg]
    exact .ok hfg
  | none =>
    intro hl
    rw [h.missFunction hl hf, functionNames_eq (h.blocks hl)]
    exact ⟨_, rfl, .refl _⟩

/-- Corresponding members give corresponding fields. -/
theorem lookupField {s s' : Scopes} {owner : Ty}
    (h : C.fixed.Chains (s.members owner) (s'.members owner)) (name : Text) :
    C.Repeats C.fixed.Variables (s.lookupField owner name) (s'.lookupField owner name) := by
  unfold Scopes.lookupField Chain.lookupField
  cases hv : (s.members owner).findVariable? name with
  | some v =>
    obtain ⟨w, hw, hvw⟩ := h.findVariable hv
    change (s'.members owner).findVariable? name = some w at hw
    rw [hw]
    exact .ok hvw
  | none =>
    intro hl
    have hn : (s'.members owner).findVariable? name = none := h.missVariable hl hv
    rw [hn]
    refine ⟨_, rfl, rfl, fun hs ↦ ?_⟩
    rw [variableNames_eq (h.blocks hl) hs]

/-- Corresponding members give corresponding methods. -/
theorem lookupMethod {s s' : Scopes} {owner : Ty}
    (h : C.fixed.Chains (s.members owner) (s'.members owner)) (name : Text) (arity : Int) :
    C.Repeats C.Functions (s.lookupMethod owner name arity) (s'.lookupMethod owner name arity) := by
  unfold Scopes.lookupMethod Chain.lookupMethod
  cases hf : (s.members owner).findFunction? name (arity + 1) with
  | some f =>
    obtain ⟨g, hg, hfg⟩ := h.findFunction hf
    rw [hg]
    exact .ok hfg.ofFixed
  | none =>
    intro hl
    rw [h.missFunction hl hf, functionNames_eq (h.blocks hl)]
    exact ⟨_, rfl, .refl _⟩

/-- Corresponding chains both have an entry point or both lack one. -/
theorem requireEntryPoint (h : C.Chains c c') :
    C.Repeats (fun _ _ ↦ True) (requireEntryPoint c) (requireEntryPoint c') := by
  unfold TreeCheck.requireEntryPoint
  cases hf : c.findFunction? "main" 0 with
  | some f =>
    obtain ⟨g, hg, hfg⟩ := h.findFunction hf
    rw [hg]
    simp only [hfg.returns_eq]
    exact (Repeats.self _).mono fun _ _ _ ↦ trivial
  | none =>
    intro hl
    rw [h.missFunction hl hf]
    exact ⟨_, rfl, .refl _⟩

end Chains

namespace Catalogs

variable {c c' : Catalog}

/-- Corresponding catalogs resolve a name alike. -/
theorem resolve (h : C.Catalogs c c') (name : Text) :
    C.Repeats (fun t u ↦ u = t ∧ C.known t) (c.resolve name) (c'.resolve name) := by
  unfold Catalog.resolve
  cases ht : c.find? name with
  | some t =>
    obtain ⟨ht', hk⟩ := h.find ht
    rw [ht']
    exact .ok ⟨rfl, hk⟩
  | none =>
    intro hl
    rw [h.same hl, ht]
    exact ⟨_, rfl, .refl _⟩

/-- Corresponding catalogs resolve a list of names alike. -/
theorem resolveAll (h : C.Catalogs c c') (names : List Text) :
    C.Repeats (fun ts us ↦ us = ts ∧ ∀ t ∈ ts, C.known t) (c.resolveAll names)
      (c'.resolveAll names) := by
  induction names with
  | nil => exact .ok ⟨rfl, List.forall_mem_nil _⟩
  | cons name names ih =>
    refine Repeats.bind (h.resolve name) ?_
    rintro t _ _ ⟨rfl, ht⟩
    refine Repeats.bind ih ?_
    rintro ts _ _ ⟨rfl, hts⟩
    exact .ok ⟨rfl, List.forall_mem_cons.mpr ⟨ht, hts⟩⟩

/-- Corresponding catalogs resolve the name of a return type alike. -/
theorem resolveReturn (h : C.Catalogs c c') (name : Option Text) :
    C.Repeats (fun t u ↦ u = t ∧ C.known t) (c.resolveReturn name) (c'.resolveReturn name) := by
  cases name with
  | none => exact .ok ⟨rfl, C.known_builtin _⟩
  | some name => exact h.resolve name

/-- Corresponding catalogs give a declared variable the same type. -/
theorem declaredType (h : C.Catalogs c c') (name : Text) (typeName : Option Text)
    {found : Option Ty} (hf : ∀ t ∈ found, C.known t) :
    C.Repeats (fun t u ↦ u = t ∧ C.known t) (Stmt.declaredType c name typeName found)
      (Stmt.declaredType c' (C.rename name) typeName found) := by
  cases typeName with
  | none =>
    cases found with
    | none => exact .error (.renamed .declarationWithoutType (fun _ _ ↦ rfl) name)
    | some t => exact .ok ⟨rfl, hf t rfl⟩
  | some typeName =>
    cases found with
    | none => exact h.resolve typeName
    | some t =>
      refine Repeats.bind (h.resolve typeName) ?_
      rintro wanted _ _ ⟨rfl, hw⟩
      exact Repeats.rule_bind fun _ _ ↦ .ok ⟨rfl, hw⟩

end Catalogs

/-! ### Definitions that are made -/

namespace Blocks

variable {b c : Block}

/-- Defining corresponding variables keeps blocks in correspondence. -/
theorem defineVariable (h : C.Blocks b c) {v w : Variable} (hvw : C.Variables v w) :
    C.Repeats C.Blocks (b.defineVariable v) (c.defineVariable w) := by
  unfold Block.defineVariable
  rw [hvw.name_eq]
  have hr := h.findVariable v.name
  cases hv : b.findVariable? v.name with
  | some u =>
    obtain ⟨u', hu', _⟩ := exists_of_rel hr hv
    rw [hu']
    exact .error (.renamed .duplicateVariable (fun _ _ ↦ rfl) v.name)
  | none =>
    rw [eq_none_of_rel hr hv]
    exact .ok ⟨List.rel_append h.vars (.cons hvw .nil), h.funs⟩

/-- Defining corresponding functions keeps blocks in correspondence. -/
theorem defineFunction (h : C.Blocks b c) {f g : Function} (hfg : C.Functions f g) :
    C.Repeats C.Blocks (b.defineFunction f) (c.defineFunction g) := by
  unfold Block.defineFunction
  rw [hfg.name_eq, hfg.arity_eq]
  have hr := h.findFunction f.name f.arity
  cases hf : b.findFunction? f.name f.arity with
  | some u =>
    obtain ⟨u', hu', _⟩ := exists_of_rel hr hf
    rw [hu']
    exact .error (.refl _)
  | none =>
    rw [eq_none_of_rel hr hf]
    exact .ok ⟨h.vars, List.rel_append h.funs (.cons hfg .nil)⟩

/-- Defining corresponding parameters keeps blocks in correspondence. -/
theorem defineParameters {method method' : NodeId}
    (hs : ∀ position, C.site (.parameter method position) (.parameter method' position))
    {ps : List (Text × Ty)} (hp : ∀ p ∈ ps, C.known p.2) {position : Nat} (h : C.Blocks b c) :
    C.Repeats C.Blocks (b.defineParameters method position ps)
      (c.defineParameters method' position (ps.map fun p ↦ (C.rename p.1, p.2))) := by
  induction ps generalizing b c position with
  | nil => exact .ok h
  | cons p ps ih =>
    rw [List.forall_mem_cons] at hp
    obtain ⟨name, type⟩ := p
    refine Repeats.bind (h.defineVariable (.declared name hp.1 (hs position))) ?_
    intro b' c' _ h'
    exact ih hp.2 h'

end Blocks

end Correspondence

end TreeCheck
