import Mathlib.Data.List.Nodup
import Mathlib.Data.List.Perm.Basic
import TreeCheck.Proofs.Keys

/-!
# Registration of object types

Declared types are registered one after another, and only then are their members defined, so a
member may name any of them. Both passes are described by what they leave: `Symbols.registered` and
`Symbols.fill`. From this it follows exactly when a declaration succeeds, what each new type holds,
and that the order of the declarations does not matter.
-/

namespace TreeCheck

/-! ### Names of a catalog -/

namespace Catalog

variable {c : Catalog} {name : Text}

private theorem find?_eq_none_iff : c.find? name = none ↔ name ∉ c.names := by
  simp [find?, names]

/-- The type of a name that the catalog has. -/
def typeOf (c : Catalog) (name : Text) : Ty := (c.find? name).getD .nil

/-- A catalog finds the type of a name that it has. -/
theorem find?_eq_some_iff {t : Ty} :
    c.find? name = some t ↔ name ∈ c.names ∧ t = c.typeOf name := by
  cases h : c.find? name with
  | none => simp [find?_eq_none_iff.mp h]
  | some u =>
    have hmem : name ∈ c.names := by
      by_contra hnot
      simp [find?_eq_none_iff.mpr hnot] at h
    simp [hmem, typeOf, h, eq_comm]

/-- A catalog finds the types of names that it has. -/
theorem forall₂_find?_iff {names : List Text} {ts : List Ty} :
    List.Forall₂ (fun name t ↦ c.find? name = some t) names ts ↔
      (∀ name ∈ names, name ∈ c.names) ∧ ts = names.map c.typeOf := by
  induction names generalizing ts with
  | nil => simp
  | cons name names ih =>
    cases ts with
    | nil => simp
    | cons t ts =>
      rw [List.forall₂_cons, find?_eq_some_iff, ih]
      simp only [List.forall_mem_cons, List.map_cons, List.cons.injEq]
      tauto

/-- A return type is that of its name, or nil if there is no name. -/
theorem resolveReturn_iff {returns : Option Text} {t : Ty} :
    c.resolveReturn returns = .ok t ↔
      (∀ name ∈ returns, name ∈ c.names) ∧ t = returns.elim .nil c.typeOf := by
  cases returns with
  | none => simp [resolveReturn, eq_comm]
  | some name => simp [resolveReturn, resolve_ok_iff, find?_eq_some_iff]

end Catalog

/-! ### Lists of steps -/

section

variable {α ε σ : Type} {f : α → EStateM ε σ Unit} {a : α} {l : List α} {s s' : σ} {u : Unit}

private theorem forM_nil_ok_iff : [].forM f s = .ok u s' ↔ s' = s := by
  change (pure () : EStateM ε σ Unit) s = _ ↔ _
  rw [run_pure_ok_iff]
  simp [eq_comm]

private theorem forM_cons_ok_iff :
    (a :: l).forM f s = .ok u s' ↔ ∃ t, f a s = .ok () t ∧ l.forM f t = .ok u s' := by
  change (f a >>= fun _ ↦ l.forM f) s = _ ↔ _
  rw [run_bind_ok_iff]
  exact Unique.exists_iff

end

/-! ### Scopes whose blocks are replaced -/

namespace Scopes

variable {s : Scopes} {id : ScopeId} {b b' : Block}

private theorem replace_replace (l : List Scope) (id : ScopeId) (b b' : Block) :
    replace (replace l id b) id b' = replace l id b' := by
  induction l with
  | nil => rfl
  | cons scope earlier ih =>
    by_cases h : id = earlier.length
    · simp [replace, h]
    · simp [replace, h, length_replace, ih]

private theorem replace_of_find? {l : List Scope} {scope : Scope} (h : find? l id = some scope) :
    replace l id scope.block = l := by
  induction l with
  | nil => rfl
  | cons first earlier ih =>
    by_cases hid : id = earlier.length
    · simp only [find?, hid, if_true, Option.some.injEq] at h
      simp [replace, hid, h]
    · simp only [find?, hid, if_false] at h
      simp [replace, hid, ih h]

private theorem setBlock_setBlock (s : Scopes) (id : ScopeId) (b b' : Block) :
    (s.setBlock id b).setBlock id b' = s.setBlock id b' := by
  simp [setBlock, replace_replace]

private theorem setBlock_block (h : id < s.size) : s.setBlock id (s.block id) = s := by
  obtain ⟨scope, hscope⟩ := find?_isSome h
  have hblock : s.block id = scope.block := by simp [block, hscope]
  rw [setBlock, hblock, replace_of_find? hscope]

private theorem replace_of_length_le {l : List Scope} (h : l.length ≤ id) : replace l id b = l := by
  induction l with
  | nil => rfl
  | cons first earlier ih =>
    rw [List.length_cons] at h
    have hne : id ≠ earlier.length := Nat.ne_of_gt h
    simp [replace, hne, ih (Nat.le_of_lt h)]

/-- Later scopes do not belong to the earlier ones. -/
theorem suffix_replace {l old : List Scope} (h : old <:+ l) (hid : old.length ≤ id) (b : Block) :
    old <:+ replace l id b := by
  induction l with
  | nil => simpa [replace] using h
  | cons first earlier ih =>
    rcases List.suffix_cons_iff.mp h with rfl | h
    · simp only [replace_of_length_le hid, List.suffix_refl]
    · by_cases hlast : id = earlier.length
      · simp only [replace, hlast, if_true]
        exact h.trans (List.suffix_cons _ _)
      · simp only [replace, hlast, if_false]
        exact (ih h).trans (List.suffix_cons _ _)

end Scopes

/-- Symbols with another block in a scope. -/
def Symbols.setBlock (s : Symbols) (id : ScopeId) (b : Block) : Symbols :=
  { s with scopes := s.scopes.setBlock id b }

private theorem Symbols.setBlock_setBlock (s : Symbols) (id : ScopeId) (b b' : Block) :
    (s.setBlock id b).setBlock id b' = s.setBlock id b' := by
  simp only [setBlock, Scopes.setBlock_setBlock]

/-- Steps that each define a binding in a scope, if the types it needs are known and its key is
free, succeed together if the keys are also distinct. -/
theorem forM_define_ok_iff {α : Type} {f : α → DeclareM Unit} {x : α → Binding} {known : α → Prop}
    {c : Catalog} {id : ScopeId}
    (hf : ∀ a s s' u, s.catalog = c → (f a s = .ok u s' ↔
      known a ∧ (s.scopes.block id).find? (x a).key = none ∧
        s' = s.setBlock id ((s.scopes.block id).add (x a))))
    {l : List α} {s s' : Symbols} {u : Unit} (hc : s.catalog = c) (hid : id < s.scopes.size) :
    l.forM f s = .ok u s' ↔
      (∀ a ∈ l, known a) ∧ (l.map fun a ↦ (x a).key).Nodup ∧
        (∀ a ∈ l, (s.scopes.block id).find? (x a).key = none) ∧
        s' = s.setBlock id ((l.map x).foldl Block.add (s.scopes.block id)) := by
  induction l generalizing s with
  | nil =>
    have hs : s.setBlock id (s.scopes.block id) = s := by
      rw [Symbols.setBlock, Scopes.setBlock_block hid]
    rw [forM_nil_ok_iff]
    simp [hs]
  | cons a l ih =>
    have hblock : ∀ b, (s.setBlock id b).scopes.block id = b :=
      fun b ↦ Scopes.block_setBlock_self hid
    have hrest := ih (s := s.setBlock id ((s.scopes.block id).add (x a))) hc
      (by simpa [Symbols.setBlock] using hid)
    rw [hblock, Symbols.setBlock_setBlock] at hrest
    have hfree : (∀ e ∈ l, ((s.scopes.block id).add (x a)).find? (x e).key = none) ↔
        (∀ e ∈ l, (s.scopes.block id).find? (x e).key = none) ∧
          (x a).key ∉ l.map fun e ↦ (x e).key := by
      simp only [Block.find?_add, Option.or_eq_none_iff, List.mem_map, not_exists, not_and,
        ite_eq_right_iff, reduceCtorEq, imp_false]
      constructor
      · intro h
        exact ⟨fun e he ↦ (h e he).1, fun e he heq ↦ (h e he).2 heq.symm⟩
      · intro h e he
        exact ⟨h.1 e he, fun heq ↦ h.2 e he heq.symm⟩
    rw [forM_cons_ok_iff]
    simp only [hf a s _ _ hc, and_assoc, exists_and_left, exists_eq_left, hrest, hfree,
      List.forall_mem_cons, List.map_cons, List.nodup_cons, List.foldl_cons]
    tauto

/-! ### Members -/

/-- What tells the methods of a type apart: the name and the number of parameters. -/
def MethodDeclaration.key (m : MethodDeclaration) : Text × Nat := (m.name, m.parameters.length)

namespace TypeDeclaration

variable {d : TypeDeclaration} {c : Catalog} {o : ObjectType} {s s' : Symbols} {u : Unit}

/-- The names of types that the members of a declared type mention. -/
def mentioned (d : TypeDeclaration) : List Text :=
  d.fields.map Prod.snd ++ d.methods.flatMap fun m ↦ m.parameters ++ m.returns.toList

/-- The variable that a field becomes. -/
def fieldOf (d : TypeDeclaration) (c : Catalog) (o : ObjectType) (field : Text × Text) : Variable :=
  ⟨field.1, field.1, c.typeOf field.2, d.constants.contains field.1, .scope o.members⟩

/-- The function that a method becomes. -/
def methodOf (d : TypeDeclaration) (c : Catalog) (o : ObjectType) (m : MethodDeclaration) :
    Function :=
  ⟨m.name, d.name ++ "." ++ m.name, .object o :: m.parameters.map c.typeOf,
    m.returns.elim .nil c.typeOf, .scope o.members⟩

/-- The block that the members of a type become. -/
def block (d : TypeDeclaration) (c : Catalog) (o : ObjectType) : Block :=
  ⟨d.fields.map (d.fieldOf c o), d.methods.map (d.methodOf c o)⟩

/-- The members can be defined: they only mention types of the catalog, no two fields have the same
name, and no two methods have the same name and number of parameters. -/
structure Definable (d : TypeDeclaration) (c : Catalog) : Prop where
  known : ∀ name ∈ d.mentioned, name ∈ c.names
  fields : (d.fields.map Prod.fst).Nodup
  methods : (d.methods.map MethodDeclaration.key).Nodup

private theorem defineField_iff {field : Text × Text} :
    d.defineField o field s = .ok u s' ↔
      field.2 ∈ s.catalog.names ∧
        (s.scopes.block o.members).find? (Binding.variable (d.fieldOf s.catalog o field)).key =
          none ∧
        s' = s.setBlock o.members
          ((s.scopes.block o.members).add (.variable (d.fieldOf s.catalog o field))) := by
  rw [defineField_ok_iff]
  simp only [Catalog.find?_eq_some_iff, and_assoc, exists_and_left, exists_eq_left, Binding.key,
    Block.find?, Option.map_eq_none_iff, fieldOf, Block.add, Symbols.setBlock, List.contains_eq_mem]

private theorem defineMethod_iff {m : MethodDeclaration} :
    d.defineMethod o m s = .ok u s' ↔
      (∀ name ∈ m.parameters ++ m.returns.toList, name ∈ s.catalog.names) ∧
        (s.scopes.block o.members).find? (Binding.function (d.methodOf s.catalog o m)).key = none ∧
        s' = s.setBlock o.members
          ((s.scopes.block o.members).add (.function (d.methodOf s.catalog o m))) := by
  rw [defineMethod_ok_iff]
  simp only [Catalog.forall₂_find?_iff, Catalog.resolveReturn_iff, and_assoc, exists_and_left,
    exists_eq_left, Binding.key, Block.find?, Option.map_eq_none_iff, methodOf, Block.add,
    Symbols.setBlock, List.forall_mem_append, Option.mem_toList, Option.mem_def, Function.arity,
    List.length_cons]

/-- The fields of a type whose scope is empty. -/
theorem defineFields_iff (hid : o.members < s.scopes.size)
    (hempty : s.scopes.block o.members = .empty) :
    d.fields.forM (d.defineField o) s = .ok u s' ↔
      (∀ field ∈ d.fields, field.2 ∈ s.catalog.names) ∧ (d.fields.map Prod.fst).Nodup ∧
        s' = s.setBlock o.members ⟨d.fields.map (d.fieldOf s.catalog o), []⟩ := by
  have hkey : (fun field ↦ (Binding.variable (d.fieldOf s.catalog o field)).key) =
      Scopes.Key.ofVariable ∘ Prod.fst := rfl
  have hinj : Function.Injective Scopes.Key.ofVariable := fun _ _ h ↦ Scopes.Key.ofVariable.inj h
  rw [forM_define_ok_iff (fun field t t' _ hc ↦ hc ▸ defineField_iff) rfl hid, hempty, hkey,
    ← List.map_map, List.nodup_map_iff hinj, Block.foldl_add_variables]
  simp only [Block.find?_empty, implies_true, true_and]
  rfl

/-- The methods of a type whose scope holds fields only. -/
theorem defineMethods_iff (hid : o.members < s.scopes.size) {vs : List Variable}
    (hfields : s.scopes.block o.members = ⟨vs, []⟩) :
    d.methods.forM (d.defineMethod o) s = .ok u s' ↔
      (∀ m ∈ d.methods, ∀ name ∈ m.parameters ++ m.returns.toList, name ∈ s.catalog.names) ∧
        (d.methods.map MethodDeclaration.key).Nodup ∧
        s' = s.setBlock o.members ⟨vs, d.methods.map (d.methodOf s.catalog o)⟩ := by
  have hkey : (fun m ↦ (Binding.function (d.methodOf s.catalog o m)).key) =
      (fun k : Text × Nat ↦ Scopes.Key.ofFunction k.1 (k.2 + 1 : Nat)) ∘ MethodDeclaration.key := by
    funext m
    simp [Binding.key, methodOf, Function.arity, MethodDeclaration.key]
  have hinj :
      Function.Injective fun k : Text × Nat ↦ Scopes.Key.ofFunction k.1 (k.2 + 1 : Nat) := by
    rintro ⟨name, n⟩ ⟨name', n'⟩ h
    rw [Scopes.Key.ofFunction.injEq] at h
    exact Prod.ext h.1 (by omega)
  rw [forM_define_ok_iff (fun m t t' _ hc ↦ hc ▸ defineMethod_iff) rfl hid, hfields, hkey,
    ← List.map_map, List.nodup_map_iff hinj, Block.foldl_add_functions]
  simp [Block.find?, Binding.key, Block.findFunction?]

/-- The names that a declaration mentions are those of its fields and methods. -/
theorem forall_mem_mentioned {p : Text → Prop} :
    (∀ name ∈ d.mentioned, p name) ↔
      (∀ field ∈ d.fields, p field.2) ∧
        ∀ m ∈ d.methods, ∀ name ∈ m.parameters ++ m.returns.toList, p name := by
  simp only [mentioned, List.forall_mem_append, List.forall_mem_map, List.forall_mem_flatMap]

/-- The members of a type whose scope is empty. -/
theorem defineMembers_iff (hid : o.members < s.scopes.size)
    (hempty : s.scopes.block o.members = .empty) :
    d.defineMembers o s = .ok u s' ↔
      d.Definable s.catalog ∧ s' = s.setBlock o.members (d.block s.catalog o) := by
  have hsize : ∀ b, o.members < (s.setBlock o.members b).scopes.size := fun b ↦ by
    rwa [Symbols.setBlock, Scopes.size_setBlock]
  have hmethods : ∀ vs,
      d.methods.forM (d.defineMethod o) (s.setBlock o.members ⟨vs, []⟩) = .ok u s' ↔ _ :=
    fun vs ↦ defineMethods_iff (hsize _) (Scopes.block_setBlock_self hid)
  rw [defineMembers, run_bind_ok_iff]
  simp only [defineFields_iff hid hempty]
  constructor
  · rintro ⟨_, t, ⟨hfields, hnodup, rfl⟩, h⟩
    obtain ⟨hms, hkeys, rfl⟩ := (hmethods _).mp h
    refine ⟨⟨forall_mem_mentioned.mpr ⟨hfields, hms⟩, hnodup, hkeys⟩, ?_⟩
    rw [Symbols.setBlock_setBlock]
    rfl
  · rintro ⟨h, rfl⟩
    obtain ⟨hfields, hms⟩ := forall_mem_mentioned.mp h.known
    refine ⟨(), _, ⟨hfields, h.fields, rfl⟩, (hmethods _).mpr ⟨hms, h.methods, ?_⟩⟩
    rw [Symbols.setBlock_setBlock]
    rfl

end TypeDeclaration

/-! ### The two passes -/

/-- The names of declared types are distinct, and the catalog has none of them. -/
structure Catalog.Free (c : Catalog) (declared : List TypeDeclaration) : Prop where
  distinct : (declared.map TypeDeclaration.name).Nodup
  new : ∀ d ∈ declared, d.name ∉ c.names

/-- New types for declarations, with the identities that come next. -/
def newTypes : TypeId → ScopeId → List TypeDeclaration → List ObjectType
  | _, _, [] => []
  | id, members, d :: declared =>
    ⟨id, d.name, d.name, members⟩ :: newTypes (id + 1) (members + 1) declared

namespace Symbols

variable {s s' : Symbols} {declared : List TypeDeclaration} {os : List ObjectType}

/-- What the first pass leaves: the types are in the catalog, and their scopes are empty. -/
def registered (s : Symbols) (declared : List TypeDeclaration) : Symbols where
  scopes := ⟨List.replicate declared.length ⟨none, .empty⟩ ++ s.scopes.latestFirst⟩
  catalog := ⟨s.catalog.types ++ (newTypes s.nextType s.scopes.size declared).map .object⟩
  nextType := s.nextType + declared.length
  nextNode := s.nextNode

/-- What the second pass leaves: the scopes of the types hold their members. -/
def fill (s : Symbols) : List (TypeDeclaration × ObjectType) → Symbols
  | [] => s
  | (d, o) :: rest => (s.setBlock o.members (d.block s.catalog o)).fill rest

private theorem registered_cons (d : TypeDeclaration) :
    s.registered (d :: declared) =
      ({ s with
        scopes := s.scopes.create none
        catalog := ⟨s.catalog.types ++ [.object ⟨s.nextType, d.name, d.name, s.scopes.size⟩]⟩
        nextType := s.nextType + 1 } : Symbols).registered declared := by
  simp [registered, newTypes, Scopes.create, Scopes.size, List.replicate_succ', Nat.add_assoc,
    Nat.add_comm 1]

private theorem free_cons {c : Catalog} {d : TypeDeclaration} {o : ObjectType}
    (ho : o.name = d.name) :
    c.Free (d :: declared) ↔
      d.name ∉ c.names ∧ Catalog.Free ⟨c.types ++ [.object o]⟩ declared := by
  have hnames : (Catalog.mk (c.types ++ [.object o])).names = c.names ++ [d.name] := by
    simp [Catalog.names, Ty.name, ho]
  constructor
  · intro h
    obtain ⟨hnot, hdistinct⟩ := List.nodup_cons.mp h.distinct
    refine ⟨h.new d List.mem_cons_self, hdistinct, fun e he ↦ ?_⟩
    rw [hnames, List.mem_append, List.mem_singleton, not_or]
    exact ⟨h.new e (List.mem_cons_of_mem d he), fun heq ↦ hnot (heq ▸ List.mem_map_of_mem he)⟩
  · rintro ⟨hnew, h⟩
    have hrest : ∀ e ∈ declared, e.name ∉ c.names ∧ e.name ≠ d.name := fun e he ↦ by
      simpa [hnames] using h.new e he
    refine ⟨List.nodup_cons.mpr ⟨?_, h.distinct⟩, ?_⟩
    · intro hmem
      obtain ⟨e, he, heq⟩ := List.mem_map.mp hmem
      exact (hrest e he).2 heq
    · exact List.forall_mem_cons.mpr ⟨hnew, fun e he ↦ (hrest e he).1⟩

private theorem registerAll_iff :
    declared.mapM TypeDeclaration.registerType s = .ok os s' ↔
      s.catalog.Free declared ∧ os = newTypes s.nextType s.scopes.size declared ∧
        s' = s.registered declared := by
  induction declared generalizing s os with
  | nil =>
    have hfree : s.catalog.Free [] := ⟨List.nodup_nil, List.forall_mem_nil _⟩
    rw [List.mapM_nil, run_pure_ok_iff]
    simp [hfree, newTypes, registered, eq_comm]
  | cons d declared ih =>
    rw [List.mapM_cons, run_bind_ok_iff]
    simp only [run_bind_ok_iff, run_pure_ok_iff, TypeDeclaration.registerType_ok_iff]
    constructor
    · rintro ⟨o, t, ⟨hnew, rfl, rfl⟩, os, t', h, rfl, rfl⟩
      obtain ⟨hfree, rfl, rfl⟩ := ih.mp h
      have hnew := Catalog.find?_eq_none_iff.mp hnew
      exact ⟨(free_cons rfl).mpr ⟨hnew, hfree⟩, rfl, (registered_cons d).symm⟩
    · rintro ⟨h, rfl, rfl⟩
      obtain ⟨hnew, hfree⟩ := (free_cons (o := ⟨_, d.name, _, _⟩) rfl).mp h
      have hnew := Catalog.find?_eq_none_iff.mpr hnew
      exact ⟨_, _, ⟨hnew, rfl, rfl⟩, _, _, ih.mpr ⟨hfree, rfl, registered_cons d⟩, rfl, rfl⟩

/-! ### What the passes leave -/

variable {l : List (TypeDeclaration × ObjectType)} {id : ScopeId} {u : Unit}

/-- Defining members leaves the catalog as it is. -/
theorem catalog_fill (s : Symbols) (l : List (TypeDeclaration × ObjectType)) :
    (s.fill l).catalog = s.catalog := by
  induction l generalizing s with
  | nil => rfl
  | cons p l ih => exact ih _

private theorem block_fill_of_not_mem (h : id ∉ l.map fun p ↦ p.2.members) :
    (s.fill l).scopes.block id = s.scopes.block id := by
  induction l generalizing s with
  | nil => rfl
  | cons p l ih =>
    rw [List.map_cons, List.mem_cons, not_or] at h
    rw [fill, ih h.2]
    exact Scopes.block_setBlock_of_ne h.1

/-- A type whose scope is filled has its own members and no others. -/
theorem block_fill {d : TypeDeclaration} {o : ObjectType}
    (hdistinct : (l.map fun p ↦ p.2.members).Nodup) (hmem : (d, o) ∈ l)
    (hid : o.members < s.scopes.size) :
    (s.fill l).scopes.block o.members = d.block s.catalog o := by
  induction l generalizing s with
  | nil => cases hmem
  | cons p l ih =>
    obtain ⟨hnot, hdistinct⟩ := List.nodup_cons.mp hdistinct
    rcases List.mem_cons.mp hmem with rfl | hmem
    · rw [fill, block_fill_of_not_mem hnot]
      exact Scopes.block_setBlock_self hid
    · rw [fill]
      apply ih hdistinct hmem
      rwa [setBlock, Scopes.size_setBlock]

/-- Defining members leaves scopes on their own. -/
theorem alone_fill (h : s.scopes.Alone id) : (s.fill l).scopes.Alone id := by
  induction l generalizing s with
  | nil => exact h
  | cons p l ih => exact ih h.setBlock

/-- Defining members of new types leaves the earlier scopes as they are. -/
theorem suffix_fill {old : List Scope} (h : old <:+ s.scopes.latestFirst)
    (hlater : ∀ p ∈ l, old.length ≤ p.2.members) : old <:+ (s.fill l).scopes.latestFirst := by
  induction l generalizing s with
  | nil => exact h
  | cons p l ih =>
    rw [List.forall_mem_cons] at hlater
    exact ih (Scopes.suffix_replace h hlater.1 _) hlater.2

private theorem defineAll_iff (hdistinct : (l.map fun p ↦ p.2.members).Nodup)
    (hempty : ∀ p ∈ l, p.2.members < s.scopes.size ∧ s.scopes.block p.2.members = .empty) :
    l.forM (fun p ↦ p.1.defineMembers p.2) s = .ok u s' ↔
      (∀ p ∈ l, p.1.Definable s.catalog) ∧ s' = s.fill l := by
  induction l generalizing s with
  | nil =>
    rw [forM_nil_ok_iff, fill]
    simp
  | cons p l ih =>
    obtain ⟨hnot, hdistinct⟩ := List.nodup_cons.mp hdistinct
    obtain ⟨⟨hid, hp⟩, hempty⟩ := List.forall_mem_cons.mp hempty
    have hrest : ∀ q ∈ l,
        q.2.members < (s.setBlock p.2.members (p.1.block s.catalog p.2)).scopes.size ∧
        (s.setBlock p.2.members (p.1.block s.catalog p.2)).scopes.block q.2.members = .empty := by
      intro q hq
      have hne : q.2.members ≠ p.2.members := fun heq ↦ hnot (List.mem_map.mpr ⟨q, hq, heq⟩)
      rw [setBlock, Scopes.size_setBlock, Scopes.block_setBlock_of_ne hne]
      exact hempty q hq
    rw [forM_cons_ok_iff]
    simp only [TypeDeclaration.defineMembers_iff hid hp, and_assoc, exists_and_left, exists_eq_left,
      ih hdistinct hrest, List.forall_mem_cons]
    rfl

end Symbols

/-! ### New types -/

section

variable (id : TypeId) (members : ScopeId) (declared : List TypeDeclaration)

/-- The member scopes of new types are consecutive. -/
theorem map_members_newTypes :
    (newTypes id members declared).map ObjectType.members =
      List.range' members declared.length := by
  induction declared generalizing id members with
  | nil => rfl
  | cons d declared ih => simp [newTypes, ih, List.range'_succ]

/-- The identities of new types are consecutive. -/
theorem map_id_newTypes :
    (newTypes id members declared).map ObjectType.id = List.range' id declared.length := by
  induction declared generalizing id members with
  | nil => rfl
  | cons d declared ih => simp [newTypes, ih, List.range'_succ]

/-- New types have the names that are declared. -/
theorem forall₂_newTypes :
    List.Forall₂ (fun d o ↦ o.name = d.name ∧ o.internalName = d.name) declared
      (newTypes id members declared) := by
  induction declared generalizing id members with
  | nil => exact .nil
  | cons d declared ih => exact .cons ⟨rfl, rfl⟩ (ih _ _)

private theorem map_name_newTypes :
    (newTypes id members declared).map ObjectType.name = declared.map TypeDeclaration.name := by
  induction declared generalizing id members with
  | nil => rfl
  | cons d declared ih => simp [newTypes, ih]

private theorem map_members_zip :
    ((declared.zip (newTypes id members declared)).map fun p ↦ p.2.members) =
      List.range' members declared.length := by
  induction declared generalizing id members with
  | nil => rfl
  | cons d declared ih => simp [newTypes, ih, List.range'_succ]

variable {id members declared}

/-- No two new types share a member scope. -/
theorem nodup_members_zip :
    ((declared.zip (newTypes id members declared)).map fun p ↦ p.2.members).Nodup := by
  rw [map_members_zip]
  exact List.nodup_range'

/-- The member scopes of new types are the scopes that were made for them. -/
theorem members_of_mem_zip {p : TypeDeclaration × ObjectType}
    (hp : p ∈ declared.zip (newTypes id members declared)) :
    members ≤ p.2.members ∧ p.2.members < members + declared.length := by
  rw [← List.mem_range'_1, ← map_members_zip id]
  exact List.mem_map_of_mem hp

private theorem forall_mem_zip_newTypes {P : TypeDeclaration → Prop} :
    (∀ p ∈ declared.zip (newTypes id members declared), P p.1) ↔ ∀ d ∈ declared, P d := by
  induction declared generalizing id members with
  | nil => simp
  | cons d declared ih => rw [newTypes, List.zip_cons_cons, List.forall_mem_cons, ih,
      List.forall_mem_cons]

end

private theorem Scopes.find?_replicate {l : List Scope} {scope : Scope} {n : Nat} {id : ScopeId}
    (hle : l.length ≤ id) (hlt : id < l.length + n) :
    find? (List.replicate n scope ++ l) id = some scope := by
  induction n with
  | zero => exact absurd hlt (Nat.not_lt.mpr hle)
  | succ n ih =>
    have hlength : (List.replicate n scope ++ l).length = l.length + n := by simp [Nat.add_comm]
    rw [List.replicate_succ, List.cons_append, find?, hlength]
    split
    · rfl
    · next hne => exact ih (Nat.lt_of_le_of_ne (Nat.le_of_lt_succ hlt) hne)

namespace Symbols

variable {s s' : Symbols} {declared : List TypeDeclaration} {os : List ObjectType} {id : ScopeId}

/-- Registering types adds their names at the end. -/
theorem names_registered :
    (s.registered declared).catalog.names =
      s.catalog.names ++ declared.map TypeDeclaration.name := by
  have hname : Ty.name ∘ Ty.object = ObjectType.name := rfl
  simp only [registered, Catalog.names, List.map_append, List.map_map, hname, map_name_newTypes]

/-- Registering types makes a scope for each of them. -/
theorem size_registered :
    (s.registered declared).scopes.size = s.scopes.size + declared.length := by
  simp [registered, Scopes.size, Nat.add_comm]

/-- The scope made for a registered type is empty and on its own. -/
theorem find?_registered (hle : s.scopes.size ≤ id) (hlt : id < s.scopes.size + declared.length) :
    Scopes.find? (s.registered declared).scopes.latestFirst id = some ⟨none, .empty⟩ :=
  Scopes.find?_replicate hle hlt

/-- Types are declared if their names are free and, with these names known, their members can be
defined. -/
theorem declareTypes_iff :
    declareTypes declared s = .ok os s' ↔
      s.catalog.Free declared ∧ (∀ d ∈ declared, d.Definable (s.registered declared).catalog) ∧
        os = newTypes s.nextType s.scopes.size declared ∧
        s' = (s.registered declared).fill (declared.zip os) := by
  have hempty : ∀ p ∈ declared.zip (newTypes s.nextType s.scopes.size declared),
      p.2.members < (s.registered declared).scopes.size ∧
        (s.registered declared).scopes.block p.2.members = .empty := by
    intro p hp
    obtain ⟨hle, hlt⟩ := members_of_mem_zip hp
    refine ⟨size_registered ▸ hlt, ?_⟩
    rw [Scopes.block, find?_registered hle hlt]
    rfl
  have hpass : ∀ {u : Unit}, (declared.zip (newTypes s.nextType s.scopes.size declared)).forM
      (fun p ↦ p.1.defineMembers p.2) (s.registered declared) = .ok u s' ↔ _ :=
    defineAll_iff nodup_members_zip hempty
  rw [forall_mem_zip_newTypes (P := fun d ↦ d.Definable (s.registered declared).catalog)] at hpass
  constructor
  · intro h
    obtain ⟨_, _, hfirst, hrest⟩ := run_bind_ok_iff.mp h
    obtain ⟨hfree, rfl, rfl⟩ := registerAll_iff.mp hfirst
    obtain ⟨_, _, hsecond, hlast⟩ := run_bind_ok_iff.mp hrest
    obtain ⟨rfl, rfl⟩ := run_pure_ok_iff.mp hlast
    obtain ⟨hdefinable, rfl⟩ := hpass.mp hsecond
    exact ⟨hfree, hdefinable, rfl, rfl⟩
  · rintro ⟨hfree, hdefinable, rfl, hs'⟩
    apply run_bind_ok_iff.mpr
    refine ⟨_, _, registerAll_iff.mpr ⟨hfree, rfl, rfl⟩, ?_⟩
    apply run_bind_ok_iff.mpr
    exact ⟨(), _, hpass.mpr ⟨hdefinable, hs'⟩, rfl⟩

end Symbols

end TreeCheck
