import TreeCheck.Project.Config
import TreeCheck.Proofs.ClosedWorld
import TreeCheck.Proofs.Runs

/-!
# Declared types

Declaring object types makes a scope of its own for each of them, registers them and then defines
their members there. Each step is described by when it succeeds and what it leaves. All steps keep
the catalog closed: members only mention types of the catalog, and the methods of a type take it
first.
-/

namespace TreeCheck

/-! ### Scopes on their own -/

namespace Scopes

/-- Replacing a block makes no scope. -/
theorem length_replace (l : List Scope) (id : ScopeId) (b : Block) :
    (replace l id b).length = l.length := by
  induction l with
  | nil => rfl
  | cons scope earlier ih =>
    rw [replace]
    split
    · rfl
    · simp [ih]

/-- Replacing a block changes the scope it belongs to and no other. -/
theorem find?_replace {l : List Scope} {id : ScopeId} (b : Block) (id' : ScopeId) :
    find? (replace l id b) id' =
      if id' = id then (find? l id).map fun scope ↦ { scope with block := b } else find? l id' := by
  induction l with
  | nil => simp [replace, find?]
  | cons scope earlier ih =>
    by_cases hid : id = earlier.length
    · by_cases hid' : id' = earlier.length
      · simp [replace, find?, hid, hid']
      · simp [replace, find?, hid, hid']
    · by_cases hid' : id' = earlier.length
      · have hne : earlier.length ≠ id := fun h ↦ hid h.symm
        simp [replace, find?, hid, hid', length_replace, hne]
      · simp [replace, find?, hid, hid', length_replace, ih]

/-- A scope that has been made is found. -/
theorem find?_isSome {l : List Scope} {id : ScopeId} (h : id < l.length) :
    ∃ scope, find? l id = some scope := by
  induction l with
  | nil => cases h
  | cons scope earlier ih =>
    rw [find?]
    split
    · exact ⟨scope, rfl⟩
    · next hne => exact ih (Nat.lt_of_le_of_ne (Nat.le_of_lt_succ h) hne)

variable {s : Scopes} {id id' : ScopeId} {b : Block}

/-- Setting a block makes no scope. -/
@[simp] theorem size_setBlock : (s.setBlock id b).size = s.size := length_replace _ _ _

/-- A scope has the block it is given. -/
theorem block_setBlock_self (h : id < s.size) : (s.setBlock id b).block id = b := by
  obtain ⟨scope, hs⟩ := find?_isSome h
  simp [block, setBlock, find?_replace, hs]

/-- Setting a block leaves the blocks of the other scopes as they are. -/
theorem block_setBlock_of_ne (h : id' ≠ id) : (s.setBlock id b).block id' = s.block id' := by
  simp [block, setBlock, find?_replace, h]

/-- A new scope is empty. -/
theorem block_create_self {parent : Option ScopeId} : (s.create parent).block s.size = .empty := by
  simp [block, create, find?, size]

/-- A new scope leaves the blocks of the others as they are. -/
theorem block_create_of_lt {parent : Option ScopeId} (h : id < s.size) :
    (s.create parent).block id = s.block id := by
  have hne : id ≠ s.latestFirst.length := Nat.ne_of_lt h
  simp [block, create, find?, hne]

/-- A scope that has been made and is inside no other. -/
def Alone (s : Scopes) (id : ScopeId) : Prop := ∃ b, find? s.latestFirst id = some ⟨none, b⟩

private theorem alone_create_self :
    (s.create none).Alone s.size := ⟨.empty, by simp [create, find?, size]⟩

private theorem Alone.create {parent : Option ScopeId} (h : s.Alone id) (hlt : id < s.size) :
    (s.create parent).Alone id := by
  obtain ⟨b, hb⟩ := h
  have hne : id ≠ s.latestFirst.length := Nat.ne_of_lt hlt
  exact ⟨b, by simpa [Scopes.create, find?, hne] using hb⟩

/-- Setting a block leaves scopes on their own. -/
theorem Alone.setBlock (h : s.Alone id) : (s.setBlock id' b).Alone id := by
  obtain ⟨b', hb⟩ := h
  by_cases hid : id = id'
  · exact ⟨b, by simp [Scopes.setBlock, find?_replace, ← hid, hb]⟩
  · exact ⟨b', by simp [Scopes.setBlock, find?_replace, hid, hb]⟩

/-- A scope that is not inside another sees its own block only. -/
theorem Alone.chain_eq (h : s.Alone id) : s.chain id = [s.block id] := by
  obtain ⟨b, hb⟩ := h
  have hblock : s.block id = b := by simp [block, hb]
  rw [hblock]
  unfold chain
  generalize s.latestFirst = l at hb
  induction l with
  | nil => cases hb
  | cons scope earlier ih =>
    rw [find?] at hb
    rw [chainFrom]
    split at hb
    · next hid =>
      cases hb
      rw [if_pos hid]
    · next hid =>
      rw [if_neg hid]
      exact ih hb

private theorem lt_size_of_chain (h : s.chain id ≠ []) : id < s.size := by
  unfold chain size at *
  generalize s.latestFirst = l at *
  induction l with
  | nil => exact absurd rfl h
  | cons scope earlier ih =>
    rw [chainFrom] at h
    rw [List.length_cons]
    split at h
    · next hid => exact Nat.lt_succ_of_le (Nat.le_of_eq hid)
    · exact Nat.lt_succ_of_lt (ih h)

/-- Scopes that are made later are not seen from earlier ones. -/
theorem chain_of_suffix {s' : Scopes} (h : s.latestFirst <:+ s'.latestFirst) (hid : id < s.size) :
    s'.chain id = s.chain id := by
  obtain ⟨later, h⟩ := h
  unfold chain
  rw [← h]
  clear h
  induction later with
  | nil => rfl
  | cons scope later ih =>
    have hlt : id < (later ++ s.latestFirst).length := by
      rw [List.length_append]
      exact Nat.lt_of_lt_of_le hid (Nat.le_add_left _ _)
    rw [List.cons_append, chainFrom, if_neg (Nat.ne_of_lt hlt), ih]

end Scopes

/-! ### Steps of a declaration -/

/-- A block with one more variable. -/
def Block.addVariable (b : Block) (v : Variable) : Block := { b with vars := b.vars ++ [v] }

/-- A block with one more function. -/
def Block.addFunction (b : Block) (f : Function) : Block := { b with funs := b.funs ++ [f] }

/-- A type is registered, at the end, exactly if its name is free. -/
theorem Catalog.register_ok_iff {c c' : Catalog} {t : Ty} :
    c.register t = .ok c' ↔ c.find? t.name = none ∧ c' = ⟨c.types ++ [t]⟩ := by
  unfold register
  split
  · next h => simp [Option.isSome_iff_ne_none.mp h]
  · next h => simp only [Except.ok.injEq, Option.not_isSome_iff_eq_none.mp h, eq_comm, true_and]

/-- A type whose name is free may be added. -/
theorem Catalog.nodup_names_append {c : Catalog} {t : Ty} (h : c.names.Nodup)
    (ht : c.find? t.name = none) : (Catalog.mk (c.types ++ [t])).names.Nodup := by
  have hfree : t.name ∉ c.names := by
    intro hmem
    obtain ⟨u, hu, hname⟩ := List.mem_map.mp hmem
    have hne := List.find?_eq_none.mp ht u hu
    exact hne (by simpa using hname)
  have hnames : (Catalog.mk (c.types ++ [t])).names = c.names ++ [t.name] := List.map_append
  rw [hnames, List.nodup_append]
  refine ⟨h, List.nodup_singleton _, ?_⟩
  intro name hname name' hname'
  rw [List.mem_singleton] at hname'
  rintro rfl
  exact hfree (hname' ▸ hname)

/-- Where names are distinct a name stands for one type. -/
theorem Catalog.eq_of_name {c : Catalog} (h : c.names.Nodup) {t u : Ty} (ht : t ∈ c.types)
    (hu : u ∈ c.types) (hname : t.name = u.name) : t = u :=
  List.inj_on_of_nodup_map h ht hu hname

namespace DeclareM

variable {α : Type} {s s' : Symbols}

private theorem obey_eq_ok {x : Except ProgramError α} {a : α} :
    obey x s = .ok a s' ↔ x = .ok a ∧ s' = s := by
  cases x with
  | error e => exact iff_of_false nofun nofun
  | ok b =>
    change EStateM.Result.ok b s = _ ↔ _
    simp [eq_comm]

private theorem resolve_eq_ok {name : Text} {t : Ty} :
    resolve name s = .ok t s' ↔ s.catalog.find? name = some t ∧ s' = s := by
  simp only [resolve, run_bind_ok_iff, run_get_ok_iff, obey_eq_ok, Catalog.resolve_ok_iff]
  constructor
  · rintro ⟨_, _, ⟨rfl, rfl⟩, ht, rfl⟩
    exact ⟨ht, rfl⟩
  · rintro ⟨ht, rfl⟩
    exact ⟨s', s', ⟨rfl, rfl⟩, ht, rfl⟩

private theorem set_eq_ok {t : Symbols} {u : PUnit} :
    (set t : DeclareM PUnit) s = .ok u s' ↔ s' = t := by
  change EStateM.Result.ok PUnit.unit t = _ ↔ _
  simp [eq_comm]

end DeclareM

namespace TypeDeclaration

variable {d : TypeDeclaration} {o : ObjectType} {s s' : Symbols} {u : Unit}

/-- A type is registered if its name is free, and it gets a new scope. -/
theorem registerType_ok_iff :
    d.registerType s = .ok o s' ↔
      s.catalog.find? d.name = none ∧ o = ⟨s.nextType, d.name, d.name, s.scopes.size⟩ ∧
        s' = { s with
          scopes := s.scopes.create none
          catalog := ⟨s.catalog.types ++ [.object o]⟩
          nextType := s.nextType + 1 } := by
  simp only [registerType, run_bind_ok_iff, run_get_ok_iff, run_pure_ok_iff, DeclareM.obey_eq_ok,
    DeclareM.set_eq_ok, Symbols.createScope, Symbols.createType, Symbols.register,
    except_bind_ok_iff, except_pure_ok_iff, Catalog.register_ok_iff]
  constructor
  · rintro ⟨_, _, ⟨rfl, rfl⟩, _, _, ⟨⟨_, ⟨hn, rfl⟩, rfl⟩, rfl⟩, _, _, rfl, rfl, rfl⟩
    exact ⟨hn, rfl, rfl⟩
  · rintro ⟨hn, rfl, rfl⟩
    exact ⟨s, s, ⟨rfl, rfl⟩, _, s, ⟨⟨_, ⟨hn, rfl⟩, rfl⟩, rfl⟩, (), _, rfl, rfl, rfl⟩

/-- A field is defined if its type has been registered and its name is free. -/
theorem defineField_ok_iff {field : Text × Text} :
    d.defineField o field s = .ok u s' ↔
      ∃ t, s.catalog.find? field.2 = some t ∧
        (s.scopes.block o.members).findVariable? field.1 = none ∧
        s' = { s with scopes := s.scopes.setBlock o.members ((s.scopes.block o.members).addVariable
          ⟨field.1, field.1, t, field.1 ∈ d.constants, .scope o.members⟩) } := by
  simp only [defineField, run_bind_ok_iff, run_get_ok_iff, DeclareM.obey_eq_ok, DeclareM.set_eq_ok,
    DeclareM.resolve_eq_ok, Symbols.defineVariable, Scopes.defineVariable, except_bind_ok_iff,
    except_pure_ok_iff, Block.defineVariable_ok_iff]
  constructor
  · rintro ⟨t, _, ⟨ht, rfl⟩, _, _, ⟨rfl, rfl⟩, _, _, ⟨⟨_, ⟨_, ⟨hn, rfl⟩, rfl⟩, rfl⟩, rfl⟩, rfl⟩
    exact ⟨t, ht, hn, rfl⟩
  · rintro ⟨t, ht, hn, rfl⟩
    exact ⟨t, s, ⟨ht, rfl⟩, s, s, ⟨rfl, rfl⟩, _, s, ⟨⟨_, ⟨_, ⟨hn, rfl⟩, rfl⟩, rfl⟩, rfl⟩, rfl⟩

/-- A method is defined if its types have been registered and its name is free for its number of
parameters. -/
theorem defineMethod_ok_iff {m : MethodDeclaration} :
    d.defineMethod o m s = .ok u s' ↔
      ∃ ps t, List.Forall₂ (fun name p ↦ s.catalog.find? name = some p) m.parameters ps ∧
        s.catalog.resolveReturn m.returns = .ok t ∧
        (s.scopes.block o.members).findFunction? m.name (ps.length + 1 : Nat) = none ∧
        s' = { s with scopes := s.scopes.setBlock o.members ((s.scopes.block o.members).addFunction
          ⟨m.name, d.name ++ "." ++ m.name, .object o :: ps, t, .scope o.members⟩) } := by
  simp only [defineMethod, run_bind_ok_iff, run_get_ok_iff, DeclareM.obey_eq_ok, DeclareM.set_eq_ok,
    Catalog.resolveAll_ok_iff, Symbols.defineFunction, Scopes.defineFunction,
    except_bind_ok_iff, except_pure_ok_iff, Block.defineFunction_ok_iff]
  constructor
  · rintro ⟨_, _, ⟨rfl, rfl⟩, ps, _, ⟨hp, rfl⟩, _, _, ⟨rfl, rfl⟩, t, _, ⟨ht, rfl⟩, _, _, ⟨rfl, rfl⟩,
      _, _, ⟨⟨_, ⟨_, ⟨hn, rfl⟩, rfl⟩, rfl⟩, rfl⟩, rfl⟩
    exact ⟨ps, t, hp, ht, hn, rfl⟩
  · rintro ⟨ps, t, hp, ht, hn, rfl⟩
    exact ⟨s, s, ⟨rfl, rfl⟩, ps, s, ⟨hp, rfl⟩, s, s, ⟨rfl, rfl⟩, t, s, ⟨ht, rfl⟩, s, s, ⟨rfl, rfl⟩,
      _, s, ⟨⟨_, ⟨_, ⟨hn, rfl⟩, rfl⟩, rfl⟩, rfl⟩, rfl⟩

end TypeDeclaration

/-! ### What every step keeps -/

/-- Every type has a name and a scope of its own, and the members in it only mention registered
types. -/
structure Symbols.Declared (s : Symbols) : Prop where
  builtins : ∀ b, .builtin b ∈ s.catalog.types
  names : s.catalog.names.Nodup
  alone : ∀ o, .object o ∈ s.catalog.types → s.scopes.Alone o.members
  allocated : ∀ o, .object o ∈ s.catalog.types → o.members < s.scopes.size
  apart : ∀ o o', .object o ∈ s.catalog.types → .object o' ∈ s.catalog.types →
    o.members = o'.members → o = o'
  known : ∀ o, .object o ∈ s.catalog.types → (s.scopes.block o.members).Known s.catalog
  methods : ∀ o, .object o ∈ s.catalog.types → (s.scopes.block o.members).MethodsOf o

private theorem Block.Known.mono {c c' : Catalog} {b : Block} (h : b.Known c)
    (hc : ∀ t ∈ c.types, t ∈ c'.types) : b.Known c' where
  vars v hv := hc _ (h.vars v hv)
  parameters f hf p hp := hc _ (h.parameters f hf p hp)
  returns f hf := hc _ (h.returns f hf)

namespace Symbols.Declared

variable {s s' : Symbols} {d : TypeDeclaration} {o : ObjectType} {u : Unit}

/-- Before the first declaration there are no object types. -/
theorem of_builtins (h : s.catalog = .builtins) : s.Declared := by
  have hb : ∀ o, Ty.object o ∉ s.catalog.types := by
    intro o ho
    rw [h] at ho
    obtain ⟨b, _, hb⟩ := List.mem_map.mp ho
    cases hb
  refine ⟨?_, ?_, fun o ho ↦ absurd ho (hb o), fun o ho ↦ absurd ho (hb o),
    fun o _ ho ↦ absurd ho (hb o), fun o ho ↦ absurd ho (hb o), fun o ho ↦ absurd ho (hb o)⟩
  · intro b
    rw [h]
    exact List.mem_map_of_mem (by cases b <;> decide)
  · rw [h]
    decide

/-- A registered type gets a scope that no other type has. -/
theorem registerType (h : s.Declared) (hr : d.registerType s = .ok o s') :
    s'.Declared ∧ (∀ t ∈ s.catalog.types, t ∈ s'.catalog.types) ∧ .object o ∈ s'.catalog.types := by
  obtain ⟨hfree, ho, rfl⟩ := TypeDeclaration.registerType_ok_iff.mp hr
  have hname : (Ty.object o).name = d.name := by rw [ho, Ty.name]
  have hsize : o.members = s.scopes.size := by rw [ho]
  have hmono : ∀ t ∈ s.catalog.types, t ∈ s.catalog.types ++ [.object o] :=
    fun t ht ↦ List.mem_append_left _ ht
  have hcases {o' : ObjectType} (ho' : Ty.object o' ∈ s.catalog.types ++ [.object o]) :
      .object o' ∈ s.catalog.types ∨ o' = o := by
    simpa using ho'
  refine ⟨⟨fun b ↦ hmono _ (h.builtins b), ?_, ?_, ?_, ?_, ?_, ?_⟩, hmono, by simp⟩
  · exact Catalog.nodup_names_append h.names (hname ▸ hfree)
  · intro o' ho'
    obtain ho' | rfl := hcases ho'
    · exact (h.alone o' ho').create (h.allocated o' ho')
    · rw [hsize]
      exact Scopes.alone_create_self
  · intro o' ho'
    obtain ho' | rfl := hcases ho'
    · exact Nat.lt_succ_of_lt (h.allocated o' ho')
    · exact Nat.lt_succ_of_le (Nat.le_of_eq hsize)
  · intro o₁ o₂ h₁ h₂ he
    obtain hold₁ | hnew₁ := hcases h₁ <;> obtain hold₂ | hnew₂ := hcases h₂
    · exact h.apart o₁ o₂ hold₁ hold₂ he
    · exact absurd (he.trans (hnew₂ ▸ hsize)) (Nat.ne_of_lt (h.allocated o₁ hold₁))
    · exact absurd (he.symm.trans (hnew₁ ▸ hsize)) (Nat.ne_of_lt (h.allocated o₂ hold₂))
    · exact hnew₁.trans hnew₂.symm
  · intro o' ho'
    obtain ho' | rfl := hcases ho'
    · rw [Scopes.block_create_of_lt (h.allocated o' ho')]
      exact (h.known o' ho').mono hmono
    · rw [hsize, Scopes.block_create_self]
      exact .empty
  · intro o' ho'
    obtain ho' | rfl := hcases ho'
    · rw [Scopes.block_create_of_lt (h.allocated o' ho')]
      exact h.methods o' ho'
    · rw [hsize, Scopes.block_create_self]
      exact List.forall_mem_nil _

/-- The members of a type may be replaced by others of the kind. -/
theorem setBlock (h : s.Declared) (ho : .object o ∈ s.catalog.types) {b : Block}
    (hk : b.Known s.catalog) (hm : b.MethodsOf o) :
    ({ s with scopes := s.scopes.setBlock o.members b } : Symbols).Declared := by
  have hblock {o' : ObjectType} (ho' : .object o' ∈ s.catalog.types) :
      (s.scopes.setBlock o.members b).block o'.members =
        if o' = o then b else s.scopes.block o'.members := by
    split
    · next he => rw [he, Scopes.block_setBlock_self (h.allocated o ho)]
    · next hne => exact Scopes.block_setBlock_of_ne fun he ↦ hne (h.apart o' o ho' ho he)
  refine ⟨h.builtins, h.names, fun o' ho' ↦ (h.alone o' ho').setBlock, ?_, h.apart, ?_, ?_⟩
  · intro o' ho'
    exact Nat.lt_of_lt_of_eq (h.allocated o' ho') Scopes.size_setBlock.symm
  · intro o' ho'
    rw [hblock ho']
    split
    · exact hk
    · exact h.known o' ho'
  · intro o' ho'
    rw [hblock ho']
    split
    · next he => exact he ▸ hm
    · exact h.methods o' ho'

private theorem defineField {field : Text × Text} (h : s.Declared)
    (ho : .object o ∈ s.catalog.types)
    (hf : d.defineField o field s = .ok u s') : s'.Declared ∧ s'.catalog = s.catalog := by
  obtain ⟨t, ht, _, rfl⟩ := TypeDeclaration.defineField_ok_iff.mp hf
  exact ⟨h.setBlock ho ((h.known o ho).addVariable (Catalog.mem_of_find ht)) (h.methods o ho), rfl⟩

private theorem defineMethod {m : MethodDeclaration} (h : s.Declared)
    (ho : .object o ∈ s.catalog.types)
    (hf : d.defineMethod o m s = .ok u s') : s'.Declared ∧ s'.catalog = s.catalog := by
  obtain ⟨ps, t, hp, ht, _, rfl⟩ := TypeDeclaration.defineMethod_ok_iff.mp hf
  have hps := List.forall_mem_cons.mpr ⟨ho, Catalog.mem_of_resolveAll hp⟩
  refine ⟨h.setBlock ho ((h.known o ho).addFunction hps
    (Catalog.mem_of_resolveReturn h.builtins ht)) ?_, rfl⟩
  exact List.forall_mem_append.mpr ⟨h.methods o ho, List.forall_mem_singleton.mpr rfl⟩

end Symbols.Declared

/-! ### Whole declarations -/

/-- What every step keeps holds at the end. -/
theorem forM_invariant {α ε σ : Type} {P : σ → Prop} {f : α → EStateM ε σ Unit} {l : List α}
    (hf : ∀ a ∈ l, ∀ s s' u, P s → f a s = .ok u s' → P s') {s s' : σ} {u : Unit} (hs : P s)
    (h : l.forM f s = .ok u s') : P s' := by
  induction l generalizing s with
  | nil =>
    obtain ⟨_, rfl⟩ := run_pure_ok_iff.mp h
    exact hs
  | cons a l ih =>
    rw [List.forall_mem_cons] at hf
    obtain ⟨_, t, h₁, h₂⟩ := run_bind_ok_iff.mp h
    exact ih hf.2 (hf.1 s t _ hs h₁) h₂

namespace Symbols.Declared

variable {s s' : Symbols}

private theorem registerAll {ds : List TypeDeclaration} {os : List ObjectType} (h : s.Declared)
    (hr : ds.mapM TypeDeclaration.registerType s = .ok os s') :
    s'.Declared ∧ (∀ t ∈ s.catalog.types, t ∈ s'.catalog.types) ∧
      ∀ o ∈ os, .object o ∈ s'.catalog.types := by
  induction ds generalizing s os with
  | nil =>
    rw [List.mapM_nil] at hr
    obtain ⟨rfl, rfl⟩ := run_pure_ok_iff.mp hr
    exact ⟨h, fun _ ht ↦ ht, List.forall_mem_nil _⟩
  | cons d ds ih =>
    rw [List.mapM_cons] at hr
    obtain ⟨o, s₁, h₁, hr⟩ := run_bind_ok_iff.mp hr
    obtain ⟨os', s₂, h₂, hr⟩ := run_bind_ok_iff.mp hr
    obtain ⟨rfl, rfl⟩ := run_pure_ok_iff.mp hr
    obtain ⟨hs₁, hm₁, ho⟩ := h.registerType h₁
    obtain ⟨hs₂, hm₂, hos⟩ := ih hs₁ h₂
    exact ⟨hs₂, fun t ht ↦ hm₂ t (hm₁ t ht), List.forall_mem_cons.mpr ⟨hm₂ _ ho, hos⟩⟩

private theorem defineMembers {d : TypeDeclaration} {o : ObjectType} {u : Unit} (h : s.Declared)
    (ho : .object o ∈ s.catalog.types) (hd : d.defineMembers o s = .ok u s') :
    s'.Declared ∧ s'.catalog = s.catalog := by
  obtain ⟨_, s₁, h₁, h₂⟩ := run_bind_ok_iff.mp hd
  have hs₁ : s₁.Declared ∧ s₁.catalog = s.catalog := by
    refine forM_invariant (P := fun s' ↦ s'.Declared ∧ s'.catalog = s.catalog) ?_ ⟨h, rfl⟩ h₁
    rintro field _ t t' _ ⟨ht, hc⟩ hf
    obtain ⟨ht', hc'⟩ := ht.defineField (hc ▸ ho) hf
    exact ⟨ht', hc'.trans hc⟩
  refine forM_invariant (P := fun s' ↦ s'.Declared ∧ s'.catalog = s.catalog) ?_ hs₁ h₂
  rintro m _ t t' _ ⟨ht, hc⟩ hf
  obtain ⟨ht', hc'⟩ := ht.defineMethod (hc ▸ ho) hf
  exact ⟨ht', hc'.trans hc⟩

/-- Declaring types keeps every type in a scope of its own and the catalog closed. -/
theorem declareTypes {declared : List TypeDeclaration} {os : List ObjectType} (h : s.Declared)
    (hd : declareTypes declared s = .ok os s') : s'.Declared := by
  obtain ⟨created, s₁, h₁, hd⟩ := run_bind_ok_iff.mp hd
  obtain ⟨_, s₂, h₂, hd⟩ := run_bind_ok_iff.mp hd
  obtain ⟨_, rfl⟩ := run_pure_ok_iff.mp hd
  obtain ⟨hs₁, _, hos⟩ := h.registerAll h₁
  refine (forM_invariant (P := fun s' ↦ s'.Declared ∧ s'.catalog = s₁.catalog) ?_ ⟨hs₁, rfl⟩ h₂).1
  rintro ⟨d, o⟩ hdo t t' _ ⟨ht, hc⟩ hf
  have ho : .object o ∈ t.catalog.types := hc ▸ hos o (List.of_mem_zip hdo).2
  obtain ⟨ht', hc'⟩ := ht.defineMembers ho hf
  exact ⟨ht', hc'.trans hc⟩

/-- The members of declared types only mention declared types. -/
theorem catalog_closed (h : s.Declared) : s.catalog.Closed s.scopes.members := by
  have hblock {o : ObjectType} (ho : .object o ∈ s.catalog.types) :
      s.scopes.members (.object o) = [s.scopes.block o.members] := (h.alone o ho).chain_eq
  refine ⟨h.builtins, fun o ho ↦ ?_, fun o ho ↦ ?_⟩
  · rw [hblock ho, List.forall_mem_singleton]
    exact h.known o ho
  · rw [hblock ho, List.forall_mem_singleton]
    exact h.methods o ho

/-- Making the scope of an analysis leaves the members of declared types as they are. -/
theorem members_top (h : s.Declared)
    (hmembers : ∀ t ∈ s.catalog.types, s'.scopes.members t = s.scopes.members t)
    {parent : Option ScopeId} {o : ObjectType} (ho : .object o ∈ s.catalog.types) :
    (s'.top parent).scopes.members (.object o) = s.scopes.members (.object o) := by
  have hchain : s'.scopes.chain o.members = [s.scopes.block o.members] :=
    (hmembers _ ho).trans (h.alone o ho).chain_eq
  have hlt : o.members < s'.scopes.size := Scopes.lt_size_of_chain (by simp [hchain])
  have hsuffix : s'.scopes.latestFirst <:+ (s'.openScope parent).1.scopes.latestFirst := by
    rw [scopes_openScope]
    exact List.suffix_cons _ _
  exact (Scopes.chain_of_suffix hsuffix hlt).trans (hmembers _ ho)

/-- An analysis among declared types starts in a closed world, whatever has been defined elsewhere
since the declaration. -/
theorem closed_of_members (h : s.Declared) {parent : Option ScopeId}
    (hcatalog : s'.catalog = s.catalog)
    (hmembers : ∀ t ∈ s.catalog.types, s'.scopes.members t = s.scopes.members t)
    (hparent : ∀ b ∈ s'.scopes.around parent, b.Known s'.catalog) :
    (s'.top parent).Closed s'.topBlock := by
  have hcatalog' : (s'.top parent).catalog = s.catalog := hcatalog
  have hprint : s'.topBlock.Known s.catalog :=
    ⟨List.forall_mem_nil _,
      List.forall_mem_singleton.mpr (List.forall_mem_singleton.mpr (h.builtins .any)),
      List.forall_mem_singleton.mpr (h.builtins .nil)⟩
  have hclosed := h.catalog_closed
  rw [hcatalog] at hparent
  refine ⟨?_, ?_⟩
  · rw [hcatalog']
    refine ⟨h.builtins, fun o ho ↦ ?_, fun o ho ↦ ?_⟩
    · rw [h.members_top hmembers ho]
      exact hclosed.known o ho
    · rw [h.members_top hmembers ho]
      exact hclosed.methods o ho
  · rw [hcatalog']
    exact List.forall_mem_cons.mpr ⟨hprint, hparent⟩

/-- An analysis among declared types starts in a closed world, whatever scopes have been made since
the declaration. -/
theorem closed (h : s.Declared) {parent : Option ScopeId} (hcatalog : s'.catalog = s.catalog)
    (hscopes : s.scopes.latestFirst <:+ s'.scopes.latestFirst)
    (hparent : ∀ b ∈ s'.scopes.around parent, b.Known s'.catalog) :
    (s'.top parent).Closed s'.topBlock := by
  refine h.closed_of_members hcatalog (fun t ht ↦ ?_) hparent
  cases t with
  | builtin b => rfl
  | object o => exact Scopes.chain_of_suffix hscopes (h.allocated o ht)

end Symbols.Declared

/-- The symbols of a configuration are declared types. -/
theorem Config.declared_of_symbols {c : Config} {s : Symbols} (h : c.symbols = .ok s) :
    s.Declared := by
  unfold symbols at h
  split at h
  · next hd =>
    cases h
    exact (Symbols.Declared.of_builtins rfl).declareTypes hd
  · cases h

end TreeCheck
