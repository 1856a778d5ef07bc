import TreeCheck.Proofs.Declarations

/-!
# References to scopes

A type refers to the scope of its members, and a scope to the scope around it. In symbols where all
references are to scopes that have been made, no lookup reaches a scope that is made later. The
symbols of a configuration are of this kind: every step of declaring types keeps them so.
-/

namespace TreeCheck

/-- A type whose members are in one of the first `n` scopes. -/
def Ty.Below (n : ScopeId) : Ty → Prop
  | builtin _ => True
  | object o => o.members < n

/-- The definitions of a block are of types whose members are in one of the first `n` scopes. -/
structure Block.Below (n : ScopeId) (b : Block) : Prop where
  vars : ∀ v ∈ b.vars, v.type.Below n
  funs : ∀ f ∈ b.funs, f.returns.Below n

/-- Every type that can be met has members in a scope that has been made. -/
structure Symbols.Allocated (s : Symbols) : Prop where
  catalog : ∀ t ∈ s.catalog.types, t.Below s.scopes.size
  blocks : ∀ scope ∈ s.scopes.latestFirst, scope.block.Below s.scopes.size

/-- A scope that has been made, or none. -/
def Scopes.Has (s : Scopes) (parent : Option ScopeId) : Prop := ∀ id ∈ parent, id < s.size

/-! ### These can be decided -/

instance (n : ScopeId) : DecidablePred (Ty.Below n)
  | .builtin _ => .isTrue trivial
  | .object o => inferInstanceAs (Decidable (o.members < n))

instance (n : ScopeId) (b : Block) : Decidable (b.Below n) :=
  decidable_of_iff ((∀ v ∈ b.vars, v.type.Below n) ∧ ∀ f ∈ b.funs, f.returns.Below n)
    ⟨fun h ↦ ⟨h.1, h.2⟩, fun h ↦ ⟨h.vars, h.funs⟩⟩

instance (s : Symbols) : Decidable s.Allocated :=
  decidable_of_iff ((∀ t ∈ s.catalog.types, t.Below s.scopes.size) ∧
      ∀ scope ∈ s.scopes.latestFirst, scope.block.Below s.scopes.size)
    ⟨fun h ↦ ⟨h.1, h.2⟩, fun h ↦ ⟨h.catalog, h.blocks⟩⟩

/-! ### Blocks -/

/-- A type of earlier scopes is one of more scopes. -/
theorem Ty.Below.mono {n m : ScopeId} {t : Ty} (h : t.Below n) (hnm : n ≤ m) : t.Below m := by
  cases t with
  | builtin b => trivial
  | object o => exact Nat.lt_of_lt_of_le h hnm

namespace Block.Below

variable {n m : ScopeId} {b : Block}

/-- An empty block mentions no type. -/
theorem empty : Block.empty.Below n := ⟨nofun, nofun⟩

/-- A block of earlier scopes is one of more scopes. -/
theorem mono (h : b.Below n) (hnm : n ≤ m) : b.Below m where
  vars v hv := (h.vars v hv).mono hnm
  funs f hf := (h.funs f hf).mono hnm

/-- A variable whose type is allocated may be added. -/
theorem addVariable (h : b.Below n) {v : Variable} (hv : v.type.Below n) :
    (b.addVariable v).Below n where
  vars := List.forall_mem_append.mpr ⟨h.vars, List.forall_mem_singleton.mpr hv⟩
  funs := h.funs

/-- A function whose return type is allocated may be added. -/
theorem addFunction (h : b.Below n) {f : Function} (hf : f.returns.Below n) :
    (b.addFunction f).Below n where
  vars := h.vars
  funs := List.forall_mem_append.mpr ⟨h.funs, List.forall_mem_singleton.mpr hf⟩

end Block.Below

namespace Scopes

private theorem mem_of_find? {l : List Scope} {id : ScopeId} {scope : Scope}
    (h : find? l id = some scope) : scope ∈ l := by
  induction l with
  | nil => cases h
  | cons first earlier ih =>
    rw [find?] at h
    split at h
    · cases h
      exact List.mem_cons_self
    · exact List.mem_cons_of_mem _ (ih h)

private theorem block_of_mem_replace {l : List Scope} {id : ScopeId} {b : Block} {scope : Scope}
    (h : scope ∈ replace l id b) : scope ∈ l ∨ scope.block = b := by
  induction l with
  | nil => cases h
  | cons first earlier ih =>
    rw [replace] at h
    split at h
    · rcases List.mem_cons.mp h with rfl | h
      · exact .inr rfl
      · exact .inl (List.mem_cons_of_mem _ h)
    · rcases List.mem_cons.mp h with rfl | h
      · exact .inl List.mem_cons_self
      · exact (ih h).imp_left (List.mem_cons_of_mem _)

/-- A chain consists of blocks of scopes. -/
theorem exists_of_mem_chain {s : Scopes} {id : ScopeId} {b : Block} (h : b ∈ s.chain id) :
    ∃ scope ∈ s.latestFirst, scope.block = b := by
  unfold chain at h
  generalize s.latestFirst = l at h
  induction l generalizing id with
  | nil => cases h
  | cons first earlier ih =>
    rw [chainFrom] at h
    split at h
    · rcases List.mem_cons.mp h with rfl | h
      · exact ⟨first, List.mem_cons_self, rfl⟩
      · cases hp : first.parent with
        | none =>
          rw [hp] at h
          cases h
        | some parent =>
          rw [hp] at h
          obtain ⟨scope, hs, hb⟩ := ih h
          exact ⟨scope, List.mem_cons_of_mem _ hs, hb⟩
    · obtain ⟨scope, hs, hb⟩ := ih h
      exact ⟨scope, List.mem_cons_of_mem _ hs, hb⟩

end Scopes

/-! ### What keeps references to scopes that have been made -/

namespace Symbols.Allocated

variable {s s' : Symbols}

private theorem initial : Symbols.initial.Allocated where
  catalog t ht := by
    obtain ⟨b, _, rfl⟩ := List.mem_map.mp ht
    trivial
  blocks := List.forall_mem_nil _

/-- The block of any scope. -/
theorem block (h : s.Allocated) (id : ScopeId) : (s.scopes.block id).Below s.scopes.size := by
  unfold Scopes.block
  cases hs : Scopes.find? s.scopes.latestFirst id with
  | none => exact .empty
  | some scope => exact h.blocks scope (Scopes.mem_of_find? hs)

/-- The blocks that are visible in any scope. -/
theorem chain (h : s.Allocated) {id : ScopeId} {b : Block} (hb : b ∈ s.scopes.chain id) :
    b.Below s.scopes.size := by
  obtain ⟨scope, hs, rfl⟩ := Scopes.exists_of_mem_chain hb
  exact h.blocks scope hs

/-- The blocks around a scope mention allocated types only. -/
theorem around (h : s.Allocated) {parent : Option ScopeId} {b : Block}
    (hb : b ∈ s.scopes.around parent) : b.Below s.scopes.size := by
  cases parent with
  | none => cases hb
  | some parent => exact h.chain hb

private theorem setBlock (h : s.Allocated) (id : ScopeId) {b : Block} (hb : b.Below s.scopes.size) :
    ({ s with scopes := s.scopes.setBlock id b } : Symbols).Allocated := by
  have hsize : (s.scopes.setBlock id b).size = s.scopes.size := Scopes.size_setBlock
  constructor
  · change ∀ t ∈ s.catalog.types, t.Below (s.scopes.setBlock id b).size
    rw [hsize]
    exact h.catalog
  · change ∀ scope ∈ Scopes.replace _ id b, scope.block.Below (s.scopes.setBlock id b).size
    rw [hsize]
    intro scope hm
    rcases Scopes.block_of_mem_replace hm with hm | he
    · exact h.blocks scope hm
    · exact he ▸ hb

private theorem registerType {d : TypeDeclaration} {o : ObjectType} (h : s.Allocated)
    (hr : d.registerType s = .ok o s') : s'.Allocated := by
  obtain ⟨_, ho, rfl⟩ := TypeDeclaration.registerType_ok_iff.mp hr
  have hsize : (s.scopes.create none).size = s.scopes.size + 1 := rfl
  constructor
  · change ∀ t ∈ s.catalog.types ++ [.object o], t.Below (s.scopes.create none).size
    rw [hsize]
    refine List.forall_mem_append.mpr ⟨fun t ht ↦ (h.catalog t ht).mono (Nat.le_succ _), ?_⟩
    refine List.forall_mem_singleton.mpr ?_
    rw [ho]
    exact Nat.lt_succ_self _
  · change ∀ scope ∈ _ :: s.scopes.latestFirst, scope.block.Below (s.scopes.create none).size
    rw [hsize]
    exact List.forall_mem_cons.mpr
      ⟨.empty, fun scope hm ↦ (h.blocks scope hm).mono (Nat.le_succ _)⟩

private theorem defineField {d : TypeDeclaration} {o : ObjectType} {field : Text × Text} {u : Unit}
    (h : s.Allocated) (hf : d.defineField o field s = .ok u s') : s'.Allocated := by
  obtain ⟨t, ht, _, rfl⟩ := TypeDeclaration.defineField_ok_iff.mp hf
  exact h.setBlock _ ((h.block _).addVariable (h.catalog t (Catalog.mem_of_find ht)))

private theorem defineMethod {d : TypeDeclaration} {o : ObjectType} {m : MethodDeclaration}
    {u : Unit} (h : s.Allocated) (hf : d.defineMethod o m s = .ok u s') : s'.Allocated := by
  obtain ⟨ps, t, _, ht, _, rfl⟩ := TypeDeclaration.defineMethod_ok_iff.mp hf
  refine h.setBlock _ ((h.block _).addFunction ?_)
  obtain ⟨n, _, hn⟩ | ⟨_, rfl⟩ := Catalog.resolveReturn_ok_iff.mp ht
  · exact h.catalog t (Catalog.mem_of_find hn)
  · trivial

private theorem registerAll {ds : List TypeDeclaration} {os : List ObjectType} (h : s.Allocated)
    (hr : ds.mapM TypeDeclaration.registerType s = .ok os s') : s'.Allocated := by
  induction ds generalizing s os with
  | nil =>
    rw [List.mapM_nil] at hr
    obtain ⟨_, rfl⟩ := run_pure_ok_iff.mp hr
    exact h
  | cons d ds ih =>
    rw [List.mapM_cons] at hr
    obtain ⟨o, s₁, h₁, hr⟩ := run_bind_ok_iff.mp hr
    obtain ⟨os', s₂, h₂, hr⟩ := run_bind_ok_iff.mp hr
    obtain ⟨_, rfl⟩ := run_pure_ok_iff.mp hr
    exact ih (h.registerType h₁) h₂

private theorem declareTypes {declared : List TypeDeclaration} {os : List ObjectType}
    (h : s.Allocated) (hd : declareTypes declared s = .ok os s') : s'.Allocated := by
  obtain ⟨created, s₁, h₁, hd⟩ := run_bind_ok_iff.mp hd
  obtain ⟨_, s₂, h₂, hd⟩ := run_bind_ok_iff.mp hd
  obtain ⟨_, rfl⟩ := run_pure_ok_iff.mp hd
  refine forM_invariant ?_ (h.registerAll h₁) h₂
  rintro ⟨d, o⟩ _ t t' _ ht hm
  obtain ⟨_, t₁, hfields, hmethods⟩ := run_bind_ok_iff.mp hm
  have ht₁ : t₁.Allocated := forM_invariant (fun _ _ _ _ _ ht hf ↦ ht.defineField hf) ht hfields
  exact forM_invariant (fun _ _ _ _ _ ht hf ↦ ht.defineMethod hf) ht₁ hmethods

end Symbols.Allocated

/-- The types of a configuration have scopes for their members. -/
theorem Config.allocated_of_symbols {c : Config} {s : Symbols} (h : c.symbols = .ok s) :
    s.Allocated := by
  unfold symbols at h
  split at h
  · next hd =>
    cases h
    exact Symbols.Allocated.initial.declareTypes hd
  · cases h

end TreeCheck
