import TreeCheck.Proofs.Preservation
import TreeCheck.Proofs.Registration

/-!
# Declared object types

A declaration of object types succeeds exactly if their names are free, the types they mention are
known or declared with them, and no type has two methods of one name and number of parameters. Then
the new types come last in the catalog, and each of them holds its members in a scope of its own.
The order of the declarations only shows in the identities that the types get.
-/

namespace TreeCheck

variable {α : Type}

/-! ### Failures -/

/-- A failure of a declaration: something is defined twice, or a type is not known. -/
def ProgramError.Refuses (e : ProgramError) : Prop :=
  e.kind = .duplicateDefinition ∨ e.kind = .unknownType

/-- A step of a declaration has no other failures. -/
abbrev DeclareM.Refusing (x : DeclareM α) : Prop :=
  Keeps (fun _ ↦ True) (fun _ ↦ True) ProgramError.Refuses x

namespace Catalog

variable {c : Catalog} {e : ProgramError}

private theorem refuses_of_resolve {name : Text} (h : c.resolve name = .error e) : e.Refuses := by
  unfold resolve at h
  split at h
  · cases h
  · cases h
    exact .inr rfl

private theorem refuses_of_resolveAll {names : List Text} (h : c.resolveAll names = .error e) :
    e.Refuses := by
  induction names with
  | nil => cases h
  | cons name names ih =>
    cases ht : c.resolve name with
    | error e' =>
      simp only [resolveAll, ht] at h
      cases h
      exact refuses_of_resolve ht
    | ok t =>
      cases hts : c.resolveAll names with
      | error e' =>
        simp only [resolveAll, ht, hts] at h
        cases h
        exact ih hts
      | ok ts =>
        simp only [resolveAll, ht, hts] at h
        cases h

private theorem refuses_of_resolveReturn {returns : Option Text}
    (h : c.resolveReturn returns = .error e) :
    e.Refuses := by
  cases returns with
  | none => cases h
  | some name => exact refuses_of_resolve h

end Catalog

namespace Symbols

variable {s : Symbols} {e : ProgramError}

private theorem refuses_of_register {t : Ty} (h : s.register t = .error e) : e.Refuses := by
  unfold register Catalog.register at h
  split at h
  · cases h
    exact .inl rfl
  · cases h

private theorem refuses_of_defineVariable {id : ScopeId} {v : Variable}
    (h : s.defineVariable id v = .error e) : e.Refuses := by
  unfold defineVariable Scopes.defineVariable Block.defineVariable at h
  split at h
  · cases h
    exact .inl rfl
  · cases h

private theorem refuses_of_defineFunction {id : ScopeId} {f : Function}
    (h : s.defineFunction id f = .error e) : e.Refuses := by
  unfold defineFunction Scopes.defineFunction Block.defineFunction at h
  split at h
  · cases h
    exact .inl rfl
  · cases h

end Symbols

private theorem DeclareM.refusing_obey {x : Except ProgramError α}
    (h : ∀ e, x = .error e → e.Refuses) :
    (DeclareM.obey x).Refusing := by
  intro s hs
  cases x with
  | error e => exact ⟨hs, h e rfl⟩
  | ok a => exact ⟨hs, trivial⟩

namespace TypeDeclaration

variable {d : TypeDeclaration} {o : ObjectType}

private theorem refusing_registerType : d.registerType.Refusing :=
  Keeps.get.bind fun _ _ ↦
    (DeclareM.refusing_obey fun _ ↦ Symbols.refuses_of_register).bind fun _ _ ↦
    (Keeps.set trivial).bind fun _ _ ↦ Keeps.pure trivial

private theorem refusing_defineField {field : Text × Text} : (d.defineField o field).Refusing := by
  have hresolve : (DeclareM.resolve field.2).Refusing :=
    Keeps.get.bind fun _ _ ↦ DeclareM.refusing_obey fun _ ↦ Catalog.refuses_of_resolve
  exact hresolve.bind fun _ _ ↦ Keeps.get.bind fun _ _ ↦
    (DeclareM.refusing_obey fun _ ↦ Symbols.refuses_of_defineVariable).bind fun _ _ ↦
    Keeps.set trivial

private theorem refusing_defineMethod {m : MethodDeclaration} : (d.defineMethod o m).Refusing :=
  Keeps.get.bind fun _ _ ↦
    (DeclareM.refusing_obey fun _ ↦ Catalog.refuses_of_resolveAll).bind fun _ _ ↦
    Keeps.get.bind fun _ _ ↦
    (DeclareM.refusing_obey fun _ ↦ Catalog.refuses_of_resolveReturn).bind fun _ _ ↦
    Keeps.get.bind fun _ _ ↦
    (DeclareM.refusing_obey fun _ ↦ Symbols.refuses_of_defineFunction).bind fun _ _ ↦
    Keeps.set trivial

end TypeDeclaration

private theorem refusing_registerAll (declared : List TypeDeclaration) :
    DeclareM.Refusing (declared.mapM TypeDeclaration.registerType) := by
  induction declared with
  | nil =>
    rw [List.mapM_nil]
    exact Keeps.pure trivial
  | cons d declared ih =>
    rw [List.mapM_cons]
    exact TypeDeclaration.refusing_registerType.bind fun _ _ ↦ ih.bind fun _ _ ↦ Keeps.pure trivial

/-- A declaration fails only because something is defined twice or a type is not known. -/
theorem refusing_declareTypes (declared : List TypeDeclaration) :
    (declareTypes declared).Refusing := by
  refine (refusing_registerAll declared).bind fun created _ ↦ ?_
  refine Keeps.bind (Keeps.forM fun p _ ↦ ?_) fun _ _ ↦ Keeps.pure trivial
  exact (Keeps.forM fun _ _ ↦ TypeDeclaration.refusing_defineField).bind fun _ _ ↦
    Keeps.forM fun _ _ ↦ TypeDeclaration.refusing_defineMethod

/-! ### Success -/

/-- Declared types that can be added to a catalog: their names are free, they only mention types of
the catalog and one another, and methods of one type have different names or numbers of parameters.
-/
structure Catalog.Admits (c : Catalog) (declared : List TypeDeclaration) : Prop
    extends c.Free declared where
  known : ∀ d ∈ declared, ∀ name ∈ d.mentioned,
    name ∈ c.names ∨ name ∈ declared.map TypeDeclaration.name
  methods : ∀ d ∈ declared, (d.methods.map MethodDeclaration.key).Nodup

/-- The members of a declared type, as its scope holds them. -/
structure TypeDeclaration.Members (d : TypeDeclaration) (c : Catalog) (o : ObjectType) (b : Block) :
    Prop where
  fields : List.Forall₂ (fun field v ↦ v.name = field.1 ∧ v.internalName = field.1 ∧
    c.find? field.2 = some v.type ∧ (v.constant = true ↔ field.1 ∈ d.constants) ∧
    v.site = .scope o.members) d.fields b.vars
  methods : List.Forall₂ (fun m f ↦ f.name = m.name ∧ f.internalName = d.name ++ "." ++ m.name ∧
    (∃ parameters, f.parameters = .object o :: parameters ∧
      List.Forall₂ (fun name t ↦ c.find? name = some t) m.parameters parameters) ∧
    ((∃ name, m.returns = some name ∧ c.find? name = some f.returns) ∨
      m.returns = none ∧ f.returns = .nil) ∧ f.site = .scope o.members) d.methods b.funs

/-- What a successful declaration leaves: the new types come after the earlier ones, no earlier
scope has changed, and every new type has an identity and a scope of its own, which holds its
members. -/
structure Symbols.Registered (s s' : Symbols) (declared : List TypeDeclaration)
    (os : List ObjectType) : Prop where
  catalog : s'.catalog.types = s.catalog.types ++ os.map .object
  scopes : s.scopes.latestFirst <:+ s'.scopes.latestFirst
  fresh : ∀ o ∈ os, s.nextType ≤ o.id ∧ s.scopes.size ≤ o.members
  distinct : (os.map ObjectType.id).Nodup ∧ (os.map ObjectType.members).Nodup
  types : List.Forall₂ (fun d o ↦ o.name = d.name ∧ o.internalName = d.name ∧
    s'.scopes.Alone o.members ∧ d.Members s'.catalog o (s'.scopes.block o.members)) declared os

namespace Symbols

variable {s s' : Symbols} {declared : List TypeDeclaration} {os : List ObjectType}

private theorem admits_iff (hfields : ∀ d ∈ declared, (d.fields.map Prod.fst).Nodup) :
    s.catalog.Admits declared ↔
      s.catalog.Free declared ∧ ∀ d ∈ declared, d.Definable (s.registered declared).catalog := by
  have hknown : ∀ d : TypeDeclaration,
      (∀ name ∈ d.mentioned, name ∈ (s.registered declared).catalog.names) ↔
        ∀ name ∈ d.mentioned,
          name ∈ s.catalog.names ∨ name ∈ declared.map TypeDeclaration.name := by
    simp only [names_registered, List.mem_append, implies_true]
  constructor
  · intro h
    exact ⟨h.toFree, fun d hd ↦ ⟨(hknown d).mpr (h.known d hd), hfields d hd, h.methods d hd⟩⟩
  · rintro ⟨hfree, h⟩
    exact ⟨hfree, fun d hd ↦ (hknown d).mp (h d hd).known, fun d hd ↦ (h d hd).methods⟩

private theorem declareTypes_succeeds_iff
    (hfields : ∀ d ∈ declared, (d.fields.map Prod.fst).Nodup) :
    (∃ os s', declareTypes declared s = .ok os s') ↔ s.catalog.Admits declared := by
  rw [admits_iff hfields]
  constructor
  · rintro ⟨os, s', h⟩
    obtain ⟨hfree, hdefinable, -⟩ := declareTypes_iff.mp h
    exact ⟨hfree, hdefinable⟩
  · rintro ⟨hfree, hdefinable⟩
    exact ⟨_, _, declareTypes_iff.mpr ⟨hfree, hdefinable, rfl, rfl⟩⟩

end Symbols

private theorem TypeDeclaration.Definable.members {d : TypeDeclaration} {c : Catalog}
    (h : d.Definable c) (o : ObjectType) : d.Members c o (d.block c o) where
  fields := by
    rw [block, List.forall₂_map_right_iff, List.forall₂_same]
    intro field hfield
    have hknown := (forall_mem_mentioned.mp h.known).1 field hfield
    exact ⟨rfl, rfl, Catalog.find?_eq_some_iff.mpr ⟨hknown, rfl⟩, List.contains_iff_mem, rfl⟩
  methods := by
    rw [block, List.forall₂_map_right_iff, List.forall₂_same]
    intro m hm
    have hknown := (forall_mem_mentioned.mp h.known).2 m hm
    rw [List.forall_mem_append] at hknown
    refine ⟨rfl, rfl, ⟨_, rfl, Catalog.forall₂_find?_iff.mpr ⟨hknown.1, rfl⟩⟩, ?_, rfl⟩
    rw [← Catalog.resolveReturn_ok_iff, Catalog.resolveReturn_iff]
    exact ⟨fun name hname ↦ hknown.2 name (Option.mem_toList.mpr hname), rfl⟩

namespace Symbols

variable {s s' : Symbols} {declared : List TypeDeclaration} {os : List ObjectType}

private theorem registered_of_declareTypes (h : declareTypes declared s = .ok os s') :
    s.Registered s' declared os := by
  obtain ⟨hfree, hdefinable, rfl, rfl⟩ := declareTypes_iff.mp h
  refine ⟨?_, ?_, fun o ho ↦ ⟨?_, ?_⟩, ?_, ?_⟩
  · rw [catalog_fill]
    rfl
  · apply suffix_fill (List.suffix_append _ _)
    exact fun p hp ↦ (members_of_mem_zip hp).1
  · have hid := List.mem_map_of_mem (f := ObjectType.id) ho
    rw [map_id_newTypes, List.mem_range'_1] at hid
    exact hid.1
  · have hmembers := List.mem_map_of_mem (f := ObjectType.members) ho
    rw [map_members_newTypes, List.mem_range'_1] at hmembers
    exact hmembers.1
  · rw [map_id_newTypes, map_members_newTypes]
    exact ⟨List.nodup_range', List.nodup_range'⟩
  · obtain ⟨hlength, hnames⟩ := List.forall₂_iff_zip.mp
      (forall₂_newTypes s.nextType s.scopes.size declared)
    refine List.forall₂_iff_zip.mpr ⟨hlength, fun {d o} hmem ↦ ?_⟩
    obtain ⟨hle, hlt⟩ := members_of_mem_zip hmem
    refine ⟨(hnames hmem).1, (hnames hmem).2, alone_fill ⟨.empty, find?_registered hle hlt⟩, ?_⟩
    rw [catalog_fill, block_fill nodup_members_zip hmem (size_registered ▸ hlt)]
    exact (hdefinable d (List.of_mem_zip hmem).1).members o

end Symbols

/-! ### Order -/

/-- Types that correspond after two declarations of the same types: earlier types stay as they are,
and a new type corresponds to the one of the same name. -/
inductive SameType (c : Catalog) (os os' : List ObjectType) : Ty → Ty → Prop
  | nil : SameType c os os' .nil .nil
  | earlier {t : Ty} (ht : t ∈ c.types) : SameType c os os' t t
  | declared {o o' : ObjectType} (ho : o ∈ os) (ho' : o' ∈ os') (hname : o.name = o'.name) :
      SameType c os os' (.object o) (.object o')

/-- Blocks that hold the same definitions in the same order, but for the identities of types. -/
structure Block.Corresponds (r : Ty → Ty → Prop) (b b' : Block) : Prop where
  vars : List.Forall₂ (fun v v' ↦ v.name = v'.name ∧ v.internalName = v'.internalName ∧
    v.constant = v'.constant ∧ r v.type v'.type) b.vars b'.vars
  funs : List.Forall₂ (fun f f' ↦ f.name = f'.name ∧ f.internalName = f'.internalName ∧
    List.Forall₂ r f.parameters f'.parameters ∧ r f.returns f'.returns) b.funs b'.funs

private theorem forall₂_of_common {α β γ : Type} {P : α → β → Prop} {Q : α → γ → Prop}
    {R : β → γ → Prop}
    (hr : ∀ a b c, P a b → Q a c → R b c) {as : List α} {bs : List β} {cs : List γ}
    (hp : List.Forall₂ P as bs) (hq : List.Forall₂ Q as cs) : List.Forall₂ R bs cs := by
  induction hp generalizing cs with
  | nil =>
    cases hq
    exact .nil
  | cons hab _ ih =>
    cases hq with
    | cons hac hq => exact .cons (hr _ _ _ hab hac) (ih hq)

/-- The members of one declared type, where the types of each name correspond. -/
theorem TypeDeclaration.Members.corresponds {d : TypeDeclaration} {c c' : Catalog}
    {o o' : ObjectType} {b b' : Block} {r : Ty → Ty → Prop} (h : d.Members c o b)
    (h' : d.Members c' o' b')
    (hr : ∀ name t t', c.find? name = some t → c'.find? name = some t' → r t t')
    (hnil : r .nil .nil) (ho : r (.object o) (.object o')) : b.Corresponds r b' where
  vars := by
    apply forall₂_of_common _ h.fields h'.fields
    rintro field v v' ⟨hname, hinternal, htype, hconstant, -⟩
      ⟨hname', hinternal', htype', hconstant', -⟩
    refine ⟨hname.trans hname'.symm, hinternal.trans hinternal'.symm, ?_, hr _ _ _ htype htype'⟩
    exact Bool.eq_iff_iff.mpr (hconstant.trans hconstant'.symm)
  funs := by
    apply forall₂_of_common _ h.methods h'.methods
    rintro m f f' ⟨hname, hinternal, ⟨ps, hps, hall⟩, hreturns, -⟩
      ⟨hname', hinternal', ⟨ps', hps', hall'⟩, hreturns', -⟩
    refine ⟨hname.trans hname'.symm, hinternal.trans hinternal'.symm, ?_, ?_⟩
    · rw [hps, hps']
      exact .cons ho (forall₂_of_common hr hall hall')
    · rcases hreturns with ⟨name, hm, ht⟩ | ⟨hm, ht⟩
      · rcases hreturns' with ⟨name', hm', ht'⟩ | ⟨hm', -⟩
        · rw [hm, Option.some.injEq] at hm'
          exact hr name _ _ ht (hm' ▸ ht')
        · rw [hm] at hm'
          cases hm'
      · rcases hreturns' with ⟨name', hm', -⟩ | ⟨-, ht'⟩
        · rw [hm] at hm'
          cases hm'
        · rwa [ht, ht']

private theorem Catalog.find?_of_append {c c' : Catalog} {ts : List Ty}
    (h : c'.types = c.types ++ ts)
    (name : Text) : c'.find? name = (c.find? name).or (ts.find? fun t ↦ t.name = name) := by
  rw [find?, h, List.find?_append]
  rfl

private theorem mem_of_find?_objects {os : List ObjectType} {name : Text} {t : Ty}
    (h : (os.map Ty.object).find? (fun t ↦ t.name = name) = some t) :
    ∃ o ∈ os, t = .object o ∧ o.name = name := by
  obtain ⟨o, ho, rfl⟩ := List.mem_map.mp (List.mem_of_find?_eq_some h)
  have hname := List.find?_some h
  exact ⟨o, ho, rfl, of_decide_eq_true hname⟩

private theorem exists_of_mem_forall₂ {α β : Type} {R : α → β → Prop} {as : List α} {bs : List β}
    {a : α} (h : List.Forall₂ R as bs) (ha : a ∈ as) : ∃ b ∈ bs, R a b := by
  induction h with
  | nil => cases ha
  | cons hab _ ih =>
    rcases List.mem_cons.mp ha with rfl | ha
    · exact ⟨_, List.mem_cons_self, hab⟩
    · obtain ⟨b, hb, hr⟩ := ih ha
      exact ⟨b, List.mem_cons_of_mem _ hb, hr⟩

namespace Catalog

variable {c : Catalog} {declared permuted : List TypeDeclaration}

private theorem Admits.perm (h : c.Admits declared) (hp : permuted.Perm declared) :
    c.Admits permuted where
  distinct := ((hp.map _).nodup_iff).mpr h.distinct
  new d hd := h.new d (hp.mem_iff.mp hd)
  known d hd name hname :=
    (h.known d (hp.mem_iff.mp hd) name hname).imp_right (hp.map _).mem_iff.mpr
  methods d hd := h.methods d (hp.mem_iff.mp hd)

end Catalog

namespace Symbols

variable {s s₁ s₂ : Symbols} {declared permuted : List TypeDeclaration} {os os' : List ObjectType}

/-- The types that two catalogs have under one name correspond. -/
theorem Registered.sameType (h : s.Registered s₁ declared os) (h' : s.Registered s₂ permuted os')
    {name : Text} {t t' : Ty} (ht : s₁.catalog.find? name = some t)
    (ht' : s₂.catalog.find? name = some t') : SameType s.catalog os os' t t' := by
  rw [Catalog.find?_of_append h.catalog] at ht
  rw [Catalog.find?_of_append h'.catalog] at ht'
  cases hold : s.catalog.find? name with
  | some u =>
    rw [hold, Option.some_or, Option.some.injEq] at ht ht'
    subst ht ht'
    exact .earlier (Catalog.mem_of_find hold)
  | none =>
    rw [hold, Option.none_or] at ht ht'
    obtain ⟨o, ho, rfl, hname⟩ := mem_of_find?_objects ht
    obtain ⟨o', ho', rfl, hname'⟩ := mem_of_find?_objects ht'
    exact .declared ho ho' (hname.trans hname'.symm)

private theorem Registered.corresponds (h : s.Registered s₁ declared os)
    (h' : s.Registered s₂ permuted os')
    {d : TypeDeclaration} (hd : d ∈ declared) (hd' : d ∈ permuted) :
    ∃ o ∈ os, ∃ o' ∈ os', o.name = d.name ∧ o'.name = d.name ∧
      (s₁.scopes.block o.members).Corresponds (SameType s.catalog os os')
        (s₂.scopes.block o'.members) := by
  obtain ⟨o, ho, hname, -, -, hmembers⟩ := exists_of_mem_forall₂ h.types hd
  obtain ⟨o', ho', hname', -, -, hmembers'⟩ := exists_of_mem_forall₂ h'.types hd'
  refine ⟨o, ho, o', ho', hname, hname', ?_⟩
  apply hmembers.corresponds hmembers' (fun _ _ _ ↦ h.sameType h') .nil
  exact .declared ho ho' (hname.trans hname'.symm)

end Symbols

/-- A declaration of object types whose fields have distinct names succeeds exactly if the catalog
admits the types, and otherwise something is defined twice or a type is not known. Its success
leaves the types with their members and changes nothing else. In another order it also succeeds, and
the types have the same members. -/
theorem declareTypes_exact (s : Symbols) (declared : List TypeDeclaration)
    (hfields : ∀ d ∈ declared, (d.fields.map Prod.fst).Nodup) :
    ((∃ os s', declareTypes declared s = .ok os s') ↔ s.catalog.Admits declared) ∧
    (¬ s.catalog.Admits declared →
      ∃ e s', declareTypes declared s = .error e s' ∧
        (e.kind = .duplicateDefinition ∨ e.kind = .unknownType)) ∧
    (∀ os s', declareTypes declared s = .ok os s' → s.Registered s' declared os) ∧
    ∀ permuted, permuted.Perm declared →
      ((∃ os s', declareTypes permuted s = .ok os s') ↔
        ∃ os s', declareTypes declared s = .ok os s') ∧
      ∀ os s₁ os' s₂, declareTypes declared s = .ok os s₁ → declareTypes permuted s = .ok os' s₂ →
        ∀ d ∈ declared, ∃ o ∈ os, ∃ o' ∈ os', o.name = d.name ∧ o'.name = d.name ∧
          (s₁.scopes.block o.members).Corresponds (SameType s.catalog os os')
            (s₂.scopes.block o'.members) := by
  have hsucceeds := Symbols.declareTypes_succeeds_iff (s := s) hfields
  refine ⟨hsucceeds, fun hnot ↦ ?_, fun os s' ↦ Symbols.registered_of_declareTypes,
    fun permuted hp ↦ ⟨?_, fun os s₁ os' s₂ h h' d hd ↦ ?_⟩⟩
  · cases h : declareTypes declared s with
    | ok os s' => exact absurd (hsucceeds.mp ⟨os, s', h⟩) hnot
    | error e s' => exact ⟨e, s', rfl, ((refusing_declareTypes declared).error trivial h).2⟩
  · have hfields' : ∀ d ∈ permuted, (d.fields.map Prod.fst).Nodup :=
      fun d hd ↦ hfields d (hp.mem_iff.mp hd)
    rw [hsucceeds, Symbols.declareTypes_succeeds_iff hfields']
    exact ⟨fun h ↦ h.perm hp.symm, fun h ↦ h.perm hp⟩
  · exact (Symbols.registered_of_declareTypes h).corresponds (Symbols.registered_of_declareTypes h')
      hd (hp.mem_iff.mpr hd)

/-- Two types whose members mention one another. -/
def treeTypes : List TypeDeclaration :=
  [⟨"Tree", [("children", "Forest"), ("size", "Integer")], ["size"],
      [⟨"grow", ["Tree"], some "Forest"⟩, ⟨"grow", [], none⟩]⟩,
    ⟨"Forest", [("first", "Tree")], [], [⟨"plant", ["Tree", "Integer"], none⟩]⟩]

/-- Types that mention one another are declared in either order. -/
theorem treeTypes_declared :
    (∀ d ∈ treeTypes, (d.fields.map Prod.fst).Nodup) ∧
      (∃ os s', declareTypes treeTypes .initial = .ok os s' ∧
        Symbols.initial.Registered s' treeTypes os) ∧
      ∃ os s', declareTypes treeTypes.reverse .initial = .ok os s' := by
  have hfields : ∀ d ∈ treeTypes, (d.fields.map Prod.fst).Nodup := by decide
  have hadmits : Symbols.initial.catalog.Admits treeTypes :=
    ⟨⟨by decide, by decide⟩, by decide, by decide⟩
  obtain ⟨hsucceeds, -, hregistered, horder⟩ := declareTypes_exact .initial treeTypes hfields
  obtain ⟨os, s', h⟩ := hsucceeds.mpr hadmits
  refine ⟨hfields, ⟨os, s', h, hregistered os s' h⟩, ?_⟩
  exact (horder treeTypes.reverse treeTypes.reverse_perm).1.mpr ⟨os, s', h⟩

end TreeCheck
