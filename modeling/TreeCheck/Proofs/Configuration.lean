import TreeCheck.Project.Config
import TreeCheck.Proofs.Reading

/-!
# Settings are read exactly

Which documents hold settings, and which settings they hold, without the reader: `Config.Shape` says
what stands under the keys that are known, where they are present, and `Config.Given` lists what
they hold, in the order of the document and with the defaults for keys that are absent. Neither
looks at any other key. The reader succeeds exactly on the documents of this shape.
-/

namespace TreeCheck

namespace Toml

/-! ### Values and keys -/

namespace Value

/-- The value is a text. -/
def IsString (v : Value) : Prop := ∃ t, v = .string t

/-- The value is a truth value. -/
def IsBoolean (v : Value) : Prop := ∃ b, v = .boolean b

/-- The value is a table with a property. -/
def IsTable (P : Table → Prop) (v : Value) : Prop := ∃ t, v = .table t ∧ P t

/-- The value is a list of values with a property. -/
def IsList (P : Value → Prop) (v : Value) : Prop :=
  ∃ items, v = .array items ∧ ∀ item ∈ items, P item

/-- A list of texts as a value. -/
def ofStrings (names : List Text) : Value := .array (names.map .string)

/-- Names with names of types as a value. -/
def ofTypeNames (fields : List (Text × Text)) : Value :=
  .table (fields.map fun field ↦ (field.1, .string field.2))

end Value

namespace Table

/-- What a key holds has a property, where the key is present. -/
def IfPresent (t : Table) (key : Text) (P : Value → Prop) : Prop := ∀ v, t.get? key = some v → P v

/-- A key gives a datum, which it holds in the form of a value; an absent key gives the default. -/
inductive Gives {α : Type} (t : Table) (key : Text) (form : α → Value) (default : α) : α → Prop
  | present {a : α} (h : t.get? key = some (form a)) : Gives t key form default a
  | absent (h : t.get? key = none) : Gives t key form default default

end Table

end Toml

open Toml (Table Value)

/-! ### The shape of settings -/

/-- The shape of a method: it has a name, and perhaps parameters and a type to return. -/
structure MethodDeclaration.Shape (t : Table) : Prop where
  name : ∃ v, t.get? "name" = some v ∧ v.IsString
  returns : t.IfPresent "returns" Value.IsString
  parameters : t.IfPresent "parameters" (Value.IsList Value.IsString)

/-- The table of a type has a field of this name. -/
def TypeDeclaration.HasField (t : Table) (name : Text) : Prop :=
  ∃ fields, t.get? "fields" = some (.table fields) ∧ name ∈ fields.map Prod.fst

/-- The shape of an object type: its fields are texts by name, its constants are names of its
fields, and its methods are tables. -/
structure TypeDeclaration.Shape (t : Table) : Prop where
  fields : t.IfPresent "fields" (Value.IsTable fun fields ↦ ∀ field ∈ fields, field.2.IsString)
  constants : t.IfPresent "constants"
    (Value.IsList fun v ↦ ∃ name, v = .string name ∧ HasField t name)
  methods : t.IfPresent "methods" (Value.IsList (Value.IsTable MethodDeclaration.Shape))

/-- The shape of settings. -/
structure Config.Shape (t : Table) : Prop where
  package : t.IfPresent "package" (Value.IsTable fun package ↦
    package.IfPresent "name" Value.IsString ∧ package.IfPresent "version" Value.IsString)
  check : t.IfPresent "check" (Value.IsTable fun check ↦
    check.IfPresent "color" Value.IsBoolean ∧ check.IfPresent "sources" Value.IsString)
  types : t.IfPresent "types" (Value.IsTable fun types ↦
    ∀ entry ∈ types, entry.2.IsTable TypeDeclaration.Shape)

/-! ### The settings that a document gives -/

/-- The method that a value gives. -/
inductive MethodDeclaration.Given : Value → MethodDeclaration → Prop
  | mk {t : Table} {name : Text} {parameters : List Text} {returns : Option Text}
      (hname : t.get? "name" = some (.string name))
      (hparameters : t.Gives "parameters" Value.ofStrings [] parameters)
      (hreturns : t.get? "returns" = returns.map .string) :
      Given (.table t) ⟨name, parameters, returns⟩

/-- The object type that an entry gives, with its members in the order of the document. -/
inductive TypeDeclaration.Given : Text × Value → TypeDeclaration → Prop
  | mk {name : Text} {t : Table} {fields : List (Text × Text)} {constants : List Text}
      {items : List Value} {methods : List MethodDeclaration}
      (hfields : t.Gives "fields" Value.ofTypeNames [] fields)
      (hconstants : t.Gives "constants" Value.ofStrings [] constants)
      (hnamed : ∀ c ∈ constants, c ∈ fields.map Prod.fst)
      (hitems : t.Gives "methods" Value.array [] items)
      (hmethods : List.Forall₂ MethodDeclaration.Given items methods) :
      Given (name, .table t) ⟨name, fields, constants, methods⟩

/-- The settings that a document gives, with the types in the order of the document. -/
inductive Config.Given : Table → Config → Prop
  | mk {t package check types : Table} {name version sources : Text} {color : Bool}
      {declared : List TypeDeclaration}
      (hpackage : t.Gives "package" Value.table [] package)
      (hname : package.Gives "name" Value.string "untitled" name)
      (hversion : package.Gives "version" Value.string "0.0.0" version)
      (hcheck : t.Gives "check" Value.table [] check)
      (hcolor : check.Gives "color" Value.boolean true color)
      (hsources : check.Gives "sources" Value.string "src" sources)
      (htypes : t.Gives "types" Value.table [] types)
      (hdeclared : List.Forall₂ TypeDeclaration.Given types declared) :
      Given t ⟨⟨name, version⟩, ⟨color, sources⟩, declared⟩

/-! ### A document gives settings exactly if it has their shape -/

private theorem exists_forall₂_iff {α β : Type} {R : α → β → Prop} {as : List α} :
    (∃ bs, List.Forall₂ R as bs) ↔ ∀ a ∈ as, ∃ b, R a b := by
  induction as with
  | nil => simp
  | cons a as ih =>
    simp only [List.forall₂_cons_left_iff, List.forall_mem_cons, ← ih]
    constructor
    · rintro ⟨bs, b, bs', hb, hbs, rfl⟩
      exact ⟨⟨b, hb⟩, bs', hbs⟩
    · rintro ⟨⟨b, hb⟩, bs', hbs⟩
      exact ⟨_, b, bs', hb, hbs, rfl⟩

/-- All members of a list have a form exactly if the list has it throughout. -/
theorem forall_mem_form_iff {α β : Type} {form : β → α} {P : β → Prop} {as : List α} :
    (∀ a ∈ as, ∃ b, a = form b ∧ P b) ↔ ∃ bs : List β, as = bs.map form ∧ ∀ b ∈ bs, P b := by
  constructor
  · intro h
    induction as with
    | nil => exact ⟨[], rfl, List.forall_mem_nil _⟩
    | cons a as ih =>
      obtain ⟨⟨b, rfl, hb⟩, hrest⟩ := List.forall_mem_cons.mp h
      obtain ⟨bs, rfl, hbs⟩ := ih hrest
      exact ⟨b :: bs, rfl, List.forall_mem_cons.mpr ⟨hb, hbs⟩⟩
  · rintro ⟨bs, rfl, hbs⟩ a ha
    obtain ⟨b, hb, rfl⟩ := List.mem_map.mp ha
    exact ⟨b, rfl, hbs b hb⟩

namespace Toml

namespace Value

variable {v : Value}

private theorem isList_form_iff {α : Type} {form : α → Value} {P : α → Prop} :
    v.IsList (fun item ↦ ∃ a, item = form a ∧ P a) ↔
      ∃ as : List α, v = .array (as.map form) ∧ ∀ a ∈ as, P a := by
  simp only [IsList, forall_mem_form_iff]
  constructor
  · rintro ⟨_, rfl, as, rfl, has⟩
    exact ⟨as, rfl, has⟩
  · rintro ⟨as, rfl, has⟩
    exact ⟨_, rfl, as, rfl, has⟩

private theorem isTable_isString_iff :
    v.IsTable (fun fields ↦ ∀ field ∈ fields, field.2.IsString) ↔
      ∃ fields, v = ofTypeNames fields := by
  have hform (field : Text × Value) : field.2.IsString ↔
      ∃ name : Text × Text, field = (name.1, .string name.2) ∧ True := by
    obtain ⟨key, v⟩ := field
    simp [IsString]
  simp only [IsTable, hform, forall_mem_form_iff]
  constructor
  · rintro ⟨_, rfl, names, rfl, -⟩
    exact ⟨names, rfl⟩
  · rintro ⟨names, rfl⟩
    exact ⟨_, rfl, names, rfl, fun _ _ ↦ trivial⟩

end Value

namespace Table

variable {α : Type} {t : Table} {key : Text} {form : α → Value}

/-- A key gives a datum with a property exactly if it holds one where it is present, the default
having the property. -/
theorem ifPresent_iff (default : α) {P : α → Prop} (hdefault : P default) :
    t.IfPresent key (fun v ↦ ∃ a, v = form a ∧ P a) ↔ ∃ a, t.Gives key form default a ∧ P a := by
  constructor
  · intro h
    cases hv : t.get? key with
    | none => exact ⟨default, .absent hv, hdefault⟩
    | some v =>
      obtain ⟨a, rfl, ha⟩ := h v hv
      exact ⟨a, .present hv, ha⟩
  · rintro ⟨a, hgives, ha⟩ v hv
    cases hgives with
    | present h => exact ⟨a, Option.some.inj (hv.symm.trans h), ha⟩
    | absent h => cases hv.symm.trans h

private theorem ifPresent_form_iff (default : α) :
    t.IfPresent key (fun v ↦ ∃ a, v = form a) ↔ ∃ a, t.Gives key form default a := by
  have h : t.IfPresent key (fun v ↦ ∃ a, v = form a ∧ True) ↔ _ := ifPresent_iff default trivial
  simpa only [and_true] using h

/-- A key holds a string if present exactly if it gives a text. -/
theorem ifPresent_isString_iff (default : Text) :
    t.IfPresent key Value.IsString ↔ ∃ s, t.Gives key Value.string default s :=
  ifPresent_form_iff default

/-- A key holds a Boolean if present exactly if it gives one. -/
theorem ifPresent_isBoolean_iff (default : Bool) :
    t.IfPresent key Value.IsBoolean ↔ ∃ b, t.Gives key Value.boolean default b :=
  ifPresent_form_iff default

/-- A key holds names of types if present exactly if it gives them. -/
theorem ifPresent_typeNames_iff :
    t.IfPresent key (Value.IsTable fun fields ↦ ∀ field ∈ fields, field.2.IsString) ↔
      ∃ fields, t.Gives key Value.ofTypeNames [] fields := by
  rw [← ifPresent_form_iff]
  simp only [IfPresent, Value.isTable_isString_iff]

/-- A key holds names with a property if present exactly if it gives such names. -/
theorem ifPresent_names_iff {P : Text → Prop} :
    t.IfPresent key (Value.IsList fun v ↦ ∃ name, v = .string name ∧ P name) ↔
      ∃ names, t.Gives key Value.ofStrings [] names ∧ ∀ name ∈ names, P name := by
  rw [← ifPresent_iff [] (List.forall_mem_nil P)]
  simp only [IfPresent, Value.isList_form_iff, Value.ofStrings]

/-- A key holds a list of strings if present exactly if it gives texts. -/
theorem ifPresent_strings_iff :
    t.IfPresent key (Value.IsList Value.IsString) ↔
      ∃ names, t.Gives key Value.ofStrings [] names := by
  have h : t.IfPresent key (Value.IsList fun v ↦ ∃ name, v = .string name ∧ True) ↔ _ :=
    ifPresent_names_iff
  simp only [and_true, implies_true] at h
  exact h

end Table

end Toml

namespace MethodDeclaration

private theorem exists_given_iff {v : Value} : (∃ m, Given v m) ↔ v.IsTable Shape := by
  constructor
  · rintro ⟨_, @⟨t, name, parameters, returns, hname, hparameters, hreturns⟩⟩
    refine ⟨t, rfl, ⟨_, hname, name, rfl⟩, ?_, Table.ifPresent_strings_iff.mpr ⟨_, hparameters⟩⟩
    intro v hv
    obtain ⟨s, -, rfl⟩ := Option.map_eq_some_iff.mp (hreturns.symm.trans hv)
    exact ⟨s, rfl⟩
  · rintro ⟨t, rfl, ⟨_, hname, name, rfl⟩, hreturns, hparameters⟩
    obtain ⟨parameters, hparameters⟩ := Table.ifPresent_strings_iff.mp hparameters
    cases hr : Table.get? t "returns" with
    | none => exact ⟨⟨name, parameters, none⟩, .mk hname hparameters hr⟩
    | some r =>
      obtain ⟨s, rfl⟩ := hreturns r hr
      exact ⟨⟨name, parameters, some s⟩, .mk hname hparameters hr⟩

end MethodDeclaration

namespace TypeDeclaration

private theorem hasField_iff {t : Table} {fields : List (Text × Text)}
    (h : t.Gives "fields" Value.ofTypeNames [] fields) (name : Text) :
    HasField t name ↔ name ∈ fields.map Prod.fst := by
  unfold HasField
  cases h with
  | present h => simp [h, Value.ofTypeNames]
  | absent h => simp [h]

private theorem exists_given_iff {entry : Text × Value} :
    (∃ d, Given entry d) ↔ entry.2.IsTable Shape := by
  -- The list of methods may be empty, so it has its shape where the key is absent.
  have hmethods (t : Table) :
      t.IfPresent "methods" (Value.IsList (Value.IsTable MethodDeclaration.Shape)) ↔ _ :=
    Table.ifPresent_iff [] (List.forall_mem_nil _)
  constructor
  · rintro ⟨_, @⟨name, t, fields, constants, items, methods, hfields, hconstants, hnamed, hitems,
      hall⟩⟩
    refine ⟨t, rfl, Table.ifPresent_typeNames_iff.mpr ⟨fields, hfields⟩,
      Table.ifPresent_names_iff.mpr ⟨constants, hconstants, ?_⟩,
      (hmethods t).mpr ⟨items, hitems, ?_⟩⟩
    · intro c hc
      exact (hasField_iff hfields c).mpr (hnamed c hc)
    · intro item hitem
      exact MethodDeclaration.exists_given_iff.mp (exists_forall₂_iff.mp ⟨methods, hall⟩ item hitem)
  · obtain ⟨name, v⟩ := entry
    rintro ⟨t, rfl, hfields, hconstants, hshape⟩
    obtain ⟨fields, hfields⟩ := Table.ifPresent_typeNames_iff.mp hfields
    obtain ⟨constants, hconstants, hnamed⟩ := Table.ifPresent_names_iff.mp hconstants
    obtain ⟨items, hitems, hall⟩ := (hmethods t).mp hshape
    obtain ⟨methods, hall⟩ := exists_forall₂_iff.mpr
      fun item hitem ↦ MethodDeclaration.exists_given_iff.mpr (hall item hitem)
    refine ⟨⟨name, fields, constants, methods⟩, .mk hfields hconstants ?_ hitems hall⟩
    intro c hc
    exact (hasField_iff hfields c).mp (hnamed c hc)

end TypeDeclaration

namespace Config

/-- A document gives settings exactly if it has their shape. -/
theorem exists_given_iff {t : Table} : (∃ c, Given t c) ↔ Shape t := by
  have hnone (key : Text) (P : Value → Prop) : Table.IfPresent [] key P := nofun
  have hpackage : t.IfPresent "package" (Value.IsTable fun package ↦
      package.IfPresent "name" Value.IsString ∧ package.IfPresent "version" Value.IsString) ↔ _ :=
    Table.ifPresent_iff [] ⟨hnone _ _, hnone _ _⟩
  have hcheck : t.IfPresent "check" (Value.IsTable fun check ↦
      check.IfPresent "color" Value.IsBoolean ∧ check.IfPresent "sources" Value.IsString) ↔ _ :=
    Table.ifPresent_iff [] ⟨hnone _ _, hnone _ _⟩
  have htypes : t.IfPresent "types" (Value.IsTable fun types ↦
      ∀ entry ∈ types, entry.2.IsTable TypeDeclaration.Shape) ↔ _ :=
    Table.ifPresent_iff [] (List.forall_mem_nil _)
  constructor
  · rintro ⟨c, h⟩
    cases h with
    | mk givesPackage hname hversion givesCheck hcolor hsources givesTypes hdeclared =>
      refine ⟨hpackage.mpr ⟨_, givesPackage, ?_, ?_⟩, hcheck.mpr ⟨_, givesCheck, ?_, ?_⟩,
        htypes.mpr ⟨_, givesTypes, ?_⟩⟩
      · exact (Table.ifPresent_isString_iff _).mpr ⟨_, hname⟩
      · exact (Table.ifPresent_isString_iff _).mpr ⟨_, hversion⟩
      · exact (Table.ifPresent_isBoolean_iff _).mpr ⟨_, hcolor⟩
      · exact (Table.ifPresent_isString_iff _).mpr ⟨_, hsources⟩
      · intro entry hentry
        exact TypeDeclaration.exists_given_iff.mp
          (exists_forall₂_iff.mp ⟨_, hdeclared⟩ entry hentry)
  · intro h
    obtain ⟨package, givesPackage, hname, hversion⟩ := hpackage.mp h.package
    obtain ⟨check, givesCheck, hcolor, hsources⟩ := hcheck.mp h.check
    obtain ⟨types, givesTypes, hall⟩ := htypes.mp h.types
    obtain ⟨name, hname⟩ := (Table.ifPresent_isString_iff _).mp hname
    obtain ⟨version, hversion⟩ := (Table.ifPresent_isString_iff _).mp hversion
    obtain ⟨color, hcolor⟩ := (Table.ifPresent_isBoolean_iff _).mp hcolor
    obtain ⟨sources, hsources⟩ := (Table.ifPresent_isString_iff _).mp hsources
    obtain ⟨declared, hdeclared⟩ := exists_forall₂_iff.mpr
      fun entry hentry ↦ TypeDeclaration.exists_given_iff.mpr (hall entry hentry)
    exact ⟨_, .mk givesPackage hname hversion givesCheck hcolor hsources givesTypes hdeclared⟩

/-! ### The reader -/

variable {t : Table}

/-- A key is read as what it gives. -/
theorem read_ok_iff {α : Type} {key : Text} {view : Value → Option α} {form : α → Value}
    (hview : ∀ v a, view v = some a ↔ v = form a) {default a : α} {e : ConfigError} :
    read t key view default e = .ok a ↔ t.Gives key form default a := by
  unfold read
  constructor
  · intro h
    split at h
    · next hnone =>
      cases h
      exact .absent hnone
    · next v hv =>
      cases hview' : view v with
      | none =>
        rw [hview'] at h
        cases h
      | some b =>
        rw [hview'] at h
        cases h
        rw [(hview v a).mp hview'] at hv
        exact .present hv
  · intro h
    cases h with
    | present h =>
      rw [h]
      dsimp only
      rw [(hview _ a).mpr rfl]
      rfl
    | absent h => rw [h]

private theorem string?_eq_some_iff (v : Value) (s : Text) :
    v.string? = some s ↔ v = .string s := by
  cases v <;> simp [Value.string?]

private theorem boolean?_eq_some_iff (v : Value) (b : Bool) :
    v.boolean? = some b ↔ v = .boolean b := by
  cases v <;> simp [Value.boolean?]

private theorem table?_eq_some_iff (v : Value) (u : Table) : v.table? = some u ↔ v = .table u := by
  cases v <;> simp [Value.table?]

private theorem array?_eq_some_iff (v : Value) (items : List Value) :
    v.array? = some items ↔ v = .array items := by
  cases v <;> simp [Value.array?]

/-- Viewing all members of a list undoes giving them a form. -/
theorem mapM_eq_some_iff {α β : Type} {view : α → Option β} {form : β → α}
    (hview : ∀ a b, view a = some b ↔ a = form b) (as : List α) (bs : List β) :
    as.mapM view = some bs ↔ as = bs.map form := by
  induction as generalizing bs with
  | nil => cases bs <;> simp
  | cons a as ih =>
    rw [List.mapM_cons]
    cases bs with
    | nil => simp [Option.bind_eq_some_iff]
    | cons b bs => simp [Option.bind_eq_some_iff, hview, ih]

private theorem strings?_eq_some_iff (v : Value) (names : List Text) :
    v.strings? = some names ↔ v = .ofStrings names := by
  simp only [Value.strings?, Option.bind_eq_bind, Option.bind_eq_some_iff, array?_eq_some_iff,
    mapM_eq_some_iff string?_eq_some_iff, Value.ofStrings]
  grind

private theorem typeNames?_eq_some_iff (v : Value) (fields : List (Text × Text)) :
    v.typeNames? = some fields ↔ v = .ofTypeNames fields := by
  have hview (entry : Text × Value) (field : Text × Text) :
      (entry.2.string?.map fun type ↦ (entry.1, type)) = some field ↔
        entry = (field.1, .string field.2) := by
    simp only [Option.map_eq_some_iff, string?_eq_some_iff]
    grind
  simp only [Value.typeNames?, Option.bind_eq_bind, Option.bind_eq_some_iff, table?_eq_some_iff,
    mapM_eq_some_iff hview, Value.ofTypeNames]
  grind

private theorem readReturns_ok_iff {returns : Option Text} {e : ConfigError} :
    read t "returns" (fun v ↦ v.string?.map some) none e = .ok returns ↔
      t.get? "returns" = returns.map .string := by
  unfold read
  cases t.get? "returns" with
  | none => cases returns <;> simp
  | some v => cases v <;> cases returns <;> simp [Value.string?]

private theorem readMethod_ok_iff {type : Text} {v : Value} {m : MethodDeclaration} :
    readMethod type v = .ok m ↔ MethodDeclaration.Given v m := by
  unfold readMethod
  constructor
  · intro h
    split at h
    · cases h
    · next t ht =>
      split at h
      · cases h
      · next name hname =>
        obtain ⟨v, hv, hname⟩ := Option.bind_eq_some_iff.mp hname
        rw [(string?_eq_some_iff v name).mp hname] at hv
        rw [(table?_eq_some_iff _ t).mp ht]
        simp only [readStrings, except_bind_ok_iff, except_pure_ok_iff, readReturns_ok_iff,
          read_ok_iff strings?_eq_some_iff] at h
        obtain ⟨returns, hreturns, parameters, hparameters, rfl⟩ := h
        exact .mk hv hparameters hreturns
  · intro h
    cases h with
    | mk hname hparameters hreturns =>
      simp only [Value.table?, hname, Option.bind_some, Value.string?]
      exact except_bind_ok_iff.mpr ⟨_, readReturns_ok_iff.mpr hreturns, except_bind_ok_iff.mpr
        ⟨_, (read_ok_iff strings?_eq_some_iff).mpr hparameters, rfl⟩⟩

/-- No constant is unknown exactly if all of them are names of fields. -/
theorem unknown_isEmpty_iff {fields : List (Text × Text)} {constants : List Text} :
    (constants.filter fun c ↦ !(fields.map Prod.fst).contains c).isEmpty ↔
      ∀ c ∈ constants, c ∈ fields.map Prod.fst := by
  simp [List.filter_eq_nil_iff]

private theorem readType_ok_iff {entry : Text × Value} {d : TypeDeclaration} :
    readType entry = .ok d ↔ TypeDeclaration.Given entry d := by
  obtain ⟨name, v⟩ := entry
  unfold readType
  dsimp only
  constructor
  · intro h
    split at h
    · cases h
    · next t ht =>
      rw [(table?_eq_some_iff _ t).mp ht]
      simp only [readStrings, except_bind_ok_iff, read_ok_iff strings?_eq_some_iff,
        read_ok_iff typeNames?_eq_some_iff] at h
      obtain ⟨fields, hfields, constants, hconstants, h⟩ := h
      split at h
      · cases h
      · next hknown =>
        simp only [except_bind_ok_iff, except_pure_ok_iff, read_ok_iff array?_eq_some_iff,
          except_mapM_ok_iff, readMethod_ok_iff] at h
        obtain ⟨items, hitems, methods, hmethods, rfl⟩ := h
        rw [Bool.not_eq_true', Bool.not_eq_false, unknown_isEmpty_iff] at hknown
        exact .mk hfields hconstants hknown hitems hmethods
  · intro h
    cases h with
    | mk hfields hconstants hnamed hitems hmethods =>
      simp only [Value.table?]
      refine except_bind_ok_iff.mpr ⟨_, (read_ok_iff typeNames?_eq_some_iff).mpr hfields, ?_⟩
      refine except_bind_ok_iff.mpr ⟨_, (read_ok_iff strings?_eq_some_iff).mpr hconstants, ?_⟩
      rw [unknown_isEmpty_iff.mpr hnamed]
      refine except_bind_ok_iff.mpr ⟨_, (read_ok_iff array?_eq_some_iff).mpr hitems, ?_⟩
      refine except_bind_ok_iff.mpr ⟨_, except_mapM_ok_iff.mpr ?_, rfl⟩
      exact hmethods.imp fun _ _ ↦ readMethod_ok_iff.mpr

private theorem ofTable_ok_iff {c : Config} : ofTable t = .ok c ↔ Given t c := by
  simp only [ofTable, readPackage, readCheck, readTable, except_bind_ok_iff, except_pure_ok_iff,
    read_ok_iff table?_eq_some_iff, read_ok_iff string?_eq_some_iff,
    read_ok_iff boolean?_eq_some_iff, except_mapM_ok_iff, readType_ok_iff]
  constructor
  · rintro ⟨package, hpackage, _, ⟨name, hname, version, hversion, rfl⟩, check, hcheck, _,
      ⟨color, hcolor, sources, hsources, rfl⟩, types, htypes, declared, hdeclared, rfl⟩
    exact .mk hpackage hname hversion hcheck hcolor hsources htypes hdeclared
  · intro h
    cases h with
    | mk hpackage hname hversion hcheck hcolor hsources htypes hdeclared =>
      exact ⟨_, hpackage, _, ⟨_, hname, _, hversion, rfl⟩, _, hcheck, _,
        ⟨_, hcolor, _, hsources, rfl⟩, _, htypes, _, hdeclared, rfl⟩

/-- Settings are read exactly. A document is accepted if and only if it has the shape of settings,
and refused otherwise; there is no other outcome, also for the text of the document. What is read
from a document that is accepted is what it gives: the types with their fields, constants and
methods in the order of the document, and the default for every key that is absent. -/
theorem ofTable_accepts_shape (t : Table) :
    ((∃ c, ofTable t = .ok c) ↔ Shape t) ∧
    (¬ Shape t → ∃ e, ofTable t = .error e) ∧
    (∀ c, ofTable t = .ok c ↔ Given t c) ∧
    ∀ path text, Toml.parse text = .ok t →
      (∀ c, ofText path text = .ok c ↔ Given t c) ∧
      (¬ Shape t → ∃ e, ofText path text = .error (.refused e)) := by
  have hshape : (∃ c, ofTable t = .ok c) ↔ Shape t := by
    simp only [ofTable_ok_iff, exists_given_iff]
  have hrefused : ¬ Shape t → ∃ e, ofTable t = .error e := by
    intro h
    cases hc : ofTable t with
    | ok c => exact absurd (hshape.mp ⟨c, hc⟩) h
    | error e => exact ⟨e, rfl⟩
  refine ⟨hshape, hrefused, fun c ↦ ofTable_ok_iff, fun path text hparse ↦ ?_⟩
  have htext : ofText path text = (ofTable t).mapError .refused := by rw [ofText, hparse]
  rw [htext]
  refine ⟨fun c ↦ ?_, fun h ↦ ?_⟩
  · rw [← ofTable_ok_iff]
    cases ofTable t <;> simp [Except.mapError]
  · obtain ⟨e, he⟩ := hrefused h
    rw [he]
    exact ⟨e, rfl⟩

/-- A document with a type of two fields and a method, and with keys that mean nothing. -/
def spotDocument : Table :=
  [("check", .table [("depth", .integer 3)]),
   ("types", .table [("Spot", .table
     [("fields", .table [("y", .string "Integer"), ("x", .string "Integer")]),
      ("constants", .array [.string "x"]),
      ("methods", .array
        [.table [("name", .string "move"), ("since", .dateTime "2020-01-01")]])])])]

example : (ofTable spotDocument).toOption =
    some ⟨⟨"untitled", "0.0.0"⟩, ⟨true, "src"⟩,
      [⟨"Spot", [("y", "Integer"), ("x", "Integer")], ["x"], [⟨"move", [], none⟩]⟩]⟩ := by decide

/-- A document in which a text takes the place of a truth value. -/
def wordyDocument : Table := [("check", .table [("color", .string "always")])]

/-- The document does not have the shape of settings, and its text is refused. -/
theorem wordyDocument_refused :
    ¬ Shape wordyDocument ∧
      ∃ e, ofText "plc.toml" "[check]\ncolor = 'always'\n" = .error (.refused e) := by
  have hshape : ¬ Shape wordyDocument := by
    intro h
    obtain ⟨check, hcheck, hcolor, -⟩ := h.check _ rfl
    cases hcheck
    obtain ⟨b, hb⟩ := hcolor _ rfl
    cases hb
  refine ⟨hshape, ?_⟩
  -- The text is read, and what is read is not accepted; it need not be written out.
  have hread : (Toml.parse "[check]\ncolor = 'always'\n").toOption.isSome := by decide +kernel
  have hnone : ((Toml.parse "[check]\ncolor = 'always'\n").toOption.bind fun t ↦
      (ofTable t).toOption) = none := by decide +kernel
  cases hparse : Toml.parse "[check]\ncolor = 'always'\n" with
  | error e =>
    rw [hparse] at hread
    cases hread
  | ok t =>
    rw [hparse] at hnone
    obtain ⟨haccepts, -, -, htext⟩ := ofTable_accepts_shape t
    refine (htext "plc.toml" _ hparse).2 fun h ↦ ?_
    obtain ⟨c, hc⟩ := haccepts.mpr h
    change (ofTable t).toOption = none at hnone
    rw [hc] at hnone
    cases hnone

end Config

end TreeCheck
