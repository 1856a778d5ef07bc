import TreeCheck.Proofs.Independence
import TreeCheck.Proofs.Retracing

/-!
# Names of variables

How variables are spelled does not matter. If the variables of a tree and those around it are
renamed, no two of them alike, then the tree is analysed as before: it is accepted with the same
types, or rejected with an error of the same kind. Variables, functions, types and members are
looked up apart from one another, so that it does not matter either if a new name is that of a
function, a type or a member. The members of types keep their names, since an access with a receiver
does.
-/

namespace TreeCheck

variable {ρ : Text → Text}

/-! ### Definitions under other names -/

/-- Rename a variable. -/
def Variable.rename (ρ : Text → Text) (v : Variable) : Variable := { v with name := ρ v.name }

/-- Rename the variables of a block. -/
def Block.rename (ρ : Text → Text) (b : Block) : Block :=
  { b with vars := b.vars.map (Variable.rename ρ) }

private theorem Block.rename_id (b : Block) : b.rename id = b := by
  have hv : Variable.rename id = id := rfl
  rw [rename, hv, List.map_id]

/-- The types that an analysis can come across: those that can be named, those of the definitions
around it, and those of the members of such types. -/
inductive Symbols.Meets (s : Symbols) (parent : Option ScopeId) : Ty → Prop where
  | builtin (b : Builtin) : Meets s parent (.builtin b)
  | named {t : Ty} (ht : t ∈ s.catalog.types) : Meets s parent t
  | ofVariable {b : Block} {v : Variable} (hb : b ∈ s.scopes.around parent) (hv : v ∈ b.vars) :
      Meets s parent v.type
  | ofFunction {b : Block} {f : Function} (hb : b ∈ s.scopes.around parent) (hf : f ∈ b.funs) :
      Meets s parent f.returns
  | field {t : Ty} {b : Block} {v : Variable} (ht : Meets s parent t)
      (hb : b ∈ s.scopes.members t) (hv : v ∈ b.vars) : Meets s parent v.type
  | method {t : Ty} {b : Block} {f : Function} (ht : Meets s parent t)
      (hb : b ∈ s.scopes.members t) (hf : f ∈ b.funs) : Meets s parent f.returns

instance (c : Catalog) (b : Block) : Decidable (b.Known c) :=
  decidable_of_iff ((∀ v ∈ b.vars, v.type ∈ c.types) ∧
      (∀ f ∈ b.funs, ∀ p ∈ f.parameters, p ∈ c.types) ∧ ∀ f ∈ b.funs, f.returns ∈ c.types)
    ⟨fun h ↦ ⟨h.1, h.2.1, h.2.2⟩, fun h ↦ ⟨h.vars, h.parameters, h.returns⟩⟩

/-- Both analyses accept, with the same types, or both reject, with errors of the same kind. -/
def Analysis.EndsLike (a a' : Analysis) : Prop :=
  (∃ r r', a.result = .ok r ∧ a'.result = .ok r' ∧ ∀ id, r'.type? id = r.type? id) ∨
    ∃ e e', a.result = .error (.error e) ∧ a'.result = .error (.error e') ∧
      e'.kind = e.kind ∧ e'.code = e.code

namespace Symbols

variable {s s' : Symbols} {parent parent' : Option ScopeId} {hρ : Function.Injective ρ}

private theorem below_of_meets (hs : s.Allocated) {t : Ty} (h : s.Meets parent t) :
    t.Below s.scopes.size := by
  induction h with
  | builtin b => trivial
  | named ht => exact hs.catalog _ ht
  | ofVariable hb hv => exact (hs.around hb).vars _ hv
  | ofFunction hb hf => exact (hs.around hb).funs _ hf
  | field _ hb hv _ => exact (members_below hs _ hb).vars _ hv
  | method _ hb hf _ => exact (members_below hs _ hb).funs _ hf

/-- If the visible definitions and the members of listed types only mention listed types, then these
are all there is to meet. -/
theorem mem_of_meets {c : Catalog} (hbuiltins : ∀ b, .builtin b ∈ c.types)
    (hnamed : ∀ t ∈ s.catalog.types, t ∈ c.types)
    (haround : ∀ b ∈ s.scopes.around parent, b.Known c)
    (hmembers : ∀ t ∈ c.types, ∀ b ∈ s.scopes.members t, b.Known c) {t : Ty}
    (h : s.Meets parent t) : t ∈ c.types := by
  induction h with
  | builtin b => exact hbuiltins b
  | named ht => exact hnamed _ ht
  | ofVariable hb hv => exact (haround _ hb).vars _ hv
  | ofFunction hb hf => exact (haround _ hb).returns _ hf
  | field _ hb hv ih => exact (hmembers _ ih _ hb).vars _ hv
  | method _ hb hf ih => exact (hmembers _ ih _ hb).returns _ hf

/-! ### Analyses under other names -/

/-- The correspondence between an analysis and one with renamed variables. -/
def respelling (s : Symbols) (parent : Option ScopeId) (hρ : Function.Injective ρ) :
    Correspondence where
  faithful := True
  verbatim := False
  sameParameters := True
  rename := ρ
  known := s.Meets parent
  site _ _ := True
  known_builtin := .builtin
  rename_injective := hρ
  rename_of_verbatim := False.elim
  sameParameters_of_faithful := id

private theorem respelling_block {b : Block} (hv : ∀ v ∈ b.vars, s.Meets parent v.type)
    (hf : ∀ f ∈ b.funs, s.Meets parent f.returns) :
    (s.respelling parent hρ).Blocks b (b.rename ρ) where
  vars := List.forall₂_map_right_iff.mpr
    (List.forall₂_same.mpr fun v hm ↦ ⟨rfl, False.elim, rfl, rfl, hv v hm, trivial⟩)
  funs := List.forall₂_same.mpr fun f hm ↦
    ⟨rfl, rfl, Correspondence.forall₂_accepts_self _, fun _ ↦ rfl, rfl, hf f hm, trivial⟩

/-- Members are not renamed. -/
theorem respelling_member {b : Block} (hv : ∀ v ∈ b.vars, s.Meets parent v.type)
    (hf : ∀ f ∈ b.funs, s.Meets parent f.returns) :
    (s.respelling parent hρ).fixed.Blocks b b := by
  have h : (s.respelling parent Function.injective_id).Blocks b (b.rename id) :=
    respelling_block hv hf
  rwa [Block.rename_id] at h

/-- Where an analysis takes place with renamed variables around it. -/
theorem places_respelling (hs : s.Allocated)
    (hparent : s'.scopes.around parent' = (s.scopes.around parent).map (Block.rename ρ))
    (hmembers : ∀ t, s.Meets parent t → s'.scopes.members t = s.scopes.members t)
    (hsize : s.scopes.size ≤ s'.scopes.size) (hcatalog : s'.catalog = s.catalog) :
    (s.respelling parent hρ).Places (s.top parent) (s'.top parent') where
  members t ht := by
    have hbelow := below_of_meets hs ht
    rw [members_top hbelow, members_top (hbelow.mono hsize), hmembers t ht]
    exact .ofBlocks (List.forall₂_same.mpr fun b hb ↦
      respelling_member (fun _ hv ↦ .field ht hb hv) fun _ hf ↦ .method ht hb hf)
  catalog := by
    refine ⟨fun {name t} ht ↦ ?_, fun _ ↦ hcatalog⟩
    change s'.catalog.find? name = some t ∧ _
    rw [hcatalog]
    exact ⟨ht, .named (Catalog.mem_of_find ht)⟩
  outer := by
    change (s.respelling parent hρ).Chains (s.scopes.around parent) (s'.scopes.around parent')
    rw [hparent]
    exact .ofBlocks (List.forall₂_map_right_iff.mpr (List.forall₂_same.mpr fun b hb ↦
      respelling_block (fun _ hv ↦ .ofVariable hb hv) fun _ hf ↦ .ofFunction hb hf))
  returns := rfl

/-- An analysis ends alike under other names of variables. -/
theorem endsLike_rename {α : Type} {tree : Node α} {n : NodeId} (hρ : Function.Injective ρ)
    (hs : s.Allocated)
    (hparent : s'.scopes.around parent' = (s.scopes.around parent).map (Block.rename ρ))
    (hmembers : ∀ t, s.Meets parent t → s'.scopes.members t = s.scopes.members t)
    (hsize : s.scopes.size ≤ s'.scopes.size) (hcatalog : s'.catalog = s.catalog) :
    (s.analyze parent (tree.label n)).EndsLike
      (s'.analyze parent' ((tree.rename ρ).label n)) := by
  have hsites : (s.respelling parent hρ).Relabels id := ⟨fun _ ↦ trivial, fun _ _ ↦ trivial⟩
  have hplaces : (s.respelling parent hρ).Places (s.top parent) (s'.top parent') :=
    places_respelling hs hparent hmembers hsize hcatalog
  have htop : (s.respelling parent hρ).Blocks s.topBlock s'.topBlock :=
    ⟨.nil, .cons (.declared (.builtin _) trivial) .nil⟩
  rcases analyze_ok_or_error (Node.nodup_ids_label n tree) with ⟨r, hr⟩ | ⟨e, he⟩
  · obtain ⟨r', hr', ht⟩ := Correspondence.analyze_ok_retraces hsites hplaces htop hr
    exact .inl ⟨r, r', hr, hr', ht.type?_id⟩
  · obtain ⟨e', he', hk, _⟩ :=
      Correspondence.analyze_error_retraces trivial hsites hplaces htop he
    exact .inr ⟨e, e', he, he', hk, congrArg ErrorKind.code hk⟩

end Symbols

/-! ### Renaming in place -/

namespace Scopes

/-- Change the blocks of scopes, among scopes with the latest first. -/
def mapBlocks (f : ScopeId → Block → Block) : List Scope → List Scope
  | [] => []
  | scope :: earlier => { scope with block := f earlier.length scope.block } :: mapBlocks f earlier

/-- A scope and the scopes around it, among scopes with the latest first. -/
def lineageFrom : List Scope → ScopeId → List ScopeId
  | [], _ => []
  | scope :: earlier, id =>
    if id = earlier.length then id :: scope.parent.elim [] (lineageFrom earlier)
    else lineageFrom earlier id

/-- The scopes that are seen from a scope, or from none, the innermost first. -/
def lineage (s : Scopes) (parent : Option ScopeId) : List ScopeId :=
  parent.elim [] (lineageFrom s.latestFirst)

/-- Rename the variables of some scopes. -/
def renameIn (ρ : Text → Text) (ids : List ScopeId) (s : Scopes) : Scopes :=
  ⟨mapBlocks (fun id b ↦ if id ∈ ids then b.rename ρ else b) s.latestFirst⟩

/-- Changing blocks makes no scope. -/
@[simp] theorem length_mapBlocks (f : ScopeId → Block → Block) (l : List Scope) :
    (mapBlocks f l).length = l.length := by
  induction l with
  | nil => rfl
  | cons scope earlier ih => simp [mapBlocks, ih]

/-- A chain consists of the blocks of its lineage. -/
theorem chainFrom_mapBlocks {f : ScopeId → Block → Block} {g : Block → Block} {l : List Scope}
    {id : ScopeId} (h : ∀ k ∈ lineageFrom l id, f k = g) :
    chainFrom (mapBlocks f l) id = (chainFrom l id).map g := by
  induction l generalizing id with
  | nil => rfl
  | cons scope earlier ih =>
    simp only [mapBlocks, chainFrom, lineageFrom, length_mapBlocks] at h ⊢
    by_cases hid : id = earlier.length
    · rw [if_pos hid, List.forall_mem_cons] at h
      rw [if_pos hid, if_pos hid, List.map_cons, ← hid, h.1]
      cases hp : scope.parent with
      | none => rfl
      | some parent =>
        rw [hp] at h
        exact congrArg _ (ih h.2)
    · rw [if_neg hid] at h
      rw [if_neg hid, if_neg hid]
      exact ih h

variable {s : Scopes} {ids : List ScopeId}

private theorem around_renameIn {parent : Option ScopeId} (h : ∀ k ∈ s.lineage parent, k ∈ ids) :
    (s.renameIn ρ ids).around parent = (s.around parent).map (Block.rename ρ) := by
  cases parent with
  | none => rfl
  | some id => exact chainFrom_mapBlocks fun k hk ↦ funext fun b ↦ if_pos (h k hk)

private theorem members_renameIn {t : Ty}
    (h : ∀ o, t = .object o → ∀ k ∈ s.lineage (some o.members), k ∉ ids) :
    (s.renameIn ρ ids).members t = s.members t := by
  cases t with
  | builtin b => rfl
  | object o =>
    have hchain : (s.renameIn ρ ids).chain o.members = (s.chain o.members).map id :=
      chainFrom_mapBlocks fun k hk ↦ funext fun b ↦ if_neg (h o rfl k hk)
    rwa [List.map_id] at hchain

end Scopes

namespace Symbols

/-- How variables are spelled does not matter. A tree is analysed alike if its variables and those
around it are renamed, no two of them alike, while functions, types and the members of types stay as
they are. The renamed variables around it may be those of other scopes, or the scopes around it may
themselves be changed, if the members of no type that the analysis can come across are among what is
changed: if neither the scope of such a type nor a scope around it is around the tree. -/
theorem spelling_does_not_matter {α : Type} (s : Symbols) (parent : Option ScopeId)
    (ρ : Text → Text) (tree : Node α) (n : NodeId) (hs : s.Allocated)
    (hρ : Function.Injective ρ) :
    (∀ (s' : Symbols) (parent' : Option ScopeId),
      s'.scopes.around parent' = (s.scopes.around parent).map (Block.rename ρ) →
      (∀ t, s.Meets parent t → s'.scopes.members t = s.scopes.members t) →
      s.scopes.size ≤ s'.scopes.size → s'.catalog = s.catalog →
      (s.analyze parent (tree.label n)).EndsLike
        (s'.analyze parent' ((tree.rename ρ).label n))) ∧
    ((∀ o, s.Meets parent (.object o) →
        ∀ k ∈ s.scopes.lineage (some o.members), k ∉ s.scopes.lineage parent) →
      (s.analyze parent (tree.label n)).EndsLike
        ({ s with scopes := s.scopes.renameIn ρ (s.scopes.lineage parent) }.analyze parent
          ((tree.rename ρ).label n))) := by
  constructor
  · intro s' parent' hparent hmembers hsize hcatalog
    exact endsLike_rename hρ hs hparent hmembers hsize hcatalog
  · intro happart
    refine endsLike_rename hρ hs (Scopes.around_renameIn fun _ hk ↦ hk) (fun t ht ↦ ?_) ?_ rfl
    · refine Scopes.members_renameIn fun o ho ↦ ?_
      rw [ho] at ht
      exact happart o ht
    · exact Nat.le_of_eq (Scopes.length_mapBlocks _ _).symm

end Symbols

/-! ### A point by another name -/

/-- Exchange two names. -/
def exchange (a b name : Text) : Text := if name = a then b else if name = b then a else name

private theorem exchange_injective (a b : Text) : Function.Injective (exchange a b) := by
  intro x y h
  unfold exchange at h
  grind

/-- A type with a field. -/
def spotType : Ty := .object ⟨0, "Spot", "Spot", 0⟩

/-- The members of the type, and a scope with a spot, a number and a function of a spot. -/
def spotSymbols : Symbols :=
  { Symbols.initial with
    scopes := ⟨[
      ⟨none, ⟨[⟨"x", "x", spotType, true, .scope 1⟩, ⟨"y", "y", .string, false, .scope 1⟩],
        [⟨"norm", "norm", [spotType], .integer, .scope 1⟩]⟩⟩,
      ⟨none, ⟨[⟨"x", "x", .integer, false, .scope 0⟩], []⟩⟩]⟩
    catalog := ⟨Catalog.builtins.types ++ [spotType]⟩ }

/-- A program that reads and changes a field of the same name as a variable. -/
def spotProgram : Node Unit :=
  .source ⟨(), [], [⟨(), "main", [], [], some "Integer",
    [.declaration () "y" none (some (.access () (some (.access () none "x")) "x")),
      .assignment () (.access () (some (.access () none "x")) "x")
        (.binary () "+" (.access () none "y") (.call () none "norm" [.access () none "x"])),
      .ret () (.access () none "y")]⟩]⟩

/-- A program is analysed alike with two names exchanged in it and in its scope. -/
theorem spotProgram_respelled :
    ∃ r r', (spotSymbols.analyze (some 1) (spotProgram.label 0)).result = .ok r ∧
      ({ spotSymbols with
          scopes := spotSymbols.scopes.renameIn (exchange "x" "norm") [1] }.analyze (some 1)
        ((spotProgram.rename (exchange "x" "norm")).label 0)).result = .ok r' ∧
      ∀ id, r'.type? id = r.type? id := by
  have hok : (spotSymbols.analyze (some 1) (spotProgram.label 0)).result.isOk = true := by
    decide +kernel
  -- the one object type has its members in a scope of its own
  have happart (o : ObjectType) (ho : spotSymbols.Meets (some 1) (.object o)) :
      ∀ k ∈ spotSymbols.scopes.lineage (some o.members),
        k ∉ spotSymbols.scopes.lineage (some 1) := by
    have hmem : .object o ∈ Catalog.builtins.types ++ [spotType] :=
      Symbols.mem_of_meets (c := spotSymbols.catalog) (by rintro ⟨⟩ <;> decide) (fun _ ht ↦ ht)
        (by decide) (by decide) ho
    rcases List.mem_append.mp hmem with hb | hspot
    · obtain ⟨b, _, hb⟩ := List.mem_map.mp hb
      cases hb
    · cases List.mem_singleton.mp hspot
      decide
  obtain ⟨r, hr⟩ := exists_of_isOk hok
  rcases (Symbols.spelling_does_not_matter spotSymbols (some 1) (exchange "x" "norm") spotProgram 0
    (by decide +kernel) (exchange_injective _ _)).2 happart with
    ⟨r₀, r', hr₀, hr', ht⟩ | ⟨e, _, he, _⟩
  · exact ⟨r₀, r', hr₀, hr', ht⟩
  · rw [hr] at he
    cases he

/-! ### Members that are renamed too -/

/-- A type without members of its own, whose scope is inside the one around the program. -/
def insideType : Ty := .object ⟨0, "Spot", "Spot", 1⟩

/-- The scope of the type, and the scope around it and around the program. -/
def insideSymbols : Symbols :=
  { Symbols.initial with
    scopes := ⟨[⟨some 0, .empty⟩,
      ⟨none, ⟨[⟨"p", "p", insideType, false, .scope 0⟩, ⟨"x", "x", .integer, false, .scope 0⟩],
        []⟩⟩]⟩ }

/-- A variable that is found as a member. -/
def insideAccess : Node Unit := .expr (.access () (some (.access () none "p")) "x")

/-- It is not enough that the scope of no type is renamed: a type has the variables around its scope
as members too, and an access to such a member keeps its name. -/
theorem insideAccess_respelled :
    insideSymbols.Allocated ∧
      (∀ o, insideSymbols.Meets (some 0) (.object o) →
        o.members ∉ insideSymbols.scopes.lineage (some 0)) ∧
      ¬ (insideSymbols.analyze (some 0) (insideAccess.label 0)).EndsLike
        ({ insideSymbols with
            scopes := insideSymbols.scopes.renameIn (exchange "x" "y")
              (insideSymbols.scopes.lineage (some 0)) }.analyze (some 0)
          ((insideAccess.rename (exchange "x" "y")).label 0)) := by
  refine ⟨by decide +kernel, fun o ho ↦ ?_, ?_⟩
  · have hmem : .object o ∈ Catalog.builtins.types ++ [insideType] :=
      Symbols.mem_of_meets (c := ⟨Catalog.builtins.types ++ [insideType]⟩)
        (by rintro ⟨⟩ <;> decide) (fun _ ht ↦ List.mem_append_left _ ht) (by decide) (by decide) ho
    rcases List.mem_append.mp hmem with hb | hinside
    · obtain ⟨b, _, hb⟩ := List.mem_map.mp hb
      cases hb
    · cases List.mem_singleton.mp hinside
      decide
  · have hok : (insideSymbols.analyze (some 0) (insideAccess.label 0)).result.isOk = true := by
      decide +kernel
    have hfails : ({ insideSymbols with
        scopes := insideSymbols.scopes.renameIn (exchange "x" "y")
          (insideSymbols.scopes.lineage (some 0)) }.analyze (some 0)
        ((insideAccess.rename (exchange "x" "y")).label 0)).result.isOk = false := by
      decide +kernel
    rintro (⟨_, _, _, hr', _⟩ | ⟨_, _, he, _⟩)
    · rw [hr'] at hfails
      cases hfails
    · rw [he] at hok
      cases hok

end TreeCheck
