import TreeCheck.Proofs.Independence
import TreeCheck.Proofs.Moments

/-!
# Types and their names

Types are compared by identity, but messages speak of their names. Among declared types this makes
no difference: an analysis only ever meets types of the catalog, and there a name stands for one
type. So no message says that a type differs from one of the same name.
-/

namespace TreeCheck

namespace Symbols

variable {s s₁ : Symbols} {parent : Option ScopeId} {tree : Node NodeId}

/-- Where an analysis starts. -/
def start (s : Symbols) (parent : Option ScopeId) (tree : Node NodeId) : Moment :=
  ⟨s.top parent, ⟨s.topBlock, .empty⟩, .tree tree⟩

/-- An analysis among declared types starts where only types of the catalog are mentioned. -/
theorem Declared.start_known (h : s₁.Declared) (hcatalog : s.catalog = s₁.catalog)
    (hmembers : ∀ t ∈ s.catalog.types, s.scopes.members t = s₁.scopes.members t)
    (hparent : ∀ b ∈ s.scopes.around parent, b.Known s.catalog) :
    (s.start parent tree).Known s.catalog := by
  have hclosed := h.closed_of_members hcatalog (hcatalog ▸ hmembers) hparent
  have hvisible := List.forall_mem_cons.mp hclosed.visible
  exact ⟨rfl, ⟨hclosed.catalog, hvisible.2, nofun⟩, hvisible.1, .empty⟩

private theorem result_known (h : (s.start parent tree).Known s.catalog) {r : Resolutions}
    (hr : (s.analyze parent tree).result = .ok r) : r.Known s.catalog := by
  have hkeeps := tree.check_keeps h.env
  rw [analyze_eq_check] at hr
  cases hx : tree.check (s.top parent) ⟨s.topBlock, .empty⟩ with
  | error f state =>
    rw [hx] at hr
    cases hr
  | ok u state =>
    rw [hx] at hr
    cases hr
    exact (hkeeps.ok h.state hx).1.resolutions

private theorem error_known (h : (s.start parent tree).Known s.catalog) {e : ProgramError}
    (he : (s.analyze parent tree).result = .error (.error e)) : e.Known s.catalog := by
  have hkeeps := tree.check_keeps h.env
  rw [analyze_eq_check] at he
  cases hx : tree.check (s.top parent) ⟨s.topBlock, .empty⟩ with
  | ok u state =>
    rw [hx] at he
    cases he
  | error f state =>
    rw [hx] at he
    cases he
    exact (hkeeps.error h.state hx).2

/-- The scope that an analysis leaves has the block in which checking ends. -/
theorem block_analyze (s : Symbols) (parent : Option ScopeId) (tree : Node NodeId) :
    (s.analyze parent tree).symbols.scopes.block (s.analyze parent tree).scope =
      (s.start parent tree).left.block := by
  rw [scope_analyze, analyze_eq_check]
  cases hx : tree.check (s.top parent) ⟨s.topBlock, .empty⟩ with
  | ok u state =>
    have hleft : (s.start parent tree).left = state := Moment.left_of_ok hx
    rw [hleft]
    exact block_finish _ _ _ _
  | error f state =>
    have hleft : (s.start parent tree).left = state := Moment.left_of_error hx
    rw [hleft]
    exact block_finish _ _ _ _

/-- Among types that were declared on the built-in ones, and inside a scope that only mentions them,
an analysis of any tree only meets types of the catalog: in the table, in the scope that it leaves,
in all blocks that are visible at any moment of the run, and in the error. A name stands for one
type there, so an error never sets a type against one of the same name. -/
theorem analyze_meets_declared_types {declared : List TypeDeclaration} {created : List ObjectType}
    {s₀ : Symbols} (hfresh : s₀.catalog = .builtins)
    (hdeclared : declareTypes declared s₀ = .ok created s₁) (hcatalog : s.catalog = s₁.catalog)
    (hmembers : ∀ t ∈ s.catalog.types, s.scopes.members t = s₁.scopes.members t)
    (hparent : ∀ b ∈ s.scopes.around parent, b.Known s.catalog) (tree : Node NodeId) :
    (∀ t ∈ s.catalog.types, ∀ u ∈ s.catalog.types, t.name = u.name → t = u) ∧
    (∀ r, (s.analyze parent tree).result = .ok r → r.Known s.catalog) ∧
    ((s.analyze parent tree).symbols.scopes.block (s.analyze parent tree).scope).Known s.catalog ∧
    (∀ p, (s.start parent tree).Reaches p →
      (∀ b ∈ p.visible, b.Known s.catalog) ∧ p.state.resolutions.Known s.catalog ∧
        p.left.Known s.catalog) ∧
    ∀ e, (s.analyze parent tree).result = .error (.error e) →
      (∀ t ∈ e.types, t ∈ s.catalog.types) ∧
        ∀ t u, e.mismatch? = some (t, u) → t.name ≠ u.name := by
  have hd : s₁.Declared := (Declared.of_builtins hfresh).declareTypes hdeclared
  have hstart : (s.start parent tree).Known s.catalog :=
    hd.start_known hcatalog hmembers hparent
  have hnames : ∀ t ∈ s.catalog.types, ∀ u ∈ s.catalog.types, t.name = u.name → t = u :=
    fun t ht u hu ↦ Catalog.eq_of_name (hcatalog ▸ hd.names) ht hu
  refine ⟨hnames, fun r hr ↦ result_known hstart hr, ?_, fun p hp ↦ ?_, fun e he ↦ ?_⟩
  · rw [block_analyze]
    exact hstart.left.block
  · have hknown := hstart.reaches hp
    exact ⟨hknown.visible, hknown.state.resolutions, hknown.left⟩
  · have hknown := error_known hstart he
    refine ⟨hknown.types, fun t u hm hname ↦ ?_⟩
    have hboth := hknown.types
    rw [ProgramError.types_of_mismatch hm, List.forall_mem_cons, List.forall_mem_singleton] at hboth
    exact hknown.differ t u hm (hnames t hboth.1 u hboth.2 hname)

end Symbols

/-- The error of a program in which an analysis ends. -/
def Analysis.error? (a : Analysis) : Option ProgramError :=
  match a.result with
  | .error (.error e) => some e
  | _ => none

private theorem Analysis.result_of_error {a : Analysis} {e : ProgramError} (h : a.error? = some e) :
    a.result = .error (.error e) := by
  unfold error? at h
  split at h
  · next hr =>
    cases h
    exact hr
  · cases h

/-- A project that declares cells and rings, which mention each other. -/
def ringProject : Config :=
  { Config.default with types :=
    [⟨"Cell", [("next", "Cell"), ("ring", "Ring")], [], [⟨"link", ["Cell"], some "Ring"⟩]⟩,
      ⟨"Ring", [("first", "Cell")], [], []⟩] }

/-- The type of cells. -/
def cellType : Ty := .object ⟨0, "Cell", "Cell", 0⟩

/-- The type of rings. -/
def ringType : Ty := .object ⟨1, "Ring", "Ring", 1⟩

/-- What declaring cells and rings leaves. -/
def ringSymbols : Symbols :=
  match declareTypes ringProject.types .initial with
  | .ok _ s => s
  | .error _ s => s

private theorem ringProject_declared :
    ∃ created, declareTypes ringProject.types .initial = .ok created ringSymbols := by
  have hok : ringProject.symbols.isOk = true := by decide +kernel
  unfold ringSymbols
  unfold Config.symbols at hok
  cases hd : declareTypes ringProject.types .initial with
  | ok created s => exact ⟨created, rfl⟩
  | error e s =>
    rw [hd] at hok
    cases hok

/-- A block that defines a ring. -/
def ringBlock : Block := ⟨[⟨"ring", "ring", ringType, false, .scope 2⟩], []⟩

/-- A scope beside the declared types that defines a ring. -/
def ringScope : Symbols :=
  { ringSymbols with scopes := ⟨⟨none, ringBlock⟩ :: ringSymbols.scopes.latestFirst⟩ }

private theorem ringScope_known :
    ∀ b ∈ ringScope.scopes.around (some 2), b.Known ringScope.catalog := by
  have hblocks : ringScope.scopes.around (some 2) = [ringBlock] := by decide +kernel
  have hring : ringType ∈ ringScope.catalog.types := by decide +kernel
  rw [hblocks, List.forall_mem_singleton]
  exact ⟨List.forall_mem_singleton.mpr hring, List.forall_mem_nil _, List.forall_mem_nil _⟩

/-- A method whose loop assigns a ring to a cell. -/
def ringLoop : Node Unit :=
  .method ⟨(), "join", ["c"], ["Cell"], none,
    [.whileLoop () (.literal () (.boolean true))
      [.declaration () "d" (some "Cell")
          (some (.access () (some (.access () none "ring")) "first")),
        .assignment () (.access () none "d")
          (.call () (some (.access () none "c")) "link" [.access () none "d"])]]⟩

private theorem ringScope_members :
    ∀ t ∈ ringScope.catalog.types, ringScope.scopes.members t = ringSymbols.scopes.members t := by
  decide +kernel

private theorem ringLoop_result : (ringScope.analyze (some 2) (ringLoop.label 0)).result =
    .error (.error (.notAssignable cellType ringType)) :=
  Analysis.result_of_error (by decide +kernel)

/-- The two types of a rejected assignment are in the catalog and have different names. -/
theorem ringLoop_names_differ :
    (∀ b ∈ ringScope.scopes.around (some 2), b.Known ringScope.catalog) ∧
    (ringScope.analyze (some 2) (ringLoop.label 0)).result =
      .error (.error (.notAssignable cellType ringType)) ∧
    (∀ t ∈ [cellType, ringType], t ∈ ringScope.catalog.types) ∧
    cellType.name ≠ ringType.name := by
  obtain ⟨created, hd⟩ := ringProject_declared
  have hcatalog : ringScope.catalog = ringSymbols.catalog := by rw [ringScope]
  obtain ⟨_, _, _, _, herror⟩ := Symbols.analyze_meets_declared_types rfl hd hcatalog
    ringScope_members ringScope_known (ringLoop.label 0)
  obtain ⟨htypes, hdiffer⟩ := herror _ ringLoop_result
  exact ⟨ringScope_known, ringLoop_result, htypes, hdiffer _ _ rfl⟩

end TreeCheck
