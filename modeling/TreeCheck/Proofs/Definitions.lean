import TreeCheck.Proofs.Histories
import TreeCheck.Proofs.Independence
import TreeCheck.Proofs.Locality

/-!
# What a run defines

Checking adds definitions to the current block and takes none away. A statement adds the variables
that it declares in the block it stands in, in order; what is declared in a branch or in the body of
a loop is gone when that block ends. A source adds its fields and then its methods. A run that fails
leaves what it has added by then, which is a first part of what a success would have added.
-/

namespace TreeCheck

variable {α β ι ε σ : Type}

/-- A block gets variables that correspond by `P` to the members of a list, in order, and nothing
else. -/
def Block.AddsVariables (P : ι → Variable → Prop) (l : List ι) (b b' : Block) : Prop :=
  ∃ vs, List.Forall₂ P l vs ∧ b' = { b with vars := b.vars ++ vs }

/-- A block gets functions that correspond by `P` to the members of a list, in order, and nothing
else. -/
def Block.AddsFunctions (P : ι → Function → Prop) (l : List ι) (b b' : Block) : Prop :=
  ∃ fs, List.Forall₂ P l fs ∧ b' = { b with funs := b.funs ++ fs }

/-! ### Steps that add to the current block -/

/-- What has been added for one list and then for another has been added for both. -/
structure Block.Accumulates (R : List ι → Block → Block → Prop) : Prop where
  refl : ∀ b, R [] b b
  trans : ∀ {l₁ l₂ b b₁ b₂}, R l₁ b b₁ → R l₂ b₁ b₂ → R (l₁ ++ l₂) b b₂

private theorem Block.accumulates_variables (P : ι → Variable → Prop) :
    Accumulates (AddsVariables P) where
  refl b := ⟨[], .nil, by simp⟩
  trans := by
    rintro l₁ l₂ b _ _ ⟨vs₁, hvs₁, rfl⟩ ⟨vs₂, hvs₂, rfl⟩
    exact ⟨vs₁ ++ vs₂, List.rel_append hvs₁ hvs₂, by simp⟩

private theorem Block.accumulates_functions (P : ι → Function → Prop) :
    Accumulates (AddsFunctions P) where
  refl b := ⟨[], .nil, by simp⟩
  trans := by
    rintro l₁ l₂ b _ _ ⟨fs₁, hfs₁, rfl⟩ ⟨fs₂, hfs₂, rfl⟩
    exact ⟨fs₁ ++ fs₂, List.rel_append hfs₁ hfs₂, by simp⟩

/-- A step leaves the current block as it is. -/
def CheckM.Quiet (x : CheckM α) : Prop := ∀ s, (endState (x s)).block = s.block

/-- A step adds what `R` says to the current block: for a whole list if it succeeds, and for a first
part of it if it fails. -/
def CheckM.Adds (R : List ι → Block → Block → Prop) (l : List ι) (x : CheckM α) : Prop :=
  ∀ s, match x s with
    | .ok _ s' => R l s.block s'.block
    | .error _ s' => ∃ front, front <+: l ∧ R front s.block s'.block

private theorem obey_of_ok {x : Except ProgramError α} {s : σ} {a : α} (h : x = .ok a) :
    (obey x : EStateM Failure σ α) s = .ok a s := by
  rw [h]
  rfl

namespace CheckM.Quiet

private theorem pure (a : α) : Quiet (Pure.pure a : CheckM α) := fun _ ↦ rfl

private theorem get : Quiet (MonadState.get : CheckM State) := fun _ ↦ rfl

private theorem obey (x : Except ProgramError α) : Quiet (TreeCheck.obey x : CheckM α) := by
  intro s
  cases x <;> rfl

private theorem trust (x : Except Fault α) : Quiet (TreeCheck.trust x : CheckM α) := by
  intro s
  cases x <;> rfl

private theorem withResolutions (x : EStateM Failure Resolutions α) :
    Quiet (TreeCheck.withResolutions x) := by
  intro s
  unfold TreeCheck.withResolutions
  cases x s.resolutions <;> rfl

/-- What is added to a block of its own is gone when that block ends. -/
theorem within (block : Block) (x : CheckM α) : Quiet (TreeCheck.within block x) := by
  intro s
  unfold TreeCheck.within
  cases x { s with block } <;> rfl

private theorem bind {x : CheckM α} {k : α → CheckM β} (hx : Quiet x) (hk : ∀ a, Quiet (k a)) :
    Quiet (x >>= k) := by
  intro s
  have hs := hx s
  cases hr : x s with
  | error e s₁ =>
    rw [hr] at hs
    rw [run_bind_of_error hr]
    exact hs
  | ok a s₁ =>
    rw [hr] at hs
    rw [run_bind_of_ok hr]
    exact (hk a s₁).trans hs

private theorem consult (f : Resolutions → Except Fault α) : Quiet (TreeCheck.consult f) :=
  get.bind fun s ↦ trust (f s.resolutions)

end CheckM.Quiet

namespace CheckM.Adds

variable {R : List ι → Block → Block → Prop} {l l₁ l₂ : List ι}

private theorem of_quiet (hR : Block.Accumulates R) {x : CheckM α} (hx : Quiet x) :
    Adds R [] x := by
  intro s
  have hs := hx s
  cases hr : x s with
  | error e s' =>
    have hb : s'.block = s.block := by rwa [hr] at hs
    exact ⟨[], List.prefix_rfl, hb ▸ hR.refl s.block⟩
  | ok a s' =>
    have hb : s'.block = s.block := by rwa [hr] at hs
    exact hb ▸ hR.refl s.block

private theorem bind (hR : Block.Accumulates R) {x : CheckM α} {k : α → CheckM β} (hx : Adds R l₁ x)
    (hk : ∀ a, Adds R l₂ (k a)) : Adds R (l₁ ++ l₂) (x >>= k) := by
  intro s
  have hs := hx s
  cases hr : x s with
  | error e s₁ =>
    rw [hr] at hs
    obtain ⟨front, hfront, hb⟩ := hs
    rw [run_bind_of_error hr]
    exact ⟨front, hfront.trans (List.prefix_append _ _), hb⟩
  | ok a s₁ =>
    rw [hr] at hs
    have hs₁ := hk a s₁
    rw [run_bind_of_ok hr]
    cases hr₁ : k a s₁ with
    | error e s₂ =>
      rw [hr₁] at hs₁
      obtain ⟨front, hfront, hb⟩ := hs₁
      exact ⟨l₁ ++ front, (List.prefix_append_right_inj _).mpr hfront, hR.trans hs hb⟩
    | ok b s₂ =>
      rw [hr₁] at hs₁
      exact hR.trans hs hs₁

private theorem after (hR : Block.Accumulates R) {x : CheckM α} {k : α → CheckM β} (hx : Quiet x)
    (hk : ∀ a, Adds R l (k a)) : Adds R l (x >>= k) := bind hR (of_quiet hR hx) hk

private theorem before (hR : Block.Accumulates R) {x : CheckM α} {k : α → CheckM β}
    (hx : Adds R l x) (hk : ∀ a, Quiet (k a)) : Adds R l (x >>= k) := by
  simpa using bind hR hx fun a ↦ of_quiet hR (hk a)

/-- A definition that fails adds nothing. -/
theorem define (hR : Block.Accumulates R) {f : Block → Except ProgramError Block}
    (hf : ∀ b b', f b = .ok b' → R l b b') : Adds R l (TreeCheck.define f) := by
  intro s
  cases hb : f s.block with
  | error e =>
    rw [define_of_error hb]
    exact ⟨[], List.nil_prefix, hR.refl s.block⟩
  | ok b =>
    rw [define_of_ok hb]
    exact hf _ _ hb

private theorem forM (hR : Block.Accumulates R) {f : ι → CheckM PUnit} (hf : ∀ i, Adds R [i] (f i))
    (l : List ι) : Adds R l (l.forM f) := by
  induction l with
  | nil => exact of_quiet hR (.pure _)
  | cons i l ih => exact bind hR (hf i) fun _ ↦ ih

end CheckM.Adds

/-! ### Statements -/

namespace Env

private theorem infer_quiet (env : Env) (e : Expr NodeId) : CheckM.Quiet (env.infer e) :=
  CheckM.Quiet.get.bind fun _ ↦ .withResolutions _

private theorem inferOption_quiet (env : Env) (e : Option (Expr NodeId)) :
    CheckM.Quiet (env.inferOption e) := by
  cases e with
  | none => exact .pure none
  | some e => exact (env.infer_quiet e).bind fun t ↦ .pure (some t)

private theorem requireBoolean_quiet (env : Env) (construct : Construct) (condition : Expr NodeId) :
    CheckM.Quiet (env.requireBoolean construct condition) :=
  (env.infer_quiet condition).bind fun _ ↦ .obey _

private theorem nested_quiet (env : Env) (x : Env → CheckM α) : CheckM.Quiet (env.nested x) :=
  CheckM.Quiet.get.bind fun _ ↦ .within _ _

end Env

/-- The variable of a declaration, which is given by its name and its node. -/
def Variable.IsDeclared (q : Text × NodeId) (v : Variable) : Prop :=
  ∃ t, v = ⟨q.1, q.1, t, false, .node q.2⟩

/-- Checking something makes declarations in the current block. -/
abbrev CheckM.Declares (frame : Frame NodeId) (x : CheckM α) : Prop :=
  x.Adds (Block.AddsVariables Variable.IsDeclared) frame

namespace Stmt

private theorem controlType_quiet (s : Stmt NodeId) : CheckM.Quiet s.controlType := by
  cases s with
  | declaration => exact (CheckM.Quiet.consult _).bind fun v ↦ .pure (some v.type)
  | assignment => exact (CheckM.Quiet.consult _).bind fun t ↦ .pure (some t)
  | expression => exact .pure none
  | ifElse => exact .pure none
  | forLoop => exact .pure none
  | whileLoop => exact .pure none
  | ret => exact .pure none

private theorem requireSameStep_quiet (control : Option Ty) (s : Stmt NodeId) :
    CheckM.Quiet (requireSameStep control s) := by
  unfold requireSameStep
  split
  · exact (CheckM.Quiet.consult _).bind fun _ ↦ .obey _
  · exact .pure ()

private theorem checkAssignment_quiet (env : Env) (receiver value : Expr NodeId) :
    CheckM.Quiet (checkAssignment env receiver value) :=
  (CheckM.Quiet.obey _).bind fun _ ↦ (env.infer_quiet receiver).bind fun _ ↦
    (env.infer_quiet value).bind fun _ ↦ (CheckM.Quiet.consult _).bind fun _ ↦
    (CheckM.Quiet.obey _).bind fun _ ↦ .obey _

private theorem checkReturn_quiet (env : Env) (value : Expr NodeId) :
    CheckM.Quiet (checkReturn env value) := (env.infer_quiet value).bind fun _ ↦ .obey _

private theorem checkDeclaration_declares (env : Env) (tag : NodeId) (name : Text)
    (typeName : Option Text) (value : Option (Expr NodeId)) :
    CheckM.Declares [(name, tag)] (checkDeclaration env tag name typeName value) := by
  have hR := Block.accumulates_variables Variable.IsDeclared
  refine .after hR (env.inferOption_quiet value) fun _ ↦ .after hR (.obey _) fun t ↦
    .before hR (.define hR fun b b' hb ↦ ?_) fun _ ↦ .withResolutions _
  obtain ⟨_, rfl⟩ := Block.defineVariable_ok_iff.mp hb
  exact ⟨[_], .cons ⟨t, rfl⟩ .nil, rfl⟩

mutual

/-- A statement makes its declarations in the block that it stands in. -/
theorem check_declares (env : Env) (s : Stmt NodeId) :
    CheckM.Declares s.declares (s.check env) := by
  have hR := Block.accumulates_variables Variable.IsDeclared
  match s with
  | expression tag e =>
    rw [check, declares]
    exact .of_quiet hR ((CheckM.Quiet.obey _).bind fun _ ↦
      (env.infer_quiet e).bind fun _ ↦ .pure ())
  | declaration tag name typeName value =>
    rw [check, declares]
    exact checkDeclaration_declares env tag name typeName value
  | assignment tag receiver value =>
    rw [check, declares]
    exact .of_quiet hR (checkAssignment_quiet env receiver value)
  | ifElse tag condition thenBody elseBody =>
    rw [check, declares]
    exact .of_quiet hR ((CheckM.Quiet.obey _).bind fun _ ↦
      (env.requireBoolean_quiet .ifElse condition).bind fun _ ↦
      (env.nested_quiet _).bind fun _ ↦ env.nested_quiet _)
  | forLoop tag initialization condition increment body =>
    rw [check, declares]
    refine .after hR (.obey _) fun _ ↦
      .bind hR (checkFirst_declares env initialization) fun control ↦
      .after hR (env.requireBoolean_quiet .forLoop condition) fun _ ↦ ?_
    exact .before hR (checkStep_declares env control increment) fun _ ↦ env.nested_quiet _
  | whileLoop tag condition body =>
    rw [check, declares]
    exact .of_quiet hR ((env.requireBoolean_quiet .whileLoop condition).bind fun _ ↦
      env.nested_quiet _)
  | ret tag value =>
    rw [check, declares]
    exact .of_quiet hR (checkReturn_quiet env value)

private theorem checkFirst_declares (env : Env) (initialization : Option (Stmt NodeId)) :
    CheckM.Declares (declaresOption initialization) (checkFirst env initialization) := by
  have hR := Block.accumulates_variables Variable.IsDeclared
  match initialization with
  | none =>
    rw [checkFirst, declaresOption]
    exact .of_quiet hR (.pure none)
  | some first =>
    rw [checkFirst, declaresOption]
    exact .before hR (check_declares env first) fun _ ↦ first.controlType_quiet.bind fun control ↦
      (CheckM.Quiet.obey _).bind fun _ ↦ .pure control

private theorem checkStep_declares (env : Env) (control : Option Ty)
    (increment : Option (Stmt NodeId)) :
    CheckM.Declares (declaresOption increment) (checkStep env control increment) := by
  have hR := Block.accumulates_variables Variable.IsDeclared
  match increment with
  | none =>
    rw [checkStep, declaresOption]
    exact .of_quiet hR (.pure ())
  | some step =>
    rw [checkStep, declaresOption]
    exact .before hR (check_declares env step) fun _ ↦ requireSameStep_quiet control step

end

end Stmt

/-! ### Fields, methods and sources -/

/-- The variable of a field. -/
def Field.Gives (c : Catalog) (d : Field NodeId) (v : Variable) : Prop :=
  ∃ t, c.resolve d.typeName = .ok t ∧ v = ⟨d.name, d.name, t, d.constant, .node d.tag⟩

/-- The function of a method. -/
def Method.Gives (c : Catalog) (m : Method NodeId) (f : Function) : Prop := m.signature c = .ok f

private theorem Field.check_adds (env : Env) (d : Field NodeId) :
    CheckM.Adds (Block.AddsVariables (Gives env.catalog)) [d] (d.check env) := by
  have hR := Block.accumulates_variables (Gives env.catalog)
  unfold check
  intro s
  cases ht : env.catalog.resolve d.typeName with
  | error e => exact ⟨[], List.nil_prefix, hR.refl s.block⟩
  | ok t =>
    refine (CheckM.Adds.after hR (env.inferOption_quiet d.value) fun _ ↦ .after hR (.obey _) fun _ ↦
      .before hR (.define hR fun b b' hb ↦ ?_) fun _ ↦ .withResolutions _) s
    obtain ⟨_, rfl⟩ := Block.defineVariable_ok_iff.mp hb
    exact ⟨[_], .cons ⟨t, ht, rfl⟩ .nil, rfl⟩

/-- A method can be defined in a block: its signature is accepted, and no function of the block has
its name and its number of parameters. -/
def Method.Fits (c : Catalog) (b : Block) (m : Method NodeId) (f : Function) : Prop :=
  m.signature c = .ok f ∧ ∀ g ∈ b.funs, g.name = f.name → g.arity ≠ f.arity

namespace Method

variable {env : Env} {m : Method NodeId} {f : Function}

/-- What is done about a method after its definition leaves the block around it as it is. -/
theorem rest_quiet (env : Env) (m : Method NodeId) (f : Function) : CheckM.Quiet (do
    bindNode (.method m) (.function f)
    let around := (← get).block
    let block ← obey (Block.empty.defineParameters m.tag 0 (m.parameters.zip f.parameters))
    within block (Stmt.checkAll { env.inside around with returns := some f.returns } m.body)) :=
  (CheckM.Quiet.withResolutions _).bind fun _ ↦ CheckM.Quiet.get.bind fun _ ↦
    (CheckM.Quiet.obey _).bind fun _ ↦ .within _ _

/-- A method that fits is defined, whatever its body is. -/
theorem Fits.block_check {s : State} (h : m.Fits env.catalog s.block f) :
    (endState (m.check env s)).block = s.block.addFunction f := by
  have hd : s.block.defineFunction f = .ok (s.block.addFunction f) :=
    Block.defineFunction_ok_iff.mpr ⟨Block.findFunction_eq_none.mpr h.2, rfl⟩
  unfold check
  rw [run_bind_of_ok (obey_of_ok h.1), run_bind_of_ok (define_of_ok hd)]
  exact rest_quiet env m f _

/-- A method that does not fit is not defined. -/
theorem check_of_not_fits {s : State} (h : ∀ f, ¬ m.Fits env.catalog s.block f) :
    ∃ e, m.check env s = .error (.error e) s := by
  cases hf : m.signature env.catalog with
  | error e =>
    unfold check
    rw [hf]
    exact ⟨e, rfl⟩
  | ok f =>
    cases hd : s.block.defineFunction f with
    | error e =>
      unfold check
      rw [run_bind_of_ok (obey_of_ok hf), run_bind_of_error (define_of_error hd)]
      exact ⟨e, rfl⟩
    | ok b =>
      obtain ⟨hn, _⟩ := Block.defineFunction_ok_iff.mp hd
      exact absurd ⟨hf, Block.findFunction_eq_none.mp hn⟩ (h f)

private theorem check_adds (env : Env) (m : Method NodeId) :
    CheckM.Adds (Block.AddsFunctions (Gives env.catalog)) [m] (m.check env) := by
  intro s
  by_cases h : ∃ f, m.Fits env.catalog s.block f
  · obtain ⟨f, hf⟩ := h
    have hadds : Block.AddsFunctions (Gives env.catalog) [m] s.block
        (endState (m.check env s)).block := ⟨[f], .cons hf.1 .nil, hf.block_check⟩
    cases hr : m.check env s with
    | ok u s' =>
      rw [hr] at hadds
      exact hadds
    | error e s' =>
      rw [hr] at hadds
      exact ⟨[m], List.prefix_rfl, hadds⟩
  · obtain ⟨e, he⟩ := check_of_not_fits (not_exists.mp h)
    rw [he]
    exact ⟨[], List.nil_prefix, (Block.accumulates_functions _).refl s.block⟩

end Method

/-- The block of an analysis in which fields and methods have been defined, in order: the fields are
its variables, and its functions are `print` and then the methods. -/
structure Block.Holds (c : Catalog) (scope : ScopeId) (ds : List (Field NodeId))
    (ms : List (Method NodeId)) (b : Block) : Prop where
  vars : List.Forall₂ (Field.Gives c) ds b.vars
  funs : ∃ fs, List.Forall₂ (Method.Gives c) ms fs ∧ b.funs = printFunction scope :: fs

private theorem Block.Holds.addMethod {c : Catalog} {scope : ScopeId} {ds : List (Field NodeId)}
    {ms : List (Method NodeId)} {k : Nat} {m : Method NodeId} {f : Function} {b : Block}
    (h : b.Holds c scope ds (ms.take k)) (hm : ms[k]? = some m) (hf : m.signature c = .ok f) :
    (b.addFunction f).Holds c scope ds (ms.take (k + 1)) := by
  obtain ⟨hvs, fs, hfs, hb⟩ := h
  refine ⟨hvs, fs ++ [f], ?_, by simp [Block.addFunction, hb]⟩
  rw [List.take_add_one, hm]
  exact List.rel_append hfs (.cons hf .nil)

/-- A run through a source that defines some of its fields and methods: methods only after all
fields, and everything if it succeeds. -/
theorem Source.check_adds (env : Env) (source : Source NodeId) (s : State) :
    ∃ ds ms b, ds <+: source.fields ∧ ms <+: source.methods ∧ (ms = [] ∨ ds = source.fields) ∧
      (succeeds (source.check env s) = true → ds = source.fields ∧ ms = source.methods) ∧
      s.block.AddsVariables (Field.Gives env.catalog) ds b ∧
      b.AddsFunctions (Method.Gives env.catalog) ms (endState (source.check env s)).block := by
  have hmethods := Block.accumulates_functions (Method.Gives env.catalog)
  have hds :=
    CheckM.Adds.forM (Block.accumulates_variables _) (Field.check_adds env) source.fields s
  unfold check
  cases hr : source.fields.forM (Field.check env) s with
  | error e s₁ =>
    rw [hr] at hds
    obtain ⟨ds, hprefix, hb⟩ := hds
    rw [run_bind_of_error hr]
    exact ⟨ds, [], s₁.block, hprefix, List.nil_prefix, .inl rfl, nofun, hb, hmethods.refl _⟩
  | ok u s₁ =>
    rw [hr] at hds
    rw [run_bind_of_ok hr]
    have hms := CheckM.Adds.forM hmethods (Method.check_adds env) source.methods s₁
    cases hr₁ : source.methods.forM (Method.check env) s₁ with
    | error e s₂ =>
      rw [hr₁] at hms
      obtain ⟨ms, hprefix, hb⟩ := hms
      rw [run_bind_of_error hr₁]
      exact ⟨_, ms, s₁.block, List.prefix_rfl, hprefix, .inr rfl, nofun, hds, hb⟩
    | ok u s₂ =>
      rw [hr₁] at hms
      rw [run_bind_of_ok hr₁]
      refine ⟨_, _, s₁.block, List.prefix_rfl, List.prefix_rfl, .inr rfl, fun _ ↦ ⟨rfl, rfl⟩,
        hds, ?_⟩
      have hlast := (CheckM.Quiet.get.bind fun t ↦
        CheckM.Quiet.obey (requireEntryPoint (t.block :: env.outer))) s₂
      exact hlast ▸ hms

/-! ### What a run leaves -/

/-- The table in which a run ends, or its failure. -/
def outcome : EStateM.Result Failure State Unit → Except Failure Resolutions
  | .ok _ s => .ok s.resolutions
  | .error e _ => .error e

private theorem succeeds_of_outcome {x : EStateM.Result Failure State Unit} {r : Resolutions}
    (h : outcome x = .ok r) : succeeds x = true := by
  cases x with
  | ok u s => rfl
  | error e s => cases h

/-- The definitions in the scope that an analysis has made. -/
def Analysis.block (a : Analysis) : Block := a.symbols.scopes.block a.scope

namespace Symbols

variable {s : Symbols} {parent : Option ScopeId} {source : Source NodeId}

/-- Where a tree is checked in a scope that exists. -/
def inScope (s : Symbols) (scope : ScopeId) : Env :=
  ⟨s.scopes, s.catalog, (s.scopes.chain scope).tail, none⟩

/-- A run in a scope changes the block of that scope only. -/
theorem checkIn_eq (s : Symbols) (scope : ScopeId) (tree : Node NodeId) :
    s.checkIn scope tree =
      ⟨{ s with
          scopes := s.scopes.setBlock scope
            (endState (tree.check (s.inScope scope) ⟨s.scopes.block scope, .empty⟩)).block },
        scope, outcome (tree.check (s.inScope scope) ⟨s.scopes.block scope, .empty⟩)⟩ := by
  unfold checkIn inScope
  dsimp only
  cases tree.check ⟨s.scopes, s.catalog, (s.scopes.chain scope).tail, none⟩
    ⟨s.scopes.block scope, .empty⟩ <;> rfl

/-- A statement that is checked in a scope makes its declarations there. -/
theorem checkIn_declares {scope : ScopeId} (hscope : scope < s.scopes.size) (stmt : Stmt NodeId) :
    ∃ front, front <+: stmt.declares ∧
      (∀ r, (s.checkIn scope (.stmt stmt)).result = .ok r → front = stmt.declares) ∧
      (s.scopes.block scope).AddsVariables Variable.IsDeclared front
        (s.checkIn scope (.stmt stmt)).block := by
  have hd := stmt.check_declares (s.inScope scope) ⟨s.scopes.block scope, .empty⟩
  unfold Analysis.block
  rw [checkIn_eq, Scopes.block_setBlock_self hscope]
  change ∃ front, _ ∧ (∀ r, outcome (stmt.check _ _) = .ok r → _) ∧
    (s.scopes.block scope).AddsVariables _ front (endState (stmt.check _ _)).block
  cases hr : stmt.check (s.inScope scope) ⟨s.scopes.block scope, .empty⟩ with
  | ok u st =>
    rw [hr] at hd
    exact ⟨_, List.prefix_rfl, fun _ _ ↦ rfl, hd⟩
  | error e st =>
    rw [hr] at hd
    obtain ⟨front, hfront, hb⟩ := hd
    exact ⟨front, hfront, nofun, hb⟩

/-- A run in a scope leaves all other scopes and the catalog as they are. -/
theorem checkIn_frame (s : Symbols) (scope : ScopeId) (tree : Node NodeId) :
    (s.checkIn scope tree).symbols.catalog = s.catalog ∧
      (∀ id, (s.checkIn scope tree).symbols.scopes.parent? id = s.scopes.parent? id) ∧
      ∀ id, id ≠ scope → (s.checkIn scope tree).symbols.scopes.block id = s.scopes.block id := by
  rw [checkIn_eq]
  exact ⟨rfl, fun _ ↦ Scopes.parent?_setBlock, fun _ hid ↦ Scopes.block_setBlock_of_ne hid⟩

/-- An analysis is a run in the top block. -/
theorem analyze_eq_run (s : Symbols) (parent : Option ScopeId) (tree : Node NodeId) :
    s.analyze parent tree =
      s.finish parent (endState (tree.check (s.top parent) ⟨s.topBlock, .empty⟩)).block
        (outcome (tree.check (s.top parent) ⟨s.topBlock, .empty⟩)) := by
  rw [analyze_eq_check]
  cases tree.check (s.top parent) ⟨s.topBlock, .empty⟩ <;> rfl

private theorem block_analyze_eq (s : Symbols) (parent : Option ScopeId) (tree : Node NodeId) :
    (s.analyze parent tree).block =
      (endState (tree.check (s.top parent) ⟨s.topBlock, .empty⟩)).block := by
  rw [analyze_eq_run]
  exact block_finish _ _ _ _

/-- Fields and methods that have been added at the top. -/
theorem holds_of_adds {c : Catalog} {ds : List (Field NodeId)} {ms : List (Method NodeId)}
    {b b' : Block} (hds : s.topBlock.AddsVariables (Field.Gives c) ds b)
    (hms : b.AddsFunctions (Method.Gives c) ms b') : b'.Holds c s.scopes.size ds ms := by
  obtain ⟨vs, hvs, rfl⟩ := hds
  obtain ⟨fs, hfs, rfl⟩ := hms
  exact ⟨by simpa [topBlock] using hvs, fs, hfs, rfl⟩

/-- A run that has come to a method has defined all fields and the methods before it. -/
theorem holds_of_run {k : Nat} {st : State} (h : s.runUpTo parent source k = .ok () st) :
    st.block.Holds s.catalog s.scopes.size source.fields (source.methods.take k) := by
  obtain ⟨_, st₁, h₁, h₂⟩ := run_bind_ok_iff.mp h
  have hds := CheckM.Adds.forM (Block.accumulates_variables _) (Field.check_adds (s.top parent))
    source.fields ⟨s.topBlock, .empty⟩
  have hms := CheckM.Adds.forM (Block.accumulates_functions _) (Method.check_adds (s.top parent))
    (source.methods.take k) st₁
  rw [h₁] at hds
  rw [h₂] at hms
  exact holds_of_adds hds hms

/-- An analysis of a source has defined a first part of the fields, and if these are all fields then
a first part of the methods; a successful one has defined everything. -/
theorem holds_of_analyze (s : Symbols) (parent : Option ScopeId) (source : Source NodeId) :
    ∃ ds ms, ds <+: source.fields ∧ ms <+: source.methods ∧ (ms = [] ∨ ds = source.fields) ∧
      (∀ r, (s.analyze parent (.source source)).result = .ok r →
        ds = source.fields ∧ ms = source.methods) ∧
      (s.analyze parent (.source source)).block.Holds s.catalog s.scopes.size ds ms := by
  obtain ⟨ds, ms, b, hd, hm, horder, hall, hds, hms⟩ :=
    source.check_adds (s.top parent) ⟨s.topBlock, .empty⟩
  refine ⟨ds, ms, hd, hm, horder, fun r hr ↦ hall ?_, ?_⟩
  · rw [analyze_eq_run] at hr
    exact succeeds_of_outcome hr
  · rw [block_analyze_eq]
    exact holds_of_adds hds hms

/-- A run that fails in a method has defined it exactly if it fits. -/
theorem holds_of_failure {k : Nat} {m : Method NodeId} {st st' : State} {e : Failure}
    (hm : source.methods[k]? = some m) (hk : s.runUpTo parent source k = .ok () st)
    (hfail : s.runUpTo parent source (k + 1) = .error e st') :
    (s.analyze parent (.source source)).result = .error e ∧
      (∀ f, m.Fits s.catalog st.block f →
        (s.analyze parent (.source source)).block.Holds s.catalog s.scopes.size source.fields
          (source.methods.take (k + 1))) ∧
      ((∀ f, ¬ m.Fits s.catalog st.block f) →
        (s.analyze parent (.source source)).block.Holds s.catalog s.scopes.size source.fields
          (source.methods.take k)) := by
  have hbefore := holds_of_run hk
  -- the run ends where it fails
  obtain ⟨rest, hrest⟩ := source.check_eq_bind (s.top parent) (k + 1)
  have hcheck : (Node.source source).check (s.top parent) ⟨s.topBlock, .empty⟩ = .error e st' := by
    change source.check _ _ = _
    rw [hrest]
    exact run_bind_of_error hfail
  have hstep : m.check (s.top parent) st = .error e st' := by
    unfold runUpTo at hfail
    rw [Source.checkUpTo_succ hm] at hfail
    rwa [run_bind_of_ok hk] at hfail
  rw [block_analyze_eq, analyze_eq_run, hcheck]
  refine ⟨rfl, fun f hf ↦ ?_, fun hf ↦ ?_⟩
  · have hb : (endState (m.check (s.top parent) st)).block = st.block.addFunction f :=
      Method.Fits.block_check hf
    rw [hstep] at hb
    rw [hb]
    exact hbefore.addMethod hm hf.1
  · have hrefused : ∃ e, m.check (s.top parent) st = .error (.error e) st :=
      Method.check_of_not_fits hf
    obtain ⟨e', he'⟩ := hrefused
    rw [hstep] at he'
    cases he'
    exact hbefore

/-- Runs define in order. A statement, wherever it is checked, adds its own declarations to the
block it stands in, all of them if it succeeds and the first of them if it fails; that is all that
changes, in whatever scope the block is. An analysis of a source adds a variable for each field and,
after `print`, a function for each method. If it fails, then it has added a first part of the
fields, and a first part of the methods only after all fields; and the method in which it fails has
been added exactly if its signature is accepted and its name is free for its number of parameters.
-/
theorem runs_define_in_order :
    (∀ (env : Env) (stmt : Stmt NodeId), CheckM.Declares stmt.declares (stmt.check env)) ∧
    (∀ (s : Symbols) (scope : ScopeId) (stmt : Stmt NodeId), scope < s.scopes.size →
      (∃ front, front <+: stmt.declares ∧
        (∀ r, (s.checkIn scope (.stmt stmt)).result = .ok r → front = stmt.declares) ∧
        (s.scopes.block scope).AddsVariables Variable.IsDeclared front
          (s.checkIn scope (.stmt stmt)).block) ∧
      (s.checkIn scope (.stmt stmt)).symbols.catalog = s.catalog ∧
      (∀ id, (s.checkIn scope (.stmt stmt)).symbols.scopes.parent? id = s.scopes.parent? id) ∧
      ∀ id, id ≠ scope →
        (s.checkIn scope (.stmt stmt)).symbols.scopes.block id = s.scopes.block id) ∧
    ∀ (s : Symbols) (parent : Option ScopeId) (source : Source NodeId),
      (∀ r, (s.analyze parent (.source source)).result = .ok r →
        (s.analyze parent (.source source)).block.Holds s.catalog s.scopes.size source.fields
          source.methods) ∧
      (∃ ds ms, ds <+: source.fields ∧ ms <+: source.methods ∧ (ms = [] ∨ ds = source.fields) ∧
        (s.analyze parent (.source source)).block.Holds s.catalog s.scopes.size ds ms) ∧
      ∀ k m e st st', source.methods[k]? = some m → s.runUpTo parent source k = .ok () st →
        s.runUpTo parent source (k + 1) = .error e st' →
        (s.analyze parent (.source source)).result = .error e ∧
        st.block.Holds s.catalog s.scopes.size source.fields (source.methods.take k) ∧
        (∀ f, m.Fits s.catalog st.block f →
          (s.analyze parent (.source source)).block.Holds s.catalog s.scopes.size source.fields
            (source.methods.take (k + 1))) ∧
        ((∀ f, ¬ m.Fits s.catalog st.block f) →
          (s.analyze parent (.source source)).block.Holds s.catalog s.scopes.size source.fields
            (source.methods.take k)) := by
  refine ⟨fun env stmt ↦ stmt.check_declares env, fun s scope stmt hscope ↦ ?_,
    fun s parent source ↦ ?_⟩
  · exact ⟨checkIn_declares hscope stmt, checkIn_frame s scope (.stmt stmt)⟩
  · obtain ⟨ds, ms, hd, hm, horder, hall, hholds⟩ := holds_of_analyze s parent source
    refine ⟨fun r hr ↦ ?_, ⟨ds, ms, hd, hm, horder, hholds⟩, fun k m e st st' hm hk hfail ↦ ?_⟩
    · obtain ⟨rfl, rfl⟩ := hall r hr
      exact hholds
    · obtain ⟨hresult, hfits, hnot⟩ := holds_of_failure hm hk hfail
      exact ⟨hresult, holds_of_run hk, hfits, hnot⟩

end Symbols

/-! ### A run that fails in its second method -/

/-- A program whose second method returns a string in place of a number. The first one reads a
variable that its loop has declared. -/
def misreturning : Source Unit :=
  ⟨(), [baseField],
    [⟨(), "scale", ["a"], ["Integer"], some "Integer",
      [.forLoop () (some (.declaration () "i" none (some (.literal () (.integer 0)))))
          (.binary () "<" (.access () none "i") (.access () none "base"))
          none [.expression () (.call () none "print" [.access () none "i"])],
        .ret () (.access () none "i")]⟩,
      ⟨(), "main", [], [], some "Integer", [.ret () (.literal () (.string "text"))]⟩,
      scalingMain]⟩

/-- A failing run has defined the method in which it failed. -/
theorem misreturning_defines_main :
    ∃ e, (Symbols.initial.analyze none (.source (misreturning.label 0))).result = .error e ∧
      (Symbols.initial.analyze none (.source (misreturning.label 0))).block.Holds
        Symbols.initial.catalog Symbols.initial.scopes.size (misreturning.label 0).fields
        ((misreturning.label 0).methods.take 2) := by
  have hk : succeeds (Symbols.initial.runUpTo none (misreturning.label 0) 1) = true := by
    decide +kernel
  have hfail : succeeds (Symbols.initial.runUpTo none (misreturning.label 0) 2) = false := by
    decide +kernel
  obtain ⟨_, _, hruns⟩ := Symbols.runs_define_in_order
  obtain ⟨_, _, hmethods⟩ := hruns .initial none (misreturning.label 0)
  obtain ⟨st, hst⟩ := exists_of_succeeds hk
  cases hend : Symbols.initial.runUpTo none (misreturning.label 0) 2 with
  | ok _ _ =>
    rw [hend] at hfail
    cases hfail
  | error e st' =>
    obtain ⟨hresult, hbefore, hfits, _⟩ := hmethods 1 _ e st st' rfl hst hend
    refine ⟨e, hresult, hfits ⟨"main", "main", [], .integer, .node 15⟩ ⟨by rfl, ?_⟩⟩
    -- before it there are `print` and `scale`, of other names
    obtain ⟨_, fs, hfs, hfuns⟩ := hbefore
    rw [hfuns]
    cases hfs with
    | cons hf hnil =>
      cases hnil
      cases hf
      decide

end TreeCheck
