import TreeCheck.Proofs.Declarations

/-!
# Tables that agree with their tree

Whether a table agrees with a tree can be checked node by node, from what the table says about the
node and its direct parts alone. The table of a successful analysis agrees with every node of the
tree.
-/

namespace TreeCheck

/-! ### Checking one node -/

/-- A call with arguments from parameter `first` on: the node is bound to a function of the name
that has a parameter for every argument and none beyond, every argument may stand where its
parameter does, and the call has the type that the function returns. -/
def Expr.CallAgrees (r : Resolutions) (tag : NodeId) (name : Text) (arguments : List (Expr NodeId))
    (first : Nat) : Prop :=
  ∃ f, r.binding? tag = some (.function f) ∧ f.name = name ∧
    f.parameters.length = arguments.length + first ∧ r.type? tag = some f.returns ∧
    ∀ i a, arguments[i]? = some a → ∃ p t, f.parameters[i + first]? = some p ∧
      r.type? a.tag = some t ∧ Assignable p t

/-- What a table must say about an expression, given what it says about its parts. -/
def Expr.Agrees (r : Resolutions) : Expr NodeId → Prop
  | literal tag value => ∃ t, r.type? tag = some t ∧ value.HasType t
  | group tag inner => ∃ t, r.type? tag = some t ∧ r.type? inner.tag = some t
  | binary tag operator left right => ∃ t t₁ t₂, r.type? tag = some t ∧
    r.type? left.tag = some t₁ ∧ r.type? right.tag = some t₂ ∧ Operates operator t₁ t₂ t
  | access tag _ name => ∃ v, r.binding? tag = some (.variable v) ∧ v.name = name ∧
    r.type? tag = some v.type
  | call tag none name arguments => CallAgrees r tag name arguments 0
  | call tag (some _) name arguments => CallAgrees r tag name arguments 1

/-- What a table must say about a statement, given what it says about its parts. -/
def Stmt.Agrees (r : Resolutions) : Stmt NodeId → Prop
  | declaration tag name _ _ => ∃ v, r.binding? tag = some (.variable v) ∧ v.name = name
  | assignment _ receiver value => ∃ v t, r.binding? receiver.tag = some (.variable v) ∧
    v.constant = false ∧ r.type? value.tag = some t ∧ Assignable v.type t
  | ifElse _ condition _ _ => r.type? condition.tag = some .boolean
  | forLoop _ _ condition _ _ => r.type? condition.tag = some .boolean
  | whileLoop _ condition _ => r.type? condition.tag = some .boolean
  | expression _ _ => True
  | ret _ _ => True

/-- What a table must say about a node, given what it says about its parts. -/
def Node.Agrees (r : Resolutions) : Node NodeId → Prop
  | expr e => e.Agrees r
  | stmt s => s.Agrees r
  | field d => ∃ v, r.binding? d.tag = some (.variable v) ∧ v.name = d.name
  | method m => ∃ f, r.binding? m.tag = some (.function f) ∧ f.name = m.name
  | source _ => True

/-! ### What elaboration writes agrees -/

open Resolutions (within_append within_ofBinding within_ofBound)

variable {I : Env → Block → Prop} {r : Resolutions}

namespace Expr

variable {scopes : Scopes} {chain : Chain}

private theorem types_of_elaborateAll {es : List (Expr NodeId)} {ts : List Ty} {d : Resolutions}
    (h : elaborateAll scopes chain es = .ok (ts, d)) (hd : d.Within r) :
    List.Forall₂ (fun e t ↦ r.type? e.tag = some t) es ts := by
  induction es generalizing ts d with
  | nil =>
    obtain ⟨rfl, _⟩ := elaborateAll_nil_ok_iff.mp h
    exact .nil
  | cons e es ih =>
    obtain ⟨t, d₁, ts', d₂, he, hes, rfl, rfl⟩ := elaborateAll_cons_ok_iff.mp h
    obtain ⟨hd₂, hd₁⟩ := within_append.mp hd
    exact .cons (type?_of_elaborate he hd₁) (ih hes hd₂)

/-- Every argument meets its parameter. -/
theorem assignable_of_forall₂ {arguments : List (Expr NodeId)} {parameters ts : List Ty}
    (ha : List.Forall₂ (fun e t ↦ r.type? e.tag = some t) arguments ts)
    (hp : List.Forall₂ (fun p a ↦ p.accepts a = true) parameters ts) (i : Nat) (a : Expr NodeId)
    (hi : arguments[i]? = some a) :
    ∃ p t, parameters[i]? = some p ∧ r.type? a.tag = some t ∧ Assignable p t := by
  induction ha generalizing parameters i with
  | nil => cases hi
  | cons he _ ih =>
    cases hp with | cons hp hps
    cases i with
    | zero =>
      cases hi
      exact ⟨_, _, rfl, he, assignable_iff.mpr hp⟩
    | succ i => exact ih hps i hi

private theorem agrees_of_elaborate {e : Expr NodeId} {t : Ty} {d : Resolutions}
    (h : e.elaborate scopes chain = .ok (t, d)) (hd : d.Within r) : e.Agrees r := by
  have ht : r.type? e.tag = some t := type?_of_elaborate h hd
  match e with
  | literal tag value =>
    obtain ⟨hv, _⟩ := elaborate_literal_ok_iff.mp h
    exact ⟨t, ht, Literal.hasType_iff.mpr hv⟩
  | group tag inner =>
    obtain ⟨_, d₁, hi, rfl⟩ := elaborate_group_ok_iff.mp h
    exact ⟨t, ht, type?_of_elaborate hi (within_append.mp hd).2⟩
  | binary tag operator left right =>
    obtain ⟨t₁, d₁, t₂, d₂, hl, hr, ho, rfl⟩ := elaborate_binary_ok_iff.mp h
    obtain ⟨hd₂, hd₁⟩ := within_append.mp (within_append.mp hd).2
    exact ⟨t, t₁, t₂, ht, type?_of_elaborate hl hd₁, type?_of_elaborate hr hd₂,
      operates_iff.mpr ho⟩
  | access tag none name =>
    obtain ⟨v, hv, rfl, rfl⟩ := elaborate_variable_ok_iff.mp h
    exact ⟨v, (within_ofBound.mp hd).2, Chain.name_of_findVariable hv, ht⟩
  | access tag (some receiver) name =>
    obtain ⟨owner, d₁, v, _, hv, rfl, rfl⟩ := elaborate_field_ok_iff.mp h
    exact ⟨v, (within_ofBound.mp (within_append.mp hd).1).2, Chain.name_of_findVariable hv, ht⟩
  | call tag none name arguments =>
    obtain ⟨ts, d₁, f, ha, hf, hp, rfl, rfl⟩ := elaborate_function_ok_iff.mp h
    obtain ⟨hd, hd₁⟩ := within_append.mp hd
    obtain ⟨hn, hl⟩ := Chain.key_of_findFunction hf
    exact ⟨f, (within_ofBound.mp hd).2, hn, Int.ofNat.inj hl, ht,
      assignable_of_forall₂ (types_of_elaborateAll ha hd₁) hp⟩
  | call tag (some receiver) name arguments =>
    obtain ⟨ts, d₁, owner, d₂, f, ha, _, hf, hp, rfl, rfl⟩ := elaborate_method_ok_iff.mp h
    obtain ⟨hd, hd₁⟩ := within_append.mp hd
    obtain ⟨hn, hl⟩ := Chain.key_of_findFunction hf
    refine ⟨f, (within_ofBound.mp hd).2, hn, Int.ofNat.inj hl, ht, ?_⟩
    have := assignable_of_forall₂ (types_of_elaborateAll ha (within_append.mp hd₁).2) hp
    simpa only [List.getElem?_tail] using this

end Expr

/-- What elaboration writes about a node agrees with the node. -/
theorem Node.agrees_of_elaborated {node : Node NodeId} (h : node.Elaborated I r) :
    node.Agrees r := by
  match node, h with
  | .expr e, ⟨env, b, t, d, _, he, hd⟩ => exact Expr.agrees_of_elaborate he hd
  | .field f, ⟨env, b, d, b', _, h, hd⟩ =>
    obtain ⟨t, found, d₁, _, _, _, _, rfl⟩ := Field.elaborate_ok_iff.mp h
    exact ⟨_, within_ofBinding.mp (within_append.mp hd).1, rfl⟩
  | .method m, ⟨env, b, d, b', _, h, hd⟩ =>
    obtain ⟨f, d₁, b₂, hf, _, _, _, rfl⟩ := Method.elaborate_ok_iff.mp h
    obtain ⟨_, ps, t, _, _, rfl⟩ := Method.signature_ok_iff.mp hf
    exact ⟨_, within_ofBinding.mp (within_append.mp hd).2, rfl⟩
  | .source s, _ => trivial
  | .stmt s, ⟨env, b, set, d, b', _, h, hd⟩ =>
    cases s with
    | declaration tag name typeName value =>
      obtain ⟨found, d₁, t, _, _, _, _, rfl⟩ := Stmt.elaborate_declaration_ok_iff.mp h
      exact ⟨_, within_ofBinding.mp (within_append.mp hd).1, rfl⟩
    | assignment tag receiver value =>
      obtain ⟨_, v, d₁, t, d₂, hr, hv, hc, ha, _, rfl⟩ := Stmt.elaborate_assignment_ok_iff.mp h
      obtain ⟨hd₂, hd₁⟩ := within_append.mp hd
      exact ⟨v, t, Expr.binding?_of_elaborateTarget hr hd₁, hc, Expr.type?_of_elaborate hv hd₂,
        assignable_iff.mpr ha⟩
    | ifElse tag condition thenBody elseBody =>
      obtain ⟨_, _, _, d₁, d₂, b₂, d₃, b₃, hc, _, _, rfl⟩ := Stmt.elaborate_ifElse_ok_iff.mp h
      exact Expr.type?_of_elaborate hc (within_append.mp (within_append.mp hd).2).2
    | forLoop tag initialization condition increment body =>
      obtain ⟨_, _, control, d₁, b₁, d₂, d₃, d₄, b₄, _, hc, _, _, rfl⟩ :=
        Stmt.elaborate_forLoop_ok_iff.mp h
      have hd₂ := (within_append.mp (within_append.mp hd).2).2
      exact Expr.type?_of_elaborate hc (within_append.mp hd₂).1
    | whileLoop tag condition body =>
      obtain ⟨_, _, d₁, d₂, b₂, hc, _, rfl⟩ := Stmt.elaborate_whileLoop_ok_iff.mp h
      exact Expr.type?_of_elaborate hc (within_append.mp hd).2
    | expression tag e => trivial
    | ret tag value => trivial

/-! ### Tables of analyses -/

/-- Being somewhere is kept by everything. -/
theorem Env.Invariant.trivial : Env.Invariant fun _ _ ↦ True :=
  ⟨fun _ ↦ .intro, fun _ _ ↦ .intro, fun _ _ ↦ .intro, fun _ _ _ ↦ ⟨.intro, .intro⟩⟩

/-- Every node of a tree that is analysed with success has been elaborated, in a place where any
invariant holds that holds at the top. -/
theorem Symbols.elaborated_of_analyze {s : Symbols} {parent : Option ScopeId} {tree : Node NodeId}
    (hn : (ids tree.nodes).Nodup) (hr : (s.analyze parent tree).result = .ok r)
    (hinv : Env.Invariant I) (hI : I (s.top parent) s.topBlock) :
    ∀ node ∈ tree.nodes, node.Elaborated I r := by
  have hw := (covers_of_analyze hn hr).within hn
  obtain ⟨b, he⟩ := (analyze_ok_iff_elaborate hn).mp hr
  exact Node.elaborated_of_elaborate hinv hI he hw

/-- The table of a successful analysis agrees with every node of the tree. If the types are those of
a configuration and nothing else is visible, then the function that a call with a receiver is bound
to takes the receiver's type as its first parameter; scopes may have been made since the types were.

The scopes with the members of the types in the catalog are meant to exist before the analysis opens
its own, as they do in every store that the program makes (`Symbols.Allocated`). -/
theorem Symbols.analyze_ok_agrees {α : Type} (s : Symbols) (parent : Option ScopeId)
    (tree : Node α) (n : NodeId) (r : Resolutions)
    (hr : (s.analyze parent (tree.label n)).result = .ok r) :
    (∀ node ∈ (tree.label n).nodes, node.Agrees r) ∧
    ∀ c declared, Config.symbols c = .ok declared → s.catalog = declared.catalog →
      declared.scopes.latestFirst <:+ s.scopes.latestFirst → parent = none →
      ∀ tag receiver name arguments,
        .expr (.call tag (some receiver) name arguments) ∈ (tree.label n).nodes →
        ∃ f owner, r.binding? tag = some (.function f) ∧ r.type? receiver.tag = some owner ∧
          f.parameters.head? = some owner := by
  have hn := Node.nodup_ids_label n tree
  constructor
  · intro node hm
    exact Node.agrees_of_elaborated
      (elaborated_of_analyze hn hr Env.Invariant.trivial .intro node hm)
  · rintro c declared hc hcatalog hscopes rfl tag receiver name arguments hm
    have htop : (s.top none).Closed s.topBlock :=
      (Config.declared_of_symbols hc).closed hcatalog hscopes (List.forall_mem_nil _)
    exact Expr.head_of_elaborated
      (elaborated_of_analyze hn hr Env.Closed.invariant htop _ hm)

/-- A project that declares points, which can be scaled by a whole number. -/
def pointProject : Config :=
  { Config.default with types := [⟨"Point", [], [], [⟨"scale", ["Integer"], some "Decimal"⟩]⟩] }

/-- A program that scales a point. -/
def scalingProgram : Node Unit :=
  .source ⟨(), [⟨(), "p", "Point", false, none⟩],
    [⟨(), "main", [], [], some "Integer",
      [.declaration () "d" none (some (.call () (some (.access () none "p")) "scale"
          [.literal () (.integer 2)])),
        .ret () (.literal () (.integer 0))]⟩]⟩

/-- A call of a method in a program that scales a point is bound to a function of points. -/
theorem scalingProgram_agrees :
    ∃ s r, pointProject.symbols = .ok s ∧
      (s.analyze none (scalingProgram.label 0)).result = .ok r ∧
      (∀ node ∈ (scalingProgram.label 0).nodes, node.Agrees r) ∧
      ∃ f owner, r.binding? 4 = some (.function f) ∧ r.type? 5 = some owner ∧
        f.parameters.head? = some owner := by
  have hs : (pointProject.symbols.toOption.map fun s ↦
      (s.analyze none (scalingProgram.label 0)).result.isOk) = some true := by decide +kernel
  cases hc : pointProject.symbols with
  | error e =>
    rw [hc] at hs
    cases hs
  | ok s =>
    rw [hc] at hs
    obtain ⟨r, hr⟩ := exists_of_isOk (Option.some.inj hs)
    obtain ⟨ha, hf⟩ := Symbols.analyze_ok_agrees s none scalingProgram 0 r hr
    have hcall : (scalingProgram.label 0).nodes[4]? =
        some (.expr (.call 4 (some (.access 5 none "p")) "scale" [.literal 6 (.integer 2)])) := rfl
    exact ⟨s, r, rfl, hr, ha, hf pointProject s hc rfl List.suffix_rfl rfl _ _ _ _
      (List.mem_of_getElem? hcall)⟩

end TreeCheck
