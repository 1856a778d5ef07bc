import TreeCheck.Proofs.Places
import TreeCheck.Proofs.Table

/-!
# Every node is elaborated

Where elaboration of a tree succeeds, every node of the tree has been elaborated somewhere, with
success, and what was written for it is part of the whole. A fact about where elaboration is, and
about the lexical place of the node, that definitions and new blocks keep therefore holds wherever a
node is elaborated. With this the induction over trees is made once: what remains to be shown of a
node follows from the elaboration of that node.
-/

namespace TreeCheck

open Resolutions (within_append)

/-- A fact about the frames around a statement, where it is elaborated and its block, that holds in
new blocks and after declarations. -/
structure Stmt.Invariant (r : Resolutions) (I : Frames NodeId → Env → Block → Prop) : Prop where
  nested : ∀ {frames : Frames NodeId} {env : Env} {b : Block}, I frames env b →
    I ([] :: frames) (env.inside b) .empty
  declaration : ∀ {frame : Frame NodeId} {outer : Frames NodeId} {env : Env} {b b' : Block}
    {tag : NodeId} {name : Text} {typeName : Option Text} {value : Option (Expr NodeId)}
    {set : Option Ty} {d : Resolutions}, I (frame :: outer) env b →
    (declaration tag name typeName value).elaborate env b = .ok (set, d) b' → d.Within r →
    I ((frame ++ [(name, tag)]) :: outer) env b'

/-- A node has been elaborated where `I` holds, and what was written is part of `r`. -/
def Node.Elaborated (I : Env → Block → Prop) (r : Resolutions) : Node NodeId → Prop
  | .expr e => ∃ env b t d, I env b ∧
    e.elaborate env.scopes (b :: env.outer) = .ok (t, d) ∧ d.Within r
  | .stmt s => ∃ env b set d b', I env b ∧ s.elaborate env b = .ok (set, d) b' ∧ d.Within r
  | .field d => ∃ env b e b', I env b ∧ d.elaborate env b = .ok e b' ∧ e.Within r
  | .method m => ∃ env b d b', I env b ∧ m.elaborate env b = .ok d b' ∧ d.Within r
  | .source s => ∃ env b d b', I env b ∧ s.elaborate env b = .ok d b' ∧ d.Within r

variable {I : Env → Block → Prop} {r : Resolutions}

/-! ### Expressions -/

namespace Expr

variable {env : Env} {b : Block}

mutual

/-- Every part of an expression is elaborated where the expression is. -/
theorem elaborated_of_elaborate {e : Expr NodeId} {t : Ty} {d : Resolutions} (hI : I env b)
    (h : e.elaborate env.scopes (b :: env.outer) = .ok (t, d)) (hd : d.Within r) :
    ∀ node ∈ e.nodes, node.Elaborated I r := by
  have hroot : (Node.expr e).Elaborated I r := ⟨env, b, t, d, hI, h, hd⟩
  match e with
  | literal tag value =>
    rw [nodes, List.forall_mem_singleton]
    exact hroot
  | group tag inner =>
    obtain ⟨_, d₁, hi, rfl⟩ := elaborate_group_ok_iff.mp h
    rw [nodes, List.forall_mem_cons]
    exact ⟨hroot, elaborated_of_elaborate hI hi (within_append.mp hd).2⟩
  | binary tag operator left right =>
    obtain ⟨t₁, d₁, t₂, d₂, hl, hr, _, rfl⟩ := elaborate_binary_ok_iff.mp h
    obtain ⟨_, hd⟩ := within_append.mp hd
    obtain ⟨hd₂, hd₁⟩ := within_append.mp hd
    rw [nodes, List.forall_mem_cons, List.forall_mem_append]
    exact ⟨hroot, elaborated_of_elaborate hI hl hd₁, elaborated_of_elaborate hI hr hd₂⟩
  | access tag none name =>
    rw [nodes, List.forall_mem_singleton]
    exact hroot
  | access tag (some receiver) name =>
    obtain ⟨owner, d₁, v, hr, _, _, rfl⟩ := elaborate_field_ok_iff.mp h
    rw [nodes, List.forall_mem_cons]
    exact ⟨hroot, elaborated_of_elaborate hI hr (within_append.mp hd).2⟩
  | call tag none name arguments =>
    obtain ⟨ts, d₁, f, ha, _, _, _, rfl⟩ := elaborate_function_ok_iff.mp h
    rw [nodes, List.forall_mem_cons]
    exact ⟨hroot, elaborated_of_elaborateAll hI ha (within_append.mp hd).2⟩
  | call tag (some receiver) name arguments =>
    obtain ⟨ts, d₁, owner, d₂, f, ha, hr, _, _, _, rfl⟩ := elaborate_method_ok_iff.mp h
    obtain ⟨_, hd⟩ := within_append.mp hd
    obtain ⟨hd₂, hd₁⟩ := within_append.mp hd
    rw [nodes, List.forall_mem_cons, List.forall_mem_append]
    exact ⟨hroot, elaborated_of_elaborate hI hr hd₂, elaborated_of_elaborateAll hI ha hd₁⟩

private theorem elaborated_of_elaborateAll {es : List (Expr NodeId)} {ts : List Ty}
    {d : Resolutions} (hI : I env b) (h : elaborateAll env.scopes (b :: env.outer) es = .ok (ts, d))
    (hd : d.Within r) : ∀ node ∈ nodesAll es, node.Elaborated I r := by
  match es with
  | [] => exact List.forall_mem_nil _
  | e :: es =>
    obtain ⟨t, d₁, ts', d₂, he, hes, _, rfl⟩ := elaborateAll_cons_ok_iff.mp h
    obtain ⟨hd₂, hd₁⟩ := within_append.mp hd
    rw [nodesAll, List.forall_mem_append]
    exact ⟨elaborated_of_elaborate hI he hd₁, elaborated_of_elaborateAll hI hes hd₂⟩

end

end Expr

private theorem Env.elaborated_of_elaborateOption {env : Env} {e : Option (Expr NodeId)}
    {t : Option Ty} {d : Resolutions} {b b' : Block} (hI : I env b)
    (h : env.elaborateOption e b = .ok (t, d) b') (hd : d.Within r) :
    ∀ node ∈ Expr.nodesOption e, node.Elaborated I r := by
  cases e with
  | none => exact List.forall_mem_nil _
  | some e =>
    obtain ⟨t₁, he, _, _⟩ := elaborateOption_some_ok_iff.mp h
    exact Expr.elaborated_of_elaborate hI he hd

/-! ### Statements -/

namespace Stmt

variable {I : Frames NodeId → Env → Block → Prop}

private theorem forall_mem_places {env : Env} {b : Block} {e : Expr NodeId} {t : Ty}
    {d : Resolutions} {frames : Frames NodeId} (hI : I frames env b)
    (h : e.elaborate env.scopes (b :: env.outer) = .ok (t, d)) (hd : d.Within r) :
    ∀ p ∈ e.places frames, p.2.Elaborated (I p.1) r :=
  List.forall_mem_map.mpr (Expr.elaborated_of_elaborate hI h hd)

mutual

/-- Every part of a statement is elaborated where the invariant holds of its place, and it holds
after the statement. -/
theorem elaborated_of_elaborate {env : Env} {s : Stmt NodeId} {set : Option Ty} {d : Resolutions}
    {b b' : Block} {frame : Frame NodeId} {outer : Frames NodeId} (hinv : Invariant r I)
    (hI : I (frame :: outer) env b) (h : s.elaborate env b = .ok (set, d) b') (hd : d.Within r) :
    I ((frame ++ s.declares) :: outer) env b' ∧
      ∀ p ∈ s.places frame outer, p.2.Elaborated (I p.1) r := by
  have hroot : (Node.stmt s).Elaborated (I (frame :: outer)) r := ⟨env, b, set, d, b', hI, h, hd⟩
  match s with
  | expression tag e =>
    obtain ⟨_, _, rfl, t, he⟩ := elaborate_expression_ok_iff.mp h
    rw [places, List.forall_mem_cons, declares, List.append_nil]
    exact ⟨hI, hroot, forall_mem_places hI he hd⟩
  | declaration tag name typeName value =>
    have hI' := hinv.declaration hI h hd
    obtain ⟨found, d₁, t, hv, _, _, _, rfl⟩ := elaborate_declaration_ok_iff.mp h
    have hvalue := Env.elaborated_of_elaborateOption hI hv (within_append.mp hd).2
    rw [places, List.forall_mem_cons]
    exact ⟨hI', hroot, List.forall_mem_map.mpr hvalue⟩
  | assignment tag receiver value =>
    obtain ⟨rfl, v, d₁, t, d₂, hr, hv, _, _, _, rfl⟩ := elaborate_assignment_ok_iff.mp h
    obtain ⟨hd₂, hd₁⟩ := within_append.mp hd
    rw [places, List.forall_mem_cons, List.forall_mem_append, declares, List.append_nil]
    exact ⟨hI, hroot, forall_mem_places hI (Expr.elaborate_ok_of_target hr) hd₁,
      forall_mem_places hI hv hd₂⟩
  | ifElse tag condition thenBody elseBody =>
    obtain ⟨_, _, rfl, d₁, d₂, b₂, d₃, b₃, hc, h₂, h₃, rfl⟩ := elaborate_ifElse_ok_iff.mp h
    obtain ⟨hd₃, hd⟩ := within_append.mp hd
    obtain ⟨hd₂, hd₁⟩ := within_append.mp hd
    rw [places, List.forall_mem_cons, List.forall_mem_append, List.forall_mem_append, declares,
      List.append_nil]
    exact ⟨hI, hroot, ⟨forall_mem_places hI hc hd₁,
      elaborated_of_elaborateAll hinv (hinv.nested hI) h₂ hd₂⟩,
      elaborated_of_elaborateAll hinv (hinv.nested hI) h₃ hd₃⟩
  | forLoop tag initialization condition increment body =>
    obtain ⟨_, _, control, d₁, b₁, d₂, d₃, d₄, b₄, h₁, hc, h₃, h₄, rfl⟩ :=
      elaborate_forLoop_ok_iff.mp h
    obtain ⟨hd₄, hd⟩ := within_append.mp hd
    obtain ⟨hd₃, hd⟩ := within_append.mp hd
    obtain ⟨hd₂, hd₁⟩ := within_append.mp hd
    obtain ⟨hI₁, hn₁⟩ := elaborated_of_elaborateFirst hinv hI h₁ hd₁
    obtain ⟨hI₃, hn₃⟩ := elaborated_of_elaborateStep hinv hI₁ h₃ hd₃
    rw [places, List.forall_mem_cons, List.forall_mem_append, List.forall_mem_append,
      List.forall_mem_append, declares, ← List.append_assoc]
    exact ⟨hI₃, hroot, ⟨⟨hn₁, forall_mem_places hI₁ hc hd₂⟩, hn₃⟩,
      elaborated_of_elaborateAll hinv (hinv.nested hI₃) h₄ hd₄⟩
  | whileLoop tag condition body =>
    obtain ⟨_, rfl, d₁, d₂, b₂, hc, h₂, rfl⟩ := elaborate_whileLoop_ok_iff.mp h
    obtain ⟨hd₂, hd₁⟩ := within_append.mp hd
    rw [places, List.forall_mem_cons, List.forall_mem_append, declares, List.append_nil]
    exact ⟨hI, hroot, forall_mem_places hI hc hd₁,
      elaborated_of_elaborateAll hinv (hinv.nested hI) h₂ hd₂⟩
  | ret tag value =>
    obtain ⟨_, rfl, t, wanted, hv, _, _⟩ := elaborate_ret_ok_iff.mp h
    rw [places, List.forall_mem_cons, declares, List.append_nil]
    exact ⟨hI, hroot, forall_mem_places hI hv hd⟩

private theorem elaborated_of_elaborateFirst {env : Env} {s : Option (Stmt NodeId)}
    {control : Option Ty}
    {d : Resolutions} {b b' : Block} {frame : Frame NodeId} {outer : Frames NodeId}
    (hinv : Invariant r I) (hI : I (frame :: outer) env b)
    (h : elaborateFirst env s b = .ok (control, d) b') (hd : d.Within r) :
    I ((frame ++ declaresOption s) :: outer) env b' ∧
      ∀ p ∈ placesOption frame outer s, p.2.Elaborated (I p.1) r := by
  match s with
  | none =>
    obtain ⟨_, _, rfl⟩ := elaborateFirst_none_ok_iff.mp h
    rw [declaresOption, List.append_nil]
    exact ⟨hI, List.forall_mem_nil _⟩
  | some first => exact elaborated_of_elaborate hinv hI (elaborateFirst_some_ok_iff.mp h).1 hd

private theorem elaborated_of_elaborateStep {env : Env} {s : Option (Stmt NodeId)}
    {control : Option Ty}
    {d : Resolutions} {b b' : Block} {frame : Frame NodeId} {outer : Frames NodeId}
    (hinv : Invariant r I) (hI : I (frame :: outer) env b)
    (h : elaborateStep env control s b = .ok d b') (hd : d.Within r) :
    I ((frame ++ declaresOption s) :: outer) env b' ∧
      ∀ p ∈ placesOption frame outer s, p.2.Elaborated (I p.1) r := by
  match s with
  | none =>
    obtain ⟨_, rfl⟩ := elaborateStep_none_ok_iff.mp h
    rw [declaresOption, List.append_nil]
    exact ⟨hI, List.forall_mem_nil _⟩
  | some step =>
    obtain ⟨set, hs, _⟩ := elaborateStep_some_ok_iff.mp h
    exact elaborated_of_elaborate hinv hI hs hd

/-- Every node of statements that are elaborated is elaborated where the invariant holds. -/
theorem elaborated_of_elaborateAll {env : Env} {ss : List (Stmt NodeId)} {d : Resolutions}
    {b b' : Block} {frame : Frame NodeId} {outer : Frames NodeId} (hinv : Invariant r I)
    (hI : I (frame :: outer) env b) (h : elaborateAll env ss b = .ok d b') (hd : d.Within r) :
    ∀ p ∈ placesAll frame outer ss, p.2.Elaborated (I p.1) r := by
  match ss with
  | [] => exact List.forall_mem_nil _
  | s :: ss =>
    obtain ⟨set, d₁, b₁, d₂, hs, hss, rfl⟩ := elaborateAll_cons_ok_iff.mp h
    obtain ⟨hd₂, hd₁⟩ := within_append.mp hd
    obtain ⟨hI₁, hn₁⟩ := elaborated_of_elaborate hinv hI hs hd₁
    rw [placesAll, List.forall_mem_append]
    exact ⟨hn₁, elaborated_of_elaborateAll hinv hI₁ hss hd₂⟩

end

end Stmt

/-! ### Fields, methods and sources -/

/-- A fact about where elaboration is and about its block that holds in new blocks and after
definitions. -/
structure Env.Invariant (I : Env → Block → Prop) : Prop where
  nested : ∀ {env : Env} {b : Block}, I env b → I (env.inside b) .empty
  declaration : ∀ {env : Env} {b b' : Block} {tag : NodeId} {name : Text} {typeName : Option Text}
    {value : Option (Expr NodeId)} {set : Option Ty} {d : Resolutions}, I env b →
    (Stmt.declaration tag name typeName value).elaborate env b = .ok (set, d) b' → I env b'
  field : ∀ {env : Env} {b b' : Block} {d : Field NodeId} {r : Resolutions}, I env b →
    d.elaborate env b = .ok r b' → I env b'
  method : ∀ {env : Env} {b b' : Block} {m : Method NodeId} {f : Function}, I env b →
    m.signature env.catalog = .ok f → b.defineFunction f = .ok b' → I env b' ∧
      I (env.inMethod b' f) ⟨parameterVariables m.tag 0 (m.parameters.zip f.parameters), []⟩

section Trees

variable {env : Env} {b b' : Block} {d : Resolutions}

private theorem Env.Invariant.ofStmt (h : Env.Invariant I) : Stmt.Invariant r fun _ ↦ I :=
  ⟨fun hI ↦ h.nested hI, fun hI hs _ ↦ h.declaration hI hs⟩

private theorem Stmt.forall_mem_nodesAll {ss : List (Stmt NodeId)} {frame : Frame NodeId}
    {outer : Frames NodeId} (h : ∀ p ∈ placesAll frame outer ss, p.2.Elaborated I r) :
    ∀ node ∈ nodesAll ss, node.Elaborated I r := by
  rw [← nodes_placesAll frame outer ss]
  exact List.forall_mem_map.mpr h

private theorem Field.elaborated_of_elaborate {field : Field NodeId} (hinv : Env.Invariant I)
    (hI : I env b) (h : field.elaborate env b = .ok d b') (hd : d.Within r) :
    I env b' ∧ ∀ node ∈ field.nodes, node.Elaborated I r := by
  have hI' := hinv.field hI h
  have hroot : (Node.field field).Elaborated I r := ⟨env, b, d, b', hI, h, hd⟩
  obtain ⟨t, found, d₁, _, hv, _, _, rfl⟩ := elaborate_ok_iff.mp h
  rw [nodes, List.forall_mem_cons]
  exact ⟨hI', hroot, Env.elaborated_of_elaborateOption hI hv (within_append.mp hd).2⟩

private theorem Field.elaborated_of_elaborateAll {fields : List (Field NodeId)}
    (hinv : Env.Invariant I)
    (hI : I env b) (h : elaborateAll env fields b = .ok d b') (hd : d.Within r) :
    I env b' ∧ ∀ node ∈ fields.flatMap nodes, node.Elaborated I r := by
  induction fields generalizing b d with
  | nil =>
    obtain ⟨_, rfl⟩ := elaborateAll_nil_ok_iff.mp h
    exact ⟨hI, List.forall_mem_nil _⟩
  | cons field fields ih =>
    obtain ⟨d₁, b₁, d₂, h₁, h₂, rfl⟩ := elaborateAll_cons_ok_iff.mp h
    obtain ⟨hd₂, hd₁⟩ := within_append.mp hd
    obtain ⟨hI₁, hn₁⟩ := elaborated_of_elaborate hinv hI h₁ hd₁
    obtain ⟨hI₂, hn₂⟩ := ih hI₁ h₂ hd₂
    rw [List.flatMap_cons, List.forall_mem_append]
    exact ⟨hI₂, hn₁, hn₂⟩

private theorem Method.elaborated_of_elaborate {m : Method NodeId} (hinv : Env.Invariant I)
    (hI : I env b) (h : m.elaborate env b = .ok d b') (hd : d.Within r) :
    I env b' ∧ ∀ node ∈ m.nodes, node.Elaborated I r := by
  have hroot : (Node.method m).Elaborated I r := ⟨env, b, d, b', hI, h, hd⟩
  obtain ⟨f, d₁, b₂, hf, hb, _, hs, rfl⟩ := elaborate_ok_iff.mp h
  obtain ⟨hI', hbody⟩ := hinv.method hI hf hb
  rw [nodes, List.forall_mem_cons]
  have hplaces := @Stmt.elaborated_of_elaborateAll _ (fun _ ↦ I) _ _ _ _ _ [] [] hinv.ofStmt hbody
    hs (within_append.mp hd).1
  exact ⟨hI', hroot, Stmt.forall_mem_nodesAll hplaces⟩

private theorem Method.elaborated_of_elaborateAll {ms : List (Method NodeId)}
    (hinv : Env.Invariant I)
    (hI : I env b) (h : elaborateAll env ms b = .ok d b') (hd : d.Within r) :
    I env b' ∧ ∀ node ∈ ms.flatMap nodes, node.Elaborated I r := by
  induction ms generalizing b d with
  | nil =>
    obtain ⟨_, rfl⟩ := elaborateAll_nil_ok_iff.mp h
    exact ⟨hI, List.forall_mem_nil _⟩
  | cons m ms ih =>
    obtain ⟨d₁, b₁, d₂, h₁, h₂, rfl⟩ := elaborateAll_cons_ok_iff.mp h
    obtain ⟨hd₂, hd₁⟩ := within_append.mp hd
    obtain ⟨hI₁, hn₁⟩ := elaborated_of_elaborate hinv hI h₁ hd₁
    obtain ⟨hI₂, hn₂⟩ := ih hI₁ h₂ hd₂
    rw [List.flatMap_cons, List.forall_mem_append]
    exact ⟨hI₂, hn₁, hn₂⟩

/-- Every node of a tree is elaborated in a place where the invariant holds. -/
theorem Node.elaborated_of_elaborate {tree : Node NodeId} (hinv : Env.Invariant I) (hI : I env b)
    (h : tree.elaborate env b = .ok d b') (hd : d.Within r) :
    ∀ node ∈ tree.nodes, node.Elaborated I r := by
  cases tree with
  | source s =>
    have hroot : (Node.source s).Elaborated I r := ⟨env, b, d, b', hI, h, hd⟩
    obtain ⟨d₁, b₁, d₂, hf, hm, _, rfl⟩ := Source.elaborate_ok_iff.mp h
    obtain ⟨hd₂, hd₁⟩ := within_append.mp hd
    obtain ⟨hI₁, hn₁⟩ := Field.elaborated_of_elaborateAll hinv hI hf hd₁
    rw [nodes, Source.nodes, List.forall_mem_cons, List.forall_mem_append]
    exact ⟨hroot, hn₁, (Method.elaborated_of_elaborateAll hinv hI₁ hm hd₂).2⟩
  | field f => exact (Field.elaborated_of_elaborate hinv hI h hd).2
  | method m => exact (Method.elaborated_of_elaborate hinv hI h hd).2
  | stmt s =>
    obtain ⟨set, hs⟩ := elaborate_stmt_ok_iff.mp h
    have hplaces := (@Stmt.elaborated_of_elaborate _ (fun _ ↦ I) _ _ _ _ _ _ [] [] hinv.ofStmt hI
      hs hd).2
    rw [nodes, ← Stmt.nodes_places [] [] s]
    exact List.forall_mem_map.mpr hplaces
  | expr e =>
    obtain ⟨t, he, _⟩ := elaborate_expr_ok_iff.mp h
    exact Expr.elaborated_of_elaborate hI he hd

end Trees

end TreeCheck
