import TreeCheck.Proofs.Nodes
import TreeCheck.Proofs.Success

/-!
# What is written for a tree

If elaboration succeeds then it writes one type for every expression of the tree, one binding for
every access, call, declaration, field and method, and nothing else. The entries are the nodes'
identities in some order: `Covers` compares the two lists up to order, so that it also counts them.
-/

namespace TreeCheck

/-- The entries of a table are about exactly the nodes of a list that have a type or a binding, each
entry about one of them. -/
structure Resolutions.Covers (d : Resolutions) (nodes : List (Node NodeId)) : Prop where
  types : (d.types.map Prod.fst).Perm (ids (nodes.filter Node.hasType))
  bindings : (d.bindings.map Prod.fst).Perm (ids (nodes.filter Node.hasBinding))

namespace Resolutions.Covers

variable {d d₁ d₂ : Resolutions} {node : Node NodeId} {nodes nodes₁ nodes₂ : List (Node NodeId)}

/-- An empty table covers no nodes. -/
theorem empty : Covers .empty [] := ⟨.nil, .nil⟩

/-- Entries in the order of the nodes. -/
theorem join (h₁ : d₁.Covers nodes₁) (h₂ : d₂.Covers nodes₂) :
    (d₁ ++ d₂).Covers (nodes₁ ++ nodes₂) := by
  constructor
  · rw [types_append, List.map_append, List.filter_append, ids_append]
    exact h₁.types.append h₂.types
  · rw [bindings_append, List.map_append, List.filter_append, ids_append]
    exact h₁.bindings.append h₂.bindings

/-- Entries in the order in which they are written: the latest first. -/
theorem append (h₁ : d₁.Covers nodes₁) (h₂ : d₂.Covers nodes₂) :
    (d₂ ++ d₁).Covers (nodes₁ ++ nodes₂) := by
  have h := h₂.join h₁
  constructor
  · refine h.types.trans ?_
    rw [List.filter_append, List.filter_append, ids_append, ids_append]
    exact List.perm_append_comm
  · refine h.bindings.trans ?_
    rw [List.filter_append, List.filter_append, ids_append, ids_append]
    exact List.perm_append_comm

/-- A node without entries. -/
theorem skip (h : d.Covers nodes) (ht : node.hasType = false) (hb : node.hasBinding = false) :
    d.Covers (node :: nodes) := by
  constructor
  · rw [List.filter_cons_of_neg (by simp [ht])]
    exact h.types
  · rw [List.filter_cons_of_neg (by simp [hb])]
    exact h.bindings

/-- A type covers a node that has a type only. -/
theorem ofType (node : Node NodeId) (t : Ty) (ht : node.hasType = true)
    (hb : node.hasBinding = false) :
    (Resolutions.ofType node.tag t).Covers [node] := by
  constructor
  · rw [List.filter_cons_of_pos ht]
    exact .refl _
  · rw [List.filter_cons_of_neg (by simp [hb])]
    exact .refl _

/-- A binding covers a node that has a binding only. -/
theorem ofBinding (node : Node NodeId) (b : Binding) (ht : node.hasType = false)
    (hb : node.hasBinding = true) :
    (Resolutions.ofBinding node.tag b).Covers [node] := by
  constructor
  · rw [List.filter_cons_of_neg (by simp [ht])]
    exact .refl _
  · rw [List.filter_cons_of_pos hb]
    exact .refl _

/-- A type and a binding cover a node that has both. -/
theorem ofBound (node : Node NodeId) (b : Binding) (t : Ty) (ht : node.hasType = true)
    (hb : node.hasBinding = true) :
    (Resolutions.ofBound node.tag b t).Covers [node] := by
  constructor
  · rw [List.filter_cons_of_pos ht]
    exact .refl _
  · rw [List.filter_cons_of_pos hb]
    exact .refl _

end Resolutions.Covers

open Resolutions (Covers)

/-! ### Expressions -/

namespace Expr

variable {scopes : Scopes} {chain : Chain}

mutual

/-- What is written for an expression covers its nodes. -/
theorem covers_of_elaborate {e : Expr NodeId} {t : Ty} {d : Resolutions}
    (h : e.elaborate scopes chain = .ok (t, d)) : d.Covers e.nodes := by
  match e with
  | literal tag value =>
    obtain ⟨_, rfl⟩ := elaborate_literal_ok_iff.mp h
    exact Covers.ofType (.expr (literal tag value)) t rfl rfl
  | group tag inner =>
    obtain ⟨_, d₁, hi, rfl⟩ := elaborate_group_ok_iff.mp h
    exact (Covers.ofType (.expr (group tag inner)) t rfl rfl).join (covers_of_elaborate hi)
  | binary tag operator left right =>
    obtain ⟨t₁, d₁, t₂, d₂, hl, hr, _, rfl⟩ := elaborate_binary_ok_iff.mp h
    exact (Covers.ofType (.expr (binary tag operator left right)) t rfl rfl).join
      ((covers_of_elaborate hl).append (covers_of_elaborate hr))
  | access tag none name =>
    obtain ⟨v, _, _, rfl⟩ := elaborate_variable_ok_iff.mp h
    exact Covers.ofBound (.expr (access tag none name)) _ _ rfl rfl
  | access tag (some receiver) name =>
    obtain ⟨owner, d₁, v, hr, _, _, rfl⟩ := elaborate_field_ok_iff.mp h
    exact (Covers.ofBound (.expr (access tag (some receiver) name)) _ _ rfl rfl).join
      (covers_of_elaborate hr)
  | call tag none name arguments =>
    obtain ⟨ts, d₁, f, ha, _, _, _, rfl⟩ := elaborate_function_ok_iff.mp h
    exact (Covers.ofBound (.expr (call tag none name arguments)) _ _ rfl rfl).join
      (covers_of_elaborateAll ha)
  | call tag (some receiver) name arguments =>
    obtain ⟨ts, d₁, owner, d₂, f, ha, hr, _, _, _, rfl⟩ := elaborate_method_ok_iff.mp h
    exact (Covers.ofBound (.expr (call tag (some receiver) name arguments)) _ _ rfl rfl).join
      ((covers_of_elaborate hr).join (covers_of_elaborateAll ha))

/-- What is written for expressions covers their nodes. -/
theorem covers_of_elaborateAll {es : List (Expr NodeId)} {ts : List Ty} {d : Resolutions}
    (h : elaborateAll scopes chain es = .ok (ts, d)) : d.Covers (nodesAll es) := by
  match es with
  | [] =>
    obtain ⟨_, rfl⟩ := elaborateAll_nil_ok_iff.mp h
    exact Covers.empty
  | e :: es =>
    obtain ⟨t, d₁, ts', d₂, he, hes, _, rfl⟩ := elaborateAll_cons_ok_iff.mp h
    exact (covers_of_elaborate he).append (covers_of_elaborateAll hes)

end

/-- What is written for the target of an assignment covers its nodes. -/
theorem covers_of_elaborateTarget {e : Expr NodeId} {v : Variable} {d : Resolutions}
    (h : e.elaborateTarget scopes chain = .ok (v, d)) : d.Covers e.nodes :=
  covers_of_elaborate (elaborate_ok_of_target h)

end Expr

/-- What is written for an expression that may be absent covers its nodes. -/
theorem Env.covers_of_elaborateOption {env : Env} {e : Option (Expr NodeId)} {t : Option Ty}
    {d : Resolutions} {b b' : Block} (h : env.elaborateOption e b = .ok (t, d) b') :
    d.Covers (Expr.nodesOption e) := by
  cases e with
  | none =>
    obtain ⟨_, rfl, _⟩ := elaborateOption_none_ok_iff.mp h
    exact Covers.empty
  | some e =>
    obtain ⟨t₁, he, _, _⟩ := elaborateOption_some_ok_iff.mp h
    exact Expr.covers_of_elaborate he

/-! ### Statements -/

namespace Stmt

mutual

/-- What is written for a statement covers its nodes. -/
theorem covers_of_elaborate {env : Env} {s : Stmt NodeId} {set : Option Ty} {d : Resolutions}
    {b b' : Block} (h : s.elaborate env b = .ok (set, d) b') : d.Covers s.nodes := by
  match s with
  | expression tag e =>
    obtain ⟨_, _, _, t, he⟩ := elaborate_expression_ok_iff.mp h
    exact (Expr.covers_of_elaborate he).skip rfl rfl
  | declaration tag name typeName value =>
    obtain ⟨found, d₁, t, hv, _, _, _, rfl⟩ := elaborate_declaration_ok_iff.mp h
    exact (Covers.ofBinding (.stmt (declaration tag name typeName value)) _ rfl rfl).join
      (Env.covers_of_elaborateOption hv)
  | assignment tag receiver value =>
    obtain ⟨_, v, d₁, t, d₂, hr, hv, _, _, _, rfl⟩ := elaborate_assignment_ok_iff.mp h
    exact ((Expr.covers_of_elaborateTarget hr).append (Expr.covers_of_elaborate hv)).skip rfl rfl
  | ifElse tag condition thenBody elseBody =>
    obtain ⟨_, _, _, d₁, d₂, b₂, d₃, b₃, hc, h₂, h₃, rfl⟩ := elaborate_ifElse_ok_iff.mp h
    exact (((Expr.covers_of_elaborate hc).append (covers_of_elaborateAll h₂)).append
      (covers_of_elaborateAll h₃)).skip rfl rfl
  | forLoop tag initialization condition increment body =>
    obtain ⟨_, _, control, d₁, b₁, d₂, d₃, d₄, b₄, h₁, hc, h₃, h₄, rfl⟩ :=
      elaborate_forLoop_ok_iff.mp h
    exact ((((covers_of_elaborateFirst h₁).append (Expr.covers_of_elaborate hc)).append
      (covers_of_elaborateStep h₃)).append (covers_of_elaborateAll h₄)).skip rfl rfl
  | whileLoop tag condition body =>
    obtain ⟨_, _, d₁, d₂, b₂, hc, h₂, rfl⟩ := elaborate_whileLoop_ok_iff.mp h
    exact ((Expr.covers_of_elaborate hc).append (covers_of_elaborateAll h₂)).skip rfl rfl
  | ret tag value =>
    obtain ⟨_, _, t, wanted, hv, _, _⟩ := elaborate_ret_ok_iff.mp h
    exact (Expr.covers_of_elaborate hv).skip rfl rfl

/-- What is written for the initialization of a for loop covers its nodes. -/
theorem covers_of_elaborateFirst {env : Env} {s : Option (Stmt NodeId)} {control : Option Ty}
    {d : Resolutions} {b b' : Block} (h : elaborateFirst env s b = .ok (control, d) b') :
    d.Covers (nodesOption s) := by
  match s with
  | none =>
    obtain ⟨_, rfl, _⟩ := elaborateFirst_none_ok_iff.mp h
    exact Covers.empty
  | some first => exact covers_of_elaborate (elaborateFirst_some_ok_iff.mp h).1

/-- What is written for the increment of a for loop covers its nodes. -/
theorem covers_of_elaborateStep {env : Env} {s : Option (Stmt NodeId)} {control : Option Ty}
    {d : Resolutions} {b b' : Block} (h : elaborateStep env control s b = .ok d b') :
    d.Covers (nodesOption s) := by
  match s with
  | none =>
    obtain ⟨rfl, _⟩ := elaborateStep_none_ok_iff.mp h
    exact Covers.empty
  | some step =>
    obtain ⟨set, hs, _⟩ := elaborateStep_some_ok_iff.mp h
    exact covers_of_elaborate hs

/-- What is written for statements covers their nodes. -/
theorem covers_of_elaborateAll {env : Env} {ss : List (Stmt NodeId)} {d : Resolutions}
    {b b' : Block} (h : elaborateAll env ss b = .ok d b') : d.Covers (nodesAll ss) := by
  match ss with
  | [] =>
    obtain ⟨rfl, _⟩ := elaborateAll_nil_ok_iff.mp h
    exact Covers.empty
  | s :: ss =>
    obtain ⟨set, d₁, b₁, d₂, hs, hss, rfl⟩ := elaborateAll_cons_ok_iff.mp h
    exact (covers_of_elaborate hs).append (covers_of_elaborateAll hss)

end

end Stmt

/-! ### Fields, methods and sources -/

section Trees

variable {env : Env} {b b' : Block} {r : Resolutions}

/-- Elaborating a field covers its nodes. -/
theorem Field.covers_of_elaborate {d : Field NodeId} (h : d.elaborate env b = .ok r b') :
    r.Covers d.nodes := by
  obtain ⟨t, found, d₁, _, hv, _, _, rfl⟩ := elaborate_ok_iff.mp h
  exact (Covers.ofBinding (.field d) _ rfl rfl).join (Env.covers_of_elaborateOption hv)

/-- Elaborating fields covers their nodes. -/
theorem Field.covers_of_elaborateAll {ds : List (Field NodeId)}
    (h : elaborateAll env ds b = .ok r b') : r.Covers (ds.flatMap nodes) := by
  induction ds generalizing b r with
  | nil =>
    obtain ⟨rfl, _⟩ := elaborateAll_nil_ok_iff.mp h
    exact Covers.empty
  | cons d ds ih =>
    obtain ⟨d₁, b₁, d₂, hd, hds, rfl⟩ := elaborateAll_cons_ok_iff.mp h
    exact (covers_of_elaborate hd).append (ih hds)

/-- Elaborating a method covers its nodes. -/
theorem Method.covers_of_elaborate {m : Method NodeId} (h : m.elaborate env b = .ok r b') :
    r.Covers m.nodes := by
  obtain ⟨f, d₁, b₂, _, _, _, hs, rfl⟩ := elaborate_ok_iff.mp h
  exact (Covers.ofBinding (.method m) _ rfl rfl).append (Stmt.covers_of_elaborateAll hs)

/-- Elaborating methods covers their nodes. -/
theorem Method.covers_of_elaborateAll {ms : List (Method NodeId)}
    (h : elaborateAll env ms b = .ok r b') : r.Covers (ms.flatMap nodes) := by
  induction ms generalizing b r with
  | nil =>
    obtain ⟨rfl, _⟩ := elaborateAll_nil_ok_iff.mp h
    exact Covers.empty
  | cons m ms ih =>
    obtain ⟨d₁, b₁, d₂, hm, hms, rfl⟩ := elaborateAll_cons_ok_iff.mp h
    exact (covers_of_elaborate hm).append (ih hms)

/-- What is written for a tree covers its nodes. -/
theorem Node.covers_of_elaborate {tree : Node NodeId} (h : tree.elaborate env b = .ok r b') :
    r.Covers tree.nodes := by
  cases tree with
  | source s =>
    obtain ⟨d₁, b₁, d₂, hf, hm, _, rfl⟩ := Source.elaborate_ok_iff.mp h
    exact ((Field.covers_of_elaborateAll hf).append (Method.covers_of_elaborateAll hm)).skip rfl rfl
  | field d => exact Field.covers_of_elaborate h
  | method m => exact Method.covers_of_elaborate h
  | stmt s =>
    obtain ⟨set, hs⟩ := elaborate_stmt_ok_iff.mp h
    exact Stmt.covers_of_elaborate hs
  | expr e =>
    obtain ⟨t, he, _⟩ := elaborate_expr_ok_iff.mp h
    exact Expr.covers_of_elaborate he

end Trees

end TreeCheck
