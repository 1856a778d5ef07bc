import TreeCheck.Proofs.Simulation

/-!
# Whole runs

An analysis starts in a new block that defines `print`, inside the blocks that the parent scope
sees. On a tree whose nodes are distinct it ends as elaboration does, so it never misuses the table,
and after a success the table has exactly the entries that the nodes of the tree call for.
-/

namespace TreeCheck

/-- The blocks that are visible in a scope, or in none. -/
def Scopes.around (s : Scopes) : Option ScopeId → Chain
  | none => []
  | some parent => s.chain parent

namespace Symbols

variable {s : Symbols} {parent : Option ScopeId} {tree : Node NodeId} {r : Resolutions}

/-- The place of a tree that is analysed inside a scope, or inside none. -/
def top (s : Symbols) (parent : Option ScopeId) : Env :=
  ⟨(s.openScope parent).1.scopes, s.catalog, s.scopes.around parent, none⟩

/-- The block in which an analysis starts. -/
def topBlock (s : Symbols) : Block := ⟨[], [printFunction s.scopes.size]⟩

/-- What an analysis leaves that ends with a block. -/
def finish (s : Symbols) (parent : Option ScopeId) (b : Block)
    (result : Except Failure Resolutions) : Analysis :=
  ⟨{ (s.openScope parent).1 with
      scopes := (s.openScope parent).1.scopes.setBlock s.scopes.size b },
    s.scopes.size, result⟩

/-- Opening an analysis adds a scope with its top block. -/
theorem scopes_openScope (s : Symbols) (parent : Option ScopeId) :
    (s.openScope parent).1.scopes = ⟨⟨parent, s.topBlock⟩ :: s.scopes.latestFirst⟩ := by
  simp [openScope, createScope, Scopes.create, Scopes.setBlock, Scopes.replace, Scopes.size,
    topBlock]

/-- The scope of an analysis sees the top block and what is visible in the scope around it. -/
theorem chain_openScope (s : Symbols) (parent : Option ScopeId) :
    (s.openScope parent).1.scopes.chain s.scopes.size = s.topBlock :: s.scopes.around parent := by
  rw [scopes_openScope]
  cases parent <;> simp [Scopes.chain, Scopes.chainFrom, Scopes.size, Scopes.around]

/-- An analysis checks the tree in the top block and leaves the block as it is then. -/
theorem analyze_eq_check (s : Symbols) (parent : Option ScopeId) (tree : Node NodeId) :
    s.analyze parent tree =
      match tree.check (s.top parent) ⟨s.topBlock, .empty⟩ with
      | .ok _ state => s.finish parent state.block (.ok state.resolutions)
      | .error failure state => s.finish parent state.block (.error failure) := by
  have hb : (s.openScope parent).1.scopes.block s.scopes.size = s.topBlock := by
    rw [scopes_openScope]
    simp [Scopes.block, Scopes.find?, Scopes.size]
  have hc : ((s.openScope parent).1.scopes.chain s.scopes.size).tail = s.scopes.around parent := by
    rw [chain_openScope]
    rfl
  change (s.openScope parent).1.checkIn s.scopes.size tree = _
  unfold checkIn top
  rw [hb, hc]
  rfl

/-- The blocks that are visible to a tree when its analysis starts. -/
def topChain (s : Symbols) (parent : Option ScopeId) : Chain :=
  s.topBlock :: s.scopes.around parent

/-- An analysis of an expression finds its type and leaves the top block as it is. -/
theorem analyze_expr_eq (s : Symbols) (parent : Option ScopeId) (e : Expr NodeId) :
    s.analyze parent (.expr e) =
      match e.infer (s.top parent).scopes (s.topChain parent) .empty with
      | .ok _ r => s.finish parent s.topBlock (.ok r)
      | .error failure _ => s.finish parent s.topBlock (.error failure) := by
  have hcheck : (Node.expr e).check (s.top parent) ⟨s.topBlock, .empty⟩ =
      (withResolutions (e.infer (s.top parent).scopes (s.topChain parent)) >>= fun _ ↦ pure ())
        ⟨s.topBlock, .empty⟩ := rfl
  rw [analyze_eq_check, hcheck]
  cases hi : e.infer (s.top parent).scopes (s.topChain parent) .empty with
  | ok t r =>
    have hw : withResolutions (e.infer (s.top parent).scopes (s.topChain parent))
        ⟨s.topBlock, .empty⟩ = .ok t ⟨s.topBlock, r⟩ := by simp [withResolutions, hi]
    rw [run_bind_of_ok hw]
    rfl
  | error failure r =>
    have hw : withResolutions (e.infer (s.top parent).scopes (s.topChain parent))
        ⟨s.topBlock, .empty⟩ = .error failure ⟨s.topBlock, r⟩ := by simp [withResolutions, hi]
    rw [run_bind_of_error hw]

/-- On a tree whose nodes are distinct an analysis ends as elaboration does. -/
theorem analyze_eq_elaborate (h : (ids tree.nodes).Nodup) :
    s.analyze parent tree =
      match tree.elaborate (s.top parent) s.topBlock with
      | .ok r b => s.finish parent b (.ok r)
      | .error e b => s.finish parent b (.error (.error e)) := by
  have ht := @Node.check_tracks (s.top parent) s.topBlock _ tree (Resolutions.ready_empty h)
  cases he : tree.elaborate (s.top parent) s.topBlock with
  | error e b =>
    rw [he] at ht
    obtain ⟨r, hx⟩ := ht
    rw [analyze_eq_check, hx]
  | ok d b =>
    rw [he] at ht
    obtain ⟨_, _, hx, rfl⟩ := ht
    rw [analyze_eq_check, hx, Resolutions.append_empty]

/-- The table of a successful analysis is what elaboration writes. -/
theorem analyze_ok_iff_elaborate (h : (ids tree.nodes).Nodup) :
    (s.analyze parent tree).result = .ok r ↔
      ∃ b, tree.elaborate (s.top parent) s.topBlock = .ok r b := by
  rw [analyze_eq_elaborate h]
  cases tree.elaborate (s.top parent) s.topBlock <;> simp [finish]

/-- An analysis ends with a table or with an error of the program. -/
theorem analyze_ok_or_error (h : (ids tree.nodes).Nodup) :
    (∃ r, (s.analyze parent tree).result = .ok r) ∨
      ∃ e, (s.analyze parent tree).result = .error (.error e) := by
  rw [analyze_eq_elaborate h]
  cases tree.elaborate (s.top parent) s.topBlock <;> simp [finish]

/-- The table of a successful analysis covers the nodes of the tree. -/
theorem covers_of_analyze (h : (ids tree.nodes).Nodup)
    (hr : (s.analyze parent tree).result = .ok r) : r.Covers tree.nodes := by
  obtain ⟨b, he⟩ := (analyze_ok_iff_elaborate h).mp hr
  exact Node.covers_of_elaborate he

/-- An analysis of distinct nodes never misuses the table. If it succeeds, then the expressions are
exactly the nodes with a type, the accesses, calls, fields, methods and declarations are exactly the
nodes with a binding, and there is nothing else in the table.

The scopes with the members of the types in the catalog are meant to exist before the analysis opens
its own, as they do in every store that the program makes (`Symbols.Allocated`). -/
theorem analyze_fills_table {α : Type} (s : Symbols) (parent : Option ScopeId) (tree : Node α)
    (n : NodeId) :
    ((∃ r, (s.analyze parent (tree.label n)).result = .ok r) ∨
      ∃ e, (s.analyze parent (tree.label n)).result = .error (.error e)) ∧
    ∀ r, (s.analyze parent (tree.label n)).result = .ok r →
      (∀ id, (r.type? id).isSome ↔
        ∃ node ∈ (tree.label n).nodes, node.hasType = true ∧ node.tag = id) ∧
      (∀ id, (r.binding? id).isSome ↔
        ∃ node ∈ (tree.label n).nodes, node.hasBinding = true ∧ node.tag = id) ∧
      r.size = (tree.label n).nodes.countP Node.hasType +
        (tree.label n).nodes.countP Node.hasBinding := by
  have h := Node.nodup_ids_label n tree
  refine ⟨analyze_ok_or_error h, fun r hr ↦ ?_⟩
  have hc := covers_of_analyze h hr
  exact ⟨fun _ ↦ hc.type?_isSome_iff, fun _ ↦ hc.binding?_isSome_iff, hc.size_eq⟩

end Symbols

/-- A program that adds up numbers. Its loop variable belongs to the block around the loop, and a
branch hides a variable of the method. -/
def summing : Source Unit :=
  ⟨(), [⟨(), "limit", "Integer", true, some (.literal () (.integer 3))⟩],
    [⟨(), "main", [], [], some "Integer",
      [.declaration () "x" none (some (.literal () (.integer 0))),
        .forLoop () (some (.declaration () "i" none (some (.literal () (.integer 0)))))
          (.binary () "<" (.access () none "i") (.access () none "limit"))
          (some (.assignment () (.access () none "i")
            (.binary () "+" (.access () none "i") (.literal () (.integer 1)))))
          [.assignment () (.access () none "x")
            (.binary () "+" (.access () none "x") (.access () none "i"))],
        .ifElse () (.binary () ">" (.access () none "x") (.literal () (.integer 1)))
          [.declaration () "x" (some "String") none,
            .expression () (.call () none "print" [.access () none "x"])] [],
        .ret () (.access () none "x")]⟩]⟩

/-- An outcome that is a success has a result. -/
theorem exists_of_isOk {ε α : Type} {x : Except ε α} (h : x.isOk = true) : ∃ a, x = .ok a := by
  cases x with
  | ok a => exact ⟨a, rfl⟩
  | error e => cases h

/-- The table of a program that adds up numbers has 36 entries, for its nodes only. -/
theorem summing_fills_table :
    ∃ r, (Symbols.initial.analyze none ((Node.source summing).label 0)).result = .ok r ∧
      r.size = 36 ∧
      (∀ id, (r.binding? id).isSome ↔
        ∃ node ∈ ((Node.source summing).label 0).nodes,
          node.hasBinding = true ∧ node.tag = id) := by
  have hs : (Symbols.initial.analyze none ((Node.source summing).label 0)).result.isOk = true := by
    decide +kernel
  obtain ⟨r, hr⟩ := exists_of_isOk hs
  obtain ⟨_, hb, hn⟩ := (Symbols.analyze_fills_table .initial none (.source summing) 0).2 r hr
  exact ⟨r, hr, hn.trans (by decide +kernel), hb⟩

end TreeCheck
