import TreeCheck.Proofs.Nodes

/-!
# Lexical places

The place of a node inside a method or a statement is what has been declared when it is reached: for
each block around it, the innermost first, the declarations of that block that are complete by then.
The branches of an if statement and the bodies of loops are blocks of their own. The initialization
and the increment of a for loop belong to the block that the loop stands in; the order is
initialization, condition, increment, body. A declaration is complete after its value, which does
not see it.
-/

namespace TreeCheck

variable {α : Type}

/-- The complete declarations of a block: their names and nodes. -/
abbrev Frame (α : Type) := List (Text × α)

/-- What has been declared in each of the blocks around a node, the innermost first. -/
abbrev Frames (α : Type) := List (Frame α)

/-- The nodes of an expression with their places: an expression declares nothing. -/
def Expr.places (frames : Frames α) (e : Expr α) : List (Frames α × Node α) :=
  e.nodes.map fun node ↦ (frames, node)

/-- The nodes of an expression that may be absent with their places. -/
def Expr.placesOption (frames : Frames α) (e : Option (Expr α)) : List (Frames α × Node α) :=
  (nodesOption e).map fun node ↦ (frames, node)

namespace Stmt

mutual

/-- What a statement declares in the block that it stands in. -/
def declares : Stmt α → Frame α
  | declaration tag name _ _ => [(name, tag)]
  | forLoop _ initialization _ increment _ =>
    declaresOption initialization ++ declaresOption increment
  | expression _ _ => []
  | assignment _ _ _ => []
  | ifElse _ _ _ _ => []
  | whileLoop _ _ _ => []
  | ret _ _ => []

/-- What a statement that may be absent declares in the block that it stands in. -/
def declaresOption : Option (Stmt α) → Frame α
  | none => []
  | some s => s.declares

end

mutual

/-- The nodes of a statement with their places, if `frame` has been declared before it in the block
that it stands in. -/
def places (frame : Frame α) (outer : Frames α) : Stmt α → List (Frames α × Node α)
  | expression tag e =>
    (frame :: outer, .stmt (expression tag e)) :: e.places (frame :: outer)
  | declaration tag name typeName value =>
    (frame :: outer, .stmt (declaration tag name typeName value)) ::
      Expr.placesOption (frame :: outer) value
  | assignment tag receiver value =>
    (frame :: outer, .stmt (assignment tag receiver value)) ::
      (receiver.places (frame :: outer) ++ value.places (frame :: outer))
  | ifElse tag condition thenBody elseBody =>
    (frame :: outer, .stmt (ifElse tag condition thenBody elseBody)) ::
      (condition.places (frame :: outer) ++ placesAll [] (frame :: outer) thenBody ++
        placesAll [] (frame :: outer) elseBody)
  | forLoop tag initialization condition increment body =>
    (frame :: outer, .stmt (forLoop tag initialization condition increment body)) ::
      (placesOption frame outer initialization ++
        condition.places ((frame ++ declaresOption initialization) :: outer) ++
        placesOption (frame ++ declaresOption initialization) outer increment ++
        placesAll []
          ((frame ++ declaresOption initialization ++ declaresOption increment) :: outer) body)
  | whileLoop tag condition body =>
    (frame :: outer, .stmt (whileLoop tag condition body)) ::
      (condition.places (frame :: outer) ++ placesAll [] (frame :: outer) body)
  | ret tag value => (frame :: outer, .stmt (ret tag value)) :: value.places (frame :: outer)

/-- The nodes of a list of statements with their places. -/
def placesAll (frame : Frame α) (outer : Frames α) : List (Stmt α) → List (Frames α × Node α)
  | [] => []
  | s :: ss => s.places frame outer ++ placesAll (frame ++ s.declares) outer ss

/-- The nodes of a statement that may be absent with their places. -/
def placesOption (frame : Frame α) (outer : Frames α) : Option (Stmt α) → List (Frames α × Node α)
  | none => []
  | some s => s.places frame outer

end

end Stmt

/-- The nodes inside a method with their places. -/
def Method.places (m : Method α) : List (Frames α × Node α) := Stmt.placesAll [] [] m.body

/-! ### Every node has one place -/

/-- The places of an expression are those of its nodes. -/
@[simp] theorem Expr.nodes_places (frames : Frames α) (e : Expr α) :
    (e.places frames).map Prod.snd = e.nodes := by
  simp [places, Function.comp_def]

/-- The places of an expression that may be absent are those of its nodes. -/
@[simp] theorem Expr.nodes_placesOption (frames : Frames α) (e : Option (Expr α)) :
    (placesOption frames e).map Prod.snd = nodesOption e := by
  simp [placesOption, Function.comp_def]

namespace Stmt

mutual

/-- The places of a statement are those of its nodes. -/
theorem nodes_places (frame : Frame α) (outer : Frames α) (s : Stmt α) :
    (s.places frame outer).map Prod.snd = s.nodes := by
  match s with
  | expression tag e => simp [places, nodes]
  | declaration tag name typeName value => simp [places, nodes]
  | assignment tag receiver value => simp [places, nodes]
  | ifElse tag condition thenBody elseBody => simp [places, nodes, nodes_placesAll]
  | forLoop tag initialization condition increment body =>
    simp [places, nodes, nodes_placesAll, nodes_placesOption]
  | whileLoop tag condition body => simp [places, nodes, nodes_placesAll]
  | ret tag value => simp [places, nodes]

/-- The places of statements are those of their nodes. -/
theorem nodes_placesAll (frame : Frame α) (outer : Frames α) (ss : List (Stmt α)) :
    (placesAll frame outer ss).map Prod.snd = nodesAll ss := by
  match ss with
  | [] => rfl
  | s :: ss => simp [placesAll, nodesAll, nodes_places, nodes_placesAll]

private theorem nodes_placesOption (frame : Frame α) (outer : Frames α) (s : Option (Stmt α)) :
    (placesOption frame outer s).map Prod.snd = nodesOption s := by
  match s with
  | none => rfl
  | some s => simp [placesOption, nodesOption, nodes_places]

end

end Stmt

/-- The places of a method are those of the nodes below it. -/
theorem Method.nodes_places (m : Method α) : m.nodes = .method m :: m.places.map Prod.snd := by
  rw [places, Stmt.nodes_placesAll, nodes]

/-! ### Frames hold declarations -/

/-- Everything that the frames hold is a declaration among the nodes. -/
def DeclaredIn (nodes : List (Node α)) (frames : Frames α) : Prop :=
  ∀ frame ∈ frames, ∀ q ∈ frame, ∃ typeName value,
    .stmt (.declaration q.2 q.1 typeName value) ∈ nodes

section DeclaredIn

variable {nodes : List (Node α)} {frame frame' : Frame α} {outer : Frames α}

private theorem DeclaredIn.nested (h : DeclaredIn nodes outer) : DeclaredIn nodes ([] :: outer) :=
  List.forall_mem_cons.mpr ⟨List.forall_mem_nil _, h⟩

private theorem DeclaredIn.extend (h : DeclaredIn nodes (frame :: outer))
    (h' : DeclaredIn nodes [frame']) : DeclaredIn nodes ((frame ++ frame') :: outer) := by
  obtain ⟨hframe, houter⟩ := List.forall_mem_cons.mp h
  have hframe' := List.forall_mem_singleton.mp h'
  exact List.forall_mem_cons.mpr ⟨List.forall_mem_append.mpr ⟨hframe, hframe'⟩, houter⟩

private theorem DeclaredIn.empty : DeclaredIn nodes [[]] :=
  List.forall_mem_singleton.mpr (List.forall_mem_nil _)

namespace Stmt

mutual

/-- A statement only declares what is declared in it. -/
theorem declaredIn_declares {s : Stmt α} (hs : ∀ node ∈ s.nodes, node ∈ nodes) :
    DeclaredIn nodes [s.declares] := by
  match s with
  | declaration tag name typeName value =>
    rw [Stmt.nodes, List.forall_mem_cons] at hs
    exact List.forall_mem_singleton.mpr (List.forall_mem_singleton.mpr ⟨typeName, value, hs.1⟩)
  | forLoop tag initialization condition increment body =>
    rw [Stmt.nodes, List.forall_mem_cons] at hs
    simp only [List.forall_mem_append] at hs
    exact (declaredIn_declaresOption hs.2.1.1.1).extend (declaredIn_declaresOption hs.2.1.2)
  | expression tag e => exact .empty
  | assignment tag receiver value => exact .empty
  | ifElse tag condition thenBody elseBody => exact .empty
  | whileLoop tag condition body => exact .empty
  | ret tag value => exact .empty

private theorem declaredIn_declaresOption {s : Option (Stmt α)}
    (hs : ∀ node ∈ nodesOption s, node ∈ nodes) : DeclaredIn nodes [declaresOption s] := by
  match s with
  | none => exact .empty
  | some s => exact declaredIn_declares hs

end

private theorem declaredIn_exprPlaces {e : Expr α} {frames : Frames α}
    (h : DeclaredIn nodes frames) :
    ∀ p ∈ e.places frames, DeclaredIn nodes p.1 :=
  List.forall_mem_map.mpr fun _ _ ↦ h

mutual

private theorem declaredIn_places {s : Stmt α} {frame : Frame α} {outer : Frames α}
    (hs : ∀ node ∈ s.nodes, node ∈ nodes) (h : DeclaredIn nodes (frame :: outer)) :
    ∀ p ∈ s.places frame outer, DeclaredIn nodes p.1 := by
  match s with
  | expression tag e =>
    rw [places, List.forall_mem_cons]
    exact ⟨h, declaredIn_exprPlaces h⟩
  | declaration tag name typeName value =>
    rw [places, List.forall_mem_cons]
    exact ⟨h, List.forall_mem_map.mpr fun _ _ ↦ h⟩
  | assignment tag receiver value =>
    rw [places, List.forall_mem_cons, List.forall_mem_append]
    exact ⟨h, declaredIn_exprPlaces h, declaredIn_exprPlaces h⟩
  | ifElse tag condition thenBody elseBody =>
    rw [Stmt.nodes, List.forall_mem_cons] at hs
    simp only [List.forall_mem_append] at hs
    rw [places, List.forall_mem_cons, List.forall_mem_append, List.forall_mem_append]
    exact ⟨h, ⟨declaredIn_exprPlaces h, declaredIn_placesAll hs.2.1.2 h.nested⟩,
      declaredIn_placesAll hs.2.2 h.nested⟩
  | forLoop tag initialization condition increment body =>
    rw [Stmt.nodes, List.forall_mem_cons] at hs
    simp only [List.forall_mem_append] at hs
    obtain ⟨_, ⟨⟨hi, _⟩, hs⟩, hb⟩ := hs
    have h₁ := h.extend (declaredIn_declaresOption hi)
    have h₂ := h₁.extend (declaredIn_declaresOption hs)
    rw [places, List.forall_mem_cons, List.forall_mem_append, List.forall_mem_append,
      List.forall_mem_append]
    exact ⟨h, ⟨⟨declaredIn_placesOption hi h, declaredIn_exprPlaces h₁⟩,
      declaredIn_placesOption hs h₁⟩, declaredIn_placesAll hb h₂.nested⟩
  | whileLoop tag condition body =>
    rw [Stmt.nodes, List.forall_mem_cons, List.forall_mem_append] at hs
    rw [places, List.forall_mem_cons, List.forall_mem_append]
    exact ⟨h, declaredIn_exprPlaces h, declaredIn_placesAll hs.2.2 h.nested⟩
  | ret tag value =>
    rw [places, List.forall_mem_cons]
    exact ⟨h, declaredIn_exprPlaces h⟩

private theorem declaredIn_placesAll {ss : List (Stmt α)} {frame : Frame α} {outer : Frames α}
    (hs : ∀ node ∈ nodesAll ss, node ∈ nodes) (h : DeclaredIn nodes (frame :: outer)) :
    ∀ p ∈ placesAll frame outer ss, DeclaredIn nodes p.1 := by
  match ss with
  | [] => exact List.forall_mem_nil _
  | s :: ss =>
    rw [nodesAll, List.forall_mem_append] at hs
    rw [placesAll, List.forall_mem_append]
    exact ⟨declaredIn_places hs.1 h,
      declaredIn_placesAll hs.2 (h.extend (declaredIn_declares hs.1))⟩

private theorem declaredIn_placesOption {s : Option (Stmt α)} {frame : Frame α} {outer : Frames α}
    (hs : ∀ node ∈ nodesOption s, node ∈ nodes) (h : DeclaredIn nodes (frame :: outer)) :
    ∀ p ∈ placesOption frame outer s, DeclaredIn nodes p.1 := by
  match s with
  | none => exact List.forall_mem_nil _
  | some s => exact declaredIn_places hs h

end

end Stmt

end DeclaredIn

/-- The frames at a place inside a method hold declarations of the method. -/
theorem Method.declaredIn_places (m : Method α) : ∀ p ∈ m.places, DeclaredIn m.nodes p.1 :=
  Stmt.declaredIn_placesAll (fun _ hn ↦ List.mem_cons_of_mem _ hn) .empty

end TreeCheck
