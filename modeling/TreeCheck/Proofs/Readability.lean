import TreeCheck.Proofs.Lines
import TreeCheck.Proofs.Nodes

/-!
# A tree can be read back from its outline

An outline without notes determines the tree. Two nodes with the same lines have the same kind and
the same parts, and the parts below are compared by induction over the tree. The text of an outline
determines its lines, since no line holds the end of one.
-/

namespace TreeCheck

/-! ### Expressions -/

namespace Expr

/-- The lines of an expression without notes. -/
def lines (depth : Nat) (e : Expr Unit) : List Entry := e.outline (fun _ ↦ .none) depth

/-- The parts of an expression, each on lines of its own. -/
def parts (depth : Nat) : Expr Unit → List (List Entry)
  | literal _ value => (value.outline depth).map fun x ↦ [x]
  | group _ inner => [nodesPart depth "expr" (inner.lines (depth + 1))]
  | binary _ operator left right =>
    [namePart depth "op" operator, nodesPart depth "left" (left.lines (depth + 1)),
     nodesPart depth "right" (right.lines (depth + 1))]
  | access _ receiver name =>
    optionalPart (nodesPart depth "receiver") (receiver.map (lines (depth + 1))) ++
      [namePart depth "name" name]
  | call _ receiver name arguments =>
    optionalPart (nodesPart depth "receiver") (receiver.map (lines (depth + 1))) ++
      [namePart depth "name" name,
       outlineList depth "args" (arguments.map (lines (depth + 1))).flatten]

private theorem outlineAll_eq (depth : Nat) (es : List (Expr Unit)) :
    outlineAll (fun _ ↦ .none) depth es = (es.map (lines depth)).flatten := by
  induction es with
  | nil => rfl
  | cons e es ih => rw [outlineAll, ih, List.map_cons, List.flatten_cons, lines]

/-- The lines of an expression are its kind and its parts. -/
theorem lines_eq (depth : Nat) (e : Expr Unit) :
    e.lines depth = .node depth e.kind :: (e.parts (depth + 1)).flatten := by
  unfold lines
  cases e with
  | literal tag value => simp [outline, parts, kind, flatten_map_singleton]
  | group tag inner => simp [outline, parts, kind, lines, nodesPart]
  | binary tag operator left right => simp [outline, parts, kind, lines, nodesPart, namePart]
  | access tag receiver name =>
    cases receiver <;> simp [outline, parts, kind, lines, optionalPart, nodesPart, namePart]
  | call tag receiver name arguments =>
    cases receiver <;>
      simp [outline, parts, kind, lines, optionalPart, nodesPart, namePart, outlineAll_eq]

private theorem isBlock_lines_of_parts {depth : Nat} {e : Expr Unit}
    (h : ∀ b ∈ e.parts (depth + 1), IsBlock (depth + 1) b) : IsBlock depth (e.lines depth) := by
  rw [lines_eq]
  exact .above (.node depth e.kind) rfl trivial _ h

mutual

private theorem isBlock_of_mem_parts (depth : Nat) (e : Expr Unit) :
    ∀ b ∈ e.parts depth, IsBlock depth b := by
  intro b hb
  cases e with
  | literal tag value =>
    obtain ⟨x, hx, rfl⟩ := List.mem_map.mp hb
    exact Literal.isBlock_outline hx
  | group tag inner =>
    have hinner := isBlock_lines_of_parts (isBlock_of_mem_parts (depth + 2) inner)
    cases List.mem_singleton.mp hb
    exact isBlock_nodesPart (by decide) hinner
  | binary tag operator left right =>
    have hleft := isBlock_lines_of_parts (isBlock_of_mem_parts (depth + 2) left)
    have hright := isBlock_lines_of_parts (isBlock_of_mem_parts (depth + 2) right)
    simp only [parts, List.mem_cons, List.not_mem_nil, or_false] at hb
    rcases hb with rfl | rfl | rfl
    · exact isBlock_namePart (by decide) operator
    · exact isBlock_nodesPart (by decide) hleft
    · exact isBlock_nodesPart (by decide) hright
  | access tag receiver name =>
    have hreceiver := isBlock_linesOption (depth + 1) receiver
    simp only [parts, List.mem_append, List.mem_singleton] at hb
    rcases hb with hb | rfl
    · exact isBlock_of_mem_optionalPart
        (fun l hl ↦ isBlock_nodesPart (by decide) (hreceiver l hl)) b hb
    · exact isBlock_namePart (by decide) name
  | call tag receiver name arguments =>
    have hreceiver := isBlock_linesOption (depth + 1) receiver
    have harguments := isBlock_linesAll (depth + 1) arguments
    simp only [parts, List.mem_append, List.mem_cons, List.not_mem_nil, or_false] at hb
    rcases hb with hb | rfl | rfl
    · exact isBlock_of_mem_optionalPart
        (fun l hl ↦ isBlock_nodesPart (by decide) (hreceiver l hl)) b hb
    · exact isBlock_namePart (by decide) name
    · exact .outlineList (by decide) harguments

private theorem isBlock_linesOption (depth : Nat) (e : Option (Expr Unit)) :
    ∀ l ∈ e.map (lines depth), IsBlock depth l := by
  intro l hl
  cases e with
  | none => cases hl
  | some e =>
    cases hl
    exact isBlock_lines_of_parts (isBlock_of_mem_parts (depth + 1) e)

private theorem isBlock_linesAll (depth : Nat) (es : List (Expr Unit)) :
    ∀ b ∈ es.map (lines depth), IsBlock depth b := by
  intro b hb
  cases es with
  | nil => cases hb
  | cons e es =>
    cases hb with
    | head => exact isBlock_lines_of_parts (isBlock_of_mem_parts (depth + 1) e)
    | tail _ hb => exact isBlock_linesAll depth es b hb

end

private theorem isBlock_lines (depth : Nat) (e : Expr Unit) : IsBlock depth (e.lines depth) :=
  isBlock_lines_of_parts (isBlock_of_mem_parts (depth + 1) e)

/-- Expressions with the same lines have the same kind and the same parts. -/
theorem parts_eq_of_lines_eq {depth : Nat} {e e' : Expr Unit} (h : e.lines depth = e'.lines depth) :
    e.kind = e'.kind ∧ e.parts (depth + 1) = e'.parts (depth + 1) := by
  rw [lines_eq, lines_eq, List.cons.injEq] at h
  obtain ⟨hnode, hparts⟩ := h
  exact ⟨(Entry.node.inj hnode).2,
    flatten_inj_of_isBlock (isBlock_of_mem_parts _ e) (isBlock_of_mem_parts _ e') hparts⟩

mutual

/-- An expression is read back from its lines. -/
theorem lines_inj (depth : Nat) (e e' : Expr Unit) (h : e.lines depth = e'.lines depth) :
    e = e' := by
  obtain ⟨hkind, hparts⟩ := parts_eq_of_lines_eq h
  cases e with
  | literal tag value =>
    cases e' with
    | literal tag' value' =>
      have hlines := congrArg List.flatten hparts
      simp only [parts, flatten_map_singleton] at hlines
      rw [Literal.outline_injective _ hlines]
    | group | binary | access | call => cases hkind
  | group tag inner =>
    cases e' with
    | group tag' inner' =>
      simp only [parts, List.cons.injEq, and_true] at hparts
      rw [lines_inj _ inner inner' (nodesPart_injective hparts)]
    | literal | binary | access | call => cases hkind
  | binary tag operator left right =>
    cases e' with
    | binary tag' operator' left' right' =>
      simp only [parts, List.cons.injEq, and_true] at hparts
      obtain ⟨hoperator, hleft, hright⟩ := hparts
      rw [namePart_injective hoperator, lines_inj _ left left' (nodesPart_injective hleft),
        lines_inj _ right right' (nodesPart_injective hright)]
    | literal | group | access | call => cases hkind
  | access tag receiver name =>
    cases e' with
    | access tag' receiver' name' =>
      obtain ⟨hreceiver, hrest⟩ := optionalPart_append_inj nodesPart_injective hparts
        (by simp [namePart_ne_nodesPart]) (by simp [namePart_ne_nodesPart])
      simp only [List.cons.injEq, and_true] at hrest
      rw [namePart_injective hrest, lines_injOption _ receiver receiver' hreceiver]
    | literal | group | binary | call => cases hkind
  | call tag receiver name arguments =>
    cases e' with
    | call tag' receiver' name' arguments' =>
      obtain ⟨hreceiver, hrest⟩ := optionalPart_append_inj nodesPart_injective hparts
        (by simp [namePart_ne_nodesPart]) (by simp [namePart_ne_nodesPart])
      simp only [List.cons.injEq, and_true] at hrest
      obtain ⟨hname, harguments⟩ := hrest
      have harguments := flatten_inj_of_isBlock (isBlock_linesAll _ arguments)
        (isBlock_linesAll _ arguments') (outlineList_inj harguments)
      rw [namePart_injective hname, lines_injOption _ receiver receiver' hreceiver,
        lines_injAll _ arguments arguments' harguments]
    | literal | group | binary | access => cases hkind

private theorem lines_injOption (depth : Nat) (e e' : Option (Expr Unit))
    (h : e.map (lines depth) = e'.map (lines depth)) : e = e' := by
  cases e with
  | none =>
    cases e' with
    | none => rfl
    | some e' => cases h
  | some e =>
    cases e' with
    | none => cases h
    | some e' => rw [lines_inj depth e e' (Option.some.inj h)]

private theorem lines_injAll (depth : Nat) (es es' : List (Expr Unit))
    (h : es.map (lines depth) = es'.map (lines depth)) : es = es' := by
  cases es with
  | nil =>
    cases es' with
    | nil => rfl
    | cons e' es' => cases h
  | cons e es =>
    cases es' with
    | nil => cases h
    | cons e' es' =>
      obtain ⟨he, hes⟩ := List.cons.inj h
      rw [lines_inj depth e e' he, lines_injAll depth es es' hes]

end

end Expr

/-! ### Statements -/

namespace Stmt

/-- The lines of a statement without notes. -/
def lines (depth : Nat) (s : Stmt Unit) : List Entry := s.outline (fun _ ↦ .none) depth

/-- The parts of a statement, each on lines of its own. -/
def parts (depth : Nat) : Stmt Unit → List (List Entry)
  | expression _ e => [nodesPart depth "expr" (e.lines (depth + 1))]
  | declaration _ name typeName value =>
    namePart depth "name" name :: (optionalPart (namePart depth "type_name") typeName ++
      optionalPart (nodesPart depth "value") (value.map (Expr.lines (depth + 1))))
  | assignment _ receiver value =>
    [nodesPart depth "receiver" (receiver.lines (depth + 1)),
     nodesPart depth "value" (value.lines (depth + 1))]
  | ifElse _ condition thenBody elseBody =>
    [nodesPart depth "condition" (condition.lines (depth + 1)),
     outlineList depth "then_body" (thenBody.map (lines (depth + 1))).flatten,
     outlineList depth "else_body" (elseBody.map (lines (depth + 1))).flatten]
  | forLoop _ initialization condition increment body =>
    optionalPart (nodesPart depth "initialization") (initialization.map (lines (depth + 1))) ++
      nodesPart depth "condition" (condition.lines (depth + 1)) ::
      (optionalPart (nodesPart depth "increment") (increment.map (lines (depth + 1))) ++
        [outlineList depth "body" (body.map (lines (depth + 1))).flatten])
  | whileLoop _ condition body =>
    [nodesPart depth "condition" (condition.lines (depth + 1)),
     outlineList depth "body" (body.map (lines (depth + 1))).flatten]
  | ret _ value => [nodesPart depth "value" (value.lines (depth + 1))]

private theorem outlineAll_eq (depth : Nat) (ss : List (Stmt Unit)) :
    outlineAll (fun _ ↦ .none) depth ss = (ss.map (lines depth)).flatten := by
  induction ss with
  | nil => rfl
  | cons s ss ih => rw [outlineAll, ih, List.map_cons, List.flatten_cons, lines]

private theorem outlineOption_eq (depth : Nat) (part : Text) (s : Option (Stmt Unit)) :
    outlineOption (fun _ ↦ .none) depth part s =
      (optionalPart (nodesPart depth part) (s.map (lines (depth + 1)))).flatten := by
  cases s <;> simp [outlineOption, optionalPart, nodesPart, lines]

end Stmt

private theorem Expr.outlineOption_eq (depth : Nat) (part : Text) (e : Option (Expr Unit)) :
    Expr.outlineOption (fun _ ↦ .none) depth part e =
      (optionalPart (nodesPart depth part) (e.map (Expr.lines (depth + 1)))).flatten := by
  cases e <;> simp [Expr.outlineOption, optionalPart, nodesPart, Expr.lines]

private theorem outlineName_eq (depth : Nat) (part : Text) (t : Option Text) :
    outlineName depth part t = (optionalPart (namePart depth part) t).flatten := by
  cases t <;> simp [outlineName, optionalPart, namePart]

namespace Stmt

/-- The lines of a statement are its kind and its parts. -/
theorem lines_eq (depth : Nat) (s : Stmt Unit) :
    s.lines depth = .node depth s.kind :: (s.parts (depth + 1)).flatten := by
  rw [lines]
  cases s with
  | expression tag e => simp [outline, parts, kind, nodesPart, Expr.lines]
  | declaration tag name typeName value =>
    simp [outline, parts, kind, namePart, outlineName_eq, Expr.outlineOption_eq]
  | assignment tag receiver value => simp [outline, parts, kind, nodesPart, Expr.lines]
  | ifElse tag condition thenBody elseBody =>
    simp [outline, parts, kind, nodesPart, Expr.lines, outlineAll_eq]
  | forLoop tag initialization condition increment body =>
    simp [outline, parts, kind, nodesPart, Expr.lines, outlineOption_eq, outlineAll_eq]
  | whileLoop tag condition body =>
    simp [outline, parts, kind, nodesPart, Expr.lines, outlineAll_eq]
  | ret tag value => simp [outline, parts, kind, nodesPart, Expr.lines]

private theorem isBlock_lines_of_parts {depth : Nat} {s : Stmt Unit}
    (h : ∀ b ∈ s.parts (depth + 1), IsBlock (depth + 1) b) : IsBlock depth (s.lines depth) := by
  rw [lines_eq]
  exact .above (.node depth s.kind) rfl trivial _ h

mutual

private theorem isBlock_of_mem_parts (depth : Nat) (s : Stmt Unit) :
    ∀ b ∈ s.parts depth, IsBlock depth b := by
  intro b hb
  cases s with
  | expression tag e =>
    cases List.mem_singleton.mp hb
    exact isBlock_nodesPart (by decide) (e.isBlock_lines _)
  | declaration tag name typeName value =>
    simp only [parts, List.mem_cons, List.mem_append] at hb
    rcases hb with rfl | hb | hb
    · exact isBlock_namePart (by decide) name
    · exact isBlock_of_mem_optionalPart (fun t _ ↦ isBlock_namePart (by decide) t) b hb
    · exact isBlock_of_mem_optionalPart
        (fun l hl ↦ isBlock_nodesPart (by decide) (Expr.isBlock_linesOption _ value l hl)) b hb
  | assignment tag receiver value =>
    simp only [parts, List.mem_cons, List.not_mem_nil, or_false] at hb
    rcases hb with rfl | rfl
    · exact isBlock_nodesPart (by decide) (receiver.isBlock_lines _)
    · exact isBlock_nodesPart (by decide) (value.isBlock_lines _)
  | ifElse tag condition thenBody elseBody =>
    have hthen := isBlock_linesAll (depth + 1) thenBody
    have helse := isBlock_linesAll (depth + 1) elseBody
    simp only [parts, List.mem_cons, List.not_mem_nil, or_false] at hb
    rcases hb with rfl | rfl | rfl
    · exact isBlock_nodesPart (by decide) (condition.isBlock_lines _)
    · exact .outlineList (by decide) hthen
    · exact .outlineList (by decide) helse
  | forLoop tag initialization condition increment body =>
    have hinitialization := isBlock_linesOption (depth + 1) initialization
    have hincrement := isBlock_linesOption (depth + 1) increment
    have hbody := isBlock_linesAll (depth + 1) body
    simp only [parts, List.mem_cons, List.mem_append, List.not_mem_nil, or_false] at hb
    rcases hb with hb | rfl | hb | rfl
    · exact isBlock_of_mem_optionalPart
        (fun l hl ↦ isBlock_nodesPart (by decide) (hinitialization l hl)) b hb
    · exact isBlock_nodesPart (by decide) (condition.isBlock_lines _)
    · exact isBlock_of_mem_optionalPart
        (fun l hl ↦ isBlock_nodesPart (by decide) (hincrement l hl)) b hb
    · exact .outlineList (by decide) hbody
  | whileLoop tag condition body =>
    have hbody := isBlock_linesAll (depth + 1) body
    simp only [parts, List.mem_cons, List.not_mem_nil, or_false] at hb
    rcases hb with rfl | rfl
    · exact isBlock_nodesPart (by decide) (condition.isBlock_lines _)
    · exact .outlineList (by decide) hbody
  | ret tag value =>
    cases List.mem_singleton.mp hb
    exact isBlock_nodesPart (by decide) (value.isBlock_lines _)

private theorem isBlock_linesOption (depth : Nat) (s : Option (Stmt Unit)) :
    ∀ l ∈ s.map (lines depth), IsBlock depth l := by
  intro l hl
  cases s with
  | none => cases hl
  | some s =>
    cases hl
    exact isBlock_lines_of_parts (isBlock_of_mem_parts (depth + 1) s)

private theorem isBlock_linesAll (depth : Nat) (ss : List (Stmt Unit)) :
    ∀ b ∈ ss.map (lines depth), IsBlock depth b := by
  intro b hb
  cases ss with
  | nil => cases hb
  | cons s ss =>
    cases hb with
    | head => exact isBlock_lines_of_parts (isBlock_of_mem_parts (depth + 1) s)
    | tail _ hb => exact isBlock_linesAll depth ss b hb

end

/-- Statements with the same lines have the same kind and the same parts. -/
theorem parts_eq_of_lines_eq {depth : Nat} {s s' : Stmt Unit} (h : s.lines depth = s'.lines depth) :
    s.kind = s'.kind ∧ s.parts (depth + 1) = s'.parts (depth + 1) := by
  rw [lines_eq, lines_eq, List.cons.injEq] at h
  obtain ⟨hnode, hparts⟩ := h
  exact ⟨(Entry.node.inj hnode).2,
    flatten_inj_of_isBlock (isBlock_of_mem_parts _ s) (isBlock_of_mem_parts _ s') hparts⟩

mutual

/-- A statement is read back from its lines. -/
theorem lines_inj (depth : Nat) (s s' : Stmt Unit) (h : s.lines depth = s'.lines depth) :
    s = s' := by
  obtain ⟨hkind, hparts⟩ := parts_eq_of_lines_eq h
  cases s with
  | expression tag e =>
    cases s' with
    | expression tag' e' =>
      simp only [parts, List.cons.injEq, and_true] at hparts
      rw [Expr.lines_inj _ e e' (nodesPart_injective hparts)]
    | declaration | assignment | ifElse | forLoop | whileLoop | ret => cases hkind
  | declaration tag name typeName value =>
    cases s' with
    | declaration tag' name' typeName' value' =>
      simp only [parts, List.cons.injEq] at hparts
      obtain ⟨hname, hparts⟩ := hparts
      have hother (value : Option (Expr Unit)) (t : Text) :
          (optionalPart (nodesPart (depth + 1) "value")
            (value.map (Expr.lines (depth + 1 + 1)))).head? ≠
              some (namePart (depth + 1) "type_name" t) := by
        cases value <;> simp [optionalPart, namePart_ne_nodesPart.symm]
      obtain ⟨htypeName, hvalue⟩ :=
        optionalPart_append_inj namePart_injective hparts (hother value) (hother value')
      have hvalue := (optionalPart_append_inj nodesPart_injective (congrArg (· ++ []) hvalue)
        (by simp) (by simp)).1
      rw [namePart_injective hname, htypeName, Expr.lines_injOption _ value value' hvalue]
    | expression | assignment | ifElse | forLoop | whileLoop | ret => cases hkind
  | assignment tag receiver value =>
    cases s' with
    | assignment tag' receiver' value' =>
      simp only [parts, List.cons.injEq, and_true] at hparts
      obtain ⟨hreceiver, hvalue⟩ := hparts
      rw [Expr.lines_inj _ receiver receiver' (nodesPart_injective hreceiver),
        Expr.lines_inj _ value value' (nodesPart_injective hvalue)]
    | expression | declaration | ifElse | forLoop | whileLoop | ret => cases hkind
  | ifElse tag condition thenBody elseBody =>
    cases s' with
    | ifElse tag' condition' thenBody' elseBody' =>
      simp only [parts, List.cons.injEq, and_true] at hparts
      obtain ⟨hcondition, hthen, helse⟩ := hparts
      have hthen := flatten_inj_of_isBlock (isBlock_linesAll _ thenBody)
        (isBlock_linesAll _ thenBody') (outlineList_inj hthen)
      have helse := flatten_inj_of_isBlock (isBlock_linesAll _ elseBody)
        (isBlock_linesAll _ elseBody') (outlineList_inj helse)
      rw [Expr.lines_inj _ condition condition' (nodesPart_injective hcondition),
        lines_injAll _ thenBody thenBody' hthen, lines_injAll _ elseBody elseBody' helse]
    | expression | declaration | assignment | forLoop | whileLoop | ret => cases hkind
  | forLoop tag initialization condition increment body =>
    cases s' with
    | forLoop tag' initialization' condition' increment' body' =>
      obtain ⟨hinitialization, hparts⟩ := optionalPart_append_inj nodesPart_injective hparts
        (fun _ hne ↦ nodesPart_ne (by decide) (Option.some.inj hne))
        (fun _ hne ↦ nodesPart_ne (by decide) (Option.some.inj hne))
      obtain ⟨hcondition, hparts⟩ := List.cons.inj hparts
      obtain ⟨hincrement, hparts⟩ := optionalPart_append_inj nodesPart_injective hparts
        (fun _ hne ↦ outlineList_ne_nodesPart (by decide) (Option.some.inj hne))
        (fun _ hne ↦ outlineList_ne_nodesPart (by decide) (Option.some.inj hne))
      have hbody := flatten_inj_of_isBlock (isBlock_linesAll _ body) (isBlock_linesAll _ body')
        (outlineList_inj (List.cons.inj hparts).1)
      rw [lines_injOption _ initialization initialization' hinitialization,
        Expr.lines_inj _ condition condition' (nodesPart_injective hcondition),
        lines_injOption _ increment increment' hincrement, lines_injAll _ body body' hbody]
    | expression | declaration | assignment | ifElse | whileLoop | ret => cases hkind
  | whileLoop tag condition body =>
    cases s' with
    | whileLoop tag' condition' body' =>
      simp only [parts, List.cons.injEq, and_true] at hparts
      obtain ⟨hcondition, hbody⟩ := hparts
      have hbody := flatten_inj_of_isBlock (isBlock_linesAll _ body) (isBlock_linesAll _ body')
        (outlineList_inj hbody)
      rw [Expr.lines_inj _ condition condition' (nodesPart_injective hcondition),
        lines_injAll _ body body' hbody]
    | expression | declaration | assignment | ifElse | forLoop | ret => cases hkind
  | ret tag value =>
    cases s' with
    | ret tag' value' =>
      simp only [parts, List.cons.injEq, and_true] at hparts
      rw [Expr.lines_inj _ value value' (nodesPart_injective hparts)]
    | expression | declaration | assignment | ifElse | forLoop | whileLoop => cases hkind

private theorem lines_injOption (depth : Nat) (s s' : Option (Stmt Unit))
    (h : s.map (lines depth) = s'.map (lines depth)) : s = s' := by
  cases s with
  | none =>
    cases s' with
    | none => rfl
    | some s' => cases h
  | some s =>
    cases s' with
    | none => cases h
    | some s' => rw [lines_inj depth s s' (Option.some.inj h)]

private theorem lines_injAll (depth : Nat) (ss ss' : List (Stmt Unit))
    (h : ss.map (lines depth) = ss'.map (lines depth)) : ss = ss' := by
  cases ss with
  | nil =>
    cases ss' with
    | nil => rfl
    | cons s' ss' => cases h
  | cons s ss =>
    cases ss' with
    | nil => cases h
    | cons s' ss' =>
      obtain ⟨hs, hss⟩ := List.cons.inj h
      rw [lines_inj depth s s' hs, lines_injAll depth ss ss' hss]

end

end Stmt

/-! ### Declarations -/

namespace Field

/-- The lines of a field without notes. -/
def lines (depth : Nat) (f : Field Unit) : List Entry := f.outline (fun _ ↦ .none) depth

/-- The parts of a field, each on lines of its own. -/
def parts (depth : Nat) (f : Field Unit) : List (List Entry) :=
  namePart depth "name" f.name :: namePart depth "type_name" f.typeName ::
    [.item depth "constant" (Literal.boolean f.constant).display] ::
    optionalPart (nodesPart depth "value") (f.value.map (Expr.lines (depth + 1)))

private theorem lines_eq (depth : Nat) (f : Field Unit) :
    f.lines depth = .node depth .field :: (f.parts (depth + 1)).flatten := by
  simp [lines, outline, parts, namePart, Expr.outlineOption_eq]

private theorem isBlock_of_mem_parts (depth : Nat) (f : Field Unit) :
    ∀ b ∈ f.parts depth, IsBlock depth b := by
  intro b hb
  simp only [parts, List.mem_cons] at hb
  rcases hb with rfl | rfl | rfl | hb
  · exact isBlock_namePart (by decide) f.name
  · exact isBlock_namePart (by decide) f.typeName
  · exact .item (by decide) (Literal.newline_not_mem_shown (.boolean f.constant))
  · exact isBlock_of_mem_optionalPart
      (fun l hl ↦ isBlock_nodesPart (by decide) (Expr.isBlock_linesOption _ f.value l hl)) b hb

private theorem isBlock_lines (depth : Nat) (f : Field Unit) : IsBlock depth (f.lines depth) := by
  rw [lines_eq]
  exact .above (.node depth .field) rfl trivial _ (isBlock_of_mem_parts _ f)

/-- A field is read back from its lines. -/
theorem lines_inj {depth : Nat} {f f' : Field Unit} (h : f.lines depth = f'.lines depth) :
    f = f' := by
  rw [lines_eq, lines_eq, List.cons.injEq] at h
  have hparts := flatten_inj_of_isBlock (isBlock_of_mem_parts _ f) (isBlock_of_mem_parts _ f') h.2
  simp only [parts, List.cons.injEq, Entry.item.injEq, true_and, and_true] at hparts
  obtain ⟨hname, htypeName, hconstant, hvalue⟩ := hparts
  have hconstant : Literal.boolean f.constant = .boolean f'.constant :=
    Literal.shown_injective hconstant
  have hvalue := (optionalPart_append_inj nodesPart_injective (congrArg (· ++ []) hvalue)
    (by simp) (by simp)).1
  cases f
  cases f'
  cases namePart_injective hname
  cases namePart_injective htypeName
  cases hconstant
  cases Expr.lines_injOption _ _ _ hvalue
  rfl

end Field

namespace Method

/-- The lines of a method without notes. -/
def lines (depth : Nat) (m : Method Unit) : List Entry := m.outline (fun _ ↦ .none) depth

/-- The parts of a method, each on lines of its own. -/
def parts (depth : Nat) (m : Method Unit) : List (List Entry) :=
  namePart depth "name" m.name :: [.item depth "parameters" (Text.quotedList m.parameters)] ::
    [.item depth "parameter_type_names" (Text.quotedList m.parameterTypes)] ::
    (optionalPart (namePart depth "return_type_name") m.returnType ++
      [outlineList depth "body" (m.body.map (Stmt.lines (depth + 1))).flatten])

private theorem lines_eq (depth : Nat) (m : Method Unit) :
    m.lines depth = .node depth .method :: (m.parts (depth + 1)).flatten := by
  simp [lines, outline, parts, namePart, outlineName_eq, Stmt.outlineAll_eq]

private theorem isBlock_of_mem_parts (depth : Nat) (m : Method Unit) :
    ∀ b ∈ m.parts depth, IsBlock depth b := by
  intro b hb
  simp only [parts, List.mem_cons, List.mem_append, List.not_mem_nil, or_false] at hb
  rcases hb with rfl | rfl | rfl | hb | rfl
  · exact isBlock_namePart (by decide) m.name
  · exact .item (by decide) (Text.newline_not_mem_quotedList m.parameters)
  · exact .item (by decide) (Text.newline_not_mem_quotedList m.parameterTypes)
  · exact isBlock_of_mem_optionalPart (fun t _ ↦ isBlock_namePart (by decide) t) b hb
  · exact .outlineList (by decide) (Stmt.isBlock_linesAll _ m.body)

private theorem isBlock_lines (depth : Nat) (m : Method Unit) : IsBlock depth (m.lines depth) := by
  rw [lines_eq]
  exact .above (.node depth .method) rfl trivial _ (isBlock_of_mem_parts _ m)

/-- A method is read back from its lines. -/
theorem lines_inj {depth : Nat} {m m' : Method Unit} (h : m.lines depth = m'.lines depth) :
    m = m' := by
  rw [lines_eq, lines_eq, List.cons.injEq] at h
  have hparts := flatten_inj_of_isBlock (isBlock_of_mem_parts _ m) (isBlock_of_mem_parts _ m') h.2
  simp only [parts, List.cons.injEq, Entry.item.injEq, true_and, and_true] at hparts
  obtain ⟨hname, hparameters, hparameterTypes, hparts⟩ := hparts
  obtain ⟨hreturnType, hbody⟩ := optionalPart_append_inj namePart_injective hparts
    (fun _ hne ↦ outlineList_ne_namePart (by decide) (Option.some.inj hne))
    (fun _ hne ↦ outlineList_ne_namePart (by decide) (Option.some.inj hne))
  have hbody := flatten_inj_of_isBlock (Stmt.isBlock_linesAll _ m.body)
    (Stmt.isBlock_linesAll _ m'.body) (outlineList_inj (List.cons.inj hbody).1)
  cases m
  cases m'
  cases namePart_injective hname
  cases Text.quotedList_injective hparameters
  cases Text.quotedList_injective hparameterTypes
  cases hreturnType
  cases Stmt.lines_injAll _ _ _ hbody
  rfl

end Method

namespace Source

/-- The lines of a source without notes. -/
def lines (depth : Nat) (s : Source Unit) : List Entry := s.outline (fun _ ↦ .none) depth

/-- The parts of a source, each on lines of its own. -/
def parts (depth : Nat) (s : Source Unit) : List (List Entry) :=
  [outlineList depth "fields" (s.fields.map (Field.lines (depth + 1))).flatten,
   outlineList depth "methods" (s.methods.map (Method.lines (depth + 1))).flatten]

private theorem lines_eq (depth : Nat) (s : Source Unit) :
    s.lines depth = .node depth .source :: (s.parts (depth + 1)).flatten := by
  simp only [parts, List.flatten_cons, List.flatten_nil, List.append_nil]
  rfl

private theorem isBlock_fields (depth : Nat) (s : Source Unit) :
    ∀ b ∈ s.fields.map (Field.lines depth), IsBlock depth b := by
  intro b hb
  obtain ⟨f, -, rfl⟩ := List.mem_map.mp hb
  exact f.isBlock_lines depth

private theorem isBlock_methods (depth : Nat) (s : Source Unit) :
    ∀ b ∈ s.methods.map (Method.lines depth), IsBlock depth b := by
  intro b hb
  obtain ⟨m, -, rfl⟩ := List.mem_map.mp hb
  exact m.isBlock_lines depth

private theorem isBlock_of_mem_parts (depth : Nat) (s : Source Unit) :
    ∀ b ∈ s.parts depth, IsBlock depth b := by
  intro b hb
  simp only [parts, List.mem_cons, List.not_mem_nil, or_false] at hb
  rcases hb with rfl | rfl
  · exact .outlineList (by decide) (isBlock_fields _ s)
  · exact .outlineList (by decide) (isBlock_methods _ s)

private theorem isBlock_lines (depth : Nat) (s : Source Unit) : IsBlock depth (s.lines depth) := by
  rw [lines_eq]
  exact .above (.node depth .source) rfl trivial _ (isBlock_of_mem_parts _ s)

/-- A source is read back from its lines. -/
theorem lines_inj {depth : Nat} {s s' : Source Unit} (h : s.lines depth = s'.lines depth) :
    s = s' := by
  rw [lines_eq, lines_eq, List.cons.injEq] at h
  have hparts := flatten_inj_of_isBlock (isBlock_of_mem_parts _ s) (isBlock_of_mem_parts _ s') h.2
  simp only [parts, List.cons.injEq, and_true] at hparts
  obtain ⟨hfields, hmethods⟩ := hparts
  have hfields := flatten_inj_of_isBlock (isBlock_fields _ s) (isBlock_fields _ s')
    (outlineList_inj hfields)
  have hmethods := flatten_inj_of_isBlock (isBlock_methods _ s) (isBlock_methods _ s')
    (outlineList_inj hmethods)
  cases s
  cases s'
  cases List.map_injective_iff.mpr (fun _ _ ↦ Field.lines_inj) hfields
  cases List.map_injective_iff.mpr (fun _ _ ↦ Method.lines_inj) hmethods
  rfl

end Source

/-! ### Trees -/

namespace Node

/-- The lines of a tree without notes. -/
def lines (depth : Nat) (t : Node Unit) : List Entry := t.outline (fun _ ↦ .none) depth

private theorem isBlock_lines (depth : Nat) (t : Node Unit) : IsBlock depth (t.lines depth) := by
  cases t with
  | source s => exact s.isBlock_lines depth
  | field f => exact f.isBlock_lines depth
  | method m => exact m.isBlock_lines depth
  | stmt s => exact Stmt.isBlock_lines_of_parts (Stmt.isBlock_of_mem_parts (depth + 1) s)
  | expr e => exact e.isBlock_lines depth

private theorem head?_lines (depth : Nat) (t : Node Unit) :
    (t.lines depth).head? = some (.node depth t.kind) := by
  cases t with
  | source s => exact congrArg List.head? (s.lines_eq depth)
  | field f => exact congrArg List.head? (f.lines_eq depth)
  | method m => exact congrArg List.head? (m.lines_eq depth)
  | stmt s => exact congrArg List.head? (s.lines_eq depth)
  | expr e => exact congrArg List.head? (e.lines_eq depth)

/-- A tree is read back from its lines. -/
theorem lines_inj {depth : Nat} {t t' : Node Unit} (h : t.lines depth = t'.lines depth) :
    t = t' := by
  have hkind : t.kind = t'.kind := by
    have hhead := head?_lines depth t
    rw [h, head?_lines, Option.some.injEq, Entry.node.injEq] at hhead
    exact hhead.2.symm
  cases t with
  | source s =>
    cases t' with
    | source s' => rw [Source.lines_inj h]
    | field f' => cases hkind
    | method m' => cases hkind
    | stmt s' => cases s' <;> cases hkind
    | expr e' => cases e' <;> cases hkind
  | field f =>
    cases t' with
    | source s' => cases hkind
    | field f' => rw [Field.lines_inj h]
    | method m' => cases hkind
    | stmt s' => cases s' <;> cases hkind
    | expr e' => cases e' <;> cases hkind
  | method m =>
    cases t' with
    | source s' => cases hkind
    | field f' => cases hkind
    | method m' => rw [Method.lines_inj h]
    | stmt s' => cases s' <;> cases hkind
    | expr e' => cases e' <;> cases hkind
  | stmt s =>
    cases t' with
    | source s' => cases s <;> cases hkind
    | field f' => cases s <;> cases hkind
    | method m' => cases s <;> cases hkind
    | stmt s' => rw [Stmt.lines_inj depth s s' h]
    | expr e' => cases s <;> cases e' <;> cases hkind
  | expr e =>
    cases t' with
    | source s' => cases e <;> cases hkind
    | field f' => cases e <;> cases hkind
    | method m' => cases e <;> cases hkind
    | stmt s' => cases e <;> cases s' <;> cases hkind
    | expr e' => rw [Expr.lines_inj depth e e' h]

end Node

/-! ### Integers that can be written out -/

variable {α : Type}

/-- The integer of an integer literal. -/
def Node.integer? : Node α → Option Int
  | .expr (.literal _ (.integer n)) => some n
  | _ => none

/-- A node is no integer literal of more digits than this. -/
def Node.IsShort (digits : Nat) (t : Node α) : Prop :=
  ∀ n ∈ t.integer?, (Text.ofNat n.natAbs).length ≤ digits

instance (digits : Nat) (t : Node α) : Decidable (t.IsShort digits) :=
  inferInstanceAs (Decidable (∀ n ∈ t.integer?, _))

private theorem Text.isWritable_iff (n : Int) :
    isWritable n = true ↔ (ofNat n.natAbs).length ≤ maxDigits := by
  rw [isWritable, decide_eq_true_iff, ofNat, List.length_map, Nat.pow_eq,
    Nat.length_toDigits_le_iff (by decide) (by decide)]

/-- A literal can be written out exactly if it is short. -/
theorem Literal.isWritable_iff (tag : α) (value : Literal) :
    value.isWritable = true ↔ (Node.expr (.literal tag value)).IsShort Text.maxDigits := by
  cases value with
  | integer n =>
    have := Text.isWritable_iff n
    simpa [isWritable, Node.IsShort, Node.integer?] using this
  | nil | boolean | character | string | decimal | nonFinite =>
    simp [isWritable, Node.IsShort, Node.integer?]

namespace Expr

mutual

private theorem isWritable_iff (e : Expr α) :
    e.isWritable = true ↔ ∀ x ∈ e.nodes, x.IsShort Text.maxDigits := by
  cases e with
  | literal tag value => simp [isWritable, nodes, value.isWritable_iff tag]
  | group tag inner => simp [isWritable, nodes, Node.IsShort, Node.integer?, inner.isWritable_iff]
  | binary tag operator left right =>
    simp [isWritable, nodes, Node.IsShort, Node.integer?, left.isWritable_iff,
      right.isWritable_iff, or_imp, forall_and]
  | access tag receiver name =>
    cases receiver with
    | none => simp [isWritable, nodes, Node.IsShort, Node.integer?]
    | some receiver =>
      simp [isWritable, nodes, Node.IsShort, Node.integer?, receiver.isWritable_iff]
  | call tag receiver name arguments =>
    cases receiver with
    | none => simp [isWritable, nodes, Node.IsShort, Node.integer?, areWritable_iff arguments]
    | some receiver =>
      simp [isWritable, nodes, Node.IsShort, Node.integer?, receiver.isWritable_iff,
        areWritable_iff arguments, or_imp, forall_and]

private theorem areWritable_iff (es : List (Expr α)) :
    areWritable es = true ↔ ∀ x ∈ nodesAll es, x.IsShort Text.maxDigits := by
  cases es with
  | nil => simp [areWritable, nodesAll]
  | cons e es =>
    simp [areWritable, nodesAll, e.isWritable_iff, areWritable_iff es, or_imp, forall_and]

end

private theorem all_isWritable_iff (e : Option (Expr α)) :
    e.all isWritable = true ↔ ∀ x ∈ nodesOption e, x.IsShort Text.maxDigits := by
  cases e with
  | none => simp [nodesOption]
  | some e => simp [nodesOption, e.isWritable_iff]

end Expr

namespace Stmt

mutual

private theorem isWritable_iff (s : Stmt α) :
    s.isWritable = true ↔ ∀ x ∈ s.nodes, x.IsShort Text.maxDigits := by
  cases s with
  | expression tag e => simp [isWritable, nodes, Node.IsShort, Node.integer?, e.isWritable_iff]
  | declaration tag name typeName value =>
    simp [isWritable, nodes, Node.IsShort, Node.integer?, Expr.all_isWritable_iff]
  | assignment tag receiver value =>
    simp [isWritable, nodes, Node.IsShort, Node.integer?, receiver.isWritable_iff,
      value.isWritable_iff, or_imp, forall_and]
  | ifElse tag condition thenBody elseBody =>
    simp [isWritable, nodes, Node.IsShort, Node.integer?, condition.isWritable_iff,
      areWritable_iff thenBody, areWritable_iff elseBody, or_imp, forall_and, and_assoc]
  | forLoop tag initialization condition increment body =>
    simp [isWritable, nodes, Node.IsShort, Node.integer?, optionIsWritable_iff initialization,
      condition.isWritable_iff, optionIsWritable_iff increment, areWritable_iff body, or_imp,
      forall_and, and_assoc]
  | whileLoop tag condition body =>
    simp [isWritable, nodes, Node.IsShort, Node.integer?, condition.isWritable_iff,
      areWritable_iff body, or_imp, forall_and]
  | ret tag value => simp [isWritable, nodes, Node.IsShort, Node.integer?, value.isWritable_iff]

private theorem areWritable_iff (ss : List (Stmt α)) :
    areWritable ss = true ↔ ∀ x ∈ nodesAll ss, x.IsShort Text.maxDigits := by
  cases ss with
  | nil => simp [areWritable, nodesAll]
  | cons s ss =>
    simp [areWritable, nodesAll, s.isWritable_iff, areWritable_iff ss, or_imp, forall_and]

private theorem optionIsWritable_iff (s : Option (Stmt α)) :
    optionIsWritable s = true ↔ ∀ x ∈ nodesOption s, x.IsShort Text.maxDigits := by
  cases s with
  | none => simp [optionIsWritable, nodesOption]
  | some s => simp [optionIsWritable, nodesOption, s.isWritable_iff]

end

end Stmt

private theorem Field.isWritable_iff (f : Field α) :
    f.value.all Expr.isWritable = true ↔ ∀ x ∈ f.nodes, x.IsShort Text.maxDigits := by
  simp [nodes, Node.IsShort, Node.integer?, Expr.all_isWritable_iff]

private theorem Method.isWritable_iff (m : Method α) :
    Stmt.areWritable m.body = true ↔ ∀ x ∈ m.nodes, x.IsShort Text.maxDigits := by
  simp [nodes, Node.IsShort, Node.integer?, Stmt.areWritable_iff]

namespace Node

/-- A tree can be written out if none of its integers is too long. -/
theorem isWritable_iff (t : Node α) :
    t.isWritable = true ↔ ∀ x ∈ t.nodes, x.IsShort Text.maxDigits := by
  cases t with
  | source s =>
    rw [isWritable, Bool.and_eq_true, List.all_eq_true, List.all_eq_true, nodes, Source.nodes,
      List.forall_mem_cons, List.forall_mem_append, List.forall_mem_flatMap,
      List.forall_mem_flatMap]
    simp only [Field.isWritable_iff, Method.isWritable_iff, IsShort, integer?, Option.not_mem_none,
      false_implies, implies_true, true_and]
  | field f => exact f.isWritable_iff
  | method m => exact m.isWritable_iff
  | stmt s => exact s.isWritable_iff
  | expr e => exact e.isWritable_iff

/-! ### Texts -/

/-- Lines are read back from the text in which they are joined. -/
theorem join_render_inj {lines lines' : List Entry} (hne : lines ≠ []) (hne' : lines' ≠ [])
    (hplain : ∀ x ∈ lines, x.IsPlain) (hplain' : ∀ x ∈ lines', x.IsPlain)
    (h : Text.join "\n" (lines.map Entry.render) = Text.join "\n" (lines'.map Entry.render)) :
    lines = lines' := by
  have hsplit {lines : List Entry} (hne : lines ≠ []) (hplain : ∀ x ∈ lines, x.IsPlain) :
      List.splitOn (.scalar '\n') (Text.join "\n" (lines.map Entry.render)) =
        lines.map Entry.render := by
    refine List.splitOn_intercalate _ ?_ (mt List.map_eq_nil_iff.mp hne)
    intro l hl
    obtain ⟨x, hx, rfl⟩ := List.mem_map.mp hl
    exact Entry.newline_not_mem_render (hplain x hx)
  have hrender : lines.map Entry.render = lines'.map Entry.render := by
    rw [← hsplit hne hplain, h, hsplit hne' hplain']
  exact Entry.map_render_inj hplain hplain' hrender

/-- An outline without notes determines the tree. Trees whose integers have at most 4300 digits have
outlines, and if the outlines are the same text then the trees are the same. -/
theorem outline_determines_tree {t t' : Node Unit} (ht : ∀ x ∈ t.nodes, x.IsShort 4300)
    (ht' : ∀ x ∈ t'.nodes, x.IsShort 4300) :
    ∃ text text', t.outlineText? (fun _ ↦ .none) = some text ∧
      t'.outlineText? (fun _ ↦ .none) = some text' ∧ (text = text' ↔ t = t') := by
  have hne (t : Node Unit) : t.lines 0 ≠ [] := by
    intro h
    have := t.head?_lines 0
    rw [h] at this
    cases this
  refine ⟨_, _, if_pos (t.isWritable_iff.mpr ht), if_pos (t'.isWritable_iff.mpr ht'), ?_⟩
  constructor
  · intro h
    exact lines_inj (join_render_inj (hne t) (hne t') (t.isBlock_lines 0).isPlain
      (t'.isBlock_lines 0).isPlain h)
  · intro h
    rw [h]

end Node

/-- Two calls that differ in a character and a string of one code point. -/
def markedCall (mark : Literal) : Node Unit :=
  .expr (.call () none "show" [.literal () mark, .literal () .nil, .literal () (.integer (-7))])

/-- A character and a string of one code point have different outlines. -/
theorem markedCall_outlines_differ :
    (∀ x ∈ (markedCall (.character (.scalar 'a'))).nodes, x.IsShort 4300) ∧
    (∀ x ∈ (markedCall (.string "a")).nodes, x.IsShort 4300) ∧
    ∃ text text',
      (markedCall (.character (.scalar 'a'))).outlineText? (fun _ ↦ .none) = some text ∧
      (markedCall (.string "a")).outlineText? (fun _ ↦ .none) = some text' ∧ text ≠ text' := by
  have hcharacter : ∀ x ∈ (markedCall (.character (.scalar 'a'))).nodes, x.IsShort 4300 := by
    decide
  have hstring : ∀ x ∈ (markedCall (.string "a")).nodes, x.IsShort 4300 := by decide
  obtain ⟨text, text', h, h', hiff⟩ := Node.outline_determines_tree hcharacter hstring
  refine ⟨hcharacter, hstring, text, text', h, h', ?_⟩
  intro heq
  cases hiff.mp heq

end TreeCheck
