import TreeCheck.Proofs.Readability
import TreeCheck.Proofs.Runs

/-!
# Notes in an outline

With a table at hand an outline says below the header of a node what its type and its binding are.
These notes are the only difference that a table makes: without them, the lines are those of the
outline without a table. A header is told from its text, being the name of a kind and nothing else,
and so is a note, since no part of a node has a name that is written like one.

`Annotates` runs through both outlines of a tree at once and lists its nodes by their headers. It is
shown for all trees by one induction over them, and what is said about the lines follows from it.
-/

namespace TreeCheck

/-! ### Headers and notes as they are written -/

namespace Text

/-- A line after its blanks. -/
def content (line : Text) : Text := line.dropWhile (· == .scalar ' ')

/-- Whether a line is the name of a kind and nothing else. -/
def isHeader (line : Text) : Bool := Kind.all.any fun k ↦ line.content == k.name

/-- Whether a line begins with one of the marks of a note and a blank. -/
def isNote (line : Text) : Bool :=
  let word := line.content.takeWhile (· != .scalar ' ')
  word == ":" || word == "->"

/-- The lines that are left without the notes that directly follow a header. -/
def withoutNotes (afterHeader : Bool) : List Text → List Text
  | [] => []
  | line :: lines =>
    if afterHeader && line.isNote then withoutNotes true lines
    else line :: withoutNotes line.isHeader lines

/-- The headers among lines, each with the notes that directly follow it. -/
def headers : List Text → List (Text × List Text)
  | [] => []
  | line :: lines =>
    if line.isHeader then (line, lines.takeWhile isNote) :: headers lines else headers lines

private theorem content_indent_append (depth : Nat) {t : Text}
    (h : ∀ c ∈ t.head?, c ≠ .scalar ' ') :
    content (Entry.indent depth ++ t) = t := by
  have hindent : ∀ c ∈ Entry.indent depth, (c == .scalar ' ') = true := by
    intro c hc
    rw [List.eq_of_mem_replicate hc]
    rfl
  rw [content, List.dropWhile_append_of_pos hindent]
  cases t with
  | nil => rfl
  | cons c t =>
    have hc : (c == CodePoint.scalar ' ') = false := beq_eq_false_iff_ne.mpr (h c rfl)
    rw [List.dropWhile_cons, hc]
    rfl

/-- A line with a blank or a colon behind its first blanks is no header. -/
theorem isHeader_eq_false {line : Text} {c : CodePoint} (hc : c ∈ line.content)
    (h : c = .scalar ' ' ∨ c = .scalar ':') : line.isHeader = false := by
  rw [isHeader, List.any_eq_false]
  intro k _ hk
  rw [eq_of_beq hk] at hc
  obtain ⟨hblank, hcolon, -⟩ := k.isWord_name.2 c hc
  exact h.elim hblank hcolon

/-- Notes after a header are left out, whatever follows them. -/
theorem withoutNotes_append {notes : List Text} (h : ∀ line ∈ notes, line.isNote = true)
    (lines : List Text) : withoutNotes true (notes ++ lines) = withoutNotes true lines := by
  induction notes with
  | nil => rfl
  | cons line notes ih =>
    rw [List.forall_mem_cons] at h
    rw [List.cons_append, withoutNotes, h.1]
    exact ih h.2

/-- There is no header among notes. -/
theorem headers_append {notes : List Text} (h : ∀ line ∈ notes, line.isHeader = false)
    (lines : List Text) : headers (notes ++ lines) = headers lines := by
  induction notes with
  | nil => rfl
  | cons line notes ih =>
    rw [List.forall_mem_cons] at h
    rw [List.cons_append, headers, h.1]
    exact ih h.2

end Text

namespace Entry

/-- A line that says something about a part of a node. -/
def IsPart : Entry → Prop
  | heading _ part => part.IsWord
  | item _ part _ => part.IsWord
  | _ => False

private theorem content_node (depth : Nat) (kind : Kind) :
    (node depth kind).render.content = kind.name := by
  apply Text.content_indent_append
  intro c hc
  exact (kind.isWord_name.2 c (List.mem_of_mem_head? hc)).1

private theorem isHeader_node (depth : Nat) (kind : Kind) :
    (node depth kind).render.isHeader = true := by
  rw [Text.isHeader, content_node, List.any_eq_true]
  exact ⟨kind, by cases kind <;> decide, beq_self_eq_true _⟩

private theorem isNote_node (depth : Nat) (kind : Kind) :
    (node depth kind).render.isNote = false := by
  rw [Text.isNote, content_node]
  cases kind <;> rfl

private theorem content_type (depth : Nat) (name : Text) :
    (type depth name).render.content = ": " ++ name := by
  rw [render, List.append_assoc]
  apply Text.content_indent_append
  rintro c ⟨⟩
  decide

private theorem content_binding (depth : Nat) (description : Text) :
    (binding depth description).render.content = "-> " ++ description := by
  rw [render, List.append_assoc]
  apply Text.content_indent_append
  rintro c ⟨⟩
  decide

/-- The name of a part and a colon, which some blanks come before and anything comes after. -/
theorem IsPart.exists_content {x : Entry} (h : x.IsPart) :
    ∃ part rest : Text, part.IsWord ∧ x.render.content = part ++ .scalar ':' :: rest := by
  have hcontent {part : Text} (depth : Nat) (rest : Text) (hpart : part.IsWord) :
      Text.content (indent depth ++ (part ++ .scalar ':' :: rest)) =
        part ++ .scalar ':' :: rest := by
    apply Text.content_indent_append
    intro c hc
    obtain ⟨hne, hword⟩ := hpart
    rw [List.head?_append_of_ne_nil _ hne] at hc
    exact (hword c (List.mem_of_mem_head? hc)).1
  cases x with
  | node | type | binding => exact h.elim
  | heading depth part =>
    refine ⟨part, [], h, ?_⟩
    rw [← hcontent depth [] h, render, List.append_assoc]
    rfl
  | item depth part value =>
    refine ⟨part, .scalar ' ' :: value, h, ?_⟩
    rw [← hcontent depth (.scalar ' ' :: value) h, render, List.append_assoc, List.append_assoc]
    rfl

private theorem IsPart.isHeader {x : Entry} (h : x.IsPart) : x.render.isHeader = false := by
  obtain ⟨part, rest, -, hcontent⟩ := h.exists_content
  refine Text.isHeader_eq_false (c := .scalar ':') ?_ (.inr rfl)
  rw [hcontent]
  exact List.mem_append_right _ List.mem_cons_self

private theorem IsPart.isNote {x : Entry} (h : x.IsPart) : x.render.isNote = false := by
  obtain ⟨part, rest, ⟨hne, hword⟩, hcontent⟩ := h.exists_content
  have hpart : ∀ c ∈ part, (c != .scalar ' ') = true := fun c hc ↦ bne_iff_ne.mpr (hword c hc).1
  rw [Text.isNote, hcontent, List.takeWhile_append_of_pos hpart]
  obtain ⟨c, part, rfl⟩ := List.exists_cons_of_ne_nil hne
  -- The first word holds a colon that is not at its start.
  have hcolon : CodePoint.scalar ':' ∈
      part ++ (CodePoint.scalar ':' :: rest).takeWhile (· != .scalar ' ') :=
    List.mem_append_right _ List.mem_cons_self
  rw [List.cons_append, Bool.or_eq_false_iff, beq_eq_false_iff_ne, beq_eq_false_iff_ne]
  constructor
  · intro heq
    rw [(List.cons.inj heq).2] at hcolon
    cases hcolon
  · intro heq
    rw [(List.cons.inj heq).2] at hcolon
    revert hcolon
    decide

end Entry

/-- The lines that notes take up below a header. -/
def Notes.entries (notes : Notes) (depth : Nat) : List Entry :=
  (notes.type.map (Entry.type depth)).toList ++ (notes.binding.map (Entry.binding depth)).toList

namespace Notes

variable {notes : Notes} {depth : Nat}

private theorem isNote_of_mem_entries :
    ∀ line ∈ (notes.entries depth).map Entry.render, line.isNote = true := by
  intro line hline
  obtain ⟨x, hx, rfl⟩ := List.mem_map.mp hline
  rcases List.mem_append.mp hx with hx | hx
  · obtain ⟨name, -, rfl⟩ := Option.map_eq_some_iff.mp (Option.mem_toList.mp hx)
    rw [Text.isNote, Entry.content_type]
    rfl
  · obtain ⟨description, -, rfl⟩ := Option.map_eq_some_iff.mp (Option.mem_toList.mp hx)
    rw [Text.isNote, Entry.content_binding]
    rfl

private theorem isHeader_of_mem_entries :
    ∀ line ∈ (notes.entries depth).map Entry.render, line.isHeader = false := by
  intro line hline
  obtain ⟨x, hx, rfl⟩ := List.mem_map.mp hline
  refine Text.isHeader_eq_false (c := .scalar ' ') ?_ (.inl rfl)
  rcases List.mem_append.mp hx with hx | hx
  · obtain ⟨name, -, rfl⟩ := Option.map_eq_some_iff.mp (Option.mem_toList.mp hx)
    rw [Entry.content_type]
    exact List.mem_append_left _ (by decide)
  · obtain ⟨description, -, rfl⟩ := Option.map_eq_some_iff.mp (Option.mem_toList.mp hx)
    rw [Entry.content_binding]
    exact List.mem_append_left _ (by decide)

end Notes

private theorem Kind.map_render_header (kind : Kind) (depth : Nat) (notes : Notes)
    (lines : List Entry) :
    (kind.header depth notes ++ lines).map Entry.render =
      (Entry.node depth kind).render ::
        ((notes.entries (depth + 1)).map Entry.render ++ lines.map Entry.render) := List.map_append

private theorem Kind.length_header (kind : Kind) (depth : Nat) (notes : Notes) :
    (kind.header depth notes).length =
      1 + notes.type.isSome.toNat + notes.binding.isSome.toNat := by
  cases ht : notes.type <;> cases hb : notes.binding <;> simp [header, ht, hb]

variable {α : Type}

/-! ### Both outlines at once -/

/-- Lines with notes and the same lines without them, and the nodes whose headers they contain. -/
inductive Annotates (notes : α → Notes) : List Entry → List Entry → List (Node α) → Prop
  | nil : Annotates notes [] [] []
  | node (node : Node α) (depth : Nat) {annotated plain : List Entry} {nodes : List (Node α)}
      (rest : Annotates notes annotated plain nodes) :
      Annotates notes (node.kind.header depth (notes node.tag) ++ annotated)
        (.node depth node.kind :: plain) (node :: nodes)
  | part {x : Entry} (hx : x.IsPart) {annotated plain : List Entry} {nodes : List (Node α)}
      (rest : Annotates notes annotated plain nodes) :
      Annotates notes (x :: annotated) (x :: plain) nodes

namespace Annotates

variable {notes : α → Notes} {annotated annotated' plain plain' : List Entry}
  {nodes nodes' : List (Node α)}

private theorem append (h : Annotates notes annotated plain nodes)
    (h' : Annotates notes annotated' plain' nodes') :
    Annotates notes (annotated ++ annotated') (plain ++ plain') (nodes ++ nodes') := by
  induction h with
  | nil => exact h'
  | node node depth _ ih =>
    rw [List.append_assoc]
    exact .node node depth ih
  | part hx _ ih => exact .part hx ih

/-- There are lines with notes just if there are lines without them. -/
theorem eq_nil_iff (h : Annotates notes annotated plain nodes) : annotated = [] ↔ plain = [] := by
  cases h with
  | nil => simp
  | node => simp [Kind.header]
  | part => simp

/-- Lines below the name of a part. -/
theorem underHeading (depth : Nat) (part : Text) (hpart : part.IsWord)
    (h : Annotates notes annotated plain nodes) :
    Annotates notes (.heading depth part :: annotated) (.heading depth part :: plain) nodes :=
  .part (x := .heading depth part) hpart h

/-- Lines after a part that takes up one line. -/
theorem afterItem (depth : Nat) (part value : Text) (hpart : part.IsWord)
    (h : Annotates notes annotated plain nodes) :
    Annotates notes (.item depth part value :: annotated) (.item depth part value :: plain) nodes :=
  .part (x := .item depth part value) hpart h

private theorem list (h : Annotates notes annotated plain nodes) (depth : Nat) (part : Text)
    (hpart : part.IsWord) :
    Annotates notes (outlineList depth part annotated) (outlineList depth part plain) nodes := by
  unfold outlineList
  split
  · next =>
    cases h
    exact afterItem depth part "[]" hpart .nil
  · next _ hne =>
    split
    · next => exact absurd (h.eq_nil_iff.mpr rfl) hne
    · next => exact underHeading depth part hpart h

private theorem name (depth : Nat) (part : Text) (hpart : part.IsWord) (t : Option Text) :
    Annotates notes (outlineName depth part t) (outlineName depth part t) [] := by
  cases t with
  | none => exact .nil
  | some t => exact afterItem depth part t.quoted hpart .nil

private theorem literal (depth : Nat) (value : Literal) :
    Annotates notes (value.outline depth) (value.outline depth) [] := by
  have hvalue (shown : Text) : (Entry.item depth "value" shown).IsPart := by
    change Text.IsWord "value"
    decide
  cases value with
  | nil => exact .nil
  | boolean | character | string | integer | decimal | nonFinite => exact .part (hvalue _) .nil

end Annotates

/-! ### All trees -/

open Annotates

namespace Expr

variable (notes : α → Notes)

mutual

private theorem annotates (depth : Nat) (e : Expr α) :
    Annotates notes (e.outline notes depth) (e.outline (fun _ ↦ .none) depth) e.nodes := by
  match e with
  | literal tag value =>
    simp only [outline, nodes]
    exact node (.expr (literal tag value)) depth (.literal (depth + 1) value)
  | group tag inner =>
    have hinner := underHeading (depth + 1) "expr" (by decide) (annotates (depth + 2) inner)
    simp only [outline, nodes]
    exact node (.expr (group tag inner)) depth hinner
  | binary tag operator left right =>
    have hleft := underHeading (depth + 1) "left" (by decide) (annotates (depth + 2) left)
    have hright := underHeading (depth + 1) "right" (by decide) (annotates (depth + 2) right)
    simp only [outline, nodes]
    exact (node (.expr (binary tag operator left right)) depth
      (afterItem (depth + 1) "op" operator.quoted (by decide) hleft)).append hright
  | access tag none name =>
    simp only [outline, nodes]
    exact node (.expr (access tag none name)) depth
      (afterItem (depth + 1) "name" name.quoted (by decide) .nil)
  | access tag (some receiver) name =>
    have hreceiver := underHeading (depth + 1) "receiver" (by decide)
      (annotates (depth + 2) receiver)
    have h := (node (.expr (access tag (some receiver) name)) depth hreceiver).append
      (afterItem (depth + 1) "name" name.quoted (by decide) .nil)
    rw [List.append_nil] at h
    simp only [outline, nodes]
    exact h
  | call tag none name arguments =>
    have harguments := (annotatesAll (depth + 2) arguments).list (depth + 1) "args" (by decide)
    simp only [outline, nodes]
    exact node (.expr (call tag none name arguments)) depth
      (afterItem (depth + 1) "name" name.quoted (by decide) harguments)
  | call tag (some receiver) name arguments =>
    have hreceiver := underHeading (depth + 1) "receiver" (by decide)
      (annotates (depth + 2) receiver)
    have harguments := (annotatesAll (depth + 2) arguments).list (depth + 1) "args" (by decide)
    simp only [outline, nodes]
    exact (node (.expr (call tag (some receiver) name arguments)) depth hreceiver).append
      (afterItem (depth + 1) "name" name.quoted (by decide) harguments)

private theorem annotatesAll (depth : Nat) (es : List (Expr α)) :
    Annotates notes (outlineAll notes depth es) (outlineAll (fun _ ↦ .none) depth es)
      (nodesAll es) := by
  match es with
  | [] => exact .nil
  | e :: es =>
    simp only [outlineAll, nodesAll]
    exact (annotates depth e).append (annotatesAll depth es)

end

private theorem annotatesOption (depth : Nat) (part : Text) (hpart : part.IsWord)
    (e : Option (Expr α)) :
    Annotates notes (outlineOption notes depth part e) (outlineOption (fun _ ↦ .none) depth part e)
      (nodesOption e) := by
  cases e with
  | none => exact .nil
  | some e => exact underHeading depth part hpart (e.annotates notes (depth + 1))

end Expr

namespace Stmt

variable (notes : α → Notes)

mutual

private theorem annotates (depth : Nat) (s : Stmt α) :
    Annotates notes (s.outline notes depth) (s.outline (fun _ ↦ .none) depth) s.nodes := by
  match s with
  | expression tag e =>
    have he := underHeading (depth + 1) "expr" (by decide) (e.annotates notes (depth + 2))
    simp only [outline, nodes]
    exact node (.stmt (expression tag e)) depth he
  | declaration tag name typeName value =>
    have htype := @Annotates.name α notes (depth + 1) "type_name" (by decide) typeName
    have hvalue := Expr.annotatesOption notes (depth + 1) "value" (by decide) value
    simp only [outline, nodes]
    exact (node (.stmt (declaration tag name typeName value)) depth
      (afterItem (depth + 1) "name" name.quoted (by decide) htype)).append hvalue
  | assignment tag receiver value =>
    have hreceiver := underHeading (depth + 1) "receiver" (by decide)
      (receiver.annotates notes (depth + 2))
    have hvalue := underHeading (depth + 1) "value" (by decide) (value.annotates notes (depth + 2))
    simp only [outline, nodes]
    exact (node (.stmt (assignment tag receiver value)) depth hreceiver).append hvalue
  | ifElse tag condition thenBody elseBody =>
    have hcondition := underHeading (depth + 1) "condition" (by decide)
      (condition.annotates notes (depth + 2))
    have hthen := (annotatesAll (depth + 2) thenBody).list (depth + 1) "then_body" (by decide)
    have helse := (annotatesAll (depth + 2) elseBody).list (depth + 1) "else_body" (by decide)
    simp only [outline, nodes]
    exact ((node (.stmt (ifElse tag condition thenBody elseBody)) depth hcondition).append
      hthen).append helse
  | forLoop tag initialization condition increment body =>
    have hinitialization := annotatesOption (depth + 1) "initialization" (by decide) initialization
    have hcondition := underHeading (depth + 1) "condition" (by decide)
      (condition.annotates notes (depth + 2))
    have hincrement := annotatesOption (depth + 1) "increment" (by decide) increment
    have hbody := (annotatesAll (depth + 2) body).list (depth + 1) "body" (by decide)
    simp only [outline, nodes]
    exact (((node (.stmt (forLoop tag initialization condition increment body)) depth
      hinitialization).append hcondition).append hincrement).append hbody
  | whileLoop tag condition body =>
    have hcondition := underHeading (depth + 1) "condition" (by decide)
      (condition.annotates notes (depth + 2))
    have hbody := (annotatesAll (depth + 2) body).list (depth + 1) "body" (by decide)
    simp only [outline, nodes]
    exact (node (.stmt (whileLoop tag condition body)) depth hcondition).append hbody
  | ret tag value =>
    have hvalue := underHeading (depth + 1) "value" (by decide) (value.annotates notes (depth + 2))
    simp only [outline, nodes]
    exact node (.stmt (ret tag value)) depth hvalue

private theorem annotatesAll (depth : Nat) (ss : List (Stmt α)) :
    Annotates notes (outlineAll notes depth ss) (outlineAll (fun _ ↦ .none) depth ss)
      (nodesAll ss) := by
  match ss with
  | [] =>
    simp only [outlineAll, nodesAll]
    exact .nil
  | s :: ss =>
    simp only [outlineAll, nodesAll]
    exact (annotates depth s).append (annotatesAll depth ss)

private theorem annotatesOption (depth : Nat) (part : Text) (hpart : part.IsWord)
    (s : Option (Stmt α)) :
    Annotates notes (outlineOption notes depth part s) (outlineOption (fun _ ↦ .none) depth part s)
      (nodesOption s) := by
  match s with
  | none =>
    simp only [outlineOption, nodesOption]
    exact .nil
  | some s =>
    simp only [outlineOption, nodesOption]
    exact underHeading depth part hpart (annotates (depth + 1) s)

end

end Stmt

section

variable (notes : α → Notes) (depth : Nat)

private theorem Field.annotates (d : Field α) :
    Annotates notes (d.outline notes depth) (d.outline (fun _ ↦ .none) depth) d.nodes := by
  have hvalue := Expr.annotatesOption notes (depth + 1) "value" (by decide) d.value
  exact node (.field d) depth (afterItem (depth + 1) "name" _ (by decide)
    (afterItem (depth + 1) "type_name" _ (by decide)
      (afterItem (depth + 1) "constant" _ (by decide) hvalue)))

private theorem Method.annotates (m : Method α) :
    Annotates notes (m.outline notes depth) (m.outline (fun _ ↦ .none) depth) m.nodes := by
  have hreturn := @Annotates.name α notes (depth + 1) "return_type_name" (by decide) m.returnType
  have hbody := (Stmt.annotatesAll notes (depth + 2) m.body).list (depth + 1) "body" (by decide)
  exact (node (.method m) depth (afterItem (depth + 1) "name" _ (by decide)
    (afterItem (depth + 1) "parameters" _ (by decide)
      (afterItem (depth + 1) "parameter_type_names" _ (by decide) hreturn)))).append hbody

/-- The members of a source one after another. -/
theorem Annotates.flatMap {β : Type} (members : List β) {annotated plain : β → List Entry}
    {nodes : β → List (Node α)}
    (h : ∀ member, Annotates notes (annotated member) (plain member) (nodes member)) :
    Annotates notes (members.flatMap annotated) (members.flatMap plain)
      (members.flatMap nodes) := by
  induction members with
  | nil => exact .nil
  | cons member members ih =>
    simp only [List.flatMap_cons]
    exact (h member).append ih

private theorem Source.annotates (s : Source α) :
    Annotates notes (s.outline notes depth) (s.outline (fun _ ↦ .none) depth) s.nodes := by
  have hfields := Annotates.flatMap notes s.fields (Field.annotates notes (depth + 2))
  have hmethods := Annotates.flatMap notes s.methods (Method.annotates notes (depth + 2))
  exact (node (.source s) depth (hfields.list (depth + 1) "fields" (by decide))).append
    (hmethods.list (depth + 1) "methods" (by decide))

/-- The two outlines of a tree differ in the notes on its nodes. -/
theorem Node.annotates (tree : Node α) :
    Annotates notes (tree.outline notes depth) (tree.outline (fun _ ↦ .none) depth) tree.nodes := by
  cases tree with
  | source s => exact s.annotates notes depth
  | field d => exact d.annotates notes depth
  | method m => exact m.annotates notes depth
  | stmt s => exact s.annotates notes depth
  | expr e => exact e.annotates notes depth

end

/-! ### What the lines say -/

namespace Annotates

variable {notes : α → Notes} {annotated plain : List Entry} {nodes : List (Node α)}

/-- Without the notes after headers, the lines are those of the outline without a table. -/
theorem withoutNotes_eq (h : Annotates notes annotated plain nodes) (afterHeader : Bool) :
    Text.withoutNotes afterHeader (annotated.map Entry.render) = plain.map Entry.render := by
  induction h generalizing afterHeader with
  | nil => rfl
  | @node node depth annotated plain nodes rest ih =>
    rw [Kind.map_render_header, Text.withoutNotes, Entry.isNote_node, Entry.isHeader_node,
      Bool.and_false, if_neg Bool.false_ne_true,
      Text.withoutNotes_append Notes.isNote_of_mem_entries, ih]
    rfl
  | part hx rest ih =>
    rw [List.map_cons, Text.withoutNotes, hx.isNote, Bool.and_false, if_neg Bool.false_ne_true, ih]
    rfl

/-- After the notes on a node there is another line, or nothing. -/
theorem takeWhile_isNote (h : Annotates notes annotated plain nodes) :
    (annotated.map Entry.render).takeWhile Text.isNote = [] := by
  cases h with
  | nil => rfl
  | node node depth rest =>
    exact List.takeWhile_cons_of_neg (by rw [Entry.isNote_node]; exact Bool.false_ne_true)
  | part hx rest =>
    exact List.takeWhile_cons_of_neg (by rw [hx.isNote]; exact Bool.false_ne_true)

/-- Every node has its header, in the order of the nodes, with the notes on it right below. -/
theorem headers_eq (h : Annotates notes annotated plain nodes) :
    List.Forall₂ (fun node header ↦ ∃ depth, header =
        ((Entry.node depth node.kind).render,
          ((notes node.tag).entries (depth + 1)).map Entry.render))
      nodes (Text.headers (annotated.map Entry.render)) := by
  induction h with
  | nil => exact .nil
  | @node node depth annotated plain nodes rest ih =>
    -- Just the notes on this node are taken, as the line after them is no note.
    rw [Kind.map_render_header, Text.headers, Entry.isHeader_node, if_pos rfl,
      List.takeWhile_append_of_pos Notes.isNote_of_mem_entries, rest.takeWhile_isNote,
      List.append_nil, Text.headers_append Notes.isHeader_of_mem_entries]
    exact .cons ⟨depth, rfl⟩ ih
  | part hx rest ih =>
    rw [List.map_cons, Text.headers, hx.isHeader, if_neg Bool.false_ne_true]
    exact ih

/-- There are as many lines more as there are notes on the nodes. -/
theorem length_eq (h : Annotates notes annotated plain nodes) :
    annotated.length = plain.length + (nodes.countP fun node ↦ (notes node.tag).type.isSome) +
      nodes.countP fun node ↦ (notes node.tag).binding.isSome := by
  induction h with
  | nil => rfl
  | @node node depth annotated plain nodes rest ih =>
    rw [List.length_append, Kind.length_header, ih, List.countP_cons, List.countP_cons,
      List.length_cons]
    cases (notes node.tag).type.isSome <;> cases (notes node.tag).binding.isSome <;>
      simp only [Bool.toNat_true, Bool.toNat_false, Bool.false_eq_true, if_true, if_false] <;> omega
  | part hx rest ih =>
    rw [List.length_cons, List.length_cons, ih]
    omega

end Annotates

/-! ### The table of an analysis -/

namespace Resolutions

/-- A header and the notes below it are those of a node: its type if it is an expression, then its
binding if it has one, each as the table has it. -/
def Annotated (r : Resolutions) (node : Node NodeId) (header : Text × List Text) : Prop :=
  ∃ depth types bindings,
    header = (Entry.indent depth ++ node.kind.name, types ++ bindings) ∧
    (if node.hasType then
      ∃ t, r.type? node.tag = some t ∧ types = [Entry.indent (depth + 1) ++ ": " ++ t.name]
    else types = []) ∧
    if node.hasBinding then
      ∃ b, r.binding? node.tag = some b ∧
        bindings = [Entry.indent (depth + 1) ++ "-> " ++ b.describe]
    else bindings = []

variable {r : Resolutions} {node : Node NodeId} {nodes : List (Node NodeId)}

private theorem Covers.isSome_type? (h : r.Covers nodes) (hn : (ids nodes).Nodup)
    (hm : node ∈ nodes) :
    (r.type? node.tag).isSome = node.hasType := by
  rw [Bool.eq_iff_iff, h.type?_isSome_iff]
  constructor
  · rintro ⟨node', hm', htype, htag⟩
    rwa [← List.inj_on_of_nodup_map hn hm' hm htag]
  · exact fun htype ↦ ⟨node, hm, htype, rfl⟩

private theorem Covers.isSome_binding? (h : r.Covers nodes) (hn : (ids nodes).Nodup)
    (hm : node ∈ nodes) :
    (r.binding? node.tag).isSome = node.hasBinding := by
  rw [Bool.eq_iff_iff, h.binding?_isSome_iff]
  constructor
  · rintro ⟨node', hm', hbinding, htag⟩
    rwa [← List.inj_on_of_nodup_map hn hm' hm htag]
  · exact fun hbinding ↦ ⟨node, hm, hbinding, rfl⟩

private theorem Covers.countP_types (h : r.Covers nodes) (hn : (ids nodes).Nodup) :
    nodes.countP (fun node ↦ (r.notes node.tag).type.isSome) = nodes.countP Node.hasType := by
  apply List.countP_congr
  intro node hm
  rw [notes, Option.isSome_map, h.isSome_type? hn hm]

private theorem Covers.countP_bindings (h : r.Covers nodes) (hn : (ids nodes).Nodup) :
    nodes.countP (fun node ↦ (r.notes node.tag).binding.isSome) = nodes.countP Node.hasBinding := by
  apply List.countP_congr
  intro node hm
  rw [notes, Option.isSome_map, h.isSome_binding? hn hm]

/-- The notes on a node of a tree that the table covers. -/
theorem Covers.annotated (h : r.Covers nodes) (hn : (ids nodes).Nodup) (hm : node ∈ nodes)
    (depth : Nat) :
    r.Annotated node ((Entry.node depth node.kind).render,
      ((r.notes node.tag).entries (depth + 1)).map Entry.render) := by
  refine ⟨depth, _, _, Prod.ext rfl List.map_append, ?_, ?_⟩
  · rw [← h.isSome_type? hn hm]
    cases ht : r.type? node.tag with
    | none => simp [notes, ht]
    | some t => simp [notes, ht, Entry.render]
  · rw [← h.isSome_binding? hn hm]
    cases hb : r.binding? node.tag with
    | none => simp [notes, hb]
    | some b => simp [notes, hb, Entry.render]

end Resolutions

/-- What a table adds to the outline of a tree are notes below headers: without them the outline is
the one without a table. The table of a successful analysis puts below the header of each node just
the type that an expression has and the binding that an access, a call, a field, a method or a
declaration has, and adds as many lines as it has entries. -/
theorem Node.outline_adds_notes {α : Type} (tree : Node α) (n : NodeId)
    (hshort : ∀ node ∈ (tree.label n).nodes, node.IsShort Text.maxDigits) :
    let plain := ((tree.label n).outline (fun _ ↦ .none) 0).map Entry.render
    let annotated (r : Resolutions) := ((tree.label n).outline r.notes 0).map Entry.render
    (tree.label n).outlineText? (fun _ ↦ .none) = some (Text.join "\n" plain) ∧
    (∀ r : Resolutions,
      (tree.label n).outlineText? r.notes = some (Text.join "\n" (annotated r)) ∧
      Text.withoutNotes false (annotated r) = plain) ∧
    ∀ (s : Symbols) (parent : Option ScopeId) (r : Resolutions),
      (s.analyze parent (tree.label n)).result = .ok r →
        List.Forall₂ r.Annotated (tree.label n).nodes (Text.headers (annotated r)) ∧
        (annotated r).length = plain.length + r.size := by
  intro plain annotated
  have hwritable := (isWritable_iff _).mpr hshort
  have hboth (r : Resolutions) := (tree.label n).annotates r.notes 0
  refine ⟨if_pos hwritable, fun r ↦ ⟨if_pos hwritable, (hboth r).withoutNotes_eq false⟩, ?_⟩
  intro s parent r hr
  have hn := nodup_ids_label n tree
  have hcovers := Symbols.covers_of_analyze hn hr
  constructor
  · have hheaders := (List.forall₂_and_left _ _).mpr ⟨fun _ hm ↦ hm, (hboth r).headers_eq⟩
    refine hheaders.imp ?_
    rintro node _ ⟨hm, depth, rfl⟩
    exact hcovers.annotated hn hm depth
  · rw [List.length_map, List.length_map, (hboth r).length_eq, hcovers.countP_types hn,
      hcovers.countP_bindings hn, hcovers.size_eq, Nat.add_assoc]

/-- The notes of a program that adds up numbers are lines of their own. -/
theorem summing_outline_adds_notes :
    ∃ r, (Symbols.initial.analyze none ((Node.source summing).label 0)).result = .ok r ∧
      let lines := (((Node.source summing).label 0).outline r.notes 0).map Entry.render
      lines.length = 127 ∧ (Text.withoutNotes false lines).length = 91 ∧
        List.Forall₂ r.Annotated ((Node.source summing).label 0).nodes (Text.headers lines) := by
  have hshort : ∀ node ∈ ((Node.source summing).label 0).nodes, node.IsShort Text.maxDigits := by
    rw [← Node.isWritable_iff]
    decide +kernel
  have hs : (Symbols.initial.analyze none ((Node.source summing).label 0)).result.isOk = true := by
    decide +kernel
  have hplain : (((Node.source summing).label 0).outline (fun _ ↦ .none) 0).length = 91 := by
    decide +kernel
  obtain ⟨r, hr⟩ := exists_of_isOk hs
  have hcovers := Symbols.covers_of_analyze (Node.nodup_ids_label 0 _) hr
  have hsize : r.size = 36 := hcovers.size_eq.trans (by decide +kernel)
  obtain ⟨-, hnotes, hanalysis⟩ := Node.outline_adds_notes (.source summing) 0 hshort
  obtain ⟨hheaders, hlength⟩ := hanalysis .initial none r hr
  refine ⟨r, hr, ?_, ?_, hheaders⟩
  · rw [hlength, List.length_map, hplain, hsize]
  · rw [(hnotes r).2, List.length_map, hplain]

end TreeCheck
