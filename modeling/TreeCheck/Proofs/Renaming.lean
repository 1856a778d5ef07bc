import TreeCheck.Tree.Label

/-!
# Trees with other names of variables

A renaming changes the names of variables wherever a tree declares or reads one: the names of
fields, of declarations, of the parameters of methods, and of accesses without a receiver. Names of
functions, of types and of members are not names of variables and stay. Renaming changes neither the
shape of a tree nor its tags.
-/

namespace TreeCheck

variable {α : Type} (ρ : Text → Text)

/-! ### Renaming -/

namespace Expr

mutual

/-- Rename the variables of an expression. -/
def rename : Expr α → Expr α
  | literal tag value => literal tag value
  | group tag inner => group tag inner.rename
  | binary tag operator left right => binary tag operator left.rename right.rename
  | access tag none name => access tag none (ρ name)
  | access tag (some receiver) name => access tag (some receiver.rename) name
  | call tag none name arguments => call tag none name (renameAll arguments)
  | call tag (some receiver) name arguments =>
    call tag (some receiver.rename) name (renameAll arguments)

/-- Rename the variables of a list of expressions. -/
def renameAll : List (Expr α) → List (Expr α)
  | [] => []
  | e :: es => e.rename :: renameAll es

end

/-- Rename the variables of an expression that may be absent. -/
def renameOption : Option (Expr α) → Option (Expr α)
  | none => none
  | some e => some (e.rename ρ)

end Expr

namespace Stmt

mutual

/-- Rename the variables of a statement. -/
def rename : Stmt α → Stmt α
  | expression tag e => expression tag (e.rename ρ)
  | declaration tag name typeName value =>
    declaration tag (ρ name) typeName (Expr.renameOption ρ value)
  | assignment tag receiver value => assignment tag (receiver.rename ρ) (value.rename ρ)
  | ifElse tag condition thenBody elseBody =>
    ifElse tag (condition.rename ρ) (renameAll thenBody) (renameAll elseBody)
  | forLoop tag initialization condition increment body =>
    forLoop tag (renameOption initialization) (condition.rename ρ) (renameOption increment)
      (renameAll body)
  | whileLoop tag condition body => whileLoop tag (condition.rename ρ) (renameAll body)
  | ret tag value => ret tag (value.rename ρ)

/-- Rename the variables of a list of statements. -/
def renameAll : List (Stmt α) → List (Stmt α)
  | [] => []
  | s :: ss => s.rename :: renameAll ss

/-- Rename the variables of a statement that may be absent. -/
def renameOption : Option (Stmt α) → Option (Stmt α)
  | none => none
  | some s => some s.rename

end

end Stmt

/-- Rename a field and the variables that its value reads. -/
def Field.rename (d : Field α) : Field α :=
  { d with name := ρ d.name, value := Expr.renameOption ρ d.value }

/-- Rename the parameters of a method and the variables of its body. -/
def Method.rename (m : Method α) : Method α :=
  { m with parameters := m.parameters.map ρ, body := Stmt.renameAll ρ m.body }

/-- Rename the variables of a source. -/
def Source.rename (s : Source α) : Source α :=
  { s with fields := s.fields.map (Field.rename ρ), methods := s.methods.map (Method.rename ρ) }

/-- Rename the variables of a tree. -/
def Node.rename : Node α → Node α
  | source s => source (s.rename ρ)
  | field d => field (d.rename ρ)
  | method m => method (m.rename ρ)
  | stmt s => stmt (s.rename ρ)
  | expr e => expr (e.rename ρ)

/-! ### What stays -/

namespace Expr

/-- Renaming keeps the kind of an expression. -/
@[simp] theorem kind_rename (e : Expr α) : (e.rename ρ).kind = e.kind := by
  cases e with
  | literal _ _ => rfl
  | group _ _ => rfl
  | binary _ _ _ _ => rfl
  | access _ receiver _ => cases receiver <;> rfl
  | call _ receiver _ _ => cases receiver <;> rfl

/-- Renaming keeps the number of expressions. -/
@[simp] theorem length_renameAll (es : List (Expr α)) : (renameAll ρ es).length = es.length := by
  induction es with
  | nil => rfl
  | cons e es ih => simp [renameAll, ih]

end Expr

/-- Renaming makes no list of statements empty. -/
@[simp] theorem Stmt.renameAll_eq_nil_iff (ss : List (Stmt α)) : renameAll ρ ss = [] ↔ ss = [] := by
  cases ss <;> simp [renameAll]

/-! ### The same names -/

namespace Expr

mutual

/-- Renaming nothing changes no expression. -/
@[simp] theorem rename_id (e : Expr α) : e.rename id = e := by
  match e with
  | literal _ _ => rfl
  | group _ inner => simp only [rename, rename_id inner]
  | binary _ _ left right => simp only [rename, rename_id left, rename_id right]
  | access _ none _ => rfl
  | access _ (some receiver) _ => simp only [rename, rename_id receiver]
  | call _ none _ arguments => simp only [rename, renameAll_id arguments]
  | call _ (some receiver) _ arguments =>
    simp only [rename, rename_id receiver, renameAll_id arguments]

/-- Renaming nothing changes no list of expressions. -/
@[simp] theorem renameAll_id (es : List (Expr α)) : renameAll id es = es := by
  match es with
  | [] => rfl
  | e :: es => simp only [renameAll, rename_id e, renameAll_id es]

end

/-- Renaming nothing changes no expression that may be absent. -/
@[simp] theorem renameOption_id (e : Option (Expr α)) : renameOption id e = e := by
  cases e <;> simp [renameOption]

end Expr

namespace Stmt

mutual

/-- Renaming nothing changes no statement. -/
@[simp] theorem rename_id (s : Stmt α) : s.rename id = s := by
  match s with
  | expression _ _ => simp only [rename, Expr.rename_id]
  | declaration _ _ _ _ => simp only [rename, id, Expr.renameOption_id]
  | assignment _ _ _ => simp only [rename, Expr.rename_id]
  | ifElse _ _ thenBody elseBody =>
    simp only [rename, Expr.rename_id, renameAll_id thenBody, renameAll_id elseBody]
  | forLoop _ initialization _ increment body =>
    simp only [rename, Expr.rename_id, renameOption_id initialization, renameOption_id increment,
      renameAll_id body]
  | whileLoop _ _ body => simp only [rename, Expr.rename_id, renameAll_id body]
  | ret _ _ => simp only [rename, Expr.rename_id]

/-- Renaming nothing changes no list of statements. -/
@[simp] theorem renameAll_id (ss : List (Stmt α)) : renameAll id ss = ss := by
  match ss with
  | [] => rfl
  | s :: ss => simp only [renameAll, rename_id s, renameAll_id ss]

/-- Renaming nothing changes no statement that may be absent. -/
@[simp] theorem renameOption_id (s : Option (Stmt α)) : renameOption id s = s := by
  match s with
  | none => rfl
  | some s => simp only [renameOption, rename_id s]

end

end Stmt

/-- Renaming nothing changes no field. -/
@[simp] theorem Field.rename_id (d : Field α) : d.rename id = d := by
  simp only [rename, id, Expr.renameOption_id]

/-- Renaming nothing changes no method. -/
@[simp] theorem Method.rename_id (m : Method α) : m.rename id = m := by
  simp only [rename, List.map_id, Stmt.renameAll_id]

/-- A tree whose names are kept is the same tree. -/
@[simp] theorem Node.rename_id (tree : Node α) : tree.rename id = tree := by
  cases tree with
  | source s =>
    have hf : Field.rename id = (id : Field α → Field α) := funext Field.rename_id
    have hm : Method.rename id = (id : Method α → Method α) := funext Method.rename_id
    rw [rename, Source.rename, hf, hm, List.map_id, List.map_id]
  | field d => simp only [rename, Field.rename_id]
  | method m => simp only [rename, Method.rename_id]
  | stmt s => simp only [rename, Stmt.rename_id]
  | expr e => simp only [rename, Expr.rename_id]

/-! ### The same labels -/

namespace Expr

mutual

/-- Renaming keeps the number of nodes of an expression. -/
@[simp] theorem size_rename (e : Expr α) : (e.rename ρ).size = e.size := by
  match e with
  | literal _ _ => rfl
  | group _ inner => simp only [rename, size, size_rename inner]
  | binary _ _ left right => simp only [rename, size, size_rename left, size_rename right]
  | access _ none _ => rfl
  | access _ (some receiver) _ => simp only [rename, size, size_rename receiver]
  | call _ none _ arguments => simp only [rename, size, sizeAll_rename arguments]
  | call _ (some receiver) _ arguments =>
    simp only [rename, size, size_rename receiver, sizeAll_rename arguments]

/-- Renaming keeps the number of nodes of a list of expressions. -/
@[simp] theorem sizeAll_rename (es : List (Expr α)) : sizeAll (renameAll ρ es) = sizeAll es := by
  match es with
  | [] => rfl
  | e :: es => simp only [renameAll, sizeAll, size_rename e, sizeAll_rename es]

end

/-- Renaming keeps the number of nodes of an expression that may be absent. -/
@[simp] theorem sizeOption_rename (e : Option (Expr α)) :
    sizeOption (renameOption ρ e) = sizeOption e := by
  cases e <;> simp [renameOption, sizeOption]

mutual

private theorem label_rename (n : NodeId) (e : Expr α) :
    (e.rename ρ).label n = (e.label n).rename ρ := by
  match e with
  | literal _ _ => rfl
  | group _ inner => simp only [rename, label, label_rename _ inner]
  | binary _ _ left right =>
    simp only [rename, label, size_rename, label_rename _ left, label_rename _ right]
  | access _ none _ => rfl
  | access _ (some receiver) _ => simp only [rename, label, label_rename _ receiver]
  | call _ none _ arguments => simp only [rename, label, labelAll_rename _ arguments]
  | call _ (some receiver) _ arguments =>
    simp only [rename, label, size_rename, label_rename _ receiver, labelAll_rename _ arguments]

private theorem labelAll_rename (n : NodeId) (es : List (Expr α)) :
    labelAll n (renameAll ρ es) = renameAll ρ (labelAll n es) := by
  match es with
  | [] => rfl
  | e :: es =>
    simp only [renameAll, labelAll, size_rename, label_rename _ e, labelAll_rename _ es]

end

private theorem labelOption_rename (n : NodeId) (e : Option (Expr α)) :
    labelOption n (renameOption ρ e) = renameOption ρ (labelOption n e) := by
  cases e with
  | none => rfl
  | some e => simp only [renameOption, labelOption, label_rename]

end Expr

namespace Stmt

mutual

/-- Renaming keeps the number of nodes of a statement. -/
@[simp] theorem size_rename (s : Stmt α) : (s.rename ρ).size = s.size := by
  match s with
  | expression _ _ => simp only [rename, size, Expr.size_rename]
  | declaration _ _ _ _ => simp only [rename, size, Expr.sizeOption_rename]
  | assignment _ _ _ => simp only [rename, size, Expr.size_rename]
  | ifElse _ _ thenBody elseBody =>
    simp only [rename, size, Expr.size_rename, sizeAll_rename thenBody, sizeAll_rename elseBody]
  | forLoop _ initialization _ increment body =>
    simp only [rename, size, Expr.size_rename, sizeOption_rename initialization,
      sizeOption_rename increment, sizeAll_rename body]
  | whileLoop _ _ body => simp only [rename, size, Expr.size_rename, sizeAll_rename body]
  | ret _ _ => simp only [rename, size, Expr.size_rename]

/-- Renaming keeps the number of nodes of a list of statements. -/
@[simp] theorem sizeAll_rename (ss : List (Stmt α)) : sizeAll (renameAll ρ ss) = sizeAll ss := by
  match ss with
  | [] => rfl
  | s :: ss => simp only [renameAll, sizeAll, size_rename s, sizeAll_rename ss]

/-- Renaming keeps the number of nodes of a statement that may be absent. -/
@[simp] theorem sizeOption_rename (s : Option (Stmt α)) :
    sizeOption (renameOption ρ s) = sizeOption s := by
  match s with
  | none => rfl
  | some s => simp only [renameOption, sizeOption, size_rename s]

end

mutual

private theorem label_rename (n : NodeId) (s : Stmt α) :
    (s.rename ρ).label n = (s.label n).rename ρ := by
  match s with
  | expression _ _ => simp only [rename, label, Expr.label_rename]
  | declaration _ _ _ _ => simp only [rename, label, Expr.labelOption_rename]
  | assignment _ _ _ => simp only [rename, label, Expr.size_rename, Expr.label_rename]
  | ifElse _ _ thenBody elseBody =>
    simp only [rename, label, Expr.size_rename, sizeAll_rename, Expr.label_rename,
      labelAll_rename _ thenBody, labelAll_rename _ elseBody]
  | forLoop _ initialization _ increment body =>
    simp only [rename, label, Expr.size_rename, sizeOption_rename, Expr.label_rename,
      labelOption_rename _ initialization, labelOption_rename _ increment, labelAll_rename _ body]
  | whileLoop _ _ body =>
    simp only [rename, label, Expr.size_rename, Expr.label_rename, labelAll_rename _ body]
  | ret _ _ => simp only [rename, label, Expr.label_rename]

private theorem labelAll_rename (n : NodeId) (ss : List (Stmt α)) :
    labelAll n (renameAll ρ ss) = renameAll ρ (labelAll n ss) := by
  match ss with
  | [] => rfl
  | s :: ss =>
    simp only [renameAll, labelAll, size_rename, label_rename _ s, labelAll_rename _ ss]

private theorem labelOption_rename (n : NodeId) (s : Option (Stmt α)) :
    labelOption n (renameOption ρ s) = renameOption ρ (labelOption n s) := by
  match s with
  | none => rfl
  | some s => simp only [renameOption, labelOption, label_rename _ s]

end

end Stmt

private theorem Field.size_rename (d : Field α) : (d.rename ρ).size = d.size := by
  simp only [rename, size, Expr.sizeOption_rename]

private theorem Field.label_rename (n : NodeId) (d : Field α) :
    (d.rename ρ).label n = (d.label n).rename ρ := by
  simp only [rename, label, Expr.labelOption_rename]

private theorem Field.sizeAll_rename (ds : List (Field α)) :
    sizeAll (ds.map (rename ρ)) = sizeAll ds := by
  induction ds with
  | nil => rfl
  | cons d ds ih => simp only [List.map_cons, sizeAll, size_rename, ih]

private theorem Field.labelAll_rename (n : NodeId) (ds : List (Field α)) :
    labelAll n (ds.map (rename ρ)) = (labelAll n ds).map (rename ρ) := by
  induction ds generalizing n with
  | nil => rfl
  | cons d ds ih => simp only [List.map_cons, labelAll, size_rename, label_rename, ih]

private theorem Method.size_rename (m : Method α) : (m.rename ρ).size = m.size := by
  simp only [rename, size, Stmt.sizeAll_rename]

private theorem Method.label_rename (n : NodeId) (m : Method α) :
    (m.rename ρ).label n = (m.label n).rename ρ := by
  simp only [rename, label, Stmt.labelAll_rename]

private theorem Method.labelAll_rename (n : NodeId) (ms : List (Method α)) :
    labelAll n (ms.map (rename ρ)) = (labelAll n ms).map (rename ρ) := by
  induction ms generalizing n with
  | nil => rfl
  | cons m ms ih => simp only [List.map_cons, labelAll, size_rename, label_rename, ih]

/-- Corresponding nodes of a tree and of the renamed tree have the same identities. -/
theorem Node.label_rename (n : NodeId) (tree : Node α) :
    (tree.rename ρ).label n = (tree.label n).rename ρ := by
  cases tree with
  | source s =>
    simp only [rename, label, Source.rename, Source.label, Field.labelAll_rename,
      Field.sizeAll_rename, Method.labelAll_rename]
  | field d => simp only [rename, label, Field.label_rename]
  | method m => simp only [rename, label, Method.label_rename]
  | stmt s => simp only [rename, label, Stmt.label_rename]
  | expr e => simp only [rename, label, Expr.label_rename]

end TreeCheck
