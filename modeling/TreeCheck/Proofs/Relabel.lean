import TreeCheck.Tree.Label

/-!
# Trees with other identities

Changing the tags of a tree keeps its shape. Two labellings of a tree differ by a shift of the
identities, so each is the other with its tags changed.
-/

namespace TreeCheck

variable {α β : Type}

/-! ### What stays -/

namespace Expr

/-- Other tags keep the kind of an expression. -/
@[simp] theorem kind_map (f : α → β) (e : Expr α) : (e.map f).kind = e.kind := by
  cases e with
  | literal _ _ => rfl
  | group _ _ => rfl
  | binary _ _ _ _ => rfl
  | access _ receiver _ => cases receiver <;> rfl
  | call _ receiver _ _ => cases receiver <;> rfl

/-- Other tags keep the number of expressions. -/
@[simp] theorem length_mapAll (f : α → β) (es : List (Expr α)) :
    (mapAll f es).length = es.length := by
  induction es with
  | nil => rfl
  | cons e es ih => simp [mapAll, ih]

end Expr

/-- Other tags make no list of statements empty. -/
@[simp] theorem Stmt.mapAll_eq_nil_iff (f : α → β) (ss : List (Stmt α)) :
    mapAll f ss = [] ↔ ss = [] := by
  cases ss <;> simp [mapAll]

/-! ### The same tags -/

namespace Expr

mutual

/-- The same tags make the same expression. -/
@[simp] theorem map_id (e : Expr α) : e.map id = e := by
  match e with
  | literal _ _ => rfl
  | group _ inner => simp only [map, id, map_id inner]
  | binary _ _ left right => simp only [map, id, map_id left, map_id right]
  | access _ none _ => rfl
  | access _ (some receiver) _ => simp only [map, id, map_id receiver]
  | call _ none _ arguments => simp only [map, id, mapAll_id arguments]
  | call _ (some receiver) _ arguments =>
    simp only [map, id, map_id receiver, mapAll_id arguments]

/-- The same tags make the same expressions. -/
@[simp] theorem mapAll_id (es : List (Expr α)) : mapAll id es = es := by
  match es with
  | [] => rfl
  | e :: es => simp only [mapAll, map_id e, mapAll_id es]

end

private theorem mapOption_id (e : Option (Expr α)) : (e.map fun e ↦ e.map id) = e := by
  cases e <;> simp

end Expr

namespace Stmt

mutual

/-- The same tags make the same statement. -/
@[simp] theorem map_id (s : Stmt α) : s.map id = s := by
  match s with
  | expression _ e => simp only [map, id, Expr.map_id]
  | declaration _ _ _ value => simp only [map, id, Expr.mapOption_id]
  | assignment _ _ _ => simp only [map, id, Expr.map_id]
  | ifElse _ _ thenBody elseBody =>
    simp only [map, id, Expr.map_id, mapAll_id thenBody, mapAll_id elseBody]
  | forLoop _ initialization _ increment body =>
    simp only [map, id, Expr.map_id, mapOption_id initialization, mapOption_id increment,
      mapAll_id body]
  | whileLoop _ _ body => simp only [map, id, Expr.map_id, mapAll_id body]
  | ret _ _ => simp only [map, id, Expr.map_id]

/-- The same tags make the same statements. -/
@[simp] theorem mapAll_id (ss : List (Stmt α)) : mapAll id ss = ss := by
  match ss with
  | [] => rfl
  | s :: ss => simp only [mapAll, map_id s, mapAll_id ss]

/-- The same tags make the same statement, if there is one. -/
@[simp] theorem mapOption_id (s : Option (Stmt α)) : mapOption id s = s := by
  match s with
  | none => rfl
  | some s => simp only [mapOption, map_id s]

end

end Stmt

/-- The same tags make the same field. -/
@[simp] theorem Field.map_id (d : Field α) : d.map id = d := by
  simp only [map, id, Expr.mapOption_id]

/-- The same tags make the same method. -/
@[simp] theorem Method.map_id (m : Method α) : m.map id = m := by
  simp only [map, id, Stmt.mapAll_id]

/-- A tree whose tags are kept is the same tree. -/
@[simp] theorem Node.map_id (tree : Node α) : tree.map id = tree := by
  cases tree with
  | source s =>
    have hf : (fun d : Field α ↦ d.map id) = id := funext Field.map_id
    have hm : (fun m : Method α ↦ m.map id) = id := funext Method.map_id
    rw [map, Source.map, hf, hm, List.map_id, List.map_id, id]
  | field d => simp only [map, Field.map_id]
  | method m => simp only [map, Method.map_id]
  | stmt s => simp only [map, Stmt.map_id]
  | expr e => simp only [map, Expr.map_id]

/-! ### Labels that are shifted -/

/-- A change of identities that moves those from `n` on to those from `m` on. -/
def Shifts (f : NodeId → NodeId) (n m : NodeId) : Prop := ∀ i, f (n + i) = m + i

/-- Move the identities from `n` on to those from `m` on. -/
def shift (n m : NodeId) (id : NodeId) : NodeId := id - n + m

/-- The shift from one number to another shifts the numbers from there on. -/
theorem shifts_shift (n m : NodeId) : Shifts (shift n m) n m := by
  intro i
  rw [shift, Nat.add_sub_cancel_left, Nat.add_comm]

namespace Shifts

variable {f : NodeId → NodeId} {n m : NodeId}

private theorem self (h : Shifts f n m) : f n = m := h 0

private theorem add (h : Shifts f n m) (k : Nat) : Shifts f (n + k) (m + k) := by
  intro i
  rw [Nat.add_assoc, h, Nat.add_assoc]

end Shifts

variable {f : NodeId → NodeId}

namespace Expr

mutual

private theorem map_label {n m : NodeId} (h : Shifts f n m) (e : Expr α) :
    (e.label n).map f = e.label m := by
  match e with
  | literal _ _ => simp only [label, map, h.self]
  | group _ inner => simp only [label, map, h.self, map_label (h.add 1) inner]
  | binary _ _ left right =>
    simp only [label, map, h.self, map_label (h.add 1) left,
      map_label ((h.add 1).add left.size) right]
  | access _ none _ => simp only [label, map, h.self]
  | access _ (some receiver) _ => simp only [label, map, h.self, map_label (h.add 1) receiver]
  | call _ none _ arguments => simp only [label, map, h.self, mapAll_label (h.add 1) arguments]
  | call _ (some receiver) _ arguments =>
    simp only [label, map, h.self, map_label (h.add 1) receiver,
      mapAll_label ((h.add 1).add receiver.size) arguments]

private theorem mapAll_label {n m : NodeId} (h : Shifts f n m) (es : List (Expr α)) :
    mapAll f (labelAll n es) = labelAll m es := by
  match es with
  | [] => rfl
  | e :: es => simp only [labelAll, mapAll, map_label h e, mapAll_label (h.add e.size) es]

end

private theorem mapOption_label {n m : NodeId} (h : Shifts f n m) (e : Option (Expr α)) :
    ((labelOption n e).map fun e ↦ e.map f) = labelOption m e := by
  cases e with
  | none => rfl
  | some e => simp only [labelOption, Option.map_some, map_label h e]

end Expr

namespace Stmt

mutual

private theorem map_label {n m : NodeId} (h : Shifts f n m) (s : Stmt α) :
    (s.label n).map f = s.label m := by
  match s with
  | expression _ e => simp only [label, map, h.self, Expr.map_label (h.add 1)]
  | declaration _ _ _ _ => simp only [label, map, h.self, Expr.mapOption_label (h.add 1)]
  | assignment _ receiver _ =>
    simp only [label, map, h.self, Expr.map_label (h.add 1),
      Expr.map_label ((h.add 1).add receiver.size)]
  | ifElse _ condition thenBody elseBody =>
    have hthen := (h.add 1).add condition.size
    simp only [label, map, h.self, Expr.map_label (h.add 1), mapAll_label hthen thenBody,
      mapAll_label (hthen.add (sizeAll thenBody)) elseBody]
  | forLoop _ initialization condition increment body =>
    have hcond := (h.add 1).add (sizeOption initialization)
    have hstep := hcond.add condition.size
    simp only [label, map, h.self, mapOption_label (h.add 1) initialization,
      Expr.map_label hcond, mapOption_label hstep increment,
      mapAll_label (hstep.add (sizeOption increment)) body]
  | whileLoop _ condition body =>
    simp only [label, map, h.self, Expr.map_label (h.add 1),
      mapAll_label ((h.add 1).add condition.size) body]
  | ret _ _ => simp only [label, map, h.self, Expr.map_label (h.add 1)]

private theorem mapAll_label {n m : NodeId} (h : Shifts f n m) (ss : List (Stmt α)) :
    mapAll f (labelAll n ss) = labelAll m ss := by
  match ss with
  | [] => rfl
  | s :: ss => simp only [labelAll, mapAll, map_label h s, mapAll_label (h.add s.size) ss]

private theorem mapOption_label {n m : NodeId} (h : Shifts f n m) (s : Option (Stmt α)) :
    mapOption f (labelOption n s) = labelOption m s := by
  match s with
  | none => rfl
  | some s => simp only [labelOption, mapOption, map_label h s]

end

end Stmt

variable {n m : NodeId}

private theorem Field.map_label (h : Shifts f n m) (d : Field α) :
    (d.label n).map f = d.label m := by
  simp only [label, map, h.self, Expr.mapOption_label (h.add 1)]

/-- Shifting the labels of fields gives the labels from the other number on. -/
theorem Field.map_labelAll (h : Shifts f n m) (ds : List (Field α)) :
    ((labelAll n ds).map fun d ↦ d.map f) = labelAll m ds := by
  induction ds generalizing n m with
  | nil => rfl
  | cons d ds ih => simp only [labelAll, List.map_cons, map_label h d, ih (h.add d.size)]

/-- Shifting the labels of a method gives the labels from the other number on. -/
theorem Method.map_label (h : Shifts f n m) (d : Method α) : (d.label n).map f = d.label m := by
  simp only [label, map, h.self, Stmt.mapAll_label (h.add 1)]

end TreeCheck
