import Mathlib.Data.List.Forall2
import TreeCheck.Tree.Format

/-!
# The grammar of tree documents

Which tree a JSON value stands for, as rules over the kinds of nodes, with no reader in them: an
object is looked at only under the keys of its kind, a list may be left out, a part that may be
missing is left out or null, and a flag is set by whatever counts as true. Every tree has a
canonical document, which writes every key of every kind.
-/

namespace TreeCheck

open Json (Value)

/-! ### Keys -/

/-- The values that do not count as true. -/
inductive Json.Value.Falsy : Value → Prop
  | null : Falsy .null
  | false : Falsy (.bool false)
  | zero : Falsy (.integer 0)
  | decimalZero (negative : Bool) (exponent : Int) : Falsy (.decimal (.finite negative 0 exponent))
  | emptyString : Falsy (.string [])
  | emptyArray : Falsy (.array [])
  | emptyObject : Falsy (.object [])

namespace Json.Entries

/-- The object describes a node of a kind. -/
def IsOf (o : Entries) (kind : Kind) : Prop := o.get? "kind" = some (.string kind.keyword)

/-- A key is left out or null. -/
def Lacks (o : Entries) (key : Text) : Prop := o.get? key = none ∨ o.get? key = some .null

/-- A key holds something that counts as true. -/
def Flagged (o : Entries) (key : Text) : Prop := ∃ v, o.get? key = some v ∧ ¬ v.Falsy

/-- A key holds a string, or lacks one. -/
inductive Names (o : Entries) (key : Text) : Option Text → Prop
  | absent (h : o.Lacks key) : Names o key none
  | present {t : Text} (h : o.get? key = some (.string t)) : Names o key (some t)

/-- A key holds a list; one that is left out stands for the empty list. -/
inductive Lists (o : Entries) (key : Text) : List Value → Prop
  | absent (h : o.get? key = none) : Lists o key []
  | present {items : List Value} (h : o.get? key = some (.array items)) : Lists o key items

end Json.Entries

/-! ### Trees -/

/-- The literal that an object stands for. -/
inductive Literal.Denoted (o : Json.Entries) : Literal → Prop
  | character {c : CodePoint} (hflag : o.Flagged "character")
      (hvalue : o.get? "value" = some (.string [c])) : Denoted o (.character c)
  | nil (hflag : ¬ o.Flagged "character") (hvalue : o.Lacks "value") : Denoted o .nil
  | boolean {b : Bool} (hflag : ¬ o.Flagged "character")
      (hvalue : o.get? "value" = some (.bool b)) : Denoted o (.boolean b)
  | string {t : Text} (hflag : ¬ o.Flagged "character")
      (hvalue : o.get? "value" = some (.string t)) : Denoted o (.string t)
  | integer {n : Int} (hflag : ¬ o.Flagged "character")
      (hvalue : o.get? "value" = some (.integer n)) : Denoted o (.integer n)
  | decimal {d : Decimal} (hflag : ¬ o.Flagged "character")
      (hvalue : o.get? "value" = some (.decimal d)) : Denoted o (.decimal d)
  | nonFinite {n : Json.NonFinite} (hflag : ¬ o.Flagged "character")
      (hvalue : o.get? "value" = some (.nonFinite n)) : Denoted o (.nonFinite n)

namespace Expr

mutual

/-- The expression that a value stands for. -/
inductive Denoted : Value → Expr Unit → Prop
  | literal {o : Json.Entries} {value : Literal} (hkind : o.IsOf .literal)
      (hvalue : value.Denoted o) : Denoted (.object o) (.literal () value)
  | group {o : Json.Entries} {v : Value} {inner : Expr Unit} (hkind : o.IsOf .group)
      (hkey : o.get? "expression" = some v) (hinner : Denoted v inner) :
      Denoted (.object o) (.group () inner)
  | binary {o : Json.Entries} {operator : Text} {l r : Value} {left right : Expr Unit}
      (hkind : o.IsOf .binary) (hoperator : o.get? "operator" = some (.string operator))
      (hleftKey : o.get? "left" = some l) (hleft : Denoted l left)
      (hrightKey : o.get? "right" = some r) (hright : Denoted r right) :
      Denoted (.object o) (.binary () operator left right)
  | access {o : Json.Entries} {receiver : Option (Expr Unit)} {name : Text}
      (hkind : o.IsOf .access) (hreceiver : DenotedOption (o.get? "receiver") receiver)
      (hname : o.get? "name" = some (.string name)) :
      Denoted (.object o) (.access () receiver name)
  | call {o : Json.Entries} {receiver : Option (Expr Unit)} {name : Text} {items : List Value}
      {arguments : List (Expr Unit)} (hkind : o.IsOf .call)
      (hreceiver : DenotedOption (o.get? "receiver") receiver)
      (hname : o.get? "name" = some (.string name)) (hitems : o.Lists "arguments" items)
      (harguments : DenotedAll items arguments) :
      Denoted (.object o) (.call () receiver name arguments)

/-- The expression, if any, that what a key holds stands for. -/
inductive DenotedOption : Option Value → Option (Expr Unit) → Prop
  | absent : DenotedOption none none
  | null : DenotedOption (some .null) none
  | present {v : Value} {e : Expr Unit} (h : Denoted v e) : DenotedOption (some v) (some e)

/-- The expressions that the values of a list stand for. -/
inductive DenotedAll : List Value → List (Expr Unit) → Prop
  | nil : DenotedAll [] []
  | cons {v : Value} {e : Expr Unit} {vs : List Value} {es : List (Expr Unit)}
      (head : Denoted v e) (tail : DenotedAll vs es) : DenotedAll (v :: vs) (e :: es)

end

end Expr

namespace Stmt

mutual

/-- The statement that a value stands for. -/
inductive Denoted : Value → Stmt Unit → Prop
  | expression {o : Json.Entries} {v : Value} {e : Expr Unit} (hkind : o.IsOf .expression)
      (hkey : o.get? "expression" = some v) (hexpr : e.Denoted v) :
      Denoted (.object o) (.expression () e)
  | declaration {o : Json.Entries} {name : Text} {typeName : Option Text}
      {value : Option (Expr Unit)} (hkind : o.IsOf .declaration)
      (hname : o.get? "name" = some (.string name)) (htypeName : o.Names "type" typeName)
      (hvalue : Expr.DenotedOption (o.get? "value") value) :
      Denoted (.object o) (.declaration () name typeName value)
  | assignment {o : Json.Entries} {r v : Value} {receiver value : Expr Unit}
      (hkind : o.IsOf .assignment) (hreceiverKey : o.get? "receiver" = some r)
      (hreceiver : receiver.Denoted r) (hvalueKey : o.get? "value" = some v)
      (hvalue : value.Denoted v) : Denoted (.object o) (.assignment () receiver value)
  | ifElse {o : Json.Entries} {c : Value} {condition : Expr Unit} {ts es : List Value}
      {thenBody elseBody : List (Stmt Unit)} (hkind : o.IsOf .ifElse)
      (hkey : o.get? "condition" = some c) (hcondition : condition.Denoted c)
      (hthenItems : o.Lists "then" ts) (hthenBody : DenotedAll ts thenBody)
      (helseItems : o.Lists "else" es) (helseBody : DenotedAll es elseBody) :
      Denoted (.object o) (.ifElse () condition thenBody elseBody)
  | forLoop {o : Json.Entries} {initialization increment : Option (Stmt Unit)} {c : Value}
      {condition : Expr Unit} {items : List Value} {body : List (Stmt Unit)}
      (hkind : o.IsOf .forLoop)
      (hinitialization : DenotedOption (o.get? "initialization") initialization)
      (hkey : o.get? "condition" = some c) (hcondition : condition.Denoted c)
      (hincrement : DenotedOption (o.get? "increment") increment)
      (hitems : o.Lists "statements" items) (hbody : DenotedAll items body) :
      Denoted (.object o) (.forLoop () initialization condition increment body)
  | whileLoop {o : Json.Entries} {c : Value} {condition : Expr Unit} {items : List Value}
      {body : List (Stmt Unit)} (hkind : o.IsOf .whileLoop)
      (hkey : o.get? "condition" = some c) (hcondition : condition.Denoted c)
      (hitems : o.Lists "statements" items) (hbody : DenotedAll items body) :
      Denoted (.object o) (.whileLoop () condition body)
  | ret {o : Json.Entries} {v : Value} {value : Expr Unit} (hkind : o.IsOf .ret)
      (hkey : o.get? "value" = some v) (hvalue : value.Denoted v) :
      Denoted (.object o) (.ret () value)

/-- The statement, if any, that what a key holds stands for. -/
inductive DenotedOption : Option Value → Option (Stmt Unit) → Prop
  | absent : DenotedOption none none
  | null : DenotedOption (some .null) none
  | present {v : Value} {s : Stmt Unit} (h : Denoted v s) : DenotedOption (some v) (some s)

/-- The statements that the values of a list stand for. -/
inductive DenotedAll : List Value → List (Stmt Unit) → Prop
  | nil : DenotedAll [] []
  | cons {v : Value} {s : Stmt Unit} {vs : List Value} {ss : List (Stmt Unit)}
      (head : Denoted v s) (tail : DenotedAll vs ss) : DenotedAll (v :: vs) (s :: ss)

end

end Stmt

/-- The field that a value stands for. -/
inductive Field.Denoted : Value → Field Unit → Prop
  | mk {o : Json.Entries} {name typeName : Text} {constant : Bool} {value : Option (Expr Unit)}
      (hkind : o.IsOf .field) (hname : o.get? "name" = some (.string name))
      (htypeName : o.get? "type" = some (.string typeName))
      (hconstant : constant = true ↔ o.Flagged "constant")
      (hvalue : Expr.DenotedOption (o.get? "value") value) :
      Denoted (.object o) ⟨(), name, typeName, constant, value⟩

/-- The method that a value stands for. -/
inductive Method.Denoted : Value → Method Unit → Prop
  | mk {o : Json.Entries} {name : Text} {parameters parameterTypes : List Text}
      {returnType : Option Text} {items : List Value} {body : List (Stmt Unit)}
      (hkind : o.IsOf .method) (hname : o.get? "name" = some (.string name))
      (hparameters : o.Lists "parameters" (parameters.map .string))
      (hparameterTypes : o.Lists "parameter_types" (parameterTypes.map .string))
      (hreturnType : o.Names "return_type" returnType)
      (hitems : o.Lists "statements" items) (hbody : Stmt.DenotedAll items body) :
      Denoted (.object o) ⟨(), name, parameters, parameterTypes, returnType, body⟩

/-- The source that a value stands for. -/
inductive Source.Denoted : Value → Source Unit → Prop
  | mk {o : Json.Entries} {fs ms : List Value} {fields : List (Field Unit)}
      {methods : List (Method Unit)} (hkind : o.IsOf .source) (hfieldItems : o.Lists "fields" fs)
      (hfields : List.Forall₂ Field.Denoted fs fields) (hmethodItems : o.Lists "methods" ms)
      (hmethods : List.Forall₂ Method.Denoted ms methods) :
      Denoted (.object o) ⟨(), fields, methods⟩

/-- The tree that a value stands for. -/
inductive Node.Denoted : Value → Node Unit → Prop
  | source {v : Value} {s : Source Unit} (h : s.Denoted v) : Denoted v (.source s)
  | field {v : Value} {f : Field Unit} (h : f.Denoted v) : Denoted v (.field f)
  | method {v : Value} {m : Method Unit} (h : m.Denoted v) : Denoted v (.method m)
  | stmt {v : Value} {s : Stmt Unit} (h : s.Denoted v) : Denoted v (.stmt s)
  | expr {v : Value} {e : Expr Unit} (h : e.Denoted v) : Denoted v (.expr e)

/-! ### The canonical document of a tree -/

/-- An object that describes a node of a kind. -/
def Kind.object (kind : Kind) (entries : Json.Entries) : Value :=
  .object (("kind", .string kind.keyword) :: entries)

/-- What the canonical document of a literal holds beside its kind. -/
def Literal.toEntries : Literal → Json.Entries
  | nil => [("value", .null), ("character", .bool false)]
  | boolean b => [("value", .bool b), ("character", .bool false)]
  | character c => [("value", .string [c]), ("character", .bool true)]
  | string t => [("value", .string t), ("character", .bool false)]
  | integer n => [("value", .integer n), ("character", .bool false)]
  | decimal d => [("value", .decimal d), ("character", .bool false)]
  | nonFinite n => [("value", .nonFinite n), ("character", .bool false)]

/-- A string that may be absent, as a value. -/
def Json.Value.ofText? : Option Text → Value
  | none => .null
  | some t => .string t

namespace Expr

mutual

/-- The canonical document of an expression. -/
def toJson : Expr Unit → Value
  | literal _ value => Kind.literal.object value.toEntries
  | group _ inner => Kind.group.object [("expression", inner.toJson)]
  | binary _ operator left right =>
    Kind.binary.object
      [("operator", .string operator), ("left", left.toJson), ("right", right.toJson)]
  | access _ receiver name =>
    Kind.access.object [("receiver", toJsonOption receiver), ("name", .string name)]
  | call _ receiver name arguments =>
    Kind.call.object [("receiver", toJsonOption receiver), ("name", .string name),
      ("arguments", .array (toJsonAll arguments))]

/-- The canonical document of an expression that may be absent. -/
def toJsonOption : Option (Expr Unit) → Value
  | none => .null
  | some e => e.toJson

/-- The canonical documents of a list of expressions. -/
def toJsonAll : List (Expr Unit) → List Value
  | [] => []
  | e :: es => e.toJson :: toJsonAll es

end

end Expr

namespace Stmt

mutual

/-- The canonical document of a statement. -/
def toJson : Stmt Unit → Value
  | expression _ e => Kind.expression.object [("expression", e.toJson)]
  | declaration _ name typeName value =>
    Kind.declaration.object [("name", .string name), ("type", .ofText? typeName),
      ("value", Expr.toJsonOption value)]
  | assignment _ receiver value =>
    Kind.assignment.object [("receiver", receiver.toJson), ("value", value.toJson)]
  | ifElse _ condition thenBody elseBody =>
    Kind.ifElse.object [("condition", condition.toJson), ("then", .array (toJsonAll thenBody)),
      ("else", .array (toJsonAll elseBody))]
  | forLoop _ initialization condition increment body =>
    Kind.forLoop.object [("initialization", toJsonOption initialization),
      ("condition", condition.toJson), ("increment", toJsonOption increment),
      ("statements", .array (toJsonAll body))]
  | whileLoop _ condition body =>
    Kind.whileLoop.object
      [("condition", condition.toJson), ("statements", .array (toJsonAll body))]
  | ret _ value => Kind.ret.object [("value", value.toJson)]

/-- The canonical document of a statement that may be absent. -/
def toJsonOption : Option (Stmt Unit) → Value
  | none => .null
  | some s => s.toJson

/-- The canonical documents of a list of statements. -/
def toJsonAll : List (Stmt Unit) → List Value
  | [] => []
  | s :: ss => s.toJson :: toJsonAll ss

end

end Stmt

/-- The canonical document of a field. -/
def Field.toJson (f : Field Unit) : Value :=
  Kind.field.object [("name", .string f.name), ("type", .string f.typeName),
    ("constant", .bool f.constant), ("value", Expr.toJsonOption f.value)]

/-- The canonical document of a method. -/
def Method.toJson (m : Method Unit) : Value :=
  Kind.method.object [("name", .string m.name), ("parameters", .array (m.parameters.map .string)),
    ("parameter_types", .array (m.parameterTypes.map .string)),
    ("return_type", .ofText? m.returnType), ("statements", .array (Stmt.toJsonAll m.body))]

/-- The canonical document of a source. -/
def Source.toJson (s : Source Unit) : Value :=
  Kind.source.object
    [("fields", .array (s.fields.map Field.toJson)),
     ("methods", .array (s.methods.map Method.toJson))]

/-- The canonical document of a tree. -/
def Node.toJson : Node Unit → Value
  | source s => s.toJson
  | field f => f.toJson
  | method m => m.toJson
  | stmt s => s.toJson
  | expr e => e.toJson

/-! ### Every tree is denoted by its canonical document -/

/-- A flag that holds a Boolean is set if the Boolean is true. -/
theorem Json.Entries.flagged_iff_of_bool {o : Json.Entries} {key : Text} {b : Bool}
    (h : o.get? key = some (.bool b)) : b = true ↔ o.Flagged key := by
  constructor
  · intro hb
    refine ⟨_, h, ?_⟩
    intro hfalsy
    cases hfalsy
    cases hb
  · intro ⟨v, hv, htrue⟩
    rw [h] at hv
    cases hv
    cases b with
    | true => rfl
    | false => exact absurd .false htrue

/-- A flag that holds false is not set. -/
theorem Json.Entries.not_flagged_of_false {o : Json.Entries} {key : Text}
    (h : o.get? key = some (.bool false)) : ¬ o.Flagged key := by
  intro hflag
  have := (flagged_iff_of_bool h).mpr hflag
  cases this

private theorem Json.Entries.names_ofText? {o : Json.Entries} {key : Text} {t : Option Text}
    (h : o.get? key = some (.ofText? t)) : o.Names key t := by
  cases t with
  | none => exact .absent (.inr h)
  | some t => exact .present h

private theorem Literal.denoted_toEntries (l : Literal) :
    l.Denoted (("kind", .string Kind.literal.keyword) :: l.toEntries) := by
  cases l with
  | character c => exact .character ((Json.Entries.flagged_iff_of_bool rfl).mp rfl) rfl
  | nil => exact .nil (Json.Entries.not_flagged_of_false rfl) (.inr rfl)
  | boolean b => exact .boolean (Json.Entries.not_flagged_of_false rfl) rfl
  | string t => exact .string (Json.Entries.not_flagged_of_false rfl) rfl
  | integer n => exact .integer (Json.Entries.not_flagged_of_false rfl) rfl
  | decimal d => exact .decimal (Json.Entries.not_flagged_of_false rfl) rfl
  | nonFinite n => exact .nonFinite (Json.Entries.not_flagged_of_false rfl) rfl

namespace Expr

mutual

private theorem denoted_toJson (e : Expr Unit) : e.Denoted e.toJson := by
  cases e with
  | literal tag value => exact .literal rfl value.denoted_toEntries
  | group tag inner => exact .group rfl rfl inner.denoted_toJson
  | binary tag operator left right =>
    exact .binary rfl rfl rfl left.denoted_toJson rfl right.denoted_toJson
  | access tag receiver name => exact .access rfl (denoted_toJsonOption receiver) rfl
  | call tag receiver name arguments =>
    exact .call rfl (denoted_toJsonOption receiver) rfl (.present rfl)
      (denoted_toJsonAll arguments)

private theorem denoted_toJsonOption (e : Option (Expr Unit)) :
    DenotedOption (some (toJsonOption e)) e := by
  cases e with
  | none => exact .null
  | some e => exact .present e.denoted_toJson

private theorem denoted_toJsonAll (es : List (Expr Unit)) : DenotedAll (toJsonAll es) es := by
  cases es with
  | nil => exact .nil
  | cons e es => exact .cons e.denoted_toJson (denoted_toJsonAll es)

end

end Expr

namespace Stmt

mutual

private theorem denoted_toJson (s : Stmt Unit) : s.Denoted s.toJson := by
  cases s with
  | expression tag e => exact .expression rfl rfl e.denoted_toJson
  | declaration tag name typeName value =>
    exact .declaration rfl rfl (Json.Entries.names_ofText? rfl) (Expr.denoted_toJsonOption value)
  | assignment tag receiver value =>
    exact .assignment rfl rfl receiver.denoted_toJson rfl value.denoted_toJson
  | ifElse tag condition thenBody elseBody =>
    exact .ifElse rfl rfl condition.denoted_toJson (.present rfl) (denoted_toJsonAll thenBody)
      (.present rfl) (denoted_toJsonAll elseBody)
  | forLoop tag initialization condition increment body =>
    exact .forLoop rfl (denoted_toJsonOption initialization) rfl condition.denoted_toJson
      (denoted_toJsonOption increment) (.present rfl) (denoted_toJsonAll body)
  | whileLoop tag condition body =>
    exact .whileLoop rfl rfl condition.denoted_toJson (.present rfl) (denoted_toJsonAll body)
  | ret tag value => exact .ret rfl rfl value.denoted_toJson

private theorem denoted_toJsonOption (s : Option (Stmt Unit)) :
    DenotedOption (some (toJsonOption s)) s := by
  cases s with
  | none => exact .null
  | some s => exact .present s.denoted_toJson

private theorem denoted_toJsonAll (ss : List (Stmt Unit)) : DenotedAll (toJsonAll ss) ss := by
  cases ss with
  | nil => exact .nil
  | cons s ss => exact .cons s.denoted_toJson (denoted_toJsonAll ss)

end

end Stmt

private theorem Field.denoted_toJson (f : Field Unit) : f.Denoted f.toJson :=
  .mk rfl rfl rfl (Json.Entries.flagged_iff_of_bool rfl) (Expr.denoted_toJsonOption f.value)

private theorem Method.denoted_toJson (m : Method Unit) : m.Denoted m.toJson :=
  .mk rfl rfl (.present rfl) (.present rfl) (Json.Entries.names_ofText? rfl) (.present rfl)
    (Stmt.denoted_toJsonAll m.body)

private theorem Source.denoted_toJson (s : Source Unit) : s.Denoted s.toJson := by
  refine .mk rfl (.present rfl) ?_ (.present rfl) ?_
  · rw [List.forall₂_map_left_iff, List.forall₂_same]
    intro f hf
    exact f.denoted_toJson
  · rw [List.forall₂_map_left_iff, List.forall₂_same]
    intro m hm
    exact m.denoted_toJson

/-- The grammar covers all trees. -/
theorem Node.denoted_toJson (t : Node Unit) : t.Denoted t.toJson := by
  cases t with
  | source s => exact .source s.denoted_toJson
  | field f => exact .field f.denoted_toJson
  | method m => exact .method m.denoted_toJson
  | stmt s => exact .stmt s.denoted_toJson
  | expr e => exact .expr e.denoted_toJson

end TreeCheck
