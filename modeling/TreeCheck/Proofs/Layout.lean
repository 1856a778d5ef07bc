import Mathlib.Data.List.Forall2
import Mathlib.Data.List.Nodup
import Mathlib.Data.Option.Basic
import Mathlib.Logic.Relation
import TreeCheck.Proofs.Reading

/-!
# The layout of a document

A reader looks an object up under the keys of its kind and never sees anything else of it: neither
the order of its entries nor the entries under other keys. So changes of this sort, anywhere in a
document, leave the result as it is, also which mistake is reported when there are several.

Entries can be added only to the objects that describe nodes. Elsewhere an object that is empty does
not count as true, and one with an entry does.
-/

namespace TreeCheck

open Json (Value)

/-! ### Places in a document -/

/-- What a value in a document is there for. -/
inductive Role where
  | node
  | nodes
  | data
deriving DecidableEq

/-- The role of the items of a list. -/
def Role.item : Role → Role
  | nodes => node
  | _ => data

/-- The keys that are looked up for a kind, beside the one that names it. -/
def Kind.keys : Kind → List (Text × Role)
  | literal => [("value", .data), ("character", .data)]
  | group => [("expression", .node)]
  | binary => [("operator", .data), ("left", .node), ("right", .node)]
  | access => [("receiver", .node), ("name", .data)]
  | call => [("receiver", .node), ("name", .data), ("arguments", .nodes)]
  | expression => [("expression", .node)]
  | declaration => [("type", .data), ("name", .data), ("value", .node)]
  | assignment => [("receiver", .node), ("value", .node)]
  | ifElse => [("condition", .node), ("then", .nodes), ("else", .nodes)]
  | forLoop =>
    [("initialization", .node), ("condition", .node), ("increment", .node), ("statements", .nodes)]
  | whileLoop => [("condition", .node), ("statements", .nodes)]
  | ret => [("value", .node)]
  | field => [("name", .data), ("type", .data), ("constant", .data), ("value", .node)]
  | method =>
    [("return_type", .data), ("name", .data), ("parameters", .data), ("parameter_types", .data),
     ("statements", .nodes)]
  | source => [("fields", .nodes), ("methods", .nodes)]

private theorem Kind.keys_lookup_kind (k : Kind) : k.keys.lookup (Text.ofString "kind") = none := by
  cases k <;> decide

namespace Json.Entries

/-- The kind of the node that an object describes. -/
def kind? (o : Entries) : Option Kind :=
  match o.kind with
  | .ok name => Kind.ofKeyword? name
  | .error _ => none

/-- The role of what stands under a key in the object of a node, if the key is looked up. -/
def role? (o : Entries) (key : Text) : Option Role :=
  if key = "kind" then some .data else o.kind?.bind fun k ↦ k.keys.lookup key

end Json.Entries

/-- The role of what stands under a key in an object with a role. -/
def Role.entry (role : Role) (o : Json.Entries) (key : Text) : Role :=
  if role = .node then (o.role? key).getD .data else .data

/-- One change to the layout of a value with a role. -/
inductive Rearranged : Role → Value → Value → Prop
  /-- The entries of an object with distinct keys are put in another order. -/
  | reorder {role : Role} {o o' : Json.Entries} (hkeys : (o.map Prod.fst).Nodup) (h : o.Perm o') :
      Rearranged role (.object o) (.object o')
  /-- The object of a node is given an entry under a new key, which is not looked up. -/
  | add {before after : Json.Entries} {key : Text} (v : Value)
      (hnew : key ∉ (before ++ after).map Prod.fst)
      (hrole : Json.Entries.role? (before ++ after) key = none) :
      Rearranged .node (.object (before ++ after)) (.object (before ++ (key, v) :: after))
  /-- The change is made under a key. -/
  | entry {role : Role} {before after : Json.Entries} {key : Text} {v v' : Value}
      (h : Rearranged (role.entry (before ++ (key, v) :: after) key) v v') :
      Rearranged role (.object (before ++ (key, v) :: after))
        (.object (before ++ (key, v') :: after))
  /-- The change is made to an item of a list. -/
  | item {role : Role} {before after : List Value} {v v' : Value}
      (h : Rearranged role.item v v') :
      Rearranged role (.array (before ++ v :: after)) (.array (before ++ v' :: after))

/-! ### Values that are read alike -/

namespace Json.Value

/-- Both are the same string, or neither is a string. -/
def SameString (v v' : Value) : Prop := ∀ t, v = .string t ↔ v' = .string t

/-- The values are alike where no node is expected. -/
inductive SameData : Value → Value → Prop
  | refl (v : Value) : SameData v v
  | array {vs vs' : List Value} (h : vs.Forall₂ SameString vs') : SameData (.array vs) (.array vs')
  | object {o o' : Entries} (h : o.isEmpty = o'.isEmpty) : SameData (.object o) (.object o')

/-- Whatever node is expected, the values are read alike. -/
structure SameNode (v v' : Value) : Prop where
  null : v = .null ↔ v' = .null
  expr : Expr.ofJson v = Expr.ofJson v'
  stmt : Stmt.ofJson v = Stmt.ofJson v'
  field : Field.ofJson v = Field.ofJson v'
  method : Method.ofJson v = Method.ofJson v'
  node : Node.ofJson v = Node.ofJson v'

/-- The values are lists of nodes that are read alike, or no lists. -/
inductive SameNodes : Value → Value → Prop
  | array {vs vs' : List Value} (h : vs.Forall₂ SameNode vs') : SameNodes (.array vs) (.array vs')
  | other {v v' : Value} (h : ∀ vs, v ≠ .array vs) (h' : ∀ vs, v' ≠ .array vs) : SameNodes v v'

/-- The values are alike in a role. -/
def Alike : Role → Value → Value → Prop
  | .node => SameNode
  | .nodes => SameNodes
  | .data => SameData

/-- A value is the same node as itself. -/
theorem SameNode.refl (v : Value) : SameNode v v := ⟨Iff.rfl, rfl, rfl, rfl, rfl, rfl⟩

/-- No list is read as a node. -/
theorem SameNode.array (vs vs' : List Value) : SameNode (.array vs) (.array vs') := by
  refine ⟨⟨nofun, nofun⟩, ?_, ?_, rfl, rfl, rfl⟩
  · simp only [Expr.ofJson, Value.sort]
  · simp only [Stmt.ofJson, Value.sort]

private theorem SameNodes.refl (v : Value) : SameNodes v v := by
  cases v with
  | array vs => exact .array (List.forall₂_same.mpr fun v _ ↦ .refl v)
  | _ => exact .other nofun nofun

private theorem Alike.refl (role : Role) (v : Value) : Alike role v v := by
  cases role with
  | node => exact SameNode.refl v
  | nodes => exact SameNodes.refl v
  | data => exact SameData.refl v

/-- Values with the same data are the same string, if they are strings. -/
theorem SameData.sameString {v v' : Value} (h : SameData v v') : SameString v v' := by
  cases h with
  | refl => exact fun t ↦ Iff.rfl
  | array | object => exact fun t ↦ ⟨nofun, nofun⟩

end Json.Value

/-! ### Reading a key -/

private theorem except_mapM_congr {α β ε : Type} {f : α → Except ε β} {xs ys : List α}
    (h : xs.Forall₂ (fun x y ↦ f x = f y) ys) : xs.mapM f = ys.mapM f := by
  induction h with
  | nil => rfl
  | cons head _ ih => rw [List.mapM_cons, List.mapM_cons, head, ih]

private theorem except_bind_congr {α β ε : Type} {x : Except ε α} {f g : α → Except ε β}
    (h : ∀ a, x = .ok a → f a = g a) : x >>= f = x >>= g := by
  cases x with
  | error e => rfl
  | ok a => exact h a rfl

private theorem Expr.ofJsonAll_eq_mapM (vs : List Value) : ofJsonAll vs = vs.mapM ofJson := by
  induction vs with
  | nil => rw [ofJsonAll, List.mapM_nil]; rfl
  | cons v vs ih => rw [ofJsonAll, List.mapM_cons, ih]

private theorem Stmt.ofJsonAll_eq_mapM (vs : List Value) : ofJsonAll vs = vs.mapM ofJson := by
  induction vs with
  | nil => rw [ofJsonAll, List.mapM_nil]; rfl
  | cons v vs ih => rw [ofJsonAll, List.mapM_cons, ih]

namespace Json.Value.SameNode

variable {v v' : Value}

private theorem exprOption (h : SameNode v v') : Expr.optional v = Expr.optional v' := by
  rw [Expr.optional.eq_def, Expr.optional.eq_def]
  split
  · rw [h.null.mp rfl]
  · next hne =>
    split
    · exact absurd (h.null.mpr rfl) hne
    · rw [h.expr]

private theorem stmtOption (h : SameNode v v') : Stmt.optional v = Stmt.optional v' := by
  rw [Stmt.optional.eq_def, Stmt.optional.eq_def]
  split
  · rw [h.null.mp rfl]
  · next hne =>
    split
    · exact absurd (h.null.mpr rfl) hne
    · rw [h.stmt]

end Json.Value.SameNode

namespace Json.Entries

open Value (Alike SameData SameNode SameNodes SameString)

variable {o o' : Entries} {key : Text} {role : Role} {kind : Kind}

private theorem items_of_ne_array {v : Value} (h : o.get? key = some v)
    (hne : ∀ vs, v ≠ .array vs) :
    o.items key = [] := by
  rw [items, h]
  split
  · next vs heq => exact absurd (Option.some.inj heq) (hne vs)
  · rfl

private theorem requireList_of_ne_array {v : Value} (h : o.get? key = some v)
    (hne : ∀ vs, v ≠ .array vs) : o.requireList kind key = .error (.notAList kind key) := by
  rw [requireList, h]
  split
  · next heq => cases heq
  · next vs heq => exact absurd (Option.some.inj heq) (hne vs)
  · rfl

/-- The objects are alike under a key. -/
def AlikeAt (o o' : Entries) (role : Role) (key : Text) : Prop :=
  Option.Rel (Alike role) (o.get? key) (o'.get? key)

namespace AlikeAt

private theorem of_eq (h : o.get? key = o'.get? key) : AlikeAt o o' role key := by
  rw [AlikeAt, h]
  cases o'.get? key with
  | none => exact .none
  | some v => exact .some (.refl role v)

/-- Apart from values that are the same, only lists and objects are alike as data. -/
theorem data_cases (h : AlikeAt o o' .data key) :
    o.get? key = o'.get? key ∨
      (∃ vs vs', o.get? key = some (.array vs) ∧ o'.get? key = some (.array vs') ∧
        vs.Forall₂ SameString vs') ∨
      ∃ p p', o.get? key = some (.object p) ∧ o'.get? key = some (.object p') ∧
        p.isEmpty = p'.isEmpty := by
  rw [AlikeAt] at h
  generalize o.get? key = x at h ⊢
  generalize o'.get? key = x' at h ⊢
  cases h with
  | none => exact .inl rfl
  | some h =>
    cases h with
    | refl v => exact .inl rfl
    | array h => exact .inr (.inl ⟨_, _, rfl, rfl, h⟩)
    | object h => exact .inr (.inr ⟨_, _, rfl, rfl, h⟩)

private theorem kind_eq (h : AlikeAt o o' .data "kind") : o.kind = o'.kind := by
  rcases h.data_cases with h | ⟨_, _, h, h', -⟩ | ⟨_, _, h, h', -⟩ <;> simp [Entries.kind, *]

private theorem string_eq (h : AlikeAt o o' .data key) :
    o.string kind key = o'.string kind key := by
  rcases h.data_cases with h | ⟨_, _, h, h', -⟩ | ⟨_, _, h, h', -⟩ <;> simp [Entries.string, *]

private theorem string?_eq (h : AlikeAt o o' .data key) :
    o.string? kind key = o'.string? kind key := by
  rcases h.data_cases with h | ⟨_, _, h, h', -⟩ | ⟨_, _, h, h', -⟩ <;> simp [string?, child, *]

private theorem flag_eq (h : AlikeAt o o' .data key) : o.flag key = o'.flag key := by
  rcases h.data_cases with h | ⟨vs, vs', h, h', hitems⟩ | ⟨_, _, h, h', hempty⟩
  · simp [flag, child, h]
  · have hempty : vs.isEmpty = vs'.isEmpty := by cases hitems <;> rfl
    simp [flag, child, Value.isTrue, h, h', hempty]
  · simp [flag, child, Value.isTrue, h, h', hempty]

private theorem strings_eq (h : AlikeAt o o' .data key) :
    o.strings kind key = o'.strings kind key := by
  rcases h.data_cases with h | ⟨vs, vs', h, h', hitems⟩ | ⟨_, _, h, h', -⟩
  · simp [strings, requireList, items, h]
  · simp only [strings, requireList, items, h, h']
    congr 1
    funext _
    refine except_mapM_congr (hitems.imp fun v v' hstring ↦ ?_)
    split
    · next t => rw [(hstring t).mp rfl]
    · next hne =>
      split
      · next t => exact absurd ((hstring t).mpr rfl) (hne t)
      · rfl
  · simp [strings, requireList, items, h, h']

private theorem literal_eq (hvalue : AlikeAt o o' .data "value")
    (hflag : AlikeAt o o' .data "character") :
    Literal.ofEntries o = Literal.ofEntries o' := by
  rw [Literal.ofEntries, Literal.ofEntries, hflag.flag_eq]
  rcases hvalue.data_cases with h | ⟨_, _, h, h', -⟩ | ⟨_, _, h, h', -⟩ <;> simp [child, *]

private theorem sameNode (h : AlikeAt o o' .node key) : SameNode (o.child key) (o'.child key) := by
  rw [AlikeAt] at h
  rw [child, child]
  generalize o.get? key = x at h ⊢
  generalize o'.get? key = x' at h ⊢
  cases h with
  | none => exact .refl .null
  | some h => exact h

/-- Both hold lists of nodes that are read alike, both hold something else, or neither holds
anything. -/
theorem nodes_cases (h : AlikeAt o o' .nodes key) :
    (∃ vs vs', o.get? key = some (.array vs) ∧ o'.get? key = some (.array vs') ∧
        vs.Forall₂ SameNode vs') ∨
      (∃ v v', o.get? key = some v ∧ o'.get? key = some v' ∧ (∀ vs, v ≠ .array vs) ∧
        ∀ vs, v' ≠ .array vs) ∨
      o.get? key = none ∧ o'.get? key = none := by
  rw [AlikeAt] at h
  generalize o.get? key = x at h ⊢
  generalize o'.get? key = x' at h ⊢
  cases h with
  | none => exact .inr (.inr ⟨rfl, rfl⟩)
  | some h =>
    cases h with
    | array h => exact .inl ⟨_, _, rfl, rfl, h⟩
    | other h h' => exact .inr (.inl ⟨_, _, rfl, rfl, h, h'⟩)

private theorem requireList_eq (h : AlikeAt o o' .nodes key) :
    o.requireList kind key = o'.requireList kind key := by
  rcases h.nodes_cases with ⟨_, _, h, h', -⟩ | ⟨v, v', h, h', hne, hne'⟩ | ⟨h, h'⟩
  · rw [requireList, requireList, h, h']
  · rw [requireList_of_ne_array h hne, requireList_of_ne_array h' hne']
  · rw [requireList, requireList, h, h']

private theorem items_forall₂ (h : AlikeAt o o' .nodes key) :
    (o.items key).Forall₂ SameNode (o'.items key) := by
  rcases h.nodes_cases with ⟨_, _, h, h', hitems⟩ | ⟨v, v', h, h', hne, hne'⟩ | ⟨h, h'⟩
  · rw [items, items, h, h']
    exact hitems
  · rw [items_of_ne_array h hne, items_of_ne_array h' hne']
    exact .nil
  · rw [items, items, h, h']
    exact .nil

private theorem exprs_eq (h : AlikeAt o o' .nodes key) :
    Expr.ofJsonAll (o.items key) = Expr.ofJsonAll (o'.items key) := by
  rw [Expr.ofJsonAll_eq_mapM, Expr.ofJsonAll_eq_mapM]
  exact except_mapM_congr (h.items_forall₂.imp fun _ _ hitem ↦ hitem.expr)

private theorem stmts_eq (h : AlikeAt o o' .nodes key) :
    Stmt.ofJsonAll (o.items key) = Stmt.ofJsonAll (o'.items key) := by
  rw [Stmt.ofJsonAll_eq_mapM, Stmt.ofJsonAll_eq_mapM]
  exact except_mapM_congr (h.items_forall₂.imp fun _ _ hitem ↦ hitem.stmt)

end AlikeAt

/-! ### Reading an object -/

/-- The objects of nodes are alike under every key that is looked up. -/
def Agree (o o' : Entries) : Prop := ∀ key role, o.role? key = some role → AlikeAt o o' role key

namespace Agree

private theorem kind_eq (h : Agree o o') : o.kind = o'.kind := (h "kind" .data rfl).kind_eq

private theorem alikeAt (h : Agree o o') {k : Kind} (hk : o.kind? = some k)
    (hkey : k.keys.lookup key = some role) : AlikeAt o o' role key := by
  refine h key role ?_
  rw [role?, hk]
  split
  · next hkind =>
    rw [hkind, k.keys_lookup_kind] at hkey
    cases hkey
  · exact hkey

private theorem expr (h : Agree o o') : Expr.ofEntries o = Expr.ofEntries o' := by
  rw [Expr.ofEntries, Expr.ofEntries, ← h.kind_eq]
  refine except_bind_congr fun name hname ↦ ?_
  cases hk : Kind.ofKeyword? name with
  | none => rfl
  | some k =>
    have hkind : o.kind? = some k := by rw [kind?, hname]; exact hk
    have hat (key : Text) (role : Role) (hkey : k.keys.lookup key = some role) :
        AlikeAt o o' role key := h.alikeAt hkind hkey
    cases k with
    | literal =>
      dsimp only
      rw [(hat "value" .data rfl).literal_eq (hat "character" .data rfl)]
    | group =>
      dsimp only
      rw [(hat "expression" .node rfl).sameNode.expr]
    | binary =>
      dsimp only
      rw [(hat "operator" .data rfl).string_eq, (hat "left" .node rfl).sameNode.expr,
        (hat "right" .node rfl).sameNode.expr]
    | access =>
      dsimp only
      rw [(hat "receiver" .node rfl).sameNode.exprOption, (hat "name" .data rfl).string_eq]
    | call =>
      dsimp only
      rw [(hat "receiver" .node rfl).sameNode.exprOption, (hat "name" .data rfl).string_eq,
        (hat "arguments" .nodes rfl).requireList_eq, (hat "arguments" .nodes rfl).exprs_eq]
    | _ => rfl

private theorem stmt (h : Agree o o') : Stmt.ofEntries o = Stmt.ofEntries o' := by
  rw [Stmt.ofEntries, Stmt.ofEntries, ← h.kind_eq]
  refine except_bind_congr fun name hname ↦ ?_
  cases hk : Kind.ofKeyword? name with
  | none => rfl
  | some k =>
    have hkind : o.kind? = some k := by rw [kind?, hname]; exact hk
    have hat (key : Text) (role : Role) (hkey : k.keys.lookup key = some role) :
        AlikeAt o o' role key := h.alikeAt hkind hkey
    cases k with
    | expression =>
      dsimp only
      rw [(hat "expression" .node rfl).sameNode.expr]
    | declaration =>
      dsimp only
      rw [(hat "type" .data rfl).string?_eq, (hat "name" .data rfl).string_eq,
        (hat "value" .node rfl).sameNode.exprOption]
    | assignment =>
      dsimp only
      rw [(hat "receiver" .node rfl).sameNode.expr, (hat "value" .node rfl).sameNode.expr]
    | ifElse =>
      dsimp only
      rw [(hat "condition" .node rfl).sameNode.expr, (hat "then" .nodes rfl).requireList_eq,
        (hat "then" .nodes rfl).stmts_eq, (hat "else" .nodes rfl).requireList_eq,
        (hat "else" .nodes rfl).stmts_eq]
    | forLoop =>
      dsimp only
      rw [(hat "initialization" .node rfl).sameNode.stmtOption,
        (hat "condition" .node rfl).sameNode.expr,
        (hat "increment" .node rfl).sameNode.stmtOption,
        (hat "statements" .nodes rfl).requireList_eq, (hat "statements" .nodes rfl).stmts_eq]
    | whileLoop =>
      dsimp only
      rw [(hat "condition" .node rfl).sameNode.expr,
        (hat "statements" .nodes rfl).requireList_eq, (hat "statements" .nodes rfl).stmts_eq]
    | ret =>
      dsimp only
      rw [(hat "value" .node rfl).sameNode.expr]
    | _ => rfl

/-- Both objects are of the kind that is expected, or both are refused with the same mistake. -/
theorem entries_cases (h : Agree o o') (k : Kind) :
    (o.kind? = some k ∧ k.entries (.object o) = .ok o ∧ k.entries (.object o') = .ok o') ∨
      ∃ e, k.entries (.object o) = .error e ∧ k.entries (.object o') = .error e := by
  have heq (p : Entries) : k.entries (.object p) = p.kind >>= fun kind ↦
      if kind = k.keyword then .ok p else .error (.otherKind k kind) := rfl
  rw [heq, heq, ← h.kind_eq]
  cases hname : o.kind with
  | error e => exact .inr ⟨e, rfl, rfl⟩
  | ok name =>
    by_cases hk : name = k.keyword
    · left
      refine ⟨?_, ?_, ?_⟩
      · rw [kind?, hname, hk]
        exact k.ofKeyword?_keyword
      all_goals exact if_pos hk
    · exact .inr ⟨_, if_neg hk, if_neg hk⟩

private theorem field (h : Agree o o') : Field.ofJson (.object o) = Field.ofJson (.object o') := by
  rw [Field.ofJson, Field.ofJson]
  rcases h.entries_cases .field with ⟨hkind, ho, ho'⟩ | ⟨e, ho, ho'⟩
  · have hat (key : Text) (role : Role) (hkey : Kind.field.keys.lookup key = some role) :
        AlikeAt o o' role key := h.alikeAt hkind hkey
    rw [ho, ho']
    change (o.string .field "name" >>= _) = (o'.string .field "name" >>= _)
    rw [(hat "name" .data rfl).string_eq, (hat "type" .data rfl).string_eq,
      (hat "value" .node rfl).sameNode.exprOption, (hat "constant" .data rfl).flag_eq]
  · rw [ho, ho']

private theorem method (h : Agree o o') :
    Method.ofJson (.object o) = Method.ofJson (.object o') := by
  rw [Method.ofJson, Method.ofJson]
  rcases h.entries_cases .method with ⟨hkind, ho, ho'⟩ | ⟨e, ho, ho'⟩
  · have hat (key : Text) (role : Role) (hkey : Kind.method.keys.lookup key = some role) :
        AlikeAt o o' role key := h.alikeAt hkind hkey
    rw [ho, ho']
    change (o.string? .method "return_type" >>= _) = (o'.string? .method "return_type" >>= _)
    rw [(hat "return_type" .data rfl).string?_eq, (hat "name" .data rfl).string_eq,
      (hat "parameters" .data rfl).strings_eq, (hat "parameter_types" .data rfl).strings_eq,
      (hat "statements" .nodes rfl).requireList_eq, (hat "statements" .nodes rfl).stmts_eq]
  · rw [ho, ho']

private theorem source (h : Agree o o') :
    Source.ofJson (.object o) = Source.ofJson (.object o') := by
  rw [Source.ofJson, Source.ofJson]
  rcases h.entries_cases .source with ⟨hkind, ho, ho'⟩ | ⟨e, ho, ho'⟩
  · have hat (key : Text) (role : Role) (hkey : Kind.source.keys.lookup key = some role) :
        AlikeAt o o' role key := h.alikeAt hkind hkey
    have hfields := except_mapM_congr
      ((hat "fields" .nodes rfl).items_forall₂.imp fun _ _ h ↦ h.field)
    have hmethods := except_mapM_congr
      ((hat "methods" .nodes rfl).items_forall₂.imp fun _ _ h ↦ h.method)
    rw [ho, ho']
    change (o.requireList .source "fields" >>= _) = (o'.requireList .source "fields" >>= _)
    rw [(hat "fields" .nodes rfl).requireList_eq, hfields,
      (hat "methods" .nodes rfl).requireList_eq, hmethods]
  · rw [ho, ho']

private theorem sameNode (h : Agree o o') : SameNode (.object o) (.object o') := by
  have hexpr : Expr.ofJson (.object o) = Expr.ofJson (.object o') := by
    rw [Expr.ofJson, Expr.ofJson, h.expr]
  have hstmt : Stmt.ofJson (.object o) = Stmt.ofJson (.object o') := by
    rw [Stmt.ofJson, Stmt.ofJson, h.stmt]
  refine ⟨⟨nofun, nofun⟩, hexpr, hstmt, h.field, h.method, ?_⟩
  rw [Node.ofJson, Node.ofJson, hexpr, hstmt, h.field, h.method, h.source]
  change (o.kind >>= _) = (o'.kind >>= _)
  rw [h.kind_eq]

end Agree

/-! ### One change -/

private theorem get?_perm (h : o.Perm o') (hkeys : (o.map Prod.fst).Nodup) (key : Text) :
    o.get? key = o'.get? key := by
  induction h with
  | nil => rfl
  | cons entry _ ih =>
    obtain ⟨k, v⟩ := entry
    have ih := ih (List.nodup_cons.mp hkeys).2
    simp only [get?, List.lookup_cons] at ih ⊢
    rw [ih]
  | swap entry entry' rest =>
    obtain ⟨k, v⟩ := entry
    obtain ⟨k', v'⟩ := entry'
    have hne : k' ≠ k := by
      simp only [List.map_cons, List.nodup_cons, List.mem_cons, not_or] at hkeys
      exact hkeys.1.1
    simp only [get?, List.lookup_cons]
    by_cases hk : key = k
    · rw [hk, beq_self_eq_true, beq_false_of_ne hne.symm]
    · rw [beq_false_of_ne hk]
  | trans h _ ih ih' => rw [ih hkeys, ih' ((h.map _).nodup_iff.mp hkeys)]

private theorem get?_add {before after : Entries} {added : Text} (v : Value) (h : key ≠ added) :
    (before ++ (added, v) :: after).get? key = (before ++ after).get? key := by
  have hlookup : ((added, v) :: after).lookup key = after.lookup key := by
    rw [List.lookup_cons, beq_false_of_ne h]
  simp only [get?, List.lookup_append, hlookup]

/-- Changing the value of an entry changes at most what is found under its key. -/
theorem alikeAt_entry {before after : Entries} {changed : Text} {v v' : Value}
    (h : key = changed → Alike role v v') :
    AlikeAt (before ++ (changed, v) :: after) (before ++ (changed, v') :: after) role key := by
  by_cases hkey : key = changed
  · subst hkey
    rw [AlikeAt, get?, get?, List.lookup_append, List.lookup_append, List.lookup_cons_self,
      List.lookup_cons_self]
    cases before.lookup key with
    | none => exact .some (h rfl)
    | some w => exact .some (.refl role w)
  · apply AlikeAt.of_eq
    rw [get?_add v hkey, get?_add v' hkey]

end Json.Entries

open Json.Value (Alike SameData SameNode SameNodes SameString)

private theorem forall₂_replace {α : Type} {R : α → α → Prop} (hrefl : ∀ a, R a a)
    {before after : List α}
    {a a' : α} (h : R a a') : (before ++ a :: after).Forall₂ R (before ++ a' :: after) :=
  List.rel_append (List.forall₂_same.mpr fun b _ ↦ hrefl b)
    (.cons h (List.forall₂_same.mpr fun b _ ↦ hrefl b))

/-- A change to the layout of a value does not show in its role. -/
theorem Rearranged.alike {role : Role} {v v' : Value} (h : Rearranged role v v') :
    Alike role v v' := by
  -- Along the way to the change, an object on it differs under one key at most.
  induction h with
  | @reorder role o o' hkeys h =>
    cases role with
    | node => exact Json.Entries.Agree.sameNode fun key _ _ ↦ .of_eq (o.get?_perm h hkeys key)
    | nodes => exact .other nofun nofun
    | data => exact .object h.isEmpty_eq
  | @add before after key v hnew hrole =>
    refine Json.Entries.Agree.sameNode fun key' role hkey ↦ .of_eq (Json.Entries.get?_add v ?_).symm
    rintro rfl
    rw [hrole] at hkey
    cases hkey
  | @entry role before after key v v' h ih =>
    cases role with
    | node =>
      refine Json.Entries.Agree.sameNode fun key' role hkey ↦ Json.Entries.alikeAt_entry ?_
      rintro rfl
      rw [Role.entry, hkey] at ih
      exact ih
    | nodes => exact .other nofun nofun
    | data => exact .object (by cases before <;> rfl)
  | @item role before after v v' h ih =>
    cases role with
    | node => exact .array _ _
    | nodes => exact .array (forall₂_replace SameNode.refl ih)
    | data => exact .array (forall₂_replace (fun v t ↦ Iff.rfl) (SameData.sameString ih))

/-! ### The keys of a kind -/

/-- An object of a kind with the parts that it needs, except for a key. -/
def Kind.lacking (k : Kind) (key : Text) : Json.Entries :=
  let one : Value := .object [("kind", .string Kind.literal.keyword), ("value", .integer 1)]
  let parts : Json.Entries :=
    [("operator", .string "+"), ("name", .string "x"), ("type", .string "Integer"),
     ("expression", one), ("left", one), ("right", one), ("receiver", one), ("condition", one),
     ("value", one)]
  ("kind", .string k.keyword) ::
    (if k = .literal then [] else parts).filter fun entry ↦ entry.1 ≠ key

/-- Whether a tree is a constant field, if there is one. -/
def Node.isConstant : Node Unit → Bool
  | .field f => f.constant
  | _ => false

/-- Every key of a kind is looked up: there is an object to which adding it makes a difference. -/
theorem Kind.keys_matter (k : Kind) :
    ∀ entry ∈ k.keys, ∃ v ∈ [Value.string "x", .array []],
      (Node.ofJson (.object ((entry.1, v) :: k.lacking entry.1))).map Node.isConstant ≠
        (Node.ofJson (.object (k.lacking entry.1))).map Node.isConstant := by
  -- A list is no string, and a string is neither a list nor a node. Only a flag takes both.
  cases k <;> decide +kernel

private theorem Kind.kind?_lacking (k : Kind) (key : Text) : (k.lacking key).kind? = some k := by
  cases k <;> rfl

private theorem Kind.not_mem_lacking (k : Kind) {key : Text} (h : key ≠ "kind") :
    key ∉ (k.lacking key).map Prod.fst := by
  rw [lacking, List.map_cons, List.mem_cons, not_or, List.mem_map]
  refine ⟨h, ?_⟩
  rintro ⟨entry, hentry, rfl⟩
  simpa using (List.mem_filter.mp hentry).2

/-- The keys of a kind, and no others, make a difference when they are added to an object. -/
theorem Kind.isSome_lookup_keys_iff (k : Kind) {key : Text} (hkey : key ≠ "kind") :
    (k.keys.lookup key).isSome ↔
      ∃ (o : Json.Entries) (v : Value), o.kind? = some k ∧ key ∉ o.map Prod.fst ∧
        Node.ofJson (.object ((key, v) :: o)) ≠ Node.ofJson (.object o) := by
  constructor
  · intro h
    obtain ⟨role, hrole⟩ := Option.isSome_iff_exists.mp h
    obtain ⟨before, after, hkeys, -⟩ := List.lookup_eq_some_iff.mp hrole
    have hmem : (key, role) ∈ k.keys := by rw [hkeys]; simp
    obtain ⟨v, -, hne⟩ := k.keys_matter _ hmem
    exact ⟨k.lacking key, v, k.kind?_lacking key, k.not_mem_lacking hkey,
      fun heq ↦ hne (congrArg _ heq)⟩
  · rintro ⟨o, v, hk, hnew, hne⟩
    by_contra hnone
    have hrole : o.role? key = none := by
      rw [Json.Entries.role?, if_neg hkey, hk]
      exact Option.not_isSome_iff_eq_none.mp hnone
    exact hne (@Rearranged.add [] o key v hnew hrole).alike.node.symm

/-- The layout of a document does not matter: putting the entries of its objects in another order,
and adding entries to the objects of nodes under keys that are not looked up for their kinds, any
number of times and anywhere, leaves the tree that is read or the mistake that is reported.

The keys of a kind are exactly the ones that are looked up for it: adding any of them to an object
of the kind can make a difference. -/
theorem Node.ofJson_ignores_layout :
    (∀ v v' : Value, Relation.ReflTransGen (Rearranged .node) v v' →
      Node.ofJson v' = Node.ofJson v) ∧
    ∀ (k : Kind) (key : Text), key ≠ "kind" → ((k.keys.lookup key).isSome ↔
      ∃ (o : Json.Entries) (v : Value), o.kind? = some k ∧ key ∉ o.map Prod.fst ∧
        Node.ofJson (.object ((key, v) :: o)) ≠ Node.ofJson (.object o)) := by
  refine ⟨fun v v' h ↦ ?_, fun k _ hkey ↦ k.isSome_lookup_keys_iff hkey⟩
  induction h with
  | refl => rfl
  | tail _ h ih => rw [← ih, h.alike.node]

/-! ### A document with two mistakes -/

/-- A method without a name, with a statement of an unknown kind. -/
def namelessMethod : Value :=
  .object [("kind", .string "Method"), ("name", .null),
    ("statements", .array [.object [("kind", .string "Sum")]])]

/-- The same method with its entries in the opposite order and a note on the statement. -/
def annotatedMethod : Value :=
  .object [("statements", .array [.object [("note", .integer 1), ("kind", .string "Sum")]]),
    ("name", .null), ("kind", .string "Method")]

/-- The missing name is what is reported also where the statement comes first. -/
theorem annotatedMethod_reads_alike :
    Relation.ReflTransGen (Rearranged .node) namelessMethod annotatedMethod ∧
      Node.ofJson annotatedMethod = .error (.notAString .method "name") := by
  have hreorder : Rearranged .node namelessMethod
      (.object [("statements", .array [.object [("kind", .string "Sum")]]), ("name", .null),
        ("kind", .string "Method")]) :=
    .reorder (by decide) (List.reverse_perm _).symm
  have hadd : Rearranged .node (.object [("kind", .string "Sum")])
      (.object [("note", .integer 1), ("kind", .string "Sum")]) :=
    @Rearranged.add [] _ "note" _ (by decide) (by decide)
  have hitem : Rearranged .nodes (.array [.object [("kind", .string "Sum")]])
      (.array [.object [("note", .integer 1), ("kind", .string "Sum")]]) :=
    @Rearranged.item .nodes [] [] _ _ hadd
  have hrearranged : Relation.ReflTransGen (Rearranged .node) namelessMethod annotatedMethod :=
    .head hreorder (.single (@Rearranged.entry .node [] _ "statements" _ _ hitem))
  refine ⟨hrearranged, ?_⟩
  rw [Node.ofJson_ignores_layout.1 _ _ hrearranged]
  rfl

end TreeCheck
