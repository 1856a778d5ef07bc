import Mathlib.Data.List.Induction
import Mathlib.Logic.Relation
import TreeCheck.Proofs.Allocation
import TreeCheck.Proofs.Keys

/-!
# Scopes after any calls

Scopes are made, things are defined in them, and names are looked up, in any order. What a lookup
finds can be read off the calls made so far: for every key a scope holds what was first defined
under it, a later definition of the key fails and changes nothing, and a lookup goes outwards to the
nearest scope that holds the key. A definition in an outer scope is seen from inner scopes that were
made before it.
-/

namespace TreeCheck

/-! ### Scopes and the scopes around them -/

namespace Scopes

variable {s : Scopes} {id p : ScopeId} {b : Block} {x : Binding} {key : Key}

/-- The scope around a scope. -/
def parent? (s : Scopes) (id : ScopeId) : Option ScopeId :=
  (find? s.latestFirst id).bind Scope.parent

/-- Every scope is inside an earlier one, or inside none. -/
def Nested (s : Scopes) : Prop := ∀ id p, s.parent? id = some p → p < id

/-- A scope that is found has been made. -/
theorem lt_length_of_find? {l : List Scope} {scope : Scope} (h : find? l id = some scope) :
    id < l.length := by
  induction l with
  | nil => cases h
  | cons first earlier ih =>
    rw [find?] at h
    split at h
    · next hid => simp [hid]
    · exact Nat.lt_succ_of_lt (ih h)

/-- A new scope has the parent it is given, and the others keep theirs. -/
theorem parent?_create (parent : Option ScopeId) :
    (s.create parent).parent? id = if id = s.size then parent else s.parent? id := by
  by_cases h : id = s.latestFirst.length <;> simp [parent?, create, find?, size, h]

/-- Replacing a block changes no parent. -/
theorem parent?_setBlock : (s.setBlock id b).parent? p = s.parent? p := by
  by_cases h : p = id
  · subst h
    cases hs : find? s.latestFirst p <;> simp [parent?, setBlock, find?_replace, hs]
  · simp [parent?, setBlock, find?_replace, h]

private theorem chainFrom_cons_of_lt {l : List Scope} (scope : Scope) (h : id < l.length) :
    chainFrom (scope :: l) id = chainFrom l id := by
  rw [chainFrom, if_neg (Nat.ne_of_lt h)]

private theorem chainFrom_eq {l : List Scope} {scope : Scope} (h : find? l id = some scope)
    (hp : ∀ p ∈ scope.parent, p < id) :
    chainFrom l id = scope.block :: scope.parent.elim [] (chainFrom l) := by
  induction l with
  | nil => cases h
  | cons first earlier ih =>
    rw [find?] at h
    split at h
    · next hid =>
      cases h
      rw [chainFrom, if_pos hid]
      cases hparent : scope.parent with
      | none => rfl
      | some p =>
        have hlt : p < earlier.length := hid ▸ hp p hparent
        simp [chainFrom_cons_of_lt scope hlt]
    · have hid := lt_length_of_find? h
      rw [chainFrom_cons_of_lt first hid, ih h]
      cases hparent : scope.parent with
      | none => rfl
      | some p =>
        have hlt : p < earlier.length := Nat.lt_trans (hp p hparent) hid
        simp [chainFrom_cons_of_lt first hlt]

/-- What is visible in a scope is its own block and what is visible in the scope around it. -/
theorem chain_eq (hs : s.Nested) (hid : id < s.size) :
    s.chain id = s.block id :: (s.parent? id).elim [] s.chain := by
  obtain ⟨scope, hscope⟩ := find?_isSome hid
  have hparent : s.parent? id = scope.parent := by simp [parent?, hscope]
  have hblock : s.block id = scope.block := by simp [block, hscope]
  rw [hparent, hblock]
  apply chainFrom_eq hscope
  intro p hp
  exact hs id p (hparent.trans hp)

/-- Define a binding in a scope. -/
def define (s : Scopes) (id : ScopeId) : Binding → Except ProgramError Scopes
  | .variable v => s.defineVariable id v
  | .function f => s.defineFunction id f

/-- Look up what a key stands for in a scope. -/
def lookup (s : Scopes) (id : ScopeId) : Key → Except ProgramError Binding
  | .ofVariable name => .variable <$> (s.chain id).lookupVariable name
  | .ofFunction name arity => .function <$> (s.chain id).lookupFunction name arity

/-- What a lookup finds. -/
def found? (s : Scopes) (id : ScopeId) (key : Key) : Option Binding :=
  (s.chain id).findSome? fun b ↦ b.find? key

private theorem define_of_none (h : (s.block id).find? x.key = none) :
    s.define id x = .ok (s.setBlock id ((s.block id).add x)) := by
  have hb := Block.define_of_none h
  rcases x with v | f
  · exact except_bind_ok_iff.mpr ⟨_, hb, rfl⟩
  · exact except_bind_ok_iff.mpr ⟨_, hb, rfl⟩

private theorem define_of_some {y : Binding} (h : (s.block id).find? x.key = some y) :
    ∃ e, s.define id x = .error e ∧ e.kind = .duplicateDefinition := by
  obtain ⟨e, he, hkind⟩ := Block.define_of_some h
  refine ⟨e, ?_, hkind⟩
  rcases x with v | f
  · simp [define, defineVariable, show (s.block id).defineVariable v = .error e from he, bind,
      Except.bind]
  · simp [define, defineFunction, show (s.block id).defineFunction f = .error e from he, bind,
      Except.bind]

/-- A lookup gives what it finds, and fails if that is nothing. -/
theorem lookup_cases (s : Scopes) (id : ScopeId) (key : Key) :
    (∃ x, s.found? id key = some x ∧ s.lookup id key = .ok x) ∨
      s.found? id key = none ∧ ∃ e, s.lookup id key = .error e ∧ e.kind = .undefinedName := by
  cases key with
  | ofVariable name =>
    have hfound : s.found? id (.ofVariable name) =
        ((s.chain id).findVariable? name).map .variable := by
      simp [found?, Block.find?, Chain.findVariable?, List.map_findSome?, Function.comp_def]
    cases h : (s.chain id).findVariable? name with
    | none =>
      simp [hfound, h, lookup, Chain.lookupVariable, Functor.map, Except.map, ProgramError.kind]
    | some v => simp [hfound, h, lookup, Chain.lookupVariable, Functor.map, Except.map]
  | ofFunction name arity =>
    have hfound : s.found? id (.ofFunction name arity) =
        ((s.chain id).findFunction? name arity).map .function := by
      simp [found?, Block.find?, Chain.findFunction?, List.map_findSome?, Function.comp_def]
    cases h : (s.chain id).findFunction? name arity with
    | none =>
      simp [hfound, h, lookup, Chain.lookupFunction, Functor.map, Except.map, ProgramError.kind]
    | some f => simp [hfound, h, lookup, Chain.lookupFunction, Functor.map, Except.map]

private theorem lookup_ok_iff : s.lookup id key = .ok x ↔ s.found? id key = some x := by
  rcases s.lookup_cases id key with ⟨y, hfound, hlookup⟩ | ⟨hfound, e, hlookup, -⟩ <;>
    simp [hfound, hlookup]

private theorem lookup_error_iff :
    (∃ e, e.kind = .undefinedName ∧ s.lookup id key = .error e) ↔ s.found? id key = none := by
  rcases s.lookup_cases id key with ⟨y, hfound, hlookup⟩ | ⟨hfound, e, hlookup, hkind⟩
  · simp [hfound, hlookup]
  · simp [hfound, hlookup, hkind]

/-- Two lookups give the same binding, or both fail because nothing has the name. -/
def SameAnswer : Except ProgramError Binding → Except ProgramError Binding → Prop
  | .ok x, .ok y => x = y
  | .error e, .error e' => e.kind = .undefinedName ∧ e'.kind = .undefinedName
  | .ok _, .error _ => False
  | .error _, .ok _ => False

private theorem sameAnswer_of_found?_eq {s' : Scopes} (h : s.found? id key = s'.found? p key) :
    SameAnswer (s.lookup id key) (s'.lookup p key) := by
  rcases s.lookup_cases id key with ⟨x, hfound, hlookup⟩ | ⟨hfound, e, hlookup, hkind⟩
  · rw [hlookup, lookup_ok_iff.mpr (h.symm.trans hfound)]
    rfl
  · obtain ⟨e', hkind', hlookup'⟩ := lookup_error_iff.mpr (h.symm.trans hfound)
    rw [hlookup, hlookup']
    exact ⟨hkind, hkind'⟩

end Scopes

/-! ### Calls -/

namespace Scopes

/-- What is to be defined: a variable or a function with all that is to be known about it. -/
inductive Definition where
  | ofVariable (name internalName : Text) (type : Ty) (constant : Bool)
  | ofFunction (name internalName : Text) (parameters : List Ty) (returns : Ty)
deriving DecidableEq, Repr

namespace Definition

/-- The key of a definition. -/
def key : Definition → Key
  | ofVariable name _ _ _ => .ofVariable name
  | ofFunction name _ parameters _ => .ofFunction name parameters.length

/-- The binding that a definition makes in a scope. -/
def binding (id : ScopeId) : Definition → Binding
  | ofVariable name internalName type constant =>
    .variable ⟨name, internalName, type, constant, .scope id⟩
  | ofFunction name internalName parameters returns =>
    .function ⟨name, internalName, parameters, returns, .scope id⟩

/-- A definition makes a binding under its own key. -/
@[simp] theorem key_binding (d : Definition) (id : ScopeId) : (d.binding id).key = d.key := by
  cases d <;> rfl

/-- A definition makes a binding of the scope it is made in. -/
@[simp] theorem site_binding (d : Definition) (id : ScopeId) : (d.binding id).site = .scope id := by
  cases d <;> rfl

end Definition

/-- A call: make a scope, define something in a scope, or look up a key in a scope. -/
inductive Call where
  | create (parent : Option ScopeId)
  | define (id : ScopeId) (d : Definition)
  | lookup (id : ScopeId) (key : Key)
deriving DecidableEq, Repr

/-- The answer to a call. -/
inductive Answer where
  | created (id : ScopeId)
  | defined (x : Binding)
  | found (x : Binding)
  | failed (e : ProgramError)
deriving DecidableEq, Repr

/-- Answer a call. -/
def perform (s : Scopes) : Call → Scopes × Answer
  | .create parent => (s.create parent, .created s.size)
  | .define id d =>
    match s.define id (d.binding id) with
    | .ok s' => (s', .defined (d.binding id))
    | .error e => (s, .failed e)
  | .lookup id key =>
    match s.lookup id key with
    | .ok x => (s, .found x)
    | .error e => (s, .failed e)

/-- The scopes after some calls. -/
def performAll (s : Scopes) (calls : List Call) : Scopes :=
  calls.foldl (fun s c ↦ (s.perform c).1) s

/-- The scopes after some calls that start with none. -/
def after (calls : List Call) : Scopes := empty.performAll calls

/-- A call only mentions scopes that have been made. -/
def Call.Legal (s : Scopes) : Call → Prop
  | create parent => s.Has parent
  | define id _ => id < s.size
  | lookup id _ => id < s.size

/-- Every one of some calls only mentions scopes that have been made before it. -/
def Legal (s : Scopes) : List Call → Prop
  | [] => True
  | c :: rest => c.Legal s ∧ Legal (s.perform c).1 rest

instance (s : Scopes) : DecidablePred (Call.Legal s)
  | .create parent => inferInstanceAs (Decidable (∀ id ∈ parent, id < s.size))
  | .define id _ => inferInstanceAs (Decidable (id < s.size))
  | .lookup id _ => inferInstanceAs (Decidable (id < s.size))

instance decidableLegal : (s : Scopes) → (calls : List Call) → Decidable (s.Legal calls)
  | _, [] => .isTrue trivial
  | s, c :: rest =>
    have := decidableLegal (s.perform c).1 rest
    inferInstanceAs (Decidable (c.Legal s ∧ Legal (s.perform c).1 rest))

private theorem performAll_append (s : Scopes) (calls : List Call) (c : Call) :
    s.performAll (calls ++ [c]) = ((s.performAll calls).perform c).1 := by
  simp [performAll]

/-- One more call acts on what the calls before have left. -/
theorem after_append (calls : List Call) (c : Call) :
    after (calls ++ [c]) = ((after calls).perform c).1 := performAll_append empty calls c

/-- One more call is legal if it names scopes that the calls before have made. -/
theorem legal_append {s : Scopes} {calls : List Call} {c : Call} :
    s.Legal (calls ++ [c]) ↔ s.Legal calls ∧ c.Legal (s.performAll calls) := by
  induction calls generalizing s with
  | nil => simp [Legal, performAll]
  | cons first rest ih => simp [Legal, ih, performAll, and_assoc]

/-- A definition under a free key is added to its scope. -/
theorem perform_define_of_none {s : Scopes} {id : ScopeId} {d : Definition}
    (h : (s.block id).find? d.key = none) :
    s.perform (.define id d) =
      (s.setBlock id ((s.block id).add (d.binding id)), .defined (d.binding id)) := by
  rw [perform, define_of_none (by rwa [Definition.key_binding])]

/-- A definition under a taken key fails and leaves the scopes as they are. -/
theorem perform_define_of_some {s : Scopes} {id : ScopeId} {d : Definition} {y : Binding}
    (h : (s.block id).find? d.key = some y) :
    ∃ e, e.kind = .duplicateDefinition ∧ s.perform (.define id d) = (s, .failed e) := by
  obtain ⟨e, he, hkind⟩ := define_of_some (x := d.binding id) (by rwa [Definition.key_binding])
  exact ⟨e, hkind, by rw [perform, he]⟩

/-- A definition succeeds exactly if its key is free in its scope. -/
theorem perform_define_iff {s : Scopes} {id : ScopeId} {d : Definition} {x : Binding} :
    (s.perform (.define id d)).2 = .defined x ↔
      (s.block id).find? d.key = none ∧ d.binding id = x := by
  cases hd : (s.block id).find? d.key with
  | none => simp [perform_define_of_none hd]
  | some y =>
    obtain ⟨e, -, he⟩ := perform_define_of_some hd
    simp [he]

end Scopes

/-! ### What the calls tell -/

namespace Scopes.History

/-- The scope around the new one, if a call makes a scope. -/
def parent? : Call → Option (Option ScopeId)
  | .create parent => some parent
  | .define _ _ => none
  | .lookup _ _ => none

/-- The scopes around all that have been made, in the order in which they were made. -/
def parents (calls : List Call) : List (Option ScopeId) := calls.filterMap parent?

/-- The scope inside which a scope has been made. -/
def around (calls : List Call) (id : ScopeId) : Option ScopeId := ((parents calls)[id]?).join

/-- A scope encloses another if one comes to it by going outwards. -/
def Encloses (calls : List Call) (outer inner : ScopeId) : Prop :=
  Relation.ReflTransGen (fun id p ↦ around calls id = some p) inner outer

/-- The call with this number makes a binding under a key of a scope: it is a definition, and it
succeeds. -/
def Makes (calls : List Call) (i : Nat) (id : ScopeId) (key : Key) (x : Binding) : Prop :=
  ∃ d, calls[i]? = some (.define id d) ∧ d.key = key ∧
    ((after (calls.take i)).perform (.define id d)).2 = .defined x

/-- A scope holds a key if a call has made a binding there. -/
def Holds (calls : List Call) (id : ScopeId) (key : Key) : Prop := ∃ i x, Makes calls i id key x

/-- Going outwards in search of a key one arrives at a scope: none of those before it holds the
key. -/
inductive Arrives (calls : List Call) (key : Key) : ScopeId → ScopeId → Prop
  | here {id : ScopeId} : Arrives calls key id id
  | outwards {id p a : ScopeId} (hnot : ¬ Holds calls id key) (hp : around calls id = some p)
      (h : Arrives calls key p a) : Arrives calls key id a

/-- What a call defines, if it defines this key in this scope. -/
def defines? (id : ScopeId) (key : Key) : Call → Option Binding
  | .define a d => if a = id ∧ d.key = key then some (d.binding id) else none
  | .create _ => none
  | .lookup _ _ => none

/-- The first definition of a key in a scope. -/
def first (calls : List Call) (id : ScopeId) (key : Key) : Option Binding :=
  calls.findSome? (defines? id key)

/-- The scopes are what the calls tell. -/
structure Tells (calls : List Call) (s : Scopes) : Prop where
  nested : s.Nested
  size : s.size = (parents calls).length
  parents : ∀ id, s.parent? id = around calls id
  holds : ∀ id key, id < s.size → (s.block id).find? key = first calls id key
  unused : ∀ id key, s.size ≤ id → first calls id key = none

private theorem defines?_define_iff {id a : ScopeId} {key : Key} {d : Definition} {x : Binding} :
    defines? id key (.define a d) = some x ↔ a = id ∧ d.key = key ∧ d.binding id = x := by
  simp [defines?, and_assoc]

private theorem first_append (calls : List Call) (c : Call) (id : ScopeId) (key : Key) :
    first (calls ++ [c]) id key = (first calls id key).or (defines? id key c) := by
  rw [first, List.findSome?_append]
  simp [first]

private theorem parents_append (calls : List Call) (c : Call) :
    parents (calls ++ [c]) = parents calls ++ (parent? c).toList := by
  cases h : parent? c <;> simp [parents, h]

private theorem around_append_create (calls : List Call) (parent : Option ScopeId) (id : ScopeId) :
    around (calls ++ [.create parent]) id =
      if id = (parents calls).length then parent else around calls id := by
  simp only [around, parents_append, parent?, Option.toList_some]
  rcases Nat.lt_trichotomy id (parents calls).length with hlt | heq | hgt
  · rw [List.getElem?_append_left hlt, if_neg (Nat.ne_of_lt hlt)]
  · simp [heq]
  · rw [if_neg (Nat.ne_of_gt hgt), List.getElem?_eq_none (Nat.le_of_lt hgt),
      List.getElem?_eq_none (by simpa using Nat.succ_le_of_lt hgt)]

private theorem around_append_of_none {c : Call} (hc : parent? c = none) (calls : List Call)
    (id : ScopeId) :
    around (calls ++ [c]) id = around calls id := by
  simp [around, parents_append, hc]

namespace Tells

variable {calls : List Call} {s : Scopes}

private theorem initial : Tells [] empty where
  nested id p h := by cases h
  size := rfl
  parents id := rfl
  holds id key h := by cases h
  unused id key h := rfl

private theorem create (h : Tells calls s) {parent : Option ScopeId} (hp : s.Has parent) :
    Tells (calls ++ [.create parent]) (s.create parent) where
  nested id p hpar := by
    rw [parent?_create] at hpar
    split at hpar
    · next hid => exact hid ▸ hp p hpar
    · exact h.nested id p hpar
  size := by simp [parents_append, History.parent?, Scopes.create, Scopes.size, ← h.size]
  parents id := by rw [parent?_create, around_append_create, h.parents, h.size]
  holds id key hid := by
    have hsize : (s.create parent).size = s.size + 1 := rfl
    rw [first_append, defines?, Option.or_none]
    by_cases hnew : id = s.size
    · subst hnew
      rw [block_create_self, Block.find?_empty, h.unused _ _ (Nat.le_refl _)]
    · have hlt : id < s.size := by omega
      rw [block_create_of_lt hlt, h.holds id key hlt]
  unused id key hid := by
    have hsize : (s.create parent).size = s.size + 1 := rfl
    rw [first_append, defines?, Option.or_none]
    exact h.unused id key (by omega)

/-- A call that leaves the scopes as they are, and whose definition, if it is one, comes too late.
-/
theorem unchanged (h : Tells calls s) {c : Call} (hc : parent? c = none)
    (hlate : ∀ id key x, defines? id key c = some x → (first calls id key).isSome) :
    Tells (calls ++ [c]) s := by
  have hfirst : ∀ id key, first (calls ++ [c]) id key = first calls id key := by
    intro id key
    rw [first_append]
    cases hd : defines? id key c with
    | none => exact Option.or_none
    | some x => simp [Option.or_of_isSome (hlate id key x hd)]
  exact {
    nested := h.nested
    size := by simp [parents_append, hc, h.size]
    parents := fun id ↦ by rw [around_append_of_none hc, h.parents]
    holds := fun id key hid ↦ by rw [hfirst, h.holds id key hid]
    unused := fun id key hid ↦ by rw [hfirst, h.unused id key hid] }

/-- A definition that is not the first of its key may be added all the same: nobody finds it. -/
theorem added (h : Tells calls s) {id : ScopeId} {d : Definition} (hid : id < s.size) :
    Tells (calls ++ [.define id d]) (s.setBlock id ((s.block id).add (d.binding id))) where
  nested a p hp := h.nested a p (parent?_setBlock ▸ hp)
  size := by rw [size_setBlock, parents_append, h.size]; simp [History.parent?]
  parents a := by rw [parent?_setBlock, around_append_of_none rfl, h.parents]
  holds a key ha := by
    rw [size_setBlock] at ha
    rw [first_append, defines?]
    by_cases heq : id = a
    · subst heq
      rw [block_setBlock_self hid, Block.find?_add, h.holds id key hid, Definition.key_binding]
      simp
    · rw [block_setBlock_of_ne (Ne.symm heq), h.holds a key ha]
      simp [heq]
  unused a key ha := by
    rw [size_setBlock] at ha
    have hne : id ≠ a := Nat.ne_of_lt (Nat.lt_of_lt_of_le hid ha)
    rw [first_append, defines?, h.unused a key ha]
    simp [hne]

private theorem define (h : Tells calls s) {id : ScopeId} {d : Definition} (hid : id < s.size) :
    Tells (calls ++ [.define id d]) (s.perform (.define id d)).1 := by
  cases hd : (s.block id).find? d.key with
  | none =>
    rw [perform_define_of_none hd]
    exact h.added hid
  | some y =>
    obtain ⟨e, -, he⟩ := perform_define_of_some hd
    rw [he]
    apply h.unchanged rfl
    intro a key x hx
    obtain ⟨rfl, rfl, -⟩ := defines?_define_iff.mp hx
    rw [← h.holds id d.key hid, hd]
    rfl

private theorem lookup (h : Tells calls s) {id : ScopeId} {key : Key} :
    Tells (calls ++ [.lookup id key]) (s.perform (.lookup id key)).1 := by
  have hs : (s.perform (.lookup id key)).1 = s := by
    rw [Scopes.perform]
    split <;> rfl
  rw [hs]
  exact h.unchanged rfl fun _ _ _ hd ↦ by cases hd

/-- Every call keeps it so. -/
theorem perform (h : Tells calls s) {c : Call} (hc : c.Legal s) :
    Tells (calls ++ [c]) (s.perform c).1 := by
  cases c with
  | create parent => exact h.create hc
  | define id d => exact h.define hc
  | lookup id key => exact h.lookup

end Tells

/-- A history of legal calls tells what the scopes hold after it. -/
theorem tells_after {calls : List Call} (h : empty.Legal calls) :
    Tells calls (after calls) := by
  induction calls using List.reverseRecOn with
  | nil => exact .initial
  | append_singleton calls c ih =>
    obtain ⟨hcalls, hc⟩ := legal_append.mp h
    rw [after_append]
    exact (ih hcalls).perform hc

/-! ### Who made what -/

variable {calls : List Call} {c : Call} {s : Scopes} {i j : Nat} {id a p : ScopeId} {key : Key}
  {x y : Binding}

/-- A binding is made by one more call or by one of the calls before. -/
theorem makes_append :
    Makes (calls ++ [c]) i id key x ↔
      Makes calls i id key x ∨ i = calls.length ∧ ∃ d, c = .define id d ∧ d.key = key ∧
        ((after calls).perform c).2 = .defined x := by
  rcases Nat.lt_trichotomy i calls.length with hlt | rfl | hgt
  · have htake : (calls ++ [c]).take i = calls.take i :=
      List.take_append_of_le_length (Nat.le_of_lt hlt)
    simp [Makes, htake, List.getElem?_append_left hlt, Nat.ne_of_lt hlt]
  · have hold : ¬ Makes calls calls.length id key x := by simp [Makes]
    rw [or_iff_right hold]
    simp only [Makes, List.take_left, List.getElem?_concat_length, Option.some.injEq, true_and]
    constructor <;> rintro ⟨d, rfl, hmade⟩ <;> exact ⟨d, rfl, hmade⟩
  · have hold : calls[i]? = none := List.getElem?_eq_none (Nat.le_of_lt hgt)
    have hnew : (calls ++ [c])[i]? = none := by
      apply List.getElem?_eq_none
      simpa using Nat.succ_le_of_lt hgt
    simp [Makes, hold, hnew, Nat.ne_of_gt hgt]

/-- A call makes a binding if it is the first that defines its key in its scope. -/
theorem Tells.makes_iff (h : Tells calls s) (hc : c.Legal s) :
    (∃ d, c = .define id d ∧ d.key = key ∧ (s.perform c).2 = .defined x) ↔
      first calls id key = none ∧ defines? id key c = some x := by
  cases c with
  | create parent => simp [defines?]
  | lookup a key => simp [defines?]
  | define a d =>
    rw [defines?_define_iff]
    constructor
    · rintro ⟨d, hd, rfl, hx⟩
      cases hd
      rw [perform_define_iff, h.holds _ _ hc] at hx
      exact ⟨hx.1, rfl, rfl, hx.2⟩
    · rintro ⟨hnew, rfl, rfl, hx⟩
      refine ⟨d, rfl, rfl, perform_define_iff.mpr ⟨?_, hx⟩⟩
      rw [h.holds _ _ hc, hnew]

private theorem first_eq_some_iff (h : empty.Legal calls) :
    first calls id key = some x ↔ ∃ i, Makes calls i id key x := by
  induction calls using List.reverseRecOn with
  | nil => simp [first, Makes]
  | append_singleton calls c ih =>
    obtain ⟨hcalls, hc⟩ := legal_append.mp h
    simp only [makes_append, exists_or, exists_and_right, exists_eq, true_and, ← ih hcalls]
    rw [(tells_after hcalls).makes_iff hc, first_append, Option.or_eq_some_iff]

private theorem not_holds_iff (h : empty.Legal calls) :
    ¬ Holds calls id key ↔ first calls id key = none := by
  rw [Option.eq_none_iff_forall_ne_some, Holds, exists_comm, not_exists]
  exact forall_congr' fun x ↦ not_congr (first_eq_some_iff h).symm

/-- Only one call makes a binding under a key of a scope. -/
theorem Makes.unique (h : empty.Legal calls) (hi : Makes calls i id key x)
    (hj : Makes calls j id key y) : i = j := by
  induction calls using List.reverseRecOn generalizing i j x y with
  | nil => simp [Makes] at hi
  | append_singleton calls c ih =>
    obtain ⟨hcalls, hc⟩ := legal_append.mp h
    -- The last call makes nothing under a key that an earlier call has defined.
    have hlate : ∀ {k x y}, Makes calls k id key x → ¬ ∃ d, c = .define id d ∧ d.key = key ∧
        ((after calls).perform c).2 = .defined y := by
      intro k x y hk hlast
      have hnone := ((tells_after hcalls).makes_iff hc |>.mp hlast).1
      rw [(first_eq_some_iff hcalls).mpr ⟨k, hk⟩] at hnone
      cases hnone
    rcases makes_append.mp hi with hi | ⟨hi, hlast⟩
    · rcases makes_append.mp hj with hj | ⟨hj, hlast'⟩
      · exact ih hcalls hi hj
      · exact absurd hlast' (hlate hi)
    · rcases makes_append.mp hj with hj | ⟨hj, -⟩
      · exact absurd hlast (hlate hj)
      · exact hi.trans hj.symm

private theorem Makes.binding_eq (h : Makes calls i id key x) :
    ∃ d : Definition, d.key = key ∧ x = d.binding id := by
  obtain ⟨d, -, hkey, hx⟩ := h
  exact ⟨d, hkey, (perform_define_iff.mp hx).2.symm⟩

/-- A binding tells in which scope and under which key it was made. -/
theorem Makes.place_eq {b : ScopeId} {key' : Key} (hi : Makes calls i a key x)
    (hj : Makes calls j b key' x) : a = b ∧ key = key' := by
  obtain ⟨d, rfl, hd⟩ := hi.binding_eq
  obtain ⟨d', rfl, hd'⟩ := hj.binding_eq
  have hbinding : d.binding a = d'.binding b := hd.symm.trans hd'
  have hsite := congrArg Binding.site hbinding
  have hkey := congrArg Binding.key hbinding
  simp only [Definition.site_binding, Site.scope.injEq] at hsite
  simp only [Definition.key_binding] at hkey
  exact ⟨hsite, hkey⟩

private theorem Makes.eq_iff {b : ScopeId} {key' : Key} (h : empty.Legal calls)
    (hi : Makes calls i a key x)
    (hj : Makes calls j b key' y) : (i = j ↔ a = b ∧ key = key') ∧ (i = j ↔ x = y) := by
  have hsame : i = j → (a = b ∧ key = key') ∧ x = y := by
    rintro rfl
    obtain ⟨d, hd, rfl, hx⟩ := hi
    obtain ⟨d', hd', rfl, hy⟩ := hj
    cases hd.symm.trans hd'
    cases hx.symm.trans hy
    exact ⟨⟨rfl, rfl⟩, rfl⟩
  have hunique : a = b ∧ key = key' → i = j := by
    rintro ⟨rfl, rfl⟩
    exact hi.unique h hj
  refine ⟨⟨fun heq ↦ (hsame heq).1, hunique⟩, fun heq ↦ (hsame heq).2, ?_⟩
  rintro rfl
  exact hunique (hi.place_eq hj)

/-! ### What lookups find -/

/-- A lookup finds what the scope holds, or else what is found in the scope around it. -/
theorem Tells.found?_eq (h : Tells calls s) (hid : id < s.size) (key : Key) :
    s.found? id key =
      (first calls id key).or ((around calls id).bind fun p ↦ s.found? p key) := by
  rw [found?, chain_eq h.nested hid, List.findSome?_cons, h.holds id key hid, h.parents]
  cases first calls id key with
  | some x => rfl
  | none => cases around calls id <;> rfl

/-- The scope around another was made before it. -/
theorem Tells.around_lt (h : Tells calls s) (hp : around calls id = some p) : p < id :=
  h.nested id p (by rw [h.parents, hp])

section

variable (hc : empty.Legal calls) (h : Tells calls s)

include hc h

private theorem found?_of_arrives (ha : Arrives calls key id a) (hid : id < s.size)
    (hx : first calls a key = some x) : s.found? id key = some x := by
  induction ha with
  | here => rw [h.found?_eq hid, hx, Option.some_or]
  | @outwards id p a hnot hp _ ih =>
    rw [h.found?_eq hid, (not_holds_iff hc).mp hnot, hp]
    exact ih (Nat.lt_trans (h.around_lt hp) hid) hx

/-- A lookup that finds something has arrived at the scope that holds it. -/
theorem arrives_of_found? (hid : id < s.size) (hx : s.found? id key = some x) :
    ∃ a, Arrives calls key id a ∧ first calls a key = some x := by
  induction id using Nat.strongRecOn with
  | ind id ih =>
    rw [h.found?_eq hid, Option.or_eq_some_iff] at hx
    rcases hx with hx | ⟨hnone, hx⟩
    · exact ⟨id, .here, hx⟩
    · obtain ⟨p, hp, hx⟩ := Option.bind_eq_some_iff.mp hx
      have hlt := h.around_lt hp
      obtain ⟨a, harrives, ha⟩ := ih p hlt (Nat.lt_trans hlt hid) hx
      exact ⟨a, .outwards ((not_holds_iff hc).mpr hnone) hp harrives, ha⟩

private theorem found?_eq_some_iff (hid : id < s.size) :
    s.found? id key = some x ↔ ∃ a i, Arrives calls key id a ∧ Makes calls i a key x := by
  constructor
  · intro hx
    obtain ⟨a, harrives, ha⟩ := arrives_of_found? hc h hid hx
    obtain ⟨i, hi⟩ := (first_eq_some_iff hc).mp ha
    exact ⟨a, i, harrives, hi⟩
  · rintro ⟨a, i, harrives, hi⟩
    exact found?_of_arrives hc h harrives hid ((first_eq_some_iff hc).mpr ⟨i, hi⟩)

private theorem found?_eq_none_iff (hid : id < s.size) :
    s.found? id key = none ↔ ∀ a, Encloses calls a id → ¬ Holds calls a key := by
  simp only [not_holds_iff hc]
  induction id using Nat.strongRecOn with
  | ind id ih =>
    rw [h.found?_eq hid, Option.or_eq_none_iff]
    constructor
    · rintro ⟨hnone, hp⟩ a ha
      rcases Relation.ReflTransGen.cases_head ha with rfl | ⟨p, hstep, ha⟩
      · exact hnone
      · rw [hstep] at hp
        have hlt := h.around_lt hstep
        exact (ih p hlt (Nat.lt_trans hlt hid)).mp hp a ha
    · intro hall
      refine ⟨hall id .refl, ?_⟩
      cases hp : around calls id with
      | none => rfl
      | some p =>
        have hlt := h.around_lt hp
        exact (ih p hlt (Nat.lt_trans hlt hid)).mpr fun a ha ↦ hall a (.head hp ha)

end

/-! ### What a definition changes -/

section

variable {s' : Scopes} {d : Definition}

private theorem Tells.size_eq (h : Tells calls s) (h' : Tells (calls ++ [.define a d]) s') :
    s'.size = s.size := by
  rw [h'.size, h.size, parents_append, parent?, Option.toList_none, List.append_nil]

private theorem first_append_define_of_not (hne : ¬ (a = id ∧ d.key = key)) :
    first (calls ++ [.define a d]) id key = first calls id key := by
  rw [first_append, defines?, if_neg hne, Option.or_none]

variable (hc : empty.Legal calls) (h : Tells calls s) (h' : Tells (calls ++ [.define a d]) s')

include hc h h'

/-- Where one arrives at its scope, a definition is found. -/
theorem found?_append_define_of_arrives (hnew : ¬ Holds calls a d.key)
    (ha : Arrives calls d.key id a) (hid : id < s.size) :
    s'.found? id d.key = some (d.binding a) := by
  induction ha with
  | here =>
    rw [h'.found?_eq (h.size_eq h' ▸ hid), first_append, (not_holds_iff hc).mp hnew]
    simp [defines?]
  | @outwards id p a hnot hp _ ih =>
    rw [h'.found?_eq (h.size_eq h' ▸ hid), first_append, (not_holds_iff hc).mp hnot,
      around_append_of_none rfl, hp]
    by_cases heq : a = id
    · simp [defines?, heq]
    · simpa [defines?, heq] using ih h' hnew (Nat.lt_trans (h.around_lt hp) hid)

/-- Everywhere else, and under all other keys, lookups find what they found before. -/
theorem found?_append_define_of_not (hnot : ¬ (key = d.key ∧ Arrives calls key id a))
    (hid : id < s.size) : s'.found? id key = s.found? id key := by
  induction id using Nat.strongRecOn with
  | ind id ih =>
    have hne : ¬ (a = id ∧ d.key = key) := by
      rintro ⟨rfl, rfl⟩
      exact hnot ⟨rfl, .here⟩
    rw [h'.found?_eq (h.size_eq h' ▸ hid), h.found?_eq hid, first_append_define_of_not hne,
      around_append_of_none rfl]
    cases hfirst : first calls id key with
    | some x => rfl
    | none =>
      cases hp : around calls id with
      | none => rfl
      | some p =>
        have hlt := h.around_lt hp
        apply ih p hlt _ (Nat.lt_trans hlt hid)
        rintro ⟨hkey, ha⟩
        exact hnot ⟨hkey, .outwards ((not_holds_iff hc).mpr hfirst) hp ha⟩

end

private theorem perform_define_of_holds {d : Definition} (hc : empty.Legal calls)
    (ha : a < (after calls).size) (hheld : Holds calls a d.key) :
    ∃ e, e.kind = .duplicateDefinition ∧
      (after calls).perform (.define a d) = (after calls, .failed e) := by
  obtain ⟨i, x, hi⟩ := hheld
  apply perform_define_of_some
  rw [(tells_after hc).holds a d.key ha]
  exact (first_eq_some_iff hc).mpr ⟨i, hi⟩

private theorem perform_define_of_not_holds {d : Definition} (hc : empty.Legal calls)
    (ha : a < (after calls).size) (hnew : ¬ Holds calls a d.key) :
    (after calls).perform (.define a d) =
      (after (calls ++ [.define a d]), .defined (d.binding a)) := by
  have hnone : ((after calls).block a).find? d.key = none := by
    rw [(tells_after hc).holds a d.key ha]
    exact (not_holds_iff hc).mp hnew
  rw [after_append, perform_define_of_none hnone]

/-- Scopes are nested maps that are written once. Whatever calls have been made, a definition fails
just if its scope holds the key, and then changes nothing. Otherwise it is what lookups of its key
find in its scope and in those inside it from which one arrives at it, and all other lookups stay as
they are. A lookup gives what the only definition of the key made in the nearest scope that holds
it, and it fails just if no enclosing scope holds the key. Other keys in a scope, such as those of
the same name with another number of parameters, hide nothing. -/
theorem nested_write_once (calls : List Call) (hc : empty.Legal calls) :
    (∀ a d, a < (after calls).size →
      (Holds calls a d.key →
        ∃ e, e.kind = .duplicateDefinition ∧
          (after calls).perform (.define a d) = (after calls, .failed e)) ∧
      (¬ Holds calls a d.key →
        ∃ s', (after calls).perform (.define a d) = (s', .defined (d.binding a)) ∧
          ∀ id key, id < (after calls).size →
            (key = d.key ∧ Arrives calls key id a → s'.lookup id key = .ok (d.binding a)) ∧
            (¬ (key = d.key ∧ Arrives calls key id a) →
              SameAnswer (s'.lookup id key) ((after calls).lookup id key)))) ∧
    (∀ id key, id < (after calls).size →
      (∀ x, (after calls).lookup id key = .ok x ↔
        ∃ a i, Arrives calls key id a ∧ Makes calls i a key x) ∧
      ((∃ e, e.kind = .undefinedName ∧ (after calls).lookup id key = .error e) ↔
        ∀ a, Encloses calls a id → ¬ Holds calls a key) ∧
      ∀ p, around calls id = some p → ¬ Holds calls id key →
        SameAnswer ((after calls).lookup id key) ((after calls).lookup p key)) ∧
    ∀ i j a b key key' x y, Makes calls i a key x → Makes calls j b key' y →
      (i = j ↔ a = b ∧ key = key') ∧ (i = j ↔ x = y) := by
  have h := tells_after hc
  refine ⟨fun a d ha ↦ ⟨perform_define_of_holds hc ha, fun hnew ↦ ?_⟩,
    fun id key hid ↦ ⟨fun x ↦ ?_, ?_, ?_⟩, fun i j a b key key' x y hi hj ↦ hi.eq_iff hc hj⟩
  · have hdefine : Call.Legal (after calls) (.define a d) := ha
    have h' := tells_after (legal_append.mpr ⟨hc, hdefine⟩)
    refine ⟨_, perform_define_of_not_holds hc ha hnew, fun id key hid ↦ ⟨?_, fun hnot ↦ ?_⟩⟩
    · rintro ⟨rfl, harrives⟩
      exact lookup_ok_iff.mpr (found?_append_define_of_arrives hc h h' hnew harrives hid)
    · exact sameAnswer_of_found?_eq (found?_append_define_of_not hc h h' hnot hid)
  · rw [lookup_ok_iff, found?_eq_some_iff hc h hid]
  · rw [lookup_error_iff, found?_eq_none_iff hc h hid]
  · intro p hp hnot
    apply sameAnswer_of_found?_eq
    rw [h.found?_eq hid, (not_holds_iff hc).mp hnot, hp]
    rfl

/-- A scope inside another: the outer one gets a variable and a function of two parameters only
after the inner one has a function of the same name with one parameter. A second definition of the
variable comes too late. -/
def lateDefinitions : List Call :=
  [.create none, .create (some 0), .define 1 (.ofFunction "f" "f" [.integer] .nil),
    .define 0 (.ofVariable "x" "x" .integer false),
    .define 0 (.ofFunction "f" "g" [.integer, .integer] .nil),
    .define 0 (.ofVariable "x" "y" .string true)]

/-- Definitions that come later are seen from the scope inside. -/
theorem lateDefinitions_write_once :
    empty.Legal lateDefinitions ∧
      (after lateDefinitions).lookup 1 (.ofVariable "x") =
        .ok (.variable ⟨"x", "x", .integer, false, .scope 0⟩) ∧
      (after lateDefinitions).lookup 1 (.ofFunction "f" 2) =
        .ok (.function ⟨"f", "g", [.integer, .integer], .nil, .scope 0⟩) := by
  have hc : empty.Legal lateDefinitions := by decide
  have hx : ¬ Holds lateDefinitions 1 (.ofVariable "x") := (not_holds_iff hc).mpr (by decide)
  have hf : ¬ Holds lateDefinitions 1 (.ofFunction "f" 2) := (not_holds_iff hc).mpr (by decide)
  obtain ⟨-, hlookup, -⟩ := nested_write_once lateDefinitions hc
  refine ⟨hc, ?_, ?_⟩
  · apply ((hlookup 1 _ (by decide)).1 _).mpr
    exact ⟨0, 3, .outwards hx rfl .here, _, rfl, rfl, rfl⟩
  · apply ((hlookup 1 _ (by decide)).1 _).mpr
    exact ⟨0, 4, .outwards hf rfl .here, _, rfl, rfl, rfl⟩

end Scopes.History

end TreeCheck
