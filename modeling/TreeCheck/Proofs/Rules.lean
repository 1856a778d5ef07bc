import Mathlib.Data.List.Forall2
import TreeCheck.Analysis.Run

/-!
# When the rules hold

Each rule of the analysis, each lookup and each definition is a step that succeeds or breaks off.
This module says for each of them exactly when it succeeds and with what result, in terms of the
types, blocks and lists that it is about.
-/

namespace TreeCheck

variable {α β σ ε : Type}

/-! ### Sequences of steps -/

/-- A rule followed by another succeeds if both do. -/
theorem except_bind_ok_iff {x : Except ε α} {f : α → Except ε β} {b : β} :
    x >>= f = .ok b ↔ ∃ a, x = .ok a ∧ f a = .ok b := by
  constructor
  · intro h
    cases x with
    | error e => cases h
    | ok a => exact ⟨a, rfl, h⟩
  · rintro ⟨a, rfl, h⟩
    exact h

/-- A value that is returned is the result. -/
theorem except_pure_ok_iff {a b : α} : (pure a : Except ε α) = .ok b ↔ a = b := by
  change Except.ok a = _ ↔ _
  simp

/-- A step followed by another succeeds if both do, the second where the first ends. -/
theorem run_bind_ok_iff {x : EStateM ε σ α} {f : α → EStateM ε σ β} {s s' : σ} {b : β} :
    (x >>= f) s = .ok b s' ↔ ∃ a t, x s = .ok a t ∧ f a t = .ok b s' := by
  change EStateM.bind x f s = _ ↔ _
  unfold EStateM.bind
  cases x s with
  | error e t => simp
  | ok a t =>
    constructor
    · exact fun h ↦ ⟨a, t, rfl, h⟩
    · rintro ⟨_, _, hx, h⟩
      cases hx
      exact h

/-- After a step that succeeds the run goes on from where it ends. -/
theorem run_bind_of_ok {x : EStateM ε σ α} {f : α → EStateM ε σ β} {s t : σ} {a : α}
    (h : x s = .ok a t) : (x >>= f) s = f a t := by
  change EStateM.bind x f s = _
  unfold EStateM.bind
  rw [h]

/-- After a step that fails nothing is done. -/
theorem run_bind_of_error {x : EStateM ε σ α} {f : α → EStateM ε σ β} {s t : σ} {e : ε}
    (h : x s = .error e t) : (x >>= f) s = .error e t := by
  change EStateM.bind x f s = _
  unfold EStateM.bind
  rw [h]

/-- Returning a value leaves the state as it is. -/
theorem run_pure_ok_iff {a b : α} {s s' : σ} :
    (pure a : EStateM ε σ α) s = .ok b s' ↔ a = b ∧ s = s' := by
  change EStateM.Result.ok a s = _ ↔ _
  simp

/-- Reading the state leaves it as it is. -/
theorem run_get_ok_iff {s s' t : σ} :
    (get : EStateM ε σ σ) s = .ok t s' ↔ s = t ∧ s = s' := by
  change EStateM.Result.ok s s = _ ↔ _
  simp

/-! ### Rules without names -/

namespace Rules

/-- A condition that is demanded holds. -/
@[simp] theorem require_ok_iff {p : Prop} [Decidable p] {e : ProgramError} {u : Unit} :
    require p e = .ok u ↔ p := by
  unfold require
  split <;> simp [*]

/-- A value that may be assigned has a type that the target accepts. -/
@[simp] theorem requireAssignable_ok_iff {target source : Ty} {u : Unit} :
    requireAssignable target source = .ok u ↔ target.accepts source = true := require_ok_iff

/-- Whatever a for loop sets first must be comparable. -/
theorem requireComparable_ok_iff {control : Option Ty} {u : Unit} :
    requireComparable control = .ok u ↔ ∀ t ∈ control, Ty.comparable.accepts t = true := by
  cases control <;> simp [requireComparable]

/-- A return statement needs an enclosing method that accepts its value. -/
theorem requireReturn_ok_iff {wanted : Option Ty} {found : Ty} {u : Unit} :
    requireReturn wanted found = .ok u ↔ ∃ t, wanted = some t ∧ t.accepts found = true := by
  cases wanted <;> simp [requireReturn]

/-- If there are as many arguments as parameters, then none of them escapes the check. -/
theorem requireArguments_ok_iff {parameters arguments : List Ty} {u : Unit}
    (h : parameters.length = arguments.length) :
    requireArguments parameters arguments = .ok u ↔
      List.Forall₂ (fun p a ↦ p.accepts a = true) parameters arguments := by
  induction parameters generalizing arguments with
  | nil =>
    cases arguments with
    | nil => simp [requireArguments]
    | cons a as => simp at h
  | cons p ps ih =>
    cases arguments with
    | nil => simp at h
    | cons a as =>
      have hl : ps.length = as.length := by simpa using h
      simp [requireArguments, except_bind_ok_iff, ih hl]

end Rules

/-! ### Lookups -/

namespace Block

private theorem name_of_findVariable {b : Block} {name : Text} {v : Variable}
    (h : b.findVariable? name = some v) : v.name = name := by
  simpa using List.find?_some h

/-- A function is found under its name and its number of parameters. -/
theorem key_of_findFunction {b : Block} {name : Text} {arity : Int} {f : Function}
    (h : b.findFunction? name arity = some f) : f.name = name ∧ (f.arity : Int) = arity := by
  simpa using List.find?_some h

/-- A variable is not found if none has the name. -/
theorem findVariable_eq_none {b : Block} {name : Text} :
    b.findVariable? name = none ↔ ∀ v ∈ b.vars, v.name ≠ name := by
  simp [findVariable?]

/-- A function is not found if none has the name and the number of parameters. -/
theorem findFunction_eq_none {b : Block} {name : Text} {arity : Nat} :
    b.findFunction? name arity = none ↔ ∀ f ∈ b.funs, f.name = name → f.arity ≠ arity := by
  simp only [findFunction?, List.find?_eq_none, decide_eq_true_eq, not_and, Int.natCast_inj, ne_eq]

/-- A variable can be defined exactly where its name is free, and it comes last. -/
theorem defineVariable_ok_iff {b b' : Block} {v : Variable} :
    b.defineVariable v = .ok b' ↔
      b.findVariable? v.name = none ∧ b' = { b with vars := b.vars ++ [v] } := by
  unfold defineVariable
  split
  · next h => simp [Option.isSome_iff_ne_none.mp h]
  · next h => simp only [Except.ok.injEq, Option.not_isSome_iff_eq_none.mp h, eq_comm, true_and]

/-- A function can be defined exactly where its name is free for its number of parameters. -/
theorem defineFunction_ok_iff {b b' : Block} {f : Function} :
    b.defineFunction f = .ok b' ↔
      b.findFunction? f.name f.arity = none ∧ b' = { b with funs := b.funs ++ [f] } := by
  unfold defineFunction
  split
  · next h => simp [Option.isSome_iff_ne_none.mp h]
  · next h => simp only [Except.ok.injEq, Option.not_isSome_iff_eq_none.mp h, eq_comm, true_and]

end Block

namespace Chain

/-- Looking up a variable succeeds exactly if it is found. -/
theorem lookupVariable_ok_iff {c : Chain} {name : Text} {v : Variable} :
    c.lookupVariable name = .ok v ↔ c.findVariable? name = some v := by
  unfold lookupVariable
  cases c.findVariable? name <;> simp

/-- Looking up a function succeeds exactly if it is found. -/
theorem lookupFunction_ok_iff {c : Chain} {name : Text} {arity : Int} {f : Function} :
    c.lookupFunction name arity = .ok f ↔ c.findFunction? name arity = some f := by
  unfold lookupFunction
  cases c.findFunction? name arity <;> simp

/-- A variable is found under its name in a chain, too. -/
theorem name_of_findVariable {c : Chain} {name : Text} {v : Variable}
    (h : c.findVariable? name = some v) : v.name = name := by
  obtain ⟨b, _, hb⟩ := List.exists_of_findSome?_eq_some h
  exact Block.name_of_findVariable hb

/-- So is a function under its name and its number of parameters. -/
theorem key_of_findFunction {c : Chain} {name : Text} {arity : Int} {f : Function}
    (h : c.findFunction? name arity = some f) : f.name = name ∧ (f.arity : Int) = arity := by
  obtain ⟨b, _, hb⟩ := List.exists_of_findSome?_eq_some h
  exact Block.key_of_findFunction hb

end Chain

namespace Scopes

/-- Looking up a field succeeds exactly if the members have it. -/
theorem lookupField_ok_iff {s : Scopes} {owner : Ty} {name : Text} {v : Variable} :
    s.lookupField owner name = .ok v ↔ (s.members owner).findVariable? name = some v := by
  unfold lookupField Chain.lookupField
  cases (s.members owner).findVariable? name <;> simp

/-- Looking up a method succeeds exactly if the members have it, the receiver counted. -/
theorem lookupMethod_ok_iff {s : Scopes} {owner : Ty} {name : Text} {arity : Int} {f : Function} :
    s.lookupMethod owner name arity = .ok f ↔
      (s.members owner).findFunction? name (arity + 1) = some f := by
  unfold lookupMethod Chain.lookupMethod
  cases (s.members owner).findFunction? name (arity + 1) <;> simp

end Scopes

namespace Catalog

/-- Resolving a name succeeds exactly if the catalog has it. -/
theorem resolve_ok_iff {c : Catalog} {name : Text} {t : Ty} :
    c.resolve name = .ok t ↔ c.find? name = some t := by
  unfold resolve
  cases c.find? name <;> simp

/-- Resolving names succeeds exactly if the catalog has all of them. -/
theorem resolveAll_ok_iff {c : Catalog} {names : List Text} {ts : List Ty} :
    c.resolveAll names = .ok ts ↔ List.Forall₂ (fun name t ↦ c.find? name = some t) names ts := by
  induction names generalizing ts with
  | nil => simp [resolveAll, eq_comm]
  | cons name names ih =>
    simp only [resolveAll, except_bind_ok_iff, except_pure_ok_iff, resolve_ok_iff, ih,
      List.forall₂_cons_left_iff]
    constructor
    · rintro ⟨t, ht, ts', hts, rfl⟩
      exact ⟨t, ts', ht, hts, rfl⟩
    · rintro ⟨t, ts', ht, hts, rfl⟩
      exact ⟨t, ht, ts', hts, rfl⟩

/-- A return type is resolved by its name, or it is nil. -/
theorem resolveReturn_ok_iff {c : Catalog} {name : Option Text} {t : Ty} :
    c.resolveReturn name = .ok t ↔
      (∃ n, name = some n ∧ c.find? n = some t) ∨ name = none ∧ t = .nil := by
  cases name with
  | none => simp [resolveReturn, eq_comm]
  | some n => simp [resolveReturn, resolve_ok_iff]

end Catalog

/-! ### Declarations, fields, methods and sources -/

/-- A declared type wins over the type of the value, which it must accept. -/
theorem Stmt.declaredType_ok_iff {c : Catalog} {name : Text} {typeName : Option Text}
    {found : Option Ty} {t : Ty} :
    declaredType c name typeName found = .ok t ↔
      (∃ n, typeName = some n ∧ c.find? n = some t ∧ ∀ s ∈ found, t.accepts s = true) ∨
        typeName = none ∧ found = some t := by
  cases typeName with
  | none => cases found <;> simp [declaredType]
  | some n =>
    cases found with
    | none => simp [declaredType, Catalog.resolve_ok_iff]
    | some s =>
      simp only [declaredType, except_bind_ok_iff, except_pure_ok_iff, Catalog.resolve_ok_iff,
        Rules.requireAssignable_ok_iff]
      constructor
      · rintro ⟨t, ht, _, hs, rfl⟩
        exact .inl ⟨n, rfl, ht, by simpa using hs⟩
      · rintro (⟨_, ⟨⟩, ht, hs⟩ | ⟨hn, _⟩)
        · exact ⟨t, ht, (), hs s rfl, rfl⟩
        · cases hn

/-- A field accepts its value, and a constant field has one. -/
theorem Field.requireValue_ok_iff {d : Field NodeId} {type : Ty} {found : Option Ty} {u : Unit} :
    d.requireValue type found = .ok u ↔
      (∀ s ∈ found, type.accepts s = true) ∧ (found = none → d.constant = false) := by
  cases found <;> simp [requireValue]

namespace Method

/-- A method has as many parameters as types for them, and all its types are in the catalog. -/
theorem signature_ok_iff {c : Catalog} {m : Method NodeId} {f : Function} :
    m.signature c = .ok f ↔
      m.parameters.length = m.parameterTypes.length ∧
      ∃ ps t, List.Forall₂ (fun name p ↦ c.find? name = some p) m.parameterTypes ps ∧
        c.resolveReturn m.returnType = .ok t ∧ f = ⟨m.name, m.name, ps, t, .node m.tag⟩ := by
  simp only [signature, except_bind_ok_iff, except_pure_ok_iff, Rules.require_ok_iff,
    Catalog.resolveAll_ok_iff]
  constructor
  · rintro ⟨_, hl, ps, hp, t, ht, rfl⟩
    exact ⟨hl, ps, t, hp, ht, rfl⟩
  · rintro ⟨hl, ps, t, hp, ht, rfl⟩
    exact ⟨(), hl, ps, hp, t, ht, rfl⟩

end Method

/-- The variables that a method's parameters stand for, the first one at `position`. -/
def parameterVariables (method : NodeId) (position : Nat) : List (Text × Ty) → List Variable
  | [] => []
  | (name, type) :: rest =>
    ⟨name, name, type, false, .parameter method position⟩ ::
      parameterVariables method (position + 1) rest

private theorem Block.findVariable_append_eq_none {b : Block} {vs : List Variable} {name : Text} :
    ({ b with vars := b.vars ++ vs } : Block).findVariable? name = none ↔
      b.findVariable? name = none ∧ name ∉ vs.map Variable.name := by
  simp [findVariable?, List.find?_append]

/-- Parameters can be defined exactly if they are new and have names of their own. -/
theorem Block.defineParameters_ok_iff {b b' : Block} {method : NodeId} {position : Nat}
    {ps : List (Text × Ty)} :
    b.defineParameters method position ps = .ok b' ↔
      (∀ p ∈ ps, b.findVariable? p.1 = none) ∧ (ps.map Prod.fst).Nodup ∧
        b' = { b with vars := b.vars ++ parameterVariables method position ps } := by
  induction ps generalizing b position with
  | nil => simp [defineParameters, parameterVariables, eq_comm]
  | cons p ps ih =>
    obtain ⟨name, type⟩ := p
    simp only [defineParameters, except_bind_ok_iff, defineVariable_ok_iff, ih]
    constructor
    · rintro ⟨_, ⟨hn, rfl⟩, hps, hd, rfl⟩
      simp only [findVariable_append_eq_none] at hps
      refine ⟨?_, ?_, by simp [parameterVariables]⟩
      · rintro p (_ | ⟨_, hp⟩)
        · exact hn
        · exact (hps p hp).1
      · refine List.nodup_cons.mpr ⟨?_, hd⟩
        intro hm
        obtain ⟨p, hp, he⟩ := List.mem_map.mp hm
        exact (hps p hp).2 (by simpa using he)
    · rintro ⟨hps, hd, rfl⟩
      obtain ⟨hm, hd⟩ := List.nodup_cons.mp hd
      refine ⟨_, ⟨hps _ List.mem_cons_self, rfl⟩, ?_, hd, by simp [parameterVariables]⟩
      intro p hp
      refine findVariable_append_eq_none.mpr ⟨hps p (List.mem_cons_of_mem _ hp), ?_⟩
      intro he
      exact hm (List.mem_map.mpr ⟨p, hp, by simpa using he⟩)

/-- There is an entry point if a function of its name takes nothing and returns an integer. -/
theorem requireEntryPoint_ok_iff {c : Chain} {u : Unit} :
    requireEntryPoint c = .ok u ↔
      ∃ f, c.findFunction? "main" 0 = some f ∧ f.returns = .integer := by
  unfold requireEntryPoint
  cases c.findFunction? "main" 0 with
  | none => simp
  | some f => simp

end TreeCheck
