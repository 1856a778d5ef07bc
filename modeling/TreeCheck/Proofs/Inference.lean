import TreeCheck.Proofs.Judgement
import TreeCheck.Proofs.Success

/-!
# The types of expressions

The rules that a checker computes with decide the relations of the judgement, and elaboration of an
expression succeeds with a type exactly if the expression has that type in the context that consists
of the current block and what surrounds it. Since elaboration finds one type at most, an expression
has one type at most.
-/

namespace TreeCheck

/-! ### Rules -/

private theorem isComparable_of_mem :
    ∀ b ∈ [Builtin.integer, .decimal, .character, .string],
      Ty.comparable.accepts (.builtin b) = true := by decide

/-- Assignability is decided by `accepts`. -/
theorem assignable_iff {target source : Ty} :
    Assignable target source ↔ target.accepts source = true := by
  constructor
  · rintro (_ | _ | ⟨hb⟩)
    · simp [Ty.accepts]
    · simp [Ty.accepts]
    · exact isComparable_of_mem _ hb
  · intro h
    simp only [Ty.accepts, Bool.or_eq_true, Bool.and_eq_true, decide_eq_true_eq] at h
    obtain (rfl | rfl) | ⟨rfl, hs⟩ := h
    · exact .same target
    · exact .any source
    · match source, hs with
      | .builtin .integer, _ => exact .comparable (by decide)
      | .builtin .decimal, _ => exact .comparable (by decide)
      | .builtin .character, _ => exact .comparable (by decide)
      | .builtin .string, _ => exact .comparable (by decide)

/-- Assignability is a matter of computation also for lists. -/
theorem forall₂_assignable_iff {parameters arguments : List Ty} :
    List.Forall₂ Assignable parameters arguments ↔
      List.Forall₂ (fun p a ↦ p.accepts a = true) parameters arguments := by
  simp only [assignable_iff, List.forall₂_iff_get]

private theorem Rules.isInt32_iff {n : Int} :
    isInt32 n = true ↔ -2147483648 ≤ n ∧ n ≤ 2147483647 := by
  simp only [isInt32, Bool.and_eq_true, decide_eq_true_eq]

/-- The judgement gives a literal the type that the rules give it. -/
theorem Literal.hasType_iff {value : Literal} {t : Ty} :
    value.HasType t ↔ Rules.literalType value = .ok t := by
  constructor
  · rintro (_ | _ | _ | _ | hn | hd)
    case integer => simp [Rules.literalType, Rules.isInt32_iff.mpr hn]
    case decimal => simp [Rules.literalType, hd]
    all_goals rfl
  · intro h
    cases value with
    | nil => cases h; exact .nil
    | boolean b => cases h; exact .boolean b
    | character c => cases h; exact .character c
    | string s => cases h; exact .string s
    | integer n =>
      by_cases hn : Rules.isInt32 n = true
      · simp only [Rules.literalType, hn, if_true, Except.ok.injEq] at h
        exact h ▸ .integer (Rules.isInt32_iff.mp hn)
      · simp [Rules.literalType, hn] at h
    | decimal d =>
      by_cases hd : d.fitsDouble = true
      · simp only [Rules.literalType, hd, if_true, Except.ok.injEq] at h
        exact h ▸ .decimal hd
      · simp [Rules.literalType, hd] at h
    | nonFinite n => cases h

namespace Rules

private theorem comparisonType_ok_iff {left right t : Ty} :
    comparisonType left right = .ok t ↔
      left = right ∧ Assignable .comparable left ∧ t = .boolean := by
  simp only [comparisonType, except_bind_ok_iff, requireAssignable_ok_iff, ← assignable_iff]
  constructor
  · rintro ⟨_, hl, _, _, h⟩
    split at h
    · next he => exact ⟨he, hl, (except_pure_ok_iff.mp h).symm⟩
    · cases h
  · rintro ⟨rfl, hl, rfl⟩
    exact ⟨(), hl, (), hl, by simp [pure, Except.pure]⟩

private theorem arithmeticType_ok_iff {operator : Text} {left right t : Ty} :
    arithmeticType operator left right = .ok t ↔
      left = right ∧ t = left ∧ (t = .integer ∨ t = .decimal) := by
  unfold arithmeticType
  split
  · next h =>
    simp only [reduceCtorEq, false_iff]
    rintro ⟨_, rfl, ht | ht⟩
    · exact h.1 ht
    · exact h.2 ht
  · next h =>
    have hn : left = .integer ∨ left = .decimal := by tauto
    split
    · next hd => simp [hd]
    · next he =>
      simp only [ne_eq, not_not] at he
      simp only [Except.ok.injEq]
      constructor
      · rintro rfl
        exact ⟨he, rfl, hn⟩
      · rintro ⟨_, rfl, _⟩
        rfl

-- The next four say that no operator is of two kinds.

private theorem binaryType_logical {operator : Text} (h : operator ∈ (["AND", "OR"] : List Text))
    (left right : Ty) :
    binaryType operator left right =
      if left = .boolean ∧ right = .boolean then .ok .boolean
      else .error (.operandsNotBoolean operator left right) := by
  simp [binaryType, isLogical, h]

private theorem binaryType_comparison {operator : Text}
    (h : operator ∈ (["<", "<=", ">", ">=", "==", "!="] : List Text)) (left right : Ty) :
    binaryType operator left right = comparisonType left right := by
  have hl : ∀ o ∈ (["<", "<=", ">", ">=", "==", "!="] : List Text), isLogical o = false := by
    decide
  simp [binaryType, isComparison, hl operator h, h]

private theorem binaryType_plus (left right : Ty) :
    binaryType "+" left right =
      if left = .string ∨ right = .string then .ok .string
      else arithmeticType "+" left right := by
  have hl : isLogical "+" = false := by decide
  have hc : isComparison "+" = false := by decide
  simp [binaryType, isPlus, hl, hc]

private theorem binaryType_arithmetic {operator : Text}
    (h : operator ∈ (["-", "*", "/"] : List Text)) (left right : Ty) :
    binaryType operator left right = arithmeticType operator left right := by
  have hs : ∀ o ∈ (["-", "*", "/"] : List Text),
      isLogical o = false ∧ isComparison o = false ∧ isPlus o = false := by decide
  obtain ⟨hl, hc, hp⟩ := hs operator h
  simp [binaryType, isArithmetic, hl, hc, hp, h]

end Rules

/-- The judgement gives an operator the type that the rules give it. -/
theorem operates_iff {operator : Text} {left right t : Ty} :
    Operates operator left right t ↔ Rules.binaryType operator left right = .ok t := by
  constructor
  · intro h
    cases h with
    | logical ho => rw [Rules.binaryType_logical ho]; rfl
    | comparison ho ht =>
      rw [Rules.binaryType_comparison ho]
      exact Rules.comparisonType_ok_iff.mpr ⟨rfl, ht, rfl⟩
    | joinLeft => rw [Rules.binaryType_plus]; simp
    | joinRight => rw [Rules.binaryType_plus]; simp
    | arithmetic ho ht =>
      have ha (o : Text) : Rules.arithmeticType o left left = .ok left :=
        Rules.arithmeticType_ok_iff.mpr ⟨rfl, rfl, ht⟩
      obtain rfl | ho := List.mem_cons.mp ho
      · rw [Rules.binaryType_plus, ha]
        obtain rfl | rfl := ht <;> rfl
      · rw [Rules.binaryType_arithmetic ho, ha]
  · intro h
    by_cases hl : operator ∈ (["AND", "OR"] : List Text)
    · rw [Rules.binaryType_logical hl] at h
      split at h
      · next ht =>
        obtain ⟨rfl, rfl⟩ := ht
        cases h
        exact .logical hl
      · cases h
    by_cases hc : operator ∈ (["<", "<=", ">", ">=", "==", "!="] : List Text)
    · rw [Rules.binaryType_comparison hc] at h
      obtain ⟨rfl, ht, rfl⟩ := Rules.comparisonType_ok_iff.mp h
      exact .comparison hc ht
    by_cases hp : operator = "+"
    · subst hp
      rw [Rules.binaryType_plus] at h
      split at h
      · next hs =>
        cases h
        obtain rfl | rfl := hs
        · exact .joinLeft right
        · exact .joinRight left
      · obtain ⟨rfl, rfl, ht⟩ := Rules.arithmeticType_ok_iff.mp h
        exact .arithmetic List.mem_cons_self ht
    by_cases ha : operator ∈ (["-", "*", "/"] : List Text)
    · rw [Rules.binaryType_arithmetic ha] at h
      obtain ⟨rfl, rfl, ht⟩ := Rules.arithmeticType_ok_iff.mp h
      exact .arithmetic (List.mem_cons_of_mem _ ha) ht
    · simp [Rules.binaryType, Rules.isLogical, Rules.isComparison, Rules.isPlus, Rules.isArithmetic,
        hl, hc, hp, ha] at h

/-- The type of a literal is built in. -/
theorem Rules.builtin_of_literalType {value : Literal} {t : Ty}
    (h : Rules.literalType value = .ok t) : ∃ b, t = .builtin b := by
  cases Literal.hasType_iff.mpr h <;> exact ⟨_, rfl⟩

/-- The type that an operator gives is built in. -/
theorem Rules.builtin_of_binaryType {operator : Text} {left right t : Ty}
    (h : Rules.binaryType operator left right = .ok t) : ∃ b, t = .builtin b := by
  cases operates_iff.mpr h with
  | arithmetic _ ht =>
    obtain rfl | rfl := ht
    · exact ⟨_, rfl⟩
    · exact ⟨_, rfl⟩
  | logical => exact ⟨_, rfl⟩
  | comparison => exact ⟨_, rfl⟩
  | joinLeft => exact ⟨_, rfl⟩
  | joinRight => exact ⟨_, rfl⟩

/-! ### Contexts -/

/-- What is seen in a chain is what a search through it finds. -/
theorem sees_iff {β : Type} {find : Block → Option β} {x : β} {c : Chain} :
    Sees find x c ↔ c.findSome? find = some x := by
  induction c with
  | nil =>
    constructor
    · rintro ⟨⟩
    · intro h
      cases h
  | cons b c ih =>
    rw [List.findSome?_cons]
    cases hb : find b with
    | some y =>
      simp only [Option.some.injEq]
      constructor
      · rintro (hx | ⟨hn, _⟩)
        · exact Option.some.inj (hb.symm.trans hx)
        · cases hb.symm.trans hn
      · rintro rfl
        exact .here hb
    | none =>
      rw [← ih]
      constructor
      · rintro (hx | ⟨_, hc⟩)
        · cases hb.symm.trans hx
        · exact hc
      · exact .outer hb

/-- The context that a block and what surrounds it make up. -/
def Env.context (env : Env) (b : Block) : Context :=
  ⟨b, env.outer, env.returns, env.catalog, env.scopes.members⟩

section Contexts

variable {env : Env} {b : Block}

private theorem Env.newVariable_iff {name : Text} :
    (env.context b).NewVariable name ↔ b.findVariable? name = none :=
  Block.findVariable_eq_none.symm

private theorem Env.newFunction_iff {name : Text} {arity : Nat} :
    (env.context b).NewFunction name arity ↔ b.findFunction? name arity = none :=
  Block.findFunction_eq_none.symm

/-- A declared variable must be new, and it extends the context. -/
theorem Env.defineVariable_iff {v : Variable} {b' : Block} :
    b.defineVariable v = .ok b' ↔
      (env.context b).NewVariable v.name ∧ b' = ((env.context b).extend [v]).inner := by
  rw [newVariable_iff, Block.defineVariable_ok_iff]
  rfl

/-- A defined function must be new, and it extends the context. -/
theorem Env.defineFunction_iff {f : Function} {b' : Block} :
    b.defineFunction f = .ok b' ↔
      (env.context b).NewFunction f.name f.arity ∧ b' = ((env.context b).define f).inner := by
  rw [newFunction_iff, Block.defineFunction_ok_iff]
  rfl

/-! ### Expressions -/

namespace Expr

mutual

/-- The type of an expression is the one that elaboration finds. -/
theorem hasType_iff (e : Expr NodeId) {t : Ty} :
    e.HasType (env.context b) t ↔ ∃ d, e.elaborate env.scopes (b :: env.outer) = .ok (t, d) :=
  match e with
  | literal tag value => by
    constructor
    · intro h
      cases h with | literal hv
      exact ⟨_, elaborate_literal_ok_iff.mpr ⟨Literal.hasType_iff.mp hv, rfl⟩⟩
    · rintro ⟨d, h⟩
      exact .literal (Literal.hasType_iff.mpr (elaborate_literal_ok_iff.mp h).1)
  | group tag inner => by
    constructor
    · intro h
      cases h with | group hk hi
      obtain ⟨d, h⟩ := (hasType_iff inner).mp hi
      exact ⟨_, elaborate_group_ok_iff.mpr ⟨hk, d, h, rfl⟩⟩
    · rintro ⟨d, h⟩
      obtain ⟨hk, d₁, hi, _⟩ := elaborate_group_ok_iff.mp h
      exact .group hk ((hasType_iff inner).mpr ⟨d₁, hi⟩)
  | binary tag operator left right => by
    constructor
    · intro h
      cases h with | binary hl hr ho
      obtain ⟨d₁, h₁⟩ := (hasType_iff left).mp hl
      obtain ⟨d₂, h₂⟩ := (hasType_iff right).mp hr
      exact ⟨_, elaborate_binary_ok_iff.mpr ⟨_, d₁, _, d₂, h₁, h₂, operates_iff.mp ho, rfl⟩⟩
    · rintro ⟨d, h⟩
      obtain ⟨t₁, d₁, t₂, d₂, h₁, h₂, ho, _⟩ := elaborate_binary_ok_iff.mp h
      exact .binary ((hasType_iff left).mpr ⟨d₁, h₁⟩) ((hasType_iff right).mpr ⟨d₂, h₂⟩)
        (operates_iff.mpr ho)
  | access tag none name => by
    constructor
    · intro h
      cases h with | access hv
      exact ⟨_, elaborate_variable_ok_iff.mpr ⟨_, sees_iff.mp hv, rfl, rfl⟩⟩
    · rintro ⟨d, h⟩
      obtain ⟨v, hv, rfl, _⟩ := elaborate_variable_ok_iff.mp h
      exact .access (sees_iff.mpr hv)
  | access tag (some receiver) name => by
    constructor
    · intro h
      cases h with | field hr hv
      obtain ⟨d, h⟩ := (hasType_iff receiver).mp hr
      exact ⟨_, elaborate_field_ok_iff.mpr ⟨_, d, _, h, sees_iff.mp hv, rfl, rfl⟩⟩
    · rintro ⟨d, h⟩
      obtain ⟨owner, d₁, v, hr, hv, rfl, _⟩ := elaborate_field_ok_iff.mp h
      exact .field ((hasType_iff receiver).mpr ⟨d₁, hr⟩) (sees_iff.mpr hv)
  | call tag none name arguments => by
    constructor
    · intro h
      cases h with | call ha hf hp
      obtain ⟨d, h⟩ := (hasTypes_iff arguments).mp ha
      exact ⟨_, elaborate_function_ok_iff.mpr
        ⟨_, d, _, h, sees_iff.mp hf, forall₂_assignable_iff.mp hp, rfl, rfl⟩⟩
    · rintro ⟨d, h⟩
      obtain ⟨ts, d₁, f, ha, hf, hp, rfl, _⟩ := elaborate_function_ok_iff.mp h
      exact .call ((hasTypes_iff arguments).mpr ⟨d₁, ha⟩) (sees_iff.mpr hf)
        (forall₂_assignable_iff.mpr hp)
  | call tag (some receiver) name arguments => by
    constructor
    · intro h
      cases h with | method ha hr hf hp
      obtain ⟨d₁, h₁⟩ := (hasTypes_iff arguments).mp ha
      obtain ⟨d₂, h₂⟩ := (hasType_iff receiver).mp hr
      exact ⟨_, elaborate_method_ok_iff.mpr
        ⟨_, d₁, _, d₂, _, h₁, h₂, sees_iff.mp hf, forall₂_assignable_iff.mp hp, rfl, rfl⟩⟩
    · rintro ⟨d, h⟩
      obtain ⟨ts, d₁, owner, d₂, f, ha, hr, hf, hp, rfl, _⟩ := elaborate_method_ok_iff.mp h
      exact .method ((hasTypes_iff arguments).mpr ⟨d₁, ha⟩) ((hasType_iff receiver).mpr ⟨d₂, hr⟩)
        (sees_iff.mpr hf) (forall₂_assignable_iff.mpr hp)

/-- The types of expressions are those that elaboration finds. -/
theorem hasTypes_iff (es : List (Expr NodeId)) {ts : List Ty} :
    List.Forall₂ (HasType (env.context b)) es ts ↔
      ∃ d, elaborateAll env.scopes (b :: env.outer) es = .ok (ts, d) :=
  match es with
  | [] => by
    simp only [List.forall₂_nil_left_iff, elaborateAll_nil_ok_iff, exists_and_left,
      exists_eq, and_true]
  | e :: es => by
    rw [List.forall₂_cons_left_iff]
    constructor
    · rintro ⟨t, ts', he, hes, rfl⟩
      obtain ⟨d₁, h₁⟩ := (hasType_iff e).mp he
      obtain ⟨d₂, h₂⟩ := (hasTypes_iff es).mp hes
      exact ⟨_, elaborateAll_cons_ok_iff.mpr ⟨t, d₁, ts', d₂, h₁, h₂, rfl, rfl⟩⟩
    · rintro ⟨d, h⟩
      obtain ⟨t, d₁, ts', d₂, h₁, h₂, rfl, _⟩ := elaborateAll_cons_ok_iff.mp h
      exact ⟨t, ts', (hasType_iff e).mpr ⟨d₁, h₁⟩, (hasTypes_iff es).mpr ⟨d₂, h₂⟩, rfl⟩

end

/-- An expression has one type at most. -/
theorem HasType.unique {e : Expr NodeId} {t u : Ty} (ht : e.HasType (env.context b) t)
    (hu : e.HasType (env.context b) u) : t = u := by
  obtain ⟨d, hd⟩ := (hasType_iff e).mp ht
  obtain ⟨d', hd'⟩ := (hasType_iff e).mp hu
  cases hd.symm.trans hd'
  rfl

/-- An access designates the variable that elaboration finds. -/
theorem designates_iff {e : Expr NodeId} {v : Variable} :
    e.Designates (env.context b) v ↔
      ∃ d, e.elaborateTarget env.scopes (b :: env.outer) = .ok (v, d) := by
  constructor
  · rintro (hv | ⟨hr, hv⟩)
    · exact ⟨_, elaborateTarget_variable_ok_iff.mpr ⟨sees_iff.mp hv, rfl⟩⟩
    · obtain ⟨d, h⟩ := (hasType_iff _).mp hr
      exact ⟨_, elaborateTarget_field_ok_iff.mpr ⟨_, d, h, sees_iff.mp hv, rfl⟩⟩
  · rintro ⟨d, h⟩
    match e, kind_of_elaborateTarget h with
    | access tag none name, _ =>
      exact .access (sees_iff.mpr (elaborateTarget_variable_ok_iff.mp h).1)
    | access tag (some receiver) name, _ =>
      obtain ⟨owner, d₁, hr, hv, _⟩ := elaborateTarget_field_ok_iff.mp h
      exact .field ((hasType_iff receiver).mpr ⟨d₁, hr⟩) (sees_iff.mpr hv)

end Expr

end Contexts

end TreeCheck
