import TreeCheck.Proofs.Inference

/-!
# Alike definitions

Two runs are compared through the definitions they see. A likeness says which definitions
correspond: they look the same and come from corresponding sites. It may be faithful, and then the
second run also sees nothing that the first one does not, so that lookups fail together and with the
same suggestion; otherwise the second run may see more.
-/

namespace TreeCheck

variable {α β γ : Type}

/-- How two runs correspond. -/
structure Likeness where
  /-- Whether the second run also fails as the first one does. -/
  faithful : Prop
  /-- The types that the first run can meet. -/
  known : Ty → Prop
  /-- Where corresponding definitions were introduced. -/
  site : Site → Site → Prop
  known_builtin : ∀ b, known (.builtin b)

namespace Likeness

variable (L : Likeness)

/-! ### Definitions -/

/-- Corresponding variables. -/
structure Variables (v w : Variable) : Prop where
  agrees : v.agrees w = true
  known : L.known v.type
  site : L.site v.site w.site

/-- Corresponding functions. -/
structure Functions (f g : Function) : Prop where
  agrees : f.agrees g = true
  known : L.known f.returns
  site : L.site f.site g.site

/-- Corresponding bindings. -/
inductive Bindings : Binding → Binding → Prop where
  | ofVariable {v w : Variable} (h : L.Variables v w) : Bindings (.variable v) (.variable w)
  | ofFunction {f g : Function} (h : L.Functions f g) : Bindings (.function f) (.function g)

/-- Blocks with corresponding definitions in the same order. -/
structure Blocks (b c : Block) : Prop where
  vars : List.Forall₂ L.Variables b.vars c.vars
  funs : List.Forall₂ L.Functions b.funs c.funs

/-- What is visible in the first chain has its counterpart in the second; if the likeness is
faithful, then block by block. -/
structure Chains (c c' : Chain) : Prop where
  findVariable : ∀ {name : Text} {v : Variable}, c.findVariable? name = some v →
    ∃ w, c'.findVariable? name = some w ∧ L.Variables v w
  findFunction : ∀ {name : Text} {arity : Int} {f : Function},
    c.findFunction? name arity = some f →
      ∃ g, c'.findFunction? name arity = some g ∧ L.Functions f g
  blocks : L.faithful → List.Forall₂ L.Blocks c c'

/-- The types of the first catalog are in the second; if the likeness is faithful, then the catalogs
are the same. -/
structure Catalogs (c c' : Catalog) : Prop where
  find : ∀ {name : Text} {t : Ty}, c.find? name = some t → c'.find? name = some t ∧ L.known t
  same : L.faithful → c' = c

/-- The second outcome repeats the first: results correspond by `Q`, and errors are the same if the
likeness is faithful. -/
def Repeats (Q : α → β → Prop) (x : Except ProgramError α) (y : Except ProgramError β) : Prop :=
  match x with
  | .ok a => ∃ b, y = .ok b ∧ Q a b
  | .error e => L.faithful → y = .error e

variable {L}

/-- Definitions of one name at corresponding sites. -/
theorem Variables.of_sites {name internalName : Text} {t : Ty} {constant : Bool} {a b : Site}
    (ht : L.known t) (hs : L.site a b) :
    L.Variables ⟨name, internalName, t, constant, a⟩ ⟨name, internalName, t, constant, b⟩ :=
  ⟨by simp [Variable.agrees], ht, hs⟩

/-- Definitions of one signature at corresponding sites. -/
theorem Functions.of_sites {name internalName : Text} {ps : List Ty} {t : Ty} {a b : Site}
    (ht : L.known t) (hs : L.site a b) :
    L.Functions ⟨name, internalName, ps, t, a⟩ ⟨name, internalName, ps, t, b⟩ :=
  ⟨by simp [Function.agrees], ht, hs⟩

/-- Bindings that are alike agree. -/
theorem Bindings.agrees {x y : Binding} (h : L.Bindings x y) : x.agrees y = true := by
  cases h with
  | ofVariable h => exact h.agrees
  | ofFunction h => exact h.agrees

/-! ### Lookups in blocks and chains -/

/-- Related lists give related members to tests that agree. -/
theorem rel_find? {R : α → β → Prop} {p : α → Bool} {q : β → Bool} {xs : List α} {ys : List β}
    (h : List.Forall₂ R xs ys) (hpq : ∀ a b, R a b → p a = q b) :
    Option.Rel R (xs.find? p) (ys.find? q) := by
  induction h with
  | nil => exact .none
  | @cons a b xs ys hab _ ih =>
    rw [List.find?_cons, List.find?_cons, hpq a b hab]
    cases q b with
    | true => exact .some hab
    | false => exact ih

/-- First choices and second choices that are related give related choices. -/
theorem rel_or {R : α → β → Prop} {x x' : Option α} {y y' : Option β} (h : Option.Rel R x y)
    (h' : Option.Rel R x' y') : Option.Rel R (x.or x') (y.or y') := by
  cases h with
  | some h => exact .some h
  | none => exact h'

/-- A relation between options may be weakened. -/
theorem rel_mono {R S : α → β → Prop} {x : Option α} {y : Option β} (h : Option.Rel R x y)
    (hrs : ∀ a b, R a b → S a b) : Option.Rel S x y := by
  cases h with
  | some h => exact .some (hrs _ _ h)
  | none => exact .none

/-- What is related to nothing is nothing. -/
theorem eq_none_of_rel {R : α → β → Prop} {x : Option α} {y : Option β} (h : Option.Rel R x y)
    (hx : x = none) : y = none := by
  subst hx
  cases h
  rfl

/-- What is related to something is something. -/
theorem exists_of_rel {R : α → β → Prop} {x : Option α} {y : Option β} (h : Option.Rel R x y)
    {a : α} (hx : x = some a) : ∃ b, y = some b ∧ R a b := by
  subst hx
  cases h with
  | some h => exact ⟨_, rfl, h⟩

/-- Related lists have the same image under functions that agree. -/
theorem map_eq_of_forall₂ {R : α → β → Prop} {f : α → γ} {g : β → γ} {xs : List α} {ys : List β}
    (h : List.Forall₂ R xs ys) (hfg : ∀ a b, R a b → g b = f a) : ys.map g = xs.map f := by
  induction h with
  | nil => rfl
  | cons hab _ ih => rw [List.map_cons, List.map_cons, hfg _ _ hab, ih]

/-- A variable is looked for in the inner block, then in the others. -/
theorem findVariable_cons (b : Block) (c : Chain) (name : Text) :
    Chain.findVariable? (b :: c) name = (b.findVariable? name).or (c.findVariable? name) := by
  unfold Chain.findVariable?
  rw [List.findSome?_cons]
  cases b.findVariable? name <;> rfl

/-- A function is looked for in the inner block, then in the others. -/
theorem findFunction_cons (b : Block) (c : Chain) (name : Text) (arity : Int) :
    Chain.findFunction? (b :: c) name arity =
      (b.findFunction? name arity).or (c.findFunction? name arity) := by
  unfold Chain.findFunction?
  rw [List.findSome?_cons]
  cases b.findFunction? name arity <;> rfl

/-- A block is like itself if sites are and its types can be met. -/
theorem Blocks.self {b : Block} (hs : ∀ a, L.site a a) (hv : ∀ v ∈ b.vars, L.known v.type)
    (hf : ∀ f ∈ b.funs, L.known f.returns) : L.Blocks b b where
  vars := List.forall₂_same.mpr fun v hm ↦ .of_sites (hv v hm) (hs _)
  funs := List.forall₂_same.mpr fun f hm ↦ .of_sites (hf f hm) (hs _)

end Likeness

end TreeCheck
