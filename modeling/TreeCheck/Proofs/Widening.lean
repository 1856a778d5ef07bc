import TreeCheck.Proofs.Independence
import TreeCheck.Proofs.Retracing

/-!
# Functions that accept more

A function may be replaced by one whose parameters accept at least what those of the first accept. A
tree that is accepted stays accepted, with the same types: no lookup asks for the types of
parameters, no type is found from them, and an argument that the narrower type accepts the wider one
accepts too, since `accepts` is transitive.
-/

namespace TreeCheck

/-- The same function, but for parameters that accept at least as much. -/
def Function.Widens (f g : Function) : Prop :=
  ∃ parameters, List.Forall₂ (fun p q ↦ Ty.accepts q p = true) f.parameters parameters ∧
    g = { f with parameters }

/-- The same variables, and functions that accept at least as much. -/
structure Block.Widens (b b' : Block) : Prop where
  vars : b'.vars = b.vars
  funs : List.Forall₂ Function.Widens b.funs b'.funs

/-- Nested blocks whose functions accept at least as much. -/
def Chain.Widens : Chain → Chain → Prop := List.Forall₂ Block.Widens

private theorem Chain.Widens.refl (c : Chain) : Widens c c :=
  List.forall₂_same.mpr fun _ _ ↦
    ⟨rfl, List.forall₂_same.mpr fun _ _ ↦ ⟨_, Correspondence.forall₂_accepts_self _, rfl⟩⟩

namespace Symbols

variable {s s' : Symbols} {parent parent' : Option ScopeId}

/-- The correspondence between an analysis among the symbols `s` and one whose functions accept at
least as much. -/
def widening (s : Symbols) : Correspondence where
  faithful := False
  verbatim := False
  sameParameters := False
  rename := id
  known := Ty.Below s.scopes.size
  site _ _ := True
  known_builtin _ := trivial
  rename_injective _ _ h := h
  rename_of_verbatim := False.elim
  sameParameters_of_faithful := False.elim

private theorem widening_block {b b' : Block} (hb : b.Below s.scopes.size) (h : b.Widens b') :
    s.widening.Blocks b b' where
  vars := by
    rw [h.vars]
    exact List.forall₂_same.mpr fun v hv ↦ ⟨rfl, False.elim, rfl, rfl, hb.vars v hv, trivial⟩
  funs := by
    refine List.forall₂_iff_zip.mpr ⟨h.funs.length_eq, fun {f g} hfg ↦ ?_⟩
    have hf := hb.funs f (List.of_mem_zip hfg).1
    obtain ⟨ps, haccepts, rfl⟩ := List.forall₂_zip h.funs hfg
    exact ⟨rfl, rfl, haccepts, False.elim, rfl, hf, trivial⟩

private theorem widening_chain {c c' : Chain} (hc : ∀ b ∈ c, b.Below s.scopes.size)
    (h : Chain.Widens c c') : s.widening.Chains c c' := by
  refine .ofBlocks (List.forall₂_iff_zip.mpr ⟨h.length_eq, fun {b b'} hb ↦ ?_⟩)
  exact widening_block (hc b (List.of_mem_zip hb).1) (List.forall₂_zip h hb)

/-- Where an analysis takes place whose functions accept at least as much. -/
theorem places_widening (hs : s.Allocated)
    (hparent : Chain.Widens (s.scopes.around parent) (s'.scopes.around parent'))
    (hscopes : ∀ id < s.scopes.size, Chain.Widens (s.scopes.chain id) (s'.scopes.chain id))
    (hsize : s.scopes.size ≤ s'.scopes.size) (hcatalog : s'.catalog = s.catalog) :
    s.widening.Places (s.top parent) (s'.top parent') where
  members t ht := by
    rw [members_top ht, members_top (ht.mono hsize)]
    refine widening_chain (members_below hs) ?_
    cases t with
    | builtin b => exact .nil
    | object o => exact hscopes o.members ht
  catalog := by
    refine ⟨fun {name t} ht ↦ ?_, False.elim⟩
    change s'.catalog.find? name = some t ∧ _
    rw [hcatalog]
    exact ⟨ht, hs.catalog _ (Catalog.mem_of_find ht)⟩
  outer := widening_chain (fun b hb ↦ hs.around hb) hparent
  returns := rfl

/-- A tree that is accepted is accepted with the same types if functions that are visible around it,
or as methods of types, accept at least as much. -/
theorem analyze_ok_widens {α : Type} (s s' : Symbols) (parent parent' : Option ScopeId)
    (tree : Node α) (n : NodeId) (r : Resolutions) (hs : s.Allocated)
    (hparent : Chain.Widens (s.scopes.around parent) (s'.scopes.around parent'))
    (hscopes : ∀ id < s.scopes.size, Chain.Widens (s.scopes.chain id) (s'.scopes.chain id))
    (hsize : s.scopes.size ≤ s'.scopes.size) (hcatalog : s'.catalog = s.catalog)
    (hr : (s.analyze parent (tree.label n)).result = .ok r) :
    ∃ r', (s'.analyze parent' (tree.label n)).result = .ok r' ∧
      ∀ id, r'.type? id = r.type? id := by
  have htop : s.widening.Blocks s.topBlock s'.topBlock :=
    ⟨.nil, .cons (.declared trivial trivial) .nil⟩
  obtain ⟨r', hr', ht⟩ := Correspondence.analyze_ok_retraces
    ⟨fun _ ↦ trivial, fun _ _ ↦ trivial⟩ (places_widening hs hparent hscopes hsize hcatalog)
    htop hr
  have hrename : tree.rename s.widening.rename = tree := tree.rename_id
  rw [hrename] at hr'
  exact ⟨r', hr', ht.type?_id⟩

end Symbols

/-! ### The area of anything -/

/-- A type without members. -/
def shapeType : Ty := .object ⟨0, "Shape", "Shape", 0⟩

/-- A shape, and a function of two parameters. -/
def areaBlock (parameters : List Ty) : Block :=
  ⟨[⟨"square", "square", shapeType, true, .scope 1⟩],
    [⟨"area", "area", parameters, .decimal, .scope 1⟩]⟩

/-- The members of the type, a scope whose function wants a shape and a whole number, and a scope
whose function wants anything and something comparable. -/
def shapeSymbols : Symbols :=
  { Symbols.initial with
    scopes := ⟨[⟨none, areaBlock [.any, .comparable]⟩, ⟨none, areaBlock [shapeType, .integer]⟩,
      ⟨none, .empty⟩]⟩
    catalog := ⟨Catalog.builtins.types ++ [shapeType]⟩ }

/-- The sum of two areas. -/
def areaSum : Node Unit :=
  .expr (.binary () "+"
    (.call () none "area" [.access () none "square", .literal () (.integer 3)])
    (.call () none "area" [.access () none "square", .literal () (.integer 4)]))

/-- A sum of areas keeps its types when the function of areas takes wider parameters. -/
theorem areaSum_widens :
    ∃ r r', (shapeSymbols.analyze (some 1) (areaSum.label 0)).result = .ok r ∧
      (shapeSymbols.analyze (some 2) (areaSum.label 0)).result = .ok r' ∧
      ∀ id, r'.type? id = r.type? id := by
  have hok : (shapeSymbols.analyze (some 1) (areaSum.label 0)).result.isOk = true := by
    decide +kernel
  obtain ⟨r, hr⟩ := exists_of_isOk hok
  have haccepts : List.Forall₂ (fun p q ↦ Ty.accepts q p = true) [shapeType, .integer]
      [.any, .comparable] := .cons (by decide) (.cons (by decide) .nil)
  obtain ⟨r', hr', ht⟩ := Symbols.analyze_ok_widens shapeSymbols shapeSymbols (some 1) (some 2)
    areaSum 0 r (by decide +kernel) (.cons ⟨rfl, .cons ⟨_, haccepts, rfl⟩ .nil⟩ .nil)
    (fun id _ ↦ Chain.Widens.refl _) (Nat.le_refl _) rfl hr
  exact ⟨r, r', hr, hr', ht⟩

end TreeCheck
