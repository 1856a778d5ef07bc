import Mathlib.Logic.Relation
import TreeCheck.Proofs.Independence

/-!
# More definitions around a tree

A tree that is accepted stays accepted, with the same types and bindings, if more can be seen from
outside: if the outermost block around it gets more definitions, if there are further blocks beyond
it, and if more types are registered. Nothing that an accepted tree uses can be hidden that way,
since inner blocks come first and a definition never replaces another.
-/

namespace TreeCheck

/-- One definition is made in a block. -/
inductive Block.Defines (b b' : Block) : Prop where
  | ofVariable (v : Variable) (h : b.defineVariable v = .ok b')
  | ofFunction (f : Function) (h : b.defineFunction f = .ok b')

/-- Any number of definitions are made in a block. -/
def Block.Grows : Block → Block → Prop := Relation.ReflTransGen Block.Defines

/-- Any number of types are registered in a catalog. -/
def Catalog.Grows : Catalog → Catalog → Prop :=
  Relation.ReflTransGen fun c c' ↦ ∃ t, c.register t = .ok c'

/-- The outermost block of a chain grows, and there may be any blocks beyond it. -/
inductive Chain.Weakens : Chain → Chain → Prop where
  | beyond (c : Chain) : Weakens [] c
  | outermost {b b' : Block} (c : Chain) (h : b.Grows b') : Weakens [b] (b' :: c)
  | inner (b : Block) {b₁ : Block} {c c' : Chain} (h : Weakens (b₁ :: c) c') :
    Weakens (b :: b₁ :: c) (b :: c')

/-! ### What has been found is found again -/

namespace Block

variable {b b' : Block}

private theorem Grows.findVariable (h : b.Grows b') {name : Text} {v : Variable}
    (hv : b.findVariable? name = some v) : b'.findVariable? name = some v := by
  induction h with
  | refl => exact hv
  | @tail b₁ b₂ _ hd ih =>
    cases hd with
    | ofVariable w hd =>
      obtain ⟨_, rfl⟩ := defineVariable_ok_iff.mp hd
      unfold findVariable? at ih ⊢
      rw [List.find?_append, ih, Option.some_or]
    | ofFunction f hd =>
      obtain ⟨_, rfl⟩ := defineFunction_ok_iff.mp hd
      exact ih

private theorem Grows.findFunction (h : b.Grows b') {name : Text} {arity : Int} {f : Function}
    (hf : b.findFunction? name arity = some f) : b'.findFunction? name arity = some f := by
  induction h with
  | refl => exact hf
  | @tail b₁ b₂ _ hd ih =>
    cases hd with
    | ofVariable w hd =>
      obtain ⟨_, rfl⟩ := defineVariable_ok_iff.mp hd
      exact ih
    | ofFunction g hd =>
      obtain ⟨_, rfl⟩ := defineFunction_ok_iff.mp hd
      unfold findFunction? at ih ⊢
      rw [List.find?_append, ih, Option.some_or]

end Block

private theorem Catalog.Grows.find {c c' : Catalog} (h : c.Grows c') {name : Text} {t : Ty}
    (ht : c.find? name = some t) : c'.find? name = some t := by
  induction h with
  | refl => exact ht
  | tail _ hr ih =>
    obtain ⟨u, hr⟩ := hr
    obtain ⟨_, rfl⟩ := register_ok_iff.mp hr
    unfold find? at ih ⊢
    rw [List.find?_append, ih, Option.some_or]

namespace Chain.Weakens

variable {c c' : Chain}

/-- A variable that is found in a chain is found in a weaker one, too. -/
theorem findVariable (h : Weakens c c') {name : Text} {v : Variable}
    (hv : c.findVariable? name = some v) : c'.findVariable? name = some v := by
  induction h with
  | beyond c => cases hv
  | outermost c h =>
    rw [Likeness.findVariable_cons] at hv ⊢
    rw [Option.or_eq_some_iff] at hv
    rcases hv with hv | ⟨_, hv⟩
    · rw [h.findVariable hv, Option.some_or]
    · cases hv
  | inner b h ih =>
    rw [Likeness.findVariable_cons] at hv ⊢
    rw [Option.or_eq_some_iff] at hv
    rcases hv with hv | ⟨hn, hv⟩
    · rw [hv, Option.some_or]
    · rw [hn, Option.none_or]
      exact ih hv

private theorem findFunction (h : Weakens c c') {name : Text} {arity : Int} {f : Function}
    (hf : c.findFunction? name arity = some f) : c'.findFunction? name arity = some f := by
  induction h with
  | beyond c => cases hf
  | outermost c h =>
    rw [Likeness.findFunction_cons] at hf ⊢
    rw [Option.or_eq_some_iff] at hf
    rcases hf with hf | ⟨_, hf⟩
    · rw [h.findFunction hf, Option.some_or]
    · cases hf
  | inner b h ih =>
    rw [Likeness.findFunction_cons] at hf ⊢
    rw [Option.or_eq_some_iff] at hf
    rcases hf with hf | ⟨hn, hf⟩
    · rw [hf, Option.some_or]
    · rw [hn, Option.none_or]
      exact ih hf

end Chain.Weakens

/-! ### Analyses that see more -/

namespace Symbols

variable {s s' : Symbols} {parent parent' : Option ScopeId} {own' : ScopeId}

private theorem likeness_weakens {c c' : Chain} (hc : ∀ b ∈ c, b.Below s.scopes.size)
    (h : Chain.Weakens c c') : (s.likeness False own').Chains c c' where
  findVariable := by
    intro name v hv
    obtain ⟨b, hb, hf⟩ := List.exists_of_findSome?_eq_some hv
    have hk := (hc b hb).vars v (List.mem_of_find?_eq_some hf)
    exact ⟨v, h.findVariable hv, .of_sites hk (.inl rfl)⟩
  findFunction := by
    intro name arity f hf
    obtain ⟨b, hb, hg⟩ := List.exists_of_findSome?_eq_some hf
    have hk := (hc b hb).funs f (List.mem_of_find?_eq_some hg)
    exact ⟨f, h.findFunction hf, .of_sites hk (.inl rfl)⟩
  blocks := False.elim

/-- Where an analysis takes place that sees more. -/
theorem places_weakens (hs : s.Allocated)
    (hparent : Chain.Weakens (s.scopes.around parent) (s'.scopes.around parent'))
    (hscopes : ∀ id < s.scopes.size, Chain.Weakens (s.scopes.chain id) (s'.scopes.chain id))
    (hsize : s.scopes.size ≤ s'.scopes.size) (hcatalog : s.catalog.Grows s'.catalog) :
    (s.likeness False s'.scopes.size).Places (s.top parent) (s'.top parent') where
  members t ht := by
    rw [members_top ht, members_top (ht.mono hsize)]
    refine likeness_weakens (members_below hs) ?_
    cases t with
    | builtin b => exact .beyond []
    | object o => exact hscopes o.members ht
  catalog := ⟨fun ht ↦ ⟨hcatalog.find ht, hs.catalog _ (Catalog.mem_of_find ht)⟩, False.elim⟩
  outer := likeness_weakens (fun b hb ↦ hs.around hb) hparent
  returns := rfl

/-- A tree that is accepted is accepted with the same types and bindings if more is visible: if the
outermost scope around it, or around the members of a type, has got more definitions, if there are
further scopes beyond it, and if more types have been registered. -/
theorem analyze_ok_weakens {α : Type} (s s' : Symbols) (parent parent' : Option ScopeId)
    (tree : Node α) (n : NodeId) (r : Resolutions) (hs : s.Allocated)
    (hparent : Chain.Weakens (s.scopes.around parent) (s'.scopes.around parent'))
    (hscopes : ∀ id < s.scopes.size, Chain.Weakens (s.scopes.chain id) (s'.scopes.chain id))
    (hsize : s.scopes.size ≤ s'.scopes.size) (hcatalog : s.catalog.Grows s'.catalog)
    (hr : (s.analyze parent (tree.label n)).result = .ok r) :
    ∃ r', (s'.analyze parent' (tree.label n)).result = .ok r' ∧
      r.Matches s.scopes.size s'.scopes.size r' := by
  have hn := Node.nodup_ids_label n tree
  obtain ⟨b, he⟩ := (analyze_ok_iff_elaborate hn).mp hr
  have ht := (s.likeness False s'.scopes.size).node_retraces likeness_relabels
    (places_weakens hs hparent hscopes hsize hcatalog) (likeness_topBlock s s') (tree.label n)
  rw [Node.map_id, he] at ht
  obtain ⟨r', b', he', hr', _⟩ := ht
  exact ⟨r', (analyze_ok_iff_elaborate hn).mpr ⟨b', he'⟩, hr'.matches⟩

end Symbols

/-! ### A sum in two places -/

/-- A constant of a type in a scope. -/
def constantIn (scope : ScopeId) (name : Text) (type : Ty) : Variable :=
  ⟨name, name, type, true, .scope scope⟩

/-- A scope that defines `x`, and one inside it that defines `y`. -/
def pairSymbols : Symbols :=
  { Symbols.initial with
    scopes := ⟨[⟨some 0, ⟨[constantIn 1 "y" .integer], []⟩⟩,
      ⟨none, ⟨[constantIn 0 "x" .integer], []⟩⟩]⟩ }

/-- The outermost scope defines `z` as well, and a chain like the one before ends in a scope with
another `x`; there is a new type. -/
def widerSymbols : Symbols :=
  { Symbols.initial with
    scopes := ⟨[⟨some 3, ⟨[constantIn 1 "y" .integer], []⟩⟩,
      ⟨some 2, ⟨[constantIn 0 "x" .integer, constantIn 0 "z" .string], []⟩⟩,
      ⟨none, ⟨[constantIn 2 "x" .string], []⟩⟩,
      ⟨some 0, ⟨[constantIn 1 "y" .integer], []⟩⟩,
      ⟨none, ⟨[constantIn 0 "x" .integer, constantIn 0 "z" .string], []⟩⟩]⟩
    catalog := ⟨Catalog.builtins.types ++ [.object ⟨0, "Point", "Point", 2⟩]⟩ }

/-- The sum of `x` and `y`. -/
def pairSum : Node Unit :=
  .expr (.binary () "+" (.access () none "x") (.access () none "y"))

/-- A sum is analysed alike in a scope with more definitions around it. -/
theorem pairSum_weakens :
    ∃ r r', (pairSymbols.analyze (some 1) (pairSum.label 0)).result = .ok r ∧
      (widerSymbols.analyze (some 4) (pairSum.label 0)).result = .ok r' ∧ r.Matches 2 5 r' := by
  have hok : (pairSymbols.analyze (some 1) (pairSum.label 0)).result.isOk = true := by
    decide +kernel
  obtain ⟨r, hr⟩ := exists_of_isOk hok
  have hgrows : Block.Grows ⟨[constantIn 0 "x" .integer], []⟩
      ⟨[constantIn 0 "x" .integer, constantIn 0 "z" .string], []⟩ :=
    .single (.ofVariable (constantIn 0 "z" .string) (by decide +kernel))
  have hscopes : ∀ id < pairSymbols.scopes.size,
      Chain.Weakens (pairSymbols.scopes.chain id) (widerSymbols.scopes.chain id) := by
    intro id hid
    rcases Nat.lt_succ_iff_lt_or_eq.mp hid with hid | rfl
    · obtain rfl := Nat.lt_one_iff.mp hid
      exact .outermost [] hgrows
    · exact .inner _ (.outermost [] hgrows)
  obtain ⟨r', hr', hm⟩ := Symbols.analyze_ok_weakens pairSymbols widerSymbols (some 1) (some 4)
    pairSum 0 r (by decide +kernel) (.inner _ (.outermost [_] hgrows)) hscopes (by decide)
    (.single ⟨.object ⟨0, "Point", "Point", 2⟩, by decide +kernel⟩) hr
  exact ⟨r, r', hr, hr', hm⟩

end TreeCheck
