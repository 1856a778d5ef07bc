import TreeCheck.Proofs.Allocation
import TreeCheck.Proofs.Consistency
import TreeCheck.Proofs.Keys
import TreeCheck.Proofs.Transfer
import TreeCheck.Proofs.Walks

/-!
# Analyses do not interfere

An analysis among live scopes makes scopes and changes nothing else, however it ends. Trees that are
analysed one after another, each among the scopes that the analyses before it left, are therefore
analysed as if each were alone: with the same error, or with the same types and bindings, and with
the same definitions at the top. Only the function `print` tells the analyses apart, since each of
them defines its own.

Source: `SPEC_FULL.md`, sections 3 (data model) and 4.6 (context and results).
-/

namespace TreeCheck

/-- The definitions of a block. -/
def Block.bindings (b : Block) : List Binding := b.vars.map .variable ++ b.funs.map .function

/-- Bindings that look the same and were introduced at the same site, or by two analyses in their
own scopes. -/
structure Binding.Matches (own own' : ScopeId) (x y : Binding) : Prop where
  agrees : x.agrees y = true
  site : y.site = x.site ∨ x.site = .scope own ∧ y.site = .scope own'

/-- Tables with the same types and matching bindings. -/
structure Resolutions.Matches (own own' : ScopeId) (r r' : Resolutions) : Prop where
  type : ∀ id, r'.type? id = r.type? id
  binding : ∀ id, Option.Rel (Binding.Matches own own') (r.binding? id) (r'.binding? id)

/-- Analyses with the same outcome: the same failure or matching tables, and matching definitions in
the scopes that they have made. -/
structure Analysis.Matches (a a' : Analysis) : Prop where
  failure : ∀ e, a.result = .error e ↔ a'.result = .error e
  success : ∀ r, a.result = .ok r → ∃ r', a'.result = .ok r' ∧ r.Matches a.scope a'.scope r'
  top : List.Forall₂ (Binding.Matches a.scope a'.scope) (a.symbols.scopes.block a.scope).bindings
    (a'.symbols.scopes.block a'.scope).bindings

/-- Analyses with one and the same outcome: the same failure or table, and the same definitions in
the scope that both have made. -/
structure Analysis.Same (a a' : Analysis) : Prop where
  scope : a.scope = a'.scope
  result : a.result = a'.result
  top : a.symbols.scopes.block a.scope = a'.symbols.scopes.block a'.scope

/-- Whether outcomes match depends on the outcomes only. -/
theorem Analysis.Matches.congr {a a' b b' : Analysis} (h : b.Matches b') (ha : a.Same b)
    (ha' : a'.Same b') : a.Matches a' where
  failure e := by
    rw [ha.result, ha'.result]
    exact h.failure e
  success r := by
    rw [ha.result, ha'.result, ha.scope, ha'.scope]
    exact h.success r
  top := by
    rw [ha.top, ha'.top, ha.scope, ha'.scope]
    exact h.top

namespace Symbols

variable {s s' : Symbols} {parent : Option ScopeId} {tree : Node NodeId}

/-- Analyse trees one after another among live scopes, each among the scopes that the analysis
before it left. -/
def walkInTurn (s : Symbols) (homes : Builtin → ScopeId) (parent : Option ScopeId) :
    List (Node NodeId) → List Analysis
  | [] => []
  | tree :: trees =>
    s.walk homes parent tree ::
      (s.walk homes parent tree).symbols.walkInTurn homes parent trees

/-! ### What an analysis leaves -/

private theorem symbols_finish (s : Symbols) (parent : Option ScopeId) (b : Block)
    (result : Except Failure Resolutions) :
    (s.finish parent b result).symbols =
      { s with scopes := ⟨⟨parent, b⟩ :: s.scopes.latestFirst⟩ } := by
  have hs : (s.openScope parent).1.scopes.setBlock s.scopes.size b =
      ⟨⟨parent, b⟩ :: s.scopes.latestFirst⟩ := by
    rw [scopes_openScope]
    simp [Scopes.setBlock, Scopes.replace, Scopes.size]
  unfold finish
  rw [hs]
  rfl

/-- The scope of an analysis is the next one. -/
theorem scope_analyze (s : Symbols) (parent : Option ScopeId) (tree : Node NodeId) :
    (s.analyze parent tree).scope = s.scopes.size := by
  rw [analyze_eq_check]
  cases tree.check (s.top parent) ⟨s.topBlock, .empty⟩ <;> rfl

/-- The scope of an analysis holds the block that the run has left. -/
theorem block_finish (s : Symbols) (parent : Option ScopeId) (b : Block)
    (result : Except Failure Resolutions) :
    (s.finish parent b result).symbols.scopes.block s.scopes.size = b := by
  rw [symbols_finish]
  simp [Scopes.block, Scopes.find?, Scopes.size]

/-! ### Analyses among more scopes -/

/-- The likeness between an analysis among the symbols `s` and one that sees at least as much. -/
def likeness (s : Symbols) (faithful : Prop) (own' : ScopeId) : Likeness where
  faithful := faithful
  known := Ty.Below s.scopes.size
  site a b := b = a ∨ a = .scope s.scopes.size ∧ b = .scope own'
  known_builtin _ := trivial

variable {faithful : Prop} {own' : ScopeId}

/-- The likeness of two runs relates every node to itself. -/
theorem likeness_relabels : (s.likeness faithful own').Relabels id :=
  ⟨fun _ ↦ .inl rfl, fun _ _ ↦ .inl rfl⟩

/-- A block that was there before is like itself. -/
theorem likeness_block {b : Block} (hb : b.Below s.scopes.size) :
    (s.likeness faithful own').Blocks b b := .self (fun _ ↦ .inl rfl) hb.vars hb.funs

private theorem likeness_chain {c : Chain} (hc : ∀ b ∈ c, b.Below s.scopes.size) :
    (s.likeness faithful own').Chains c c :=
  .ofBlocks (List.forall₂_same.mpr fun b hb ↦ likeness_block (hc b hb))

/-- The top blocks of two runs are alike. -/
theorem likeness_topBlock (s s' : Symbols) :
    (s.likeness faithful s'.scopes.size).Blocks s.topBlock s'.topBlock where
  vars := .nil
  funs := .cons (.of_sites trivial (.inr ⟨rfl, rfl⟩)) .nil

/-- The members of a type are not affected by the scope of an analysis. -/
theorem members_top {t : Ty} (ht : t.Below s.scopes.size) :
    (s.top parent).scopes.members t = s.scopes.members t := by
  cases t with
  | builtin b => rfl
  | object o =>
    refine Scopes.chain_of_suffix ?_ ht
    change _ <:+ (s.openScope parent).1.scopes.latestFirst
    rw [scopes_openScope]
    exact List.suffix_cons _ _

/-- The members of a type mention allocated types only. -/
theorem members_below (hs : s.Allocated) {t : Ty} : ∀ b ∈ s.scopes.members t,
    b.Below s.scopes.size := by
  cases t with
  | builtin b => exact List.forall_mem_nil _
  | object o => exact fun b hb ↦ hs.chain hb

/-- Scopes that are made later do not change where an analysis takes place. -/
theorem likeness_places (hs : s.Allocated) (hp : s.scopes.Has parent)
    (hcatalog : s'.catalog = s.catalog)
    (hscopes : s.scopes.latestFirst <:+ s'.scopes.latestFirst) :
    (s.likeness faithful s'.scopes.size).Places (s.top parent) (s'.top parent) where
  members t ht := by
    have hsize : s.scopes.size ≤ s'.scopes.size := hscopes.length_le
    have he : s'.scopes.members t = s.scopes.members t := by
      cases t with
      | builtin b => rfl
      | object o => exact Scopes.chain_of_suffix hscopes ht
    rw [members_top ht, members_top (ht.mono hsize), he]
    exact likeness_chain (members_below hs)
  catalog := by
    constructor
    · intro name t ht
      change s'.catalog.find? name = some t ∧ _
      rw [hcatalog]
      exact ⟨ht, hs.catalog t (Catalog.mem_of_find ht)⟩
    · exact fun _ ↦ hcatalog
  outer := by
    have he : s'.scopes.around parent = s.scopes.around parent := by
      cases parent with
      | none => rfl
      | some id => exact Scopes.chain_of_suffix hscopes (hp id rfl)
    change (s.likeness faithful s'.scopes.size).Chains (s.scopes.around parent)
      (s'.scopes.around parent)
    rw [he]
    exact likeness_chain fun b hb ↦ hs.around hb
  returns := rfl

end Symbols

/-! ### Outcomes -/

namespace Likeness

variable {s : Symbols} {faithful : Prop} {own' : ScopeId}

private theorem Bindings.matches {x y : Binding} (h : (s.likeness faithful own').Bindings x y) :
    x.Matches s.scopes.size own' y := by
  refine ⟨h.agrees, ?_⟩
  cases h with
  | ofVariable h => exact h.site
  | ofFunction h => exact h.site

private theorem Blocks.matches {b c : Block} (h : (s.likeness faithful own').Blocks b c) :
    List.Forall₂ (Binding.Matches s.scopes.size own') b.bindings c.bindings := by
  refine List.rel_append ?_ ?_
  · refine List.forall₂_map_left_iff.mpr (List.forall₂_map_right_iff.mpr (h.vars.imp ?_))
    exact fun v w hvw ↦ Bindings.matches (.ofVariable hvw)
  · refine List.forall₂_map_left_iff.mpr (List.forall₂_map_right_iff.mpr (h.funs.imp ?_))
    exact fun f g hfg ↦ Bindings.matches (.ofFunction hfg)

/-- Tables that are alike match up to the scopes of the two runs. -/
theorem Tables.matches {r r' : Resolutions} (h : (s.likeness faithful own').Tables id r r') :
    r.Matches s.scopes.size own' r' where
  type _ := h.type?_eq fun _ _ he ↦ he
  binding _ := rel_mono (h.rel_binding? fun _ _ he ↦ he) fun _ _ hxy ↦ hxy.matches

end Likeness

namespace Symbols

variable {s s' : Symbols} {parent : Option ScopeId} {tree : Node NodeId}

private theorem top_matches {parent' : Option ScopeId} {faithful : Prop} {b b' : Block}
    {result result' : Except Failure Resolutions}
    (h : (s.likeness faithful s'.scopes.size).Blocks b b') :
    List.Forall₂ (Binding.Matches s.scopes.size s'.scopes.size)
      ((s.finish parent b result).symbols.scopes.block s.scopes.size).bindings
      ((s'.finish parent' b' result').symbols.scopes.block s'.scopes.size).bindings := by
  rw [block_finish, block_finish]
  exact h.matches

/-- Scopes that are made later do not change the outcome of an analysis. -/
theorem analyze_matches (hs : s.Allocated) (hp : s.scopes.Has parent)
    (hn : (ids tree.nodes).Nodup) (hcatalog : s'.catalog = s.catalog)
    (hscopes : s.scopes.latestFirst <:+ s'.scopes.latestFirst) :
    (s.analyze parent tree).Matches (s'.analyze parent tree) := by
  have hr := (s.likeness True s'.scopes.size).node_retraces likeness_relabels
    (likeness_places hs hp hcatalog hscopes) (likeness_topBlock s s') tree
  rw [Node.map_id] at hr
  rw [analyze_eq_elaborate hn, analyze_eq_elaborate hn]
  cases he : tree.elaborate (s.top parent) s.topBlock with
  | ok r b =>
    rw [he] at hr
    obtain ⟨r', b', he', ht, hb⟩ := hr
    rw [he']
    refine ⟨fun _ ↦ iff_of_false nofun nofun, ?_, top_matches hb⟩
    rintro _ ⟨⟩
    exact ⟨r', rfl, ht.matches⟩
  | error e b =>
    rw [he] at hr
    obtain ⟨b', he', hb⟩ := hr trivial
    rw [he']
    exact ⟨fun _ ↦ Iff.rfl, nofun, top_matches hb⟩

/-- The built-in types have member scopes, and there is nothing in them. -/
structure Vacant (s : Symbols) (homes : Builtin → ScopeId) : Prop where
  made : ∀ b, homes b < s.scopes.size
  vacant : ∀ b, ∀ block ∈ s.scopes.chain (homes b), block = .empty

/-! ### Walks and checks -/

variable {homes : Builtin → ScopeId} {n : ScopeId}

/-- Where all references are to scopes that have been made, an analysis can start. -/
theorem Allocated.grounded (hs : s.Allocated) (hv : s.Vacant homes) :
    s.Grounded s.scopes.size homes parent where
  size := Nat.le_refl _
  catalog := hs.catalog
  members _ _ := members_below hs
  around _ hb := hs.around hb
  furnished := hv.made
  vacant := hv.vacant

/-- Scopes that an analysis has made do not matter to the next one. -/
theorem Grounded.extended {a : Analysis} (hs : s.Grounded n homes parent)
    (hp : ∀ id ∈ parent, id < n) (ha : a.Extends s parent) :
    a.symbols.Grounded n homes parent where
  size := Nat.le_trans hs.size ha.earlier.length_le
  catalog := by
    rw [ha.catalog]
    exact hs.catalog
  members t ht := by
    cases t with
    | builtin b => exact List.forall_mem_nil _
    | object o =>
      change ∀ b ∈ a.symbols.scopes.chain o.members, b.Below n
      rw [ha.chain (Nat.lt_of_lt_of_le ht hs.size)]
      exact hs.members (.object o) ht
  around := by
    cases parent with
    | none => exact List.forall_mem_nil _
    | some id =>
      change ∀ b ∈ a.symbols.scopes.chain id, b.Below n
      rw [ha.chain (Nat.lt_of_lt_of_le (hp id rfl) hs.size)]
      exact hs.around
  furnished := hs.furnished
  vacant b := by
    rw [ha.chain (Nat.lt_of_lt_of_le (hs.furnished b) hs.size)]
    exact hs.vacant b

/-- An analysis starts at the same place as a walk and as a check. -/
theorem Grounded.stands (hs : s.Grounded n homes parent) :
    Surroundings.Stands s n homes ⟨homes, s.scopes.size, none⟩ (s.top parent) where
  homes := rfl
  returns := rfl
  own := Nat.le_refl _
  catalog := rfl
  members _ ht := members_top (ht.mono hs.size)
  outer := hs.around

private theorem shows_openScope (s : Symbols) (n : ScopeId) (homes : Builtin → ScopeId)
    (parent : Option ScopeId) :
    Live.Shows s n ⟨homes, s.scopes.size, none⟩ (s.top parent) ⟨(s.openScope parent).1, .empty⟩
      ⟨s.topBlock, .empty⟩ where
  table := rfl
  catalog := rfl
  made := by
    change s.scopes.size < (s.openScope parent).1.scopes.size
    rw [size_openScope]
    exact Nat.lt_succ_self _
  earlier id hid := by
    refine Scopes.chain_of_suffix ?_ hid
    rw [scopes_openScope]
    exact List.suffix_cons _ _
  visible := chain_openScope s parent
  block := ⟨nofun, List.forall_mem_singleton.mpr trivial⟩

/-- An analysis among live scopes has the outcome of one that checks block by block. -/
theorem Grounded.walk_same (hs : s.Grounded n homes parent) (tree : Node NodeId) :
    (s.walk homes parent tree).Same (s.analyze parent tree) := by
  have h := tree.walk_realizes hs hs.stands _ _ (shows_openScope s n homes parent)
  rw [analyze_eq_check]
  generalize hx : tree.walk _ _ = rx at h
  generalize tree.check _ _ = ry at h
  cases h with
  | ok _ hl =>
    rw [walk_of_ok s parent hx]
    refine ⟨rfl, congrArg Except.ok hl.table, ?_⟩
    exact (Scopes.block_of_chain hl.visible).trans (block_finish _ _ _ _).symm
  | error hl =>
    rw [walk_of_error s parent hx]
    refine ⟨rfl, rfl, ?_⟩
    exact (Scopes.block_of_chain hl.visible).trans (block_finish _ _ _ _).symm

/-- Among the scopes that earlier analyses left each tree is analysed as if it were alone. -/
theorem walkInTurn_matches (hs : s.Allocated) (hv : s.Vacant homes) (hp : s.scopes.Has parent)
    {trees : List (Node NodeId)} (ht : ∀ tree ∈ trees, (ids tree.nodes).Nodup)
    (hs' : s'.Grounded s.scopes.size homes parent) (hcatalog : s'.catalog = s.catalog)
    (hscopes : s.scopes.latestFirst <:+ s'.scopes.latestFirst) :
    List.Forall₂ (fun tree a ↦ (s.walk homes parent tree).Matches a) trees
      (s'.walkInTurn homes parent trees) := by
  induction trees generalizing s' with
  | nil => exact .nil
  | cons tree trees ih =>
    rw [List.forall_mem_cons] at ht
    have hextends := s'.walk_extends parent homes tree
    refine .cons ?_ (ih ht.2 (hs'.extended hp hextends) ?_ ?_)
    · exact (analyze_matches hs hp ht.1 hcatalog hscopes).congr ((hs.grounded hv).walk_same tree)
        (hs'.walk_same tree)
    · exact hextends.catalog.trans hcatalog
    · exact hscopes.trans hextends.earlier

/-- An analysis among live scopes, however it ends, makes a scope inside its parent and further
scopes inside that one, and changes nothing else. The catalog and all earlier scopes are as they
were, among them the member scopes of all types, built-in or not, and the parent with the scopes
around it; so what is visible from them is the same. The outcome is that of checking block by block,
and trees that are analysed one after another among the same scopes, in whatever order, are analysed
with the outcome that each of them has alone. -/
theorem analyses_do_not_interfere (s : Symbols) (homes : Builtin → ScopeId)
    (parent : Option ScopeId) :
    (∀ tree : Node NodeId,
      (s.walk homes parent tree).Extends s parent ∧
      ∀ id < s.scopes.size,
        (s.walk homes parent tree).symbols.scopes.chain id = s.scopes.chain id) ∧
    (s.Allocated → s.Vacant homes → s.scopes.Has parent →
      (∀ tree : Node NodeId, (s.walk homes parent tree).Same (s.analyze parent tree)) ∧
      ∀ trees : List (Node NodeId), (∀ tree ∈ trees, (ids tree.nodes).Nodup) →
        List.Forall₂ (fun tree a ↦ (s.walk homes parent tree).Matches a) trees
          (s.walkInTurn homes parent trees)) := by
  constructor
  · intro tree
    have h := s.walk_extends parent homes tree
    exact ⟨h, fun id hid ↦ h.chain hid⟩
  · intro hs hv hp
    refine ⟨fun tree ↦ (hs.grounded hv).walk_same tree, fun trees ht ↦ ?_⟩
    exact walkInTurn_matches hs hv hp ht (hs.grounded hv) rfl List.suffix_rfl

/-! ### Member scopes of the built-in types -/

private theorem chainFrom_replicate {l : List Scope} {k : Nat} {id : Nat} (hle : l.length ≤ id)
    (hlt : id < l.length + k) :
    Scopes.chainFrom (List.replicate k ⟨none, .empty⟩ ++ l) id = [.empty] := by
  induction k with
  | zero => omega
  | succ k ih =>
    rw [List.replicate_succ, List.cons_append, Scopes.chainFrom]
    split
    · rfl
    · next hne =>
      rw [List.length_append, List.length_replicate, Nat.add_comm] at hne
      exact ih (Nat.lt_of_le_of_ne (Nat.le_of_lt_succ hlt) hne)

private theorem scopes_furnish (s : Symbols) :
    s.furnish.1.scopes.latestFirst =
      List.replicate 8 ⟨none, .empty⟩ ++ s.scopes.latestFirst := rfl

/-- The member scopes that are made for the built-in types have nothing in them. -/
theorem vacant_furnish (s : Symbols) : s.furnish.1.Vacant s.furnish.2 := by
  have hlt (b : Builtin) : Builtin.all.idxOf b < 8 := by cases b <;> decide
  constructor
  · intro b
    change s.scopes.size + Builtin.all.idxOf b < s.furnish.1.scopes.latestFirst.length
    rw [scopes_furnish, List.length_append, List.length_replicate, Nat.add_comm 8]
    exact Nat.add_lt_add_left (hlt b) _
  · intro b
    have hchain : s.furnish.1.scopes.chain (s.furnish.2 b) = [.empty] :=
      chainFrom_replicate (Nat.le_add_right _ _) (Nat.add_lt_add_left (hlt b) _)
    rw [hchain]
    exact fun _ h ↦ List.mem_singleton.mp h

private theorem Allocated.furnish (hs : s.Allocated) : s.furnish.1.Allocated := by
  have hsize : s.scopes.size ≤ s.furnish.1.scopes.size := by
    change s.scopes.latestFirst.length ≤ s.furnish.1.scopes.latestFirst.length
    rw [scopes_furnish, List.length_append]
    exact Nat.le_add_left _ _
  constructor
  · exact fun t ht ↦ (hs.catalog t ht).mono hsize
  · rw [scopes_furnish]
    refine List.forall_mem_append.mpr ⟨fun scope h ↦ ?_, fun scope h ↦ ?_⟩
    · rw [List.eq_of_mem_replicate h]
      exact .empty
    · exact (hs.blocks scope h).mono hsize

end Symbols

/-- A tree that uses a name which only the tree before it defines. -/
def scalingTwice : List (Node NodeId) :=
  [scalingProgram.label 0, .expr (.access 8 none "p"), scalingProgram.label 9]

/-- Three analyses in turn, the second of which fails, come out as each would alone. -/
theorem scalingTwice_independent :
    ∃ s, pointProject.symbols = .ok s ∧
      s.furnish.1.Allocated ∧ s.furnish.1.Vacant s.furnish.2 ∧
      (s.furnish.1.walkInTurn s.furnish.2 none scalingTwice).map (fun a ↦ a.result.isOk) =
        [true, false, true] ∧
      List.Forall₂ (fun tree a ↦ (s.furnish.1.walk s.furnish.2 none tree).Matches a) scalingTwice
        (s.furnish.1.walkInTurn s.furnish.2 none scalingTwice) := by
  have hs : (pointProject.symbols.toOption.map fun s ↦
      (s.furnish.1.walkInTurn s.furnish.2 none scalingTwice).map fun a ↦ a.result.isOk) =
        some [true, false, true] := by decide +kernel
  cases hc : pointProject.symbols with
  | error e =>
    rw [hc] at hs
    cases hs
  | ok s =>
    rw [hc] at hs
    have ha := (Config.allocated_of_symbols hc).furnish
    have hv := s.vacant_furnish
    refine ⟨s, rfl, ha, hv, Option.some.inj hs, ?_⟩
    exact ((Symbols.analyses_do_not_interfere s.furnish.1 s.furnish.2 none).2 ha hv nofun).2
      scalingTwice (by decide +kernel)

end TreeCheck
