import TreeCheck.Proofs.Retracing

/-!
# Elaboration among alike definitions

A tree is elaborated in two places that see alike definitions, the second time with other identities
of its nodes. A likeness is a correspondence in which nothing is renamed, so whatever the first run
finds the second one finds too, with corresponding bindings; if the likeness is faithful, then the
second run also fails where the first one does, with the same error, and leaves corresponding
definitions behind. Elaboration therefore depends neither on the identities of nodes nor on where a
visible definition comes from.
-/

namespace TreeCheck

variable {α β : Type}

namespace Likeness

variable (L : Likeness)

/-- Places that see corresponding definitions. -/
structure Places (env env' : Env) : Prop where
  members : ∀ t, L.known t → L.Chains (env.scopes.members t) (env'.scopes.members t)
  catalog : L.Catalogs env.catalog env'.catalog
  outer : L.Chains env.outer env'.outer
  returns : env'.returns = env.returns

/-- A change of identities that keeps definitions at corresponding sites. -/
structure Relabels (f : NodeId → NodeId) : Prop where
  node : ∀ id, L.site (.node id) (.node (f id))
  parameter : ∀ id position, L.site (.parameter id position) (.parameter (f id) position)

/-- Tables with the same types and corresponding bindings under changed identities. -/
structure Tables (f : NodeId → NodeId) (d d' : Resolutions) : Prop where
  types : d'.types = d.types.map fun p ↦ (f p.1, p.2)
  bindings : List.Forall₂ (fun p q ↦ q.1 = f p.1 ∧ L.Bindings p.2 q.2) d.bindings d'.bindings

/-- The second run ends as the first one does, as far as the likeness tells, and leaves
corresponding definitions. -/
def Retraces (Q : α → β → Prop) (x : EStateM.Result ProgramError Block α)
    (y : EStateM.Result ProgramError Block β) : Prop :=
  match x with
  | .ok a b => ∃ a' b', y = .ok a' b' ∧ Q a a' ∧ L.Blocks b b'
  | .error e b => L.faithful → ∃ b', y = .error e b' ∧ L.Blocks b b'

variable {L} {f : NodeId → NodeId}

/-! ### Likenesses as correspondences -/

variable (L) in
/-- The correspondence that renames nothing and in which functions have the same parameters. -/
def correspondence : Correspondence where
  faithful := L.faithful
  verbatim := True
  sameParameters := True
  rename := id
  known := L.known
  site := L.site
  known_builtin := L.known_builtin
  rename_injective := Function.injective_id
  rename_of_verbatim _ := rfl
  sameParameters_of_faithful _ := trivial

private theorem variables_iff {v w : Variable} :
    L.correspondence.Variables v w ↔ L.Variables v w := by
  constructor
  · intro h
    refine ⟨?_, h.known, h.site⟩
    have hname : w.name = v.name := h.name_eq
    simp [Variable.agrees, hname, h.internalName_eq trivial, h.type_eq, h.constant_eq]
  · intro h
    have ha := h.agrees
    simp only [Variable.agrees, Bool.and_eq_true, decide_eq_true_eq] at ha
    obtain ⟨⟨⟨hname, hinternal⟩, htype⟩, hconstant⟩ := ha
    exact ⟨hname.symm, fun _ ↦ hinternal.symm, htype.symm, hconstant.symm, h.known, h.site⟩

private theorem functions_iff {g g' : Function} :
    L.correspondence.Functions g g' ↔ L.Functions g g' := by
  constructor
  · intro h
    refine ⟨?_, h.known, h.site⟩
    simp [Function.agrees, h.name_eq, h.internalName_eq, h.parameters_eq trivial, h.returns_eq]
  · intro h
    have ha := h.agrees
    simp only [Function.agrees, Bool.and_eq_true, decide_eq_true_eq] at ha
    obtain ⟨⟨⟨hname, hinternal⟩, hparameters⟩, hreturns⟩ := ha
    refine ⟨hname.symm, hinternal.symm, ?_, fun _ ↦ hparameters.symm, hreturns.symm, h.known,
      h.site⟩
    rw [← hparameters]
    exact Correspondence.forall₂_accepts_self _

private theorem bindings_of_correspondence {x y : Binding} (h : L.correspondence.Bindings x y) :
    L.Bindings x y := by
  cases h with
  | ofVariable h => exact .ofVariable (variables_iff.mp h)
  | ofField h => exact .ofVariable (variables_iff.mp h)
  | ofFunction h => exact .ofFunction (functions_iff.mp h)

private theorem blocks_iff {b c : Block} : L.correspondence.Blocks b c ↔ L.Blocks b c := by
  constructor
  · exact fun h ↦ ⟨h.vars.imp fun _ _ ↦ variables_iff.mp, h.funs.imp fun _ _ ↦ functions_iff.mp⟩
  · exact fun h ↦ ⟨h.vars.imp fun _ _ ↦ variables_iff.mpr, h.funs.imp fun _ _ ↦ functions_iff.mpr⟩

private theorem chains_iff {c c' : Chain} : L.correspondence.Chains c c' ↔ L.Chains c c' := by
  constructor
  · intro h
    refine ⟨fun hv ↦ ?_, fun hf ↦ ?_, fun hl ↦ (h.blocks hl).imp fun _ _ ↦ blocks_iff.mp⟩
    · obtain ⟨w, hw, hvw⟩ := h.findVariable hv
      exact ⟨w, hw, variables_iff.mp hvw⟩
    · obtain ⟨g, hg, hfg⟩ := h.findFunction hf
      exact ⟨g, hg, functions_iff.mp hfg⟩
  · intro h
    refine ⟨fun hv ↦ ?_, fun hf ↦ ?_, fun hl ↦ (h.blocks hl).imp fun _ _ ↦ blocks_iff.mpr⟩
    · obtain ⟨w, hw, hvw⟩ := h.findVariable hv
      exact ⟨w, hw, variables_iff.mpr hvw⟩
    · obtain ⟨g, hg, hfg⟩ := h.findFunction hf
      exact ⟨g, hg, functions_iff.mpr hfg⟩

/-- Chains that correspond block by block. -/
theorem Chains.ofBlocks {c c' : Chain} (h : List.Forall₂ L.Blocks c c') : L.Chains c c' :=
  chains_iff.mp (.ofBlocks (h.imp fun _ _ ↦ blocks_iff.mpr))

private theorem repeats_of_correspondence {Q P : α → β → Prop} {x : Except ProgramError α}
    {y : Except ProgramError β} (h : L.correspondence.Repeats Q x y)
    (hq : ∀ a b, Q a b → P a b) : L.Repeats P x y := by
  cases x with
  | ok a =>
    obtain ⟨b, hy, hab⟩ := h
    exact ⟨b, hy, hq a b hab⟩
  | error e =>
    intro hl
    obtain ⟨e', hy, he⟩ := h hl
    rw [hy, he.2 trivial]

/-- Corresponding functions are defined alike in corresponding blocks. -/
theorem Blocks.defineFunction {b c : Block} (h : L.Blocks b c) {g g' : Function}
    (hg : L.Functions g g') : L.Repeats L.Blocks (b.defineFunction g) (c.defineFunction g') :=
  repeats_of_correspondence
    (Correspondence.Blocks.defineFunction (blocks_iff.mpr h) (functions_iff.mpr hg))
    fun _ _ ↦ blocks_iff.mp

private theorem Places.correspond {env env' : Env} (h : L.Places env env') :
    L.correspondence.Places env env' where
  members t ht := chains_iff.mpr (h.members t ht)
  catalog := ⟨h.catalog.find, h.catalog.same⟩
  outer := chains_iff.mpr h.outer
  returns := h.returns

private theorem Relabels.correspond (h : L.Relabels f) : L.correspondence.Relabels f :=
  ⟨h.node, h.parameter⟩

/-! ### Tables -/

namespace Tables

variable {d d' : Resolutions} {id : NodeId}

private theorem of_correspondence (h : L.correspondence.Tables f d d') : L.Tables f d d' where
  types := h.types
  bindings := h.bindings.imp fun _ _ hpq ↦ ⟨hpq.1, bindings_of_correspondence hpq.2⟩

/-- A node has the same type in both tables, if no other entry is moved to it. -/
theorem type?_eq (h : L.Tables f d d') (hf : ∀ p ∈ d.types, f p.1 = f id → p.1 = id) :
    d'.type? (f id) = d.type? id := by
  unfold Resolutions.type?
  rw [h.types]
  generalize d.types = entries at hf
  induction entries with
  | nil => rfl
  | cons p rest ih =>
    rw [List.forall_mem_cons] at hf
    rw [List.map_cons, List.lookup_cons, List.lookup_cons, ih hf.2]
    by_cases hp : id = p.1
    · simp [hp]
    · have hne : f id ≠ f p.1 := fun he ↦ hp (hf.1 he.symm).symm
      rw [beq_false_of_ne hp, beq_false_of_ne hne]

/-- A node has corresponding bindings in both tables, if no other entry is moved to it. -/
theorem rel_binding? (h : L.Tables f d d') (hf : ∀ p ∈ d.bindings, f p.1 = f id → p.1 = id) :
    Option.Rel L.Bindings (d.binding? id) (d'.binding? (f id)) := by
  unfold Resolutions.binding?
  have hb := h.bindings
  generalize d.bindings = entries at hf hb
  generalize d'.bindings = entries' at hb
  induction hb with
  | nil => exact .none
  | @cons p q _ _ hpq _ ih =>
    rw [List.forall_mem_cons] at hf
    rw [List.lookup_cons, List.lookup_cons, hpq.1]
    by_cases hp : id = p.1
    · rw [hp, BEq.rfl, BEq.rfl]
      exact .some hpq.2
    · have hne : f id ≠ f p.1 := fun he ↦ hp (hf.1 he.symm).symm
      rw [beq_false_of_ne hp, beq_false_of_ne hne]
      exact ih hf.2

end Tables

/-! ### Elaboration -/

section Elaboration

variable {env env' : Env} {b b' : Block}

private theorem retraces_of_correspondence {x y : EStateM.Result ProgramError Block Resolutions}
    (h : L.correspondence.Retraces (L.correspondence.Tables f) x y) :
    L.Retraces (L.Tables f) x y := by
  cases x with
  | ok d b =>
    obtain ⟨d', b', hy, hd, hb⟩ := h
    exact ⟨d', b', hy, .of_correspondence hd, blocks_iff.mp hb⟩
  | error e b =>
    intro hl
    obtain ⟨e', b', hy, he, hb⟩ := h hl
    refine ⟨b', ?_, blocks_iff.mp hb⟩
    rw [hy, he.2 trivial]

/-- Runs through the fields of a source that are alike stay alike. -/
theorem fields_retrace (hf : L.Relabels f) (h : L.Places env env') (hb : L.Blocks b b')
    (ds : List (Field NodeId)) :
    L.Retraces (L.Tables f) (Field.elaborateAll env ds b)
      (Field.elaborateAll env' (ds.map fun d ↦ d.map f) b') := by
  have hr := Correspondence.fields_retrace hf.correspond h.correspond (blocks_iff.mpr hb) ds
  have hid : Field.rename L.correspondence.rename = (id : Field NodeId → Field NodeId) :=
    funext Field.rename_id
  rw [hid, List.map_id] at hr
  exact retraces_of_correspondence hr

/-- Runs through a method that are alike stay alike. -/
theorem method_retraces (hf : L.Relabels f) (h : L.Places env env') (hb : L.Blocks b b')
    (m : Method NodeId) :
    L.Retraces (L.Tables f) (m.elaborate env b) ((m.map f).elaborate env' b') := by
  have hr := Correspondence.method_retraces hf.correspond h.correspond (blocks_iff.mpr hb) m
  rw [show L.correspondence.rename = id from rfl, Method.rename_id] at hr
  exact retraces_of_correspondence hr

/-- A tree of any kind is elaborated alike in corresponding places. -/
theorem node_retraces (hf : L.Relabels f) (h : L.Places env env') (hb : L.Blocks b b')
    (tree : Node NodeId) :
    L.Retraces (L.Tables f) (tree.elaborate env b) ((tree.map f).elaborate env' b') := by
  have hr := Correspondence.node_retraces hf.correspond h.correspond (blocks_iff.mpr hb) tree
  rw [show L.correspondence.rename = id from rfl, Node.rename_id] at hr
  exact retraces_of_correspondence hr

end Elaboration

end Likeness

end TreeCheck
