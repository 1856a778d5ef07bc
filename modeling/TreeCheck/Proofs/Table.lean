import TreeCheck.Proofs.Coverage

/-!
# Tables by identity

What a table says about a node depends on the node's identity only. A table is ready for nodes if it
says nothing about them and no two of them share an identity: then each of them can be written
once, and what has been written about some of them leaves the table ready for the others.
-/

namespace TreeCheck.Resolutions

variable {d d₁ d₂ r : Resolutions} {id : NodeId} {node : Node NodeId}
  {nodes nodes₁ nodes₂ : List (Node NodeId)}

/-! ### Reading -/

/-- A type is looked for in the later table, then in the earlier one. -/
theorem type?_append (d r : Resolutions) (id : NodeId) :
    (d ++ r).type? id = (d.type? id).or (r.type? id) := List.lookup_append

/-- A binding is looked for in the later table, then in the earlier one. -/
theorem binding?_append (d r : Resolutions) (id : NodeId) :
    (d ++ r).binding? id = (d.binding? id).or (r.binding? id) := List.lookup_append

private theorem lookup_eq_none {α : Type} {entries : List (NodeId × α)} :
    entries.lookup id = none ↔ id ∉ entries.map Prod.fst := by
  rw [List.lookup_eq_none_iff]
  simp only [bne_iff_ne, ne_eq, List.mem_map, not_exists, not_and]
  constructor
  · intro h p hp he
    exact h p hp he.symm
  · intro h p hp he
    exact h p hp he.symm

private theorem lookup_eq_some {α : Type} {entries : List (NodeId × α)}
    (hn : (entries.map Prod.fst).Nodup) {p : NodeId × α} (hp : p ∈ entries) :
    entries.lookup p.1 = some p.2 := by
  induction entries with
  | nil => cases hp
  | cons q rest ih =>
    obtain ⟨hq, hn⟩ := List.nodup_cons.mp hn
    rcases List.mem_cons.mp hp with rfl | hp
    · exact List.lookup_cons_self
    · have hne : p.1 ≠ q.1 := by
        intro he
        exact hq (he ▸ List.mem_map_of_mem hp)
      rw [List.lookup_cons, beq_false_of_ne hne]
      exact ih hn hp

/-- Every entry of `d` is what `r` says. -/
structure Within (d r : Resolutions) : Prop where
  types : ∀ p ∈ d.types, r.type? p.1 = some p.2
  bindings : ∀ p ∈ d.bindings, r.binding? p.1 = some p.2

/-- Two tables lie within a third if each of them does. -/
theorem within_append : (d₁ ++ d₂).Within r ↔ d₁.Within r ∧ d₂.Within r := by
  constructor
  · intro h
    exact ⟨⟨fun p hp ↦ h.types p (List.mem_append_left _ hp),
        fun p hp ↦ h.bindings p (List.mem_append_left _ hp)⟩,
      ⟨fun p hp ↦ h.types p (List.mem_append_right _ hp),
        fun p hp ↦ h.bindings p (List.mem_append_right _ hp)⟩⟩
  · rintro ⟨h₁, h₂⟩
    constructor
    · intro p hp
      exact (List.mem_append.mp hp).elim (h₁.types p) (h₂.types p)
    · intro p hp
      exact (List.mem_append.mp hp).elim (h₁.bindings p) (h₂.bindings p)

private theorem within_ofType {t : Ty} : (ofType id t).Within r ↔ r.type? id = some t := by
  constructor
  · intro h
    exact h.types (id, t) List.mem_cons_self
  · intro h
    exact ⟨by simpa [ofType] using h, by simp [ofType]⟩

/-- A single binding lies within a table that has it. -/
theorem within_ofBinding {b : Binding} :
    (ofBinding id b).Within r ↔ r.binding? id = some b := by
  constructor
  · intro h
    exact h.bindings (id, b) List.mem_cons_self
  · intro h
    exact ⟨by simp [ofBinding], by simpa [ofBinding] using h⟩

/-- A single type and binding lie within a table that has both. -/
theorem within_ofBound {b : Binding} {t : Ty} :
    (ofBound id b t).Within r ↔ r.type? id = some t ∧ r.binding? id = some b := by
  rw [ofBound, within_append, within_ofType, within_ofBinding]

/-- Entries that cover distinct nodes are all found. -/
theorem Covers.within (h : d.Covers nodes) (hn : (ids nodes).Nodup) : d.Within d := by
  constructor
  · intro p hp
    refine lookup_eq_some (h.types.nodup_iff.mpr ?_) hp
    exact hn.sublist (List.filter_sublist.map _)
  · intro p hp
    refine lookup_eq_some (h.bindings.nodup_iff.mpr ?_) hp
    exact hn.sublist (List.filter_sublist.map _)

private theorem Covers.type?_eq_none_iff (h : d.Covers nodes) :
    d.type? id = none ↔ id ∉ ids (nodes.filter Node.hasType) :=
  lookup_eq_none.trans h.types.mem_iff.not

private theorem Covers.binding?_eq_none_iff (h : d.Covers nodes) :
    d.binding? id = none ↔ id ∉ ids (nodes.filter Node.hasBinding) :=
  lookup_eq_none.trans h.bindings.mem_iff.not

/-- The identities of the nodes of a sort. -/
theorem mem_ids_filter {p : Node NodeId → Bool} :
    id ∈ ids (nodes.filter p) ↔ ∃ node ∈ nodes, p node = true ∧ node.tag = id := by
  simp only [ids, List.mem_map, List.mem_filter, and_assoc]

/-- Exactly the expressions among the nodes have a type. -/
theorem Covers.type?_isSome_iff (h : d.Covers nodes) :
    (d.type? id).isSome ↔ ∃ node ∈ nodes, node.hasType = true ∧ node.tag = id := by
  rw [← mem_ids_filter, Option.isSome_iff_ne_none, ne_eq, h.type?_eq_none_iff, not_not]

/-- Exactly the nodes among them that a name is looked up or defined for have a binding. -/
theorem Covers.binding?_isSome_iff (h : d.Covers nodes) :
    (d.binding? id).isSome ↔ ∃ node ∈ nodes, node.hasBinding = true ∧ node.tag = id := by
  rw [← mem_ids_filter, Option.isSome_iff_ne_none, ne_eq, h.binding?_eq_none_iff, not_not]

/-- There is one entry for each type and one for each binding. -/
theorem Covers.size_eq (h : d.Covers nodes) :
    d.size = nodes.countP Node.hasType + nodes.countP Node.hasBinding := by
  have ht := h.types.length_eq
  have hb := h.bindings.length_eq
  simp only [ids, List.length_map] at ht hb
  rw [size, ht, hb, List.countP_eq_length_filter, List.countP_eq_length_filter]

/-- Earlier entries are not looked at where there is a later one. -/
theorem Within.append (h : d.Within d₁) : d.Within (d₁ ++ r) := by
  constructor
  · intro p hp
    rw [type?_append, h.types p hp, Option.some_or]
  · intro p hp
    rw [binding?_append, h.bindings p hp, Option.some_or]

/-- A type that is written is read. -/
theorem typeOf_of_type? {t : Ty} (h : r.type? node.tag = some t) : r.typeOf node = .ok t := by
  unfold typeOf
  rw [h]

/-- A variable that is written is read. -/
theorem variableOf_of_binding? {v : Variable} (h : r.binding? node.tag = some (.variable v)) :
    r.variableOf node = .ok v := by
  unfold variableOf bindingOf
  rw [h]
  rfl

/-! ### Writing -/

/-- A table says nothing about nodes, which are distinct. -/
structure Ready (r : Resolutions) (nodes : List (Node NodeId)) : Prop where
  types : ∀ id ∈ ids nodes, r.type? id = none
  bindings : ∀ id ∈ ids nodes, r.binding? id = none
  nodup : (ids nodes).Nodup

/-- An empty table is ready for distinct nodes. -/
theorem ready_empty (h : (ids nodes).Nodup) : empty.Ready nodes :=
  ⟨fun _ _ ↦ rfl, fun _ _ ↦ rfl, h⟩

/-- What covers some nodes says nothing about others. -/
theorem Covers.silent (h : d.Covers nodes) (hid : id ∉ ids nodes) :
    d.type? id = none ∧ d.binding? id = none := by
  have hsub (p : Node NodeId → Bool) : id ∉ ids (nodes.filter p) := by
    intro hm
    exact hid ((List.filter_sublist.map _).subset hm)
  exact ⟨h.type?_eq_none_iff.mpr (hsub _), h.binding?_eq_none_iff.mpr (hsub _)⟩

namespace Ready

/-- A table that is ready for two lists of nodes is ready for the first. -/
theorem left (h : r.Ready (nodes₁ ++ nodes₂)) : r.Ready nodes₁ := by
  obtain ⟨ht, hb, hn⟩ := h
  rw [ids_append] at ht hb hn
  exact ⟨fun id hid ↦ ht id (List.mem_append_left _ hid),
    fun id hid ↦ hb id (List.mem_append_left _ hid), hn.of_append_left⟩

/-- The order of two lists of nodes does not matter. -/
theorem swap (h : r.Ready (nodes₁ ++ nodes₂)) : r.Ready (nodes₂ ++ nodes₁) := by
  obtain ⟨ht, hb, hn⟩ := h
  rw [ids_append] at ht hb hn
  have hm {id : NodeId} (hid : id ∈ ids (nodes₂ ++ nodes₁)) : id ∈ ids nodes₁ ++ ids nodes₂ := by
    rw [ids_append] at hid
    exact List.perm_append_comm.mem_iff.mp hid
  refine ⟨fun id hid ↦ ht id (hm hid), fun id hid ↦ hb id (hm hid), ?_⟩
  rw [ids_append]
  exact List.perm_append_comm.nodup_iff.mp hn

/-- What has been written about some nodes leaves the table ready for the others. -/
theorem right (h : r.Ready (nodes₁ ++ nodes₂)) (hd : d.Covers nodes₁) :
    (d ++ r).Ready nodes₂ := by
  have h₂ := h.swap.left
  have hn := h.nodup
  rw [ids_append] at hn
  have hs {id : NodeId} (hid : id ∈ ids nodes₂) : d.type? id = none ∧ d.binding? id = none :=
    hd.silent fun hm ↦ List.disjoint_of_nodup_append hn hm hid
  constructor
  · intro id hid
    rw [type?_append, (hs hid).1, h₂.types id hid, Option.none_or]
  · intro id hid
    rw [binding?_append, (hs hid).2, h₂.bindings id hid, Option.none_or]
  · exact h₂.nodup

/-- A table that is ready for some nodes is ready for all but the first. -/
theorem tail (h : r.Ready (node :: nodes)) : r.Ready nodes := left (@swap r [node] nodes h)

/-- What has been written about the nodes inside a node leaves the table ready for the node. -/
theorem root (h : r.Ready (node :: nodes)) (hd : d.Covers nodes) : (d ++ r).Ready [node] :=
  right (@swap r [node] nodes h) hd

/-- A table that is ready for a node has no type for it. -/
theorem type?_eq_none (h : r.Ready [node]) : r.type? node.tag = none :=
  h.types _ List.mem_cons_self

/-- A table that is ready for a node has no binding for it. -/
theorem binding?_eq_none (h : r.Ready [node]) : r.binding? node.tag = none :=
  h.bindings _ List.mem_cons_self

end Ready

end TreeCheck.Resolutions

namespace TreeCheck.Expr

open Resolutions (within_append within_ofBound within_ofType)

variable {scopes : Scopes} {chain : Chain}

/-! ### What elaboration writes about an expression -/

/-- The table has the type of an expression once it has what elaboration writes. -/
theorem type?_of_elaborate {e : Expr NodeId} {t : Ty} {d r : Resolutions}
    (h : e.elaborate scopes chain = .ok (t, d)) (hd : d.Within r) : r.type? e.tag = some t := by
  cases e with
  | literal tag value =>
    obtain ⟨_, rfl⟩ := elaborate_literal_ok_iff.mp h
    exact within_ofType.mp hd
  | group tag inner =>
    obtain ⟨_, d₁, _, rfl⟩ := elaborate_group_ok_iff.mp h
    exact within_ofType.mp (within_append.mp hd).1
  | binary tag operator left right =>
    obtain ⟨t₁, d₁, t₂, d₂, _, _, _, rfl⟩ := elaborate_binary_ok_iff.mp h
    exact within_ofType.mp (within_append.mp hd).1
  | access tag receiver name =>
    cases receiver with
    | none =>
      obtain ⟨v, _, rfl, rfl⟩ := elaborate_variable_ok_iff.mp h
      exact (within_ofBound.mp hd).1
    | some receiver =>
      obtain ⟨owner, d₁, v, _, _, rfl, rfl⟩ := elaborate_field_ok_iff.mp h
      exact (within_ofBound.mp (within_append.mp hd).1).1
  | call tag receiver name arguments =>
    cases receiver with
    | none =>
      obtain ⟨ts, d₁, f, _, _, _, rfl, rfl⟩ := elaborate_function_ok_iff.mp h
      exact (within_ofBound.mp (within_append.mp hd).1).1
    | some receiver =>
      obtain ⟨ts, d₁, owner, d₂, f, _, _, _, _, rfl, rfl⟩ := elaborate_method_ok_iff.mp h
      exact (within_ofBound.mp (within_append.mp hd).1).1

/-- The table has the variable of an assignment's target once it has what elaboration writes. -/
theorem binding?_of_elaborateTarget {e : Expr NodeId} {v : Variable} {d r : Resolutions}
    (h : e.elaborateTarget scopes chain = .ok (v, d)) (hd : d.Within r) :
    r.binding? e.tag = some (.variable v) := by
  match e, kind_of_elaborateTarget h with
  | access tag none name, _ =>
    obtain ⟨_, rfl⟩ := elaborateTarget_variable_ok_iff.mp h
    exact (within_ofBound.mp hd).2
  | access tag (some receiver) name, _ =>
    obtain ⟨owner, d₁, _, _, rfl⟩ := elaborateTarget_field_ok_iff.mp h
    exact (within_ofBound.mp (within_append.mp hd).1).2

end TreeCheck.Expr
