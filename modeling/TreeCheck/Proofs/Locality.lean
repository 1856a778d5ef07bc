import TreeCheck.Proofs.Runs
import TreeCheck.Proofs.Scoping
import TreeCheck.Proofs.Transfer

/-!
# Methods are checked on their own

A method is checked against the fields and against the headers of the methods before it. Two sources
may differ in the bodies of earlier methods, in the names of their parameters and in everything that
comes later: a method that both have at the same position fails in both with the same error, or it
passes in both, and then its nodes have the same types and the same bindings.
-/

namespace TreeCheck

/-- Methods with the same header: the same name, the same types of parameters and the same return
type. -/
structure Method.SameHeader {α : Type} (m m' : Method α) : Prop where
  name : m'.name = m.name
  parameterTypes : m'.parameterTypes = m.parameterTypes
  returnType : m'.returnType = m.returnType

/-- Check the fields of a source and its first `k` methods. -/
def Source.checkUpTo (env : Env) (s : Source NodeId) (k : Nat) : CheckM Unit := do
  s.fields.forM (Field.check env)
  (s.methods.take k).forM (Method.check env)

/-- The part of an analysis up to the first `k` methods of a source. -/
def Symbols.runUpTo (s : Symbols) (parent : Option ScopeId) (source : Source NodeId) (k : Nat) :
    EStateM.Result Failure State Unit :=
  source.checkUpTo (s.top parent) k ⟨s.topBlock, .empty⟩

/-- Tables with the same types and equal bindings for corresponding nodes. -/
def SameFindings (r r' : Resolutions) : List (Node NodeId) → List (Node NodeId) → Prop :=
  List.Forall₂ fun node node' ↦
    r'.type? node'.tag = r.type? node.tag ∧
      Option.Rel (fun x y ↦ x.agrees y = true) (r.binding? node.tag) (r'.binding? node'.tag)

/-! ### Runs up to a method -/

namespace Source

variable {env : Env} {s : Source NodeId} {k : Nat} {m : Method NodeId}

/-- The nodes that are checked up to a method. -/
def nodesUpTo (s : Source NodeId) (k : Nat) : List (Node NodeId) :=
  s.fields.flatMap Field.nodes ++ (s.methods.take k).flatMap Method.nodes

/-- Elaborate the fields of a source and its first `k` methods. -/
def elaborateUpTo (env : Env) (s : Source NodeId) (k : Nat) : ElabM Resolutions := do
  let d₁ ← Field.elaborateAll env s.fields
  let d₂ ← Method.elaborateAll env (s.methods.take k)
  return d₂ ++ d₁

private theorem elaborateUpTo_ok_iff {b b' : Block} {r : Resolutions} :
    s.elaborateUpTo env k b = .ok r b' ↔
      ∃ d₁ b₁ d₂, Field.elaborateAll env s.fields b = .ok d₁ b₁ ∧
        Method.elaborateAll env (s.methods.take k) b₁ = .ok d₂ b' ∧ r = d₂ ++ d₁ := by
  simp only [elaborateUpTo, run_bind_ok_iff, run_pure_ok_iff]
  constructor
  · rintro ⟨d₁, b₁, hf, d₂, _, hm, rfl, rfl⟩
    exact ⟨d₁, b₁, d₂, hf, hm, rfl⟩
  · rintro ⟨d₁, b₁, d₂, hf, hm, rfl⟩
    exact ⟨d₁, b₁, hf, d₂, b', hm, rfl, rfl⟩

private theorem covers_of_elaborateUpTo {b b' : Block} {r : Resolutions}
    (h : s.elaborateUpTo env k b = .ok r b') : r.Covers (s.nodesUpTo k) := by
  obtain ⟨d₁, b₁, d₂, hf, hm, rfl⟩ := elaborateUpTo_ok_iff.mp h
  exact (Field.covers_of_elaborateAll hf).append (Method.covers_of_elaborateAll hm)

/-- A run up to a method follows elaboration. -/
theorem checkUpTo_tracks {b : Block} {r : Resolutions} (h : r.Ready (s.nodesUpTo k)) :
    Tracks (s.checkUpTo env k ⟨b, r⟩) (s.elaborateUpTo env k b) fun _ r' d ↦ r' = d ++ r := by
  refine Tracks.bind (Field.checkAll_tracks h.left) ?_
  rintro _ _ d₁ b₁ hf rfl
  refine Tracks.last (Method.checkAll_tracks (h.right (Field.covers_of_elaborateAll hf))) ?_
  rintro _ _ d₂ b₂ rfl
  exact ⟨(), _, rfl, (Resolutions.append_assoc _ _ _).symm⟩

private theorem forM_check_append (env : Env) (ms ms' : List (Method NodeId)) :
    (ms ++ ms').forM (Method.check env) =
      ms.forM (Method.check env) >>= fun _ ↦ ms'.forM (Method.check env) := List.forM_append

/-- A run up to the next method checks that method last. -/
theorem checkUpTo_succ (hm : s.methods[k]? = some m) :
    s.checkUpTo env (k + 1) = s.checkUpTo env k >>= fun _ ↦ m.check env := by
  have hlast : [m].forM (Method.check env) = m.check env := bind_pure_unit
  unfold checkUpTo
  rw [List.take_add_one, hm, Option.toList_some, forM_check_append, hlast, bind_assoc]

/-- A whole check goes on from the run up to any of the methods. -/
theorem check_eq_bind (env : Env) (s : Source NodeId) (k : Nat) :
    ∃ rest, s.check env = s.checkUpTo env k >>= fun _ ↦ rest := by
  refine ⟨do
    (s.methods.drop k).forM (Method.check env)
    obey (requireEntryPoint ((← get).block :: env.outer)), ?_⟩
  have hm := forM_check_append env (s.methods.take k) (s.methods.drop k)
  rw [List.take_append_drop] at hm
  unfold check checkUpTo
  rw [hm]
  simp only [bind_assoc]

/-- The nodes of a source up to a method come before the others. -/
theorem nodes_eq (s : Source NodeId) (k : Nat) :
    s.nodes = .source s :: (s.nodesUpTo k ++ (s.methods.drop k).flatMap Method.nodes) := by
  unfold nodes nodesUpTo
  rw [List.append_assoc, ← List.flatMap_append, List.take_append_drop]

private theorem nodesUpTo_succ (hm : s.methods[k]? = some m) :
    s.nodesUpTo (k + 1) = s.nodesUpTo k ++ m.nodes := by
  unfold nodesUpTo
  rw [List.take_add_one, hm, Option.toList_some, List.flatMap_append, List.flatMap_singleton,
    List.append_assoc]

private theorem nodup_nodesUpTo (hn : (ids s.nodes).Nodup) (k : Nat) :
    (ids (s.nodesUpTo k)).Nodup := by
  rw [nodes_eq s k, ids_cons, ids_append] at hn
  exact (List.nodup_cons.mp hn).2.of_append_left

end Source

/-! ### The methods of a labelled source -/

namespace Method

variable {α : Type}

private theorem take_labelAll (n : NodeId) (ms : List (Method α)) (k : Nat) :
    (labelAll n ms).take k = labelAll n (ms.take k) := by
  induction ms generalizing n k with
  | nil => simp [labelAll]
  | cons m ms ih =>
    cases k with
    | zero => rfl
    | succ k => simp [labelAll, ih]

private theorem getElem?_labelAll (n : NodeId) (ms : List (Method α)) (k : Nat) :
    (labelAll n ms)[k]? = ms[k]?.map fun m ↦ m.label (n + sizeAll (ms.take k)) := by
  induction ms generalizing n k with
  | nil => simp [labelAll]
  | cons m ms ih =>
    cases k with
    | zero => rfl
    | succ k => simp [labelAll, sizeAll, ih, Nat.add_assoc]

private theorem sameHeader_labelAll {ms ms' : List (Method α)} (h : List.Forall₂ SameHeader ms ms')
    (n n' : NodeId) : List.Forall₂ SameHeader (labelAll n ms) (labelAll n' ms') := by
  induction h generalizing n n' with
  | nil => exact .nil
  | cons hm _ ih => exact .cons ⟨hm.name, hm.parameterTypes, hm.returnType⟩ (ih _ _)

private theorem ids_label_shift (a a' : NodeId) (m : Method α) :
    ids (m.label a').nodes = (ids (m.label a).nodes).map (shift a a') := by
  rw [ids_label, ids_label]
  apply List.ext_getElem
  · simp
  · intro i _ _
    simp only [List.getElem_map, List.getElem_range', Nat.one_mul]
    exact (shifts_shift a a' i).symm

end Method

/-! ### What a method sees -/

/-- The likeness between definitions that look the same, wherever they come from. -/
def lookalike : Likeness := ⟨True, fun _ ↦ True, fun _ _ ↦ True, fun _ ↦ trivial⟩

private theorem lookalike_block (b : Block) : lookalike.Blocks b b :=
  .self (fun _ ↦ trivial) (fun _ _ ↦ trivial) (fun _ _ ↦ trivial)

private theorem lookalike_chain (c : Chain) : lookalike.Chains c c :=
  .ofBlocks (List.forall₂_same.mpr fun b _ ↦ lookalike_block b)

private theorem lookalike_places (env : Env) : lookalike.Places env env where
  members _ _ := lookalike_chain _
  catalog := ⟨fun h ↦ ⟨h, trivial⟩, fun _ ↦ rfl⟩
  outer := lookalike_chain _
  returns := rfl

private theorem lookalike_relabels (f : NodeId → NodeId) : lookalike.Relabels f :=
  ⟨fun _ ↦ trivial, fun _ _ ↦ trivial⟩

/-- Methods with the same header define functions that look the same. -/
theorem Method.SameHeader.functions {m m' : Method NodeId} (h : m.SameHeader m') {c : Catalog}
    {f f' : Function} (hf : m.signature c = .ok f) (hf' : m'.signature c = .ok f') :
    lookalike.Functions f f' := by
  obtain ⟨_, ps, t, hp, ht, rfl⟩ := signature_ok_iff.mp hf
  obtain ⟨_, ps', t', hp', ht', rfl⟩ := signature_ok_iff.mp hf'
  rw [h.parameterTypes, ← Catalog.resolveAll_ok_iff, Catalog.resolveAll_ok_iff.mpr hp] at hp'
  rw [h.returnType, ht] at ht'
  cases hp'
  cases ht'
  rw [h.name]
  exact .of_sites trivial trivial

/-- Methods with the same headers leave the same functions behind, whatever their bodies are. -/
theorem Method.blocks_of_sameHeaders {env : Env} {ms ms' : List (Method NodeId)}
    (h : List.Forall₂ SameHeader ms ms') {b b' c c' : Block} {d d' : Resolutions}
    (hb : lookalike.Blocks b b') (hd : elaborateAll env ms b = .ok d c)
    (hd' : elaborateAll env ms' b' = .ok d' c') : lookalike.Blocks c c' := by
  induction h generalizing b b' d d' with
  | nil =>
    obtain ⟨_, rfl⟩ := elaborateAll_nil_ok_iff.mp hd
    obtain ⟨_, rfl⟩ := elaborateAll_nil_ok_iff.mp hd'
    exact hb
  | cons hm _ ih =>
    obtain ⟨d₁, b₁, d₂, h₁, h₂, _⟩ := elaborateAll_cons_ok_iff.mp hd
    obtain ⟨d₁', b₁', d₂', h₁', h₂', _⟩ := elaborateAll_cons_ok_iff.mp hd'
    obtain ⟨f, _, _, hf, hdef, _⟩ := elaborate_ok_iff.mp h₁
    obtain ⟨f', _, _, hf', hdef', _⟩ := elaborate_ok_iff.mp h₁'
    have hr := hb.defineFunction (hm.functions hf hf')
    rw [hdef, hdef'] at hr
    obtain ⟨_, he, hb₁⟩ := hr
    cases he
    exact ih hb₁ h₂ h₂'

/-! ### Tables -/

namespace SameFindings

variable {r r' t t' : Resolutions} {nodes nodes' : List (Node NodeId)}

/-- Tables are compared by the identities of nodes. -/
theorem iff_ids : SameFindings r r' nodes nodes' ↔
    List.Forall₂ (fun i j ↦ r'.type? j = r.type? i ∧
      Option.Rel (fun x y ↦ x.agrees y = true) (r.binding? i) (r'.binding? j))
      (ids nodes) (ids nodes') := by
  unfold SameFindings ids
  rw [List.forall₂_map_left_iff, List.forall₂_map_right_iff]

private theorem congr (h : SameFindings r r' nodes nodes')
    (ht : ∀ id ∈ ids nodes, t.type? id = r.type? id ∧ t.binding? id = r.binding? id)
    (ht' : ∀ id ∈ ids nodes', t'.type? id = r'.type? id ∧ t'.binding? id = r'.binding? id) :
    SameFindings t t' nodes nodes' := by
  unfold SameFindings at h ⊢
  induction h with
  | nil => exact .nil
  | cons hn _ ih =>
    simp only [ids_cons, List.forall_mem_cons] at ht ht'
    refine .cons ?_ (ih ht.2 ht'.2)
    rw [ht.1.1, ht.1.2, ht'.1.1, ht'.1.2]
    exact hn

end SameFindings

/-- Corresponding tables say the same about corresponding nodes of a method, and they still do so
after what was written before, since that is about other nodes. -/
theorem Likeness.Tables.sameFindings {L : Likeness} {α : Type} {m : Method α} {a a' : NodeId}
    {d d' r r' : Resolutions} (h : L.Tables (shift a a') d d') (hd : d.Covers (m.label a).nodes)
    (hr : r.Ready (m.label a).nodes) (hr' : r'.Ready (m.label a').nodes) :
    SameFindings (d ++ r) (d' ++ r') (m.label a).nodes (m.label a').nodes := by
  have hle {id : NodeId} (hid : id ∈ ids (m.label a).nodes) : a ≤ id := by
    rw [Method.ids_label, List.mem_range'_1] at hid
    exact hid.1
  have hinj {i j : NodeId} (hi : a ≤ i) (hj : a ≤ j) (he : shift a a' i = shift a a' j) :
      i = j := by
    have hs : i - a = j - a := Nat.add_right_cancel he
    rw [← Nat.sub_add_cancel hi, hs, Nat.sub_add_cancel hj]
  have htypes : ∀ p ∈ d.types, a ≤ p.1 := by
    intro p hp
    have hm := hd.types.subset (List.mem_map_of_mem hp)
    exact hle ((List.filter_sublist.map _).subset hm)
  have hbindings : ∀ p ∈ d.bindings, a ≤ p.1 := by
    intro p hp
    have hm := hd.bindings.subset (List.mem_map_of_mem hp)
    exact hle ((List.filter_sublist.map _).subset hm)
  have hnew : ∀ i ∈ ids (m.label a).nodes, shift a a' i ∈ ids (m.label a').nodes := by
    intro i hi
    rw [Method.ids_label_shift a a']
    exact List.mem_map_of_mem hi
  rw [SameFindings.iff_ids, Method.ids_label_shift a a', List.forall₂_map_right_iff,
    List.forall₂_same]
  intro i hi
  rw [Resolutions.type?_append, Resolutions.type?_append, Resolutions.binding?_append,
    Resolutions.binding?_append, hr.types i hi, hr.bindings i hi, hr'.types _ (hnew i hi),
    hr'.bindings _ (hnew i hi), Option.or_none, Option.or_none, Option.or_none, Option.or_none]
  refine ⟨h.type?_eq fun p hp he ↦ hinj (htypes p hp) (hle hi) he, ?_⟩
  refine Likeness.rel_mono (h.rel_binding? fun p hp he ↦ hinj (hbindings p hp) (hle hi) he) ?_
  exact fun _ _ hxy ↦ hxy.agrees

/-! ### Two runs -/

namespace Symbols

variable {s : Symbols} {parent : Option ScopeId} {source : Source NodeId} {k : Nat}

private theorem elaborateUpTo_of_run {st : State} (hn : (ids source.nodes).Nodup)
    (h : s.runUpTo parent source k = .ok () st) :
    source.elaborateUpTo (s.top parent) k s.topBlock = .ok st.resolutions st.block := by
  have ht : Tracks (source.checkUpTo (s.top parent) k ⟨s.topBlock, .empty⟩)
      (source.elaborateUpTo (s.top parent) k s.topBlock) fun _ r d ↦ r = d ++ .empty :=
    source.checkUpTo_tracks (Resolutions.ready_empty (source.nodup_nodesUpTo hn k))
  cases he : source.elaborateUpTo (s.top parent) k s.topBlock with
  | error e b =>
    rw [he] at ht
    obtain ⟨r, hx⟩ := ht
    cases h.symm.trans hx
  | ok d b =>
    rw [he] at ht
    obtain ⟨_, _, hx, rfl⟩ := ht
    cases h.symm.trans hx
    rw [Resolutions.append_empty]

/-- A run that fails at some method is the whole analysis, whatever comes after. -/
theorem analyze_of_run_error {e : Failure} {st : State}
    (h : s.runUpTo parent source k = .error e st) :
    (s.analyze parent (.source source)).result = .error e := by
  obtain ⟨rest, hrest⟩ := source.check_eq_bind (s.top parent) k
  have hc : (Node.source source).check (s.top parent) ⟨s.topBlock, .empty⟩ = .error e st := by
    change source.check (s.top parent) _ = _
    rw [hrest]
    exact run_bind_of_error h
  rw [analyze_eq_check, hc]
  rfl

/-- What a run has written about the nodes up to a method is what the whole analysis finds. -/
theorem findings_of_analyze {r : Resolutions} (hn : (ids source.nodes).Nodup)
    (hr : (s.analyze parent (.source source)).result = .ok r) {st : State}
    (hrun : s.runUpTo parent source k = .ok () st) :
    ∀ id ∈ ids (source.nodesUpTo k), r.type? id = st.resolutions.type? id ∧
      r.binding? id = st.resolutions.binding? id := by
  have hup := elaborateUpTo_of_run hn hrun
  have hall : (ids (Node.source source).nodes).Nodup := hn
  obtain ⟨b, he⟩ := (analyze_ok_iff_elaborate hall).mp hr
  obtain ⟨d₁, b₁, d₂, hf, hm, _, rfl⟩ := Source.elaborate_ok_iff.mp he
  rw [← List.take_append_drop k source.methods] at hm
  obtain ⟨e₁, b₂, e₂, hbefore, hafter, rfl⟩ := Method.elaborateAll_append hm
  have hup' := Source.elaborateUpTo_ok_iff.mpr ⟨d₁, b₁, e₁, hf, hbefore, rfl⟩
  rw [hup] at hup'
  obtain ⟨hres, _⟩ := EStateM.Result.ok.inj hup'
  rw [hres, Resolutions.append_assoc]
  intro id hid
  have hlater : id ∉ ids ((source.methods.drop k).flatMap Method.nodes) := by
    rw [source.nodes_eq k, ids_cons, ids_append] at hn
    exact fun hm ↦ List.disjoint_of_nodup_append (List.nodup_cons.mp hn).2 hid hm
  obtain ⟨ht, hb⟩ := (Method.covers_of_elaborateAll hafter).silent hlater
  rw [Resolutions.type?_append, Resolutions.binding?_append, ht, hb, Option.none_or, Option.none_or]
  exact ⟨rfl, rfl⟩

/-- Two sources with the same fields and the same headers before a method leave the same
definitions to it. -/
theorem blocks_of_runs {source₁ source₂ : Source Unit} {n₁ n₂ : NodeId} {d₁ d₂ : Resolutions}
    {b₁ b₂ : Block} (hfields : source₂.fields = source₁.fields)
    (hbefore : List.Forall₂ Method.SameHeader (source₁.methods.take k) (source₂.methods.take k))
    (h₁ : (source₁.label n₁).elaborateUpTo (s.top parent) k s.topBlock = .ok d₁ b₁)
    (h₂ : (source₂.label n₂).elaborateUpTo (s.top parent) k s.topBlock = .ok d₂ b₂) :
    lookalike.Blocks b₁ b₂ := by
  obtain ⟨e₁, c₁, m₁, hf₁, hm₁, _⟩ := Source.elaborateUpTo_ok_iff.mp h₁
  obtain ⟨e₂, c₂, m₂, hf₂, hm₂, _⟩ := Source.elaborateUpTo_ok_iff.mp h₂
  have hr := Likeness.fields_retrace (lookalike_relabels (shift (n₁ + 1) (n₂ + 1)))
    (lookalike_places (s.top parent)) (lookalike_block s.topBlock) (source₁.label n₁).fields
  have hmap : ((source₁.label n₁).fields.map fun d ↦ d.map (shift (n₁ + 1) (n₂ + 1))) =
      (source₂.label n₂).fields := by
    change _ = Field.labelAll (n₂ + 1) source₂.fields
    rw [hfields]
    exact Field.map_labelAll (shifts_shift _ _) _
  rw [hmap, hf₁] at hr
  obtain ⟨_, _, hx, _, hc⟩ := hr
  cases hf₂.symm.trans hx
  refine Method.blocks_of_sameHeaders ?_ hc hm₁ hm₂
  change List.Forall₂ _ ((Method.labelAll _ source₁.methods).take k)
    ((Method.labelAll _ source₂.methods).take k)
  rw [Method.take_labelAll, Method.take_labelAll]
  exact Method.sameHeader_labelAll hbefore _ _

/-- A method is checked alike after different runs that left it the same definitions. -/
theorem method_runs (env : Env) {m : Method Unit} {a₁ a₂ : NodeId} {b₁ b₂ : Block}
    {r₁ r₂ : Resolutions} (hb : lookalike.Blocks b₁ b₂) (hr₁ : r₁.Ready (m.label a₁).nodes)
    (hr₂ : r₂.Ready (m.label a₂).nodes) :
    (∃ e st₁ st₂, (m.label a₁).check env ⟨b₁, r₁⟩ = .error (.error e) st₁ ∧
      (m.label a₂).check env ⟨b₂, r₂⟩ = .error (.error e) st₂) ∨
    ∃ st₁ st₂, (m.label a₁).check env ⟨b₁, r₁⟩ = .ok () st₁ ∧
      (m.label a₂).check env ⟨b₂, r₂⟩ = .ok () st₂ ∧
      SameFindings st₁.resolutions st₂.resolutions (m.label a₁).nodes (m.label a₂).nodes := by
  have hr := Likeness.method_retraces (lookalike_relabels (shift a₁ a₂)) (lookalike_places env) hb
    (m.label a₁)
  rw [Method.map_label (shifts_shift a₁ a₂)] at hr
  have tracks {a : NodeId} {r : Resolutions} (b : Block) (h : r.Ready (m.label a).nodes) :
      Tracks ((m.label a).check env ⟨b, r⟩) ((m.label a).elaborate env b)
        fun _ r' d ↦ r' = d ++ r := Method.check_tracks h
  have ht₁ := tracks b₁ hr₁
  have ht₂ := tracks b₂ hr₂
  cases he : (m.label a₁).elaborate env b₁ with
  | error e c =>
    rw [he] at hr ht₁
    obtain ⟨c', he', _⟩ := hr trivial
    rw [he'] at ht₂
    obtain ⟨t₁, hx₁⟩ := ht₁
    obtain ⟨t₂, hx₂⟩ := ht₂
    exact .inl ⟨e, _, _, hx₁, hx₂⟩
  | ok d c =>
    rw [he] at hr ht₁
    obtain ⟨d', c', he', htables, _⟩ := hr
    rw [he'] at ht₂
    obtain ⟨_, _, hx₁, rfl⟩ := ht₁
    obtain ⟨_, _, hx₂, rfl⟩ := ht₂
    exact .inr ⟨_, _, hx₁, hx₂,
      htables.sameFindings (Method.covers_of_elaborate he) hr₁ hr₂⟩

/-- A run that has come to a method goes on with that method, on a table that says nothing about
it. -/
theorem run_reaches_method {source : Source Unit} {n : NodeId} {m : Method Unit} {st : State}
    (hm : source.methods[k]? = some m) (hrun : s.runUpTo parent (source.label n) k = .ok () st) :
    ∃ a, (source.label n).methods[k]? = some (m.label a) ∧
      s.runUpTo parent (source.label n) (k + 1) = (m.label a).check (s.top parent) st ∧
      st.resolutions.Ready (m.label a).nodes := by
  have hl := Method.getElem?_labelAll (n + 1 + Field.sizeAll source.fields) source.methods k
  rw [hm, Option.map_some] at hl
  refine ⟨_, hl, ?_, ?_⟩
  · unfold runUpTo
    rw [Source.checkUpTo_succ hl]
    exact run_bind_of_ok hrun
  · have hn := Node.nodup_ids_label n (.source source)
    have hr := Resolutions.ready_empty ((source.label n).nodup_nodesUpTo hn (k + 1))
    rw [Source.nodesUpTo_succ hl] at hr
    have hc := Source.covers_of_elaborateUpTo (elaborateUpTo_of_run hn hrun)
    simpa using hr.right hc

/-- Two sources have the same fields, the same headers of methods before position `k`, and the same
method at position `k`; bodies and names of parameters before it and everything after it may differ.
If neither analysis fails before that method, then either both fail at it, with the same error,
which is the error of both analyses, or it passes in both, and corresponding nodes of it get the
same types and equal bindings. -/
theorem method_checks_alike (s : Symbols) (parent : Option ScopeId) (source₁ source₂ : Source Unit)
    (n₁ n₂ : NodeId) (k : Nat) (m : Method Unit) (hfields : source₂.fields = source₁.fields)
    (hbefore : List.Forall₂ Method.SameHeader (source₁.methods.take k) (source₂.methods.take k))
    (hm₁ : source₁.methods[k]? = some m) (hm₂ : source₂.methods[k]? = some m)
    (hrun₁ : ∃ st, s.runUpTo parent (source₁.label n₁) k = .ok () st)
    (hrun₂ : ∃ st, s.runUpTo parent (source₂.label n₂) k = .ok () st) :
    (∃ e st₁ st₂, s.runUpTo parent (source₁.label n₁) (k + 1) = .error (.error e) st₁ ∧
      s.runUpTo parent (source₂.label n₂) (k + 1) = .error (.error e) st₂ ∧
      (s.analyze parent (.source (source₁.label n₁))).result = .error (.error e) ∧
      (s.analyze parent (.source (source₂.label n₂))).result = .error (.error e)) ∨
    ∃ m₁ m₂ st₁ st₂, (source₁.label n₁).methods[k]? = some m₁ ∧
      (source₂.label n₂).methods[k]? = some m₂ ∧
      s.runUpTo parent (source₁.label n₁) (k + 1) = .ok () st₁ ∧
      s.runUpTo parent (source₂.label n₂) (k + 1) = .ok () st₂ ∧
      SameFindings st₁.resolutions st₂.resolutions m₁.nodes m₂.nodes ∧
      ∀ r₁ r₂, (s.analyze parent (.source (source₁.label n₁))).result = .ok r₁ →
        (s.analyze parent (.source (source₂.label n₂))).result = .ok r₂ →
        SameFindings r₁ r₂ m₁.nodes m₂.nodes := by
  obtain ⟨st₁, hrun₁⟩ := hrun₁
  obtain ⟨st₂, hrun₂⟩ := hrun₂
  have hn₁ := Node.nodup_ids_label n₁ (.source source₁)
  have hn₂ := Node.nodup_ids_label n₂ (.source source₂)
  have hb := blocks_of_runs hfields hbefore (elaborateUpTo_of_run hn₁ hrun₁)
    (elaborateUpTo_of_run hn₂ hrun₂)
  obtain ⟨a₁, hl₁, hstep₁, hr₁⟩ := run_reaches_method hm₁ hrun₁
  obtain ⟨a₂, hl₂, hstep₂, hr₂⟩ := run_reaches_method hm₂ hrun₂
  rcases method_runs (s.top parent) hb hr₁ hr₂ with ⟨e, t₁, t₂, h₁, h₂⟩ |
    ⟨t₁, t₂, h₁, h₂, hsame⟩
  · rw [← hstep₁] at h₁
    rw [← hstep₂] at h₂
    exact .inl ⟨e, t₁, t₂, h₁, h₂, analyze_of_run_error h₁, analyze_of_run_error h₂⟩
  · rw [← hstep₁] at h₁
    rw [← hstep₂] at h₂
    refine .inr ⟨_, _, t₁, t₂, hl₁, hl₂, h₁, h₂, hsame, fun r₁ r₂ ha₁ ha₂ ↦ ?_⟩
    refine hsame.congr (fun id hid ↦ findings_of_analyze hn₁ ha₁ h₁ id ?_)
      (fun id hid ↦ findings_of_analyze hn₂ ha₂ h₂ id ?_)
    · rw [Source.nodesUpTo_succ hl₁, ids_append]
      exact List.mem_append_right _ hid
    · rw [Source.nodesUpTo_succ hl₂, ids_append]
      exact List.mem_append_right _ hid

end Symbols

/-! ### A method in two sources -/

/-- A constant. -/
def baseField : Field Unit :=
  ⟨(), "base", "Integer", true, some (.literal () (.integer 2))⟩

/-- A method that calls another one. -/
def scalingMain : Method Unit :=
  ⟨(), "main", [], [], some "Integer",
    [.declaration () "x" none (some (.call () none "scale" [.access () none "base"])),
      .ret () (.access () none "x")]⟩

/-- The called method multiplies. -/
def multiplying : Source Unit :=
  ⟨(), [baseField],
    [⟨(), "scale", ["a"], ["Integer"], some "Integer",
      [.ret () (.binary () "*" (.access () none "a") (.access () none "base"))]⟩, scalingMain]⟩

/-- The called method does nothing, and a later method is wrong. -/
def forwarding : Source Unit :=
  ⟨(), [baseField],
    [⟨(), "scale", ["b"], ["Integer"], some "Integer", [.ret () (.access () none "b")]⟩,
      scalingMain,
      ⟨(), "wrong", [], [], some "Integer", [.ret () (.literal () (.string "text"))]⟩]⟩

/-- Whether a run has come to its end. -/
def succeeds {ε σ α : Type} : EStateM.Result ε σ α → Bool
  | .ok _ _ => true
  | .error _ _ => false

/-- A run that succeeds leaves a state. -/
theorem exists_of_succeeds {ε σ : Type} {x : EStateM.Result ε σ Unit} (h : succeeds x = true) :
    ∃ s, x = .ok () s := by
  cases x with
  | ok _ s => exact ⟨s, rfl⟩
  | error _ _ => cases h

/-- One method is checked alike in two programs that differ in another method. -/
theorem scalingMain_alike :
    ∃ m₁ m₂ st₁ st₂, (multiplying.label 0).methods[1]? = some m₁ ∧
      (forwarding.label 30).methods[1]? = some m₂ ∧
      Symbols.initial.runUpTo none (multiplying.label 0) 2 = .ok () st₁ ∧
      Symbols.initial.runUpTo none (forwarding.label 30) 2 = .ok () st₂ ∧
      SameFindings st₁.resolutions st₂.resolutions m₁.nodes m₂.nodes := by
  have hrun₁ : succeeds (Symbols.initial.runUpTo none (multiplying.label 0) 1) = true := by
    decide +kernel
  have hrun₂ : succeeds (Symbols.initial.runUpTo none (forwarding.label 30) 1) = true := by
    decide +kernel
  have hpass : succeeds (Symbols.initial.runUpTo none (multiplying.label 0) 2) = true := by
    decide +kernel
  rcases Symbols.method_checks_alike .initial none multiplying forwarding 0 30 1 scalingMain rfl
    (.cons ⟨rfl, rfl, rfl⟩ .nil) rfl rfl (exists_of_succeeds hrun₁) (exists_of_succeeds hrun₂) with
    ⟨e, st₁, st₂, h₁, _⟩ | ⟨m₁, m₂, st₁, st₂, hm₁, hm₂, h₁, h₂, hsame, _⟩
  · rw [h₁] at hpass
    cases hpass
  · exact ⟨m₁, m₂, st₁, st₂, hm₁, hm₂, h₁, h₂, hsame⟩

end TreeCheck
