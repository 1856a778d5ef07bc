import TreeCheck.Proofs.Runs
import TreeCheck.Proofs.Visits

/-!
# Lexical scoping

In a source that is analysed with success, what a name inside a method stands for can be read off
the tree. A variable's name stands for the declaration of that name in the innermost block around it
that has a complete one; failing that, for the method's parameter; failing that, for the field. The
name of a function with a number of arguments stands for the only method of that name and number of
parameters up to and including the method it stands in, or for `print`.

The blocks that elaboration looks names up in mirror the lexical frames: each variable of a block is
what is recorded for the declaration in the same position of the frame.
-/

namespace TreeCheck

/-! ### What names stand for -/

/-- The innermost complete declaration of a name. -/
def Frames.find? {α : Type} (frames : Frames α) (name : Text) : Option α :=
  frames.findSome? fun frame ↦ frame.lookup name

/-- What the name of a variable stands for inside a method, at a place with the given frames. -/
inductive Method.Names (source : Source NodeId) (m : Method NodeId) (r : Resolutions)
    (frames : Frames NodeId) (name : Text) : Binding → Prop
  | declared {d : NodeId} {typeName : Option Text} {value : Option (Expr NodeId)} {b : Binding}
      (hf : frames.find? name = some d)
      (hd : .stmt (.declaration d name typeName value) ∈ m.nodes)
      (hb : r.binding? d = some b) : Names source m r frames name b
  | parameter {i : Nat} {f : Function} {t : Ty} (hf : frames.find? name = none)
      (hi : m.parameters[i]? = some name) (hu : ∀ j, m.parameters[j]? = some name → j = i)
      (hm : r.binding? m.tag = some (.function f)) (ht : f.parameters[i]? = some t) :
      Names source m r frames name (.variable ⟨name, name, t, false, .parameter m.tag i⟩)
  | field {d : Field NodeId} {b : Binding} (hf : frames.find? name = none)
      (hp : name ∉ m.parameters) (hd : d ∈ source.fields) (hn : d.name = name)
      (hu : ∀ d' ∈ source.fields, d'.name = name → d' = d) (hb : r.binding? d.tag = some b) :
      Names source m r frames name b

/-- What the name of a function with a number of arguments stands for, if `methods` have been
defined. -/
inductive Method.Calls (methods : List (Method NodeId)) (print : Function) (r : Resolutions)
    (name : Text) (arity : Nat) : Binding → Prop
  | print (hn : name = "print") (ha : arity = 1) :
      Calls methods print r name arity (.function print)
  | method {m : Method NodeId} {b : Binding} (hp : ¬(name = "print" ∧ arity = 1))
      (hm : m ∈ methods) (hn : m.name = name) (ha : m.parameters.length = arity)
      (hu : ∀ m' ∈ methods, m'.name = name → m'.parameters.length = arity → m' = m)
      (hb : r.binding? m.tag = some b) : Calls methods print r name arity b

/-- Every name without a receiver inside a method is bound to what it stands for at its place, if
`methods` have been defined there. -/
structure Method.Scoped (source : Source NodeId) (methods : List (Method NodeId)) (print : Function)
    (r : Resolutions) (m : Method NodeId) : Prop where
  access : ∀ frames tag name, (frames, .expr (.access tag none name)) ∈ m.places →
    ∃ b, r.binding? tag = some b ∧ m.Names source r frames name b
  call : ∀ frames tag name arguments, (frames, .expr (.call tag none name arguments)) ∈ m.places →
    ∃ b, r.binding? tag = some b ∧ Calls methods print r name arguments.length b

open Resolutions (within_append within_ofBinding within_ofBound)

variable {r : Resolutions}

/-! ### Blocks that mirror frames -/

/-- A variable is what is recorded for a declaration. -/
def Recorded (r : Resolutions) (q : Text × NodeId) (v : Variable) : Prop :=
  v.name = q.1 ∧ r.binding? q.2 = some (.variable v)

/-- The blocks of a chain up to `rest` mirror the frames; the outermost of them starts with the
parameters `ps`, which no declaration in it repeats. -/
inductive Mirrors (r : Resolutions) (ps : List Variable) (rest : Chain) :
    Frames NodeId → Chain → Prop
  | body {frame : Frame NodeId} {vs : List Variable} (hv : List.Forall₂ (Recorded r) frame vs)
      (hp : ∀ v ∈ vs, (ps.find? fun p ↦ p.name = v.name) = none) :
      Mirrors r ps rest [frame] (⟨ps ++ vs, []⟩ :: rest)
  | nested {frame : Frame NodeId} {vs : List Variable} {frames : Frames NodeId} {chain : Chain}
      (hv : List.Forall₂ (Recorded r) frame vs) (hc : Mirrors r ps rest frames chain) :
      Mirrors r ps rest (frame :: frames) (⟨vs, []⟩ :: chain)

/-- A name is found in a block exactly where it is found in the frame. -/
theorem lookup_of_recorded {frame : Frame NodeId} {vs : List Variable}
    (h : List.Forall₂ (Recorded r) frame vs) (name : Text) :
    (vs.find? fun v ↦ v.name = name) = none ∧ frame.lookup name = none ∨
      ∃ v d, (vs.find? fun v ↦ v.name = name) = some v ∧ frame.lookup name = some d ∧
        r.binding? d = some (.variable v) := by
  induction h with
  | nil => exact .inl ⟨rfl, rfl⟩
  | @cons q v frame vs hq _ ih =>
    obtain ⟨x, d⟩ := q
    obtain ⟨rfl, hd⟩ := hq
    by_cases hn : v.name = name
    · subst hn
      exact .inr ⟨v, d, by simp, List.lookup_cons_self, hd⟩
    · have hb : (name == v.name) = false := beq_false_of_ne fun h ↦ hn h.symm
      simpa [List.lookup_cons, hb, hn] using ih

namespace Mirrors

variable {ps : List Variable} {rest : Chain} {frames : Frames NodeId} {chain : Chain}

/-- A name that the frames do not declare is looked up among the parameters and in the rest. -/
theorem findVariable {name : Text} {v : Variable} (h : Mirrors r ps rest frames chain)
    (hv : chain.findVariable? name = some v) :
    (∃ d, frames.find? name = some d ∧ r.binding? d = some (.variable v)) ∨
      frames.find? name = none ∧ Chain.findVariable? (⟨ps, []⟩ :: rest) name = some v := by
  induction h with
  | @body frame vs hr hp =>
    rw [Chain.findVariable?, List.findSome?_cons, Block.findVariable?, List.find?_append] at hv
    rw [Frames.find?, List.findSome?_cons, List.findSome?_nil, Chain.findVariable?,
      List.findSome?_cons, Block.findVariable?]
    obtain ⟨hn, hl⟩ | ⟨w, d, hw, hl, hd⟩ := lookup_of_recorded hr name
    · rw [hl]
      rw [hn, Option.or_none] at hv
      exact .inr ⟨rfl, hv⟩
    · have hpw := hp w (List.mem_of_find?_eq_some hw)
      have hname : w.name = name := by simpa using List.find?_some hw
      rw [hname] at hpw
      rw [hpw, hw, Option.none_or] at hv
      rw [hl]
      cases hv
      exact .inl ⟨d, rfl, hd⟩
  | @nested frame vs frames chain hr _ ih =>
    rw [Chain.findVariable?, List.findSome?_cons, Block.findVariable?] at hv
    rw [Frames.find?, List.findSome?_cons]
    obtain ⟨hn, hl⟩ | ⟨w, d, hw, hl, hd⟩ := lookup_of_recorded hr name
    · rw [hl]
      rw [hn] at hv
      exact ih hv
    · rw [hw] at hv
      rw [hl]
      cases hv
      exact .inl ⟨d, rfl, hd⟩

/-- Functions are only found in the rest. -/
theorem findFunction (h : Mirrors r ps rest frames chain) (name : Text) (arity : Int) :
    chain.findFunction? name arity = rest.findFunction? name arity := by
  induction h with
  | body => rfl
  | nested _ _ ih => exact ih

/-- A declaration extends the innermost frame and the innermost block alike. -/
theorem declare {frame : Frame NodeId} {outer : Frames NodeId} {b b' : Block} {v : Variable}
    {d : NodeId} (h : Mirrors r ps rest (frame :: outer) (b :: chain))
    (hb : b.defineVariable v = .ok b') (hd : r.binding? d = some (.variable v)) :
    Mirrors r ps rest ((frame ++ [(v.name, d)]) :: outer) (b' :: chain) := by
  obtain ⟨hn, rfl⟩ := Block.defineVariable_ok_iff.mp hb
  have hnew : List.Forall₂ (Recorded r) [(v.name, d)] [v] := .cons ⟨rfl, hd⟩ .nil
  cases h with
  | @body _ vs hr hp =>
    rw [List.append_assoc]
    refine .body (List.rel_append hr hnew) (List.forall_mem_append.mpr ⟨hp, ?_⟩)
    rw [Block.findVariable?, List.find?_append, Option.or_eq_none_iff] at hn
    exact List.forall_mem_singleton.mpr hn.1
  | nested hr hc => exact .nested (List.rel_append hr hnew) hc

/-- The blocks mirror the frames all through a method. -/
theorem invariant (r : Resolutions) (ps : List Variable) (rest : Chain) :
    Stmt.Invariant r fun frames env b ↦ Mirrors r ps rest frames (b :: env.outer) where
  nested h := .nested .nil h
  declaration := by
    intro frame outer env b b' tag name typeName value set d hI h hd
    obtain ⟨found, d₁, t, _, _, _, hb, rfl⟩ := Stmt.elaborate_declaration_ok_iff.mp h
    exact hI.declare hb (within_ofBinding.mp (within_append.mp hd).1)

end Mirrors

/-! ### The block of a source -/

/-- A variable is what is recorded for a field. -/
def Field.Defines (r : Resolutions) (field : Field NodeId) (v : Variable) : Prop :=
  v.name = field.name ∧ r.binding? field.tag = some (.variable v)

/-- What tells functions apart. -/
def Function.key (f : Function) : Text × Nat := (f.name, f.arity)

/-- What tells methods apart. -/
def Method.key (m : Method NodeId) : Text × Nat := (m.name, m.parameters.length)

/-- A function is what is recorded for a method. -/
def Method.Defines (r : Resolutions) (m : Method NodeId) (f : Function) : Prop :=
  f.key = m.key ∧ r.binding? m.tag = some (.function f)

section Definitions

variable {env : Env} {b b' : Block} {d : Resolutions}

/-- Elaborated fields are added to the block in order, each as it is recorded, and no two variables
of the block share a name. -/
theorem Field.defines_of_elaborateAll {fields : List (Field NodeId)}
    (h : elaborateAll env fields b = .ok d b') (hd : d.Within r)
    (hn : (b.vars.map Variable.name).Nodup) :
    (b'.vars.map Variable.name).Nodup ∧
      ∃ vs, b' = { b with vars := b.vars ++ vs } ∧ List.Forall₂ (Defines r) fields vs := by
  induction fields generalizing b d with
  | nil =>
    obtain ⟨_, rfl⟩ := elaborateAll_nil_ok_iff.mp h
    exact ⟨hn, [], by simp, .nil⟩
  | cons field fields ih =>
    obtain ⟨d₁, b₁, d₂, h₁, h₂, rfl⟩ := elaborateAll_cons_ok_iff.mp h
    obtain ⟨hd₂, hd₁⟩ := within_append.mp hd
    obtain ⟨t, found, d₃, _, _, _, hb, rfl⟩ := elaborate_ok_iff.mp h₁
    obtain ⟨hf, rfl⟩ := Block.defineVariable_ok_iff.mp hb
    have hnew : field.name ∉ b.vars.map Variable.name := by
      simpa using Block.findVariable_eq_none.mp hf
    obtain ⟨hn₂, vs, rfl, hvs⟩ := ih h₂ hd₂ (by simpa using hn.concat hnew)
    have hv := within_ofBinding.mp (within_append.mp hd₁).1
    exact ⟨hn₂, _ :: vs, by simp, .cons ⟨rfl, hv⟩ hvs⟩

/-- An elaborated method is added to the block as it is recorded, under a key of its own. -/
theorem Method.defines_of_elaborate {m : Method NodeId} (h : m.elaborate env b = .ok d b')
    (hd : d.Within r) :
    ∃ f, m.signature env.catalog = .ok f ∧ b' = { b with funs := b.funs ++ [f] } ∧
      m.Defines r f ∧ f.key ∉ b.funs.map Function.key := by
  obtain ⟨f, d₁, b₂, hf, hb, _, _, rfl⟩ := elaborate_ok_iff.mp h
  obtain ⟨hl, ps, t, hp, _, rfl⟩ := signature_ok_iff.mp hf
  obtain ⟨hn, rfl⟩ := Block.defineFunction_ok_iff.mp hb
  have hlength : ps.length = m.parameters.length := hp.length_eq.symm.trans hl.symm
  refine ⟨_, hf, rfl, ⟨?_, ?_⟩, ?_⟩
  · exact congrArg (Prod.mk m.name) hlength
  · exact within_ofBinding.mp (within_append.mp hd).2
  · simpa [Function.key] using Block.findFunction_eq_none.mp hn

/-- Elaborated methods are added to the block in order, each as it is recorded, and no two functions
of the block share a key. -/
theorem Method.defines_of_elaborateAll {ms : List (Method NodeId)}
    (h : elaborateAll env ms b = .ok d b') (hd : d.Within r)
    (hn : (b.funs.map Function.key).Nodup) :
    (b'.funs.map Function.key).Nodup ∧
      ∃ fs, b' = { b with funs := b.funs ++ fs } ∧ List.Forall₂ (Defines r) ms fs := by
  induction ms generalizing b d with
  | nil =>
    obtain ⟨_, rfl⟩ := elaborateAll_nil_ok_iff.mp h
    exact ⟨hn, [], by simp, .nil⟩
  | cons m ms ih =>
    obtain ⟨d₁, b₁, d₂, h₁, h₂, rfl⟩ := elaborateAll_cons_ok_iff.mp h
    obtain ⟨hd₂, hd₁⟩ := within_append.mp hd
    obtain ⟨f, _, rfl, hm, hf⟩ := defines_of_elaborate h₁ hd₁
    obtain ⟨hn₂, fs, rfl, hfs⟩ := ih h₂ hd₂ (by simpa using hn.concat hf)
    exact ⟨hn₂, f :: fs, by simp, .cons hm hfs⟩

/-- The methods up to one of them are elaborated before the rest. -/
theorem Method.elaborateAll_append {before after : List (Method NodeId)}
    (h : elaborateAll env (before ++ after) b = .ok d b') :
    ∃ d₁ b₁ d₂, elaborateAll env before b = .ok d₁ b₁ ∧ elaborateAll env after b₁ = .ok d₂ b' ∧
      d = d₂ ++ d₁ := by
  induction before generalizing b d with
  | nil => exact ⟨.empty, b, d, rfl, h, by simp⟩
  | cons m before ih =>
    obtain ⟨d₁, b₁, d₂, h₁, h₂, rfl⟩ := elaborateAll_cons_ok_iff.mp h
    obtain ⟨d₃, b₃, d₄, h₃, h₄, rfl⟩ := ih h₂
    exact ⟨d₃ ++ d₁, b₃, d₄, elaborateAll_cons_ok_iff.mpr ⟨d₁, b₁, d₃, h₁, h₃, rfl⟩, h₄,
      Resolutions.append_assoc _ _ _⟩

end Definitions

/-- In two related lists whose keys are distinct, each member of the second belongs to the only
member of the first that has its key. -/
theorem exists_of_forall₂ {α β κ : Type} {R : α → β → Prop} {f : α → κ} {g : β → κ} {xs : List α}
    {ys : List β} {y : β} (h : List.Forall₂ R xs ys) (hR : ∀ x y, R x y → f x = g y)
    (hn : (ys.map g).Nodup) (hy : y ∈ ys) :
    ∃ x ∈ xs, R x y ∧ ∀ x' ∈ xs, f x' = g y → x' = x := by
  have hmap : xs.map f = ys.map g := by
    rw [← List.forall₂_eq_eq_eq, List.forall₂_map_left_iff, List.forall₂_map_right_iff]
    exact h.imp hR
  obtain ⟨i, rfl⟩ := List.mem_iff_get.mp hy
  have hi : i < xs.length := Nat.lt_of_lt_of_eq i.isLt h.length_eq.symm
  have hx := h.get hi i.isLt
  refine ⟨_, List.get_mem xs ⟨i, hi⟩, hx, fun x' hx' he ↦ ?_⟩
  exact List.inj_on_of_nodup_map (hmap ▸ hn) hx' (List.get_mem xs _) (he.trans (hR _ _ hx).symm)

/-! ### Names inside a method -/

/-- A parameter is found by its name, with its position. -/
theorem parameter_of_find {method : NodeId} {position : Nat} {ps : List (Text × Ty)} {name : Text}
    {v : Variable}
    (h : ((parameterVariables method position ps).find? fun v ↦ v.name = name) = some v) :
    ∃ i t, ps[i]? = some (name, t) ∧
      v = ⟨name, name, t, false, .parameter method (position + i)⟩ := by
  induction ps generalizing position with
  | nil => cases h
  | cons p ps ih =>
    obtain ⟨x, t⟩ := p
    by_cases hx : x = name
    · subst hx
      rw [parameterVariables, List.find?_cons_of_pos (by simp)] at h
      exact ⟨0, t, rfl, (Option.some.inj h).symm⟩
    · rw [parameterVariables, List.find?_cons_of_neg (by simpa using hx)] at h
      obtain ⟨i, t, hi, rfl⟩ := ih h
      exact ⟨i + 1, t, hi, by rw [Nat.add_assoc, Nat.add_comm 1 i]⟩

private theorem names_parameterVariables (method : NodeId) (position : Nat)
    (ps : List (Text × Ty)) :
    (parameterVariables method position ps).map Variable.name = ps.map Prod.fst := by
  induction ps generalizing position with
  | nil => rfl
  | cons p ps ih => simp [parameterVariables, ih]

/-- The innermost declaration of a name stands in one of the frames. -/
theorem Frames.mem_of_find {frames : Frames NodeId} {name : Text} {d : NodeId}
    (h : frames.find? name = some d) : ∃ frame ∈ frames, (name, d) ∈ frame := by
  obtain ⟨frame, hf, hl⟩ := List.exists_of_findSome?_eq_some h
  obtain ⟨l₁, l₂, rfl, _⟩ := List.lookup_eq_some_iff.mp hl
  exact ⟨_, hf, List.mem_append_right l₁ List.mem_cons_self⟩

namespace Method

variable {m : Method NodeId} {name : Text}

/-- Where the blocks mirror the frames, what is found under a name is what the name stands for. -/
theorem names_of_findVariable {source : Source NodeId} {c : Catalog} {f : Function}
    {vs : List Variable} {funs : List Function} {frames : Frames NodeId} {chain : Chain}
    {v : Variable} (hf : m.signature c = .ok f) (hp : m.parameters.Nodup) (hm : m.Defines r f)
    (hvs : List.Forall₂ (Field.Defines r) source.fields vs) (hn : (vs.map Variable.name).Nodup)
    (hd : DeclaredIn m.nodes frames)
    (h : Mirrors r (parameterVariables m.tag 0 (m.parameters.zip f.parameters)) [⟨vs, funs⟩]
      frames chain)
    (hv : chain.findVariable? name = some v) : m.Names source r frames name (.variable v) := by
  obtain ⟨d, hfind, hb⟩ | ⟨hnone, hv⟩ := h.findVariable hv
  · obtain ⟨frame, hframe, hq⟩ := Frames.mem_of_find hfind
    obtain ⟨typeName, value, hdecl⟩ := hd frame hframe _ hq
    exact .declared hfind hdecl hb
  rw [Chain.findVariable?, List.findSome?_cons, Block.findVariable?] at hv
  cases hw : (parameterVariables m.tag 0 (m.parameters.zip f.parameters)).find?
      fun v ↦ v.name = name with
  | some w =>
    rw [hw] at hv
    cases hv
    obtain ⟨i, t, hi, rfl⟩ := parameter_of_find hw
    obtain ⟨hx, ht⟩ := List.getElem?_zip_eq_some.mp hi
    obtain ⟨hlt, _⟩ := List.getElem?_eq_some_iff.mp hx
    rw [Nat.zero_add]
    refine .parameter hnone hx (fun j hj ↦ ?_) hm.2 ht
    exact ((List.getElem?_inj hlt hp).mp (hx.trans hj.symm)).symm
  | none =>
    have hparam : name ∉ m.parameters := by
      rw [← names_of_signature hf, ← names_parameterVariables m.tag 0]
      simpa using hw
    rw [hw] at hv
    obtain ⟨b, hb, hv⟩ := List.exists_of_findSome?_eq_some hv
    obtain rfl := List.mem_singleton.mp hb
    have hname : v.name = name := by simpa using List.find?_some hv
    obtain ⟨field, hfield, hr, hu⟩ := exists_of_forall₂ (f := Field.name) hvs
      (fun _ _ h ↦ h.1.symm) hn (List.mem_of_find?_eq_some hv)
    rw [hname] at hu
    exact .field hnone hparam hfield (hr.1.symm.trans hname) hu hr.2

/-- A function that is found is `print` or that of the only method of its key. -/
theorem calls_of_findFunction {methods : List (Method NodeId)} {fs : List Function}
    {vs : List Variable} {scope : ScopeId} {arity : Nat} {f : Function}
    (hms : List.Forall₂ (Defines r) methods fs)
    (hn : ((printFunction scope :: fs).map Function.key).Nodup)
    (hf : Chain.findFunction? [⟨vs, printFunction scope :: fs⟩] name arity = some f) :
    Calls methods (printFunction scope) r name arity (.function f) := by
  obtain ⟨b, hb, hf⟩ := List.exists_of_findSome?_eq_some hf
  obtain rfl := List.mem_singleton.mp hb
  obtain ⟨hname, harity⟩ := Block.key_of_findFunction hf
  have hkey : f.key = (name, arity) := Prod.ext hname (Int.ofNat.inj harity)
  obtain ⟨hprint, hn⟩ := List.nodup_cons.mp hn
  obtain rfl | hf := List.mem_cons.mp (List.mem_of_find?_eq_some hf)
  · obtain ⟨rfl, rfl⟩ := Prod.mk.inj hkey
    exact .print rfl rfl
  · obtain ⟨m, hm, hd, hu⟩ := exists_of_forall₂ (f := key) hms (fun _ _ h ↦ h.1.symm) hn hf
    rw [hkey] at hu
    obtain ⟨hmn, hma⟩ := Prod.mk.inj (hd.1.symm.trans hkey)
    refine .method (fun hp ↦ hprint ?_) hm hmn hma ?_ hd.2
    · exact List.mem_map.mpr ⟨f, hf, hkey.trans (Prod.ext hp.1 hp.2)⟩
    · exact fun m' hm' hn' ha' ↦ hu m' hm' (Prod.ext hn' ha')

/-- A method that is elaborated after the fields and the methods before it is scoped. -/
theorem scoped_of_elaborate {source : Source NodeId} {before : List (Method NodeId)} {env : Env}
    {scope : ScopeId} {vs : List Variable} {fs : List Function} {d : Resolutions} {b' : Block}
    (houter : env.outer = []) (hvs : List.Forall₂ (Field.Defines r) source.fields vs)
    (hnv : (vs.map Variable.name).Nodup) (hms : List.Forall₂ (Defines r) before fs)
    (hnf : ((printFunction scope :: fs).map Function.key).Nodup)
    (h : m.elaborate env ⟨vs, printFunction scope :: fs⟩ = .ok d b') (hd : d.Within r) :
    m.Scoped source (before ++ [m]) (printFunction scope) r := by
  obtain ⟨f, hf, rfl, hm, hk⟩ := defines_of_elaborate h hd
  obtain ⟨f', d₁, b₂, hf', _, hp, hs, rfl⟩ := elaborate_ok_iff.mp h
  obtain rfl := Except.ok.inj (hf.symm.trans hf')
  have hstart : Mirrors r (parameterVariables m.tag 0 (m.parameters.zip f.parameters))
      [⟨vs, printFunction scope :: (fs ++ [f])⟩] [[]]
      (⟨parameterVariables m.tag 0 (m.parameters.zip f.parameters), []⟩ ::
        (env.inMethod ⟨vs, printFunction scope :: (fs ++ [f])⟩ f).outer) := by
    simpa [Env.inMethod, Env.inside, houter] using Mirrors.body .nil (List.forall_mem_nil _)
  have hplace := Stmt.elaborated_of_elaborateAll (Mirrors.invariant r _ _) hstart hs
    (within_append.mp hd).1
  have hms' : List.Forall₂ (Defines r) (before ++ [m]) (fs ++ [f]) :=
    List.rel_append hms (.cons hm .nil)
  have hnf' : ((printFunction scope :: (fs ++ [f])).map Function.key).Nodup := by
    simpa using hnf.concat hk
  constructor
  · intro frames tag name hp'
    obtain ⟨env', b', t, d', hI, he, hd'⟩ := hplace _ hp'
    obtain ⟨v, hv, rfl, rfl⟩ := Expr.elaborate_variable_ok_iff.mp he
    exact ⟨_, (within_ofBound.mp hd').2,
      names_of_findVariable hf hp hm hvs hnv (m.declaredIn_places _ hp') hI hv⟩
  · intro frames tag name arguments hp'
    obtain ⟨env', b', t, d', hI, he, hd'⟩ := hplace _ hp'
    obtain ⟨ts, d₂, g, _, hg, _, rfl, rfl⟩ := Expr.elaborate_function_ok_iff.mp he
    rw [hI.findFunction] at hg
    exact ⟨_, (within_ofBound.mp (within_append.mp hd').1).2, calls_of_findFunction hms' hnf' hg⟩

end Method

/-! ### Whole sources -/

/-- Where a source is elaborated with nothing but `print` around it, all its methods are scoped. -/
theorem Source.scoped_of_elaborate {source : Source NodeId} {env : Env} {scope : ScopeId}
    {d : Resolutions} {b' : Block} {before after : List (Method NodeId)} {m : Method NodeId}
    (houter : env.outer = []) (h : source.elaborate env ⟨[], [printFunction scope]⟩ = .ok d b')
    (hd : d.Within r) (hm : source.methods = before ++ m :: after) :
    m.Scoped source (before ++ [m]) (printFunction scope) r := by
  obtain ⟨d₁, b₁, d₂, hfields, hmethods, _, rfl⟩ := elaborate_ok_iff.mp h
  obtain ⟨hd₂, hd₁⟩ := within_append.mp hd
  obtain ⟨hnv, vs, rfl, hvs⟩ := Field.defines_of_elaborateAll hfields hd₁ List.nodup_nil
  rw [hm] at hmethods
  obtain ⟨d₃, b₃, d₄, hbefore, hrest, rfl⟩ := Method.elaborateAll_append hmethods
  obtain ⟨hd₄, hd₃⟩ := within_append.mp hd₂
  obtain ⟨hnf, fs, rfl, hms⟩ := Method.defines_of_elaborateAll hbefore hd₃ (List.nodup_singleton _)
  obtain ⟨d₅, b₅, d₆, hmethod, _, rfl⟩ := Method.elaborateAll_cons_ok_iff.mp hrest
  exact Method.scoped_of_elaborate houter hvs hnv hms hnf hmethod (within_append.mp hd₄).2

/-- Inside a method of a source that is analysed with success, outside of any scope, every name
without a receiver is bound to what it stands for at its place. -/
theorem Symbols.analyze_ok_scoped {α : Type} (s : Symbols) (source : Source α) (n : NodeId)
    (r : Resolutions) (hr : (s.analyze none ((Node.source source).label n)).result = .ok r)
    (before after : List (Method NodeId)) (m : Method NodeId)
    (hm : (source.label n).methods = before ++ m :: after) :
    m.nodes = .method m :: m.places.map Prod.snd ∧
      m.Scoped (source.label n) (before ++ [m]) (printFunction s.scopes.size) r := by
  have hn := Node.nodup_ids_label n (.source source)
  have hw := (covers_of_analyze hn hr).within hn
  obtain ⟨b, he⟩ := (analyze_ok_iff_elaborate hn).mp hr
  exact ⟨m.nodes_places, Source.scoped_of_elaborate rfl he hw hm⟩

/-- In the branch of the sample, `x` stands for the declaration in the branch, and not for that of
the method. -/
theorem summing_scoped :
    ∃ r m, (Symbols.initial.analyze none ((Node.source summing).label 0)).result = .ok r ∧
      (summing.label 0).methods = [m] ∧
      (∃ b, r.binding? 29 = some b ∧
        m.Names (summing.label 0) r [[("x", 26)], [("x", 4), ("i", 7)]] "x" b) ∧
      ∃ b, r.binding? 28 = some b ∧
        Method.Calls [m] (printFunction Symbols.initial.scopes.size) r "print" 1 b := by
  have hs : (Symbols.initial.analyze none ((Node.source summing).label 0)).result.isOk = true := by
    decide +kernel
  obtain ⟨r, hr⟩ := exists_of_isOk hs
  obtain ⟨_, hm⟩ := Symbols.analyze_ok_scoped .initial summing 0 r hr [] [] _ rfl
  refine ⟨r, _, hr, rfl, hm.access _ _ _ ?_, hm.call [[("x", 26)], [("x", 4), ("i", 7)]] 28 _
    [.access 29 none "x"] ?_⟩
  · exact List.mem_of_getElem? (i := 25) rfl
  · exact List.mem_of_getElem? (i := 24) rfl

end TreeCheck
