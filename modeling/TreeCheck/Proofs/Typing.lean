import TreeCheck.Proofs.Inference
import TreeCheck.Proofs.Runs

/-!
# The judgements describe elaboration

Elaboration succeeds on a tree exactly if the tree is well typed in the context that consists of the
current block and what surrounds it, and the variables it leaves in the block are those that are
judged to be declared. An analysis of distinct nodes therefore succeeds exactly on the well-typed
trees.
-/

namespace TreeCheck

section Contexts

variable {env : Env} {b : Block}

/-! ### Statements -/

/-- Extending a context by nothing leaves its block as it is. -/
@[simp] theorem Env.extend_nil : ((env.context b).extend []).inner = b := by
  simp [Context.extend, context]

private theorem Env.extend_append (us vs : List Variable) :
    ((env.context b).extend (us ++ vs)).inner =
      ((env.context ((env.context b).extend us).inner).extend vs).inner := by
  simp [Context.extend, context]

private theorem Env.extend_inj {us vs : List Variable}
    (h : ((env.context b).extend us).inner = ((env.context b).extend vs).inner) : us = vs := by
  simpa [Context.extend, context] using h

/-- The context of a new block after the declaration of variables. -/
theorem Env.nested_extend (vs : List Variable) :
    ((env.context b).extend vs).nested =
      (env.inside ((env.context b).extend vs).inner).context .empty := rfl

private theorem Env.nested_context : (env.context b).nested = (env.inside b).context .empty := rfl

namespace Stmt

/-- The type of the variable that a statement sets is the one that elaboration finds. -/
theorem controls_iff {s : Stmt NodeId} {set : Option Ty} {d : Resolutions} {vs : List Variable}
    {t : Ty} (h : s.elaborate env b = .ok (set, d) ((env.context b).extend vs).inner) :
    Controls (env.context b) (some s) vs t ↔ set = some t := by
  cases s with
  | declaration tag name typeName value =>
    obtain ⟨found, d₁, u, _, _, rfl, hb, _⟩ := elaborate_declaration_ok_iff.mp h
    obtain rfl := Env.extend_inj (Env.defineVariable_iff.mp hb).2
    constructor
    · rintro ⟨_⟩
      rfl
    · rintro ⟨⟩
      exact .declaration _
  | assignment tag receiver value =>
    obtain ⟨_, v, d₁, u, d₂, hr, _, _, _, rfl, _⟩ := elaborate_assignment_ok_iff.mp h
    constructor
    · intro hc
      cases hc with | assignment _ hv
      obtain ⟨d', hd'⟩ := Expr.designates_iff.mp hv
      cases hr.symm.trans hd'
      rfl
    · rintro ⟨⟩
      exact .assignment vs (Expr.designates_iff.mpr ⟨d₁, hr⟩)
  | expression tag e =>
    obtain ⟨_, rfl, _⟩ := elaborate_expression_ok_iff.mp h
    exact iff_of_false nofun nofun
  | ifElse tag condition thenBody elseBody =>
    obtain ⟨_, rfl, _⟩ := elaborate_ifElse_ok_iff.mp h
    exact iff_of_false nofun nofun
  | forLoop tag initialization condition increment body =>
    obtain ⟨_, rfl, _⟩ := elaborate_forLoop_ok_iff.mp h
    exact iff_of_false nofun nofun
  | whileLoop tag condition body =>
    obtain ⟨rfl, _⟩ := elaborate_whileLoop_ok_iff.mp h
    exact iff_of_false nofun nofun
  | ret tag value =>
    obtain ⟨rfl, _⟩ := elaborate_ret_ok_iff.mp h
    exact iff_of_false nofun nofun

/-- So is the type of the variable that an initialization sets, if there is one. -/
theorem controls_iff_of_first {o : Option (Stmt NodeId)} {control : Option Ty} {d : Resolutions}
    {vs : List Variable} {t : Ty}
    (h : elaborateFirst env o b = .ok (control, d) ((env.context b).extend vs).inner) :
    Controls (env.context b) o vs t ↔ control = some t := by
  cases o with
  | none =>
    obtain ⟨rfl, _⟩ := elaborateFirst_none_ok_iff.mp h
    exact iff_of_false nofun nofun
  | some s => exact controls_iff (elaborateFirst_some_ok_iff.mp h).1

/-- A declaration is well typed exactly if elaboration finds a type and the name is new. -/
theorem checks_declaration_iff {tag : NodeId} {name : Text} {typeName : Option Text}
    {value : Option (Expr NodeId)} {vs : List Variable} :
    (declaration tag name typeName value).Checks (env.context b) vs ↔
      ∃ found d t, env.elaborateOption value b = .ok (found, d) b ∧
        declaredType env.catalog name typeName found = .ok t ∧
        (env.context b).NewVariable name ∧ vs = [⟨name, name, t, false, .node tag⟩] := by
  constructor
  · intro h
    cases h with
    | inferred hv hn =>
      obtain ⟨d, he⟩ := (Expr.hasType_iff _).mp hv
      exact ⟨_, d, _, Env.elaborateOption_some_ok_iff.mpr ⟨_, he, rfl, rfl⟩,
        declaredType_ok_iff.mpr (.inr ⟨rfl, rfl⟩), hn, rfl⟩
    | uninitialized ht hn =>
      exact ⟨none, .empty, _, Env.elaborateOption_none_ok_iff.mpr ⟨rfl, rfl, rfl⟩,
        declaredType_ok_iff.mpr (.inl ⟨_, rfl, ht, by simp⟩), hn, rfl⟩
    | initialized ht hv ha hn =>
      obtain ⟨d, he⟩ := (Expr.hasType_iff _).mp hv
      exact ⟨_, d, _, Env.elaborateOption_some_ok_iff.mpr ⟨_, he, rfl, rfl⟩,
        declaredType_ok_iff.mpr (.inl ⟨_, rfl, ht, by simpa using assignable_iff.mp ha⟩), hn, rfl⟩
  · rintro ⟨found, d, t, hv, ht, hn, rfl⟩
    cases value with
    | none =>
      obtain ⟨rfl, _⟩ := Env.elaborateOption_none_ok_iff.mp hv
      obtain ⟨n, rfl, ht, _⟩ | ⟨_, hf⟩ := declaredType_ok_iff.mp ht
      · exact .uninitialized ht hn
      · cases hf
    | some e =>
      obtain ⟨u, he, rfl, _⟩ := Env.elaborateOption_some_ok_iff.mp hv
      have hu := (Expr.hasType_iff e).mpr ⟨d, he⟩
      obtain ⟨n, rfl, ht, ha⟩ | ⟨rfl, ⟨⟩⟩ := declaredType_ok_iff.mp ht
      · exact .initialized ht hu (assignable_iff.mpr (ha u rfl)) hn
      · exact .inferred hu hn

mutual

/-- A statement that elaboration accepts is well typed and declares what is added to the block. -/
theorem checks_of_elaborate {env : Env} {b b' : Block} (s : Stmt NodeId) {set : Option Ty}
    {d : Resolutions} (h : s.elaborate env b = .ok (set, d) b') :
    ∃ vs, b' = ((env.context b).extend vs).inner ∧ s.Checks (env.context b) vs :=
  match s with
  | expression tag e => by
    obtain ⟨hk, _, rfl, t, he⟩ := elaborate_expression_ok_iff.mp h
    exact ⟨[], Env.extend_nil.symm, .expression hk ((Expr.hasType_iff e).mpr ⟨d, he⟩)⟩
  | declaration tag name typeName value => by
    obtain ⟨found, d₁, t, hv, ht, _, hb, _⟩ := elaborate_declaration_ok_iff.mp h
    obtain ⟨hn, rfl⟩ := (@Env.defineVariable_iff env _ _ _).mp hb
    exact ⟨[_], rfl, checks_declaration_iff.mpr ⟨found, d₁, t, hv, ht, hn, rfl⟩⟩
  | assignment tag receiver value => by
    obtain ⟨rfl, v, d₁, t, d₂, h₁, h₂, hc, ha, _⟩ := elaborate_assignment_ok_iff.mp h
    exact ⟨[], Env.extend_nil.symm, .assignment (Expr.designates_iff.mpr ⟨d₁, h₁⟩) hc
      ((Expr.hasType_iff value).mpr ⟨d₂, h₂⟩) (assignable_iff.mpr ha)⟩
  | ifElse tag condition thenBody elseBody => by
    obtain ⟨hn, _, rfl, d₁, d₂, b₂, d₃, b₃, h₁, h₂, h₃, _⟩ := elaborate_ifElse_ok_iff.mp h
    obtain ⟨vs, _, ht⟩ := checksAll_of_elaborate thenBody h₂
    obtain ⟨ws, _, he⟩ := checksAll_of_elaborate elseBody h₃
    exact ⟨[], Env.extend_nil.symm,
      .ifElse hn ((Expr.hasType_iff condition).mpr ⟨d₁, h₁⟩) ht he⟩
  | forLoop tag initialization condition increment body => by
    obtain ⟨hn, _, control, d₁, b₁, d₂, d₃, d₄, b₄, h₁, h₂, h₃, h₄, _⟩ :=
      elaborate_forLoop_ok_iff.mp h
    obtain ⟨us, rfl, hi, hi'⟩ := checksFirst_of_elaborate initialization h₁
    obtain ⟨vs, rfl, hs, hs'⟩ := checksStep_of_elaborate increment h₃
    obtain ⟨ws, _, hb⟩ := checksAll_of_elaborate body h₄
    rw [← Env.extend_append] at hb
    refine ⟨us ++ vs, (Env.extend_append us vs).symm,
      .forLoop hn hi hi' ((Expr.hasType_iff condition).mpr ⟨d₂, h₂⟩) hs ?_ hb⟩
    intro t tag receiver value v ht
    exact hs' t tag receiver value v ((controls_iff_of_first h₁).mp ht)
  | whileLoop tag condition body => by
    obtain ⟨_, rfl, d₁, d₂, b₂, h₁, h₂, _⟩ := elaborate_whileLoop_ok_iff.mp h
    obtain ⟨vs, _, hb⟩ := checksAll_of_elaborate body h₂
    exact ⟨[], Env.extend_nil.symm, .whileLoop ((Expr.hasType_iff condition).mpr ⟨d₁, h₁⟩) hb⟩
  | ret tag value => by
    obtain ⟨_, rfl, t, wanted, hv, hr, ha⟩ := elaborate_ret_ok_iff.mp h
    exact ⟨[], Env.extend_nil.symm,
      .ret hr ((Expr.hasType_iff value).mpr ⟨d, hv⟩) (assignable_iff.mpr ha)⟩

private theorem checksFirst_of_elaborate {env : Env} {b b' : Block} (o : Option (Stmt NodeId))
    {control : Option Ty} {d : Resolutions}
    (h : elaborateFirst env o b = .ok (control, d) b') :
    ∃ us, b' = ((env.context b).extend us).inner ∧ ChecksOption (env.context b) o us ∧
      ∀ t, Controls (env.context b) o us t → Assignable .comparable t :=
  match o with
  | none => by
    obtain ⟨_, _, rfl⟩ := elaborateFirst_none_ok_iff.mp h
    exact ⟨[], Env.extend_nil.symm, .none, nofun⟩
  | some s => by
    obtain ⟨hs, hc⟩ := elaborateFirst_some_ok_iff.mp h
    obtain ⟨us, rfl, hu⟩ := checks_of_elaborate s hs
    exact ⟨us, rfl, .some hu, fun t ht ↦ assignable_iff.mpr (hc t ((controls_iff hs).mp ht))⟩

private theorem checksStep_of_elaborate {env : Env} {b b' : Block} (o : Option (Stmt NodeId))
    {control : Option Ty} {d : Resolutions} (h : elaborateStep env control o b = .ok d b') :
    ∃ vs, b' = ((env.context b).extend vs).inner ∧ ChecksOption (env.context b) o vs ∧
      ∀ t tag receiver value v, control = some t → o = some (assignment tag receiver value) →
        receiver.Designates (env.context b) v → v.type = t :=
  match o with
  | none => by
    obtain ⟨_, rfl⟩ := elaborateStep_none_ok_iff.mp h
    refine ⟨[], Env.extend_nil.symm, .none, ?_⟩
    intro t tag receiver value v _ ho
    cases ho
  | some s => by
    obtain ⟨set, hs, hc⟩ := elaborateStep_some_ok_iff.mp h
    obtain ⟨vs, rfl, hv⟩ := checks_of_elaborate s hs
    refine ⟨vs, rfl, .some hv, ?_⟩
    rintro t tag receiver value v rfl ⟨⟩ hr
    exact hc rfl t rfl v.type ((controls_iff hs).mp (.assignment vs hr))

private theorem checksAll_of_elaborate {env : Env} {b b' : Block} (ss : List (Stmt NodeId))
    {d : Resolutions} (h : elaborateAll env ss b = .ok d b') :
    ∃ vs, b' = ((env.context b).extend vs).inner ∧ ChecksAll (env.context b) ss vs :=
  match ss with
  | [] => by
    obtain ⟨_, rfl⟩ := elaborateAll_nil_ok_iff.mp h
    exact ⟨[], Env.extend_nil.symm, .nil⟩
  | s :: ss => by
    obtain ⟨set, d₁, b₁, d₂, hs, hss, _⟩ := elaborateAll_cons_ok_iff.mp h
    obtain ⟨vs, rfl, hv⟩ := checks_of_elaborate s hs
    obtain ⟨ws, rfl, hw⟩ := checksAll_of_elaborate ss hss
    exact ⟨vs ++ ws, (Env.extend_append vs ws).symm, .cons hv hw⟩

end

mutual

/-- A well-typed statement is accepted by elaboration, which adds to the block what it declares. -/
theorem elaborate_of_checks {env : Env} {b : Block} (s : Stmt NodeId) {vs : List Variable}
    (h : s.Checks (env.context b) vs) :
    ∃ set d, s.elaborate env b = .ok (set, d) ((env.context b).extend vs).inner :=
  match s with
  | expression tag e => by
    cases h with | expression hk he
    obtain ⟨d, hd⟩ := (Expr.hasType_iff e).mp he
    exact ⟨none, d, elaborate_expression_ok_iff.mpr ⟨hk, rfl, Env.extend_nil, _, hd⟩⟩
  | declaration tag name typeName value => by
    obtain ⟨found, d, t, hv, ht, hn, rfl⟩ := checks_declaration_iff.mp h
    have hb := (@Env.defineVariable_iff env b ⟨name, name, t, false, .node tag⟩ _).mpr ⟨hn, rfl⟩
    exact ⟨_, _, elaborate_declaration_ok_iff.mpr ⟨found, d, t, hv, ht, rfl, hb, rfl⟩⟩
  | assignment tag receiver value => by
    cases h with | assignment hr hc hv ha
    obtain ⟨d₁, h₁⟩ := Expr.designates_iff.mp hr
    obtain ⟨d₂, h₂⟩ := (Expr.hasType_iff value).mp hv
    exact ⟨_, _, elaborate_assignment_ok_iff.mpr
      ⟨Env.extend_nil, _, d₁, _, d₂, h₁, h₂, hc, assignable_iff.mp ha, rfl, rfl⟩⟩
  | ifElse tag condition thenBody elseBody => by
    cases h with | ifElse hn hc ht he
    obtain ⟨d₁, h₁⟩ := (Expr.hasType_iff condition).mp hc
    rw [Env.nested_context] at ht he
    obtain ⟨d₂, h₂⟩ := elaborateAll_of_checks thenBody ht
    obtain ⟨d₃, h₃⟩ := elaborateAll_of_checks elseBody he
    exact ⟨none, _, elaborate_ifElse_ok_iff.mpr
      ⟨hn, rfl, Env.extend_nil, d₁, d₂, _, d₃, _, h₁, h₂, h₃, rfl⟩⟩
  | forLoop tag initialization condition increment body => by
    cases h with | forLoop hn hi hi' hc hs hs' hb
    obtain ⟨control, d₁, h₁⟩ := elaborateFirst_of_checks initialization hi hi'
    obtain ⟨d₂, h₂⟩ := (Expr.hasType_iff condition).mp hc
    obtain ⟨d₃, h₃⟩ := elaborateStep_of_checks increment hs fun t tag receiver value v ht ↦
      hs' t tag receiver value v ((controls_iff_of_first h₁).mpr ht)
    rw [Env.nested_extend, Env.extend_append] at hb
    obtain ⟨d₄, h₄⟩ := elaborateAll_of_checks body hb
    rw [Env.extend_append]
    exact ⟨none, _, elaborate_forLoop_ok_iff.mpr
      ⟨hn, rfl, control, d₁, _, d₂, d₃, d₄, _, h₁, h₂, h₃, h₄, rfl⟩⟩
  | whileLoop tag condition body => by
    cases h with | whileLoop hc hb
    obtain ⟨d₁, h₁⟩ := (Expr.hasType_iff condition).mp hc
    rw [Env.nested_context] at hb
    obtain ⟨d₂, h₂⟩ := elaborateAll_of_checks body hb
    exact ⟨none, _, elaborate_whileLoop_ok_iff.mpr
      ⟨rfl, Env.extend_nil, d₁, d₂, _, h₁, h₂, rfl⟩⟩
  | ret tag value => by
    cases h with | ret hr hv ha
    obtain ⟨d, hd⟩ := (Expr.hasType_iff value).mp hv
    exact ⟨none, d, elaborate_ret_ok_iff.mpr
      ⟨rfl, Env.extend_nil, _, _, hd, hr, assignable_iff.mp ha⟩⟩

private theorem elaborateFirst_of_checks {env : Env} {b : Block} (o : Option (Stmt NodeId))
    {us : List Variable} (h : ChecksOption (env.context b) o us)
    (hc : ∀ t, Controls (env.context b) o us t → Assignable .comparable t) :
    ∃ control d, elaborateFirst env o b = .ok (control, d) ((env.context b).extend us).inner :=
  match o with
  | none => by
    cases h
    exact ⟨none, .empty, elaborateFirst_none_ok_iff.mpr ⟨rfl, rfl, Env.extend_nil⟩⟩
  | some s => by
    cases h with | some hs
    obtain ⟨set, d, hd⟩ := elaborate_of_checks s hs
    refine ⟨set, d, elaborateFirst_some_ok_iff.mpr ⟨hd, fun t ht ↦ ?_⟩⟩
    exact assignable_iff.mp (hc t ((controls_iff hd).mpr ht))

private theorem elaborateStep_of_checks {env : Env} {b : Block} (o : Option (Stmt NodeId))
    {control : Option Ty} {vs : List Variable} (h : ChecksOption (env.context b) o vs)
    (hc : ∀ t tag receiver value v, control = some t → o = some (assignment tag receiver value) →
      receiver.Designates (env.context b) v → v.type = t) :
    ∃ d, elaborateStep env control o b = .ok d ((env.context b).extend vs).inner :=
  match o with
  | none => by
    cases h
    exact ⟨.empty, elaborateStep_none_ok_iff.mpr ⟨rfl, Env.extend_nil⟩⟩
  | some s => by
    cases h with | some hs
    obtain ⟨set, d, hd⟩ := elaborate_of_checks s hs
    refine ⟨d, elaborateStep_some_ok_iff.mpr ⟨set, hd, fun hk c hcontrol t ht ↦ ?_⟩⟩
    have hset := (controls_iff hd).mpr ht
    cases hset with
    | declaration => cases hk
    | assignment _ hv => exact hc c _ _ _ _ hcontrol rfl hv

private theorem elaborateAll_of_checks {env : Env} {b : Block} (ss : List (Stmt NodeId))
    {vs : List Variable} (h : ChecksAll (env.context b) ss vs) :
    ∃ d, elaborateAll env ss b = .ok d ((env.context b).extend vs).inner :=
  match ss with
  | [] => by
    cases h
    exact ⟨.empty, elaborateAll_nil_ok_iff.mpr ⟨rfl, Env.extend_nil⟩⟩
  | s :: ss => by
    cases h with | cons hs hss
    obtain ⟨set, d₁, h₁⟩ := elaborate_of_checks s hs
    obtain ⟨d₂, h₂⟩ := elaborateAll_of_checks ss hss
    rw [Env.extend_append]
    exact ⟨_, elaborateAll_cons_ok_iff.mpr ⟨set, d₁, _, d₂, h₁, h₂, rfl⟩⟩

end

end Stmt

/-! ### Fields, methods and sources -/

/-- A field is well typed exactly if elaboration succeeds, and it is the variable that is added. -/
theorem Field.checks_iff {d : Field NodeId} {b' : Block} :
    (∃ r, d.elaborate env b = .ok r b') ↔
      ∃ v, d.Checks (env.context b) v ∧ b' = ((env.context b).extend [v]).inner := by
  simp only [elaborate_ok_iff, requireValue_ok_iff, @Env.defineVariable_iff env b]
  constructor
  · rintro ⟨r, t, found, d₁, ht, hv, ⟨ha, hc⟩, ⟨hn, rfl⟩, _⟩
    refine ⟨_, ?_, rfl⟩
    obtain ⟨tag, name, typeName, constant, _ | e⟩ := d
    · obtain ⟨rfl, _⟩ := Env.elaborateOption_none_ok_iff.mp hv
      obtain rfl := hc rfl
      exact .uninitialized ht hn
    · obtain ⟨u, he, rfl, _⟩ := Env.elaborateOption_some_ok_iff.mp hv
      exact .initialized ht ((Expr.hasType_iff e).mpr ⟨d₁, he⟩) (assignable_iff.mpr (ha u rfl)) hn
  · rintro ⟨v, h, rfl⟩
    cases h with
    | uninitialized ht hn =>
      exact ⟨_, _, none, .empty, ht, Env.elaborateOption_none_ok_iff.mpr ⟨rfl, rfl, rfl⟩,
        ⟨by simp, fun _ ↦ rfl⟩, ⟨hn, rfl⟩, rfl⟩
    | @initialized _ _ _ _ _ _ found ht hv ha hn =>
      obtain ⟨d, he⟩ := (Expr.hasType_iff _).mp hv
      exact ⟨_, _, some found, d, ht, Env.elaborateOption_some_ok_iff.mpr ⟨_, he, rfl, rfl⟩,
        ⟨by simpa using assignable_iff.mp ha, nofun⟩, ⟨hn, rfl⟩, rfl⟩

private theorem Field.checksAll_iff {ds : List (Field NodeId)} {b b' : Block} :
    (∃ r, elaborateAll env ds b = .ok r b') ↔
      ∃ vs, ChecksAll (env.context b) ds vs ∧ b' = ((env.context b).extend vs).inner := by
  induction ds generalizing b with
  | nil =>
    constructor
    · rintro ⟨r, h⟩
      obtain ⟨_, rfl⟩ := elaborateAll_nil_ok_iff.mp h
      exact ⟨[], .nil, Env.extend_nil.symm⟩
    · rintro ⟨vs, h, rfl⟩
      cases h
      exact ⟨.empty, elaborateAll_nil_ok_iff.mpr ⟨rfl, Env.extend_nil⟩⟩
  | cons d ds ih =>
    constructor
    · rintro ⟨r, h⟩
      obtain ⟨d₁, b₁, d₂, h₁, h₂, _⟩ := elaborateAll_cons_ok_iff.mp h
      obtain ⟨v, hd, rfl⟩ := checks_iff.mp ⟨d₁, h₁⟩
      obtain ⟨vs, hds, rfl⟩ := ih.mp ⟨d₂, h₂⟩
      exact ⟨v :: vs, .cons hd hds, (Env.extend_append [v] vs).symm⟩
    · rintro ⟨vs, h, rfl⟩
      cases h with | @cons _ _ _ v vs hd hds
      obtain ⟨d₁, h₁⟩ := checks_iff.mpr ⟨v, hd, rfl⟩
      obtain ⟨d₂, h₂⟩ := ih.mpr ⟨vs, hds, Env.extend_append [v] vs⟩
      exact ⟨_, elaborateAll_cons_ok_iff.mpr ⟨d₁, _, d₂, h₁, h₂, rfl⟩⟩

private theorem Method.returns_iff {name : Option Text} {t : Ty} :
    Returns (env.context b) name t ↔ env.catalog.resolveReturn name = .ok t := by
  rw [Catalog.resolveReturn_ok_iff]
  constructor
  · rintro (_ | h)
    · exact .inr ⟨rfl, rfl⟩
    · exact .inl ⟨_, rfl, h⟩
  · rintro (⟨n, rfl, h⟩ | ⟨rfl, rfl⟩)
    · exact .named h
    · exact .nothing

/-- The context of the body of a method that is defined already. -/
theorem Env.body_define (name internalName : Text) (ps : List Ty) (t : Ty) (site : Site)
    (vs : List Variable) :
    ((env.context b).define ⟨name, internalName, ps, t, site⟩).body vs t =
      (env.inMethod ((env.context b).define ⟨name, internalName, ps, t, site⟩).inner
        ⟨name, internalName, ps, t, site⟩).context ⟨vs, []⟩ := rfl

/-- A method is well typed exactly if elaboration succeeds, and it is the function that is added. -/
theorem Method.checks_iff {m : Method NodeId} {b' : Block} :
    (∃ r, m.elaborate env b = .ok r b') ↔
      ∃ f, m.Checks (env.context b) f ∧ b' = ((env.context b).define f).inner := by
  constructor
  · rintro ⟨r, h⟩
    obtain ⟨f, d₁, b₂, hf, hb, hd, hs, _⟩ := elaborate_ok_iff.mp h
    obtain ⟨hl, ps, t, hp, ht, rfl⟩ := signature_ok_iff.mp hf
    obtain ⟨hn, rfl⟩ := (@Env.defineFunction_iff env b _ _).mp hb
    obtain ⟨vs, _, hv⟩ := Stmt.checksAll_of_elaborate m.body hs
    exact ⟨_, .intro hl hp (returns_iff.mpr ht) rfl hn hd hv, rfl⟩
  · rintro ⟨_, ⟨hl, hp, ht, rfl, hn, hd, hb⟩, rfl⟩
    rw [Env.body_define] at hb
    obtain ⟨d, hs⟩ := Stmt.elaborateAll_of_checks m.body hb
    exact ⟨_, elaborate_ok_iff.mpr ⟨_, d, _,
      signature_ok_iff.mpr ⟨hl, _, _, hp, returns_iff.mp ht, rfl⟩,
      Env.defineFunction_iff.mpr ⟨hn, rfl⟩, hd, hs, rfl⟩⟩

private theorem Method.checksAll_iff {ms : List (Method NodeId)} {b b' : Block} :
    (∃ r, elaborateAll env ms b = .ok r b') ↔
      ∃ fs, ChecksAll (env.context b) ms fs ∧
        b' = (fs.foldl Context.define (env.context b)).inner := by
  induction ms generalizing b with
  | nil =>
    constructor
    · rintro ⟨r, h⟩
      obtain ⟨_, rfl⟩ := elaborateAll_nil_ok_iff.mp h
      exact ⟨[], .nil, rfl⟩
    · rintro ⟨fs, h, rfl⟩
      cases h
      exact ⟨.empty, elaborateAll_nil_ok_iff.mpr ⟨rfl, rfl⟩⟩
  | cons m ms ih =>
    constructor
    · rintro ⟨r, h⟩
      obtain ⟨d₁, b₁, d₂, h₁, h₂, _⟩ := elaborateAll_cons_ok_iff.mp h
      obtain ⟨f, hm, rfl⟩ := checks_iff.mp ⟨d₁, h₁⟩
      obtain ⟨fs, hms, rfl⟩ := ih.mp ⟨d₂, h₂⟩
      exact ⟨f :: fs, .cons hm hms, rfl⟩
    · rintro ⟨fs, h, rfl⟩
      cases h with | @cons _ _ _ f fs hm hms
      obtain ⟨d₁, h₁⟩ := checks_iff.mpr ⟨f, hm, rfl⟩
      obtain ⟨d₂, h₂⟩ := ih.mpr ⟨fs, hms, rfl⟩
      exact ⟨_, elaborateAll_cons_ok_iff.mpr ⟨d₁, _, d₂, h₁, h₂, rfl⟩⟩

/-- Defining functions changes the innermost block only. -/
theorem Env.foldl_define (fs : List Function) :
    fs.foldl Context.define (env.context b) =
      env.context (fs.foldl Context.define (env.context b)).inner := by
  induction fs generalizing b with
  | nil => rfl
  | cons f fs ih => exact ih

private theorem Source.checks_iff {s : Source NodeId} :
    s.Checks (env.context b) ↔ ∃ r b', s.elaborate env b = .ok r b' := by
  constructor
  · rintro ⟨hf, hm, hs, hr⟩
    obtain ⟨d₁, h₁⟩ := Field.checksAll_iff.mpr ⟨_, hf, rfl⟩
    obtain ⟨d₂, h₂⟩ := Method.checksAll_iff.mpr ⟨_, hm, rfl⟩
    rw [show (env.context b).extend _ = env.context ((env.context b).extend _).inner from rfl,
      Env.foldl_define] at hs
    exact ⟨_, _, elaborate_ok_iff.mpr ⟨d₁, _, d₂, h₁, h₂, ⟨_, sees_iff.mp hs, hr⟩, rfl⟩⟩
  · rintro ⟨r, b', h⟩
    obtain ⟨d₁, b₁, d₂, h₁, h₂, ⟨start, hs, hr⟩, _⟩ := elaborate_ok_iff.mp h
    obtain ⟨vs, hf, rfl⟩ := Field.checksAll_iff.mp ⟨d₁, h₁⟩
    obtain ⟨fs, hm, rfl⟩ := Method.checksAll_iff.mp ⟨d₂, h₂⟩
    refine .intro hf hm ?_ hr
    rw [show (env.context b).extend vs = env.context ((env.context b).extend vs).inner from rfl,
      Env.foldl_define]
    exact sees_iff.mpr hs

/-- A tree is well typed exactly if elaboration succeeds. -/
theorem Node.checks_iff {tree : Node NodeId} :
    tree.Checks (env.context b) ↔ ∃ r b', tree.elaborate env b = .ok r b' := by
  cases tree with
  | source s =>
    constructor
    · rintro ⟨h⟩
      exact Source.checks_iff.mp h
    · exact fun h ↦ .source (Source.checks_iff.mpr h)
  | field d =>
    constructor
    · intro h
      cases h with | field h
      obtain ⟨r, hr⟩ := Field.checks_iff.mpr ⟨_, h, rfl⟩
      exact ⟨r, _, hr⟩
    · rintro ⟨r, b', h⟩
      obtain ⟨v, hv, _⟩ := Field.checks_iff.mp ⟨r, h⟩
      exact .field hv
  | method m =>
    constructor
    · intro h
      cases h with | method h
      obtain ⟨r, hr⟩ := Method.checks_iff.mpr ⟨_, h, rfl⟩
      exact ⟨r, _, hr⟩
    · rintro ⟨r, b', h⟩
      obtain ⟨f, hf, _⟩ := Method.checks_iff.mp ⟨r, h⟩
      exact .method hf
  | stmt s =>
    simp only [elaborate_stmt_ok_iff]
    constructor
    · intro h
      cases h with | stmt h
      obtain ⟨set, r, hr⟩ := Stmt.elaborate_of_checks s h
      exact ⟨r, _, set, hr⟩
    · rintro ⟨r, b', set, h⟩
      obtain ⟨vs, _, hv⟩ := Stmt.checks_of_elaborate s h
      exact .stmt hv
  | expr e =>
    simp only [elaborate_expr_ok_iff]
    constructor
    · intro h
      cases h with | expr h
      obtain ⟨r, hr⟩ := (Expr.hasType_iff e).mp h
      exact ⟨r, b, _, hr, rfl⟩
    · rintro ⟨r, b', t, h, _⟩
      exact .expr ((Expr.hasType_iff e).mpr ⟨r, h⟩)

end Contexts

/-! ### Analysis -/

namespace Symbols

/-- The context of a tree that is analysed inside a scope, or inside none. -/
def context (s : Symbols) (parent : Option ScopeId) : Context where
  inner := s.topBlock
  outer := s.scopes.around parent
  returns := none
  catalog := s.catalog
  members := (s.openScope parent).1.scopes.members

/-- A tree is well typed exactly if its analysis succeeds, and the type that is recorded for an
expression is the only one it has.

The scopes with the members of the types in the catalog are meant to exist before the analysis opens
its own, as they do in every store that the program makes (`Symbols.Allocated`). -/
theorem analyze_ok_iff_checks {α : Type} (s : Symbols) (parent : Option ScopeId) (tree : Node α)
    (n : NodeId) :
    ((∃ r, (s.analyze parent (tree.label n)).result = .ok r) ↔
      (tree.label n).Checks (s.context parent)) ∧
    ∀ e r, tree.label n = .expr e → (s.analyze parent (tree.label n)).result = .ok r →
      ∃ t, r.type? e.tag = some t ∧ ∀ u, e.HasType (s.context parent) u ↔ u = t := by
  have h := Node.nodup_ids_label n tree
  constructor
  · simp only [analyze_ok_iff_elaborate h]
    exact (@Node.checks_iff (s.top parent) s.topBlock (tree.label n)).symm
  · intro e r he hr
    have hw := (covers_of_analyze h hr).within h
    rw [analyze_ok_iff_elaborate h, he] at hr
    obtain ⟨b, hb⟩ := hr
    obtain ⟨t, ht, _⟩ := Node.elaborate_expr_ok_iff.mp hb
    have hj : e.HasType ((s.top parent).context s.topBlock) t :=
      (Expr.hasType_iff e).mpr ⟨r, ht⟩
    refine ⟨t, Expr.type?_of_elaborate ht hw, fun u ↦ ⟨fun hu ↦ (hj.unique hu).symm, ?_⟩⟩
    rintro rfl
    exact hj

end Symbols

/-- Points, which can be scaled by a whole number, and a variable `p` that is one. -/
def plane : Symbols :=
  let point : ObjectType := ⟨0, "Point", "Point", 0⟩
  let scale : Function := ⟨"scale", "Point.scale", [.object point, .integer], .decimal, .scope 0⟩
  { scopes := ⟨[⟨none, ⟨[⟨"p", "p", .object point, false, .scope 1⟩], []⟩⟩, ⟨none, ⟨[], [scale]⟩⟩]⟩
    catalog := ⟨Catalog.builtins.types ++ [.object point]⟩
    nextType := 1
    nextNode := 0 }

/-- The point `p` scaled by a sum. -/
def scaled : Expr Unit :=
  .call () (some (.access () none "p")) "scale"
    [.binary () "+" (.literal () (.integer 1)) (.literal () (.integer 2))]

/-- A scaled coordinate has the type Decimal and no other. -/
theorem scaled_hasType_decimal :
    ∃ r, (plane.analyze (some 1) ((Node.expr scaled).label 0)).result = .ok r ∧
      ((Node.expr scaled).label 0).Checks (plane.context (some 1)) ∧
      r.type? 0 = some .decimal ∧
      ∀ u, (scaled.label 0).HasType (plane.context (some 1)) u ↔ u = .decimal := by
  have hs : ((plane.analyze (some 1) ((Node.expr scaled).label 0)).result.toOption.bind
      fun r ↦ r.type? 0) = some .decimal := by decide +kernel
  cases hr : (plane.analyze (some 1) ((Node.expr scaled).label 0)).result with
  | error e =>
    rw [hr] at hs
    cases hs
  | ok r =>
    rw [hr] at hs
    have h := Symbols.analyze_ok_iff_checks plane (some 1) (.expr scaled) 0
    obtain ⟨t, ht, hu⟩ := h.2 (scaled.label 0) r rfl hr
    cases ht.symm.trans hs
    exact ⟨r, rfl, h.1.mp ⟨r, hr⟩, hs, hu⟩

end TreeCheck
