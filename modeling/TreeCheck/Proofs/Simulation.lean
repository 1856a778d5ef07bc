import TreeCheck.Proofs.Table

/-!
# Analysis follows elaboration

On a table that is ready for a tree, analysis ends as elaboration does: with the same error, or with
the table to which elaboration's entries have been added. It cannot misuse the table. What analysis
reads back from the table is what elaboration has at hand.
-/

namespace TreeCheck

open Resolutions (Ready)

variable {α β γ δ : Type}

/-! ### Expressions -/

/-- A run on a table ends as `y` does, and where both succeed the results are related by `Q`. -/
def Follows (x : EStateM.Result Failure Resolutions α) (y : Except ProgramError β)
    (Q : α → Resolutions → β → Prop) : Prop :=
  match y with
  | .ok b => ∃ a r, x = .ok a r ∧ Q a r b
  | .error e => ∃ r, x = .error (.error e) r

namespace Follows

variable {r : Resolutions}

private theorem bind {x : EStateM Failure Resolutions α} {f : α → EStateM Failure Resolutions γ}
    {y : Except ProgramError β} {g : β → Except ProgramError δ} {Q : α → Resolutions → β → Prop}
    {P : γ → Resolutions → δ → Prop} (h : Follows (x r) y Q)
    (hf : ∀ a r' b, y = .ok b → Q a r' b → Follows (f a r') (g b) P) :
    Follows ((x >>= f) r) (y >>= g) P := by
  change Follows (EStateM.bind x f r) _ _
  unfold EStateM.bind
  cases y with
  | error e =>
    obtain ⟨r', hx⟩ := h
    rw [hx]
    exact ⟨r', rfl⟩
  | ok b =>
    obtain ⟨a, r', hx, hq⟩ := h
    rw [hx]
    exact hf a r' b rfl hq

private theorem obey (x : Except ProgramError α) :
    Follows (TreeCheck.obey x r) x fun a r' b ↦ a = b ∧ r' = r := by
  cases x with
  | error e => exact ⟨r, rfl⟩
  | ok a => exact ⟨a, r, rfl, rfl, rfl⟩

/-- A rule comes before anything is written. -/
theorem obey_bind {x : Except ProgramError β} {f : β → EStateM Failure Resolutions γ}
    {g : β → Except ProgramError δ} {P : γ → Resolutions → δ → Prop}
    (hf : ∀ b, x = .ok b → Follows (f b r) (g b) P) :
    Follows ((TreeCheck.obey x >>= f) r) (x >>= g) P := by
  refine bind (obey x) ?_
  rintro _ _ b hb ⟨rfl, rfl⟩
  exact hf _ hb

end Follows

private theorem recordType_of_unwritten {r : Resolutions} {e : Expr NodeId} (t : Ty)
    (h : r.type? e.tag = none) : recordType e t r = .ok t (.ofType e.tag t ++ r) := by
  have hs : r.setType (.expr e) t = .ok (.ofType e.tag t ++ r) := by
    unfold Resolutions.setType
    rw [if_neg (by simp [Node.tag, h])]
    rfl
  have ht : trust (r.setType (.expr e) t) r = .ok (.ofType e.tag t ++ r) r := by
    rw [hs]
    rfl
  exact run_bind_of_ok ht

private theorem recordBinding_of_unwritten {r : Resolutions} {node : Node NodeId} (b : Binding)
    (h : r.binding? node.tag = none) :
    recordBinding node b r = .ok () (.ofBinding node.tag b ++ r) := by
  have hs : r.setBinding node b = .ok (.ofBinding node.tag b ++ r) := by
    unfold Resolutions.setBinding
    rw [if_neg (by simp [h])]
    rfl
  have ht : trust (r.setBinding node b) r = .ok (.ofBinding node.tag b ++ r) r := by
    rw [hs]
    rfl
  exact run_bind_of_ok ht

/-- The two entries of an access or a call, one after the other. -/
theorem recordBound_of_ready {r : Resolutions} {e : Expr NodeId} (b : Binding) (t : Ty)
    (h : r.Ready [.expr e]) :
    (recordBinding (.expr e) b >>= fun _ ↦ recordType e t) r = .ok t (.ofBound e.tag b t ++ r) := by
  rw [run_bind_of_ok (recordBinding_of_unwritten b h.binding?_eq_none)]
  refine recordType_of_unwritten t ?_
  rw [Resolutions.type?_append]
  exact h.type?_eq_none

namespace Expr

variable {scopes : Scopes} {chain : Chain}

mutual

/-- Finding the type of an expression follows its elaboration. -/
theorem infer_follows (e : Expr NodeId) {r : Resolutions} (h : r.Ready e.nodes) :
    Follows (e.infer scopes chain r) (e.elaborate scopes chain) fun t r' p ↦
      t = p.1 ∧ r' = p.2 ++ r := by
  match e with
  | literal tag value =>
    simp only [infer, elaborate]
    refine Follows.obey_bind fun t _ ↦ ?_
    exact ⟨t, _, recordType_of_unwritten t h.type?_eq_none, rfl, rfl⟩
  | group tag inner =>
    simp only [infer, elaborate]
    refine Follows.obey_bind fun _ _ ↦ ?_
    refine Follows.bind (infer_follows inner h.tail) ?_
    rintro t _ ⟨_, d⟩ hi ⟨rfl, rfl⟩
    have hr := h.root (covers_of_elaborate hi)
    exact ⟨t, _, recordType_of_unwritten t hr.type?_eq_none, rfl,
      (Resolutions.append_assoc _ _ _).symm⟩
  | binary tag operator left right =>
    simp only [infer, elaborate]
    refine Follows.bind (infer_follows left h.tail.left) ?_
    rintro t₁ _ ⟨_, d₁⟩ hl ⟨rfl, rfl⟩
    have hcl := covers_of_elaborate hl
    refine Follows.bind (infer_follows right (h.tail.right hcl)) ?_
    rintro t₂ _ ⟨_, d₂⟩ hr ⟨rfl, rfl⟩
    refine Follows.obey_bind fun t _ ↦ ?_
    have hn := h.root (hcl.append (covers_of_elaborate hr))
    rw [Resolutions.append_assoc] at hn
    exact ⟨t, _, recordType_of_unwritten t hn.type?_eq_none, rfl, by
      simp only [Resolutions.append_assoc]
      rfl⟩
  | access tag none name =>
    simp only [infer, elaborate]
    refine Follows.obey_bind fun v _ ↦ ?_
    exact ⟨v.type, _, recordBound_of_ready _ _ h, rfl, rfl⟩
  | access tag (some receiver) name =>
    simp only [infer, elaborate]
    refine Follows.bind (infer_follows receiver h.tail) ?_
    rintro owner _ ⟨_, d⟩ hr ⟨rfl, rfl⟩
    refine Follows.obey_bind fun v _ ↦ ?_
    exact ⟨v.type, _, recordBound_of_ready _ _ (h.root (covers_of_elaborate hr)), rfl,
      (Resolutions.append_assoc _ _ _).symm⟩
  | call tag none name arguments =>
    simp only [infer, elaborate]
    refine Follows.bind (inferAll_follows arguments h.tail) ?_
    rintro ts _ ⟨_, d⟩ ha ⟨rfl, rfl⟩
    refine Follows.obey_bind fun f _ ↦ ?_
    refine Follows.obey_bind fun _ _ ↦ ?_
    exact ⟨f.returns, _, recordBound_of_ready _ _ (h.root (covers_of_elaborateAll ha)), rfl,
      (Resolutions.append_assoc _ _ _).symm⟩
  | call tag (some receiver) name arguments =>
    simp only [infer, elaborate]
    refine Follows.bind (inferAll_follows arguments h.tail.swap.left) ?_
    rintro ts _ ⟨_, d₁⟩ ha ⟨rfl, rfl⟩
    have hca := covers_of_elaborateAll ha
    refine Follows.bind (infer_follows receiver (h.tail.swap.right hca)) ?_
    rintro owner _ ⟨_, d₂⟩ hr ⟨rfl, rfl⟩
    refine Follows.obey_bind fun f _ ↦ ?_
    refine Follows.obey_bind fun _ _ ↦ ?_
    have hn := h.root ((covers_of_elaborate hr).join hca)
    rw [Resolutions.append_assoc] at hn
    exact ⟨f.returns, _, recordBound_of_ready _ _ hn, rfl, by
      simp only [Resolutions.append_assoc]
      rfl⟩

/-- Finding the types of expressions follows their elaboration. -/
theorem inferAll_follows (es : List (Expr NodeId)) {r : Resolutions} (h : r.Ready (nodesAll es)) :
    Follows (inferAll scopes chain es r) (elaborateAll scopes chain es) fun ts r' p ↦
      ts = p.1 ∧ r' = p.2 ++ r := by
  match es with
  | [] => exact ⟨[], r, rfl, rfl, rfl⟩
  | e :: es =>
    simp only [inferAll, elaborateAll]
    refine Follows.bind (infer_follows e h.left) ?_
    rintro t _ ⟨_, d₁⟩ he ⟨rfl, rfl⟩
    refine Follows.bind (inferAll_follows es (h.right (covers_of_elaborate he))) ?_
    rintro ts _ ⟨_, d₂⟩ hes ⟨rfl, rfl⟩
    exact ⟨t :: ts, _, rfl, rfl, (Resolutions.append_assoc _ _ _).symm⟩

end

end Expr

/-! ### Statements -/

/-- A run on a block and a table ends as `y` does, with the same block, and where both succeed the
results are related by `Q`. -/
def Tracks (x : EStateM.Result Failure State α) (y : EStateM.Result ProgramError Block β)
    (Q : α → Resolutions → β → Prop) : Prop :=
  match y with
  | .ok c b => ∃ a r, x = .ok a ⟨b, r⟩ ∧ Q a r c
  | .error e b => ∃ r, x = .error (.error e) ⟨b, r⟩

namespace Tracks

variable {b : Block} {r : Resolutions} {P : γ → Resolutions → δ → Prop}

/-- Runs that track one another, done in sequence, do so as a whole. -/
theorem bind {x : CheckM α} {f : α → CheckM γ} {y : ElabM β} {g : β → ElabM δ}
    {Q : α → Resolutions → β → Prop} (h : Tracks (x ⟨b, r⟩) (y b) Q)
    (hf : ∀ a r' c b', y b = .ok c b' → Q a r' c → Tracks (f a ⟨b', r'⟩) (g c b') P) :
    Tracks ((x >>= f) ⟨b, r⟩) ((y >>= g) b) P := by
  change Tracks (EStateM.bind x f _) (EStateM.bind y g b) _
  unfold EStateM.bind
  cases hy : y b with
  | error e b' =>
    rw [hy] at h
    obtain ⟨r', hx⟩ := h
    rw [hx]
    exact ⟨r', rfl⟩
  | ok c b' =>
    rw [hy] at h
    obtain ⟨a, r', hx, hq⟩ := h
    rw [hx]
    exact hf a r' c b' hy hq

/-- A step at the end of a run, where elaboration still puts its entries together. -/
theorem last {s : State} {x : CheckM α} {y : ElabM β} {g : β → ElabM δ}
    {Q : α → Resolutions → β → Prop} {P : α → Resolutions → δ → Prop}
    (h : Tracks (x s) (y b) Q)
    (hg : ∀ a r' c b', Q a r' c → Tracks (.ok a ⟨b', r'⟩) (g c b') P) :
    Tracks (x s) ((y >>= g) b) P := by
  change Tracks _ (EStateM.bind y g b) _
  unfold EStateM.bind
  cases hy : y b with
  | error e b' =>
    rw [hy] at h
    exact h
  | ok c b' =>
    rw [hy] at h
    obtain ⟨a, r', hx, hq⟩ := h
    rw [hx]
    exact hg a r' c b' hq

private theorem obey_bind {x : Except ProgramError β} {f : β → CheckM γ} {g : β → ElabM δ}
    (hf : ∀ c, x = .ok c → Tracks (f c ⟨b, r⟩) (g c b) P) :
    Tracks ((obey x >>= f) ⟨b, r⟩) ((ElabM.obey x >>= g) b) P := by
  cases x with
  | error e => exact ⟨r, rfl⟩
  | ok c => exact hf c rfl

/-- A rule at the end of a run. -/
theorem obey_last {x : Except ProgramError α} {g : α → ElabM δ} {P : α → Resolutions → δ → Prop}
    (hf : ∀ c, x = .ok c → Tracks (.ok c ⟨b, r⟩) (g c b) P) :
    Tracks (obey x ⟨b, r⟩) ((ElabM.obey x >>= g) b) P := by
  cases x with
  | error e => exact ⟨r, rfl⟩
  | ok c => exact hf c rfl

/-- A definition changes the block and leaves the table. -/
theorem define_bind {d : Block → Except ProgramError Block} {f : Unit → CheckM γ}
    {g : Unit → ElabM δ} (hf : ∀ b', Tracks (f () ⟨b', r⟩) (g () b') P) :
    Tracks ((define d >>= f) ⟨b, r⟩) ((ElabM.define d >>= g) b) P := by
  have hd : Tracks (define d ⟨b, r⟩) (ElabM.define d b) fun _ r' _ ↦ r' = r := by
    unfold ElabM.define
    change Tracks ((obey (d b) >>= fun block ↦ set (⟨block, r⟩ : State)) ⟨b, r⟩) _ _
    cases d b with
    | error e => exact ⟨r, rfl⟩
    | ok b' => exact ⟨(), r, rfl, rfl⟩
  refine bind hd ?_
  rintro _ _ _ b' _ rfl
  exact hf b'

/-- A block of its own is given up where it ends, in any case. -/
theorem within_block {block : Block} {x : CheckM α} {y : ElabM β} {Q : α → Resolutions → β → Prop}
    (h : Tracks (x ⟨block, r⟩) (y block) Q) :
    Tracks (within block x ⟨b, r⟩) (ElabM.within block y b) Q := by
  unfold within ElabM.within
  cases hy : y block with
  | error e b' =>
    rw [hy] at h
    obtain ⟨r', hx⟩ := h
    rw [hx]
    exact ⟨r', rfl⟩
  | ok c b' =>
    rw [hy] at h
    obtain ⟨a, r', hx, hq⟩ := h
    rw [hx]
    exact ⟨a, r', rfl, hq⟩

private theorem nested_block {env : Env} {x : Env → CheckM α} {y : Env → ElabM β}
    {Q : α → Resolutions → β → Prop}
    (h : Tracks (x (env.inside b) ⟨.empty, r⟩) (y (env.inside b) .empty) Q) :
    Tracks (env.nested x ⟨b, r⟩) (env.elaborateNested y b) Q := by
  change Tracks (within .empty (x (env.inside b)) ⟨b, r⟩)
    (ElabM.within .empty (y (env.inside b)) b) Q
  exact within_block h

/-- Finding the type of an expression follows its elaboration in the same blocks. -/
theorem infer_expr {env : Env} {e : Expr NodeId} (h : r.Ready e.nodes) :
    Tracks (env.infer e ⟨b, r⟩) (env.elaborate e b) fun t r' p ↦ t = p.1 ∧ r' = p.2 ++ r := by
  have hf := @Expr.infer_follows env.scopes (b :: env.outer) e r h
  change Tracks (withResolutions (e.infer env.scopes (b :: env.outer)) ⟨b, r⟩)
    (ElabM.obey (e.elaborate env.scopes (b :: env.outer)) b) _
  unfold withResolutions
  cases he : e.elaborate env.scopes (b :: env.outer) with
  | error err =>
    rw [he] at hf
    obtain ⟨r', hx⟩ := hf
    dsimp only
    rw [hx]
    exact ⟨r', rfl⟩
  | ok p =>
    rw [he] at hf
    obtain ⟨t, r', hx, hq⟩ := hf
    dsimp only
    rw [hx]
    exact ⟨t, r', rfl, hq⟩

private theorem infer_option {env : Env} {e : Option (Expr NodeId)}
    (h : r.Ready (Expr.nodesOption e)) :
    Tracks (env.inferOption e ⟨b, r⟩) (env.elaborateOption e b) fun t r' p ↦
      t = p.1 ∧ r' = p.2 ++ r := by
  cases e with
  | none => exact ⟨none, r, rfl, rfl, rfl⟩
  | some e =>
    change Tracks ((env.infer e >>= fun t ↦ pure (some t)) ⟨b, r⟩) _ _
    refine bind (infer_expr h) ?_
    rintro t _ ⟨_, d⟩ b' _ ⟨rfl, rfl⟩
    exact ⟨some t, _, rfl, rfl, rfl⟩

private theorem condition {env : Env} {construct : Construct} {e : Expr NodeId}
    (h : r.Ready e.nodes) :
    Tracks (env.requireBoolean construct e ⟨b, r⟩) (env.elaborateCondition construct e b)
      fun _ r' d ↦ r' = d ++ r := by
  refine bind (infer_expr h) ?_
  rintro t _ ⟨_, d⟩ b' _ ⟨rfl, rfl⟩
  refine obey_last fun _ _ ↦ ?_
  exact ⟨(), _, rfl, rfl⟩

end Tracks

private theorem bindNode_of_unwritten {b : Block} {r : Resolutions} {node : Node NodeId}
    (x : Binding) (h : r.binding? node.tag = none) :
    bindNode node x ⟨b, r⟩ = .ok () ⟨b, .ofBinding node.tag x ++ r⟩ := by
  unfold bindNode withResolutions
  rw [recordBinding_of_unwritten x h]

private theorem consult_of_ok {b : Block} {r : Resolutions} (f : Resolutions → Except Fault α)
    {a : α} (h : f r = .ok a) : consult f ⟨b, r⟩ = .ok a ⟨b, r⟩ := by
  change trust (f r) _ = _
  rw [h]
  rfl

namespace Stmt

variable {env : Env} {b : Block} {r : Resolutions}

/-- The type of the variable that a statement sets can be read back. -/
theorem controlType_of_elaborate {s : Stmt NodeId} {set : Option Ty} {d : Resolutions}
    {b₁ b₂ : Block} (h : s.elaborate env b₁ = .ok (set, d) b₂) (hd : d.Within r) :
    controlType s ⟨b, r⟩ = .ok set ⟨b, r⟩ := by
  cases s with
  | declaration tag name typeName value =>
    obtain ⟨found, d₁, t, _, _, rfl, _, rfl⟩ := elaborate_declaration_ok_iff.mp h
    have hv := Resolutions.within_ofBinding.mp (Resolutions.within_append.mp hd).1
    have hc := @Resolutions.variableOf_of_binding? r
      (.stmt (declaration tag name typeName value)) _ hv
    exact run_bind_of_ok (consult_of_ok (fun r ↦ r.variableOf _) hc)
  | assignment tag receiver value =>
    obtain ⟨_, v, d₁, t, d₂, hr, _, _, _, rfl, rfl⟩ := elaborate_assignment_ok_iff.mp h
    have ht := Expr.type?_of_elaborate (Expr.elaborate_ok_of_target hr)
      (Resolutions.within_append.mp hd).2
    have hc := @Resolutions.typeOf_of_type? r (.expr receiver) _ ht
    exact run_bind_of_ok (consult_of_ok (fun r ↦ r.typeOf _) hc)
  | expression tag e =>
    obtain ⟨_, rfl, _⟩ := elaborate_expression_ok_iff.mp h
    rfl
  | ifElse tag condition thenBody elseBody =>
    obtain ⟨_, rfl, _⟩ := elaborate_ifElse_ok_iff.mp h
    rfl
  | forLoop tag initialization condition increment body =>
    obtain ⟨_, rfl, _⟩ := elaborate_forLoop_ok_iff.mp h
    rfl
  | whileLoop tag condition body =>
    obtain ⟨rfl, _⟩ := elaborate_whileLoop_ok_iff.mp h
    rfl
  | ret tag value =>
    obtain ⟨rfl, _⟩ := elaborate_ret_ok_iff.mp h
    rfl

/-- The increment of a for loop is compared with what it really sets. -/
theorem requireSameStep_of_elaborate {s : Stmt NodeId} {control set : Option Ty} {d : Resolutions}
    {b₁ b₂ : Block} (h : s.elaborate env b₁ = .ok (set, d) b₂) (hd : d.Within r) :
    requireSameStep control s ⟨b, r⟩ = obey (requireStep control s set) ⟨b, r⟩ := by
  cases s with
  | assignment tag receiver value =>
    obtain ⟨_, v, d₁, t, d₂, hr, _, _, _, rfl, rfl⟩ := elaborate_assignment_ok_iff.mp h
    have ht := Expr.type?_of_elaborate (Expr.elaborate_ok_of_target hr)
      (Resolutions.within_append.mp hd).2
    have hc := @Resolutions.typeOf_of_type? r (.expr receiver) _ ht
    cases control with
    | none => rfl
    | some control => exact run_bind_of_ok (consult_of_ok (fun r ↦ r.typeOf _) hc)
  | declaration tag name typeName value => cases control <;> rfl
  | expression tag e => cases control <;> rfl
  | ifElse tag condition thenBody elseBody => cases control <;> rfl
  | forLoop tag initialization condition increment body => cases control <;> rfl
  | whileLoop tag condition body => cases control <;> rfl
  | ret tag value => cases control <;> rfl

private theorem checkDeclaration_tracks {tag : NodeId} {name : Text} {typeName : Option Text}
    {value : Option (Expr NodeId)} (h : r.Ready (declaration tag name typeName value).nodes) :
    Tracks (checkDeclaration env tag name typeName value ⟨b, r⟩)
      (elaborateDeclaration env tag name typeName value b) fun _ r' p ↦ r' = p.2 ++ r := by
  refine Tracks.bind (Tracks.infer_option h.tail) ?_
  rintro found _ ⟨_, d⟩ b' hv ⟨rfl, rfl⟩
  refine Tracks.obey_bind fun t _ ↦ ?_
  refine Tracks.define_bind fun b' ↦ ?_
  have hn := h.root (Env.covers_of_elaborateOption hv)
  refine ⟨(), _, bindNode_of_unwritten _ hn.binding?_eq_none, ?_⟩
  exact (Resolutions.append_assoc _ _ _).symm

/-- A target is first seen to be an access and then typed; elaboration does both at once. -/
theorem inferTarget_tracks {receiver : Expr NodeId} (h : r.Ready receiver.nodes) :
    Tracks
      ((obey (Rules.require (receiver.kind = .access) .targetNotAnAccess) >>= fun _ ↦
        env.infer receiver) ⟨b, r⟩)
      (ElabM.obey (receiver.elaborateTarget env.scopes (b :: env.outer)) b)
      fun t r' p ↦ t = p.1.type ∧ r' = p.2 ++ r := by
  by_cases hk : receiver.kind = .access
  · have hi : Tracks (env.infer receiver ⟨b, r⟩)
        (ElabM.obey (receiver.elaborate env.scopes (b :: env.outer)) b) _ := Tracks.infer_expr h
    have hreq : Rules.require (receiver.kind = .access) .targetNotAnAccess = .ok () :=
      Rules.require_ok_iff.mpr hk
    rw [Expr.elaborate_of_elaborateTarget hk] at hi
    rw [hreq]
    change Tracks (env.infer receiver ⟨b, r⟩) _ _
    cases ht : receiver.elaborateTarget env.scopes (b :: env.outer) with
    | error e =>
      rw [ht] at hi
      exact hi
    | ok p =>
      rw [ht] at hi
      exact hi
  · have hreq : Rules.require (receiver.kind = .access) .targetNotAnAccess =
        .error .targetNotAnAccess := if_neg hk
    have ht : receiver.elaborateTarget env.scopes (b :: env.outer) = .error .targetNotAnAccess := by
      cases receiver with
      | access tag receiver name => exact absurd rfl hk
      | literal tag value => rfl
      | group tag inner => rfl
      | binary tag operator left right => rfl
      | call tag receiver name arguments => rfl
    rw [hreq, ht]
    exact ⟨r, rfl⟩

private theorem checkAssignment_tracks {tag : NodeId} {receiver value : Expr NodeId}
    (h : r.Ready (assignment tag receiver value).nodes) :
    Tracks (checkAssignment env receiver value ⟨b, r⟩) (elaborateAssignment env receiver value b)
      fun _ r' p ↦ r' = p.2 ++ r := by
  unfold checkAssignment
  rw [← bind_assoc]
  change Tracks _ ((ElabM.obey (receiver.elaborateTarget env.scopes (b :: env.outer)) >>= _) b) _
  refine Tracks.bind (inferTarget_tracks h.tail.left) ?_
  rintro _ _ ⟨v, d₁⟩ b' hr ⟨rfl, rfl⟩
  obtain ⟨hv, rfl⟩ := ElabM.obey_eq_ok.mp hr
  have hc₁ := Expr.covers_of_elaborateTarget hv
  refine Tracks.bind (Tracks.infer_expr (h.tail.right hc₁)) ?_
  rintro t _ ⟨_, d₂⟩ b' he ⟨rfl, rfl⟩
  obtain ⟨ht, rfl⟩ := Env.elaborate_ok_iff.mp he
  -- The target's binding is read back below the entries of the value.
  have hw : (d₂ ++ d₁).Within (d₂ ++ (d₁ ++ r)) := by
    have hc := hc₁.append (Expr.covers_of_elaborate ht)
    have hw := (hc.within h.tail.nodup).append (r := r)
    rwa [Resolutions.append_assoc] at hw
  have hb := Expr.binding?_of_elaborateTarget hv (Resolutions.within_append.mp hw).2
  have hc := @Resolutions.variableOf_of_binding? _ (.expr receiver) _ hb
  dsimp only
  rw [run_bind_of_ok (consult_of_ok (fun r ↦ r.variableOf _) hc)]
  refine Tracks.obey_bind fun _ _ ↦ ?_
  refine Tracks.obey_last fun _ _ ↦ ?_
  exact ⟨(), _, rfl, (Resolutions.append_assoc _ _ _).symm⟩

mutual

/-- Checking a statement follows its elaboration. -/
theorem check_tracks (s : Stmt NodeId) {env : Env} {b : Block} {r : Resolutions}
    (h : r.Ready s.nodes) :
    Tracks (s.check env ⟨b, r⟩) (s.elaborate env b) fun _ r' p ↦ r' = p.2 ++ r := by
  match s with
  | expression tag e =>
    simp only [check, elaborate]
    refine Tracks.obey_bind fun _ _ ↦ ?_
    refine Tracks.bind (Tracks.infer_expr h.tail) ?_
    rintro _ _ ⟨t, d⟩ b' _ ⟨rfl, rfl⟩
    exact ⟨(), _, rfl, rfl⟩
  | declaration tag name typeName value =>
    simp only [check, elaborate]
    exact checkDeclaration_tracks h
  | assignment tag receiver value =>
    simp only [check, elaborate]
    exact checkAssignment_tracks h
  | ifElse tag condition thenBody elseBody =>
    simp only [check, elaborate]
    refine Tracks.obey_bind fun _ _ ↦ ?_
    refine Tracks.bind (Tracks.condition h.tail.left.left) ?_
    rintro _ _ d₁ b' hc rfl
    obtain ⟨hc, rfl⟩ := Env.elaborateCondition_ok_iff.mp hc
    have hc₁ := Expr.covers_of_elaborate hc
    have h₁ := h.tail.left.right hc₁
    refine Tracks.bind (Tracks.nested_block (checkAll_tracks thenBody h₁)) ?_
    rintro _ _ d₂ b' hthen rfl
    obtain ⟨⟨b₂, hthen⟩, rfl⟩ := Env.elaborateNested_ok_iff.mp hthen
    have h₂ := h.tail.right (hc₁.append (covers_of_elaborateAll hthen))
    rw [Resolutions.append_assoc] at h₂
    refine Tracks.last (Tracks.nested_block (checkAll_tracks elseBody h₂)) ?_
    rintro _ _ d₃ b' rfl
    exact ⟨(), _, rfl, by simp only [Resolutions.append_assoc]⟩
  | forLoop tag initialization condition increment body =>
    simp only [check, elaborate]
    refine Tracks.obey_bind fun _ _ ↦ ?_
    refine Tracks.bind (checkFirst_tracks initialization h.tail.left.left.left) ?_
    rintro control _ ⟨_, d₁⟩ b₁ hfirst ⟨rfl, rfl⟩
    have hc₁ := covers_of_elaborateFirst hfirst
    refine Tracks.bind (Tracks.condition (h.tail.left.left.right hc₁)) ?_
    rintro _ _ d₂ b' hcond rfl
    obtain ⟨hcond, rfl⟩ := Env.elaborateCondition_ok_iff.mp hcond
    have hc₂ := hc₁.append (Expr.covers_of_elaborate hcond)
    have h₂ := h.tail.left.right hc₂
    rw [Resolutions.append_assoc] at h₂
    refine Tracks.bind (checkStep_tracks increment h₂) ?_
    rintro _ _ d₃ b₃ hstep rfl
    have h₃ := h.tail.right (hc₂.append (covers_of_elaborateStep hstep))
    simp only [Resolutions.append_assoc] at h₃
    refine Tracks.last (Tracks.nested_block (checkAll_tracks body h₃)) ?_
    rintro _ _ d₄ b' rfl
    exact ⟨(), _, rfl, by simp only [Resolutions.append_assoc]⟩
  | whileLoop tag condition body =>
    simp only [check, elaborate]
    refine Tracks.bind (Tracks.condition h.tail.left) ?_
    rintro _ _ d₁ b' hc rfl
    obtain ⟨hc, rfl⟩ := Env.elaborateCondition_ok_iff.mp hc
    have h₁ := h.tail.right (Expr.covers_of_elaborate hc)
    refine Tracks.last (Tracks.nested_block (checkAll_tracks body h₁)) ?_
    rintro _ _ d₂ b' rfl
    exact ⟨(), _, rfl, (Resolutions.append_assoc _ _ _).symm⟩
  | ret tag value =>
    simp only [check, elaborate]
    refine Tracks.bind (Tracks.infer_expr h.tail) ?_
    rintro t _ ⟨_, d⟩ b' _ ⟨rfl, rfl⟩
    refine Tracks.obey_last fun _ _ ↦ ?_
    exact ⟨(), _, rfl, rfl⟩

/-- Checking the initialization of a for loop follows its elaboration. -/
theorem checkFirst_tracks (s : Option (Stmt NodeId)) {env : Env} {b : Block} {r : Resolutions}
    (h : r.Ready (nodesOption s)) :
    Tracks (checkFirst env s ⟨b, r⟩) (elaborateFirst env s b) fun control r' p ↦
      control = p.1 ∧ r' = p.2 ++ r := by
  match s with
  | none => exact ⟨none, r, rfl, rfl, rfl⟩
  | some first =>
    simp only [checkFirst, elaborateFirst]
    refine Tracks.bind (check_tracks first h) ?_
    rintro _ _ ⟨control, d⟩ b' hs rfl
    have hw := ((covers_of_elaborate hs).within h.nodup).append (r := r)
    rw [run_bind_of_ok (controlType_of_elaborate hs hw)]
    refine Tracks.obey_bind fun _ _ ↦ ?_
    exact ⟨control, _, rfl, rfl, rfl⟩

/-- Checking the increment of a for loop follows its elaboration. -/
theorem checkStep_tracks (s : Option (Stmt NodeId)) {env : Env} {control : Option Ty} {b : Block}
    {r : Resolutions} (h : r.Ready (nodesOption s)) :
    Tracks (checkStep env control s ⟨b, r⟩) (elaborateStep env control s b) fun _ r' d ↦
      r' = d ++ r := by
  match s with
  | none => exact ⟨(), r, rfl, rfl⟩
  | some step =>
    simp only [checkStep, elaborateStep]
    refine Tracks.bind (check_tracks step h) ?_
    rintro _ _ ⟨set, d⟩ b' hs rfl
    have hw := ((covers_of_elaborate hs).within h.nodup).append (r := r)
    rw [requireSameStep_of_elaborate hs hw]
    refine Tracks.obey_last fun _ _ ↦ ?_
    exact ⟨(), _, rfl, rfl⟩

/-- Checking statements follows their elaboration. -/
theorem checkAll_tracks (ss : List (Stmt NodeId)) {env : Env} {b : Block} {r : Resolutions}
    (h : r.Ready (nodesAll ss)) :
    Tracks (checkAll env ss ⟨b, r⟩) (elaborateAll env ss b) fun _ r' d ↦ r' = d ++ r := by
  match ss with
  | [] => exact ⟨(), r, rfl, rfl⟩
  | s :: ss =>
    simp only [checkAll, elaborateAll]
    refine Tracks.bind (check_tracks s h.left) ?_
    rintro _ _ ⟨set, d₁⟩ b₁ hs rfl
    refine Tracks.last (checkAll_tracks ss (h.right (covers_of_elaborate hs))) ?_
    rintro _ _ d₂ b' rfl
    exact ⟨(), _, rfl, (Resolutions.append_assoc _ _ _).symm⟩

end

end Stmt

/-! ### Fields, methods and sources -/

section Trees

variable {env : Env} {b : Block} {r : Resolutions}

/-- Checking a field follows its elaboration. -/
theorem Field.check_tracks {d : Field NodeId} (h : r.Ready d.nodes) :
    Tracks (d.check env ⟨b, r⟩) (d.elaborate env b) fun _ r' d' ↦ r' = d' ++ r := by
  refine Tracks.obey_bind fun t _ ↦ ?_
  refine Tracks.bind (Tracks.infer_option h.tail) ?_
  rintro found _ ⟨_, d₁⟩ b' hv ⟨rfl, rfl⟩
  refine Tracks.obey_bind fun _ _ ↦ ?_
  refine Tracks.define_bind fun b' ↦ ?_
  have hn := h.root (Env.covers_of_elaborateOption hv)
  refine ⟨(), _, bindNode_of_unwritten _ hn.binding?_eq_none, ?_⟩
  exact (Resolutions.append_assoc _ _ _).symm

/-- Checking the fields of a source tracks elaborating them. -/
theorem Field.checkAll_tracks {ds : List (Field NodeId)} (h : r.Ready (ds.flatMap nodes)) :
    Tracks (ds.forM (Field.check env) ⟨b, r⟩) (elaborateAll env ds b) fun _ r' d' ↦
      r' = d' ++ r := by
  induction ds generalizing b r with
  | nil => exact ⟨(), r, rfl, rfl⟩
  | cons d ds ih =>
    refine Tracks.bind (check_tracks h.left) ?_
    rintro _ _ d₁ b₁ hd rfl
    refine Tracks.last (ih (h.right (covers_of_elaborate hd))) ?_
    rintro _ _ d₂ b' rfl
    exact ⟨(), _, rfl, (Resolutions.append_assoc _ _ _).symm⟩

/-- Checking a method follows its elaboration: its binding is written before its body is checked. -/
theorem Method.check_tracks {m : Method NodeId} (h : r.Ready m.nodes) :
    Tracks (m.check env ⟨b, r⟩) (m.elaborate env b) fun _ r' d ↦ r' = d ++ r := by
  refine Tracks.obey_bind fun f _ ↦ ?_
  refine Tracks.define_bind fun b' ↦ ?_
  have hb : r.binding? (Node.method m).tag = none := h.bindings _ List.mem_cons_self
  rw [run_bind_of_ok (bindNode_of_unwritten (.function f) hb)]
  have hm : r.Ready ([.method m] ++ Stmt.nodesAll m.body) := h
  have hbody := hm.right (Resolutions.Covers.ofBinding (.method m) (.function f) rfl rfl)
  change Tracks ((obey _ >>= fun block ↦ within block
    (Stmt.checkAll (env.inMethod b' f) m.body)) ⟨b', .ofBinding m.tag (.function f) ++ r⟩)
    ((ElabM.obey _ >>= _) b') _
  refine Tracks.obey_bind fun block _ ↦ ?_
  refine Tracks.last (Tracks.within_block (Stmt.checkAll_tracks m.body hbody)) ?_
  rintro _ _ d b' rfl
  exact ⟨(), _, rfl, (Resolutions.append_assoc _ _ _).symm⟩

/-- Checking the methods of a source tracks elaborating them. -/
theorem Method.checkAll_tracks {ms : List (Method NodeId)} (h : r.Ready (ms.flatMap nodes)) :
    Tracks (ms.forM (Method.check env) ⟨b, r⟩) (elaborateAll env ms b) fun _ r' d ↦
      r' = d ++ r := by
  induction ms generalizing b r with
  | nil => exact ⟨(), r, rfl, rfl⟩
  | cons m ms ih =>
    refine Tracks.bind (check_tracks h.left) ?_
    rintro _ _ d₁ b₁ hm rfl
    refine Tracks.last (ih (h.right (covers_of_elaborate hm))) ?_
    rintro _ _ d₂ b' rfl
    exact ⟨(), _, rfl, (Resolutions.append_assoc _ _ _).symm⟩

/-- Checking a tree follows its elaboration. -/
theorem Node.check_tracks {tree : Node NodeId} (h : r.Ready tree.nodes) :
    Tracks (tree.check env ⟨b, r⟩) (tree.elaborate env b) fun _ r' d ↦ r' = d ++ r := by
  cases tree with
  | source s =>
    refine Tracks.bind (Field.checkAll_tracks h.tail.left) ?_
    rintro _ _ d₁ b₁ hf rfl
    have h₁ := h.tail.right (Field.covers_of_elaborateAll hf)
    refine Tracks.bind (Method.checkAll_tracks h₁) ?_
    rintro _ _ d₂ b₂ _ rfl
    change Tracks (obey (requireEntryPoint (b₂ :: env.outer)) ⟨b₂, d₂ ++ (d₁ ++ r)⟩)
      ((ElabM.obey (requireEntryPoint (b₂ :: env.outer)) >>= _) b₂) _
    refine Tracks.obey_last fun _ _ ↦ ?_
    exact ⟨(), _, rfl, (Resolutions.append_assoc _ _ _).symm⟩
  | field d => exact Field.check_tracks h
  | method m => exact Method.check_tracks h
  | stmt s =>
    refine Tracks.last (Stmt.check_tracks s h) ?_
    rintro _ _ ⟨set, d⟩ b' rfl
    exact ⟨(), _, rfl, rfl⟩
  | expr e =>
    refine Tracks.bind (Tracks.infer_expr h) ?_
    rintro _ _ ⟨t, d⟩ b' _ ⟨rfl, rfl⟩
    exact ⟨(), _, rfl, rfl⟩

end Trees

end TreeCheck
