import TreeCheck.Proofs.Frames

/-!
# A walk does what a check does

A walk looks names up in live scopes and defines them there; a check has the blocks that are visible
at hand and gives a nested block up when it ends. Where the types that can be met have their members
in scopes that were there before, and no built-in type has any, the two agree at every step: they
end with the same type or the same failure, with the same table, and with the same definitions in
the current scope. What makes a nested block of a walk as good as given up is that it changes no
scope around it.
-/

namespace TreeCheck

variable {α β : Type}

/-! ### Blocks and scopes -/

namespace Scopes

variable {s : Scopes} {id : ScopeId} {b : Block} {outer : Chain}

/-- The first block that is visible in a scope is its own. -/
theorem block_of_chain (h : s.chain id = b :: outer) : s.block id = b := by
  unfold chain at h
  unfold block
  generalize s.latestFirst = l at h ⊢
  induction l with
  | nil => cases h
  | cons scope earlier ih =>
    rw [chainFrom] at h
    rw [find?]
    split at h
    · next hid =>
      rw [if_pos hid]
      exact (List.cons.inj h).1
    · next hid =>
      rw [if_neg hid]
      exact ih h

/-- A new block in a scope takes the place of the old one. -/
theorem chain_setBlock_self (h : s.chain id = b :: outer) (b' : Block) :
    (s.setBlock id b').chain id = b' :: outer := by
  unfold chain at h
  unfold chain setBlock
  dsimp only
  generalize s.latestFirst = l at h ⊢
  induction l with
  | nil => cases h
  | cons scope earlier ih =>
    rw [chainFrom] at h
    rw [replace]
    split at h
    · next hid =>
      rw [if_pos hid, chainFrom, if_pos hid]
      rw [(List.cons.inj h).2]
    · next hid =>
      rw [if_neg hid, chainFrom, length_replace, if_neg hid]
      exact ih h

/-- A scope that was just made sees what is visible in the scope around it. -/
theorem chain_create_self (parent : ScopeId) :
    (s.create (some parent)).chain s.size = .empty :: s.chain parent := by
  simp [chain, create, chainFrom, size]

private theorem chain_create_of_lt {parent : Option ScopeId} (h : id < s.size) :
    (s.create parent).chain id = s.chain id := chain_of_suffix (List.suffix_cons _ _) h

end Scopes

/-- Members among which every lookup ends alike. -/
structure Chain.Answers (members members' : Chain) : Prop where
  field : ∀ owner name, members.lookupField owner name = members'.lookupField owner name
  method : ∀ owner name arity,
    members.lookupMethod owner name arity = members'.lookupMethod owner name arity

private theorem Chain.Answers.refl (members : Chain) : members.Answers members :=
  ⟨fun _ _ ↦ rfl, fun _ _ _ ↦ rfl⟩

/-- Blocks without definitions are as good as none. -/
theorem Chain.answers_nil {members : Chain} (h : ∀ b ∈ members, b = .empty) :
    members.Answers [] := by
  have hvars : members.flatMap (fun b ↦ b.vars.map Variable.name) = [] := by
    refine List.flatMap_eq_nil_iff.mpr fun b hb ↦ ?_
    rw [h b hb]
    rfl
  have hfuns : members.flatMap (fun b ↦ b.funs.map Function.name) = [] := by
    refine List.flatMap_eq_nil_iff.mpr fun b hb ↦ ?_
    rw [h b hb]
    rfl
  constructor
  · intro owner name
    have hnone : members.findVariable? name = none := by
      refine List.findSome?_eq_none_iff.mpr fun b hb ↦ ?_
      rw [h b hb]
      rfl
    rw [lookupField, lookupField, hnone, variableNames, hvars]
    rfl
  · intro owner name arity
    have hnone : members.findFunction? name (arity + 1) = none := by
      refine List.findSome?_eq_none_iff.mpr fun b hb ↦ ?_
      rw [h b hb]
      rfl
    rw [lookupMethod, lookupMethod, hnone, functionNames, hfuns]
    rfl

/-! ### Types with members in earlier scopes -/

section Below

variable {n : ScopeId} {c : Chain} {name : Text}

private theorem Chain.below_of_findVariable {v : Variable} (hc : ∀ b ∈ c, b.Below n)
    (h : c.findVariable? name = some v) : v.type.Below n := by
  obtain ⟨b, hb, hv⟩ := List.exists_of_findSome?_eq_some h
  exact (hc b hb).vars v (List.mem_of_find?_eq_some hv)

private theorem Chain.below_of_findFunction {arity : Int} {f : Function} (hc : ∀ b ∈ c, b.Below n)
    (h : c.findFunction? name arity = some f) : f.returns.Below n := by
  obtain ⟨b, hb, hf⟩ := List.exists_of_findSome?_eq_some h
  exact (hc b hb).funs f (List.mem_of_find?_eq_some hf)

private theorem Rules.below_of_literalType {value : Literal} {t : Ty}
    (h : Rules.literalType value = .ok t) : t.Below n := by
  obtain ⟨b, rfl⟩ := builtin_of_literalType h
  trivial

private theorem Rules.below_of_binaryType {operator : Text} {left right t : Ty}
    (h : Rules.binaryType operator left right = .ok t) : t.Below n := by
  obtain ⟨b, rfl⟩ := builtin_of_binaryType h
  trivial

end Below

open WalkM

/-! ### Expressions -/

/-- With these symbols a walk does what `y` does to the table and nothing else, and a result of `y`
satisfies `Q`. -/
def WalkM.Infers (symbols : Symbols) (Q : α → Prop) (x : WalkM α)
    (y : EStateM Failure Resolutions α) : Prop :=
  ∀ r, x ⟨symbols, r⟩ = onTable y ⟨symbols, r⟩ ∧ ∀ a r', y r = .ok a r' → Q a

namespace WalkM.Infers

variable {symbols : Symbols} {P Q : α → Prop} {R : β → Prop}

private theorem pure {a : α} (h : Q a) : Infers symbols Q (Pure.pure a) (Pure.pure a) := by
  refine fun r ↦ ⟨rfl, ?_⟩
  rintro _ _ ⟨⟩
  exact h

private theorem bind {x : WalkM α} {f : α → WalkM β} {y : EStateM Failure Resolutions α}
    {g : α → EStateM Failure Resolutions β} (h : Infers symbols Q x y)
    (hf : ∀ a, Q a → Infers symbols R (f a) (g a)) : Infers symbols R (x >>= f) (y >>= g) := by
  intro r
  obtain ⟨hx, hq⟩ := h r
  cases hy : y r with
  | error e r₁ =>
    have hx₁ : x ⟨symbols, r⟩ = .error e ⟨symbols, r₁⟩ := by
      rw [hx]
      simp [WalkM.onTable, hy]
    have hg : (y >>= g) r = .error e r₁ := run_bind_of_error hy
    refine ⟨?_, fun a r' h' ↦ ?_⟩
    · rw [run_bind_of_error hx₁]
      simp [WalkM.onTable, hg]
    · rw [hg] at h'
      cases h'
  | ok a r₁ =>
    have hx₁ : x ⟨symbols, r⟩ = .ok a ⟨symbols, r₁⟩ := by
      rw [hx]
      simp [WalkM.onTable, hy]
    have hg : (y >>= g) r = g a r₁ := run_bind_of_ok hy
    obtain ⟨hfa, hr⟩ := hf a (hq a r₁ hy) r₁
    refine ⟨?_, fun b r' h' ↦ hr b r' (hg ▸ h')⟩
    rw [run_bind_of_ok hx₁, hfa]
    simp [WalkM.onTable, hg]

private theorem obey {x : Except ProgramError α} (h : ∀ a, x = .ok a → Q a) :
    Infers symbols Q (TreeCheck.obey x) (TreeCheck.obey x) := by
  intro r
  cases x with
  | error e => exact ⟨rfl, nofun⟩
  | ok a =>
    refine ⟨rfl, ?_⟩
    rintro _ _ ⟨⟩
    exact h a rfl

/-- A lookup in a scope is one among the blocks that are visible there. -/
theorem look {scope : ScopeId} {f : Chain → Except ProgramError α} {x : Except ProgramError α}
    (hx : f (symbols.scopes.chain scope) = x) (h : ∀ a, x = .ok a → Q a) :
    Infers symbols Q (WalkM.look scope f) (TreeCheck.obey x) := by
  intro r
  have hrun : WalkM.look scope f ⟨symbols, r⟩ = TreeCheck.obey x ⟨symbols, r⟩ := by
    rw [← hx]
    rfl
  rw [hrun]
  exact obey h r

private theorem recordBinding (node : Node NodeId) (b : Binding) :
    Infers symbols (fun _ ↦ True) (WalkM.onTable (TreeCheck.recordBinding node b))
      (TreeCheck.recordBinding node b) :=
  fun _ ↦ ⟨rfl, fun _ _ _ ↦ trivial⟩

private theorem recordType (e : Expr NodeId) {t : Ty} {Q : Ty → Prop} (h : Q t) :
    Infers symbols Q (WalkM.onTable (TreeCheck.recordType e t)) (TreeCheck.recordType e t) := by
  refine fun r ↦ ⟨rfl, fun a r' hr ↦ ?_⟩
  obtain ⟨_, _, _, hr⟩ := run_bind_ok_iff.mp hr
  obtain ⟨_, _, _, hr⟩ := run_bind_ok_iff.mp hr
  obtain ⟨_, _, _, hr⟩ := run_bind_ok_iff.mp hr
  exact (run_pure_ok_iff.mp hr).1 ▸ h

end WalkM.Infers

/-- In these symbols the names visible in the current scope stand for what they stand for in
`chain`, and members of types for what they stand for in `scopes`; the types of all of them have
their members in one of the first `n` scopes. -/
structure Symbols.Renders (symbols : Symbols) (n : ScopeId) (c : Surroundings) (scopes : Scopes)
    (chain : Chain) : Prop where
  visible : symbols.scopes.chain c.scope = chain
  members : ∀ t : Ty, t.Below n →
    (symbols.scopes.chain (t.home c.homes)).Answers (scopes.members t)
  knownVisible : ∀ b ∈ chain, b.Below n
  knownMembers : ∀ t : Ty, t.Below n → ∀ b ∈ scopes.members t, b.Below n

namespace Expr

variable {symbols : Symbols} {n : ScopeId} {c : Surroundings} {scopes : Scopes} {chain : Chain}

mutual

/-- The type of an expression is found alike, and its members are in one of the first scopes. -/
theorem walk_infers (h : symbols.Renders n c scopes chain) (e : Expr NodeId) :
    Infers symbols (Ty.Below n) (e.walk c) (e.infer scopes chain) := by
  match e with
  | literal tag value =>
    rw [walk, infer]
    exact (Infers.obey fun _ ht ↦ Rules.below_of_literalType ht).bind fun t ht ↦
      Infers.recordType _ ht
  | group tag inner =>
    rw [walk, infer]
    exact (Infers.obey fun _ _ ↦ trivial).bind fun _ (_ : True) ↦
      (walk_infers h inner).bind fun t ht ↦ Infers.recordType _ ht
  | binary tag operator left right =>
    rw [walk, infer]
    exact (walk_infers h left).bind fun _ _ ↦ (walk_infers h right).bind fun _ _ ↦
      (Infers.obey fun _ ht ↦ Rules.below_of_binaryType ht).bind fun t ht ↦
      Infers.recordType _ ht
  | access tag none name =>
    rw [walk, infer]
    refine (Infers.look (Q := fun v ↦ v.type.Below n) ?_ fun v hv ↦ ?_).bind fun v hv ↦
      (Infers.recordBinding _ _).bind fun _ _ ↦ Infers.recordType _ hv
    · rw [h.visible]
    · exact Chain.below_of_findVariable h.knownVisible (Chain.lookupVariable_ok_iff.mp hv)
  | access tag (some receiver) name =>
    rw [walk, infer]
    refine (walk_infers h receiver).bind fun owner ho ↦
      (Infers.look (Q := fun v ↦ v.type.Below n) ?_ fun v hv ↦ ?_).bind fun v hv ↦
      (Infers.recordBinding _ _).bind fun _ _ ↦ Infers.recordType _ hv
    · exact (h.members owner ho).field owner name
    · exact Chain.below_of_findVariable (h.knownMembers owner ho)
        (Scopes.lookupField_ok_iff.mp hv)
  | call tag none name arguments =>
    rw [walk, infer]
    refine (walkAll_infers h arguments).bind fun _ _ ↦
      (Infers.look (Q := fun f ↦ f.returns.Below n) ?_ fun f hf ↦ ?_).bind fun f hf ↦
      (Infers.obey fun _ _ ↦ trivial).bind fun _ (_ : True) ↦
      (Infers.recordBinding _ _).bind fun _ _ ↦ Infers.recordType _ hf
    · rw [h.visible]
    · exact Chain.below_of_findFunction h.knownVisible (Chain.lookupFunction_ok_iff.mp hf)
  | call tag (some receiver) name arguments =>
    rw [walk, infer]
    refine (walkAll_infers h arguments).bind fun _ _ ↦ (walk_infers h receiver).bind fun owner ho ↦
      (Infers.look (Q := fun f ↦ f.returns.Below n) ?_ fun f hf ↦ ?_).bind fun f hf ↦
      (Infers.obey fun _ _ ↦ trivial).bind fun _ (_ : True) ↦
      (Infers.recordBinding _ _).bind fun _ _ ↦ Infers.recordType _ hf
    · exact (h.members owner ho).method owner name _
    · exact Chain.below_of_findFunction (h.knownMembers owner ho)
        (Scopes.lookupMethod_ok_iff.mp hf)

/-- The types of expressions are found alike. -/
theorem walkAll_infers (h : symbols.Renders n c scopes chain) (es : List (Expr NodeId)) :
    Infers symbols (fun _ ↦ True) (walkAll c es) (inferAll scopes chain es) := by
  match es with
  | [] =>
    rw [walkAll, inferAll]
    exact Infers.pure trivial
  | e :: es =>
    rw [walkAll, inferAll]
    exact (walk_infers h e).bind fun _ _ ↦ (walkAll_infers h es).bind fun _ _ ↦
      Infers.pure trivial

end

end Expr

/-! ### The current scope and the current block -/

/-- Where an analysis starts whose types have their members in one of the first `n` scopes. The
built-in types have member scopes, and there is nothing in them. -/
structure Symbols.Grounded (s : Symbols) (n : ScopeId) (homes : Builtin → ScopeId)
    (parent : Option ScopeId) : Prop where
  size : n ≤ s.scopes.size
  catalog : ∀ t ∈ s.catalog.types, t.Below n
  members : ∀ t : Ty, t.Below n → ∀ b ∈ s.scopes.members t, b.Below n
  around : ∀ b ∈ s.scopes.around parent, b.Below n
  furnished : ∀ b, homes b < n
  vacant : ∀ b, ∀ block ∈ s.scopes.chain (homes b), block = .empty

/-- The same place for a walk and for a check: the same types and members, and a current scope that
was made by the walk. -/
structure Surroundings.Stands (s : Symbols) (n : ScopeId) (homes : Builtin → ScopeId)
    (c : Surroundings) (env : Env) : Prop where
  homes : c.homes = homes
  returns : c.returns = env.returns
  own : s.scopes.size ≤ c.scope
  catalog : env.catalog = s.catalog
  members : ∀ t : Ty, t.Below n → env.scopes.members t = s.scopes.members t
  outer : ∀ b ∈ env.outer, b.Below n

/-- The live scopes show what a check has at hand: the current block and the blocks around it are
visible in the current scope. The scopes that were there before are as they were. -/
structure Live.Shows (s : Symbols) (n : ScopeId) (c : Surroundings) (env : Env) (l : Live)
    (σ : State) : Prop where
  table : l.resolutions = σ.resolutions
  catalog : l.symbols.catalog = s.catalog
  made : c.scope < l.symbols.scopes.size
  earlier : ∀ id < s.scopes.size, l.symbols.scopes.chain id = s.scopes.chain id
  visible : l.symbols.scopes.chain c.scope = σ.block :: env.outer
  block : σ.block.Below n

/-- Outcomes that are the same but for the states, which are related. -/
inductive EndsAlike (R : Live → State → Prop) (Q : α → Prop) :
    EStateM.Result Failure Live α → EStateM.Result Failure State α → Prop where
  | ok {a : α} {l : Live} {σ : State} (ha : Q a) (h : R l σ) : EndsAlike R Q (.ok a l) (.ok a σ)
  | error {f : Failure} {l : Live} {σ : State} (h : R l σ) : EndsAlike R Q (.error f l) (.error f σ)

/-- A walk does what a check does at the same place. -/
def WalkM.Realizes (s : Symbols) (n : ScopeId) (c : Surroundings) (env : Env) (Q : α → Prop)
    (x : WalkM α) (y : CheckM α) : Prop :=
  ∀ l σ, Live.Shows s n c env l σ → EndsAlike (Live.Shows s n c env) Q (x l) (y σ)

/-- A definition that succeeds changes the current block. -/
theorem define_of_ok {f : Block → Except ProgramError Block} {s : State} {b : Block}
    (h : f s.block = .ok b) : define f s = .ok () { s with block := b } := by
  change (obey (f s.block) >>= fun b ↦ set { s with block := b } : CheckM Unit) s = _
  rw [h]
  rfl

/-- A definition that fails changes nothing. -/
theorem define_of_error {f : Block → Except ProgramError Block} {s : State} {e : ProgramError}
    (h : f s.block = .error e) : define f s = .error (.error e) s := by
  change (obey (f s.block) >>= fun b ↦ set { s with block := b } : CheckM Unit) s = _
  rw [h]
  rfl

section Steps

variable {s : Symbols} {n : ScopeId} {homes : Builtin → ScopeId} {parent : Option ScopeId}
  {c : Surroundings} {env : Env} {l : Live} {σ : State}

namespace Live.Shows

/-- Names and members stand for the same. -/
theorem renders (h : Live.Shows s n c env l σ) (hs : s.Grounded n homes parent)
    (hc : c.Stands s n homes env) :
    l.symbols.Renders n c env.scopes (σ.block :: env.outer) where
  visible := h.visible
  members t ht := by
    rw [hc.members t ht, hc.homes]
    cases t with
    | builtin b =>
      have hb : l.symbols.scopes.chain (homes b) = s.scopes.chain (homes b) :=
        h.earlier _ (Nat.lt_of_lt_of_le (hs.furnished b) hs.size)
      change (l.symbols.scopes.chain (homes b)).Answers []
      rw [hb]
      exact Chain.answers_nil (hs.vacant b)
    | object o =>
      have ho : l.symbols.scopes.chain o.members = s.scopes.chain o.members :=
        h.earlier _ (Nat.lt_of_lt_of_le ht hs.size)
      change (l.symbols.scopes.chain o.members).Answers (s.scopes.chain o.members)
      rw [ho]
      exact .refl _
  knownVisible := List.forall_mem_cons.mpr ⟨h.block, hc.outer⟩
  knownMembers t ht := by
    rw [hc.members t ht]
    exact hs.members t ht

/-- The table may change on both sides. -/
theorem withTable (h : Live.Shows s n c env l σ) (r : Resolutions) :
    Live.Shows s n c env { l with resolutions := r } { σ with resolutions := r } :=
  ⟨rfl, h.catalog, h.made, h.earlier, h.visible, h.block⟩

/-- The current scope and the current block may get the same definitions. -/
theorem setBlock (h : Live.Shows s n c env l σ) (hown : s.scopes.size ≤ c.scope) {b : Block}
    (hb : b.Below n) :
    Live.Shows s n c env
      { l with symbols := { l.symbols with scopes := l.symbols.scopes.setBlock c.scope b } }
      { σ with block := b } where
  table := h.table
  catalog := h.catalog
  made := by
    change c.scope < (l.symbols.scopes.setBlock c.scope b).size
    rw [Scopes.size_setBlock]
    exact h.made
  earlier id hid := by
    have hlt : id < c.scope := Nat.lt_of_lt_of_le hid hown
    have hf := Symbols.Frame.setBlock c.scope l.symbols b
    exact (hf.chain (Nat.lt_trans hlt h.made) hlt).trans (h.earlier id hid)
  visible := Scopes.chain_setBlock_self h.visible b
  block := hb

/-- What is done in a scope made inside the current one is not seen outside. -/
theorem after_nested (h : Live.Shows s n c env l σ) (hown : s.scopes.size ≤ c.scope) {l' : Live}
    {σ' : State}
    (hf : (l.symbols.createScope (some c.scope)).1.Frame l.symbols.scopes.size l'.symbols)
    (htable : l'.resolutions = σ'.resolutions) :
    Live.Shows s n c env l' { σ' with block := σ.block } := by
  have hchain {id : ScopeId} (hid : id < l.symbols.scopes.size) :
      l'.symbols.scopes.chain id = l.symbols.scopes.chain id :=
    (hf.chain (Nat.lt_succ_of_lt hid) hid).trans (Scopes.chain_create_of_lt hid)
  refine ⟨htable, hf.catalog.trans h.catalog, ?_, fun id hid ↦ ?_, ?_, h.block⟩
  · exact Nat.lt_of_lt_of_le (Nat.lt_succ_of_lt h.made) hf.size
  · have hlt : id < l.symbols.scopes.size :=
      Nat.lt_trans (Nat.lt_of_lt_of_le hid hown) h.made
    exact (hchain hlt).trans (h.earlier id hid)
  · exact (hchain h.made).trans h.visible

/-- A scope made inside the current one shows an empty block inside the current one. -/
theorem make (h : Live.Shows s n c env l σ) (hown : s.scopes.size ≤ c.scope) :
    Live.Shows s n { c with scope := l.symbols.scopes.size } (env.inside σ.block)
      { l with symbols := (l.symbols.createScope (some c.scope)).1 }
      { σ with block := .empty } where
  table := h.table
  catalog := h.catalog
  made := Nat.lt_succ_self _
  earlier id hid := by
    have hlt : id < l.symbols.scopes.size :=
      Nat.lt_trans (Nat.lt_of_lt_of_le hid hown) h.made
    exact (Scopes.chain_create_of_lt hlt).trans (h.earlier id hid)
  visible := (Scopes.chain_create_self c.scope).trans (by rw [h.visible]; rfl)
  block := .empty

private theorem returning (h : Live.Shows s n c env l σ) (returns : Option Ty) :
    Live.Shows s n { c with returns } { env with returns } l σ :=
  ⟨h.table, h.catalog, h.made, h.earlier, h.visible, h.block⟩

end Live.Shows

/-- The place inside one more scope and one more block. -/
theorem Surroundings.Stands.inside (hc : c.Stands s n homes env) (h : Live.Shows s n c env l σ) :
    Surroundings.Stands s n homes { c with scope := l.symbols.scopes.size }
      (env.inside σ.block) where
  homes := hc.homes
  returns := hc.returns
  own := Nat.le_trans hc.own (Nat.le_of_lt h.made)
  catalog := hc.catalog
  members := hc.members
  outer := List.forall_mem_cons.mpr ⟨h.block, hc.outer⟩

private theorem Surroundings.Stands.returning (hc : c.Stands s n homes env) (returns : Option Ty) :
    Surroundings.Stands s n homes { c with returns } { env with returns } :=
  ⟨hc.homes, rfl, hc.own, hc.catalog, hc.members, hc.outer⟩

namespace WalkM.Realizes

variable {P Q : α → Prop} {R : β → Prop}

private theorem pure {a : α} (h : Q a) : Realizes s n c env Q (Pure.pure a) (Pure.pure a) :=
  fun _ _ hl ↦ .ok h hl

private theorem bind {x : WalkM α} {f : α → WalkM β} {y : CheckM α} {g : α → CheckM β}
    (h : Realizes s n c env Q x y) (hf : ∀ a, Q a → Realizes s n c env R (f a) (g a)) :
    Realizes s n c env R (x >>= f) (y >>= g) := by
  intro l σ hl
  have hxy := h l σ hl
  generalize hx : x l = rx at hxy
  generalize hy : y σ = ry at hxy
  cases hxy with
  | error hl' =>
    rw [run_bind_of_error hx, run_bind_of_error hy]
    exact .error hl'
  | ok ha hl' =>
    rw [run_bind_of_ok hx, run_bind_of_ok hy]
    exact hf _ ha _ _ hl'

private theorem map {x : WalkM α} {y : CheckM α} (f : α → β) (h : Realizes s n c env Q x y)
    (hf : ∀ a, Q a → R (f a)) : Realizes s n c env R (f <$> x) (f <$> y) :=
  h.bind fun a ha ↦ pure (hf a ha)

private theorem obey {x : Except ProgramError α} (h : ∀ a, x = .ok a → Q a) :
    Realizes s n c env Q (TreeCheck.obey x) (TreeCheck.obey x) := by
  intro l σ hl
  cases x with
  | error e => exact .error hl
  | ok a => exact .ok (h a rfl) hl

/-- A rule at which only success matters. -/
theorem rule (x : Except ProgramError α) :
    Realizes s n c env (fun _ ↦ True) (TreeCheck.obey x) (TreeCheck.obey x) :=
  obey fun _ _ ↦ trivial

private theorem forM {f : α → WalkM PUnit} {g : α → CheckM PUnit}
    (h : ∀ a, Realizes s n c env (fun _ ↦ True) (f a) (g a)) (as : List α) :
    Realizes s n c env (fun _ ↦ True) (as.forM f) (as.forM g) := by
  induction as with
  | nil => exact pure trivial
  | cons a as ih => exact (h a).bind fun _ _ ↦ ih

/-- What is done to the table is done alike. -/
theorem onTable (x : EStateM Failure Resolutions α) :
    Realizes s n c env (fun _ ↦ True) (WalkM.onTable x) (withResolutions x) := by
  intro l σ hl
  unfold WalkM.onTable withResolutions
  rw [hl.table]
  cases x σ.resolutions with
  | ok a r => exact .ok trivial (hl.withTable r)
  | error f r => exact .error (hl.withTable r)

private theorem readTable (f : Resolutions → Except Fault α) :
    Realizes s n c env (fun _ ↦ True) (WalkM.readTable f) (consult f) := by
  intro l σ hl
  change EndsAlike _ _ (trust (f l.resolutions) l) (trust (f σ.resolutions) σ)
  rw [hl.table]
  cases f σ.resolutions with
  | ok a => exact .ok trivial hl
  | error e => exact .error hl

/-- A lookup from the current scope. -/
theorem look (f : Chain → Except ProgramError α) :
    Realizes s n c env (fun _ ↦ True) (WalkM.look c.scope f)
      (do TreeCheck.obey (f ((← get).block :: env.outer))) := by
  intro l σ hl
  change EndsAlike _ _ (TreeCheck.obey (f (l.symbols.scopes.chain c.scope)) l)
    (TreeCheck.obey (f (σ.block :: env.outer)) σ)
  rw [hl.visible]
  exact rule _ l σ hl

/-- A lookup in the catalog. -/
theorem resolve (hc : c.Stands s n homes env) {f : Catalog → Except ProgramError α}
    (h : ∀ a, f env.catalog = .ok a → Q a) :
    Realizes s n c env Q (WalkM.resolve f) (TreeCheck.obey (f env.catalog)) := by
  intro l σ hl
  have hrun : WalkM.resolve f l = TreeCheck.obey (f env.catalog) l := by
    rw [hc.catalog, ← hl.catalog]
    rfl
  rw [hrun]
  exact obey h l σ hl

/-- A definition in the current scope is one in the current block. -/
theorem change (hc : c.Stands s n homes env) {f : Symbols → Except ProgramError Symbols}
    {g : Block → Except ProgramError Block}
    (hf : ∀ symbols, f symbols = (g (symbols.scopes.block c.scope)).map fun b ↦
      { symbols with scopes := symbols.scopes.setBlock c.scope b })
    (hg : ∀ b b', g b = .ok b' → b.Below n → b'.Below n) :
    Realizes s n c env (fun _ ↦ True) (WalkM.change f) (define g) := by
  intro l σ hl
  change EndsAlike _ _
    ((TreeCheck.obey (f l.symbols) >>= fun symbols ↦ set { l with symbols } : WalkM Unit) l) _
  rw [hf, Scopes.block_of_chain hl.visible]
  cases hb : g σ.block with
  | error e =>
    rw [define_of_error hb]
    exact .error hl
  | ok b =>
    rw [define_of_ok hb]
    exact .ok trivial (hl.setBlock hc.own (hg _ _ hb hl.block))

private theorem defineVariable (hc : c.Stands s n homes env) {v : Variable} (hv : v.type.Below n) :
    Realizes s n c env (fun _ ↦ True) (WalkM.change fun s ↦ s.defineVariable c.scope v)
      (define fun b ↦ b.defineVariable v) := by
  refine change hc (fun symbols ↦ symbols.defineVariable_eq c.scope v) fun b b' hb hbelow ↦ ?_
  obtain ⟨_, rfl⟩ := Block.defineVariable_ok_iff.mp hb
  exact hbelow.addVariable hv

private theorem defineFunction (hc : c.Stands s n homes env) {f : Function}
    (hf : f.returns.Below n) :
    Realizes s n c env (fun _ ↦ True) (WalkM.change fun s ↦ s.defineFunction c.scope f)
      (define fun b ↦ b.defineFunction f) := by
  refine change hc (fun symbols ↦ symbols.defineFunction_eq c.scope f) fun b b' hb hbelow ↦ ?_
  obtain ⟨_, rfl⟩ := Block.defineFunction_ok_iff.mp hb
  exact hbelow.addFunction hf

/-- A scope made for a nested block is left behind, and the block is given up. -/
theorem nested (hc : c.Stands s n homes env) {x : Surroundings → WalkM α} {y : Env → CheckM α}
    (hframe : ∀ scope, Confined scope (x { c with scope }))
    (hxy : ∀ c' env', c'.Stands s n homes env' → Realizes s n c' env' Q (x c') (y env')) :
    Realizes s n c env Q (c.nested x) (env.nested y) := by
  intro l σ hl
  rw [Confined.run_nested]
  change EndsAlike _ _ _ (within .empty (y (env.inside σ.block)) σ)
  have hf := hframe l.symbols.scopes.size
    { l with symbols := (l.symbols.createScope (some c.scope)).1 }
  have hin := hxy _ _ (hc.inside hl) _ _ (hl.make hc.own)
  unfold within
  generalize hx : x _ _ = rx at hf hin
  generalize hy : y _ _ = ry at hin
  cases hin with
  | ok ha hl' => exact .ok ha (hl.after_nested hc.own hf hl'.table)
  | error hl' => exact .error (hl.after_nested hc.own hf hl'.table)

end WalkM.Realizes

/-! ### Statements, fields, methods and sources -/

variable (hs : s.Grounded n homes parent) (hc : c.Stands s n homes env)

include hs hc

/-- The type of an expression is found alike. -/
theorem Expr.walk_realizes (e : Expr NodeId) :
    Realizes s n c env (Ty.Below n) (e.walk c) (env.infer e) := by
  intro l σ hl
  obtain ⟨hx, hbelow⟩ := walk_infers (hl.renders hs hc) e l.resolutions
  change EndsAlike _ _ (e.walk c l) (withResolutions (e.infer env.scopes (σ.block :: env.outer)) σ)
  rw [show e.walk c l = onTable (e.infer env.scopes (σ.block :: env.outer)) l from hx]
  rw [hl.table] at hbelow
  unfold onTable withResolutions
  rw [hl.table]
  cases hy : e.infer env.scopes (σ.block :: env.outer) σ.resolutions with
  | ok t r => exact .ok (hbelow t r hy) (hl.withTable r)
  | error f r => exact .error (hl.withTable r)

private theorem Expr.walkOption_realizes (e : Option (Expr NodeId)) :
    Realizes s n c env (fun t ↦ ∀ u ∈ t, u.Below n) (walkOption c e) (env.inferOption e) := by
  cases e with
  | none => exact .pure nofun
  | some e =>
    refine (walk_realizes hs hc e).map some fun t ht u hu ↦ ?_
    cases hu
    exact ht

private theorem Surroundings.requireBoolean_realizes (construct : Construct) (e : Expr NodeId) :
    Realizes s n c env (fun _ ↦ True) (c.requireBoolean construct e)
      (env.requireBoolean construct e) :=
  (e.walk_realizes hs hc).bind fun _ _ ↦ .rule _

omit hs hc in
private theorem Stmt.walkControl_realizes (first : Stmt NodeId) :
    Realizes s n c env (fun _ ↦ True) (walkControl first) (controlType first) := by
  cases first with
  | declaration => exact (Realizes.readTable _).bind fun _ _ ↦ .pure trivial
  | assignment => exact (Realizes.readTable _).bind fun _ _ ↦ .pure trivial
  | _ => exact .pure trivial

omit hs hc in
private theorem Stmt.walkSameStep_realizes (control : Option Ty) (step : Stmt NodeId) :
    Realizes s n c env (fun _ ↦ True) (walkSameStep control step)
      (requireSameStep control step) := by
  cases control with
  | none => exact .pure trivial
  | some control =>
    cases step with
    | assignment => exact (Realizes.readTable _).bind fun _ _ ↦ .rule _
    | _ => exact .pure trivial

/-- The type of a declared variable comes from the catalog or from its value. -/
theorem Stmt.below_of_declaredType {name : Text} {typeName : Option Text} {found : Option Ty}
    (hfound : ∀ u ∈ found, u.Below n) {t : Ty}
    (h : declaredType env.catalog name typeName found = .ok t) : t.Below n := by
  obtain ⟨_, _, ht, _⟩ | ⟨_, ht⟩ := declaredType_ok_iff.mp h
  · exact hs.catalog t (hc.catalog ▸ Catalog.mem_of_find ht)
  · exact hfound t ht

private theorem Stmt.walkDeclaration_realizes (tag : NodeId) (name : Text) (typeName : Option Text)
    (value : Option (Expr NodeId)) :
    Realizes s n c env (fun _ ↦ True) (walkDeclaration c tag name typeName value)
      (checkDeclaration env tag name typeName value) :=
  (Expr.walkOption_realizes hs hc value).bind fun _ hfound ↦
    (Realizes.resolve hc fun _ ht ↦ below_of_declaredType hs hc hfound ht).bind fun _ ht ↦
    (Realizes.defineVariable hc ht).bind fun _ _ ↦ .onTable _

private theorem Stmt.walkAssignment_realizes (receiver value : Expr NodeId) :
    Realizes s n c env (fun _ ↦ True) (walkAssignment c receiver value)
      (checkAssignment env receiver value) :=
  (Realizes.rule _).bind fun _ _ ↦ (receiver.walk_realizes hs hc).bind fun _ _ ↦
    (value.walk_realizes hs hc).bind fun _ _ ↦ (Realizes.readTable _).bind fun _ _ ↦
    (Realizes.rule _).bind fun _ _ ↦ .rule _

private theorem Stmt.walkReturn_realizes (value : Expr NodeId) :
    Realizes s n c env (fun _ ↦ True) (walkReturn c value) (checkReturn env value) := by
  refine (value.walk_realizes hs hc).bind fun _ _ ↦ ?_
  rw [hc.returns]
  exact .rule _

omit hs hc

mutual

/-- A statement is checked alike. -/
theorem Stmt.walk_realizes (hs : s.Grounded n homes parent) {c : Surroundings}
    {env : Env} (hc : c.Stands s n homes env)
    (st : Stmt NodeId) : Realizes s n c env (fun _ ↦ True) (walk c st) (check env st) := by
  match st with
  | expression tag e =>
    rw [walk, check]
    exact (Realizes.rule _).bind fun _ _ ↦ (e.walk_realizes hs hc).bind fun _ _ ↦ .pure trivial
  | declaration tag name typeName value =>
    rw [walk, check]
    exact walkDeclaration_realizes hs hc tag name typeName value
  | assignment tag receiver value =>
    rw [walk, check]
    exact walkAssignment_realizes hs hc receiver value
  | ifElse tag condition thenBody elseBody =>
    rw [walk, check]
    exact (Realizes.rule _).bind fun _ _ ↦ (c.requireBoolean_realizes hs hc _ _).bind fun _ _ ↦
      (Realizes.nested hc (fun scope ↦ walkAll_confined { c with scope } thenBody)
        fun _ _ hc' ↦ walkAll_realizes hs hc' thenBody).bind fun _ _ ↦
      Realizes.nested hc (fun scope ↦ walkAll_confined { c with scope } elseBody)
        fun _ _ hc' ↦ walkAll_realizes hs hc' elseBody
  | forLoop tag initialization condition increment body =>
    rw [walk, check]
    exact (Realizes.rule _).bind fun _ _ ↦
      (walkFirst_realizes hs hc initialization).bind fun control _ ↦
      (c.requireBoolean_realizes hs hc _ _).bind fun _ _ ↦
      (walkStep_realizes hs hc control increment).bind fun _ _ ↦
      Realizes.nested hc (fun scope ↦ walkAll_confined { c with scope } body)
        fun _ _ hc' ↦ walkAll_realizes hs hc' body
  | whileLoop tag condition body =>
    rw [walk, check]
    exact (c.requireBoolean_realizes hs hc _ _).bind fun _ _ ↦
      Realizes.nested hc (fun scope ↦ walkAll_confined { c with scope } body)
        fun _ _ hc' ↦ walkAll_realizes hs hc' body
  | ret tag value =>
    rw [walk, check]
    exact walkReturn_realizes hs hc value

private theorem Stmt.walkFirst_realizes (hs : s.Grounded n homes parent) {c : Surroundings}
    {env : Env} (hc : c.Stands s n homes env)
    (initialization : Option (Stmt NodeId)) :
    Realizes s n c env (fun _ ↦ True) (walkFirst c initialization)
      (checkFirst env initialization) := by
  match initialization with
  | none =>
    rw [walkFirst, checkFirst]
    exact .pure trivial
  | some first =>
    rw [walkFirst, checkFirst]
    exact (walk_realizes hs hc first).bind fun _ _ ↦ (walkControl_realizes first).bind fun _ _ ↦
      (Realizes.rule _).bind fun _ _ ↦ .pure trivial

private theorem Stmt.walkStep_realizes (hs : s.Grounded n homes parent) {c : Surroundings}
    {env : Env} (hc : c.Stands s n homes env)
    (control : Option Ty) (increment : Option (Stmt NodeId)) :
    Realizes s n c env (fun _ ↦ True) (walkStep c control increment)
      (checkStep env control increment) := by
  match increment with
  | none =>
    rw [walkStep, checkStep]
    exact .pure trivial
  | some step =>
    rw [walkStep, checkStep]
    exact (walk_realizes hs hc step).bind fun _ _ ↦ walkSameStep_realizes control step

/-- The statements of a body are checked alike. -/
theorem Stmt.walkAll_realizes (hs : s.Grounded n homes parent) {c : Surroundings}
    {env : Env} (hc : c.Stands s n homes env)
    (ss : List (Stmt NodeId)) :
    Realizes s n c env (fun _ ↦ True) (walkAll c ss) (checkAll env ss) := by
  match ss with
  | [] =>
    rw [walkAll, checkAll]
    exact .pure trivial
  | st :: ss =>
    rw [walkAll, checkAll]
    exact (walk_realizes hs hc st).bind fun _ _ ↦ walkAll_realizes hs hc ss

end

include hs hc

/-- A field is checked alike. -/
theorem Field.walk_realizes (d : Field NodeId) :
    Realizes s n c env (fun _ ↦ True) (d.walk c) (d.check env) := by
  have htype {t : Ty} (h : env.catalog.resolve d.typeName = .ok t) : t.Below n :=
    hs.catalog t (hc.catalog ▸ Catalog.mem_of_find (Catalog.resolve_ok_iff.mp h))
  exact (Realizes.resolve hc fun _ ht ↦ htype ht).bind fun _ ht ↦
    (Expr.walkOption_realizes hs hc d.value).bind fun _ _ ↦ (Realizes.rule _).bind fun _ _ ↦
    (Realizes.defineVariable hc ht).bind fun _ _ ↦ .onTable _

/-- The types of a method come from the catalog. -/
theorem Method.below_of_signature {m : Method NodeId} {f : Function}
    (h : m.signature env.catalog = .ok f) :
    f.returns.Below n ∧ ∀ p ∈ f.parameters, p.Below n := by
  obtain ⟨_, ps, t, hps, ht, rfl⟩ := signature_ok_iff.mp h
  have hknown {u : Ty} (hu : u ∈ env.catalog.types) : u.Below n := hs.catalog u (hc.catalog ▸ hu)
  constructor
  · obtain ⟨_, _, hn⟩ | ⟨_, rfl⟩ := Catalog.resolveReturn_ok_iff.mp ht
    · exact hknown (Catalog.mem_of_find hn)
    · trivial
  · exact fun p hp ↦ hknown (Catalog.mem_of_resolveAll hps p hp)

omit hs in
/-- The parameters of a method go into its scope as they go into its block. If one of them is
refused, then some may be in the scope already, but the table is as it was. -/
theorem Method.walkParameters_realizes (method : NodeId) (position : Nat)
    {ps : List (Text × Ty)} (hps : ∀ p ∈ ps, p.2.Below n) {l : Live} {σ : State}
    (hl : Live.Shows s n c env l σ) :
    match σ.block.defineParameters method position ps with
    | .ok b => ∃ l', walkParameters c.scope method position ps l = .ok () l' ∧
        Live.Shows s n c env l' { σ with block := b }
    | .error e => ∃ l', walkParameters c.scope method position ps l = .error (.error e) l' ∧
        l'.resolutions = σ.resolutions := by
  induction ps generalizing position l σ with
  | nil => exact ⟨l, rfl, hl⟩
  | cons p rest ih =>
    obtain ⟨name, type⟩ := p
    rw [List.forall_mem_cons] at hps
    have hstep := Realizes.defineVariable hc
      (v := ⟨name, name, type, false, .parameter method position⟩) hps.1 l σ hl
    generalize hx : WalkM.change _ l = rx at hstep
    rw [Block.defineParameters]
    cases hb : σ.block.defineVariable ⟨name, name, type, false, .parameter method position⟩ with
    | error e =>
      rw [define_of_error hb] at hstep
      cases hstep with
      | error hl' => exact ⟨_, run_bind_of_error hx, hl'.table⟩
    | ok b =>
      rw [define_of_ok hb] at hstep
      cases hstep with
      | ok _ hl' =>
        have hrest := ih (position + 1) hps.2 hl'
        have hrun : walkParameters c.scope method position ((name, type) :: rest) l =
            walkParameters c.scope method (position + 1) rest _ := run_bind_of_ok hx
        rw [hrun]
        exact hrest

/-- The body of a method is checked alike, in a scope and a block that have its parameters. -/
theorem Method.walkBody_realizes (m : Method NodeId) {f : Function}
    (hf : ∀ p ∈ f.parameters, p.Below n) :
    Realizes s n c env (fun _ ↦ True) (c.nested fun inner ↦ walkBody inner.homes m f inner.scope)
      (do
        let around := (← get).block
        let block ← obey (Block.empty.defineParameters m.tag 0 (m.parameters.zip f.parameters))
        within block
          (Stmt.checkAll { env.inside around with returns := some f.returns } m.body)) := by
  intro l σ hl
  have hbelow : ∀ p ∈ m.parameters.zip f.parameters, p.2.Below n :=
    fun p hp ↦ hf p.2 (List.of_mem_zip hp).2
  have hstands := hc.inside hl
  have hparameters := walkParameters_realizes hstands m.tag 0 hbelow (hl.make hc.own)
  have hframe := walkBody_confined c.homes m f l.symbols.scopes.size
    { l with symbols := (l.symbols.createScope (some c.scope)).1 }
  change EndsAlike _ _ (walkBody c.homes m f l.symbols.scopes.size
      { l with symbols := (l.symbols.createScope (some c.scope)).1 })
    ((obey (Block.empty.defineParameters m.tag 0 (m.parameters.zip f.parameters)) >>= fun block ↦
      within block
        (Stmt.checkAll { env.inside σ.block with returns := some f.returns } m.body)) σ)
  dsimp only at hparameters
  cases hd : Block.empty.defineParameters m.tag 0 (m.parameters.zip f.parameters) with
  | error e =>
    rw [hd] at hparameters
    obtain ⟨l', hx, htable⟩ := hparameters
    have hrun : walkBody c.homes m f l.symbols.scopes.size _ = .error (.error e) l' :=
      run_bind_of_error hx
    rw [hrun] at hframe ⊢
    exact .error (hl.after_nested hc.own hframe htable)
  | ok b =>
    rw [hd] at hparameters
    obtain ⟨l', hx, hl'⟩ := hparameters
    have hrun : walkBody c.homes m f l.symbols.scopes.size _ = _ := run_bind_of_ok hx
    rw [hrun] at hframe ⊢
    have hbody := Stmt.walkAll_realizes hs (hstands.returning (some f.returns)) m.body _ _
      (hl'.returning (some f.returns))
    change EndsAlike _ _ _ (within b
      (Stmt.checkAll { env.inside σ.block with returns := some f.returns } m.body) σ)
    unfold within
    generalize hr : Stmt.walkAll _ _ l' = rx at hframe hbody
    generalize hy : Stmt.checkAll _ _ _ = ry at hbody
    cases hbody with
    | ok _ hl'' => exact .ok trivial (hl.after_nested hc.own hframe hl''.table)
    | error hl'' => exact .error (hl.after_nested hc.own hframe hl''.table)

/-- A method is checked alike. -/
theorem Method.walk_realizes (m : Method NodeId) :
    Realizes s n c env (fun _ ↦ True) (m.walk c) (m.check env) :=
  (Realizes.resolve hc fun _ hf ↦ below_of_signature hs hc hf).bind fun _ hf ↦
    (Realizes.defineFunction hc hf.1).bind fun _ _ ↦ (Realizes.onTable _).bind fun _ _ ↦
    walkBody_realizes hs hc m hf.2

/-- A tree is checked alike. -/
theorem Node.walk_realizes (tree : Node NodeId) :
    Realizes s n c env (fun _ ↦ True) (tree.walk c) (tree.check env) := by
  cases tree with
  | source src =>
    exact (Realizes.forM (Field.walk_realizes hs hc) src.fields).bind fun _ _ ↦
      (Realizes.forM (Method.walk_realizes hs hc) src.methods).bind fun _ _ ↦
      Realizes.look _
  | field d => exact d.walk_realizes hs hc
  | method m => exact m.walk_realizes hs hc
  | stmt st => exact Stmt.walk_realizes hs hc st
  | expr e => exact (e.walk_realizes hs hc).bind fun _ _ ↦ .pure trivial

end Steps

end TreeCheck
