import TreeCheck.Proofs.Histories

/-!
# Visible names and suggestions

The names that are visible from a scope are listed once each. A name stands in the list where the
innermost scope that defines it puts it, and within a scope names stand in the order in which they
were first defined there. Since a name is listed just if it can be looked up, and a failed lookup
suggests one of the names that are listed, what is suggested can be found.

The order is read off the calls that made the scopes. Every name in a block has a place, the scope
and the number of the call that made the binding; the places in a chain of blocks come in order, and
of the places of one name the first is the one that counts.
-/

namespace TreeCheck

/-! ### Lists without repetitions -/

section

variable {α β : Type}

/-- A list is gone through from its start, and what is not there yet is put at the end. -/
theorem eraseDups_concat [BEq α] [LawfulBEq α] (l : List α) (a : α) :
    (l ++ [a]).eraseDups = if a ∈ l then l.eraseDups else l.eraseDups ++ [a] := by
  rw [List.eraseDups_append]
  by_cases h : a ∈ l <;> simp [List.removeAll, h, List.eraseDups_cons]

private theorem nodup_eraseDups [BEq α] [LawfulBEq α] (l : List α) : l.eraseDups.Nodup := by
  induction l using List.reverseRecOn with
  | nil => exact List.nodup_nil
  | append_singleton l a ih =>
    rw [eraseDups_concat]
    split
    · exact ih
    · next hnew =>
      rw [← List.concat_eq_append, List.nodup_concat, List.mem_eraseDups]
      exact ⟨hnew, ih⟩

/-- Of the places of a name in a list of places and names, this one comes before the others. -/
def IsFirstPlace (before : β → β → Prop) (l : List (β × α)) (x : α) (p : β) : Prop :=
  (p, x) ∈ l ∧ ∀ q, (q, x) ∈ l → q = p ∨ before p q

variable {before : β → β → Prop} {l : List (β × α)} {x : α} {p : β}

private theorem IsFirstPlace.concat {last : β × α} (h : IsFirstPlace before l x p)
    (hlast : ∀ q ∈ l.map Prod.fst, before q last.1) : IsFirstPlace before (l ++ [last]) x p := by
  refine ⟨List.mem_append_left _ h.1, fun q hq ↦ ?_⟩
  rcases List.mem_append.mp hq with hq | hq
  · exact h.2 q hq
  · rw [show q = last.1 from congrArg Prod.fst (List.mem_singleton.mp hq)]
    exact .inr (hlast p (List.mem_map_of_mem h.1))

private theorem isFirstPlace_concat_self (hnew : x ∉ l.map Prod.snd) :
    IsFirstPlace before (l ++ [(p, x)]) x p := by
  refine ⟨List.mem_append_right _ List.mem_cons_self, fun q hq ↦ .inl ?_⟩
  rcases List.mem_append.mp hq with hq | hq
  · exact absurd (List.mem_map_of_mem hq) hnew
  · exact congrArg Prod.fst (List.mem_singleton.mp hq)

private theorem exists_isFirstPlace (h : (l.map Prod.fst).Pairwise before)
    (hx : x ∈ l.map Prod.snd) :
    ∃ p, IsFirstPlace before l x p := by
  induction l using List.reverseRecOn with
  | nil => cases hx
  | append_singleton l last ih =>
    rw [List.map_append, List.pairwise_append] at h
    by_cases hold : x ∈ l.map Prod.snd
    · obtain ⟨p, hp⟩ := ih h.1 hold
      exact ⟨p, hp.concat fun q hq ↦ h.2.2 q hq _ List.mem_cons_self⟩
    · rw [List.map_append, List.mem_append, or_iff_right hold] at hx
      obtain rfl := List.mem_singleton.mp hx
      exact ⟨last.1, isFirstPlace_concat_self hold⟩

/-- Names that are listed once each come in the order of their first places. -/
theorem pairwise_eraseDups [BEq α] [LawfulBEq α] (h : (l.map Prod.fst).Pairwise before) :
    (l.map Prod.snd).eraseDups.Pairwise fun x y ↦
      ∃ p q, IsFirstPlace before l x p ∧ IsFirstPlace before l y q ∧ before p q := by
  induction l using List.reverseRecOn with
  | nil => exact .nil
  | append_singleton l last ih =>
    rw [List.map_append, List.pairwise_append] at h
    obtain ⟨hl, -, hlast⟩ := h
    have hlast : ∀ q ∈ l.map Prod.fst, before q last.1 := fun q hq ↦ hlast q hq _ List.mem_cons_self
    have hold := (ih hl).imp (S := fun x y ↦ ∃ p q, IsFirstPlace before (l ++ [last]) x p ∧
      IsFirstPlace before (l ++ [last]) y q ∧ before p q) (by
        rintro x y ⟨p, q, hp, hq, hpq⟩
        exact ⟨p, q, hp.concat hlast, hq.concat hlast, hpq⟩)
    rw [List.map_append, List.map_singleton, eraseDups_concat]
    split
    · exact hold
    · next hnew =>
      refine List.pairwise_append.mpr ⟨hold, List.pairwise_singleton _ _, fun x hx y hy ↦ ?_⟩
      obtain rfl := List.mem_singleton.mp hy
      obtain ⟨p, hp⟩ := exists_isFirstPlace hl (List.mem_eraseDups.mp hx)
      exact ⟨p, last.1, hp.concat hlast, isFirstPlace_concat_self hnew,
        hlast p (List.mem_map_of_mem hp.1)⟩

end

/-! ### Names in blocks and chains -/

/-- Which of the visible names are listed. -/
inductive Scopes.Listing where
  | ofVariables
  | ofFunctions
deriving DecidableEq, Repr

open Scopes (Listing Key)

/-- The list that the name of a key is in. -/
def Scopes.Key.listing : Key → Listing
  | ofVariable _ => .ofVariables
  | ofFunction _ _ => .ofFunctions

/-- The name of a key. -/
def Scopes.Key.name : Key → Text
  | ofVariable name => name
  | ofFunction name _ => name

/-- The names in a block, in the order of their definitions. -/
def Block.names (b : Block) : Listing → List Text
  | .ofVariables => b.vars.map Variable.name
  | .ofFunctions => b.funs.map Function.name

private theorem Block.names_add (b : Block) (x : Binding) (listing : Listing) :
    (b.add x).names listing =
      b.names listing ++ if x.key.listing = listing then [x.key.name] else [] := by
  cases x <;> cases listing <;>
    simp [add, addVariable, addFunction, names, Binding.key, Key.listing, Key.name]

namespace Chain

variable {c : Chain} {listing : Listing} {x : Text}

/-- The visible names. -/
def names (c : Chain) : Listing → List Text
  | .ofVariables => c.variableNames
  | .ofFunctions => c.functionNames

/-- A lookup of a name succeeds; a function may have any number of parameters. -/
def Finds (c : Chain) : Listing → Text → Prop
  | .ofVariables, x => ∃ v, c.lookupVariable x = .ok v
  | .ofFunctions, x => ∃ arity f, c.lookupFunction x arity = .ok f

private theorem names_eq (c : Chain) (listing : Listing) :
    c.names listing = (c.flatMap fun b ↦ b.names listing).eraseDups := by
  cases listing <;> rfl

private theorem findVariable?_isSome_iff :
    (c.findVariable? x).isSome ↔ ∃ b ∈ c, ∃ v ∈ b.vars, v.name = x := by
  simp [findVariable?, Block.findVariable?]

private theorem findFunction?_isSome_iff {arity : Int} :
    (c.findFunction? x arity).isSome ↔
      ∃ b ∈ c, ∃ f ∈ b.funs, f.name = x ∧ (f.arity : Int) = arity := by
  simp [findFunction?, Block.findFunction?]

/-- The visible names are those that can be looked up. -/
theorem mem_names_iff : x ∈ c.names listing ↔ c.Finds listing x := by
  rw [names_eq, List.mem_eraseDups, List.mem_flatMap]
  cases listing with
  | ofVariables =>
    simp only [Finds, lookupVariable_ok_iff, ← Option.isSome_iff_exists, findVariable?_isSome_iff,
      Block.names, List.mem_map]
  | ofFunctions =>
    simp only [Finds, lookupFunction_ok_iff, ← Option.isSome_iff_exists, findFunction?_isSome_iff,
      Block.names, List.mem_map]
    constructor
    · rintro ⟨b, hb, f, hf, rfl⟩
      exact ⟨f.arity, b, hb, f, hf, rfl, rfl⟩
    · rintro ⟨arity, b, hb, f, hf, rfl, -⟩
      exact ⟨b, hb, f, hf, rfl⟩

end Chain

/-! ### Suggestions -/

/-- What is suggested is one of the candidates. -/
theorem Similarity.mem_of_closest {asked y : Text} {candidates : List Text}
    (h : closest asked candidates = some y) : y ∈ candidates := by
  obtain ⟨rated, hrated, rfl⟩ := List.mem_map.mp (List.mem_of_mem_head? h)
  obtain ⟨hrated, -⟩ := List.mem_filter.mp (List.mem_mergeSort.mp hrated)
  obtain ⟨candidate, hcandidate, rfl⟩ := List.mem_map.mp hrated
  exact hcandidate

/-- Whatever an error suggests has a property. -/
def ProgramError.Suggests (e : ProgramError) (P : Text → Prop) : Prop :=
  ∀ note ∈ e.notes, ∃ y, note = suggestionNote y ∧ P y

private theorem ProgramError.suggests_of_closest {e : ProgramError} {P : Text → Prop} {name : Text}
    {candidates : List Text} (he : e.suggestion = Similarity.closest name candidates)
    (h : ∀ y ∈ candidates, P y) : e.Suggests P := by
  intro note hnote
  obtain ⟨y, hy, rfl⟩ := Option.map_eq_some_iff.mp (Option.mem_toList.mp hnote)
  exact ⟨y, rfl, h y (Similarity.mem_of_closest (he.symm.trans hy))⟩

/-- A name that is found is not the one that is not found. -/
theorem ne_of_lookup {α : Type} {lookup : Text → Except ProgramError α} {name y : Text}
    {e : ProgramError} (h : lookup name = .error e) (hy : ∃ x, lookup y = .ok x) :
    y ≠ name ∧ ∃ x, lookup y = .ok x := by
  refine ⟨?_, hy⟩
  rintro rfl
  obtain ⟨x, hx⟩ := hy
  cases h.symm.trans hx

private theorem Chain.lookupVariable_suggests {c : Chain} {name : Text} {e : ProgramError}
    (h : c.lookupVariable name = .error e) :
    e.Suggests fun y ↦ y ≠ name ∧ ∃ v, c.lookupVariable y = .ok v := by
  have he : e.suggestion = Similarity.closest name c.variableNames := by
    unfold lookupVariable at h
    split at h <;> cases h
    rfl
  apply ProgramError.suggests_of_closest he
  intro y hy
  exact ne_of_lookup h ((@mem_names_iff c .ofVariables y).mp hy)

private theorem Chain.lookupFunction_suggests {c : Chain} {name : Text} {arity : Int}
    {e : ProgramError}
    (h : c.lookupFunction name arity = .error e) : e.Suggests (c.Finds .ofFunctions) := by
  have he : e.suggestion = Similarity.closest name c.functionNames := by
    unfold lookupFunction at h
    split at h <;> cases h
    rfl
  apply ProgramError.suggests_of_closest he
  intro y hy
  exact (@mem_names_iff c .ofFunctions y).mp hy

private theorem Scopes.lookupField_suggests {s : Scopes} {owner : Ty} {name : Text}
    {e : ProgramError} (h : s.lookupField owner name = .error e) :
    e.Suggests fun y ↦ y ≠ name ∧ ∃ v, s.lookupField owner y = .ok v := by
  have he : e.suggestion = Similarity.closest name (s.members owner).variableNames := by
    unfold lookupField Chain.lookupField at h
    split at h <;> cases h
    rfl
  apply ProgramError.suggests_of_closest he
  intro y hy
  obtain ⟨v, hv⟩ := (@Chain.mem_names_iff (s.members owner) .ofVariables y).mp hy
  exact ne_of_lookup h ⟨v, lookupField_ok_iff.mpr (Chain.lookupVariable_ok_iff.mp hv)⟩

private theorem Scopes.lookupMethod_suggests {s : Scopes} {owner : Ty} {name : Text} {arity : Int}
    {e : ProgramError} (h : s.lookupMethod owner name arity = .error e) :
    e.Suggests ((s.members owner).Finds .ofFunctions) := by
  have he : e.suggestion = Similarity.closest name (s.members owner).functionNames := by
    unfold lookupMethod Chain.lookupMethod at h
    split at h <;> cases h
    rfl
  apply ProgramError.suggests_of_closest he
  intro y hy
  exact (@Chain.mem_names_iff (s.members owner) .ofFunctions y).mp hy

private theorem Catalog.resolve_suggests {c : Catalog} {name : Text} {e : ProgramError}
    (h : c.resolve name = .error e) :
    e.Suggests fun y ↦ y ≠ name ∧ ∃ t, c.resolve y = .ok t := by
  have he : e.suggestion = Similarity.closest name c.names := by
    unfold resolve at h
    split at h <;> cases h
    rfl
  apply ProgramError.suggests_of_closest he
  intro y hy
  obtain ⟨t, ht, rfl⟩ := List.mem_map.mp hy
  have hfound : (c.find? t.name).isSome := by
    rw [find?, List.find?_isSome]
    exact ⟨t, ht, decide_eq_true rfl⟩
  obtain ⟨u, hu⟩ := Option.isSome_iff_exists.mp hfound
  exact ne_of_lookup h ⟨u, resolve_ok_iff.mpr hu⟩

/-! ### Places of names -/

namespace Scopes.History

variable {calls : List Call} {c : Call} {s : Scopes} {i j : Nat} {a id p : ScopeId}
  {listing : Listing} {x y : Text}

/-- The call with this number makes a binding with a name in a scope. -/
def MakesName (calls : List Call) (listing : Listing) (i : Nat) (a : ScopeId) (x : Text) : Prop :=
  ∃ key binding, key.listing = listing ∧ key.name = x ∧ Makes calls i a key binding

/-- The name that a call adds to a scope, unless its key is taken. -/
def addedName? (s : Scopes) (listing : Listing) (a : ScopeId) : Call → Option Text
  | .define b d =>
    if b = a ∧ d.key.listing = listing ∧ (s.block a).find? d.key = none then some d.key.name
    else none
  | .create _ => none
  | .lookup _ _ => none

private theorem addedName?_eq_some_iff :
    addedName? (after calls) listing a c = some x ↔
      ∃ d binding, c = .define a d ∧ d.key.listing = listing ∧ d.key.name = x ∧
        ((after calls).perform c).2 = .defined binding := by
  cases c with
  | create parent => simp [addedName?]
  | lookup b key => simp [addedName?]
  | define b d =>
    constructor
    · intro h
      rw [addedName?, Option.ite_none_right_eq_some] at h
      obtain ⟨⟨rfl, hlisting, hnone⟩, hname⟩ := h
      exact ⟨d, d.binding b, rfl, hlisting, Option.some.inj hname,
        perform_define_iff.mpr ⟨hnone, rfl⟩⟩
    · rintro ⟨_, binding, hcall, hlisting, rfl, hmade⟩
      cases hcall
      exact if_pos ⟨rfl, hlisting, (perform_define_iff.mp hmade).1⟩

private theorem makesName_append :
    MakesName (calls ++ [c]) listing i a x ↔
      MakesName calls listing i a x ∨
        i = calls.length ∧ addedName? (after calls) listing a c = some x := by
  rw [addedName?_eq_some_iff]
  constructor
  · rintro ⟨key, binding, hlisting, hname, hmakes⟩
    rcases makes_append.mp hmakes with hmakes | ⟨hi, d, hc, rfl, hmade⟩
    · exact .inl ⟨key, binding, hlisting, hname, hmakes⟩
    · exact .inr ⟨hi, d, binding, hc, hlisting, hname, hmade⟩
  · rintro (⟨key, binding, hlisting, hname, hmakes⟩ | ⟨hi, d, binding, hc, hlisting, hname, hmade⟩)
    · exact ⟨key, binding, hlisting, hname, makes_append.mpr (.inl hmakes)⟩
    · exact ⟨d.key, binding, hlisting, hname, makes_append.mpr (.inr ⟨hi, d, hc, rfl, hmade⟩)⟩

private theorem MakesName.lt_length (h : MakesName calls listing i a x) : i < calls.length := by
  obtain ⟨_, _, _, _, _, hcall, _⟩ := h
  exact (List.getElem?_eq_some_iff.mp hcall).1

private theorem block_create (parent : Option ScopeId) : (s.create parent).block a = s.block a := by
  by_cases h : a < s.size
  · exact block_create_of_lt h
  · have hnone : find? s.latestFirst a = none := by
      rw [Option.eq_none_iff_forall_ne_some]
      exact fun scope hscope ↦ h (lt_length_of_find? hscope)
    simp only [block, create, find?, hnone]
    split <;> rfl

/-- A call adds at most one name to a block, after those that are there. -/
theorem names_block_perform (hc : c.Legal s) :
    ((s.perform c).1.block a).names listing =
      (s.block a).names listing ++ (addedName? s listing a c).toList := by
  cases c with
  | create parent =>
    rw [addedName?, Option.toList_none, List.append_nil, perform, block_create]
  | lookup b key =>
    have hs : (s.perform (.lookup b key)).1 = s := by
      rw [perform]
      split <;> rfl
    rw [hs, addedName?, Option.toList_none, List.append_nil]
  | define b d =>
    cases hd : (s.block b).find? d.key with
    | none =>
      rw [perform_define_of_none hd]
      by_cases hab : b = a
      · subst hab
        rw [block_setBlock_self hc, Block.names_add, Definition.key_binding]
        by_cases hlisting : d.key.listing = listing <;> simp [addedName?, hlisting, hd]
      · rw [block_setBlock_of_ne (Ne.symm hab)]
        simp [addedName?, hab]
    | some y =>
      obtain ⟨e, -, he⟩ := perform_define_of_some hd
      have hnot : ¬ (b = a ∧ d.key.listing = listing ∧ (s.block a).find? d.key = none) := by
        rintro ⟨rfl, -, hnone⟩
        cases hd.symm.trans hnone
      rw [he, addedName?, if_neg hnot, Option.toList_none, List.append_nil]

/-- The names in a block are those that calls have made there, in the order of the calls. -/
theorem exists_numbers (hc : empty.Legal calls) (listing : Listing) (a : ScopeId) :
    ∃ l : List (Nat × Text), l.map Prod.snd = ((after calls).block a).names listing ∧
      (l.map Prod.fst).Pairwise (· < ·) ∧ ∀ i x, (i, x) ∈ l ↔ MakesName calls listing i a x := by
  induction calls using List.reverseRecOn with
  | nil =>
    refine ⟨[], by cases listing <;> rfl, .nil, fun i x ↦ iff_of_false List.not_mem_nil ?_⟩
    exact fun h ↦ absurd h.lt_length (Nat.not_lt_zero i)
  | append_singleton calls c ih =>
    obtain ⟨hcalls, hlegal⟩ := legal_append.mp hc
    obtain ⟨l, hnames, hordered, hmem⟩ := ih hcalls
    have hnames' : ((after (calls ++ [c])).block a).names listing =
        l.map Prod.snd ++ (addedName? (after calls) listing a c).toList := by
      rw [after_append, hnames]
      exact names_block_perform hlegal
    simp only [makesName_append]
    -- What the last call makes, if anything, has the largest number of all.
    cases hadded : addedName? (after calls) listing a c with
    | none =>
      rw [hadded, Option.toList_none, List.append_nil] at hnames'
      refine ⟨l, hnames'.symm, hordered, fun i x ↦ ?_⟩
      simp [hmem]
    | some y =>
      rw [hadded] at hnames'
      refine ⟨l ++ [(calls.length, y)], List.map_append.trans hnames'.symm, ?_, fun i x ↦ ?_⟩
      · rw [List.map_append, List.pairwise_append]
        refine ⟨hordered, List.pairwise_singleton _ _, fun i hi j hj ↦ ?_⟩
        obtain rfl := List.mem_singleton.mp hj
        obtain ⟨⟨_, x⟩, hx, rfl⟩ := List.mem_map.mp hi
        exact ((hmem _ x).mp hx).lt_length
      · rw [List.mem_append, hmem, List.mem_singleton, Prod.mk.injEq, Option.some.injEq,
          @eq_comm _ x y]

/-- A place comes before another if its scope is further inside, or if its call comes earlier. -/
def Before (calls : List Call) (p q : ScopeId × Nat) : Prop :=
  p.1 ≠ q.1 ∧ Encloses calls q.1 p.1 ∨ p.1 = q.1 ∧ p.2 < q.2

/-- Names with their places: all places in some scopes where calls have made the names, in order. -/
structure Places (calls : List Call) (listing : Listing) (among : ScopeId → Prop)
    (names : List Text) (l : List ((ScopeId × Nat) × Text)) : Prop where
  names : l.map Prod.snd = names
  ordered : (l.map Prod.fst).Pairwise (Before calls)
  mem : ∀ a i x, ((a, i), x) ∈ l ↔ among a ∧ MakesName calls listing i a x

section

variable {among among' : ScopeId → Prop} {names names' : List Text}
  {l l' : List ((ScopeId × Nat) × Text)}

private theorem Places.congr (h : Places calls listing among names l)
    (ha : ∀ a, among a ↔ among' a) :
    Places calls listing among' names l :=
  ⟨h.names, h.ordered, fun a i x ↦ by rw [h.mem, ha]⟩

/-- Places in some scopes, and then places in scopes around them. -/
theorem Places.append (h : Places calls listing among names l)
    (h' : Places calls listing among' names' l')
    (houtside : ∀ a b, among a → among' b → a ≠ b ∧ Encloses calls b a) :
    Places calls listing (fun a ↦ among a ∨ among' a) (names ++ names') (l ++ l') := by
  refine ⟨?_, ?_, fun a i x ↦ ?_⟩
  · rw [List.map_append, h.names, h'.names]
  · rw [List.map_append, List.pairwise_append]
    refine ⟨h.ordered, h'.ordered, fun p hp q hq ↦ .inl ?_⟩
    obtain ⟨⟨⟨a, i⟩, x⟩, hx, rfl⟩ := List.mem_map.mp hp
    obtain ⟨⟨⟨b, j⟩, y⟩, hy, rfl⟩ := List.mem_map.mp hq
    exact houtside a b ((h.mem a i x).mp hx).1 ((h'.mem b j y).mp hy).1
  · rw [List.mem_append, h.mem, h'.mem, or_and_right]

end

private theorem exists_places_in_block (hc : empty.Legal calls) (listing : Listing) (a : ScopeId) :
    ∃ l, Places calls listing (· = a) (((after calls).block a).names listing) l := by
  obtain ⟨l, hnames, hordered, hmem⟩ := exists_numbers hc listing a
  refine ⟨l.map fun place ↦ ((a, place.1), place.2), ?_, ?_, fun b i x ↦ ?_⟩
  · rw [List.map_map, ← hnames]
    rfl
  · rw [List.map_map]
    rw [List.pairwise_map] at hordered ⊢
    exact hordered.imp fun hlt ↦ .inr ⟨rfl, hlt⟩
  · constructor
    · intro hm
      obtain ⟨place, hplace, heq⟩ := List.mem_map.mp hm
      cases heq
      exact ⟨rfl, (hmem _ _).mp hplace⟩
    · rintro ⟨rfl, hmakes⟩
      exact List.mem_map.mpr ⟨(i, x), (hmem i x).mpr hmakes, rfl⟩

private theorem Tells.le_of_encloses (h : Tells calls s) (ha : Encloses calls a id) : a ≤ id := by
  induction ha with
  | refl => exact Nat.le_refl id
  | tail _ hp ih => exact Nat.le_of_lt (Nat.lt_of_lt_of_le (h.around_lt hp) ih)

private theorem encloses_iff :
    Encloses calls a id ↔ a = id ∨ ∃ p, around calls id = some p ∧ Encloses calls a p := by
  rw [Encloses, Relation.ReflTransGen.cases_head_iff, @eq_comm _ id a]
  rfl

/-- The names in the blocks of a chain have their places in the enclosing scopes. -/
theorem exists_places (hc : empty.Legal calls) (listing : Listing)
    (hid : id < (after calls).size) :
    ∃ l, Places calls listing (Encloses calls · id)
      (((after calls).chain id).flatMap fun b ↦ b.names listing) l := by
  have h := tells_after hc
  -- The scope around a scope was made before it.
  induction id using Nat.strongRecOn with
  | ind id ih =>
    obtain ⟨own, hown⟩ := exists_places_in_block hc listing id
    rw [chain_eq h.nested hid, h.parents, List.flatMap_cons]
    cases hp : around calls id with
    | none =>
      rw [Option.elim_none, List.flatMap_nil, List.append_nil]
      refine ⟨own, hown.congr fun a ↦ ?_⟩
      rw [@encloses_iff calls a id]
      simp [hp]
    | some p =>
      have hlt := h.around_lt hp
      obtain ⟨outer, houter⟩ := ih p hlt (Nat.lt_trans hlt hid)
      refine ⟨own ++ outer, (hown.append houter ?_).congr fun a ↦ ?_⟩
      · rintro _ b rfl hb
        have hle := h.le_of_encloses hb
        exact ⟨Nat.ne_of_gt (Nat.lt_of_le_of_lt hle hlt), .head hp hb⟩
      · rw [@encloses_iff calls a id]
        simp [hp]

/-- A name is defined in a scope around a place, by a call. No scope further inside defines the
name, and no earlier call does so in this scope. -/
structure FirstDefined (calls : List Call) (listing : Listing) (id : ScopeId) (x : Text)
    (a : ScopeId) (i : Nat) : Prop where
  visible : Encloses calls a id
  makes : MakesName calls listing i a x
  innermost : ∀ b j, Encloses calls b id → MakesName calls listing j b x → Encloses calls b a
  first : ∀ j, MakesName calls listing j a x → i ≤ j

/-- A name goes before another if the innermost scope that defines it is further inside, or if it is
the same scope and the name was first defined earlier there. -/
def Precedes (calls : List Call) (listing : Listing) (id : ScopeId) (x y : Text) : Prop :=
  ∃ a i b j, FirstDefined calls listing id x a i ∧ FirstDefined calls listing id y b j ∧
    Before calls (a, i) (b, j)

private theorem Places.firstDefined {names : List Text} {l : List ((ScopeId × Nat) × Text)}
    {place : ScopeId × Nat} (h : Places calls listing (Encloses calls · id) names l)
    (hfirst : IsFirstPlace (Before calls) l x place) :
    FirstDefined calls listing id x place.1 place.2 := by
  obtain ⟨hplace, hothers⟩ := hfirst
  obtain ⟨hvisible, hmakes⟩ := (h.mem _ _ _).mp hplace
  refine ⟨hvisible, hmakes, fun b j hb hj ↦ ?_, fun j hj ↦ ?_⟩
  · rcases hothers (b, j) ((h.mem b j x).mpr ⟨hb, hj⟩) with rfl | ⟨-, hencloses⟩ | ⟨heq, -⟩
    · exact .refl
    · exact hencloses
    · rw [heq]
      exact .refl
  · rcases hothers (place.1, j) ((h.mem _ j x).mpr ⟨hvisible, hj⟩) with heq | ⟨hne, -⟩ | ⟨-, hlt⟩
    · exact Nat.le_of_eq (congrArg Prod.snd heq).symm
    · exact absurd rfl hne
    · exact Nat.le_of_lt hlt

/-- The visible names stand in their order. -/
theorem pairwise_names (hc : empty.Legal calls) (listing : Listing)
    (hid : id < (after calls).size) :
    (((after calls).chain id).names listing).Pairwise (Precedes calls listing id) := by
  obtain ⟨l, h⟩ := exists_places hc listing hid
  rw [Chain.names_eq, ← h.names]
  refine (pairwise_eraseDups h.ordered).imp ?_
  rintro x y ⟨p, q, hp, hq, hpq⟩
  exact ⟨p.1, p.2, q.1, q.2, h.firstDefined hp, h.firstDefined hq, hpq⟩

/-- Whatever calls have been made, the names that are visible from a scope are listed once each,
ordered by the innermost scope that defines them and then by their first definition there, and they
are just the names that can be looked up. Therefore whatever a failed lookup of a variable, a field
or a type suggests is another name that the same lookup finds, and what a failed lookup of a
function or a method suggests is the name of a function that is visible there with some number of
parameters. -/
theorem visible_names_resolve :
    (∀ calls, empty.Legal calls → ∀ id, id < (after calls).size → ∀ listing,
      (((after calls).chain id).names listing).Nodup ∧
      (((after calls).chain id).names listing).Pairwise (Precedes calls listing id) ∧
      ∀ x, x ∈ ((after calls).chain id).names listing ↔ ((after calls).chain id).Finds listing x) ∧
    (∀ (c : Chain) name e, c.lookupVariable name = .error e →
      e.Suggests fun y ↦ y ≠ name ∧ ∃ v, c.lookupVariable y = .ok v) ∧
    (∀ (s : Scopes) owner name e, s.lookupField owner name = .error e →
      e.Suggests fun y ↦ y ≠ name ∧ ∃ v, s.lookupField owner y = .ok v) ∧
    (∀ (c : Catalog) name e, c.resolve name = .error e →
      e.Suggests fun y ↦ y ≠ name ∧ ∃ t, c.resolve y = .ok t) ∧
    (∀ (c : Chain) name arity e, c.lookupFunction name arity = .error e →
      e.Suggests fun y ↦ ∃ n f, c.lookupFunction y n = .ok f) ∧
    ∀ (s : Scopes) owner name arity e, s.lookupMethod owner name arity = .error e →
      e.Suggests fun y ↦ ∃ n f, (s.members owner).lookupFunction y n = .ok f := by
  refine ⟨fun calls hc id hid listing ↦ ⟨?_, pairwise_names hc listing hid, ?_⟩, ?_, ?_, ?_, ?_, ?_⟩
  · rw [Chain.names_eq]
    exact nodup_eraseDups _
  · exact fun x ↦ Chain.mem_names_iff
  · exact fun c name e h ↦ Chain.lookupVariable_suggests h
  · exact fun s owner name e h ↦ lookupField_suggests h
  · exact fun c name e h ↦ Catalog.resolve_suggests h
  · exact fun c name arity e h ↦ Chain.lookupFunction_suggests h
  · exact fun s owner name arity e h ↦ lookupMethod_suggests h

/-- Two scopes, of which the inner one hides a variable of the outer one and defines a function with
two numbers of parameters. -/
def hidingDefinitions : List Call :=
  [.create none, .create (some 0), .define 0 (.ofVariable "total" "a" .integer false),
    .define 0 (.ofVariable "count" "b" .integer false),
    .define 1 (.ofVariable "count" "c" .string false),
    .define 1 (.ofFunction "f" "f1" [.integer] .nil), .define 1 (.ofFunction "g" "g" [] .nil),
    .define 1 (.ofFunction "f" "f2" [.integer, .integer] .nil)]

/-- A misspelt name is answered by a visible one, which resolves. -/
theorem hidingDefinitions_names_resolve :
    empty.Legal hidingDefinitions ∧
      Precedes hidingDefinitions .ofVariables 1 "count" "total" ∧
      Precedes hidingDefinitions .ofFunctions 1 "f" "g" ∧
      ∃ e y v, ((after hidingDefinitions).chain 1).lookupVariable "totl" = .error e ∧
        e.notes = [ProgramError.suggestionNote y] ∧ y ≠ "totl" ∧
        ((after hidingDefinitions).chain 1).lookupVariable y = .ok v := by
  have hc : empty.Legal hidingDefinitions := by decide
  have hvariables : ((after hidingDefinitions).chain 1).names .ofVariables =
      [("count" : Text), "total"] := by decide
  have hfunctions : ((after hidingDefinitions).chain 1).names .ofFunctions =
      [("f" : Text), "g"] := by decide
  have hnone : ((after hidingDefinitions).chain 1).findVariable? "totl" = none := by decide
  have hclosest : Similarity.closest "totl" ((after hidingDefinitions).chain 1).variableNames =
      some ("total" : Text) := by decide +kernel
  have hfails : ((after hidingDefinitions).chain 1).lookupVariable "totl" =
      .error (.undefinedVariable "totl" (some ("total" : Text))) := by
    rw [Chain.lookupVariable, hnone, hclosest]
  obtain ⟨hnames, hlookup, -⟩ := visible_names_resolve
  have hnames := hnames hidingDefinitions hc 1 (by decide)
  refine ⟨hc, ?_, ?_, ?_⟩
  · have hordered := (hnames .ofVariables).2.1
    rw [hvariables] at hordered
    exact List.rel_of_pairwise_cons hordered List.mem_cons_self
  · have hordered := (hnames .ofFunctions).2.1
    rw [hfunctions] at hordered
    exact List.rel_of_pairwise_cons hordered List.mem_cons_self
  · obtain ⟨y, hy, hne, v, hv⟩ := hlookup _ _ _ hfails _ List.mem_cons_self
    exact ⟨_, y, v, hfails, congrArg ([·]) hy, hne, hv⟩

end Scopes.History

end TreeCheck
