import TreeCheck.Proofs.Grammar
import TreeCheck.Proofs.Rules
import TreeCheck.Tree.Reader

/-!
# Reading accepts exactly the grammar

Reading a value gives a tree exactly if the value denotes the tree. Each way of looking up a key
succeeds exactly if the rule of the grammar about the key holds; the statement about nodes then
follows the recursion of the readers.
-/

namespace TreeCheck

open Json (Value)

/-! ### Keys -/

private theorem except_map_ok_iff {α β ε : Type} {x : Except ε α} {f : α → β} {b : β} :
    f <$> x = .ok b ↔ ∃ a, x = .ok a ∧ f a = b := by
  cases x with
  | error e => simp [Functor.map, Except.map]
  | ok a => simp [Functor.map, Except.map]

/-- Reading every item of a list succeeds if it succeeds on each. -/
theorem except_mapM_ok_iff {α β ε : Type} {f : α → Except ε β} {xs : List α} {ys : List β} :
    xs.mapM f = .ok ys ↔ List.Forall₂ (fun x y ↦ f x = .ok y) xs ys := by
  induction xs generalizing ys with
  | nil => cases ys <;> simp [except_pure_ok_iff]
  | cons x xs ih =>
    rw [List.mapM_cons, List.forall₂_cons_left_iff]
    simp only [except_bind_ok_iff, except_pure_ok_iff, ih]
    grind

/-- A kind is determined by its keyword. -/
theorem Kind.ofKeyword?_keyword (k : Kind) : Kind.ofKeyword? k.keyword = some k := by
  cases k <;> rfl

private theorem Kind.ofKeyword?_eq_some_iff {t : Text} {k : Kind} :
    Kind.ofKeyword? t = some k ↔ t = k.keyword := by
  constructor
  · intro h
    have := List.find?_some h
    exact (of_decide_eq_true this).symm
  · intro h
    rw [h, ofKeyword?_keyword]

private theorem Json.Value.isTrue_eq_false_iff {v : Value} : v.isTrue = false ↔ v.Falsy := by
  constructor
  · intro h
    cases v with
    | null => exact .null
    | bool b => cases h; exact .false
    | integer n =>
      have hn : n = 0 := by simpa [isTrue] using h
      rw [hn]
      exact .zero
    | decimal d =>
      cases d with
      | finite negative coefficient exponent =>
        have hc : coefficient = 0 := by simpa [isTrue, Decimal.isZero] using h
        rw [hc]
        exact .decimalZero negative exponent
      | infinite negative => cases h
      | notANumber negative signaling payload => cases h
    | nonFinite n => cases h
    | string t =>
      cases t with
      | nil => exact .emptyString
      | cons c t => cases h
    | array items =>
      cases items with
      | nil => exact .emptyArray
      | cons v vs => cases h
    | object entries =>
      cases entries with
      | nil => exact .emptyObject
      | cons entry entries => cases h
  · intro h
    cases h <;> rfl

namespace Json.Entries

variable {o : Entries} {kind : Kind} {key : Text}

private theorem child_eq_null_iff : o.child key = .null ↔ o.Lacks key := by
  unfold child Lacks
  cases o.get? key <;> simp

private theorem child_eq_iff {v : Value} (hv : v ≠ .null) :
    o.child key = v ↔ o.get? key = some v := by
  unfold child
  cases o.get? key with
  | none => simp [hv.symm]
  | some w => simp

private theorem child_of_get? {v : Value} (h : o.get? key = some v) : o.child key = v := by
  rw [child, h, Option.getD_some]

private theorem flag_iff : o.flag key = true ↔ o.Flagged key := by
  unfold flag child Flagged
  cases o.get? key with
  | none => simp [Value.isTrue]
  | some v => simp [← Value.isTrue_eq_false_iff]

private theorem kind_ok_iff {name : Text} :
    o.kind = .ok name ↔ o.get? "kind" = some (.string name) := by
  unfold Entries.kind
  split
  · next h => simp [h]
  · next h => simp; exact fun hk ↦ h _ hk

/-- A name that stands for a kind is the name of that kind. -/
theorem isOf_of_kind {name : Text} (hname : o.kind = .ok name)
    (hk : Kind.ofKeyword? name = some kind) : o.IsOf kind := by
  rw [kind_ok_iff, Kind.ofKeyword?_eq_some_iff.mp hk] at hname
  exact hname

private theorem string_ok_iff {t : Text} :
    o.string kind key = .ok t ↔ o.get? key = some (.string t) := by
  unfold string
  split
  · next h => simp [h]
  · next h => simp; exact fun hk ↦ h _ hk

private theorem string?_ok_iff {t : Option Text} : o.string? kind key = .ok t ↔ o.Names key t := by
  unfold string?
  constructor
  · intro h
    split at h
    · next hnull =>
      cases h
      exact .absent (child_eq_null_iff.mp hnull)
    · next hstring =>
      cases h
      exact .present ((child_eq_iff Value.noConfusion).mp hstring)
    · cases h
  · intro h
    cases h with
    | absent h => rw [child_eq_null_iff.mpr h]
    | present h => rw [(child_eq_iff Value.noConfusion).mpr h]

/-- What is read as a list is what the key lists, if it lists anything. -/
theorem lists_iff {items : List Value} {u : Unit} :
    o.requireList kind key = .ok u ∧ o.items key = items ↔ o.Lists key items := by
  unfold requireList Entries.items
  constructor
  · intro ⟨hlist, hitems⟩
    split at hlist
    · next h =>
      rw [h] at hitems
      cases hitems
      exact .absent h
    · next h =>
      rw [h] at hitems
      cases hitems
      exact .present h
    · cases hlist
  · intro h
    cases h with
    | absent h => simp [h]
    | present h => simp [h]

private theorem strings_ok_iff {ts : List Text} :
    o.strings kind key = .ok ts ↔ o.Lists key (ts.map .string) := by
  unfold strings
  rw [except_bind_ok_iff]
  simp only [except_mapM_ok_iff]
  constructor
  · intro ⟨u, hlist, hall⟩
    have hitems : o.items key = ts.map .string := by
      rw [← List.forall₂_eq_eq_eq, List.forall₂_map_right_iff]
      refine hall.imp ?_
      intro v t h
      split at h
      · cases h
        rfl
      · cases h
    exact lists_iff.mp ⟨hlist, hitems⟩
  · intro h
    obtain ⟨hlist, hitems⟩ := lists_iff.mpr h
    refine ⟨(), hlist, ?_⟩
    rw [hitems, List.forall₂_map_left_iff, List.forall₂_same]
    intro t ht
    rfl

end Json.Entries

/-! ### Expressions -/

private theorem Literal.ofEntries_ok_iff {o : Json.Entries} {l : Literal} :
    Literal.ofEntries o = .ok l ↔ l.Denoted o := by
  unfold Literal.ofEntries
  constructor
  · intro h
    split at h
    · next hflag =>
      split at h
      · next hvalue =>
        cases h
        exact .character (Json.Entries.flag_iff.mp hflag)
          ((Json.Entries.child_eq_iff Value.noConfusion).mp hvalue)
      · cases h
    · next hflag =>
      rw [Json.Entries.flag_iff] at hflag
      split at h
      · next hvalue =>
        cases h
        exact .nil hflag (Json.Entries.child_eq_null_iff.mp hvalue)
      all_goals
        rename_i hvalue
        rw [Json.Entries.child_eq_iff Value.noConfusion] at hvalue
        cases h
      · exact .boolean hflag hvalue
      · exact .integer hflag hvalue
      · exact .decimal hflag hvalue
      · exact .nonFinite hflag hvalue
      · exact .string hflag hvalue
  · intro h
    cases h with
    | character hflag hvalue =>
      rw [if_pos (Json.Entries.flag_iff.mpr hflag),
        (Json.Entries.child_eq_iff Value.noConfusion).mpr hvalue]
    | nil hflag hvalue =>
      rw [if_neg (mt Json.Entries.flag_iff.mp hflag), Json.Entries.child_eq_null_iff.mpr hvalue]
    | boolean hflag hvalue | string hflag hvalue | integer hflag hvalue | decimal hflag hvalue
    | nonFinite hflag hvalue =>
      rw [if_neg (mt Json.Entries.flag_iff.mp hflag),
        (Json.Entries.child_eq_iff Value.noConfusion).mpr hvalue]

namespace Expr

variable {o : Json.Entries} {key : Text}

/-- A child that denotes an expression is there, since null denotes none. -/
theorem Denoted.get?_of_child {e : Expr Unit} (h : e.Denoted (o.child key)) :
    ∃ v, o.get? key = some v ∧ e.Denoted v := by
  unfold Json.Entries.child at h
  cases hv : o.get? key with
  | none =>
    rw [hv] at h
    cases h
  | some v =>
    rw [hv] at h
    exact ⟨v, rfl, h⟩

private theorem DenotedOption.get?_of_child {e : Option (Expr Unit)}
    (h : DenotedOption (some (o.child key)) e) : DenotedOption (o.get? key) e := by
  unfold Json.Entries.child at h
  cases hv : o.get? key with
  | none =>
    rw [hv] at h
    cases h with
    | null => exact .absent
    | present h => cases h
  | some v =>
    rw [hv] at h
    exact h

mutual

private theorem denoted_of_ofEntries (o : Json.Entries) (e : Expr Unit) (h : ofEntries o = .ok e) :
    e.Denoted (.object o) := by
  rw [ofEntries] at h
  obtain ⟨name, hname, h⟩ := except_bind_ok_iff.mp h
  split at h
  · next hk =>
    simp only [except_bind_ok_iff, except_pure_ok_iff] at h
    obtain ⟨value, hvalue, rfl⟩ := h
    exact .literal (Json.Entries.isOf_of_kind hname hk) (Literal.ofEntries_ok_iff.mp hvalue)
  · next hk =>
    simp only [except_bind_ok_iff, except_pure_ok_iff] at h
    obtain ⟨inner, hinner, rfl⟩ := h
    obtain ⟨v, hv, hinner⟩ := (denoted_of_ofJson _ inner hinner).get?_of_child
    exact .group (Json.Entries.isOf_of_kind hname hk) hv hinner
  · next hk =>
    simp only [except_bind_ok_iff, except_pure_ok_iff] at h
    obtain ⟨operator, hoperator, left, hleft, right, hright, rfl⟩ := h
    obtain ⟨l, hl, hleft⟩ := (denoted_of_ofJson _ left hleft).get?_of_child
    obtain ⟨r, hr, hright⟩ := (denoted_of_ofJson _ right hright).get?_of_child
    exact .binary (Json.Entries.isOf_of_kind hname hk)
      (Json.Entries.string_ok_iff.mp hoperator) hl hleft hr hright
  · next hk =>
    simp only [except_bind_ok_iff, except_pure_ok_iff] at h
    obtain ⟨receiver, hreceiver, name', hname', rfl⟩ := h
    exact .access (Json.Entries.isOf_of_kind hname hk)
      (denoted_of_optional _ receiver hreceiver).get?_of_child
      (Json.Entries.string_ok_iff.mp hname')
  · next hk =>
    simp only [except_bind_ok_iff, except_pure_ok_iff] at h
    obtain ⟨receiver, hreceiver, name', hname', _, hlist, arguments, harguments, rfl⟩ := h
    exact .call (Json.Entries.isOf_of_kind hname hk)
      (denoted_of_optional _ receiver hreceiver).get?_of_child
      (Json.Entries.string_ok_iff.mp hname') (Json.Entries.lists_iff.mp ⟨hlist, rfl⟩)
      (denoted_of_ofJsonAll _ arguments harguments)
  · cases h
termination_by 3 * sizeOf (Value.object o)
decreasing_by
  all_goals
    first
    | exact Json.Entries.weight_child_lt _ _ (by decide)
    | exact Json.Entries.weight_items_lt ..

private theorem denoted_of_ofJson (v : Value) (e : Expr Unit) (h : ofJson v = .ok e) :
    e.Denoted v := by
  rw [ofJson.eq_def] at h
  split at h
  · exact denoted_of_ofEntries _ e h
  · cases h
termination_by 3 * sizeOf v + 1

private theorem denoted_of_optional (v : Value) (e : Option (Expr Unit)) (h : optional v = .ok e) :
    DenotedOption (some v) e := by
  rw [optional.eq_def] at h
  split at h
  · cases h
    exact .null
  · obtain ⟨e, he, rfl⟩ := except_map_ok_iff.mp h
    exact .present (denoted_of_ofJson v e he)
termination_by 3 * sizeOf v + 2

private theorem denoted_of_ofJsonAll (vs : List Value) (es : List (Expr Unit)) :
    ofJsonAll vs = .ok es → DenotedAll vs es := by
  cases vs with
  | nil =>
    intro h
    rw [ofJsonAll] at h
    cases h
    exact .nil
  | cons v vs =>
    intro h
    rw [ofJsonAll] at h
    simp only [except_bind_ok_iff, except_pure_ok_iff] at h
    obtain ⟨e, he, es, hes, rfl⟩ := h
    exact .cons (denoted_of_ofJson v e he) (denoted_of_ofJsonAll vs es hes)
termination_by 3 * sizeOf vs
decreasing_by
  all_goals simp only [List.cons.sizeOf_spec]; omega

end

mutual

private theorem Denoted.ofJson_eq {v : Value} {e : Expr Unit} (h : e.Denoted v) :
    ofJson v = .ok e := by
  cases h with
  | literal hkind hvalue =>
    rw [ofJson, ofEntries]
    refine except_bind_ok_iff.mpr ⟨_, Json.Entries.kind_ok_iff.mpr hkind, ?_⟩
    exact except_bind_ok_iff.mpr ⟨_, Literal.ofEntries_ok_iff.mpr hvalue, rfl⟩
  | group hkind hkey hinner =>
    have hinner := hinner.ofJson_eq
    rw [← Json.Entries.child_of_get? hkey] at hinner
    rw [ofJson, ofEntries]
    refine except_bind_ok_iff.mpr ⟨_, Json.Entries.kind_ok_iff.mpr hkind, ?_⟩
    exact except_bind_ok_iff.mpr ⟨_, hinner, rfl⟩
  | binary hkind hoperator hl hleft hr hright =>
    have hleft := hleft.ofJson_eq
    have hright := hright.ofJson_eq
    rw [← Json.Entries.child_of_get? hl] at hleft
    rw [← Json.Entries.child_of_get? hr] at hright
    rw [ofJson, ofEntries]
    refine except_bind_ok_iff.mpr ⟨_, Json.Entries.kind_ok_iff.mpr hkind, ?_⟩
    refine except_bind_ok_iff.mpr ⟨_, Json.Entries.string_ok_iff.mpr hoperator, ?_⟩
    refine except_bind_ok_iff.mpr ⟨_, hleft, ?_⟩
    exact except_bind_ok_iff.mpr ⟨_, hright, rfl⟩
  | access hkind hreceiver hname =>
    have hreceiver := hreceiver.optional_eq
    rw [ofJson, ofEntries]
    refine except_bind_ok_iff.mpr ⟨_, Json.Entries.kind_ok_iff.mpr hkind, ?_⟩
    refine except_bind_ok_iff.mpr ⟨_, hreceiver, ?_⟩
    exact except_bind_ok_iff.mpr ⟨_, Json.Entries.string_ok_iff.mpr hname, rfl⟩
  | call hkind hreceiver hname hitems harguments =>
    have hreceiver := hreceiver.optional_eq
    have harguments := harguments.ofJsonAll_eq
    obtain ⟨hlist, hitems⟩ := Json.Entries.lists_iff.mpr hitems
    rw [← hitems] at harguments
    rw [ofJson, ofEntries]
    refine except_bind_ok_iff.mpr ⟨_, Json.Entries.kind_ok_iff.mpr hkind, ?_⟩
    refine except_bind_ok_iff.mpr ⟨_, hreceiver, ?_⟩
    refine except_bind_ok_iff.mpr ⟨_, Json.Entries.string_ok_iff.mpr hname, ?_⟩
    refine except_bind_ok_iff.mpr ⟨(), hlist, ?_⟩
    exact except_bind_ok_iff.mpr ⟨_, harguments, rfl⟩

private theorem DenotedOption.optional_eq {v : Option Value} {e : Option (Expr Unit)}
    (h : DenotedOption v e) : optional (v.getD .null) = .ok e := by
  cases h with
  | absent => rw [Option.getD_none, optional]
  | null => rw [Option.getD_some, optional]
  | @present v e h =>
    have hnull : v ≠ .null := by
      intro hv
      subst hv
      cases h
    have he := h.ofJson_eq
    rw [Option.getD_some, optional.eq_2 _ hnull]
    exact except_map_ok_iff.mpr ⟨e, he, rfl⟩

private theorem DenotedAll.ofJsonAll_eq {vs : List Value} {es : List (Expr Unit)}
    (h : DenotedAll vs es) : ofJsonAll vs = .ok es := by
  cases h with
  | nil => rw [ofJsonAll]
  | cons head tail =>
    have head := head.ofJson_eq
    have tail := tail.ofJsonAll_eq
    rw [ofJsonAll]
    refine except_bind_ok_iff.mpr ⟨_, head, ?_⟩
    exact except_bind_ok_iff.mpr ⟨_, tail, rfl⟩

end

end Expr

/-- Reading an expression succeeds exactly if the value denotes one. -/
theorem Expr.ofJson_ok_iff {v : Value} {e : Expr Unit} : Expr.ofJson v = .ok e ↔ e.Denoted v :=
  ⟨denoted_of_ofJson v e, Denoted.ofJson_eq⟩

/-! ### Statements -/

namespace Stmt

variable {o : Json.Entries} {key : Text}

private theorem DenotedOption.get?_of_child {s : Option (Stmt Unit)}
    (h : DenotedOption (some (o.child key)) s) : DenotedOption (o.get? key) s := by
  unfold Json.Entries.child at h
  cases hv : o.get? key with
  | none =>
    rw [hv] at h
    cases h with
    | null => exact .absent
    | present h => cases h
  | some v =>
    rw [hv] at h
    exact h

mutual

private theorem denoted_of_ofEntries (o : Json.Entries) (s : Stmt Unit) (h : ofEntries o = .ok s) :
    s.Denoted (.object o) := by
  rw [ofEntries] at h
  obtain ⟨name, hname, h⟩ := except_bind_ok_iff.mp h
  split at h
  · next hk =>
    simp only [except_bind_ok_iff, except_pure_ok_iff] at h
    obtain ⟨e, he, rfl⟩ := h
    obtain ⟨v, hv, he⟩ := (Expr.denoted_of_ofJson _ e he).get?_of_child
    exact .expression (Json.Entries.isOf_of_kind hname hk) hv he
  · next hk =>
    simp only [except_bind_ok_iff, except_pure_ok_iff] at h
    obtain ⟨typeName, htypeName, name', hname', value, hvalue, rfl⟩ := h
    exact .declaration (Json.Entries.isOf_of_kind hname hk)
      (Json.Entries.string_ok_iff.mp hname') (Json.Entries.string?_ok_iff.mp htypeName)
      (Expr.denoted_of_optional _ value hvalue).get?_of_child
  · next hk =>
    simp only [except_bind_ok_iff, except_pure_ok_iff] at h
    obtain ⟨receiver, hreceiver, value, hvalue, rfl⟩ := h
    obtain ⟨r, hr, hreceiver⟩ := (Expr.denoted_of_ofJson _ receiver hreceiver).get?_of_child
    obtain ⟨v, hv, hvalue⟩ := (Expr.denoted_of_ofJson _ value hvalue).get?_of_child
    exact .assignment (Json.Entries.isOf_of_kind hname hk) hr hreceiver hv hvalue
  · next hk =>
    simp only [except_bind_ok_iff, except_pure_ok_iff] at h
    obtain ⟨condition, hcondition, _, hthen, thenBody, hthenBody, _, helse, elseBody, helseBody,
      rfl⟩ := h
    obtain ⟨c, hc, hcondition⟩ := (Expr.denoted_of_ofJson _ condition hcondition).get?_of_child
    exact .ifElse (Json.Entries.isOf_of_kind hname hk) hc hcondition
      (Json.Entries.lists_iff.mp ⟨hthen, rfl⟩) (denoted_of_ofJsonAll _ thenBody hthenBody)
      (Json.Entries.lists_iff.mp ⟨helse, rfl⟩) (denoted_of_ofJsonAll _ elseBody helseBody)
  · next hk =>
    simp only [except_bind_ok_iff, except_pure_ok_iff] at h
    obtain ⟨initialization, hinitialization, condition, hcondition, increment, hincrement, _,
      hlist, body, hbody, rfl⟩ := h
    obtain ⟨c, hc, hcondition⟩ := (Expr.denoted_of_ofJson _ condition hcondition).get?_of_child
    exact .forLoop (Json.Entries.isOf_of_kind hname hk)
      (denoted_of_optional _ initialization hinitialization).get?_of_child hc hcondition
      (denoted_of_optional _ increment hincrement).get?_of_child
      (Json.Entries.lists_iff.mp ⟨hlist, rfl⟩) (denoted_of_ofJsonAll _ body hbody)
  · next hk =>
    simp only [except_bind_ok_iff, except_pure_ok_iff] at h
    obtain ⟨condition, hcondition, _, hlist, body, hbody, rfl⟩ := h
    obtain ⟨c, hc, hcondition⟩ := (Expr.denoted_of_ofJson _ condition hcondition).get?_of_child
    exact .whileLoop (Json.Entries.isOf_of_kind hname hk) hc hcondition
      (Json.Entries.lists_iff.mp ⟨hlist, rfl⟩) (denoted_of_ofJsonAll _ body hbody)
  · next hk =>
    simp only [except_bind_ok_iff, except_pure_ok_iff] at h
    obtain ⟨value, hvalue, rfl⟩ := h
    obtain ⟨v, hv, hvalue⟩ := (Expr.denoted_of_ofJson _ value hvalue).get?_of_child
    exact .ret (Json.Entries.isOf_of_kind hname hk) hv hvalue
  · cases h
termination_by 3 * sizeOf (Value.object o)
decreasing_by
  all_goals
    first
    | exact Json.Entries.weight_child_lt _ _ (by decide)
    | exact Json.Entries.weight_items_lt ..

private theorem denoted_of_ofJson (v : Value) (s : Stmt Unit) (h : ofJson v = .ok s) :
    s.Denoted v := by
  rw [ofJson.eq_def] at h
  split at h
  · exact denoted_of_ofEntries _ s h
  · cases h
termination_by 3 * sizeOf v + 1

private theorem denoted_of_optional (v : Value) (s : Option (Stmt Unit)) (h : optional v = .ok s) :
    DenotedOption (some v) s := by
  rw [optional.eq_def] at h
  split at h
  · cases h
    exact .null
  · obtain ⟨s, hs, rfl⟩ := except_map_ok_iff.mp h
    exact .present (denoted_of_ofJson v s hs)
termination_by 3 * sizeOf v + 2

private theorem denoted_of_ofJsonAll (vs : List Value) (ss : List (Stmt Unit)) :
    ofJsonAll vs = .ok ss → DenotedAll vs ss := by
  cases vs with
  | nil =>
    intro h
    rw [ofJsonAll] at h
    cases h
    exact .nil
  | cons v vs =>
    intro h
    rw [ofJsonAll] at h
    simp only [except_bind_ok_iff, except_pure_ok_iff] at h
    obtain ⟨s, hs, ss, hss, rfl⟩ := h
    exact .cons (denoted_of_ofJson v s hs) (denoted_of_ofJsonAll vs ss hss)
termination_by 3 * sizeOf vs
decreasing_by
  all_goals simp only [List.cons.sizeOf_spec]; omega

end

mutual

private theorem Denoted.ofJson_eq {v : Value} {s : Stmt Unit} (h : s.Denoted v) :
    ofJson v = .ok s := by
  cases h with
  | expression hkind hkey he =>
    have he := he.ofJson_eq
    rw [← Json.Entries.child_of_get? hkey] at he
    rw [ofJson, ofEntries]
    refine except_bind_ok_iff.mpr ⟨_, Json.Entries.kind_ok_iff.mpr hkind, ?_⟩
    exact except_bind_ok_iff.mpr ⟨_, he, rfl⟩
  | declaration hkind hname htypeName hvalue =>
    rw [ofJson, ofEntries]
    refine except_bind_ok_iff.mpr ⟨_, Json.Entries.kind_ok_iff.mpr hkind, ?_⟩
    refine except_bind_ok_iff.mpr ⟨_, Json.Entries.string?_ok_iff.mpr htypeName, ?_⟩
    refine except_bind_ok_iff.mpr ⟨_, Json.Entries.string_ok_iff.mpr hname, ?_⟩
    exact except_bind_ok_iff.mpr ⟨_, hvalue.optional_eq, rfl⟩
  | assignment hkind hr hreceiver hv hvalue =>
    have hreceiver := hreceiver.ofJson_eq
    have hvalue := hvalue.ofJson_eq
    rw [← Json.Entries.child_of_get? hr] at hreceiver
    rw [← Json.Entries.child_of_get? hv] at hvalue
    rw [ofJson, ofEntries]
    refine except_bind_ok_iff.mpr ⟨_, Json.Entries.kind_ok_iff.mpr hkind, ?_⟩
    refine except_bind_ok_iff.mpr ⟨_, hreceiver, ?_⟩
    exact except_bind_ok_iff.mpr ⟨_, hvalue, rfl⟩
  | ifElse hkind hkey hcondition hthen hthenBody helse helseBody =>
    have hcondition := hcondition.ofJson_eq
    have hthenBody := hthenBody.ofJsonAll_eq
    have helseBody := helseBody.ofJsonAll_eq
    obtain ⟨hthen, hthenItems⟩ := Json.Entries.lists_iff.mpr hthen
    obtain ⟨helse, helseItems⟩ := Json.Entries.lists_iff.mpr helse
    rw [← Json.Entries.child_of_get? hkey] at hcondition
    rw [← hthenItems] at hthenBody
    rw [← helseItems] at helseBody
    rw [ofJson, ofEntries]
    refine except_bind_ok_iff.mpr ⟨_, Json.Entries.kind_ok_iff.mpr hkind, ?_⟩
    refine except_bind_ok_iff.mpr ⟨_, hcondition, ?_⟩
    refine except_bind_ok_iff.mpr ⟨(), hthen, ?_⟩
    refine except_bind_ok_iff.mpr ⟨_, hthenBody, ?_⟩
    refine except_bind_ok_iff.mpr ⟨(), helse, ?_⟩
    exact except_bind_ok_iff.mpr ⟨_, helseBody, rfl⟩
  | forLoop hkind hinitialization hkey hcondition hincrement hitems hbody =>
    have hinitialization := hinitialization.optional_eq
    have hcondition := hcondition.ofJson_eq
    have hincrement := hincrement.optional_eq
    have hbody := hbody.ofJsonAll_eq
    obtain ⟨hlist, hitems⟩ := Json.Entries.lists_iff.mpr hitems
    rw [← Json.Entries.child_of_get? hkey] at hcondition
    rw [← hitems] at hbody
    rw [ofJson, ofEntries]
    refine except_bind_ok_iff.mpr ⟨_, Json.Entries.kind_ok_iff.mpr hkind, ?_⟩
    refine except_bind_ok_iff.mpr ⟨_, hinitialization, ?_⟩
    refine except_bind_ok_iff.mpr ⟨_, hcondition, ?_⟩
    refine except_bind_ok_iff.mpr ⟨_, hincrement, ?_⟩
    refine except_bind_ok_iff.mpr ⟨(), hlist, ?_⟩
    exact except_bind_ok_iff.mpr ⟨_, hbody, rfl⟩
  | whileLoop hkind hkey hcondition hitems hbody =>
    have hcondition := hcondition.ofJson_eq
    have hbody := hbody.ofJsonAll_eq
    obtain ⟨hlist, hitems⟩ := Json.Entries.lists_iff.mpr hitems
    rw [← Json.Entries.child_of_get? hkey] at hcondition
    rw [← hitems] at hbody
    rw [ofJson, ofEntries]
    refine except_bind_ok_iff.mpr ⟨_, Json.Entries.kind_ok_iff.mpr hkind, ?_⟩
    refine except_bind_ok_iff.mpr ⟨_, hcondition, ?_⟩
    refine except_bind_ok_iff.mpr ⟨(), hlist, ?_⟩
    exact except_bind_ok_iff.mpr ⟨_, hbody, rfl⟩
  | ret hkind hkey hvalue =>
    have hvalue := hvalue.ofJson_eq
    rw [← Json.Entries.child_of_get? hkey] at hvalue
    rw [ofJson, ofEntries]
    refine except_bind_ok_iff.mpr ⟨_, Json.Entries.kind_ok_iff.mpr hkind, ?_⟩
    exact except_bind_ok_iff.mpr ⟨_, hvalue, rfl⟩

private theorem DenotedOption.optional_eq {v : Option Value} {s : Option (Stmt Unit)}
    (h : DenotedOption v s) : optional (v.getD .null) = .ok s := by
  cases h with
  | absent => rw [Option.getD_none, optional]
  | null => rw [Option.getD_some, optional]
  | @present v s h =>
    have hnull : v ≠ .null := by
      intro hv
      subst hv
      cases h
    have hs := h.ofJson_eq
    rw [Option.getD_some, optional.eq_2 _ hnull]
    exact except_map_ok_iff.mpr ⟨s, hs, rfl⟩

private theorem DenotedAll.ofJsonAll_eq {vs : List Value} {ss : List (Stmt Unit)}
    (h : DenotedAll vs ss) : ofJsonAll vs = .ok ss := by
  cases h with
  | nil => rw [ofJsonAll]
  | cons head tail =>
    have head := head.ofJson_eq
    have tail := tail.ofJsonAll_eq
    rw [ofJsonAll]
    refine except_bind_ok_iff.mpr ⟨_, head, ?_⟩
    exact except_bind_ok_iff.mpr ⟨_, tail, rfl⟩

end

end Stmt

/-- Reading a statement succeeds exactly if the value denotes one. -/
theorem Stmt.ofJson_ok_iff {v : Value} {s : Stmt Unit} : Stmt.ofJson v = .ok s ↔ s.Denoted v :=
  ⟨denoted_of_ofJson v s, Denoted.ofJson_eq⟩

/-! ### Declarations -/

private theorem Kind.entries_ok_iff {k : Kind} {v : Value} {o : Json.Entries} :
    Kind.entries k v = .ok o ↔ v = .object o ∧ o.IsOf k := by
  unfold Kind.entries
  simp only [except_bind_ok_iff]
  constructor
  · intro ⟨o', ho', name, hname, h⟩
    cases v <;> cases ho'
    split at h
    · next hk =>
      cases h
      rw [hk] at hname
      exact ⟨rfl, Json.Entries.kind_ok_iff.mp hname⟩
    · cases h
  · intro ⟨hv, hk⟩
    subst hv
    refine ⟨o, rfl, k.keyword, Json.Entries.kind_ok_iff.mpr hk, ?_⟩
    rw [if_pos rfl]
    rfl

private theorem Field.ofJson_ok_iff {v : Value} {f : Field Unit} :
    Field.ofJson v = .ok f ↔ f.Denoted v := by
  unfold Field.ofJson
  constructor
  · intro h
    simp only [except_bind_ok_iff, except_pure_ok_iff] at h
    obtain ⟨o, ho, name, hname, typeName, htypeName, value, hvalue, rfl⟩ := h
    obtain ⟨rfl, hkind⟩ := Kind.entries_ok_iff.mp ho
    exact .mk hkind (Json.Entries.string_ok_iff.mp hname)
      (Json.Entries.string_ok_iff.mp htypeName) Json.Entries.flag_iff
      (Expr.denoted_of_optional _ value hvalue).get?_of_child
  · intro h
    cases h with
    | @mk o name typeName constant value hkind hname htypeName hconstant hvalue =>
      have hflag : o.flag "constant" = constant := by
        rw [Bool.eq_iff_iff, Json.Entries.flag_iff, hconstant]
      refine except_bind_ok_iff.mpr ⟨_, Kind.entries_ok_iff.mpr ⟨rfl, hkind⟩, ?_⟩
      refine except_bind_ok_iff.mpr ⟨_, Json.Entries.string_ok_iff.mpr hname, ?_⟩
      refine except_bind_ok_iff.mpr ⟨_, Json.Entries.string_ok_iff.mpr htypeName, ?_⟩
      refine except_bind_ok_iff.mpr ⟨_, hvalue.optional_eq, ?_⟩
      rw [hflag]
      rfl

private theorem Method.ofJson_ok_iff {v : Value} {m : Method Unit} :
    Method.ofJson v = .ok m ↔ m.Denoted v := by
  unfold Method.ofJson
  constructor
  · intro h
    simp only [except_bind_ok_iff, except_pure_ok_iff] at h
    obtain ⟨o, ho, returnType, hreturnType, name, hname, parameters, hparameters, parameterTypes,
      hparameterTypes, _, hlist, body, hbody, rfl⟩ := h
    obtain ⟨rfl, hkind⟩ := Kind.entries_ok_iff.mp ho
    exact .mk hkind (Json.Entries.string_ok_iff.mp hname)
      (Json.Entries.strings_ok_iff.mp hparameters)
      (Json.Entries.strings_ok_iff.mp hparameterTypes)
      (Json.Entries.string?_ok_iff.mp hreturnType) (Json.Entries.lists_iff.mp ⟨hlist, rfl⟩)
      (Stmt.denoted_of_ofJsonAll _ body hbody)
  · intro h
    cases h with
    | mk hkind hname hparameters hparameterTypes hreturnType hitems hbody =>
      obtain ⟨hlist, hitems⟩ := Json.Entries.lists_iff.mpr hitems
      rw [← hitems] at hbody
      refine except_bind_ok_iff.mpr ⟨_, Kind.entries_ok_iff.mpr ⟨rfl, hkind⟩, ?_⟩
      refine except_bind_ok_iff.mpr ⟨_, Json.Entries.string?_ok_iff.mpr hreturnType, ?_⟩
      refine except_bind_ok_iff.mpr ⟨_, Json.Entries.string_ok_iff.mpr hname, ?_⟩
      refine except_bind_ok_iff.mpr ⟨_, Json.Entries.strings_ok_iff.mpr hparameters, ?_⟩
      refine except_bind_ok_iff.mpr ⟨_, Json.Entries.strings_ok_iff.mpr hparameterTypes, ?_⟩
      refine except_bind_ok_iff.mpr ⟨(), hlist, ?_⟩
      exact except_bind_ok_iff.mpr ⟨_, hbody.ofJsonAll_eq, rfl⟩

private theorem Source.ofJson_ok_iff {v : Value} {s : Source Unit} :
    Source.ofJson v = .ok s ↔ s.Denoted v := by
  unfold Source.ofJson
  constructor
  · intro h
    simp only [except_bind_ok_iff, except_pure_ok_iff, except_mapM_ok_iff, Field.ofJson_ok_iff,
      Method.ofJson_ok_iff] at h
    obtain ⟨o, ho, _, hfieldList, fields, hfields, _, hmethodList, methods, hmethods, rfl⟩ := h
    obtain ⟨rfl, hkind⟩ := Kind.entries_ok_iff.mp ho
    exact .mk hkind (Json.Entries.lists_iff.mp ⟨hfieldList, rfl⟩) hfields
      (Json.Entries.lists_iff.mp ⟨hmethodList, rfl⟩) hmethods
  · intro h
    cases h with
    | mk hkind hfieldItems hfields hmethodItems hmethods =>
      obtain ⟨hfieldList, hfieldItems⟩ := Json.Entries.lists_iff.mpr hfieldItems
      obtain ⟨hmethodList, hmethodItems⟩ := Json.Entries.lists_iff.mpr hmethodItems
      rw [← hfieldItems] at hfields
      rw [← hmethodItems] at hmethods
      have hfields := hfields.imp fun _ _ ↦ Field.ofJson_ok_iff.mpr
      have hmethods := hmethods.imp fun _ _ ↦ Method.ofJson_ok_iff.mpr
      refine except_bind_ok_iff.mpr ⟨_, Kind.entries_ok_iff.mpr ⟨rfl, hkind⟩, ?_⟩
      refine except_bind_ok_iff.mpr ⟨(), hfieldList, ?_⟩
      refine except_bind_ok_iff.mpr ⟨_, except_mapM_ok_iff.mpr hfields, ?_⟩
      refine except_bind_ok_iff.mpr ⟨(), hmethodList, ?_⟩
      exact except_bind_ok_iff.mpr ⟨_, except_mapM_ok_iff.mpr hmethods, rfl⟩

/-! ### Trees -/

private theorem Expr.Denoted.isOf {v : Value} {e : Expr Unit} (h : e.Denoted v) :
    ∃ o : Json.Entries, v = .object o ∧ o.IsOf e.kind := by
  cases h with
  | literal hkind | group hkind | binary hkind | access hkind | call hkind =>
    exact ⟨_, rfl, hkind⟩

private theorem Stmt.Denoted.isOf {v : Value} {s : Stmt Unit} (h : s.Denoted v) :
    ∃ o : Json.Entries, v = .object o ∧ o.IsOf s.kind := by
  cases h with
  | expression hkind | declaration hkind | assignment hkind | ifElse hkind | forLoop hkind
  | whileLoop hkind | ret hkind => exact ⟨_, rfl, hkind⟩

namespace Node

private theorem denoted_of_ofJson {v : Value} {t : Node Unit} (h : ofJson v = .ok t) :
    t.Denoted v := by
  unfold ofJson at h
  obtain ⟨o, ho, h⟩ := except_bind_ok_iff.mp h
  obtain ⟨name, hname, h⟩ := except_bind_ok_iff.mp h
  split at h
  · obtain ⟨s, hs, rfl⟩ := except_map_ok_iff.mp h
    exact .source (Source.ofJson_ok_iff.mp hs)
  · obtain ⟨f, hf, rfl⟩ := except_map_ok_iff.mp h
    exact .field (Field.ofJson_ok_iff.mp hf)
  · obtain ⟨m, hm, rfl⟩ := except_map_ok_iff.mp h
    exact .method (Method.ofJson_ok_iff.mp hm)
  case h_11 =>
    obtain ⟨e, he, rfl⟩ := except_map_ok_iff.mp h
    exact .expr (Expr.ofJson_ok_iff.mp he)
  all_goals
    obtain ⟨s, hs, rfl⟩ := except_map_ok_iff.mp h
    exact .stmt (Stmt.ofJson_ok_iff.mp hs)

/-- The kind of the object decides which reader is asked, and that reader accepts the value. -/
theorem Denoted.ofJson_eq {v : Value} {t : Node Unit} (h : t.Denoted v) : ofJson v = .ok t := by
  have hisOf : ∃ o : Json.Entries, v = .object o ∧ o.IsOf t.kind := by
    cases h with
    | source h | field h | method h =>
      cases h with
      | mk hkind => exact ⟨_, rfl, hkind⟩
    | stmt h => exact h.isOf
    | expr h => exact h.isOf
  obtain ⟨o, rfl, hkind⟩ := hisOf
  unfold ofJson
  refine except_bind_ok_iff.mpr ⟨o, rfl, ?_⟩
  refine except_bind_ok_iff.mpr ⟨_, Json.Entries.kind_ok_iff.mpr hkind, ?_⟩
  rw [Kind.ofKeyword?_keyword]
  cases h with
  | source h => exact except_map_ok_iff.mpr ⟨_, Source.ofJson_ok_iff.mpr h, rfl⟩
  | field h => exact except_map_ok_iff.mpr ⟨_, Field.ofJson_ok_iff.mpr h, rfl⟩
  | method h => exact except_map_ok_iff.mpr ⟨_, Method.ofJson_ok_iff.mpr h, rfl⟩
  | @stmt s h =>
    have hs := Stmt.ofJson_ok_iff.mpr h
    cases s <;> exact except_map_ok_iff.mpr ⟨_, hs, rfl⟩
  | @expr e h =>
    have he := Expr.ofJson_ok_iff.mpr h
    cases e <;> exact except_map_ok_iff.mpr ⟨_, he, rfl⟩

/-- Reading accepts exactly the grammar: a value is read as a tree exactly if it denotes the tree,
and every other value is refused with a mistake of the format. Every tree is read back from its
canonical document. -/
theorem ofJson_accepts_grammar :
    (∀ (v : Value) (t : Node Unit), ofJson v = .ok t ↔ t.Denoted v) ∧
    (∀ v : Value, (∃ e : FormatError, ofJson v = .error e) ↔ ¬ ∃ t : Node Unit, t.Denoted v) ∧
    ∀ t : Node Unit, ofJson t.toJson = .ok t := by
  have hread (v : Value) (t : Node Unit) : ofJson v = .ok t ↔ t.Denoted v :=
    ⟨denoted_of_ofJson, Denoted.ofJson_eq⟩
  refine ⟨hread, ?_, ?_⟩
  · intro v
    simp only [← hread]
    cases ofJson v <;> simp
  · intro t
    exact t.denoted_toJson.ofJson_eq

end Node

end TreeCheck
