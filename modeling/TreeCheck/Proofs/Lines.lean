import TreeCheck.Proofs.Quoting
import TreeCheck.Tree.Format
import TreeCheck.Tree.Outline

/-!
# Lines of an outline

A line of an outline without notes is cut into its depth, its name and its value in one way only.
The lines of a node are its name and then its parts, each of which begins one step further in and
goes on deeper still; lines of that shape are called blocks, and a list of blocks is found again
from its lines. A part that is left out is noticed, since every part begins with its name.
-/

namespace TreeCheck

/-! ### Lines -/

/-- A name of a kind or of a part: a word on one line, with nothing in it that ends a name. -/
def Text.IsWord (t : Text) : Prop :=
  t ≠ [] ∧ ∀ c ∈ t, c ≠ .scalar ' ' ∧ c ≠ .scalar ':' ∧ c ≠ .scalar '\n'

instance (t : Text) : Decidable t.IsWord := inferInstanceAs (Decidable (_ ∧ _))

/-- The name of a kind is a word. -/
theorem Kind.isWord_name (k : Kind) : k.name.IsWord := by
  cases k <;> decide

private theorem Kind.name_injective : Function.Injective Kind.name := by
  have hfind (k : Kind) : Kind.all.find? (fun k' ↦ k'.name = k.name) = some k := by
    cases k <;> rfl
  intro k k' h
  have hk := hfind k
  rw [h, hfind k'] at hk
  exact (Option.some.inj hk).symm

namespace Entry

/-- The depth of a line. -/
def depth : Entry → Nat
  | node depth _ => depth
  | type depth _ => depth
  | binding depth _ => depth
  | heading depth _ => depth
  | item depth _ _ => depth

/-- A line of an outline without notes. -/
def IsPlain : Entry → Prop
  | node _ _ => True
  | type _ _ => False
  | binding _ _ => False
  | heading _ part => part.IsWord
  | item _ part value => part.IsWord ∧ .scalar '\n' ∉ value

/-- The name that a line begins with. -/
def word : Entry → Text
  | node _ kind => kind.name
  | type _ _ => []
  | binding _ _ => []
  | heading _ part => part
  | item _ part _ => part

/-- What follows the name of a line. -/
def afterWord : Entry → Text
  | node _ _ => []
  | type _ _ => []
  | binding _ _ => []
  | heading _ _ => ":"
  | item _ _ value => ": " ++ value

private theorem IsPlain.render_eq {x : Entry} (h : x.IsPlain) :
    x.render = indent x.depth ++ (x.word ++ x.afterWord) := by
  cases x with
  | node depth kind => exact (congrArg (indent depth ++ ·) (List.append_nil _)).symm
  | type depth name => exact h.elim
  | binding depth description => exact h.elim
  | heading depth part => exact List.append_assoc ..
  | item depth part value =>
    change indent depth ++ part ++ ": " ++ value = indent depth ++ (part ++ (": " ++ value))
    rw [List.append_assoc, List.append_assoc]

private theorem IsPlain.isWord {x : Entry} (h : x.IsPlain) : x.word.IsWord := by
  cases x with
  | node depth kind => exact kind.isWord_name
  | type depth name => exact h.elim
  | binding depth description => exact h.elim
  | heading depth part => exact h
  | item depth part value => exact h.1

/-- A plain entry fills one line. -/
theorem newline_not_mem_render {x : Entry} (h : x.IsPlain) : .scalar '\n' ∉ x.render := by
  have hindent : CodePoint.scalar '\n' ∉ indent x.depth := by
    intro hmem
    cases List.eq_of_mem_replicate hmem
  have hword : CodePoint.scalar '\n' ∉ x.word := fun hmem ↦ (h.isWord.2 _ hmem).2.2 rfl
  rw [h.render_eq]
  refine List.not_mem_append hindent (List.not_mem_append hword ?_)
  cases x with
  | node depth kind => exact List.not_mem_nil
  | type depth name => exact h.elim
  | binding depth description => exact h.elim
  | heading depth part =>
    rw [afterWord]
    decide
  | item depth part value => exact List.not_mem_append (by decide) h.2

/-- The depth, the name and the rest of a line are read back. -/
theorem IsPlain.split {x y : Entry} (hx : x.IsPlain) (hy : y.IsPlain) (h : x.render = y.render) :
    x.depth = y.depth ∧ x.word = y.word ∧ x.afterWord = y.afterWord := by
  have hindent (n : Nat) : ∀ c ∈ indent n, (c == .scalar ' ') = true := by
    intro c hc
    rw [List.eq_of_mem_replicate hc]
    rfl
  have hfirst {x : Entry} (hx : x.IsPlain) :
      ∀ c ∈ (x.word ++ x.afterWord).head?, (c == .scalar ' ') = false := by
    intro c hc
    obtain ⟨hne, hword⟩ := hx.isWord
    cases hw : x.word with
    | nil => exact absurd hw hne
    | cons d w =>
      rw [hw] at hc hword
      cases hc
      exact beq_eq_false_iff_ne.mpr (hword c List.mem_cons_self).1
  have hword {x : Entry} (hx : x.IsPlain) : ∀ c ∈ x.word, (c != .scalar ':') = true := by
    intro c hc
    exact bne_iff_ne.mpr (hx.isWord.2 c hc).2.1
  have hafter (x : Entry) : ∀ c ∈ x.afterWord.head?, (c != .scalar ':') = false := by
    intro c hc
    cases x <;> cases hc <;> rfl
  rw [hx.render_eq, hy.render_eq] at h
  obtain ⟨hblanks, htext⟩ :=
    append_inj_of_forall (hindent _) (hindent _) (hfirst hx) (hfirst hy) h
  obtain ⟨hw, hrest⟩ := append_inj_of_forall (hword hx) (hword hy) (hafter x) (hafter y) htext
  have hlength := congrArg List.length hblanks
  simp only [indent, List.length_replicate] at hlength
  exact ⟨by omega, hw, hrest⟩

/-- A line is read back from how it is written. -/
theorem render_inj {x y : Entry} (hx : x.IsPlain) (hy : y.IsPlain) (h : x.render = y.render) :
    x = y := by
  obtain ⟨hdepth, hword, hafter⟩ := hx.split hy h
  cases x with
  | node depth kind =>
    cases y with
    | node depth' kind' => rw [show depth = depth' from hdepth, Kind.name_injective hword]
    | type depth' name' => exact hy.elim
    | binding depth' description' => exact hy.elim
    | heading depth' part' => cases hafter
    | item depth' part' value' => cases hafter
  | type depth name => exact hx.elim
  | binding depth description => exact hx.elim
  | heading depth part =>
    cases y with
    | node depth' kind' => cases hafter
    | type depth' name' => exact hy.elim
    | binding depth' description' => exact hy.elim
    | heading depth' part' =>
      rw [show depth = depth' from hdepth, show part = part' from hword]
    | item depth' part' value' => cases hafter
  | item depth part value =>
    cases y with
    | node depth' kind' => cases hafter
    | type depth' name' => exact hy.elim
    | binding depth' description' => exact hy.elim
    | heading depth' part' => cases hafter
    | item depth' part' value' =>
      rw [show depth = depth' from hdepth, show part = part' from hword,
        List.append_cancel_left (show ": " ++ value = ": " ++ value' from hafter)]

/-- Plain entries are determined by their lines. -/
theorem map_render_inj {lines lines' : List Entry} (hplain : ∀ x ∈ lines, x.IsPlain)
    (hplain' : ∀ x ∈ lines', x.IsPlain) (h : lines.map render = lines'.map render) :
    lines = lines' := by
  induction lines generalizing lines' with
  | nil =>
    cases lines' with
    | nil => rfl
    | cons x' lines' => cases h
  | cons x lines ih =>
    cases lines' with
    | nil => cases h
    | cons x' lines' =>
      obtain ⟨hx, hlines⟩ := List.cons.inj h
      rw [List.forall_mem_cons] at hplain hplain'
      rw [render_inj hplain.1 hplain'.1 hx, ih hplain.2 hplain'.2 hlines]

end Entry

/-! ### Blocks of lines -/

/-- Lines without notes of which the first is at a depth and the others are deeper. -/
inductive IsBlock (depth : Nat) : List Entry → Prop
  | cons {x : Entry} {xs : List Entry} (hfirst : x.depth = depth)
      (hrest : ∀ y ∈ xs, depth < y.depth) (hplain : ∀ y ∈ x :: xs, y.IsPlain) :
      IsBlock depth (x :: xs)

/-- Lines are cut into blocks in one way only. -/
theorem flatten_inj_of_isBlock {depth : Nat} {bs bs' : List (List Entry)}
    (hbs : ∀ b ∈ bs, IsBlock depth b) (hbs' : ∀ b ∈ bs', IsBlock depth b)
    (h : bs.flatten = bs'.flatten) : bs = bs' := by
  -- After a block there is the first line of another one, or nothing.
  have hstart {bs : List (List Entry)} (hbs : ∀ b ∈ bs, IsBlock depth b) :
      ∀ x ∈ bs.flatten.head?, decide (depth < x.depth) = false := by
    intro x hx
    cases bs with
    | nil => cases hx
    | cons b bs =>
      cases hbs b List.mem_cons_self with
      | cons hfirst _ _ =>
        cases hx
        simp [hfirst]
  induction bs generalizing bs' with
  | nil =>
    cases bs' with
    | nil => rfl
    | cons b' bs' => cases hbs' b' List.mem_cons_self with | cons => cases h
  | cons b bs ih =>
    cases hbs b List.mem_cons_self with
    | cons hfirst hrest _ =>
      cases bs' with
      | nil => cases h
      | cons b' bs' =>
        cases hbs' b' List.mem_cons_self with
        | cons hfirst' hrest' _ =>
          rw [List.flatten_cons, List.flatten_cons, List.cons_append, List.cons_append,
            List.cons.injEq] at h
          have hbs := fun b hb ↦ hbs b (List.mem_cons_of_mem _ hb)
          have hbs' := fun b hb ↦ hbs' b (List.mem_cons_of_mem _ hb)
          obtain ⟨hxs, hafter⟩ := append_inj_of_forall (fun a ha ↦ decide_eq_true (hrest a ha))
            (fun a ha ↦ decide_eq_true (hrest' a ha)) (hstart hbs) (hstart hbs') h.2
          rw [h.1, hxs, ih hbs hbs' hafter]

namespace IsBlock

variable {depth : Nat} {part value : Text} {lines : List Entry} {bs : List (List Entry)}

/-- The entries of a block are plain. -/
theorem isPlain (h : IsBlock depth lines) : ∀ x ∈ lines, x.IsPlain := by
  cases h with
  | cons _ _ hplain => exact hplain

private theorem le_depth (h : IsBlock depth lines) : ∀ x ∈ lines, depth ≤ x.depth := by
  cases h with
  | cons hfirst hrest _ =>
    intro x hx
    cases hx with
    | head => exact Nat.le_of_eq hfirst.symm
    | tail _ hx => exact Nat.le_of_lt (hrest x hx)

/-- A line above blocks that are one step further in. -/
theorem above (x : Entry) (hfirst : x.depth = depth) (hplain : x.IsPlain)
    (bs : List (List Entry)) (h : ∀ b ∈ bs, IsBlock (depth + 1) b) :
    IsBlock depth (x :: bs.flatten) := by
  refine .cons hfirst ?_ ?_
  · intro y hy
    obtain ⟨b, hb, hy⟩ := List.mem_flatten.mp hy
    exact (h b hb).le_depth y hy
  · intro y hy
    cases hy with
    | head => exact hplain
    | tail _ hy =>
      obtain ⟨b, hb, hy⟩ := List.mem_flatten.mp hy
      exact (h b hb).isPlain y hy

/-- An item on one line is a block. -/
theorem item (hpart : part.IsWord) (hvalue : .scalar '\n' ∉ value) :
    IsBlock depth [.item depth part value] := by
  refine above (.item depth part value) rfl ⟨hpart, hvalue⟩ [] ?_
  intro b hb
  cases hb

/-- A list of blocks under a name is a block. -/
theorem outlineList (hpart : part.IsWord) (h : ∀ b ∈ bs, IsBlock (depth + 1) b) :
    IsBlock depth (outlineList depth part bs.flatten) := by
  unfold TreeCheck.outlineList
  split
  · exact item hpart (by decide)
  · exact above (.heading depth part) rfl hpart bs h

end IsBlock

/-- Lists below a name are told apart by what is in them. -/
theorem outlineList_inj {depth : Nat} {part : Text} {lines lines' : List Entry}
    (h : outlineList depth part lines = outlineList depth part lines') : lines = lines' := by
  unfold outlineList at h
  split at h
  · split at h
    · rfl
    · cases h
  · split at h
    · cases h
    · exact (List.cons.inj h).2

/-- A part that may be absent. -/
def optionalPart {α : Type} (part : α → List Entry) (o : Option α) : List (List Entry) :=
  o.toList.map part

/-- A part that may be absent is a block if it is there. -/
theorem isBlock_of_mem_optionalPart {α : Type} {depth : Nat} {part : α → List Entry}
    {o : Option α} (h : ∀ a ∈ o, IsBlock depth (part a)) :
    ∀ b ∈ optionalPart part o, IsBlock depth b := by
  intro b hb
  obtain ⟨a, ha, rfl⟩ := List.mem_map.mp hb
  exact h a (Option.mem_toList.mp ha)

/-- A part that may be absent is told apart from the part after it. -/
theorem optionalPart_append_inj {α : Type} {part : α → List Entry} (hpart : part.Injective)
    {o o' : Option α} {rest rest' : List (List Entry)}
    (h : optionalPart part o ++ rest = optionalPart part o' ++ rest')
    (hrest : ∀ a, rest.head? ≠ some (part a)) (hrest' : ∀ a, rest'.head? ≠ some (part a)) :
    o = o' ∧ rest = rest' := by
  cases o with
  | none =>
    cases o' with
    | none => exact ⟨rfl, h⟩
    | some a' =>
      have h : rest = part a' :: rest' := h
      exact absurd (congrArg List.head? h) (hrest a')
  | some a =>
    cases o' with
    | none =>
      have h : part a :: rest = rest' := h
      exact absurd (congrArg List.head? h.symm) (hrest' a)
    | some a' =>
      obtain ⟨ha, hrest⟩ := List.cons.inj h
      rw [hpart ha]
      exact ⟨rfl, hrest⟩

/-- Nodes below the name of a part. -/
def nodesPart (depth : Nat) (part : Text) (lines : List Entry) : List Entry :=
  .heading depth part :: lines

/-- A name on the line of its part. -/
def namePart (depth : Nat) (part t : Text) : List Entry := [.item depth part t.quoted]

section

variable {depth : Nat} {part part' : Text} {lines lines' : List Entry}

/-- A part made of nodes is determined by its entry. -/
theorem nodesPart_injective : (nodesPart depth part).Injective := by
  intro lines lines' h
  exact (List.cons.inj h).2

/-- A part that is a name is determined by its entry. -/
theorem namePart_injective : (namePart depth part).Injective := by
  intro t t' h
  simp only [namePart, List.cons.injEq, Entry.item.injEq, true_and, and_true] at h
  exact Text.quoted_injective h

/-- A part that is a name is none made of nodes. -/
theorem namePart_ne_nodesPart {t : Text} : namePart depth part t ≠ nodesPart depth part' lines := by
  intro h
  cases h

/-- Parts with different names are different. -/
theorem nodesPart_ne (h : part ≠ part') :
    nodesPart depth part lines ≠ nodesPart depth part' lines' := by
  intro hparts
  exact h (Entry.heading.inj (List.cons.inj hparts).1).2

/-- A list and a part made of nodes are different if their names are. -/
theorem outlineList_ne_nodesPart (h : part ≠ part') :
    outlineList depth part lines ≠ nodesPart depth part' lines' := by
  unfold outlineList
  split
  · intro hparts
    cases hparts
  · exact nodesPart_ne h

/-- A list and a part that is a name are different if their names are. -/
theorem outlineList_ne_namePart (h : part ≠ part') {t : Text} :
    outlineList depth part lines ≠ namePart depth part' t := by
  unfold outlineList
  split
  · intro hparts
    exact h (Entry.item.inj (List.cons.inj hparts).1).2.1
  · intro hparts
    cases hparts

/-- A part that is a name is a block. -/
theorem isBlock_namePart (hpart : part.IsWord) (t : Text) :
    IsBlock depth (namePart depth part t) := .item hpart (Text.newline_not_mem_quoted t)

/-- A part made of nodes is a block. -/
theorem isBlock_nodesPart (hpart : part.IsWord) (h : IsBlock (depth + 1) lines) :
    IsBlock depth (nodesPart depth part lines) := by
  rw [← List.flatten_singleton (l := lines)]
  refine .above (.heading depth part) rfl hpart [lines] ?_
  intro b hb
  rw [List.mem_singleton.mp hb]
  exact h

end

/-- Without notes the header of a node is one entry. -/
@[simp] theorem Kind.header_none (kind : Kind) (depth : Nat) :
    kind.header depth .none = [.node depth kind] := rfl

/-! ### Literals -/

/-- Lines with one block each. -/
theorem flatten_map_singleton (lines : List Entry) :
    (lines.map fun x ↦ [x]).flatten = lines := by
  induction lines with
  | nil => rfl
  | cons x lines ih => rw [List.map_cons, List.flatten_cons, ih, List.singleton_append]

/-- What an outline says of a literal; nothing of nil. -/
def Literal.shown : Literal → Text
  | nil => []
  | character c => Text.quoted [c] ++ " (character)"
  | value => value.display

/-- The value on a line that stands alone. -/
private def loneValue : List Entry → Text
  | [.item _ _ value] => value
  | _ => []

private theorem loneValue_outline (depth : Nat) (value : Literal) :
    loneValue (value.outline depth) = value.shown := by
  cases value <;> rfl

/-- A literal is shown on one line. -/
theorem Literal.newline_not_mem_shown (value : Literal) : .scalar '\n' ∉ value.shown := by
  cases value with
  | nil => exact List.not_mem_nil
  | boolean b => cases b <;> decide
  | character c => exact List.not_mem_append (Text.newline_not_mem_quoted [c]) (by decide)
  | string t => exact Text.newline_not_mem_quoted t
  | integer n => exact Text.newline_not_mem_ofInt n
  | decimal d =>
    exact List.not_mem_append (List.not_mem_append (by decide) d.newline_not_mem_toText)
      (by decide)
  | nonFinite n => cases n <;> decide

/-- The entry of a literal is a block. -/
theorem Literal.isBlock_outline {depth : Nat} {value : Literal} {x : Entry}
    (h : x ∈ value.outline depth) : IsBlock depth [x] := by
  have hvalue := value.newline_not_mem_shown
  cases value with
  | nil => cases h
  | boolean | character | string | integer | decimal | nonFinite =>
    rw [List.mem_singleton.mp h]
    exact .item (by decide) hvalue

/-- The sort of a literal that is told by the first code point after a minus sign. -/
private def sortOfFirst (c : CodePoint) : Nat :=
  if c.isDigit then 0
  else if c = .scalar '\x27' ∨ c = .scalar '\x22' then 1
  else if c = .scalar 'D' then 2
  else if c = .scalar 'T' ∨ c = .scalar 'F' then 3
  else 4

private def Literal.sort : Literal → Option Nat
  | nil => none
  | integer _ => some 0
  | character _ => some 1
  | string _ => some 1
  | decimal _ => some 2
  | boolean _ => some 3
  | nonFinite _ => some 4

private theorem Literal.sort_eq (value : Literal) :
    (value.shown.dropWhile (· == .scalar '-')).head?.map sortOfFirst = value.sort := by
  have hquoted (t rest : Text) :
      ((t.quoted ++ rest).dropWhile (· == .scalar '-')).head?.map sortOfFirst = some 1 := by
    change ((Text.quoteMark t :: _).dropWhile _).head?.map _ = _
    rcases Text.isMark_quoteMark t with h | h <;> rw [h] <;> rfl
  have hdigits (n : Nat) :
      ((Text.ofNat n).dropWhile (· == .scalar '-')).head?.map sortOfFirst = some 0 := by
    obtain ⟨c, hc, hdigit⟩ := Text.head?_ofNat n
    cases hn : Text.ofNat n with
    | nil => exact absurd hn (Text.ofNat_ne_nil n)
    | cons d t =>
      rw [hn] at hc
      cases hc
      have hne : (c == CodePoint.scalar '-') = false := by
        rw [beq_eq_false_iff_ne]
        rintro rfl
        cases hdigit
      rw [List.dropWhile_cons, hne]
      simp [sortOfFirst, hdigit]
  cases value with
  | nil => rfl
  | boolean b => cases b <;> rfl
  | character c => exact hquoted [c] _
  | string t =>
    have := hquoted t []
    rwa [List.append_nil] at this
  | integer n =>
    change ((Text.ofInt n).dropWhile _).head?.map _ = _
    unfold Text.ofInt
    split
    · exact hdigits n.natAbs
    · exact hdigits n.natAbs
  | decimal d => rfl
  | nonFinite n => cases n <;> rfl

/-- A literal is determined by how it is shown. -/
theorem Literal.shown_injective : Function.Injective Literal.shown := by
  intro value value' hshown
  have hsort : value.sort = value'.sort := by
    rw [← sort_eq, hshown, sort_eq]
  cases value with
  | nil =>
    cases value' with
    | nil => rfl
    | boolean | character | string | integer | decimal | nonFinite => cases hsort
  | boolean b =>
    cases value' with
    | boolean b' => cases b <;> cases b' <;> cases hshown <;> rfl
    | nil | character | string | integer | decimal | nonFinite => cases hsort
  | character c =>
    cases value' with
    | character c' =>
      have ht := (Text.quoted_append_inj hshown).1
      rw [(List.cons.inj ht).1]
    | string t =>
      have ht := (Text.quoted_append_inj (hshown.trans (List.append_nil _).symm)).2
      cases ht
    | nil | boolean | integer | decimal | nonFinite => cases hsort
  | string t =>
    cases value' with
    | character c' =>
      have ht := (Text.quoted_append_inj ((List.append_nil _).trans hshown)).2
      cases ht
    | string t' => rw [Text.quoted_injective hshown]
    | nil | boolean | integer | decimal | nonFinite => cases hsort
  | integer n =>
    cases value' with
    | integer n' => rw [Text.ofInt_injective hshown]
    | nil | boolean | character | string | decimal | nonFinite => cases hsort
  | decimal d =>
    cases value' with
    | decimal d' =>
      have htext := List.append_cancel_left (List.append_cancel_right hshown)
      rw [Decimal.toText_injective htext]
    | nil | boolean | character | string | integer | nonFinite => cases hsort
  | nonFinite n =>
    cases value' with
    | nonFinite n' => cases n <;> cases n' <;> cases hshown <;> rfl
    | nil | boolean | character | string | integer | decimal => cases hsort

/-- The payload of a literal is read back. -/
theorem Literal.outline_injective (depth : Nat) : (Literal.outline depth).Injective := by
  intro value value' h
  apply shown_injective
  rw [← loneValue_outline depth, h, loneValue_outline]

end TreeCheck
