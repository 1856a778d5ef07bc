import Mathlib.Tactic.SplitIfs
import TreeCheck.Proofs.Numerals
import TreeCheck.Proofs.Selection
import TreeCheck.Text.Quoted

/-!
# Quoted texts can be read back

A quoted text says where it ends and which text it quotes, whatever follows it, and a list of
quoted texts says which texts are in it. Nothing that is quoted runs over the end of a line.
-/

namespace TreeCheck

private theorem CodePoint.toNat_lt (c : CodePoint) : c.toNat < 0x110000 := by
  cases c with
  | scalar c =>
    have hc : c.toNat < 0xD800 ∨ 0xDFFF < c.toNat ∧ c.toNat < 0x110000 := c.valid
    simp only [toNat]
    omega
  | surrogate half =>
    have := half.isLt
    simp only [toNat, surrogateBase]
    omega

namespace Text

/-! ### Escapes -/

private theorem hexDigit_digitChar :
    ∀ d < 16, (CodePoint.hexDigit? (.scalar d.digitChar)).getD 0 = d := by
  decide

private theorem length_hexadecimal {width n : Nat} (hwidth : 0 < width) (hn : n < 16 ^ width) :
    (hexadecimal width n).length = width := by
  have := (Nat.length_toDigits_le_iff (by decide) hwidth).mpr hn
  simp only [hexadecimal, List.length_append, List.length_replicate, List.length_map]
  omega

/-- The value of hexadecimal digits. -/
def hexadecimalValue (t : Text) : Nat := baseValue 16 (fun c ↦ c.hexDigit?.getD 0) t

private theorem hexadecimalValue_hexadecimal (width n : Nat) :
    hexadecimalValue (hexadecimal width n) = n := by
  unfold hexadecimalValue hexadecimal
  rw [baseValue_replicate_append (by decide), baseValue_toDigits (by decide) hexDigit_digitChar]

/-- The value of the code point that an escaped text begins with, and what follows it. -/
def unescaped : Text → Option (Nat × Text)
  | [] => none
  | .scalar '\x5c' :: .scalar 'n' :: rest => some (0xA, rest)
  | .scalar '\x5c' :: .scalar 'r' :: rest => some (0xD, rest)
  | .scalar '\x5c' :: .scalar 't' :: rest => some (0x9, rest)
  | .scalar '\x5c' :: .scalar 'x' :: rest => some (hexadecimalValue (rest.take 2), rest.drop 2)
  | .scalar '\x5c' :: .scalar 'u' :: rest => some (hexadecimalValue (rest.take 4), rest.drop 4)
  | .scalar '\x5c' :: .scalar 'U' :: rest => some (hexadecimalValue (rest.take 8), rest.drop 8)
  | .scalar '\x5c' :: c :: rest => some (c.toNat, rest)
  | c :: rest => some (c.toNat, rest)

/-- The two quote marks. -/
def IsMark (q : CodePoint) : Prop := q = .scalar '\x27' ∨ q = .scalar '\x22'

/-- A text is quoted with one of the two marks. -/
theorem isMark_quoteMark (t : Text) : IsMark (quoteMark t) := by
  unfold quoteMark
  split
  · exact .inr rfl
  · exact .inl rfl

private theorem unescaped_hexadecimal {width n : Nat} (hwidth : 0 < width) (hn : n < 16 ^ width)
    (rest : Text) :
    (hexadecimalValue ((hexadecimal width n ++ rest).take width),
      (hexadecimal width n ++ rest).drop width) = (n, rest) := by
  have hlength := length_hexadecimal hwidth hn
  rw [List.take_left' hlength, List.drop_left' hlength, hexadecimalValue_hexadecimal]

/-- A code point is read back from how it is written between quote marks. -/
theorem unescaped_escaped {q : CodePoint} (hq : IsMark q) (c : CodePoint) (rest : Text) :
    unescaped (escaped q c ++ rest) = some (c.toNat, rest) := by
  unfold escaped
  split_ifs with hmark hnl hcr htab hprint hsmall hmiddle
  · -- The backslash and the marks are none of the letters that follow a backslash.
    rcases hmark with rfl | rfl
    · rfl
    · rcases hq with rfl | rfl <;> rfl
  · rw [hnl]; rfl
  · rw [hcr]; rfl
  · rw [htab]; rfl
  · have hne : c ≠ .scalar '\x5c' := fun h ↦ hmark (.inl h)
    change unescaped (c :: rest) = _
    unfold unescaped
    split <;> simp_all
  · exact congrArg some (unescaped_hexadecimal (by decide) hsmall rest)
  · exact congrArg some (unescaped_hexadecimal (by decide) hmiddle rest)
  · have hn : c.toNat < 16 ^ 8 := Nat.lt_trans c.toNat_lt (by decide)
    exact congrArg some (unescaped_hexadecimal (by decide) hn rest)

/-- An escaped code point never begins with the quote mark. -/
theorem head?_escaped {q : CodePoint} (hq : IsMark q) (c : CodePoint) :
    ∃ first, (escaped q c).head? = some first ∧ first ≠ q := by
  have hslash : CodePoint.scalar '\x5c' ≠ q := by
    rcases hq with rfl | rfl <;> decide
  unfold escaped
  split_ifs with hmark
  all_goals first
    | exact ⟨_, rfl, hslash⟩
    | exact ⟨_, rfl, fun h ↦ hmark (.inr h)⟩

private theorem flatMap_escaped_inj {q : CodePoint} (hq : IsMark q) {t t' r r' : Text}
    (h : t.flatMap (escaped q) ++ q :: r = t'.flatMap (escaped q) ++ q :: r') :
    t = t' ∧ r = r' := by
  have closes {c : CodePoint} {x r : Text} (h : q :: r = escaped q c ++ x) : False := by
    obtain ⟨first, hfirst, hne⟩ := head?_escaped hq c
    have := congrArg List.head? h
    simp only [List.head?_cons, List.head?_append, hfirst, Option.some_or,
      Option.some.injEq] at this
    exact hne this.symm
  induction t generalizing t' with
  | nil =>
    cases t' with
    | nil => exact ⟨rfl, by simpa using h⟩
    | cons c' t' =>
      rw [List.flatMap_cons, List.append_assoc] at h
      exact (closes h).elim
  | cons c t ih =>
    cases t' with
    | nil =>
      rw [List.flatMap_cons, List.append_assoc] at h
      exact (closes h.symm).elim
    | cons c' t' =>
      rw [List.flatMap_cons, List.append_assoc, List.flatMap_cons, List.append_assoc] at h
      have hread := congrArg unescaped h
      simp only [unescaped_escaped hq, Option.some.injEq, Prod.mk.injEq] at hread
      obtain ⟨hc, hrest⟩ := hread
      obtain ⟨ht, hr⟩ := ih hrest
      exact ⟨by rw [CodePoint.toNat_injective hc, ht], hr⟩

/-- A quoted text is read back, with what follows it. -/
theorem quoted_append_inj {t t' r r' : Text} (h : quoted t ++ r = quoted t' ++ r') :
    t = t' ∧ r = r' := by
  simp only [quoted, List.cons_append, List.append_assoc, List.nil_append, List.cons.injEq] at h
  obtain ⟨hq, h⟩ := h
  rw [← hq] at h
  exact flatMap_escaped_inj (isMark_quoteMark t) h

/-- A text is determined by its quotation. -/
theorem quoted_injective : Function.Injective quoted := by
  intro t t' h
  exact (quoted_append_inj (congrArg (· ++ []) h)).1

/-! ### Lists of quoted texts -/

/-- A joined list is its first text, and each other one behind a separator. -/
theorem join_cons (separator t : Text) (ts : List Text) :
    join separator (t :: ts) = t ++ ts.flatMap (separator ++ ·) := by
  unfold join
  induction ts generalizing t with
  | nil => simp
  | cons t' ts ih => rw [List.intercalate_cons_cons, ih, List.flatMap_cons, List.append_assoc,
      List.append_assoc]

/-- What stands after the first text of a list: the others, each after a comma, and the bracket. -/
private def listTail (ts : List Text) : Text :=
  (ts.map quoted).flatMap (ofString ", " ++ ·) ++ ofString "]"

private theorem listTail_cons (t : Text) (ts : List Text) :
    listTail (t :: ts) = ", " ++ (quoted t ++ listTail ts) := by
  simp only [listTail, List.map_cons, List.flatMap_cons, List.append_assoc]

private theorem listTail_injective : Function.Injective listTail := by
  intro ts ts' h
  induction ts generalizing ts' with
  | nil =>
    cases ts' with
    | nil => rfl
    | cons t' ts' => cases h
  | cons t ts ih =>
    cases ts' with
    | nil => cases h
    | cons t' ts' =>
      rw [listTail_cons, listTail_cons, List.append_right_inj] at h
      obtain ⟨ht, hts⟩ := quoted_append_inj h
      rw [ht, ih hts]

private theorem quotedList_cons (t : Text) (ts : List Text) :
    quotedList (t :: ts) = "[" ++ (quoted t ++ listTail ts) := by
  rw [quotedList, List.map_cons, join_cons, listTail, List.append_assoc, List.append_assoc]

/-- A list of quoted texts is read back. -/
theorem quotedList_injective : Function.Injective quotedList := by
  -- After the bracket there is another one or a quote mark, so an empty list is told apart.
  have hempty (t : Text) (ts : List Text) : quotedList [] ≠ quotedList (t :: ts) := by
    intro h
    rw [quotedList_cons] at h
    have hmark : some (CodePoint.scalar ']') = some (quoteMark t) :=
      congrArg (fun t ↦ t.tail.head?) h
    rcases isMark_quoteMark t with hq | hq <;> rw [hq] at hmark <;> cases hmark
  intro ts ts' h
  cases ts with
  | nil =>
    cases ts' with
    | nil => rfl
    | cons t' ts' => exact absurd h (hempty t' ts')
  | cons t ts =>
    cases ts' with
    | nil => exact absurd h.symm (hempty t ts)
    | cons t' ts' =>
      rw [quotedList_cons, quotedList_cons, List.append_right_inj] at h
      obtain ⟨ht, hts⟩ := quoted_append_inj h
      rw [ht, listTail_injective hts]

/-! ### Lines -/

private theorem newline_not_mem_hexadecimal (width n : Nat) :
    .scalar '\n' ∉ hexadecimal width n := by
  intro h
  rw [hexadecimal, List.mem_append, List.mem_replicate, List.mem_map] at h
  rcases h with ⟨-, h⟩ | ⟨c, hc, h⟩
  · cases h
  · obtain ⟨d, rfl⟩ := exists_digitChar_of_mem_toDigits (by decide) hc
    exact Nat.digitChar_ne '\n' rfl (CodePoint.scalar.inj h)

private theorem newline_not_mem_escaped {q : CodePoint} (hq : IsMark q) (c : CodePoint) :
    .scalar '\n' ∉ escaped q c := by
  have hslash : CodePoint.scalar '\n' ≠ .scalar '\x5c' := by decide
  have hne : CodePoint.scalar '\n' ≠ q := by
    rcases hq with rfl | rfl <;> decide
  have hex (letter : Char) (hletter : '\n' ≠ letter) (width : Nat) :
      .scalar '\n' ∉ CodePoint.scalar '\x5c' :: .scalar letter :: hexadecimal width c.toNat := by
    intro h
    rcases List.mem_cons.mp h with h | h
    · exact hslash h
    · rcases List.mem_cons.mp h with h | h
      · exact hletter (CodePoint.scalar.inj h)
      · exact newline_not_mem_hexadecimal width _ h
  unfold escaped
  split_ifs with hmark hnl
  · rcases hmark with rfl | rfl
    · decide
    · exact fun h ↦ (List.mem_pair.mp h).elim hslash hne
  · decide
  · decide
  · decide
  · exact fun h ↦ hnl (List.mem_singleton.mp h).symm
  · exact hex 'x' (by decide) 2
  · exact hex 'u' (by decide) 4
  · exact hex 'U' (by decide) 8

/-- A quoted text fills one line. -/
theorem newline_not_mem_quoted (t : Text) : .scalar '\n' ∉ quoted t := by
  have hq := isMark_quoteMark t
  have hne : CodePoint.scalar '\n' ≠ quoteMark t := by
    rcases hq with hq | hq <;> rw [hq] <;> decide
  intro h
  simp only [quoted, List.cons_append, List.mem_cons, List.mem_append, List.mem_flatMap,
    List.mem_nil_iff, or_false, hne, false_or] at h
  obtain ⟨c, -, hc⟩ := h
  exact newline_not_mem_escaped hq c hc

/-- A list of quoted texts fills one line. -/
theorem newline_not_mem_quotedList (ts : List Text) : .scalar '\n' ∉ quotedList ts := by
  have htail (ts : List Text) : .scalar '\n' ∉ listTail ts := by
    induction ts with
    | nil => decide
    | cons t ts ih =>
      rw [listTail_cons]
      exact List.not_mem_append (by decide) (List.not_mem_append (newline_not_mem_quoted t) ih)
  cases ts with
  | nil => decide
  | cons t ts =>
    rw [quotedList_cons]
    exact List.not_mem_append (by decide)
      (List.not_mem_append (newline_not_mem_quoted t) (htail ts))

end Text

end TreeCheck
