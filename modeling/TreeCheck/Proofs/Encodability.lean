import Mathlib.Data.List.Basic
import TreeCheck.Text.Control
import TreeCheck.Text.Encoding
import TreeCheck.Text.Numeral
import TreeCheck.Toml.Scalar

/-!
# Texts that can be printed

A surrogate that stands alone cannot be written to the standard output. Decoding UTF-8 never gives
one, dropping control sequences never adds one, and neither does a TOML string: it keeps the code
points it is written with, and an escape in it has to spell a character. Whatever else is read, the
end of the text is left as it is.
-/

namespace TreeCheck

/-! ### Encodable texts -/

/-- A character is a character. -/
@[simp] theorem CodePoint.toChar?_scalar (c : Char) : (scalar c).toChar? = some c := rfl

namespace Text

/-- The empty text can be encoded. -/
@[simp] theorem isEncodable_nil : isEncodable [] = true := rfl

/-- A text can be encoded if its first code point and the rest can. -/
@[simp] theorem isEncodable_cons (c : CodePoint) (t : Text) :
    isEncodable (c :: t) = (c.toChar?.isSome && isEncodable t) := List.all_cons

/-- Two texts in a row can be encoded if both can. -/
@[simp] theorem isEncodable_append (t u : Text) :
    isEncodable (t ++ u) = (isEncodable t && isEncodable u) := List.all_append

/-- The order does not matter for encoding. -/
@[simp] theorem isEncodable_reverse (t : Text) : isEncodable t.reverse = isEncodable t :=
  List.all_reverse

/-- Characters can be encoded. -/
@[simp] theorem isEncodable_map_scalar (chars : List Char) :
    isEncodable (chars.map .scalar) = true := by
  rw [isEncodable, List.all_map, List.all_eq_true]
  intro c _
  rfl

/-- A string can be encoded. -/
@[simp] theorem isEncodable_ofString (s : String) : isEncodable (ofString s) = true :=
  isEncodable_map_scalar s.toList

/-- A written number can be encoded. -/
@[simp] theorem isEncodable_ofNat (n : Nat) : isEncodable (ofNat n) = true :=
  isEncodable_map_scalar _

/-- A text can be encoded if it has only code points of one that can. -/
theorem isEncodable_mono {t u : Text} (h : t ⊆ u) (hu : u.isEncodable) : t.isEncodable := by
  rw [isEncodable, List.all_eq_true] at hu ⊢
  intro c hc
  exact hu c (h hc)

/-- The end of a text that can be encoded can be, too. -/
theorem isEncodable_of_suffix {t u : Text} (h : t <:+ u) (hu : u.isEncodable) : t.isEncodable :=
  isEncodable_mono h.subset hu

/-- What follows the first code point of a text that can be encoded can be, too. -/
theorem isEncodable_of_cons {c : CodePoint} {t : Text} (h : isEncodable (c :: t)) :
    t.isEncodable := isEncodable_of_suffix (List.suffix_cons c t) h

/-- A text that was decoded can be encoded. -/
theorem isEncodable_of_ofUtf8? {bytes : ByteArray} {t : Text} (h : ofUtf8? bytes = some t) :
    t.isEncodable := by
  obtain ⟨s, -, rfl⟩ := Option.map_eq_some_iff.mp h
  exact isEncodable_ofString s

/-- Decoding the bytes of a string gives the string. -/
theorem ofUtf8?_toUTF8 (s : String) : ofUtf8? s.toUTF8 = some (ofString s) := by
  rw [ofUtf8?, String.fromUTF8?, String.toUTF8, dif_pos s.isValidUTF8]
  rfl

/-- Joining the endings of lines adds no code point. -/
theorem joinLineEnds_subset (t : Text) : joinLineEnds t ⊆ t := by
  fun_induction joinLineEnds t with
  | case1 rest ih => exact List.cons_subset.mpr ⟨by simp, fun c hc ↦ by simp [ih hc]⟩
  | case2 c rest _ ih => exact List.cons_subset_cons c ih
  | case3 => exact List.nil_subset []

mutual

/-- Leaving control sequences out adds nothing that cannot be encoded. -/
theorem isEncodable_withoutControls : ∀ {t : Text}, t.isEncodable → t.withoutControls.isEncodable
  | [], _ => rfl
  | c :: rest, h => by
    obtain ⟨hc, hrest⟩ := Bool.and_eq_true_iff.mp (isEncodable_cons c rest ▸ h)
    rw [withoutControls]
    split
    · exact isEncodable_afterEscape hrest
    · simp [hc, isEncodable_withoutControls hrest]

private theorem isEncodable_afterEscape : ∀ {t : Text}, t.isEncodable → (afterEscape t).isEncodable
  | [], _ => rfl
  | c :: rest, h => by
    obtain ⟨hc, hrest⟩ := Bool.and_eq_true_iff.mp (isEncodable_cons c rest ▸ h)
    rw [afterEscape]
    split
    · exact isEncodable_afterBracket rfl hrest
    · split
      · simp [escapeCharacter, isEncodable_afterEscape hrest]
      · simp [escapeCharacter, hc, isEncodable_withoutControls hrest]

private theorem isEncodable_afterBracket {held : Text} :
    ∀ {t : Text}, held.isEncodable → t.isEncodable → (afterBracket held t).isEncodable
  | [], hh, _ => by simp [afterBracket, escapeCharacter, hh]
  | c :: rest, hh, h => by
    obtain ⟨hc, hrest⟩ := Bool.and_eq_true_iff.mp (isEncodable_cons c rest ▸ h)
    rw [afterBracket]
    split
    · exact isEncodable_afterBracket (by simp [hh, hc]) hrest
    · split
      · exact isEncodable_withoutControls hrest
      · split
        · simp [escapeCharacter, hh, isEncodable_afterEscape hrest]
        · simp [escapeCharacter, hh, hc, isEncodable_withoutControls hrest]

end

end Text

namespace Toml

/-! ### Readers -/

section Yields

variable {ε α β : Type} {P : α → Prop} {Q : β → Prop}

/-- A reader that comes to a result has one with the given property. -/
def Yields (P : α → Prop) (x : Except ε α) : Prop := ∀ a, x = .ok a → P a

/-- A result with the property. -/
theorem Yields.ok {a : α} (h : P a) : Yields P (.ok a : Except ε α) := by
  intro b hb
  cases hb
  exact h

/-- An error yields nothing. -/
theorem Yields.error (e : ε) : Yields P (.error e) := nofun

/-- Two steps in sequence. -/
theorem Yields.bind {x : Except ε α} {f : α → Except ε β} (hx : Yields P x)
    (hf : ∀ a, P a → Yields Q (f a)) : Yields Q (x >>= f) := by
  cases x with
  | error e => exact .error e
  | ok a => exact hf a (hx a rfl)

/-- Another error makes no difference to the results. -/
theorem Yields.mapError {ε' : Type} {x : Except ε α} (f : ε → ε') (hx : Yields P x) :
    Yields P (x.mapError f) := by
  cases x with
  | error e => exact .error (f e)
  | ok a => exact .ok (hx a rfl)

end Yields

/-- What has been read and what is left can both be encoded. -/
def Parts (found : Text × Text) : Prop := found.1.isEncodable ∧ found.2.isEncodable

variable {t : Text}

private theorem splitAt?_eq (mark : Text) {before after : Text}
    (h : splitAt? mark t = some (before, after)) : t = before ++ after := by
  induction t generalizing before with
  | nil =>
    rw [splitAt?] at h
    split at h <;> cases h
    rfl
  | cons c rest ih =>
    rw [splitAt?] at h
    split at h
    · cases h
      rfl
    · obtain ⟨⟨before', after'⟩, hrest, heq⟩ := Option.map_eq_some_iff.mp h
      cases heq
      rw [ih hrest, List.cons_append]

/-- A literal string that is read from a text that can be encoded can be, too. -/
theorem literalBody_encodable (mark : Text) (forbidden : CodePoint → Bool) (ht : t.isEncodable) :
    Yields Parts (literalBody mark forbidden t) := by
  rw [literalBody]
  split
  · exact .error _
  · next body rest hsplit =>
    rw [splitAt?_eq mark hsplit, Text.isEncodable_append, Bool.and_eq_true] at ht
    refine Yields.bind (P := fun _ ↦ True) (fun _ _ ↦ trivial) fun _ _ ↦ ?_
    exact .ok ⟨ht.1, Text.isEncodable_of_suffix (List.drop_suffix _ _) ht.2⟩

private theorem hexEscape_encodable (count : Nat) (ht : t.isEncodable) :
    Yields Parts (hexEscape count t) := by
  rw [hexEscape]
  split
  · exact .error _
  split
  · exact .error _
  dsimp only
  split
  · next hn =>
    have hchar (n : Nat) (hn : n < 0xD800 ∨ 0xE000 ≤ n ∧ n < 0x110000) :
        (CodePoint.ofNat n).toChar?.isSome := by
      rw [CodePoint.ofNat, if_neg (by rw [CodePoint.surrogateBase]; omega)]
      rfl
    exact .ok ⟨by simp [hchar _ hn], Text.isEncodable_of_suffix (List.drop_suffix _ _) ht⟩
  · exact .error _

private theorem lineContinuation_encodable (ht : t.isEncodable) :
    Yields Parts (lineContinuation t) := by
  have hblank : (skipBlanks t).isEncodable :=
    Text.isEncodable_of_suffix (List.dropWhile_suffix _) ht
  rw [lineContinuation]
  split
  · exact .ok ⟨rfl, rfl⟩
  · next rest hrest =>
    rw [hrest] at hblank
    exact .ok ⟨rfl, Text.isEncodable_of_suffix (List.dropWhile_suffix _)
      (Text.isEncodable_of_cons hblank)⟩
  · exact .error _

private theorem escape_encodable (manyLines : Bool) (ht : t.isEncodable) :
    Yields Parts (escape manyLines t) := by
  unfold escape
  split
  · exact .error _
  · next c rest =>
    have hrest := Text.isEncodable_of_cons ht
    split
    · exact lineContinuation_encodable ht
    split
    · exact hexEscape_encodable 4 hrest
    · exact hexEscape_encodable 8 hrest
    iterate 7 exact .ok ⟨rfl, hrest⟩
    exact .error _

/-- So can a string with escapes. -/
theorem basicBody_encodable (manyLines : Bool) (bound : Nat) {done : Text}
    (hdone : done.isEncodable) (ht : t.isEncodable) :
    Yields Parts (basicBody manyLines bound done t) := by
  induction bound generalizing done t with
  | zero => exact .error _
  | succ bound ih =>
    unfold basicBody
    split
    · exact .error _
    · next rest =>
      refine (escape_encodable manyLines (Text.isEncodable_of_cons ht)).bind
        fun ⟨piece, rest⟩ ⟨hpiece, hrest⟩ ↦ ?_
      apply ih _ hrest
      rw [Text.isEncodable_append, Text.isEncodable_reverse, hpiece, hdone]
      rfl
    · next rest =>
      have hrest := Text.isEncodable_of_cons ht
      have hend : Text.isEncodable done.reverse := (Text.isEncodable_reverse done).trans hdone
      split
      · exact .ok ⟨hend, hrest⟩
      split
      · next after =>
        exact .ok ⟨hend, Text.isEncodable_of_cons (Text.isEncodable_of_cons hrest)⟩
      · exact ih (by simpa using hdone) hrest
    · next c rest _ _ =>
      obtain ⟨hc, hrest⟩ := Bool.and_eq_true_iff.mp (Text.isEncodable_cons c rest ▸ ht)
      have hnext : Yields Parts (basicBody manyLines bound (c :: done) rest) :=
        ih (by simp [hc, hdone]) hrest
      split <;> split
      · exact .error _
      · exact hnext
      · exact .error _
      · exact hnext

private theorem extraMarks_encodable (mark : Char) {body rest : Text} (hbody : body.isEncodable)
    (hrest : rest.isEncodable) : Parts (extraMarks (.scalar mark) body rest) := by
  unfold extraMarks
  split
  · next c rest =>
    have hafter := Text.isEncodable_of_cons hrest
    split
    · exact ⟨hbody, hrest⟩
    split
    · next d after =>
      split
      · exact ⟨by simp [hbody], hafter⟩
      · exact ⟨by simp [hbody], Text.isEncodable_of_cons hafter⟩
    · exact ⟨by simp [hbody], rfl⟩
  · exact ⟨hbody, rfl⟩

private theorem skipFirstLineFeed_suffix (t : Text) : skipFirstLineFeed t <:+ t := by
  unfold skipFirstLineFeed
  split
  · exact List.suffix_cons _ _
  · exact List.suffix_refl _

/-- So can a string of any sort. -/
theorem string?_encodable (ht : t.isEncodable) {x : Except Stop (Text × Text)}
    (h : string? t = some x) : Yields Parts x := by
  -- Three marks are passed before a string on many lines, and one before a string on one line.
  have three {a b c : CodePoint} {rest : Text} (h : Text.isEncodable (a :: b :: c :: rest)) :
      (skipFirstLineFeed rest).isEncodable :=
    Text.isEncodable_of_suffix (skipFirstLineFeed_suffix rest)
      (Text.isEncodable_of_cons (Text.isEncodable_of_cons (Text.isEncodable_of_cons h)))
  unfold string? at h
  split at h
  · cases h
    refine (basicBody_encodable true _ rfl (three ht)).bind fun _ ⟨hbody, hrest⟩ ↦ ?_
    exact .ok (extraMarks_encodable _ hbody hrest)
  · cases h
    exact basicBody_encodable false _ rfl (Text.isEncodable_of_cons ht)
  · cases h
    refine (literalBody_encodable _ _ (three ht)).bind fun _ ⟨hbody, hrest⟩ ↦ ?_
    exact .ok (extraMarks_encodable _ hbody hrest)
  · cases h
    exact literalBody_encodable _ _ (Text.isEncodable_of_cons ht)
  · cases h

/-! ### What a reader leaves -/

variable {rest : Text}

private theorem fixedDigits?_suffix {count n : Nat} (h : fixedDigits? count t = some (n, rest)) :
    rest <:+ t := by
  rw [fixedDigits?] at h
  split at h
  · cases h
    exact List.drop_suffix count t
  · cases h

private theorem mark?_suffix {c : Char} (h : mark? c t = some rest) : rest <:+ t := by
  unfold mark? at h
  split at h
  · split at h
    · cases h
      exact List.suffix_cons _ _
    · cases h
  · cases h

private theorem twoDigits?_suffix {low high n : Nat} (h : twoDigits? low high t = some (n, rest)) :
    rest <:+ t := by
  rw [twoDigits?] at h
  obtain ⟨⟨m, after⟩, hdigits, h⟩ := Option.bind_eq_some_iff.mp h
  dsimp only at h
  split at h
  · cases h
    exact fixedDigits?_suffix hdigits
  · cases h

private theorem markedDigits_suffix {c : Char} {low high : Nat} {α : Type}
    {f : Nat × Text → Option α} {a : α}
    (h : (mark? c t >>= fun after ↦ twoDigits? low high after >>= f) = some a) :
    ∃ n rest, rest <:+ t ∧ f (n, rest) = some a := by
  obtain ⟨after, hmark, h⟩ := Option.bind_eq_some_iff.mp h
  obtain ⟨⟨n, rest⟩, hdigits, h⟩ := Option.bind_eq_some_iff.mp h
  exact ⟨n, rest, (twoDigits?_suffix hdigits).trans (mark?_suffix hmark), h⟩

private theorem time?_suffix (h : time? t = some rest) : rest <:+ t := by
  rw [time?] at h
  obtain ⟨⟨hours, t₁⟩, hhours, h⟩ := Option.bind_eq_some_iff.mp h
  dsimp only at h
  obtain ⟨minutes, t₂, hminutes, h⟩ := markedDigits_suffix h
  dsimp only at h
  obtain ⟨seconds, t₃, hseconds, h⟩ := markedDigits_suffix h
  have hclock : t₃ <:+ t := hseconds.trans (hminutes.trans (twoDigits?_suffix hhours))
  dsimp only at h
  split at h
  · next d more =>
    split at h
    · cases h
      exact (List.dropWhile_suffix _).trans ((List.suffix_cons _ _).trans
        ((List.suffix_cons _ _).trans hclock))
    · cases h
      exact hclock
  · cases h
    exact hclock

private theorem skipOffset_suffix (t : Text) : skipOffset t <:+ t := by
  have hclock {c : CodePoint} {rest : Text} :
      (skipOffset.clock? rest).getD (c :: rest) <:+ c :: rest := by
    cases h : skipOffset.clock? rest with
    | none => exact List.suffix_refl _
    | some after =>
      rw [skipOffset.clock?] at h
      obtain ⟨⟨hours, t₁⟩, hhours, h⟩ := Option.bind_eq_some_iff.mp h
      dsimp only at h
      obtain ⟨minutes, t₂, hminutes, h⟩ := markedDigits_suffix h
      cases h
      exact (hminutes.trans (twoDigits?_suffix hhours)).trans (List.suffix_cons c rest)
  unfold skipOffset
  split
  · exact List.suffix_cons _ _
  · exact List.suffix_cons _ _
  · exact hclock
  · exact hclock
  · exact List.suffix_refl _

private theorem dateTime?_suffix {real : Bool} (h : dateTime? t = some (real, rest)) :
    rest <:+ t := by
  rw [dateTime?] at h
  obtain ⟨⟨year, t₁⟩, hyear, h⟩ := Option.bind_eq_some_iff.mp h
  dsimp only at h
  obtain ⟨month, t₂, hmonth, h⟩ := markedDigits_suffix h
  dsimp only at h
  obtain ⟨day, t₃, hday, h⟩ := markedDigits_suffix h
  have hdate : t₃ <:+ t := hday.trans (hmonth.trans (fixedDigits?_suffix hyear))
  dsimp only at h
  split at h
  · next c more =>
    split at h
    · split at h
      · next after htime =>
        cases h
        exact (skipOffset_suffix after).trans ((time?_suffix htime).trans
          ((List.suffix_cons _ _).trans hdate))
      · cases h
        exact hdate
    · cases h
      exact hdate
  · cases h
    exact hdate

private theorem groupedDigits_suffix (isDigit : CodePoint → Bool) (t : Text) :
    (groupedDigits isDigit t).2 <:+ t := by
  fun_induction groupedDigits isDigit t with
  | case1 d rest hd digits after heq ih =>
    rw [heq] at ih
    exact ih.trans ((List.suffix_cons _ _).trans (List.suffix_cons _ _))
  | case2 => exact List.suffix_refl _
  | case3 d rest _ hd digits after heq ih =>
    rw [heq] at ih
    exact ih.trans (List.suffix_cons _ _)
  | case4 => exact List.suffix_refl _
  | case5 => exact List.suffix_refl _

private theorem digitGroup?_suffix {isDigit : CodePoint → Bool} {digits : Text}
    (h : digitGroup? isDigit t = some (digits, rest)) : rest <:+ t := by
  unfold digitGroup? at h
  split at h
  · next d after =>
    split at h
    · have hgroup := groupedDigits_suffix isDigit (d :: after)
      rw [Option.some.inj h] at hgroup
      exact hgroup
    · cases h
  · cases h

/-- What follows the start of a text is an end of it. -/
theorem after?_suffix {start : Text} (h : Text.after? start t = some rest) : rest <:+ t := by
  rw [Text.after?] at h
  split at h
  · cases h
    exact List.drop_suffix _ t
  · cases h

/-- No string in a value holds a surrogate that stands alone. -/
inductive Value.Encodable : Value → Prop
  | string {t : Text} (h : t.isEncodable) : Encodable (.string t)
  | integer (n : Int) : Encodable (.integer n)
  | float (written : Text) : Encodable (.float written)
  | boolean (b : Bool) : Encodable (.boolean b)
  | dateTime (written : Text) : Encodable (.dateTime written)
  | array {items : List Value} (h : ∀ v ∈ items, v.Encodable) : Encodable (.array items)
  | table {entries : Table} (h : ∀ entry ∈ entries, entry.2.Encodable) : Encodable (.table entries)

/-- A value without surrogates, and the end of the text that is left. -/
def Leaves (t : Text) (found : Value × Text) : Prop := found.1.Encodable ∧ found.2 <:+ t

private theorem prefixedInteger?_leaves {found : Value × Text}
    (h : prefixedInteger? t = some found) :
    Leaves t found := by
  have hbase {base : Nat} {a b : CodePoint} {after : Text}
      (h : prefixedInteger?.inBase base after = some found) : Leaves (a :: b :: after) found := by
    obtain ⟨⟨digits, rest⟩, hdigits, rfl⟩ := Option.map_eq_some_iff.mp h
    exact ⟨.integer _, (digitGroup?_suffix hdigits).trans
      ((List.suffix_cons _ _).trans (List.suffix_cons _ _))⟩
  unfold prefixedInteger? at h
  split at h
  · exact hbase h
  · exact hbase h
  · exact hbase h
  · cases h

private theorem wholeDigits?_suffix {digits : Text} (h : wholeDigits? t = some (digits, rest)) :
    rest <:+ t := by
  unfold wholeDigits? at h
  split at h
  · cases h
    exact List.suffix_cons _ _
  · exact digitGroup?_suffix h

private theorem skipFraction?_suffix (h : skipFraction? t = some rest) : rest <:+ t := by
  unfold skipFraction? at h
  split at h
  · obtain ⟨⟨digits, after⟩, hdigits, rfl⟩ := Option.map_eq_some_iff.mp h
    exact (digitGroup?_suffix hdigits).trans (List.suffix_cons _ _)
  · cases h

private theorem skipExponent?_suffix (h : skipExponent? t = some rest) : rest <:+ t := by
  unfold skipExponent? at h
  split at h
  · next c after =>
    split at h
    · obtain ⟨⟨digits, _⟩, hdigits, rfl⟩ := Option.map_eq_some_iff.mp h
      apply (digitGroup?_suffix hdigits).trans
      split
      · exact (List.suffix_cons _ _).trans (List.suffix_cons _ _)
      · exact (List.suffix_cons _ _).trans (List.suffix_cons _ _)
      · exact List.suffix_cons _ _
    · cases h
  · cases h

private theorem decimalNumber?_leaves {x : Except Stop (Value × Text)}
    (h : decimalNumber? t = some x) :
    Yields (Leaves t) x := by
  have hgetD {u : Text} {o : Option Text} (ho : ∀ v, o = some v → v <:+ u) : o.getD u <:+ u := by
    cases o with
    | none => exact List.suffix_refl u
    | some v => exact ho v rfl
  unfold decimalNumber? at h
  split at h
  next negative unsigned hsign =>
  have hunsigned : unsigned <:+ t := by
    split at hsign
    · cases hsign
      exact List.suffix_cons _ _
    · cases hsign
      exact List.suffix_cons _ _
    · cases hsign
      exact List.suffix_refl _
  obtain ⟨⟨digits, afterWhole⟩, hwhole, h⟩ := Option.bind_eq_some_iff.mp h
  have hrest := (hgetD fun _ ↦ skipExponent?_suffix).trans
    ((hgetD fun _ ↦ skipFraction?_suffix).trans ((wholeDigits?_suffix hwhole).trans hunsigned))
  dsimp only at h
  split at h
  · cases h
    exact .ok ⟨.float _, hrest⟩
  split at h
  · cases h
    exact .error _
  · cases h
    exact .ok ⟨.integer _, hrest⟩

private theorem specialFloat?_leaves {found : Value × Text} (h : specialFloat? t = some found) :
    Leaves t found := by
  rw [specialFloat?] at h
  obtain ⟨word, -, h⟩ := List.exists_of_findSome?_eq_some h
  obtain ⟨rest, hrest, rfl⟩ := Option.map_eq_some_iff.mp h
  exact ⟨.float word, after?_suffix hrest⟩

/-- Reading a number leaves an end of the text and a value that can be encoded. -/
theorem number_leaves (t : Text) : Yields (Leaves t) (number t) := by
  rw [number]
  split
  · next hdate => exact .ok ⟨.dateTime _, dateTime?_suffix hdate⟩
  · exact .error _
  split
  · next htime => exact .ok ⟨.dateTime _, time?_suffix htime⟩
  split
  · next hfound => exact .ok (prefixedInteger?_leaves hfound)
  split
  · next hfound => exact decimalNumber?_leaves hfound
  split
  · next hfound => exact .ok (specialFloat?_leaves hfound)
  · exact .error _

end Toml

end TreeCheck
