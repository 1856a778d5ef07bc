import TreeCheck.Proofs.LongestMatch

/-!
# Documents as they are written

`Json.Written` says which texts start with a value, with the members of an object or with the
elements of an array, and what follows them. `Json.Meets` says from which texts on one comes, in
reading from left to right, to a number that is out of bounds where a value is due. The reader reads
exactly what is written, and it stops at an exponent exactly where it meets such a number.
-/

namespace TreeCheck.Json

/-! ### Strings -/

/-- A string behind its opening quote, and what follows its closing quote. -/
inductive WrittenString : (t rest : Text) → Prop
  | close {rest : Text} : WrittenString (.scalar '\x22' :: rest) rest
  | plain {c : CodePoint} {t rest : Text} (hcontrol : 0x20 ≤ c.toNat)
      (hquote : c ≠ .scalar '\x22') (hslash : c ≠ .scalar '\x5c') (h : WrittenString t rest) :
      WrittenString (c :: t) rest
  | escape {c : CodePoint} {t rest : Text} (hc : c ∈ Text.ofString "\"\\/bfnrt")
      (h : WrittenString t rest) : WrittenString (.scalar '\x5c' :: c :: t) rest
  | unicode {a b c d : CodePoint} {t rest : Text} (hdigits : ∀ x ∈ [a, b, c, d], x.hexDigit?.isSome)
      (h : WrittenString t rest) :
      WrittenString (.scalar '\x5c' :: .scalar 'u' :: a :: b :: c :: d :: t) rest

private theorem codeUnit?_isSome {a b c d : CodePoint} :
    (codeUnit? a b c d).isSome ↔ ∀ x ∈ [a, b, c, d], x.hexDigit?.isSome := by
  cases ha : a.hexDigit? <;> cases hb : b.hexDigit? <;> cases hc : c.hexDigit? <;>
    cases hd : d.hexDigit? <;> simp [codeUnit?, ha, hb, hc, hd]

private theorem simpleEscape?_isSome {c : CodePoint} :
    (simpleEscape? c).isSome ↔ c ∈ Text.ofString "\"\\/bfnrt" := by
  have hchars : Text.ofString "\"\\/bfnrt" = [.scalar '\x22', .scalar '\x5c', .scalar '/',
      .scalar 'b', .scalar 'f', .scalar 'n', .scalar 'r', .scalar 't'] := rfl
  rw [hchars]
  unfold simpleEscape?
  split <;> simp_all

namespace WrittenString

variable {a b c d : CodePoint} {t rest : Text}

private theorem quote_iff : WrittenString (.scalar '\x22' :: t) rest ↔ t = rest := by
  constructor
  · intro h
    cases h with
    | close => rfl
    | plain _ hquote => exact absurd rfl hquote
  · rintro rfl
    exact .close

private theorem plain_iff (hquote : c ≠ .scalar '\x22') (hslash : c ≠ .scalar '\x5c') :
    WrittenString (c :: t) rest ↔ 0x20 ≤ c.toNat ∧ WrittenString t rest := by
  constructor
  · intro h
    cases h with
    | close => exact absurd rfl hquote
    | plain hcontrol _ _ h => exact ⟨hcontrol, h⟩
    | escape => exact absurd rfl hslash
    | unicode => exact absurd rfl hslash
  · intro h
    exact .plain h.1 hquote hslash h.2

private theorem escape_iff (hu : c ≠ .scalar 'u') :
    WrittenString (.scalar '\x5c' :: c :: t) rest ↔
      c ∈ Text.ofString "\"\\/bfnrt" ∧ WrittenString t rest := by
  constructor
  · intro h
    cases h with
    | plain _ _ hslash => exact absurd rfl hslash
    | escape hc h => exact ⟨hc, h⟩
    | unicode => exact absurd rfl hu
  · intro h
    exact .escape h.1 h.2

/-- Behind a unicode escape the string goes on. -/
theorem unicode_exists (h : WrittenString (.scalar '\x5c' :: .scalar 'u' :: t) rest) :
    ∃ a b c d e t', t = a :: b :: c :: d :: e :: t' := by
  cases h with
  | plain _ _ hslash => exact absurd rfl hslash
  | escape hc => exact absurd hc (by decide)
  | unicode _ h => cases h <;> exact ⟨_, _, _, _, _, _, rfl⟩

private theorem unicode_iff :
    WrittenString (.scalar '\x5c' :: .scalar 'u' :: a :: b :: c :: d :: t) rest ↔
      (codeUnit? a b c d).isSome ∧ WrittenString t rest := by
  rw [codeUnit?_isSome]
  constructor
  · intro h
    cases h with
    | plain _ _ hslash => exact absurd rfl hslash
    | escape hc => exact absurd hc (by decide)
    | unicode hdigits h => exact ⟨hdigits, h⟩
  · intro h
    exact .unicode h.1 h.2

end WrittenString

/-- A backslash stands alone or before something. -/
theorem ne_slash {c : CodePoint} {t : Text} (hlone : c = .scalar '\x5c' → t = [] → False)
    (hslash : ∀ d t', c = .scalar '\x5c' → t = d :: t' → False) : c ≠ .scalar '\x5c' := by
  intro hc
  cases t with
  | nil => exact hlone hc rfl
  | cons d t' => exact hslash d t' hc rfl

/-- A string is read exactly where one is written, however much of it has been read before. -/
theorem stringBody_ok_iff {opening done t rest : Text} :
    (∃ s, stringBody opening done t = .ok (s, rest)) ↔ WrittenString t rest := by
  fun_induction stringBody opening done t with
  | case1 =>
    simp only [reduceCtorEq, exists_false, false_iff]
    intro h
    cases h
  | case2 done rest' => simp [WrittenString.quote_iff]
  | case3 =>
    simp only [reduceCtorEq, exists_false, false_iff]
    intro h
    cases h with
    | plain _ _ hslash => exact absurd rfl hslash
  | case4 done a b c d e rest' hunit => simp [WrittenString.unicode_iff, hunit]
  | case5 done a b c d unit hunit _ f g h i j rest' hsecond =>
    simp [WrittenString.unicode_iff, hsecond]
  -- Two halves of a pair are read in one step, and are two escapes in what is written.
  | case6 done a b c d unit hunit _ f g h i j rest' second hsecond _ ih =>
    rw [ih, WrittenString.unicode_iff, WrittenString.unicode_iff]
    simp [hunit, hsecond]
  | case7 done a b c d unit hunit _ f g h i j rest' second hsecond _ ih =>
    rw [ih, @WrittenString.unicode_iff a b c d]
    simp [hunit]
  | case8 done a b c d unit hunit _ e rest' _ ih =>
    rw [ih, WrittenString.unicode_iff]
    simp [hunit]
  | case9 done a b c d e rest' unit hunit _ ih =>
    rw [ih, WrittenString.unicode_iff]
    simp [hunit]
  | case10 done tail hshort =>
    simp only [reduceCtorEq, exists_false, false_iff]
    intro h
    obtain ⟨a, b, c, d, e, t', rfl⟩ := h.unicode_exists
    exact hshort a b c d e t' rfl
  | case11 done c rest' _ hu hescape =>
    rw [WrittenString.escape_iff hu, ← simpleEscape?_isSome]
    simp [hescape]
  | case12 done c rest' _ hu c' hescape ih =>
    rw [ih, WrittenString.escape_iff hu, ← simpleEscape?_isSome]
    simp [hescape]
  | case13 done c rest' hquote hlone _ _ hslash hcontrol =>
    rw [WrittenString.plain_iff hquote (ne_slash hlone hslash)]
    simp [Nat.not_le.mpr hcontrol]
  | case14 done c rest' hquote hlone _ _ hslash hcontrol ih =>
    rw [ih, WrittenString.plain_iff hquote (ne_slash hlone hslash)]
    simp [Nat.not_lt.mp hcontrol]

private theorem stringBody_ne_exponent (opening done t : Text) :
    stringBody opening done t ≠ .error .exponentOutOfBounds := by
  fun_induction stringBody opening done t <;> simp_all

private theorem WrittenString.length_lt {t rest : Text} (h : WrittenString t rest) :
    rest.length < t.length := by
  induction h with
  | close => simp
  | plain _ _ _ _ ih => exact Nat.lt_succ_of_lt ih
  | escape _ _ ih => exact Nat.lt_succ_of_lt (Nat.lt_succ_of_lt ih)
  | unicode _ _ ih =>
    simp only [List.length_cons]
    omega

/-! ### Values -/

/-- What is read in one go: a value, the members of an object behind its opening brace, or the
elements of an array behind its opening bracket, each with its closing one. -/
inductive Part where
  | value
  | members
  | elements
deriving DecidableEq, Repr

/-- A part of a document that stands at the start of a text, and what follows it. Blanks may stand
around names and values; every number is within bounds. -/
inductive Written : Part → (t rest : Text) → Prop
  | string {t rest : Text} (h : WrittenString t rest) : Written .value (.scalar '\x22' :: t) rest
  | word {word rest : Text} (h : word ∈ words.map Prod.fst) : Written .value (word ++ rest) rest
  | number {t whole fraction power rest : Text} (h : NumberAt t whole fraction power rest)
      (hbounds : ¬ TooGreatOrSmall whole fraction power) : Written .value t rest
  | emptyObject {t rest : Text} (h : skipBlanks t = .scalar '\x7d' :: rest) :
      Written .value (.scalar '\x7b' :: t) rest
  | object {t rest : Text} (h : Written .members (skipBlanks t) rest) :
      Written .value (.scalar '\x7b' :: t) rest
  | emptyArray {t rest : Text} (h : skipBlanks t = .scalar ']' :: rest) :
      Written .value (.scalar '[' :: t) rest
  | array {t rest : Text} (h : Written .elements (skipBlanks t) rest) :
      Written .value (.scalar '[' :: t) rest
  | lastMember {t u v w rest : Text} (hname : WrittenString t u)
      (hcolon : skipBlanks u = .scalar ':' :: v) (hvalue : Written .value (skipBlanks v) w)
      (hend : skipBlanks w = .scalar '\x7d' :: rest) : Written .members (.scalar '\x22' :: t) rest
  | nextMember {t u v w x rest : Text} (hname : WrittenString t u)
      (hcolon : skipBlanks u = .scalar ':' :: v) (hvalue : Written .value (skipBlanks v) w)
      (hcomma : skipBlanks w = .scalar ',' :: x) (hrest : Written .members (skipBlanks x) rest) :
      Written .members (.scalar '\x22' :: t) rest
  | lastElement {t u rest : Text} (hvalue : Written .value t u)
      (hend : skipBlanks u = .scalar ']' :: rest) : Written .elements t rest
  | nextElement {t u v rest : Text} (hvalue : Written .value t u)
      (hcomma : skipBlanks u = .scalar ',' :: v) (hrest : Written .elements (skipBlanks v) rest) :
      Written .elements t rest

/-- Reading a part of a document from left to right one comes to a number that is out of bounds.
What stands before it is written as it should be. -/
inductive Meets : Part → Text → Prop
  | number {t whole fraction power rest : Text} (h : NumberAt t whole fraction power rest)
      (hbounds : TooGreatOrSmall whole fraction power) : Meets .value t
  | object {t : Text} (h : Meets .members (skipBlanks t)) : Meets .value (.scalar '\x7b' :: t)
  | array {t : Text} (h : Meets .elements (skipBlanks t)) : Meets .value (.scalar '[' :: t)
  | member {t u v : Text} (hname : WrittenString t u) (hcolon : skipBlanks u = .scalar ':' :: v)
      (h : Meets .value (skipBlanks v)) : Meets .members (.scalar '\x22' :: t)
  | laterMember {t u v w x : Text} (hname : WrittenString t u)
      (hcolon : skipBlanks u = .scalar ':' :: v) (hvalue : Written .value (skipBlanks v) w)
      (hcomma : skipBlanks w = .scalar ',' :: x) (h : Meets .members (skipBlanks x)) :
      Meets .members (.scalar '\x22' :: t)
  | element {t : Text} (h : Meets .value t) : Meets .elements t
  | laterElement {t u v : Text} (hvalue : Written .value t u)
      (hcomma : skipBlanks u = .scalar ',' :: v) (h : Meets .elements (skipBlanks v)) :
      Meets .elements t

/-! ### The reader keeps to what is written -/

private theorem after?_eq_some_iff {start t rest : Text} :
    Text.after? start t = some rest ↔ t = start ++ rest := by
  unfold Text.after?
  constructor
  · intro h
    split at h
    · next hstarts =>
      obtain ⟨rest', rfl⟩ := List.isPrefixOf_iff_prefix.mp hstarts
      simpa using h
    · cases h
  · rintro rfl
    simp

/-- A reader of a part reads what is written, and stops at an exponent only where it meets one. -/
structure Sound (part : Part) (t : Text) (x : Except Stop (Value × Text)) : Prop where
  reads : ∀ v rest, x = .ok (v, rest) → Written part t rest
  stops : x = .error .exponentOutOfBounds → Meets part t

namespace Sound

variable {part : Part} {t : Text}

private theorem ok {v : Value} {rest : Text} (h : Written part t rest) :
    Sound part t (.ok (v, rest)) := by
  refine ⟨fun v' rest' heq ↦ ?_, nofun⟩
  cases heq
  exact h

private theorem problem (rest : Text) (what : Problem) :
    Sound part t (.error (.problem rest what)) :=
  ⟨nofun, nofun⟩

/-- A reader followed by one of what the first leaves. -/
theorem bind {α : Type} {x : Except Stop (α × Text)} {f : α × Text → Except Stop (Value × Text)}
    (hstops : x = .error .exponentOutOfBounds → Meets part t)
    (hreads : ∀ a rest, x = .ok (a, rest) → Sound part t (f (a, rest))) :
    Sound part t (x >>= f) := by
  cases x with
  | error stop =>
    refine ⟨nofun, fun heq ↦ hstops ?_⟩
    cases heq
    rfl
  | ok found => exact hreads found.1 found.2 rfl

end Sound

private theorem scalar_sound (t : Text) : Sound .value t (scalar t) := by
  unfold scalar
  split
  · next found hfound =>
    obtain ⟨⟨word, v⟩, hmem, hword⟩ := List.exists_of_findSome?_eq_some hfound
    obtain ⟨rest, hrest, rfl⟩ := Option.map_eq_some_iff.mp hword
    obtain rfl := after?_eq_some_iff.mp hrest
    exact .ok (.word (List.mem_map_of_mem hmem))
  · refine ⟨fun v rest h ↦ ?_, fun h ↦ ?_⟩
    · obtain ⟨whole, fraction, power, hat, hbounds⟩ := number_ok_iff.mp ⟨v, h⟩
      exact .number hat hbounds
    · obtain ⟨whole, fraction, power, rest, hat, hbounds⟩ := number_stops_iff.mp h
      exact .number hat hbounds

private theorem string_sound {part : Part} {t : Text} {rest : Text}
    {f : Text × Text → Except Stop (Value × Text)}
    (hreads : ∀ name rest', WrittenString rest rest' → Sound part t (f (name, rest'))) :
    Sound part t (string rest >>= f) := by
  refine Sound.bind (fun h ↦ absurd h (stringBody_ne_exponent _ _ _)) fun name rest' h ↦ ?_
  exact hreads name rest' (stringBody_ok_iff.mp ⟨name, h⟩)

mutual

private theorem value_sound (bound : Nat) (t : Text) : Sound .value t (value bound t) := by
  match bound with
  | 0 => exact .problem _ _
  | bound + 1 =>
    rw [value.eq_def]
    dsimp only
    split
    · exact string_sound fun name rest hname ↦ .ok (.string hname)
    · next rest =>
      split
      · next heq => exact .ok (.emptyObject heq)
      · have h := members_sound bound [] (skipBlanks rest)
        exact ⟨fun v rest hread ↦ .object (h.reads v rest hread),
          fun hstop ↦ .object (h.stops hstop)⟩
    · next rest =>
      split
      · next heq => exact .ok (.emptyArray heq)
      · have h := elements_sound bound [] (skipBlanks rest)
        exact ⟨fun v rest hread ↦ .array (h.reads v rest hread), fun hstop ↦ .array (h.stops hstop)⟩
    · exact scalar_sound t

private theorem members_sound (bound : Nat) (done : Entries) (t : Text) :
    Sound .members t (members bound done t) := by
  match bound with
  | 0 => exact .problem _ _
  | bound + 1 =>
    rw [members.eq_def]
    dsimp only
    split
    · next t =>
      refine string_sound fun name rest hname ↦ ?_
      dsimp only
      split
      · next rest' hcolon =>
        have hvalue := value_sound bound (skipBlanks rest')
        refine Sound.bind (fun hstop ↦ .member hname hcolon (hvalue.stops hstop)) ?_
        intro v rest hread
        have hvalue := hvalue.reads v rest hread
        dsimp only
        split
        · next hend => exact .ok (.lastMember hname hcolon hvalue hend)
        · next rest' hcomma =>
          have h := members_sound bound (done.insert name v) (skipBlanks rest')
          exact ⟨fun v rest hread ↦ .nextMember hname hcolon hvalue hcomma (h.reads v rest hread),
            fun hstop ↦ .laterMember hname hcolon hvalue hcomma (h.stops hstop)⟩
        · exact .problem _ _
      · exact .problem _ _
    · exact .problem _ _

private theorem elements_sound (bound : Nat) (done : List Value) (t : Text) :
    Sound .elements t (elements bound done t) := by
  match bound with
  | 0 => exact .problem _ _
  | bound + 1 =>
    rw [elements]
    have hvalue := value_sound bound t
    refine Sound.bind (fun hstop ↦ .element (hvalue.stops hstop)) fun v rest hread ↦ ?_
    have hvalue := hvalue.reads v rest hread
    dsimp only
    split
    · next hend => exact .ok (.lastElement hvalue hend)
    · next rest' hcomma =>
      have h := elements_sound bound (v :: done) (skipBlanks rest')
      exact ⟨fun v rest hread ↦ .nextElement hvalue hcomma (h.reads v rest hread),
        fun hstop ↦ .laterElement hvalue hcomma (h.stops hstop)⟩
    · exact .problem _ _

end

/-! ### How much a part takes -/

private theorem skipBlanks_length_le (t : Text) : (skipBlanks t).length ≤ t.length :=
  (List.dropWhile_suffix _).length_le

private theorem length_lt_of_skipBlanks {t rest : Text} {c : CodePoint}
    (h : skipBlanks t = c :: rest) :
    rest.length < t.length := by
  have hle := skipBlanks_length_le t
  rw [h, List.length_cons] at hle
  exact hle

private theorem NumberAt.length_le {t whole fraction power rest : Text}
    (h : NumberAt t whole fraction power rest) : rest.length ≤ t.length := by
  cases h with
  | number _ hwhole hfraction hpower =>
    rw [hwhole.text, hfraction.text, hpower.text]
    simp only [List.length_append]
    omega

private theorem Written.length_le {part : Part} {t rest : Text} (h : Written part t rest) :
    rest.length ≤ t.length := by
  induction h with
  | string h => exact Nat.le_succ_of_le (Nat.le_of_lt h.length_lt)
  | word _ => simp
  | number h _ => exact h.length_le
  | emptyObject h => exact Nat.le_succ_of_le (Nat.le_of_lt (length_lt_of_skipBlanks h))
  | object _ ih => exact Nat.le_succ_of_le (Nat.le_trans ih (skipBlanks_length_le _))
  | emptyArray h => exact Nat.le_succ_of_le (Nat.le_of_lt (length_lt_of_skipBlanks h))
  | array _ ih => exact Nat.le_succ_of_le (Nat.le_trans ih (skipBlanks_length_le _))
  | @lastMember t u v w rest hname hcolon _ hend ih =>
    have hu := hname.length_lt
    have hv := length_lt_of_skipBlanks hcolon
    have hw := Nat.le_trans ih (skipBlanks_length_le v)
    have hrest := length_lt_of_skipBlanks hend
    rw [List.length_cons]
    omega
  | @nextMember t u v w x rest hname hcolon _ hcomma _ ih ihrest =>
    have hu := hname.length_lt
    have hv := length_lt_of_skipBlanks hcolon
    have hw := Nat.le_trans ih (skipBlanks_length_le v)
    have hx := length_lt_of_skipBlanks hcomma
    have hrest := Nat.le_trans ihrest (skipBlanks_length_le x)
    rw [List.length_cons]
    omega
  | lastElement _ hend ih => exact Nat.le_trans (Nat.le_of_lt (length_lt_of_skipBlanks hend)) ih
  | @nextElement t u v rest _ hcomma _ ih ihrest =>
    have hv := length_lt_of_skipBlanks hcomma
    have hrest := Nat.le_trans ihrest (skipBlanks_length_le v)
    omega

/-! ### One part after another -/

/-- What holds of the reader of a part, whatever has been read before, if it may take enough nested
calls. -/
def Reader (part : Part) (t : Text) (outcome : Except Stop (Value × Text) → Prop) : Prop :=
  -- An element starts where its array's elements start, so the calls are not bounded by the signs
  -- read: each sign allows for two, and members and elements need one more than a value.
  match part with
  | .value => ∀ bound, 2 * t.length + 1 ≤ bound → outcome (value bound t)
  | .members => ∀ bound done, 2 * t.length + 2 ≤ bound → outcome (members bound done t)
  | .elements => ∀ bound done, 2 * t.length + 2 ≤ bound → outcome (elements bound done t)

/-- A reader succeeds and leaves a text. -/
def Leaves (rest : Text) (x : Except Stop (Value × Text)) : Prop := ∃ v, x = .ok (v, rest)

/-- A reader stops at an exponent. -/
def StopsAtExponent (x : Except Stop (Value × Text)) : Prop := x = .error .exponentOutOfBounds

section

variable {outcome : Except Stop (Value × Text) → Prop} {t u v w x rest : Text}

private theorem reader_value (h : ∀ b, 2 * t.length ≤ b → outcome (value (b + 1) t)) :
    Reader .value t outcome := by
  intro bound hb
  cases bound with
  | zero => omega
  | succ b => exact h b (Nat.le_of_succ_le_succ hb)

private theorem reader_members
    (h : ∀ b done, 2 * t.length + 1 ≤ b → outcome (members (b + 1) done t)) :
    Reader .members t outcome := by
  intro bound done hb
  cases bound with
  | zero => omega
  | succ b => exact h b done (Nat.le_of_succ_le_succ hb)

private theorem reader_elements
    (h : ∀ b done, 2 * t.length + 1 ≤ b → outcome (elements (b + 1) done t)) :
    Reader .elements t outcome := by
  intro bound done hb
  cases bound with
  | zero => omega
  | succ b => exact h b done (Nat.le_of_succ_le_succ hb)

private theorem reader_scalar (hquote : t.head? ≠ some (.scalar '\x22'))
    (hbrace : t.head? ≠ some (.scalar '\x7b')) (hbracket : t.head? ≠ some (.scalar '['))
    (h : outcome (scalar t)) : Reader .value t outcome := by
  apply reader_value
  intro b hb
  rw [value.eq_def]
  dsimp only
  split
  · exact absurd rfl hquote
  · exact absurd rfl hbrace
  · exact absurd rfl hbracket
  · exact h

private theorem reader_string (h : WrittenString t rest) :
    Reader .value (.scalar '\x22' :: t) (Leaves rest) := by
  apply reader_value
  intro b hb
  obtain ⟨s, hs⟩ := (@stringBody_ok_iff t [] t rest).mpr h
  refine ⟨.string s, ?_⟩
  rw [value.eq_def]
  simp only [string, hs]
  rfl

private theorem reader_emptyObject (h : skipBlanks t = .scalar '\x7d' :: rest) :
    Reader .value (.scalar '\x7b' :: t) (Leaves rest) := by
  apply reader_value
  intro b hb
  refine ⟨.object [], ?_⟩
  rw [value.eq_def]
  simp only [h]

private theorem reader_object (hne : (skipBlanks t).head? ≠ some (.scalar '\x7d'))
    (h : Reader .members (skipBlanks t) outcome) :
    Reader .value (.scalar '\x7b' :: t) outcome := by
  apply reader_value
  intro b hb
  rw [value.eq_def]
  simp only
  split
  · next heq => exact absurd (congrArg List.head? heq) hne
  · have hle := skipBlanks_length_le t
    rw [List.length_cons] at hb
    exact h b [] (by omega)

private theorem reader_emptyArray (h : skipBlanks t = .scalar ']' :: rest) :
    Reader .value (.scalar '[' :: t) (Leaves rest) := by
  apply reader_value
  intro b hb
  refine ⟨.array [], ?_⟩
  rw [value.eq_def]
  simp only [h]

private theorem reader_array (hne : (skipBlanks t).head? ≠ some (.scalar ']'))
    (h : Reader .elements (skipBlanks t) outcome) : Reader .value (.scalar '[' :: t) outcome := by
  apply reader_value
  intro b hb
  rw [value.eq_def]
  simp only
  split
  · next heq => exact absurd (congrArg List.head? heq) hne
  · have hle := skipBlanks_length_le t
    rw [List.length_cons] at hb
    exact h b [] (by omega)

/-- The value of a member may take the calls that are left. -/
theorem bound_of_member {b : Nat} (hname : WrittenString t u)
    (hcolon : skipBlanks u = .scalar ':' :: v)
    (hb : 2 * (.scalar '\x22' :: t : Text).length + 1 ≤ b) :
    2 * (skipBlanks v).length + 1 ≤ b := by
  have hu := hname.length_lt
  have hv := length_lt_of_skipBlanks hcolon
  have hle := skipBlanks_length_le v
  rw [List.length_cons] at hb
  omega

private theorem reader_member (hname : WrittenString t u) (hcolon : skipBlanks u = .scalar ':' :: v)
    (h : Reader .value (skipBlanks v) StopsAtExponent) :
    Reader .members (.scalar '\x22' :: t) StopsAtExponent := by
  apply reader_members
  intro b done hb
  obtain ⟨name, hs⟩ := (@stringBody_ok_iff t [] t u).mpr hname
  have hvalue : value b (skipBlanks v) = _ := h b (bound_of_member hname hcolon hb)
  rw [members.eq_def]
  simp only [string, hs, bind, Except.bind, hcolon, hvalue]
  rfl

private theorem reader_lastMember (hname : WrittenString t u)
    (hcolon : skipBlanks u = .scalar ':' :: v) (hvalue : Reader .value (skipBlanks v) (Leaves w))
    (hend : skipBlanks w = .scalar '\x7d' :: rest) :
    Reader .members (.scalar '\x22' :: t) (Leaves rest) := by
  apply reader_members
  intro b done hb
  obtain ⟨name, hs⟩ := (@stringBody_ok_iff t [] t u).mpr hname
  obtain ⟨found, hfound⟩ := hvalue b (bound_of_member hname hcolon hb)
  refine ⟨.object (done.insert name found), ?_⟩
  rw [members.eq_def]
  simp only [string, hs, bind, Except.bind, hcolon, hfound, hend]
  rfl

private theorem reader_nextMember (hname : WrittenString t u)
    (hcolon : skipBlanks u = .scalar ':' :: v)
    (hw : w.length ≤ (skipBlanks v).length) (hvalue : Reader .value (skipBlanks v) (Leaves w))
    (hcomma : skipBlanks w = .scalar ',' :: x) (h : Reader .members (skipBlanks x) outcome) :
    Reader .members (.scalar '\x22' :: t) outcome := by
  apply reader_members
  intro b done hb
  obtain ⟨name, hs⟩ := (@stringBody_ok_iff t [] t u).mpr hname
  have hbound := bound_of_member hname hcolon hb
  obtain ⟨found, hfound⟩ := hvalue b hbound
  rw [members.eq_def]
  simp only [string, hs, bind, Except.bind, hcolon, hfound, hcomma]
  apply h
  have hx := length_lt_of_skipBlanks hcomma
  have hle := skipBlanks_length_le x
  omega

private theorem reader_element (h : Reader .value t StopsAtExponent) :
    Reader .elements t StopsAtExponent := by
  apply reader_elements
  intro b done hb
  have hvalue : value b t = _ := h b (by omega)
  rw [elements, hvalue]
  rfl

private theorem reader_lastElement (hvalue : Reader .value t (Leaves u))
    (hend : skipBlanks u = .scalar ']' :: rest) : Reader .elements t (Leaves rest) := by
  apply reader_elements
  intro b done hb
  obtain ⟨found, hfound⟩ := hvalue b (by omega)
  refine ⟨.array (found :: done).reverse, ?_⟩
  rw [elements, hfound]
  simp only [bind, Except.bind, hend]
  rfl

private theorem reader_nextElement (hu : u.length ≤ t.length) (hvalue : Reader .value t (Leaves u))
    (hcomma : skipBlanks u = .scalar ',' :: v) (h : Reader .elements (skipBlanks v) outcome) :
    Reader .elements t outcome := by
  apply reader_elements
  intro b done hb
  obtain ⟨found, hfound⟩ := hvalue b (by omega)
  rw [elements, hfound]
  simp only [bind, Except.bind, hcomma]
  apply h
  have hv := length_lt_of_skipBlanks hcomma
  have hle := skipBlanks_length_le v
  omega

end

/-! ### Words and numbers -/

private theorem NumberAt.head_ne {t whole fraction power rest : Text}
    (h : NumberAt t whole fraction power rest) {c : CodePoint} (hdigit : c.isDigit = false)
    (hsign : c ≠ .scalar '-') : t.head? ≠ some c := by
  cases h with
  | number hminus hwhole _ _ =>
    obtain ⟨d, ds, hd, hd'⟩ := hwhole.holds.head
    rcases hminus with rfl | rfl
    · rw [hwhole.text, hd]
      rintro heq
      cases heq
      rw [hdigit] at hd'
      cases hd'
    · intro heq
      cases heq
      exact hsign rfl

private theorem NumberAt.isDigit_of_minus {c : CodePoint} {t whole fraction power rest : Text}
    (h : NumberAt (.scalar '-' :: c :: t) whole fraction power rest) : c.isDigit = true := by
  have h : NumberAt ([.scalar '-'] ++ (c :: t)) whole fraction power rest := h
  obtain ⟨hwhole, hstarts⟩ := h.whole_starts (.inr rfl) nofun
  obtain ⟨d, ds, rfl, hd⟩ := hwhole.head
  rw [List.cons_prefix_cons] at hstarts
  exact hstarts.1 ▸ hd

private theorem head_ne_of_mem_words {word rest : Text} (h : word ∈ words.map Prod.fst)
    {c : CodePoint} (hc : c ∉ Text.ofString "ntfNI-") : (word ++ rest).head? ≠ some c := by
  simp only [words, List.map_cons, List.map_nil, List.mem_cons, List.not_mem_nil, or_false] at h
  intro heq
  rcases h with rfl | rfl | rfl | rfl | rfl | rfl <;> cases heq <;> exact hc (by decide)

private theorem scalar_word {word rest : Text} (h : word ∈ words.map Prod.fst) :
    Leaves rest (scalar (word ++ rest)) := by
  simp only [words, List.map_cons, List.map_nil, List.mem_cons, List.not_mem_nil, or_false] at h
  rcases h with rfl | rfl | rfl | rfl | rfl | rfl <;> exact ⟨_, rfl⟩

private theorem not_numberAt_of_mem_words {word rest whole fraction power after : Text}
    (h : word ∈ words.map Prod.fst) : ¬ NumberAt (word ++ rest) whole fraction power after := by
  intro hat
  simp only [words, List.map_cons, List.map_nil, List.mem_cons, List.not_mem_nil, or_false] at h
  rcases h with rfl | rfl | rfl | rfl | rfl | rfl
  · exact hat.head_ne (c := .scalar 'n') rfl (by decide) rfl
  · exact hat.head_ne (c := .scalar 't') rfl (by decide) rfl
  · exact hat.head_ne (c := .scalar 'f') rfl (by decide) rfl
  · exact hat.head_ne (c := .scalar 'N') rfl (by decide) rfl
  · exact hat.head_ne (c := .scalar 'I') rfl (by decide) rfl
  -- A minus can start a number, but not before a letter.
  · cases NumberAt.isDigit_of_minus hat

/-- Where a number stands no word does. -/
theorem scalar_number {t whole fraction power rest : Text}
    (h : NumberAt t whole fraction power rest) : scalar t = number t := by
  unfold scalar
  split
  · next found hfound =>
    obtain ⟨⟨word, v⟩, hmem, hword⟩ := List.exists_of_findSome?_eq_some hfound
    obtain ⟨rest, hrest, rfl⟩ := Option.map_eq_some_iff.mp hword
    obtain rfl := after?_eq_some_iff.mp hrest
    exact absurd h (not_numberAt_of_mem_words (List.mem_map_of_mem hmem))
  · rfl

private theorem reader_number {outcome : Except Stop (Value × Text) → Prop}
    {t whole fraction power rest : Text} (h : NumberAt t whole fraction power rest)
    (hnumber : outcome (number t)) : Reader .value t outcome := by
  apply reader_scalar
  · exact h.head_ne rfl (by decide)
  · exact h.head_ne rfl (by decide)
  · exact h.head_ne rfl (by decide)
  · rwa [scalar_number h]

/-! ### The first sign of a part -/

/-- The signs that a value, or a member, can start with. -/
def opens (c : CodePoint) : Bool := c.isDigit || (Text.ofString "\"\x7b[ntfNI-").contains c

private theorem NumberAt.head_ne_of_opens {t whole fraction power rest : Text}
    (h : NumberAt t whole fraction power rest) {c : CodePoint} (hc : opens c = false) :
    t.head? ≠ some c := by
  apply h.head_ne
  · exact (Bool.or_eq_false_iff.mp hc).1
  · rintro rfl
    cases hc

private theorem not_mem_of_opens {c : CodePoint} (hc : opens c = false) :
    c ∉ Text.ofString "ntfNI-" := by
  intro hmem
  have hopens : opens c = true := by
    apply Bool.or_eq_true_iff.mpr
    right
    exact List.contains_iff_mem.mpr (List.mem_append_right (Text.ofString "\"\x7b[") hmem)
  rw [hc] at hopens
  cases hopens

private theorem Written.head_ne {part : Part} {t rest : Text} (h : Written part t rest)
    {c : CodePoint} (hc : opens c = false) : t.head? ≠ some c := by
  induction h with
  | word h => exact head_ne_of_mem_words h (not_mem_of_opens hc)
  | number h _ => exact h.head_ne_of_opens hc
  | lastElement _ _ ih => exact ih
  | nextElement _ _ _ ih _ => exact ih
  | string | emptyObject | object | emptyArray | array | lastMember | nextMember =>
    intro heq
    cases heq
    cases hc

private theorem Meets.head_ne {part : Part} {t : Text} (h : Meets part t) {c : CodePoint}
    (hc : opens c = false) : t.head? ≠ some c := by
  induction h with
  | number h _ => exact h.head_ne_of_opens hc
  | element _ ih => exact ih
  | laterElement hvalue => exact hvalue.head_ne hc
  | object | array | member | laterMember =>
    intro heq
    cases heq
    cases hc

/-! ### The reader reads all that is written -/

private theorem Written.reads {part : Part} {t rest : Text} (h : Written part t rest) :
    Reader part t (Leaves rest) := by
  induction h with
  | string h => exact reader_string h
  | word h =>
    apply reader_scalar
    · exact head_ne_of_mem_words h (by decide)
    · exact head_ne_of_mem_words h (by decide)
    · exact head_ne_of_mem_words h (by decide)
    · exact scalar_word h
  | number h hbounds => exact reader_number h (number_ok_iff.mpr ⟨_, _, _, h, hbounds⟩)
  | emptyObject h => exact reader_emptyObject h
  | object h ih => exact reader_object (h.head_ne rfl) ih
  | emptyArray h => exact reader_emptyArray h
  | array h ih => exact reader_array (h.head_ne rfl) ih
  | lastMember hname hcolon _ hend ih => exact reader_lastMember hname hcolon ih hend
  | nextMember hname hcolon hvalue hcomma _ ih ihrest =>
    exact reader_nextMember hname hcolon hvalue.length_le ih hcomma ihrest
  | lastElement _ hend ih => exact reader_lastElement ih hend
  | nextElement hvalue hcomma _ ih ihrest =>
    exact reader_nextElement hvalue.length_le ih hcomma ihrest

private theorem Meets.stops {part : Part} {t : Text} (h : Meets part t) :
    Reader part t StopsAtExponent := by
  induction h with
  | number h hbounds => exact reader_number h (number_stops_iff.mpr ⟨_, _, _, _, h, hbounds⟩)
  | object h ih => exact reader_object (h.head_ne rfl) ih
  | array h ih => exact reader_array (h.head_ne rfl) ih
  | member hname hcolon _ ih => exact reader_member hname hcolon ih
  | laterMember hname hcolon hvalue hcomma _ ih =>
    exact reader_nextMember hname hcolon hvalue.length_le hvalue.reads hcomma ih
  | element _ ih => exact reader_element ih
  | laterElement hvalue hcomma _ ih =>
    exact reader_nextElement hvalue.length_le hvalue.reads hcomma ih

/-! ### Whole documents -/

/-- A text holds a value, with blanks around it. -/
def IsDocument (t : Text) : Prop :=
  ∃ rest, Written .value (skipBlanks t) rest ∧ skipBlanks rest = []

/-- The bound that a document is read with is enough. -/
theorem value_callBound {t : Text} {outcome : Except Stop (Value × Text) → Prop}
    (h : Reader .value (skipBlanks t) outcome) : outcome (value (callBound t) (skipBlanks t)) := by
  apply h
  have hle := skipBlanks_length_le t
  unfold callBound
  omega

/-- A document is read exactly if it is written as one. -/
theorem document_ok_iff {t : Text} : (∃ found, document t = .ok found) ↔ IsDocument t := by
  unfold document
  split
  · simp only [reduceCtorEq, exists_false, false_iff]
    rintro ⟨rest, h, -⟩
    exact h.head_ne rfl rfl
  · have hsound := value_sound (callBound t) (skipBlanks t)
    constructor
    · rintro ⟨found, h⟩
      cases hv : value (callBound t) (skipBlanks t) with
      | error stop =>
        rw [hv] at h
        cases h
      | ok first =>
        rw [hv] at h
        simp only [bind, Except.bind] at h
        split at h
        · next hrest => exact ⟨first.2, hsound.reads _ _ hv, hrest⟩
        · cases h
    · rintro ⟨rest, h, hrest⟩
      obtain ⟨v, hv⟩ := value_callBound h.reads
      refine ⟨(v, []), ?_⟩
      rw [hv]
      simp only [bind, Except.bind, hrest]
      rfl

private theorem document_stops_iff {t : Text} :
    document t = .error .exponentOutOfBounds ↔ Meets .value (skipBlanks t) := by
  unfold document
  split
  · simp only [Except.error.injEq, reduceCtorEq, false_iff]
    intro h
    exact h.head_ne rfl rfl
  · have hsound := value_sound (callBound t) (skipBlanks t)
    constructor
    · intro h
      cases hv : value (callBound t) (skipBlanks t) with
      | error stop =>
        rw [hv] at h
        cases h
        exact hsound.stops hv
      | ok found =>
        rw [hv] at h
        simp only [bind, Except.bind] at h
        split at h <;> cases h
    · intro h
      have hv := value_callBound h.stops
      unfold StopsAtExponent at hv
      rw [hv]
      rfl

/-- Reading a document stops at an exponent exactly if one meets it from left to right. -/
theorem parse_stops_iff {t : Text} :
    parse t = .error .exponentOutOfBounds ↔ Meets .value (skipBlanks t) := by
  rw [← document_stops_iff]
  unfold parse
  split <;> simp_all

/-- A text that holds no value, and in which one meets no number out of bounds, has a mistake on one
of its lines. -/
theorem parse_malformed {t : Text} (hnot : ¬ IsDocument t)
    (hmeets : ¬ Meets .value (skipBlanks t)) :
    ∃ line what, parse t = .error (.malformed line what) := by
  unfold parse
  cases h : document t with
  | ok found => exact absurd (document_ok_iff.mp ⟨found, h⟩) hnot
  | error stop =>
    cases stop with
    | problem rest what => exact ⟨_, what, rfl⟩
    | exponentOutOfBounds => exact absurd (document_stops_iff.mp h) hmeets

end TreeCheck.Json

namespace TreeCheck

/-- Reading a tree stops at an exponent exactly if reading the document does. -/
theorem Node.ofText_eq_exponent_iff {t : Text} :
    ofText t = .error .exponentOutOfBounds ↔ Json.parse t = .error .exponentOutOfBounds := by
  unfold ofText
  cases Json.parse t with
  | error e => cases e <;> simp
  | ok v =>
    dsimp only
    cases ofJson v <;> simp [Except.mapError]

/-- A text is read as a tree, or a mistake in it is reported, exactly if reading it from left to
right one meets no number out of bounds, wherever it stands; if one does, the reading ends there.
What is no document is reported with the line of a mistake, unless it meets such a number. -/
theorem Node.ofText_settles (t : Text) :
    (((∃ tree, ofText t = .ok tree) ∨ ∃ e, ofText t = .error (.format e)) ↔
      ¬ Json.Meets .value (Json.skipBlanks t)) ∧
    (ofText t = .error .exponentOutOfBounds ↔ Json.Meets .value (Json.skipBlanks t)) ∧
    (Json.IsDocument t ∨ Json.Meets .value (Json.skipBlanks t) ∨
      ∃ line what, ofText t = .error (.format (.invalidJson line what))) := by
  have hstops : ofText t = .error .exponentOutOfBounds ↔ Json.Meets .value (Json.skipBlanks t) :=
    ofText_eq_exponent_iff.trans Json.parse_stops_iff
  refine ⟨?_, hstops, ?_⟩
  · rw [← hstops]
    cases ofText t with
    | ok tree => simp
    | error e => cases e <;> simp
  · by_cases hdocument : Json.IsDocument t
    · exact .inl hdocument
    by_cases hmeets : Json.Meets .value (Json.skipBlanks t)
    · exact .inr (.inl hmeets)
    obtain ⟨line, what, h⟩ := Json.parse_malformed hdocument hmeets
    refine .inr (.inr ⟨line, what, ?_⟩)
    unfold ofText
    rw [h]

/-- Reading a number that is out of bounds gives no tree and reports no mistake. -/
theorem Node.ofText_greatNumber :
    ofText "1e1000000000000000000" = .error .exponentOutOfBounds :=
  rfl

end TreeCheck
