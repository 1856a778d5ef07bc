import TreeCheck.Proofs.Encodability
import TreeCheck.Tree.Reader

/-!
# Numbers at the start of a text

A number is read part by part: perhaps a sign, then a whole part, a fraction and an exponent, each
of them as long as it can be. A fraction or an exponent may be missing. `Json.NumberAt` says so
without the reader, and the reader finds exactly these numbers. It refuses those that have a
fraction or an exponent and are out of bounds.
-/

namespace TreeCheck.Json

/-! ### The longest start of a kind -/

private theorem digits_eq (t : Text) :
    t = (digits t).1 ++ (digits t).2 ∧ (digits t).1.all CodePoint.isDigit := by
  constructor
  · exact List.takeWhile_append_dropWhile.symm
  · simp [digits]

/-- Of all starts of a text with a property, `start` is the longest one, and `rest` follows it. -/
structure Longest (P : Text → Prop) (t start rest : Text) : Prop where
  text : t = start ++ rest
  holds : P start
  longest : ∀ start', P start' → start' <+: t → start'.length ≤ start.length

private theorem Longest.unique {P : Text → Prop} {t start rest start' rest' : Text}
    (h : Longest P t start rest) (h' : Longest P t start' rest') :
    start = start' ∧ rest = rest' := by
  have hle := h'.longest start h.holds ⟨rest, h.text.symm⟩
  have hge := h.longest start' h'.holds ⟨rest', h'.text.symm⟩
  exact List.append_inj (h.text.symm.trans h'.text) (Nat.le_antisymm hle hge)

/-! ### Parts of a number -/

/-- The whole part of a number: a zero, or digits that do not start with one. -/
def IsWhole (t : Text) : Prop :=
  t = [.scalar '0'] ∨ t ≠ [] ∧ t.head? ≠ some (.scalar '0') ∧ ∀ c ∈ t, c.isDigit = true

/-- The fraction of a number, which may be missing: a point and at least one digit. -/
def IsFraction (t : Text) : Prop :=
  t = [] ∨ ∃ digits, t = .scalar '.' :: digits ∧ digits ≠ [] ∧ ∀ c ∈ digits, c.isDigit = true

/-- The exponent of a number, which may be missing: its mark, perhaps a sign, and at least one
digit. -/
def IsExponent (t : Text) : Prop :=
  t = [] ∨ ∃ mark sign digits, t = .scalar mark :: (sign ++ digits) ∧ (mark = 'e' ∨ mark = 'E') ∧
    (sign = [] ∨ sign = [.scalar '+'] ∨ sign = [.scalar '-']) ∧
    digits ≠ [] ∧ ∀ c ∈ digits, c.isDigit = true

/-- The number that a written exponent stands for. -/
def exponentValue : Text → Int
  | [] => 0
  | _ :: .scalar '-' :: digits => -Text.digitsValue digits
  | _ :: .scalar '+' :: digits => Text.digitsValue digits
  | _ :: digits => Text.digitsValue digits

/-- A number that stands at the start of a text, up to where it ends. -/
inductive NumberAt : (t whole fraction power rest : Text) → Prop
  | number {sign unsigned whole afterWhole fraction afterFraction power rest : Text}
      (hsign : sign = [] ∨ sign = [.scalar '-'])
      (hwhole : Longest IsWhole unsigned whole afterWhole)
      (hfraction : Longest IsFraction afterWhole fraction afterFraction)
      (hpower : Longest IsExponent afterFraction power rest) :
      NumberAt (sign ++ unsigned) whole fraction power rest

/-- A number with a fraction or an exponent is out of bounds if the exponent of its first digit is
too great, or that of its last digit too small. -/
def TooGreatOrSmall (whole fraction power : Text) : Prop :=
  (fraction ≠ [] ∨ power ≠ []) ∧
    (Decimal.maxAdjusted < Decimal.adjusted (Text.digitsValue (whole ++ fraction.tail))
        (exponentValue power - fraction.tail.length) ∨
      exponentValue power - fraction.tail.length < Decimal.minExponent)

/-! ### The reader takes the longest parts -/

/-- Digits at the start of a text are among those that are read. -/
theorem length_le_digits {t ds : Text} (hds : ∀ c ∈ ds, c.isDigit = true) (hp : ds <+: t) :
    ds.length ≤ (digits t).1.length := by
  obtain ⟨rest, rfl⟩ := hp
  rw [digits, List.takeWhile_append_of_pos hds, List.length_append]
  exact Nat.le_add_right _ _

private theorem isDigit_of_mem_digits {t : Text} {c : CodePoint} (h : c ∈ (digits t).1) :
    c.isDigit = true := List.all_eq_true.mp (digits_eq t).2 c h

private theorem wholePart?_longest {t whole rest : Text} (h : wholePart? t = some (whole, rest)) :
    Longest IsWhole t whole rest := by
  unfold wholePart? at h
  split at h
  · next tail =>
    cases h
    refine ⟨rfl, .inl rfl, fun start' hstart' hp ↦ ?_⟩
    rcases hstart' with rfl | ⟨hne, hhead, -⟩
    · exact Nat.le_refl _
    · cases start' with
      | nil => exact absurd rfl hne
      | cons c cs =>
        rw [List.cons_prefix_cons] at hp
        simp [hp.1] at hhead
  · next c tail hzero =>
    split at h
    · next hc =>
      have hread : digits (c :: tail) = (whole, rest) := Option.some.inj h
      have hwhole : whole = c :: (digits tail).1 := by
        have hfirst : (digits (c :: tail)).1 = whole := by rw [hread]
        simpa [digits, hc] using hfirst.symm
      have hdigits : ∀ d ∈ whole, d.isDigit = true := fun d hd ↦
        isDigit_of_mem_digits (t := c :: tail) (by rwa [hread])
      refine ⟨?_, .inr ⟨by simp [hwhole], ?_, hdigits⟩, fun start' hstart' hp ↦ ?_⟩
      · exact (digits_eq (c :: tail)).1.trans (by rw [hread])
      · rw [hwhole, List.head?_cons, Ne, Option.some.injEq]
        exact hzero
      · rcases hstart' with rfl | ⟨-, -, hds⟩
        · simp [hwhole]
        · have hle := length_le_digits hds hp
          rwa [hread] at hle
    · cases h
  · cases h

/-- A whole part starts with a digit. -/
theorem IsWhole.head {t : Text} (h : IsWhole t) : ∃ c cs, t = c :: cs ∧ c.isDigit = true := by
  rcases h with rfl | ⟨hne, -, hds⟩
  · exact ⟨_, _, rfl, rfl⟩
  · obtain ⟨c, cs, rfl⟩ := List.exists_cons_of_ne_nil hne
    exact ⟨c, cs, rfl, hds c List.mem_cons_self⟩

private theorem not_prefix_of_wholePart? {t whole : Text} (h : wholePart? t = none)
    (hw : IsWhole whole) :
    ¬ whole <+: t := by
  intro hp
  obtain ⟨c, cs, rfl, hc⟩ := hw.head
  obtain ⟨rest, rfl⟩ := hp
  unfold wholePart? at h
  split at h
  · cases h
  · next heq =>
    cases heq
    simp [hc] at h
  · next heq => cases heq

private theorem fraction?_longest (t : Text) :
    ∃ fraction, Longest IsFraction t fraction ((fraction? t).getD ([], t)).2 ∧
      ((fraction? t).getD ([], t)).1 = fraction.tail := by
  unfold fraction?
  split
  · next rest =>
    split
    · next hempty =>
      refine ⟨[], ⟨rfl, .inl rfl, fun start' hstart' hp ↦ ?_⟩, rfl⟩
      rcases hstart' with rfl | ⟨ds, rfl, hne, hds⟩
      · exact Nat.le_refl _
      · rw [List.cons_prefix_cons] at hp
        have hle := length_le_digits hds hp.2
        rw [List.isEmpty_iff.mp hempty] at hle
        exact absurd (List.eq_nil_of_length_eq_zero (Nat.le_zero.mp hle)) hne
    · next hne =>
      refine ⟨.scalar '.' :: (digits rest).1, ⟨?_, .inr ⟨_, rfl, ?_, ?_⟩, ?_⟩, rfl⟩
      · exact congrArg (CodePoint.scalar '.' :: ·) (digits_eq rest).1
      · simpa using hne
      · exact fun c hc ↦ isDigit_of_mem_digits hc
      · intro start' hstart' hp
        rcases hstart' with rfl | ⟨ds, rfl, -, hds⟩
        · exact Nat.zero_le _
        · rw [List.cons_prefix_cons] at hp
          exact Nat.succ_le_succ (length_le_digits hds hp.2)
  · next hpoint =>
    refine ⟨[], ⟨rfl, .inl rfl, fun start' hstart' hp ↦ ?_⟩, rfl⟩
    rcases hstart' with rfl | ⟨ds, rfl, -, -⟩
    · exact Nat.le_refl _
    · obtain ⟨rest, rfl⟩ := hp
      exact absurd rfl (hpoint _)

/-- Where digits follow, a sign can only be read in one way. -/
theorem sign_eq_of_start {sign sign' ds rest : Text}
    (hsign : sign = [] ∨ sign = [.scalar '+'] ∨ sign = [.scalar '-'])
    (hsign' : sign' = [] ∨ sign' = [.scalar '+'] ∨ sign' = [.scalar '-'])
    (hplain : sign = [] → rest.head? ≠ some (.scalar '+') ∧ rest.head? ≠ some (.scalar '-'))
    (hne : ds ≠ []) (hds : ∀ c ∈ ds, c.isDigit = true) (hp : sign' ++ ds <+: sign ++ rest) :
    sign' = sign ∧ ds <+: rest := by
  obtain ⟨c, cs, rfl⟩ := List.exists_cons_of_ne_nil hne
  have hc := hds c List.mem_cons_self
  have hplus : c ≠ .scalar '+' := by
    rintro rfl
    cases hc
  have hminus : c ≠ .scalar '-' := by
    rintro rfl
    cases hc
  rcases hsign with rfl | rfl | rfl
  · obtain ⟨hnotplus, hnotminus⟩ := hplain rfl
    cases rest with
    | nil => simp at hp
    | cons d rest => rcases hsign' with rfl | rfl | rfl <;> simp_all
  · rcases hsign' with rfl | rfl | rfl <;> simp_all
  · rcases hsign' with rfl | rfl | rfl <;> simp_all

private theorem exponentValue_unsigned {ds : Text} (mark : CodePoint)
    (hds : ∀ c ∈ ds, c.isDigit = true) :
    exponentValue (mark :: ds) = Text.digitsValue ds := by
  unfold exponentValue
  split
  · next heq => cases heq
  · next heq =>
    cases heq
    cases hds _ List.mem_cons_self
  · next heq =>
    cases heq
    cases hds _ List.mem_cons_self
  · next heq =>
    cases heq
    rfl

/-- Where there is no mark there is no exponent. -/
theorem longest_missingExponent {t : Text}
    (h : ∀ mark rest, t = .scalar mark :: rest → ¬ (mark = 'e' ∨ mark = 'E')) :
    Longest IsExponent t [] t := by
  refine ⟨rfl, .inl rfl, fun start' hstart' hp ↦ ?_⟩
  rcases hstart' with rfl | ⟨mark, sign, ds, rfl, hmark, -⟩
  · exact Nat.le_refl _
  · obtain ⟨rest, rfl⟩ := hp
    exact absurd hmark (h mark _ rfl)

private theorem isExponent_start {mark : Char} {sign rest start' : Text}
    (hsign : sign = [] ∨ sign = [.scalar '+'] ∨ sign = [.scalar '-'])
    (hplain : sign = [] → rest.head? ≠ some (.scalar '+') ∧ rest.head? ≠ some (.scalar '-'))
    (h : IsExponent start') (hp : start' <+: .scalar mark :: (sign ++ rest)) :
    start' = [] ∨ (digits rest).1 ≠ [] ∧
      start'.length ≤ (.scalar mark :: (sign ++ (digits rest).1) : Text).length := by
  rcases h with rfl | ⟨mark', sign', ds, rfl, -, hsign', hne, hds⟩
  · exact .inl rfl
  · rw [List.cons_prefix_cons] at hp
    obtain ⟨rfl, hrest⟩ := sign_eq_of_start hsign hsign' hplain hne hds hp.2
    have hle := length_le_digits hds hrest
    refine .inr ⟨?_, by simpa using hle⟩
    intro hempty
    rw [hempty] at hle
    exact hne (List.eq_nil_of_length_eq_zero (Nat.le_zero.mp hle))

/-- An exponent behind its mark and its sign. -/
theorem longest_signedExponent {mark : Char} {sign rest : Text} (value : Nat → Int)
    (hmark : mark = 'e' ∨ mark = 'E')
    (hsign : sign = [] ∨ sign = [.scalar '+'] ∨ sign = [.scalar '-'])
    (hplain : sign = [] → rest.head? ≠ some (.scalar '+') ∧ rest.head? ≠ some (.scalar '-'))
    (hvalue : ∀ ds : Text, (∀ c ∈ ds, c.isDigit = true) →
      exponentValue (.scalar mark :: (sign ++ ds)) = value (Text.digitsValue ds)) :
    let found := (exponent?.magnitude? rest).map fun (n, rest) ↦ (value n, rest)
    ∃ power, Longest IsExponent (.scalar mark :: (sign ++ rest)) power
        (found.getD (0, .scalar mark :: (sign ++ rest))).2 ∧
      (found.getD (0, .scalar mark :: (sign ++ rest))).1 = exponentValue power ∧
      (found = none ↔ power = []) := by
  intro found
  cases hempty : (digits rest).1 with
  | nil =>
    have hfound : found = none := by simp [found, exponent?.magnitude?, hempty]
    rw [hfound]
    refine ⟨[], ⟨rfl, .inl rfl, fun start' hstart' hp ↦ ?_⟩, rfl, by simp⟩
    rcases isExponent_start hsign hplain hstart' hp with rfl | ⟨hne, -⟩
    · exact Nat.le_refl _
    · exact absurd hempty hne
  | cons c cs =>
    have hfound : found = some (value (Text.digitsValue (digits rest).1), (digits rest).2) := by
      simp [found, exponent?.magnitude?, hempty]
    rw [hfound]
    refine ⟨.scalar mark :: (sign ++ (digits rest).1), ⟨?_, .inr ?_, fun start' hstart' hp ↦ ?_⟩,
      ?_, by simp⟩
    · rw [Option.getD_some, List.cons_append, List.append_assoc, ← (digits_eq rest).1]
    · exact ⟨mark, sign, _, rfl, hmark, hsign, by simp [hempty],
        fun c hc ↦ isDigit_of_mem_digits hc⟩
    · rcases isExponent_start hsign hplain hstart' hp with rfl | ⟨-, hle⟩
      · exact Nat.zero_le _
      · exact hle
    · exact (hvalue _ fun c hc ↦ isDigit_of_mem_digits hc).symm

private theorem exponent?_longest (t : Text) :
    ∃ power, Longest IsExponent t power ((exponent? t).getD (0, t)).2 ∧
      ((exponent? t).getD (0, t)).1 = exponentValue power ∧ (exponent? t = none ↔ power = []) := by
  unfold exponent?
  split
  · next mark rest =>
    split
    · next hmark =>
      split
      · next rest =>
        exact longest_signedExponent (fun n ↦ -n) hmark (.inr (.inr rfl)) nofun fun ds _ ↦ rfl
      · next rest =>
        exact longest_signedExponent (fun n ↦ n) hmark (.inr (.inl rfl)) nofun fun ds _ ↦ rfl
      · next hminus hplus =>
        refine longest_signedExponent (fun n ↦ n) hmark (.inl rfl) (fun _ ↦ ⟨?_, ?_⟩)
          fun ds hds ↦ exponentValue_unsigned _ hds
        · intro hhead
          obtain ⟨tail, rfl⟩ := List.head?_eq_some_iff.mp hhead
          exact hplus tail rfl
        · intro hhead
          obtain ⟨tail, rfl⟩ := List.head?_eq_some_iff.mp hhead
          exact hminus tail rfl
    · next hmark =>
      refine ⟨[], longest_missingExponent fun mark' rest' heq ↦ ?_, rfl, by simp⟩
      cases heq
      exact hmark
  · next hscalar =>
    exact ⟨[], longest_missingExponent fun mark rest heq ↦ absurd heq (hscalar mark rest), rfl,
      by simp⟩

/-! ### Numbers -/

/-- A sign is not part of a whole number. -/
theorem sign_eq_of_isWhole {sign sign' unsigned unsigned' whole whole' rest rest' : Text}
    (hsign : sign = [] ∨ sign = [.scalar '-']) (hsign' : sign' = [] ∨ sign' = [.scalar '-'])
    (h : Longest IsWhole unsigned whole rest) (h' : Longest IsWhole unsigned' whole' rest')
    (heq : sign ++ unsigned = sign' ++ unsigned') : sign = sign' ∧ unsigned = unsigned' := by
  obtain ⟨c, cs, hc, hdigit⟩ := h.holds.head
  obtain ⟨c', cs', hc', hdigit'⟩ := h'.holds.head
  have hunsigned : unsigned = c :: (cs ++ rest) := by rw [h.text, hc, List.cons_append]
  have hunsigned' : unsigned' = c' :: (cs' ++ rest') := by rw [h'.text, hc', List.cons_append]
  rcases hsign with rfl | rfl
  · rcases hsign' with rfl | rfl
    · exact ⟨rfl, heq⟩
    · rw [hunsigned] at heq
      cases heq
      cases hdigit
  · rcases hsign' with rfl | rfl
    · rw [hunsigned'] at heq
      cases heq
      cases hdigit'
    · exact ⟨rfl, List.append_cancel_left heq⟩

private theorem NumberAt.unique {t whole fraction power rest whole' fraction' power' rest' : Text}
    (h : NumberAt t whole fraction power rest) (h' : NumberAt t whole' fraction' power' rest') :
    whole = whole' ∧ fraction = fraction' ∧ power = power' ∧ rest = rest' := by
  cases h with
  | @number sign unsigned _ _ _ _ _ _ hsign hwhole hfraction hpower =>
    generalize ht : sign ++ unsigned = t at h'
    cases h' with
    | number hsign' hwhole' hfraction' hpower' =>
      obtain ⟨-, rfl⟩ := sign_eq_of_isWhole hsign hsign' hwhole hwhole' ht
      obtain ⟨rfl, rfl⟩ := hwhole.unique hwhole'
      obtain ⟨rfl, rfl⟩ := hfraction.unique hfraction'
      obtain ⟨rfl, rfl⟩ := hpower.unique hpower'
      exact ⟨rfl, rfl, rfl, rfl⟩

/-- Behind its sign a number starts with its whole part. -/
theorem NumberAt.whole_starts {sign unsigned whole fraction power rest : Text}
    (h : NumberAt (sign ++ unsigned) whole fraction power rest)
    (hsign : sign = [] ∨ sign = [.scalar '-'])
    (hplain : sign = [] → unsigned.head? ≠ some (.scalar '-')) :
    IsWhole whole ∧ whole <+: unsigned := by
  generalize ht : sign ++ unsigned = t at h
  cases h with
  | @number sign' unsigned' _ after _ _ _ _ hsign' hwhole hfraction hpower =>
    have hstarts : whole <+: unsigned' := ⟨after, hwhole.text.symm⟩
    obtain ⟨c, cs, hc, hdigit⟩ := hwhole.holds.head
    refine ⟨hwhole.holds, ?_⟩
    rcases hsign with rfl | rfl
    · rw [List.nil_append] at ht
      rcases hsign' with rfl | rfl
      · exact ht ▸ hstarts
      · exact absurd (congrArg List.head? ht) (hplain rfl)
    · rcases hsign' with rfl | rfl
      · rw [List.nil_append] at ht
        rw [← ht, hc, List.singleton_append, List.cons_prefix_cons] at hstarts
        rw [hstarts.1] at hdigit
        cases hdigit
      · exact List.append_cancel_left ht ▸ hstarts

private theorem ofParts?_eq_none_iff {negative : Bool} {coefficient : Nat} {exponent : Int} :
    Decimal.ofParts? negative coefficient exponent = none ↔
      Decimal.maxAdjusted < Decimal.adjusted coefficient exponent ∨
        exponent < Decimal.minExponent := by
  unfold Decimal.ofParts?
  split
  · next hbounds =>
    simp only [reduceCtorEq, false_iff]
    omega
  · next hbounds =>
    simp only [true_iff]
    omega

private theorem IsFraction.eq_nil {t : Text} (h : IsFraction t) (htail : t.tail = []) : t = [] := by
  rcases h with rfl | ⟨ds, rfl, hne, -⟩
  · rfl
  · exact absurd htail hne

/-- A number is refused if it is out of bounds and read otherwise, and where no number stands none
is read. -/
theorem number_cases (start : Text) :
    (∃ whole fraction power rest, NumberAt start whole fraction power rest ∧
      (TooGreatOrSmall whole fraction power ∧ number start = .error .exponentOutOfBounds ∨
        ¬ TooGreatOrSmall whole fraction power ∧ ∃ v, number start = .ok (v, rest))) ∨
    (∀ whole fraction power rest, ¬ NumberAt start whole fraction power rest) ∧
      ∃ rest what, number start = .error (.problem rest what) := by
  generalize hx : number start = x
  unfold number at hx
  split at hx
  next negative unsigned hunsigned =>
  have hsign : ∃ sign, (sign = [] ∨ sign = [.scalar '-']) ∧ start = sign ++ unsigned ∧
      (sign = [] → unsigned.head? ≠ some (.scalar '-')) := by
    split at hunsigned
    · cases hunsigned
      exact ⟨_, .inr rfl, rfl, nofun⟩
    · next hplain =>
      cases hunsigned
      refine ⟨_, .inl rfl, rfl, fun _ hhead ↦ ?_⟩
      obtain ⟨tail, htail⟩ := List.head?_eq_some_iff.mp hhead
      exact hplain tail htail
  clear hunsigned
  obtain ⟨sign, hsign, rfl, hplain⟩ := hsign
  split at hx
  · next hwhole =>
    subst hx
    refine .inr ⟨fun whole fraction power rest h ↦ ?_, _, _, rfl⟩
    obtain ⟨hw, hstarts⟩ := h.whole_starts hsign hplain
    exact not_prefix_of_wholePart? hwhole hw hstarts
  next whole rest hwhole =>
  have hwhole := wholePart?_longest hwhole
  obtain ⟨point, hpoint, hfraction⟩ := fraction?_longest rest
  split at hx
  next fraction after hafter =>
  rw [hafter] at hpoint hfraction
  obtain ⟨power, hpower, hexponent, hmissing⟩ := exponent?_longest after
  split at hx
  · next hnone =>
    obtain rfl := hmissing.mp hnone
    obtain rfl := hpoint.holds.eq_nil hfraction.symm
    rw [hnone] at hpower
    obtain rfl : rest = after := hpoint.text
    refine .inl ⟨whole, [], [], rest, .number hsign hwhole hpoint hpower, .inr ⟨?_, _, hx.symm⟩⟩
    exact fun h ↦ h.1.elim (absurd rfl) (absurd rfl)
  · next hsome =>
    split at hx
    next exponent last hlast =>
    rw [hlast] at hpower hexponent
    have hnumber := NumberAt.number hsign hwhole hpoint hpower
    dsimp only at hfraction hexponent
    have hpresent : point ≠ [] ∨ power ≠ [] := by
      by_contra habsent
      rw [not_or, not_not, not_not] at habsent
      exact hsome (hfraction.trans (by rw [habsent.1]; rfl)) (hmissing.mpr habsent.2)
    refine .inl ⟨whole, point, power, last, hnumber, ?_⟩
    subst hfraction hexponent
    split at hx
    · next hparts =>
      exact .inl ⟨⟨hpresent, ofParts?_eq_none_iff.mp hparts⟩, hx.symm⟩
    · next d hparts =>
      refine .inr ⟨fun h ↦ ?_, _, hx.symm⟩
      rw [ofParts?_eq_none_iff.mpr h.2] at hparts
      cases hparts

/-- A number is read exactly if one stands there that is within bounds. -/
theorem number_ok_iff {start rest : Text} :
    (∃ v, number start = .ok (v, rest)) ↔
      ∃ whole fraction power, NumberAt start whole fraction power rest ∧
        ¬ TooGreatOrSmall whole fraction power := by
  rcases number_cases start with
    ⟨whole, fraction, power, rest', hat, ⟨hout, h⟩ | ⟨hin, v, h⟩⟩ | ⟨hnot, rest', what, h⟩
  · simp only [h, reduceCtorEq, exists_false, false_iff]
    rintro ⟨whole', fraction', power', hat', hin⟩
    obtain ⟨rfl, rfl, rfl, -⟩ := hat.unique hat'
    exact hin hout
  · simp only [h, Except.ok.injEq, Prod.mk.injEq]
    constructor
    · rintro ⟨-, -, rfl⟩
      exact ⟨whole, fraction, power, hat, hin⟩
    · rintro ⟨_, _, _, hat', -⟩
      exact ⟨v, rfl, (hat.unique hat').2.2.2⟩
  · simp only [h, reduceCtorEq, exists_false, false_iff]
    rintro ⟨_, _, _, hat, -⟩
    exact hnot _ _ _ _ hat

/-- Reading a number stops exactly if one stands there that is out of bounds. -/
theorem number_stops_iff {start : Text} :
    number start = .error .exponentOutOfBounds ↔
      ∃ whole fraction power rest, NumberAt start whole fraction power rest ∧
        TooGreatOrSmall whole fraction power := by
  rcases number_cases start with
    ⟨whole, fraction, power, rest', hat, ⟨hout, h⟩ | ⟨hin, v, h⟩⟩ | ⟨hnot, rest', what, h⟩
  · simp only [h, true_iff]
    exact ⟨whole, fraction, power, rest', hat, hout⟩
  · simp only [h, reduceCtorEq, false_iff]
    rintro ⟨_, _, _, _, hat', hout⟩
    obtain ⟨rfl, rfl, rfl, -⟩ := hat.unique hat'
    exact hin hout
  · simp only [h, Except.error.injEq, reduceCtorEq, false_iff]
    rintro ⟨_, _, _, _, hat, -⟩
    exact hnot _ _ _ _ hat

end TreeCheck.Json
