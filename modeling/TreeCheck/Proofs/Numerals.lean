import Mathlib.Data.Nat.Digits.Defs
import TreeCheck.Decimal.Basic

/-!
# Numbers can be read back

A number is determined by how it is printed. For a decimal number this takes an argument: its digits
are laid out in four ways, and the coefficient and the exponent are found from the digits on both
sides of the point and the scale behind them, whichever layout was chosen.
-/

namespace TreeCheck

/-! ### Splitting a list -/

/-- A list is split in one way only into entries that have a property and a rest that does not
begin with one. -/
theorem append_inj_of_forall {α : Type} {p : α → Bool} {l l' r r' : List α}
    (hl : ∀ a ∈ l, p a = true) (hl' : ∀ a ∈ l', p a = true) (hr : ∀ a ∈ r.head?, p a = false)
    (hr' : ∀ a ∈ r'.head?, p a = false) (h : l ++ r = l' ++ r') : l = l' ∧ r = r' := by
  have take_eq {r : List α} (hr : ∀ a ∈ r.head?, p a = false) : r.takeWhile p = [] := by
    cases r with
    | nil => rfl
    | cons a r => rw [List.takeWhile_cons_of_neg (by simpa using hr a rfl)]
  have hleft : l = l' := by
    have := congrArg (List.takeWhile p) h
    rwa [List.takeWhile_append_of_pos hl, List.takeWhile_append_of_pos hl', take_eq hr,
      take_eq hr', List.append_nil, List.append_nil] at this
  subst hleft
  exact ⟨rfl, List.append_cancel_left h⟩

namespace Text

/-! ### Digits -/

/-- The value of digits in a base. -/
def baseValue (base : Nat) (digit : CodePoint → Nat) (t : Text) : Nat :=
  t.foldl (fun value c ↦ base * value + digit c) 0

private theorem baseValue_concat (base : Nat) (digit : CodePoint → Nat) (t : Text) (c : CodePoint) :
    baseValue base digit (t ++ [c]) = base * baseValue base digit t + digit c := by
  simp [baseValue, List.foldl_append]

/-- The digits of a number in a base have its value. -/
theorem baseValue_toDigits {base : Nat} {digit : CodePoint → Nat} (hbase : 1 < base)
    (hdigit : ∀ d < base, digit (.scalar d.digitChar) = d) (n : Nat) :
    baseValue base digit ((Nat.toDigits base n).map .scalar) = n := by
  induction n using Nat.strongRecOn with
  | ind n ih =>
    by_cases hn : n < base
    · rw [Nat.toDigits_of_lt_base hn]
      simpa [baseValue] using hdigit n hn
    · have hle : base ≤ n := Nat.le_of_not_lt hn
      rw [Nat.toDigits_of_base_le hbase hle, List.map_append, List.map_singleton, baseValue_concat,
        ih _ (Nat.div_lt_self (by omega) hbase), hdigit _ (Nat.mod_lt n (by omega))]
      exact Nat.div_add_mod n base

/-- Zeros in front do not change the value. -/
theorem baseValue_replicate_append {base : Nat} {digit : CodePoint → Nat}
    (hzero : digit (.scalar '0') = 0) (k : Nat) (t : Text) :
    baseValue base digit (List.replicate k (.scalar '0') ++ t) = baseValue base digit t := by
  induction k with
  | zero => rfl
  | succ k ih =>
    rw [List.replicate_succ, List.cons_append, ← ih]
    simp [baseValue, hzero]

private theorem digit_digitChar :
    ∀ d < 10, (CodePoint.digit? (.scalar d.digitChar)).getD 0 = d := by
  decide

/-- A written number has its value. -/
@[simp] theorem digitsValue_ofNat (n : Nat) : digitsValue (ofNat n) = n :=
  baseValue_toDigits (by decide) digit_digitChar n

private theorem ofNat_injective : Function.Injective ofNat :=
  Function.LeftInverse.injective digitsValue_ofNat

private theorem isDigit_of_mem_ofNat {n : Nat} {c : CodePoint} (h : c ∈ ofNat n) :
    c.isDigit = true := by
  obtain ⟨d, hd, rfl⟩ := List.mem_map.mp h
  exact Nat.isDigit_of_mem_toDigits (by decide) (by decide) hd

/-- A written number has a digit. -/
theorem ofNat_ne_nil (n : Nat) : ofNat n ≠ [] := by
  simp [ofNat, Nat.toDigits_ne_nil]

/-- The digits of a number are digits. -/
theorem exists_digitChar_of_mem_toDigits {base : Nat} (hbase : 1 < base) {n : Nat} {c : Char}
    (h : c ∈ Nat.toDigits base n) : ∃ d : Nat, c = d.digitChar := by
  induction n using Nat.strongRecOn with
  | ind n ih =>
    by_cases hn : n < base
    · rw [Nat.toDigits_of_lt_base hn] at h
      exact ⟨n, List.mem_singleton.mp h⟩
    · have hle : base ≤ n := Nat.le_of_not_lt hn
      rw [Nat.toDigits_of_base_le hbase hle, List.mem_append, List.mem_singleton] at h
      cases h with
      | inl h => exact ih _ (Nat.div_lt_self (by omega) hbase) h
      | inr h => exact ⟨_, h⟩

/-! ### Integers -/

/-- A number is printed as digits, so it does not begin with anything else. -/
theorem head?_ofNat (n : Nat) : ∃ c, (ofNat n).head? = some c ∧ c.isDigit = true := by
  cases hn : ofNat n with
  | nil => exact absurd hn (ofNat_ne_nil n)
  | cons c t => exact ⟨c, rfl, isDigit_of_mem_ofNat (hn ▸ List.mem_cons_self)⟩

private theorem ofNat_ne_cons {n : Nat} {c : CodePoint} {t : Text} (hc : c.isDigit = false) :
    ofNat n ≠ c :: t := by
  intro h
  have := isDigit_of_mem_ofNat (h ▸ List.mem_cons_self : c ∈ ofNat n)
  rw [hc] at this
  cases this

/-- An integer is determined by how it is written. -/
theorem ofInt_injective : Function.Injective ofInt := by
  intro m n h
  unfold ofInt at h
  split_ifs at h with hm hn hn
  · have := ofNat_injective (List.append_cancel_left h)
    omega
  · exact absurd h.symm (ofNat_ne_cons rfl)
  · exact absurd h (ofNat_ne_cons rfl)
  · have := ofNat_injective h
    omega

private theorem newline_not_mem_digits {t : Text} (h : ∀ c ∈ t, c.isDigit = true) :
    .scalar '\n' ∉ t := by
  intro hmem
  cases h _ hmem

private theorem newline_not_mem_ofNat (n : Nat) : .scalar '\n' ∉ ofNat n :=
  newline_not_mem_digits fun _ hc ↦ isDigit_of_mem_ofNat hc

/-- An integer is written on one line. -/
theorem newline_not_mem_ofInt (n : Int) : .scalar '\n' ∉ ofInt n := by
  unfold ofInt
  split_ifs with hn
  · exact List.not_mem_append (by decide) (newline_not_mem_ofNat _)
  · exact newline_not_mem_ofNat _

end Text

/-! ### Decimal numbers -/

namespace Decimal

open Text

/-- The digits behind a point; the point is left out if there are none. -/
def fractionText : Text → Text
  | [] => []
  | fraction => "." ++ fraction

/-- The power of ten behind the digits, if one is written. -/
def scaleText : Option Int → Text
  | none => []
  | some shift => "E" ++ (if shift < 0 then ofInt shift else "+" ++ ofInt shift)

/-- A text shows a coefficient and an exponent: it has digits on both sides of a point, and a scale,
and every digit behind the point lowers the exponent by one. -/
inductive Shows : Text → Nat → Int → Prop
  | mk {whole fraction : Text} (scale : Option Int) (hne : whole ≠ [])
      (hwhole : ∀ c ∈ whole, c.isDigit = true)
      (hfraction : ∀ c ∈ fraction, c.isDigit = true) :
      Shows (whole ++ (fractionText fraction ++ scaleText scale)) (digitsValue (whole ++ fraction))
        (scale.getD 0 - fraction.length)

private theorem scaleText_injective : Function.Injective scaleText := by
  intro scale scale' h
  cases scale with
  | none =>
    cases scale' with
    | none => rfl
    | some shift' => cases h
  | some shift =>
    cases scale' with
    | none => cases h
    | some shift' =>
      have h := List.append_cancel_left h
      split_ifs at h with hshift hshift' hshift'
      · rw [ofInt_injective h]
      · rw [ofInt, if_pos hshift] at h
        cases h
      · rw [ofInt.eq_1 shift', if_pos hshift'] at h
        cases h
      · rw [ofInt_injective (List.append_cancel_left h)]

private theorem isDigit_head?_scaleText (scale : Option Int) :
    ∀ c ∈ (scaleText scale).head?, c.isDigit = false := by
  intro c hc
  cases scale with
  | none => cases hc
  | some shift =>
    cases hc
    rfl

private theorem isDigit_head?_fractionText (fraction : Text) (scale : Option Int) :
    ∀ c ∈ (fractionText fraction ++ scaleText scale).head?, c.isDigit = false := by
  cases fraction with
  | nil => exact isDigit_head?_scaleText scale
  | cons d fraction =>
    intro c hc
    cases hc
    rfl

/-- What stands behind the whole digits is read back. -/
theorem fractionText_append_inj {fraction fraction' : Text} {scale scale' : Option Int}
    (hfraction : ∀ c ∈ fraction, c.isDigit = true) (hfraction' : ∀ c ∈ fraction', c.isDigit = true)
    (h : fractionText fraction ++ scaleText scale = fractionText fraction' ++ scaleText scale') :
    fraction = fraction' ∧ scale = scale' := by
  have point_ne (d : CodePoint) (fraction : Text) (scale scale' : Option Int) :
      scaleText scale ≠ fractionText (d :: fraction) ++ scaleText scale' := by
    intro h
    cases scale <;> cases h
  cases fraction with
  | nil =>
    cases fraction' with
    | nil => exact ⟨rfl, scaleText_injective h⟩
    | cons d' fraction' => exact absurd h (point_ne d' fraction' scale scale')
  | cons d fraction =>
    cases fraction' with
    | nil => exact absurd h.symm (point_ne d fraction scale' scale)
    | cons d' fraction' =>
      have h : d :: fraction ++ scaleText scale = d' :: fraction' ++ scaleText scale' :=
        (List.cons.inj h).2
      obtain ⟨hdigits, hscale⟩ := append_inj_of_forall hfraction hfraction'
        (isDigit_head?_scaleText scale) (isDigit_head?_scaleText scale') h
      exact ⟨hdigits, scaleText_injective hscale⟩

/-- A text shows one coefficient and one exponent. -/
theorem Shows.unique {t : Text} {c c' : Nat} {e e' : Int} (h : Shows t c e) (h' : Shows t c' e') :
    c = c' ∧ e = e' := by
  cases h with
  | @mk whole fraction scale hne hwhole hfraction =>
    generalize ht : whole ++ (fractionText fraction ++ scaleText scale) = t at h'
    cases h' with
    | @mk whole' fraction' scale' hne' hwhole' hfraction' =>
      obtain ⟨rfl, hrest⟩ := append_inj_of_forall hwhole hwhole'
        (isDigit_head?_fractionText fraction scale) (isDigit_head?_fractionText fraction' scale') ht
      obtain ⟨rfl, rfl⟩ := fractionText_append_inj hfraction hfraction' hrest
      exact ⟨rfl, rfl⟩

/-- A number is shown with a digit first. -/
theorem Shows.head? {t : Text} {c : Nat} {e : Int} (h : Shows t c e) :
    ∃ d, t.head? = some d ∧ d.isDigit = true := by
  cases h with
  | @mk whole fraction scale hne hwhole hfraction =>
    cases whole with
    | nil => exact absurd rfl hne
    | cons d whole => exact ⟨d, rfl, hwhole d List.mem_cons_self⟩

private theorem fractionText_of_ne_nil {fraction : Text} (h : fraction ≠ []) :
    fractionText fraction = "." ++ fraction := by
  cases fraction with
  | nil => exact absurd rfl h
  | cons d fraction => rfl

private theorem digitsValue_zeros_append (k : Nat) (t : Text) :
    digitsValue (zeros k ++ t) = digitsValue t := baseValue_replicate_append rfl k t

private theorem isDigit_of_mem_zeros {k : Nat} {d : CodePoint} (h : d ∈ zeros k) :
    d.isDigit = true := by
  rw [List.eq_of_mem_replicate h]
  rfl

/-- A point among the digits of a number, or before them, splits them into whole digits and a
fraction. -/
theorem pointed_eq {c : Nat} {place : Int} (hplace : place ≤ (ofNat c).length) :
    ∃ whole fraction, pointed (ofNat c) place = whole ++ fractionText fraction ∧ whole ≠ [] ∧
      (∀ d ∈ whole ++ fraction, d.isDigit = true) ∧ digitsValue (whole ++ fraction) = c ∧
      (fraction.length : Int) = (ofNat c).length - place := by
  have hdigits (d : CodePoint) (hd : d ∈ ofNat c) : d.isDigit = true := isDigit_of_mem_ofNat hd
  have hne := ofNat_ne_nil c
  unfold pointed
  split_ifs with hbefore hinside
  · refine ⟨zeros 1, zeros place.natAbs ++ ofNat c, ?_, ?_, ?_, ?_, ?_⟩
    · rw [fractionText_of_ne_nil (List.append_ne_nil_of_right_ne_nil _ hne), List.append_assoc]
      rfl
    · decide
    · intro d hd
      rw [List.mem_append, List.mem_append] at hd
      rcases hd with hd | hd | hd
      · exact isDigit_of_mem_zeros hd
      · exact isDigit_of_mem_zeros hd
      · exact hdigits d hd
    · rw [digitsValue_zeros_append, digitsValue_zeros_append, digitsValue_ofNat]
    · rw [List.length_append, zeros, List.length_replicate]
      omega
  · refine ⟨(ofNat c).take place.toNat, (ofNat c).drop place.toNat, ?_, ?_, ?_, ?_, ?_⟩
    · have hdrop : (ofNat c).drop place.toNat ≠ [] := by
        rw [Ne, List.drop_eq_nil_iff]
        omega
      rw [fractionText_of_ne_nil hdrop, List.append_assoc]
    · rw [Ne, List.take_eq_nil_iff]
      rintro (h | h)
      · omega
      · exact hne h
    · rw [List.take_append_drop]
      exact hdigits
    · rw [List.take_append_drop, digitsValue_ofNat]
    · rw [List.length_drop]
      omega
  · have hzeros : place.toNat - (ofNat c).length = 0 := by omega
    refine ⟨ofNat c, [], ?_, hne, ?_, ?_, ?_⟩
    · rw [hzeros]
      rfl
    · rw [List.append_nil]
      exact hdigits
    · rw [List.append_nil, digitsValue_ofNat]
    · rw [List.length_nil]
      omega

/-- A magnitude shows its coefficient and its exponent. -/
theorem shows_magnitudeText (c : Nat) (e : Int) : Shows (magnitudeText c e) c e := by
  have hlength : 0 < (ofNat c).length := List.length_pos_iff.mpr (ofNat_ne_nil c)
  have shows_of_pointed (place : Int) (scale : Option Int) (hplace : place ≤ (ofNat c).length)
      (he : scale.getD 0 - ((ofNat c).length - place) = e) :
      Shows (pointed (ofNat c) place ++ scaleText scale) c e := by
    obtain ⟨whole, fraction, hpointed, hne, hdigits, hvalue, hfraction⟩ := pointed_eq hplace
    rw [hpointed, List.append_assoc, ← he, ← hfraction]
    have := Shows.mk scale hne (fun d hd ↦ hdigits d (List.mem_append_left _ hd))
      (fun d hd ↦ hdigits d (List.mem_append_right _ hd))
    rwa [hvalue] at this
  unfold magnitudeText
  dsimp only
  split_ifs with hplain hshift
  · have := shows_of_pointed (e + (ofNat c).length) none (by omega) (by simp)
    rwa [scaleText, List.append_nil] at this
  · have := shows_of_pointed 1 (some (e + (ofNat c).length - 1)) (by omega) (by simp)
    rwa [scaleText, if_pos hshift, ← List.append_assoc] at this
  · have := shows_of_pointed 1 (some (e + (ofNat c).length - 1)) (by omega) (by simp)
    rwa [scaleText, if_neg hshift, ← List.append_assoc] at this

/-- Whether a number has a minus sign. -/
def isNegative : Decimal → Bool
  | finite negative _ _ => negative
  | infinite negative => negative
  | notANumber negative _ _ => negative

/-- A decimal number without its sign. -/
def unsignedText : Decimal → Text
  | finite _ coefficient exponent => magnitudeText coefficient exponent
  | infinite _ => "Infinity"
  | notANumber _ signaling payload =>
    (if signaling then "sNaN" else "NaN") ++ (if payload = 0 then [] else ofNat payload)

private theorem toText_eq (d : Decimal) :
    d.toText = toText.signText d.isNegative ++ d.unsignedText := by
  cases d with
  | finite negative c e => rfl
  | infinite negative => rfl
  | notANumber negative signaling payload => exact List.append_assoc ..

/-- Without its sign a number begins with a digit or a letter that tells its sort. -/
theorem head?_unsignedText (d : Decimal) :
    ∃ first, d.unsignedText.head? = some first ∧
      match d with
      | finite _ _ _ => first.isDigit = true
      | infinite _ => first = .scalar 'I'
      | notANumber _ signaling _ => first = .scalar (if signaling then 's' else 'N') := by
  cases d with
  | finite negative c e => exact (shows_magnitudeText c e).head?
  | infinite negative => exact ⟨_, rfl, rfl⟩
  | notANumber negative signaling payload => cases signaling <;> exact ⟨_, rfl, rfl⟩

private theorem unsignedText_inj {d d' : Decimal} (hsign : d.isNegative = d'.isNegative)
    (h : d.unsignedText = d'.unsignedText) : d = d' := by
  obtain ⟨first, hfirst, hsort⟩ := d.head?_unsignedText
  obtain ⟨first', hfirst', hsort'⟩ := d'.head?_unsignedText
  rw [h, hfirst'] at hfirst
  cases hfirst
  cases d with
  | finite negative c e =>
    cases d' with
    | finite negative' c' e' =>
      have hshows : Shows (magnitudeText c e) c' e' := by
        rw [show magnitudeText c e = magnitudeText c' e' from h]
        exact shows_magnitudeText c' e'
      obtain ⟨hc, he⟩ := (shows_magnitudeText c e).unique hshows
      rw [show negative = negative' from hsign, hc, he]
    | infinite negative' =>
      rw [show first = _ from hsort'] at hsort
      cases hsort
    | notANumber negative' signaling' payload' =>
      rw [show first = _ from hsort'] at hsort
      cases signaling' <;> cases hsort
  | infinite negative =>
    cases d' with
    | finite negative' c' e' =>
      rw [show first = _ from hsort] at hsort'
      cases hsort'
    | infinite negative' => rw [show negative = negative' from hsign]
    | notANumber negative' signaling' payload' =>
      rw [show first = _ from hsort] at hsort'
      cases signaling' <;> cases hsort'
  | notANumber negative signaling payload =>
    cases d' with
    | finite negative' c' e' =>
      rw [show first = _ from hsort] at hsort'
      cases signaling <;> cases hsort'
    | infinite negative' =>
      rw [show first = _ from hsort] at hsort'
      cases signaling <;> cases hsort'
    | notANumber negative' signaling' payload' =>
      have hletter : ∀ s s' : Bool, CodePoint.scalar (if s then 's' else 'N') =
          .scalar (if s' then 's' else 'N') → s = s' := by decide
      obtain rfl := hletter _ _ ((show first = _ from hsort).symm.trans hsort')
      have hpayload := List.append_cancel_left h
      have hpayload : payload = payload' := by
        split_ifs at hpayload with hzero hzero' hzero'
        · rw [hzero, hzero']
        · exact absurd hpayload.symm (ofNat_ne_nil payload')
        · exact absurd hpayload (ofNat_ne_nil payload)
        · exact ofNat_injective hpayload
      rw [show negative = negative' from hsign, hpayload]

/-- A decimal number is read back from how it is printed. -/
theorem toText_injective : Function.Injective toText := by
  have hminus (negative : Bool) : ∀ c ∈ toText.signText negative, (c == .scalar '-') = true := by
    cases negative <;> decide
  have hfirst (d : Decimal) : ∀ c ∈ d.unsignedText.head?, (c == .scalar '-') = false := by
    intro c hc
    obtain ⟨first, hfirst, hsort⟩ := d.head?_unsignedText
    rw [hfirst] at hc
    cases hc
    rw [beq_eq_false_iff_ne]
    rintro rfl
    cases d with
    | finite negative c e => cases hsort
    | infinite negative => cases hsort
    | notANumber negative signaling payload => cases signaling <;> cases hsort
  intro d d' h
  rw [toText_eq, toText_eq] at h
  obtain ⟨hsign, htext⟩ := append_inj_of_forall (hminus _) (hminus _) (hfirst d) (hfirst d') h
  have hinj : ∀ b b', toText.signText b = toText.signText b' → b = b' := by decide
  exact unsignedText_inj (hinj _ _ hsign) htext

private theorem newline_not_mem_scaleText (scale : Option Int) :
    .scalar '\n' ∉ scaleText scale := by
  cases scale with
  | none => exact List.not_mem_nil
  | some shift =>
    refine List.not_mem_append (by decide) ?_
    split_ifs with hshift
    · exact newline_not_mem_ofInt shift
    · exact List.not_mem_append (by decide) (newline_not_mem_ofInt shift)

private theorem Shows.newline_not_mem {t : Text} {c : Nat} {e : Int} (h : Shows t c e) :
    .scalar '\n' ∉ t := by
  cases h with
  | @mk whole fraction scale hne hwhole hfraction =>
    refine List.not_mem_append (newline_not_mem_digits hwhole)
      (List.not_mem_append ?_ (newline_not_mem_scaleText scale))
    cases fraction with
    | nil => exact List.not_mem_nil
    | cons d fraction => exact List.not_mem_append (by decide) (newline_not_mem_digits hfraction)

private theorem newline_not_mem_unsignedText (d : Decimal) : .scalar '\n' ∉ d.unsignedText := by
  cases d with
  | finite negative c e => exact (shows_magnitudeText c e).newline_not_mem
  | infinite negative =>
    rw [unsignedText]
    decide
  | notANumber negative signaling payload =>
    refine List.not_mem_append ?_ ?_
    · cases signaling <;> decide
    · split_ifs with hzero
      · exact List.not_mem_nil
      · exact newline_not_mem_ofNat payload

/-- A decimal number is written on one line. -/
theorem newline_not_mem_toText (d : Decimal) : .scalar '\n' ∉ d.toText := by
  rw [toText_eq]
  refine List.not_mem_append ?_ (newline_not_mem_unsignedText d)
  cases d.isNegative <;> decide

end Decimal

end TreeCheck
