import TreeCheck.Proofs.Doubles
import TreeCheck.Proofs.Runs

/-!
# Decimal literals and doubles

A decimal number is compared with the least magnitude that is rounded to infinity. Where its first
digit stands decides for all but those that are of the same order of magnitude, so that large powers
of ten are only computed where they are needed. The decision is exact: a literal is typed if and
only if its value is rounded to a finite double, whatever its coefficient and its exponent.
-/

namespace TreeCheck

namespace Decimal

/-- The value of a finite decimal number. -/
def value (negative : Bool) (coefficient : Nat) (exponent : Int) : ℚ :=
  (if negative then -1 else 1) * coefficient * 10 ^ exponent

variable {negative : Bool} {coefficient : Nat} {exponent : Int}

private theorem abs_value :
    |value negative coefficient exponent| = coefficient * 10 ^ exponent := by
  have hpow : (0 : ℚ) < 10 ^ exponent := zpow_pos (by norm_num) exponent
  rw [value, abs_mul, abs_mul, abs_of_pos hpow, Nat.abs_cast]
  cases negative <;> simp

/-! ### The place of the first digit -/

private theorem lt_pow_digitCount (n : Nat) : n < 10 ^ digitCount n := by
  have hpos : 0 < digitCount n := List.length_pos_iff.mpr Nat.toDigits_ne_nil
  exact (Nat.length_toDigits_le_iff (by decide) hpos).mp (Nat.le_refl _)

private theorem pow_digitCount_le {n : Nat} (h : n ≠ 0) : 10 ^ (digitCount n - 1) ≤ n := by
  rcases Nat.eq_zero_or_pos (digitCount n - 1) with hone | hpos
  · rw [hone]
    exact Nat.one_le_iff_ne_zero.mpr h
  · rw [← Nat.not_lt, ← Nat.length_toDigits_le_iff (by decide) hpos]
    change ¬ digitCount n ≤ digitCount n - 1
    omega

private theorem lt_pow_adjusted (coefficient : Nat) (exponent : Int) :
    (coefficient : ℚ) * 10 ^ exponent < 10 ^ (adjusted coefficient exponent + 1) := by
  have hpow : (0 : ℚ) < 10 ^ exponent := zpow_pos (by norm_num) exponent
  have hplace : adjusted coefficient exponent + 1 = (digitCount coefficient : Int) + exponent := by
    unfold adjusted
    omega
  rw [hplace, zpow_add₀ (by norm_num), zpow_natCast]
  exact mul_lt_mul_of_pos_right (by exact_mod_cast lt_pow_digitCount coefficient) hpow

private theorem pow_adjusted_le (h : coefficient ≠ 0) (exponent : Int) :
    (10 : ℚ) ^ adjusted coefficient exponent ≤ coefficient * 10 ^ exponent := by
  have hpow : (0 : ℚ) < 10 ^ exponent := zpow_pos (by norm_num) exponent
  have hpos : 0 < digitCount coefficient := List.length_pos_iff.mpr Nat.toDigits_ne_nil
  have hplace : adjusted coefficient exponent =
      ((digitCount coefficient - 1 : Nat) : Int) + exponent := by
    unfold adjusted
    omega
  rw [hplace, zpow_add₀ (by norm_num), zpow_natCast]
  exact mul_le_mul_of_nonneg_right (by exact_mod_cast pow_digitCount_le h) hpow.le

/-! ### Comparison with the threshold -/

-- The exponents are variables here, so that nothing computes the powers.
private theorem cast_eq_pow_sub_pow {k m n : Nat} (h : m ≤ n) (hk : k = Nat.pow 2 n - Nat.pow 2 m) :
    (k : ℚ) = 2 ^ n - 2 ^ m := by
  have hle : 2 ^ m ≤ 2 ^ n := Nat.pow_le_pow_right (by decide) h
  rw [hk, Nat.pow_eq, Nat.pow_eq, Nat.cast_sub hle, Nat.cast_pow, Nat.cast_pow, Nat.cast_ofNat]

private theorem cast_doubleBound : (doubleBound : ℚ) = Double.threshold := by
  rw [Double.threshold]
  exact cast_eq_pow_sub_pow (by decide) (by decide +kernel)

private theorem isBelowDoubleBound_iff :
    isBelowDoubleBound coefficient exponent = true ↔
      (coefficient : ℚ) * 10 ^ exponent < Double.threshold := by
  unfold isBelowDoubleBound
  rw [← cast_doubleBound]
  split
  · next hpos =>
    obtain ⟨n, rfl⟩ := Int.eq_ofNat_of_zero_le hpos
    rw [decide_eq_true_iff, Int.toNat_natCast, zpow_natCast, Nat.pow_eq]
    exact_mod_cast Iff.rfl
  · next hneg =>
    obtain ⟨n, rfl⟩ : ∃ n : Nat, exponent = -n := ⟨(-exponent).toNat, by omega⟩
    have hpow : (0 : ℚ) < 10 ^ n := by positivity
    rw [decide_eq_true_iff, neg_neg, Int.toNat_natCast, zpow_neg, zpow_natCast, Nat.pow_eq,
      ← div_eq_mul_inv, div_lt_iff₀ hpow]
    exact_mod_cast Iff.rfl

/-- The threshold has its first digit where it is said to be. -/
theorem pow_le_threshold : (10 : ℚ) ^ doubleBoundAdjusted ≤ Double.threshold := by
  have h : 10 ^ 308 ≤ doubleBound := by decide +kernel
  rw [← cast_doubleBound, show doubleBoundAdjusted = ((308 : Nat) : Int) from rfl, zpow_natCast]
  exact_mod_cast h

private theorem one_lt_threshold : 1 < Double.threshold :=
  (one_lt_zpow₀ (by norm_num) (by decide)).trans_le pow_le_threshold

private theorem threshold_lt_pow : Double.threshold < (10 : ℚ) ^ (doubleBoundAdjusted + 1) := by
  have h : doubleBound < 10 ^ 309 := by decide +kernel
  rw [← cast_doubleBound, show doubleBoundAdjusted + 1 = ((309 : Nat) : Int) from rfl, zpow_natCast]
  exact_mod_cast h

/-- A finite decimal number fits if and only if its magnitude is below the threshold. -/
theorem fitsDouble_iff :
    (finite negative coefficient exponent).fitsDouble = true ↔
      |value negative coefficient exponent| < Double.threshold := by
  have hten : (1 : ℚ) ≤ 10 := by norm_num
  rw [abs_value]
  by_cases hzero : coefficient = 0
  · have hpos : 0 < Double.threshold := zero_lt_one.trans one_lt_threshold
    simp [fitsDouble, hzero, hpos]
  have hlower := pow_adjusted_le hzero exponent
  have hupper := lt_pow_adjusted coefficient exponent
  -- Away from the place of the threshold's first digit the place alone decides.
  rcases lt_trichotomy (adjusted coefficient exponent) doubleBoundAdjusted with hlt | heq | hgt
  · have hpow : (10 : ℚ) ^ (adjusted coefficient exponent + 1) ≤ 10 ^ doubleBoundAdjusted :=
      zpow_le_zpow_right₀ hten hlt
    have hbelow := hupper.trans_le (hpow.trans pow_le_threshold)
    simp [fitsDouble, hlt, hbelow]
  · simp [fitsDouble, hzero, heq, isBelowDoubleBound_iff]
  · have hpow : (10 : ℚ) ^ (doubleBoundAdjusted + 1) ≤ 10 ^ adjusted coefficient exponent :=
      zpow_le_zpow_right₀ hten hgt
    have hnot : ¬ (coefficient : ℚ) * 10 ^ exponent < Double.threshold :=
      not_lt.mpr (threshold_lt_pow.le.trans (hpow.trans hlower))
    simp [fitsDouble, hzero, hnot, hgt.ne', hgt.le]

example : (finite true (2 ^ 1024 - 2 ^ 970) 0).fitsDouble = false ∧
    (finite true (2 ^ 1024 - 2 ^ 970 - 1) 0).fitsDouble = true := by decide +kernel

/-! ### Literals -/

/-- A decimal literal has a type, both by itself and wherever it stands. -/
structure IsTyped (d : Decimal) : Prop where
  alone : ∀ (s : Symbols) (parent : Option ScopeId) (tag : NodeId),
    (s.analyze parent (.expr (.literal tag (.decimal d)))).result = .ok (.ofType tag .decimal)
  anywhere : ∀ (scopes : Scopes) (chain : Chain) (tag : NodeId) (r : Resolutions),
    (Expr.literal tag (.decimal d)).infer scopes chain r =
      recordType (.literal tag (.decimal d)) .decimal r

/-- A decimal literal is out of range, both by itself and wherever it stands. -/
structure IsRefused (d : Decimal) : Prop where
  alone : ∀ (s : Symbols) (parent : Option ScopeId) (tag : NodeId),
    (s.analyze parent (.expr (.literal tag (.decimal d)))).result =
      .error (.error (.decimalOutOfRange d))
  anywhere : ∀ (scopes : Scopes) (chain : Chain) (tag : NodeId) (r : Resolutions),
    (Expr.literal tag (.decimal d)).infer scopes chain r =
      .error (.error (.decimalOutOfRange d)) r

/-- A literal that fits gets its type. -/
theorem isTyped_of_fitsDouble {d : Decimal} (h : d.fitsDouble = true) : d.IsTyped := by
  have hrule : Rules.literalType (.decimal d) = .ok .decimal := if_pos h
  have hinfer (scopes : Scopes) (chain : Chain) (tag : NodeId) (r : Resolutions) :
      (Expr.literal tag (.decimal d)).infer scopes chain r =
        recordType (.literal tag (.decimal d)) .decimal r := by
    simp only [Expr.infer, hrule]
    exact run_bind_of_ok rfl
  refine ⟨fun s parent tag ↦ ?_, hinfer⟩
  rw [Symbols.analyze_expr_eq, hinfer]
  rfl

/-- A literal that does not fit is refused. -/
theorem isRefused_of_not_fitsDouble {d : Decimal} (h : ¬ d.fitsDouble = true) : d.IsRefused := by
  have hrule : Rules.literalType (.decimal d) = .error (.decimalOutOfRange d) := if_neg h
  have hinfer (scopes : Scopes) (chain : Chain) (tag : NodeId) (r : Resolutions) :
      (Expr.literal tag (.decimal d)).infer scopes chain r =
        .error (.error (.decimalOutOfRange d)) r := by
    simp only [Expr.infer, hrule]
    exact run_bind_of_error rfl
  refine ⟨fun s parent tag ↦ ?_, hinfer⟩
  rw [Symbols.analyze_expr_eq, hinfer]
  rfl

/-- No literal is both typed and refused. -/
theorem IsTyped.not_isRefused {d : Decimal} (h : d.IsTyped) : ¬ d.IsRefused := by
  intro hrefused
  have hok := h.anywhere ⟨[]⟩ [] 0 .empty
  rw [hrefused.anywhere] at hok
  cases hok

private theorem isTyped_iff {d : Decimal} : d.IsTyped ↔ d.fitsDouble = true := by
  constructor
  · intro h
    by_contra hfits
    exact h.not_isRefused (isRefused_of_not_fitsDouble hfits)
  · exact isTyped_of_fitsDouble

private theorem isRefused_iff {d : Decimal} : d.IsRefused ↔ ¬ d.fitsDouble = true := by
  constructor
  · intro h hfits
    exact (isTyped_of_fitsDouble hfits).not_isRefused h
  · exact isRefused_of_not_fitsDouble

/-- A decimal literal is typed if and only if its magnitude is below `2 ^ 1024 - 2 ^ 970`, which is
to say that its value is rounded to a finite double, and is refused otherwise. All zeros and all
values of magnitude at most one are typed, whatever their exponents. Infinities and values that are
no number are always refused. -/
theorem literal_typed_iff_rounded_finite :
    (∀ (negative : Bool) (coefficient : Nat) (exponent : Int),
      let d := finite negative coefficient exponent
      let v := value negative coefficient exponent
      (d.IsTyped ↔ |v| < 2 ^ 1024 - 2 ^ 970) ∧
      (d.IsRefused ↔ 2 ^ 1024 - 2 ^ 970 ≤ |v|) ∧
      (∃ x, Double.Rounds v x) ∧
      (∀ x, Double.Rounds v x → (d.IsTyped ↔ |x| < 2 ^ 1024)) ∧
      (coefficient = 0 ∨ |v| ≤ 1 → d.IsTyped)) ∧
    (∀ negative, (infinite negative).IsRefused) ∧
    (∀ negative signaling payload, (notANumber negative signaling payload).IsRefused) := by
  refine ⟨fun negative coefficient exponent ↦ ?_, ?_, ?_⟩
  · intro d v
    have htyped : d.IsTyped ↔ |v| < Double.threshold := isTyped_iff.trans fitsDouble_iff
    have hrefused : d.IsRefused ↔ Double.threshold ≤ |v| := by
      rw [isRefused_iff, fitsDouble_iff, not_lt]
    refine ⟨htyped, hrefused, Double.exists_rounds v, ?_, ?_⟩
    · intro x hx
      rw [htyped, ← hx.finite_iff]
      exact Iff.rfl
    · rintro (rfl | hone)
      · exact isTyped_of_fitsDouble rfl
      · exact htyped.mpr (hone.trans_lt one_lt_threshold)
  · exact fun negative ↦ isRefused_of_not_fitsDouble Bool.false_ne_true
  · exact fun negative signaling payload ↦ isRefused_of_not_fitsDouble Bool.false_ne_true

/-- The midpoint above the largest double is refused; zeros and tiny numbers are not. -/
theorem doubleBound_isRefused :
    (finite false doubleBound 0).IsRefused ∧ (finite true 0 1000000).IsTyped ∧
      (finite true 1 (-1000000)).IsTyped := by
  have hbound : |value false doubleBound 0| = Double.threshold := by
    rw [abs_value, zpow_zero, mul_one, cast_doubleBound]
  have htiny : |value true 1 (-1000000)| ≤ 1 := by
    rw [abs_value, Nat.cast_one, one_mul]
    exact zpow_le_one_of_nonpos₀ (by norm_num) (by decide)
  obtain ⟨hfinite, -⟩ := literal_typed_iff_rounded_finite
  obtain ⟨-, hrefused, -⟩ := hfinite false doubleBound 0
  obtain ⟨-, -, -, -, hzero⟩ := hfinite true 0 1000000
  obtain ⟨-, -, -, -, hsmall⟩ := hfinite true 1 (-1000000)
  exact ⟨hrefused.mpr hbound.ge, hzero (.inl rfl), hsmall (.inr htiny)⟩

end Decimal

end TreeCheck
