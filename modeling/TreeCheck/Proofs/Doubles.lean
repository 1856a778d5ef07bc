import Mathlib.Algebra.Order.Floor.Ring
import Mathlib.Data.Int.Log
import Mathlib.Data.Rat.Floor
import Mathlib.Tactic.Linarith
import Mathlib.Tactic.Positivity
import Mathlib.Tactic.Ring

/-!
# Rounding to doubles

A double has a significand of 53 bits. Rounding takes the nearest double, and of two that are
equally near the one with an even significand; it is done as if exponents had no upper bound, and
what comes to `2 ^ 1024` or more is infinite. This module shows that every number is rounded to
something, and that the result is finite exactly for the numbers below the middle between the
largest double and `2 ^ 1024`. The middle itself is rounded up, since the largest double has an odd
significand.
-/

namespace TreeCheck.Double

variable {v x y : ℚ} {m q : ℤ}

/-- A double, without an upper bound on the exponent. -/
def IsDouble (x : ℚ) : Prop := ∃ m q : ℤ, |m| < 2 ^ 53 ∧ -1074 ≤ q ∧ x = m * 2 ^ q

/-- A double with an even significand. -/
def IsEven (x : ℚ) : Prop := ∃ m q : ℤ, Even m ∧ |m| < 2 ^ 53 ∧ -1074 ≤ q ∧ x = m * 2 ^ q

/-- A number is rounded to a nearest double, and to one with an even significand if another double
is as near. -/
structure Rounds (v x : ℚ) : Prop where
  isDouble : IsDouble x
  nearest : ∀ y, IsDouble y → |x - v| ≤ |y - v|
  even : ∀ y, IsDouble y → y ≠ x → |y - v| = |x - v| → IsEven x

/-! ### Doubles -/

private theorem IsDouble.neg (h : IsDouble x) : IsDouble (-x) := by
  obtain ⟨m, q, hm, hq, rfl⟩ := h
  refine ⟨-m, q, by rwa [abs_neg], hq, ?_⟩
  push_cast
  ring

private theorem IsEven.neg (h : IsEven x) : IsEven (-x) := by
  obtain ⟨m, q, heven, hm, hq, rfl⟩ := h
  refine ⟨-m, q, heven.neg, by rwa [abs_neg], hq, ?_⟩
  push_cast
  ring

private theorem isDouble_zero : IsDouble 0 := ⟨0, 0, by decide, by decide, by simp⟩

private theorem carry (q : ℤ) : ((2 ^ 53 : ℤ) : ℚ) * 2 ^ q = ((2 ^ 52 : ℤ) : ℚ) * 2 ^ (q + 1) := by
  rw [zpow_add_one₀ two_ne_zero]
  push_cast
  ring

/-- A significand that is one too large is carried over into the exponent. -/
theorem isDouble_of_le (hm : 0 ≤ m) (hle : m ≤ 2 ^ 53) (hq : -1074 ≤ q) :
    IsDouble (m * 2 ^ q) := by
  rcases hle.lt_or_eq with hlt | rfl
  · exact ⟨m, q, by rwa [abs_of_nonneg hm], hq, rfl⟩
  · exact ⟨2 ^ 52, q + 1, by decide, by omega, carry q⟩

private theorem isEven_of_le (heven : Even m) (hm : 0 ≤ m) (hle : m ≤ 2 ^ 53) (hq : -1074 ≤ q) :
    IsEven (m * 2 ^ q) := by
  rcases hle.lt_or_eq with hlt | rfl
  · exact ⟨m, q, heven, by rwa [abs_of_nonneg hm], hq, rfl⟩
  · exact ⟨2 ^ 52, q + 1, by decide, by decide, by omega, carry q⟩

/-! ### Every number is rounded -/

private theorem Rounds.neg (h : Rounds v x) : Rounds (-v) (-x) := by
  have hdist (y : ℚ) : |-y - -v| = |y - v| := by
    rw [neg_sub_neg, abs_sub_comm]
  refine ⟨h.isDouble.neg, fun y hy ↦ ?_, fun y hy hne htie ↦ ?_⟩
  · have hnear := h.nearest (-y) hy.neg
    rwa [← hdist x, ← hdist (-y), neg_neg] at hnear
  · rw [← neg_neg y, hdist, hdist] at htie
    exact (h.even (-y) hy.neg (fun heq ↦ hne (by rw [← heq, neg_neg])) htie).neg

private theorem rounds_self (h : IsDouble v) : Rounds v v := by
  refine ⟨h, fun y _ ↦ ?_, fun y _ hne htie ↦ ?_⟩
  · rw [sub_self, abs_zero]
    exact abs_nonneg _
  · rw [sub_self, abs_zero, abs_eq_zero, sub_eq_zero] at htie
    exact absurd htie hne

/-- No double is strictly between two numbers. -/
def IsGap (lower upper : ℚ) : Prop := ∀ y, IsDouble y → y ≤ lower ∨ upper ≤ y

private theorem IsGap.neg {lower upper : ℚ} (h : IsGap lower upper) : IsGap (-upper) (-lower) := by
  intro y hy
  rcases h (-y) hy.neg with hle | hle
  · exact .inr (by linarith)
  · exact .inl (by linarith)

/-- Between two doubles that are next to each other, a number is rounded to the lower one if that is
nearer, or as near and even. -/
theorem rounds_lower {lower upper : ℚ} (hgap : IsGap lower upper) (hlower : IsDouble lower)
    (hle : lower ≤ v) (hnear : v - lower ≤ upper - v)
    (heven : v - lower = upper - v → IsEven lower) : Rounds v lower := by
  have hdist : |lower - v| = v - lower := by
    rw [abs_sub_comm, abs_of_nonneg (sub_nonneg.mpr hle)]
  refine ⟨hlower, fun y hy ↦ ?_, fun y hy hne htie ↦ ?_⟩
  · rw [hdist]
    rcases hgap y hy with hy | hy
    · linarith [neg_le_abs (y - v)]
    · linarith [le_abs_self (y - v)]
  · rw [hdist] at htie
    rcases hgap y hy with hy | hy
    · have hlt := lt_of_le_of_ne hy hne
      linarith [neg_le_abs (y - v)]
    · apply heven
      linarith [le_abs_self (y - v)]

private theorem rounds_upper {lower upper : ℚ} (hgap : IsGap lower upper) (hupper : IsDouble upper)
    (hle : v ≤ upper) (hnear : upper - v ≤ v - lower)
    (heven : upper - v = v - lower → IsEven upper) : Rounds v upper := by
  have hneg : Rounds (-v) (-upper) := by
    refine rounds_lower hgap.neg hupper.neg (by linarith) (by linarith) fun htie ↦ ?_
    exact (heven (by linarith)).neg
  simpa using hneg.neg

/-- A step in the last place of a significand leads to the next double, unless the significand could
be longer. -/
theorem isGap_step (hm : q = -1074 ∨ 2 ^ 52 ≤ m) :
    IsGap (m * 2 ^ q) ((m + 1 : ℤ) * 2 ^ q) := by
  have hunit : (0 : ℚ) ≤ 2 ^ q := (zpow_pos two_pos q).le
  rintro y ⟨k, p, hk, hp, rfl⟩
  rcases le_or_gt q p with hle | hlt
  · -- A double whose last place is not smaller is a multiple of the step.
    obtain ⟨n, hn⟩ : ∃ n : ℤ, (k : ℚ) * 2 ^ p = n * 2 ^ q := by
      refine ⟨k * 2 ^ (p - q).toNat, ?_⟩
      have hpq : p = ((p - q).toNat : ℤ) + q := by omega
      conv_lhs => rw [hpq, zpow_add₀ two_ne_zero, zpow_natCast]
      push_cast
      ring
    rw [hn]
    rcases le_or_gt n m with hnm | hnm
    · exact .inl (mul_le_mul_of_nonneg_right (Int.cast_le.mpr hnm) hunit)
    · exact .inr (mul_le_mul_of_nonneg_right (Int.cast_le.mpr hnm) hunit)
  · -- A double with a smaller last place is too small.
    left
    have hm : (2 : ℚ) ^ (52 : ℤ) ≤ m := by
      have h : (2 : ℤ) ^ 52 ≤ m := hm.resolve_left (by omega)
      exact_mod_cast h
    have hk : (k : ℚ) ≤ 2 ^ (53 : ℤ) := by
      exact_mod_cast (le_abs_self k).trans hk.le
    calc (k : ℚ) * 2 ^ p ≤ 2 ^ (53 : ℤ) * 2 ^ p :=
          mul_le_mul_of_nonneg_right hk (zpow_pos two_pos p).le
      _ = 2 ^ (53 + p) := (zpow_add₀ two_ne_zero _ _).symm
      _ ≤ 2 ^ (52 + q) := zpow_le_zpow_right₀ one_le_two (by omega)
      _ = 2 ^ (52 : ℤ) * 2 ^ q := zpow_add₀ two_ne_zero _ _
      _ ≤ m * 2 ^ q := mul_le_mul_of_nonneg_right hm hunit

/-- A positive number is between two steps of a significand of 53 bits, which is as long as the
exponent allows. -/
theorem exists_significand (hv : 0 < v) :
    ∃ m q : ℤ, -1074 ≤ q ∧ 0 ≤ m ∧ m < 2 ^ 53 ∧ (q = -1074 ∨ 2 ^ 52 ≤ m) ∧
      (m : ℚ) * 2 ^ q ≤ v ∧ v ≤ ((m + 1 : ℤ) : ℚ) * 2 ^ q := by
  obtain ⟨q, hq⟩ : ∃ q, q = max (-1074) (Int.log 2 v - 52) := ⟨_, rfl⟩
  have hunit : (0 : ℚ) < 2 ^ q := zpow_pos two_pos q
  refine ⟨⌊v / 2 ^ q⌋, q, hq ▸ le_max_left _ _, Int.floor_nonneg.mpr (by positivity),
    ?_, ?_, ?_, ?_⟩
  · have hlog : v < 2 ^ (Int.log 2 v + 1) := by
      exact_mod_cast Int.lt_zpow_succ_log_self (b := 2) (by decide) v
    have hpow : (2 : ℚ) ^ (Int.log 2 v + 1) ≤ 2 ^ (53 + q) :=
      zpow_le_zpow_right₀ one_le_two (by omega)
    rw [Int.floor_lt, div_lt_iff₀ hunit, Int.cast_pow, Int.cast_ofNat, ← zpow_natCast,
      ← zpow_add₀ two_ne_zero]
    exact hlog.trans_le hpow
  · rcases le_total (Int.log 2 v - 52) (-1074) with hle | hle
    · exact .inl (hq.trans (max_eq_left hle))
    · right
      have hlog : (2 : ℚ) ^ Int.log 2 v ≤ v := by
        exact_mod_cast Int.zpow_log_le_self (b := 2) (by decide) hv
      have hexp : Int.log 2 v = (52 : ℕ) + q := by omega
      rw [hexp, zpow_add₀ two_ne_zero, zpow_natCast] at hlog
      rwa [Int.le_floor, le_div_iff₀ hunit, Int.cast_pow, Int.cast_ofNat]
  · rw [← le_div_iff₀ hunit]
    exact Int.floor_le _
  · rw [← div_le_iff₀ hunit]
    push_cast
    exact (Int.lt_floor_add_one _).le

/-- There are doubles next to a positive number, and one of them is even. -/
theorem exists_neighbours (hv : 0 < v) :
    ∃ lower upper, lower ≤ v ∧ v ≤ upper ∧ IsDouble lower ∧ IsDouble upper ∧ IsGap lower upper ∧
      (IsEven lower ∨ IsEven upper) := by
  obtain ⟨m, q, hq, hm, hlt, hlong, hlower, hupper⟩ := exists_significand hv
  refine ⟨_, _, hlower, hupper, isDouble_of_le hm hlt.le hq, isDouble_of_le (by omega) hlt hq,
    isGap_step hlong, ?_⟩
  rcases Int.even_or_odd m with heven | hodd
  · exact .inl (isEven_of_le heven hm hlt.le hq)
  · exact .inr (isEven_of_le hodd.add_one (by omega) hlt hq)

/-- Every number rounds to something. -/
theorem exists_rounds (v : ℚ) : ∃ x, Rounds v x := by
  have hpos {v : ℚ} (hv : 0 < v) : ∃ x, Rounds v x := by
    obtain ⟨lower, upper, hl, hu, hlower, hupper, hgap, heven⟩ := exists_neighbours hv
    rcases lt_trichotomy (v - lower) (upper - v) with hlt | heq | hgt
    · exact ⟨lower, rounds_lower hgap hlower hl hlt.le fun htie ↦ absurd htie hlt.ne⟩
    · rcases heven with heven | heven
      · exact ⟨lower, rounds_lower hgap hlower hl heq.le fun _ ↦ heven⟩
      · exact ⟨upper, rounds_upper hgap hupper hu heq.ge fun _ ↦ heven⟩
    · exact ⟨upper, rounds_upper hgap hupper hu hgt.le fun htie ↦ absurd htie hgt.ne⟩
  rcases lt_trichotomy v 0 with hv | rfl | hv
  · obtain ⟨x, hx⟩ := hpos (neg_pos.mpr hv)
    exact ⟨-x, by simpa using hx.neg⟩
  · exact ⟨0, rounds_self isDouble_zero⟩
  · exact hpos hv

/-! ### What is rounded to a finite double -/

/-- The least magnitude that is not finite. -/
def limit : ℚ := 2 ^ 1024

/-- The largest finite double. -/
def largest : ℚ := (2 ^ 53 - 1) * 2 ^ 971

/-- The least magnitude that is rounded to infinity. -/
def threshold : ℚ := 2 ^ 1024 - 2 ^ 970

private theorem limit_eq : limit = 2 ^ 53 * 2 ^ 971 := pow_add 2 53 971

private theorem limit_pos : 0 < limit := pow_pos two_pos 1024

private theorem largest_add_limit : largest + limit = 2 * threshold := by
  have h971 : (2 : ℚ) ^ 971 = 2 ^ 970 * 2 := pow_succ 2 970
  have h1024 : (2 : ℚ) ^ 1024 = 2 ^ 970 * 2 ^ 54 := pow_add 2 970 54
  rw [largest, limit, threshold, h971, h1024]
  generalize (2 : ℚ) ^ 970 = u
  ring

private theorem largest_lt_limit : largest < limit := by
  rw [largest, limit_eq]
  exact mul_lt_mul_of_pos_right (by norm_num) (by positivity)

private theorem isDouble_largest : IsDouble largest := by
  refine ⟨2 ^ 53 - 1, (971 : ℕ), by decide, by decide, ?_⟩
  rw [largest, zpow_natCast, Int.cast_sub, Int.cast_pow, Int.cast_ofNat, Int.cast_one]

private theorem isDouble_limit : IsDouble limit := by
  refine ⟨1, (1024 : ℕ), by decide, by decide, ?_⟩
  rw [limit, zpow_natCast, Int.cast_one, one_mul]

/-- A double whose last place is not smaller than that of the largest one is a multiple of it. -/
private theorem exists_multiple (m : ℤ) (hq : 971 ≤ q) :
    ∃ n : ℕ, |((m : ℚ) * 2 ^ q)| = ((|m| * 2 ^ n : ℤ) : ℚ) * 2 ^ 971 := by
  obtain ⟨n, rfl⟩ : ∃ n : ℕ, q = n + (971 : ℕ) := ⟨(q - 971).toNat, by omega⟩
  have hunit : (0 : ℚ) < 2 ^ ((n : ℤ) + (971 : ℕ)) := zpow_pos two_pos _
  refine ⟨n, ?_⟩
  rw [abs_mul, abs_of_pos hunit, zpow_add₀ two_ne_zero, zpow_natCast, zpow_natCast, ← mul_assoc,
    Int.cast_mul, Int.cast_abs, Int.cast_pow, Int.cast_ofNat]

/-- There is no double between the largest finite one and the limit. -/
theorem IsDouble.le_largest (h : IsDouble x) (hx : |x| < limit) : |x| ≤ largest := by
  obtain ⟨m, q, hm, -, rfl⟩ := h
  have hlast : (0 : ℚ) < 2 ^ 971 := by positivity
  rcases le_or_gt 971 q with hle | hlt
  · obtain ⟨n, hn⟩ := exists_multiple m hle
    have hlimit : limit = ((2 ^ 53 : ℤ) : ℚ) * 2 ^ 971 := by
      rw [limit_eq, Int.cast_pow, Int.cast_ofNat]
    rw [hn] at hx ⊢
    rw [hlimit, mul_lt_mul_iff_of_pos_right hlast, Int.cast_lt] at hx
    have hle : |m| * 2 ^ n ≤ 2 ^ 53 - 1 := by omega
    rw [largest, mul_le_mul_iff_of_pos_right hlast]
    exact_mod_cast hle
  · have hunit : (0 : ℚ) < 2 ^ q := zpow_pos two_pos q
    have hm : |(m : ℚ)| ≤ 2 ^ 53 - 1 := by
      have hm : |m| ≤ 2 ^ 53 - 1 := by omega
      exact_mod_cast hm
    have hpow : (2 : ℚ) ^ q ≤ 2 ^ 971 := by
      rw [← zpow_natCast]
      exact zpow_le_zpow_right₀ one_le_two hlt.le
    rw [abs_mul, abs_of_pos hunit, largest]
    exact mul_le_mul hm hpow hunit.le (by norm_num)

/-- The largest finite double has an odd significand. -/
theorem IsEven.ne_largest (h : IsEven x) : |x| ≠ largest := by
  obtain ⟨m, q, heven, hm, -, rfl⟩ := h
  intro heq
  rcases le_or_gt 971 q with hle | hlt
  · obtain ⟨n, hn⟩ := exists_multiple m hle
    have hlast : (2 : ℚ) ^ 971 ≠ 0 := by positivity
    rw [hn, largest] at heq
    have heq := mul_right_cancel₀ hlast heq
    have heq : |m| * 2 ^ n = 2 ^ 53 - 1 := by exact_mod_cast heq
    have heven : Even (|m| * 2 ^ n) := (even_abs.mpr heven).mul_right _
    rw [heq] at heven
    exact absurd heven (by decide)
  · -- With a smaller last place the significand would be too long.
    have hunit : (0 : ℚ) < 2 ^ q := zpow_pos two_pos q
    have hpow : (2 : ℚ) ^ q ≤ 2 ^ 970 := by
      rw [← zpow_natCast]
      exact zpow_le_zpow_right₀ one_le_two (Int.le_sub_one_of_lt hlt)
    have hm : |(m : ℚ)| ≤ 2 ^ 53 := by exact_mod_cast hm.le
    have hle : |(m : ℚ) * 2 ^ q| ≤ 2 ^ 53 * 2 ^ 970 := by
      rw [abs_mul, abs_of_pos hunit]
      exact mul_le_mul hm hpow hunit.le (by norm_num)
    have h971 : (2 : ℚ) ^ 971 = 2 ^ 970 * 2 := pow_succ 2 970
    have hpos : (0 : ℚ) < 2 ^ 970 := by positivity
    rw [heq, largest, h971] at hle
    generalize (2 : ℚ) ^ 970 = u at hle hpos
    linarith

/-- A double of any magnitude there is can be found on the side of a number. -/
theorem IsDouble.exists_towards {a : ℚ} (ha : IsDouble a) (v : ℚ) :
    ∃ y, IsDouble y ∧ |y| = |a| ∧ |y - v| = abs (a - |v|) := by
  rcases le_total 0 v with hv | hv
  · exact ⟨a, ha, rfl, by rw [abs_of_nonneg hv]⟩
  · refine ⟨-a, ha.neg, abs_neg a, ?_⟩
    rw [abs_of_nonpos hv, sub_neg_eq_add, ← abs_neg, neg_sub, sub_neg_eq_add, add_comm]

private theorem Rounds.lt_limit (h : Rounds v x) (hv : |v| < threshold) : |x| < limit := by
  have hsum := largest_add_limit
  by_contra hlarge
  obtain ⟨y, hy, -, hdist⟩ := isDouble_largest.exists_towards v
  have hnear := h.nearest y hy
  have hfar : |x| - |v| ≤ |x - v| := abs_sub_abs_le_abs_sub x v
  have hclose : abs (largest - |v|) < limit - |v| := by
    rw [abs_lt]
    constructor <;> linarith [largest_lt_limit]
  linarith

private theorem Rounds.limit_le (h : Rounds v x) (hv : threshold ≤ |v|) : limit ≤ |x| := by
  have hsum := largest_add_limit
  have hlargest := largest_lt_limit
  by_contra hsmall
  have hx := h.isDouble.le_largest (not_le.mp hsmall)
  obtain ⟨y, hy, habs, hdist⟩ := isDouble_limit.exists_towards v
  rw [abs_of_pos limit_pos] at habs
  have hnear := h.nearest y hy
  have hfar : |v| - |x| ≤ |x - v| := by
    rw [abs_sub_comm]
    exact abs_sub_abs_le_abs_sub v x
  have hclose : abs (limit - |v|) ≤ |v| - largest := by
    rw [abs_le]
    constructor <;> linarith
  -- Nothing but the middle is as near to the largest double as to the limit.
  have htie : |y - v| = |x - v| := by linarith
  have hne : y ≠ x := by
    rintro rfl
    linarith
  exact (h.even y hy hne htie).ne_largest (by linarith)

/-- A number is rounded to a finite double exactly if it is below the threshold. -/
theorem Rounds.finite_iff (h : Rounds v x) : |x| < limit ↔ |v| < threshold := by
  constructor
  · intro hx
    by_contra hv
    exact absurd (h.limit_le (not_lt.mp hv)) (not_le.mpr hx)
  · exact h.lt_limit

end TreeCheck.Double
