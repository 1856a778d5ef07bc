import TreeCheck.Text.Basic

/-!
# Similar names

How alike two texts are is measured by common runs: take the longest run of code points that both
share, then the longest shared runs to its left and to its right, and so on. If `m` code points
are matched in this way out of `t` in both texts together, the similarity is `2 * m / t`.

In a long text the code points that occur very often are not used to find a run, but a run that
was found may extend over them.

Source: `SPEC_FULL.md`, section 7 (error handling).
-/

namespace TreeCheck.Similarity

/-- A code point of the text asked for; a common one does not start a run. -/
structure Letter where
  point : CodePoint
  common : Bool
deriving DecidableEq, Repr

/-- Mark the code points that occur too often to be useful: in a text of at least 200, those that
occur more than once in a hundred and once more. -/
def letters (t : Text) : List Letter :=
  t.map fun c ↦ ⟨c, 200 ≤ t.length ∧ t.length / 100 + 1 < t.count c⟩

/-- A run shared by two texts: where it starts in each, and its length. -/
structure Run where
  left : Nat
  right : Nat
  size : Nat
deriving DecidableEq, Repr

/-- The lengths of the shared runs that end at `c` and at each letter, given the lengths of those
that end one place earlier in both texts. -/
def endingAt (c : CodePoint) : List Letter → List Nat → List Nat
  | [], _ => []
  | l :: ls, earlier =>
    (if l.point = c ∧ !l.common then earlier.headD 0 + 1 else 0) :: endingAt c ls earlier.tail

/-- Keep the longest run so far, or the first longer one among those that end at place `i` of the
first text and at the places from `j` on of the second. -/
def longer (i : Nat) : (j : Nat) → List Nat → Run → Run
  | _, [], best => best
  | j, k :: ks, best =>
    longer i (j + 1) ks (if best.size < k then ⟨i + 1 - k, j + 1 - k, k⟩ else best)

/-- The earliest of the longest runs that uncommon letters make. -/
def search (b : List Letter) : (i : Nat) → Text → (lengths : List Nat) → Run → Run
  | _, [], _, best => best
  | i, c :: cs, lengths, best =>
    let lengths := endingAt c b (0 :: lengths)
    search b (i + 1) cs lengths (longer i 0 lengths best)

/-- The number of code points that agree from the start. -/
def agreeing : Text → Text → Nat
  | a :: as, b :: bs => if a = b then agreeing as bs + 1 else 0
  | _, _ => 0

/-- The longest shared run, extended to both sides over equal code points. -/
def longestRun (a : Text) (b : List Letter) : Run :=
  let found := search b 0 a [] ⟨0, 0, 0⟩
  let points := b.map Letter.point
  let before := agreeing (a.take found.left).reverse (points.take found.right).reverse
  let after := agreeing (a.drop (found.left + found.size)) (points.drop (found.right + found.size))
  ⟨found.left - before, found.right - before, before + found.size + after⟩

/-- The number of code points matched by the longest run and by those on its two sides. -/
def matched (a : Text) (b : List Letter) : Nat :=
  let run := longestRun a b
  if _ : 0 < run.size ∧ run.left + run.size ≤ a.length then
    matched (a.take run.left) (b.take run.right) + run.size +
      matched (a.drop (run.left + run.size)) (b.drop (run.right + run.size))
  else 0
termination_by a.length
decreasing_by
  all_goals
    have inside : 0 < (longestRun a b).size ∧
      (longestRun a b).left + (longestRun a b).size ≤ a.length := by assumption
  · rw [List.length_take]; omega
  · rw [List.length_drop]; omega

/-- A similarity as a fraction with a positive denominator. -/
structure Ratio where
  numerator : Nat
  denominator : Nat
deriving DecidableEq, Repr

/-- The similarity of a candidate to the text asked for; two empty texts are alike. -/
def ratio (candidate : Text) (asked : List Letter) : Ratio :=
  let total := candidate.length + asked.length
  if total = 0 then ⟨1, 1⟩ else ⟨2 * matched candidate asked, total⟩

/-- Whether a similarity is at least three fifths. -/
def Ratio.isClose (r : Ratio) : Bool := 3 * r.denominator ≤ 5 * r.numerator

/-- Order of similarities by value. -/
def Ratio.compare (r s : Ratio) : Ordering :=
  Ord.compare (r.numerator * s.denominator) (s.numerator * r.denominator)

/-- Whether a rated candidate goes before another: the more similar one first, and of equally
similar ones the one later in code point order. -/
def better (a b : Ratio × Text) : Bool :=
  match a.1.compare b.1 with
  | .gt => true
  | .lt => false
  | .eq => (compare a.2 b.2).isGE

/-- The candidates close to `asked`, the best first. -/
def closeMatches (asked : Text) (candidates : List Text) : List Text :=
  let asked := letters asked
  let rated := candidates.map fun c ↦ (ratio c asked, c)
  ((rated.filter fun r ↦ r.1.isClose).mergeSort better).map Prod.snd

/-- The best of the candidates close to `asked`. -/
def closest (asked : Text) (candidates : List Text) : Option Text :=
  (closeMatches asked candidates).head?

end TreeCheck.Similarity
