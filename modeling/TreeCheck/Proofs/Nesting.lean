import TreeCheck.Project.Machine
import TreeCheck.Proofs.Documents

/-!
# How deep documents are nested

Where a machine gives up on a document depends on what else it is doing, so no exact depth is known.
It is at home with a nesting of 200 brackets, and a document with a nesting of 1000 is too much for
it. In between it may do either.

Source: `SPEC_FULL.md`, section 5 (recursion).
-/

namespace TreeCheck

/-! ### Nesting of a text -/

namespace Text

mutual

private theorem le_nestingFrom (depth : Nat) (t : Text) : depth ≤ nestingFrom depth t := by
  match t with
  | [] => simp only [nestingFrom, Nat.le_refl]
  | c :: rest =>
    rw [nestingFrom]
    split
    · exact le_nestingInString depth rest
    split
    · exact Nat.le_of_succ_le (le_nestingFrom (depth + 1) rest)
    split
    · exact Nat.le_max_left _ _
    · exact le_nestingFrom depth rest

private theorem le_nestingInString (depth : Nat) (t : Text) : depth ≤ nestingInString depth t := by
  match t with
  | [] => simp only [nestingInString, Nat.le_refl]
  | c :: rest =>
    rw [nestingInString]
    split
    · exact le_nestingFrom depth rest
    split
    · exact le_nestingAfterBackslash depth rest
    · exact le_nestingInString depth rest

private theorem le_nestingAfterBackslash (depth : Nat) (t : Text) :
    depth ≤ nestingAfterBackslash depth t := by
  match t with
  | [] => simp only [nestingAfterBackslash, Nat.le_refl]
  | c :: rest =>
    rw [nestingAfterBackslash]
    exact le_nestingInString depth rest

end

mutual

private theorem nestingFrom_le_append (depth : Nat) (s t : Text) :
    nestingFrom depth s ≤ nestingFrom depth (s ++ t) := by
  match s with
  | [] =>
    rw [nestingFrom]
    exact le_nestingFrom depth t
  | c :: rest =>
    rw [List.cons_append, nestingFrom, nestingFrom]
    split
    · exact nestingInString_le_append depth rest t
    split
    · exact nestingFrom_le_append (depth + 1) rest t
    split
    · have hrest := nestingFrom_le_append (depth - 1) rest t
      omega
    · exact nestingFrom_le_append depth rest t

private theorem nestingInString_le_append (depth : Nat) (s t : Text) :
    nestingInString depth s ≤ nestingInString depth (s ++ t) := by
  match s with
  | [] =>
    rw [nestingInString]
    exact le_nestingInString depth t
  | c :: rest =>
    rw [List.cons_append, nestingInString, nestingInString]
    split
    · exact nestingFrom_le_append depth rest t
    split
    · exact nestingAfterBackslash_le_append depth rest t
    · exact nestingInString_le_append depth rest t

private theorem nestingAfterBackslash_le_append (depth : Nat) (s t : Text) :
    nestingAfterBackslash depth s ≤ nestingAfterBackslash depth (s ++ t) := by
  match s with
  | [] =>
    rw [nestingAfterBackslash]
    exact le_nestingAfterBackslash depth t
  | c :: rest =>
    rw [List.cons_append, nestingAfterBackslash, nestingAfterBackslash]
    exact nestingInString_le_append depth rest t

end

/-- The start of a text is nested at most as deep as the whole. -/
theorem nesting_mono {s t : Text} (h : s <+: t) : s.nesting ≤ t.nesting := by
  obtain ⟨rest, rfl⟩ := h
  exact nestingFrom_le_append 0 s rest

end Text

/-! ### Machines -/

/-- What is known about a machine: contents of little nesting can be read, and documents of great
nesting cannot. -/
structure Machine.Ordinary (m : Machine) : Prop where
  shallow (t : Text) : t.nesting ≤ 200 → m.bearsTree t = true
  deep (t : Text) : Json.IsDocument t → 1000 ≤ t.nesting → m.bearsTree t = false

private theorem Json.nesting_passedOver_le (t : Text) :
    (passedOver t).nesting ≤ t.nesting := by
  apply Text.nesting_mono
  unfold passedOver
  split
  · exact List.take_prefix _ _
  · exact List.prefix_refl t

private theorem Json.passedOver_of_isDocument {t : Text} (h : IsDocument t) :
    passedOver t = t := by
  obtain ⟨found, hread⟩ := document_ok_iff.mpr h
  rw [passedOver, hread]

/-- The laws hold of the machine that runs the program here. -/
theorem Machine.usual_ordinary : Machine.usual.Ordinary where
  shallow t h := by
    have hle := Json.nesting_passedOver_le t
    exact decide_eq_true (by omega)
  deep t hdocument h := by
    apply decide_eq_false
    rw [Json.passedOver_of_isDocument hdocument]
    omega

/-! ### Brackets -/

namespace Text

/-- Opening brackets, followed by as many closing ones. -/
def brackets (n : Nat) : Text := List.replicate n (.scalar '[') ++ List.replicate n (.scalar ']')

private theorem nestingFrom_openings (depth n : Nat) (t : Text) :
    nestingFrom depth (List.replicate n (.scalar '[') ++ t) = nestingFrom (depth + n) t := by
  induction n generalizing depth with
  | zero => rfl
  | succ n ih =>
    rw [List.replicate_succ, List.cons_append, nestingFrom, if_neg (by decide),
      if_pos (by decide), ih, Nat.add_right_comm, Nat.add_assoc]

private theorem nestingFrom_closings (depth n : Nat) :
    nestingFrom depth (List.replicate n (.scalar ']')) = depth := by
  induction n generalizing depth with
  | zero => rw [List.replicate_zero, nestingFrom]
  | succ n ih =>
    rw [List.replicate_succ, nestingFrom, if_neg (by decide), if_neg (by decide),
      if_pos (by decide), ih]
    omega

private theorem nesting_brackets (n : Nat) : (brackets n).nesting = n := by
  rw [nesting, brackets, nestingFrom_openings, nestingFrom_closings, Nat.zero_add]

private theorem written_brackets (n : Nat) (rest : Text) :
    Json.Written .value (List.replicate (n + 1) (.scalar '[') ++
      (List.replicate (n + 1) (.scalar ']') ++ rest)) rest := by
  induction n generalizing rest with
  | zero => exact .emptyArray rfl
  | succ n ih =>
    -- The last closing bracket belongs to the first opening one.
    have hinner := ih (.scalar ']' :: rest)
    rw [List.append_cons, ← List.replicate_succ'] at hinner
    exact .array (.lastElement hinner rfl)

private theorem isDocument_brackets (n : Nat) : Json.IsDocument (brackets (n + 1)) := by
  refine ⟨[], ?_, rfl⟩
  have h := written_brackets n []
  rw [List.append_nil] at h
  exact h

private theorem joinLineEnds_of_no_return {t : Text} (h : .scalar '\r' ∉ t) :
    joinLineEnds t = t := by
  fun_induction joinLineEnds t with
  | case1 rest ih => exact absurd List.mem_cons_self h
  | case2 c rest _ ih => rw [ih fun hrest ↦ h (List.mem_cons_of_mem c hrest)]
  | case3 => rfl

private theorem unifyLineEnds_of_no_return {t : Text} (h : .scalar '\r' ∉ t) :
    t.unifyLineEnds = t := by
  rw [unifyLineEnds, joinLineEnds_of_no_return h]
  conv_rhs => rw [← List.map_id t]
  apply List.map_congr_left
  intro c hc
  have hne : c ≠ .scalar '\r' := by
    rintro rfl
    exact h hc
  rw [if_neg hne, id]

end Text

/-- A thousand opening brackets or more, and as many closing ones, are too much. -/
theorem Machine.Ordinary.bearsTree_brackets {m : Machine} (hm : m.Ordinary) (n : Nat) :
    m.bearsTree (Text.brackets (n + 1000)).unifyLineEnds = false := by
  have hlines : (Text.brackets (n + 1000)).unifyLineEnds = Text.brackets (n + 1000) := by
    apply Text.unifyLineEnds_of_no_return
    simp [Text.brackets, List.mem_replicate]
  rw [hlines]
  apply hm.deep _ (Text.isDocument_brackets (n + 999))
  rw [Text.nesting_brackets]
  exact Nat.le_add_left 1000 n

end TreeCheck
