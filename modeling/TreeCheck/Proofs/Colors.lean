import Mathlib.Data.List.Basic
import TreeCheck.Command.Output

/-!
# Colours carry no content

Output that does not go to a terminal is written without control sequences: each is deleted where
it is found from left to right, and the search goes on behind it. What a diagnostic says can itself
hold escape characters, and beginnings of control sequences. The colours of a diagnostic stand where
no control sequence can go on, so deleting them joins nothing to a control sequence: the diagnostic
with colours and the one without are the same text once control sequences are deleted.
-/

namespace TreeCheck

namespace Text

/-! ### Deleting control sequences -/

/-- A text that is one control sequence. -/
inductive IsControl : Text → Prop
  | mk (parameters : Text) (letter : CodePoint)
      (hparameters : ∀ c ∈ parameters, isControlParameter c) (hletter : letter.isLatinLetter) :
      IsControl (escapeCharacter :: .scalar '[' :: (parameters ++ [letter]))

/-- No control sequence stands at the beginning of a text. -/
def BeginsPlain (t : Text) : Prop := ∀ s, IsControl s → ¬ s <+: t

/-- The text that is left when the control sequences of a text are deleted from left to right, none
of them overlapping another. -/
inductive Erases : Text → Text → Prop
  | nil : Erases [] []
  /-- A control sequence is deleted where it begins. -/
  | delete {s t u : Text} (control : IsControl s) (rest : Erases t u) : Erases (s ++ t) u
  /-- What begins no control sequence stays. -/
  | keep {c : CodePoint} {t u : Text} (plain : BeginsPlain (c :: t)) (rest : Erases t u) :
      Erases (c :: t) (c :: u)

variable {s t u v : Text} {c : CodePoint}

private theorem ne_escape_of_isControlParameter (h : isControlParameter c) :
    c ≠ escapeCharacter := by
  rintro rfl
  cases h

private theorem isDigit_of_isLatinLetter (h : c.isLatinLetter) : c.isDigit = false := by
  cases c with
  | surrogate half => rfl
  | scalar c =>
    change (decide (c.val ≥ 'A'.val ∧ c.val ≤ 'Z'.val) ||
      (c.val ≥ 'a'.val && c.val ≤ 'z'.val)) = true at h
    change (c.val ≥ '0'.val && c.val ≤ '9'.val) = false
    grind

private theorem isControlParameter_of_isLatinLetter (h : c.isLatinLetter) :
    isControlParameter c = false := by
  rw [isControlParameter, isDigit_of_isLatinLetter h, Bool.false_or, Bool.or_eq_false_iff,
    decide_eq_false_iff_not, decide_eq_false_iff_not]
  constructor
  all_goals
    rintro rfl
    cases h

private theorem withoutControls_escape (t : Text) :
    withoutControls (escapeCharacter :: t) = afterEscape t := by
  rw [withoutControls, if_pos rfl]

/-- What is no escape character stays. -/
theorem withoutControls_cons (h : c ≠ escapeCharacter) (t : Text) :
    withoutControls (c :: t) = c :: withoutControls t := by
  rw [withoutControls, if_neg h]

private theorem afterBracket_of_control {parameters : Text} {letter : CodePoint}
    (hparameters : ∀ c ∈ parameters, isControlParameter c) (hletter : letter.isLatinLetter)
    (held t : Text) : afterBracket held (parameters ++ letter :: t) = withoutControls t := by
  induction parameters generalizing held with
  | nil =>
    rw [List.nil_append, afterBracket, isControlParameter_of_isLatinLetter hletter,
      if_neg Bool.false_ne_true, if_pos hletter]
  | cons p parameters ih =>
    obtain ⟨hp, hrest⟩ := List.forall_mem_cons.mp hparameters
    rw [List.cons_append, afterBracket, if_pos hp]
    exact ih hrest _

private theorem withoutControls_of_control (h : IsControl s) (t : Text) :
    withoutControls (s ++ t) = withoutControls t := by
  cases h with
  | mk parameters letter hparameters hletter =>
    rw [List.cons_append, withoutControls_escape, List.cons_append, afterEscape, if_pos rfl,
      List.append_assoc, List.singleton_append]
    exact afterBracket_of_control hparameters hletter [] t

/-- A bracket and parameters that no letter ends stay. -/
theorem afterBracket_of_plain {held : Text} (hheld : ∀ c ∈ held, isControlParameter c)
    (h : BeginsPlain (escapeCharacter :: .scalar '[' :: (held ++ t))) :
    afterBracket held t = escapeCharacter :: .scalar '[' :: (held ++ withoutControls t) := by
  induction t generalizing held with
  | nil => rw [afterBracket, withoutControls, List.append_nil]
  | cons c t ih =>
    rw [afterBracket]
    split
    · next hc =>
      rw [withoutControls_cons (ne_escape_of_isControlParameter hc),
        List.append_cons held c (withoutControls t)]
      apply ih
      · exact List.forall_mem_append.mpr ⟨hheld, List.forall_mem_singleton.mpr hc⟩
      · rwa [← List.append_cons]
    split
    · next hletter =>
      refine absurd ?_ (h _ (.mk held c hheld hletter))
      exact ⟨t, by simp⟩
    split
    · next hc => rw [hc, withoutControls_escape]
    · next hc => rw [withoutControls_cons hc]

private theorem withoutControls_of_plain (h : BeginsPlain (c :: t)) :
    withoutControls (c :: t) = c :: withoutControls t := by
  by_cases hc : c = escapeCharacter
  · subst hc
    rw [withoutControls_escape]
    cases t with
    | nil => rfl
    | cons d t =>
      rw [afterEscape]
      split
      · next hd =>
        subst hd
        rw [withoutControls_cons (by decide)]
        exact afterBracket_of_plain (List.forall_mem_nil _) h
      split
      · next hd => rw [hd, withoutControls_escape]
      · next hd => rw [withoutControls_cons hd]
  · exact withoutControls_cons hc t

/-- Deleting from left to right is what happens to output that does not go to a terminal. -/
theorem erases_iff : Erases t u ↔ u = t.withoutControls := by
  constructor
  · intro h
    induction h with
    | nil => rfl
    | delete control _ ih => rw [ih, withoutControls_of_control control]
    | keep plain _ ih => rw [ih, withoutControls_of_plain plain]
  · rintro rfl
    -- What is left is shorter by one code point or by a whole control sequence.
    induction h : t.length using Nat.strongRecOn generalizing t with
    | ind n ih =>
      by_cases hplain : BeginsPlain t
      · cases t with
        | nil => exact .nil
        | cons c t =>
          rw [withoutControls_of_plain hplain]
          exact .keep hplain (ih t.length (by simp [← h]) rfl)
      · simp only [BeginsPlain, not_forall, not_not] at hplain
        obtain ⟨s, hs, t, rfl⟩ := hplain
        have hpos : 0 < s.length := by
          cases hs
          exact Nat.succ_pos _
        rw [withoutControls_of_control hs]
        exact .delete hs (ih t.length (by simp [← h, hpos]) rfl)

private theorem erases_withoutControls (t : Text) : Erases t t.withoutControls := erases_iff.mpr rfl

private theorem withoutControls_of_no_escape (h : escapeCharacter ∉ t) : t.withoutControls = t := by
  induction t with
  | nil => rfl
  | cons c t ih =>
    rw [List.mem_cons, not_or] at h
    rw [withoutControls_cons (Ne.symm h.1), ih h.2]

/-! ### Where no control sequence goes on -/

/-- Whether a code point can stand in a control sequence behind its escape character. -/
def isControlPart (c : CodePoint) : Bool :=
  c = .scalar '[' || isControlParameter c || c.isLatinLetter

/-- No control sequence goes on with this text: it is empty, or its first code point can stand in
control sequences only at their beginning. -/
def StartsAfresh (t : Text) : Prop := ∀ c ∈ t.head?, isControlPart c = false

/-- A text starts afresh with a code point that is no part of a control sequence. -/
theorem startsAfresh_cons (h : isControlPart c = false) (t : Text) : StartsAfresh (c :: t) := by
  intro d hd
  cases hd
  exact h

private theorem IsControl.startsAfresh (h : IsControl s) (t : Text) : StartsAfresh (s ++ t) := by
  cases h
  exact startsAfresh_cons (by decide) _

private theorem IsControl.isControlPart (h : IsControl (s ++ c :: t)) (hs : s ≠ []) :
    isControlPart c = true := by
  generalize hw : s ++ c :: t = w at h
  cases h with
  | mk parameters letter hparameters hletter =>
    have hmem : c ∈ CodePoint.scalar '[' :: (parameters ++ [letter]) := by
      cases s with
      | nil => exact absurd rfl hs
      | cons d s =>
        rw [← (List.cons.inj hw).2]
        simp
    simp only [List.mem_cons, List.mem_append, List.not_mem_nil, or_false] at hmem
    rw [Text.isControlPart]
    rcases hmem with rfl | hc | rfl
    · rfl
    · simp [hparameters c hc]
    · simp [hletter]

/-- No control sequence reaches into a text that starts afresh. -/
theorem BeginsPlain.append (h : BeginsPlain (c :: s)) (ht : StartsAfresh t) :
    BeginsPlain (c :: s ++ t) := by
  intro w hw hprefix
  rcases List.prefix_or_prefix_of_prefix hprefix (List.prefix_append (c :: s) t) with
    hshort | ⟨rest, rfl⟩
  · exact h w hw hshort
  · cases rest with
    | nil =>
      rw [List.append_nil] at hw
      exact h _ hw (List.prefix_refl _)
    | cons d rest =>
      obtain ⟨behind, rfl⟩ := (List.prefix_append_right_inj (c :: s)).mp hprefix
      have hpart := hw.isControlPart (List.cons_ne_nil c s)
      rw [ht d rfl] at hpart
      cases hpart

private theorem Erases.append (hs : Erases s u) (ht : Erases t v) (hfresh : StartsAfresh t) :
    Erases (s ++ t) (u ++ v) := by
  induction hs with
  | nil => exact ht
  | delete control _ ih =>
    rw [List.append_assoc]
    exact .delete control ih
  | keep plain _ ih => exact .keep (plain.append hfresh) ih

/-- Two texts are rid of control sequences one by one if the second starts afresh. -/
theorem withoutControls_append (s : Text) (ht : StartsAfresh t) :
    withoutControls (s ++ t) = withoutControls s ++ withoutControls t :=
  (erases_iff.mp ((erases_withoutControls s).append (erases_withoutControls t) ht)).symm

/-- A control sequence in front of a text that starts afresh is deleted without a trace. -/
theorem withoutControls_insert (s : Text) (hu : IsControl u) (ht : StartsAfresh t) :
    withoutControls (s ++ (u ++ t)) = withoutControls (s ++ t) := by
  rw [withoutControls_append s (hu.startsAfresh t), withoutControls_of_control hu,
    withoutControls_append s ht]

/-- Lines are rid of control sequences one by one. -/
theorem withoutControls_join (lines : List Text) :
    withoutControls (join "\n" lines) = join "\n" (lines.map withoutControls) := by
  induction lines with
  | nil => rfl
  | cons line lines ih =>
    cases lines with
    | nil => simp [join]
    | cons next lines =>
      have hfresh : StartsAfresh (("\n" : Text) ++ join "\n" (next :: lines)) :=
        startsAfresh_cons (by decide) _
      have hfeed : withoutControls (("\n" : Text) ++ join "\n" (next :: lines)) =
          ("\n" : Text) ++ withoutControls (join "\n" (next :: lines)) :=
        withoutControls_cons (by decide) _
      rw [List.map_cons, List.map_cons, join, join, List.intercalate_cons_cons,
        List.intercalate_cons_cons, List.append_assoc, List.append_assoc, ← join, ← join,
        withoutControls_append line hfresh, hfeed, ih, List.map_cons]

end Text

/-! ### Diagnostics -/

open Text (IsControl StartsAfresh Erases)

private theorem Severity.isControl_color (severity : Severity) : IsControl severity.color := by
  cases severity with
  | error => exact .mk "1;31" (.scalar 'm') (by decide) rfl
  | warning => exact .mk "1;33" (.scalar 'm') (by decide) rfl
  | note => exact .mk "1;36" (.scalar 'm') (by decide) rfl

namespace Diagnostic

private theorem isControl_bold : IsControl bold := .mk "1" (.scalar 'm') (by decide) rfl

private theorem isControl_blue : IsControl blue := .mk "1;34" (.scalar 'm') (by decide) rfl

private theorem isControl_reset : IsControl reset := .mk "0" (.scalar 'm') (by decide) rfl

/-- The colours of the first line are deleted without a trace, whatever the code and the message
end with. -/
theorem withoutControls_headline (severity : Severity) (code message : Text) :
    Text.withoutControls (severity.color ++ severity.word ++ "[" ++ code ++ "]" ++ reset ++ bold ++
      ": " ++ message ++ reset) =
    Text.withoutControls (severity.word ++ "[" ++ code ++ "]" ++ ": " ++ message) := by
  generalize hhead : severity.word ++ "[" ++ code ++ "]" = head
  have hcolon (t : Text) : StartsAfresh ((": " : Text) ++ t) :=
    Text.startsAfresh_cons (by decide) _
  have hend : StartsAfresh [] := nofun
  calc Text.withoutControls (severity.color ++ severity.word ++ "[" ++ code ++ "]" ++ reset ++
        bold ++ ": " ++ message ++ reset)
      = Text.withoutControls (severity.color ++
          (head ++ (reset ++ (bold ++ (": " ++ (message ++ reset)))))) := by
        simp only [← hhead, List.append_assoc]
    _ = Text.withoutControls (head ++ (bold ++ (": " ++ (message ++ reset)))) := by
        rw [Text.withoutControls_of_control severity.isControl_color,
          Text.withoutControls_insert head isControl_reset (isControl_bold.startsAfresh _)]
    _ = Text.withoutControls (head ++ ((": " : Text) ++ message) ++ (reset ++ [])) := by
        rw [Text.withoutControls_insert head isControl_bold (hcolon _)]
        simp only [List.append_assoc, List.append_nil]
    _ = Text.withoutControls (head ++ ": " ++ message) := by
        rw [Text.withoutControls_insert _ isControl_reset hend, List.append_nil, List.append_assoc]

/-- The colours of a mark in the margin are deleted without a trace. -/
theorem withoutControls_margin {mark label text : Text}
    (hmark : StartsAfresh (mark ++ (label ++ text))) (hlabel : StartsAfresh (label ++ text)) :
    Text.withoutControls ("  " ++ blue ++ mark ++ reset ++ label ++ text) =
      Text.withoutControls ("  " ++ mark ++ label ++ text) := by
  rw [List.append_assoc _ label, List.append_assoc _ reset,
    Text.withoutControls_insert _ isControl_reset hlabel, List.append_assoc _ mark,
    List.append_assoc _ blue, Text.withoutControls_insert _ isControl_blue hmark]
  simp only [List.append_assoc]

private theorem originLine_withoutControls (d : Diagnostic) :
    (lines.originLine true d).map Text.withoutControls =
      (lines.originLine false d).map Text.withoutControls := by
  unfold lines.originLine
  split
  · rfl
  · rfl
  · simp only [lines.paint, if_true, Bool.false_eq_true, if_false, List.append_nil, List.map_cons]
    rw [withoutControls_margin]
    · exact Text.startsAfresh_cons (by decide) _
    · exact Text.startsAfresh_cons (by decide) _

private theorem lines_withoutControls (d : Diagnostic) :
    (d.lines true).map Text.withoutControls = (d.lines false).map Text.withoutControls := by
  have hnote (note : Text) :
      Text.withoutControls ("  " ++ blue ++ "=" ++ reset ++ " note: " ++ note) =
        Text.withoutControls ("  " ++ "=" ++ " note: " ++ note) :=
    withoutControls_margin (Text.startsAfresh_cons (by decide) _)
      (Text.startsAfresh_cons (by decide) _)
  simp only [lines, lines.paint, if_true, Bool.false_eq_true, if_false, List.nil_append,
    List.append_nil, List.map_cons, List.map_append, withoutControls_headline,
    originLine_withoutControls, List.map_map, Function.comp_def, hnote]

private theorem render_withoutControls (d : Diagnostic) :
    (d.render true).withoutControls = (d.render false).withoutControls := by
  rw [render, render, Text.withoutControls_join, Text.withoutControls_join, lines_withoutControls]

/-- No part of a diagnostic holds an escape character. -/
def IsPlain (d : Diagnostic) : Prop :=
  ∀ t ∈ d.code :: d.message :: (d.origin.toList ++ d.notes), Text.escapeCharacter ∉ t

private theorem IsPlain.no_escape_of_mem_lines {d : Diagnostic} (h : d.IsPlain) {line : Text}
    (hline : line ∈ d.lines false) : Text.escapeCharacter ∉ line := by
  have hwords : ∀ s ∈ ["[", "]", ": ", "  ", "-->", " ", "=", " note: "],
    Text.escapeCharacter ∉ Text.ofString s := by decide
  simp only [List.forall_mem_cons] at hwords
  simp only [lines, lines.paint, Bool.false_eq_true, if_false, List.nil_append, List.append_nil,
    List.mem_cons, List.mem_append, List.mem_map] at hline
  rcases hline with rfl | horigin | ⟨note, hnote, rfl⟩
  · have hseverity : Text.escapeCharacter ∉ d.severity.word := by cases d.severity <;> decide
    simp [hwords, hseverity, h d.code (by simp), h d.message (by simp)]
  · unfold lines.originLine at horigin
    split at horigin
    · cases horigin
    · cases horigin
    · next origin _ hsome =>
      rw [List.mem_singleton] at horigin
      subst horigin
      simp [hwords, lines.paint, h origin (by simp [hsome])]
  · simp [hwords, h note (by simp [hnote])]

private theorem IsPlain.render_withoutControls {d : Diagnostic} (h : d.IsPlain) :
    (d.render false).withoutControls = d.render false := by
  have hlines : (d.lines false).map Text.withoutControls = (d.lines false).map id := by
    apply List.map_congr_left
    intro line hline
    exact Text.withoutControls_of_no_escape (h.no_escape_of_mem_lines hline)
  rw [render, Text.withoutControls_join, hlines, List.map_id]

/-- Colours carry no content. Deleting the control sequences of a diagnostic with colours leaves
one text, which is the one that deleting them from the diagnostic without colours leaves; so both
look the same where the output is no terminal. If the diagnostic itself has no escape character,
then this text is the diagnostic without colours. -/
theorem colors_carry_no_content (d : Diagnostic) :
    (∃! t, (d.render true).Erases t) ∧
    (∀ t, (d.render true).Erases t ↔ (d.render false).Erases t) ∧
    Output.shown false (d.render true) = Output.shown false (d.render false) ∧
    (d.IsPlain → (d.render true).Erases (d.render false)) := by
  refine ⟨⟨_, Text.erases_withoutControls _, fun t h ↦ Text.erases_iff.mp h⟩, fun t ↦ ?_, ?_,
    fun h ↦ ?_⟩
  · rw [Text.erases_iff, Text.erases_iff, render_withoutControls]
  · simp only [Output.shown, Bool.false_eq_true, if_false, render_withoutControls]
  · rw [Text.erases_iff, render_withoutControls, h.render_withoutControls]

/-- A diagnostic with all parts. -/
def misspelling : Diagnostic :=
  ⟨.error, "E310", "undefined variable 'xs'", ["did you mean 'x'?"], some "src/a.json"⟩

/-- A diagnostic without escape characters loses its colours and nothing else. -/
theorem misspelling_erases :
    misspelling.IsPlain ∧ (misspelling.render true).Erases (misspelling.render false) := by
  have h : misspelling.IsPlain := by
    unfold IsPlain
    decide
  exact ⟨h, (colors_carry_no_content misspelling).2.2.2 h⟩

-- The message ends within a control sequence, which no later letter completes.
example : (render true ⟨.note, "N", "a\x1b[3", ["m"], none⟩).withoutControls =
    ("note[N]: a\x1b[3\n  = note: m" : Text) := by decide

end Diagnostic

end TreeCheck
