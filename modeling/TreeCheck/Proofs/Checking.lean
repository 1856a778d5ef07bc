import TreeCheck.Command.Run
import TreeCheck.Proofs.Colors
import TreeCheck.Proofs.Runs
import TreeCheck.Proofs.Selection
import TreeCheck.Proofs.Settings

/-!
# What a check reports

A file passes a check if it holds a tree that the analysis accepts. About every other file there is
one complaint that names it, unless its contents end the run. The complaints come in the order of
the files, then the number of files that failed, and the status says whether there are any.
-/

namespace TreeCheck

/-! ### Judging files -/

/-- A file with the text of a tree in it is read, if it can be opened and the machine bears it. -/
theorem readTree_of_ok {m : Machine} {p : Path} {bytes : ByteArray} {t : Text} {tree : Node Unit}
    (hp : p.toText.byteLength ≤ Files.maxPathBytes) (ht : Text.ofUtf8? bytes = some t)
    (hborne : m.bearsTree t.unifyLineEnds = true) (htree : Node.ofText t.unifyLineEnds = .ok tree) :
    readTree m p (.file bytes) = .ok (.ok tree) := by
  rw [readTree, if_neg (Nat.not_lt.mpr hp), ht]
  dsimp only
  rw [if_pos hborne, htree]

/-- One more verdict counts if it is a failure. -/
theorem failures_cons (p : Path) (v : Verdict) (verdicts : List (Path × Verdict)) :
    failures ((p, v) :: verdicts) = failures verdicts + if v.isFailure then 1 else 0 :=
  List.countP_cons

/-- One more verdict puts its complaint, if it has one, in front. -/
theorem complaints_cons (color : Bool) (p : Path) (v : Verdict)
    (verdicts : List (Path × Verdict)) :
    complaints color ((p, v) :: verdicts) =
      ((v.complaint? color p).map .err).toList ++ complaints color verdicts := by
  rw [complaints, List.filterMap_cons]
  dsimp only
  cases v.complaint? color p <;> rfl

namespace Symbols

variable {s : Symbols} {m : Machine} {f : Path × FileTree}

/-- The outcome of analysing a tree on its own, against the types of a project. -/
def outcome (s : Symbols) (tree : Node Unit) : Except Failure Resolutions :=
  ((s.label tree).1.analyze none (s.label tree).2).result

/-- A file passes if it holds a tree and the analysis accepts the tree. -/
def Passes (s : Symbols) (m : Machine) (f : Path × FileTree) : Prop :=
  ∃ tree, readTree m f.1 f.2 = .ok (.ok tree) ∧ ∃ table, s.outcome tree = .ok table

/-- What is said about a file that does not pass. -/
inductive Faults (s : Symbols) (m : Machine) (color : Bool) (f : Path × FileTree) : Text → Prop
  /-- It holds no tree. -/
  | malformed {e : FormatError} (read : readTree m f.1 f.2 = .ok (.error e)) :
      Faults s m color f ("error: " ++ f.1.toText ++ ": " ++ e.message)
  /-- The analysis rejects its tree. -/
  | rejected {tree : Node Unit} {e : ProgramError} (read : readTree m f.1 f.2 = .ok (.ok tree))
      (outcome : s.outcome tree = .error (.error e)) :
      Faults s m color f ((e.diagnostic (some f.1.toText)).render color)

private theorem outcome_ok_or_error (s : Symbols) (tree : Node Unit) :
    (∃ table, s.outcome tree = .ok table) ∨ ∃ e, s.outcome tree = .error (.error e) :=
  analyze_ok_or_error (Node.nodup_ids_label _ tree)

/-- A tree whose analysis succeeds is accepted. -/
theorem judge_of_ok {tree : Node Unit} {table : Resolutions} (h : s.outcome tree = .ok table) :
    s.judge tree = .ok (.accepted (s.label tree).2 table) := by
  rw [judge]
  dsimp only
  rw [outcome] at h
  rw [h]

/-- A tree whose analysis finds an error is rejected. -/
theorem judge_of_error {tree : Node Unit} {e : ProgramError}
    (h : s.outcome tree = .error (.error e)) : s.judge tree = .ok (.rejected e) := by
  rw [judge]
  dsimp only
  rw [outcome] at h
  rw [h]

/-- All that judging a file can come to. Only reading it can end a run. -/
theorem judgeFile_cases (s : Symbols) (m : Machine) (f : Path × FileTree) :
    (∃ c, readTree m f.1 f.2 = .error c ∧ s.judgeFile m f.1 f.2 = .error c) ∨
    (∃ e, readTree m f.1 f.2 = .ok (.error e) ∧ s.judgeFile m f.1 f.2 = .ok (.malformed e)) ∨
    (∃ tree table, readTree m f.1 f.2 = .ok (.ok tree) ∧ s.outcome tree = .ok table ∧
      s.judgeFile m f.1 f.2 = .ok (.accepted (s.label tree).2 table)) ∨
    ∃ tree e, readTree m f.1 f.2 = .ok (.ok tree) ∧ s.outcome tree = .error (.error e) ∧
      s.judgeFile m f.1 f.2 = .ok (.rejected e) := by
  rw [judgeFile]
  cases readTree m f.1 f.2 with
  | error c => exact .inl ⟨c, rfl, rfl⟩
  | ok r =>
    cases r with
    | error e => exact .inr (.inl ⟨e, rfl, rfl⟩)
    | ok tree =>
      refine .inr (.inr ?_)
      rcases s.outcome_ok_or_error tree with ⟨table, h⟩ | ⟨e, h⟩
      · exact .inl ⟨tree, table, rfl, h, judge_of_ok h⟩
      · exact .inr ⟨tree, e, rfl, h, judge_of_error h⟩

/-- A verdict on a file: it passes and nothing is said about it, or it fails and one thing is. -/
theorem judgeFile_ok {v : Verdict} (h : s.judgeFile m f.1 f.2 = .ok v) (color : Bool) :
    s.Passes m f ∧ v.isFailure = false ∧ v.complaint? color f.1 = none ∨
      ¬ s.Passes m f ∧ v.isFailure = true ∧
        ∃ text, v.complaint? color f.1 = some text ∧ s.Faults m color f text := by
  rcases s.judgeFile_cases m f with ⟨c, -, hj⟩ | ⟨e, hread, hj⟩ | ⟨tree, table, hread, ho, hj⟩ |
    ⟨tree, e, hread, ho, hj⟩
  · cases hj.symm.trans h
  · cases hj.symm.trans h
    refine .inr ⟨?_, rfl, _, rfl, .malformed hread⟩
    rintro ⟨tree, hread', -⟩
    cases hread.symm.trans hread'
  · cases hj.symm.trans h
    exact .inl ⟨⟨tree, hread, table, ho⟩, rfl, rfl⟩
  · cases hj.symm.trans h
    refine .inr ⟨?_, rfl, _, rfl, .rejected hread ho⟩
    rintro ⟨tree', hread', table, ho'⟩
    cases hread.symm.trans hread'
    cases ho.symm.trans ho'

/-- There is a verdict on a file that passes. -/
theorem judgeFile_of_passes (h : s.Passes m f) : ∃ v, s.judgeFile m f.1 f.2 = .ok v := by
  obtain ⟨tree, hread, -⟩ := h
  rcases s.judgeFile_cases m f with ⟨c, hread', -⟩ | ⟨e, -, hj⟩ | ⟨_, _, -, -, hj⟩ |
    ⟨_, _, -, -, hj⟩
  · cases hread.symm.trans hread'
  · exact ⟨_, hj⟩
  · exact ⟨_, hj⟩
  · exact ⟨_, hj⟩

/-- Whether a file passes can be found out by judging it. -/
instance (s : Symbols) (m : Machine) : DecidablePred (s.Passes m) := fun f ↦
  decidable_of_iff ((s.judgeFile m f.1 f.2).toOption.any fun v ↦ !v.isFailure) <| by
    cases hj : s.judgeFile m f.1 f.2 with
    | error c =>
      refine ⟨nofun, fun h ↦ ?_⟩
      obtain ⟨v, hv⟩ := judgeFile_of_passes h
      cases hj.symm.trans hv
    | ok v =>
      rcases judgeFile_ok hj false with ⟨hp, hv, -⟩ | ⟨hp, hv, -⟩
      · simp [Except.toOption, hv, hp]
      · simp [Except.toOption, hv, hp]

variable {files : List (Path × FileTree)}

/-- After a verdict on the first file the others are judged. -/
theorem judgeFiles_cons {v : Verdict} (h : s.judgeFile m f.1 f.2 = .ok v) :
    s.judgeFiles m (f :: files) =
      ((f.1, v) :: (s.judgeFiles m files).1, (s.judgeFiles m files).2) := by
  rw [judgeFiles, h]

/-- A run comes to its end if all files pass. -/
theorem judgeFiles_of_passes (h : ∀ f ∈ files, s.Passes m f) : (s.judgeFiles m files).2 = none := by
  induction files with
  | nil => rfl
  | cons f files ih =>
    obtain ⟨hf, hfiles⟩ := List.forall_mem_cons.mp h
    obtain ⟨v, hv⟩ := judgeFile_of_passes hf
    rw [judgeFiles_cons hv]
    exact ih hfiles

/-- A run that comes to its end counts the files that do not pass and says one thing about each of
them, in their order. -/
theorem judgeFiles_eq (h : (s.judgeFiles m files).2 = none) (color : Bool) :
    failures (s.judgeFiles m files).1 = (files.filter fun f ↦ ¬ s.Passes m f).length ∧
      ∃ texts, List.Forall₂ (s.Faults m color) (files.filter fun f ↦ ¬ s.Passes m f) texts ∧
        complaints color (s.judgeFiles m files).1 = texts.map .err := by
  induction files with
  | nil => exact ⟨rfl, [], .nil, rfl⟩
  | cons f files ih =>
    cases hj : s.judgeFile m f.1 f.2 with
    | error c =>
      rw [judgeFiles, hj] at h
      cases h
    | ok v =>
      rw [judgeFiles_cons hj] at h ⊢
      rw [failures_cons, complaints_cons]
      obtain ⟨hcount, texts, hfaults, hsaid⟩ := ih h
      rcases judgeFile_ok hj color with ⟨hp, hv, hnone⟩ | ⟨hp, hv, text, hsome, hfault⟩
      · rw [List.filter_cons_of_neg (by simpa using hp)]
        refine ⟨?_, texts, hfaults, ?_⟩
        · rw [hcount, hv]
          rfl
        · rw [hnone, hsaid]
          rfl
      · rw [List.filter_cons_of_pos (by simpa using hp)]
        refine ⟨?_, text :: texts, .cons hfault hfaults, ?_⟩
        · rw [hcount, hv]
          rfl
        · rw [hsome, hsaid]
          rfl

end Symbols

/-! ### Complaints -/

private theorem Text.infix_join (separator : Text) {part : Text} {parts : List Text}
    (h : part ∈ parts) :
    part <:+: Text.join separator parts := by
  induction parts with
  | nil => cases h
  | cons first rest ih =>
    rw [Text.join]
    cases rest with
    | nil =>
      cases List.mem_singleton.mp h
      simp only [List.intercalate_singleton, List.infix_rfl]
    | cons second rest =>
      rw [List.intercalate_cons_cons]
      rcases List.mem_cons.mp h with rfl | h
      · exact List.infix_append_of_infix_left (List.prefix_append part separator).isInfix
      · exact (ih h).trans (List.suffix_append _ _).isInfix

/-- What follows a blank is rid of control sequences by itself. -/
theorem Text.suffix_withoutControls (s t : Text) :
    withoutControls t <:+ withoutControls (s ++ ((" " : Text) ++ t)) := by
  have hfresh : StartsAfresh ((" " : Text) ++ t) := startsAfresh_cons (by decide) _
  have hblank : withoutControls ((" " : Text) ++ t) = (" " : Text) ++ withoutControls t :=
    withoutControls_cons (by decide) _
  rw [withoutControls_append s hfresh, hblank, ← List.append_assoc]
  exact List.suffix_append _ _

/-- A diagnostic with an origin has a line that ends with it, behind a blank. -/
theorem Diagnostic.exists_originLine (color : Bool) {d : Diagnostic} {origin : Text}
    (h : d.origin = some origin) (hne : origin ≠ []) :
    ∃ margin : Text, margin ++ ((" " : Text) ++ origin) ∈ d.lines color := by
  cases origin with
  | nil => exact absurd rfl hne
  | cons c rest =>
    refine ⟨"  " ++ lines.paint color blue ++ "-->" ++ lines.paint color reset, ?_⟩
    rw [lines, lines.originLine, h]
    simp

/-- A rendered diagnostic shows where it comes from. -/
theorem Diagnostic.infix_render (color : Bool) {d : Diagnostic} {origin : Text}
    (h : d.origin = some origin) : origin <:+: d.render color := by
  by_cases hne : origin = []
  · rw [hne]
    exact List.nil_infix
  · obtain ⟨margin, hline⟩ := exists_originLine color h hne
    rw [← List.append_assoc] at hline
    exact (List.suffix_append _ origin).isInfix.trans (Text.infix_join "\n" hline)

/-- It does so without control sequences, too. -/
theorem Diagnostic.infix_render_withoutControls (color : Bool) {d : Diagnostic} {origin : Text}
    (h : d.origin = some origin) :
    origin.withoutControls <:+: (d.render color).withoutControls := by
  by_cases hne : origin = []
  · rw [hne]
    exact List.nil_infix
  · obtain ⟨margin, hline⟩ := exists_originLine color h hne
    rw [render, Text.withoutControls_join]
    exact (Text.suffix_withoutControls margin origin).isInfix.trans
      (Text.infix_join "\n" (List.mem_map_of_mem hline))

/-! ### Output -/

namespace Message

/-- What a message adds to the standard output. -/
def stdout (terminal : Bool) : Message → Text
  | out t => Output.shown terminal t
  | err _ => []

/-- What a message adds to the error output. -/
def stderr (terminal : Bool) : Message → Text
  | out _ => []
  | err t => Output.spellSurrogates (Output.shown terminal t)

end Message

/-- A path as it stands on the error output. -/
def Output.shownPath (terminal : Bool) (p : Path) : Text :=
  spellSurrogates (if terminal then p.toText else p.toText.withoutControls)

private theorem Output.infix_spellSurrogates {s t : Text} (h : s <:+: t) :
    spellSurrogates s <:+: spellSurrogates t := by
  obtain ⟨before, after, rfl⟩ := h
  rw [spellSurrogates, spellSurrogates, List.flatMap_append, List.flatMap_append]
  exact List.infix_append _ _ _

/-- What is said about a file names it, as it is written and also where it is printed. -/
theorem Symbols.Faults.names {s : Symbols} {m : Machine} {color : Bool} {f : Path × FileTree}
    {text : Text} (h : s.Faults m color f text) (terminal : Bool) :
    f.1.toText <:+: text ∧
      Output.shownPath terminal f.1 <:+: Message.stderr terminal (.err text) := by
  have hnames : f.1.toText <:+: text ∧ f.1.toText.withoutControls <:+: text.withoutControls := by
    cases h with
    | @malformed e read =>
      rw [List.append_assoc]
      refine ⟨List.infix_append _ _ _, ?_⟩
      have hfresh : Text.StartsAfresh ((": " : Text) ++ e.message) :=
        Text.startsAfresh_cons (by decide) _
      have hinner : f.1.toText.withoutControls <:+:
          (f.1.toText ++ ((": " : Text) ++ e.message)).withoutControls := by
        rw [Text.withoutControls_append _ hfresh]
        exact (List.prefix_append _ _).isInfix
      exact hinner.trans (Text.suffix_withoutControls "error:" _).isInfix
    | rejected read outcome =>
      exact ⟨Diagnostic.infix_render color rfl, Diagnostic.infix_render_withoutControls color rfl⟩
  refine ⟨hnames.1, ?_⟩
  apply Output.infix_spellSurrogates
  apply List.infix_append_of_infix_left
  cases terminal with
  | true => exact hnames.1
  | false => exact hnames.2

/-- The output of a check of `total` files that came to its end, with a complaint about each file
that failed. -/
structure Output.Reports (o : Output) (terminal : Bool) (name : Text) (texts : List Text)
    (total : Nat) : Prop where
  stdout : o.stdout = Message.stdout terminal (.out ("checking " ++ name ++ "...")) ++
    if texts = [] then
      Message.stdout terminal
        (.out ("checked " ++ name ++ ": " ++ Text.ofNat total ++ " tree(s), no errors"))
    else []
  stderr : o.stderr = texts.flatMap (fun text ↦ Message.stderr terminal (.err text)) ++
    if texts = [] then []
    else Message.stderr terminal (.err (Text.ofNat texts.length ++ " of " ++ Text.ofNat total ++
      " tree(s) failed to check"))

private theorem Output.isEncodable_shown (terminal : Bool) {t : Text} (h : t.isEncodable) :
    (shown terminal t).isEncodable := by
  rw [shown, Text.isEncodable_append, Bool.and_eq_true]
  refine ⟨?_, rfl⟩
  cases terminal with
  | true => exact h
  | false => exact Text.isEncodable_withoutControls h

namespace Run

private theorem write_eq (terminal : Bool) (r : Run) {messages : List Message}
    (h : ∀ t, .out t ∈ messages → t.isEncodable) :
    output.write terminal r messages =
      ⟨messages.flatMap (Message.stdout terminal), messages.flatMap (Message.stderr terminal),
        r.ending⟩ := by
  induction messages with
  | nil => rfl
  | cons m rest ih =>
    have hrest := ih fun t ht ↦ h t (List.mem_cons_of_mem m ht)
    cases m with
    | out t =>
      rw [output.write]
      dsimp only
      rw [if_pos (Output.isEncodable_shown terminal (h t List.mem_cons_self)), hrest]
      rfl
    | err t =>
      rw [output.write, hrest]
      rfl

/-- If all that goes to the standard output can be encoded, then every message is written and the
run ends as it would without them. -/
theorem output_eq (terminal : Bool) {r : Run} (h : ∀ t, .out t ∈ r.messages → t.isEncodable) :
    r.output terminal =
      ⟨r.messages.flatMap (Message.stdout terminal), r.messages.flatMap (Message.stderr terminal),
        r.ending⟩ := write_eq terminal r h

end Run

/-! ### Checking a project -/

namespace Project

variable {project : Project} {files : List (Path × FileTree)}

/-- The files that do not pass. -/
def failing (project : Project) (files : List (Path × FileTree)) : List (Path × FileTree) :=
  files.filter fun f ↦ ¬ project.symbols.Passes project.machine f

private theorem failing_eq_nil_iff :
    project.failing files = [] ↔ ∀ f ∈ files, project.symbols.Passes project.machine f := by
  simp [failing, List.filter_eq_nil_iff]

/-- A check that crashes has written the complaints about the files before. -/
theorem check_of_crash {c : Crash} (hne : files ≠ [])
    (h : (project.symbols.judgeFiles project.machine files).2 = some c) :
    project.check files =
      ⟨.out ("checking " ++ project.config.package.name ++ "...") ::
        complaints project.color (project.symbols.judgeFiles project.machine files).1,
        .crash c⟩ := by
  rw [check, if_neg (by simpa using hne)]
  dsimp only
  rw [h]

/-- A check that comes to its end says one thing about every file that does not pass, and then how
many there are. -/
theorem check_of_end (hne : files ≠ [])
    (h : (project.symbols.judgeFiles project.machine files).2 = none) :
    ∃ texts,
      List.Forall₂ (project.symbols.Faults project.machine project.color) (project.failing files)
        texts ∧
      project.check files =
        .exit (.out ("checking " ++ project.config.package.name ++ "...") :: texts.map .err ++
            [(checkSummary project.config.package.name (project.failing files).length
              files.length).1])
          (checkSummary project.config.package.name (project.failing files).length
            files.length).2 := by
  obtain ⟨hcount, texts, hfaults, hsaid⟩ := Symbols.judgeFiles_eq h project.color
  refine ⟨texts, hfaults, ?_⟩
  rw [check, if_neg (by simpa using hne)]
  dsimp only
  rw [h, hcount, hsaid]
  rfl

private theorem check_status :
    (project.check files).ending.status = 0 ↔
      ∀ f ∈ files, project.symbols.Passes project.machine f := by
  by_cases hne : files = []
  · subst hne
    exact ⟨fun _ ↦ nofun, fun _ ↦ rfl⟩
  · cases hj : (project.symbols.judgeFiles project.machine files).2 with
    | some c =>
      rw [check_of_crash hne hj]
      refine ⟨nofun, fun hall ↦ ?_⟩
      rw [Symbols.judgeFiles_of_passes hall] at hj
      cases hj
    | none =>
      obtain ⟨texts, -, hcheck⟩ := check_of_end hne hj
      rw [hcheck, ← failing_eq_nil_iff, ← List.length_eq_zero_iff]
      rw [Run.exit, Ending.status, checkSummary]
      split
      · next h => exact ⟨fun _ ↦ h, fun _ ↦ rfl⟩
      · next h => exact ⟨nofun, fun h' ↦ absurd h' h⟩

/-- All that the check of a project prints can be encoded if the project's name can. -/
theorem check_encodable (hname : project.config.package.name.isEncodable) {t : Text}
    (h : .out t ∈ (project.check files).messages) : t.isEncodable := by
  have hstart : Text.isEncodable ("checking " ++ project.config.package.name ++ "...") := by
    simp [hname]
  by_cases hne : files = []
  · subst hne
    cases List.mem_singleton.mp h
  · cases hj : (project.symbols.judgeFiles project.machine files).2 with
    | some c =>
      rw [check_of_crash hne hj] at h
      rcases List.mem_cons.mp h with heq | h
      · cases heq
        exact hstart
      · rw [complaints, List.mem_filterMap] at h
        obtain ⟨⟨p, v⟩, -, hv⟩ := h
        obtain ⟨text, -, hout⟩ := Option.map_eq_some_iff.mp hv
        cases hout
    | none =>
      obtain ⟨texts, -, hcheck⟩ := check_of_end hne hj
      rw [hcheck] at h
      rcases List.mem_append.mp h with h | h
      · rcases List.mem_cons.mp h with heq | h
        · cases heq
          exact hstart
        · obtain ⟨text, -, hout⟩ := List.mem_map.mp h
          cases hout
      · rw [checkSummary] at h
        split at h
        · cases List.mem_singleton.mp h
          simp [hname]
        · cases List.mem_singleton.mp h

/-- A check of some files that does not crash reports every file that does not pass. -/
theorem check_reports (hname : project.config.package.name.isEncodable) (hne : files ≠ [])
    (hend : ∀ c, (project.check files).ending ≠ .crash c) (terminal : Bool) :
    ∃ texts,
      List.Forall₂ (project.symbols.Faults project.machine project.color) (project.failing files)
        texts ∧
      ((project.check files).output terminal).Reports terminal project.config.package.name texts
        files.length := by
  cases hj : (project.symbols.judgeFiles project.machine files).2 with
  | some c =>
    rw [check_of_crash hne hj] at hend
    exact absurd rfl (hend c)
  | none =>
    obtain ⟨texts, hfaults, hcheck⟩ := check_of_end hne hj
    refine ⟨texts, hfaults, ?_⟩
    rw [Run.output_eq terminal fun _ ↦ check_encodable hname, hcheck, hfaults.length_eq]
    have hout : (texts.map Message.err).flatMap (Message.stdout terminal) = [] := by
      simp [List.flatMap_map, Message.stdout]
    have herr : (texts.map Message.err).flatMap (Message.stderr terminal) =
        texts.flatMap fun text ↦ Message.stderr terminal (.err text) := by
      rw [List.flatMap_map]
    by_cases h : texts = []
    · subst h
      constructor
      · simp [Run.exit, checkSummary]
      · simp [Run.exit, checkSummary, Message.stderr]
    · have hlength : texts.length ≠ 0 := by simpa using h
      constructor
      · simp [Run.exit, checkSummary, hlength, h, hout, Message.stdout]
      · simp [Run.exit, checkSummary, hlength, h, herr, Message.stderr]

end Project

namespace Files

variable {fs : Files} {target : Path} {t : FileTree} {noColor : Bool}

private theorem project_eq_ok_iff {project : Project} :
    fs.project target noColor = .ok project ↔
      ∃ c s, fs.config target = .ok c ∧ c.symbols = .ok s ∧
        project = ⟨c, s, c.check.color && !noColor, fs.machine⟩ := by
  rw [Files.project]
  constructor
  · intro h
    cases hc : fs.config target with
    | error e =>
      rw [hc] at h
      cases h
    | ok c =>
      rw [hc] at h
      dsimp only [bind, Except.bind] at h
      cases hs : c.symbols with
      | error e =>
        rw [hs] at h
        cases h
      | ok s =>
        rw [hs] at h
        cases h
        exact ⟨c, s, rfl, hs, rfl⟩
  · rintro ⟨c, s, hc, hs, rfl⟩
    rw [hc]
    dsimp only [bind, Except.bind]
    rw [hs]
    rfl

/-- A project with settings and types is set up. -/
theorem project_of_ok {c : Config} {s : Symbols} (hc : fs.config target = .ok c)
    (hs : c.symbols = .ok s) (noColor : Bool) :
    fs.project target noColor = .ok ⟨c, s, c.check.color && !noColor, fs.machine⟩ :=
  project_eq_ok_iff.mpr ⟨c, s, hc, hs, rfl⟩

/-- A search that comes to its end is followed by the check of what it found. -/
theorem check_of_trees {project : Project} {found : List (Path × FileTree)}
    (hp : fs.project target noColor = .ok project)
    (htrees : fs.trees target t project.config.check.sources = .ok found) :
    fs.check target t noColor = project.check found := by
  rw [check, hp]
  dsimp only
  rw [htrees]

/-- A search that fails ends a check before anything is written. -/
theorem check_of_fault {project : Project} {f : SearchFault}
    (hp : fs.project target noColor = .ok project)
    (htrees : fs.trees target t project.config.check.sources = .error f) :
    fs.check target t noColor = ⟨[], .crash f.crash⟩ := by
  rw [check, hp]
  dsimp only
  rw [htrees]

/-- A project that cannot be set up is not checked. -/
theorem check_of_setupError {e : SetupError} (h : fs.project target noColor = .error e) :
    fs.check target t noColor = e.run := by
  rw [check, h]

/-- All that a check prints can be encoded. -/
theorem check_encodable {text : Text} (h : .out text ∈ (fs.check target t noColor).messages) :
    text.isEncodable := by
  cases hp : fs.project target noColor with
  | error e =>
    rw [check_of_setupError hp] at h
    cases e with
    | crash c => cases h
    | config e => cases List.mem_singleton.mp h
    | catalog color e => cases List.mem_singleton.mp h
  | ok project =>
    obtain ⟨c, s, hc, hs, rfl⟩ := project_eq_ok_iff.mp hp
    cases htrees : fs.trees target t c.check.sources with
    | error f =>
      rw [check_of_fault hp htrees] at h
      cases h
    | ok found =>
      rw [check_of_trees hp htrees] at h
      exact Project.check_encodable (name_encodable_of_config hc) h

/-- When a check succeeds. -/
theorem check_status :
    (fs.check target t noColor).ending.status = 0 ↔
      ∃ c s found, fs.config target = .ok c ∧ c.symbols = .ok s ∧
        fs.trees target t c.check.sources = .ok found ∧ ∀ f ∈ found, s.Passes fs.machine f := by
  cases hp : fs.project target noColor with
  | error e =>
    rw [check_of_setupError hp]
    constructor
    · intro h
      cases e <;> cases h
    · rintro ⟨c, s, found, hc, hs, -⟩
      rw [project_of_ok hc hs] at hp
      cases hp
  | ok project =>
    obtain ⟨c, s, hc, hs, rfl⟩ := project_eq_ok_iff.mp hp
    cases ht : fs.trees target t c.check.sources with
    | error f =>
      rw [check_of_fault hp ht]
      refine ⟨nofun, ?_⟩
      rintro ⟨c', s', found, hc', -, ht', -⟩
      cases hc.symm.trans hc'
      cases ht.symm.trans ht'
    | ok found =>
      rw [check_of_trees hp ht]
      refine Project.check_status.trans ⟨fun h ↦ ⟨c, s, found, hc, hs, ht, h⟩, ?_⟩
      rintro ⟨c', s', found', hc', hs', ht', h⟩
      cases hc.symm.trans hc'
      cases hs.symm.trans hs'
      cases ht.symm.trans ht'
      exact h

/-- A path that leads somewhere has no fault. -/
theorem pathFault?_of_find {written : Text} (h : fs.find written = .ok t) :
    written.pathFault? = none := by
  rw [find, lookup] at h
  split at h
  · cases h
  · next hfault => simpa using fun hf ↦ hfault (.inr hf)

/-- The program runs a check if it is asked to, with at most one path, and the path leads to
something. -/
theorem run_eq_check {args operands : List Text} {path : Text}
    (hargs : Request.ofArguments args = .ok (.run .check noColor operands))
    (hpath : operands = [path] ∨ operands = [] ∧ path = Path.here) (hfind : fs.find path = .ok t) :
    fs.run args = fs.check (.ofText path) t noColor := by
  have hoperand : operand .check operands = .ok path := by
    rcases hpath with rfl | ⟨rfl, rfl⟩ <;> rfl
  have hone : ¬ 1 < operands.length := by
    rcases hpath with rfl | ⟨rfl, rfl⟩ <;> simp
  have htarget : fs.target .check path = .ok t := by
    unfold Files.target
    rw [hfind]
  rw [run, hargs]
  dsimp only
  rw [runCommand, hoperand]
  dsimp only
  rw [pathFault?_of_find hfind]
  dsimp only
  rw [htarget]
  dsimp only
  rw [if_neg hone]

end Files

end TreeCheck
