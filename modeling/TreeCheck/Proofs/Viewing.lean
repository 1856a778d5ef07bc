import TreeCheck.Proofs.Consistency
import TreeCheck.Proofs.Exactness
import TreeCheck.Proofs.Readability

/-!
# Viewing a file and checking it

A view reads and analyses a file as a check of this file alone does. They end alike and find fault
with the same things. Only a tree that passes is shown, and such a tree can always be shown: its
integers have at most 32 bits, so none of them is too long to be written out.
-/

namespace TreeCheck

/-! ### Trees that pass can be written out -/

private theorem Text.isWritable_of_int32 {n : Int} (h : -2147483648 ≤ n ∧ n ≤ 2147483647) :
    isWritable n = true := by
  have hsmall : n.natAbs < 10 ^ 10 := by omega
  rw [isWritable, decide_eq_true_iff, Nat.pow_eq]
  apply hsmall.trans_le
  apply Nat.pow_le_pow_right
  · decide
  · decide

private theorem Literal.HasType.isWritable {value : Literal} {t : Ty} (h : value.HasType t) :
    value.isWritable = true := by
  cases h with
  | integer hn => exact Text.isWritable_of_int32 hn
  | nil | boolean | character | string | decimal => rfl

/-- A node that agrees with a table is no integer that is too long to be written out. -/
theorem Node.Agrees.isShort {r : Resolutions} {node : Node NodeId} (h : node.Agrees r) :
    node.IsShort Text.maxDigits := by
  by_cases hliteral : ∃ tag value, node = .expr (.literal tag value)
  · obtain ⟨tag, value, rfl⟩ := hliteral
    obtain ⟨t, -, ht⟩ := h
    exact (Literal.isWritable_iff tag value).mp ht.isWritable
  · intro n hn
    unfold integer? at hn
    split at hn
    · next tag m => exact absurd ⟨tag, .integer m, rfl⟩ hliteral
    · cases hn

/-- A tree that is analysed with success has an outline. -/
theorem Symbols.outlineText?_of_analyze {s : Symbols} {parent : Option ScopeId}
    {tree : Node NodeId} {r : Resolutions} (hn : (ids tree.nodes).Nodup)
    (hr : (s.analyze parent tree).result = .ok r) (notes : NodeId → Notes) :
    ∃ text, tree.outlineText? notes = some text := by
  have hshort : ∀ node ∈ tree.nodes, node.IsShort Text.maxDigits := by
    intro node hm
    apply Node.Agrees.isShort
    exact Node.agrees_of_elaborated
      (elaborated_of_analyze hn hr Env.Invariant.trivial .intro node hm)
  exact ⟨_, if_pos (tree.isWritable_iff.mpr hshort)⟩

/-! ### What becomes of one file -/

namespace Symbols

variable {s : Symbols} {m : Machine} {f : Path × FileTree}

/-- What is shown of a file that passes: the outline of its tree, with the types and bindings that
the analysis of this tree has found. -/
def Shows (s : Symbols) (m : Machine) (f : Path × FileTree) (text : Text) : Prop :=
  ∃ tree table, readTree m f.1 f.2 = .ok (.ok tree) ∧ s.outcome tree = .ok table ∧
    (s.label tree).2.outlineText? table.notes = some text

private theorem passes_iff_shows : s.Passes m f ↔ ∃ text, s.Shows m f text := by
  constructor
  · rintro ⟨tree, hread, table, houtcome⟩
    obtain ⟨text, htext⟩ :=
      outlineText?_of_analyze (Node.nodup_ids_label _ tree) houtcome table.notes
    exact ⟨text, tree, table, hread, houtcome, htext⟩
  · rintro ⟨text, tree, table, hread, houtcome, -⟩
    exact ⟨tree, hread, table, houtcome⟩

private theorem Shows.unique {text text' : Text} (h : s.Shows m f text) (h' : s.Shows m f text') :
    text = text' := by
  obtain ⟨tree, table, hread, houtcome, htext⟩ := h
  obtain ⟨tree', table', hread', houtcome', htext'⟩ := h'
  cases hread.symm.trans hread'
  cases houtcome.symm.trans houtcome'
  exact Option.some.inj (htext.symm.trans htext')

/-- A file ends the run, or something is said about it, or it is shown. -/
theorem file_cases (s : Symbols) (m : Machine) (color : Bool) (f : Path × FileTree) :
    (∃ crash, readTree m f.1 f.2 = .error crash) ∨ (∃ text, s.Faults m color f text) ∨
      ∃ text, s.Shows m f text := by
  rcases s.judgeFile_cases m f with ⟨c, hread, -⟩ | ⟨e, hread, -⟩ | ⟨tree, table, hread, ho, -⟩ |
    ⟨tree, e, hread, ho, -⟩
  · exact .inl ⟨c, hread⟩
  · exact .inr (.inl ⟨_, .malformed hread⟩)
  · exact .inr (.inr (passes_iff_shows.mp ⟨tree, hread, table, ho⟩))
  · exact .inr (.inl ⟨_, .rejected hread ho⟩)

end Symbols

namespace Symbols

variable {s : Symbols} {m : Machine} {f : Path × FileTree} {text : Text}

private theorem judgeFile_of_crash {crash : Crash} (h : readTree m f.1 f.2 = .error crash) :
    s.judgeFile m f.1 f.2 = .error crash := by
  simp [judgeFile, h, bind, Except.bind]

private theorem judgeFile_of_shows (h : s.Shows m f text) :
    ∃ tree table, s.judgeFile m f.1 f.2 = .ok (.accepted tree table) ∧
      tree.outlineText? table.notes = some text := by
  obtain ⟨tree, table, hread, houtcome, htext⟩ := h
  refine ⟨_, table, ?_, htext⟩
  simp [judgeFile, hread, bind, Except.bind, judge_of_ok houtcome]

/-- What is said about a file is the complaint of a verdict that does not accept it. -/
theorem judgeFile_of_faults {color : Bool} (h : s.Faults m color f text) :
    ∃ v, s.judgeFile m f.1 f.2 = .ok v ∧ v.isFailure = true ∧
      v.complaint? color f.1 = some text := by
  cases h with
  | malformed hread =>
    refine ⟨.malformed _, ?_, rfl, rfl⟩
    simp [judgeFile, hread, bind, Except.bind, pure, Except.pure]
  | rejected hread houtcome =>
    refine ⟨.rejected _, ?_, rfl, rfl⟩
    simp [judgeFile, hread, bind, Except.bind, judge_of_error houtcome]

end Symbols

namespace Project

variable {project : Project} {f : Path × FileTree} {text : Text}

/-- The first message of a check. -/
def greeting (project : Project) : Message :=
  .out ("checking " ++ project.config.package.name ++ "...")

private theorem check_single {v : Verdict}
    (h : project.symbols.judgeFile project.machine f.1 f.2 = .ok v) :
    project.check [f] =
      .exit (project.greeting :: ((v.complaint? project.color f.1).map .err).toList ++
          [(checkSummary project.config.package.name (if v.isFailure then 1 else 0) 1).1])
        (checkSummary project.config.package.name (if v.isFailure then 1 else 0) 1).2 := by
  have hjudged : project.symbols.judgeFiles project.machine [f] = ([(f.1, v)], none) := by
    rw [Symbols.judgeFiles_cons h]
    rfl
  rw [check, if_neg (by simp), hjudged]
  dsimp only
  rw [complaints_cons, failures_cons]
  simp [complaints, failures, greeting]

/-- A file that ends a view ends the check of it, too. -/
theorem runs_of_crash {crash : Crash} (h : readTree project.machine f.1 f.2 = .error crash) :
    project.view f.1 f.2 = ⟨[], .crash crash⟩ ∧
      project.check [f] = ⟨[project.greeting], .crash crash⟩ := by
  have hjudge : project.symbols.judgeFile project.machine f.1 f.2 = .error crash :=
    Symbols.judgeFile_of_crash h
  constructor
  · simp [view, hjudge]
  · have hjudged : project.symbols.judgeFiles project.machine [f] = ([], some crash) := by
      simp [Symbols.judgeFiles, hjudge]
    rw [check_of_crash (List.cons_ne_nil f []) (by rw [hjudged]), hjudged]
    rfl

/-- A file that is shown passes the check of it. -/
theorem runs_of_shows (h : project.symbols.Shows project.machine f text) :
    project.view f.1 f.2 = .exit [.out text] 0 ∧
      project.check [f] =
        .exit [project.greeting, (checkSummary project.config.package.name 0 1).1] 0 := by
  obtain ⟨tree, table, hjudge, htext⟩ := Symbols.judgeFile_of_shows h
  constructor
  · simp [view, hjudge, htext]
  · rw [check_single hjudge]
    rfl

/-- A file that a view finds fault with fails the check of it, for the same reason. -/
theorem runs_of_faults (h : project.symbols.Faults project.machine project.color f text) :
    project.view f.1 f.2 = .exit [.err text] 1 ∧
      project.check [f] = .exit [project.greeting, .err text,
        .err "1 of 1 tree(s) failed to check"] 1 := by
  obtain ⟨v, hjudge, hfails, hsaid⟩ := Symbols.judgeFile_of_faults h
  constructor
  · cases v with
    | accepted tree table => cases hfails
    | malformed e => simp [view, hjudge, hsaid]
    | rejected e => simp [view, hjudge, hsaid]
  · rw [check_single hjudge, hsaid, hfails]
    rfl

end Project

namespace Output

/-- The line that ends the check of a single file that fails. -/
theorem stderr_lone_failure (terminal : Bool) :
    Message.stderr terminal (.err "1 of 1 tree(s) failed to check") =
      "1 of 1 tree(s) failed to check\n" := by
  cases terminal <;> decide

end Output

/-! ### The two commands -/

namespace Files

variable {fs : Files} {bytes : ByteArray} {path : Text} {noColor : Bool}

/-- The program shows a file if it is asked to and the path leads to a file. -/
theorem run_eq_view {args : List Text}
    (hargs : Request.ofArguments args = .ok (.run .view noColor [path]))
    (hfind : fs.find path = .ok (.file bytes)) :
    fs.run args = fs.view (.ofText path) (.file bytes) noColor := by
  have htarget : fs.target .view path = .ok (.file bytes) := by
    simp [target, hfind, FileTree.isDirectory]
  simp [run, hargs, runCommand, operand, pathFault?_of_find hfind, htarget]

private theorem check_file {project : Project} {target : Path}
    (hp : fs.project target noColor = .ok project) :
    fs.check target (.file bytes) noColor = project.check [(target, .file bytes)] :=
  check_of_trees hp rfl

private theorem view_file {project : Project} {target : Path}
    (hp : fs.project target noColor = .ok project) :
    fs.view target (.file bytes) noColor = project.view target (.file bytes) := by
  rw [view, hp]

private theorem view_of_setupError {e : SetupError} {target : Path}
    (h : fs.project target noColor = .error e) :
    fs.view target (.file bytes) noColor = e.run := by
  rw [view, h]

section

variable {target : Path} {project : Project}

private theorem output_check (terminal : Bool) {t : FileTree} :
    (fs.check target t noColor).output terminal =
      ⟨(fs.check target t noColor).messages.flatMap (Message.stdout terminal),
        (fs.check target t noColor).messages.flatMap (Message.stderr terminal),
        (fs.check target t noColor).ending⟩ := Run.output_eq terminal fun _ ↦ check_encodable

/-- The two commands on a project that cannot be set up. -/
theorem outputs_of_setupError {e : SetupError} (h : fs.project target noColor = .error e)
    (terminal : Bool) :
    (fs.view target (.file bytes) noColor).output terminal =
        (fs.check target (.file bytes) noColor).output terminal ∧
      ((fs.view target (.file bytes) noColor).output terminal).ending.status = 1 := by
  rw [view_of_setupError h, check_of_setupError h]
  refine ⟨rfl, ?_⟩
  cases e <;> rfl

/-- The two commands on a file that ends them. -/
theorem outputs_of_crash {crash : Crash} (hp : fs.project target noColor = .ok project)
    (h : readTree project.machine target (.file bytes) = .error crash) (terminal : Bool) :
    (fs.view target (.file bytes) noColor).output terminal = ⟨[], [], .crash crash⟩ ∧
      ((fs.check target (.file bytes) noColor).output terminal).ending = .crash crash := by
  obtain ⟨hview, hcheck⟩ := @Project.runs_of_crash project (target, .file bytes) crash h
  rw [view_file hp, output_check, check_file hp, hview, hcheck]
  exact ⟨rfl, rfl⟩

/-- The two commands on a file that something is wrong with. -/
theorem outputs_of_faults {text : Text} (hp : fs.project target noColor = .ok project)
    (h : project.symbols.Faults project.machine project.color (target, .file bytes) text)
    (terminal : Bool) :
    (fs.view target (.file bytes) noColor).output terminal =
        ⟨[], Message.stderr terminal (.err text), .exit 1⟩ ∧
      ((fs.check target (.file bytes) noColor).output terminal).ending = .exit 1 ∧
      ((fs.check target (.file bytes) noColor).output terminal).stderr =
        Message.stderr terminal (.err text) ++ "1 of 1 tree(s) failed to check\n" := by
  obtain ⟨hview, hcheck⟩ := Project.runs_of_faults h
  rw [view_file hp, output_check, check_file hp, hview, hcheck,
    ← Output.stderr_lone_failure terminal]
  refine ⟨?_, rfl, ?_⟩
  · simp [Run.output, Run.output.write, Run.exit, Message.stderr]
  · simp [Run.exit, Project.greeting, Message.stderr]

/-- The two commands on a file that passes. -/
theorem outputs_of_shows {text : Text} (hp : fs.project target noColor = .ok project)
    (h : project.symbols.Shows project.machine (target, .file bytes) text) (terminal : Bool) :
    (fs.view target (.file bytes) noColor).output terminal =
        (if (Output.shown terminal text).isEncodable then
          ⟨Output.shown terminal text, [], .exit 0⟩ else ⟨[], [], .crash .notEncodable⟩) ∧
      ((fs.check target (.file bytes) noColor).output terminal).ending = .exit 0 := by
  obtain ⟨hview, hcheck⟩ := Project.runs_of_shows h
  rw [view_file hp, output_check, check_file hp, hview, hcheck]
  refine ⟨?_, rfl⟩
  simp [Run.output, Run.output.write, Run.exit]

end

/-- A view of a file and a check of it agree. They end alike, provided that the outline can be
encoded if there is one. If the project cannot be set up, they write the same. If something is wrong
with the file, then the check says what the view says and adds a line. A view that succeeds shows
the outline of the tree with what its analysis has found. -/
theorem run_view_agrees {viewArgs checkArgs : List Text}
    (hview : Request.ofArguments viewArgs = .ok (.run .view noColor [path]))
    (hcheck : Request.ofArguments checkArgs = .ok (.run .check noColor [path]))
    (hfind : fs.find path = .ok (.file bytes)) (terminal : Bool) :
    let view := (fs.run viewArgs).output terminal
    let check := (fs.run checkArgs).output terminal
    let file : Path × FileTree := (.ofText path, .file bytes)
    ((∀ project text, fs.project file.1 noColor = .ok project →
        project.symbols.Shows project.machine file text →
        (Output.shown terminal text).isEncodable) →
      view.ending = check.ending ∧ (view.ending.status = 0 ↔ check.ending.status = 0)) ∧
    (∀ e, fs.project file.1 noColor = .error e → view = check ∧ view.ending.status = 1) ∧
    (∀ project text, fs.project file.1 noColor = .ok project →
      project.symbols.Faults project.machine project.color file text →
      view.ending = .exit 1 ∧ check.ending = .exit 1 ∧
        view.stderr = Message.stderr terminal (.err text) ∧
        check.stderr = view.stderr ++ "1 of 1 tree(s) failed to check\n") ∧
    (view.ending.status = 0 →
      ∃ project text, fs.project file.1 noColor = .ok project ∧
        project.symbols.Shows project.machine file text ∧
        view = ⟨Output.shown terminal text, [], .exit 0⟩) := by
  intro view check file
  have hviewed : view = (fs.view file.1 (.file bytes) noColor).output terminal := by
    rw [← run_eq_view hview hfind]
  have hchecked : check = (fs.check file.1 (.file bytes) noColor).output terminal := by
    rw [← run_eq_check hcheck (.inl rfl) hfind]
  rw [hviewed, hchecked]
  cases hp : fs.project file.1 noColor with
  | error e =>
    obtain ⟨hsame, hstatus⟩ := @outputs_of_setupError fs bytes _ _ e hp terminal
    refine ⟨fun _ ↦ ?_, fun e' _ ↦ ⟨hsame, hstatus⟩, nofun, ?_⟩
    · rw [hsame]
      exact ⟨rfl, Iff.rfl⟩
    · intro hzero
      rw [hstatus] at hzero
      cases hzero
  | ok project =>
    refine ⟨?_, nofun, ?_, ?_⟩
    · intro hencodable
      rcases project.symbols.file_cases project.machine project.color file with ⟨crash, h⟩ |
        ⟨text, h⟩ | ⟨text, h⟩
      · obtain ⟨hv, hc⟩ := outputs_of_crash hp h terminal
        rw [hv, hc]
        exact ⟨rfl, Iff.rfl⟩
      · obtain ⟨hv, hc, -⟩ := outputs_of_faults hp h terminal
        rw [hv, hc]
        exact ⟨rfl, Iff.rfl⟩
      · obtain ⟨hv, hc⟩ := outputs_of_shows hp h terminal
        rw [hv, hc, if_pos (hencodable project text rfl h)]
        exact ⟨rfl, Iff.rfl⟩
    · rintro _ text ⟨⟩ h
      obtain ⟨hv, hc, hsaid⟩ := outputs_of_faults hp h terminal
      rw [hv]
      exact ⟨rfl, hc, rfl, hsaid⟩
    · intro hzero
      rcases project.symbols.file_cases project.machine project.color file with ⟨crash, h⟩ |
        ⟨text, h⟩ | ⟨text, h⟩
      · rw [(outputs_of_crash hp h terminal).1] at hzero
        cases hzero
      · rw [(outputs_of_faults hp h terminal).1] at hzero
        cases hzero
      · refine ⟨project, text, rfl, h, ?_⟩
        rw [(outputs_of_shows hp h terminal).1] at hzero ⊢
        split
        · rfl
        · next hnot =>
          rw [if_neg hnot] at hzero
          cases hzero

end Files

/-! ### A project of one file -/

/-- A project of a single file, without settings. -/
def loneProject (bytes : ByteArray) : Files :=
  ⟨[("w", .directory [("a.json", .file bytes)])], ["w"], .usual⟩

/-- The outline of the number zero, with its type. -/
def zeroOutline : Text := "Literal\n  : Integer\n  value: 0"

private theorem zeroTree_shows {p : Path} (hp : p.toText.byteLength ≤ Files.maxPathBytes) :
    Symbols.initial.Shows .usual (p, .file zeroTree.toUTF8) zeroOutline := by
  have h : ((Node.ofText (Text.ofString zeroTree).unifyLineEnds).toOption.bind fun tree ↦
      (Symbols.initial.outcome tree).toOption.bind fun table ↦
        (Symbols.initial.label tree).2.outlineText? table.notes) = some zeroOutline := by
    decide +kernel
  obtain ⟨tree, htree, h⟩ := Option.bind_eq_some_iff.mp h
  obtain ⟨table, htable, htext⟩ := Option.bind_eq_some_iff.mp h
  refine ⟨tree, table, ?_, ?_, htext⟩
  · cases hread : Node.ofText (Text.ofString zeroTree).unifyLineEnds with
    | error e =>
      rw [hread] at htree
      cases htree
    | ok tree' =>
      rw [hread] at htree
      cases htree
      exact readTree_of_ok hp (Text.ofUtf8?_toUTF8 zeroTree) zeroTree_borne hread
  · cases houtcome : Symbols.initial.outcome tree with
    | error e =>
      rw [houtcome] at htable
      cases htable
    | ok table' =>
      rw [houtcome] at htable
      cases htable
      rfl

/-- The number zero is shown with its type, and it passes the check. -/
theorem loneProject_views :
    ((loneProject zeroTree.toUTF8).run ["view", "a.json"]).output false =
        ⟨"Literal\n  : Integer\n  value: 0\n", [], .exit 0⟩ ∧
      (((loneProject zeroTree.toUTF8).run ["check", "a.json"]).output false).ending = .exit 0 := by
  have hshows := zeroTree_shows (p := .ofText "a.json") (by decide)
  generalize zeroTree.toUTF8 = bytes at hshows ⊢
  have hview : Request.ofArguments ["view", "a.json"] = .ok (.run .view false ["a.json"]) := rfl
  have hcheck : Request.ofArguments ["check", "a.json"] = .ok (.run .check false ["a.json"]) := by
    rfl
  have hfind : (loneProject bytes).find "a.json" = .ok (.file bytes) := rfl
  have hp : (loneProject bytes).project (.ofText "a.json") false = .ok plainProject := rfl
  obtain ⟨hending, -, -, hshown⟩ := Files.run_view_agrees hview hcheck hfind false
  have hone : (((loneProject bytes).run ["check", "a.json"]).output false).ending = .exit 0 := by
    rw [Files.run_eq_check hcheck (.inl rfl) hfind]
    exact (Files.outputs_of_shows hp hshows false).2
  have hencodable : ∀ project text,
      (loneProject bytes).project (.ofText "a.json") false = .ok project →
      project.symbols.Shows project.machine (.ofText "a.json", .file bytes) text →
      (Output.shown false text).isEncodable := by
    intro project text hproject h
    cases hp.symm.trans hproject
    rw [h.unique hshows]
    decide
  obtain ⟨hsame, -⟩ := hending hencodable
  obtain ⟨project, text, hproject, h, houtput⟩ := hshown (by rw [hsame, hone]; rfl)
  cases hp.symm.trans hproject
  refine ⟨?_, hone⟩
  rw [houtput, h.unique hshows]
  rfl

end TreeCheck
