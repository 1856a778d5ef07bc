import TreeCheck.Proofs.Exactness
import TreeCheck.Proofs.Nesting

/-!
# A check goes on after a bad file

A tree file that cannot be read is reported and counted, and the files after it are checked all the
same. Three kinds of contents are an exception and end the check where it stands: bytes that are not
UTF-8, a document that spells a number whose exponent is out of bounds, and a document that is
nested too deep for the machine.

Source: `SPEC_FULL.md`, sections 7 and 9.
-/

namespace TreeCheck

/-! ### Files that end a check -/

/-- The files that end a check when they are read, and how. A file that cannot be opened is none of
them. -/
inductive Machine.Halts (m : Machine) : Path × FileTree → Crash → Prop
  /-- Its bytes are not UTF-8. -/
  | encoding {p : Path} {bytes : ByteArray} (hp : p.toText.byteLength ≤ Files.maxPathBytes)
      (h : Text.ofUtf8? bytes = none) : Halts m (p, .file bytes) .notUtf8
  /-- Its contents are nested too deep. -/
  | nesting {p : Path} {bytes : ByteArray} {t : Text}
      (hp : p.toText.byteLength ≤ Files.maxPathBytes) (ht : Text.ofUtf8? bytes = some t)
      (h : m.bearsTree t.unifyLineEnds = false) : Halts m (p, .file bytes) .tooDeep
  /-- From left to right one comes to a number that is out of bounds. -/
  | exponent {p : Path} {bytes : ByteArray} {t : Text}
      (hp : p.toText.byteLength ≤ Files.maxPathBytes) (ht : Text.ofUtf8? bytes = some t)
      (hborne : m.bearsTree t.unifyLineEnds = true)
      (h : Json.Meets .value (Json.skipBlanks t.unifyLineEnds)) :
      Halts m (p, .file bytes) .exponentOutOfBounds

/-- A file that does not end a check. -/
def Machine.Harmless (m : Machine) (f : Path × FileTree) : Prop := ∀ crash, ¬ m.Halts f crash

variable {m : Machine}

/-- Only three kinds of contents end a check. -/
theorem Machine.Halts.contents {f : Path × FileTree} {crash : Crash} (h : m.Halts f crash)
    (hm : m.Ordinary) :
    ∃ bytes, f.2 = .file bytes ∧ (Text.ofUtf8? bytes = none ∨
      ∃ t, Text.ofUtf8? bytes = some t ∧ (Json.Meets .value (Json.skipBlanks t.unifyLineEnds) ∨
        200 < t.unifyLineEnds.nesting)) := by
  cases h with
  | encoding _ h => exact ⟨_, rfl, .inl h⟩
  | @nesting _ _ t _ ht h =>
    refine ⟨_, rfl, .inr ⟨t, ht, .inr ?_⟩⟩
    by_contra hshallow
    rw [hm.shallow _ (Nat.not_lt.mp hshallow)] at h
    cases h
  | exponent _ ht _ h => exact ⟨_, rfl, .inr ⟨_, ht, .inl h⟩⟩

/-- A document of great nesting ends a check. -/
theorem Machine.Ordinary.halts (hm : m.Ordinary) {p : Path} {bytes : ByteArray} {t : Text}
    (hp : p.toText.byteLength ≤ Files.maxPathBytes) (ht : Text.ofUtf8? bytes = some t)
    (hdocument : Json.IsDocument t.unifyLineEnds) (hdeep : 1000 ≤ t.unifyLineEnds.nesting) :
    m.Halts (p, .file bytes) .tooDeep := .nesting hp ht (hm.deep _ hdocument hdeep)

/-- A file of a thousand opening brackets or more, and as many closing ones, ends a check. -/
theorem Machine.Ordinary.brackets_halt (hm : m.Ordinary) {p : Path} {bytes : ByteArray} {n : Nat}
    (hp : p.toText.byteLength ≤ Files.maxPathBytes)
    (ht : Text.ofUtf8? bytes = some (Text.brackets (n + 1000))) :
    m.Halts (p, .file bytes) .tooDeep := .nesting hp ht (hm.bearsTree_brackets n)

/-- Reading a file ends a check exactly if the file is one of those. -/
theorem readTree_eq_error_iff {f : Path × FileTree} {crash : Crash} :
    readTree m f.1 f.2 = .error crash ↔ m.Halts f crash := by
  obtain ⟨p, f⟩ := f
  dsimp only
  constructor
  · intro h
    rw [readTree.eq_def] at h
    split at h
    · cases h
    next hlong =>
    have hp := Nat.not_lt.mp hlong
    cases f with
    | directory entries => cases h
    | file bytes =>
      dsimp only at h
      cases ht : Text.ofUtf8? bytes with
      | none =>
        rw [ht] at h
        cases h
        exact .encoding hp ht
      | some t =>
        rw [ht] at h
        dsimp only at h
        split at h
        · next hborne =>
          split at h
          · cases h
          · next hread =>
            cases h
            rw [Node.ofText_eq_exponent_iff, Json.parse_stops_iff] at hread
            exact .exponent hp ht hborne hread
          · cases h
        · next hborne =>
          cases h
          exact .nesting hp ht (Bool.eq_false_iff.mpr hborne)
  · intro h
    cases h with
    | encoding hp h =>
      rw [readTree.eq_def, if_neg (Nat.not_lt.mpr hp)]
      dsimp only
      rw [h]
    | nesting hp ht h =>
      rw [readTree.eq_def, if_neg (Nat.not_lt.mpr hp)]
      dsimp only
      rw [ht]
      dsimp only
      rw [if_neg (Bool.eq_false_iff.mp h)]
    | exponent hp ht hborne h =>
      rw [readTree.eq_def, if_neg (Nat.not_lt.mpr hp)]
      dsimp only
      rw [ht]
      dsimp only
      rw [if_pos hborne, Node.ofText_eq_exponent_iff.mpr (Json.parse_stops_iff.mpr h)]

namespace Symbols

variable {s : Symbols} {files before after : List (Path × FileTree)} {f : Path × FileTree}
  {crash : Crash}

private theorem judgeFile_eq_error_iff :
    s.judgeFile m f.1 f.2 = .error crash ↔ m.Halts f crash := by
  rw [← readTree_eq_error_iff]
  rcases s.judgeFile_cases m f with ⟨c, hread, hj⟩ | ⟨e, hread, hj⟩ | ⟨tree, table, hread, -, hj⟩ |
    ⟨tree, e, hread, -, hj⟩ <;> simp [hread, hj]

private theorem judgeFile_of_harmless (h : m.Harmless f) : ∃ v, s.judgeFile m f.1 f.2 = .ok v := by
  cases hj : s.judgeFile m f.1 f.2 with
  | error crash => exact absurd (judgeFile_eq_error_iff.mp hj) (h crash)
  | ok v => exact ⟨v, rfl⟩

/-- Files that do not end a check are all judged. -/
theorem judgeFiles_of_harmless (h : ∀ f ∈ files, m.Harmless f) :
    (s.judgeFiles m files).2 = none := by
  induction files with
  | nil => rfl
  | cons f files ih =>
    obtain ⟨hf, hfiles⟩ := List.forall_mem_cons.mp h
    obtain ⟨v, hv⟩ := @judgeFile_of_harmless m s f hf
    rw [judgeFiles_cons hv]
    exact ih hfiles

/-- A file that ends a check does so after the files before it have been judged, and nothing after
it is looked at. -/
theorem judgeFiles_of_halts (h : ∀ g ∈ before, m.Harmless g) (hf : m.Halts f crash) :
    s.judgeFiles m (before ++ f :: after) = ((s.judgeFiles m before).1, some crash) := by
  induction before with
  | nil =>
    rw [List.nil_append, judgeFiles.eq_def]
    dsimp only
    rw [judgeFile_eq_error_iff.mpr hf]
    rfl
  | cons g before ih =>
    obtain ⟨hg, hbefore⟩ := List.forall_mem_cons.mp h
    obtain ⟨v, hv⟩ := @judgeFile_of_harmless m s g hg
    rw [List.cons_append, judgeFiles_cons hv, judgeFiles_cons hv, ih hbefore]

end Symbols

namespace Project

variable {project : Project} {files before after : List (Path × FileTree)} {f : Path × FileTree}
  {crash : Crash}

/-- A check of files none of which ends it comes to its end, with the status that says whether any
of them failed. -/
theorem ending_check_of_harmless (hne : files ≠ [])
    (h : ∀ f ∈ files, project.machine.Harmless f) :
    (project.check files).ending = .exit (if project.failing files = [] then 0 else 1) := by
  obtain ⟨texts, -, hcheck⟩ := check_of_end hne (Symbols.judgeFiles_of_harmless h)
  rw [hcheck, Run.exit, checkSummary]
  simp only [List.length_eq_zero_iff]
  split <;> rfl

/-- A check that a file ends has said one thing about each of the files before it that do not
pass. -/
theorem check_of_halts (h : ∀ g ∈ before, project.machine.Harmless g)
    (hf : project.machine.Halts f crash) :
    ∃ texts,
      List.Forall₂ (project.symbols.Faults project.machine project.color) (project.failing before)
        texts ∧
      project.check (before ++ f :: after) =
        ⟨.out ("checking " ++ project.config.package.name ++ "...") :: texts.map .err,
          .crash crash⟩ := by
  have hjudged := @Symbols.judgeFiles_of_halts project.machine project.symbols before after f crash
    h hf
  obtain ⟨-, texts, hfaults, hsaid⟩ :=
    Symbols.judgeFiles_eq (Symbols.judgeFiles_of_harmless h) project.color
  refine ⟨texts, hfaults, ?_⟩
  rw [check_of_crash (by simp) (by rw [hjudged]), hjudged]
  dsimp only
  rw [hsaid]

/-- The output of a check that comes to its end. -/
theorem output_of_harmless (hname : project.config.package.name.isEncodable) (hne : files ≠ [])
    (h : ∀ f ∈ files, project.machine.Harmless f) (terminal : Bool) :
    ∃ texts,
      List.Forall₂ (project.symbols.Faults project.machine project.color) (project.failing files)
        texts ∧
      ((project.check files).output terminal).Reports terminal project.config.package.name texts
        files.length ∧
      ((project.check files).output terminal).ending = .exit (if texts = [] then 0 else 1) := by
  have hending := @ending_check_of_harmless project files hne h
  have hend (crash : Crash) : (project.check files).ending ≠ .crash crash := by simp [hending]
  obtain ⟨texts, hfaults, hreports⟩ := check_reports hname hne hend terminal
  refine ⟨texts, hfaults, hreports, ?_⟩
  have hnil : texts = [] ↔ project.failing files = [] := by
    rw [← List.length_eq_zero_iff, ← List.length_eq_zero_iff, hfaults.length_eq]
  rw [Run.output_eq terminal fun _ ↦ check_encodable hname]
  simp only [hending, hnil]

/-- The output of a check that a file ends. -/
theorem output_of_halts (hname : project.config.package.name.isEncodable)
    (h : ∀ g ∈ before, project.machine.Harmless g) (hf : project.machine.Halts f crash)
    (terminal : Bool) :
    ∃ texts,
      List.Forall₂ (project.symbols.Faults project.machine project.color) (project.failing before)
        texts ∧
      (project.check (before ++ f :: after)).output terminal =
        ⟨Message.stdout terminal (.out ("checking " ++ project.config.package.name ++ "...")),
          texts.flatMap fun text ↦ Message.stderr terminal (.err text), .crash crash⟩ := by
  obtain ⟨texts, hfaults, hcheck⟩ := @check_of_halts project before after f crash h hf
  refine ⟨texts, hfaults, ?_⟩
  rw [Run.output_eq terminal fun _ ↦ check_encodable hname, hcheck]
  simp [Message.stdout, Message.stderr, List.flatMap_map]

end Project

/-- About a file that holds no tree, the complaint says why. -/
theorem Symbols.Faults.eq_of_malformed {s : Symbols} {color : Bool} {f : Path × FileTree}
    {text : Text} {e : FormatError} (h : s.Faults m color f text)
    (hread : readTree m f.1 f.2 = .ok (.error e)) :
    text = "error: " ++ f.1.toText ++ ": " ++ e.message := by
  cases h with
  | malformed read =>
    cases read.symm.trans hread
    rfl
  | rejected read outcome => cases read.symm.trans hread

private theorem Symbols.not_passes_of_malformed {s : Symbols} {f : Path × FileTree}
    {e : FormatError} (hread : readTree m f.1 f.2 = .ok (.error e)) : ¬ s.Passes m f := by
  rintro ⟨tree, hread', -⟩
  cases hread.symm.trans hread'

/-- Every file that holds no tree is complained about. -/
theorem Project.mem_of_malformed {project : Project} {files : List (Path × FileTree)}
    {texts : List Text}
    (h : List.Forall₂ (project.symbols.Faults project.machine project.color)
      (project.failing files) texts)
    {f : Path × FileTree} (hf : f ∈ files) {e : FormatError}
    (hread : readTree project.machine f.1 f.2 = .ok (.error e)) :
    ("error: " ++ f.1.toText ++ ": " ++ e.message : Text) ∈ texts := by
  have hmem : f ∈ project.failing files := by
    simpa [failing, hf] using Symbols.not_passes_of_malformed hread
  obtain ⟨i, rfl⟩ := List.mem_iff_get.mp hmem
  have hi : i < texts.length := Nat.lt_of_lt_of_eq i.isLt h.length_eq
  rw [← (h.get i.isLt hi).eq_of_malformed hread]
  exact List.get_mem texts ⟨i, hi⟩

namespace Files

variable {fs : Files} {t : FileTree} {noColor : Bool}

/-- A check goes on after a bad file. If no file that the path stands for ends it, then it comes to
its end: it complains about every file that does not pass, a file that holds no tree among them, and
counts them. A file that ends a check does so after the files before it have been checked, and what
comes after it is not looked at. Such a file is not UTF-8, or one comes to a number in it that is
out of bounds, or it is nested more than 200 deep; a document that is nested 1000 deep is always
one. -/
theorem run_check_persists {args operands : List Text} {path : Text} {c : Config} {s : Symbols}
    {found : List (Path × FileTree)} (hfs : fs.root.Distinct)
    (hargs : Request.ofArguments args = .ok (.run .check noColor operands))
    (hpath : operands = [path] ∨ operands = [] ∧ path = Path.here) (hfind : fs.find path = .ok t)
    (hc : fs.config (.ofText path) = .ok c) (hs : c.symbols = .ok s)
    (hfound : fs.Selects (.ofText path) c.check.sources t found)
    (hsearch : fs.Walkable (.ofText path) c.check.sources t) (terminal : Bool) :
    (found ≠ [] → (∀ f ∈ found, fs.machine.Harmless f) →
      ∃ texts,
        List.Forall₂ (s.Faults fs.machine (c.check.color && !noColor))
          (found.filter fun f ↦ ¬ s.Passes fs.machine f) texts ∧
        (∀ f ∈ found, ∀ e, readTree fs.machine f.1 f.2 = .ok (.error e) →
          ("error: " ++ f.1.toText ++ ": " ++ e.message : Text) ∈ texts) ∧
        ((fs.run args).output terminal).Reports terminal c.package.name texts found.length ∧
        ((fs.run args).output terminal).ending = .exit (if texts = [] then 0 else 1)) ∧
    (∀ before f after crash, found = before ++ f :: after →
      (∀ g ∈ before, fs.machine.Harmless g) → fs.machine.Halts f crash →
      ∃ texts,
        List.Forall₂ (s.Faults fs.machine (c.check.color && !noColor))
          (before.filter fun f ↦ ¬ s.Passes fs.machine f) texts ∧
        (fs.run args).output terminal =
          ⟨Message.stdout terminal (.out ("checking " ++ c.package.name ++ "...")),
            texts.flatMap fun text ↦ Message.stderr terminal (.err text), .crash crash⟩) ∧
    (found = [] → (fs.run args).output terminal =
      ⟨[], Message.stderr terminal (.err "warning: no .json syntax trees found"), .exit 0⟩) ∧
    (fs.machine.Ordinary → ∀ f ∈ found, ∀ crash, fs.machine.Halts f crash →
      ∃ bytes, f.2 = .file bytes ∧ (Text.ofUtf8? bytes = none ∨
        ∃ t, Text.ofUtf8? bytes = some t ∧
          (Json.Meets .value (Json.skipBlanks t.unifyLineEnds) ∨
            200 < t.unifyLineEnds.nesting))) ∧
    (fs.machine.Ordinary → ∀ p bytes t, (p, .file bytes) ∈ found →
      p.toText.byteLength ≤ maxPathBytes → Text.ofUtf8? bytes = some t →
      Json.IsDocument t.unifyLineEnds → 1000 ≤ t.unifyLineEnds.nesting →
      fs.machine.Halts (p, .file bytes) .tooDeep) := by
  have ht := distinct_of_find hfs hfind
  have htrees := (trees_eq_ok_iff hfs ht).mpr ⟨hfound, hsearch⟩
  have hname := name_encodable_of_config hc
  rw [run_eq_check hargs hpath hfind, check_of_trees (project_of_ok hc hs noColor) htrees]
  refine ⟨?_, ?_, ?_, fun hm f _ crash h ↦ h.contents hm,
    fun hm p bytes t _ hp ht hdocument hdeep ↦ hm.halts hp ht hdocument hdeep⟩
  · intro hne hall
    obtain ⟨texts, hfaults, houtput⟩ := @Project.output_of_harmless
      ⟨c, s, c.check.color && !noColor, fs.machine⟩ found hname hne hall terminal
    exact ⟨texts, hfaults, fun f hf e hread ↦ Project.mem_of_malformed hfaults hf hread, houtput⟩
  · rintro before f after crash rfl hbefore hf
    exact @Project.output_of_halts ⟨c, s, c.check.color && !noColor, fs.machine⟩ before after f
      crash hname hbefore hf terminal
  · rintro rfl
    rw [Run.output_eq terminal fun _ ↦ Project.check_encodable hname]
    simp [Project.check, Run.exit, Message.stdout]

end Files

/-! ### A project of two files -/

/-- A directory with two tree files. -/
def pairDirectory (first second : ByteArray) : FileTree :=
  .directory [("a.json", .file first), ("b.json", .file second)]

/-- A project of this directory, without settings. -/
def pairProject (first second : ByteArray) : Files :=
  ⟨[("w", pairDirectory first second)], ["w"], .usual⟩

/-- The two files, in their order. -/
def pairFiles (first second : ByteArray) : List (Path × FileTree) :=
  [(⟨.working, ["a.json"]⟩, .file first), (⟨.working, ["b.json"]⟩, .file second)]

section

variable (first second : ByteArray)

private theorem pairProject_distinct : (pairProject first second).root.Distinct := by
  have hpair : (pairDirectory first second).Distinct := by
    have hnames : ([("a.json" : Text), "b.json"]).Nodup := by decide
    refine .directory hnames ?_
    simp only [List.forall_mem_cons]
    exact ⟨.file first, .file second, List.forall_mem_nil _⟩
  refine .directory (List.nodup_singleton _) ?_
  intro entry h
  rw [List.mem_singleton.mp h]
  exact hpair

private theorem pairProject_find :
    (pairProject first second).find Path.here = .ok (pairDirectory first second) := rfl

private theorem pairProject_config :
    (pairProject first second).config (.ofText Path.here) = .ok plainProject.config := rfl

private theorem pairProject_trees :
    (pairProject first second).trees (.ofText Path.here) (pairDirectory first second)
      plainProject.config.check.sources = .ok (pairFiles first second) := by
  change Files.treesIn .usual (.ofText Path.here) (pairDirectory first second) = _
  exact Files.treesIn_of_pairwise [(["a.json"], .file first), (["b.json"], .file second)] rfl rfl
    (List.pairwise_pair.mpr rfl)

end

/-- A file that is cut off after its first character. -/
def cutOff : String := "\x7b"

private theorem cutOff_malformed {p : Path} (hp : p.toText.byteLength ≤ Files.maxPathBytes) :
    readTree .usual p (.file cutOff.toUTF8) = .ok (.error (.invalidJson 1 .expectedName)) := by
  have h : Node.ofText (Text.ofString cutOff).unifyLineEnds =
      .error (.format (.invalidJson 1 .expectedName)) := rfl
  have hborne : Machine.usual.bearsTree (Text.ofString cutOff).unifyLineEnds = true := by
    decide +kernel
  rw [readTree, if_neg (Nat.not_lt.mpr hp), Text.ofUtf8?_toUTF8]
  dsimp only
  rw [if_pos hborne, h]

private theorem harmless_of_readTree {f : Path × FileTree} {r : Except FormatError (Node Unit)}
    (h : readTree m f.1 f.2 = .ok r) : m.Harmless f := by
  intro crash hhalts
  rw [readTree_eq_error_iff.mpr hhalts] at h
  cases h

/-- A file that is cut off is reported, and the file after it is checked. -/
theorem pairProject_reports :
    let o := ((pairProject cutOff.toUTF8 zeroTree.toUTF8).run ["check"]).output false
    o.Reports false "untitled"
      ["error: " ++ "a.json" ++ ": " ++ (FormatError.invalidJson 1 .expectedName).message] 2 ∧
      o.ending = .exit 1 := by
  have hbad := cutOff_malformed (p := ⟨.working, ["a.json"]⟩) (by decide)
  have hgood := zeroTree_passes (p := ⟨.working, ["b.json"]⟩) (by decide)
  generalize cutOff.toUTF8 = first at hbad ⊢
  generalize zeroTree.toUTF8 = second at hgood ⊢
  have hfs := pairProject_distinct first second
  have hargs : Request.ofArguments ["check"] = .ok (.run .check false []) := rfl
  have hfind := pairProject_find first second
  obtain ⟨hsel, hsearch⟩ := (Files.trees_eq_ok_iff hfs (Files.distinct_of_find hfs hfind)).mp
    (pairProject_trees first second)
  have hharmless : ∀ f ∈ pairFiles first second, Machine.usual.Harmless f := by
    obtain ⟨tree, hread, -⟩ := hgood
    simp only [pairFiles, List.forall_mem_cons]
    exact ⟨harmless_of_readTree hbad, harmless_of_readTree hread, List.forall_mem_nil _⟩
  obtain ⟨texts, hfaults, -, hreports, hending⟩ :=
    (Files.run_check_persists hfs hargs (.inr ⟨rfl, rfl⟩) hfind (pairProject_config first second)
      rfl hsel hsearch false).1 (List.cons_ne_nil _ _) hharmless
  have hfails : ¬ Symbols.initial.Passes .usual (⟨.working, ["a.json"]⟩, .file first) := by
    rintro ⟨tree, hread, -⟩
    cases hbad.symm.trans hread
  have hfailing : (pairFiles first second).filter (fun f ↦ ¬ Symbols.initial.Passes .usual f) =
      [(⟨.working, ["a.json"]⟩, .file first)] := by
    simp [pairFiles, hgood, hfails]
  have hmachine : (pairProject first second).machine = .usual := rfl
  rw [hmachine, hfailing] at hfaults
  cases hfaults with
  | cons hfault hnone =>
    cases hnone
    cases hfault.eq_of_malformed hbad
    exact ⟨hreports, hending⟩

/-- A first file that ends the check is not reported, there is no summary, and the second file is
not looked at. -/
theorem pairProject_of_halts {first : ByteArray} {crash : Crash}
    (h : Machine.usual.Halts (⟨.working, ["a.json"]⟩, .file first) crash) (second : ByteArray) :
    ((pairProject first second).run ["check"]).output false =
      ⟨"checking untitled...\n", [], .crash crash⟩ := by
  have hargs : Request.ofArguments ["check"] = .ok (.run .check false []) := rfl
  have hp := Files.project_of_ok (pairProject_config first second) rfl false
  obtain ⟨texts, hfaults, hcheck⟩ := @Project.check_of_halts plainProject []
    [(⟨.working, ["b.json"]⟩, .file second)] (⟨.working, ["a.json"]⟩, .file first) crash
    (List.forall_mem_nil _) h
  cases hfaults
  rw [Files.run_eq_check hargs (.inr ⟨rfl, rfl⟩) (pairProject_find first second),
    Files.check_of_trees hp (pairProject_trees first second)]
  change (plainProject.check (pairFiles first second)).output false = _
  rw [pairFiles, ← List.nil_append (_ :: _), hcheck]
  rfl

/-- A file that is not UTF-8 ends the check, and the file after it, which would pass, is not looked
at. -/
theorem pairProject_halts :
    Symbols.initial.Passes .usual (⟨.working, ["b.json"]⟩, .file zeroTree.toUTF8) ∧
      ((pairProject ⟨#[0xff]⟩ zeroTree.toUTF8).run ["check"]).output false =
        ⟨"checking untitled...\n", [], .crash .notUtf8⟩ := by
  have hhalts : Machine.usual.Halts (⟨.working, ["a.json"]⟩, .file ⟨#[0xff]⟩) .notUtf8 :=
    .encoding (by decide) (by decide +kernel)
  exact ⟨zeroTree_passes (by decide), pairProject_of_halts hhalts _⟩

/-- A file of a thousand opening brackets or more, and as many closing ones, ends the check. -/
theorem pairProject_brackets_halt {first : ByteArray} {n : Nat}
    (h : Text.ofUtf8? first = some (Text.brackets (n + 1000))) (second : ByteArray) :
    ((pairProject first second).run ["check"]).output false =
      ⟨"checking untitled...\n", [], .crash .tooDeep⟩ :=
  pairProject_of_halts (Machine.usual_ordinary.brackets_halt (by decide) h) second

end TreeCheck
