import TreeCheck.Proofs.Checking

/-!
# A check is exact

The status of a check is 0 exactly if nothing is wrong with the project, and its output has one
complaint for each file with which something is wrong. A check can fail before it has looked at any
file, because the search for files fails. The directory of sources is looked up before anything
else, and if its path is too long for that, then the path that was given is never searched instead.
A search also fails on a directory whose path is too long, and on one that is nested deeper than the
machine bears.

Source: `SPEC_FULL.md`, sections 7 and 9.
-/

namespace TreeCheck

namespace Files

variable {fs : Files} {t : FileTree} {noColor : Bool}

/-- A file whose path is too long to be opened fails, and the complaint says so. -/
theorem faults_of_tooLong (s : Symbols) (m : Machine) (color : Bool) {f : Path × FileTree}
    (h : maxPathBytes < f.1.toText.byteLength) :
    ¬ s.Passes m f ∧
      s.Faults m color f ("error: " ++ f.1.toText ++ ": " ++ "cannot read " ++ f.1.toText ++ ": " ++
        "File name too long") := by
  have hread : readTree m f.1 f.2 = .ok (.error (.unreadable f.1.toText "File name too long")) := by
    rw [readTree.eq_def, if_pos h]
  refine ⟨?_, ?_⟩
  · rintro ⟨tree, hread', -⟩
    cases hread.symm.trans hread'
  · have hfaults : s.Faults m color f _ := .malformed hread
    simpa only [FormatError.message, List.append_assoc] using hfaults

/-- A check is exact. It ends with status 0 if and only if the settings can be read, the types they
declare can be set up, the files that the path stands for can be searched for, and all of them pass.

If a check does not crash and there are files, then it reports one complaint for every file that
does not pass, in the order of the files, each of them naming its file as it is printed. A file with
a path of more than 4095 bytes is one of those that do not pass. If the search fails, then nothing
is reported at all, although the path stands for files. It fails on a directory with a path of more
than 4095 bytes, on one that is nested deeper than the machine bears, and on a directory of sources
that cannot be looked up because a name or the path is too long. Files and directories that may not
be read are set aside: all files of `fs` can be. -/
theorem run_check_exact {args operands : List Text} {path : Text} (hfs : fs.root.Distinct)
    (hargs : Request.ofArguments args = .ok (.run .check noColor operands))
    (hpath : operands = [path] ∨ operands = [] ∧ path = Path.here) (hfind : fs.find path = .ok t)
    (terminal : Bool) :
    (((fs.run args).output terminal).ending.status = 0 ↔
      ∃ c s found, fs.config (.ofText path) = .ok c ∧ c.symbols = .ok s ∧
        fs.Selects (.ofText path) c.check.sources t found ∧
        fs.Walkable (.ofText path) c.check.sources t ∧
        ∀ f ∈ found, s.Passes fs.machine f) ∧
    (∀ c s found, fs.config (.ofText path) = .ok c → c.symbols = .ok s →
      fs.Selects (.ofText path) c.check.sources t found → found ≠ [] →
      (∀ crash, ((fs.run args).output terminal).ending ≠ .crash crash) →
      ∃ texts,
        List.Forall₂ (fun f text ↦
          s.Faults fs.machine (c.check.color && !noColor) f text ∧ f.1.toText <:+: text ∧
            Output.shownPath terminal f.1 <:+: Message.stderr terminal (.err text))
          (found.filter fun f ↦ ¬ s.Passes fs.machine f) texts ∧
        ((fs.run args).output terminal).Reports terminal c.package.name texts found.length) ∧
    (∀ c s found, fs.config (.ofText path) = .ok c → c.symbols = .ok s →
      fs.Selects (.ofText path) c.check.sources t found →
      ∀ f ∈ found, maxPathBytes < f.1.toText.byteLength →
        ¬ s.Passes fs.machine f ∧ s.Faults fs.machine (c.check.color && !noColor) f
          ("error: " ++ f.1.toText ++ ": " ++ "cannot read " ++ f.1.toText ++ ": " ++
            "File name too long")) ∧
    (∀ c s, fs.config (.ofText path) = .ok c → c.symbols = .ok s →
      ¬ fs.Walkable (.ofText path) c.check.sources t →
      ∃ fault : SearchFault, (fs.run args).output terminal = ⟨[], [], .crash fault.crash⟩) ∧
    ∀ c s, fs.config (.ofText path) = .ok c → c.symbols = .ok s → t.isDirectory →
      fs.find ((Path.ofText path).join (.ofText c.check.sources)).toText = .error .tooLong →
      (fs.run args).output terminal = ⟨[], [], .crash (.path .tooLong)⟩ := by
  have ht := distinct_of_find hfs hfind
  have hending : ((fs.run args).output terminal).ending = (fs.run args).ending := by
    rw [run_eq_check hargs hpath hfind, Run.output_eq terminal fun _ ↦ check_encodable]
  rw [hending, run_eq_check hargs hpath hfind]
  refine ⟨?_, ?_, ?_, ?_, ?_⟩
  · rw [check_status]
    simp only [trees_eq_ok_iff hfs ht, and_assoc]
  · intro c s found hc hs hsel hne hend
    have hp := project_of_ok hc hs noColor
    cases htrees : fs.trees (.ofText path) t c.check.sources with
    | error f =>
      rw [check_of_fault hp htrees] at hend
      exact absurd rfl (hend f.crash)
    | ok found' =>
      cases hsel.unique ((trees_eq_ok_iff hfs ht).mp htrees).1
      rw [check_of_trees hp htrees] at hend ⊢
      obtain ⟨texts, hfaults, hreports⟩ :=
        Project.check_reports (name_encodable_of_config hc) hne hend terminal
      exact ⟨texts, hfaults.imp fun f text h ↦ ⟨h, h.names terminal⟩, hreports⟩
  · intro c s found _ _ _ f _ hlong
    exact faults_of_tooLong s fs.machine _ hlong
  · intro c s hc hs hsearch
    obtain ⟨fault, htrees⟩ := trees_of_not_walkable hfs ht hsearch
    refine ⟨fault, ?_⟩
    rw [check_of_fault (project_of_ok hc hs noColor) htrees]
    rfl
  · intro c s hc hs hdir hlong
    rw [check_of_fault (project_of_ok hc hs noColor) (trees_of_tooLong hdir hlong)]
    rfl

end Files

/-! ### A project with a file that fails -/

/-- A directory of sources with a file, and with a directory that has the name of a file. -/
def mixedSources (bytes : ByteArray) : FileTree :=
  .put (.file bytes) ["src", "b.json"] (.put (.directory []) ["src", "a", "c.json"] (.directory []))

/-- A project of these sources, without settings. -/
def mixedProject (bytes : ByteArray) : Files := ⟨[("w", mixedSources bytes)], ["w"], .usual⟩

/-- A tree in a file: the number zero. -/
def zeroTree : String := "\x7b\"kind\":\"Literal\",\"value\":0\x7d"

private theorem mixedProject_distinct (bytes : ByteArray) : (mixedProject bytes).root.Distinct := by
  have hempty : (FileTree.directory []).Distinct := .directory List.nodup_nil nofun
  refine .directory (List.nodup_singleton _) ?_
  intro entry h
  rw [List.mem_singleton.mp h]
  exact .put (.file bytes) _ (.put hempty _ hempty)

/-- The tree of the number zero is not nested too deep. -/
theorem zeroTree_borne :
    Machine.usual.bearsTree (Text.ofString zeroTree).unifyLineEnds = true := by decide +kernel

/-- The tree of the number zero passes, wherever it stands. -/
theorem zeroTree_passes {p : Path} (hp : p.toText.byteLength ≤ Files.maxPathBytes) :
    Symbols.initial.Passes .usual (p, .file zeroTree.toUTF8) := by
  have h : ((Node.ofText (Text.ofString zeroTree).unifyLineEnds).toOption.any fun tree ↦
      (Symbols.initial.outcome tree).isOk) = true := by decide +kernel
  cases htree : Node.ofText (Text.ofString zeroTree).unifyLineEnds with
  | error e =>
    rw [htree] at h
    cases h
  | ok tree =>
    rw [htree] at h
    refine ⟨tree, ?_, ?_⟩
    · exact readTree_of_ok hp (Text.ofUtf8?_toUTF8 zeroTree) zeroTree_borne htree
    · cases ho : Symbols.initial.outcome tree with
      | ok table => exact ⟨table, rfl⟩
      | error e =>
        rw [Except.toOption, Option.any_some, ho] at h
        cases h

private theorem directory_fails (s : Symbols) (m : Machine) (p : Path)
    (entries : List (Text × FileTree)) : ¬ s.Passes m (p, .directory entries) := by
  rintro ⟨tree, hread, -⟩
  rw [readTree] at hread
  split at hread <;> cases hread

/-- A project without settings. -/
def plainProject : Project := ⟨.default, Symbols.initial, true, .usual⟩

/-- The check of a file that fails without a crash and a file that passes. -/
theorem Project.check_pair {project : Project} {f g : Path × FileTree} {v : Verdict}
    (hv : project.symbols.judgeFile project.machine f.1 f.2 = .ok v)
    (hf : ¬ project.symbols.Passes project.machine f)
    (hg : project.symbols.Passes project.machine g) :
    project.failing [f, g] = [f] ∧ ∀ c, (project.check [f, g]).ending ≠ .crash c := by
  obtain ⟨w, hw⟩ := Symbols.judgeFile_of_passes hg
  refine ⟨by simp [failing, hf, hg], fun c ↦ ?_⟩
  have hnone : (project.symbols.judgeFiles project.machine [f, g]).2 = none := by
    rw [Symbols.judgeFiles_cons hv, Symbols.judgeFiles_cons hw]
    rfl
  obtain ⟨texts, -, hcheck⟩ := check_of_end (List.cons_ne_nil f [g]) hnone
  rw [hcheck]
  intro h
  cases h

/-- The tree passes, and the directory, which comes first by the names on its path, fails. -/
theorem mixedProject_reports :
    ∃ text, ("src/a/c.json" : Text) <:+: text ∧
      (((mixedProject zeroTree.toUTF8).run ["check"]).output false).Reports false "untitled"
        [text] 2 := by
  have hpass := zeroTree_passes (p := ⟨.working, ["src", "b.json"]⟩) (by decide)
  generalize zeroTree.toUTF8 = bytes at hpass ⊢
  have hfs := mixedProject_distinct bytes
  have hargs : Request.ofArguments ["check"] = .ok (.run .check false []) := rfl
  have hfind : (mixedProject bytes).find Path.here = .ok (mixedSources bytes) := rfl
  have hc : (mixedProject bytes).config (.ofText Path.here) = .ok plainProject.config := rfl
  have hs : plainProject.config.symbols = .ok plainProject.symbols := rfl
  have htrees : (mixedProject bytes).trees (.ofText Path.here) (mixedSources bytes)
      plainProject.config.check.sources =
        .ok [(⟨.working, ["src", "a", "c.json"]⟩, .directory []),
          (⟨.working, ["src", "b.json"]⟩, .file bytes)] := by
    change Files.treesIn .usual ⟨.working, ["src"]⟩ (.directory
      [("a", .directory [("c.json", .directory [])]), ("b.json", .file bytes)]) = _
    exact Files.treesIn_of_pairwise
      [(["a", "c.json"], .directory []), (["b.json"], .file bytes)] rfl rfl
      (List.pairwise_pair.mpr rfl)
  have hsel := ((Files.trees_eq_ok_iff hfs (Files.distinct_of_find hfs hfind)).mp htrees).1
  obtain ⟨hfailing, hcrash⟩ := Project.check_pair rfl (directory_fails plainProject.symbols
    plainProject.machine ⟨.working, ["src", "a", "c.json"]⟩ []) hpass
  have hend (crash : Crash) :
      (((mixedProject bytes).run ["check"]).output false).ending ≠ .crash crash := by
    rw [Files.run_eq_check hargs (.inr ⟨rfl, rfl⟩) hfind,
      Run.output_eq false fun _ ↦ Files.check_encodable,
      Files.check_of_trees (Files.project_of_ok hc hs false) htrees]
    exact hcrash crash
  obtain ⟨texts, htexts, hreports⟩ :=
    (Files.run_check_exact hfs hargs (.inr ⟨rfl, rfl⟩) hfind false).2.1 plainProject.config
      plainProject.symbols _ hc hs hsel (List.cons_ne_nil _ _) hend
  have hmachine : (mixedProject bytes).machine = plainProject.machine := rfl
  rw [Project.failing] at hfailing
  rw [hmachine, hfailing] at htexts
  cases htexts with
  | cons htext hnone =>
    cases hnone
    exact ⟨_, htext.2.1, hreports⟩

/-! ### A directory of sources that cannot be looked up -/

/-- A name that is longer than any name can be. -/
def longName : Text := List.replicate 256 (.scalar 's')

/-- Settings that give the directory of sources this name. -/
def longSettings : List Char :=
  "[check]\nsources = '".toList ++ List.replicate 256 's' ++ "'\n".toList

/-- A directory that holds nothing but settings. -/
def bareDirectory (bytes : ByteArray) : FileTree := .directory [("plc.toml", .file bytes)]

/-- A project of this directory. -/
def bareProject (bytes : ByteArray) : Files := ⟨[("w", bareDirectory bytes)], ["w"], .usual⟩

private theorem longName_tooLong (bytes : ByteArray) :
    (bareProject bytes).find ((Path.ofText Path.here).join (.ofText longName)).toText =
      .error .tooLong := by
  have hpath : ((Path.ofText Path.here).join (.ofText longName)).toText = longName := by
    decide +kernel
  have hsplit : longName.split (.scalar '/') = [longName] := by decide +kernel
  have hstart : Anchor.ofText longName = .working := by decide +kernel
  have hfault : ¬ (longName = [] ∨ longName.pathFault?.isSome) := by decide +kernel
  have hshort : ¬ Files.maxPathBytes < longName.byteLength := by decide +kernel
  have hfollow : (bareProject bytes).follow ["w"] [longName] = .error .tooLong := by
    have hdir : (!((bareProject bytes).at? ["w"]).any FileTree.isDirectory) = false := rfl
    have hname : ¬ (longName = [] ∨ longName = Path.here) := by decide +kernel
    have habove : longName ≠ Path.above := by decide +kernel
    have hlong : Files.maxNameBytes < longName.byteLength := by decide +kernel
    rw [Files.follow, hdir, if_neg Bool.false_ne_true, if_neg hname, if_neg habove, if_pos hlong]
  rw [hpath, Files.find, Files.lookup, if_neg hfault, if_neg hshort, hsplit, hstart]
  change ((bareProject bytes).follow ["w"] [longName] >>= _) = _
  rw [hfollow]
  rfl

private theorem bareProject_config {settings : List Char} {c : Config}
    (hborne : Machine.usual.bearsSettings (settings.map .scalar) = true)
    (h : (Config.ofText "/w/plc.toml" (settings.map .scalar)).toOption = some c) :
    (bareProject (String.ofList settings).toUTF8).config (.ofText Path.here) = .ok c := by
  have hnearest (bytes : ByteArray) :
      (bareProject bytes).nearestConfig (.ofText Path.here) = .ok (some ["w", "plc.toml"]) := rfl
  have hlook (bytes : ByteArray) :
      (bareProject bytes).look ["w", "plc.toml"] = .ok (.file bytes) := rfl
  have hwritten : (Place.toPath ["w", "plc.toml"]).toText = "/w/plc.toml" := by decide +kernel
  rw [Files.config, hnearest]
  dsimp only
  rw [hlook]
  dsimp only
  rw [Text.ofUtf8?_toUTF8, hwritten, Text.ofString, String.toList_ofList]
  dsimp only
  rw [bareProject, if_pos hborne]
  cases hc : Config.ofText "/w/plc.toml" (settings.map .scalar) with
  | ok c' =>
    rw [hc] at h
    cases h
    rfl
  | error e =>
    rw [hc] at h
    cases h

private theorem bareProject_selects (bytes : ByteArray) :
    (bareProject bytes).Selects (.ofText Path.here) longName (bareDirectory bytes) [] := by
  have hnone : Files.treesIn .usual (.ofText Path.here) (bareDirectory bytes) = .ok [] :=
    Files.treesIn_of_pairwise [] rfl rfl .nil
  have hdistinct : (bareDirectory bytes).Distinct := by
    refine .directory (List.nodup_singleton _) ?_
    intro entry h
    rw [List.mem_singleton.mp h]
    exact .file bytes
  apply Files.Selects.fallback
  · intro inner h
    cases (longName_tooLong bytes).symm.trans h
  · exact ((Files.treesIn_eq_ok_iff hdistinct).mp hnone).2

/-- Nothing is wrong with this project, and no file is to be checked, but the check fails. -/
theorem longSources_fail :
    ∃ bytes c s, (bareProject bytes).config (.ofText Path.here) = .ok c ∧ c.symbols = .ok s ∧
      (bareProject bytes).Selects (.ofText Path.here) c.check.sources (bareDirectory bytes) [] ∧
      (((bareProject bytes).run ["check"]).output false).ending.status = 1 := by
  have hread : (Config.ofText "/w/plc.toml" (longSettings.map .scalar)).toOption =
      some ⟨⟨"untitled", "0.0.0"⟩, ⟨true, longName⟩, []⟩ := by decide +kernel
  have hc := bareProject_config (by decide +kernel) hread
  generalize (String.ofList longSettings).toUTF8 = bytes at hc
  refine ⟨bytes, _, _, hc, rfl, bareProject_selects bytes, ?_⟩
  have hargs : Request.ofArguments ["check"] = .ok (.run .check false []) := rfl
  have hfind : (bareProject bytes).find Path.here = .ok (bareDirectory bytes) := rfl
  rw [Files.run_eq_check hargs (.inr ⟨rfl, rfl⟩) hfind,
    Files.check_of_fault (Files.project_of_ok hc rfl false)
      (Files.trees_of_tooLong rfl (longName_tooLong bytes))]
  rfl

end TreeCheck
