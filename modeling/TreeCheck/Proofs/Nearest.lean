import Mathlib.Data.List.Induction
import TreeCheck.Proofs.Exactness
import TreeCheck.Proofs.Quoting

/-!
# The nearest settings

The search for settings climbs from a directory to the one above it until it finds an entry with
their name or stands at the root, which is the directory above itself. So it takes at most one round
for each name on the way, and what it finds is the deepest of the entries with this name.

The system refuses to look up a path or a name with too many bytes, and this ends a search. Where a
search starts at such a place, settings further up are not found.
-/

namespace TreeCheck

/-! ### Names and their bytes -/

namespace Text

variable {s t : Text}

private theorem bytes?_nil : bytes? [] = some [] := rfl

private theorem bytes?_cons (c : CodePoint) (t : Text) :
    bytes? (c :: t) = c.bytes?.bind fun b ↦ t.bytes?.map (b ++ ·) := by
  rw [bytes?, List.mapM_cons]
  cases c.bytes? with
  | none => rfl
  | some b =>
    rw [bytes?]
    cases t.mapM CodePoint.bytes? <;> rfl

private theorem bytes?_append (s t : Text) :
    bytes? (s ++ t) = s.bytes?.bind fun b ↦ t.bytes?.map (b ++ ·) := by
  induction s with
  | nil => cases h : t.bytes? <;> simp [bytes?_nil, h]
  | cons c s ih =>
    rw [List.cons_append, bytes?_cons, bytes?_cons, ih]
    cases c.bytes? <;> cases bytes? s <;> cases t.bytes? <;> simp

private theorem pathFault?_eq_none_iff :
    t.pathFault? = none ↔ t.bytes?.isSome ∧ CodePoint.scalar '\x00' ∉ t := by
  rw [pathFault?]
  cases t.bytes? <;> simp

private theorem pathFault?_append :
    pathFault? (s ++ t) = none ↔ s.pathFault? = none ∧ t.pathFault? = none := by
  simp only [pathFault?_eq_none_iff, bytes?_append, List.mem_append]
  cases s.bytes? <;> cases t.bytes? <;> simp

private theorem byteLength_append (h : pathFault? (s ++ t) = none) :
    byteLength (s ++ t) = s.byteLength + t.byteLength := by
  rw [pathFault?_eq_none_iff, bytes?_append] at h
  simp only [byteLength, bytes?_append]
  cases hs : s.bytes? <;> cases ht : t.bytes? <;> simp [hs, ht] at h ⊢

/-- A text that can be the name of an entry. -/
structure IsName (t : Text) : Prop where
  ne_nil : t ≠ []
  ne_here : t ≠ Path.here
  ne_above : t ≠ Path.above
  fault : t.pathFault? = none

private theorem IsName.configName : IsName Files.configName where
  ne_nil := by decide
  ne_here := by decide
  ne_above := by decide
  fault := by decide

end Text

namespace Place

variable {place : Place}

private theorem toText_toPath (h : place ≠ []) :
    (toPath place).toText = place.flatMap (("/" : Text) ++ ·) := by
  cases place with
  | nil => exact absurd rfl h
  | cons name names =>
    change ("/" : Text) ++ Text.join "/" (name :: names) = _
    rw [Text.join_cons, List.flatMap_cons, List.append_assoc]

private theorem pathFault?_flatMap (h : ∀ name ∈ place, Text.IsName name) :
    Text.pathFault? (place.flatMap (("/" : Text) ++ ·)) = none := by
  induction place with
  | nil => rfl
  | cons name names ih =>
    obtain ⟨hname, hnames⟩ := List.forall_mem_cons.mp h
    rw [List.flatMap_cons, Text.pathFault?_append, Text.pathFault?_append]
    exact ⟨⟨rfl, hname.fault⟩, ih hnames⟩

private theorem pathFault?_toText (h : ∀ name ∈ place, Text.IsName name) :
    (toPath place).toText.pathFault? = none := by
  by_cases hplace : place = []
  · rw [hplace]
    rfl
  · rw [toText_toPath hplace]
    exact pathFault?_flatMap h

/-- Leaving out the names before the last makes a path no longer. -/
theorem byteLength_le {above : Place} {name : Text} (habove : above <+: place)
    (h : ∀ name ∈ place, Text.IsName name) (hname : name.IsName) :
    (toPath (above ++ [name])).toText.byteLength ≤
      (toPath (place ++ [name])).toText.byteLength := by
  obtain ⟨rest, rfl⟩ := habove
  obtain ⟨hup, hrest⟩ := List.forall_mem_append.mp h
  have hlast : Text.pathFault? (("/" : Text) ++ name) = none :=
    Text.pathFault?_append.mpr ⟨rfl, hname.fault⟩
  have hup := pathFault?_flatMap hup
  have hrest := pathFault?_flatMap hrest
  rw [toText_toPath (by simp), toText_toPath (by simp), List.flatMap_append, List.flatMap_append,
    List.flatMap_append, List.flatMap_singleton,
    Text.byteLength_append (Text.pathFault?_append.mpr ⟨hup, hlast⟩), List.append_assoc,
    Text.byteLength_append (Text.pathFault?_append.mpr
      ⟨hup, Text.pathFault?_append.mpr ⟨hrest, hlast⟩⟩),
    Text.byteLength_append (Text.pathFault?_append.mpr ⟨hrest, hlast⟩)]
  omega

end Place

/-! ### Looking up a place -/

private theorem FileTree.at?_append (t : FileTree) (place rest : Place) :
    t.at? (place ++ rest) = (t.at? place).bind fun u ↦ u.at? rest := by
  induction place generalizing t with
  | nil => rfl
  | cons name names ih =>
    rw [List.cons_append, FileTree.at?, FileTree.at?]
    cases t.child? name with
    | none => rfl
    | some child => exact ih child

namespace Files

variable {fs : Files}

/-- What stands at a place, whose names may be spelled in any way. -/
def entry? (fs : Files) (place : Place) : Option FileTree := fs.at? (place.map Text.canonical)

/-- Looking up the names one after another from a directory meets a name that is too long. -/
def MeetsLongName (fs : Files) (directory : Place) (names : List Text) : Prop :=
  ∃ before name after, names = before ++ name :: after ∧
    (fs.at? (directory ++ before.map Text.canonical)).any FileTree.isDirectory ∧
    maxNameBytes < name.byteLength

/-- The system refuses to look up a place: the path to it has too many bytes, or a name on it that
is looked up in a directory. -/
def Overlong (fs : Files) (place : Place) : Prop :=
  maxPathBytes < (Place.toPath place).toText.byteLength ∨ fs.MeetsLongName [] place

private theorem at?_append_cons {place rest : Place} {name : Text}
    (h : ¬ (fs.at? place).any FileTree.isDirectory) : fs.at? (place ++ name :: rest) = none := by
  rw [at?, FileTree.at?_append]
  rw [at?] at h
  cases ht : fs.root.at? place with
  | none => rfl
  | some t =>
    cases t with
    | file bytes => rfl
    | directory entries =>
      rw [ht] at h
      exact absurd rfl h

private theorem at?_isSome_of_append {place rest : Place} (h : (fs.at? (place ++ rest)).isSome) :
    (fs.at? place).isSome := by
  rw [at?, FileTree.at?_append] at h
  exact Option.isSome_of_isSome_bind h

private theorem meetsLongName_cons {directory : Place} {name : Text} {names : List Text} :
    fs.MeetsLongName directory (name :: names) ↔
      (fs.at? directory).any FileTree.isDirectory ∧ maxNameBytes < name.byteLength ∨
        fs.MeetsLongName (directory ++ [name.canonical]) names := by
  constructor
  · rintro ⟨before, long, after, heq, hdir, hlong⟩
    cases before with
    | nil =>
      obtain ⟨rfl, rfl⟩ := List.cons.inj heq
      rw [List.map_nil, List.append_nil] at hdir
      exact .inl ⟨hdir, hlong⟩
    | cons first before =>
      obtain ⟨rfl, rfl⟩ := List.cons.inj heq
      rw [List.map_cons, List.append_cons] at hdir
      exact .inr ⟨before, long, after, rfl, hdir, hlong⟩
  · rintro (⟨hdir, hlong⟩ | ⟨before, long, after, rfl, hdir, hlong⟩)
    · exact ⟨[], name, names, rfl, by rwa [List.map_nil, List.append_nil], hlong⟩
    · refine ⟨name :: before, long, after, rfl, ?_, hlong⟩
      rwa [List.map_cons, List.append_cons]

/-- Following a name that can stand in a directory. -/
theorem follow_cons {directory : Place} {name : Text} (hname : name.IsName) (names : List Text) :
    fs.follow directory (name :: names) =
      if !(fs.at? directory).any FileTree.isDirectory then .error .notFound
      else if maxNameBytes < name.byteLength then .error .tooLong
      else if (fs.at? (directory ++ [name.canonical])).isSome then
        fs.follow (directory ++ [name.canonical]) names
      else .error .notFound := by
  rw [follow, if_neg (not_or.mpr ⟨hname.ne_nil, hname.ne_here⟩), if_neg hname.ne_above]

private theorem follow_of_long {directory : Place} {names : List Text}
    (hnames : ∀ name ∈ names, Text.IsName name) (h : fs.MeetsLongName directory names) :
    fs.follow directory names = .error .tooLong := by
  induction names generalizing directory with
  | nil =>
    obtain ⟨before, name, after, heq, -⟩ := h
    simp at heq
  | cons name names ih =>
    obtain ⟨hname, hnames⟩ := List.forall_mem_cons.mp hnames
    rw [follow_cons hname]
    rcases meetsLongName_cons.mp h with ⟨hdir, hlong⟩ | hrest
    · rw [hdir, if_neg (by simp), if_pos hlong]
    · -- There is a directory further down, so nothing on the way to it is missing.
      obtain ⟨before, -, -, -, hbelow, -⟩ := id hrest
      have hsome : (fs.at? (directory ++ [name.canonical])).isSome :=
        at?_isSome_of_append (Option.isSome_of_any hbelow)
      have hdir : (fs.at? directory).any FileTree.isDirectory := by
        by_contra hno
        rw [at?_append_cons hno] at hsome
        cases hsome
      rw [hdir, if_neg (by simp), if_pos hsome, ih hnames hrest]
      split <;> rfl

/-- Names that are not too long lead to their place if something stands there. -/
theorem follow_of_not_long {directory : Place} {names : List Text}
    (hnames : ∀ name ∈ names, Text.IsName name) (h : ¬ fs.MeetsLongName directory names) :
    fs.follow directory names = .ok (directory ++ names.map Text.canonical) ∨
      fs.follow directory names = .error .notFound ∧
        fs.at? (directory ++ names.map Text.canonical) = none := by
  induction names generalizing directory with
  | nil => exact .inl (by rw [follow, List.map_nil, List.append_nil])
  | cons name names ih =>
    obtain ⟨hname, hnames⟩ := List.forall_mem_cons.mp hnames
    rw [meetsLongName_cons, not_or] at h
    rw [follow_cons hname, List.map_cons]
    by_cases hdir : (fs.at? directory).any FileTree.isDirectory
    · have hshort : ¬ maxNameBytes < name.byteLength := fun hlong ↦ h.1 ⟨hdir, hlong⟩
      rw [hdir, if_neg (by simp), if_neg hshort,
        List.append_cons directory name.canonical (names.map Text.canonical)]
      by_cases hsome : (fs.at? (directory ++ [name.canonical])).isSome
      · rw [if_pos hsome]
        exact ih hnames h.2
      · rw [if_neg hsome]
        refine .inr ⟨rfl, ?_⟩
        by_contra hbelow
        exact hsome (at?_isSome_of_append (Option.isSome_iff_ne_none.mpr hbelow))
    · rw [if_pos (by simpa using hdir)]
      exact .inr ⟨rfl, at?_append_cons hdir⟩

private theorem look_eq {place : Place} (hnames : ∀ name ∈ place, Text.IsName name) :
    fs.look place =
      if maxPathBytes < (Place.toPath place).toText.byteLength then .error .tooLong
      else (fs.follow [] place).bind fun found ↦ (fs.at? found).elim (.error .notFound) .ok := by
  have hwritten : ¬ ((Place.toPath place).toText = [] ∨
      (Place.toPath place).toText.pathFault?.isSome) := by
    rw [Place.pathFault?_toText hnames]
    exact not_or.mpr ⟨List.cons_ne_nil _ _, Bool.false_ne_true⟩
  rw [look, lookup, if_neg hwritten]
  split
  · rfl
  · cases fs.follow [] place with
    | error e => rfl
    | ok found =>
      cases hat : fs.at? found <;> simp only [bind, Except.bind, hat] <;> rfl

private theorem look_of_overlong {place : Place} (hnames : ∀ name ∈ place, Text.IsName name)
    (h : fs.Overlong place) : fs.look place = .error .tooLong := by
  rw [look_eq hnames]
  split
  · rfl
  · next hshort =>
    rw [follow_of_long hnames (h.resolve_left hshort)]
    rfl

private theorem look_of_not_overlong {place : Place} (hnames : ∀ name ∈ place, Text.IsName name)
    (h : ¬ fs.Overlong place) :
    fs.look place = (fs.entry? place).elim (.error .notFound) .ok := by
  obtain ⟨hshort, hmeets⟩ := not_or.mp h
  rw [look_eq hnames, if_neg hshort]
  rcases follow_of_not_long hnames hmeets with hfollow | ⟨hfollow, hnone⟩
  · rw [hfollow]
    rfl
  · rw [List.nil_append] at hnone
    rw [hfollow, entry?, hnone]
    rfl

/-! ### Where a search starts -/

private theorem isName_of_mem_foldl_step {parts : List Text} {place : Place}
    (hplace : ∀ name ∈ place, Text.IsName name)
    (hparts : ∀ part ∈ parts, part ≠ Path.above → Text.IsName part) :
    ∀ name ∈ parts.foldl step place, Text.IsName name := by
  induction parts generalizing place with
  | nil => exact hplace
  | cons part parts ih =>
    obtain ⟨hpart, hparts⟩ := List.forall_mem_cons.mp hparts
    apply ih _ hparts
    unfold step
    split
    · intro name hname
      exact hplace name (List.dropLast_subset place hname)
    · next hne =>
      exact List.forall_mem_append.mpr ⟨hplace, List.forall_mem_singleton.mpr (hpart hne)⟩

/-- The place that a path names is reached by names only. -/
theorem isName_of_mem_resolve {start : Text} (hworking : ∀ name ∈ fs.working, Text.IsName name)
    (hfault : (Path.ofText start).fault? = none) :
    ∀ name ∈ fs.resolve (.ofText start), Text.IsName name := by
  apply isName_of_mem_foldl_step
  · unfold Files.start
    split
    · exact hworking
    · exact List.forall_mem_nil _
  · intro part hpart hne
    have hno := List.findSome?_eq_none_iff.mp hfault part hpart
    simp only [Path.ofText, List.mem_filter, decide_eq_true_eq] at hpart
    exact ⟨hpart.2.1, hpart.2.2, hne, hno⟩

/-- The place that a path names is the one to which following it leads, if it leads anywhere. -/
theorem follow_eq_resolve {parts : List Text} {place found : Place}
    (h : fs.follow (place.map Text.canonical) parts = .ok found) :
    found = ((parts.filter fun part ↦ part ≠ [] ∧ part ≠ Path.here).foldl step place).map
      Text.canonical := by
  induction parts generalizing place with
  | nil =>
    cases h
    rfl
  | cons part parts ih =>
    rw [follow] at h
    split at h
    · cases h
    split at h
    · next hskip =>
      rw [List.filter_cons_of_neg (by simpa [or_iff_not_imp_left] using hskip)]
      exact ih h
    next hname =>
    rw [List.filter_cons_of_pos (by simpa using hname), List.foldl_cons, step]
    split at h
    · next habove =>
      rw [if_pos habove]
      rw [← List.map_dropLast] at h
      exact ih h
    next habove =>
    rw [if_neg habove]
    split at h
    · cases h
    split at h
    · apply ih
      rwa [List.map_append, List.map_singleton]
    · cases h

/-- The directory where the search for settings starts: the place that the path names, or the one
above it if a file stands there. -/
def searchDirectory (fs : Files) (p : Path) : Place :=
  if (fs.entry? (fs.resolve p)).any FileTree.isFile then (fs.resolve p).dropLast else fs.resolve p

/-! ### Climbing -/

/-- Climbing from a directory ends with a result after so many rounds. -/
inductive Climbs (fs : Files) : Place → Nat → Except PathFault (Option Place) → Prop
  /-- There is an entry with the name of settings. -/
  | found {directory : Place} {t : FileTree} (h : fs.look (directory ++ [configName]) = .ok t) :
      Climbs fs directory 1 (.ok (some (directory ++ [configName])))
  /-- The path to it is not taken by the system. -/
  | refused {directory : Place} (h : fs.look (directory ++ [configName]) = .error .tooLong) :
      Climbs fs directory 1 (.error .tooLong)
  /-- There is none, and this is the root, the directory above itself. -/
  | exhausted {directory : Place} (h : fs.look (directory ++ [configName]) = .error .notFound)
      (root : directory.dropLast = directory) : Climbs fs directory 1 (.ok none)
  /-- There is none, and the search goes on in the directory above. -/
  | up {directory : Place} {rounds : Nat} {result : Except PathFault (Option Place)}
      (h : fs.look (directory ++ [configName]) = .error .notFound)
      (above : directory.dropLast ≠ directory) (rest : Climbs fs directory.dropLast rounds result) :
      Climbs fs directory (rounds + 1) result

private theorem upward_nil : Place.upward [] = [[]] := rfl

private theorem upward_concat (place : Place) (name : Text) :
    Place.upward (place ++ [name]) = (place ++ [name]) :: place.upward := by
  simp only [Place.upward, List.length_append, List.length_singleton]
  rw [List.range_succ_eq_map, List.map_cons, List.map_map, Nat.sub_zero,
    List.take_of_length_le (by simp)]
  congr 1
  apply List.map_congr_left
  intro n _
  have hle : place.length + 1 - (n + 1) ≤ place.length := by omega
  simp only [Function.comp_apply, Nat.succ_eq_add_one, List.take_append_of_le_length hle]
  congr 1
  omega

private theorem upward_eq_cons (place : Place) : ∃ rest, place.upward = place :: rest := by
  rcases List.eq_nil_or_concat' place with rfl | ⟨place, name, rfl⟩
  · exact ⟨[], upward_nil⟩
  · exact ⟨_, upward_concat place name⟩

/-- Climbing ends, at the latest when all names are used up. -/
theorem climbs_firstConfig (fs : Files) (directory : Place) :
    ∃ rounds ≤ directory.length + 1,
      fs.Climbs directory rounds (fs.firstConfig directory.upward) := by
  induction directory using List.reverseRecOn with
  | nil =>
    refine ⟨1, Nat.le_refl 1, ?_⟩
    rw [upward_nil, firstConfig]
    split
    · next h => exact .found h
    · next h => exact .exhausted h rfl
    · next h => exact .refused h
  | append_singleton directory name ih =>
    obtain ⟨rounds, hrounds, hclimbs⟩ := ih
    rw [upward_concat, firstConfig]
    split
    · next h => exact ⟨1, by omega, .found h⟩
    · next h =>
      refine ⟨rounds + 1, by simpa using hrounds, .up h ?_ ?_⟩
      · rw [List.dropLast_concat]
        exact fun heq ↦ List.cons_ne_nil name [] (List.self_eq_append_right.mp heq)
      · rwa [List.dropLast_concat]
    · next h => exact ⟨1, by omega, .refused h⟩

/-! ### What is found -/

/-- A directory has an entry with the name of settings. -/
def HasConfig (fs : Files) (directory : Place) : Prop :=
  (fs.entry? (directory ++ [configName])).isSome
deriving Decidable

/-- The deepest of a directory and those above it that has settings. -/
structure Deepest (fs : Files) (directory deepest : Place) : Prop where
  above : deepest <+: directory
  hasConfig : fs.HasConfig deepest
  depth_le {other : Place} (above : other <+: directory) (hasConfig : fs.HasConfig other) :
    other.length ≤ deepest.length

private theorem Deepest.unique {directory deepest deepest' : Place}
    (h : fs.Deepest directory deepest)
    (h' : fs.Deepest directory deepest') : deepest = deepest' := by
  have hlength : deepest.length = deepest'.length :=
    Nat.le_antisymm (h'.depth_le h.above h.hasConfig) (h.depth_le h'.above h'.hasConfig)
  exact (List.prefix_of_prefix_length_le h.above h'.above hlength.le).eq_of_length hlength

private theorem prefix_cases {above directory : Place} (h : above <+: directory) :
    above = directory ∨ above <+: directory.dropLast := by
  rcases List.eq_nil_or_concat' directory with rfl | ⟨directory, name, rfl⟩
  · exact .inl (List.prefix_nil.mp h)
  · rw [List.dropLast_concat]
    exact List.prefix_concat_iff.mp h

private theorem Deepest.of_above (directory : Place) (name : Text) (h : fs.HasConfig directory)
    (hnone : ¬ fs.HasConfig (directory ++ [name])) :
    fs.Deepest (directory ++ [name]) directory := by
  refine ⟨List.prefix_append _ _, h, fun {other} hother hconfig ↦ ?_⟩
  rcases List.prefix_concat_iff.mp hother with rfl | hother
  · exact absurd hconfig hnone
  · exact hother.length_le

/-- Where the system takes the path to settings, looking them up tells whether there are any. -/
theorem look_config_cases {directory : Place}
    (h : fs.look (directory ++ [configName]) =
      (fs.entry? (directory ++ [configName])).elim (.error .notFound) .ok) :
    (∃ t, fs.look (directory ++ [configName]) = .ok t) ∧ fs.HasConfig directory ∨
      fs.look (directory ++ [configName]) = .error .notFound ∧ ¬ fs.HasConfig directory := by
  rw [h, HasConfig]
  cases fs.entry? (directory ++ [configName]) with
  | none => exact .inr ⟨rfl, Bool.false_ne_true⟩
  | some t => exact .inl ⟨⟨t, rfl⟩, rfl⟩

/-- Where the system takes all paths, climbing finds the deepest settings, or there are none. -/
theorem Climbs.nearest {directory : Place} {rounds : Nat}
    {result : Except PathFault (Option Place)} (h : fs.Climbs directory rounds result)
    (hlook : ∀ above, above <+: directory → fs.look (above ++ [configName]) =
      (fs.entry? (above ++ [configName])).elim (.error .notFound) .ok) :
    (∃ deepest, fs.Deepest directory deepest ∧ result = .ok (some (deepest ++ [configName]))) ∨
      (∀ above, above <+: directory → ¬ fs.HasConfig above) ∧ result = .ok none := by
  -- A directory without settings leaves what is found above it, and nothing deeper is left out.
  induction h with
  | @found directory t h =>
    rcases look_config_cases (hlook directory (List.prefix_refl _)) with ⟨-, hsome⟩ | ⟨hno, -⟩
    · exact .inl ⟨directory, ⟨List.prefix_refl _, hsome, fun above _ ↦ above.length_le⟩, rfl⟩
    · cases hno.symm.trans h
  | @refused directory h =>
    rcases look_config_cases (hlook directory (List.prefix_refl _)) with ⟨⟨t, ht⟩, -⟩ | ⟨hno, -⟩
    · cases ht.symm.trans h
    · cases hno.symm.trans h
  | @exhausted directory h root =>
    rcases look_config_cases (hlook directory (List.prefix_refl _)) with ⟨⟨t, ht⟩, -⟩ | ⟨-, hnone⟩
    · cases ht.symm.trans h
    refine .inr ⟨fun above habove ↦ ?_, rfl⟩
    rcases List.eq_nil_or_concat' directory with rfl | ⟨directory, name, rfl⟩
    · rwa [List.prefix_nil.mp habove]
    · simp at root
  | @up directory rounds result h _ _ ih =>
    rcases look_config_cases (hlook directory (List.prefix_refl _)) with ⟨⟨t, ht⟩, -⟩ | ⟨-, hnone⟩
    · cases ht.symm.trans h
    have hup {above : Place} (habove : above <+: directory.dropLast) : above <+: directory :=
      habove.trans (List.dropLast_prefix directory)
    rcases ih fun above habove ↦ hlook above (hup habove) with
      ⟨deepest, hdeepest, hresult⟩ | ⟨hall, hresult⟩
    · refine .inl ⟨deepest, ⟨hup hdeepest.above, hdeepest.hasConfig, ?_⟩, hresult⟩
      intro other hother hconfig
      rcases prefix_cases hother with rfl | hother
      · exact absurd hconfig hnone
      · exact hdeepest.depth_le hother hconfig
    · refine .inr ⟨fun above habove ↦ ?_, hresult⟩
      rcases prefix_cases habove with rfl | habove
      · exact hnone
      · exact hall above habove

/-- If the path to settings in a directory is taken, so are the paths to settings above it. -/
theorem not_overlong_above {directory above : Place}
    (hnames : ∀ name ∈ directory, Text.IsName name) (habove : above <+: directory)
    (h : ¬ fs.Overlong (directory ++ [configName])) : ¬ fs.Overlong (above ++ [configName]) := by
  rintro (hlong | ⟨before, name, after, heq, hdir, hlong⟩)
  -- The name of settings is short, so a name that is too long is one of the directory.
  · exact h (.inl (hlong.trans_le (Place.byteLength_le habove hnames Text.IsName.configName)))
  · rcases List.eq_nil_or_concat' after with rfl | ⟨after, last, rfl⟩
    · obtain ⟨-, hname⟩ := List.append_inj' heq rfl
      rw [← List.singleton_inj.mp hname] at hlong
      exact absurd hlong (by decide)
    · rw [← List.cons_append, ← List.append_assoc] at heq
      obtain ⟨rfl, -⟩ := List.append_inj' heq rfl
      obtain ⟨rest, rfl⟩ := habove
      exact h (.inr ⟨before, name, after ++ rest ++ [configName], by simp, hdir, hlong⟩)

private theorem searchStart_eq {p : Path} (hnames : ∀ name ∈ fs.resolve p, Text.IsName name)
    (h : ¬ fs.Overlong (fs.resolve p)) : fs.searchStart p = .ok (fs.searchDirectory p) := by
  rw [searchStart, searchDirectory, look_of_not_overlong hnames h]
  cases fs.entry? (fs.resolve p) <;> rfl

private theorem searchDirectory_prefix (fs : Files) (p : Path) :
    fs.searchDirectory p <+: fs.resolve p := by
  rw [searchDirectory]
  split
  · exact List.dropLast_prefix _
  · exact List.prefix_refl _

/-- The system takes the paths that a search from a start looks up. -/
structure Searchable (fs : Files) (p : Path) : Prop where
  fault : p.fault? = none
  start : ¬ fs.Overlong (fs.resolve p)
  config : ¬ fs.Overlong (fs.searchDirectory p ++ [configName])

private theorem nearestConfig_of_searchable {p : Path}
    (hnames : ∀ name ∈ fs.resolve p, Text.IsName name) (h : fs.Searchable p) :
    fs.nearestConfig p = fs.firstConfig (fs.searchDirectory p).upward := by
  rw [nearestConfig, h.fault]
  change (fs.searchStart p >>= fun directory ↦ fs.firstConfig directory.upward) = _
  rw [searchStart_eq hnames h.start]
  rfl

/-- A search whose paths are not all taken ends with a fault. -/
theorem nearestConfig_of_not_searchable {p : Path}
    (hnames : p.fault? = none → ∀ name ∈ fs.resolve p, Text.IsName name)
    (h : ¬ fs.Searchable p) : fs.nearestConfig p = .error (p.fault?.getD .tooLong) := by
  rw [nearestConfig]
  cases hfault : p.fault? with
  | some f => rfl
  | none =>
    have hnames := hnames hfault
    change (fs.searchStart p >>= fun directory ↦ fs.firstConfig directory.upward) = _
    by_cases hstart : fs.Overlong (fs.resolve p)
    · rw [searchStart, look_of_overlong hnames hstart]
      rfl
    · have hconfig : fs.Overlong (fs.searchDirectory p ++ [configName]) := by
        by_contra hshort
        exact h ⟨hfault, hstart, hshort⟩
      have hconfigNames : ∀ name ∈ fs.searchDirectory p ++ [configName], Text.IsName name :=
        List.forall_mem_append.mpr ⟨fun name hname ↦
          hnames name ((fs.searchDirectory_prefix p).subset hname),
          List.forall_mem_singleton.mpr Text.IsName.configName⟩
      obtain ⟨rest, hrest⟩ := upward_eq_cons (fs.searchDirectory p)
      rw [searchStart_eq hnames hstart]
      change fs.firstConfig (fs.searchDirectory p).upward = _
      rw [hrest, firstConfig, look_of_overlong hconfigNames hconfig]
      rfl

/-- Every search ends. If the system takes its paths, then climbing from the directory where it
starts comes to an end after at most one round for each name and one for the root. What comes out is
the place of the settings in the deepest directory that has any, and nothing exactly if there is no
such directory. Otherwise the search ends with the fault of the path that is not taken.

The place where a search starts is the one to which its path leads, if it leads anywhere. -/
theorem nearestConfig_is_deepest
    (hworking : ∀ name ∈ fs.working, Text.IsName name ∧ name.canonical = name) (start : Text)
    {p : Path} (hp : Path.ofText start = p) :
    (fs.Searchable p →
      (∃ rounds ≤ (fs.searchDirectory p).length + 1,
        fs.Climbs (fs.searchDirectory p) rounds (fs.nearestConfig p)) ∧
      (∀ found, fs.nearestConfig p = .ok (some found) ↔
        ∃ deepest, fs.Deepest (fs.searchDirectory p) deepest ∧ found = deepest ++ [configName]) ∧
      (fs.nearestConfig p = .ok none ↔
        ∀ above, above <+: fs.searchDirectory p → ¬ fs.HasConfig above) ∧
      ∀ f, fs.nearestConfig p ≠ .error f) ∧
    (¬ fs.Searchable p → fs.nearestConfig p = .error (p.fault?.getD .tooLong)) ∧
    ∀ place, fs.follow (fs.start p.anchor) (start.split (.scalar '/')) = .ok place →
      place = (fs.resolve p).map Text.canonical := by
  subst hp
  have hnames : (Path.ofText start).fault? = none →
      ∀ name ∈ fs.resolve (.ofText start), Text.IsName name :=
    isName_of_mem_resolve fun name hname ↦ (hworking name hname).1
  refine ⟨fun h ↦ ?_, nearestConfig_of_not_searchable hnames, fun place hplace ↦ ?_⟩
  · have hnames := hnames h.fault
    have hdirectory : ∀ name ∈ fs.searchDirectory (.ofText start), Text.IsName name :=
      fun name hname ↦ hnames name ((fs.searchDirectory_prefix _).subset hname)
    have hlook (above : Place) (habove : above <+: fs.searchDirectory (.ofText start)) :
        fs.look (above ++ [configName]) =
          (fs.entry? (above ++ [configName])).elim (.error .notFound) .ok := by
      apply look_of_not_overlong
      · exact List.forall_mem_append.mpr ⟨fun name hname ↦ hdirectory name (habove.subset hname),
          List.forall_mem_singleton.mpr Text.IsName.configName⟩
      · exact not_overlong_above hdirectory habove h.config
    rw [nearestConfig_of_searchable hnames h]
    obtain ⟨rounds, hrounds, hclimbs⟩ := climbs_firstConfig fs (fs.searchDirectory (.ofText start))
    refine ⟨⟨rounds, hrounds, hclimbs⟩, ?_⟩
    rcases hclimbs.nearest hlook with ⟨deepest, hdeepest, hresult⟩ | ⟨hnone, hresult⟩
    · rw [hresult]
      refine ⟨fun found ↦ ⟨fun heq ↦ ?_, ?_⟩, ⟨nofun, fun hnone ↦ ?_⟩, nofun⟩
      · cases heq
        exact ⟨deepest, hdeepest, rfl⟩
      · rintro ⟨other, hother, rfl⟩
        rw [hdeepest.unique hother]
      · exact absurd hdeepest.hasConfig (hnone deepest hdeepest.above)
    · rw [hresult]
      refine ⟨fun found ↦ ⟨nofun, ?_⟩, ⟨fun _ ↦ hnone, fun _ ↦ rfl⟩, nofun⟩
      rintro ⟨deepest, hdeepest, -⟩
      exact absurd hdeepest.hasConfig (hnone deepest hdeepest.above)
  · apply follow_eq_resolve
    have hstart : (fs.start (Path.ofText start).anchor).map Text.canonical =
        fs.start (Path.ofText start).anchor := by
      unfold Files.start
      split
      · exact (List.map_congr_left fun name hname ↦ (hworking name hname).2).trans (List.map_id _)
      · rfl
    rwa [hstart]

private theorem not_overlong_of_short {place : Place}
    (hpath : (Place.toPath place).toText.byteLength ≤ maxPathBytes)
    (hnames : ∀ name ∈ place, Text.byteLength name ≤ maxNameBytes) : ¬ fs.Overlong place := by
  rintro (hlong | ⟨before, name, after, rfl, -, hlong⟩)
  · omega
  · have := hnames name (by simp)
    omega

end Files

/-! ### Settings within settings -/

/-- A project with settings, and a part of it with settings of its own. -/
def nestedProject : Files :=
  ⟨[("w", .directory [("plc.toml", .file .empty),
      ("a", .directory [("plc.toml", .file .empty),
        ("b", .directory [("x.json", .file .empty)])])])], ["w"], .usual⟩

private theorem isName_working :
    ∀ name ∈ (["w"] : Place), Text.IsName name ∧ name.canonical = name := by
  refine List.forall_mem_singleton.mpr ⟨⟨?_, ?_, ?_, ?_⟩, ?_⟩ <;> decide

/-- A start below the part finds the settings of the part. -/
theorem nestedProject_deepest :
    nestedProject.Searchable (.ofText "a/../a/./b/x.json") ∧
      nestedProject.Deepest ["w", "a", "b"] ["w", "a"] ∧
      nestedProject.nearestConfig (.ofText "a/../a/./b/x.json") =
        .ok (some ["w", "a", "plc.toml"]) := by
  have hplace : nestedProject.resolve (.ofText "a/../a/./b/x.json") =
      (["w", "a", "b", "x.json"] : Place) := by decide +kernel
  have hdirectory : nestedProject.searchDirectory (.ofText "a/../a/./b/x.json") =
      (["w", "a", "b"] : Place) := rfl
  have hsearchable : nestedProject.Searchable (.ofText "a/../a/./b/x.json") := by
    refine ⟨by decide +kernel, ?_, ?_⟩
    · rw [hplace]
      exact Files.not_overlong_of_short (by decide +kernel) (by decide +kernel)
    · rw [hdirectory]
      exact Files.not_overlong_of_short (by decide +kernel) (by decide +kernel)
  have hdeepest : nestedProject.Deepest ["w", "a", "b"] ["w", "a"] :=
    Files.Deepest.of_above ["w", "a"] "b" rfl (by decide +kernel)
  refine ⟨hsearchable, hdeepest, ?_⟩
  rw [← hdirectory] at hdeepest
  exact (((Files.nearestConfig_is_deepest isName_working _ rfl).1 hsearchable).2.1 _).mpr
    ⟨_, hdeepest, rfl⟩

/-! ### A start that cannot be looked up -/

/-- The settings stand in the directory above this start, but the search for them fails. -/
theorem longStart_fails :
    (bareProject .empty).Deepest ((bareProject .empty).searchDirectory (.ofText longName)) ["w"] ∧
      (bareProject .empty).nearestConfig (.ofText longName) = .error .tooLong := by
  have hplace : (bareProject .empty).resolve (.ofText longName) = (["w", longName] : Place) := by
    decide +kernel
  have hdirectory : (bareProject .empty).searchDirectory (.ofText longName) =
      (["w", longName] : Place) := by decide +kernel
  have hfault : (Path.ofText longName).fault? = none := by decide +kernel
  constructor
  · rw [hdirectory]
    exact Files.Deepest.of_above ["w"] longName rfl (by decide +kernel)
  · have hnames : ∀ name ∈ (bareProject .empty).resolve (.ofText longName), Text.IsName name :=
      Files.isName_of_mem_resolve (fun name h ↦ (isName_working name h).1) hfault
    have hlong : (bareProject .empty).Overlong ["w", longName] :=
      .inr ⟨["w"], longName, [], rfl, rfl, by decide +kernel⟩
    have hsearchable : ¬ (bareProject .empty).Searchable (.ofText longName) := by
      intro h
      exact h.start (hplace ▸ hlong)
    rw [Files.nearestConfig_of_not_searchable (fun _ ↦ hnames) hsearchable, hfault]
    rfl

end TreeCheck
