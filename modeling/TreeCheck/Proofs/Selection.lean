import Mathlib.Data.List.Nodup
import TreeCheck.Project.Files

/-!
# The files that a path stands for

A path that leads to a file stands for it. A path that leads to a directory stands for all entries
with the ending of tree files at any depth below the directory of sources in it, or below the path
itself if there is no such directory. They are listed by their names, each of them once.

The listing is made by walking through the whole directory, dropping what has another ending and
sorting the rest. Names are sorted by the values of their code points. The walk fails if one of the
directories cannot be entered, and then there is no list at all.

Source: `SPEC_FULL.md`, section 9.
-/

namespace TreeCheck

/-! ### The order of places -/

namespace CodePoint

/-- A code point is determined by its value. -/
theorem toNat_injective : Function.Injective toNat := by
  -- A character is never one of the 2048 values in between.
  have hne (c : Char) (half : Fin 2048) : c.toNat ≠ surrogateBase + half.val := by
    have hc : c.toNat < 0xD800 ∨ 0xDFFF < c.toNat ∧ c.toNat < 0x110000 := c.valid
    have hh := half.isLt
    rw [surrogateBase]
    omega
  intro a b h
  cases a with
  | scalar c =>
    cases b with
    | scalar d => exact congrArg scalar (Char.toNat_inj.mp h)
    | surrogate half => exact absurd h (hne c half)
  | surrogate half =>
    cases b with
    | scalar d => exact absurd h.symm (hne d half)
    | surrogate half' => exact congrArg surrogate (Fin.ext (Nat.add_left_cancel h))

private theorem compare_eq (a b : CodePoint) : compare a b = compare a.toNat b.toNat := rfl

instance : Std.TransOrd CodePoint where
  eq_swap := by
    intro a b
    rw [compare_eq, compare_eq]
    exact Std.OrientedCmp.eq_swap
  isLE_trans := by
    intro a b c hab hbc
    rw [compare_eq] at hab hbc ⊢
    exact Std.TransCmp.isLE_trans hab hbc

instance : Std.LawfulEqOrd CodePoint where
  compare_self := by
    intro a
    rw [compare_eq]
    exact Std.ReflCmp.compare_self
  eq_of_compare := by
    intro a b h
    rw [compare_eq] at h
    exact toNat_injective (Std.LawfulEqCmp.eq_of_compare h)

end CodePoint

/-- One name comes before another by the values of their code points. -/
def Text.Precedes : Text → Text → Prop := List.Lex fun a b ↦ a.toNat < b.toNat

/-- One place comes before another by their names. -/
def Place.Precedes : Place → Place → Prop := List.Lex Text.Precedes

private theorem compare_eq_lt_iff_lex {α : Type} [Ord α] [Std.LawfulEqOrd α] {r : α → α → Prop}
    (h : ∀ a b, compare a b = .lt ↔ r a b) (l l' : List α) :
    compare l l' = .lt ↔ List.Lex r l l' := by
  induction l generalizing l' with
  | nil => cases l' <;> simp
  | cons a l ih =>
    cases l' with
    | nil => simp
    | cons b l' =>
      rw [List.compare_cons_cons, Ordering.then_eq_lt, h, Std.compare_eq_iff_eq, ih,
        List.cons_lex_cons_iff]

private theorem Place.compare_eq_lt_iff (a b : Place) : compare a b = .lt ↔ a.Precedes b := by
  apply compare_eq_lt_iff_lex
  apply compare_eq_lt_iff_lex
  intro a b
  rw [CodePoint.compare_eq, Nat.compare_eq_lt]

private theorem Place.Precedes.irrefl (a : Place) : ¬ a.Precedes a := by
  intro h
  have hlt := (compare_eq_lt_iff a a).mpr h
  rw [Std.compare_self] at hlt
  cases hlt

private theorem Place.Precedes.asymm {a b : Place} (h : a.Precedes b) : ¬ b.Precedes a := by
  intro h'
  have hlt := (compare_eq_lt_iff a b).mpr h
  rw [Std.OrientedOrd.eq_swap, (compare_eq_lt_iff b a).mpr h'] at hlt
  cases hlt

private theorem Place.Precedes.append (place : Place) {a b : Place} (h : a.Precedes b) :
    Precedes (place ++ a) (place ++ b) := by
  induction place with
  | nil => exact h
  | cons name names ih => exact .cons ih

/-! ### Walking through directories -/

namespace FileTree

/-- Every directory has each name once. -/
inductive Distinct : FileTree → Prop
  | file (bytes : ByteArray) : Distinct (.file bytes)
  | directory {entries : List (Text × FileTree)} (names : (entries.map Prod.fst).Nodup)
      (each : ∀ entry ∈ entries, entry.2.Distinct) : Distinct (.directory entries)

variable {t u : FileTree} {entries : List (Text × FileTree)} {name : Text} {place : Place}

private theorem mem_of_lookup (h : entries.lookup name = some t) : (name, t) ∈ entries := by
  rw [List.lookup_eq_some_iff] at h
  obtain ⟨before, after, rfl, -⟩ := h
  simp

private theorem Distinct.child? (ht : t.Distinct) (h : t.child? name = some u) : u.Distinct := by
  cases ht with
  | file bytes => cases h
  | directory names each => exact each (name, u) (mem_of_lookup h)

private theorem Distinct.at? (ht : t.Distinct) (h : t.at? place = some u) : u.Distinct := by
  induction place generalizing t with
  | nil =>
    cases h
    exact ht
  | cons name names ih =>
    rw [FileTree.at?] at h
    obtain ⟨child, hchild, h⟩ := Option.bind_eq_some_iff.mp h
    exact ih (ht.child? hchild) h

private theorem putEntry_names (name : Text) (t : FileTree) (entries : List (Text × FileTree)) :
    (putEntry name t entries).map Prod.fst =
      if name ∈ entries.map Prod.fst then entries.map Prod.fst
      else entries.map Prod.fst ++ [name] := by
  induction entries with
  | nil => rfl
  | cons entry rest ih =>
    by_cases h : entry.1 = name
    · simp [putEntry, h]
    · have h' : name ≠ entry.1 := fun he ↦ h he.symm
      simp only [putEntry, h, if_false, List.map_cons, ih, List.mem_cons, h', false_or]
      split <;> rfl

private theorem eq_or_mem_of_mem_putEntry {entry : Text × FileTree}
    (h : entry ∈ putEntry name t entries) : entry = (name, t) ∨ entry ∈ entries := by
  induction entries with
  | nil => exact .inl (List.mem_singleton.mp h)
  | cons first rest ih =>
    rw [putEntry] at h
    split at h
    · exact (List.mem_cons.mp h).imp_right (List.mem_cons_of_mem first)
    · rcases List.mem_cons.mp h with rfl | h
      · exact .inr List.mem_cons_self
      · exact (ih h).imp_right (List.mem_cons_of_mem first)

/-- A tree that is built by putting files into directories has each name once. -/
theorem Distinct.put (hu : u.Distinct) (place : Place) (ht : t.Distinct) :
    (FileTree.put u place t).Distinct := by
  have empty : (FileTree.directory []).Distinct := .directory List.nodup_nil nofun
  induction place generalizing t with
  | nil =>
    rw [FileTree.put]
    exact hu
  | cons name names ih =>
    cases ht with
    | file bytes =>
      rw [FileTree.put]
      apply Distinct.directory
      · exact List.nodup_singleton name
      · intro entry he
        rw [List.mem_singleton.mp he]
        exact ih empty
    | @directory entries hn each =>
      have hold : ((entries.lookup name).getD (.directory [])).Distinct := by
        cases h : entries.lookup name with
        | none => exact empty
        | some child => exact each (name, child) (mem_of_lookup h)
      rw [FileTree.put]
      apply Distinct.directory
      · rw [putEntry_names]
        split
        · exact hn
        · next hnew => exact hn.append (List.nodup_singleton name) (by simpa using hnew)
      · intro entry he
        rcases eq_or_mem_of_mem_putEntry he with rfl | he
        · exact ih hold
        · exact each entry he

mutual

/-- Walking through a tree meets every place below it, and only those. -/
theorem mem_descendants {u : FileTree} {place : Place} :
    ∀ {t : FileTree}, t.Distinct →
      ((place, u) ∈ t.descendants ↔ place ≠ [] ∧ t.at? place = some u)
  | .file bytes, _ => by
    cases place <;> simp [descendants, FileTree.at?, FileTree.child?]
  | .directory entries, .directory names each => by
    rw [descendants]
    exact mem_entryDescendants names each

private theorem mem_entryDescendants {u : FileTree} {place : Place} :
    ∀ {entries : List (Text × FileTree)}, (entries.map Prod.fst).Nodup →
      (∀ entry ∈ entries, entry.2.Distinct) →
      ((place, u) ∈ entryDescendants entries ↔
        place ≠ [] ∧ (directory entries).at? place = some u)
  | [], _, _ => by
    cases place <;> simp [entryDescendants, FileTree.at?, FileTree.child?]
  | (first, t) :: rest, distinct, each => by
    obtain ⟨hfirst, hrest⟩ := List.nodup_cons.mp distinct
    obtain ⟨ht, each⟩ := List.forall_mem_cons.mp each
    have hbelow (names : Place) :
        (names, u) ∈ t.descendants ↔ names ≠ [] ∧ t.at? names = some u := mem_descendants ht
    rw [entryDescendants, List.cons_append, List.mem_cons, List.mem_append,
      mem_entryDescendants hrest each]
    cases place with
    | nil => simp
    | cons name names =>
      simp only [FileTree.at?, FileTree.child?, List.lookup_cons]
      by_cases hname : name = first
      · -- The first entry has this name, so no later one has it.
        subst hname
        have hnone : rest.lookup name = none := by
          rw [List.lookup_eq_none_iff]
          intro entry he
          rw [bne_iff_ne]
          intro heq
          exact hfirst (List.mem_map.mpr ⟨entry, he, heq.symm⟩)
        cases names with
        | nil => simp [hnone, FileTree.at?, eq_comm, hbelow]
        | cons next names => simp [hnone, hbelow]
      · have hbeq : (name == first) = false := beq_false_of_ne hname
        simp [hbeq, hname, Ne.symm hname]

end

private theorem head_of_mem_entryDescendants (names : (entries.map Prod.fst).Nodup)
    (each : ∀ entry ∈ entries, entry.2.Distinct)
    (h : place ∈ (entryDescendants entries).map Prod.fst) :
    ∃ name rest, place = name :: rest ∧ name ∈ entries.map Prod.fst := by
  obtain ⟨⟨place, u⟩, hmem, rfl⟩ := List.mem_map.mp h
  obtain ⟨hne, hat⟩ := (mem_entryDescendants names each).mp hmem
  cases place with
  | nil => exact absurd rfl hne
  | cons name rest =>
    obtain ⟨child, hchild, -⟩ := Option.bind_eq_some_iff.mp hat
    exact ⟨name, rest, rfl, List.mem_map_of_mem (mem_of_lookup hchild)⟩

mutual

/-- Walking through a tree meets no place twice. -/
theorem nodup_descendants : ∀ {t : FileTree}, t.Distinct → (t.descendants.map Prod.fst).Nodup
  | .file _, _ => List.nodup_nil
  | .directory _, .directory names each => nodup_entryDescendants names each

private theorem nodup_entryDescendants : ∀ {entries : List (Text × FileTree)},
    (entries.map Prod.fst).Nodup → (∀ entry ∈ entries, entry.2.Distinct) →
      ((entryDescendants entries).map Prod.fst).Nodup
  | [], _, _ => List.nodup_nil
  | (first, t) :: rest, distinct, each => by
    obtain ⟨hfirst, hrest⟩ := List.nodup_cons.mp distinct
    obtain ⟨ht, each⟩ := List.forall_mem_cons.mp each
    have hbelow : ((t.descendants.map fun found ↦ (first :: found.1, found.2)).map
        Prod.fst).Nodup := by
      have h := (nodup_descendants ht).map (List.cons_injective (a := first))
      rw [List.map_map] at h ⊢
      exact h
    have hlater {names : Place} :
        first :: names ∉ (entryDescendants rest).map Prod.fst := by
      intro h
      obtain ⟨name, _, heq, hname⟩ := head_of_mem_entryDescendants hrest each h
      exact hfirst ((List.cons.inj heq).1 ▸ hname)
    rw [entryDescendants, List.map_append, List.map_cons]
    apply List.Nodup.append
    · apply hbelow.cons
      intro h
      rw [List.map_map] at h
      obtain ⟨⟨names, u⟩, hmem, heq⟩ := List.mem_map.mp h
      exact ((mem_descendants ht).mp hmem).1 (List.cons.inj heq).2
    · exact nodup_entryDescendants hrest each
    · intro place hplace hrest
      rcases List.mem_cons.mp hplace with rfl | hplace
      · exact hlater hrest
      · rw [List.map_map] at hplace
        obtain ⟨found, -, rfl⟩ := List.mem_map.mp hplace
        exact hlater hrest

end

end FileTree

/-! ### Listing a directory -/

namespace Files

/-- The listing of tree files below a directory at a path: every entry at any depth whose name has
the ending of tree files, in the order of the names on the paths. -/
structure Lists (p : Path) (t : FileTree) (found : List (Path × FileTree)) : Prop where
  mem_iff (q : Path) (u : FileTree) : (q, u) ∈ found ↔
    ∃ place name, q = p.append (place ++ [name]) ∧ name.endsWith treeEnding ∧
      t.at? (place ++ [name]) = some u
  ascending : found.Pairwise fun a b ↦ Place.Precedes a.1.parts b.1.parts

variable {fs : Files} {t u : FileTree} {p : Path} {found found' : List (Path × FileTree)}

private theorem Lists.nodup (h : Lists p t found) : found.Nodup := by
  apply h.ascending.imp
  intro a b hab heq
  subst heq
  exact Place.Precedes.irrefl _ hab

/-- A directory has one listing. -/
theorem Lists.unique (h : Lists p t found) (h' : Lists p t found') : found = found' := by
  apply List.Perm.eq_of_pairwise (fun a b _ _ hab hba ↦ absurd hba hab.asymm) h.ascending
    h'.ascending
  rw [List.perm_ext_iff_of_nodup h.nodup h'.nodup]
  intro (q, u)
  rw [h.mem_iff, h'.mem_iff]

private theorem mem_treesBelow (ht : t.Distinct) {place : Place} :
    (place, u) ∈ treesBelow t ↔
      place ≠ [] ∧ (place.getLastD []).endsWith treeEnding ∧ t.at? place = some u := by
  rw [treesBelow, List.mem_mergeSort, List.mem_filter, FileTree.mem_descendants ht]
  tauto

private theorem treesBelow_ascending (ht : t.Distinct) :
    (treesBelow t).Pairwise fun a b ↦ Place.Precedes a.1 b.1 := by
  have hsorted : (treesBelow t).Pairwise fun a b ↦ (compare a.1 b.1).isLE := by
    apply List.pairwise_mergeSort
    · intro a b c hab hbc
      exact Std.TransOrd.isLE_trans hab hbc
    · intro a b
      rw [Std.OrientedOrd.eq_swap (a := b.1)]
      cases compare a.1 b.1 <;> rfl
  have hnodup : ((treesBelow t).map Prod.fst).Nodup := by
    have h : (treesBelow t).Perm _ := List.mergeSort_perm _ _
    rw [(h.map Prod.fst).nodup_iff]
    exact (FileTree.nodup_descendants ht).sublist (List.filter_sublist.map _)
  apply (hsorted.and (List.pairwise_map.mp hnodup)).imp
  intro a b ⟨hle, hne⟩
  rw [← Place.compare_eq_lt_iff]
  cases h : compare a.1 b.1 with
  | lt => rfl
  | eq => exact absurd (Std.compare_eq_iff_eq.mp h) hne
  | gt =>
    rw [h] at hle
    cases hle

private theorem treesBelow_lists (p : Path) (ht : t.Distinct) :
    Lists p t ((treesBelow t).map fun found ↦ (p.append found.1, found.2)) where
  mem_iff q u := by
    simp only [List.mem_map, Prod.exists, Prod.mk.injEq, mem_treesBelow ht]
    constructor
    · rintro ⟨place, _, ⟨hne, hends, hat⟩, rfl, rfl⟩
      obtain ⟨place, name, rfl⟩ := (List.eq_nil_or_concat' place).resolve_left hne
      rw [List.getLastD_concat] at hends
      exact ⟨place, name, rfl, hends, hat⟩
    · rintro ⟨place, name, rfl, hends, hat⟩
      refine ⟨place ++ [name], u, ⟨by simp, ?_, hat⟩, rfl, rfl⟩
      rw [List.getLastD_concat]
      exact hends
  ascending := by
    rw [List.pairwise_map]
    exact (treesBelow_ascending ht).imp fun {a b} hab ↦ hab.append p.parts

/-- A search that begins at the directory `t` at a path can enter every directory that it meets:
none is nested deeper than the machine bears, and none has a path that is too long. -/
def CanSearch (m : Machine) (p : Path) (t : FileTree) : Prop :=
  ∀ place u, t.at? place = some u → u.isDirectory →
    place.length ≤ m.depth ∧ (p.append place).toText.byteLength ≤ maxPathBytes

variable {m : Machine}

private theorem refusal?_eq_none_iff {place : Place} :
    refusal? m p place = none ↔
      place.length ≤ m.depth ∧ (p.append place).toText.byteLength ≤ maxPathBytes := by
  rw [refusal?]
  split
  · next h => simp [Nat.not_le.mpr h]
  · split
    · next h => simp [Nat.not_le.mpr h]
    · next hdeep hlong => simp [Nat.not_lt.mp hdeep, Nat.not_lt.mp hlong]

private theorem obstacle?_eq_none_iff (ht : t.Distinct) :
    obstacle? m p t = none ↔ CanSearch m p t := by
  -- The walk meets the directory itself and everything below it.
  have hmet (place : Place) (u : FileTree) :
      (place, u) ∈ ([], t) :: t.descendants ↔ t.at? place = some u := by
    rw [List.mem_cons, FileTree.mem_descendants ht]
    cases place with
    | nil => simp [FileTree.at?, eq_comm]
    | cons name names => simp
  rw [obstacle?, List.findSome?_eq_none_iff, CanSearch]
  simp only [Prod.forall, hmet, ite_eq_right_iff, refusal?_eq_none_iff]

/-- A search of a directory comes to a list exactly if every directory in it can be entered, and the
list is that of the directory. -/
theorem treesIn_eq_ok_iff (ht : t.Distinct) :
    treesIn m p t = .ok found ↔ CanSearch m p t ∧ Lists p t found := by
  rw [treesIn, ← obstacle?_eq_none_iff ht]
  have hlists := treesBelow_lists p ht
  cases obstacle? m p t with
  | some f => simp
  | none =>
    simp only [Except.ok.injEq, true_and]
    constructor
    · rintro rfl
      exact hlists
    · exact hlists.unique

/-- A search that meets the tree files in the order of their names lists them as it meets them. -/
theorem treesIn_of_pairwise (met : List (Place × FileTree)) (hnone : obstacle? m p t = none)
    (hmet : (t.descendants.filter fun x ↦ (x.1.getLastD []).endsWith treeEnding) = met)
    (hsorted : met.Pairwise fun a b ↦ (compare a.1 b.1).isLE) :
    treesIn m p t = .ok (met.map fun x ↦ (p.append x.1, x.2)) := by
  have hbelow : treesBelow t = met := by
    rw [treesBelow, hmet]
    exact List.mergeSort_of_pairwise hsorted
  rw [treesIn, hnone, hbelow]

/-! ### Selection -/

/-- The files that a path stands for, by what it leads to. -/
inductive Selects (fs : Files) (target : Path) (sources : Text) :
    FileTree → List (Path × FileTree) → Prop
  /-- A file stands for itself. -/
  | file (bytes : ByteArray) : Selects fs target sources (.file bytes) [(target, .file bytes)]
  /-- The directory of sources is searched if there is one. -/
  | sources {entries inner : List (Text × FileTree)} {found : List (Path × FileTree)}
      (there : fs.find (target.join (.ofText sources)).toText = .ok (.directory inner))
      (lists : Lists (target.join (.ofText sources)) (.directory inner) found) :
      Selects fs target sources (.directory entries) found
  /-- Otherwise the directory itself is searched. -/
  | fallback {entries : List (Text × FileTree)} {found : List (Path × FileTree)}
      (none : ∀ inner, fs.find (target.join (.ofText sources)).toText ≠ .ok (.directory inner))
      (lists : Lists target (.directory entries) found) :
      Selects fs target sources (.directory entries) found

variable {target : Path} {sources : Text}

/-- A path stands for one list of files. -/
theorem Selects.unique (h : fs.Selects target sources t found)
    (h' : fs.Selects target sources t found') : found = found' := by
  cases h with
  | file bytes =>
    cases h'
    rfl
  | sources there lists =>
    cases h' with
    | sources there' lists' =>
      rw [there] at there'
      cases there'
      exact lists.unique lists'
    | fallback none => exact absurd there (none _)
  | fallback none lists =>
    cases h' with
    | sources there => exact absurd there (none _)
    | fallback _ lists' => exact lists.unique lists'

private theorem at?_of_find {written : Text} (h : fs.find written = .ok t) :
    ∃ place, fs.at? place = some t := by
  rw [find, lookup] at h
  split at h
  · cases h
  split at h
  · cases h
  cases hf : fs.follow (fs.start (.ofText written)) (written.split (.scalar '/')) with
  | error e =>
    rw [hf] at h
    cases h
  | ok place =>
    rw [hf] at h
    refine ⟨place, ?_⟩
    cases ha : fs.at? place with
    | none =>
      simp only [bind, Except.bind, ha] at h
      cases h
    | some u =>
      simp only [bind, Except.bind, ha] at h
      cases h
      rfl

/-- What is found among files with distinct names has distinct names. -/
theorem distinct_of_find (hfs : fs.root.Distinct) {written : Text} (h : fs.find written = .ok t) :
    t.Distinct := by
  obtain ⟨place, hat⟩ := at?_of_find h
  exact hfs.at? hat

/-- The search for the files that a path stands for comes to its end. The path of the directory of
sources is not too long to be looked up, and every directory can be entered below the one that is
searched. -/
structure Walkable (fs : Files) (target : Path) (sources : Text) (t : FileTree) : Prop where
  lookup : t.isDirectory → fs.find (target.join (.ofText sources)).toText ≠ .error .tooLong
  narrowed : t.isDirectory → ∀ inner,
    fs.find (target.join (.ofText sources)).toText = .ok (.directory inner) →
      CanSearch fs.machine (target.join (.ofText sources)) (.directory inner)
  whole : t.isDirectory →
    (∀ inner, fs.find (target.join (.ofText sources)).toText ≠ .ok (.directory inner)) →
      CanSearch fs.machine target t

/-- A search comes to a list exactly if it comes to its end and the list is what the path stands
for. -/
theorem trees_eq_ok_iff (hfs : fs.root.Distinct) (ht : t.Distinct) :
    fs.trees target t sources = .ok found ↔
      fs.Selects target sources t found ∧ fs.Walkable target sources t := by
  cases t with
  | file bytes =>
    have hsearch : fs.Walkable target sources (.file bytes) := ⟨nofun, nofun, nofun⟩
    simp only [trees, FileTree.isFile, if_true, Except.ok.injEq, hsearch, and_true]
    constructor
    · rintro rfl
      exact .file bytes
    · rintro ⟨⟩
      rfl
  | directory entries =>
    rw [trees]
    simp only [FileTree.isFile, Bool.false_eq_true, if_false]
    split
    · next inner hfind =>
      rw [treesIn_eq_ok_iff (distinct_of_find hfs hfind)]
      constructor
      · rintro ⟨hcan, hlists⟩
        refine ⟨.sources hfind hlists, fun _ ↦ by simp [hfind], fun _ inner' hfind' ↦ ?_,
          fun _ hnone ↦ absurd hfind (hnone inner)⟩
        cases hfind.symm.trans hfind'
        exact hcan
      · rintro ⟨hsel, hsearch⟩
        refine ⟨hsearch.narrowed rfl inner hfind, ?_⟩
        cases hsel with
        | sources there lists =>
          cases hfind.symm.trans there
          exact lists
        | fallback none => exact absurd hfind (none inner)
    · next hlong => exact ⟨nofun, fun h ↦ absurd hlong (h.2.lookup rfl)⟩
    · next hnone hshort =>
      rw [treesIn_eq_ok_iff ht]
      constructor
      · rintro ⟨hcan, hlists⟩
        exact ⟨.fallback (fun inner ↦ hnone inner) hlists, fun _ ↦ hshort,
          fun _ inner hfind ↦ absurd hfind (hnone inner), fun _ _ ↦ hcan⟩
      · rintro ⟨hsel, hsearch⟩
        refine ⟨hsearch.whole rfl fun inner ↦ hnone inner, ?_⟩
        cases hsel with
        | sources there => exact absurd there (hnone _)
        | fallback _ lists => exact lists

/-- A search that does not come to its end fails. -/
theorem trees_of_not_walkable (hfs : fs.root.Distinct) (ht : t.Distinct)
    (h : ¬ fs.Walkable target sources t) : ∃ f, fs.trees target t sources = .error f := by
  cases htrees : fs.trees target t sources with
  | error f => exact ⟨f, rfl⟩
  | ok found => exact absurd ((trees_eq_ok_iff hfs ht).mp htrees).2 h

/-- A directory of sources that cannot be looked up ends a search at once. -/
theorem trees_of_tooLong (hdirectory : t.isDirectory)
    (h : fs.find (target.join (.ofText sources)).toText = .error .tooLong) :
    fs.trees target t sources = .error .tooLong := by
  cases t with
  | file bytes => cases hdirectory
  | directory entries =>
    simp only [trees, FileTree.isFile, Bool.false_eq_true, if_false, h]

end Files

end TreeCheck
