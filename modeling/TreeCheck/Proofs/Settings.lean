import TreeCheck.Project.Check
import TreeCheck.Proofs.Encodability

/-!
# Settings that can be printed

The settings of a project come from a file in UTF-8, so no surrogate stands alone in them. All
tables and arrays on the way keep this: what is added to a document is a value that was read, and
what is changed in it stays in its place.
-/

namespace TreeCheck

namespace Toml

variable {t : Text}

/-! ### Documents -/

/-- No string in a table holds a surrogate that stands alone. -/
def Table.Encodable (table : Table) : Prop := ∀ entry ∈ table, entry.2.Encodable

namespace Table

variable {table : Table} {v : Value}

private theorem Encodable.get? (h : table.Encodable) {part : Text} (hv : table.get? part = some v) :
    v.Encodable := by
  rw [Table.get?, List.lookup_eq_some_iff] at hv
  obtain ⟨before, after, rfl, -⟩ := hv
  exact h (part, v) (by simp)

private theorem Encodable.set (h : table.Encodable) (part : Text) (hv : v.Encodable) :
    Encodable (table.set part v) := by
  induction table with
  | nil => exact List.forall_mem_singleton.mpr hv
  | cons entry rest ih =>
    obtain ⟨hentry, hrest⟩ := List.forall_mem_cons.mp h
    rw [Table.set]
    split
    · exact List.forall_mem_cons.mpr ⟨hv, hrest⟩
    · exact List.forall_mem_cons.mpr ⟨hentry, ih hrest⟩

private theorem Encodable.add (h : table.Encodable) (part : Text) (hv : v.Encodable)
    (taken : Problem) :
    Yields Encodable (table.add part v taken) := by
  rw [Table.add]
  split
  · exact .ok (h.set part hv)
  · exact .error _

private theorem Encodable.extend (h : table.Encodable) (part : Text) :
    Yields Encodable (table.extend part) := by
  have hempty : (Value.table []).Encodable := .table nofun
  rw [Table.extend]
  split
  · exact .ok (h.set part (.array (List.forall_mem_singleton.mpr hempty)))
  · next items hitems =>
    cases h.get? hitems with
    | array hold =>
      refine .ok (h.set part (.array (List.forall_mem_append.mpr ⟨hold, ?_⟩)))
      exact List.forall_mem_singleton.mpr hempty
  · exact .error _

private theorem Encodable.update (throughArrays : Bool) {change : Table → Except Problem Table}
    (hchange : ∀ table : Table, table.Encodable → Yields Encodable (change table)) (key : Key)
    (h : table.Encodable) : Yields Encodable (Table.update throughArrays change key table) := by
  induction key generalizing table with
  | nil => exact hchange table h
  | cons part key ih =>
    rw [Table.update]
    split
    · have hempty : Table.Encodable [] := List.forall_mem_nil _
      refine (ih hempty).bind fun inner hinner ↦ ?_
      exact .ok (h.set part (.table hinner))
    · next inner hin =>
      cases h.get? hin with
      | table hin =>
        refine (ih hin).bind fun inner hinner ↦ ?_
        exact .ok (h.set part (.table hinner))
    · next items hin =>
      cases h.get? hin with
      | array hitems =>
        split
        · next inner hlast =>
          cases hitems _ (List.mem_of_getLast? hlast) with
          | table hin =>
            refine (ih hin).bind fun inner hinner ↦ ?_
            refine .ok (h.set part (.array (List.forall_mem_append.mpr ⟨?_, ?_⟩)))
            · intro v hv
              exact hitems v (List.dropLast_subset items hv)
            · exact List.forall_mem_singleton.mpr (.table hinner)
        · exact .error _
    · exact .error _

end Table

namespace Document

variable {d : Document}

private theorem openTable_encodable (h : d.root.Encodable) (key : Key) :
    Yields (fun d ↦ d.root.Encodable) (d.openTable key) := by
  rw [openTable]
  split
  · exact .error _
  · refine (h.update true (fun _ ↦ .ok) key).bind fun root hroot ↦ ?_
    exact .ok hroot

private theorem openArray_encodable (h : d.root.Encodable) (key : Key) :
    Yields (fun d ↦ d.root.Encodable) (d.openArray key) := by
  rw [openArray]
  split
  · exact .error _
  · refine (h.update true (fun _ ht ↦ ht.extend _) key.dropLast).bind fun root hroot ↦ ?_
    exact .ok hroot

private theorem assign_encodable (h : d.root.Encodable) (key : Key) {v : Value} (hv : v.Encodable) :
    Yields (fun d ↦ d.root.Encodable) (d.assign key v) := by
  rw [assign]
  split
  · exact .error _
  dsimp only
  split
  · exact .error _
  · refine (h.update true (fun _ ht ↦ ht.add _ hv _) _).bind fun root hroot ↦ ?_
    exact .ok hroot

end Document

private theorem InlineTable.assign_encodable {table : InlineTable} (h : table.entries.Encodable)
    (key : Key) {v : Value} (hv : v.Encodable) :
    Yields (fun table ↦ table.entries.Encodable) (table.assign key v) := by
  rw [assign]
  split
  · exact .error _
  · refine (h.update false (fun _ ht ↦ ht.add _ hv _) key.dropLast).bind fun entries hentries ↦ ?_
    exact .ok hentries

/-! ### Statements -/

private theorem skipBlanks_encodable (ht : t.isEncodable) : (skipBlanks t).isEncodable :=
  Text.isEncodable_of_suffix (List.dropWhile_suffix _) ht

private theorem skipComment_encodable (ht : t.isEncodable) :
    Yields (fun rest ↦ rest.isEncodable) (skipComment t) := by
  unfold skipComment
  split
  · refine Yields.bind (P := fun _ ↦ True) (fun _ _ ↦ trivial) fun _ _ ↦ ?_
    exact .ok (Text.isEncodable_of_suffix (List.dropWhile_suffix _) (Text.isEncodable_of_cons ht))
  · exact .ok ht

private theorem skipLines_encodable (bound : Nat) (ht : t.isEncodable) :
    Yields (fun rest ↦ rest.isEncodable) (skipLines bound t) := by
  induction bound generalizing t with
  | zero => exact .ok ht
  | succ bound ih =>
    have hspace : Text.isEncodable (t.dropWhile isSpace) :=
      Text.isEncodable_of_suffix (List.dropWhile_suffix _) ht
    unfold skipLines
    split
    · next rest hrest =>
      rw [hrest] at hspace
      exact (skipComment_encodable hspace).bind fun _ ↦ ih
    · exact .ok hspace

private theorem keyPart_encodable (ht : t.isEncodable) :
    Yields (fun found ↦ found.2.isEncodable) (keyPart t) := by
  unfold keyPart
  split
  · intro found hfound
    exact (literalBody_encodable _ _ (Text.isEncodable_of_cons ht) found hfound).2
  · intro found hfound
    exact (basicBody_encodable _ _ rfl (Text.isEncodable_of_cons ht) found hfound).2
  · split
    · exact .ok (Text.isEncodable_of_suffix (List.dropWhile_suffix _)
        (Text.isEncodable_of_cons ht))
    · exact .error _
  · exact .error _

private theorem keyParts_encodable (bound : Nat) (ht : t.isEncodable) :
    Yields (fun found ↦ found.2.isEncodable) (keyParts bound t) := by
  induction bound generalizing t with
  | zero => exact .error _
  | succ bound ih =>
    unfold keyParts
    refine (keyPart_encodable ht).bind fun (part, rest) hrest ↦ ?_
    have hblanks := skipBlanks_encodable hrest
    dsimp only
    split
    · next after hafter =>
      rw [hafter] at hblanks
      refine (ih (skipBlanks_encodable (Text.isEncodable_of_cons hblanks))).bind
        fun (parts, rest) hrest ↦ ?_
      exact .ok hrest
    · exact .ok hblanks

private theorem keyAndEquals_encodable (ht : t.isEncodable) :
    Yields (fun found ↦ found.2.isEncodable) (keyAndEquals t) := by
  unfold keyAndEquals
  refine (keyParts_encodable _ ht).bind fun (k, rest) hrest ↦ ?_
  dsimp only
  split
  · exact .ok (skipBlanks_encodable (Text.isEncodable_of_cons hrest))
  · exact .error _

/-- A value without surrogates, and a rest without any. -/
def Reads (found : Value × Text) : Prop := found.1.Encodable ∧ found.2.isEncodable

mutual

private theorem value_encodable :
    ∀ (bound : Nat) {t : Text}, t.isEncodable → Yields Reads (value bound t)
  | 0, _, _ => .error _
  | bound + 1, t, ht => by
    unfold value
    split
    · next found hfound =>
      refine (string?_encodable ht hfound).bind fun (s, rest) ⟨hs, hrest⟩ ↦ ?_
      exact .ok ⟨.string hs, hrest⟩
    split
    · refine (skipLines_encodable _ (Text.isEncodable_of_cons ht)).bind fun rest hrest ↦ ?_
      split
      · exact .ok ⟨.array nofun, Text.isEncodable_of_cons hrest⟩
      · exact elements_encodable bound nofun hrest
    · have hblanks := skipBlanks_encodable (Text.isEncodable_of_cons ht)
      split
      · next rest hrest =>
        rw [hrest] at hblanks
        exact .ok ⟨.table nofun, Text.isEncodable_of_cons hblanks⟩
      · exact entries_encodable bound nofun hblanks
    split
    · next htrue => exact .ok ⟨.boolean _, Text.isEncodable_of_suffix (after?_suffix htrue) ht⟩
    · next hfalse => exact .ok ⟨.boolean _, Text.isEncodable_of_suffix (after?_suffix hfalse) ht⟩
    · intro found hfound
      obtain ⟨hv, hrest⟩ := number_leaves t found hfound
      exact ⟨hv, Text.isEncodable_of_suffix hrest ht⟩

private theorem elements_encodable : ∀ (bound : Nat) {done : List Value} {t : Text},
    (∀ v ∈ done, v.Encodable) → t.isEncodable → Yields Reads (elements bound done t)
  | 0, _, _, _, _ => .error _
  | bound + 1, done, t, hdone, ht => by
    unfold elements
    refine (value_encodable bound ht).bind fun (v, rest) ⟨hv, hrest⟩ ↦ ?_
    have hall : ∀ u ∈ v :: done, u.Encodable := List.forall_mem_cons.mpr ⟨hv, hdone⟩
    have harray : (Value.array (v :: done).reverse).Encodable :=
      .array fun u hu ↦ hall u (List.mem_reverse.mp hu)
    refine (skipLines_encodable _ hrest).bind fun rest hrest ↦ ?_
    split
    · exact .ok ⟨harray, Text.isEncodable_of_cons hrest⟩
    · refine (skipLines_encodable _ (Text.isEncodable_of_cons hrest)).bind fun rest hrest ↦ ?_
      split
      · exact .ok ⟨harray, Text.isEncodable_of_cons hrest⟩
      · exact elements_encodable bound hall hrest
    · exact .error _

private theorem entries_encodable : ∀ (bound : Nat) {done : InlineTable} {t : Text},
    done.entries.Encodable → t.isEncodable → Yields Reads (entries bound done t)
  | 0, _, _, _, _ => .error _
  | bound + 1, done, t, hdone, ht => by
    unfold entries
    refine (keyAndEquals_encodable ht).bind fun (k, rest) hrest ↦ ?_
    refine (value_encodable bound hrest).bind fun (v, rest) ⟨hv, hrest⟩ ↦ ?_
    refine ((InlineTable.assign_encodable hdone k hv).mapError _).bind fun done hdone ↦ ?_
    have hblanks := skipBlanks_encodable hrest
    split
    · next after hafter =>
      rw [hafter] at hblanks
      exact .ok ⟨.table hdone, Text.isEncodable_of_cons hblanks⟩
    · next after hafter =>
      rw [hafter] at hblanks
      exact entries_encodable bound hdone (skipBlanks_encodable (Text.isEncodable_of_cons hblanks))
    · exact .error _

end

/-- A document without surrogates, and a rest without any. -/
def Stated (found : Document × Text) : Prop := found.1.root.Encodable ∧ found.2.isEncodable

variable {d : Document}

private theorem header_encodable (hd : d.root.Encodable)
    {place : Document → Key → Except Problem Document}
    (hplace : ∀ {d : Document}, d.root.Encodable → ∀ key : Key,
      Yields (fun d ↦ d.root.Encodable) (place d key))
    (closing : Text) (unclosed : Problem) (ht : t.isEncodable) :
    Yields Stated (header d place closing unclosed t) := by
  rw [header]
  refine (keyParts_encodable _ (skipBlanks_encodable ht)).bind fun (k, rest) hrest ↦ ?_
  refine ((hplace (d := d.closePending) hd k).mapError _).bind fun d hd ↦ ?_
  split
  · next hafter => exact .ok ⟨hd, Text.isEncodable_of_suffix (after?_suffix hafter) hrest⟩
  · exact .error _

private theorem statement_encodable (hd : d.root.Encodable) (ht : t.isEncodable) :
    Yields Stated (statement d t) := by
  unfold statement
  split
  · refine (header_encodable hd Document.openArray_encodable _ _ (Text.isEncodable_of_cons
      (Text.isEncodable_of_cons ht))).bind fun (d, rest) ⟨hd, hrest⟩ ↦ ?_
    exact .ok ⟨hd, skipBlanks_encodable hrest⟩
  · refine (header_encodable hd Document.openTable_encodable _ _
      (Text.isEncodable_of_cons ht)).bind fun (d, rest) ⟨hd, hrest⟩ ↦ ?_
    exact .ok ⟨hd, skipBlanks_encodable hrest⟩
  · exact .ok ⟨hd, ht⟩
  · split
    · refine (keyAndEquals_encodable ht).bind fun (k, rest) hrest ↦ ?_
      refine (value_encodable _ hrest).bind fun (v, rest) ⟨hv, hrest⟩ ↦ ?_
      refine ((Document.assign_encodable hd k hv).mapError _).bind fun d hd ↦ ?_
      exact .ok ⟨hd, skipBlanks_encodable hrest⟩
    · exact .error _
  · exact .ok ⟨hd, rfl⟩

private theorem statements_encodable (bound : Nat) (hd : d.root.Encodable) (ht : t.isEncodable) :
    Yields (fun d ↦ d.root.Encodable) (statements bound d t) := by
  induction bound generalizing d t with
  | zero => exact .ok hd
  | succ bound ih =>
    have hblanks := skipBlanks_encodable ht
    unfold statements
    split
    · exact .ok hd
    · next rest hrest =>
      rw [hrest] at hblanks
      exact ih hd (Text.isEncodable_of_cons hblanks)
    · refine (statement_encodable hd hblanks).bind fun (d, rest) ⟨hd, hrest⟩ ↦ ?_
      refine (skipComment_encodable hrest).bind fun rest hrest ↦ ?_
      split
      · exact .ok hd
      · exact ih hd (Text.isEncodable_of_cons hrest)
      · exact .error _

/-- Reading a text without surrogates gives a table without any. -/
theorem parse_encodable (ht : t.isEncodable) : Yields Table.Encodable (parse t) := by
  have hjoined := Text.isEncodable_mono (Text.joinLineEnds_subset t) ht
  have hempty : Document.empty.root.Encodable := List.forall_mem_nil _
  rw [parse]
  split
  · next d hd => exact .ok (statements_encodable _ hempty hjoined d hd)
  · exact .error _
  · exact .error _

end Toml

/-! ### Settings -/

namespace Config

open Toml

variable {table : Table}

private theorem read_string_encodable (h : table.Encodable) (key : Text) {default : Text}
    (hd : default.isEncodable) (e : ConfigError) :
    Yields (fun name ↦ name.isEncodable) (read table key Value.string? default e) := by
  rw [read]
  split
  · exact .ok hd
  · next v hv =>
    cases h.get? hv with
    | string hs => exact .ok hs
    | _ => exact .error _

private theorem readTable_encodable (h : table.Encodable) (key : Text) (part : ConfigPart) :
    Yields Table.Encodable (readTable table key part) := by
  rw [readTable, read]
  split
  · exact .ok nofun
  · next v hv =>
    cases h.get? hv with
    | table hentries => exact .ok hentries
    | _ => exact .error _

private theorem readPackage_encodable (h : table.Encodable) :
    Yields (fun package ↦ package.name.isEncodable) (readPackage table) := by
  rw [readPackage]
  refine (read_string_encodable h _ (Text.isEncodable_ofString _) _).bind fun name hname ↦ ?_
  refine Yields.bind (P := fun _ ↦ True) (fun _ _ ↦ trivial) fun version _ ↦ ?_
  exact .ok hname

private theorem ofTable_encodable (h : table.Encodable) :
    Yields (fun c ↦ c.package.name.isEncodable) (ofTable table) := by
  rw [ofTable]
  refine (readTable_encodable h _ _).bind fun table htable ↦ ?_
  refine (readPackage_encodable htable).bind fun package hpackage ↦ ?_
  iterate 4 refine Yields.bind (P := fun _ ↦ True) (fun _ _ ↦ trivial) fun _ _ ↦ ?_
  exact .ok hpackage

private theorem ofText_encodable (path : Text) {t : Text} (ht : t.isEncodable) :
    Yields (fun c ↦ c.package.name.isEncodable) (ofText path t) := by
  rw [ofText]
  split
  · exact .error _
  · exact .error _
  · next table htable => exact (ofTable_encodable (parse_encodable ht table htable)).mapError _

end Config

/-- The name of a project can be printed. -/
theorem Files.name_encodable_of_config {fs : Files} {target : Path} {c : Config}
    (h : fs.config target = .ok c) : c.package.name.isEncodable := by
  rw [config] at h
  split at h
  · cases h
  · cases h
    rfl
  · split at h
    · split at h
      · cases h
      · next t ht =>
        split at h
        · split at h
          · next c' hc =>
            cases h
            exact Config.ofText_encodable _ (Text.isEncodable_of_ofUtf8? ht) _ hc
          · cases h
          · cases h
        · cases h
    · cases h

end TreeCheck
