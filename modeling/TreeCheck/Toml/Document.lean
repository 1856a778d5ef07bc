import TreeCheck.Toml.Value

/-!
# Documents under construction

Statements add to a document step by step. A table may be opened by a header once; what a dotted
key made cannot be opened or extended later; arrays and tables written in place cannot be extended
at all. A header for an array adds a table to it and frees the names below.

Source: `SPEC_FULL.md`, section 8 (configuration).
-/

namespace TreeCheck.Toml

namespace Table

/-- The value of a key part. -/
def get? (t : Table) (part : Text) : Option Value := t.lookup part

/-- Give a key part a value: in its old place, or at the end. -/
def set (t : Table) (part : Text) (v : Value) : Table :=
  match t with
  | [] => [(part, v)]
  | entry :: rest => if entry.1 = part then (part, v) :: rest else entry :: set rest part v

/-- Change the table below a key, making the tables on the way. If `throughArrays`, an array on the
way stands for its last table. -/
def update (throughArrays : Bool) (change : Table → Except Problem Table) :
    Key → Table → Except Problem Table
  | [], t => change t
  | part :: key, t =>
    match t.get? part with
    | none => do
      let inner ← update throughArrays change key []
      return t.set part (.table inner)
    | some (.table inner) => do
      let inner ← update throughArrays change key inner
      return t.set part (.table inner)
    | some (.array items) =>
      match throughArrays, items.getLast? with
      | true, some (.table inner) => do
        let inner ← update throughArrays change key inner
        return t.set part (.array (items.dropLast ++ [.table inner]))
      | _, _ => .error .overwritten
    | some _ => .error .overwritten

/-- Add a value under a part that is still free. -/
def add (part : Text) (v : Value) (taken : Problem) (t : Table) : Except Problem Table :=
  match t.get? part with
  | none => .ok (t.set part v)
  | some _ => .error taken

/-- Add an empty table to the array under a part, making the array. -/
def extend (part : Text) (t : Table) : Except Problem Table :=
  match t.get? part with
  | none => .ok (t.set part (.array [.table []]))
  | some (.array items) => .ok (t.set part (.array (items ++ [.table []])))
  | some _ => .error .overwritten

end Table

/-- Whether one of the keys is `key` or leads to it. -/
def covers (keys : List Key) (key : Key) : Bool :=
  !key.isEmpty && keys.any fun k ↦ k.isPrefixOf key

/-- What has been read of a document. -/
structure Document where
  /-- The table of the whole document. -/
  root : Table
  /-- The keys that headers may not open again. -/
  opened : List Key
  /-- The keys of arrays and tables written in place. -/
  frozen : List Key
  /-- The keys that dotted keys made since the last header. -/
  pending : List Key
  /-- The key of the last header. -/
  header : Key

namespace Document

/-- A document without statements. -/
def empty : Document := ⟨[], [], [], [], []⟩

/-- From a header on, what dotted keys made cannot be opened. -/
def closePending (d : Document) : Document :=
  { d with opened := d.pending ++ d.opened, pending := [] }

/-- Open a table. -/
def openTable (d : Document) (key : Key) : Except Problem Document := do
  if key ∈ d.opened ∨ covers d.frozen key then throw (.declaredTwice key)
  let root ← Table.update true .ok key d.root
  return { d with root, opened := key :: d.opened, header := key }

/-- Add a table to an array and open it. -/
def openArray (d : Document) (key : Key) : Except Problem Document := do
  if covers d.frozen key then throw (.immutable key)
  let free := fun k : Key ↦ !key.isPrefixOf k
  let root ← Table.update true (Table.extend (key.getLastD [])) key.dropLast d.root
  return { d with
    root, opened := key :: d.opened.filter free, frozen := d.frozen.filter free, header := key }

/-- The keys that lead to a dotted key, from the outside in, without the key itself. -/
def leading (header key : Key) : List Key :=
  (List.range (key.length - 1)).map fun i ↦ header ++ key.take (i + 1)

/-- Add a value under the last header. -/
def assign (d : Document) (key : Key) (v : Value) : Except Problem Document := do
  let leading := leading d.header key
  match leading.find? fun k ↦ k ∈ d.opened with
  | some k => throw (.redefined k)
  | none => pure ()
  let parent := d.header ++ key.dropLast
  if covers d.frozen parent then throw (.immutable parent)
  let root ← Table.update true (Table.add (key.getLastD []) v .overwritten) parent d.root
  let frozen := if v.isContainer then (d.header ++ key) :: d.frozen else d.frozen
  return { d with root, frozen, pending := leading ++ d.pending }

end Document

/-- A table written in place: its entries so far, and the keys of its arrays and tables. -/
structure InlineTable where
  entries : Table
  frozen : List Key

namespace InlineTable

/-- A table written in place without entries. -/
def empty : InlineTable := ⟨[], []⟩

/-- Add a value. -/
def assign (t : InlineTable) (key : Key) (v : Value) : Except Problem InlineTable := do
  if covers t.frozen key then throw (.immutable key)
  let last := key.getLastD []
  let entries ← Table.update false (Table.add last v (.duplicateInlineKey last)) key.dropLast
    t.entries
  return { t with entries, frozen := if v.isContainer then key :: t.frozen else t.frozen }

end InlineTable

end TreeCheck.Toml
