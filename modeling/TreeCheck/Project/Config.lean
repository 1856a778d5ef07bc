import TreeCheck.Symbol.Declaration
import TreeCheck.Toml.Reader

/-!
# Project settings

A project may come with a TOML file that names the project, says how its trees are checked and
declares object types. What the file leaves out has a default; keys that are not known are never
looked at. The first part that has the wrong shape is reported.

Source: `SPEC_FULL.md`, section 8 (configuration).
-/

namespace TreeCheck

open Toml (Table Value)

/-- The name and version of a project. -/
structure Package where
  name : Text
  version : Text
deriving DecidableEq, Repr

/-- How the trees of a project are checked: with colours or without, and where they are. -/
structure CheckSettings where
  color : Bool
  sources : Text
deriving DecidableEq, Repr

/-- The settings of a project. Source: `SPEC_FULL.md:234–249`. -/
structure Config where
  package : Package
  check : CheckSettings
  types : List TypeDeclaration
deriving DecidableEq, Repr

/-- The settings of a project that has no file of them. Source: `SPEC_FULL.md:256`. -/
def Config.default : Config := ⟨⟨"untitled", "0.0.0"⟩, ⟨true, "src"⟩, []⟩

/-- A part of the settings that a message can name. -/
inductive ConfigPart where
  | package
  | check
  | types
  | type (name : Text)
  | method (type name : Text)
deriving DecidableEq, Repr

/-- How a message names a part. -/
def ConfigPart.label : ConfigPart → Text
  | package => "[package]"
  | check => "[check]"
  | types => "[types]"
  | type name => "[types." ++ name ++ "]"
  | method owner name => "[types." ++ owner ++ "] method '" ++ name ++ "'"

/-- Why a file of settings is refused. -/
inductive ConfigError where
  | malformed (path message : Text)
  | notATable (part : ConfigPart)
  | notAString (part : ConfigPart) (key : Text)
  | notABoolean (part : ConfigPart) (key : Text)
  | notStrings (part : ConfigPart) (key : Text)
  | fieldsNotNames (type : Text)
  | unknownConstants (type : Text) (names : List Text)
  | methodsNotAList (type : Text)
  | unnamedMethod (type : Text)
  | returnsNotAName (type method : Text)
deriving DecidableEq, Repr

/-- The wording of a refusal. -/
def ConfigError.message : ConfigError → Text
  | malformed path message => path ++ ": " ++ message
  | notATable part => part.label ++ " must be a table"
  | notAString part key => part.label ++ " " ++ key ++ " must be a str"
  | notABoolean part key => part.label ++ " " ++ key ++ " must be a bool"
  | notStrings part key => part.label ++ " " ++ key ++ " must be a list of strings"
  | fieldsNotNames type =>
    (ConfigPart.type type).label ++ " fields must map names to type names"
  | unknownConstants type names =>
    (ConfigPart.type type).label ++ " constants name unknown fields: " ++ Text.join ", " names
  | methodsNotAList type => (ConfigPart.type type).label ++ " methods must be a list of tables"
  | unnamedMethod type => (ConfigPart.type type).label ++ " every method needs a name"
  | returnsNotAName type method =>
    (ConfigPart.method type method).label ++ " returns must be a type name"

/-- The text that a value is. -/
def Toml.Value.string? : Value → Option Text
  | .string t => some t
  | _ => none

/-- The truth value that a value is. -/
def Toml.Value.boolean? : Value → Option Bool
  | .boolean b => some b
  | _ => none

/-- The table that a value is. -/
def Toml.Value.table? : Value → Option Table
  | .table t => some t
  | _ => none

/-- The list that a value is. -/
def Toml.Value.array? : Value → Option (List Value)
  | .array items => some items
  | _ => none

/-- The texts that a value lists. -/
def Toml.Value.strings? (v : Value) : Option (List Text) := do
  (← v.array?).mapM Value.string?

/-- The names of types that a value gives to names. -/
def Toml.Value.typeNames? (v : Value) : Option (List (Text × Text)) := do
  (← v.table?).mapM fun entry ↦ entry.2.string?.map fun type ↦ (entry.1, type)

namespace Config

variable {α : Type}

/-- The value of a key as `view` sees it, or the default if there is no such key. -/
def read (t : Table) (key : Text) (view : Value → Option α) (default : α) (e : ConfigError) :
    Except ConfigError α :=
  match t.get? key with
  | none => .ok default
  | some v => (view v).elim (.error e) .ok

/-- A table within a table. -/
def readTable (t : Table) (key : Text) (part : ConfigPart) : Except ConfigError Table :=
  read t key Value.table? [] (.notATable part)

/-- Texts within a table. -/
def readStrings (t : Table) (key : Text) (part : ConfigPart) : Except ConfigError (List Text) :=
  read t key Value.strings? [] (.notStrings part key)

/-- A method of a type. -/
def readMethod (type : Text) (v : Value) : Except ConfigError MethodDeclaration := do
  match v.table? with
  | none => throw (.unnamedMethod type)
  | some t =>
    match (t.get? "name").bind Value.string? with
    | none => throw (.unnamedMethod type)
    | some name =>
      let returns ← read t "returns" (fun v ↦ v.string?.map some) none (.returnsNotAName type name)
      let parameters ← readStrings t "parameters" (.method type name)
      return ⟨name, parameters, returns⟩

/-- An object type; only its fields can be constants. -/
def readType (entry : Text × Value) : Except ConfigError TypeDeclaration := do
  let (name, v) := entry
  match v.table? with
  | none => throw (.notATable (.type name))
  | some t =>
    let fields ← read t "fields" Value.typeNames? [] (.fieldsNotNames name)
    let constants ← readStrings t "constants" (.type name)
    let unknown := constants.filter fun c ↦ !(fields.map Prod.fst).contains c
    if !unknown.isEmpty then throw (.unknownConstants name unknown)
    let methods ← read t "methods" Value.array? [] (.methodsNotAList name)
    return ⟨name, fields, constants, ← methods.mapM (readMethod name)⟩

/-- The name and version of the project. -/
def readPackage (t : Table) : Except ConfigError Package := do
  let name ← read t "name" Value.string? default.package.name (.notAString .package "name")
  let version ←
    read t "version" Value.string? default.package.version (.notAString .package "version")
  return ⟨name, version⟩

/-- How trees are checked. -/
def readCheck (t : Table) : Except ConfigError CheckSettings := do
  let color ← read t "color" Value.boolean? default.check.color (.notABoolean .check "color")
  let sources ←
    read t "sources" Value.string? default.check.sources (.notAString .check "sources")
  return ⟨color, sources⟩

/-- The settings that a document holds. -/
def ofTable (t : Table) : Except ConfigError Config := do
  let package ← readPackage (← readTable t "package" .package)
  let check ← readCheck (← readTable t "check" .check)
  let types ← (← readTable t "types" .types).mapM readType
  return ⟨package, check, types⟩

/-- Why no settings come out of a text: they are refused, or a whole number has too many digits. -/
inductive LoadError where
  | refused (e : ConfigError)
  | tooManyDigits
deriving DecidableEq, Repr

/-- The settings that a text holds; `path` is where it was found. -/
def ofText (path t : Text) : Except LoadError Config :=
  match Toml.parse t with
  | .error (.malformed message) => .error (.refused (.malformed path message))
  | .error .tooManyDigits => .error .tooManyDigits
  | .ok table => (ofTable table).mapError .refused

/-- The built-in types and the declared ones. -/
def symbols (c : Config) : Except ProgramError Symbols :=
  match declareTypes c.types Symbols.initial with
  | .ok _ s => .ok s
  | .error e _ => .error e

end Config

end TreeCheck
