import CodeCensus.FileSystem.Resolve
import CodeCensus.Toml.Document

/-!
# Configuration

A project may say in a file of its own what to leave out of a census and what to do where the command
line says nothing.
-/

namespace CodeCensus

/-- What to leave out. -/
structure Exclusion where
  paths : List String := []
  /-- Whether the built-in patterns do not apply. -/
  skipDefaults : Bool := false
  deriving DecidableEq, Repr

/-- What to do where the command line says nothing. -/
structure Defaults where
  format : Option String := none
  top : Option Nat := none
  todoTop : Option Nat := none
  workers : Option Nat := none
  noGit : Option Bool := none
  checkOutdated : Option Bool := none
  deriving DecidableEq, Repr

/-- The configuration of a project. -/
structure Config where
  exclude : Exclusion := {}
  defaults : Defaults := {}
  deriving DecidableEq, Repr

/-! ### Patterns -/

/-- The built-in patterns: directories of dependencies, of build results and of tools. -/
def builtinPatterns : List String :=
  ["**/node_modules/**", "**/dist/**", "**/build/**", "**/.git/**", "**/vendor/**",
    "**/__pycache__/**", "**/venv/**", "**/.venv/**", "**/coverage/**", "**/.next/**",
    "**/.nuxt/**", "**/target/**", "**/bin/**", "**/obj/**"]

/-- Add a text to the end of a list unless it is in the list already. -/
def addNew (list : List String) (s : String) : List String :=
  if list.contains s then list else list ++ [s]

/-- The patterns that apply: the built-in ones unless they are skipped, then the ones of the project,
none of them twice. -/
def Exclusion.patterns (exclusion : Exclusion) : List String :=
  exclusion.paths.foldl addNew (if exclusion.skipDefaults then [] else builtinPatterns)

namespace Config

open Toml (Value)

/-! ### Reading a configuration -/

/-- The values of the fields of a record. A record is a table, in which other members are passed over;
or an array with the values of the fields in their order, which may be too short or too long; or a date
or time, which says nothing. -/
def fields? (names : List String) : Value → Option (List (Option Value))
  | .table members => some (names.map fun name => members.lookup name)
  | .array elements => some (names.zipIdx.map fun (_, i) => elements[i]?)
  | .datetime _ => some (names.map fun _ => none)
  | _ => none

/-- A truth value. -/
def boolean? : Value → Option Bool
  | .boolean b => some b
  | _ => none

/-- A number that is not negative. -/
def natural? : Value → Option Nat
  | .integer (.ofNat n) => some n
  | _ => none

/-- A list of texts. -/
def texts? : Value → Option (List String)
  | .array elements => elements.mapM Value.text?
  | _ => none

/-- Read a field if it is there. -/
def given? {α : Type} (read? : Value → Option α) : Option Value → Option (Option α)
  | none => some none
  | some value => (read? value).map some

/-- What to leave out, if a value says so. -/
def exclusion? (value : Value) : Option Exclusion := do
  match ← fields? ["paths", "skip_defaults"] value with
  | [paths, skip] =>
    return ⟨(← given? texts? paths).getD [], (← given? boolean? skip).getD false⟩
  | _ => none

/-- What to do where the command line says nothing, if a value says so. -/
def defaults? (value : Value) : Option Defaults := do
  match ← fields? ["format", "top", "todo_top", "workers", "no_git", "check_outdated"] value with
  | [format, top, todoTop, workers, noGit, checkOutdated] =>
    return ⟨← given? Value.text? format, ← given? natural? top, ← given? natural? todoTop,
      ← given? natural? workers, ← given? boolean? noGit, ← given? boolean? checkOutdated⟩
  | _ => none

/-- The configuration that a text describes, if it describes one. -/
def parse? (text : String) : Option Config := do
  let value ← Toml.parse? text.toList
  return ⟨(← given? exclusion? (value.member? "exclude")).getD {},
    (← given? defaults? (value.member? "defaults")).getD {}⟩

/-! ### Files -/

/-- The name of the file that holds the configuration of a project. -/
def fileName : String := "codestat.toml"

/-- The path of that file. -/
def pathIn (root : Path) : Path :=
  root.join (Path.ofString fileName)

/-- Why there is no configuration in a file. -/
inductive Error where
  | unreadable (path : Path) (fault : FileSystem.Fault)
  | invalid (path : Path)
  deriving DecidableEq, Repr

/-- The configuration in a file. -/
def load (disk : FileSystem.Disk) (path : Path) : Except Error Config :=
  match disk.readText path with
  | .error fault => .error (.unreadable path fault)
  | .ok text =>
    match parse? text with
    | some config => .ok config
    | none => .error (.invalid path)

/-- What is said about a file that cannot be read. -/
def unreadableMessage (path : Path) (fault : FileSystem.Fault) : String :=
  "Failed to read " ++ Text.lossy path.bytes ++ ": " ++ fault.message

/-- What is said about a configuration that cannot be used. What in particular is wrong with an invalid
file is not said. -/
def Error.message : Error → String
  | unreadable path fault => unreadableMessage path fault
  | invalid path => "Invalid TOML in " ++ Text.lossy path.bytes

/-- The configuration of a project. A file that is missing or invalid says nothing. -/
def ofProject (disk : FileSystem.Disk) (root : Path) : Config :=
  (load disk (pathIn root)).toOption.getD {}

end Config

end CodeCensus
