/-!
# What a manifest tells

The summary of the dependencies that a project declares. The empty summary stands for a project
without a manifest.
-/

namespace CodeCensus.Dependency

/-- The programs that install dependencies. -/
inductive Manager where
  | npm
  | yarn
  | pnpm
  | cargo
  | unknown
  deriving DecidableEq, Repr

namespace Manager

/-- The name of a program. -/
def name : Manager → String
  | npm => "npm"
  | yarn => "yarn"
  | pnpm => "pnpm"
  | cargo => "cargo"
  | unknown => "unknown"

/-- Every program. -/
def all : List Manager :=
  [npm, yarn, pnpm, cargo, unknown]

end Manager

/-- What a dependency is needed for. -/
inductive Kind where
  | prod
  | dev
  | peer
  | optional
  | build
  deriving DecidableEq, Repr

namespace Kind

/-- The name of a kind. -/
def name : Kind → String
  | prod => "prod"
  | dev => "dev"
  | peer => "peer"
  | optional => "optional"
  | build => "build"

/-- Every kind. -/
def all : List Kind :=
  [prod, dev, peer, optional, build]

end Kind

/-- A declared dependency. -/
structure Entry where
  name : String
  version : String := ""
  kind : Kind := .prod
  /-- The latest version, where it is known to be newer than what is installed. -/
  latest : Option String := none
  outdated : Bool := false
  deriving DecidableEq, Repr

/-- How many dependencies of each kind there are. -/
structure Counts where
  prod : Nat := 0
  dev : Nat := 0
  peer : Nat := 0
  optional : Nat := 0
  build : Nat := 0
  deriving DecidableEq, Repr

/-- How many entries of each kind a list has. -/
def Counts.ofEntries (entries : List Entry) : Counts :=
  let count (kind : Kind) : Nat := entries.countP (·.kind == kind)
  ⟨count .prod, count .dev, count .peer, count .optional, count .build⟩

/-- The summary of a manifest. -/
structure Summary where
  manager : Manager := .unknown
  hasLockfile : Bool := false
  entries : List Entry := []
  total : Nat := 0
  outdated : Nat := 0
  counts : Counts := {}
  deriving DecidableEq, Repr

/-- The summary of a list of entries. -/
def Summary.ofEntries (manager : Manager) (hasLockfile : Bool) (entries : List Entry) : Summary :=
  { manager := manager
    hasLockfile := hasLockfile
    entries := entries
    total := entries.length
    outdated := entries.countP (·.outdated)
    counts := .ofEntries entries }

end CodeCensus.Dependency
