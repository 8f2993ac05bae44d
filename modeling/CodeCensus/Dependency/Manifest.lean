import CodeCensus.Dependency.CrateManifest
import CodeCensus.Dependency.Outdated
import CodeCensus.Dependency.PackageManifest
import CodeCensus.FileSystem.Resolve

/-!
# Manifests

The manifest of a project is its `package.json`, or else its `Cargo.toml`. If there is a file with the
first name it is the only one looked at. A manifest that cannot be read tells nothing.
-/

namespace CodeCensus.Dependency

open FileSystem (Disk)

/-- A path of a file in the directory of a project. -/
def inProject (root : Path) (name : String) : Path :=
  root.join (Path.ofString name)

/-- The lockfiles, each with the program that writes it, in the order in which they are looked for. -/
def lockfiles : List (String × Manager) :=
  [("pnpm-lock.yaml", .pnpm), ("yarn.lock", .yarn), ("package-lock.json", .npm)]

/-- The program whose lockfile is there, if there is one. -/
def lockedBy? (disk : Disk) (root : Path) : Option Manager :=
  (lockfiles.find? fun (name, _) => disk.exists? (inProject root name)).map Prod.snd

/-- The summary of a `package.json`. The latest versions are asked for only where npm is used. -/
def packageSummary? (disk : Disk) (root : Path) (latest : Option LatestVersions) :
    Option Summary := do
  let text ← (disk.readText (inProject root "package.json")).toOption
  let entries ← packageManifest? text
  let manager := lockedBy? disk root
  let known := if manager = some .npm then latest.getD [] else []
  return .ofEntries (manager.getD .unknown) manager.isSome (entries.map (·.withLatest known))

/-- The summary of a `Cargo.toml`. -/
def crateSummary? (disk : Disk) (root : Path) : Option Summary := do
  let text ← (disk.readText (inProject root "Cargo.toml")).toOption
  let entries ← crateManifest? text
  return .ofEntries .cargo (disk.exists? (inProject root "Cargo.lock")) entries

/-- The summary of the dependencies of the project in a directory. If they are to be checked, `printed`
is what `npm outdated` prints, if it can be run. -/
def summarize (disk : Disk) (root : Path) (check : Bool) (printed : Option String) : Summary :=
  let latest := if check then printed.map latestVersions else none
  if disk.isFile (inProject root "package.json") then
    (packageSummary? disk root latest).getD {}
  else if disk.isFile (inProject root "Cargo.toml") then
    (crateSummary? disk root).getD {}
  else {}

end CodeCensus.Dependency
