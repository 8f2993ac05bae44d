import CodeCensus.Dependency.Summary
import CodeCensus.Dictionary
import CodeCensus.Toml.Document
import CodeCensus.Toml.Generic

/-!
# Crate manifests

The dependencies that a `Cargo.toml` declares, kind by kind and in the order of their names. The
version is either all that is said about a dependency or one member of a table; a dependency without a
version is shown with a star.
-/

namespace CodeCensus.Dependency

open Toml (Value)

/-- The tables of a manifest that declare dependencies. -/
def crateFields : List (String × Kind) :=
  [("dependencies", .prod), ("dev-dependencies", .dev), ("build-dependencies", .build)]

/-- The text of a version. -/
def crateVersion : Value → String
  | .string text => text
  | value => ((value.member? "version").bind Value.text?).getD "*"

/-- The names and versions that a table declares. A date or time counts as a table with one member. -/
def crateVersions? : Value → Option (List (String × String))
  | .table members => do
    let members ← Toml.genericMembers? members
    return Dictionary.ofList (members.map fun (name, value) => (name, crateVersion value))
  | .datetime text => some [(Toml.datetimeKey, text)]
  | _ => none

/-- The entries of one kind. -/
def crateEntries? (kind : Kind) : Option Value → Option (List Entry)
  | none => some []
  | some value => do
    let versions ← crateVersions? value
    return versions.map fun (name, version) => { name := name, version := version, kind := kind }

/-- The entries of a manifest, if it is one. -/
def crateManifest? (text : String) : Option (List Entry) := do
  let value ← Toml.parse? text.toList
  let entries ← crateFields.mapM fun (field, kind) => crateEntries? kind (value.member? field)
  return entries.flatten

end CodeCensus.Dependency
