import CodeCensus.Dependency.Summary
import CodeCensus.Json.Compact
import CodeCensus.Json.Fields
import CodeCensus.Json.Parser

/-!
# Package manifests

The dependencies that a `package.json` declares, kind by kind and in the order of their names. A
version that is no text is shown as the JSON it is written in.
-/

namespace CodeCensus.Dependency

open Json (Value)

/-- The fields of a manifest that declare dependencies. -/
def packageFields : List (String × Kind) :=
  [("dependencies", .prod), ("devDependencies", .dev), ("peerDependencies", .peer),
    ("optionalDependencies", .optional)]

/-- The text of a version. The manifest and the field around it are two levels of nesting. -/
def packageVersion? : Value → Option String
  | .string text => text
  | value => (Json.compact? (Json.maxNesting - 2) value).map String.ofList

/-- The names and versions that a field declares. -/
def packageVersions? : Value → Option (List (String × String))
  | .object members => do
    let entries ← members.mapM fun (key, value) => do
      return (← key, ← packageVersion? value)
    return Dictionary.ofList entries
  | _ => none

/-- The entries of one kind. -/
def packageEntries? (kind : Kind) : Option Value → Option (List Entry)
  | none => some []
  | some value => do
    let versions ← packageVersions? value
    return versions.map fun (name, version) => { name := name, version := version, kind := kind }

/-- The entries of a manifest, if it is one. -/
def packageManifest? (text : String) : Option (List Entry) := do
  let value ← Json.parse? text.toList
  let found ← Json.fields? (packageFields.map Prod.fst) value
  let entries ← ((packageFields.map Prod.snd).zip found).mapM fun (kind, field) =>
    packageEntries? kind field
  return entries.flatten

end CodeCensus.Dependency
