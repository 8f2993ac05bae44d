import CodeCensus.Dependency.Summary
import CodeCensus.Dictionary
import CodeCensus.Json.Fields
import CodeCensus.Json.Parser

/-!
# Latest versions

What `npm outdated` prints: a JSON object with an entry for every dependency that is not up to date,
possibly with other text before and behind it. The object is taken to reach from the first opening brace
to the last closing one. Whatever is not as expected means that nothing is known.
-/

namespace CodeCensus.Dependency

open Json (Value)

/-- The latest versions that are known, under the names of the dependencies. -/
abbrev LatestVersions := List (String × String)

/-- The part of a text from the first opening brace to the last closing one, if there is one. -/
def braced? (text : List Char) : Option (List Char) :=
  let fromOpening := text.dropWhile (· != '\x7b')
  let upToClosing := (fromOpening.reverse.dropWhile (· != '\x7d')).reverse
  if upToClosing.isEmpty then none else some upToClosing

/-- A text that may be absent. -/
def optionalText? : Value → Option (Option String)
  | .null => some none
  | .string (some text) => some (some text)
  | _ => none

/-- The latest version that an entry gives, if it is an entry. In an object it may be missing, in an
array it may not. -/
def latestOfEntry? (entry : Value) : Option (Option String) :=
  match entry with
  | .array [] => none
  | entry =>
    match Json.fields? ["latest"] entry with
    | some [some value] => optionalText? value
    | some _ => some none
    | none => none

/-- The entries of a printed object: for every name, the latest version if it is given. -/
def outdatedEntries? : Value → Option (List (String × Option String))
  | .object members =>
    members.mapM fun (key, entry) => do
      return (← key, ← latestOfEntry? entry)
  | _ => none

/-- The latest versions in a printed text. -/
def latestVersions (printed : String) : LatestVersions :=
  let entries := do
    let text ← braced? printed.toList
    outdatedEntries? (← Json.parse? text)
  (Dictionary.ofList (entries.getD [])).filterMap fun (name, latest) => latest.map (name, ·)

/-- An entry with what is known about its latest version. Only what the project itself needs is looked
up. -/
def Entry.withLatest (latest : LatestVersions) (entry : Entry) : Entry :=
  match entry.kind with
  | .prod | .dev =>
    let found := latest.lookup entry.name
    { entry with latest := found, outdated := found.isSome }
  | _ => entry

end CodeCensus.Dependency
