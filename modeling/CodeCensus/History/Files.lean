import CodeCensus.Path

/-!
# The files of a commit

A commit holds all files of the project as they were, with the paths at which they are.
-/

namespace CodeCensus.History

/-- A file in a commit. -/
structure Blob where
  body : ByteArray
  executable : Bool := false

/-- Two files are the same if they have the same bytes and both can be executed or both cannot. -/
instance : DecidableEq Blob := fun a b =>
  decidable_of_iff (a.body.data = b.body.data ∧ a.executable = b.executable) (by
    cases a
    cases b
    simp [ByteArray.ext_iff])

/-- The files of a commit with their paths. -/
abbrev Files := List (List UInt8 × Blob)

end CodeCensus.History
