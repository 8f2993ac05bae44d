import CodeCensus.Text.Utf8

/-!
# Authors

A commit tells who made the change and who put it into the repository, each with a name, an e-mail address
and a time.  Names and addresses are bytes; in tables they are shown where these bytes are a text.
-/

namespace CodeCensus.History

/-! ### Persons -/

/-- Someone who is named in a commit. -/
structure Person where
  name : List UInt8
  email : List UInt8
  deriving DecidableEq, Repr

namespace Person

/-- The name of a person, as far as it is text. -/
def nameText (person : Person) : String :=
  (Text.ofBytes? person.name).getD "Unknown"

/-- The address of a person, as far as it is text. -/
def emailText (person : Person) : String :=
  (Text.ofBytes? person.email).getD ""

end Person

/-! ### Signatures -/

/-- Who did something, and when. Times are counted in seconds from the beginning of 1970. -/
structure Signature where
  person : Person
  time : Int
  deriving DecidableEq, Repr

end CodeCensus.History
