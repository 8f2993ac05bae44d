import CodeCensus.Text.Utf8

/-!
# Paths

A path is the bytes it is written with. What it names is decided by its parts: the bytes between
slashes, without empty ones, and without single dots except one that opens a relative path. Two paths
with the same parts are the same path for every purpose but one: a path that ends in a slash or in a
dot can only be opened if it leads to a directory.
-/

namespace CodeCensus

/-- A file name, or any other run of bytes inside a path. Names need not be valid UTF-8. -/
abbrev FileName := List UInt8

/-- A path as it is written. -/
structure Path where
  bytes : List UInt8
  deriving DecidableEq, Repr

namespace Path

/-! ### Parts -/

/-- One part of a path. -/
inductive Part where
  /-- The slash in front of an absolute path. -/
  | root
  /-- The single dot that opens a relative path. -/
  | here
  /-- Two dots. -/
  | parent
  /-- A name. -/
  | name (bytes : FileName)
  deriving DecidableEq, Repr, Hashable

/-- The byte between the parts of a path. -/
def slash : UInt8 := 0x2F

/-- The byte of which one makes a path to the same place and two a path to the parent. -/
def dot : UInt8 := 0x2E

/-- The runs of bytes between the slashes of a path, empty ones included. -/
def segments (path : Path) : List FileName :=
  path.bytes.splitOn slash

/-- Whether a path begins at the root. -/
def isAbsolute (path : Path) : Bool :=
  path.bytes.head? == some slash

/-- The part that a segment stands for inside a path; empty segments and single dots stand for
none. -/
def partOf? (segment : FileName) : Option Part :=
  if segment = [] ∨ segment = [dot] then none
  else if segment = [dot, dot] then some .parent
  else some (.name segment)

/-- The parts of a path. -/
def parts (path : Path) : List Part :=
  let inner := path.segments.filterMap partOf?
  if path.isAbsolute then .root :: inner
  else if path.segments.head? = some [dot] then .here :: inner
  else inner

/-! ### Making paths -/

/-- The path that a text is. -/
def ofString (text : String) : Path :=
  ⟨text.toUTF8.toList⟩

/-- A path looked at from inside another one. An absolute path stays what it is. -/
def join (base path : Path) : Path :=
  if path.isAbsolute then path
  else if base.bytes = [] ∨ base.bytes.getLast? = some slash then ⟨base.bytes ++ path.bytes⟩
  else ⟨base.bytes ++ slash :: path.bytes⟩

/-- The file of the given name inside a directory. -/
def child (base : Path) (name : FileName) : Path :=
  base.join ⟨name⟩

/-! ### Relative paths -/

/-- What is left of a list of parts after the parts of a path in front of it. -/
def after? : List Part → List Part → Option (List Part)
  | [], parts => some parts
  | _ :: _, [] => none
  | r :: root, p :: parts => if r = p then after? root parts else none

/-- The names among some parts, joined with slashes. -/
def joinNames (parts : List Part) : String :=
  "/".intercalate <| parts.filterMap fun
    | .name bytes => some (Text.lossy bytes)
    | _ => none

/-- The path from a root to a path below it. A path that is not below the root is taken whole. -/
def relativeTo (root path : Path) : String :=
  joinNames ((after? root.parts path.parts).getD path.parts)

/-! ### Names and extensions -/

/-- The last part of a path, if it is a name. -/
def fileName? (path : Path) : Option FileName :=
  match path.parts.getLast? with
  | some (.name name) => some name
  | _ => none

/-- The bytes after the last dot of a name. A dot in front does not count, and neither do the dots
of a name of two dots. -/
def extensionOf? (name : FileName) : Option FileName :=
  match name.reverse.span (· != dot) with
  | (after, _ :: _ :: _) => some after.reverse
  | _ => none

/-- The extension of the last part of a path. -/
def extension? (path : Path) : Option FileName :=
  path.fileName?.bind extensionOf?

end Path

end CodeCensus
