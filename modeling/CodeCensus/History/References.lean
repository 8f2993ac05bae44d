import CodeCensus.History.Directory

/-!
# References

A reference is a name for a commit, or for another reference. Most references have files of their own,
with their names as paths; others are packed into one file, line by line. A reference with a file of its
own hides a packed one of the same name.
-/

namespace CodeCensus.History

open FileSystem (Disk Place Tree)

/-- The name of a commit: forty hexadecimal digits in lower case. -/
abbrev CommitId := String

/-- The name of a reference. -/
abbrev ReferenceName := List UInt8

/-- What a reference stands for. -/
inductive Target where
  | commit (id : CommitId)
  | reference (name : ReferenceName)
  deriving DecidableEq, Repr

/-! ### Reading references -/

/-- The number of digits of the name of a commit. -/
def idLength : Nat := 40

/-- A hexadecimal digit in lower case. -/
def hexDigit? (byte : UInt8) : Option Char :=
  if isDigit 16 byte then some (Char.ofNat (lower byte).toNat) else none

/-- The name of a commit at the front of some bytes, and the bytes after it. -/
def idAt? (bytes : List UInt8) : Option (CommitId × List UInt8) := do
  let digits ← (bytes.take idLength).mapM hexDigit?
  guard (digits.length = idLength)
  pure (String.ofList digits, bytes.drop idLength)

/-- What stands in front of the name of another reference. -/
def referenceMark : List UInt8 :=
  "ref: ".toUTF8.toList

/-- What the text of a reference stands for, unless it is corrupt. -/
def Target.ofText? (text : List UInt8) : Option Target :=
  if referenceMark.isPrefixOf text then
    match (trimEnd text).drop referenceMark.length with
    | [] => none
    | name => some (.reference (untilZero name))
  else
    match idAt? text with
    | some (id, []) => some (.commit id)
    | some (id, byte :: _) => if byte == 0 || isSpace byte then some (.commit id) else none
    | none => none

/-! ### Packed references -/

/-- Some bytes without a carriage return at the end. -/
def withoutReturn (bytes : List UInt8) : List UInt8 :=
  if bytes.getLast? = some 0x0D then bytes.dropLast else bytes

/-- Whether a line tells what the object of the reference in front of it stands for. -/
def isPeeled (line : List UInt8) : Bool :=
  line.head? == some 0x5E

/-- The references in some lines; nothing if a line is corrupt. Behind a line with a reference there may
be one that tells what its object stands for. -/
def packedIn? (behind : Bool) : List (List UInt8) → Option (List (ReferenceName × CommitId))
  | [] => some []
  | line :: rest =>
    if behind && isPeeled line then do
      let _ ← idAt? line.tail
      packedIn? false rest
    else do
      let (id, after) ← idAt? line
      guard (after.head? = some 0x20)
      pure ((withoutReturn after.tail, id) :: (← packedIn? true rest))

/-- The references in a file of packed ones; nothing if it is corrupt. Comments may come first. -/
def packedOf? (text : List UInt8) : Option (List (ReferenceName × CommitId)) :=
  let lines := text.splitOn 0x0A
  let terminated := lines.dropLast.dropWhile fun line => line.head? == some 0x23
  match lines.getLast? with
  | none | some [] => packedIn? false terminated
  | some last => if isPeeled last then packedIn? false (terminated ++ [last]) else none

namespace Directory

/-- The packed references of a repository; nothing if their file is corrupt. -/
def packed? (directory : Directory) (disk : Disk) : Option (List (ReferenceName × CommitId)) :=
  match disk.read (pathIn directory.common "packed-refs") with
  | .ok body => packedOf? body.toList
  | .error _ => some []

/-! ### Looking up references -/

/-- What the names of references begin with that repositories with the same objects have in common. -/
def sharedFront : List UInt8 :=
  "refs/".toUTF8.toList

/-- What the names of the exceptions begin with, which each repository has for itself. -/
def ownFront : List UInt8 :=
  "refs/bisect/".toUTF8.toList

/-- Whether a reference is one that repositories with the same objects have in common. -/
def isShared (name : ReferenceName) : Bool :=
  sharedFront.isPrefixOf name && !ownFront.isPrefixOf name

/-- What the file of a reference says, if there is one. -/
def file? (directory : Directory) (disk : Disk) (name : ReferenceName) : Option (List UInt8) :=
  let place := if isShared name then directory.common else directory.own
  ((disk.read ((FileSystem.pathOf place).child name)).toOption).map ByteArray.toList

/-- What a reference stands for. -/
def target? (directory : Directory) (disk : Disk) (name : ReferenceName) : Option Target :=
  match directory.file? disk name with
  | some text => Target.ofText? text
  | none => do
    let packed ← directory.packed? disk
    (packed.reverse.lookup name).map .commit

/-- The most references that are followed one after the other. -/
def maxHops : Nat := 5

/-- The commit that a target stands for, when at most so many references are followed. -/
def resolve? (directory : Directory) (disk : Disk) : Nat → Target → Option CommitId
  | _, .commit id => some id
  | 0, .reference _ => none
  | hops + 1, .reference name => do resolve? directory disk hops (← directory.target? disk name)

/-! ### Names of references -/

/-- Bytes that no name of a reference has, besides blanks and control characters. -/
def forbidden : List UInt8 :=
  "~^:\\?[*".toUTF8.toList

/-- Whether one list of bytes occurs in another. -/
def occurs (needle : List UInt8) : List UInt8 → Bool
  | [] => needle.isEmpty
  | byte :: bytes => needle.isPrefixOf (byte :: bytes) || occurs needle bytes

/-- The end of the names of files that are only there for a while. -/
def lockEnding : List UInt8 :=
  ".lock".toUTF8.toList

/-- Whether some bytes may stand between the slashes of a name. -/
def isSegment (bytes : List UInt8) : Bool :=
  bytes.head? != some Path.dot && bytes.all (fun byte => 0x20 < byte && !forbidden.contains byte) &&
    !occurs "..".toUTF8.toList bytes && !occurs "@\x7b".toUTF8.toList bytes &&
    !lockEnding.isSuffixOf bytes

/-- Whether a segment looks like the name of a head: capitals with underscores between them. -/
def isHeadName (bytes : List UInt8) : Bool :=
  bytes.all (fun byte => 0x41 ≤ byte && byte ≤ 0x5A || byte == 0x5F) &&
    bytes.head? != some 0x5F && bytes.getLast? != some 0x5F

/-- Whether some bytes are a name for a reference. Only names of heads have a single segment, and they
have no others. -/
def isName (bytes : List UInt8) : Bool :=
  let segments := (bytes.splitOn Path.slash).filter (· ≠ [])
  bytes.head? != some Path.slash && bytes.getLast? != some Path.slash &&
    bytes.getLast? != some Path.dot && segments.all isSegment &&
    match segments with
    | [] => false
    | [only] => isHeadName only
    | first :: _ => !isHeadName first

/-- The commit that the head of a repository stands for. The head may only stand for a reference with a
proper name. -/
def head? (directory : Directory) (disk : Disk) : Option CommitId := do
  let target ← directory.target? disk "HEAD".toUTF8.toList
  match target with
  | .commit id => pure id
  | .reference name =>
    guard (isName name)
    directory.resolve? disk maxHops target

/-! ### All references -/

/-- The names of everything below a directory but the directories themselves. -/
def namesIn (above : List FileName) : Tree → List (List FileName)
  | .empty => []
  | .file name _ rest => (above ++ [name]) :: namesIn above rest
  | .link name _ rest => (above ++ [name]) :: namesIn above rest
  | .directory name inside rest => namesIn (above ++ [name]) inside ++ namesIn above rest

/-- The names of the references that have files of their own which can be read. -/
def loose (directory : Directory) (disk : Disk) : List ReferenceName :=
  match disk.entry? (pathIn directory.common "refs") with
  | .ok (.directory inside) =>
    let names := (namesIn ["refs".toUTF8.toList] inside).map (List.intercalate [Path.slash])
    names.filter fun name => !lockEnding.isSuffixOf name &&
      ((directory.file? disk name).bind Target.ofText?).isSome
  | _ => []

/-- The names of all references; none if those that are packed cannot be read. -/
def references (directory : Directory) (disk : Disk) : List ReferenceName :=
  match directory.packed? disk with
  | none => []
  | some packed => (directory.loose disk ++ packed.map Prod.fst).eraseDups

end Directory

end CodeCensus.History
