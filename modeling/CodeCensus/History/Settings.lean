import CodeCensus.History.Directory

/-!
# Settings of a repository

A repository may have a file with settings. A setting is a variable in a section, with a value or without
one. A value may go on in the next line, parts of it may be in quotes, and some characters may be written
with a backslash.

A repository can be used if its settings can be read and tell of nothing that is unknown here: a version of
the format, extensions of it, another kind of names for objects, or a directory for its files that is not
there.
-/

namespace CodeCensus.History

open FileSystem (Disk)

/-- A setting: the names of its section and its variable with a dot between them, and its value. -/
abbrev Setting := List UInt8 × Option (List UInt8)

namespace Setting

/-! ### Sections -/

/-- Whether a byte may stand in the name of a section or of a variable. -/
def isNameByte (byte : UInt8) : Bool :=
  isDigit 36 byte || byte == 0x2D

/-- The part of the name of a section that is in quotes, and what follows the header. -/
def quoted? (read : List UInt8) : List UInt8 → Option (List UInt8 × List UInt8)
  | [] => none
  | 0x22 :: 0x5D :: rest => some (read.reverse, rest)
  | 0x22 :: _ => none
  | 0x5C :: byte :: rest => quoted? (byte :: read) rest
  | byte :: rest => quoted? (byte :: read) rest

/-- The section in a header, and what follows it. The name may have a second part in quotes. -/
def header? (text : List UInt8) : Option (List UInt8 × List UInt8) :=
  let (name, rest) := text.tail.span fun byte => isNameByte byte || byte == Path.dot
  let name := name.map lower
  match rest with
  | 0x5D :: after => if name = [] then none else some (name, after)
  | byte :: after =>
    if isSpace byte then
      match after.dropWhile isSpace with
      | 0x22 :: inside => (quoted? [] inside).map fun (part, after) => (name ++ Path.dot :: part, after)
      | _ => none
    else none
  | [] => none

/-- Whether some bytes begin with the bracket of a header. -/
def isHeader (text : List UInt8) : Bool :=
  text.head? == some 0x5B

/-- The section of the last one of several headers, and what follows it without blanks. There are at most
as many headers as bytes. -/
def headers? : Nat → List UInt8 → Option (List UInt8 × List UInt8)
  | 0, _ => none
  | fuel + 1, text => do
    let (name, after) ← header? text
    let rest := after.dropWhile isSpace
    if isHeader rest then headers? fuel rest else pure (name, rest)

/-! ### Values -/

/-- Some bytes without a comment at the end, and the number of quotes in front of it. So many quotes have
been read before, and the byte in front of these bytes is given, as well as the number of backslashes that
end there. -/
def uncommented (previous? : Option UInt8) (quotes slashes : Nat) :
    List UInt8 → List UInt8 × Nat
  | [] => ([], quotes)
  | byte :: rest =>
    let quotes := if byte = 0x22 ∧ previous? ≠ some 0x5C then quotes + 1 else quotes
    if (byte = 0x3B ∨ byte = 0x23) ∧ quotes % 2 = 0 ∧ slashes % 2 = 0 then ([], quotes)
    else
      let (kept, all) := uncommented (some byte) quotes (if byte = 0x5C then slashes + 1 else 0) rest
      (byte :: kept, all)

/-- A line without a comment and blanks at the end, and the number of quotes in it and before it. -/
def cleaned (quotes : Nat) (line : List UInt8) : List UInt8 × Nat :=
  let (kept, all) := uncommented none quotes 0 line
  (trimEnd kept, all)

/-- The byte that is written as a backslash and another byte. -/
def escaped? (byte : UInt8) : Option UInt8 :=
  if byte = 0x6E then some 0x0A
  else if byte = 0x74 then some 0x09
  else if byte = 0x62 then some 0x08
  else if byte = 0x22 ∨ byte = 0x5C then some byte
  else none

/-- The bytes that a written value stands for, and whether it goes on in the next line. -/
def unescaped? : List UInt8 → Option (List UInt8 × Bool)
  | [] => some ([], false)
  | 0x22 :: rest => unescaped? rest
  | [0x5C] => some ([], true)
  | 0x5C :: byte :: rest => do
    let (value, goesOn) ← unescaped? rest
    pure ((← escaped? byte) :: value, goesOn)
  | byte :: rest => (unescaped? rest).map fun (value, goesOn) => (byte :: value, goesOn)

/-- The rest of a value that goes on in some lines, and the lines after it. Lines with nothing but a comment
are passed over. -/
def continued? (quotes : Nat) : List (List UInt8) → Option (List UInt8 × List (List UInt8))
  | [] => some ([], [])
  | line :: rest => do
    let (text, quotes) := cleaned quotes (untilZero line)
    if text = [] then continued? quotes rest
    else
      let (value, goesOn) ← unescaped? text
      if goesOn then
        let (more, rest) ← continued? quotes rest
        pure (value ++ more, rest)
      else pure (value, rest)

/-! ### Variables -/

/-- The variable that begins in a line, with the lines behind this one, and the lines that are left. -/
def settingAt? (fromSection : List UInt8) (line : List UInt8) (lines : List (List UInt8)) :
    Option (Setting × List (List UInt8)) := do
  let (text, quotes) := cleaned 0 (untilZero line)
  let (name, rest) := text.span isNameByte
  guard (name ≠ [])
  let name := fromSection ++ name.map lower
  match rest.dropWhile isSpace with
  | [] => pure ((name, none), lines)
  | 0x3D :: written =>
    let (value, goesOn) ← unescaped? (written.dropWhile isSpace)
    if goesOn then
      let (more, lines) ← continued? (quotes % 2) lines
      pure ((name, some (value ++ more)), lines)
    else pure ((name, some value), lines)
  | _ => none

/-- Whether a line begins a comment. -/
def isComment (text : List UInt8) : Bool :=
  text.head? == some 0x23 || text.head? == some 0x3B

/-- Whether a line of blanks begins with one that has no place there. -/
def isOdd (line : List UInt8) : Bool :=
  line.head? == some 0x0B || line.head? == some 0x0C

/-- The settings in some lines, of which each step reads at least one. What the names of variables begin
with is given: the section and a dot, if there is a section. -/
def listed? : Nat → List UInt8 → List (List UInt8) → Option (List Setting)
  | 0, _, _ => some []
  | _, _, [] => some []
  | fuel + 1, fromSection, line :: lines => do
    let text := line.dropWhile isSpace
    if text = [] then
      if isOdd line then none else listed? fuel fromSection lines
    else
      let (fromSection, text) ←
        if isHeader text then (headers? text.length (untilZero text)).map fun (name, rest) =>
          (name ++ [Path.dot], rest)
        else some (fromSection, text)
      if text = [] || isComment text then listed? fuel fromSection lines
      else
        let (setting, lines) ← settingAt? fromSection text lines
        pure (setting :: (← listed? fuel fromSection lines))

/-- The mark of a text in UTF-8. -/
def textMark : List UInt8 :=
  [0xEF, 0xBB, 0xBF]

/-- The settings in a file, unless something in it cannot be read. -/
def allIn? (bytes : List UInt8) : Option (List Setting) :=
  let text := if textMark.isPrefixOf bytes then bytes.drop textMark.length else bytes
  let lines := text.splitOn 0x0A
  listed? lines.length [] lines

end Setting

/-! ### Using settings -/

/-- The settings of a repository. -/
abbrev Settings := List Setting

namespace Settings

/-- The value of a variable that is set, if it has one. If it is set several times, the last one counts. -/
def find? (settings : Settings) (name : String) : Option (Option (List UInt8)) :=
  settings.reverse.lookup name.toUTF8.toList

/-- The factor that a letter behind a number stands for. -/
def factor? (rest : List UInt8) : Option Int :=
  match rest.map lower with
  | [] => some 1
  | [0x6B] => some 1024
  | [0x6D] => some (1024 * 1024)
  | [0x67] => some (1024 * 1024 * 1024)
  | _ => none

/-- The number that a value is, if it is one with no more than 32 bits. -/
def number? (value : List UInt8) : Option Int := do
  let (size, rest) ← integerAt? anyBase value
  let number := size * (← factor? rest)
  guard (-Int.pow 2 31 ≤ number ∧ number < Int.pow 2 31)
  pure number

/-- Whether a value says yes or no. -/
def isChoice (value : List UInt8) : Bool :=
  value = [] ||
    ["true", "yes", "on", "false", "no", "off"].any (fun word => word.toUTF8.toList = value.map lower) ||
    (number? value).isSome

/-- The version of the format of a repository. -/
def version? (settings : Settings) : Option Int :=
  match settings.find? "core.repositoryformatversion" with
  | none => some 0
  | some value => value.bind number?

/-- What the names of extensions begin with. -/
def extensionFront : List UInt8 :=
  "extensions.".toUTF8.toList

/-- The names of extensions that are known. -/
def extensions : List (List UInt8) :=
  ["noop", "objectformat", "worktreeconfig", "preciousobjects"].map fun name =>
    extensionFront ++ name.toUTF8.toList

/-- Whether all extensions are known, and the objects have names of the usual kind. -/
def extensionsFit (settings : Settings) : Bool :=
  (settings.all fun (name, _) => !extensionFront.isPrefixOf name || extensions.contains name) &&
    match settings.find? "extensions.objectformat" with
    | none => true
    | some value => value == some "sha1".toUTF8.toList

/-- Whether the format of a repository is known. -/
def formatFits (settings : Settings) : Bool :=
  match settings.version? with
  | some version => version == 0 || version == 1 && settings.extensionsFit
  | none => false

/-- Whether a repository says properly that it has no files of its own or that it has some. -/
def bareFits (settings : Settings) : Bool :=
  match settings.find? "core.bare" with
  | some (some value) => isChoice value
  | _ => true

/-- Whether a repository has no files of its own. -/
def isBare (settings : Settings) : Bool :=
  match settings.find? "core.bare" with
  | none => false
  | some none => true
  | some (some value) =>
    ["true", "yes", "on"].any (fun word => word.toUTF8.toList = value.map lower) ||
      (number? value).any (· != 0)

/-- Whether the directory for the files of a repository is there, if one is named. -/
def filesFit (settings : Settings) (disk : Disk) (directory : Directory) : Bool :=
  let linked := (disk.read (pathIn directory.own "gitdir")).isOk
  match settings.find? "core.worktree" with
  | some (some value) =>
    linked || settings.isBare || value ≠ [] && (named? disk directory.own value).isSome
  | _ => true

end Settings

/-- Whether a repository can be used as far as its settings tell. -/
def Directory.isUsable (directory : Directory) (disk : Disk) : Bool :=
  match disk.read (pathIn directory.common "config") with
  | .error _ => true
  | .ok body =>
    match Setting.allIn? body.toList with
    | none => false
    | some settings =>
      Settings.formatFits settings && Settings.bareFits settings &&
        Settings.filesFit settings disk directory

end CodeCensus.History
