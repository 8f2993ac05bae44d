import CodeCensus.CommandLine.Parser
import CodeCensus.Program.Run
import Std.Time.DateTime.Timestamp

/-!
# The program

Reads what a run looks at into memory, runs, prints, and writes the files that the run has changed. The
objects of repositories are not read, so their histories are empty; and no other program is started from
here, so nothing is known about outdated packages.
-/

namespace CodeCensus.Main

open FileSystem (Disk Place Tree Entry)

/-- The place of an absolute path. -/
def placeOf (path : String) : Place :=
  (Path.ofString path).segments.filter (· != [])

/-- Read everything below a directory, and list the files that links lead to. What cannot be read is left
out. -/
partial def readDirectory (path : String) : IO (Tree × List String) := do
  let mut tree := Tree.empty
  let mut targets : List String := []
  for entry in ← (← IO.FS.realPath path).readDir do
    let name := (Path.ofString entry.fileName).bytes
    let below := entry.path.toString
    try
      match (← entry.path.symlinkMetadata).type with
      | .dir =>
        let (inside, more) ← readDirectory below
        tree := .directory name inside tree
        targets := more ++ targets
      | .file => tree := .file name (← IO.FS.readBinFile below) tree
      | .symlink =>
        let target := (← IO.FS.realPath below).toString
        tree := .link name (Path.ofString target) tree
        targets := target :: targets
      | .other => pure ()
    catch _ => pure ()
  pure (tree, targets)

/-- Add a file to a tree if it is missing. -/
def addFile (root : Tree) (path : String) : IO Tree := do
  if (root.at? (placeOf path)).isSome then return root
  try
    let body ← IO.FS.readBinFile path
    return root.putAt (placeOf path) (.file body)
  catch _ => return root

/-- The path of the ignore file of the user, at the usual place. -/
def userIgnorePath? : IO (Option String) := do
  if let some settings ← IO.getEnv "XDG_CONFIG_HOME" then
    return some (settings ++ "/git/ignore")
  return (← IO.getEnv "HOME").map (· ++ "/.config/git/ignore")

/-- Add a directory with everything below it to a tree, and the ignore files around it. -/
def addDirectory (root : Tree) (path : String) : IO Tree := do
  try
    let place := placeOf (← IO.FS.realPath path).toString
    if (root.at? place).isSome then return root
    let (inside, targets) ← readDirectory path
    let mut root := root.putAt place (.directory inside)
    for target in targets do
      root ← addFile root target
    for depth in List.range place.length do
      let above := FileSystem.pathOf (place.take depth)
      for inside in Ignore.Kind.all.filterMap Ignore.Kind.inside? do
        root ← addFile root (Text.lossy (above.join inside).bytes)
    return root
  catch _ => return root

/-- Add an empty directory to a tree where there is a directory that is missing. -/
def addParent (root : Tree) (path : String) : IO Tree := do
  let above := Text.lossy (List.intercalate [Path.slash] (Path.ofString path).segments.dropLast)
  try
    let place := placeOf (← IO.FS.realPath above).toString
    if (root.at? place).isSome then return root
    return root.putAt place (.directory .empty)
  catch _ => return root

/-- The disk as far as a run looks at it. -/
def readDisk (invocation : CommandLine.Invocation) : IO Disk := do
  let working := (← IO.FS.realPath ".").toString
  let mut root ← addDirectory .empty working
  root ← addDirectory root invocation.path
  if let some (.analyze options) := invocation.command then
    if let some output := options.output then
      root ← addParent root output
  let mut userIgnore? : Option FileSystem.UserIgnore := none
  if let some path ← userIgnorePath? then
    root ← addFile root path
    userIgnore? := some ⟨.ofString path, placeOf working⟩
  return { root, working := placeOf working, userIgnore? }

/-- A number of hundredths as a decimal number. -/
def hundredths (n : Nat) : String :=
  toString (n / 100) ++ "." ++ String.ofList (Calendar.padded 2 (n % 100))

/-- The time of the system's clock. -/
def clock : IO Calendar.Moment := do
  let nanos := (← Std.Time.Timestamp.now).toNanosecondsSinceUnixEpoch.val
  have short : (nanos % 1000000000).toNat < Calendar.Instant.second := by
    unfold Calendar.Instant.second
    omega
  return ⟨⟨nanos / 1000000000, (nanos % 1000000000).toNat⟩, .inl short⟩

/-- How the program is used. -/
def usage : String :=
  "Usage: codestat [--log-level <LOG_LEVEL>] [--workers <WORKERS>] [PATH] [init|analyze|help]"

/-- Run for an invocation. -/
def execute (invocation : CommandLine.Invocation) : IO UInt32 := do
  let start ← IO.monoMsNow
  let colour ← (← IO.getStdout).isTty
  let disk ← readDisk invocation
  let outcome := Program.run { disk, now := ← clock, colour } invocation
  for (place, body) in disk.root.changes outcome.disk.root do
    IO.FS.writeBinFile (Text.lossy (FileSystem.pathOf place).bytes) body
  let seconds := hundredths (((← IO.monoMsNow) - start) / 10)
  (← IO.getStdout).putStr (outcome.outputAfter colour seconds)
  (← IO.getStderr).putStr outcome.notices
  match outcome.failure? with
  | none => return 0
  | some failure =>
    IO.eprintln ("Error: " ++ failure.message)
    return 1

end CodeCensus.Main

/-- Run the program with the arguments of the command line. -/
def main (arguments : List String) : IO UInt32 := do
  match CodeCensus.CommandLine.parse arguments with
  | .ok invocation => CodeCensus.Main.execute invocation
  | .error .help =>
    IO.println CodeCensus.Main.usage
    return 0
  | .error .version =>
    IO.println CodeCensus.CommandLine.Rejection.versionText
    return 0
  | .error rejection =>
    IO.eprint (rejection.message?.getD "")
    return 2
