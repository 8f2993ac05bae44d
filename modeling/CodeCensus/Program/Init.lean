import CodeCensus.Program.Outcome

/-!
# The command `init`

A configuration is written for a project that has none. It says what would be done without it.
-/

namespace CodeCensus.Program

open Report (Styled)
open Analysis (Surroundings)

/-- The lines of the configuration that is written. -/
def templateLines : List String :=
  ["# codestat configuration",
    "#",
    "# CLI flags always take precedence over [defaults].",
    "",
    "[exclude]",
    "# Extra globs to skip, relative to this directory",
    "paths = []",
    "",
    "# Set to true to drop the built-in excludes (node_modules, dist, target, ...)",
    "skip_defaults = false",
    "",
    "[defaults]",
    "# Output format (text, json)",
    "format = \"text\"",
    "",
    "# Length of the largest-file, folder and git lists",
    "top = 10",
    "",
    "# Length of the per-file TODO ranking",
    "todo_top = 15",
    "",
    "# Parallel workers (1-64)",
    "workers = 8",
    "",
    "# Skip git history",
    "no_git = false",
    "",
    "# Run `npm outdated` for npm projects",
    "check_outdated = false"]

/-- The configuration that is written. -/
def template : String :=
  String.join (templateLines.map (· ++ "\n"))

/-- What is said about a configuration that is there already. -/
def keptNotice (colour : Bool) (path : Path) : String :=
  shown colour (Styled.paint .green "✓") ++ " " ++
    shown colour (Styled.paint .cyan (Text.lossy path.bytes)) ++
    " already exists, leaving it unchanged\n"

/-- What is said about a configuration that has been written. -/
def createdNotice (colour : Bool) (path : Path) : String :=
  shown colour (Styled.paint .green "✓") ++ " Created " ++
    shown colour (Styled.paint .cyan (Text.lossy path.bytes)) ++ "\n\n" ++
    shown colour (Styled.paint .dim "Run 'codestat' to analyze this directory.") ++ "\n"

/-- Set up the project at a path. -/
def init (around : Surroundings) (path : String) : Outcome :=
  let failed (failure : Failure) : Outcome := { disk := around.disk, failure? := some failure }
  match canonical? around.disk path with
  | none => failed (.missingDirectory path)
  | some root =>
    if around.disk.isDirectory root then
      let config := Config.pathIn root
      if around.disk.exists? config then
        { disk := around.disk, output := keptNotice around.colour config }
      else
        match around.disk.write config template.toUTF8 with
        | .error _ => failed (.unwritableConfig config)
        | .ok disk =>
          let output := createdNotice around.colour config
          -- The template is held against what reads it.
          match Config.load disk config with
          | .error error => { disk, output, failure? := some (.unusableConfig error) }
          | .ok _ => { disk, output }
    else failed (.notDirectory root)

end CodeCensus.Program
