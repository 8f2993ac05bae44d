import CodeCensus.CommandLine.Invocation
import CodeCensus.Program.Analyze
import CodeCensus.Program.Init

/-!
# Running the program

What is done for an invocation. A single word that leads nowhere and does not look like a path is taken
for a command that does not exist.
-/

namespace CodeCensus.Program

open Analysis (Surroundings)
open CommandLine (Invocation)

/-- Whether a path that leads nowhere was meant as the name of a command. -/
def looksLikeCommand (disk : FileSystem.Disk) (path : String) : Bool :=
  let cs := path.toList
  !disk.exists? (Path.ofString path) && !cs.contains '/' && !cs.contains '\\' && cs.head? != some '.'

/-- The names of the commands. -/
def commandNames : List String := ["init", "analyze"]

/-- Do what an invocation asks for. -/
def run (around : Surroundings) (invocation : Invocation) : Outcome :=
  let path := invocation.path
  match invocation.command with
  | some .init => init around path
  | some (.analyze options) => analyze around path options invocation.workers
  | none =>
    if looksLikeCommand around.disk path && !commandNames.contains path then
      { disk := around.disk, failure? := some (.unknownCommand path) }
    else analyze around path {} invocation.workers

end CodeCensus.Program
