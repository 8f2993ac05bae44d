import CodeCensus.Analysis.Plan

/-!
# Invocations

What is asked for on a command line, and the parameters it is asked with. Every command takes the path
and the parameters for all commands; only an analysis takes the others.
-/

namespace CodeCensus.CommandLine

/-! ### What is asked for -/

/-- How much is logged. -/
inductive LogLevel where
  | error
  | warn
  | info
  | debug
  | trace
  deriving DecidableEq, Repr

namespace LogLevel

/-- All levels, from the least to the most that is logged. -/
def all : List LogLevel :=
  [error, warn, info, debug, trace]

/-- The name of a level. -/
def name : LogLevel → String
  | error => "error"
  | warn => "warn"
  | info => "info"
  | debug => "debug"
  | trace => "trace"

/-- The level of a name. -/
def ofName? (name : String) : Option LogLevel :=
  all.find? fun level => level.name = name

end LogLevel

/-- A command. -/
inductive Command where
  | init
  | analyze (options : Analysis.Options)
  deriving DecidableEq, Repr

/-- What is asked for on a command line. Without a command an analysis is asked for that has no
options. -/
structure Invocation where
  path : String := "."
  logLevel : LogLevel := .warn
  workers : Nat := Analysis.standardWorkers
  command : Option Command := none
  deriving DecidableEq, Repr

/-! ### Parameters -/

/-- The parameters of commands. -/
inductive Parameter where
  | path
  | logLevel
  | workers
  | format
  | output
  | ignore
  | lang
  | top
  | todoTop
  | noGit
  | checkOutdated
  | help
  | version
  deriving DecidableEq, Repr

namespace Parameter

/-- The name of a parameter that is given by name. -/
def long? : Parameter → Option String
  | path => none
  | logLevel => some "log-level"
  | workers => some "workers"
  | format => some "format"
  | output => some "output"
  | ignore => some "ignore"
  | lang => some "lang"
  | top => some "top"
  | todoTop => some "todo-top"
  | noGit => some "no-git"
  | checkOutdated => some "check-outdated"
  | help => some "help"
  | version => some "version"

/-- The letter of a parameter that can be given by a letter. -/
def short? : Parameter → Option Char
  | format => some 'f'
  | output => some 'o'
  | ignore => some 'i'
  | lang => some 'l'
  | top => some 't'
  | help => some 'h'
  | version => some 'V'
  | _ => none

/-- What stands for the value of a parameter in messages, if it takes one. -/
def value? : Parameter → Option String
  | path => some "PATH"
  | logLevel => some "LOG_LEVEL"
  | workers => some "WORKERS"
  | format => some "FORMAT"
  | output => some "OUTPUT"
  | ignore => some "IGNORE"
  | lang => some "LANG"
  | top => some "TOP"
  | todoTop => some "TODO_TOP"
  | noGit | checkOutdated | help | version => none

/-- How a parameter is shown in messages. -/
def shown (parameter : Parameter) : String :=
  match parameter.long?, parameter.value? with
  | some name, some value => "--" ++ name ++ " <" ++ value ++ ">"
  | some name, none => "--" ++ name
  | none, value => "[" ++ value.getD "" ++ "]"

end Parameter

/-! ### Levels of a command line -/

/-- The part of a command line before the name of a command, and the part after it. -/
inductive Level where
  | top
  | init
  | analyze
  deriving DecidableEq, Repr

namespace Level

/-- The parameters that can be given at a level by name. -/
def parameters : Level → List Parameter
  | top => [.logLevel, .workers, .help, .version]
  | init => [.logLevel, .workers, .help]
  | analyze =>
    [.format, .output, .ignore, .lang, .top, .todoTop, .noGit, .checkOutdated, .logLevel, .workers,
      .help]

/-- The parameter of a name. -/
def long? (level : Level) (name : String) : Option Parameter :=
  level.parameters.find? fun parameter => parameter.long? = some name

/-- The parameter of a letter. -/
def short? (level : Level) (letter : Char) : Option Parameter :=
  level.parameters.find? fun parameter => parameter.short? = some letter

end Level

/-- The names that stand for commands, with the level that each of them opens; the name for help opens
none. -/
def commands : List (String × Option Level) :=
  [("init", some .init), ("analyze", some .analyze), ("help", none)]

end CodeCensus.CommandLine
