import CodeCensus.CommandLine.Rejection

/-!
# Settings

The values that parameters are given at one level of a command line. Most parameters can be given once;
lists can be given piece by piece.
-/

namespace CodeCensus.CommandLine

/-! ### Reading values -/

/-- The least number that is too large. -/
def numberBound : Nat := Nat.pow 2 64

/-- Read the rest of a number. -/
def digits (n : Nat) : List Char → Except NumberFault Nat
  | [] => .ok n
  | c :: rest =>
    if c.isDigit then
      let next := n * 10 + (c.toNat - '0'.toNat)
      if next < numberBound then digits next rest else .error .tooLarge
    else .error .invalidDigit

/-- The number that a text is. A plus sign may stand in front of it. -/
def number (text : String) : Except NumberFault Nat :=
  match text.toList with
  | [] => .error .empty
  | ['+'] => .error .invalidDigit
  | '+' :: rest => digits 0 rest
  | cs => digits 0 cs

/-- The items of a list that is written with commas. -/
def items (text : String) : List String :=
  (text.toList.splitOn ',').map String.ofList

/-! ### Values that are given -/

/-- The values that parameters are given. -/
structure Settings where
  path : Option String := none
  logLevel : Option LogLevel := none
  workers : Option Nat := none
  options : Analysis.Options := {}
  deriving DecidableEq, Repr

namespace Settings

/-- Give a parameter that has no value yet its value. -/
def once {α : Type} (parameter : Parameter) (old : Option α) (value : Except Rejection α) :
    Except Rejection α :=
  match old with
  | some _ => .error (.repeated parameter)
  | none => value

/-- Read a number for a parameter. -/
def readNumber (parameter : Parameter) (text : String) : Except Rejection Nat :=
  match number text with
  | .ok n => .ok n
  | .error fault => .error (.invalidValue parameter text fault.message)

/-- Read a number of workers. -/
def readWorkers (text : String) : Except Rejection Nat :=
  match number text with
  | .error _ => .error (.invalidValue .workers text ("'" ++ text ++ "' is not a valid number"))
  | .ok n =>
    if n = 0 then .error (.invalidValue .workers text "workers must be at least 1")
    else if Analysis.maxWorkers < n then
      .error (.invalidValue .workers text "workers cannot exceed 64")
    else .ok n

/-- Read one of some choices. A choice that is empty counts as missing. -/
def readChoice {α : Type} (parameter : Parameter) (choice? : String → Option α) (text : String) :
    Except Rejection α :=
  match choice? text with
  | some value => .ok value
  | none =>
    if text.isEmpty then .error (.missingValue parameter) else .error (.invalidChoice parameter text)

/-- Read a path. -/
def readPath (parameter : Parameter) (text : String) : Except Rejection String :=
  if text.isEmpty then .error (.missingValue parameter) else .ok text

/-- The formats that can be chosen. -/
def format? (text : String) : Option String :=
  [Report.Format.text.name, Report.Format.json.name].find? (· = text)

/-- Give an option of an analysis a value. -/
def giveOption (options : Analysis.Options) (parameter : Parameter) (text : String) :
    Except Rejection Analysis.Options := do
  match parameter with
  | .format =>
    let format ← once .format options.format (readChoice .format format? text)
    pure { options with format := some format }
  | .output =>
    let output ← once .output options.output (readPath .output text)
    pure { options with output := some output }
  | .ignore => pure { options with ignore := options.ignore ++ items text }
  | .lang => pure { options with languages := options.languages ++ items text }
  | .top =>
    let top ← once .top options.top (readNumber .top text)
    pure { options with top := some top }
  | .todoTop =>
    let todoTop ← once .todoTop options.todoTop (readNumber .todoTop text)
    pure { options with todoTop := some todoTop }
  | _ => throw (.unneededValue parameter text)

/-- Give a parameter a value. -/
def give (settings : Settings) (parameter : Parameter) (text : String) :
    Except Rejection Settings := do
  match parameter with
  | .path =>
    let path ← once .path settings.path (readPath .path text)
    pure { settings with path := some path }
  | .logLevel =>
    let logLevel ← once .logLevel settings.logLevel (readChoice .logLevel LogLevel.ofName? text)
    pure { settings with logLevel := some logLevel }
  | .workers =>
    let workers ← once .workers settings.workers (readWorkers text)
    pure { settings with workers := some workers }
  | _ =>
    let options ← giveOption settings.options parameter text
    pure { settings with options := options }

/-- Set a parameter that takes no value. -/
def switch (settings : Settings) (parameter : Parameter) : Except Rejection Settings :=
  let options := settings.options
  match parameter with
  | .noGit =>
    if options.noGit then .error (.repeated .noGit)
    else .ok { settings with options := { options with noGit := true } }
  | .checkOutdated =>
    if options.checkOutdated then .error (.repeated .checkOutdated)
    else .ok { settings with options := { options with checkOutdated := true } }
  | .help => .error .help
  | .version => .error .version
  | _ => .error (.missingValue parameter)

end Settings

end CodeCensus.CommandLine
