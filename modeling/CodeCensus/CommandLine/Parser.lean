import CodeCensus.CommandLine.Likeness
import CodeCensus.CommandLine.Settings

/-!
# Reading a command line

The arguments are read one after the other. A parameter can be given by its name or its letter, with its
value in the same argument or in the next one; letters of parameters without values can be put together.
Any other argument names a command or is the path. After two dashes every argument is taken as it is.

A value is only looked at when the next parameter or path comes, or at the end of its level. Something that
is unknown is therefore noticed before a value in front of it that is wrong.
-/

namespace CodeCensus.CommandLine

/-! ### The state of reading -/

/-- A parameter whose value has not been looked at, with the value if it has come. -/
structure Pending where
  parameter : Parameter
  value? : Option String := none
  deriving DecidableEq, Repr

/-- What has been read of a level. -/
structure Reading where
  settings : Settings := {}
  pending? : Option Pending := none
  /-- Whether the path has come. -/
  hasPath : Bool := false
  deriving DecidableEq, Repr

namespace Reading

/-- Look at the value that is pending. -/
def settle (reading : Reading) : Except Rejection Reading :=
  match reading.pending? with
  | none => .ok reading
  | some ⟨parameter, none⟩ => .error (.missingValue parameter)
  | some ⟨parameter, some value⟩ => do
    pure { reading with settings := ← reading.settings.give parameter value, pending? := none }

/-- Whether the next argument is the value of a parameter. -/
def isWaiting (reading : Reading) : Bool :=
  match reading.pending? with
  | some ⟨_, none⟩ => true
  | _ => false

/-- Take an argument as the value that is waited for. -/
def supply (reading : Reading) (value : String) : Reading :=
  { reading with
    pending? := reading.pending?.map fun pending => { pending with value? := some value } }

/-- Read a parameter that is given with its value in the same argument. -/
def attach (reading : Reading) (parameter : Parameter) (value : String) : Except Rejection Reading := do
  let reading ← reading.settle
  pure { reading with settings := ← reading.settings.give parameter value }

/-- Read a parameter whose value is in the next argument. -/
def await (reading : Reading) (parameter : Parameter) : Except Rejection Reading := do
  let reading ← reading.settle
  pure { reading with pending? := some ⟨parameter, none⟩ }

/-- Read a parameter that takes no value. -/
def switch (reading : Reading) (parameter : Parameter) : Except Rejection Reading := do
  let reading ← reading.settle
  pure { reading with settings := ← reading.settings.switch parameter }

/-! ### Arguments with dashes -/

/-- Read a parameter that is given by its name. -/
def long (level : Level) (reading : Reading) (name : String) (value? : Option String) :
    Except Rejection Reading :=
  match level.long? name with
  | none => .error (.unknownArgument ("--" ++ name))
  | some parameter =>
    match parameter.value?, value? with
    | some _, some value => reading.attach parameter value
    | some _, none => reading.await parameter
    | none, some value => .error (.unneededValue parameter value)
    | none, none => reading.switch parameter

/-- What stands behind a letter as the value of its parameter. An equals sign in front does not belong
to the value. -/
def attached? : List Char → Option String
  | [] => none
  | '=' :: value => some (String.ofList value)
  | value => some (String.ofList value)

/-- Read parameters that are given by their letters. -/
def short (level : Level) (reading : Reading) : List Char → Except Rejection Reading
  | [] => .ok reading
  | letter :: rest =>
    match level.short? letter with
    | none => .error (.unknownArgument (String.ofList ['-', letter]))
    | some parameter =>
      if parameter.value?.isSome then
        match attached? rest with
        | some value => reading.attach parameter value
        | none => reading.await parameter
      else do short level (← reading.switch parameter) rest

/-! ### Other arguments -/

/-- Whether a word is so much like the name of a command that it is taken for a wrong one. -/
def resemblesCommand (word : String) : Bool :=
  commands.any fun (name, _) => alike word.toList name.toList

/-- What is wrong with an argument for which there is no place. Only in front of a command can it be a
wrong name of one; a right name behind two dashes is not. -/
def surplus (level : Level) (plain : Bool) (argument : String) : Rejection :=
  let isCommand := (commands.lookup argument).isSome
  if level = .top ∧ !(plain ∧ isCommand) ∧ resemblesCommand argument then .unknownCommand argument
  else .unknownArgument argument

/-- Read the path. -/
def place (level : Level) (reading : Reading) (plain : Bool) (argument : String) :
    Except Rejection Reading :=
  if reading.hasPath then .error (surplus level plain argument)
  else do
    let reading ← reading.settle
    pure { reading with pending? := some ⟨.path, some argument⟩, hasPath := true }

/-- Read arguments that are taken as they are. -/
def plain (level : Level) (reading : Reading) : List String → Except Rejection Reading
  | [] => reading.settle
  | argument :: rest => do plain level (← reading.place level true argument) rest

/-- A kind of argument. -/
inductive Shape where
  | dashes
  | long (name : String) (value? : Option String)
  | short (letters : List Char)
  | word
  deriving DecidableEq, Repr

/-- The kind of an argument. -/
def shapeOf (argument : String) : Shape :=
  match argument.toList with
  | ['-', '-'] => .dashes
  | '-' :: '-' :: rest =>
    let name := String.ofList (rest.takeWhile (· != '='))
    match rest.dropWhile (· != '=') with
    | [] => .long name none
    | _ :: value => .long name (some (String.ofList value))
  | '-' :: c :: rest => .short (c :: rest)
  | _ => .word

/-- Read the arguments behind the name of a command. -/
def level (stage : Level) (reading : Reading) : List String → Except Rejection Reading
  | [] => reading.settle
  | argument :: rest =>
    match shapeOf argument with
    | .dashes => plain stage reading rest
    | .long name value? => do level stage (← reading.long stage name value?) rest
    | .short letters => do level stage (← reading.short stage letters) rest
    | .word =>
      if reading.isWaiting then level stage (reading.supply argument) rest
      else do level stage (← reading.place stage false argument) rest

end Reading

/-! ### The whole command line -/

/-- What is asked for by some settings in front of a command and others behind it. The latter count where
both give a value. -/
def invocation (front behind : Settings) (command : Option Command) : Invocation :=
  let standard : Invocation := {}
  { path := (behind.path <|> front.path).getD standard.path
    logLevel := (behind.logLevel <|> front.logLevel).getD standard.logLevel
    workers := (behind.workers <|> front.workers).getD standard.workers
    command }

/-- The command that opens a level, with its options. -/
def commandOf (options : Analysis.Options) : Level → Option Command
  | .top => none
  | .init => some .init
  | .analyze => some (.analyze options)

/-- Read the arguments behind the word for help: the name of the command that help is asked about. -/
def help : List String → Rejection
  | [] => .help
  | name :: more =>
    if (commands.lookup name).isSome then
      match more with
      | [] => .help
      | other :: _ => .unknownCommand other
    else .unknownCommand name

/-- Read the arguments from the front of a command line on. -/
def front (reading : Reading) : List String → Except Rejection Invocation
  | [] => do pure (invocation (← reading.settle).settings {} none)
  | argument :: rest =>
    match if reading.isWaiting then none else commands.lookup argument with
    | some none => .error (help rest)
    | some (some opened) => do
      let behind ← Reading.level opened {} rest
      let reading ← reading.settle
      pure (invocation reading.settings behind.settings (commandOf behind.settings.options opened))
    | none =>
      match Reading.shapeOf argument with
      | .dashes => do pure (invocation (← Reading.plain .top reading rest).settings {} none)
      | .long name value? => do front (← reading.long .top name value?) rest
      | .short letters => do front (← reading.short .top letters) rest
      | .word =>
        if reading.isWaiting then front (reading.supply argument) rest
        else do front (← reading.place .top false argument) rest

/-- What is asked for by some arguments. -/
def parse (arguments : List String) : Except Rejection Invocation :=
  front {} arguments

end CodeCensus.CommandLine
