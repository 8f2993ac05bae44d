import CodeCensus.CommandLine.ControlCodes
import CodeCensus.CommandLine.Invocation

/-!
# Rejections

Why a command line is not run: because it asks for help or for the version, or because there is
something wrong with it.
-/

namespace CodeCensus.CommandLine

/-- Why a text is not a natural number. -/
inductive NumberFault where
  | empty
  | invalidDigit
  | tooLarge
  deriving DecidableEq, Repr

/-- What is said about a text that is not a natural number. -/
def NumberFault.message : NumberFault → String
  | empty => "cannot parse integer from empty string"
  | invalidDigit => "invalid digit found in string"
  | tooLarge => "number too large to fit in target type"

/-- Why a command line is not run. -/
inductive Rejection where
  | help
  | version
  /-- An argument that nothing is known about. -/
  | unknownArgument (argument : String)
  /-- A name of a command that is not one. -/
  | unknownCommand (name : String)
  /-- A parameter without its value. -/
  | missingValue (parameter : Parameter)
  /-- A value that is none of those that a parameter may have. -/
  | invalidChoice (parameter : Parameter) (value : String)
  /-- A value that a parameter cannot have for some reason. -/
  | invalidValue (parameter : Parameter) (value reason : String)
  /-- A value for a parameter that takes none. -/
  | unneededValue (parameter : Parameter) (value : String)
  /-- A parameter that is given more than once. -/
  | repeated (parameter : Parameter)
  deriving DecidableEq, Repr

namespace Rejection

/-- The version of this program. -/
def versionText : String := "codestat 0.1.0"

/-- A text that is set off from what stands around it, between a control sequence and the one that ends
its effect. Nothing that is left open in the text reaches beyond. -/
def highlight (text : String) : String :=
  "\x1b[1m" ++ text ++ "\x1b[0m"

/-- A highlighted text in quotes. -/
def quote (text : String) : String :=
  "'" ++ highlight text ++ "'"

/-- What is wrong with a command line, if anything is. -/
def complaint? : Rejection → Option String
  | help | version => none
  | unknownArgument argument => some ("unexpected argument " ++ quote argument ++ " found")
  | unknownCommand name => some ("unrecognized subcommand " ++ quote name)
  | missingValue parameter =>
    some ("a value is required for " ++ quote parameter.shown ++ " but none was supplied")
  | invalidChoice parameter value =>
    some ("invalid value " ++ quote value ++ " for " ++ quote parameter.shown)
  | invalidValue parameter value reason =>
    some ("invalid value " ++ quote value ++ " for " ++ quote parameter.shown ++ ": " ++ reason)
  | unneededValue parameter value =>
    some ("unexpected value " ++ quote value ++ " for " ++ quote parameter.shown ++
      " found; no more were expected")
  | repeated parameter =>
    some ("the argument " ++ quote parameter.shown ++ " cannot be used multiple times")

/-- What is said about a command line that is not run, if it is more than help. Control codes are left
out, those in arguments included. -/
def message? : Rejection → Option String
  | version => some versionText
  | rejection => rejection.complaint?.map fun complaint =>
    ControlCodes.strip <| highlight "error:" ++ " " ++ complaint ++
      "\n\nFor more information, try " ++ quote "--help" ++ ".\n"

end Rejection

end CodeCensus.CommandLine
