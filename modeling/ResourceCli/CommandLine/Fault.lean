import ResourceCli.CommandLine.Likely
import ResourceCli.CommandLine.Usage
import ResourceCli.Text.Printable

/-!
# What is wrong with a command line

The faults of a command line, as causes, and the other ways in which reading one ends early: the
description of a command or the version was asked for.  Arguments and commands are named in a
fault as messages show them.
-/

namespace ResourceCli.CommandLine

/-- A fault of a command line. -/
inductive UsageFault
  /-- An argument has no value. -/
  | valueMissing (arg : String) (choices : List String)
  /-- A value is none of the possible ones. -/
  | valueUnknown (value arg : String) (choices : List String)
  /-- A value does not pass the test. -/
  | valueRejected (value arg reason : String)
  /-- A value where none is taken. -/
  | valueUnneeded (value arg : String)
  /-- There is no such argument. -/
  | argumentUnknown (text : String)
  /-- An argument is given twice. -/
  | argumentRepeated (arg : String)
  /-- An argument is given beside others that it excludes. -/
  | argumentsConflict (arg : String) (others : List String)
  /-- Arguments are missing. -/
  | argumentsMissing (args : List String)
  /-- There is no such command. -/
  | commandUnknown (text : String)
  /-- A command is missing. -/
  | commandMissing (called : String) (choices : List String)
  deriving DecidableEq, Repr, Inhabited

/-- The possible values, on a line of their own. -/
def choicesLine (title : String) (choices : List String) : String :=
  if choices.isEmpty then "" else "\n  [" ++ title ++ ": " ++ Text.join ", " choices ++ "]"

/-- The wording of a fault. -/
def UsageFault.message : UsageFault → String
  | valueMissing arg choices =>
    "a value is required for '" ++ arg ++ "' but none was supplied" ++
      choicesLine "possible values" choices
  | valueUnknown value arg choices =>
    "invalid value '" ++ value ++ "' for '" ++ arg ++ "'" ++
      choicesLine "possible values" choices ++
      (match suggestion? value choices with
        | none => ""
        | some choice => "\n\n  tip: a similar value exists: '" ++ choice ++ "'")
  | valueRejected value arg reason =>
    "invalid value '" ++ value ++ "' for '" ++ arg ++ "': " ++ reason
  | valueUnneeded value arg =>
    "unexpected value '" ++ value ++ "' for '" ++ arg ++ "' found; no more were expected"
  | argumentUnknown text => "unexpected argument '" ++ text ++ "' found"
  | argumentRepeated arg => "the argument '" ++ arg ++ "' cannot be used multiple times"
  | argumentsConflict arg others =>
    "the argument '" ++ arg ++ "' cannot be used with" ++
      (match others with
        | [other] => " '" ++ other ++ "'"
        | _ => ":" ++ String.join (others.map ("\n  " ++ ·)))
  | argumentsMissing args =>
    "the following required arguments were not provided:" ++
      String.join (args.map ("\n  " ++ ·))
  | commandUnknown text => "unrecognized subcommand '" ++ text ++ "'"
  | commandMissing called choices =>
    "'" ++ called ++ "' requires a subcommand but one was not provided" ++
      choicesLine "subcommands" choices

/-- Why reading a command line ends early. -/
inductive Stop
  /-- A description was asked for. -/
  | description (text : String)
  /-- Nothing was given, and a description takes its place. -/
  | nothingGiven (text : String)
  /-- The version was asked for. -/
  | version (text : String)
  /-- The command line is wrong; perhaps its right form is shown. -/
  | fault (fault : UsageFault) (usage : Option String)
  deriving DecidableEq, Repr, Inhabited

/-- What is printed when reading ends early. -/
def Stop.rendered : Stop → String
  | description text => text
  | nothingGiven text => text
  | version text => text
  | fault f usage =>
    Text.printable <| "error: " ++ f.message ++ (usage.map ("\n\n" ++ ·)).getD "" ++
      "\n\nFor more information, try '--help'.\n"

/-- Whether the command line is at fault, so that what is printed is an error. -/
def Stop.isError : Stop → Bool
  | description _ => false
  | version _ => false
  | nothingGiven _ => true
  | fault _ _ => true

/-- What is wrong in one line: the first one of what is printed. -/
def Stop.reason : Stop → String
  | fault f _ => Text.firstLine (Text.printable f.message)
  | stop => Text.firstLine stop.rendered

end ResourceCli.CommandLine
