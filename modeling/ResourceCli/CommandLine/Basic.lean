import ResourceCli.Text.Split

/-!
# Commands and their arguments

What a command line may look like: a command has arguments, and may have commands below it.  An
argument without a name of its own stands at a place; the others are written `--name` or `-n`.

A command as it is declared leaves out what every command has: the flag for its description, and
the command that describes the commands below it.  `Command.completed` adds them, and hands the
global arguments down.
-/

namespace ResourceCli.CommandLine

/-- What an argument does when it is met. -/
inductive Action
  /-- Keeps its value; it may be given once. -/
  | set
  /-- Keeps all of its values. -/
  | append
  /-- Is set, and takes no value. -/
  | flag
  /-- Asks for the description of the command. -/
  | help
  /-- Asks for the version. -/
  | version
  deriving DecidableEq, Repr, Inhabited

/-- Which values an argument takes. -/
inductive ValueRule
  /-- Any text. -/
  | any
  /-- A text that is not empty. -/
  | nonEmpty
  /-- One of these. -/
  | oneOf (choices : List String)
  /-- A text that passes a test; the test says what is wrong with it. -/
  | tested (test : String → Option String)

/-- An argument. -/
structure Arg where
  /-- What its values are kept under. -/
  id : String
  /-- The name after two hyphens. -/
  long : Option String := none
  /-- The letter after one hyphen. -/
  short : Option Char := none
  /-- What stands for a value in descriptions. -/
  valueName : String := ""
  /-- What it is. -/
  help : String := ""
  /-- What it is, in full. -/
  longHelp : Option String := none
  /-- What it does. -/
  action : Action := .set
  /-- Which values it takes. -/
  rule : ValueRule := .any
  /-- Whether it has to be given. -/
  required : Bool := false
  /-- Whether the commands below have it too. -/
  isGlobal : Bool := false
  /-- Whether a value may start with a hyphen. -/
  hyphenValues : Bool := false
  /-- Whether all that follows its first value belongs to it. -/
  trailing : Bool := false
  /-- The value when it is given without one; then a value has to follow an equals sign. -/
  impliedValue : Option String := none
  /-- The value when it is not given. -/
  default : Option String := none
  /-- The arguments that it cannot be given with. -/
  conflicts : List String := []
  /-- Its place in a description; those of equal place are sorted by name. -/
  order : Nat := 999

namespace Arg

/-- Whether the argument stands at a place. -/
def isPositional (a : Arg) : Bool := a.long.isNone && a.short.isNone

/-- Whether the argument takes a value. -/
def takesValue (a : Arg) : Bool := a.action == .set || a.action == .append

/-- The choices among which a value is one. -/
def choices (a : Arg) : List String :=
  match a.rule with
  | .oneOf choices => choices
  | _ => []

/-- What stands for the value: in angle brackets, or in square ones if it may be left out. -/
def valueText (a : Arg) (required : Bool) : String :=
  let bare := if a.isPositional && !required then "[" ++ a.valueName ++ "]"
    else "<" ++ a.valueName ++ ">"
  bare ++ if a.isPositional && a.action == .append then "..." else ""

/-- What follows the name of the argument. -/
def suffix (a : Arg) (required : Bool) : String :=
  if !a.takesValue then ""
  else if a.isPositional then a.valueText required
  else if a.impliedValue.isSome then "[=" ++ a.valueText required ++ "]"
  else " " ++ a.valueText required

/-- The argument as it is written, with what stands for its value. -/
def shownAs (a : Arg) (required : Bool) : String :=
  (match a.long, a.short with
    | some name, _ => "--" ++ name
    | none, some letter => "-" ++ String.singleton letter
    | none, none => "") ++ a.suffix required

/-- The argument as messages name it. -/
def shown (a : Arg) : String := a.shownAs a.required

end Arg

/-- A command. -/
structure Command where
  /-- Its name. -/
  name : String
  /-- What it does. -/
  about : String := ""
  /-- What it does, in full. -/
  longAbout : Option String := none
  /-- The version of the program, if it can be asked for. -/
  version : Option String := none
  /-- Its arguments. -/
  args : List Arg := []
  /-- The commands below it. -/
  subcommands : List Command := []
  /-- Whether one of the commands below it has to be named. -/
  subcommandRequired : Bool := false
  /-- Whether it describes itself when no argument is given. -/
  helpWithoutArgs : Bool := false
  /-- Whether its description can be asked for. -/
  hasHelp : Bool := true
  /-- Whether its arguments are a group, which is shown as a whole once one of them is used. -/
  isGroup : Bool := false
  deriving Inhabited

/-- The arguments with their places in a description: those with a name in the order given. -/
def numberedFrom (n : Nat) : List Arg → List Arg
  | [] => []
  | a :: rest =>
    if a.isPositional then a :: numberedFrom n rest
    else { a with order := n } :: numberedFrom (n + 1) rest

namespace Command

/-- The command with arguments. -/
def withArgs (c : Command) (args : List Arg) : Command :=
  { c with args := numberedFrom 0 args }

/-- Whether there is more to say than the short description does. -/
def hasLongHelp (c : Command) : Bool :=
  c.longAbout.isSome || c.args.any (·.longHelp.isSome)

/-- The flag for the description. -/
def helpArg (c : Command) : Arg :=
  if c.hasLongHelp then
    { id := "help", long := some "help", short := some 'h', action := .help
      help := "Print help (see more with '--help')"
      longHelp := some "Print help (see a summary with '-h')" }
  else
    { id := "help", long := some "help", short := some 'h', action := .help
      help := "Print help" }

/-- The flag for the version. -/
def versionArg : Arg :=
  { id := "version", long := some "version", short := some 'V', action := .version
    help := "Print version" }

/-- The command that describes the other ones. -/
def helpCommand : Command where
  name := "help"
  about := "Print this message or the help of the given subcommand(s)"
  args := [{
    id := "subcommand", valueName := "COMMAND", action := .append
    help := "Print help for the subcommand(s)" }]
  hasHelp := false

/-- The command with the global arguments of the one above it. -/
def inheriting (globals : List Arg) (c : Command) : Command :=
  { c with args := c.args ++ globals.filter fun g => !c.args.any (·.id == g.id) }

/-- The command with what every command has, and with its global arguments handed down. -/
def completed (c : Command) : Command :=
  let globals := c.args.filter (·.isGlobal)
  { c with
    args := c.args ++ (if c.hasHelp then [c.helpArg] else []) ++
      (if c.version.isSome then [versionArg] else [])
    subcommands := c.subcommands.map (inheriting globals) ++
      if c.subcommands.isEmpty then [] else [helpCommand] }

/-- The arguments that stand at places. -/
def positionals (c : Command) : List Arg := c.args.filter (·.isPositional)

/-- The arguments that have a name. -/
def options (c : Command) : List Arg := c.args.filter (!·.isPositional)

/-- The argument at a place, counted from one. -/
def positional? (c : Command) (place : Nat) : Option Arg :=
  if place == 0 then none else c.positionals[place - 1]?

/-- The argument of a name. -/
def long? (c : Command) (name : String) : Option Arg := c.args.find? (·.long == some name)

/-- The argument of a letter. -/
def short? (c : Command) (letter : Char) : Option Arg :=
  c.args.find? (·.short == some letter)

/-- The argument whose values are kept under an id. -/
def arg? (c : Command) (id : String) : Option Arg := c.args.find? (·.id == id)

/-- The command of a name below the command. -/
def subcommand? (c : Command) (name : String) : Option Command :=
  c.subcommands.find? (·.name == name)

end Command

end ResourceCli.CommandLine
