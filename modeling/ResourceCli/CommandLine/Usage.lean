import ResourceCli.CommandLine.Basic

/-!
# How a command is used

The line that shows the form of a command: its name, the arguments it needs, and the places of the
others.  Without further knowledge the named arguments that may be left out are one mark; when it
is known which arguments were used, these are shown instead.
-/

namespace ResourceCli.CommandLine

/-- Whether a command has named arguments that may be left out, other than those that every
command has. -/
def needsOptionsMark (c : Command) : Bool :=
  c.options.any fun a =>
    a.long != some "help" && a.long != some "version" && a.action != .help &&
      a.action != .version && !a.required

/-- The arguments of a usage line: needed and used ones as if they were required, then all places.
Every part starts with a blank. -/
def usageArgs (c : Command) (used : List String) : String :=
  let needed := (c.args.filter (·.required)).map Arg.id
  let shown := (needed ++ used).filterMap c.arg?
  let options := (shown.filter (!·.isPositional)).map (·.shownAs true)
  let places := c.positionals.map fun a =>
    a.shownAs ((needed ++ used).contains a.id)
  String.join ((options.eraseDups ++ places).map (" " ++ ·))

/-- The usage line of a command that is called by a name; `used` are the arguments known to be
used. -/
def usageLine (called : String) (c : Command) (used : List String) : String :=
  called ++ (if used.isEmpty && needsOptionsMark c then " [OPTIONS]" else "") ++
    usageArgs c used ++
    (if c.subcommandRequired && (!used.isEmpty || !c.subcommands.isEmpty) then " <COMMAND>"
    else if used.isEmpty && !c.subcommands.isEmpty then " [COMMAND]"
    else "")

/-- The arguments of a group, one of which is used. -/
def groupText (c : Command) : String :=
  let members := c.args.filter fun a => a.action != .help && a.action != .version
  "<" ++ Text.join "|" (members.map fun a => if a.isPositional then a.valueName else a.shown) ++
    ">"

/-- The usage line of a group with its title. -/
def groupUsage (called : String) (c : Command) : String :=
  "Usage: " ++ called ++ " " ++ groupText c

/-- The usage line with its title. -/
def usage (called : String) (c : Command) (used : List String) : String :=
  "Usage: " ++ usageLine called c used

end ResourceCli.CommandLine
