import ResourceCli.Alias.Store
import ResourceCli.Program.Conversion
import ResourceCli.Program.Options

/-!
# The program's own commands

The word `core` in place of an API is for the program itself: its commands keep the aliases and
convert documents.  A description that is asked for is an answer like others; a fault of the
command line is a failure of the run.
-/

namespace ResourceCli

open CommandLine

/-- The word for the program's own commands. -/
def coreName : String := "core"

/-- A command that only leads to others. -/
def groupCommand (name about : String) (subcommands : List Command) : Command where
  name := name
  about := about
  subcommands := subcommands
  subcommandRequired := true
  helpWithoutArgs := true

/-- The argument for the name of an alias. -/
def aliasNameArg : Arg where
  id := "name"
  valueName := "NAME"
  help := "Name of the alias"
  required := true

/-- The option for what the paths of a document start with. -/
def pathPrefixArg : Arg :=
  { option "path-prefix" "PREFIX" "Prefix stripped from document paths" with
    default := some "" }

/-- The command that stores an alias. -/
def addCommand : Command :=
  Command.withArgs
    { name := "add"
      about := "Add an API alias"
      longAbout := some <| Text.join "\n" [
        "Register a named API.",
        "",
        "Relative document paths are resolved against the directory",
        "of the configuration file.",
        "",
        "Example:",
        "  aepcli core config add bookstore --openapi-path ./openapi.json " ++
          "--header Authorization='Bearer x'"] }
    [aliasNameArg,
      { option "openapi-path" "PATH" "Path or URL of the \x60OpenAPI\x60 document" with
        required := true },
      { option "header" "KEY=VALUE"
          "Header sent with every request, as key=value (repeatable)" with
        action := .append },
      { option "server-url" "URL" "Server URL overriding the document's" with
        default := some "" },
      pathPrefixArg,
      switch "overwrite" "Replace an existing alias with the same name"]

/-- The command that shows an alias. -/
def getCommand : Command :=
  Command.withArgs { name := "get", about := "Show one API alias" } [aliasNameArg]

/-- The command that lists the aliases. -/
def listCommand : Command where
  name := "list"
  about := "List all API aliases"

/-- The command that converts a document. -/
def convertCommand : Command :=
  Command.withArgs
    { name := "convert"
      about := "Rewrite a document with an \x60x-aep-resource\x60 annotation per resource"
      longAbout := some <| Text.join "\n" [
        "Resolve the resources of a document and write them back as an",
        "OpenAPI 3.1 document whose resource schemas carry x-aep-resource.",
        "",
        "Example:",
        "  aepcli core openapi convert -i ./swagger.yaml -o ./openapi.json"] }
    [{ option "input" "PATH" "Path or URL of the source document" with
        short := some 'i', required := true },
      { option "output" "FILE" "File to write; standard output when omitted" with
        short := some 'o', rule := .nonEmpty },
      pathPrefixArg]

/-- The program's own commands. -/
def coreCommand : Command :=
  groupCommand coreName "Manage aepcli itself"
    [groupCommand "config" "Manage API aliases" [addCommand, getCommand, listCommand],
      groupCommand "openapi" "Work with \x60OpenAPI\x60 documents" [convertCommand]]

/-- What the program's own commands ask for. -/
inductive CoreRequest
  /-- Store an alias. -/
  | add (entry : ApiAlias) (overwrite : Bool)
  /-- Show an alias. -/
  | describe (name : String)
  /-- List the aliases. -/
  | list
  /-- Convert a document. -/
  | convert (input : String) (output : Option String) (pathPrefix : String)
  deriving DecidableEq, Repr, Inhabited

namespace CoreRequest

/-- The alias that the arguments of a command describe. -/
def aliasOf (l : Level) : ApiAlias where
  name := (l.value? "name").getD ""
  document := (l.value? "openapi-path").getD ""
  serverUrl := (l.value? "server-url").getD ""
  headers := (l.values? "header").getD []
  pathPrefix := (l.value? "path-prefix").getD ""

/-- What the innermost command asks for. -/
def ofLevel (l : Level) : CoreRequest :=
  match l.command with
  | "add" => add (aliasOf l) (l.has "overwrite")
  | "get" => describe ((l.value? "name").getD "")
  | "list" => list
  | _ => convert ((l.value? "input").getD "") (l.value? "output")
      ((l.value? "path-prefix").getD "")

/-- Reads the words behind `core`. -/
def read (words : List String) : Except Stop CoreRequest := do
  let m ← coreCommand.read coreName words
  return ofLevel (m.getLast?.getD { command := "" })

end CoreRequest

/-- An alias in words. -/
def ApiAlias.description (a : ApiAlias) : String :=
  "Name: " ++ a.name ++ "\nOpenAPI Path: " ++ a.document ++ "\nServer URL: " ++ a.serverUrl ++
    "\nHeaders: [" ++ Text.join " " a.headers ++ "]\nPath Prefix: " ++ a.pathPrefix ++ "\n"

/-- The part of the program that keeps the aliases on command. -/
def settingsTarget : String := "aepcli::cli::commands::config"

namespace AliasStore

/-- Does what one of the program's own commands asks for; the result is the text to be printed. -/
def serve (store : AliasStore) (certificates : Nat) : CoreRequest → Job String
  | .add a overwrite => do
    store.add a overwrite
    Job.note ⟨.debug, settingsTarget, "alias saved",
      [("name", .plain a.name), ("file", .plain store.file)]⟩
    return "Core API configuration '" ++ a.name ++ "' added successfully\n"
  | .describe name => do return (← store.get name).description
  | .list => do
    let aliases ← store.list
    if aliases.isEmpty then return "No API configurations found\n"
    return String.join (aliases.map fun a => a.description ++ "\n")
  | .convert input output pathPrefix => convertDocument certificates input output pathPrefix

/-- Does what the words behind `core` ask for. -/
def core (store : AliasStore) (certificates : Nat) (words : List String) : Job String :=
  match CoreRequest.read words with
  | .ok request => store.serve certificates request
  | .error stop =>
    if stop.isError then Job.fail (.invalidArguments coreName (.usage stop.reason))
    else return stop.rendered

end AliasStore

end ResourceCli
