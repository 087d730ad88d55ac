import ResourceCli.CommandLine.Reading
import ResourceCli.File.Path
import ResourceCli.Log.Event

/-!
# The options of the program

The command line of the program as a whole: options that hold for every run, the API, and the
words that are for the API.  Once the API is named, a word that is none of the options belongs to
those words, hyphens or not.
-/

namespace ResourceCli

open CommandLine

/-- The name of the program. -/
def programName : String := "aepcli"

/-- The version of the program. -/
def programVersion : String := "0.1.0"

/-- What the program does, in full. -/
def programPurpose : String :=
  Text.join "\n" [
    "aepcli reads an OpenAPI document, discovers the resources it exposes",
    "and turns them into commands.",
    "",
    "Examples:",
    "  aepcli core config add bookstore --openapi-path ./openapi.json",
    "  aepcli bookstore book --publisher=p1 list",
    "  aepcli https://example.com/openapi.json publisher get p1",
    "  aepcli --dry-run --log-http bookstore publisher create p2 --description=x"]

/-- The levels of the log that can be chosen, by name. -/
def levelChoices : List (String × Log.Level) :=
  [("debug", .debug), ("info", .info), ("warn", .warn), ("error", .error)]

/-- An option that is set or not. -/
def switch (name help : String) : Arg :=
  { id := name, long := some name, help := help, action := .flag }

/-- An option with a text. -/
def option (name valueName help : String) : Arg :=
  { id := name, long := some name, valueName := valueName, help := help }

/-- The command line of the program. -/
def programCommand : Command :=
  Command.withArgs
    { name := programName
      about := "aepcli: a resource-oriented CLI for AEP-compliant APIs"
      longAbout := some programPurpose
      version := some programVersion
      isGroup := true }
    [{ option "header" "KEY=VALUE" "Extra request header as key=value (repeatable)" with
        action := .append },
      { option "log-level" "LOG_LEVEL" "Log level" with
        rule := .oneOf (levelChoices.map Prod.fst), default := some "info" },
      switch "log-http" "Print the HTTP request before sending it",
      switch "dry-run" "Build the request without sending it",
      option "path-prefix" "PREFIX"
        "Prefix stripped from every document path before resources are inferred",
      option "server-url" "URL"
        "Server URL to use instead of the one declared by the document",
      { option "config" "FILE" "Configuration file to read aliases from" with
        rule := .nonEmpty },
      switch "insecure" "Skip TLS certificate verification",
      { option "ca-cert" "FILE" "PEM file with an additional trusted root certificate" with
        rule := .nonEmpty, conflicts := ["insecure"] },
      switch "json-errors" "Output errors in JSON format",
      { id := "target", valueName := "API", required := true, hyphenValues := true
        help := "API alias, path or URL of an \x60OpenAPI\x60 document, or \x60core\x60" },
      { id := "args", valueName := "ARGS", action := .append, hyphenValues := true
        trailing := true
        help := "Resource, method and flags, parsed against the API's resources" }]

/-- What a command line of the program says. -/
structure Options where
  /-- The API: an alias, or the path or URL of a document. -/
  target : String
  /-- The words that are for the API. -/
  words : List String := []
  /-- The headers to be sent. -/
  headers : List String := []
  /-- The least important level that is logged. -/
  logLevel : Log.Level := .info
  /-- Whether requests are printed. -/
  showsRequests : Bool := false
  /-- Whether nothing is sent. -/
  dryRun : Bool := false
  /-- What the paths of the document start with. -/
  pathPrefix : Option String := none
  /-- The URL of the server. -/
  serverUrl : Option String := none
  /-- The file of the aliases. -/
  settingsFile : Option String := none
  /-- Whether every certificate is trusted. -/
  insecure : Bool := false
  /-- The file with a certificate to trust. -/
  certificateFile : Option String := none
  /-- Whether failures are printed as JSON. -/
  jsonErrors : Bool := false
  deriving DecidableEq, Repr, Inhabited

namespace Options

/-- The options that are given. -/
def ofLevel (l : Level) : Options where
  target := (l.value? "target").getD ""
  words := (l.values? "args").getD []
  headers := (l.values? "header").getD []
  logLevel := ((l.value? "log-level").bind (List.lookup · levelChoices)).getD .info
  showsRequests := l.has "log-http"
  dryRun := l.has "dry-run"
  pathPrefix := l.value? "path-prefix"
  serverUrl := l.value? "server-url"
  settingsFile := l.value? "config"
  insecure := l.has "insecure"
  certificateFile := l.value? "ca-cert"
  jsonErrors := l.has "json-errors"

/-- The name by which the program is called. -/
def calledName (path : Option String) : String :=
  (path.bind Path.fileName?).getD programName

/-- Reads a command line, which starts with the path of the program. -/
def read (words : List String) : Except Stop Options := do
  let m ← programCommand.read (calledName words.head?) words.tail
  return ofLevel (m.headD { command := programName })

end Options

end ResourceCli
