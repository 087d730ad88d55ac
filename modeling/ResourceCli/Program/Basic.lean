import ResourceCli.Program.Core
import ResourceCli.Program.Target
import ResourceCli.Run.Logged

/-!
# The program

A run of the program: it reads its command line, sets up its log, does what is asked, prints the
result or the failure, and ends with a code.  What it does depends on its surroundings only through
the `Environment` that it starts in and the answers to what the run asks.
-/

namespace ResourceCli

/-- What the program starts with. -/
structure Environment where
  /-- The home directory of the user. -/
  home : Option String := none
  /-- The values of the variables, by name. -/
  bindings : List (String × String) := []
  /-- How many certificates the system trusts. -/
  certificates : Nat := 0
  deriving DecidableEq, Repr, Inhabited

/-- A variable, if it is set. -/
def Environment.get? (env : Environment) (name : String) : Option String :=
  env.bindings.lookup name

/-- The codes with which the program ends. -/
inductive ExitCode
  /-- All went well. -/
  | success
  /-- The run failed. -/
  | failure
  /-- The server answered with a failure. -/
  | refused
  /-- The command line is wrong. -/
  | usage
  deriving DecidableEq, Repr

/-- The code as a number. -/
def ExitCode.toNat : ExitCode → Nat
  | success => 0
  | failure => 1
  | refused => 2
  | usage => 2

/-- Prints a text on lines of their own; nothing at all if there is none. -/
def printResult (text : String) : Run Unit :=
  if text == "" then .done ()
  else
    .print .output (if text.toList.getLast? == some '\n' then text else text ++ "\n") (.done ())

/-- Prints a failure. -/
def printReport (asJson : Bool) (r : Report) : Run Unit :=
  .print .errors ((if asJson then r.failure.toJson.pretty else r.rendered) ++ "\n") (.done ())

/-! ## The log -/

/-- The events that are logged: those that the environment asks for, or else, if it asks for none
or in words that make no sense, those of the level that is given. -/
def logFilter (level : Log.Level) (asked : Option String) : Log.Filter :=
  match asked.filter fun s => Text.trim s != "" with
  | none => .ofLevel level
  | some s => (Log.Filter.read? s).getD (.ofLevel level)

/-- The format of a name. -/
def Log.Format.ofName? (name : String) : Option Log.Format :=
  match Log.smallLetters (Text.trim name) with
  | "" => some .text
  | "text" => some .text
  | "json" => some .json
  | _ => none

/-- Makes sure that the file of the log can be written. -/
def openLog (file : Option String) : Run (Option String) :=
  match file with
  | none => .done none
  | some path => .append path "" fun
    | .ok _ => .done (some path)
    | .error fault =>
      .print .errors ("Warning: cannot open log file '" ++ path ++ "': " ++ fault.text ++
        ", logging to stderr\n") (.done none)

/-- The format of the log. -/
def logFormat (name : Option String) : Run Log.Format :=
  match name with
  | none => .done .text
  | some name =>
    match Log.Format.ofName? name with
    | some format => .done format
    | none =>
      .print .errors ("Warning: unrecognized AEPCLI_LOG_FORMAT '" ++ name ++
        "', expected 'json' or 'text'\n") (.done .text)

/-- Sets up the log. -/
def startLog (env : Environment) (level : Log.Level) : Run Logging := do
  let file ← openLog (env.get? "AEPCLI_LOG_FILE")
  let format ← logFormat (env.get? "AEPCLI_LOG_FORMAT")
  return { filter := logFilter level (env.get? "AEPCLI_LOG"), format := format, file := file }

/-! ## The run -/

/-- The file of the aliases. -/
def aliasStore (env : Environment) (o : Options) : Except Failure AliasStore :=
  match o.settingsFile with
  | some file => .ok { file := file, home := env.home }
  | none => do
    let directory ← settingsDirectory env.home (env.get? "AEPCLI_CONFIG_DIR")
    return { file := settingsFile directory, home := env.home }

/-- Does what the options ask for, and prints the result. -/
def perform (env : Environment) (o : Options) : Job ExitCode := do
  let store ← Job.ofExcept (aliasStore env o)
  if o.target == coreName then
    Job.ofRun (printResult (← store.core env.certificates o.words))
    return .success
  else
    let result ← store.serveApi env.certificates o
    Job.ofRun (printResult result.output)
    return if result.isFailure then .refused else .success

/-- Does what the options ask for; a failure is printed. -/
def performAndReport (env : Environment) (o : Options) : Run ExitCode := do
  match ← (perform env o).run with
  | .ok code => return code
  | .error r =>
    printReport o.jsonErrors r
    return .failure

/-- A run of the program for a command line that starts with the path of the program. -/
def program (env : Environment) (words : List String) : Run ExitCode :=
  match Options.read words with
  | .ok o => do (performAndReport env o).logged (← startLog env o.logLevel)
  | .error stop =>
    if stop.isError then .print .errors stop.rendered (.done .usage)
    else .print .output stop.rendered (.done .success)

end ResourceCli
