import ResourceCli.Call.Command
import ResourceCli.CommandLine.Reading
import ResourceCli.File.Path
import ResourceCli.Json.Read
import ResourceCli.Run.Basic

/-!
# From a command line to a request

The words behind the name of a resource are read by its command; what they give is a call, whose
whole data may still have to be read from a file, and the call becomes a request.  A command line
that only asks for a description has that as its answer.
-/

namespace ResourceCli

open CommandLine

/-- What a command line for a resource comes to. -/
inductive Compiled
  /-- A request. -/
  | request (request : Request)
  /-- A description to be printed. -/
  | description (text : String)
  deriving Inhabited

/-- Reads a file that holds the whole data of a call. -/
def readData (path : String) : Job (List (String × Json)) :=
  if path == "" then Job.fail .emptyDataPath
  else do
    let text ← Job.readText path (.dataFileUnreadable path)
    match Json.read text with
    | .ok (.obj members) => return members
    | .ok _ => Job.fail (.dataNotObject path)
    | .error defect => Job.fail (.invalidDataJson path defect)

namespace Resource

/-- The fields that a level gives, in the order of their names. -/
def givenFields (inputs : List FieldInput) (l : Level) : List (String × InputValue) :=
  inputs.foldl (fun fields input =>
    match (l.value? input.name).bind fun raw =>
        (InputValue.read input.kind raw).toOption with
    | some value => Json.insertSorted input.name value fields
    | none => fields) []

/-- The call that the levels of a command line give, and the file with its whole data, if one is
named. -/
def callOf (r : Resource) (m : Matches) : Except Failure (Call × Option String) :=
  match m with
  | _ :: l :: _ =>
    match Method.ofCommand? l.command with
    | none => .error (.invalidArguments r.singular (.methodUnknown l.command))
    | some method => do
      let fields ← match r.payloadSchema? method with
        | none => pure []
        | some s => (givenFields · l) <$> r.bindableInputs s
      return ({
        resource := r.singular
        parents := r.parentFlags.map fun flag => (m.shared? flag).getD ""
        method := method
        id := l.value? idArg
        fields := fields }, if r.acceptsPayload method then l.value? dataFlag else none)
  | _ => .error (.invalidArguments r.singular .methodMissing)

/-- The name by which the command of a resource is called. -/
def calledName (r : Resource) : String := (Path.fileName? r.singular).getD r.singular

/-- The warnings of looking at the inputs of a method. -/
def methodNotes (r : Resource) (method : Method) : List Log.Event :=
  ((r.payloadSchema? method).map r.collisions).getD []

/-- The call that a command line asks for, with its whole data read. -/
def readCall (r : Resource) (m : Matches) : Job Call := do
  let (call, path) ← Job.ofExcept (r.callOf m)
  Job.notes (r.methodNotes call.method)
  match path with
  | none => return call
  | some path => return { call with data := some (← readData path) }

/-- The request of a call, with what is noted down on the way. -/
def compileCall (r : Resource) (call : Call) : Job Request := do
  Job.note ⟨.debug, "aepcli::engine::compiler", "compiling resource call",
    [("resource", .plain call.resource), ("method", .plain call.method.shown)]⟩
  if (r.missingParents call.parents).isEmpty && call.data.isNone then
    Job.notes (r.methodNotes call.method)
  Job.ofExcept (r.request call)

/-- What the words behind the name of a resource come to. -/
def compile (r : Resource) (words : List String) : Job Compiled := do
  Job.notes r.commandNotes
  let command ← Job.ofExcept r.command
  match command.read r.calledName words with
  | .ok m => return .request (← r.compileCall (← r.readCall m))
  | .error (.fault fault usage) =>
    Job.fail (.invalidArguments r.singular (.usage (Stop.fault fault usage).reason))
  | .error stop => return .description stop.rendered

end Resource

end ResourceCli
