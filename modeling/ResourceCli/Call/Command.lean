import ResourceCli.Call.Request
import ResourceCli.CommandLine.Basic
import ResourceCli.Log.Event
import ResourceCli.Text.Case

/-!
# The command of a resource

Every resource is a command, and every method it supports is a command below it.  The ids of
containing resources are options that all of them have; the inputs of what a method sends along
are options of its own, beside one that reads all of it from a file.

An input whose option would have the name of another one is left out, with a warning
(`Resource.collisions`).
-/

namespace ResourceCli

open CommandLine

/-- The id of the argument for a resource's own id. -/
def idArg : String := "@id"

/-- The argument for a resource's own id. -/
def resourceIdArg : Arg where
  id := idArg
  valueName := "ID"
  help := "The id of the resource"
  required := true

/-- The option for whole data. -/
def dataArg : Arg where
  id := dataFlag
  long := some dataFlag
  valueName := "FILE"
  help := "Read the whole request body from a JSON file"

/-- The option for a field. -/
def fieldArg (input : FieldInput) : Arg where
  id := input.name
  long := some input.name
  valueName := input.kind.placeholder
  help := input.help
  rule := .tested fun raw =>
    match InputValue.read input.kind raw with
    | .ok _ => none
    | .error fault => some fault.message
  impliedValue := if input.kind == .flag then some "true" else none

/-- The option for the id of a containing resource. -/
def parentArg (flag : String) : Arg where
  id := flag
  long := some flag
  valueName := Text.uppercase flag
  help := "The " ++ flag ++ " of the resource (required)"
  isGlobal := true

namespace Resource

/-- The part of the program that makes commands. -/
def commandTarget : String := "aepcli::engine::generator"

/-- The warnings for the inputs of a schema that cannot be options. -/
def collisions (r : Resource) (s : Schema) : List Log.Event :=
  match fieldInputs s with
  | .error _ => []
  | .ok inputs =>
    (inputs.filter fun input => r.isTaken input.name).map fun input =>
      ⟨.warn, commandTarget,
        "field name collides with another flag; only settable through --@data",
        [("resource", .plain r.singular), ("field", .plain input.name)]⟩

/-- The options of what is sent along. -/
def payloadArgs (r : Resource) (s : Option Schema) : Except Failure (List Arg) :=
  match s with
  | none => .ok [dataArg]
  | some s => do return (← r.bindableInputs s).map fieldArg ++ [dataArg]

/-- A command for a method. -/
def methodCommand (method : Method) (about : String) (args : List Arg) : Command :=
  Command.withArgs { name := method.command, about := about } args

/-- The command that creates a resource. -/
def createCommand (r : Resource) (create : CreateMethod) : Except Failure Command := do
  let args ← r.payloadArgs (some r.schema)
  return methodCommand .create ("Create a " ++ r.singular)
    ((if create.userSettableId then [resourceIdArg] else []) ++ args)

/-- The command that changes a resource. -/
def updateCommand (r : Resource) : Except Failure Command := do
  let args ← r.payloadArgs (some r.schema)
  return methodCommand .update ("Update a " ++ r.singular) (resourceIdArg :: args)

/-- The command for a method of the resource's own. -/
def customCommand (r : Resource) (m : CustomMethod) : Except Failure Command := do
  let args ← if m.verb == "POST" then r.payloadArgs m.request else pure []
  return methodCommand (.custom m.name)
    (Text.capitalize (Text.lowercase m.verb) ++ " a " ++ r.singular) (resourceIdArg :: args)

/-- A command if a method is supported. -/
def commandIf (supported : Bool) (command : Except Failure Command) :
    Except Failure (List Command) :=
  if supported then (fun c => [c]) <$> command else .ok []

/-- The commands for the methods of a resource. -/
def methodCommands (r : Resource) : Except Failure (List Command) := do
  let create ← match r.methods.create with
    | none => pure []
    | some create => commandIf true (r.createCommand create)
  let get ← commandIf r.methods.get
    (.ok (methodCommand .get ("Get a " ++ r.singular) [resourceIdArg]))
  let update ← commandIf r.methods.update r.updateCommand
  let delete ← commandIf r.methods.delete
    (.ok (methodCommand .delete ("Delete a " ++ r.singular) [resourceIdArg]))
  let many := if r.plural == "" then r.singular else r.plural
  let list ← commandIf r.methods.list (.ok (methodCommand .list ("List " ++ many) []))
  let customs ← r.customs.mapM r.customCommand
  return create ++ get ++ update ++ delete ++ list ++ customs

/-- The command of a resource. -/
def command (r : Resource) : Except Failure Command := do
  let subcommands ← r.methodCommands
  return Command.withArgs
    { name := r.singular
      about := "Manage " ++ r.singular ++ " resources"
      subcommands := subcommands
      subcommandRequired := true
      helpWithoutArgs := true }
    (r.parentFlags.map parentArg)

/-- The schemas whose properties become options of the command, in order. -/
def optionSchemas (r : Resource) : List Schema :=
  (if r.methods.create.isSome then [r.schema] else []) ++
    (if r.methods.update then [r.schema] else []) ++
    r.customs.filterMap fun m => if m.verb == "POST" then m.request else none

/-- The warnings of making the command: those of every schema up to the first one whose inputs are
at fault. -/
def commandNotes (r : Resource) : List Log.Event :=
  (r.optionSchemas.takeWhile fun s => (fieldInputs s).toOption.isSome).flatMap r.collisions

end Resource

end ResourceCli
