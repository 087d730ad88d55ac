import ResourceCli.Call.Basic
import ResourceCli.Failure.Message
import ResourceCli.Resource.Basic
import ResourceCli.Text.Utf8
import ResourceCli.Url.Percent

/-!
# The request of a call

A call becomes a request if everything that its method needs is there.  The checks come in a fixed
order: the ids of containing resources, then that fields and whole data are not mixed, then the
fields that are required, then the method itself and the id.

The path of a request is the pattern of the resource with the ids in place of the placeholders
(`Resource.collectionPath`), and for methods on one resource its id at the end.
-/

namespace ResourceCli

open Text (Bytes)

/-- A request, relative to the URL of the server. -/
structure Request where
  /-- The verb. -/
  verb : String
  /-- The path, without a slash at its start. -/
  path : String
  /-- The query, encoded, without the question mark. -/
  query : Option String := none
  /-- What is sent along. -/
  body : Option Bytes := none
  deriving DecidableEq, Repr, Inhabited

/-- The name of the option for whole data. -/
def dataFlag : String := "@data"

/-- The names of options that no field can have. -/
def reservedFlags : List String := ["help", dataFlag]

/-- Whether a character may stand in a verb or in the name of a header. -/
def isTokenChar (c : Char) : Bool :=
  c.isAlphanum || "!#$%&'*+-.^_\x60|~".toList.contains c

/-- Whether a verb can be sent. -/
def isVerb (verb : String) : Bool := verb != "" && verb.toList.all isTokenChar

namespace Resource

/-- The schema of what is sent along with a method, if its properties are inputs. -/
def payloadSchema? (r : Resource) : Method → Option Schema
  | .create | .update => some r.schema
  | .custom name => ((r.custom? name).filter (·.verb == "POST")).bind CustomMethod.request
  | .get | .delete | .list => none

/-- Whether whole data can be sent along with a method. -/
def acceptsPayload (r : Resource) : Method → Bool
  | .create | .update => true
  | .custom name => r.customs.any fun m => m.name == name && m.verb == "POST"
  | .get | .delete | .list => false

/-- Whether the option of a field would have a name that is taken. -/
def isTaken (r : Resource) (name : String) : Bool :=
  reservedFlags.contains name || r.parentFlags.contains name

/-- The inputs of a schema that can be options of a command for the resource. -/
def bindableInputs (r : Resource) (s : Schema) : Except Failure (List FieldInput) := do
  return (← fieldInputs s).filter fun input => !r.isTaken input.name

/-- The path of all resources that lie in the given ones: the pattern without the resource's own
placeholder, and at its odd places the given ids. -/
def collectionPath (r : Resource) (parents : List String) : String :=
  Text.join "/" (r.collectionSegments.zipIdx.map fun (segment, i) =>
    if i % 2 == 0 then segment else parents.getD (i / 2) "")

/-- The flags of containing resources whose ids are missing or empty. -/
def missingParents (r : Resource) (parents : List String) : List String :=
  (r.parentFlags.zipIdx.filter fun (_, i) => parents.getD i "" == "").map Prod.fst

/-- The required fields that a call does not give. -/
def missingFields (r : Resource) (c : Call) : Except Failure (List String) :=
  match c.data, r.payloadSchema? c.method with
  | none, some s => do
    return ((← r.bindableInputs s).filter fun input =>
      input.required && (c.fields.lookup input.name).isNone).map FieldInput.name
  | _, _ => .ok []

/-- Checks that what a call needs is there, short of its method and id. -/
def checkInputs (r : Resource) (c : Call) : Except Failure Unit := do
  let parents := r.missingParents c.parents
  if !parents.isEmpty then throw (.missingInputs r.singular parents)
  if c.data.isSome && !c.fields.isEmpty then
    throw (.conflictingInputs (c.fields.map Prod.fst))
  let fields ← r.missingFields c
  if !fields.isEmpty then throw (.missingInputs r.singular fields)

/-- The failure of a method that the resource does not support. -/
def unsupported (r : Resource) (c : Call) : Failure :=
  .invalidArguments r.singular (.methodUnsupported c.method)

/-- The id of a call. -/
def requiredId (r : Resource) (c : Call) : Except Failure String :=
  match c.id with
  | some id => .ok id
  | none => .error (.invalidArguments r.singular .idMissing)

/-- The path of the resource of a call. -/
def itemPath (r : Resource) (c : Call) : Except Failure String := do
  return r.collectionPath c.parents ++ "/" ++ (← r.requiredId c)

/-- What is sent along with a call. -/
def body (c : Call) : Option Bytes := some (Text.utf8Encode c.payload.compact)

/-- The request of a call that has what it needs. -/
def requestOf (r : Resource) (c : Call) : Except Failure Request :=
  match c.method with
  | .create =>
    match r.methods.create with
    | none => .error (r.unsupported c)
    | some create => do
      let query ← if create.userSettableId then
          (fun id => some ("id=" ++ Url.encodeValue id)) <$> r.requiredId c
        else pure none
      return ⟨"POST", r.collectionPath c.parents, query, body c⟩
  | .get =>
    if !r.methods.get then .error (r.unsupported c)
    else do return ⟨"GET", ← r.itemPath c, none, none⟩
  | .update =>
    if !r.methods.update then .error (r.unsupported c)
    else do return ⟨"PATCH", ← r.itemPath c, none, body c⟩
  | .delete =>
    if !r.methods.delete then .error (r.unsupported c)
    else do return ⟨"DELETE", ← r.itemPath c, none, none⟩
  | .list =>
    if !r.methods.list then .error (r.unsupported c)
    else .ok ⟨"GET", r.collectionPath c.parents, none, none⟩
  | .custom name =>
    match r.custom? name with
    | none => .error (r.unsupported c)
    | some m =>
      if !isVerb m.verb then .error (.invalidArguments r.singular .verbInvalid)
      else do
        let path ← r.itemPath c
        return ⟨m.verb, path ++ ":" ++ name, none, if m.verb == "POST" then body c else none⟩

/-- The request of a call, or why there is none. -/
def request (r : Resource) (c : Call) : Except Failure Request := do
  r.checkInputs c
  r.requestOf c

end Resource

end ResourceCli
