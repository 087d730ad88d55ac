import ResourceCli.Document.Schema
import ResourceCli.Text.Split

/-!
# Documents

An OpenAPI document: where its servers are, which operations its paths have, and its named
schemas.  Two dialects share this one type.  They differ in three places, which `Dialect` answers:
where the named schemas stand, where the schema of a response stands, and where the schema of a
request body stands.

A schema that stands for another one is followed by `Document.dereference`, for at most
`maxHops` steps and never over the same reference text twice.
-/

namespace ResourceCli

/-- Title and version of a document. -/
structure Info where
  /-- The title. -/
  title : String := ""
  /-- A longer text. -/
  description : Option String := none
  /-- The version. -/
  version : String := ""
  deriving DecidableEq, Inhabited

/-- A server. -/
structure Server where
  /-- Its URL. -/
  url : String := ""
  /-- What it is. -/
  description : Option String := none
  deriving DecidableEq, Inhabited

/-- The content of one media type. -/
structure MediaType where
  /-- Its schema. -/
  schema : Option Schema := none
  deriving Inhabited

/-- A parameter of an operation. -/
structure Parameter where
  /-- Its name. -/
  name : String := ""
  /-- Where it stands: in the path, the query or the body. -/
  location : String := ""
  /-- What it is. -/
  description : Option String := none
  /-- Whether it has to be given. -/
  required : Bool := false
  /-- Its schema. -/
  schema : Option Schema := none
  deriving Inhabited

/-- A response of an operation. -/
structure Response where
  /-- What it means. -/
  description : String := ""
  /-- Its content by media type. -/
  content : List (String × MediaType) := []
  /-- The schema itself, in the legacy dialect. -/
  schema : Option Schema := none
  deriving Inhabited

/-- The request body of an operation. -/
structure RequestBody where
  /-- What it is. -/
  description : Option String := none
  /-- Its content by media type. -/
  content : List (String × MediaType) := []
  /-- The schema itself, in the legacy dialect. -/
  schema : Option Schema := none
  /-- Whether it has to be given. -/
  required : Bool := false
  deriving Inhabited

/-- An operation: what one verb does on one path. -/
structure Operation where
  /-- A short text. -/
  summary : Option String := none
  /-- A longer text. -/
  description : Option String := none
  /-- Its name in generated code. -/
  operationId : Option String := none
  /-- Its parameters. -/
  parameters : List Parameter := []
  /-- Its responses by status code. -/
  responses : List (String × Response) := []
  /-- Its request body. -/
  requestBody : Option RequestBody := none
  deriving Inhabited

/-- The verbs that an operation can have. -/
inductive Verb
  /-- `GET`. -/
  | get
  /-- `POST`. -/
  | post
  /-- `PUT`. -/
  | put
  /-- `PATCH`. -/
  | patch
  /-- `DELETE`. -/
  | delete
  deriving DecidableEq, Repr, Inhabited

/-- The verb as it is sent. -/
def Verb.name : Verb → String
  | get => "GET"
  | post => "POST"
  | put => "PUT"
  | patch => "PATCH"
  | delete => "DELETE"

/-- The operations of one path. -/
structure PathItem where
  /-- The operation of `GET`. -/
  get : Option Operation := none
  /-- The operation of `PUT`. -/
  put : Option Operation := none
  /-- The operation of `POST`. -/
  post : Option Operation := none
  /-- The operation of `PATCH`. -/
  patch : Option Operation := none
  /-- The operation of `DELETE`. -/
  delete : Option Operation := none
  deriving Inhabited

/-- The operation of a verb, if the path declares one. -/
def PathItem.operation (item : PathItem) : Verb → Option Operation
  | .get => item.get
  | .post => item.post
  | .put => item.put
  | .patch => item.patch
  | .delete => item.delete

/-- All verbs, in the order in which a path is searched for a declared one. -/
def Verb.all : List Verb := [get, post, put, patch, delete]

/-- The declared verbs of a path with their operations. -/
def PathItem.declaredOperations (item : PathItem) : List (Verb × Operation) :=
  Verb.all.filterMap fun verb => (item.operation verb).map fun op => (verb, op)

/-- An OpenAPI document of either dialect. -/
structure Document where
  /-- The version of the legacy dialect. -/
  swagger : Option String := none
  /-- The version of the current dialect. -/
  openapi : Option String := none
  /-- Title and version. -/
  info : Info := {}
  /-- The servers. -/
  servers : List Server := []
  /-- The operations by path, in document order. -/
  paths : List (String × PathItem) := []
  /-- The named schemas of the current dialect. -/
  components : List (String × Schema) := []
  /-- The named schemas of the legacy dialect. -/
  definitions : List (String × Schema) := []
  /-- The host, in the legacy dialect. -/
  host : Option String := none
  /-- The start of every path, in the legacy dialect. -/
  basePath : Option String := none
  /-- The URL schemes, in the legacy dialect. -/
  schemes : List String := []
  deriving Inhabited

/-- The flavours of a document. -/
inductive Dialect
  /-- Version 2.0. -/
  | legacy
  /-- Version 3. -/
  | current
  deriving DecidableEq, Repr

/-- The media type whose content counts. -/
def jsonMedia : String := "application/json"

/-- Whether a query parameter of exactly this name is declared. -/
def Operation.hasQueryParameter (op : Operation) (name : String) : Bool :=
  op.parameters.any fun p => p.name == name && p.location == "query"

/-- The schema of the JSON content. -/
def jsonSchema? (content : List (String × MediaType)) : Option Schema :=
  (content.lookup jsonMedia).bind MediaType.schema

namespace Dialect

/-- The schema that a response carries. -/
def responseSchema : Dialect → Response → Option Schema
  | legacy, r => r.schema
  | current, r => jsonSchema? r.content

/-- The schema of what a request carries: in the legacy dialect that of the body parameter, or
else of an inline request body. -/
def requestSchema : Dialect → Operation → Option Schema
  | legacy, op =>
    match (op.parameters.find? (·.location == "body")).bind Parameter.schema with
    | some s => some s
    | none => op.requestBody.bind RequestBody.schema
  | current, op => op.requestBody.bind fun body => jsonSchema? body.content

end Dialect

/-- The component name that a reference ends with. -/
def referenceName (reference : String) : String :=
  match Text.cutLast '/' reference.toList with
  | some (_, name) => String.ofList name
  | none => reference

/-- How following references can fail. -/
inductive ReferenceFault
  /-- The component does not exist. -/
  | missing (reference : String)
  /-- The chain of references comes back to itself or does not end. -/
  | circular (reference : String)
  deriving DecidableEq, Repr

namespace Document

/-- The flavour of a document. -/
def dialect (doc : Document) : Dialect :=
  if doc.swagger == some "2.0" then .legacy else .current

/-- The named schemas of a document. -/
def schemas (doc : Document) : List (String × Schema) :=
  match doc.dialect with
  | .legacy => doc.definitions
  | .current => doc.components

/-- The schema of a component. -/
def component? (doc : Document) (name : String) : Option Schema := doc.schemas.lookup name

/-- The number of references that are followed before giving up. -/
def maxHops : Nat := 32

/-- Follows references for at most `hops` steps; `seen` are the reference texts met before. -/
def follow (doc : Document) (seen : List String) (s : Schema) :
    (hops : Nat) → Except ReferenceFault Schema
  | 0 =>
    match s.reference with
    | none => .ok s
    | some r => .error (.circular r)
  | hops + 1 =>
    match s.reference with
    | none => .ok s
    | some r =>
      if seen.contains r then .error (.circular r)
      else
        match doc.component? (referenceName r) with
        | none => .error (.missing r)
        | some next => follow doc (r :: seen) next hops

/-- The schema that a schema stands for in the end. -/
def dereference (doc : Document) (s : Schema) : Except ReferenceFault Schema :=
  doc.follow [] s maxHops

/-- A schema without a reference stands for itself. -/
theorem dereference_of_reference_eq_none {doc : Document} {s : Schema}
    (h : s.reference = none) : doc.dereference s = .ok s := by
  simp [dereference, maxHops, follow, h]

/-- The schema of an operation's response for a status code. -/
def responseSchemaFor? (doc : Document) (op : Operation) (code : String) : Option Schema :=
  (op.responses.lookup code).bind doc.dialect.responseSchema

/-- The schema of what an operation's request carries. -/
def requestSchema? (doc : Document) (op : Operation) : Option Schema :=
  doc.dialect.requestSchema op

/-- The server URL that the document itself declares, without slashes at its end: the first
server that has a URL, and in the legacy dialect else scheme, host and base path. -/
def declaredServerUrl? (doc : Document) : Option String :=
  match doc.servers.find? (·.url != "") with
  | some server => some (Text.dropEndChar '/' server.url)
  | none =>
    match doc.dialect, doc.host with
    | .legacy, some host =>
      if host == "" then none
      else
        let scheme := doc.schemes.head?.getD "https"
        some (scheme ++ "://" ++ host ++ Text.dropEndChar '/' (doc.basePath.getD ""))
    | _, _ => none

end Document

end ResourceCli
