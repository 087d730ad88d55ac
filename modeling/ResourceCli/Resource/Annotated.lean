import ResourceCli.Document.Written
import ResourceCli.Log.Event
import ResourceCli.Resource.Graph

/-!
# Documents that declare their resources

A graph of resources written back as a document of the current dialect.  Every resource becomes a
component whose schema declares it, and every method becomes an operation on the path of its
pattern.  All other components are carried over, with their references turned to where components
stand in that dialect.
-/

namespace ResourceCli

/-- The reference to a component. -/
def componentReference (name : String) : String := "#/components/schemas/" ++ name

/-- The schema that stands for a component. -/
def componentRef (name : String) : Schema := .refTo (componentReference name)

mutual

/-- The schema with all references turned to where components stand. -/
def Schema.retarget : Schema → Schema
  | ⟨types, format, description, items, properties, reference, required, readOnly, declared⟩ =>
    { types, format, description
      items := Schema.retargetItems items
      properties := Schema.retargetProperties properties
      reference := reference.map fun r => componentReference (referenceName r)
      required, readOnly, declared }

/-- The schema of items with all references turned. -/
def Schema.retargetItems : Option Schema → Option Schema
  | none => none
  | some s => some s.retarget

/-- Named schemas with all references turned. -/
def Schema.retargetProperties : List (String × Schema) → List (String × Schema)
  | [] => []
  | (name, s) :: rest => (name, s.retarget) :: Schema.retargetProperties rest

end

namespace Annotated

/-- The content of one media type. -/
def content (mediaType : String) (s : Schema) : List (String × MediaType) :=
  [(mediaType, ⟨some s⟩)]

/-- The responses of an operation that succeeds with data of a schema, or without data. -/
def success (s : Option Schema) : List (String × Response) :=
  [("200", {
    description := "Successful response"
    content := (s.map (content jsonMedia)).getD [] })]

/-- The body of a request with data of a schema. -/
def body (mediaType : String) (s : Schema) : RequestBody :=
  { content := content mediaType s, required := true }

/-- The media type of changes. -/
def mergePatchMedia : String := "application/merge-patch+json"

/-- One parameter of the path for every placeholder. -/
def pathParameters (segments : List String) : List Parameter :=
  (segments.filterMap placeholderName?).map fun name =>
    { name, location := "path", required := true, schema := some (.typed "string") }

/-- An operation. -/
def operation (summary : String) (parameters : List Parameter)
    (requestBody : Option RequestBody) (answer : Option Schema) : Operation :=
  { summary := some summary, parameters, requestBody, responses := success answer }

/-- The schema of a list of resources, with the token for the rest of it. -/
def listEnvelope (singular : String) : Schema :=
  let results : Schema := { Schema.typed "array" with items := some (componentRef singular) }
  { Schema.typed "object" with
    properties := [("results", results), ("next_page_token", .typed "string")] }

/-- The operation that lists the resources. -/
def listOperation (r : Resource) : Operation :=
  operation ("List " ++ r.plural) (pathParameters r.collectionSegments) none
    (some (listEnvelope r.singular))

/-- The query parameter with which a caller chooses the id. -/
def idParameter : Parameter :=
  { name := "id", location := "query", schema := some (.typed "string") }

/-- The operation that creates a resource. -/
def createOperation (r : Resource) (create : CreateMethod) : Operation :=
  operation ("Create a " ++ r.singular)
    (pathParameters r.collectionSegments ++ if create.userSettableId then [idParameter] else [])
    (some (body jsonMedia (componentRef r.singular))) (some (componentRef r.singular))

/-- The operations on all resources of a kind. -/
def collectionItem (r : Resource) : PathItem where
  get := if r.methods.list then some (listOperation r) else none
  post := r.methods.create.map (createOperation r)

/-- The operations on one resource. -/
def resourceItem (r : Resource) : PathItem where
  get :=
    if r.methods.get then
      some (operation ("Get a " ++ r.singular) (pathParameters r.pattern) none
        (some (componentRef r.singular)))
    else none
  patch :=
    if r.methods.update then
      some (operation ("Update a " ++ r.singular) (pathParameters r.pattern)
        (some (body mergePatchMedia (componentRef r.singular)))
        (some (componentRef r.singular)))
    else none
  delete :=
    if r.methods.delete then
      some (operation ("Delete a " ++ r.singular) (pathParameters r.pattern) none none)
    else none

/-- The operation of a method with a name. -/
def customOperation (r : Resource) (m : CustomMethod) : Operation :=
  operation (m.name ++ " a " ++ r.singular) (pathParameters r.pattern)
    (m.request.map fun s => body jsonMedia s.retarget)
    (m.response.map Schema.retarget)

/-- The path of a method with a name: its operation under its verb, `POST` for any other. -/
def customItem (r : Resource) (m : CustomMethod) : PathItem :=
  let op := some (customOperation r m)
  match m.verb with
  | "GET" => { get := op }
  | "PUT" => { put := op }
  | "PATCH" => { patch := op }
  | "DELETE" => { delete := op }
  | _ => { post := op }

/-- The path of all resources of a kind. -/
def collectionPath (r : Resource) : String := "/" ++ Text.join "/" r.collectionSegments

/-- The path of one resource. -/
def itemPath (r : Resource) : String := "/" ++ r.patternPath

/-- The paths of a resource with their operations. -/
def pathsOf (r : Resource) : List (String × PathItem) :=
  (if r.methods.list || r.methods.create.isSome then
    [(collectionPath r, collectionItem r)]
  else []) ++
  (if r.methods.get || r.methods.update || r.methods.delete then
    [(itemPath r, resourceItem r)]
  else []) ++
  r.customs.map fun m => (itemPath r ++ ":" ++ m.name, customItem r m)

/-- The declaration of a resource. -/
def declaration (g : ResourceGraph) (r : Resource) : Declaration where
  singular := r.singular
  plural := r.plural
  patterns := if r.pattern.isEmpty then [] else [itemPath r]
  parents := (g.parentsOf r).map Resource.singular

/-- The schema of a resource, with its declaration. -/
def resourceSchema (g : ResourceGraph) (r : Resource) : Schema :=
  { r.schema.retarget with declared := some (declaration g r) }

/-- Puts entries into a table; an entry of the same name is replaced where it stands. -/
def insertAll {α : Type} (entries table : List (String × α)) : List (String × α) :=
  entries.foldl (fun table (name, a) => Tree.insert name a table) table

end Annotated

namespace ResourceGraph

open Annotated

/-- The components of the written document. -/
def annotatedComponents (g : ResourceGraph) (source : Document) : List (String × Schema) :=
  insertAll (g.ordered.map fun r => (r.singular, resourceSchema g r))
    (Schema.retargetProperties source.schemas)

/-- The paths of the written document. -/
def annotatedPaths (g : ResourceGraph) : List (String × PathItem) :=
  insertAll (g.ordered.flatMap fun r => if r.pattern.isEmpty then [] else pathsOf r) []

/-- The graph as a document that declares its resources; `source` is the document it was found
in. -/
def annotated (g : ResourceGraph) (source : Document) : Document where
  openapi := some "3.1.0"
  info := source.info
  servers := [{ url := g.serverUrl }]
  paths := g.annotatedPaths
  components := g.annotatedComponents source

/-- What is noted down on writing: the resources that have no pattern, and so no path. -/
def annotationNotes (g : ResourceGraph) : List Log.Event :=
  (g.ordered.filter (·.pattern.isEmpty)).map fun r =>
    ⟨.warn, "aepcli::engine::converter",
      "resource has no pattern; emitting its schema only", [("resource", .plain r.singular)]⟩

/-- The text of the written document. -/
def annotatedText (g : ResourceGraph) (source : Document) : String :=
  (g.annotated source).toJson.pretty

end ResourceGraph

end ResourceCli
