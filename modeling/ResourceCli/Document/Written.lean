import ResourceCli.Document.Basic
import ResourceCli.Json.Basic

/-!
# Documents as JSON

The JSON value that a document is written as.  Fields come in a fixed order; a field that may be
absent is left out when it is, and an empty list or table is left out where the reader would give
it back anyway.
-/

namespace ResourceCli

namespace Json

/-- A member that is there only if its value is. -/
def optionalMember {α : Type} (key : String) (f : α → Json) :
    Option α → List (String × Json)
  | none => []
  | some a => [(key, f a)]

/-- A member that is there only if its list is not empty. -/
def listMember {α : Type} (key : String) (f : List α → Json) : List α → List (String × Json)
  | [] => []
  | items => [(key, f items)]

/-- A list of texts as an array. -/
def texts (items : List String) : Json := .arr (items.map .str)

end Json

open Json

/-- The types of a schema as JSON. -/
def TypeNames.toJson : TypeNames → Json
  | single name => .str name
  | several names => texts names

/-- A declaration as JSON. -/
def Declaration.toJson (d : Declaration) : Json :=
  .obj [("singular", .str d.singular), ("plural", .str d.plural),
    ("patterns", texts d.patterns), ("parents", texts d.parents)]

mutual

/-- A schema as JSON. -/
def Schema.toJson : Schema → Json
  | ⟨types, format, description, items, properties, reference, required, readOnly, declared⟩ =>
    .obj (
      optionalMember "type" TypeNames.toJson types ++
      optionalMember "format" Json.str format ++
      optionalMember "description" Json.str description ++
      Schema.itemsMember items ++
      (match properties with
        | [] => []
        | _ => [("properties", .obj (Schema.propertyMembers properties))]) ++
      optionalMember "$ref" Json.str reference ++
      listMember "required" texts required ++
      (if readOnly then [("readOnly", .bool true)] else []) ++
      optionalMember "x-aep-resource" Declaration.toJson declared)

/-- The member for the items of an array schema. -/
def Schema.itemsMember : Option Schema → List (String × Json)
  | none => []
  | some s => [("items", s.toJson)]

/-- Named schemas as members. -/
def Schema.propertyMembers : List (String × Schema) → List (String × Json)
  | [] => []
  | (name, s) :: rest => (name, s.toJson) :: Schema.propertyMembers rest

end

/-- A table of named schemas as an object. -/
def schemaTable (schemas : List (String × Schema)) : Json :=
  .obj (Schema.propertyMembers schemas)

/-- A table as an object. -/
def tableOf {α : Type} (f : α → Json) (entries : List (String × α)) : Json :=
  .obj (entries.map fun (name, a) => (name, f a))

/-- Title and version as JSON. -/
def Info.toJson (i : Info) : Json :=
  .obj (("title", .str i.title) :: optionalMember "description" Json.str i.description ++
    [("version", .str i.version)])

/-- A server as JSON. -/
def Server.toJson (s : Server) : Json :=
  .obj (("url", .str s.url) :: optionalMember "description" Json.str s.description)

/-- A media type as JSON. -/
def MediaType.toJson (m : MediaType) : Json :=
  .obj (optionalMember "schema" Schema.toJson m.schema)

/-- A parameter as JSON. -/
def Parameter.toJson (p : Parameter) : Json :=
  .obj ([("name", .str p.name), ("in", .str p.location)] ++
    optionalMember "description" Json.str p.description ++
    [("required", .bool p.required)] ++
    optionalMember "schema" Schema.toJson p.schema)

/-- A response as JSON. -/
def Response.toJson (r : Response) : Json :=
  .obj (("description", .str r.description) ::
    listMember "content" (tableOf MediaType.toJson) r.content ++
    optionalMember "schema" Schema.toJson r.schema)

/-- A request body as JSON. -/
def RequestBody.toJson (b : RequestBody) : Json :=
  .obj (optionalMember "description" Json.str b.description ++
    listMember "content" (tableOf MediaType.toJson) b.content ++
    optionalMember "schema" Schema.toJson b.schema ++
    [("required", .bool b.required)])

/-- An operation as JSON. -/
def Operation.toJson (op : Operation) : Json :=
  .obj (optionalMember "summary" Json.str op.summary ++
    optionalMember "description" Json.str op.description ++
    optionalMember "operationId" Json.str op.operationId ++
    listMember "parameters" (fun ps => .arr (ps.map Parameter.toJson)) op.parameters ++
    [("responses", tableOf Response.toJson op.responses)] ++
    optionalMember "requestBody" RequestBody.toJson op.requestBody)

/-- The operations of a path as JSON. -/
def PathItem.toJson (item : PathItem) : Json :=
  .obj (optionalMember "get" Operation.toJson item.get ++
    optionalMember "put" Operation.toJson item.put ++
    optionalMember "post" Operation.toJson item.post ++
    optionalMember "patch" Operation.toJson item.patch ++
    optionalMember "delete" Operation.toJson item.delete)

/-- A document as JSON. -/
def Document.toJson (doc : Document) : Json :=
  .obj (optionalMember "swagger" Json.str doc.swagger ++
    optionalMember "openapi" Json.str doc.openapi ++
    [("info", doc.info.toJson)] ++
    listMember "servers" (fun ss => .arr (ss.map Server.toJson)) doc.servers ++
    [("paths", tableOf PathItem.toJson doc.paths),
      ("components", .obj [("schemas", schemaTable doc.components)])] ++
    listMember "definitions" schemaTable doc.definitions ++
    optionalMember "host" Json.str doc.host ++
    optionalMember "basePath" Json.str doc.basePath ++
    listMember "schemes" texts doc.schemes)

end ResourceCli
