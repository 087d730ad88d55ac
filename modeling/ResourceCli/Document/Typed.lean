import ResourceCli.Document.Basic
import ResourceCli.Shape.Basic

/-!
# Documents from typed data

What a reader hands over is data of the document's shape; here it becomes the document itself.
The values of a record come in the order of its fields, so that each conversion is one pattern.
-/

namespace ResourceCli

namespace Tree

/-- The text of an optional field. -/
def textOf : Option Tree → String
  | some (.text s) => s
  | _ => ""

/-- The text of an optional field that may be absent. -/
def textOf? : Option Tree → Option String
  | some (.text s) => some s
  | _ => none

/-- The truth value of an optional field. -/
def flagOf : Option Tree → Bool
  | some (.flag b) => b
  | _ => false

/-- The texts of an optional list. -/
def textsOf : Option Tree → List String
  | some (.list items) => items.map asText
  | _ => []

/-- The items of an optional list. -/
def itemsOf : Option Tree → List Tree
  | some (.list items) => items
  | _ => []

/-- The entries of an optional table. -/
def entriesOf : Option Tree → List (String × Tree)
  | some (.table entries) => entries
  | _ => []

/-- The value of an optional field that may be absent. -/
def presentOf : Option Tree → Option Tree
  | some .absent => none
  | value => value

end Tree

open ResourceCli.Tree

/-- The types of a schema from typed data. -/
def TypeNames.ofTree? : Option Tree → Option TypeNames
  | some (.text s) => some (.single s)
  | some (.list items) => some (.several (items.map asText))
  | _ => none

/-- A declaration from typed data. -/
def Declaration.ofTree? : Option Tree → Option Declaration
  | some (.record [singular, plural, patterns, parents]) =>
    some ⟨textOf singular, textOf plural, textsOf patterns, textsOf parents⟩
  | _ => none

mutual

/-- A schema from typed data. -/
def Schema.ofTree : Tree → Schema
  | .record [types, format, description, items, properties, reference, required, readOnly,
      declared] =>
    { types := TypeNames.ofTree? types
      format := textOf? format
      description := textOf? description
      items := Schema.ofTree? items
      properties := Schema.tableOfTree properties
      reference := textOf? reference
      required := textsOf required
      readOnly := flagOf readOnly
      declared := Declaration.ofTree? declared }
  | _ => {}

/-- A schema from a field that may be absent. -/
def Schema.ofTree? : Option Tree → Option Schema
  | none => none
  | some .absent => none
  | some t => some (Schema.ofTree t)

/-- Named schemas from a field. -/
def Schema.tableOfTree : Option Tree → List (String × Schema)
  | some (.table entries) => Schema.entriesOfTrees entries
  | _ => []

/-- Named schemas from entries. -/
def Schema.entriesOfTrees : List (String × Tree) → List (String × Schema)
  | [] => []
  | (name, t) :: rest => (name, Schema.ofTree t) :: Schema.entriesOfTrees rest

end

/-- Title and version from typed data. -/
def Info.ofTree : Option Tree → Info
  | some (.record [title, description, version]) =>
    ⟨textOf title, textOf? description, textOf version⟩
  | _ => {}

/-- A server from typed data. -/
def Server.ofTree : Tree → Server
  | .record [url, description] => ⟨textOf url, textOf? description⟩
  | _ => {}

/-- A media type from typed data. -/
def MediaType.ofTree : Tree → MediaType
  | .record [schema] => ⟨Schema.ofTree? schema⟩
  | _ => {}

/-- Content by media type from typed data. -/
def contentOfTree (t : Option Tree) : List (String × MediaType) :=
  (entriesOf t).map fun (name, t) => (name, MediaType.ofTree t)

/-- A parameter from typed data. -/
def Parameter.ofTree : Tree → Parameter
  | .record [name, location, description, required, schema] =>
    ⟨textOf name, textOf location, textOf? description, flagOf required,
      Schema.ofTree? schema⟩
  | _ => {}

/-- A response from typed data. -/
def Response.ofTree : Tree → Response
  | .record [description, content, schema] =>
    ⟨textOf description, contentOfTree content, Schema.ofTree? schema⟩
  | _ => {}

/-- A request body from typed data. -/
def RequestBody.ofTree : Tree → RequestBody
  | .record [description, content, schema, required] =>
    ⟨textOf? description, contentOfTree content, Schema.ofTree? schema, flagOf required⟩
  | _ => {}

/-- An operation from typed data. -/
def Operation.ofTree : Tree → Operation
  | .record [summary, description, operationId, parameters, responses, requestBody] =>
    { summary := textOf? summary
      description := textOf? description
      operationId := textOf? operationId
      parameters := (itemsOf parameters).map Parameter.ofTree
      responses := (entriesOf responses).map fun (code, t) => (code, Response.ofTree t)
      requestBody := (presentOf requestBody).map RequestBody.ofTree }
  | _ => {}

/-- The operations of a path from typed data. -/
def PathItem.ofTree : Tree → PathItem
  | .record [get, put, post, patch, delete] =>
    let op := fun t => (presentOf t).map Operation.ofTree
    ⟨op get, op put, op post, op patch, op delete⟩
  | _ => {}

/-- The component section from typed data. -/
def componentsOfTree : Option Tree → List (String × Schema)
  | some (.record [schemas]) => Schema.tableOfTree schemas
  | _ => []

/-- A document from typed data. -/
def Document.ofTree : Tree → Document
  | .record [swagger, openapi, info, servers, paths, components, definitions, host, basePath,
      schemes] =>
    { swagger := textOf? swagger
      openapi := textOf? openapi
      info := Info.ofTree info
      servers := (itemsOf servers).map Server.ofTree
      paths := (entriesOf paths).map fun (path, t) => (path, PathItem.ofTree t)
      components := componentsOfTree components
      definitions := Schema.tableOfTree definitions
      host := textOf? host
      basePath := textOf? basePath
      schemes := textsOf schemes }
  | _ => {}

end ResourceCli
