import ResourceCli.Number.Text
import ResourceCli.Text.Quoted

/-!
# The shape of typed data

A document is data of a known shape: records with named fields, lists, tables and texts.  The
shape is itself a value here, so that one reader per data format serves every record, and so that
each format states only what it does at a text, a list or a record.

A record may be written as a mapping of its fields or as the list of their values in order.
Fields that are not there have a default unless they are required; unknown fields are passed over.
-/

namespace ResourceCli

/-- The records of a document. -/
inductive RecordName
  /-- The document itself. -/
  | document
  /-- Title and version. -/
  | info
  /-- One server. -/
  | server
  /-- The component section. -/
  | components
  /-- The operations of one path. -/
  | pathItem
  /-- One operation. -/
  | operation
  /-- One parameter of an operation. -/
  | parameter
  /-- One response of an operation. -/
  | response
  /-- The request body of an operation. -/
  | requestBody
  /-- The content of one media type. -/
  | mediaType
  /-- A schema. -/
  | schema
  /-- The declaration of a schema as a resource. -/
  | declaration
  /-- The settings file. -/
  | settings
  /-- One stored alias. -/
  | apiAlias
  deriving DecidableEq, Repr

/-- The shape of a piece of data. -/
inductive Shape
  /-- A text. -/
  | text
  /-- A truth value. -/
  | flag
  /-- The shape, or nothing. -/
  | optional (s : Shape)
  /-- A list of the shape. -/
  | list (s : Shape)
  /-- A table from names to the shape. -/
  | table (s : Shape)
  /-- A record. -/
  | record (r : RecordName)
  /-- One text, or a list of texts. -/
  | oneOrMore
  deriving DecidableEq

/-- A field of a record. -/
structure Field where
  /-- The name it is written under. -/
  key : String
  /-- The shape of its value. -/
  shape : Shape
  /-- Whether it has to be there. -/
  required : Bool := false

namespace RecordName

/-- The name of the record as diagnostics give it. -/
def title : RecordName → String
  | document => "OpenApiDocument"
  | info => "Info"
  | server => "Server"
  | components => "Components"
  | pathItem => "PathItem"
  | operation => "Operation"
  | parameter => "Parameter"
  | response => "Response"
  | requestBody => "RequestBody"
  | mediaType => "MediaType"
  | schema => "Schema"
  | declaration => "ResourceAnnotation"
  | settings => "Config"
  | apiAlias => "ApiAlias"

/-- The fields of the record, in order. -/
def fields : RecordName → List Field
  | document => [
      ⟨"swagger", .optional .text, false⟩, ⟨"openapi", .optional .text, false⟩,
      ⟨"info", .record info, false⟩, ⟨"servers", .list (.record server), false⟩,
      ⟨"paths", .table (.record pathItem), false⟩,
      ⟨"components", .record components, false⟩,
      ⟨"definitions", .table (.record schema), false⟩, ⟨"host", .optional .text, false⟩,
      ⟨"basePath", .optional .text, false⟩, ⟨"schemes", .list .text, false⟩]
  | info => [
      ⟨"title", .text, false⟩, ⟨"description", .optional .text, false⟩,
      ⟨"version", .text, false⟩]
  | server => [⟨"url", .text, true⟩, ⟨"description", .optional .text, false⟩]
  | components => [⟨"schemas", .table (.record schema), false⟩]
  | pathItem =>
      ["get", "put", "post", "patch", "delete"].map
        fun verb => ⟨verb, .optional (.record operation), false⟩
  | operation => [
      ⟨"summary", .optional .text, false⟩, ⟨"description", .optional .text, false⟩,
      ⟨"operationId", .optional .text, false⟩,
      ⟨"parameters", .list (.record parameter), false⟩,
      ⟨"responses", .table (.record response), false⟩,
      ⟨"requestBody", .optional (.record requestBody), false⟩]
  | parameter => [
      ⟨"name", .text, true⟩, ⟨"in", .text, false⟩, ⟨"description", .optional .text, false⟩,
      ⟨"required", .flag, false⟩, ⟨"schema", .optional (.record schema), false⟩]
  | response => [
      ⟨"description", .text, false⟩,
      ⟨"content", .table (.record mediaType), false⟩,
      ⟨"schema", .optional (.record schema), false⟩]
  | requestBody => [
      ⟨"description", .optional .text, false⟩,
      ⟨"content", .table (.record mediaType), false⟩,
      ⟨"schema", .optional (.record schema), false⟩, ⟨"required", .flag, false⟩]
  | mediaType => [⟨"schema", .optional (.record schema), false⟩]
  | schema => [
      ⟨"type", .optional .oneOrMore, false⟩, ⟨"format", .optional .text, false⟩,
      ⟨"description", .optional .text, false⟩,
      ⟨"items", .optional (.record schema), false⟩,
      ⟨"properties", .table (.record schema), false⟩, ⟨"$ref", .optional .text, false⟩,
      ⟨"required", .list .text, false⟩, ⟨"readOnly", .flag, false⟩,
      ⟨"x-aep-resource", .optional (.record declaration), false⟩]
  | declaration => [
      ⟨"singular", .text, false⟩, ⟨"plural", .text, false⟩, ⟨"patterns", .list .text, false⟩,
      ⟨"parents", .list .text, false⟩]
  | settings => [⟨"apis", .table (.record apiAlias), false⟩]
  | apiAlias => [
      ⟨"name", .text, true⟩, ⟨"openapi_path", .text, false⟩, ⟨"server_url", .text, false⟩,
      ⟨"headers", .list .text, false⟩, ⟨"path_prefix", .text, false⟩]

/-- The place of a field among the fields of the record. -/
def fieldIndex? (r : RecordName) (key : String) : Option Nat :=
  r.fields.findIdx? (·.key == key)

end RecordName

/-- A piece of typed data, read by its shape. -/
inductive Tree
  /-- Nothing, where nothing is allowed. -/
  | absent
  /-- A text. -/
  | text (s : String)
  /-- A truth value. -/
  | flag (b : Bool)
  /-- A list. -/
  | list (items : List Tree)
  /-- A table, its entries in order and its names distinct. -/
  | table (entries : List (String × Tree))
  /-- A record: for each field in order its value, or none where the default holds. -/
  | record (values : List (Option Tree))
  deriving Inhabited

namespace Tree

/-- Puts an entry into a table: in the place of the one of that name, else at the end. -/
def insert {α : Type} (name : String) (value : α) :
    List (String × α) → List (String × α)
  | [] => [(name, value)]
  | (k, v) :: rest =>
    if k == name then (k, value) :: rest else (k, v) :: insert name value rest

/-- The text of a piece of data; empty where it is none. -/
def asText : Tree → String
  | text s => s
  | _ => ""

end Tree

/-- What was found where something else was wanted. -/
inductive Found
  /-- The empty value. -/
  | unit
  /-- A truth value. -/
  | bool (b : Bool)
  /-- An integer. -/
  | int (i : Int)
  /-- A double. -/
  | double (x : Number.Binary64)
  /-- A text. -/
  | str (s : String)
  /-- A list. -/
  | seq
  /-- A mapping. -/
  | map

/-- What was found, in words. -/
def Found.text : Found → String
  | unit => "null"
  | bool true => "boolean `true`"
  | bool false => "boolean `false`"
  | int i => "integer `" ++ String.ofList (Number.intText i) ++ "`"
  | double x => "floating point `" ++ String.ofList x.text ++ "`"
  | str s => "string " ++ Text.quoted s
  | seq => "sequence"
  | map => "map"

/-- How data can fail to have a shape. -/
inductive Mismatch
  /-- Something else was wanted. -/
  | kind (found : Found) (wanted : String)
  /-- A required field is not there. -/
  | missingField (key : String)
  /-- A field is there twice. -/
  | duplicateField (key : String)
  /-- A record written as a list ends before a required field. -/
  | tooShort (count : Nat) (r : RecordName)
  /-- Neither a text nor a list of texts. -/
  | noVariant

/-- The wording of a mismatch. -/
def Mismatch.message : Mismatch → String
  | kind found wanted => "invalid type: " ++ found.text ++ ", expected " ++ wanted
  | missingField key => "missing field `" ++ key ++ "`"
  | duplicateField key => "duplicate field `" ++ key ++ "`"
  | tooShort count r =>
    let n := r.fields.length
    s!"invalid length {count}, expected struct {r.title} with {n} element" ++
      (if n == 1 then "" else "s")
  | noVariant => "data did not match any variant of untagged enum SchemaType"

end ResourceCli
