import ResourceCli.Document.Schema
import ResourceCli.Failure.Basic
import ResourceCli.Text.Blank

/-!
# The inputs of a schema

Every property of a schema that a client may set can be given on the command line.  Its type says
how: as a text, a number, a truth value, a list of texts, or as JSON.
-/

namespace ResourceCli

/-- How the value of a property is given. -/
inductive InputKind
  /-- As it is. -/
  | text
  /-- As an integer. -/
  | integer
  /-- As a number. -/
  | number
  /-- As a truth value. -/
  | flag
  /-- As a list of texts with commas between them. -/
  | list
  /-- As JSON. -/
  | json
  deriving DecidableEq, Repr, Inhabited

/-- What stands for a value of the kind in a description of the command. -/
def InputKind.placeholder : InputKind → String
  | text => "STRING"
  | integer => "INT"
  | number => "FLOAT"
  | flag => "BOOL"
  | list => "LIST"
  | json => "JSON"

/-- How a property is given; a list needs to say what its items are. -/
def InputKind.ofSchema (property : String) (s : Schema) : Except Failure InputKind :=
  match s.typeName? with
  | some "string" => .ok text
  | some "integer" => .ok integer
  | some "number" => .ok number
  | some "boolean" => .ok flag
  | some "array" => if s.items.isNone then .error (.arrayWithoutItems property) else .ok list
  | _ => .ok json

/-- A property that can be given on the command line. -/
structure FieldInput where
  /-- The name of the property. -/
  name : String
  /-- How its value is given. -/
  kind : InputKind
  /-- What it is. -/
  help : String
  /-- Whether it has to be given. -/
  required : Bool
  deriving DecidableEq, Repr, Inhabited

/-- What a property is, in words. -/
def fieldHelp (name : String) (required : Bool) (property : Schema) : String :=
  let said := property.description.filter fun d => Text.trim d != ""
  said.getD ("The " ++ name ++ " of the resource") ++ if required then " (required)" else ""

/-- The input of a property. -/
def fieldInput (s : Schema) (name : String) (property : Schema) : Except Failure FieldInput := do
  let required := s.requires name
  let kind ← InputKind.ofSchema name property
  return ⟨name, kind, fieldHelp name required property, required⟩

/-- The inputs of a schema: one for every property that is not read-only, in order. -/
def fieldInputs (s : Schema) : Except Failure (List FieldInput) :=
  (s.properties.filter fun (_, property) => !property.readOnly).mapM fun (name, property) =>
    fieldInput s name property

end ResourceCli
