import ResourceCli.Input.Basic
import ResourceCli.Input.Record
import ResourceCli.Json.Read

/-!
# Values given on the command line

A value as it is given is a text; read by the kind of its input it becomes a typed value, which
stands for a JSON value in the body of a request.
-/

namespace ResourceCli

open Number

/-- A typed value. -/
inductive InputValue
  /-- A text. -/
  | text (s : String)
  /-- An integer. -/
  | integer (i : Int)
  /-- A number. -/
  | number (x : Double)
  /-- A truth value. -/
  | flag (b : Bool)
  /-- A list of texts. -/
  | list (items : List String)
  /-- Any JSON value. -/
  | json (v : Json)
  deriving Inhabited

/-- The JSON value of a number; infinity and not-a-number have none. -/
def Number.Double.toJson : Double → Json
  | .finite x => .num (.double x)
  | _ => .null

/-- The JSON value that a typed value stands for. -/
def InputValue.toJson : InputValue → Json
  | text s => .str s
  | integer i => .num (.int i)
  | number x => x.toJson
  | flag b => .bool b
  | list items => .arr (items.map .str)
  | json v => v

/-- Why a value cannot be read. -/
inductive InputFault
  /-- It is no integer. -/
  | integer (raw : String) (fault : IntFault)
  /-- It is no number. -/
  | number (raw : String)
  /-- It is no truth value. -/
  | flag (word : String)
  /-- It is no list. -/
  | list (raw : String) (fault : Input.RecordFault)
  /-- It is no JSON text. -/
  | json (raw : String) (defect : Json.Defect)

/-- The wording of a fault. -/
def InputFault.message : InputFault → String
  | integer raw fault => "invalid integer '" ++ raw ++ "': " ++ fault.message
  | number raw =>
    "invalid number '" ++ raw ++ "': " ++
      if Text.trim raw == "" then "cannot parse float from empty string"
      else "invalid float literal"
  | flag word => "invalid boolean '" ++ word ++ "'"
  | list raw fault => fault.message raw
  | json raw defect => "invalid JSON '" ++ raw ++ "': " ++ defect.message

/-- The truth value of a word; no word at all means that the flag is set. -/
def flagWord? (word : String) : Option Bool :=
  if ["", "true", "TRUE", "True", "1"].contains word then some true
  else if ["false", "FALSE", "False", "0"].contains word then some false
  else none

/-- Reads a value of a kind. -/
def InputValue.read (kind : InputKind) (raw : String) : Except InputFault InputValue :=
  match kind with
  | .text => .ok (.text raw)
  | .integer =>
    match readInt64 (Text.trim raw) with
    | .ok i => .ok (.integer i)
    | .error fault => .error (.integer raw fault)
  | .number =>
    match readDouble? (Text.trim raw) with
    | some x => .ok (.number x)
    | none => .error (.number raw)
  | .flag =>
    match flagWord? (Text.trim raw) with
    | some b => .ok (.flag b)
    | none => .error (.flag (Text.trim raw))
  | .list =>
    match Input.readRecord raw with
    | .ok items => .ok (.list items)
    | .error fault => .error (.list raw fault)
  | .json =>
    match Json.read raw with
    | .ok v => .ok (.json v)
    | .error defect => .error (.json raw defect)

end ResourceCli
