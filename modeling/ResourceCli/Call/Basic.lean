import ResourceCli.Failure.Basic
import ResourceCli.Input.Value
import ResourceCli.Json.Basic

/-!
# Calls

A call is what a command line asks of a resource: a method, the ids of the containing resources and
of the resource itself, and what to send along, either field by field or as a whole.
-/

namespace ResourceCli

/-- A call of a method of a resource. -/
structure Call where
  /-- The name of the resource. -/
  resource : String
  /-- The ids of the containing resources, in the order of the path. -/
  parents : List String := []
  /-- What is asked for. -/
  method : Method
  /-- The id of the resource. -/
  id : Option String := none
  /-- The fields that are given, in the order of their names. -/
  fields : List (String × InputValue) := []
  /-- The members of what is sent along, if they are given as a whole. -/
  data : Option (List (String × Json)) := none
  deriving Inhabited

/-- What is sent along: the members given as a whole, or else the fields. -/
def Call.payload (c : Call) : Json :=
  .obj (c.data.getD (c.fields.map fun (name, value) => (name, value.toJson)))

end ResourceCli
