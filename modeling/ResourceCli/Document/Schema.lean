/-!
# Schemas

The schema of a piece of data: its type, its parts and, by `$ref`, the name of another schema it
stands for.  A schema may declare that it is a resource (`x-aep-resource`): what it is called,
where it is found and what contains it.
-/

namespace ResourceCli

/-- The types of a schema: one, or a list of alternatives. -/
inductive TypeNames
  /-- One type. -/
  | single (name : String)
  /-- Alternatives. -/
  | several (names : List String)
  deriving DecidableEq, Repr

/-- The declaration of a schema as a resource. -/
structure Declaration where
  /-- What one of them is called. -/
  singular : String := ""
  /-- What many of them are called. -/
  plural : String := ""
  /-- The URL patterns that address one of them. -/
  patterns : List String := []
  /-- The components of the resources that contain it. -/
  parents : List String := []
  deriving DecidableEq, Repr, Inhabited

/-- The schema of a piece of data. -/
structure Schema where
  /-- Its type. -/
  types : Option TypeNames := none
  /-- The format of a text or number. -/
  format : Option String := none
  /-- What it is, in words. -/
  description : Option String := none
  /-- The schema of the items of an array. -/
  items : Option Schema := none
  /-- The schemas of the properties of an object, in order. -/
  properties : List (String × Schema) := []
  /-- The schema it stands for. -/
  reference : Option String := none
  /-- The properties that have to be there. -/
  required : List String := []
  /-- Whether a client may not set it. -/
  readOnly : Bool := false
  /-- Its declaration as a resource. -/
  declared : Option Declaration := none
  deriving Inhabited

namespace Schema

/-- The effective type: of alternatives the first that is not `null`. -/
def typeName? (s : Schema) : Option String :=
  match s.types with
  | none => none
  | some (.single name) => some name
  | some (.several names) => names.find? (· != "null")

/-- Whether the effective type is the named one. -/
def isType (s : Schema) (name : String) : Bool := s.typeName? == some name

/-- Whether a property has to be there. -/
def requires (s : Schema) (property : String) : Bool := s.required.contains property

/-- The schema that stands for another one. -/
def refTo (target : String) : Schema := { reference := some target }

/-- The schema of a type. -/
def typed (name : String) : Schema := { types := some (.single name) }

@[simp] theorem reference_refTo (target : String) :
    (refTo target).reference = some target := rfl

@[simp] theorem reference_typed (name : String) : (typed name).reference = none := rfl

end Schema

end ResourceCli
