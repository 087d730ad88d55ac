import ResourceCli.Document.Basic

/-!
# Resources

What a document exposes: resources, each with a name, the pattern of the URLs that address one of
them, the resources that contain it, a schema, and the methods that can be asked of it.

A pattern is a list of segments, literals and placeholders in turn, and ends with the placeholder
for the resource's own id.  All other placeholders stand for the ids of containing resources.
-/

namespace ResourceCli

/-- The settings of the method that creates a resource. -/
structure CreateMethod where
  /-- Whether the caller chooses the id. -/
  userSettableId : Bool := false
  deriving DecidableEq, Repr, Inhabited

/-- The standard methods of a resource. -/
structure Methods where
  /-- Whether one can be got. -/
  get : Bool := false
  /-- Whether they can be listed. -/
  list : Bool := false
  /-- How one can be created, if at all. -/
  create : Option CreateMethod := none
  /-- Whether one can be changed. -/
  update : Bool := false
  /-- Whether one can be deleted. -/
  delete : Bool := false
  deriving DecidableEq, Repr, Inhabited

/-- The methods of both; of two ways to create the first one counts. -/
def Methods.fold (m other : Methods) : Methods where
  get := m.get || other.get
  list := m.list || other.list
  create := m.create <|> other.create
  update := m.update || other.update
  delete := m.delete || other.delete

/-- Folding nothing in changes nothing. -/
@[simp] theorem Methods.fold_empty (m : Methods) : m.fold {} = m := by
  cases m with
  | mk get list create update delete => cases create <;> simp [Methods.fold]

/-- A method of a resource's own, with a name. -/
structure CustomMethod where
  /-- Its name. -/
  name : String
  /-- The verb it is sent with. -/
  verb : String
  /-- The schema of what it is sent. -/
  request : Option Schema := none
  /-- The schema of what it answers. -/
  response : Option Schema := none
  deriving Inhabited

/-- A resource. -/
structure Resource where
  /-- What one of them is called. -/
  singular : String
  /-- What many of them are called. -/
  plural : String := ""
  /-- The segments of the URLs that address one of them. -/
  pattern : List String := []
  /-- The places of the resources that contain it. -/
  parents : List Nat := []
  /-- The schema of its data. -/
  schema : Schema := {}
  /-- Its standard methods. -/
  methods : Methods := {}
  /-- Its own methods. -/
  customs : List CustomMethod := []
  deriving Inhabited

/-- The name inside the braces of a placeholder; other segments have none. -/
def placeholderName? (segment : String) : Option String :=
  match segment.toList with
  | '{' :: rest =>
    if rest.getLast? == some '}' then some (String.ofList rest.dropLast) else none
  | _ => none

/-- The placeholder of a name. -/
def placeholder (name : String) : String := "\x7b" ++ name ++ "\x7d"

namespace Resource

/-- The pattern as the path of a URL, without a slash at its start. -/
def patternPath (r : Resource) : String := Text.join "/" r.pattern

/-- The segments that a resource's pattern has besides its own placeholder. -/
def collectionSegments (r : Resource) : List String := r.pattern.dropLast

/-- The names of the placeholders of containing resources, in the order of the path: of the
segments at odd places all but the last one. -/
def parentPlaceholders (r : Resource) : List String :=
  r.collectionSegments.zipIdx.filterMap fun (segment, i) =>
    if i % 2 == 1 then placeholderName? segment else none

/-- The method of the resource's own with a name. -/
def custom? (r : Resource) (name : String) : Option CustomMethod :=
  r.customs.find? (·.name == name)

end Resource

/-- The flag that gives the id for a placeholder: its name, without an `_id` at its end. -/
def parentFlagName (name : String) : String :=
  match Text.stripEnd "_id" name with
  | some "" => name
  | some short => short
  | none => name

/-- The flags that give the ids of the containing resources, in the order of the path. -/
def Resource.parentFlags (r : Resource) : List String :=
  r.parentPlaceholders.map parentFlagName

end ResourceCli
