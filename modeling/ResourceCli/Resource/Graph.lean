import ResourceCli.Failure.Basic
import ResourceCli.Resource.Basic
import ResourceCli.Resource.Likeness

/-!
# Graphs of resources

All resources that a document exposes, with the URL that requests are sent to.  A resource stands
at a place in a list, its parents are places, and an index in the order of names leads from the
name of a resource to its place.
-/

namespace ResourceCli

/-- The resources of a document. -/
structure ResourceGraph where
  /-- Where requests are sent. -/
  serverUrl : String := ""
  /-- The resources, in the order in which they were found. -/
  resources : List Resource := []
  /-- The place of each resource by its name, in the order of names. -/
  index : List (String × Nat) := []
  deriving Inhabited

namespace ResourceGraph

/-- The place of a resource. -/
def idOf? (g : ResourceGraph) (singular : String) : Option Nat := g.index.lookup singular

/-- The resource at a place. -/
def resource? (g : ResourceGraph) (id : Nat) : Option Resource := g.resources[id]?

/-- The names of the resources, in order. -/
def names (g : ResourceGraph) : List String := g.index.map Prod.fst

/-- The resources in the order of their names. -/
def ordered (g : ResourceGraph) : List Resource :=
  g.index.filterMap fun (_, id) => g.resource? id

/-- The resources that contain a resource. -/
def parentsOf (g : ResourceGraph) (r : Resource) : List Resource :=
  r.parents.filterMap g.resource?

/-- The resource of a name, or a failure that suggests another one. -/
def find (g : ResourceGraph) (name : String) : Except Failure Resource :=
  match (g.idOf? name).bind g.resource? with
  | some r => .ok r
  | none => .error (.resourceNotFound name g.names (Likeness.closest? name g.names))

end ResourceGraph

end ResourceCli
