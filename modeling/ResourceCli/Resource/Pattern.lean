import ResourceCli.Resource.Basic
import ResourceCli.Text.Case

/-!
# Paths and patterns

What the path of a document says about a resource.  A path whose segments are literals and
placeholders in turn addresses one resource if it ends with a placeholder, and all of them if it
ends with a literal.  A path that ends with a colon and a name addresses a method of a resource's
own.
-/

namespace ResourceCli

/-- What a path addresses. -/
inductive PathKind
  /-- One resource. -/
  | item
  /-- All resources of a kind. -/
  | collection
  deriving DecidableEq, Repr

/-- Whether segments are literals and placeholders in turn; `wrapped` says which comes next. -/
def alternates (wrapped : Bool) : List String → Bool
  | [] => true
  | s :: rest => (placeholderName? s).isSome == wrapped && alternates (!wrapped) rest

/-- The segments of a path and what it addresses, if it is made of literals and placeholders in
turn, a literal first, and no segment is empty. -/
def classify? (path : String) : Option (List String × PathKind) :=
  let segments := Text.splitAt '/' ((Text.stripStart "/" path).getD path)
  if segments.contains "" || !alternates false segments then none
  else some (segments, if segments.length % 2 == 0 then .item else .collection)

/-- The path of a resource and the name of its own method, if the last segment of the path has a
colon and a name after it. -/
def splitCustomMethod? (path : String) : Option (String × String) := do
  let (head, last) := (Text.cutLast '/' path.toList).getD ([], path.toList)
  let (segment, name) ← Text.cutFirst ':' last
  if name.isEmpty then none
  else
    let whole := if head.isEmpty then segment else head ++ '/' :: segment
    some (String.ofList (whole.dropWhile (· == '/')), String.ofList name)

/-- The segments of a declared pattern. -/
def splitPattern (pattern : String) : List String :=
  (Text.splitAt '/' (Text.dropStartChar '/' pattern)).filter (· != "")

/-- The literal right before a pattern's own placeholder. -/
def inferPlural (pattern : List String) : String :=
  match pattern.reverse with
  | _ :: literal :: _ => literal
  | _ => ""

/-- The name of the resource of a component: the declared one, or else that of the component. -/
def resourceSingular (component : String) (s : Schema) : String :=
  match s.declared with
  | some d => if d.singular == "" then Text.kebabCase component else d.singular
  | none => Text.kebabCase component

end ResourceCli
