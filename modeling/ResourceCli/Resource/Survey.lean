import ResourceCli.Document.Read
import ResourceCli.Json.Basic
import ResourceCli.Log.Event
import ResourceCli.Resource.Graph
import ResourceCli.Resource.Pattern

/-!
# Finding the resources of a document

A survey walks over the paths of a document in order.  A path that addresses one resource or all
of a kind contributes methods to the resource whose schema its responses carry; the resource is
created when it is first met.  A schema that declares its resource says where it is found and what
contains it, and then the containing resources are created first.  A path with a method name after
a colon is kept until all resources are known, and its method then goes to the resource of that
pattern.

Everything about one path is pure (`classify?`, `scanItem`, `scanCollection`, `customMethod?`);
the walk itself carries the resources found so far and what was noted down (`Survey`).
-/

namespace ResourceCli

/-- What one path contributes to a resource. -/
structure Discovery where
  /-- The methods it offers. -/
  methods : Methods := {}
  /-- The schema that names the resource. -/
  schema : Option Schema := none
  /-- Whether its list had to be left out, as no property of its response is a list. -/
  listSkipped : Bool := false

/-- The state of a survey. -/
structure Survey where
  /-- The resources found so far. -/
  resources : List Resource := []
  /-- Their places by name. -/
  index : List (String × Nat) := []
  /-- The methods with a name, by the pattern they belong to, in the order of the document. -/
  customs : List (String × List CustomMethod) := []
  /-- What was noted down, the latest first. -/
  notes : List Log.Event := []

/-- A step of a survey: it changes the state, and fails or goes on. -/
abbrev SurveyM := EStateM Failure Survey

namespace Document

/-- The schema of a success: that of the response `200`, or else that of the first response with
a code of the same class. -/
def successSchema? (doc : Document) (op : Operation) : Option Schema :=
  doc.responseSchemaFor? op "200" <|>
    ((op.responses.find? fun (code, _) => code.toList.head? == some '2').bind
      fun (_, response) => doc.dialect.responseSchema response)

/-- Following references, with the failure of a run. -/
def resolveSchema (doc : Document) (s : Schema) : Except Failure Schema :=
  (doc.dereference s).mapError ReferenceFault.failure

/-- What a path that addresses one resource contributes. -/
def scanItem (doc : Document) (item : PathItem) : Discovery :=
  let got := item.get.bind doc.successSchema?
  let changed := item.patch.bind doc.successSchema?
  { methods := { get := got.isSome, update := changed.isSome, delete := item.delete.isSome }
    schema := got <|> changed }

/-- The schema of the items of the first property that is a list. -/
def listedItems? (envelope : Schema) : Option Schema :=
  (envelope.properties.find? fun (_, property) => property.isType "array").bind
    fun (_, property) => property.items

/-- What a path that addresses all resources of a kind contributes. -/
def scanCollection (doc : Document) (item : PathItem) : Except Failure Discovery := do
  let created := item.post.bind fun op =>
    (doc.successSchema? op).map fun s => (CreateMethod.mk (op.hasQueryParameter "id"), s)
  let found : Discovery := {
    methods := { create := created.map Prod.fst }
    schema := created.map Prod.snd }
  match item.get.bind doc.successSchema? with
  | none => return found
  | some s =>
    match listedItems? (← doc.resolveSchema s) with
    | some items =>
      return { found with
        methods := { found.methods with list := true }
        schema := found.schema <|> some items }
    | none => return { found with listSkipped := true }

/-- What a path contributes. -/
def scan (doc : Document) (kind : PathKind) (item : PathItem) : Except Failure Discovery :=
  match kind with
  | .item => .ok (doc.scanItem item)
  | .collection => doc.scanCollection item

/-- The schema that an optional schema stands for. -/
def resolveSchema? (doc : Document) : Option Schema → Except Failure (Option Schema)
  | none => .ok none
  | some s => some <$> doc.resolveSchema s

/-- The verb that a method with a name is sent with: `POST` if declared, or else the first. -/
def keptVerb? (item : PathItem) : Option (Verb × Operation) :=
  item.declaredOperations.find? (·.1 == .post) <|> item.declaredOperations.head?

/-- The method with a name that a path declares. -/
def customMethod? (doc : Document) (item : PathItem) (name : String) :
    Except Failure (Option CustomMethod) :=
  match keptVerb? item with
  | none => .ok none
  | some (verb, op) => do
    let request ← doc.resolveSchema? (if verb == .post then doc.requestSchema? op else none)
    let response ← doc.resolveSchema? (doc.successSchema? op)
    return some ⟨name, verb.name, request, response⟩

end Document

namespace Survey

/-- The part of the program that notes down what a survey does. -/
def target : String := "aepcli::engine::resolver"

/-- Notes something down. -/
def note (level : Log.Level) (message : String) (fields : List (String × Log.Datum)) :
    SurveyM Unit :=
  modify fun s => { s with notes := ⟨level, target, message, fields⟩ :: s.notes }

/-- Notes a warning down. -/
def warn (message : String) (fields : List (String × Log.Datum)) : SurveyM Unit :=
  note .warn message fields

/-- Goes on with a value, or fails. -/
def lift {α : Type} : Except Failure α → SurveyM α
  | .ok a => pure a
  | .error e => throw e

/-- Changes the resource at a place. -/
def modifyAt (id : Nat) (f : Resource → Resource) : SurveyM Unit :=
  modify fun s => { s with resources := s.resources.modify id f }

/-- Gives a resource without a pattern the one it is met under. -/
def Resource.withPattern (pattern : List String) (r : Resource) : Resource :=
  if r.pattern.isEmpty && !pattern.isEmpty then
    { r with plural := inferPlural pattern, pattern := pattern }
  else r

/-- Adds a resource at the next place. -/
def add (r : Resource) : SurveyM Nat := do
  note .debug "discovered resource"
    [("resource", .plain r.singular), ("pattern", .plain r.patternPath)]
  let s ← EStateM.get
  let id := s.resources.length
  EStateM.set { s with
    resources := s.resources ++ [r]
    index := Json.insertSorted r.singular id s.index }
  return id

/-- The resource that a schema without a declaration stands for. -/
def inferred (singular : String) (pattern : List String) (s : Schema) : Resource :=
  { singular, plural := inferPlural pattern, pattern, schema := s }

/-- The resource that a schema with a declaration stands for. -/
def declared (singular : String) (d : Declaration) (parents : List Nat) (s : Schema) :
    Resource :=
  let pattern := (d.patterns.head?.map splitPattern).getD []
  { singular
    plural := if d.plural == "" then inferPlural pattern else d.plural
    pattern, parents, schema := s }

/-- The place of the resource of a name, created from its schema if it is not there yet.  The
containing resources of a declaration come first; `pending` are the names of the resources whose
containing resources are being created, and `fuel` bounds how deep that goes. -/
def populate (doc : Document) (pending : List String) (singular : String)
    (pattern : List String) (s : Schema) : (fuel : Nat) → SurveyM Nat
  | 0 => throw (.circularParent singular)
  | fuel + 1 => do
    match (← EStateM.get).index.lookup singular with
    | some id =>
      modifyAt id (Resource.withPattern pattern)
      return id
    | none =>
      match s.declared with
      | none => add (inferred singular pattern s)
      | some d =>
        if pending.contains singular then throw (.circularParent singular)
        let parents ← d.parents.mapM fun parent => do
          match doc.component? parent with
          | none => throw (.parentNotFound singular parent)
          | some component =>
            let target ← lift (doc.resolveSchema component)
            populate doc (singular :: pending) (resourceSingular parent target) [] target fuel
        add (declared singular d parents s)

/-- How deep containing resources can lie: the first resource, one for every component, and one
that closes a circle. -/
def depth (doc : Document) : Nat := doc.schemas.length + 2

/-- The place of the resource of a name, created from its schema if it is not there yet. -/
def getOrPopulate (doc : Document) (singular : String) (pattern : List String) (s : Schema) :
    SurveyM Nat :=
  populate doc [] singular pattern s (depth doc)

/-- Folds the methods that a path offers into a resource. -/
def contribute (doc : Document) (singular : String) (pattern : List String) (s : Schema)
    (methods : Methods) : SurveyM Unit := do
  let id ← getOrPopulate doc singular pattern s
  modifyAt id fun r => { r with methods := r.methods.fold methods }

/-- Keeps a method with a name for the resource of a pattern. -/
def keepCustom (rawPath : String) (pattern : String) (method : CustomMethod) :
    SurveyM Unit := do
  let s ← EStateM.get
  let bucket := (s.customs.lookup pattern).getD []
  if bucket.any (·.name == method.name) then
    warn "custom method already declared on another path; ignoring"
      [("path", .quoted rawPath)]
  else
    EStateM.set { s with customs := Tree.insert pattern (bucket ++ [method]) s.customs }

/-- Surveys a path with a method name. -/
def visitCustom (doc : Document) (rawPath pattern name : String) (item : PathItem) :
    SurveyM Unit := do
  match Document.keptVerb? item with
  | none => pure ()
  | some (kept, _) =>
    for (ignored, _) in item.declaredOperations do
      if ignored != kept then
        warn "custom method declares several verbs; keeping one"
          [("method", .quoted name), ("kept", .quoted kept.name),
            ("ignored", .quoted ignored.name)]
    match ← lift (doc.customMethod? item name) with
    | some method => keepCustom rawPath pattern method
    | none => pure ()

/-- Surveys a path that addresses resources. -/
def visitResource (doc : Document) (rawPath path : String) (pattern : List String)
    (kind : PathKind) (item : PathItem) : SurveyM Unit := do
  let found ← lift (doc.scan kind item)
  if found.listSkipped then
    warn "LIST response has no array property with an items schema; skipping list"
      [("path", .quoted path)]
  match found.schema with
  | none => pure ()
  | some captured =>
    match captured.reference with
    | none =>
      if captured.declared.isNone then
        warn
          "inline response schema without a reference or annotation; cannot name resource"
          [("path", .quoted rawPath)]
      else contribute doc (resourceSingular "" captured) pattern captured found.methods
    | some reference =>
      let s ← lift (doc.resolveSchema captured)
      let singular := resourceSingular (referenceName reference) s
      let pattern :=
        if kind == .collection && s.declared.isNone then pattern ++ [placeholder singular]
        else pattern
      contribute doc singular pattern s found.methods

/-- Surveys one path; `start` is what is taken off its start. -/
def visit (doc : Document) (start : String) (rawPath : String) (item : PathItem) :
    SurveyM Unit := do
  let path := (Text.stripStart start rawPath).getD rawPath
  match splitCustomMethod? path with
  | some (pattern, name) => visitCustom doc rawPath pattern name item
  | none =>
    match classify? path with
    | none => note .debug "not a resource path, skipping" [("path", .quoted rawPath)]
    | some (pattern, kind) => visitResource doc rawPath path pattern kind item

/-- Gives methods with names to the first resource of their pattern. -/
def attach (pattern : String) (methods : List CustomMethod) : SurveyM Unit := do
  match (← EStateM.get).resources.findIdx? (·.patternPath == pattern) with
  | some id => modifyAt id fun r => { r with customs := r.customs ++ methods }
  | none =>
    warn "custom methods do not match any resource pattern; dropping them"
      [("pattern", .quoted pattern)]

/-- Where requests are sent: to the given URL, or else to the one that the document declares. -/
def serverUrl (doc : Document) (given : Option String) (start : String) :
    Except Failure String :=
  match given.filter (· != "") with
  | some url => .ok url
  | none =>
    match doc.declaredServerUrl? with
    | some url => .ok (url ++ start)
    | none => .error .noServerUrl

/-- Surveys a whole document. -/
def run (doc : Document) (given : Option String) (start : String) :
    SurveyM ResourceGraph := do
  for (path, item) in doc.paths do
    visit doc start path item
  for (pattern, methods) in (← EStateM.get).customs do
    attach pattern methods
  let url ← lift (serverUrl doc given start)
  let s ← EStateM.get
  return ⟨url, s.resources, s.index⟩

end Survey

namespace Document

/-- The resources of a document, or why they cannot be found, and what was noted down on the way.
`given` is where requests are sent, if not to where the document says; `start` is taken off every
path and put behind the document's own URL. -/
def survey (doc : Document) (given : Option String) (start : String) :
    Except Failure ResourceGraph × List Log.Event :=
  match Survey.run doc given start {} with
  | .ok graph s => (.ok graph, s.notes.reverse)
  | .error failure s => (.error failure, s.notes.reverse)

/-- The resources of a document. -/
def resources (doc : Document) (given : Option String) (start : String) :
    Except Failure ResourceGraph := (doc.survey given start).1

end Document

end ResourceCli
