import ResourceCli.Proofs.Survey.Hierarchy
import ResourceCli.Resource.Annotated

/-!
# Surveying the dialects alike

A survey does not look at a document as such.  It looks at the named schemas, at the server that is
declared, and at each operation through three questions: which schema a success carries, which
schema a request carries, and which query parameters there are.  Two documents that answer all of
this alike are surveyed alike, whatever else they say and in whatever dialect
(`Document.LooksLike.survey_eq`).

Each of the steps is one lemma: following references and populating (`Document.populate_congr`), a
single path (`Document.LooksLike.visit_map`), and the loop over all paths.

This is applied to the two dialects.  `Document.legacy` writes a document of the current dialect as
one of the legacy dialect: named schemas are definitions, the JSON schema of a response stands in
the response itself, and the JSON schema of a request stands in a body parameter.  What is found in
both documents is the same, and so are the failures and what is noted down.
-/

namespace ResourceCli

/-! ## Changing all operations of a path -/

namespace PathItem

variable (f : Operation → Operation) (item : PathItem)

/-- The path with all its operations changed. -/
def map : PathItem where
  get := item.get.map f
  put := item.put.map f
  post := item.post.map f
  patch := item.patch.map f
  delete := item.delete.map f

@[simp] theorem operation_map (verb : Verb) :
    (item.map f).operation verb = (item.operation verb).map f := by
  cases verb <;> rfl

theorem declaredOperations_map :
    (item.map f).declaredOperations = item.declaredOperations.map fun p => (p.1, f p.2) := by
  unfold declaredOperations
  rw [List.map_filterMap]
  congr 1
  funext verb
  rw [operation_map, Option.map_map, Option.map_map]
  rfl

theorem keptVerb_map :
    Document.keptVerb? (item.map f) =
      (Document.keptVerb? item).map fun p => (p.1, f p.2) := by
  unfold Document.keptVerb?
  rw [declaredOperations_map, List.find?_map, List.head?_map]
  simp only [Option.orElse_eq_orElse, Option.orElse_eq_or, Option.map_or]
  rfl

end PathItem

/-! ## Documents that look alike -/

namespace Document

/-- The operations of all paths. -/
def operations (doc : Document) : List Operation :=
  doc.paths.flatMap fun entry => entry.2.declaredOperations.map Prod.snd

theorem mem_operations {doc : Document} {entry : String × PathItem} (he : entry ∈ doc.paths)
    {verb : Verb} {op : Operation} (hop : entry.2.operation verb = some op) :
    op ∈ doc.operations := by
  have hverb : verb ∈ Verb.all := by cases verb <;> decide
  have hdeclared : (verb, op) ∈ entry.2.declaredOperations :=
    List.mem_filterMap.2 ⟨verb, hverb, by rw [hop, Option.map_some]⟩
  exact List.mem_flatMap.2 ⟨entry, he, List.mem_map_of_mem hdeclared⟩

/-- A document looks to a survey like another one whose operations are changed by `f`. -/
structure LooksLike (f : Operation → Operation) (doc doc' : Document) : Prop where
  /-- The named schemas are the same. -/
  schemas : doc'.schemas = doc.schemas
  /-- The paths are the same but for their operations. -/
  paths : doc'.paths = doc.paths.map fun entry => (entry.1, entry.2.map f)
  /-- A success carries the same schema. -/
  success : ∀ op ∈ doc.operations, doc'.successSchema? (f op) = doc.successSchema? op
  /-- A request carries the same schema. -/
  request : ∀ op ∈ doc.operations, doc'.requestSchema? (f op) = doc.requestSchema? op
  /-- There are the same query parameters. -/
  query : ∀ op ∈ doc.operations, ∀ name,
    (f op).hasQueryParameter name = op.hasQueryParameter name
  /-- The same server is declared. -/
  server : doc'.declaredServerUrl? = doc.declaredServerUrl?

/-! ### References -/

section Schemas

variable {doc doc' : Document} (h : doc'.schemas = doc.schemas)
include h

theorem component?_congr (name : String) : doc'.component? name = doc.component? name := by
  unfold component?
  rw [h]

theorem follow_congr (seen : List String) (s : Schema) (hops : Nat) :
    doc'.follow seen s hops = doc.follow seen s hops := by
  induction hops generalizing seen s with
  | zero => rfl
  | succ hops ih =>
    unfold follow
    simp only [component?_congr h, ih]

theorem resolveSchema_congr (s : Schema) : doc'.resolveSchema s = doc.resolveSchema s := by
  unfold resolveSchema dereference
  rw [follow_congr h]

/-- Populating looks at the named schemas alone. -/
theorem populate_congr (pending : List String) (singular : String) (pattern : List String)
    (s : Schema) (fuel : Nat) :
    Survey.populate doc' pending singular pattern s fuel =
      Survey.populate doc pending singular pattern s fuel := by
  induction fuel generalizing pending singular pattern s with
  | zero => rfl
  | succ fuel ih =>
    unfold Survey.populate
    simp only [component?_congr h, resolveSchema_congr h, ih]

theorem contribute_congr :
    Survey.contribute doc' = Survey.contribute doc := by
  funext singular pattern s methods
  unfold Survey.contribute Survey.getOrPopulate Survey.depth
  rw [populate_congr h, h]

end Schemas

namespace LooksLike

variable {f : Operation → Operation} {doc doc' : Document} {item : PathItem}

/-! ### One path -/

theorem success_bind (h : LooksLike f doc doc') {op? : Option Operation}
    (hd : ∀ op ∈ op?, op ∈ doc.operations) :
    (op?.map f).bind doc'.successSchema? = op?.bind doc.successSchema? := by
  cases op? with
  | none => rfl
  | some op => exact h.success op (hd op rfl)

theorem scanItem_map (h : LooksLike f doc doc')
    (hd : ∀ verb, ∀ op ∈ item.operation verb, op ∈ doc.operations) :
    doc'.scanItem (item.map f) = doc.scanItem item := by
  unfold scanItem
  have hget : ((item.map f).get).bind doc'.successSchema? = item.get.bind doc.successSchema? :=
    h.success_bind (hd .get)
  have hpatch : ((item.map f).patch).bind doc'.successSchema? =
      item.patch.bind doc.successSchema? := h.success_bind (hd .patch)
  have hdelete : (item.map f).delete.isSome = item.delete.isSome := Option.isSome_map
  rw [hget, hpatch, hdelete]

theorem scanCollection_map (h : LooksLike f doc doc')
    (hd : ∀ verb, ∀ op ∈ item.operation verb, op ∈ doc.operations) :
    doc'.scanCollection (item.map f) = doc.scanCollection item := by
  unfold scanCollection
  have hget : ((item.map f).get).bind doc'.successSchema? = item.get.bind doc.successSchema? :=
    h.success_bind (hd .get)
  have hpost : ((item.map f).post.bind fun op => (doc'.successSchema? op).map fun s =>
      (CreateMethod.mk (op.hasQueryParameter "id"), s)) =
      item.post.bind fun op => (doc.successSchema? op).map fun s =>
        (CreateMethod.mk (op.hasQueryParameter "id"), s) := by
    have hd := hd .post
    unfold PathItem.map
    dsimp only [PathItem.operation] at hd ⊢
    cases hp : item.post with
    | none => rfl
    | some op =>
      have hop := hd op hp
      simp only [Option.map_some, Option.bind_some, h.success op hop, h.query op hop]
  simp only [hget, hpost, resolveSchema_congr h.schemas]

theorem scan_map (h : LooksLike f doc doc')
    (hd : ∀ verb, ∀ op ∈ item.operation verb, op ∈ doc.operations) (kind : PathKind) :
    doc'.scan kind (item.map f) = doc.scan kind item := by
  cases kind with
  | item => exact congrArg Except.ok (h.scanItem_map hd)
  | collection => exact h.scanCollection_map hd

theorem mem_operation_of_keptVerb {kept : Verb × Operation}
    (h : Document.keptVerb? item = some kept) : kept.2 ∈ item.operation kept.1 := by
  have hmem : kept ∈ item.declaredOperations := by
    unfold keptVerb? at h
    cases hf : item.declaredOperations.find? (·.1 == .post) with
    | some p =>
      rw [hf] at h
      cases h
      exact List.mem_of_find?_eq_some hf
    | none =>
      rw [hf] at h
      exact List.mem_of_head? h
  obtain ⟨verb, -, hv⟩ := List.mem_filterMap.1 hmem
  obtain ⟨op, hop, rfl⟩ := Option.map_eq_some_iff.1 hv
  exact hop

theorem customMethod?_map (h : LooksLike f doc doc')
    (hd : ∀ verb, ∀ op ∈ item.operation verb, op ∈ doc.operations) (name : String) :
    doc'.customMethod? (item.map f) name = doc.customMethod? item name := by
  unfold customMethod?
  rw [PathItem.keptVerb_map]
  cases hk : Document.keptVerb? item with
  | none => rfl
  | some kept =>
    obtain ⟨verb, op⟩ := kept
    have hop := hd verb op (mem_operation_of_keptVerb hk)
    have hresolve : doc'.resolveSchema? = doc.resolveSchema? := by
      funext s?
      cases s? with
      | none => rfl
      | some s => exact congrArg (some <$> ·) (resolveSchema_congr h.schemas s)
    simp only [Option.map_some, h.success op hop, h.request op hop, hresolve]

/-- **A path is surveyed alike** if its operations look alike. -/
theorem visit_map (h : LooksLike f doc doc')
    (hd : ∀ verb, ∀ op ∈ item.operation verb, op ∈ doc.operations) (start raw : String) :
    Survey.visit doc' start raw (item.map f) = Survey.visit doc start raw item := by
  unfold Survey.visit
  have hcustom : ∀ pattern name, Survey.visitCustom doc' raw pattern name (item.map f) =
      Survey.visitCustom doc raw pattern name item := by
    intro pattern name
    unfold Survey.visitCustom
    rw [PathItem.keptVerb_map, PathItem.declaredOperations_map, h.customMethod?_map hd]
    cases Document.keptVerb? item with
    | none => rfl
    | some kept =>
      obtain ⟨verb, op⟩ := kept
      simp only [Option.map_some, List.forIn_map]
  have hresource : ∀ path pattern kind,
      Survey.visitResource doc' raw path pattern kind (item.map f) =
        Survey.visitResource doc raw path pattern kind item := by
    intro path pattern kind
    unfold Survey.visitResource
    simp only [h.scan_map hd, resolveSchema_congr h.schemas, contribute_congr h.schemas]
  simp only [hcustom, hresource]

/-! ### The whole document -/

/-- Loops whose bodies do the same with every item of the list do the same. -/
theorem forIn_congr {α : Type} {as : List α} {body body' : α → SurveyM (ForInStep PUnit)}
    (h : ∀ a ∈ as, body' a = body a) :
    (forIn as PUnit.unit fun a _ => body' a) = forIn as PUnit.unit fun a _ => body a := by
  induction as with
  | nil => rfl
  | cons a as ih =>
    have ih := ih fun a ha => h a (List.mem_cons_of_mem _ ha)
    rw [List.forIn_cons, List.forIn_cons, h a List.mem_cons_self]
    refine congrArg (body a >>= ·) (funext fun next => ?_)
    cases next with
    | done u => rfl
    | yield u => exact ih

/-- **Documents that look alike are surveyed alike**: what is found or why it fails, and what is
noted down on the way. -/
theorem survey_eq (h : LooksLike f doc doc') (given : Option String) (start : String) :
    doc'.survey given start = doc.survey given start := by
  have hpaths : (forIn doc'.paths PUnit.unit fun entry _ => do
      Survey.visit doc' start entry.1 entry.2
      pure (ForInStep.yield PUnit.unit)) =
      (forIn doc.paths PUnit.unit fun entry _ => do
        Survey.visit doc start entry.1 entry.2
        pure (ForInStep.yield PUnit.unit) : SurveyM PUnit) := by
    rw [h.paths, List.forIn_map]
    refine forIn_congr fun entry he => ?_
    have hd : ∀ verb, ∀ op ∈ entry.2.operation verb, op ∈ doc.operations :=
      fun _ _ hop => mem_operations he hop
    rw [h.visit_map hd]
  have hurl : Survey.serverUrl doc' given start = Survey.serverUrl doc given start := by
    unfold Survey.serverUrl
    rw [h.server]
  have hrun : Survey.run doc' given start = Survey.run doc given start := by
    unfold Survey.run
    rw [hurl]
    exact congrArg (· >>= _) hpaths
  unfold survey
  rw [hrun]

end LooksLike
end Document

/-! ## The legacy dialect -/

/-- The response in the legacy dialect: its JSON schema stands in the response itself. -/
def Response.legacy (r : Response) : Response :=
  { r with
    content := r.content.filter (·.1 != jsonMedia)
    schema := jsonSchema? r.content }

/-- The parameter that carries a request body in the legacy dialect. -/
def RequestBody.legacyParameter (body : RequestBody) (s : Schema) : Parameter :=
  { name := "body", location := "body", description := body.description
    required := body.required, schema := some s }

/-- The parameter that carries what an operation's request carries, if that is JSON. -/
def Operation.bodyParameter? (op : Operation) : Option Parameter :=
  op.requestBody.bind fun body => (jsonSchema? body.content).map body.legacyParameter

/-- The operation in the legacy dialect: its responses carry their schemas themselves, and what its
request carries is a last parameter. -/
def Operation.legacy (op : Operation) : Operation :=
  { op with
    parameters := op.parameters ++ op.bodyParameter?.toList
    responses := op.responses.map fun entry => (entry.1, entry.2.legacy)
    requestBody := none }

namespace Document

/-- The document in the legacy dialect.  It keeps its list of servers, and has no host. -/
def legacy (doc : Document) : Document where
  swagger := some "2.0"
  info := doc.info
  servers := doc.servers
  paths := doc.paths.map fun entry => (entry.1, entry.2.map Operation.legacy)
  definitions := doc.components

/-- The document without the host, the base path and the schemes of the legacy dialect. -/
def withoutHost (doc : Document) : Document :=
  { doc with host := none, basePath := none, schemes := [] }

variable {doc : Document}

/-- A response carries the same schema in the legacy dialect. -/
theorem successSchema?_legacy (hd : doc.dialect = .current) (op : Operation) :
    doc.legacy.successSchema? op.legacy = doc.withoutHost.successSchema? op := by
  have hcurrent : doc.withoutHost.dialect = .current := hd
  unfold successSchema? responseSchemaFor?
  rw [hcurrent]
  have hlegacy : doc.legacy.dialect = .legacy := rfl
  rw [hlegacy, Operation.legacy]
  dsimp only
  rw [lookup_map, List.find?_map, Option.bind_map, Option.bind_map]
  rfl

/-- An operation without a body parameter carries the same request in the legacy dialect. -/
theorem requestSchema?_legacy (hd : doc.dialect = .current) {op : Operation}
    (hb : ∀ p ∈ op.parameters, p.location ≠ "body") :
    doc.legacy.requestSchema? op.legacy = doc.withoutHost.requestSchema? op := by
  have hcurrent : doc.withoutHost.dialect = .current := hd
  have hnone : op.parameters.find? (·.location == "body") = none := by
    rw [List.find?_eq_none]
    intro p hp
    simpa using hb p hp
  unfold requestSchema?
  rw [hcurrent]
  show Dialect.requestSchema .legacy op.legacy = _
  unfold Dialect.requestSchema Operation.legacy Operation.bodyParameter?
  dsimp only
  rw [List.find?_append, hnone, Option.none_or]
  cases op.requestBody with
  | none => rfl
  | some body =>
    rw [Option.bind_some, Option.bind_some]
    cases jsonSchema? body.content with
    | none => rfl
    | some s => rfl

/-- The body parameter is no query parameter. -/
theorem hasQueryParameter_legacy (op : Operation) (name : String) :
    op.legacy.hasQueryParameter name = op.hasQueryParameter name := by
  have hbody : (op.bodyParameter?.toList.any
      fun p => p.name == name && p.location == "query") = false := by
    unfold Operation.bodyParameter?
    cases op.requestBody with
    | none => rfl
    | some body =>
      rw [Option.bind_some]
      cases jsonSchema? body.content with
      | none => rfl
      | some s => simp [RequestBody.legacyParameter]
  unfold Operation.hasQueryParameter Operation.legacy
  rw [List.any_append, hbody, Bool.or_false]

/-- **A document looks the same in the legacy dialect.** -/
theorem looksLike_legacy (hd : doc.dialect = .current)
    (hb : ∀ op ∈ doc.operations, ∀ p ∈ op.parameters, p.location ≠ "body") :
    LooksLike Operation.legacy doc.withoutHost doc.legacy where
  schemas := by
    have hcurrent : doc.withoutHost.dialect = .current := hd
    unfold schemas
    rw [hcurrent]
    rfl
  paths := rfl
  success op _ := successSchema?_legacy hd op
  request op hop := requestSchema?_legacy hd (hb op hop)
  query op _ name := hasQueryParameter_legacy op name
  server := by
    have hcurrent : doc.withoutHost.dialect = .current := hd
    unfold declaredServerUrl?
    rw [hcurrent]
    rfl

/-- A document is surveyed alike in both dialects, down to what is noted down. -/
theorem survey_legacy (hd : doc.dialect = .current)
    (hb : ∀ op ∈ doc.operations, ∀ p ∈ op.parameters, p.location ≠ "body")
    (given : Option String) (start : String) :
    doc.legacy.survey given start = doc.withoutHost.survey given start :=
  (looksLike_legacy hd hb).survey_eq given start

/-- **The dialects are resolved alike.**  A document of the current dialect in which no parameter
stands in a body has the same resources as the document in the legacy dialect, or fails in the same
way. -/
theorem resources_legacy (hd : doc.dialect = .current)
    (hb : ∀ op ∈ doc.operations, ∀ p ∈ op.parameters, p.location ≠ "body")
    (given : Option String) (start : String) :
    doc.legacy.resources given start = doc.withoutHost.resources given start := by
  unfold resources
  rw [survey_legacy hd hb]

/-- The document with shelves of books, in which a shelf can be moved: where to is said in the
request, and the answer has a code of its own. -/
def movableShelves : Document :=
  { shelves with
    host := some "localhost"
    paths := shelves.paths ++ [
      ("/shelves/{shelf}", {
        get := some { responses := answering (.refTo "#/components/schemas/Shelf") } }),
      ("/shelves/{shelf}:move", {
        post := some {
          requestBody := some { content := Annotated.content jsonMedia (.refTo "Room") }
          responses := [("404", {}), ("202", {
            content := Annotated.content jsonMedia (.typed "string") })] } })]
    components := shelves.components ++ [("Room", .typed "object")] }

/-- What can be moved in one dialect can be moved in the other one. -/
theorem movableShelves_legacy :
    movableShelves.legacy.resources none "" = movableShelves.withoutHost.resources none "" ∧
    (movableShelves.legacy.resources none "").toOption.map
      (fun g => g.resources.map fun r => r.customs.map fun m =>
        (m.name, m.request.bind Schema.types, m.response.bind Schema.types)) =
      some [[("move", some (.single "object"), some (.single "string"))],
        [("lend", none, some (.single "object"))]] := by
  have hsame : movableShelves.legacy.resources none "" =
      movableShelves.withoutHost.resources none "" :=
    resources_legacy rfl (by decide) none ""
  refine ⟨hsame, ?_⟩
  decide +kernel

end Document
end ResourceCli
