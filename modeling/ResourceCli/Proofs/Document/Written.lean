import ResourceCli.Document.Read
import ResourceCli.Proofs.Document.Flags
import ResourceCli.Proofs.Shape.Record

/-!
# Reading a written document back

A document is written field by field, and what is empty or absent is mostly left out.  Nothing is
lost by that: reading the text of a document gives the document, with its tables in the order in
which they were written.

The argument goes up the records of a document.  For each one, what is written of every field is
taken back from the data that it is, and so the record is.  The schema is the one record that
contains itself, and there it is an induction.

* `Schema.distinct`, …, `Document.distinct`: that no name comes twice in a table.
* `Schema.reads`, …, `Document.reads`: what is written of a record is taken back.
* `Document.read_written`: the compact and the indented text of a document, which the rewriting of
  flags leaves alone, are read as the document.
-/

namespace ResourceCli

open Json Shape ResourceCli.Tree

/-! ## Tables whose names are distinct -/

/-- Whether no name comes twice in a table, and the same holds for what is in it. -/
def distinctTable {α : Type} (p : α → Bool) (entries : List (String × α)) : Bool :=
  decide (keys entries).Nodup && entries.all fun e => p e.2

mutual

/-- Whether no name comes twice in the properties of a schema or of the schemas in it. -/
def Schema.distinct : Schema → Bool
  | ⟨_, _, _, items, properties, _, _, _, _⟩ =>
    Schema.distinctItems items &&
      (decide (keys properties).Nodup && Schema.distinctProperties properties)

/-- The same for the items of an array. -/
def Schema.distinctItems : Option Schema → Bool
  | none => true
  | some s => s.distinct

/-- The same for each property of an object. -/
def Schema.distinctProperties : List (String × Schema) → Bool
  | [] => true
  | (_, s) :: rest => s.distinct && Schema.distinctProperties rest

end

/-- Whether no name comes twice in a table of a media type. -/
def MediaType.distinct (m : MediaType) : Bool := m.schema.all Schema.distinct

/-- Whether no name comes twice in a table of a parameter. -/
def Parameter.distinct (p : Parameter) : Bool := p.schema.all Schema.distinct

/-- Whether no name comes twice in a table of a response. -/
def Response.distinct (r : Response) : Bool :=
  distinctTable MediaType.distinct r.content && r.schema.all Schema.distinct

/-- Whether no name comes twice in a table of a request body. -/
def RequestBody.distinct (b : RequestBody) : Bool :=
  distinctTable MediaType.distinct b.content && b.schema.all Schema.distinct

/-- Whether no name comes twice in a table of an operation. -/
def Operation.distinct (op : Operation) : Bool :=
  op.parameters.all Parameter.distinct && distinctTable Response.distinct op.responses &&
    op.requestBody.all RequestBody.distinct

/-- Whether no name comes twice in a table of the operations of a path. -/
def PathItem.distinct (item : PathItem) : Bool :=
  item.get.all Operation.distinct && item.put.all Operation.distinct &&
    item.post.all Operation.distinct && item.patch.all Operation.distinct &&
    item.delete.all Operation.distinct

/-- Whether no name comes twice in a table of a document. -/
def Document.distinct (doc : Document) : Bool :=
  distinctTable PathItem.distinct doc.paths && distinctTable Schema.distinct doc.components &&
    distinctTable Schema.distinct doc.definitions

/-! ## The parts of a schema -/

theorem fieldReads_types (types : Option TypeNames) :
    FieldReads ⟨"type", .optional .oneOrMore, false⟩ (types.map TypeNames.toJson)
      TypeNames.ofTree? types := by
  cases types with
  | none => exact ⟨none, .missing rfl, rfl⟩
  | some types =>
    cases types with
    | single name => exact ⟨some (.text name), .there rfl, rfl⟩
    | several names =>
      have hnames : ∀ name ∈ names, Reads .text Json.str asText name := fun name _ =>
        ⟨.text name, rfl, rfl⟩
      obtain ⟨ts, hts, hgs⟩ := reads_list hnames
      refine ⟨some (.list ts), .there hts, ?_⟩
      rw [TypeNames.ofTree?, hgs]

theorem fieldReads_declared (declared : Option Declaration) :
    FieldReads ⟨"x-aep-resource", .optional (.record .declaration), false⟩
      (declared.map Declaration.toJson) Declaration.ofTree? declared := by
  cases declared with
  | none => exact ⟨none, .missing rfl, rfl⟩
  | some d =>
    obtain ⟨singular, hsingular, esingular⟩ := fieldReads_text "singular" false d.singular
    obtain ⟨plural, hplural, eplural⟩ := fieldReads_text "plural" false d.plural
    obtain ⟨patterns, hpatterns, epatterns⟩ := fieldReads_texts "patterns" d.patterns
    obtain ⟨parents, hparents, eparents⟩ := fieldReads_texts "parents" d.parents
    have hdata := dataOf_record (r := .declaration)
      (.cons hsingular (.cons hplural (.cons hpatterns (.cons hparents .nil))))
    rw [← dataOf_optional_record] at hdata
    refine ⟨some (.record [singular, plural, patterns, parents]), .there hdata, ?_⟩
    rw [Declaration.ofTree?, esingular, eplural, epatterns, eparents]

theorem Schema.propertyMembers_eq_map (properties : List (String × Schema)) :
    Schema.propertyMembers properties = properties.map fun e => (e.1, e.2.toJson) := by
  induction properties with
  | nil => rfl
  | cons e properties ih =>
    obtain ⟨name, s⟩ := e
    rw [Schema.propertyMembers, ih, List.map_cons]

theorem Schema.entriesOfTrees_eq_map (entries : List (String × Tree)) :
    Schema.entriesOfTrees entries = entries.map fun e => (e.1, Schema.ofTree e.2) := by
  induction entries with
  | nil => rfl
  | cons e entries ih =>
    obtain ⟨name, t⟩ := e
    rw [Schema.entriesOfTrees, ih, List.map_cons]

theorem schemaTable_eq_tableOf : schemaTable = tableOf Schema.toJson := by
  funext schemas
  rw [schemaTable, Schema.propertyMembers_eq_map]
  rfl

theorem Schema.tableOfTree_eq (u : Option Tree) :
    Schema.tableOfTree u = (entriesOf u).map fun e => (e.1, Schema.ofTree e.2) := by
  cases u with
  | none => rfl
  | some t =>
    cases t with
    | table entries => exact Schema.entriesOfTrees_eq_map entries
    | absent => rfl
    | text s => rfl
    | flag b => rfl
    | list items => rfl
    | record values => rfl

theorem Schema.ofTree?_eq (u : Option Tree) :
    Schema.ofTree? u = (presentOf u).map Schema.ofTree := by
  cases u with
  | none => rfl
  | some t => cases t <;> rfl

theorem Schema.fieldReads? (key : String) {a : Option Schema}
    (h : ∀ s, a = some s → Reads (.record .schema) Schema.toJson Schema.ofTree s) :
    FieldReads ⟨key, .optional (.record .schema), false⟩ (a.map Schema.toJson)
      Schema.ofTree? a := by
  obtain ⟨u, hu, hread⟩ := fieldReads_record? key h
  exact ⟨u, hu, (Schema.ofTree?_eq u).trans hread⟩

theorem Schema.fieldReads_table (key : String) {entries : List (String × Schema)}
    (hn : (keys entries).Nodup)
    (h : ∀ e ∈ entries, Reads (.record .schema) Schema.toJson Schema.ofTree e.2) :
    FieldReads ⟨key, .table (.record .schema), false⟩ (some (tableOf Schema.toJson entries))
      Schema.tableOfTree entries := by
  obtain ⟨u, hu, hread⟩ := Shape.fieldReads_table key hn h
  exact ⟨u, hu, (Schema.tableOfTree_eq u).trans hread⟩

theorem Schema.itemsMember_eq (items : Option Schema) :
    Schema.itemsMember items = optionalMember "items" Schema.toJson items := by
  cases items <;> rfl

@[simp] theorem Shape.fieldMember_set (fd : Field) (b : Bool) (v : Json) :
    fieldMember fd (if b then some v else none) = if b then [(fd.key, v)] else [] := by
  cases b <;> rfl

/-! ## Schemas -/

theorem Schema.toJson_eq (s : Schema) : s.toJson = .obj (
    optionalMember "type" TypeNames.toJson s.types ++
    optionalMember "format" Json.str s.format ++
    optionalMember "description" Json.str s.description ++
    optionalMember "items" Schema.toJson s.items ++
    listMember "properties" (tableOf Schema.toJson) s.properties ++
    optionalMember "$ref" Json.str s.reference ++
    listMember "required" texts s.required ++
    (if s.readOnly then [("readOnly", .bool true)] else []) ++
    optionalMember "x-aep-resource" Declaration.toJson s.declared) := by
  obtain ⟨types, format, description, items, properties, reference, required, readOnly, declared⟩ :=
    s
  rw [← Schema.itemsMember_eq, ← schemaTable_eq_tableOf]
  cases properties <;> rfl

mutual

/-- **A schema** is taken back from what is written of it. -/
theorem Schema.reads : ∀ (s : Schema), s.distinct = true →
    Reads (.record .schema) Schema.toJson Schema.ofTree s
  | ⟨types, format, description, items, properties, reference, required, readOnly, declared⟩,
      h => by
    rw [Schema.distinct, Bool.and_eq_true, Bool.and_eq_true, decide_eq_true_eq] at h
    obtain ⟨hitems, hkeys, hproperties⟩ := h
    obtain ⟨u₁, h₁, e₁⟩ := fieldReads_types types
    obtain ⟨u₂, h₂, e₂⟩ := fieldReads_text? "format" format
    obtain ⟨u₃, h₃, e₃⟩ := fieldReads_text? "description" description
    obtain ⟨u₄, h₄, e₄⟩ := Schema.fieldReads? "items" (Schema.readsItems items hitems)
    have hreads := Schema.readsProperties properties hproperties
    obtain ⟨u₅, h₅, e₅⟩ :=
      (Schema.fieldReads_table "properties" hkeys hreads).of_nonEmpty rfl rfl
    obtain ⟨u₆, h₆, e₆⟩ := fieldReads_text? "$ref" reference
    obtain ⟨u₇, h₇, e₇⟩ := (fieldReads_texts "required" required).of_nonEmpty rfl rfl
    obtain ⟨u₈, h₈, e₈⟩ := fieldReads_flag_set "readOnly" readOnly
    obtain ⟨u₉, h₉, e₉⟩ := fieldReads_declared declared
    refine .record (.cons h₁ (.cons h₂ (.cons h₃ (.cons h₄ (.cons h₅ (.cons h₆ (.cons h₇ (.cons h₈
      (.cons h₉ .nil))))))))) ?_ ?_
    · rw [Schema.toJson_eq]
      simp [fieldMembers, RecordName.fields]
    · rw [Schema.ofTree, e₁, e₂, e₃, e₄, e₅, e₆, e₇, e₈, e₉]

theorem Schema.readsItems : ∀ (items : Option Schema), Schema.distinctItems items = true →
    ∀ s, items = some s → Reads (.record .schema) Schema.toJson Schema.ofTree s
  | none, _, _, h => by cases h
  | some s, hs, _, h => by
    obtain rfl := Option.some.inj h
    exact Schema.reads s hs

theorem Schema.readsProperties : ∀ (properties : List (String × Schema)),
    Schema.distinctProperties properties = true →
    ∀ e ∈ properties, Reads (.record .schema) Schema.toJson Schema.ofTree e.2
  | [], _, _, h => absurd h List.not_mem_nil
  | (k, s) :: rest, hs, e, h => by
    rw [Schema.distinctProperties, Bool.and_eq_true] at hs
    rcases List.mem_cons.1 h with rfl | h
    · exact Schema.reads s hs.1
    · exact Schema.readsProperties rest hs.2 e h

end

theorem of_all {α : Type} {p : α → Bool} {a : Option α} (h : a.all p = true) (x : α)
    (hx : a = some x) : p x = true := by
  rw [hx] at h
  exact h

theorem distinctTable_iff {α : Type} {p : α → Bool} {entries : List (String × α)} :
    distinctTable p entries = true ↔ (keys entries).Nodup ∧ ∀ e ∈ entries, p e.2 = true := by
  rw [distinctTable, Bool.and_eq_true, decide_eq_true_eq, List.all_eq_true]

/-! ## The records of a document -/

theorem Info.fieldReads (i : Info) :
    FieldReads ⟨"info", .record .info, false⟩ (some i.toJson) Info.ofTree i := by
  obtain ⟨u₁, h₁, e₁⟩ := fieldReads_text "title" false i.title
  obtain ⟨u₂, h₂, e₂⟩ := fieldReads_text? "description" i.description
  obtain ⟨u₃, h₃, e₃⟩ := fieldReads_text "version" false i.version
  have hdata := dataOf_record (r := .info) (.cons h₁ (.cons h₂ (.cons h₃ .nil)))
  refine ⟨some (.record [u₁, u₂, u₃]), .there ?_, ?_⟩
  · rw [← hdata, Info.toJson]
    simp [fieldMembers, RecordName.fields]
  · rw [Info.ofTree, e₁, e₂, e₃]

theorem Server.reads (s : Server) : Reads (.record .server) Server.toJson Server.ofTree s := by
  obtain ⟨u₁, h₁, e₁⟩ := fieldReads_text "url" true s.url
  obtain ⟨u₂, h₂, e₂⟩ := fieldReads_text? "description" s.description
  refine .record (.cons h₁ (.cons h₂ .nil)) ?_ ?_
  · rw [Server.toJson]
    simp [fieldMembers, RecordName.fields]
  · rw [Server.ofTree, e₁, e₂]

theorem MediaType.reads (m : MediaType) (hm : m.distinct = true) :
    Reads (.record .mediaType) MediaType.toJson MediaType.ofTree m := by
  obtain ⟨u₁, h₁, e₁⟩ := Schema.fieldReads? "schema" fun s hs => Schema.reads s (of_all hm s hs)
  refine .record (.cons h₁ .nil) ?_ ?_
  · rw [MediaType.toJson]
    simp [fieldMembers, RecordName.fields]
  · rw [MediaType.ofTree, e₁]

theorem Parameter.reads (p : Parameter) (hp : p.distinct = true) :
    Reads (.record .parameter) Parameter.toJson Parameter.ofTree p := by
  obtain ⟨u₁, h₁, e₁⟩ := fieldReads_text "name" true p.name
  obtain ⟨u₂, h₂, e₂⟩ := fieldReads_text "in" false p.location
  obtain ⟨u₃, h₃, e₃⟩ := fieldReads_text? "description" p.description
  obtain ⟨u₄, h₄, e₄⟩ := fieldReads_flag "required" p.required
  obtain ⟨u₅, h₅, e₅⟩ := Schema.fieldReads? "schema" fun s hs => Schema.reads s (of_all hp s hs)
  refine .record (.cons h₁ (.cons h₂ (.cons h₃ (.cons h₄ (.cons h₅ .nil))))) ?_ ?_
  · rw [Parameter.toJson]
    simp [fieldMembers, RecordName.fields]
  · rw [Parameter.ofTree, e₁, e₂, e₃, e₄, e₅]

theorem fieldReads_content {content : List (String × MediaType)}
    (h : distinctTable MediaType.distinct content = true) :
    FieldReads ⟨"content", .table (.record .mediaType), false⟩
      ((nonEmpty content).map (tableOf MediaType.toJson)) contentOfTree content := by
  rw [distinctTable_iff] at h
  exact (fieldReads_table "content" h.1
    fun e he => MediaType.reads e.2 (h.2 e he)).of_nonEmpty rfl rfl

theorem Response.reads (r : Response) (hr : r.distinct = true) :
    Reads (.record .response) Response.toJson Response.ofTree r := by
  rw [Response.distinct, Bool.and_eq_true] at hr
  obtain ⟨u₁, h₁, e₁⟩ := fieldReads_text "description" false r.description
  obtain ⟨u₂, h₂, e₂⟩ := fieldReads_content hr.1
  obtain ⟨u₃, h₃, e₃⟩ := Schema.fieldReads? "schema" fun s hs => Schema.reads s (of_all hr.2 s hs)
  refine .record (.cons h₁ (.cons h₂ (.cons h₃ .nil))) ?_ ?_
  · rw [Response.toJson]
    simp [fieldMembers, RecordName.fields]
  · rw [Response.ofTree, e₁, e₂, e₃]

theorem RequestBody.reads (b : RequestBody) (hb : b.distinct = true) :
    Reads (.record .requestBody) RequestBody.toJson RequestBody.ofTree b := by
  rw [RequestBody.distinct, Bool.and_eq_true] at hb
  obtain ⟨u₁, h₁, e₁⟩ := fieldReads_text? "description" b.description
  obtain ⟨u₂, h₂, e₂⟩ := fieldReads_content hb.1
  obtain ⟨u₃, h₃, e₃⟩ := Schema.fieldReads? "schema" fun s hs => Schema.reads s (of_all hb.2 s hs)
  obtain ⟨u₄, h₄, e₄⟩ := fieldReads_flag "required" b.required
  refine .record (.cons h₁ (.cons h₂ (.cons h₃ (.cons h₄ .nil)))) ?_ ?_
  · rw [RequestBody.toJson]
    simp [fieldMembers, RecordName.fields]
  · rw [RequestBody.ofTree, e₁, e₂, e₃, e₄]

theorem Operation.reads (op : Operation) (hop : op.distinct = true) :
    Reads (.record .operation) Operation.toJson Operation.ofTree op := by
  rw [Operation.distinct, Bool.and_eq_true, Bool.and_eq_true, List.all_eq_true,
    distinctTable_iff] at hop
  obtain ⟨⟨hparameters, hkeys, hresponses⟩, hbody⟩ := hop
  obtain ⟨u₁, h₁, e₁⟩ := fieldReads_text? "summary" op.summary
  obtain ⟨u₂, h₂, e₂⟩ := fieldReads_text? "description" op.description
  obtain ⟨u₃, h₃, e₃⟩ := fieldReads_text? "operationId" op.operationId
  obtain ⟨u₄, h₄, e₄⟩ := (fieldReads_list "parameters" fun p hp =>
    Parameter.reads p (hparameters p hp)).of_nonEmpty
      (w := fun ps => .arr (ps.map Parameter.toJson)) rfl rfl
  obtain ⟨u₅, h₅, e₅⟩ := fieldReads_table "responses" hkeys fun e he =>
    Response.reads e.2 (hresponses e he)
  obtain ⟨u₆, h₆, e₆⟩ := fieldReads_record? "requestBody" fun b hb =>
    RequestBody.reads b (of_all hbody b hb)
  refine .record (.cons h₁ (.cons h₂ (.cons h₃ (.cons h₄ (.cons h₅ (.cons h₆ .nil)))))) ?_ ?_
  · rw [Operation.toJson]
    simp [fieldMembers, RecordName.fields]
  · dsimp only at e₄ e₅ e₆
    rw [Operation.ofTree, e₁, e₂, e₃, e₄, e₅, e₆]

theorem Operation.fieldReads? (key : String) {a : Option Operation}
    (ha : a.all Operation.distinct = true) :
    FieldReads ⟨key, .optional (.record .operation), false⟩ (a.map Operation.toJson)
      (fun u => (presentOf u).map Operation.ofTree) a :=
  fieldReads_record? key fun op hop => Operation.reads op (of_all ha op hop)

theorem PathItem.reads (item : PathItem) (hitem : item.distinct = true) :
    Reads (.record .pathItem) PathItem.toJson PathItem.ofTree item := by
  rw [PathItem.distinct, Bool.and_eq_true, Bool.and_eq_true, Bool.and_eq_true,
    Bool.and_eq_true] at hitem
  obtain ⟨⟨⟨⟨hget, hput⟩, hpost⟩, hpatch⟩, hdelete⟩ := hitem
  obtain ⟨u₁, h₁, e₁⟩ := Operation.fieldReads? "get" hget
  obtain ⟨u₂, h₂, e₂⟩ := Operation.fieldReads? "put" hput
  obtain ⟨u₃, h₃, e₃⟩ := Operation.fieldReads? "post" hpost
  obtain ⟨u₄, h₄, e₄⟩ := Operation.fieldReads? "patch" hpatch
  obtain ⟨u₅, h₅, e₅⟩ := Operation.fieldReads? "delete" hdelete
  refine .record (.cons h₁ (.cons h₂ (.cons h₃ (.cons h₄ (.cons h₅ .nil))))) ?_ ?_
  · rw [PathItem.toJson]
    simp [fieldMembers, RecordName.fields]
  · dsimp only at e₁ e₂ e₃ e₄ e₅
    rw [PathItem.ofTree]
    dsimp only
    rw [e₁, e₂, e₃, e₄, e₅]

theorem Document.fieldReads_components {components : List (String × Schema)}
    (h : distinctTable Schema.distinct components = true) :
    FieldReads ⟨"components", .record .components, false⟩
      (some (.obj [("schemas", schemaTable components)])) componentsOfTree components := by
  rw [distinctTable_iff] at h
  obtain ⟨u₁, h₁, e₁⟩ := Schema.fieldReads_table "schemas" h.1 fun e he =>
    Schema.reads e.2 (h.2 e he)
  have hdata := dataOf_record (r := .components) (.cons h₁ .nil)
  refine ⟨some (.record [u₁]), .there ?_, e₁⟩
  rw [← hdata, schemaTable_eq_tableOf]
  simp [fieldMembers, RecordName.fields]

/-- **A document** is taken back from what is written of it. -/
theorem Document.reads (doc : Document) (hd : doc.distinct = true) :
    Reads Document.shape Document.toJson Document.ofTree doc := by
  rw [Document.distinct, Bool.and_eq_true, Bool.and_eq_true] at hd
  obtain ⟨⟨hpaths, hcomponents⟩, hdefinitions⟩ := hd
  rw [distinctTable_iff] at hpaths hdefinitions
  obtain ⟨u₁, h₁, e₁⟩ := fieldReads_text? "swagger" doc.swagger
  obtain ⟨u₂, h₂, e₂⟩ := fieldReads_text? "openapi" doc.openapi
  obtain ⟨u₃, h₃, e₃⟩ := Info.fieldReads doc.info
  have hservers : ∀ s ∈ doc.servers, Reads (.record .server) Server.toJson Server.ofTree s :=
    fun s _ => Server.reads s
  obtain ⟨u₄, h₄, e₄⟩ := (fieldReads_list "servers" hservers).of_nonEmpty
    (w := fun ss => .arr (ss.map Server.toJson)) rfl rfl
  obtain ⟨u₅, h₅, e₅⟩ := fieldReads_table "paths" hpaths.1 fun e he =>
    PathItem.reads e.2 (hpaths.2 e he)
  obtain ⟨u₆, h₆, e₆⟩ := fieldReads_components hcomponents
  obtain ⟨u₇, h₇, e₇⟩ := (Schema.fieldReads_table "definitions" hdefinitions.1 fun e he =>
    Schema.reads e.2 (hdefinitions.2 e he)).of_nonEmpty rfl rfl
  obtain ⟨u₈, h₈, e₈⟩ := fieldReads_text? "host" doc.host
  obtain ⟨u₉, h₉, e₉⟩ := fieldReads_text? "basePath" doc.basePath
  obtain ⟨u₁₀, h₁₀, e₁₀⟩ := (fieldReads_texts "schemes" doc.schemes).of_nonEmpty rfl rfl
  refine .record (.cons h₁ (.cons h₂ (.cons h₃ (.cons h₄ (.cons h₅ (.cons h₆ (.cons h₇ (.cons h₈
    (.cons h₉ (.cons h₁₀ .nil)))))))))) ?_ ?_
  · rw [Document.toJson, schemaTable_eq_tableOf]
    simp [fieldMembers, RecordName.fields]
  · dsimp only at e₄ e₅
    rw [Document.ofTree, e₁, e₂, e₃, e₄, e₅, e₆, e₇, e₈, e₉, e₁₀]

/-! ## The text of a document -/

/-- The text of a document in any layout is left alone before it is read, and is read as the
document. -/
theorem Document.read_text (l : Layout) {doc : Document} (hd : doc.distinct = true)
    (hn : doc.toJson.nesting ≤ maxDepth) :
    Document.normalizeFlags (String.ofList (l.text 0 doc.toJson)) =
        String.ofList (l.text 0 doc.toJson) ∧
      Document.read (String.ofList (l.text 0 doc.toJson)) = .ok doc := by
  obtain ⟨t, ht, hdoc⟩ := Document.reads doc hd
  have hworded := worded_of_dataOf _ ht
  have hsame : Document.normalizeFlags (String.ofList (l.text 0 doc.toJson)) =
      String.ofList (l.text 0 doc.toJson) := by
    rw [Document.toJson] at hworded ⊢
    exact Document.normalizeFlags_text l hworded
  have hlooks : Document.looksJson (String.ofList (l.text 0 doc.toJson)) = true := by
    rw [Document.toJson]
    exact Document.looksJson_text l _
  refine ⟨hsame, ?_⟩
  rw [Document.read, hsame, hlooks, Document.readNormalized, if_pos rfl, ofJson_text l ht hn]
  exact congrArg Except.ok hdoc

/-- **A written document is read back.**  No number in the compact or in the indented text of a
document is taken for a flag, and either text is read as the document, its tables in order. -/
theorem Document.read_written {doc : Document} (hd : doc.distinct = true)
    (hn : doc.toJson.nesting ≤ maxDepth) :
    (Document.normalizeFlags doc.toJson.compact = doc.toJson.compact ∧
      Document.read doc.toJson.compact = .ok doc) ∧
    (Document.normalizeFlags doc.toJson.pretty = doc.toJson.pretty ∧
      Document.read doc.toJson.pretty = .ok doc) := by
  rw [Json.compact, Json.pretty, compactChars_eq_text _ 0, prettyChars_eq_text _ 0]
  exact ⟨Document.read_text .compact hd hn, Document.read_text .indented hd hn⟩

/-- A document whose strings and names talk about flags. -/
def Document.quoting : Document where
  openapi := some "3.1.0"
  info := { title := "\x7b\"readOnly\": 1, \"required\" : 0\x7d" }
  paths := [("/notes:\x7b\"required\":1\x7d", { get := some {} })]
  components := [
    ("Note", {
      types := some (.several ["null", "object"])
      properties := [
        ("required", { readOnly := true }),
        ("readOnly", { description := some ",\"readOnly\":0 \\" })]
      required := ["required", "\":1"] })]

theorem Document.quoting_read_written :
    Document.quoting.distinct = true ∧ Document.quoting.toJson.nesting ≤ maxDepth ∧
    (Document.normalizeFlags Document.quoting.toJson.compact = Document.quoting.toJson.compact ∧
      Document.read Document.quoting.toJson.compact = .ok Document.quoting) ∧
    (Document.normalizeFlags Document.quoting.toJson.pretty = Document.quoting.toJson.pretty ∧
      Document.read Document.quoting.toJson.pretty = .ok Document.quoting) := by
  have hd : Document.quoting.distinct = true := by decide +kernel
  have hn : Document.quoting.toJson.nesting ≤ maxDepth := by decide +kernel
  exact ⟨hd, hn, Document.read_written hd hn⟩

end ResourceCli
