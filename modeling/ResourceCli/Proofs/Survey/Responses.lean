import ResourceCli.Proofs.Survey.Provenance
import Mathlib.Data.List.Perm.Basic

/-!
# Which response of an operation is looked at

An operation can have several responses of success, and only some of them carry a schema: what is
created may be answered with the new data (`201`) or with nothing at all (`204`).  A survey looks at
the response `200`, and if that carries no schema at the first response of success.  It looks no
further, so a schema behind a first response without one is not found
(`Document.createdBooks_dropped`).

What is found is a schema that some response of success carries, and there is one to be found
exactly if one of these two responses carries it (`Document.AnswersFirst`).  It is found in whatever
order the responses stand exactly if the response `200` carries a schema, or all responses of
success do (`Document.AnswersAnyhow`).  Whether one can be got, changed or created hangs on the same
condition (`Document.answer_found_iff`).
-/

namespace ResourceCli

/-- A status code is of the class of success. -/
def IsSuccessCode (code : String) : Prop := code.toList.head? = some '2'

instance (code : String) : Decidable (IsSuccessCode code) := inferInstanceAs (Decidable (_ = _))

namespace Document

variable {doc : Document} {op : Operation}

/-- The code that is looked at first is of the class of success. -/
theorem isSuccessCode_ok : IsSuccessCode "200" := by decide

/-- A response carries a schema, in the place where the dialect of the document has it. -/
def Carries (doc : Document) (e : String × Response) : Prop :=
  (doc.dialect.responseSchema e.2).isSome = true

/-- A response of success carries a schema. -/
def Answers (doc : Document) (op : Operation) (s : Schema) : Prop :=
  ∃ e ∈ op.responses, IsSuccessCode e.1 ∧ doc.dialect.responseSchema e.2 = some s

/-- The response `200` carries a schema, or the first response of success does. -/
def AnswersFirst (doc : Document) (op : Operation) : Prop :=
  (∃ e ∈ op.responses, e.1 = "200" ∧ doc.Carries e) ∨
  ∃ before e after, op.responses = before ++ e :: after ∧ IsSuccessCode e.1 ∧
    (∀ b ∈ before, ¬ IsSuccessCode b.1) ∧ doc.Carries e

/-- The response `200` carries a schema, or some response of success does and all of them do. -/
def AnswersAnyhow (doc : Document) (op : Operation) : Prop :=
  (∃ e ∈ op.responses, e.1 = "200" ∧ doc.Carries e) ∨
  (∃ s, doc.Answers op s) ∧ ∀ e ∈ op.responses, IsSuccessCode e.1 → doc.Carries e

/-! ## Looking for a schema -/

/-- The response of a code is found with a schema exactly if it is there and carries one. -/
theorem isSome_responseSchemaFor_iff (hn : (keys op.responses).Nodup) {code : String} :
    (doc.responseSchemaFor? op code).isSome = true ↔
      ∃ e ∈ op.responses, e.1 = code ∧ doc.Carries e := by
  rw [responseSchemaFor?, Option.isSome_bind, Option.any_eq_true]
  constructor
  · rintro ⟨response, hl, hcarries⟩
    exact ⟨(code, response), mem_of_lookup_eq_some hl, rfl, hcarries⟩
  · rintro ⟨⟨_, response⟩, he, rfl, hcarries⟩
    exact ⟨response, lookup_of_mem hn he, hcarries⟩

/-- The first response of success. -/
def firstSuccess? (op : Operation) : Option (String × Response) :=
  op.responses.find? fun (code, _) => code.toList.head? == some '2'

theorem firstSuccess_eq_some_iff {e : String × Response} :
    firstSuccess? op = some e ↔ IsSuccessCode e.1 ∧
      ∃ before after, op.responses = before ++ e :: after ∧ ∀ b ∈ before, ¬ IsSuccessCode b.1 := by
  rw [firstSuccess?, List.find?_eq_some_iff_append]
  simp only [beq_iff_eq, Bool.not_eq_true', beq_eq_false_iff_ne]
  rfl

/-- A schema is looked for at the response `200`, and then at the first response of success. -/
theorem successSchema_eq (doc : Document) (op : Operation) :
    doc.successSchema? op = (doc.responseSchemaFor? op "200").or
      ((firstSuccess? op).bind fun e => doc.dialect.responseSchema e.2) := by
  rw [successSchema?, Option.orElse_eq_orElse, Option.orElse_eq_or]
  rfl

/-- **What is found**, a response of success carries. -/
theorem answers_of_successSchema {s : Schema} (h : doc.successSchema? op = some s) :
    doc.Answers op s := by
  rw [successSchema_eq, Option.or_eq_some_iff] at h
  rcases h with h | ⟨-, h⟩
  · obtain ⟨response, hl, hs⟩ := Option.bind_eq_some_iff.1 h
    exact ⟨("200", response), mem_of_lookup_eq_some hl, isSuccessCode_ok, hs⟩
  · obtain ⟨e, hfirst, hs⟩ := Option.bind_eq_some_iff.1 h
    obtain ⟨hcode, before, after, hsplit, -⟩ := firstSuccess_eq_some_iff.1 hfirst
    exact ⟨e, hsplit ▸ List.mem_append_right _ List.mem_cons_self, hcode, hs⟩

/-- **When a schema is found**: exactly if the response `200` or the first response of success
carries one. -/
theorem isSome_successSchema_iff (hn : (keys op.responses).Nodup) :
    (doc.successSchema? op).isSome = true ↔ doc.AnswersFirst op := by
  rw [successSchema_eq, Option.isSome_or, Bool.or_eq_true, isSome_responseSchemaFor_iff hn]
  refine or_congr_right ?_
  rw [Option.isSome_bind, Option.any_eq_true]
  constructor
  · rintro ⟨e, hfirst, hcarries⟩
    obtain ⟨hcode, before, after, hsplit, hbefore⟩ := firstSuccess_eq_some_iff.1 hfirst
    exact ⟨before, e, after, hsplit, hcode, hbefore, hcarries⟩
  · rintro ⟨before, e, after, hsplit, hcode, hbefore, hcarries⟩
    exact ⟨e, firstSuccess_eq_some_iff.2 ⟨hcode, before, after, hsplit, hbefore⟩, hcarries⟩

/-! ## The order of the responses -/

/-- If all responses of success carry a schema, and there is one, the first one does. -/
theorem answersFirst_of_forall (hsome : ∃ e ∈ op.responses, IsSuccessCode e.1)
    (hall : ∀ e ∈ op.responses, IsSuccessCode e.1 → doc.Carries e) : doc.AnswersFirst op := by
  cases hfirst : firstSuccess? op with
  | some e =>
    obtain ⟨hcode, before, after, hsplit, hbefore⟩ := firstSuccess_eq_some_iff.1 hfirst
    have he : e ∈ op.responses := hsplit ▸ List.mem_append_right _ List.mem_cons_self
    exact .inr ⟨before, e, after, hsplit, hcode, hbefore, hall e he hcode⟩
  | none =>
    obtain ⟨e, he, hcode⟩ := hsome
    exact absurd (beq_iff_eq.2 hcode) (List.find?_eq_none.1 hfirst e he)

/-- If the response of success `200` carries no schema, the first response of success has to. -/
theorem carries_of_answersFirst {e : String × Response} {after : List (String × Response)}
    (h : doc.AnswersFirst { op with responses := e :: after }) (hcode : IsSuccessCode e.1)
    (hnot : ¬ ∃ b ∈ e :: after, b.1 = "200" ∧ doc.Carries b) : doc.Carries e := by
  obtain ⟨before, e', after', hsplit, -, hbefore, hcarries⟩ := h.resolve_left hnot
  cases before with
  | nil =>
    cases hsplit
    exact hcarries
  | cons b before =>
    cases hsplit
    exact absurd hcode (hbefore e List.mem_cons_self)

/-- **A schema is found in every order** exactly if the response `200` carries one, or all responses
of success do and there is one: any of them could be the first. -/
theorem forall_perm_answersFirst_iff :
    (∀ responses : List (String × Response), responses.Perm op.responses →
      doc.AnswersFirst { op with responses := responses }) ↔ doc.AnswersAnyhow op := by
  constructor
  · intro h
    by_cases h200 : ∃ e ∈ op.responses, e.1 = "200" ∧ doc.Carries e
    · exact .inl h200
    · refine .inr ⟨?_, fun e he hcode => ?_⟩
      · obtain ⟨before, e, after, hsplit, hcode, -, hcarries⟩ := (h _ (.refl _)).resolve_left h200
        have hsplit : op.responses = before ++ e :: after := hsplit
        obtain ⟨s, hs⟩ := Option.isSome_iff_exists.1 hcarries
        exact ⟨s, e, hsplit ▸ List.mem_append_right _ List.mem_cons_self, hcode, hs⟩
      · obtain ⟨before, after, hsplit⟩ := List.append_of_mem he
        have hperm : (e :: (before ++ after)).Perm op.responses := hsplit ▸ List.perm_middle.symm
        refine carries_of_answersFirst (h _ hperm) hcode fun ⟨b, hb, hb200⟩ => ?_
        exact h200 ⟨b, hperm.mem_iff.1 hb, hb200⟩
  · rintro (⟨e, he, h200⟩ | ⟨⟨s, e, he, hcode, -⟩, hall⟩) responses hperm
    · exact .inl ⟨e, hperm.mem_iff.2 he, h200⟩
    · exact answersFirst_of_forall ⟨e, hperm.mem_iff.2 he, hcode⟩
        fun e' he' => hall e' (hperm.mem_iff.1 he')

/-! ## The methods that hang on it -/

/-- A path that addresses all resources of a kind offers to create one exactly if a schema is found
in what its `POST` answers. -/
theorem create_of_scanCollection {item : PathItem} {found : Discovery}
    (h : doc.scanCollection item = .ok found) :
    found.methods.create.isSome = (item.post.bind doc.successSchema?).isSome := by
  obtain ⟨listed, hmethods, -⟩ := scanCollection_cases h
  rw [hmethods]
  show ((doc.created? item).map Prod.fst).isSome = _
  rw [Option.isSome_map, created?]
  cases item.post with
  | none => rfl
  | some op => rw [Option.bind_some, Option.bind_some, Option.isSome_map]

/-- **When the answer of an operation is found.**  A schema that is found is one that a response of
success carries.  One is found exactly if the response `200` or the first response of success
carries one, and it is found in every order of the responses exactly if the response `200` or all
responses of success do.  On the same condition the operation gets, changes or creates a
resource. -/
theorem answer_found_iff (doc : Document) (hn : (keys op.responses).Nodup) :
    (∀ s, doc.successSchema? op = some s → doc.Answers op s) ∧
    ((doc.successSchema? op).isSome = true ↔ doc.AnswersFirst op) ∧
    ((∀ responses : List (String × Response), responses.Perm op.responses →
      (doc.successSchema? { op with responses := responses }).isSome = true) ↔
        doc.AnswersAnyhow op) ∧
    ∀ item : PathItem,
      (item.get = some op → ((doc.scanItem item).methods.get = true ↔ doc.AnswersFirst op)) ∧
      (item.patch = some op →
        ((doc.scanItem item).methods.update = true ↔ doc.AnswersFirst op)) ∧
      (item.post = some op → ∀ found, doc.scanCollection item = .ok found →
        (found.methods.create.isSome = true ↔ doc.AnswersFirst op)) := by
  have hfound : (doc.successSchema? op).isSome = true ↔ doc.AnswersFirst op :=
    isSome_successSchema_iff hn
  refine ⟨fun s => answers_of_successSchema, hfound, ?_, fun item => ⟨?_, ?_, ?_⟩⟩
  · rw [← forall_perm_answersFirst_iff]
    refine forall₂_congr fun responses hperm => ?_
    exact isSome_successSchema_iff ((hperm.map Prod.fst).nodup_iff.2 hn)
  · intro hget
    rw [← hfound, scanItem, hget]
    rfl
  · intro hpatch
    rw [← hfound, scanItem, hpatch]
    rfl
  · intro hpost found hscan
    rw [create_of_scanCollection hscan, hpost]
    exact hfound

/-! ## A document whose responses come in two orders -/

/-- Creating something, answered with nothing or else with a book. -/
def creating : Operation where
  responses := [
    ("204", {}),
    ("201", { content := [(jsonMedia, ⟨some (.refTo "#/components/schemas/Book")⟩)] })]

/-- The same with the responses the other way round. -/
def creatingFirst : Operation where
  responses := creating.responses.reverse

/-- A document with books that can be got, and created by an operation. -/
def createdBooks (op : Operation) : Document where
  openapi := some "3.1.0"
  servers := [{ url := "http://localhost" }]
  paths := [
    ("/books", { post := some op }),
    ("/books/{book}", {
      get := some { responses := answering (.refTo "#/components/schemas/Book") } })]
  components := [("Book", .typed "object")]

/-- With the book first, what creating answers is found, and books are created; but not in every
order. -/
theorem createdBooks_found :
    (keys creatingFirst.responses).Nodup ∧
    ((createdBooks creatingFirst).successSchema? creatingFirst).isSome = true ∧
    ¬ (createdBooks creatingFirst).AnswersAnyhow creatingFirst ∧
    ∃ found, (createdBooks creatingFirst).scanCollection { post := some creatingFirst } =
      .ok found ∧ found.methods.create.isSome = true := by
  have hn : (keys creatingFirst.responses).Nodup := by decide
  obtain ⟨-, hfound, horder, hmethods⟩ := answer_found_iff (createdBooks creatingFirst) hn
  have hfirst : (createdBooks creatingFirst).AnswersFirst creatingFirst :=
    .inr ⟨[], _, _, rfl, by decide, fun _ hb => absurd hb List.not_mem_nil, rfl⟩
  refine ⟨hn, hfound.2 hfirst, fun hanyhow => ?_, _, rfl, ?_⟩
  · have hlost := horder.2 hanyhow creating.responses (List.reverse_perm _).symm
    exact absurd hlost (by decide +kernel)
  · exact ((hmethods { post := some creatingFirst }).2.2 rfl _ rfl).2 hfirst

/-- With the book behind the response without a schema, the schema is there but it is not found, and
no book can be created; with the book first, books can be created. -/
theorem createdBooks_dropped :
    (∃ s, (createdBooks creating).Answers creating s) ∧
    (createdBooks creating).successSchema? creating = none ∧
    (∃ g, (createdBooks creating).resources none "" = .ok g ∧
      ∃ r ∈ g.resources, r.singular = "book" ∧ r.methods.create = none) ∧
    ∃ g, (createdBooks creatingFirst).resources none "" = .ok g ∧
      ∃ r ∈ g.resources, r.singular = "book" ∧ r.methods.create = some ⟨false⟩ := by
  have hbook : ∀ op create, ((createdBooks op).resources none "").toOption.map
      (fun g : ResourceGraph => g.resources.map fun r => (r.singular, r.methods.create)) =
        some [("book", create)] →
      ∃ g, (createdBooks op).resources none "" = .ok g ∧
        ∃ r ∈ g.resources, r.singular = "book" ∧ r.methods.create = create := by
    intro op create h
    obtain ⟨g, hg, hfacts⟩ := exists_ok_of_map_toOption h
    obtain ⟨r, hr, hfacts⟩ := List.mem_map.1 (hfacts ▸ List.mem_singleton.2 rfl)
    obtain ⟨hname, hcreate⟩ := Prod.mk.inj hfacts
    exact ⟨g, hg, r, hr, hname, hcreate⟩
  refine ⟨⟨_, _, List.mem_cons_of_mem _ List.mem_cons_self, by decide, rfl⟩, rfl, ?_, ?_⟩
  · exact hbook creating none (by decide +kernel)
  · exact hbook creatingFirst (some ⟨false⟩) (by decide +kernel)

end Document
end ResourceCli
