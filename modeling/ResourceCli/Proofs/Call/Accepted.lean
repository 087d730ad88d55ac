import ResourceCli.Proofs.Call.Placeholders
import ResourceCli.Proofs.Call.Single
import ResourceCli.Proofs.Input.Fields
import ResourceCli.Proofs.Url.Percent

/-!
# Which calls are accepted, and what they become

A call becomes a request if it is well formed.  The checks come in a fixed order, and an earlier one
may hide a later one; which calls pass all of them does not depend on the order.  `Resource.Admits`
says it for each thing that is asked of a call, without a mention of the checks.

* `missingFields_eq_nil_iff`: the fields that are checked, said by the schema.
* `admits_iff`: a call passes all checks exactly if it is well formed.
* `request_eq_ok_iff_admits`: a call becomes a request exactly if it is well formed, and then the
  one of the table.
-/

namespace ResourceCli

namespace Resource

variable {r : Resource} {c : Call} {request : Request}

/-! ## What is asked of a call -/

/-- A call gives the fields that a schema asks for. -/
structure Fills (r : Resource) (s : Schema) (c : Call) : Prop where
  /-- Every list that a client may set says what its items are. -/
  said : ∀ name property, s.Writable name property → property.SaysItems
  /-- Every property that is required, and can be an option, is given. -/
  given : ∀ name property, s.Writable name property → s.requires name = true →
    r.isTaken name = false → name ∈ keys c.fields

/-- A call is well formed for a resource. -/
structure Admits (r : Resource) (c : Call) : Prop where
  /-- For every containing resource there is an id that is not empty. -/
  placed : ∀ i < r.parentFlags.length, ∃ parent, c.parents[i]? = some parent ∧ parent ≠ ""
  /-- Whole data and fields are not mixed. -/
  unmixed : c.data = none ∨ c.fields = []
  /-- Without whole data the fields are there. -/
  filled : c.data = none → ∀ s ∈ r.payloadSchema? c.method, r.Fills s c
  /-- The method is one that the resource supports. -/
  supported : r.Supports c.method
  /-- The id that the method needs is there. -/
  identified : r.needsId c.method = true → ∃ id, c.id = some id

/-! ## The fields that are checked -/

theorem missingFields_eq_nil_iff : r.missingFields c = .ok [] ↔
    (c.data = none → ∀ s ∈ r.payloadSchema? c.method, r.Fills s c) := by
  unfold missingFields
  cases hd : c.data with
  | some data => exact iff_of_true rfl nofun
  | none =>
    cases hs : r.payloadSchema? c.method with
    | none => exact iff_of_true rfl fun _ _ => nofun
    | some s =>
      dsimp only
      simp only [bind_eq_ok_iff, Option.mem_some_iff, forall_const, forall_eq']
      constructor
      · rintro ⟨inputs, hinputs, hnone⟩
        refine ⟨exists_bindableInputs_iff.1 ⟨inputs, hinputs⟩, fun name property hw hr ht => ?_⟩
        obtain ⟨input, hinput, rfl, hrequired⟩ := exists_input_of_writable hinputs hw ht
        have hfree := List.filter_eq_nil_iff.1 (List.map_eq_nil_iff.1 (Except.ok.inj hnone))
          input hinput
        by_contra hmissing
        refine hfree ?_
        rw [hrequired, hr, Bool.true_and, Option.isNone_iff_eq_none]
        exact lookup_eq_none_iff.2 hmissing
      · rintro ⟨hsaid, hgiven⟩
        obtain ⟨inputs, hinputs⟩ := exists_bindableInputs_iff.2 hsaid
        refine ⟨inputs, hinputs, congrArg Except.ok ?_⟩
        rw [List.map_eq_nil_iff, List.filter_eq_nil_iff]
        intro input hinput hmissing
        obtain ⟨ht, property, hw, hfield⟩ := (mem_bindableInputs_iff hinputs).1 hinput
        rw [Bool.and_eq_true, Option.isNone_iff_eq_none, required_of_fieldInput hfield] at hmissing
        exact lookup_eq_none_iff.1 hmissing.2 (hgiven _ _ hw hmissing.1 ht)

/-! ## The requests of well formed calls -/

/-- A supported method with the id that it needs has a row in the table. -/
theorem exists_tabled {m : Method} (hs : r.Supports m)
    (hid : r.needsId m = true → ∃ id, c.id = some id) : ∃ request, r.Tabled c m request := by
  cases m with
  | create =>
    obtain ⟨create, hcreate⟩ := Option.ne_none_iff_exists'.1 hs
    rw [needsId, hcreate, Option.any_some] at hid
    cases hsettable : create.userSettableId with
    | false => exact ⟨_, .create create hcreate hsettable⟩
    | true =>
      obtain ⟨id, hid⟩ := hid hsettable
      exact ⟨_, .createAs create id hcreate hsettable hid⟩
  | list => exact ⟨_, .list⟩
  | get =>
    obtain ⟨id, hid⟩ := hid rfl
    exact ⟨_, .get id hid⟩
  | update =>
    obtain ⟨id, hid⟩ := hid rfl
    exact ⟨_, .update id hid⟩
  | delete =>
    obtain ⟨id, hid⟩ := hid rfl
    exact ⟨_, .delete id hid⟩
  | custom name =>
    obtain ⟨m, hm, -⟩ := hs
    obtain ⟨id, hid⟩ := hid rfl
    exact ⟨_, .custom name id m hm hid⟩

/-- A call passes all checks exactly if it is well formed. -/
theorem admits_iff : r.Admits c ↔ r.checkInputs c = .ok () ∧ r.Supports c.method ∧
    (r.needsId c.method = true → ∃ id, c.id = some id) := by
  rw [checkInputs_eq_ok_iff, missingParents_eq_nil_iff, missingFields_eq_nil_iff]
  constructor
  · intro h
    exact ⟨⟨h.placed, h.unmixed, h.filled⟩, h.supported, h.identified⟩
  · rintro ⟨⟨hplaced, hunmixed, hfilled⟩, hsupported, hidentified⟩
    exact ⟨hplaced, hunmixed, hfilled, hsupported, hidentified⟩

/-- **Which calls are accepted, and what they become.**  A call of a resource becomes a request
exactly if it is well formed, and the request is the one that the table has for its method.  The
path of the collection in the table is the pattern with the ids of containing resources in place of
its placeholders, where literals and placeholders come in turn; and the encoded id in the query can
be read back and has nothing in it that would end the query. -/
theorem request_eq_ok_iff_admits (r : Resource) (c : Call) :
    ((∃ request, r.request c = .ok request) ↔ r.Admits c) ∧
    (∀ request, r.request c = .ok request ↔ r.Admits c ∧ r.Tabled c c.method request) ∧
    (alternates false r.collectionSegments = true →
      r.collectionPath c.parents = Text.join "/" (fillIn r.collectionSegments c.parents)) ∧
    ∀ id, Url.percentDecode (Url.encodeValue id).toList = Text.utf8Encode id ∧
      ∀ ch ∈ (Url.encodeValue id).toList, Url.isUnreserved ch = true ∨ ch = '%' := by
  have hrequest : ∀ request,
      r.request c = .ok request ↔ r.Admits c ∧ r.Tabled c c.method request := by
    intro request
    rw [request_eq_ok_iff, requestOf_eq_ok_iff, admits_iff]
    constructor
    · rintro ⟨hchecks, hsupported, htabled⟩
      exact ⟨⟨hchecks, hsupported, htabled.exists_id⟩, htabled⟩
    · rintro ⟨⟨hchecks, hsupported, -⟩, htabled⟩
      exact ⟨hchecks, hsupported, htabled⟩
  refine ⟨?_, hrequest, fun hturn => ?_, fun id =>
    ⟨Url.percentDecode_encodeValue id, fun _ => Url.isUnreserved_of_mem_encodeValue⟩⟩
  · constructor
    · rintro ⟨request, h⟩
      exact ((hrequest request).1 h).1
    · intro h
      obtain ⟨request, htabled⟩ := exists_tabled h.supported h.identified
      exact ⟨request, (hrequest request).2 ⟨h, htabled⟩⟩
  · rw [collectionPath_eq, alternated_eq_fillIn hturn]

/-- The books of a publisher, which have a title and are created under ids that are chosen. -/
def titledBook : Resource :=
  { publishedBook with
    schema := { Schema.typed "object" with
      properties := [
        ("title", .typed "string"),
        ("isbn", { Schema.typed "string" with readOnly := true })]
      required := ["title", "isbn"] }
    methods := { create := some { userSettableId := true } } }

/-- The call that creates a book with a title. -/
def creation : Call where
  resource := "book"
  parents := ["acme"]
  method := .create
  id := some "50% off"
  fields := [("title", .text "Emma")]

/-- A book is created with its title, under its id; what only the server sets need not be given. -/
theorem titledBook_created : titledBook.Admits creation ∧
    titledBook.Tabled creation .create ⟨"POST", "publishers/acme/books", some "id=50%25%20off",
      some (Text.utf8Encode "\x7b\"title\":\"Emma\"\x7d")⟩ ∧
    titledBook.collectionPath ["acme"] =
      Text.join "/" (fillIn ["publishers", "{publisher}", "books"] ["acme"]) := by
  have hrequest : titledBook.request creation =
      .ok ⟨"POST", "publishers/acme/books", some "id=50%25%20off",
        some (Text.utf8Encode "\x7b\"title\":\"Emma\"\x7d")⟩ := by rfl
  obtain ⟨haccepted, htable, hpath, -⟩ := request_eq_ok_iff_admits titledBook creation
  exact ⟨haccepted.1 ⟨_, hrequest⟩, ((htable _).1 hrequest).2, hpath (by decide)⟩

end Resource
end ResourceCli
