import ResourceCli.Proofs.Survey.Placed

/-!
# What becomes of a declared deletion

What a deletion answers says nothing of what was deleted.  So a path that addresses one resource
names it by its other operations: by the schema of what it gets, or else of what it changes
(`Document.Names`).  All that the path offers goes to the resource of that name
(`Document.contributes_item_iff`), and nothing else says that a resource can be deleted
(`Document.hasMethod_delete_iff`).

So a deletion is kept wherever its path names a resource, and if the path is the pattern of the
resource that it names, it is that resource which can be deleted (`Document.deletion_kept`).  It is
not enough that the path is the pattern of a resource: it may name none, or another one, or be read
as the path of a named method (`Document.undeletedBooks_lost`).
-/

namespace ResourceCli
namespace Document

variable {doc : Document} {given : Option String} {start : String} {g : ResourceGraph}
  {entry : String × PathItem}

/-- The operations of a path that addresses one resource name it: the schema of what is got, or else
of what is changed, is a reference or declares its resource, and what it stands for has the name. -/
def Names (doc : Document) (item : PathItem) (name : String) : Prop :=
  ∃ captured target,
    (item.get.bind doc.successSchema? <|> item.patch.bind doc.successSchema?) = some captured ∧
    (captured.reference.isSome ∨ captured.declared.isSome) ∧
    doc.resolveSchema captured = .ok target ∧
    name = resourceSingular (captured.reference.elim "" referenceName) target

/-- A path is the pattern of a resource, without what is taken off its start and without one slash
there. -/
def IsPathOf (start : String) (entry : String × PathItem) (r : Resource) : Prop :=
  (Text.stripStart "/" (surveyedPath start entry.1)).getD (surveyedPath start entry.1) =
    r.patternPath

instance (start : String) (entry : String × PathItem) (r : Resource) :
    Decidable (IsPathOf start entry r) :=
  inferInstanceAs (Decidable (_ = _))

/-- **What a path of one resource contributes**: all that its operations offer, to the name that
they give. -/
theorem contributes_item_iff {name : String} {k : StandardMethod}
    (hplain : splitCustomMethod? (surveyedPath start entry.1) = none)
    (hitem : (classify? (surveyedPath start entry.1)).map Prod.snd = some .item) :
    doc.Contributes start entry name k ↔
      doc.Names entry.2 name ∧ (doc.scanItem entry.2).methods.has k = true := by
  obtain ⟨⟨segments, kind⟩, hclass, rfl⟩ := Option.map_eq_some_iff.1 hitem
  constructor
  · rintro ⟨_, ⟨segments', kind', found, captured, target, -, hclass', hscan, hcaptured, hnamed,
      ht, hname, rfl⟩, hk⟩
    rw [hclass] at hclass'
    cases hclass'
    cases hscan
    exact ⟨⟨captured, target, hcaptured, hnamed, ht, hname⟩, hk⟩
  · rintro ⟨⟨captured, target, hcaptured, hnamed, ht, hname⟩, hk⟩
    exact ⟨_, ⟨segments, .item, doc.scanItem entry.2, captured, target, hplain, hclass, rfl,
      hcaptured, hnamed, ht, hname, rfl⟩, hk⟩

/-- The pattern of a resource is not empty if it is a path that addresses something. -/
theorem IsPathOf.pattern_ne_nil {r : Resource} {kind : PathKind} (h : IsPathOf start entry r)
    (hkind : (classify? (surveyedPath start entry.1)).map Prod.snd = some kind) :
    r.pattern ≠ [] := by
  intro hnil
  have hempty : (Text.stripStart "/" (surveyedPath start entry.1)).getD
      (surveyedPath start entry.1) = "" := by
    rw [h, Resource.patternPath, hnil]
    rfl
  have hnone : classify? (surveyedPath start entry.1) = none := by
    unfold classify?
    rw [hempty]
    rfl
  rw [hnone] at hkind
  cases hkind

/-- **What a resource with a pattern can be asked** is what can be asked of its name: the index
leads to it. -/
theorem hasMethod_singular_iff {r : Resource} {k : StandardMethod}
    (h : doc.resources given start = .ok g) (hr : r ∈ g.resources) (hp : r.pattern ≠ []) :
    g.HasMethod r.singular k ↔ r.methods.has k = true := by
  obtain ⟨id, hid⟩ := List.mem_iff_getElem?.1 hr
  have hlookup := idOf_of_pattern h hid hp
  constructor
  · rintro ⟨id', r', hid', hr', hk⟩
    rw [hlookup] at hid'
    cases hid'
    obtain rfl := Option.some.inj (hid.symm.trans hr')
    exact hk
  · intro hk
    exact ⟨id, r, hlookup, hid, hk⟩

/-- **What can be deleted**: the resources of the names that are given by paths of one resource that
declare a deletion. -/
theorem hasMethod_delete_iff {name : String} (h : doc.resources given start = .ok g) :
    g.HasMethod name .delete ↔ ∃ entry ∈ doc.paths,
      splitCustomMethod? (surveyedPath start entry.1) = none ∧
      (classify? (surveyedPath start entry.1)).map Prod.snd = some .item ∧
      entry.2.delete.isSome = true ∧ doc.Names entry.2 name := by
  rw [hasMethod_iff h]
  refine exists_congr fun entry => and_congr_right fun _ => ⟨fun hc => ?_, ?_⟩
  · have ⟨methods, hoffers, hk⟩ := hc
    obtain ⟨segments, kind, found, _, _, hplain, hclass, hscan, -, -, -, -, rfl⟩ := hoffers
    cases kind with
    | item =>
      have hitem : (classify? (surveyedPath start entry.1)).map Prod.snd = some .item := by
        rw [hclass]
        rfl
      obtain ⟨hnames, hdelete⟩ := (contributes_item_iff hplain hitem).1 hc
      exact ⟨hplain, hitem, hdelete, hnames⟩
    | collection =>
      obtain ⟨listed, hmethods, -⟩ := scanCollection_cases hscan
      rw [hmethods] at hk
      cases hk
  · rintro ⟨hplain, hitem, hdelete, hnames⟩
    exact (contributes_item_iff hplain hitem).2 ⟨hnames, hdelete⟩

/-- **A deletion is kept where its path names a resource.**  The resource of the name that the
operations of the path give can be deleted, and if the path is the pattern of a resource that it
names, then it is that one. -/
theorem deletion_kept (h : doc.resources given start = .ok g) (he : entry ∈ doc.paths)
    (hplain : splitCustomMethod? (surveyedPath start entry.1) = none)
    (hitem : (classify? (surveyedPath start entry.1)).map Prod.snd = some .item)
    (hdelete : entry.2.delete.isSome = true) :
    (∀ name, doc.Names entry.2 name → g.HasMethod name .delete) ∧
    ∀ r ∈ g.resources, IsPathOf start entry r → doc.Names entry.2 r.singular →
      r.methods.delete = true := by
  have hkept : ∀ name, doc.Names entry.2 name → g.HasMethod name .delete := fun name hnames =>
    (hasMethod_delete_iff h).2 ⟨entry, he, hplain, hitem, hdelete, hnames⟩
  refine ⟨hkept, fun r hr hown hnames => ?_⟩
  exact (hasMethod_singular_iff h hr (hown.pattern_ne_nil hitem)).1 (hkept r.singular hnames)

/-! ## Two documents -/

/-- A document whose books are named by what changing one answers. -/
def patchedBooks : Document where
  openapi := some "3.1.0"
  servers := [{ url := "http://localhost" }]
  paths := [
    ("/v1/books/{book}", {
      get := some { responses := [("204", {})] }
      patch := some { responses := answering (.refTo "#/components/schemas/Book") }
      delete := some { responses := [("204", {})] } })]
  components := [("Book", .typed "object")]

/-- Its books can be deleted. -/
theorem patchedBooks_kept : ∃ g r, patchedBooks.resources none "/v1" = .ok g ∧
    r ∈ g.resources ∧ r.singular = "book" ∧ r.methods.get = false ∧ r.methods.delete = true ∧
    g.HasMethod "book" .delete := by
  obtain ⟨g, hg, hfacts⟩ := exists_ok_of_map_toOption
    (f := fun g : ResourceGraph => g.resources[0]?.map fun r =>
      (r.singular, r.patternPath, r.methods.get))
    (show (patchedBooks.resources none "/v1").toOption.map _ =
      some (some ("book", "books/{book}", false)) by decide +kernel)
  obtain ⟨r, hr, hfacts⟩ := Option.map_eq_some_iff.1 hfacts
  obtain ⟨hname, hfacts⟩ := Prod.mk.inj hfacts
  obtain ⟨hpattern, hget⟩ := Prod.mk.inj hfacts
  have hr := List.mem_of_getElem? hr
  have hpath : patchedBooks.paths[0] ∈ patchedBooks.paths := List.mem_cons_self
  have hnames : patchedBooks.Names (patchedBooks.paths[0]).2 "book" :=
    ⟨.refTo "#/components/schemas/Book", .typed "object", rfl, .inl rfl, rfl, by decide +kernel⟩
  obtain ⟨hkept, hown⟩ := deletion_kept hg hpath (by decide +kernel) (by decide +kernel) rfl
  refine ⟨g, r, hg, hr, hname, hget, hown r hr ?_ (hname ▸ hnames), hkept "book" hnames⟩
  rw [IsPathOf, hpattern]
  decide +kernel

/-- What a list of data of a schema is answered with. -/
def listing (items : Schema) : List (String × Response) :=
  answering { Schema.typed "object" with
    properties := [("results", { Schema.typed "array" with items := some items })] }

/-- A document with four resources that it lists.  The paths of their patterns declare that they are
deleted, but the first one has no other operation, the second one answers with a schema that has no
name, the third one with that of another resource, and the last one is read as the path of a named
method. -/
def undeletedBooks : Document where
  openapi := some "3.1.0"
  servers := [{ url := "http://localhost" }]
  paths := [
    ("/books", { get := some { responses := listing (.refTo "#/components/schemas/Book") } }),
    ("/books/{book}", { delete := some {} }),
    ("/shelves", { get := some { responses := listing (.refTo "#/components/schemas/Shelf") } }),
    ("/shelves/{shelf}", {
      get := some { responses := answering (.typed "object") }
      delete := some {} }),
    ("/authors", { get := some { responses := listing (.refTo "#/components/schemas/Author") } }),
    ("/authors/{author}", {
      get := some { responses := answering (.refTo "#/components/schemas/Person") }
      delete := some {} }),
    ("/pages", { get := some { responses := listing (.refTo "#/components/schemas/Page") } }),
    ("/pages/{page:id}", {
      get := some { responses := answering (.refTo "#/components/schemas/Page") }
      delete := some {} })]
  components := [
    ("Book", .typed "object"),
    ("Shelf", .typed "object"),
    ("Author", .typed "object"),
    ("Person", .typed "object"),
    ("Page", { Schema.typed "object" with
      declared := some { singular := "page", patterns := ["/pages/{page:id}"] } })]

/-- Every path of the document that declares a deletion is the pattern of a resource, and none of
these resources can be deleted. -/
theorem undeletedBooks_lost : ∃ g, undeletedBooks.resources none "" = .ok g ∧
    ∀ entry ∈ undeletedBooks.paths, entry.2.delete.isSome = true →
      (classify? (surveyedPath "" entry.1)).map Prod.snd = some .item ∧
      ∃ r ∈ g.resources, IsPathOf "" entry r ∧ r.methods.delete = false := by
  obtain ⟨g, hg, hlost⟩ := exists_ok_of_map_toOption
    (f := fun g : ResourceGraph => undeletedBooks.paths.all fun entry =>
      !entry.2.delete.isSome || (classify? (surveyedPath "" entry.1)).map Prod.snd == some .item &&
        g.resources.any fun r => decide (IsPathOf "" entry r) && !r.methods.delete)
    (show (undeletedBooks.resources none "").toOption.map _ = some true by decide +kernel)
  refine ⟨g, hg, fun entry he hdelete => ?_⟩
  have hentry := List.all_eq_true.1 hlost entry he
  rw [hdelete, Bool.not_true, Bool.false_or, Bool.and_eq_true, List.any_eq_true] at hentry
  obtain ⟨hitem, r, hr, hkept⟩ := hentry
  rw [Bool.and_eq_true, decide_eq_true_iff, Bool.not_eq_true'] at hkept
  exact ⟨beq_iff_eq.1 hitem, r, hr, hkept⟩

end Document
end ResourceCli
