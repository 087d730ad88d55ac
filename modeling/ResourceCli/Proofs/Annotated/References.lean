import ResourceCli.Proofs.Annotated.Fixpoint
import ResourceCli.Proofs.Document.References

/-!
# What references stand for in a written document

The components of a document are carried over to the document that declares its resources, and the
schema of each resource is put among them under the name of the resource.  If there was a component
of that name, every reference that leads over it is captured (`ResourceGraph.Captures`): it stands
for the resource from then on, and else for what it stood for.

* `component?_annotated`: what stands under a name in the written document.
* `leads_annotated`: references lead on as before, up to a component that captures them.
* `dereference_annotated_iff`: every reference that stood for something still does, and it stands
  for the same schema, but for its declaration, unless it is captured by a resource that has another
  schema.
-/

namespace ResourceCli

/-- The schema without its declaration. -/
def Schema.undeclared (s : Schema) : Schema := { s with declared := none }

/-- Turning references and declaring a resource do not touch each other. -/
theorem Annotated.undeclared_resourceSchema (g : ResourceGraph) (r : Resource) :
    (resourceSchema g r).undeclared = r.schema.retarget.undeclared := rfl

namespace ResourceGraph

open Annotated

variable {g : ResourceGraph} {doc : Document} {r q : Resource} {name : String}

/-- The resource that the index finds under a name. -/
def named? (g : ResourceGraph) (name : String) : Option Resource :=
  (g.idOf? name).bind g.resource?

/-- A reference to a component is captured by a resource: on the way to what it stands for, the
first component that has the name of a resource has the name of this one. -/
inductive Captures (g : ResourceGraph) (doc : Document) : String → Resource → Prop
  /-- The component itself has the name of the resource. -/
  | here {name : String} {r : Resource} (h : g.named? name = some r) : Captures g doc name r
  /-- No resource has the name of the component, which refers to a further one. -/
  | on {name reference : String} {s : Schema} {r : Resource} (hn : g.named? name = none)
      (hc : doc.component? name = some s) (hs : s.reference = some reference)
      (h : Captures g doc (referenceName reference) r) : Captures g doc name r

theorem captures_iff_of_named? (hn : g.named? name = some q) :
    g.Captures doc name r ↔ r = q := by
  constructor
  · intro h
    cases h with
    | here hn' => exact Option.some.inj (hn'.symm.trans hn)
    | on hn' => cases hn'.symm.trans hn
  · rintro rfl
    exact .here hn

/-- Under no name of a resource, what captures a component is what captures the one that it refers
to. -/
theorem captures_iff_of_component? {s : Schema} (hn : g.named? name = none)
    (hc : doc.component? name = some s) :
    g.Captures doc name r ↔
      ∃ reference, s.reference = some reference ∧ g.Captures doc (referenceName reference) r := by
  constructor
  · intro h
    cases h with
    | here hn' => cases hn.symm.trans hn'
    | on _ hc' hs h =>
      obtain rfl := Option.some.inj (hc.symm.trans hc')
      exact ⟨_, hs, h⟩
  · rintro ⟨reference, hs, h⟩
    exact .on hn hc hs h

/-- At most one resource captures a reference. -/
theorem Captures.unique (h : g.Captures doc name r) (h' : g.Captures doc name q) : r = q := by
  induction h with
  | here hn => exact ((captures_iff_of_named? hn).1 h').symm
  | on hn hc hs _ ih =>
    obtain ⟨reference, hs', h'⟩ := (captures_iff_of_component? hn hc).1 h'
    obtain rfl := Option.some.inj (hs.symm.trans hs')
    exact ih h'

theorem mem_ordered_of_named? (h : g.named? name = some r) : r ∈ g.ordered := by
  obtain ⟨id, hid, hr⟩ := Option.bind_eq_some_iff.mp h
  exact List.mem_filterMap.mpr ⟨(name, id), mem_of_lookup_eq_some hid, hr⟩

/-- What the index finds under a name has that name. -/
theorem Sound.singular_of_named? (hs : g.Sound) (h : g.named? name = some r) :
    r.singular = name := by
  obtain ⟨id, hid, hr⟩ := Option.bind_eq_some_iff.mp h
  obtain ⟨q, hq, hn⟩ := hs.leads _ (mem_of_lookup_eq_some hid)
  obtain rfl := Option.some.inj (hr.symm.trans hq)
  exact hn

/-- A name under which the index finds nothing is none of a resource in order. -/
theorem Sound.singular_ne_of_named? (hs : g.Sound) (h : g.named? name = none)
    (hr : r ∈ g.ordered) : r.singular ≠ name := by
  rintro rfl
  obtain ⟨id, hid⟩ := hs.known r (mem_resources_of_mem_ordered hr)
  obtain ⟨q, hq, -⟩ := hs.leads _ (mem_of_lookup_eq_some hid)
  rw [named?, hid, Option.bind_some, hq] at h
  cases h

/-- **What stands under a name in the written document**: the schema of the resource of that name,
or else the component that stood there. -/
theorem component?_annotated (hs : g.Sound) (doc : Document) (name : String) :
    (g.annotated doc).component? name =
      match g.named? name with
      | some r => some (resourceSchema g r)
      | none => (doc.component? name).map Schema.retarget := by
  cases h : g.named? name with
  | some r =>
    rw [← hs.singular_of_named? h]
    exact hs.component_of_ordered (mem_ordered_of_named? h)
  | none =>
    have habsent :
        (g.ordered.map fun r => (r.singular, resourceSchema g r)).lookup name = none := by
      rw [lookup_eq_none_iff, keys_resourceSchemas]
      intro hmem
      obtain ⟨r, hr, hname⟩ := List.mem_map.mp hmem
      exact hs.singular_ne_of_named? h hr hname
    show (g.annotatedComponents doc).lookup name = _
    rw [annotatedComponents, lookup_insertAll hs.nodup_keys_resourceSchemas, habsent,
      Option.none_or, Schema.retargetProperties_eq_map, lookup_map Schema.retarget]
    rfl

/-- References lead no further than to the schema of a resource. -/
theorem leads_resourceSchema (hs : g.Sound) (doc : Document) (hn : g.named? name = some r) :
    (g.annotated doc).Leads (resourceSchema g r) 0 (resourceSchema g r) :=
  .here (reference_resourceSchema
    (hs.wellMade r (mem_resources_of_mem_ordered (mem_ordered_of_named? hn))).reference)

/-- References lead on in the written document as before, up to a component that captures them. -/
theorem leads_annotated (hs : g.Sound) {s t : Schema} {n : Nat}
    (hc : doc.component? name = some s) (hl : doc.Leads s n t) :
    ∃ s' t', (g.annotated doc).component? name = some s' ∧
      (∃ n' ≤ n, (g.annotated doc).Leads s' n' t') ∧
      ((∃ r, g.Captures doc name r ∧ t' = resourceSchema g r) ∨
        (∀ r, ¬ g.Captures doc name r) ∧ t' = t.retarget) := by
  induction hl generalizing name with
  | @here s h =>
    rw [component?_annotated hs]
    cases hn : g.named? name with
    | some r =>
      exact ⟨_, _, rfl, ⟨0, Nat.zero_le _, leads_resourceSchema hs doc hn⟩,
        .inl ⟨r, .here hn, rfl⟩⟩
    | none =>
      refine ⟨s.retarget, s.retarget, by rw [hc]; rfl, ⟨0, Nat.le_refl _, .here ?_⟩,
        .inr ⟨fun r hr => ?_, rfl⟩⟩
      · rw [Schema.reference_retarget, h, Option.map_none]
      · obtain ⟨reference, hs, -⟩ := (captures_iff_of_component? hn hc).1 hr
        cases h.symm.trans hs
  | @on s next t reference n h hnext hl ih =>
    rw [component?_annotated hs]
    cases hn : g.named? name with
    | some r =>
      exact ⟨_, _, rfl, ⟨0, Nat.zero_le _, leads_resourceSchema hs doc hn⟩,
        .inl ⟨r, .here hn, rfl⟩⟩
    | none =>
      obtain ⟨next', t', hnext', ⟨n', hn', hl'⟩, hcase⟩ := ih hnext
      refine ⟨s.retarget, t', by rw [hc]; rfl, ⟨n' + 1, Nat.succ_le_succ hn', ?_⟩, ?_⟩
      · have hturned : s.retarget.reference =
            some (componentReference (referenceName reference)) := by
          rw [Schema.reference_retarget, h, Option.map_some]
        refine .on hturned ?_ hl'
        rwa [referenceName_componentReference (notMem_referenceName reference)]
      · -- What captures the component is what captures the one that it refers to.
        have hcaptures : ∀ r, g.Captures doc name r ↔
            g.Captures doc (referenceName reference) r := fun r => by
          rw [captures_iff_of_component? hn hc, h]
          simp
        simpa only [hcaptures] using hcase

/-- **References in a written document.**  A reference that stands for a schema in the document
stands for a schema in the written document too, under the same name.  It is the same schema, with
its references turned and but for its declaration, exactly if no resource captures the reference
whose schema is another one. -/
theorem dereference_annotated_iff {given : Option String} {start : String}
    (h : doc.resources given start = .ok g) {reference reference' : String} {s : Schema}
    (hs : doc.dereference (.refTo reference) = .ok s)
    (hname : referenceName reference' = referenceName reference) :
    ∃ t, (g.annotated doc).dereference (.refTo reference') = .ok t ∧
      (t.undeclared = s.retarget.undeclared ↔
        ∀ r, g.Captures doc (referenceName reference) r →
          r.schema.retarget.undeclared = s.retarget.undeclared) := by
  obtain ⟨n, hn, hl⟩ := Document.dereference_eq_ok_iff.mp hs
  cases hl with
  | here h' => cases h'
  | @on _ next _ _ n h' hnext hl =>
    obtain rfl := Option.some.inj h'
    obtain ⟨next', t, hnext', ⟨n', hn', hl'⟩, hcase⟩ :=
      leads_annotated (Document.resources_sound h) hnext hl
    refine ⟨t, Document.dereference_eq_ok_iff.mpr ⟨n' + 1, by omega, .on rfl ?_ hl'⟩, ?_⟩
    · rwa [hname]
    · rcases hcase with ⟨r, hr, rfl⟩ | ⟨hno, rfl⟩
      · rw [undeclared_resourceSchema]
        refine ⟨fun heq q hq => ?_, fun hall => hall r hr⟩
        rwa [← hr.unique hq]
      · exact ⟨fun _ r hr => absurd hr (hno r), fun _ => rfl⟩

end ResourceGraph

namespace Document

/-- What the component of a loan is. -/
def loan : Schema :=
  { Schema.typed "object" with
    properties := [("book", .refTo "#/definitions/Book"), ("until", .typed "string")] }

/-- The document with loans, and with borrowings that are nothing but loans. -/
def borrowedShelves : Document :=
  { lentShelves with
    components := lentShelves.components ++ [("Borrowing", .refTo "#/definitions/Loan")] }

/-- A borrowing is a loan in the written document too. -/
theorem borrowedShelves_dereference : ∃ g, borrowedShelves.resources none "" = .ok g ∧
    borrowedShelves.dereference (.refTo "#/definitions/Borrowing") = .ok loan ∧
    ∃ t, (g.annotated borrowedShelves).dereference (.refTo "#/components/schemas/Borrowing") =
        .ok t ∧ t.undeclared = loan.retarget.undeclared := by
  obtain ⟨g, hg, hfacts⟩ := exists_ok_of_map_toOption
    (f := fun g : ResourceGraph => ((g.named? "Borrowing").isNone, (g.named? "Loan").isNone))
    (show (borrowedShelves.resources none "").toOption.map _ = some (true, true)
      by decide +kernel)
  obtain ⟨hborrowing, hloan⟩ := Prod.mk.inj hfacts
  have hread : borrowedShelves.dereference (.refTo "#/definitions/Borrowing") = .ok loan := rfl
  have hname : referenceName "#/components/schemas/Borrowing" =
      referenceName "#/definitions/Borrowing" := rfl
  obtain ⟨t, ht, hiff⟩ := ResourceGraph.dereference_annotated_iff hg hread hname
  refine ⟨g, hg, rfl, t, ht, hiff.mpr fun r hr => ?_⟩
  -- Neither of the two components on the way has the name of a resource.
  cases hr with
  | here hn => rw [show g.named? "Borrowing" = some r from hn] at hborrowing; cases hborrowing
  | on _ hc hs hr =>
    obtain rfl := Option.some.inj hc
    obtain rfl := Option.some.inj hs
    cases hr with
    | here hn => rw [show g.named? "Loan" = some r from hn] at hloan; cases hloan
    | on _ hc hs _ =>
      obtain rfl := Option.some.inj hc
      cases hs

/-- A document with books whose titles are told by a component that is named like a book. -/
def titledBooks : Document where
  openapi := some "3.1.0"
  servers := [{ url := "http://localhost" }]
  paths := [("/books/{book}", {
    get := some { responses := answering (.refTo "#/components/schemas/Book") } })]
  components := [
    ("Book", { Schema.typed "object" with
      properties := [("title", .refTo "#/components/schemas/book")] }),
    ("book", .typed "string")]

/-- In the written document the title of a book is a book. -/
theorem titledBooks_captured : ∃ g, titledBooks.resources none "" = .ok g ∧
    titledBooks.dereference (.refTo "#/components/schemas/book") = .ok (.typed "string") ∧
    ∃ t, (g.annotated titledBooks).dereference (.refTo "#/components/schemas/book") = .ok t ∧
      t.types = some (.single "object") ∧
      t.undeclared ≠ (Schema.typed "string").retarget.undeclared := by
  obtain ⟨g, hg, hfacts⟩ := exists_ok_of_map_toOption
    (f := fun g : ResourceGraph =>
      ((g.annotated titledBooks).dereference (.refTo "#/components/schemas/book")).toOption.map
        Schema.types)
    (show (titledBooks.resources none "").toOption.map _ = some (some (some (.single "object")))
      by decide +kernel)
  obtain ⟨t, ht, htypes⟩ := Option.map_eq_some_iff.mp hfacts
  refine ⟨g, hg, rfl, t, toOption_eq_some_iff.mp ht, htypes, fun heq => ?_⟩
  have hstring : t.types = some (.single "string") := congrArg Schema.types heq
  rw [htypes] at hstring
  exact absurd hstring (by decide)

end Document
end ResourceCli
