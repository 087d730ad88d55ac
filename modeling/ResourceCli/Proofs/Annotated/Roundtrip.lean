import ResourceCli.Proofs.Annotated.Resurvey

/-!
# Writing a graph and reading it back

A graph that is written as a document and surveyed again is the same graph, up to the order in which
its resources are found (`resources_annotated`).  Every resource is found again, as it has methods
or contains a resource that has; its parents are those of its declaration; its standard methods are
those that the written paths contribute to its name, and its named methods those that they declare
for its pattern.
-/

namespace ResourceCli

/-- A resource of one graph is a resource of another graph again, up to where references lead and up
to the declaration in the schema. -/
structure ResourceGraph.Restores (g g' : ResourceGraph) (r r' : Resource) : Prop where
  /-- The pattern is the same. -/
  pattern : r'.pattern = r.pattern
  /-- The name for many of them is the same. -/
  plural : r'.plural = r.plural
  /-- The parents have the same names, in the same order. -/
  parents : (g'.parentsOf r').map Resource.singular = (g.parentsOf r).map Resource.singular
  /-- The standard methods are the same. -/
  methods : r'.methods = r.methods
  /-- The named methods are the same, in the same order, with all references turned. -/
  customs : r'.customs = r.customs.map CustomMethod.retarget
  /-- The schema is the same with all references turned, but for the declaration. -/
  schema : { r'.schema with declared := none } = { r.schema.retarget with declared := none }

namespace Annotated

variable {g g' : ResourceGraph} {doc : Document} {r q : Resource}

/-- The methods found again under a name are those of its resource. -/
theorem methods_of_resources (hs : g.Sound) (hw : g.Writable)
    (h : (g.annotated doc).resources none "" = .ok g') (hr : r ∈ g.resources) {id : Nat}
    (hl : g'.idOf? r.singular = some id) (hq : g'.resource? id = some q) :
    q.methods = r.methods := by
  obtain ⟨s, hat, hgr, hgi⟩ := Document.exists_attributed h
  unfold ResourceGraph.idOf? at hl
  unfold ResourceGraph.resource? at hq
  rw [hgi] at hl
  rw [hgr] at hq
  rw [← Survey.methodsAt_of_lookup hl hq, hat.methodsAt, foldl_methodsFor_annotated hs hw hr]

/-- A resource with methods is found again. -/
theorem exists_of_methods_ne (hs : g.Sound) (hw : g.Writable)
    (h : (g.annotated doc).resources none "" = .ok g') (hr : r ∈ g.resources)
    (hm : r.methods ≠ {}) : ∃ q ∈ g'.resources, q.singular = r.singular := by
  obtain ⟨s, hat, hgr, -⟩ := Document.exists_attributed h
  have hmethods := hat.methodsAt r.singular
  rw [foldl_methodsFor_annotated hs hw hr] at hmethods
  cases hl : s.index.lookup r.singular with
  | none =>
    rw [Survey.methodsAt_of_lookup_none hl] at hmethods
    exact absurd hmethods.symm hm
  | some id =>
    obtain ⟨q, hq, hn⟩ := hat.consistent.getElem?_of_lookup hl
    exact ⟨q, hgr ▸ List.mem_of_getElem? hq, hn⟩

/-- The parents found again are, one by one, those of the resource. -/
theorem forall₂_parents (hs : g.Sound) (hw : g.Writable)
    (h : (g.annotated doc).resources none "" = .ok g') (hq : q ∈ g'.resources)
    (hcopy : IsCopy g r q) :
    List.Forall₂ (fun name id => ∃ p, g'.resource? id = some p ∧ p.singular = name)
      ((g.parentsOf r).map Resource.singular) q.parents := by
  obtain ⟨s, hc, hgr, -⟩ := Document.exists_consistent h
  obtain ⟨i, hi⟩ := List.mem_iff_getElem?.1 hq
  have hdeclared : q.schema.declared = some (declaration g r) := by
    rw [hcopy.schema]
    rfl
  have hall := hc.contained i q _ (hgr ▸ hi) hdeclared
  have hparents : (declaration g r).parents = (g.parentsOf r).map Resource.singular := rfl
  rw [hparents] at hall
  have hnames : ∀ name ∈ (g.parentsOf r).map Resource.singular,
      ∃ p ∈ g.resources, p.singular = name := by
    intro name hname
    obtain ⟨p, hp, rfl⟩ := List.mem_map.1 hname
    obtain ⟨j, -, hj⟩ := List.mem_filterMap.1 hp
    exact ⟨p, List.mem_of_getElem? hj, rfl⟩
  refine (List.forall₂_iff_get.1 hall).1 |> fun hlen => List.forall₂_iff_get.2 ⟨hlen, ?_⟩
  intro k hk hk'
  obtain ⟨component, target, p, hcomp, hres, hp, hn⟩ := (List.forall₂_iff_get.1 hall).2 k hk hk'
  obtain ⟨p₀, hp₀, hname⟩ := hnames _ (List.get_mem _ ⟨k, hk⟩)
  rw [← hname, hs.component_annotated hw hp₀] at hcomp
  cases hcomp
  rw [Document.resolveSchema_of_reference_eq_none
    (reference_resourceSchema (hs.wellMade p₀ hp₀).reference)] at hres
  cases hres
  rw [← hname, resourceSingular_resourceSchema] at hn
  refine ⟨p, ?_, hn.trans hname⟩
  unfold ResourceGraph.resource?
  rw [hgr]
  exact hp

theorem map_singular_parentsOf {names : List String} {ids : List Nat}
    (h : List.Forall₂ (fun name id => ∃ p, g'.resource? id = some p ∧ p.singular = name)
      names ids) : (ids.filterMap g'.resource?).map Resource.singular = names := by
  induction h with
  | nil => rfl
  | cons h₁ _ ih =>
    obtain ⟨p, hp, rfl⟩ := h₁
    rw [List.filterMap_cons_some hp, List.map_cons, ih]

/-- **Every resource is found again**: it has methods, or it is found as a parent. -/
theorem exists_of_mem (hs : g.Sound) (hw : g.Writable)
    (h : (g.annotated doc).resources none "" = .ok g') (hr : r ∈ g.resources) :
    ∃ q ∈ g'.resources, q.singular = r.singular := by
  obtain ⟨hcopies, -⟩ := copied_of_resources hs hw h
  obtain ⟨i, hi⟩ := List.mem_iff_getElem?.1 hr
  obtain ⟨j, root, hab, hj, hm⟩ := hs.rooted i (List.getElem?_eq_some_iff.1 hi).1
  -- Going down from the resource to one with methods, what is found spreads upwards.
  have hspread : ∀ i, Relation.ReflTransGen g.Contains i j → ∀ r, g.resource? i = some r →
      ∃ q ∈ g'.resources, q.singular = r.singular := by
    intro i hab
    induction hab using Relation.ReflTransGen.head_induction_on with
    | refl =>
      intro r hr
      rw [hj] at hr
      cases hr
      exact exists_of_methods_ne hs hw h (List.mem_of_getElem? hj) hm
    | @head p c hpc _ ih =>
      intro r hr
      obtain ⟨child, hchild, hp⟩ := hpc
      obtain ⟨q, hq, hn⟩ := ih child hchild
      obtain ⟨r₀, hr₀, hcopy⟩ := hcopies q hq
      obtain rfl := ResourceGraph.eq_of_singular hw hr₀ (List.mem_of_getElem? hchild)
        (hcopy.singular.symm.trans hn)
      have hmem : r.singular ∈ (g.parentsOf r₀).map Resource.singular :=
        List.mem_map_of_mem (List.mem_filterMap.2 ⟨p, hp, hr⟩)
      rw [← map_singular_parentsOf (forall₂_parents hs hw h hq hcopy)] at hmem
      obtain ⟨q', hq', hn'⟩ := List.mem_map.1 hmem
      obtain ⟨id, -, hid⟩ := List.mem_filterMap.1 hq'
      exact ⟨q', List.mem_of_getElem? hid, hn'⟩
  exact hspread i hab r hi

/-- The resources found again have the names of the resources that were written. -/
theorem exists_singular_iff (hs : g.Sound) (hw : g.Writable)
    (h : (g.annotated doc).resources none "" = .ok g') (name : String) :
    (∃ q ∈ g'.resources, q.singular = name) ↔ ∃ r ∈ g.resources, r.singular = name := by
  constructor
  · rintro ⟨q, hq, rfl⟩
    obtain ⟨r, hr, hcopy⟩ := (copied_of_resources hs hw h).1 q hq
    exact ⟨r, hr, hcopy.singular.symm⟩
  · rintro ⟨r, hr, rfl⟩
    exact exists_of_mem hs hw h hr

/-- A pattern that is not empty is found at one resource only: another one would be a copy of the
same resource. -/
theorem findIdx?_patterns (hs : g.Sound) (hw : g.Writable)
    (h : (g.annotated doc).resources none "" = .ok g') (hr : r ∈ g.resources) {id : Nat}
    (hq : g'.resource? id = some q) (hcopy : IsCopy g r q) (hne : r.pattern ≠ []) :
    g'.patterns.findIdx? (· == r.patternPath) = some id := by
  obtain ⟨hcopies, hdistinct⟩ := copied_of_resources hs hw h
  obtain ⟨hid, rfl⟩ := List.getElem?_eq_some_iff.1 hq
  have hlength : g'.patterns.length = g'.resources.length := List.length_map _
  refine List.findIdx?_eq_some_iff_getElem.2 ⟨hlength ▸ hid, ?_, fun j hj hsame => ?_⟩
  · rw [beq_iff_eq, ← hcopy.patternPath]
    exact List.getElem_map _
  · have hj' : j < g'.resources.length := hj.trans hid
    have hpath : g'.resources[j].patternPath = r.patternPath := by
      rw [← beq_iff_eq.1 hsame]
      exact (List.getElem_map _).symm
    obtain ⟨r', hr', hcopy'⟩ := hcopies _ (List.getElem_mem hj')
    obtain rfl := eq_of_patternPath hs hw hr' hr hne (hpath.symm.trans hcopy'.patternPath)
    have hnames : (g'.resources.map Resource.singular)[j]? =
        (g'.resources.map Resource.singular)[id]? := by
      rw [List.getElem?_map, List.getElem?_map, List.getElem?_eq_getElem hj',
        List.getElem?_eq_getElem hid, Option.map_some, Option.map_some, hcopy'.singular,
        hcopy.singular]
    have hplace := (List.getElem?_inj (by rwa [List.length_map]) hdistinct).1 hnames
    omega

/-- **The named methods are found again**, all at the one resource of their pattern. -/
theorem customs_of_resources (hs : g.Sound) (hw : g.Writable)
    (h : (g.annotated doc).resources none "" = .ok g') (hr : r ∈ g.resources) {id : Nat}
    (hq : g'.resource? id = some q) (hcopy : IsCopy g r q) :
    q.customs = r.customs.map CustomMethod.retarget := by
  rw [Document.resources_customs h hq, hcopy.patternPath]
  split
  · exact customsFor_annotated hs hw hr
  · rename_i hother
    have hnone : r.customs = [] := by
      by_contra hne
      exact hother (findIdx?_patterns hs hw h hr hq hcopy (hw.shaped r hr (.inr hne)).ne_nil)
    rw [hnone, List.map_nil]

/-- A resource is found again with everything that is written about it. -/
structure Recovered (g g' : ResourceGraph) (r q : Resource) : Prop where
  /-- It is a copy. -/
  copy : IsCopy g r q
  /-- The parents have the same names, in the same order. -/
  parents : (g'.parentsOf q).map Resource.singular = (g.parentsOf r).map Resource.singular
  /-- The standard methods are the same. -/
  methods : q.methods = r.methods
  /-- The named methods are the same, with all references turned. -/
  customs : q.customs = r.customs.map CustomMethod.retarget

theorem Recovered.restores (h : Recovered g g' r q) : g.Restores g' r q := by
  refine ⟨h.copy.pattern, h.copy.plural, h.parents, h.methods, h.customs, ?_⟩
  rw [h.copy.schema]
  rfl

/-- **The resource of a name is recovered under this name.** -/
theorem recovered_of_singular (hs : g.Sound) (hw : g.Writable)
    (h : (g.annotated doc).resources none "" = .ok g') (hr : r ∈ g.resources)
    (hq : q ∈ g'.resources) (hn : r.singular = q.singular) :
    Recovered g g' r q ∧ ∃ id, g'.idOf? r.singular = some id ∧ g'.resource? id = some q := by
  have hs' := Document.resources_sound h
  obtain ⟨hcopies, hdistinct⟩ := copied_of_resources hs hw h
  obtain ⟨r', hr', hcopy⟩ := hcopies q hq
  obtain rfl : r' = r :=
    ResourceGraph.eq_of_singular hw hr' hr (hcopy.singular.symm.trans hn.symm)
  obtain ⟨id, hid⟩ := hs'.known q hq
  obtain ⟨q', hq', hn'⟩ := hs'.leads _ (mem_of_lookup_eq_some hid)
  obtain rfl : q' = q := List.inj_on_of_nodup_map hdistinct (List.mem_of_getElem? hq') hq hn'
  rw [hcopy.singular] at hid
  exact ⟨⟨hcopy, map_singular_parentsOf (forall₂_parents hs hw h hq hcopy),
    methods_of_resources hs hw h hr hid hq', customs_of_resources hs hw h hr hq' hcopy⟩,
    id, hid, hq'⟩

end Annotated

namespace ResourceGraph

open Annotated

section

variable {g g' : ResourceGraph} {doc : Document}

/-- The names of a graph are those of its resources. -/
theorem Sound.mem_names (hs : g.Sound) {name : String} :
    name ∈ g.names ↔ ∃ r ∈ g.resources, r.singular = name := by
  constructor
  · intro hname
    obtain ⟨e, he, rfl⟩ := List.mem_map.1 hname
    obtain ⟨r, hr, hn⟩ := hs.leads e he
    exact ⟨r, List.mem_of_getElem? hr, hn⟩
  · rintro ⟨r, hr, rfl⟩
    obtain ⟨id, hid⟩ := hs.known r hr
    exact mem_keys_of_lookup_eq_some hid

/-- Graphs with resources of the same names list these names alike. -/
theorem Sound.names_eq (hs : g.Sound) (hs' : g'.Sound)
    (h : ∀ name, (∃ q ∈ g'.resources, q.singular = name) ↔ ∃ r ∈ g.resources, r.singular = name) :
    g'.names = g.names := by
  have hnodup : ∀ {g : ResourceGraph}, g.Sound → g.names.Nodup :=
    fun hs => hs.sorted.imp fun {_ _} h => String.ne_of_lt h
  have hperm : g'.names.Perm g.names := by
    refine (List.perm_ext_iff_of_nodup (hnodup hs') (hnodup hs)).2 fun name => ?_
    rw [hs'.mem_names, hs.mem_names, h]
  exact hperm.eq_of_pairwise (fun _ _ _ _ hab hba => absurd hba (String.lt_asymm hab))
    hs'.sorted hs.sorted

/-- The names found again are the names that were written. -/
theorem names_of_resources (hs : g.Sound) (hw : g.Writable)
    (h : (g.annotated doc).resources none "" = .ok g') : g'.names = g.names :=
  hs.names_eq (Document.resources_sound h) (exists_singular_iff hs hw h)

end

/-- **Writing a graph and reading it back.**  A graph that was found in a document, written as a
document that declares its resources and surveyed again, is found again: the names are the same,
each once, and each name leads to a resource with the same pattern, parents, methods and schema. -/
theorem resources_annotated {doc : Document} {given : Option String} {start : String}
    {g : ResourceGraph} (h : doc.resources given start = .ok g) (hw : g.Writable) :
    ∃ g', (g.annotated doc).resources none "" = .ok g' ∧ g'.names = g.names ∧
      (g'.resources.map Resource.singular).Perm (g.resources.map Resource.singular) ∧
      ∀ r ∈ g.resources, ∃ id r', g'.idOf? r.singular = some id ∧ g'.resource? id = some r' ∧
        g.Restores g' r r' := by
  have hs := Document.resources_sound h
  obtain ⟨g', hg'⟩ := exists_resources hs hw doc
  obtain ⟨-, hdistinct⟩ := copied_of_resources hs hw hg'
  refine ⟨g', hg', names_of_resources hs hw hg',
    (List.perm_ext_iff_of_nodup hdistinct hw.distinct).2 fun name => ?_, fun r hr => ?_⟩
  · rw [List.mem_map, List.mem_map]
    exact exists_singular_iff hs hw hg' name
  · obtain ⟨q, hq, hn⟩ := exists_of_mem hs hw hg' hr
    obtain ⟨hrecovered, id, hid, hq'⟩ := recovered_of_singular hs hw hg' hr hq hn.symm
    exact ⟨id, q, hid, hq', hrecovered.restores⟩

/-- The document with shelves of books can be written and read back: its books are found again on
their shelf, with the method to lend one. -/
theorem shelves_annotated : ∃ g, Document.shelves.resources none "" = .ok g ∧ g.Writable ∧
    ∃ g', (g.annotated Document.shelves).resources none "" = .ok g' ∧
      g'.names = ["book", "shelf"] ∧
      ∀ r ∈ g.resources, ∃ id r', g'.idOf? r.singular = some id ∧ g'.resource? id = some r' ∧
        g.Restores g' r r' := by
  obtain ⟨g, hg, hfacts⟩ := exists_ok_of_map_toOption
    (f := fun g : ResourceGraph =>
      (g.serverUrl, g.names, g.resources.map fun r => (r.singular, r.pattern)))
    (show (Document.shelves.resources none "").toOption.map _ =
      some ("http://localhost", ["book", "shelf"],
        [("shelf", ["shelves", "{shelf}"]), ("book", ["shelves", "{shelf}", "books", "{book}"])])
      by decide +kernel)
  obtain ⟨hurl, hrest⟩ := Prod.mk.inj hfacts
  obtain ⟨hnames, hresources⟩ := Prod.mk.inj hrest
  have hpair : ∀ r ∈ g.resources, (r.singular, r.pattern) = ("shelf", ["shelves", "{shelf}"]) ∨
      (r.singular, r.pattern) = ("book", ["shelves", "{shelf}", "books", "{book}"]) := by
    intro r hr
    have hmem := List.mem_map_of_mem (f := fun r : Resource => (r.singular, r.pattern)) hr
    rw [hresources] at hmem
    simpa using hmem
  have hw : g.Writable := by
    refine ⟨?_, fun r hr => ?_, fun r hr _ => ?_, ?_, by rw [hurl]; decide⟩
    · have hsingular : g.resources.map Resource.singular = ["shelf", "book"] := by
        have := congrArg (List.map Prod.fst) hresources
        rwa [List.map_map] at this
      rw [hsingular]
      decide
    · rcases hpair r hr with he | he <;> rw [(Prod.mk.inj he).1] <;> decide
    · rcases hpair r hr with he | he <;> rw [(Prod.mk.inj he).2]
      · exact ⟨by decide, ⟨"{shelf}", rfl, by decide⟩, by decide⟩
      · exact ⟨by decide, ⟨"{book}", rfl, by decide⟩, by decide⟩
    · have hpatterns : (g.resources.map fun r => (r.singular, r.pattern)).Pairwise
          fun r q => r.2.dropLast ≠ q.2.dropLast := by
        rw [hresources]
        decide
      rw [List.pairwise_map] at hpatterns
      exact hpatterns.imp fun h _ _ => h
  obtain ⟨g', hg', hnames', -, hrestores⟩ := resources_annotated hg hw
  exact ⟨g, hg, hw, g', hg', hnames'.trans hnames, hrestores⟩

end ResourceGraph
end ResourceCli
