import ResourceCli.Proofs.Annotated.Roundtrip

/-!
# Writing a graph twice

A graph that was written as a document, found again in that document and written once more gives
the same document (`ResourceGraph.annotated_annotated`): the components, the paths, the properties
and the parameters are the same and stand in the same order, so the text is the same too.

The second survey finds the resources in another order than the first one, as a resource is now
found after its parents and the paths come in the order of names.  This does not matter, because a
document is written in the order of names, and

* references that were turned once stay as they are (`Schema.retarget_retarget`);
* a resource that is found again is written to the same schema and to the same paths
  (`resourceSchema_of_isCopy`, `pathsOf_of_isCopy`);
* entries that are in a table already stay where they are (`Annotated.insertAll_insertAll`).
-/

namespace ResourceCli

/-! ## References turned twice -/

/-- The name that a reference ends with has no slash. -/
theorem notMem_referenceName (reference : String) : '/' ∉ (referenceName reference).toList := by
  unfold referenceName
  cases h : Text.cutLast '/' reference.toList with
  | none => exact Text.cutLast_eq_none_iff.1 h
  | some p =>
    obtain ⟨before, name⟩ := p
    dsimp only
    rw [String.toList_ofList]
    exact Text.notMem_of_cutLast h

mutual

/-- References that were turned stay as they are. -/
theorem Schema.retarget_retarget : ∀ s : Schema, s.retarget.retarget = s.retarget
  | ⟨types, format, description, items, properties, reference, required, readOnly, declared⟩ => by
    have hitems := Schema.retargetItems_retargetItems items
    have hproperties := Schema.retargetProperties_retargetProperties properties
    have hreference : (reference.map fun r => componentReference (referenceName r)).map
        (fun r => componentReference (referenceName r)) =
        reference.map fun r => componentReference (referenceName r) := by
      rw [Option.map_map]
      refine Option.map_congr fun r _ => ?_
      exact congrArg componentReference (referenceName_componentReference (notMem_referenceName r))
    simp only [Schema.retarget, hitems, hproperties, hreference]

theorem Schema.retargetItems_retargetItems : ∀ items : Option Schema,
    Schema.retargetItems (Schema.retargetItems items) = Schema.retargetItems items
  | none => rfl
  | some s => congrArg some (Schema.retarget_retarget s)

theorem Schema.retargetProperties_retargetProperties : ∀ properties : List (String × Schema),
    Schema.retargetProperties (Schema.retargetProperties properties) =
      Schema.retargetProperties properties
  | [] => rfl
  | (name, s) :: rest => by
    rw [Schema.retargetProperties, Schema.retargetProperties, Schema.retarget_retarget s,
      Schema.retargetProperties_retargetProperties rest]

end

theorem Schema.retargetProperties_eq_map (properties : List (String × Schema)) :
    Schema.retargetProperties properties = properties.map fun e => (e.1, e.2.retarget) := by
  induction properties with
  | nil => rfl
  | cons e properties ih => rw [Schema.retargetProperties, ih, List.map_cons]

/-- A schema with another declaration keeps it when its references are turned. -/
theorem Schema.retarget_declared (s : Schema) (d : Option Declaration) :
    Schema.retarget { s with declared := d } = { s.retarget with declared := d } := by
  cases s
  rfl

/-! ## Entries put in twice -/

namespace Annotated

section Tables

variable {α : Type} {entries table : List (String × α)}

/-- What stands under a name already can be put there again. -/
theorem insert_of_lookup {name : String} {a : α} (h : table.lookup name = some a) :
    Tree.insert name a table = table := by
  induction table with
  | nil => cases h
  | cons e table ih =>
    obtain ⟨k, v⟩ := e
    rw [Tree.insert]
    by_cases hk : k = name
    · rw [hk, List.lookup_cons_self] at h
      rw [if_pos (beq_iff_eq.2 hk), Option.some.inj h]
    · rw [lookup_cons_of_ne (Ne.symm hk)] at h
      rw [if_neg (by simpa using hk), ih h]

theorem insertAll_of_lookup (h : ∀ e ∈ entries, table.lookup e.1 = some e.2) :
    insertAll entries table = table := by
  induction entries with
  | nil => rfl
  | cons e entries ih =>
    rw [insertAll_cons, insert_of_lookup (h e List.mem_cons_self)]
    exact ih fun e he => h e (List.mem_cons_of_mem _ he)

/-- **Entries that were put into a table can be put in again.** -/
theorem insertAll_insertAll (hn : (keys entries).Nodup) (table : List (String × α)) :
    insertAll entries (insertAll entries table) = insertAll entries table := by
  refine insertAll_of_lookup fun e he => ?_
  rw [lookup_insertAll hn, lookup_of_mem hn he, Option.some_or]

theorem mem_insert {name : String} {a : α} {e : String × α}
    (h : e ∈ Tree.insert name a table) : e = (name, a) ∨ e ∈ table := by
  induction table with
  | nil => exact .inl (List.mem_singleton.1 h)
  | cons e' table ih =>
    obtain ⟨k, v⟩ := e'
    rw [Tree.insert] at h
    split at h
    · rename_i hk
      rw [beq_iff_eq.1 hk] at h
      exact (List.mem_cons.1 h).imp_right (List.mem_cons_of_mem _)
    · rcases List.mem_cons.1 h with rfl | h
      · exact .inr List.mem_cons_self
      · exact (ih h).imp_right (List.mem_cons_of_mem _)

/-- Each entry was put in or was there before. -/
theorem mem_insertAll {e : String × α} (h : e ∈ insertAll entries table) :
    e ∈ entries ∨ e ∈ table := by
  induction entries generalizing table with
  | nil => exact .inr h
  | cons e' entries ih =>
    rw [insertAll_cons] at h
    rcases ih h with h | h
    · exact .inl (List.mem_cons_of_mem _ h)
    · rcases mem_insert h with rfl | h
      · exact .inl List.mem_cons_self
      · exact .inr h

end Tables

/-! ## Resources written twice -/

variable {g g' : ResourceGraph} {doc : Document} {r q : Resource}

/-- Turned references stay as they are in a schema with a declaration. -/
theorem retarget_resourceSchema : (resourceSchema g r).retarget = resourceSchema g r := by
  unfold resourceSchema
  rw [Schema.retarget_declared, Schema.retarget_retarget]

theorem customItem_retarget (hq : q.singular = r.singular) (hp : q.pattern = r.pattern)
    (m : CustomMethod) : customItem q m.retarget = customItem r m := by
  have hrequest : m.retarget.request.map (fun s => body jsonMedia s.retarget) =
      m.request.map fun s => body jsonMedia s.retarget := by
    unfold CustomMethod.retarget
    rw [Option.map_map]
    refine Option.map_congr fun s _ => ?_
    exact congrArg (body jsonMedia) s.retarget_retarget
  have hresponse : m.retarget.response.map Schema.retarget = m.response.map Schema.retarget := by
    unfold CustomMethod.retarget
    rw [Option.map_map]
    exact Option.map_congr fun s _ => s.retarget_retarget
  have hop : customOperation q m.retarget = customOperation r m := by
    unfold customOperation
    rw [hrequest, hresponse, hq, hp]
    rfl
  unfold customItem
  rw [hop]
  rfl

/-- **A resource that is found again is written to the same paths.** -/
theorem pathsOf_of_isCopy (hcopy : IsCopy g r q) (hm : q.methods = r.methods)
    (hc : q.customs = r.customs.map CustomMethod.retarget) : pathsOf q = pathsOf r := by
  have hcollection : q.collectionSegments = r.collectionSegments := by
    rw [Resource.collectionSegments, hcopy.pattern, Resource.collectionSegments]
  have hpath : itemPath q = itemPath r := by
    rw [itemPath, hcopy.patternPath, itemPath]
  have hcustoms : (q.customs.map fun m => (itemPath q ++ ":" ++ m.name, customItem q m)) =
      r.customs.map fun m => (itemPath r ++ ":" ++ m.name, customItem r m) := by
    rw [hc, List.map_map]
    refine List.map_congr_left fun m _ => ?_
    rw [← customItem_retarget hcopy.singular hcopy.pattern m, ← hpath]
    rfl
  unfold pathsOf
  rw [hcustoms, hm, hpath]
  unfold Annotated.collectionPath collectionItem resourceItem listOperation
  unfold createOperation
  rw [hcollection, hm, hcopy.singular, hcopy.plural, hcopy.pattern]

/-- **A resource that is found again is written to the same schema.** -/
theorem resourceSchema_of_isCopy (hcopy : IsCopy g r q)
    (hp : (g'.parentsOf q).map Resource.singular = (g.parentsOf r).map Resource.singular) :
    resourceSchema g' q = resourceSchema g r := by
  have hdeclaration : declaration g' q = declaration g r := by
    unfold declaration itemPath Resource.patternPath
    rw [hcopy.singular, hcopy.plural, hcopy.pattern, hp]
  have hschema : q.schema.retarget = resourceSchema g r := by
    rw [hcopy.schema, retarget_resourceSchema]
  rw [resourceSchema, hschema, hdeclaration]
  rfl

end Annotated

namespace ResourceGraph

open Annotated

variable {g g' : ResourceGraph} {doc : Document}

theorem mem_resources_of_mem_ordered {r : Resource} (h : r ∈ g.ordered) : r ∈ g.resources := by
  obtain ⟨e, -, he⟩ := List.mem_filterMap.1 h
  exact List.mem_of_getElem? he

theorem map_eq_map_of_names {α : Type} {as bs : List Resource} {f f' : Resource → α}
    (hn : as.map Resource.singular = bs.map Resource.singular)
    (h : ∀ a ∈ as, ∀ b ∈ bs, a.singular = b.singular → f a = f' b) : as.map f = bs.map f' := by
  induction as generalizing bs with
  | nil => rw [List.map_eq_nil_iff.1 hn.symm, List.map_nil, List.map_nil]
  | cons a as ih =>
    cases bs with
    | nil => cases hn
    | cons b bs =>
      rw [List.map_cons, List.map_cons, List.cons.injEq] at hn
      rw [List.map_cons, List.map_cons, h a List.mem_cons_self b List.mem_cons_self hn.1,
        ih hn.2 fun a ha b hb => h a (List.mem_cons_of_mem _ ha) b (List.mem_cons_of_mem _ hb)]

/-- **What is written in the order of names is the same** if it is the same for every resource that
is recovered. -/
theorem map_ordered (hs : g.Sound) (hw : g.Writable)
    (h : (g.annotated doc).resources none "" = .ok g') {α : Type} {f f' : Resource → α}
    (hf : ∀ r q, Recovered g g' r q → f r = f' q) : g.ordered.map f = g'.ordered.map f' := by
  refine map_eq_map_of_names ?_ fun r hr q hq hn => hf r q ?_
  · rw [hs.ordered_singular, (Document.resources_sound h).ordered_singular]
    exact (names_of_resources hs hw h).symm
  · exact (recovered_of_singular hs hw h (mem_resources_of_mem_ordered hr)
      (mem_resources_of_mem_ordered hq) hn).1

/-- Turned references stay as they are in the components of a written document. -/
theorem retargetProperties_annotated (g : ResourceGraph) (doc : Document) :
    Schema.retargetProperties (g.annotated doc).schemas = (g.annotated doc).schemas := by
  show Schema.retargetProperties (g.annotatedComponents doc) = g.annotatedComponents doc
  rw [Schema.retargetProperties_eq_map]
  have hfixed : ∀ e ∈ g.annotatedComponents doc, (e.1, e.2.retarget) = e := by
    intro e he
    rcases mem_insertAll he with he | he
    · obtain ⟨r, -, rfl⟩ := List.mem_map.1 he
      rw [retarget_resourceSchema]
    · rw [Schema.retargetProperties_eq_map] at he
      obtain ⟨e, -, rfl⟩ := List.mem_map.1 he
      rw [Schema.retarget_retarget]
  exact (List.map_congr_left hfixed).trans (List.map_id _)

theorem annotatedComponents_eq (hs : g.Sound) (hw : g.Writable)
    (h : (g.annotated doc).resources none "" = .ok g') :
    g'.annotatedComponents (g.annotated doc) = g.annotatedComponents doc := by
  have hentries : g.ordered.map (fun r => (r.singular, resourceSchema g r)) =
      g'.ordered.map fun q => (q.singular, resourceSchema g' q) := by
    refine map_ordered hs hw h fun r q hrec => ?_
    rw [hrec.copy.singular, resourceSchema_of_isCopy hrec.copy hrec.parents]
  rw [annotatedComponents, retargetProperties_annotated, ← hentries]
  exact insertAll_insertAll hs.nodup_keys_resourceSchemas _

theorem annotatedPaths_of_resources (hs : g.Sound) (hw : g.Writable)
    (h : (g.annotated doc).resources none "" = .ok g') :
    g'.annotatedPaths = g.annotatedPaths := by
  have hpaths : g.ordered.map (fun r => if r.pattern.isEmpty then [] else pathsOf r) =
      g'.ordered.map fun q => if q.pattern.isEmpty then [] else pathsOf q := by
    refine map_ordered hs hw h fun r q hrec => ?_
    rw [hrec.copy.pattern, pathsOf_of_isCopy hrec.copy hrec.methods hrec.customs]
  rw [annotatedPaths, annotatedPaths, List.flatMap_def, List.flatMap_def, hpaths]

/-- A URL without a slash at its end is declared as it is. -/
theorem serverUrl_of_resources (hw : g.Writable) (hslash : g.serverUrl.toList.getLast? ≠ some '/')
    (h : (g.annotated doc).resources none "" = .ok g') : g'.serverUrl = g.serverUrl := by
  obtain ⟨-, -, -, -, hurl, -, -⟩ := Survey.resources_ok_iff.1 h
  have hfind : (g.annotated doc).servers.find? (·.url != "") = some { url := g.serverUrl } :=
    List.find?_cons_of_pos (bne_iff_ne.2 hw.located)
  have hdeclared : (g.annotated doc).declaredServerUrl? = some g.serverUrl := by
    unfold Document.declaredServerUrl?
    rw [hfind]
    exact congrArg some (Text.dropEndChar_of_getLast? hslash)
  unfold Survey.serverUrl at hurl
  rw [hdeclared] at hurl
  have hsame : g.serverUrl ++ "" = g'.serverUrl := Except.ok.inj hurl
  rw [← hsame, String.append_empty]

/-- **Writing a graph is settled after one step.**  A graph that was found in a document is written;
what is found in the written document, written again, is the same document and the same text. -/
theorem annotated_annotated {given : Option String} {start : String}
    (h : doc.resources given start = .ok g) (hw : g.Writable)
    (hslash : g.serverUrl.toList.getLast? ≠ some '/') :
    ∃ g', (g.annotated doc).resources none "" = .ok g' ∧
      g'.annotated (g.annotated doc) = g.annotated doc ∧
      g'.annotatedText (g.annotated doc) = g.annotatedText doc := by
  have hs := Document.resources_sound h
  obtain ⟨g', hg'⟩ := exists_resources hs hw doc
  have hsame : g'.annotated (g.annotated doc) = g.annotated doc := by
    unfold ResourceGraph.annotated
    rw [serverUrl_of_resources hw hslash hg', annotatedPaths_of_resources hs hw hg']
    have hcomponents := annotatedComponents_eq hs hw hg'
    unfold ResourceGraph.annotated at hcomponents
    rw [hcomponents]
  exact ⟨g', hg', hsame, congrArg (fun d : Document => d.toJson.pretty) hsame⟩

end ResourceGraph

/-- The document with shelves of books, and with loans that refer to a book where the other dialect
has its named schemas. -/
def Document.lentShelves : Document :=
  { Document.shelves with
    components := Document.shelves.components ++ [
      ("Loan", { Schema.typed "object" with
        properties := [("book", .refTo "#/definitions/Book"), ("until", .typed "string")] })] }

/-- Written twice, the document with loans is settled after one step. -/
theorem ResourceGraph.lentShelves_annotated :
    ∃ g, Document.lentShelves.resources none "/v1" = .ok g ∧
      g.Writable ∧ g.serverUrl.toList.getLast? ≠ some '/' ∧
      ∃ g', (g.annotated Document.lentShelves).resources none "" = .ok g' ∧
        g'.annotated (g.annotated Document.lentShelves) = g.annotated Document.lentShelves ∧
        g'.annotatedText (g.annotated Document.lentShelves) =
          g.annotatedText Document.lentShelves := by
  obtain ⟨g, hg, hfacts⟩ := exists_ok_of_map_toOption
    (f := fun g : ResourceGraph =>
      (decide g.Writable, decide (g.serverUrl.toList.getLast? ≠ some '/')))
    (show (Document.lentShelves.resources none "/v1").toOption.map _ = some (true, true)
      by decide +kernel)
  have hw : g.Writable := of_decide_eq_true (congrArg Prod.fst hfacts)
  have hslash : g.serverUrl.toList.getLast? ≠ some '/' :=
    of_decide_eq_true (congrArg Prod.snd hfacts)
  exact ⟨g, hg, hw, hslash, annotated_annotated hg hw hslash⟩

end ResourceCli
