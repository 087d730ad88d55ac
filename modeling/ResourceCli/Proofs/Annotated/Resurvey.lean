import ResourceCli.Proofs.Annotated.Reading

/-!
# Surveying a written document

A written document can be surveyed again, and what is found are copies of the resources that it was
written from.

That the survey succeeds is a matter of the graph alone.  A resource is populated after its parents,
and they stand at earlier places of the graph; so no name is pending when it comes up again, and the
place of a resource bounds how deep populating goes (`exists_populates`).  That only copies are
found, each once, is an invariant of the survey (`Copied`).
-/

namespace ResourceCli
namespace Annotated

open Survey

variable {g : ResourceGraph} {doc : Document} {r q : Resource} {s s' : Survey}

/-! ## The survey succeeds -/

theorem getElem?_of_mem_parentsOf (hs : g.Sound) {n : Nat} (hr : g.resources[n]? = some r)
    (hq : q ∈ g.parentsOf r) : ∃ m < n, g.resources[m]? = some q := by
  obtain ⟨p, hp, hq⟩ := List.mem_filterMap.1 hq
  exact ⟨p, hs.earlier n r hr p hp, hq⟩

/-- If all parents can be populated one by one, they can be harvested. -/
theorem exists_harvest (hs : g.Sound) (hw : g.Writable) {fuel : Nat} {pending : List String}
    {parents : List Resource} (hmem : ∀ q ∈ parents, q ∈ g.resources)
    (step : ∀ q ∈ parents, ∀ s, ∃ id s',
      Populates (g.annotated doc) fuel pending q.singular [] (resourceSchema g q) s id s')
    (s : Survey) :
    ∃ ids s', Harvest (ParentPopulated (g.annotated doc) (Populates (g.annotated doc) fuel) pending)
      (parents.map Resource.singular) s ids s' := by
  induction parents generalizing s with
  | nil => exact ⟨[], s, .nil s⟩
  | cons q parents ih =>
    have hq := hmem q List.mem_cons_self
    obtain ⟨id, s₁, h₁⟩ := step q List.mem_cons_self s
    obtain ⟨ids, s₂, h₂⟩ := ih (fun q hq => hmem q (List.mem_cons_of_mem _ hq))
      (fun q hq => step q (List.mem_cons_of_mem _ hq)) s₁
    refine ⟨id :: ids, s₂, .cons ⟨resourceSchema g q, resourceSchema g q,
      hs.component_annotated hw hq, ?_, ?_⟩ h₂⟩
    · exact Document.resolveSchema_of_reference_eq_none
        (reference_resourceSchema (hs.wellMade q hq).reference)
    · rw [resourceSingular_resourceSchema]
      exact h₁

/-- **Every resource can be populated**, whatever was surveyed before, as long as only resources at
later places are pending. -/
theorem exists_populates (hs : g.Sound) (hw : g.Writable) (doc : Document) (n : Nat) :
    ∀ fuel r, g.resources[n]? = some r → n < fuel → ∀ pending : List String,
      (∀ name ∈ pending, ∃ i q, g.resources[i]? = some q ∧ q.singular = name ∧ n < i) →
      ∀ pattern s, ∃ id s', Populates (g.annotated doc) fuel pending r.singular pattern
        (resourceSchema g r) s id s' := by
  induction n using Nat.strongRecOn with
  | ind n ih =>
    intro fuel r hr hfuel pending hpending pattern s
    obtain ⟨fuel, rfl⟩ : ∃ k, fuel = k + 1 := ⟨fuel - 1, by omega⟩
    cases hl : s.index.lookup r.singular with
    | some id => exact ⟨id, _, populates_succ_iff.2 (.inl ⟨hl, rfl⟩)⟩
    | none =>
      have hnew : r.singular ∉ pending := by
        intro hp
        obtain ⟨i, q, hq, hn, hlt⟩ := hpending _ hp
        have hi := hs.idOf_singular hw hq
        rw [hn, hs.idOf_singular hw hr] at hi
        cases hi
        exact lt_irrefl n hlt
      have hparents : ∀ q ∈ g.parentsOf r, ∀ s, ∃ id s',
          Populates (g.annotated doc) fuel (r.singular :: pending) q.singular []
            (resourceSchema g q) s id s' := by
        intro q hq
        obtain ⟨m, hm, hgm⟩ := getElem?_of_mem_parentsOf hs hr hq
        refine ih m hm fuel q hgm (by omega) _ (fun name hname => ?_) []
        rcases List.mem_cons.1 hname with rfl | hname
        · exact ⟨n, r, hr, rfl, hm⟩
        · obtain ⟨i, q', hq', hn, hlt⟩ := hpending name hname
          exact ⟨i, q', hq', hn, by omega⟩
      have hmem : ∀ q ∈ g.parentsOf r, q ∈ g.resources := by
        intro q hq
        obtain ⟨m, -, hgm⟩ := getElem?_of_mem_parentsOf hs hr hq
        exact List.mem_of_getElem? hgm
      obtain ⟨ids, s₁, hh⟩ := exists_harvest hs hw hmem hparents s
      exact ⟨_, _, populates_succ_iff.2 (.inr (.inr ⟨hl, hnew, declaration g r, ids, s₁, rfl, hh,
        rfl, rfl⟩))⟩

/-- An entry of the written paths contributes to a resource of the graph, or is the path of one of
its named methods. -/
theorem cases_of_mem_paths (hs : g.Sound) (hw : g.Writable) {entry : String × PathItem}
    (he : entry ∈ (g.annotated doc).paths) :
    ∃ r ∈ g.resources, r.pattern ≠ [] ∧
      ((∃ pattern methods, (g.annotated doc).contribution? "" entry =
        some ⟨r.singular, pattern, resourceSchema g r, methods⟩) ∨
      ∃ m ∈ r.customs, entry = (itemPath r ++ ":" ++ m.name, customItem r m)) := by
  change entry ∈ g.annotatedPaths at he
  rw [hs.annotatedPaths_eq hw, List.mem_flatMap] at he
  obtain ⟨r, hr, he⟩ := he
  rw [hs.mem_ordered hw] at hr
  split at he
  · cases he
  · rename_i hp
    refine ⟨r, hr, fun h => hp (List.isEmpty_iff.2 h), ?_⟩
    unfold pathsOf at he
    rw [List.mem_append, List.mem_append] at he
    rcases he with (he | he) | he
    · split at he
      · rename_i hm
        rw [List.mem_singleton.1 he]
        exact .inl ⟨_, _, contribution_collection hs hw hr hm⟩
      · cases he
    · split at he
      · rename_i hm
        rw [List.mem_singleton.1 he]
        exact .inl ⟨_, _, contribution_item hs hw hr hm⟩
      · cases he
    · obtain ⟨m, hm, rfl⟩ := List.mem_map.1 he
      exact .inr ⟨m, hm, rfl⟩

/-- **Every path can be surveyed**, whatever was surveyed before. -/
theorem exists_visit (hs : g.Sound) (hw : g.Writable) {entry : String × PathItem}
    (he : entry ∈ (g.annotated doc).paths) (s : Survey) :
    ∃ s', visit (g.annotated doc) "" entry.1 entry.2 s = .ok PUnit.unit s' := by
  obtain ⟨r, hr, -, ⟨pattern, methods, hc⟩ | ⟨m, hm, rfl⟩⟩ := cases_of_mem_paths hs hw he
  · obtain ⟨n, hn⟩ := List.mem_iff_getElem?.1 hr
    obtain ⟨notes, hv⟩ := visit_of_contribution hc s
    have hlt : n < depth (g.annotated doc) := by
      have hlen := hs.length_le_schemas hw doc
      have hn' := (List.getElem?_eq_some_iff.1 hn).1
      unfold depth
      omega
    obtain ⟨id, s₁, hp⟩ := exists_populates hs hw doc n _ r hn hlt []
      (fun _ h => absurd h List.not_mem_nil) pattern (s.withNotes notes)
    exact ⟨_, (hv _ _).2 ⟨id, s₁, hp, rfl⟩⟩
  · have hsplit := splitCustomMethod_customPath hs hw hr hm
    rw [← surveyedPath_empty (itemPath r ++ ":" ++ m.name)] at hsplit
    obtain ⟨notes, hv⟩ := visit_custom hsplit (g.annotated doc) (customItem r m) s
    exact ⟨_, (hv _ _).2 ⟨_, customMethod_customItem (hs.customs r hr m hm), rfl⟩⟩

/-- **A written document can be surveyed.** -/
theorem exists_resources (hs : g.Sound) (hw : g.Writable) (doc : Document) :
    ∃ g', (g.annotated doc).resources none "" = .ok g' := by
  have hvisit : ∀ entry ∈ (g.annotated doc).paths, ∀ s, ∃ s',
      visit (g.annotated doc) "" entry.1 entry.2 s = .ok PUnit.unit s' :=
    fun _ he s => exists_visit hs hw he s
  have hattach : ∀ (buckets : List (String × List CustomMethod)), ∀ bucket ∈ buckets,
      ∀ s, ∃ s', attach bucket.1 bucket.2 s = .ok PUnit.unit s' :=
    fun _ bucket _ s => ⟨_, (attach_eq bucket.1 bucket.2 s).choose_spec⟩
  obtain ⟨s₁, h₁⟩ := Walk.exists_of_forall hvisit {}
  obtain ⟨s₂, h₂⟩ := Walk.exists_of_forall (hattach s₁.customs) s₁
  have hurl : ∃ url, serverUrl (g.annotated doc) none "" = .ok url := by
    have hfind : (g.annotated doc).servers.find? (·.url != "") =
        some { url := g.serverUrl } :=
      List.find?_cons_of_pos (bne_iff_ne.2 hw.located)
    unfold serverUrl Document.declaredServerUrl?
    rw [hfind]
    exact ⟨_, rfl⟩
  obtain ⟨url, hurl⟩ := hurl
  exact ⟨⟨url, s₂.resources, s₂.index⟩, resources_ok_iff.2 ⟨s₁, s₂, h₁, h₂, hurl, rfl, rfl⟩⟩

/-! ## The survey finds copies -/

/-- A resource is made from the schema that another one was written to. -/
structure IsCopy (g : ResourceGraph) (r q : Resource) : Prop where
  /-- The name is the same. -/
  singular : q.singular = r.singular
  /-- The name for many of them is the same. -/
  plural : q.plural = r.plural
  /-- The pattern is the same. -/
  pattern : q.pattern = r.pattern
  /-- The schema is the one that was written. -/
  schema : q.schema = resourceSchema g r

theorem IsCopy.patternPath (h : IsCopy g r q) : q.patternPath = r.patternPath := by
  rw [Resource.patternPath, h.pattern, Resource.patternPath]

/-- The resources found so far are copies, each once. -/
structure Copied (g : ResourceGraph) (s : Survey) : Prop where
  /-- Every resource is a copy. -/
  copies : ∀ q ∈ s.resources, ∃ r ∈ g.resources, IsCopy g r q
  /-- No two resources have the same name. -/
  distinct : (s.resources.map Resource.singular).Nodup

theorem isCopy_declared (hs : g.Sound) (hw : g.Writable) (hr : r ∈ g.resources)
    (parents : List Nat) :
    IsCopy g r (declared r.singular (declaration g r) parents (resourceSchema g r)) := by
  have hpattern : ((declaration g r).patterns.head?.map splitPattern).getD [] = r.pattern := by
    show (((if r.pattern.isEmpty then [] else [itemPath r]) : List String).head?.map
      splitPattern).getD [] = r.pattern
    split
    · rename_i hp
      rw [List.isEmpty_iff.1 hp]
      rfl
    · rename_i hp
      rw [List.head?_cons, Option.map_some, Option.getD_some, itemPath, Resource.patternPath,
        splitPattern_path (hs.plain hw hr) fun h => hp (List.isEmpty_iff.2 h)]
  refine ⟨rfl, ?_, hpattern, rfl⟩
  show (if r.plural == "" then
    inferPlural (((declaration g r).patterns.head?.map splitPattern).getD []) else r.plural) =
    r.plural
  rw [hpattern]
  split
  · rename_i hp
    rw [(hs.wellMade r hr).plural (beq_iff_eq.1 hp), beq_iff_eq.1 hp]
  · rfl

/-- A change that leaves name, pattern and schema of a resource alone leaves a copy. -/
theorem Copied.changed (h : Copied g s) (id : Nat) {f : Resource → Resource}
    (hf : ∀ r q, IsCopy g r q → IsCopy g r (f q)) (hn : ∀ q, (f q).singular = q.singular) :
    Copied g (s.changed id f) := by
  refine ⟨fun q hq => ?_, ?_⟩
  · obtain ⟨i, hi⟩ := List.mem_iff_getElem?.1 hq
    rw [getElem?_changed, Option.map_eq_some_iff] at hi
    obtain ⟨q₀, hq₀, rfl⟩ := hi
    obtain ⟨r, hr, hcopy⟩ := h.copies q₀ (List.mem_of_getElem? hq₀)
    refine ⟨r, hr, ?_⟩
    split
    · exact hf r q₀ hcopy
    · exact hcopy
  · have hsame : (s.changed id f).resources.map Resource.singular =
        s.resources.map Resource.singular := by
      refine List.ext_getElem? fun i => ?_
      rw [List.getElem?_map, List.getElem?_map, getElem?_changed, Option.map_map]
      congr 1
      funext q
      show Resource.singular (if id = i then f q else q) = q.singular
      split
      · exact hn q
      · rfl
    rw [hsame]
    exact h.distinct

/-- A copy has its pattern already, so it gets no other one. -/
theorem withPattern_of_isCopy {pattern : List String} (hcopy : IsCopy g r q)
    (hp : pattern ≠ [] → r.pattern ≠ []) : Survey.Resource.withPattern pattern q = q := by
  unfold Survey.Resource.withPattern
  rw [hcopy.pattern, if_neg]
  rw [Bool.and_eq_true, Bool.not_eq_true', List.isEmpty_iff, List.isEmpty_eq_false_iff]
  exact fun h => hp h.2 h.1

/-- So giving it the pattern that its resource is met under changes nothing. -/
theorem Copied.withPattern (h : Copied g s) (hc : Consistent doc s) (hw : g.Writable)
    {pattern : List String} {id : Nat} (hr : r ∈ g.resources)
    (hl : s.index.lookup r.singular = some id) (hp : pattern ≠ [] → r.pattern ≠ []) :
    (s.changed id (Survey.Resource.withPattern pattern)).resources = s.resources := by
  refine List.ext_getElem? fun i => ?_
  rw [getElem?_changed]
  cases hq : s.resources[i]? with
  | none => rfl
  | some q =>
    rw [Option.map_some]
    split
    · rename_i hi
      subst hi
      obtain ⟨q', hq', hn⟩ := hc.getElem?_of_lookup hl
      obtain rfl := Option.some.inj (hq.symm.trans hq')
      obtain ⟨r', hr', hcopy⟩ := h.copies q (List.mem_of_getElem? hq)
      obtain rfl := ResourceGraph.eq_of_singular hw hr' hr (hcopy.singular.symm.trans hn)
      rw [withPattern_of_isCopy hcopy hp]
    · rfl

theorem map_singular_added (s : Survey) (q : Resource) :
    (s.added q).resources.map Resource.singular =
      s.resources.map Resource.singular ++ [q.singular] := by
  rw [Survey.added, List.map_append]
  rfl

/-- A copy is added if its resource was not found before. -/
theorem Copied.added (h : Copied g s) (hr : r ∈ g.resources) (hcopy : IsCopy g r q)
    (hfresh : q.singular ∉ s.resources.map Resource.singular) : Copied g (s.added q) := by
  refine ⟨fun q' hq' => ?_, ?_⟩
  · rcases List.mem_append.1 hq' with hq' | hq'
    · exact h.copies q' hq'
    · rw [List.mem_singleton.1 hq']
      exact ⟨r, hr, hcopy⟩
  · rw [map_singular_added, List.nodup_append]
    refine ⟨h.distinct, List.nodup_singleton _, ?_⟩
    rintro a ha _ hb rfl
    exact hfresh (List.mem_singleton.1 hb ▸ ha)

/-- What populating a resource of the graph does to the copies found before: there are only copies
afterwards, and no pending name is among those that were added. -/
def Copying (g : ResourceGraph) (doc : Document) : Populating :=
  fun pending singular pattern schema s _ s' =>
    ∀ r ∈ g.resources, singular = r.singular → schema = resourceSchema g r →
      (pattern ≠ [] → r.pattern ≠ []) → Consistent (g.annotated doc) s → Sound s → Copied g s →
      Copied g s' ∧ ∀ name ∈ pending, name ∈ s'.resources.map Resource.singular →
        name ∈ s.resources.map Resource.singular

theorem Harvest.copied (hs : g.Sound) (hw : g.Writable) {pending : List String}
    {parents : List Resource} {ids : List Nat} (hmem : ∀ q ∈ parents, q ∈ g.resources)
    (h : Harvest (ParentPopulated (g.annotated doc)
      (fun pending singular pattern schema s id s' =>
        Succeeds (g.annotated doc) pending singular pattern schema s id s' ∧
          Copying g doc pending singular pattern schema s id s') pending)
      (parents.map Resource.singular) s ids s')
    (hc : Consistent (g.annotated doc) s) (hsound : Sound s) (hcopied : Copied g s) :
    Copied g s' ∧ Sound s' ∧ ∀ name ∈ pending, name ∈ s'.resources.map Resource.singular →
      name ∈ s.resources.map Resource.singular := by
  induction parents generalizing s ids with
  | nil =>
    cases h
    exact ⟨hcopied, hsound, fun _ _ h => h⟩
  | cons q parents ih =>
    cases h with
    | cons h₁ hrest =>
      obtain ⟨component, schema, hcomp, hres, hsucc, hm⟩ := h₁
      have hq := hmem q List.mem_cons_self
      rw [hs.component_annotated hw hq] at hcomp
      cases hcomp
      have hnone := reference_resourceSchema (g := g) (hs.wellMade q hq).reference
      rw [Document.resolveSchema_of_reference_eq_none hnone] at hres
      cases hres
      rw [resourceSingular_resourceSchema] at hsucc hm
      obtain ⟨hcopied₁, hnew₁⟩ := hm q hq rfl rfl (fun h => absurd rfl h) hc hsound hcopied
      obtain ⟨hcopied₂, hsound₂, hnew₂⟩ := ih (fun q hq => hmem q (List.mem_cons_of_mem _ hq))
        hrest (hsucc.consistent hc) (hsucc.sound hnone (fun _ => .nil) hc hsound) hcopied₁
      exact ⟨hcopied₂, hsound₂, fun name hn h => hnew₁ name hn (hnew₂ name hn h)⟩

/-- **Populating finds copies.** -/
theorem Succeeds.copying (hs : g.Sound) (hw : g.Writable) {pending : List String}
    {singular : String} {pattern : List String} {schema : Schema} {id : Nat}
    (h : Succeeds (g.annotated doc) pending singular pattern schema s id s') :
    Copying g doc pending singular pattern schema s id s' := by
  refine populating_induction (M := Copying g doc) ?_ ?_ ?_ h
  · intro pending singular pattern schema s id hl r hr hname _ hp hc _ hcopied
    subst hname
    have hsame := hcopied.withPattern hc hw hr hl hp
    refine ⟨⟨?_, ?_⟩, ?_⟩
    · rw [hsame]
      exact hcopied.copies
    · rw [hsame]
      exact hcopied.distinct
    · rw [hsame]
      exact fun _ _ h => h
  · intro _ _ _ schema _ _ hd r _ _ hschema
    rw [hschema] at hd
    cases hd
  · intro pending singular pattern schema s d parents s₁ hl hpend hd hh r hr hname hschema _ hc
      hsound hcopied
    subst hname hschema
    obtain rfl : declaration g r = d := Option.some.inj hd
    have hmem : ∀ q ∈ g.parentsOf r, q ∈ g.resources := by
      intro q hq
      obtain ⟨p, -, hq⟩ := List.mem_filterMap.1 hq
      exact List.mem_of_getElem? hq
    obtain ⟨hcopied₁, -, hnew⟩ := Harvest.copied hs hw hmem hh hc hsound hcopied
    have hfresh : r.singular ∉ s₁.resources.map Resource.singular := by
      intro h
      obtain ⟨q, hq, hn⟩ := List.mem_map.1 (hnew _ List.mem_cons_self h)
      obtain ⟨id, hid⟩ := hsound.known q hq
      rw [hn, hl] at hid
      cases hid
    refine ⟨hcopied₁.added hr (isCopy_declared hs hw hr parents) hfresh, fun name hn h => ?_⟩
    rw [map_singular_added, List.mem_append, List.mem_singleton] at h
    rcases h with h | rfl
    · exact hnew name (List.mem_cons_of_mem _ hn) h
    · exact absurd hn hpend

/-- A path finds copies. -/
theorem Copied.visit (hs : g.Sound) (hw : g.Writable) {entry : String × PathItem} {u : PUnit}
    (he : entry ∈ (g.annotated doc).paths) (hcopied : Copied g s)
    (hc : Consistent (g.annotated doc) s) (hsound : Sound s)
    (h : Survey.visit (g.annotated doc) "" entry.1 entry.2 s = .ok u s') : Copied g s' := by
  rcases visit_cases h with ⟨c, notes, id, s₁, hcon, hp, rfl⟩ |
    ⟨-, ⟨notes, rfl⟩ | ⟨pattern, name, m, notes, -, -, rfl⟩⟩
  · obtain ⟨r, hr, hpattern, ⟨pattern, methods, hcon'⟩ | ⟨m, hm, rfl⟩⟩ :=
      cases_of_mem_paths hs hw he
    · rw [hcon] at hcon'
      cases hcon'
      obtain ⟨hcopied₁, -⟩ := Succeeds.copying hs hw hp r hr rfl rfl (fun _ => hpattern)
        ⟨hc.indexed, hc.earlier, hc.contained⟩
        ⟨hsound.wellMade, hsound.known, hsound.sorted⟩ ⟨hcopied.copies, hcopied.distinct⟩
      refine hcopied₁.changed id (fun r q hcopy => ?_) fun _ => rfl
      exact ⟨hcopy.singular, hcopy.plural, hcopy.pattern, hcopy.schema⟩
    · have hfor := methodsFor_custom hs hw doc hr hm c.singular
      rw [methodsFor_of_contribution hcon, if_pos rfl] at hfor
      cases hfor
  · exact ⟨hcopied.copies, hcopied.distinct⟩
  · exact ⟨hcopied.copies, hcopied.distinct⟩

theorem Copied.attach {pattern : String} {methods : List CustomMethod} {u : PUnit}
    (hcopied : Copied g s) (h : Survey.attach pattern methods s = .ok u s') : Copied g s' := by
  rcases attach_cases h with ⟨id, -, rfl⟩ | ⟨-, notes, rfl⟩
  · refine hcopied.changed id (fun r q hcopy => ?_) fun _ => rfl
    exact ⟨hcopy.singular, hcopy.plural, hcopy.pattern, hcopy.schema⟩
  · exact ⟨hcopied.copies, hcopied.distinct⟩

/-- **What is found in a written document are copies**, each once. -/
theorem copied_of_resources (hs : g.Sound) (hw : g.Writable) {g' : ResourceGraph}
    (h : (g.annotated doc).resources none "" = .ok g') :
    (∀ q ∈ g'.resources, ∃ r ∈ g.resources, IsCopy g r q) ∧
      (g'.resources.map Resource.singular).Nodup := by
  obtain ⟨s, ⟨-, -, hcopied⟩, hr, -⟩ := exists_survey_of_resources h
    (P := fun _ s => Consistent (g.annotated doc) s ∧ Sound s ∧ Copied g s)
    ⟨.empty _, .empty, fun _ hq => absurd hq List.not_mem_nil, List.nodup_nil⟩
    (fun _ he _ _ _ hv ⟨hc, hsound, hcopied⟩ =>
      ⟨hc.visit hv, hsound.visit hc hv, hcopied.visit hs hw he hc hsound hv⟩)
    fun _ _ _ _ ha ⟨hc, hsound, hcopied⟩ => ⟨hc.attach ha, hsound.attach ha, hcopied.attach ha⟩
  rw [hr]
  exact ⟨hcopied.copies, hcopied.distinct⟩

end Annotated
end ResourceCli
