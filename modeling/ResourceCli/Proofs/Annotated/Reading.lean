import ResourceCli.Proofs.Annotated.Paths

/-!
# What a written document says

Each operation of a written document is read back as what it was written from.  A reference to the
component of a resource is followed to the schema of the resource with its declaration; the path of
all resources of a kind contributes listing and creating, the path of one resource contributes
getting, changing and deleting, and the path of a named method declares that method.

* `contribution_collection`, `contribution_item`, `customFor_custom`: the three kinds of paths.
* `foldl_methods_pathsOf`, `filterMap_customs_pathsOf`: the paths of one resource taken together
  contribute exactly its methods, to its own name and for its own pattern.
-/

namespace ResourceCli

@[simp] theorem Schema.reference_retarget (s : Schema) :
    s.retarget.reference = s.reference.map fun r => componentReference (referenceName r) := by
  cases s
  rfl

theorem referenceName_componentReference {name : String} (h : '/' ∉ name.toList) :
    referenceName (componentReference name) = name := by
  have hchars : (componentReference name).toList =
      "#/components/schemas".toList ++ '/' :: name.toList := by
    unfold componentReference
    simp
  unfold referenceName
  rw [hchars, Text.cutLast_append _ h]
  exact String.ofList_toList

/-- The named method with all references turned. -/
def CustomMethod.retarget (m : CustomMethod) : CustomMethod :=
  { m with
    request := m.request.map Schema.retarget
    response := m.response.map Schema.retarget }

namespace Annotated

variable {g : ResourceGraph} {doc : Document} {r : Resource}

theorem resourceSingular_resourceSchema :
    resourceSingular r.singular (resourceSchema g r) = r.singular := by
  show (if r.singular == "" then Text.kebabCase r.singular else r.singular) = r.singular
  split
  · rename_i he
    rw [beq_iff_eq.1 he, Text.kebabCase_empty]
  · rfl

theorem reference_resourceSchema (h : r.schema.reference = none) :
    (resourceSchema g r).reference = none := by
  show r.schema.retarget.reference = none
  rw [Schema.reference_retarget, h, Option.map_none]

/-- A reference that was not met before leads on to its component. -/
theorem follow_of_reference {seen : List String} {s next : Schema} {reference : String} {hops : Nat}
    (h : s.reference = some reference) (hseen : reference ∉ seen)
    (hnext : doc.component? (referenceName reference) = some next) :
    doc.follow seen s (hops + 1) = doc.follow (reference :: seen) next hops := by
  rw [Document.follow, h]
  dsimp only
  rw [if_neg (by simpa using hseen), hnext]

/-- A reference to the component of a resource stands for the schema of the resource. -/
theorem resolveSchema_componentRef (hs : g.Sound) (hw : g.Writable) (hr : r ∈ g.resources) :
    (g.annotated doc).resolveSchema (componentRef r.singular) = .ok (resourceSchema g r) := by
  have hname := referenceName_componentReference (hw.slashless r hr)
  have hfollow : (g.annotated doc).follow [] (componentRef r.singular) Document.maxHops =
      .ok (resourceSchema g r) := by
    have hcomponent : (g.annotated doc).component? r.singular = some (resourceSchema g r) :=
      hs.component_annotated hw hr
    rw [← hname] at hcomponent
    rw [show Document.maxHops = 30 + 1 + 1 from rfl,
      follow_of_reference rfl List.not_mem_nil hcomponent, Document.follow,
      reference_resourceSchema (hs.wellMade r hr).reference]
  rw [Document.resolveSchema, Document.dereference, hfollow]
  rfl

/-! ## Operations -/

theorem successSchema_operation (summary : String) (parameters : List Parameter)
    (requestBody : Option RequestBody) (answer : Option Schema) :
    (g.annotated doc).successSchema? (operation summary parameters requestBody answer) =
      answer := by
  cases answer with
  | none => rfl
  | some s => rfl

theorem requestSchema_operation (summary : String) (parameters : List Parameter)
    (request answer : Option Schema) :
    (g.annotated doc).requestSchema?
      (operation summary parameters (request.map (body jsonMedia)) answer) = request := by
  cases request with
  | none => rfl
  | some s => rfl

theorem hasQueryParameter_createOperation (create : CreateMethod) :
    (createOperation r create).hasQueryParameter "id" = create.userSettableId := by
  have hpath : (pathParameters r.collectionSegments).any
      (fun p => p.name == "id" && p.location == "query") = false := by
    unfold pathParameters
    rw [List.any_map, List.any_eq_false]
    intro name _
    simp [Function.comp]
  show (pathParameters r.collectionSegments ++
    if create.userSettableId then [idParameter] else []).any _ = _
  rw [List.any_append, hpath, Bool.false_or]
  cases create.userSettableId <;> rfl

theorem scan_resourceItem :
    (g.annotated doc).scan .item (resourceItem r) = .ok {
      methods := {
        get := r.methods.get, update := r.methods.update, delete := r.methods.delete }
      schema := if r.methods.get || r.methods.update then some (componentRef r.singular)
        else none } := by
  show Except.ok ((g.annotated doc).scanItem (resourceItem r)) = _
  unfold Document.scanItem resourceItem
  cases r.methods.get <;> cases r.methods.update <;> cases r.methods.delete <;> rfl

theorem created_collectionItem :
    ((collectionItem r).post.bind fun op => ((g.annotated doc).successSchema? op).map fun s =>
      (CreateMethod.mk (op.hasQueryParameter "id"), s)) =
    r.methods.create.map fun create => (create, componentRef r.singular) := by
  unfold collectionItem
  cases r.methods.create with
  | none => rfl
  | some create =>
    have hanswer : (g.annotated doc).successSchema? (createOperation r create) =
        some (componentRef r.singular) := successSchema_operation _ _ _ _
    rw [Option.map_some, Option.bind_some, hanswer, Option.map_some,
      hasQueryParameter_createOperation, Option.map_some]

theorem scan_collectionItem (h : (r.methods.list || r.methods.create.isSome) = true) :
    (g.annotated doc).scan .collection (collectionItem r) = .ok {
      methods := { list := r.methods.list, create := r.methods.create }
      schema := some (componentRef r.singular) } := by
  show (g.annotated doc).scanCollection (collectionItem r) = _
  unfold Document.scanCollection
  dsimp only
  rw [created_collectionItem]
  have hlist : (collectionItem r).get.bind (g.annotated doc).successSchema? =
      if r.methods.list then some (listEnvelope r.singular) else none := by
    unfold collectionItem
    cases r.methods.list <;> rfl
  rw [hlist]
  cases hl : r.methods.list with
  | false =>
    cases hc : r.methods.create with
    | none => simp [hl, hc] at h
    | some create => rfl
  | true =>
    have henvelope : (g.annotated doc).resolveSchema (listEnvelope r.singular) =
        .ok (listEnvelope r.singular) := Document.resolveSchema_of_reference_eq_none rfl
    simp only [if_true]
    rw [henvelope]
    cases hc : r.methods.create with
    | none => rfl
    | some create => rfl

/-! ## What the paths of a resource contribute -/

theorem contributionOf_componentRef (hs : g.Sound) (hw : g.Writable) (hr : r ∈ g.resources)
    (kind : PathKind) (pattern : List String) (methods : Methods) :
    (g.annotated doc).contributionOf? kind pattern methods (componentRef r.singular) =
      some ⟨r.singular, pattern, resourceSchema g r, methods⟩ := by
  unfold Document.contributionOf?
  have hreference : (componentRef r.singular).reference =
      some (componentReference r.singular) := rfl
  rw [hreference]
  dsimp only
  rw [resolveSchema_componentRef hs hw hr,
    referenceName_componentReference (hw.slashless r hr)]
  have hdeclared : (resourceSchema g r).declared.isNone = false := rfl
  simp only [Except.toOption, Option.bind_eq_bind, Option.bind_some,
    resourceSingular_resourceSchema, hdeclared, Bool.and_false, Bool.false_eq_true, if_false]

@[simp] theorem surveyedPath_empty (path : String) : Document.surveyedPath "" path = path := by
  rw [Document.surveyedPath, Text.stripStart_empty, Option.getD_some]

theorem collectionPath_eq (r : Resource) :
    collectionPath r = pathText (r.collectionSegments, none) := by
  rw [collectionPath, pathText]

theorem itemPath_eq (r : Resource) : itemPath r = pathText (r.pattern, none) := by
  rw [itemPath, pathText, Resource.patternPath]

theorem customPath_eq (r : Resource) (name : String) :
    itemPath r ++ ":" ++ name = pathText (r.pattern, some name) := by
  rw [itemPath, pathText, Resource.patternPath]

theorem splitCustomMethod_collectionPath (hs : g.Sound) (hw : g.Writable) (hr : r ∈ g.resources)
    (hm : (r.methods.list || r.methods.create.isSome) = true) :
    splitCustomMethod? (collectionPath r) = none := by
  have hplace : (r.collectionSegments, none) ∈ placesOf r := mem_placesOf_iff.2 (.inl ⟨rfl, hm⟩)
  rw [collectionPath_eq, splitCustomMethod_pathText (hs.legible hw hr hplace), Option.map_none]

theorem splitCustomMethod_itemPath (hs : g.Sound) (hw : g.Writable) (hr : r ∈ g.resources)
    (hm : (r.methods.get || r.methods.update || r.methods.delete) = true) :
    splitCustomMethod? (itemPath r) = none := by
  have hplace : (r.pattern, none) ∈ placesOf r := mem_placesOf_iff.2 (.inr (.inl ⟨rfl, hm⟩))
  rw [itemPath_eq, splitCustomMethod_pathText (hs.legible hw hr hplace), Option.map_none]

theorem splitCustomMethod_customPath (hs : g.Sound) (hw : g.Writable) (hr : r ∈ g.resources)
    {m : CustomMethod} (hm : m ∈ r.customs) :
    splitCustomMethod? (itemPath r ++ ":" ++ m.name) = some (r.patternPath, m.name) := by
  have hplace : (r.pattern, some m.name) ∈ placesOf r :=
    mem_placesOf_iff.2 (.inr (.inr ⟨m, hm, rfl⟩))
  rw [customPath_eq, splitCustomMethod_pathText (hs.legible hw hr hplace), Option.map_some,
    Resource.patternPath]

/-- **The path of all resources of a kind** contributes listing and creating. -/
theorem contribution_collection (hs : g.Sound) (hw : g.Writable) (hr : r ∈ g.resources)
    (hm : (r.methods.list || r.methods.create.isSome) = true) :
    (g.annotated doc).contribution? "" (collectionPath r, collectionItem r) =
      some ⟨r.singular, r.collectionSegments, resourceSchema g r,
        { list := r.methods.list, create := r.methods.create }⟩ := by
  have hplace : (r.collectionSegments, none) ∈ placesOf r := mem_placesOf_iff.2 (.inl ⟨rfl, hm⟩)
  have hitem := hw.shaped r hr (fst_of_mem_placesOf hplace).1
  have hclass : classify? (collectionPath r) = some (r.collectionSegments, .collection) := by
    rw [collectionPath, Resource.collectionSegments, hitem.classify_collection (hs.plain hw hr)]
  unfold Document.contribution?
  simp only [surveyedPath_empty, splitCustomMethod_collectionPath hs hw hr hm, hclass,
    Option.bind_eq_bind, Option.bind_some, scan_collectionItem hm, Except.toOption,
    contributionOf_componentRef hs hw hr]

/-- **The path of one resource** contributes getting, changing and deleting. -/
theorem contribution_item (hs : g.Sound) (hw : g.Writable) (hr : r ∈ g.resources)
    (hm : (r.methods.get || r.methods.update || r.methods.delete) = true) :
    (g.annotated doc).contribution? "" (itemPath r, resourceItem r) =
      some ⟨r.singular, r.pattern, resourceSchema g r,
        { get := r.methods.get, update := r.methods.update, delete := r.methods.delete }⟩ := by
  have hplace : (r.pattern, none) ∈ placesOf r := mem_placesOf_iff.2 (.inr (.inl ⟨rfl, hm⟩))
  have hitem := hw.shaped r hr (fst_of_mem_placesOf hplace).1
  have hclass : classify? (itemPath r) = some (r.pattern, .item) := by
    rw [itemPath, Resource.patternPath, hitem.classify_item (hs.plain hw hr)]
  have hgot : (r.methods.get || r.methods.update) = true := by
    rw [Bool.or_eq_true, Bool.or_eq_true] at hm
    rw [Bool.or_eq_true]
    exact hm.elim id (hs.wellMade r hr).deletable
  unfold Document.contribution?
  simp only [surveyedPath_empty, splitCustomMethod_itemPath hs hw hr hm, hclass,
    Option.bind_eq_bind, Option.bind_some, scan_resourceItem, hgot, if_true, Except.toOption,
    contributionOf_componentRef hs hw hr]

/-- The path of a named method declares one operation, under the verb of the method. -/
theorem keptVerb_customItem {m : CustomMethod} (hm : m.WellMade) :
    ∃ verb : Verb, m.verb = verb.name ∧ (m.request.isSome = true → verb = .post) ∧
      Document.keptVerb? (customItem r m) = some (verb, customOperation r m) := by
  obtain ⟨verb, hv, hpost⟩ := hm.verb
  refine ⟨verb, hv, hpost, ?_⟩
  unfold customItem
  rw [hv]
  cases verb <;> rfl

theorem resolveSchema?_retarget {s? : Option Schema} (h : ∀ s ∈ s?, s.reference = none) :
    (g.annotated doc).resolveSchema? (s?.map Schema.retarget) = .ok (s?.map Schema.retarget) := by
  rw [Document.resolveSchema?_ok_iff]
  cases s? with
  | none => exact .inl ⟨rfl, rfl⟩
  | some s =>
    refine .inr ⟨s.retarget, s.retarget, rfl, rfl, ?_⟩
    refine Document.resolveSchema_of_reference_eq_none ?_
    rw [Schema.reference_retarget, h s rfl, Option.map_none]

/-- **The path of a named method** declares that method, with all references turned. -/
theorem customMethod_customItem {m : CustomMethod} (hm : m.WellMade) :
    (g.annotated doc).customMethod? (customItem r m) m.name = .ok (some m.retarget) := by
  obtain ⟨verb, hv, hpost, hkept⟩ := keptVerb_customItem (r := r) hm
  have hrequest : (if verb == .post then (g.annotated doc).requestSchema? (customOperation r m)
      else none) = m.request.map Schema.retarget := by
    split
    · have hmap : (m.request.map fun s => body jsonMedia s.retarget) =
          (m.request.map Schema.retarget).map (body jsonMedia) := by
        rw [Option.map_map]
        rfl
      rw [customOperation, hmap, requestSchema_operation]
    · rename_i hne
      cases hq : m.request with
      | none => rfl
      | some s =>
        rw [hq] at hpost
        exact absurd (beq_iff_eq.2 (hpost rfl)) hne
  have hanswer : (g.annotated doc).successSchema? (customOperation r m) =
      m.response.map Schema.retarget := successSchema_operation _ _ _ _
  unfold Document.customMethod?
  rw [hkept]
  dsimp only
  rw [hrequest, hanswer, resolveSchema?_retarget hm.request, resolveSchema?_retarget hm.response,
    ← hv]
  rfl

/-! ## All paths together -/

/-- The methods that a resource's own paths contribute: those of the two paths that it can have. -/
def offeredBy (m : Methods) : List Methods :=
  (if m.list || m.create.isSome then [{ list := m.list, create := m.create }] else []) ++
  (if m.get || m.update || m.delete then
    [{ get := m.get, update := m.update, delete := m.delete }]
  else [])

theorem foldl_offeredBy (m : Methods) : (offeredBy m).foldl Methods.fold {} = m := by
  obtain ⟨get, list, create, update, delete⟩ := m
  cases get <;> cases list <;> cases create <;> cases update <;> cases delete <;> rfl

theorem methodsFor_of_contribution {entry : String × PathItem} {c : Contribution}
    (h : (g.annotated doc).contribution? "" entry = some c) (name : String) :
    (g.annotated doc).methodsFor "" name entry =
      if c.singular = name then some c.methods else none := by
  rw [Document.methodsFor, h, Option.bind_some]

theorem methodsFor_custom (hs : g.Sound) (hw : g.Writable) (doc : Document)
    (hr : r ∈ g.resources) {m : CustomMethod} (hm : m ∈ r.customs) (name : String) :
    (g.annotated doc).methodsFor "" name (itemPath r ++ ":" ++ m.name, customItem r m) = none := by
  unfold Document.methodsFor Document.contribution?
  simp only [surveyedPath_empty, splitCustomMethod_customPath hs hw hr hm, Option.bind_none]

theorem filterMap_methodsFor_pathsOf (hs : g.Sound) (hw : g.Writable) (hr : r ∈ g.resources)
    (name : String) :
    (pathsOf r).filterMap ((g.annotated doc).methodsFor "" name) =
      if r.singular = name then offeredBy r.methods else [] := by
  have hcustoms : (r.customs.map fun m => (itemPath r ++ ":" ++ m.name, customItem r m)).filterMap
      ((g.annotated doc).methodsFor "" name) = [] := by
    rw [List.filterMap_eq_nil_iff]
    intro entry he
    obtain ⟨m, hm, rfl⟩ := List.mem_map.1 he
    exact methodsFor_custom hs hw doc hr hm name
  unfold pathsOf offeredBy
  rw [List.filterMap_append, List.filterMap_append, hcustoms, List.append_nil]
  by_cases hn : r.singular = name
  · rw [if_pos hn]
    congr 1
    · split
      · rename_i hm
        rw [List.filterMap_cons, methodsFor_of_contribution (contribution_collection hs hw hr hm),
          if_pos hn, List.filterMap_nil]
      · rfl
    · split
      · rename_i hm
        rw [List.filterMap_cons, methodsFor_of_contribution (contribution_item hs hw hr hm),
          if_pos hn, List.filterMap_nil]
      · rfl
  · rw [if_neg hn, List.append_eq_nil_iff]
    constructor
    · split
      · rename_i hm
        rw [List.filterMap_cons, methodsFor_of_contribution (contribution_collection hs hw hr hm),
          if_neg hn, List.filterMap_nil]
      · rfl
    · split
      · rename_i hm
        rw [List.filterMap_cons, methodsFor_of_contribution (contribution_item hs hw hr hm),
          if_neg hn, List.filterMap_nil]
      · rfl

theorem filterMap_customFor_pathsOf (hs : g.Sound) (hw : g.Writable) (hr : r ∈ g.resources)
    (pattern : String) :
    (pathsOf r).filterMap ((g.annotated doc).customFor "" pattern) =
      if r.patternPath = pattern then r.customs.map CustomMethod.retarget else [] := by
  have hrest : ∀ (b : Bool) (path : String) (item : PathItem),
      (b = true → splitCustomMethod? path = none) →
      (if b then [(path, item)] else []).filterMap ((g.annotated doc).customFor "" pattern) =
        [] := by
    intro b path item h
    cases b with
    | false => rfl
    | true =>
      rw [if_pos rfl, List.filterMap_cons,
        Document.customFor_eq_none (by rw [surveyedPath_empty, h rfl]), List.filterMap_nil]
  unfold pathsOf
  rw [List.filterMap_append, List.filterMap_append,
    hrest _ _ _ (splitCustomMethod_collectionPath hs hw hr),
    hrest _ _ _ (splitCustomMethod_itemPath hs hw hr), List.nil_append, List.nil_append,
    List.filterMap_map]
  have hfor : ∀ m ∈ r.customs,
      (g.annotated doc).customFor "" pattern (itemPath r ++ ":" ++ m.name, customItem r m) =
        if r.patternPath = pattern then some m.retarget else none := by
    intro m hm
    have hcut := splitCustomMethod_customPath hs hw hr hm
    rw [← surveyedPath_empty (itemPath r ++ ":" ++ m.name)] at hcut
    exact Document.customFor_of_split hcut (customMethod_customItem (hs.customs r hr m hm))
  unfold Function.comp
  rw [List.filterMap_congr hfor]
  split
  · rw [← List.filterMap_eq_map]
    rfl
  · exact List.filterMap_eq_nil_iff.2 fun _ _ => rfl

/-- Of lists put together all but one are empty. -/
theorem flatMap_eq_of_mem {α β : Type} {l : List α} {f : α → List β} {a : α} (hn : l.Nodup)
    (ha : a ∈ l) (h : ∀ b ∈ l, b ≠ a → f b = []) : l.flatMap f = f a := by
  induction l with
  | nil => cases ha
  | cons b l ih =>
    rw [List.nodup_cons] at hn
    rw [List.flatMap_cons]
    rcases List.mem_cons.1 ha with rfl | ha
    · have hrest : l.flatMap f = [] := by
        rw [List.flatMap_eq_nil_iff]
        intro b hb
        refine h b (List.mem_cons_of_mem _ hb) ?_
        rintro rfl
        exact hn.1 hb
      rw [hrest, List.append_nil]
    · have hb : b ≠ a := by
        rintro rfl
        exact hn.1 ha
      rw [h b List.mem_cons_self hb, List.nil_append,
        ih hn.2 ha fun c hc => h c (List.mem_cons_of_mem _ hc)]

/-- What entries of the written paths give for one resource alone is what the paths of that resource
give. -/
theorem filterMap_annotatedPaths {β : Type} (hs : g.Sound) (hw : g.Writable)
    (hr : r ∈ g.resources) {f : String × PathItem → Option β}
    (h : ∀ q ∈ g.resources, q.pattern ≠ [] → q ≠ r → (pathsOf q).filterMap f = []) :
    (g.annotated doc).paths.filterMap f =
      if r.pattern.isEmpty then [] else (pathsOf r).filterMap f := by
  show g.annotatedPaths.filterMap f = _
  rw [hs.annotatedPaths_eq hw, List.filterMap_flatMap]
  rw [flatMap_eq_of_mem (a := r) (List.Nodup.of_map _ hs.nodup_ordered)
    ((hs.mem_ordered hw).2 hr) fun q hq hne => ?_]
  · split <;> rfl
  · split
    · rfl
    · rename_i hqp
      exact h q ((hs.mem_ordered hw).1 hq) (fun he => hqp (List.isEmpty_iff.2 he)) hne

/-- **The written paths contribute to a name** exactly the methods of the resource of that name. -/
theorem foldl_methodsFor_annotated (hs : g.Sound) (hw : g.Writable) (hr : r ∈ g.resources) :
    ((g.annotated doc).paths.filterMap
      ((g.annotated doc).methodsFor "" r.singular)).foldl Methods.fold {} = r.methods := by
  rw [filterMap_annotatedPaths hs hw hr]
  · split
    · rename_i hp
      by_contra hne
      exact (hw.shaped r hr (.inl (Ne.symm hne))).ne_nil (List.isEmpty_iff.1 hp)
    · rw [filterMap_methodsFor_pathsOf hs hw hr, if_pos rfl, foldl_offeredBy]
  · intro q hq _ hne
    rw [filterMap_methodsFor_pathsOf hs hw hq, if_neg]
    exact fun hn => hne (ResourceGraph.eq_of_singular hw hq hr hn)

/-- Resources with the same pattern are the same, unless the pattern is empty. -/
theorem eq_of_patternPath (hs : g.Sound) (hw : g.Writable) {q : Resource} (hr : r ∈ g.resources)
    (hq : q ∈ g.resources) (hne : q.pattern ≠ []) (hp : q.patternPath = r.patternPath) :
    q = r := by
  have hpattern : q.pattern = r.pattern :=
    (hs.plain hw hq).join_inj (hs.plain hw hr) hp
  exact ResourceGraph.eq_of_collectionSegments hw hq hr hne (hpattern ▸ hne)
    (congrArg List.dropLast hpattern)

/-- **The written paths declare for a pattern** exactly the named methods of the resource of that
pattern, with all references turned. -/
theorem customsFor_annotated (hs : g.Sound) (hw : g.Writable) (hr : r ∈ g.resources) :
    (g.annotated doc).customsFor "" r.patternPath (g.annotated doc).paths =
      r.customs.map CustomMethod.retarget := by
  have hlist : (g.annotated doc).paths.filterMap
      ((g.annotated doc).customFor "" r.patternPath) = r.customs.map CustomMethod.retarget := by
    rw [filterMap_annotatedPaths hs hw hr]
    · split
      · rename_i hp
        have hnone : r.customs = [] := by
          by_contra hne
          exact (hw.shaped r hr (.inr hne)).ne_nil (List.isEmpty_iff.1 hp)
        rw [hnone, List.map_nil]
      · rw [filterMap_customFor_pathsOf hs hw hr, if_pos rfl]
    · intro q hq hqp hne
      rw [filterMap_customFor_pathsOf hs hw hq, if_neg]
      exact fun hp => hne (eq_of_patternPath hs hw hr hq hqp hp)
  rw [Document.customsFor, hlist, foldl_keep_of_nodup, List.nil_append]
  rw [List.nil_append, List.map_map]
  exact hs.named r hr

end Annotated
end ResourceCli
