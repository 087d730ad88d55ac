import ResourceCli.Proofs.Survey.Provenance

/-!
# Where the named methods of a resource come from

A path with a method name is kept under the pattern before its colon until all resources are known.
Then the methods kept for a pattern go to the first resource that has it.  So what named methods a
resource has is said by the paths alone: they are those that the paths declare for its pattern, in
the order of the paths, the first of each name (`resources_customs`).

* `Retained`: what is kept after a stretch of paths.
* `getElem?_of_attached`: what attaching does to each resource, all patterns taken together.
* `customMethod_cases`: what a named method is made of.
-/

namespace ResourceCli

/-! ## The methods kept for one pattern -/

/-- One more method, unless there is one of its name. -/
def keep (methods : List CustomMethod) (m : CustomMethod) : List CustomMethod :=
  if methods.any fun k => k.name == m.name then methods else methods ++ [m]

theorem keep_of_mem {methods : List CustomMethod} {m : CustomMethod}
    (h : m.name ∈ methods.map CustomMethod.name) : keep methods m = methods := by
  obtain ⟨m', hm', hn⟩ := List.mem_map.1 h
  rw [keep, if_pos]
  exact List.any_eq_true.2 ⟨m', hm', beq_of_eq hn⟩

theorem keep_of_notMem {methods : List CustomMethod} {m : CustomMethod}
    (h : m.name ∉ methods.map CustomMethod.name) : keep methods m = methods ++ [m] := by
  refine if_neg fun hany => h ?_
  obtain ⟨m', hm', hn⟩ := List.any_eq_true.1 hany
  exact List.mem_map.2 ⟨m', hm', eq_of_beq hn⟩

/-- The names of kept methods are distinct. -/
theorem nodup_foldl_keep (l : List CustomMethod) {methods : List CustomMethod}
    (h : (methods.map CustomMethod.name).Nodup) :
    ((l.foldl keep methods).map CustomMethod.name).Nodup := by
  induction l generalizing methods with
  | nil => exact h
  | cons m l ih =>
    rw [List.foldl_cons]
    refine ih ?_
    by_cases hm : m.name ∈ methods.map CustomMethod.name
    · rw [keep_of_mem hm]
      exact h
    · rw [keep_of_notMem hm, List.map_append, List.nodup_append]
      refine ⟨h, List.nodup_singleton _, ?_⟩
      rintro n hn _ hn' rfl
      have hname : n = m.name := List.mem_singleton.1 hn'
      exact hm (hname ▸ hn)

/-- A kept method is one of those that were offered. -/
theorem mem_of_mem_foldl_keep {l methods : List CustomMethod} {m : CustomMethod}
    (h : m ∈ l.foldl keep methods) : m ∈ methods ∨ m ∈ l := by
  induction l generalizing methods with
  | nil => exact .inl h
  | cons m' l ih =>
    rw [List.foldl_cons] at h
    rcases ih h with h | h
    · by_cases hm : m'.name ∈ methods.map CustomMethod.name
      · rw [keep_of_mem hm] at h
        exact .inl h
      · rw [keep_of_notMem hm] at h
        rcases List.mem_append.1 h with h | h
        · exact .inl h
        · exact .inr (List.mem_cons.2 (.inl (List.mem_singleton.1 h)))
    · exact .inr (List.mem_cons_of_mem _ h)

/-- Of every name that was offered, a method is kept. -/
theorem exists_mem_foldl_keep {l methods : List CustomMethod} {m : CustomMethod}
    (h : m ∈ methods ∨ m ∈ l) : ∃ m' ∈ l.foldl keep methods, m'.name = m.name := by
  induction l generalizing methods m with
  | nil => exact ⟨m, h.resolve_right List.not_mem_nil, rfl⟩
  | cons k l ih =>
    rw [List.foldl_cons]
    have hmem : m ∈ methods ∨ m = k ∨ m ∈ l := h.imp_right List.mem_cons.1
    by_cases hk : k.name ∈ methods.map CustomMethod.name
    · rw [keep_of_mem hk]
      rcases hmem with hm | rfl | hm
      · exact ih (.inl hm)
      · obtain ⟨m', hm', hn⟩ := List.mem_map.1 hk
        obtain ⟨m'', hm'', hn'⟩ := ih (.inl hm')
        exact ⟨m'', hm'', hn'.trans hn⟩
      · exact ih (.inr hm)
    · rw [keep_of_notMem hk]
      rcases hmem with hm | rfl | hm
      · exact ih (.inl (List.mem_append_left _ hm))
      · exact ih (.inl (List.mem_append_right _ (List.mem_singleton.2 rfl)))
      · exact ih (.inr hm)

/-- Methods with distinct names are all kept. -/
theorem foldl_keep_of_nodup {l methods : List CustomMethod}
    (h : ((methods ++ l).map CustomMethod.name).Nodup) : l.foldl keep methods = methods ++ l := by
  induction l generalizing methods with
  | nil => exact (List.append_nil _).symm
  | cons m l ih =>
    have hm : m.name ∉ methods.map CustomMethod.name := by
      intro hm
      rw [List.map_append, List.nodup_append] at h
      exact h.2.2 _ hm _ (List.mem_map_of_mem List.mem_cons_self) rfl
    rw [List.append_cons] at h
    rw [List.foldl_cons, keep_of_notMem hm, ih h, List.append_assoc, List.singleton_append]

namespace Document

variable (doc : Document) (start pattern : String)

/-- The method that an entry of the paths declares for a pattern. -/
def customFor (entry : String × PathItem) : Option CustomMethod :=
  match splitCustomMethod? (surveyedPath start entry.1) with
  | none => none
  | some (p, name) =>
    if p = pattern then (doc.customMethod? entry.2 name).toOption.join else none

/-- The methods that the paths declare for a pattern, the first of each name. -/
def customsFor (paths : List (String × PathItem)) : List CustomMethod :=
  (paths.filterMap (doc.customFor start pattern)).foldl keep []

variable {doc start pattern} {entry : String × PathItem}

theorem customFor_eq_none (h : splitCustomMethod? (surveyedPath start entry.1) = none) :
    doc.customFor start pattern entry = none := by
  rw [customFor, h]

theorem customFor_of_split {p name : String} {m? : Option CustomMethod}
    (h : splitCustomMethod? (surveyedPath start entry.1) = some (p, name))
    (hm : doc.customMethod? entry.2 name = .ok m?) :
    doc.customFor start pattern entry = if p = pattern then m? else none := by
  rw [customFor, h]
  dsimp only
  rw [hm]
  rfl

/-- One more path adds what it declares for the pattern, if that has a new name. -/
theorem customsFor_concat (paths : List (String × PathItem)) :
    doc.customsFor start pattern (paths ++ [entry]) =
      (doc.customFor start pattern entry).elim (doc.customsFor start pattern paths)
        (keep (doc.customsFor start pattern paths)) := by
  rw [customsFor, List.filterMap_append, List.foldl_append, List.filterMap_cons,
    List.filterMap_nil]
  cases doc.customFor start pattern entry <;> rfl

end Document

namespace Survey

variable {doc : Document} {start : String} {s s₁ s' : Survey}

theorem lookup_keeping (pattern : String) (m : CustomMethod)
    (customs : List (String × List CustomMethod)) (p : String) :
    ((keeping pattern m customs).lookup p).getD [] =
      if pattern = p then keep ((customs.lookup p).getD []) m
      else (customs.lookup p).getD [] := by
  unfold keeping keep
  by_cases hp : pattern = p
  · subst hp
    rw [if_pos rfl]
    cases hany : ((customs.lookup pattern).getD []).any (·.name == m.name) with
    | true => simp only [hany, if_true]
    | false =>
      simp only [hany, Bool.false_eq_true, if_false]
      rw [lookup_insert, if_pos rfl, Option.getD_some]
  · rw [if_neg hp]
    dsimp only
    split
    · rfl
    · rw [lookup_insert, if_neg (Ne.symm hp)]

theorem nodup_keys_keeping {customs : List (String × List CustomMethod)}
    (h : (keys customs).Nodup) (pattern : String) (m : CustomMethod) :
    (keys (keeping pattern m customs)).Nodup := by
  unfold keeping
  dsimp only
  split
  · exact h
  · exact nodup_keys_insert h _ _

/-- After a stretch of paths, the methods kept for each pattern are those that the paths declare for
it, and no resource has any yet. -/
structure Retained (doc : Document) (start : String) (paths : List (String × PathItem))
    (s : Survey) : Prop where
  /-- No pattern is there twice. -/
  distinct : (keys s.customs).Nodup
  /-- What is kept for a pattern. -/
  kept : ∀ p, (s.customs.lookup p).getD [] = doc.customsFor start p paths
  /-- No resource has methods with names. -/
  unattached : ∀ r ∈ s.resources, r.customs = []

namespace Retained

theorem empty (doc : Document) (start : String) : Retained doc start [] {} :=
  ⟨List.nodup_nil, fun _ => rfl, fun _ hr => absurd hr List.not_mem_nil⟩

theorem unattached_changed (id : Nat) {f : Resource → Resource}
    (hf : ∀ r, (f r).customs = r.customs) (h : ∀ r ∈ s.resources, r.customs = []) :
    ∀ r ∈ (s.changed id f).resources, r.customs = [] := by
  intro r hr
  obtain ⟨i, hi⟩ := List.mem_iff_getElem?.1 hr
  obtain ⟨r₀, hr₀, hsame⟩ := exists_of_changed hi
  rw [hsame _ hf]
  exact h r₀ (List.mem_of_getElem? hr₀)

/-- Populating adds no methods with names. -/
theorem populate {pending : List String} {singular : String} {pattern : List String}
    {schema : Schema} {id : Nat} (h : Succeeds doc pending singular pattern schema s id s')
    (hs : ∀ r ∈ s.resources, r.customs = []) :
    s'.customs = s.customs ∧ ∀ r ∈ s'.resources, r.customs = [] := by
  rcases h.grown with hg | ⟨-, rfl⟩
  · obtain ⟨new, hn, hb⟩ := hg.appended
    refine ⟨hg.customs, fun r hr => ?_⟩
    rw [hn] at hr
    rcases List.mem_append.1 hr with hr | hr
    · exact hs r hr
    · exact (hb r hr).2
  · refine ⟨rfl, unattached_changed id (fun r => ?_) hs⟩
    unfold Resource.withPattern
    split <;> rfl

/-- A path without the name of a method keeps none. -/
theorem visit_other {entry : String × PathItem} {u : PUnit}
    (hp : splitCustomMethod? (Document.surveyedPath start entry.1) = none)
    (hs : ∀ r ∈ s.resources, r.customs = [])
    (h : Survey.visit doc start entry.1 entry.2 s = .ok u s') :
    s'.customs = s.customs ∧ ∀ r ∈ s'.resources, r.customs = [] := by
  rcases visit_cases h with ⟨c, notes, id, s₁, -, hpop, rfl⟩ |
    ⟨-, ⟨notes, rfl⟩ | ⟨pattern, name, m, notes, hp', -, -⟩⟩
  · obtain ⟨hc, hb⟩ := populate hpop hs
    exact ⟨hc, unattached_changed id (fun _ => rfl) hb⟩
  · exact ⟨rfl, hs⟩
  · cases hp.symm.trans hp'

/-- **A path keeps at most its own method.** -/
theorem visit {paths : List (String × PathItem)} {entry : String × PathItem} {u : PUnit}
    (hs : Retained doc start paths s) (h : visit doc start entry.1 entry.2 s = .ok u s') :
    Retained doc start (paths ++ [entry]) s' := by
  cases hp : splitCustomMethod? (Document.surveyedPath start entry.1) with
  | some p =>
    obtain ⟨pattern, name⟩ := p
    obtain ⟨notes, hv⟩ := visit_custom hp doc entry.2 s
    obtain ⟨m?, hm, rfl⟩ := (hv u s').1 h
    cases m? with
    | none =>
      refine ⟨hs.distinct, fun p => ?_, hs.unattached⟩
      rw [Document.customsFor_concat, Document.customFor_of_split hp hm, ite_self]
      exact hs.kept p
    | some m =>
      refine ⟨nodup_keys_keeping hs.distinct pattern m, fun p => ?_, hs.unattached⟩
      show ((keeping pattern m s.customs).lookup p).getD [] = _
      rw [lookup_keeping, hs.kept, Document.customsFor_concat, Document.customFor_of_split hp hm]
      split <;> rfl
  | none =>
    obtain ⟨hcustoms, hunattached⟩ := visit_other hp hs.unattached h
    refine ⟨hcustoms ▸ hs.distinct, fun p => ?_, hunattached⟩
    rw [hcustoms, Document.customsFor_concat, Document.customFor_eq_none hp]
    exact hs.kept p

end Retained

/-! ## Attaching -/

/-- The patterns of the resources found so far. -/
def patterns (s : Survey) : List String := s.resources.map Resource.patternPath

theorem patterns_changed (s : Survey) (id : Nat) {f : Resource → Resource}
    (hf : ∀ r, (f r).patternPath = r.patternPath) : (s.changed id f).patterns = s.patterns := by
  refine List.ext_getElem? fun i => ?_
  unfold patterns
  rw [List.getElem?_map, List.getElem?_map, getElem?_changed, Option.map_map]
  congr 1
  funext r
  show Resource.patternPath (if id = i then f r else r) = r.patternPath
  split
  · exact hf r
  · rfl

theorem findIdx?_patternPath (s : Survey) (pattern : String) :
    s.resources.findIdx? (·.patternPath == pattern) = s.patterns.findIdx? (· == pattern) := by
  rw [patterns, List.findIdx?_map]
  rfl

theorem extendedBy_nil (r : Resource) : extendedBy [] r = r := by
  rw [extendedBy, List.append_nil]

/-- A resource once methods are attached: those kept for its pattern, if it is the first one that
has the pattern. -/
def furnished (patterns : List String) (buckets : List (String × List CustomMethod)) (i : Nat)
    (r : Resource) : Resource :=
  if patterns.findIdx? (· == r.patternPath) = some i then
    extendedBy ((buckets.lookup r.patternPath).getD []) r
  else r

theorem furnished_cons_of_ne {patterns : List String} {i : Nat} {r : Resource} {p : String}
    (h : r.patternPath ≠ p ∨ patterns.findIdx? (· == p) ≠ some i) (methods : List CustomMethod)
    (buckets : List (String × List CustomMethod)) :
    furnished patterns ((p, methods) :: buckets) i r = furnished patterns buckets i r := by
  unfold furnished
  split
  · rename_i hi
    have hp : r.patternPath ≠ p := by
      rintro rfl
      exact h.elim (fun hp => hp rfl) fun hp => hp hi
    rw [lookup_cons_of_ne hp]
  · rfl

theorem furnished_cons_self {patterns : List String} {i : Nat} {r : Resource}
    (hi : patterns.findIdx? (· == r.patternPath) = some i)
    {buckets : List (String × List CustomMethod)} (hb : buckets.lookup r.patternPath = none)
    (methods : List CustomMethod) :
    furnished patterns ((r.patternPath, methods) :: buckets) i r = extendedBy methods r ∧
      furnished patterns buckets i (extendedBy methods r) = extendedBy methods r := by
  have hp : (extendedBy methods r).patternPath = r.patternPath := rfl
  unfold furnished
  rw [hp, if_pos hi, if_pos hi, hb, List.lookup_cons_self, Option.getD_none, Option.getD_some,
    extendedBy_nil]
  exact ⟨rfl, rfl⟩

theorem patternPath_of_findIdx? {i : Nat} {r : Resource} {p : String}
    (h : s.patterns.findIdx? (· == p) = some i) (hr : s.resources[i]? = some r) :
    r.patternPath = p := by
  obtain ⟨hlt, hp, -⟩ := List.findIdx?_eq_some_iff_getElem.1 h
  have hget : s.patterns[i]? = some r.patternPath := by
    rw [patterns, List.getElem?_map, hr, Option.map_some]
  rw [List.getElem?_eq_getElem hlt, Option.some.injEq] at hget
  rw [← hget, beq_iff_eq.1 hp]

/-- **Attaching**: the first resource of a pattern gets the methods kept for it, and nothing else
changes. -/
theorem getElem?_of_attached {buckets : List (String × List CustomMethod)}
    (h : Walk (fun bucket s s' => attach bucket.1 bucket.2 s = .ok PUnit.unit s') buckets s s')
    (hn : (keys buckets).Nodup) (i : Nat) :
    s'.resources[i]? = s.resources[i]?.map (furnished s.patterns buckets i) := by
  induction h with
  | nil s =>
    have hf : furnished s.patterns [] i = id := by
      funext r
      unfold furnished
      split
      · exact extendedBy_nil r
      · rfl
    rw [hf, Option.map_id]
    rfl
  | @cons bucket buckets s s₁ s₂ h₁ _ ih =>
    obtain ⟨p, methods⟩ := bucket
    rw [keys_cons, List.nodup_cons] at hn
    have hrest : buckets.lookup p = none := lookup_eq_none_iff.2 hn.1
    rw [ih hn.2]
    rcases attach_cases h₁ with ⟨id, hid, rfl⟩ | ⟨hid, notes, rfl⟩
    · rw [findIdx?_patternPath] at hid
      rw [patterns_changed s id (f := extendedBy methods) fun _ => rfl, getElem?_changed,
        Option.map_map]
      cases hr : s.resources[i]? with
      | none => rfl
      | some r =>
        rw [Option.map_some, Option.map_some]
        congr 1
        show furnished _ _ i (if id = i then extendedBy methods r else r) = _
        split
        · rename_i hi
          subst hi
          obtain rfl := patternPath_of_findIdx? hid hr
          obtain ⟨hleft, hright⟩ := furnished_cons_self hid hrest methods
          rw [hleft, hright]
        · rename_i hi
          rw [furnished_cons_of_ne (.inr fun h => hi (Option.some.inj (hid.symm.trans h)))]
    · rw [findIdx?_patternPath] at hid
      show s.resources[i]?.map (furnished s.patterns buckets i) = _
      congr 1
      funext r
      rw [furnished_cons_of_ne (.inr (by rw [hid]; simp))]

end Survey
/-! ## The named methods of a finished graph -/

/-- The patterns of the resources, written as paths. -/
def ResourceGraph.patterns (g : ResourceGraph) : List String :=
  g.resources.map Resource.patternPath

namespace Document

variable {doc : Document} {given : Option String} {start : String} {g : ResourceGraph}

/-- **The named methods of a resource** are those that the paths declare for its pattern, if it is
the first resource that has the pattern; otherwise it has none. -/
theorem resources_customs (h : doc.resources given start = .ok g) {i : Nat} {r : Resource}
    (hr : g.resource? i = some r) :
    r.customs =
      if g.patterns.findIdx? (· == r.patternPath) = some i then
        doc.customsFor start r.patternPath doc.paths
      else [] := by
  obtain ⟨s₁, s₂, hpaths, hcustoms, -, hgr, -⟩ := Survey.resources_ok_iff.1 h
  have hs₁ : Survey.Retained doc start doc.paths s₁ :=
    hpaths.accumulates (P := Survey.Retained doc start)
      (fun _ _ _ _ _ hv hs => hs.visit hv) (.empty doc start)
  have hat := fun j => Survey.getElem?_of_attached hcustoms hs₁.distinct j
  have hsame : g.patterns = s₁.patterns := by
    refine List.ext_getElem? fun j => ?_
    rw [ResourceGraph.patterns, hgr, Survey.patterns, List.getElem?_map, List.getElem?_map, hat j,
      Option.map_map]
    congr 1
    funext q
    show (Survey.furnished _ _ j q).patternPath = q.patternPath
    unfold Survey.furnished
    split <;> rfl
  rw [ResourceGraph.resource?, hgr, hat i, Option.map_eq_some_iff] at hr
  obtain ⟨r₀, hr₀, rfl⟩ := hr
  have hbare : r₀.customs = [] := hs₁.unattached r₀ (List.mem_of_getElem? hr₀)
  rw [hsame]
  unfold Survey.furnished
  split
  · rename_i hi
    have hpath : (Survey.extendedBy ((s₁.customs.lookup r₀.patternPath).getD []) r₀).patternPath =
        r₀.patternPath := rfl
    rw [hpath, if_pos hi, ← hs₁.kept, Survey.extendedBy, hbare, List.nil_append]
  · exact hbare

/-! ## What a named method is made of -/

theorem resolveSchema?_ok_iff {s? t? : Option Schema} :
    doc.resolveSchema? s? = .ok t? ↔
      (s? = none ∧ t? = none) ∨ ∃ s t, s? = some s ∧ t? = some t ∧ doc.resolveSchema s = .ok t := by
  cases s? with
  | none => simp [resolveSchema?, eq_comm]
  | some s =>
    unfold resolveSchema?
    dsimp only
    cases hs : doc.resolveSchema s with
    | error e =>
      show Except.error e = Except.ok t? ↔ _
      simp [hs]
    | ok t =>
      show Except.ok (some t) = Except.ok t? ↔ _
      simp [hs, eq_comm]

/-- A named method has the name of its path and the verb that is kept; only with `POST` a request
has a schema; and no schema of it is a reference. -/
theorem customMethod_cases {item : PathItem} {name : String} {m : CustomMethod}
    (h : doc.customMethod? item name = .ok (some m)) :
    m.name = name ∧ (∃ verb op, keptVerb? item = some (verb, op) ∧ m.verb = verb.name ∧
        (m.request.isSome = true → verb = .post)) ∧
      (∀ s ∈ m.request, s.reference = none) ∧ ∀ s ∈ m.response, s.reference = none := by
  unfold customMethod? at h
  cases hk : keptVerb? item with
  | none =>
    rw [hk] at h
    cases h
  | some kept =>
    obtain ⟨verb, op⟩ := kept
    rw [hk] at h
    dsimp only at h
    cases hreq : doc.resolveSchema? (if verb == .post then doc.requestSchema? op else none) with
    | error e =>
      rw [hreq] at h
      cases h
    | ok request =>
      cases hres : doc.resolveSchema? (doc.successSchema? op) with
      | error e =>
        rw [hreq, hres] at h
        cases h
      | ok response =>
        rw [hreq, hres] at h
        cases h
        refine ⟨rfl, ⟨verb, op, rfl, rfl, fun hsome => ?_⟩, fun s hs => ?_, fun s hs => ?_⟩
        · by_contra hne
          rw [if_neg (by simpa using hne)] at hreq
          rcases resolveSchema?_ok_iff.1 hreq with ⟨-, rfl⟩ | ⟨_, _, hnone, -, -⟩
          · cases hsome
          · cases hnone
        · rcases resolveSchema?_ok_iff.1 hreq with ⟨-, rfl⟩ | ⟨_, t, -, rfl, ht⟩
          · cases hs
          · cases hs
            exact reference_of_resolveSchema ht
        · rcases resolveSchema?_ok_iff.1 hres with ⟨-, rfl⟩ | ⟨_, t, -, rfl, ht⟩
          · cases hs
          · cases hs
            exact reference_of_resolveSchema ht

/-- A path that declares a verb has one that its method is sent with. -/
theorem keptVerb_ne_none {item : PathItem} (h : item.declaredOperations ≠ []) :
    keptVerb? item ≠ none := by
  obtain ⟨p, rest, hp⟩ := List.exists_cons_of_ne_nil h
  rw [keptVerb?, hp, List.head?_cons]
  cases (p :: rest).find? (·.1 == .post) <;> exact Option.some_ne_none _

/-- A path that declares a verb has a method. -/
theorem customMethod_ne_none {item : PathItem} {name : String} (h : item.declaredOperations ≠ []) :
    doc.customMethod? item name ≠ .ok none := by
  obtain ⟨⟨verb, op⟩, hk⟩ := Option.ne_none_iff_exists'.1 (keptVerb_ne_none h)
  unfold customMethod?
  rw [hk]
  dsimp only
  intro hm
  cases hreq : doc.resolveSchema? (if verb == .post then doc.requestSchema? op else none) with
  | error e =>
    rw [hreq] at hm
    cases hm
  | ok request =>
    cases hres : doc.resolveSchema? (doc.successSchema? op) with
    | error e =>
      rw [hreq, hres] at hm
      cases hm
    | ok response =>
      rw [hreq, hres] at hm
      cases hm

/-- A path declares a method for the pattern before its colon, and for no other one. -/
theorem customFor_eq_some_iff {pattern : String} {entry : String × PathItem} {m : CustomMethod} :
    doc.customFor start pattern entry = some m ↔
      ∃ name, splitCustomMethod? (surveyedPath start entry.1) = some (pattern, name) ∧
        doc.customMethod? entry.2 name = .ok (some m) := by
  unfold customFor
  cases hp : splitCustomMethod? (surveyedPath start entry.1) with
  | none => simp
  | some p =>
    obtain ⟨p, name⟩ := p
    dsimp only
    constructor
    · intro h
      split at h
      · rename_i hpat
        refine ⟨name, by rw [hpat], ?_⟩
        cases hm : doc.customMethod? entry.2 name with
        | error e =>
          rw [hm] at h
          cases h
        | ok m? =>
          rw [hm] at h
          exact congrArg Except.ok h
      · cases h
    · rintro ⟨_, he, hm⟩
      cases he
      rw [if_pos rfl, hm]
      rfl

end Document

/-- What is known of a named method, whatever the document. -/
structure CustomMethod.WellMade (m : CustomMethod) : Prop where
  /-- The name is not empty. -/
  named : m.name ≠ ""
  /-- The name has no slash. -/
  slashless : '/' ∉ m.name.toList
  /-- It is sent with a verb, and with `POST` if it is sent with data. -/
  verb : ∃ verb : Verb, m.verb = verb.name ∧ (m.request.isSome = true → verb = .post)
  /-- The schema of what it is sent is no reference. -/
  request : ∀ s ∈ m.request, s.reference = none
  /-- The schema of what it answers is no reference. -/
  response : ∀ s ∈ m.response, s.reference = none

namespace Document

variable {doc : Document} {given : Option String} {start : String} {g : ResourceGraph}

theorem wellMade_of_customFor {pattern : String} {entry : String × PathItem} {m : CustomMethod}
    (h : doc.customFor start pattern entry = some m) : m.WellMade := by
  obtain ⟨name, hp, hm⟩ := customFor_eq_some_iff.1 h
  obtain ⟨hne, hslash⟩ := name_of_splitCustomMethod hp
  obtain ⟨hname, ⟨verb, _, -, hverb, hpost⟩, hreq, hres⟩ := customMethod_cases hm
  exact ⟨hname ▸ hne, hname ▸ hslash, ⟨verb, hverb, hpost⟩, hreq, hres⟩

theorem mem_customsFor {pattern : String} {paths : List (String × PathItem)} {m : CustomMethod}
    (h : m ∈ doc.customsFor start pattern paths) :
    ∃ entry ∈ paths, doc.customFor start pattern entry = some m := by
  rcases mem_of_mem_foldl_keep h with h | h
  · cases h
  · exact List.mem_filterMap.1 h

theorem customs_wellMade (h : doc.resources given start = .ok g) {r : Resource}
    (hr : r ∈ g.resources) :
    (r.customs.map CustomMethod.name).Nodup ∧ ∀ m ∈ r.customs, m.WellMade := by
  obtain ⟨i, hi⟩ := List.mem_iff_getElem?.1 hr
  rw [resources_customs h hi]
  split
  · refine ⟨nodup_foldl_keep _ List.nodup_nil, fun m hm => ?_⟩
    obtain ⟨_, -, hm⟩ := mem_customsFor hm
    exact wellMade_of_customFor hm
  · exact ⟨List.nodup_nil, fun m hm => absurd hm List.not_mem_nil⟩

end Document

/-! ## What is known of every graph -/

/-- What is known of a graph of resources, whatever document it was found in. -/
structure ResourceGraph.Sound (g : ResourceGraph) : Prop where
  /-- The resources are well made. -/
  wellMade : ∀ r ∈ g.resources, r.WellMade
  /-- The named methods of a resource have distinct names. -/
  named : ∀ r ∈ g.resources, (r.customs.map CustomMethod.name).Nodup
  /-- The named methods are well made. -/
  customs : ∀ r ∈ g.resources, ∀ m ∈ r.customs, m.WellMade
  /-- An entry of the index leads to a resource of its name. -/
  leads : ∀ e ∈ g.index, ∃ r, g.resource? e.2 = some r ∧ r.singular = e.1
  /-- The index leads to every name. -/
  known : ∀ r ∈ g.resources, ∃ id, g.idOf? r.singular = some id
  /-- The names are in order. -/
  sorted : (keys g.index).Pairwise (· < ·)
  /-- A parent stands before its children. -/
  earlier : ∀ (i : Nat) r, g.resource? i = some r → ∀ p ∈ r.parents, p < i
  /-- Every resource has methods, or contains one that has. -/
  rooted : ∀ i < g.resources.length, ∃ j r, Relation.ReflTransGen g.Contains i j ∧
    g.resource? j = some r ∧ r.methods ≠ {}

theorem Document.resources_sound {doc : Document} {given : Option String} {start : String}
    {g : ResourceGraph} (h : doc.resources given start = .ok g) : g.Sound := by
  obtain ⟨s, hc, hs, hroot, hr, hi⟩ := exists_sound h
  refine ⟨?_, fun r hr => (customs_wellMade h hr).1, fun r hr => (customs_wellMade h hr).2,
    ?_, ?_, ?_, ?_, ?_⟩
  · rw [hr]
    exact hs.wellMade
  · unfold ResourceGraph.resource?
    rw [hr, hi]
    exact hc.indexed
  · unfold ResourceGraph.idOf?
    rw [hr, hi]
    exact hs.known
  · rw [hi]
    exact hs.sorted
  · unfold ResourceGraph.resource?
    rw [hr]
    exact hc.earlier
  · unfold ResourceGraph.Contains ResourceGraph.resource?
    rw [hr]
    exact hroot

end ResourceCli
