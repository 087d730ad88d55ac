import ResourceCli.Proofs.Survey.Patterns

/-!
# The pattern that a resource keeps

A resource is met under many patterns: every path that contributes to its name has one, and its
schema may declare another.  It keeps one of them.  What it declares comes first; otherwise it is
the first contribution to its name that counts, wherever the resource itself was first met.

There is one exception.  A resource that is declared without a pattern, and that the first
contribution itself brings up, is added as it is declared and passes by the pattern it is met under.
Then it is the second contribution that counts, and if there is no second one, the resource stays
without a pattern.

* `KeptPattern`: the three cases.
* `Succeeds.made`: what populating does to the resources that the index leads to.
* `Document.keptPattern`: in a finished graph, every resource that the index leads to is in one of
  the three cases.
-/

namespace ResourceCli

/-- The pattern that a schema declares for its resource; an empty one is none. -/
def Schema.declaredPattern (s : Schema) : List String :=
  ((s.declared.bind fun d => d.patterns.head?).map splitPattern).getD []

theorem Schema.declaredPattern_of_undeclared {s : Schema} (h : s.declared = none) :
    s.declaredPattern = [] := by
  rw [declaredPattern, h]
  rfl

theorem Schema.declaredPattern_of_declared {s : Schema} {d : Declaration}
    (h : s.declared = some d) :
    s.declaredPattern = (d.patterns.head?.map splitPattern).getD [] := by
  rw [declaredPattern, h]
  rfl

namespace Document

variable (doc : Document) (start : String)

/-- What paths contribute to a name, in their order. -/
def contributionsTo (name : String) (paths : List (String × PathItem)) : List Contribution :=
  (paths.filterMap (doc.contribution? start)).filter (·.singular == name)

/-- A schema describes the resource of a name: a path contributes it, or a component stands for
it. -/
inductive Describes (name : String) (s : Schema) : Prop
  /-- A path contributes to the name with the schema. -/
  | contributed (c : Contribution) (h : c ∈ doc.contributionsTo start name doc.paths)
      (hs : c.schema = s)
  /-- A component of the name stands for the schema. -/
  | component (component : String) (t : Schema) (hc : doc.component? component = some t)
      (ht : doc.resolveSchema t = .ok s) (h : resourceSingular component s = name)

variable {doc start}

theorem mem_contributionsTo {name : String} {paths : List (String × PathItem)} {c : Contribution} :
    c ∈ doc.contributionsTo start name paths ↔
      (∃ entry ∈ paths, doc.contribution? start entry = some c) ∧ c.singular = name := by
  rw [contributionsTo, List.mem_filter, List.mem_filterMap, beq_iff_eq]

/-- One more path adds what it contributes at the end. -/
theorem contributionsTo_concat (name : String) (paths : List (String × PathItem))
    (entry : String × PathItem) :
    doc.contributionsTo start name (paths ++ [entry]) =
      doc.contributionsTo start name paths ++
        (doc.contribution? start entry).toList.filter (·.singular == name) := by
  rw [contributionsTo, List.filterMap_append, List.filter_append, List.filterMap_cons,
    List.filterMap_nil]
  cases doc.contribution? start entry <;> rfl

/-- A path that contributes counts for the name that it contributes to. -/
theorem contributionsTo_concat_of_contribution {entry : String × PathItem} {c : Contribution}
    (hc : doc.contribution? start entry = some c) (name : String)
    (paths : List (String × PathItem)) :
    doc.contributionsTo start name (paths ++ [entry]) =
      doc.contributionsTo start name paths ++ if name = c.singular then [c] else [] := by
  rw [contributionsTo_concat, hc, Option.toList_some, List.filter_singleton]
  by_cases hname : name = c.singular
  · rw [if_pos hname, beq_iff_eq.2 hname.symm, cond_true]
  · rw [if_neg hname, beq_eq_false_iff_ne.2 (Ne.symm hname), cond_false]

/-- A path never contributes without a pattern. -/
theorem pattern_ne_nil_of_contribution {entry : String × PathItem} {c : Contribution}
    (h : doc.contribution? start entry = some c) : c.pattern ≠ [] := by
  obtain ⟨segments, kind, hk, hpattern⟩ := pattern_of_contribution h
  rw [hpattern]
  split
  · exact List.append_ne_nil_of_right_ne_nil _ (List.cons_ne_nil _ _)
  · exact (of_classify hk).2.1

theorem pattern_ne_nil_of_mem_contributionsTo {name : String} {paths : List (String × PathItem)}
    {c : Contribution} (h : c ∈ doc.contributionsTo start name paths) : c.pattern ≠ [] := by
  obtain ⟨⟨_, -, hc⟩, -⟩ := mem_contributionsTo.1 h
  exact pattern_ne_nil_of_contribution hc

end Document

/-- The pattern of the first contribution; without one, no pattern. -/
def firstPattern (cs : List Contribution) : List String :=
  (cs.head?.map Contribution.pattern).getD []

/-- The pattern that a resource keeps of those that it is met under. -/
inductive KeptPattern (cs : List Contribution) (r : Resource) : Prop
  /-- It declares a pattern. -/
  | declared (hd : r.schema.declaredPattern ≠ []) (h : r.pattern = r.schema.declaredPattern)
  /-- It declares none, and keeps that of the first contribution. -/
  | first (hd : r.schema.declaredPattern = []) (h : r.pattern = firstPattern cs)
  /-- It is declared without a pattern, and the first contribution brought it up.  It keeps that of
  the second one. -/
  | second (c : Contribution) (rest : List Contribution) (hcs : cs = c :: rest)
      (hs : r.schema = c.schema) (hd : r.schema.declared ≠ none)
      (hnone : r.schema.declaredPattern = []) (h : r.pattern = firstPattern rest)

namespace KeptPattern

variable {cs : List Contribution} {r q : Resource}

/-- What is kept is a matter of the pattern and the schema alone. -/
theorem congr (h : KeptPattern cs r) (hp : q.pattern = r.pattern) (hs : q.schema = r.schema) :
    KeptPattern cs q := by
  cases h with
  | declared hd h => exact .declared (hs ▸ hd) (by rw [hp, hs, h])
  | first hd h => exact .first (hs ▸ hd) (hp.trans h)
  | second c rest hcs hsc hd hnone h =>
    exact .second c rest hcs (hs.trans hsc) (hs ▸ hd) (hs ▸ hnone) (hp.trans h)

/-- What no path has contributed to keeps what it declares. -/
theorem of_declaredPattern (h : r.pattern = r.schema.declaredPattern) : KeptPattern [] r := by
  by_cases hown : r.schema.declaredPattern = []
  · exact .first hown (h.trans hown)
  · exact .declared hown h

/-- What a contribution brings up keeps the pattern that it is met under if it is not declared, and
otherwise what it declares. -/
theorem of_contribution {c : Contribution} (hs : r.schema = c.schema)
    (h : r.pattern =
      if c.schema.declared = none then c.pattern else c.schema.declaredPattern) :
    KeptPattern [c] r := by
  by_cases hd : c.schema.declared = none
  · rw [if_pos hd] at h
    refine .first ?_ h
    rw [hs, Schema.declaredPattern_of_undeclared hd]
  · rw [if_neg hd, ← hs] at h
    by_cases hown : r.schema.declaredPattern = []
    · exact .second c [] rfl hs (hs ▸ hd) hown (h.trans hown)
    · exact .declared hown h

end KeptPattern

namespace Survey

theorem withPattern_pattern (pattern : List String) (r : Resource) :
    (Resource.withPattern pattern r).pattern = if r.pattern = [] then pattern else r.pattern := by
  unfold Resource.withPattern
  cases hr : r.pattern with
  | nil => cases pattern <;> simp [hr]
  | cons s rest => simp [hr]

/-- The first pattern of contributions with one more is the first pattern of the others, if there
are others. -/
theorem firstPattern_concat {cs : List Contribution} (hcs : ∀ c ∈ cs, c.pattern ≠ [])
    (c : Contribution) :
    firstPattern (cs ++ [c]) = if firstPattern cs = [] then c.pattern else firstPattern cs := by
  cases cs with
  | nil => rfl
  | cons c' cs => exact (if_neg (hcs c' List.mem_cons_self)).symm

/-- **One more contribution** counts for a resource only if it has no pattern yet. -/
theorem keptPattern_withPattern {cs : List Contribution} {r : Resource} (h : KeptPattern cs r)
    (hcs : ∀ c ∈ cs, c.pattern ≠ []) (c : Contribution) :
    KeptPattern (cs ++ [c]) (Resource.withPattern c.pattern r) := by
  have hschema := withPattern_schema c.pattern r
  have hpattern := withPattern_pattern c.pattern r
  cases h with
  | declared hd h =>
    refine .declared (hschema ▸ hd) ?_
    rw [hpattern, hschema, if_neg (h ▸ hd), h]
  | first hd h =>
    refine .first (hschema ▸ hd) ?_
    rw [hpattern, firstPattern_concat hcs, h]
  | second c' rest hcs' hs hd hnone h =>
    subst hcs'
    refine .second c' (rest ++ [c]) rfl (hschema.trans hs) (hschema ▸ hd) (hschema ▸ hnone) ?_
    rw [hpattern, firstPattern_concat fun c hc => hcs c (List.mem_cons_of_mem _ hc), h]

variable {doc : Document} {start : String} {s s₁ s' : Survey} {pending : List String}
  {singular : String} {pattern : List String} {schema : Schema} {id : Nat}

/-! ## Populating -/

/-- The index leads a name to the resource that was added, or to where it led before. -/
theorem cases_of_added (hs : Consistent doc s) {r q : Resource} (hn : r.singular = singular)
    {name : String} {j : Nat} (hl : (s.added r).index.lookup name = some j)
    (hq : (s.added r).resources[j]? = some q) :
    (name = singular ∧ q = r) ∨
      (name ≠ singular ∧ s.index.lookup name = some j ∧ s.resources[j]? = some q) := by
  subst hn
  have hl : (Json.insertSorted _ _ s.index).lookup name = some j := hl
  rw [lookup_insertSorted] at hl
  rw [getElem?_added] at hq
  split at hl
  · rename_i hname
    rw [if_pos (Option.some.inj hl).symm, Option.some.injEq] at hq
    exact .inl ⟨hname, hq.symm⟩
  · rename_i hname
    obtain ⟨q', hq', -⟩ := hs.getElem?_of_lookup hl
    have hlt := (List.getElem?_eq_some_iff.1 hq').1
    rw [if_neg (by omega)] at hq
    exact .inr ⟨hname, hl, hq⟩

/-- What the resource is made of that the index leads a name to: it is the one that was there
before, or it is made of a component while containing resources are populated. -/
def ContainedMade (doc : Document) (s : Survey) (name : String) (j : Nat) (r : Resource) : Prop :=
  (s.index.lookup name = some j ∧ s.resources[j]? = some r) ∨
    (s.index.lookup name = none ∧ r.pattern = r.schema.declaredPattern ∧
      ∃ component t, doc.component? component = some t ∧ doc.resolveSchema t = .ok r.schema ∧
        resourceSingular component r.schema = name)

/-- What the resource is made of that the index leads a name to, once a name is populated.  Other
names are populated on the way only as those of containing resources. -/
def Made (doc : Document) (singular : String) (pattern : List String) (schema : Schema)
    (s : Survey) (name : String) (j : Nat) (r : Resource) : Prop :=
  if name = singular then
    (∃ r₀, s.index.lookup name = some j ∧ s.resources[j]? = some r₀ ∧
      r = Resource.withPattern pattern r₀) ∨
    (s.index.lookup name = none ∧ r.schema = schema ∧
      r.pattern = if schema.declared = none then pattern else schema.declaredPattern)
  else ContainedMade doc s name j r

theorem ContainedMade.of_made {component : String} {t : Schema} {name : String} {j : Nat}
    {r : Resource} (hc : doc.component? component = some t)
    (ht : doc.resolveSchema t = .ok schema)
    (h : Made doc (resourceSingular component schema) [] schema s name j r) :
    ContainedMade doc s name j r := by
  unfold Made at h
  split at h
  · rename_i hname
    rcases h with ⟨r₀, hl, hr, rfl⟩ | ⟨hl, rfl, hp⟩
    · rw [withPattern_nil]
      exact .inl ⟨hl, hr⟩
    · refine .inr ⟨hl, ?_, component, t, hc, ht, hname.symm⟩
      rw [hp]
      split
      · rename_i hd
        rw [Schema.declaredPattern_of_undeclared hd]
      · rfl
  · exact h

/-- What is made of a contribution is described by it, or it was described before. -/
theorem Made.describes {c : Contribution} {name : String} {j : Nat} {r : Resource}
    (h : Made doc c.singular c.pattern c.schema s name j r)
    (hc : doc.Describes start c.singular c.schema)
    (hbefore : ∀ r₀, s.index.lookup name = some j → s.resources[j]? = some r₀ →
      doc.Describes start name r₀.schema) :
    doc.Describes start name r.schema := by
  unfold Made at h
  split at h
  · rename_i hname
    rcases h with ⟨r₀, hl, hr, rfl⟩ | ⟨-, hschema, -⟩
    · rw [withPattern_schema]
      exact hbefore r₀ hl hr
    · rw [hschema, hname]
      exact hc
  · rcases h with ⟨hl, hr⟩ | ⟨-, -, component, t, hcomponent, ht, hname⟩
    · exact hbefore r hl hr
    · exact .component component t hcomponent ht hname

theorem Harvest.made {parents : List String} {ids : List Nat}
    (h : Harvest (ParentPopulated doc
      (fun pending singular pattern schema s id s' =>
        Succeeds doc pending singular pattern schema s id s' ∧
          (Consistent doc s → ∀ name j r, s'.index.lookup name = some j →
            s'.resources[j]? = some r → Made doc singular pattern schema s name j r)) pending)
      parents s ids s') (hs : Consistent doc s) :
    Consistent doc s' ∧ ∀ name j r, s'.index.lookup name = some j → s'.resources[j]? = some r →
      ContainedMade doc s name j r := by
  induction h with
  | nil s => exact ⟨hs, fun name j r hl hr => .inl ⟨hl, hr⟩⟩
  | @cons _ _ _ _ s s₁ s₂ h₁ _ ih =>
    obtain ⟨t, target, hc, ht, hsucc, hm⟩ := h₁
    have hs₁ := hsucc.consistent hs
    obtain ⟨hs₂, hrest⟩ := ih hs₁
    refine ⟨hs₂, fun name j r hl hr => ?_⟩
    rcases hrest name j r hl hr with ⟨hl₁, hr₁⟩ | ⟨hl₁, hmade⟩
    · exact .of_made hc ht (hm hs name j r hl₁ hr₁)
    · refine .inr ⟨?_, hmade⟩
      cases hl₀ : s.index.lookup name with
      | none => rfl
      | some k =>
        rw [hsucc.grown_of_nil.known name k hl₀] at hl₁
        cases hl₁

/-- **What populating a name makes of the resources that the index leads to.** -/
theorem Succeeds.made (h : Succeeds doc pending singular pattern schema s id s')
    (hs : Consistent doc s) {name : String} {j : Nat} {r : Resource}
    (hl : s'.index.lookup name = some j) (hr : s'.resources[j]? = some r) :
    Made doc singular pattern schema s name j r := by
  refine populating_induction (M := fun _ singular pattern schema s _ s' => Consistent doc s →
    ∀ name j r, s'.index.lookup name = some j → s'.resources[j]? = some r →
      Made doc singular pattern schema s name j r) ?_ ?_ ?_ h hs name j r hl hr
  · intro _ singular pattern schema s id hid hs name j r hl hr
    have hl : s.index.lookup name = some j := hl
    rw [getElem?_changed, Option.map_eq_some_iff] at hr
    obtain ⟨r₀, hr₀, rfl⟩ := hr
    unfold Made
    split
    · rename_i hname
      subst hname
      rw [hid, Option.some.injEq] at hl
      exact .inl ⟨r₀, hl ▸ hid, hr₀, if_pos hl⟩
    · rename_i hname
      refine .inl ⟨hl, ?_⟩
      rw [if_neg, hr₀]
      rintro rfl
      obtain ⟨q, hq, hqn⟩ := hs.getElem?_of_lookup hid
      obtain ⟨q', hq', hqn'⟩ := hs.getElem?_of_lookup hl
      rw [hq, Option.some.injEq] at hq'
      exact hname (by rw [← hqn, ← hqn', hq'])
  · intro _ singular pattern schema s hnone hd hs name j r hl hr
    have hn : (inferred singular pattern schema).singular = singular := rfl
    unfold Made
    rcases cases_of_added hs hn hl hr with ⟨hname, rfl⟩ | ⟨hname, hl, hr⟩
    · rw [if_pos hname]
      exact .inr ⟨hname ▸ hnone, rfl, (if_pos hd).symm⟩
    · rw [if_neg hname]
      exact .inl ⟨hl, hr⟩
  · intro _ singular pattern schema s d parents s₁ hnone _ hd hh hs name j r hl hr
    obtain ⟨hs₁, hmade⟩ := Harvest.made hh hs
    have hn : (declared singular d parents schema).singular = singular := rfl
    unfold Made
    rcases cases_of_added hs₁ hn hl hr with ⟨hname, rfl⟩ | ⟨hname, hl, hr⟩
    · rw [if_pos hname]
      refine .inr ⟨hname ▸ hnone, rfl, ?_⟩
      rw [if_neg (by rw [hd]; exact Option.some_ne_none d), Schema.declaredPattern_of_declared hd]
      rfl
    · rw [if_neg hname]
      exact hmade name j r hl hr

/-! ## A whole survey -/

/-- What is known of the patterns after a stretch of the paths of a document. -/
structure Kept (doc : Document) (start : String) (paths : List (String × PathItem))
    (s : Survey) : Prop where
  /-- The hierarchy. -/
  consistent : Consistent doc s
  /-- Every name that a path contributed to is known. -/
  known : ∀ name, doc.contributionsTo start name paths ≠ [] →
    ∃ id, s.index.lookup name = some id
  /-- What a resource keeps that the index leads to. -/
  kept : ∀ name j r, s.index.lookup name = some j → s.resources[j]? = some r →
    KeptPattern (doc.contributionsTo start name paths) r
  /-- What such a resource is described by. -/
  described : ∀ name j r, s.index.lookup name = some j → s.resources[j]? = some r →
    doc.Describes start name r.schema

namespace Kept

theorem empty (doc : Document) (start : String) : Kept doc start [] {} :=
  ⟨.empty doc, fun _ h => absurd rfl h, fun _ _ _ hl => by simp at hl,
    fun _ _ _ hl => by simp at hl⟩

/-- What is known is a matter of the resources and the index alone. -/
theorem congr {paths : List (String × PathItem)} (hs : Kept doc start paths s)
    (hr : s'.resources = s.resources) (hi : s'.index = s.index) : Kept doc start paths s' := by
  refine ⟨⟨?_, ?_, ?_⟩, ?_, ?_, ?_⟩ <;> simp only [hr, hi]
  · exact hs.consistent.indexed
  · exact hs.consistent.earlier
  · exact hs.consistent.contained
  · exact hs.known
  · exact hs.kept
  · exact hs.described

/-- A change of a resource that leaves everything about its pattern alone. -/
theorem changed {paths : List (String × PathItem)} (hs : Kept doc start paths s) (id : Nat)
    {f : Resource → Resource} (hn : ∀ r, (f r).singular = r.singular)
    (hp : ∀ r, (f r).pattern = r.pattern) (hparents : ∀ r, (f r).parents = r.parents)
    (hd : ∀ r, (f r).schema = r.schema) : Kept doc start paths (s.changed id f) := by
  refine ⟨hs.consistent.changed id hn hparents hd, hs.known, ?_, ?_⟩
  · intro name j r hl hr
    obtain ⟨r₀, hr₀, hsame⟩ := exists_of_changed hr
    exact (hs.kept name j r₀ hl hr₀).congr (hsame _ hp) (hsame _ hd)
  · intro name j r hl hr
    obtain ⟨r₀, hr₀, hsame⟩ := exists_of_changed hr
    rw [hsame _ hd]
    exact hs.described name j r₀ hl hr₀

/-- What is not known yet has had no contribution. -/
theorem contributionsTo_eq_nil {paths : List (String × PathItem)} (hs : Kept doc start paths s)
    {name : String} (hl : s.index.lookup name = none) :
    doc.contributionsTo start name paths = [] := by
  by_contra hne
  obtain ⟨id, hid⟩ := hs.known name hne
  cases hl.symm.trans hid

/-- **A contribution** counts for the resource of its name, and for no other. -/
theorem contributed {paths : List (String × PathItem)} {entry : String × PathItem}
    {c : Contribution} (hs : Kept doc start paths s) (hmem : entry ∈ doc.paths)
    (hc : doc.contribution? start entry = some c)
    (h : Succeeds doc [] c.singular c.pattern c.schema s id s') :
    Kept doc start (paths ++ [entry]) s' := by
  have hconcat := Document.contributionsTo_concat_of_contribution hc
  have hdescribed : doc.Describes start c.singular c.schema :=
    .contributed c (Document.mem_contributionsTo.2 ⟨⟨entry, hmem, hc⟩, rfl⟩) rfl
  refine ⟨h.consistent hs.consistent, fun name hne => ?_, fun name j r hl hr => ?_,
    fun name j r hl hr => (h.made hs.consistent hl hr).describes hdescribed fun r₀ =>
      hs.described name j r₀⟩
  · by_cases hname : name = c.singular
    · exact ⟨id, hname ▸ h.lookup⟩
    · rw [hconcat, if_neg hname, List.append_nil] at hne
      obtain ⟨j, hj⟩ := hs.known name hne
      rcases h.grown with hg | ⟨-, rfl⟩
      · exact ⟨j, hg.known name j hj⟩
      · exact ⟨j, hj⟩
  · have hmade := h.made hs.consistent hl hr
    unfold Made at hmade
    rw [hconcat]
    split at hmade
    · rename_i hname
      rw [if_pos hname]
      rcases hmade with ⟨r₀, hl₀, hr₀, rfl⟩ | ⟨hl₀, hschema, hpattern⟩
      · exact keptPattern_withPattern (hs.kept name j r₀ hl₀ hr₀)
          (fun _ => Document.pattern_ne_nil_of_mem_contributionsTo) c
      · rw [hs.contributionsTo_eq_nil hl₀, List.nil_append]
        exact .of_contribution hschema hpattern
    · rename_i hname
      rw [if_neg hname, List.append_nil]
      rcases hmade with ⟨hl₀, hr₀⟩ | ⟨hl₀, hpattern, -⟩
      · exact hs.kept name j r hl₀ hr₀
      · rw [hs.contributionsTo_eq_nil hl₀]
        exact .of_declaredPattern hpattern

/-- **A path keeps what is known of patterns.** -/
theorem visit {paths : List (String × PathItem)} {entry : String × PathItem} {u : PUnit}
    (hs : Kept doc start paths s) (hmem : entry ∈ doc.paths)
    (h : visit doc start entry.1 entry.2 s = .ok u s') :
    Kept doc start (paths ++ [entry]) s' := by
  rcases visit_cases h with ⟨c, notes, id, s₁, hc, hp, rfl⟩ | ⟨hc, hrest⟩
  · have hs₀ : Kept doc start paths (s.withNotes notes) := hs.congr rfl rfl
    exact (hs₀.contributed hmem hc hp).changed id (fun _ => rfl) (fun _ => rfl)
      (fun _ => rfl) fun _ => rfl
  · have hsame : ∀ name, doc.contributionsTo start name (paths ++ [entry]) =
        doc.contributionsTo start name paths := by
      intro name
      rw [Document.contributionsTo_concat, hc, Option.toList_none, List.filter_nil,
        List.append_nil]
    have hs' : Kept doc start (paths ++ [entry]) s :=
      ⟨hs.consistent, by simpa only [hsame] using hs.known, by simpa only [hsame] using hs.kept,
        hs.described⟩
    rcases hrest with ⟨notes, rfl⟩ | ⟨pattern, name, m, notes, -, -, rfl⟩
    · exact hs'.congr rfl rfl
    · exact hs'.congr rfl rfl

/-- Attaching methods with names leaves the patterns alone. -/
theorem attach {paths : List (String × PathItem)} {pattern : String}
    {methods : List CustomMethod} {u : PUnit} (hs : Kept doc start paths s)
    (h : attach pattern methods s = .ok u s') : Kept doc start paths s' := by
  rcases attach_cases h with ⟨id, -, rfl⟩ | ⟨-, notes, rfl⟩
  · exact hs.changed id (fun _ => rfl) (fun _ => rfl) (fun _ => rfl) fun _ => rfl
  · exact hs.congr rfl rfl

end Kept

end Survey

/-! ## The patterns of a finished graph -/

namespace Document

variable {doc : Document} {given : Option String} {start : String} {g : ResourceGraph}
  {r : Resource} {i : Nat}

/-- The survey that a finished graph was read off keeps what is known of patterns. -/
theorem exists_kept (h : doc.resources given start = .ok g) :
    ∃ s, Survey.Kept doc start doc.paths s ∧ g.resources = s.resources ∧ g.index = s.index :=
  Survey.exists_survey_of_resources h (.empty doc start)
    (fun _ hmem _ _ _ hv hs => hs.visit hmem hv) fun _ _ _ _ ha hs => hs.attach ha

/-- **The pattern of a resource that the index leads to** is the one it declares, or that of the
first contribution to its name, or, past the one that brought it up, of the second; and it has the
schema of one of the contributions or of a component of its name. -/
theorem keptPattern (h : doc.resources given start = .ok g) (hr : g.resource? i = some r)
    (hi : g.idOf? r.singular = some i) :
    KeptPattern (doc.contributionsTo start r.singular doc.paths) r ∧
      doc.Describes start r.singular r.schema := by
  obtain ⟨s, hs, hgr, hgi⟩ := exists_kept h
  rw [ResourceGraph.resource?, hgr] at hr
  rw [ResourceGraph.idOf?, hgi] at hi
  exact ⟨hs.kept _ i r hi hr, hs.described _ i r hi hr⟩

/-- A resource with methods is one that the index leads to, and that some path contributes to. -/
theorem keptPattern_of_methods (h : doc.resources given start = .ok g) (hr : r ∈ g.resources)
    (hm : r.methods ≠ {}) :
    KeptPattern (doc.contributionsTo start r.singular doc.paths) r ∧
      doc.Describes start r.singular r.schema ∧
      doc.contributionsTo start r.singular doc.paths ≠ [] := by
  obtain ⟨i, hi⟩ := List.mem_iff_getElem?.1 hr
  obtain ⟨k, hk⟩ := (Methods.ne_empty_iff _).1 hm
  have hled := (resources_methods h).2.1 i r k hi hk
  obtain ⟨hkept, hdescribed⟩ := keptPattern h hi hled
  refine ⟨hkept, hdescribed, ?_⟩
  obtain ⟨entry, hmem, methods, hoffers, -⟩ := (hasMethod_iff h).1 ⟨i, r, hled, hi, hk⟩
  obtain ⟨c, hc, hname, -⟩ := offers_iff.1 hoffers
  exact List.ne_nil_of_mem (mem_contributionsTo.2 ⟨⟨entry, hmem, hc⟩, hname⟩)

end Document
end ResourceCli
