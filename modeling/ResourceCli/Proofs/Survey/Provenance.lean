import ResourceCli.Proofs.Document.References
import ResourceCli.Proofs.Resource.Path
import ResourceCli.Proofs.Survey.Methods

/-!
# What the resources of a document are made of

A resource comes from a contribution or contains one that does.  This module collects what that says
about every resource of a graph, whatever the document:

* its schema is no reference, its pattern is made of plain segments if its name has no slash, it is
  called after the literal before its own placeholder if nothing else is said, and it is deleted
  only where it is also got or changed (`Resource.WellMade`);
* the index leads to its name, and the names of the index are in order (`Survey.Sound`);
* it has methods, or contains a resource that has (`Survey.Rooted`).
-/

namespace ResourceCli

/-! ## What a contribution is made of -/

namespace Methods

theorem ne_empty_iff (m : Methods) : m ≠ {} ↔ ∃ k, m.has k = true := by
  constructor
  · intro h
    by_contra hk
    push Not at hk
    apply h
    obtain ⟨get, list, create, update, delete⟩ := m
    have hget := hk .get
    have hlist := hk .list
    have hcreate := hk .create
    have hupdate := hk .update
    have hdelete := hk .delete
    simp only [has, Bool.not_eq_true, Option.isSome_eq_false_iff, Option.isNone_iff_eq_none]
      at hget hlist hcreate hupdate hdelete
    subst hget hlist hcreate hupdate hdelete
    rfl
  · rintro ⟨k, hk⟩ rfl
    rw [has_empty] at hk
    cases hk

theorem fold_ne_empty {m n : Methods} (h : m ≠ {} ∨ n ≠ {}) : m.fold n ≠ {} := by
  rw [ne_empty_iff, ne_empty_iff] at h
  rw [ne_empty_iff]
  rcases h with ⟨k, hk⟩ | ⟨k, hk⟩
  · exact ⟨k, by rw [has_fold, hk, Bool.true_or]⟩
  · exact ⟨k, by rw [has_fold, hk, Bool.or_true]⟩

/-- Deleting comes with getting or changing. -/
def Deletable (m : Methods) : Prop := m.delete = true → m.get = true ∨ m.update = true

theorem Deletable.fold {m n : Methods} (hm : m.Deletable) (hn : n.Deletable) :
    (m.fold n).Deletable := by
  intro h
  show (m.get || n.get) = true ∨ (m.update || n.update) = true
  rw [Bool.or_eq_true, Bool.or_eq_true]
  rcases Bool.or_eq_true_iff.1 h with h | h
  · exact (hm h).imp .inl .inl
  · exact (hn h).imp .inr .inr

end Methods

namespace Document

variable {doc : Document} {start : String} {entry : String × PathItem}

/-- What a schema is resolved to has no reference. -/
theorem reference_of_resolveSchema {s t : Schema} (h : doc.resolveSchema s = .ok t) :
    t.reference = none := by
  unfold resolveSchema at h
  cases hd : doc.dereference s with
  | error e =>
    rw [hd] at h
    cases h
  | ok u =>
    rw [hd] at h
    cases h
    obtain ⟨_, -, hl⟩ := dereference_eq_ok_iff.1 hd
    exact hl.reference_eq_none

/-- How a path creates a resource, and the schema that this is answered with. -/
def created? (doc : Document) (item : PathItem) : Option (CreateMethod × Schema) :=
  item.post.bind fun op =>
    (doc.successSchema? op).map fun s => (⟨op.hasQueryParameter "id"⟩, s)

/-- A path that addresses all resources of a kind contributes how one is created, and the list if
there are items to be listed. -/
theorem scanCollection_cases {item : PathItem} {found : Discovery}
    (h : doc.scanCollection item = .ok found) :
    ∃ listed : Option Schema,
      found.methods = { create := (doc.created? item).map Prod.fst, list := listed.isSome } ∧
      found.schema = ((doc.created? item).map Prod.snd).or listed := by
  unfold scanCollection at h
  dsimp only at h
  split at h
  · cases h
    exact ⟨none, rfl, (Option.or_none).symm⟩
  · rename_i s hs
    cases ht : doc.resolveSchema s with
    | error e =>
      rw [ht] at h
      cases h
    | ok t =>
      have hbind : ∀ f : Schema → Except Failure Discovery, (Except.ok t >>= f) = f t :=
        fun _ => rfl
      rw [ht, hbind] at h
      cases hl : listedItems? t with
      | some items =>
        rw [hl] at h
        cases h
        exact ⟨some items, rfl, Option.orElse_eq_or⟩
      | none =>
        rw [hl] at h
        cases h
        exact ⟨none, rfl, (Option.or_none).symm⟩

/-- What a path captures a schema for is some method, and deleting only besides others. -/
theorem methods_of_scan {kind : PathKind} {item : PathItem} {found : Discovery} {captured : Schema}
    (h : doc.scan kind item = .ok found) (hc : found.schema = some captured) :
    found.methods ≠ {} ∧ found.methods.Deletable := by
  rw [Methods.ne_empty_iff]
  cases kind with
  | item =>
    cases h
    have hor : (item.get.bind doc.successSchema?).isSome = true ∨
        (item.patch.bind doc.successSchema?).isSome = true := by
      have hsome : (doc.scanItem item).schema.isSome = true := by rw [hc]; rfl
      rw [scanItem] at hsome
      cases hget : item.get.bind doc.successSchema? with
      | some s => exact .inl rfl
      | none =>
        rw [hget] at hsome
        exact .inr hsome
    exact ⟨hor.elim (fun h => ⟨.get, h⟩) fun h => ⟨.update, h⟩, fun _ => hor⟩
  | collection =>
    obtain ⟨listed, hmethods, hschema⟩ := scanCollection_cases h
    rw [hmethods]
    rw [hschema] at hc
    refine ⟨?_, fun hd => by cases hd⟩
    cases hcreated : doc.created? item with
    | some p => exact ⟨.create, rfl⟩
    | none =>
      rw [hcreated, Option.map_none, Option.none_or] at hc
      exact ⟨.list, congrArg Option.isSome hc⟩

end Document

/-- What is known of a contribution, whatever the document. -/
structure Contribution.WellMade (c : Contribution) : Prop where
  /-- The schema is no reference. -/
  reference : c.schema.reference = none
  /-- The pattern is plain if the name has no slash. -/
  plain : '/' ∉ c.singular.toList → Plain c.pattern
  /-- There are methods. -/
  nonempty : c.methods ≠ {}
  /-- Deleting comes with getting or changing. -/
  deletable : c.methods.Deletable

theorem plain_placeholder {name : String} (h : '/' ∉ name.toList) : Plain [placeholder name] := by
  intro s hs
  rw [List.mem_singleton] at hs
  have hchars : s.toList = '{' :: (name.toList ++ ['}']) := by
    rw [hs, placeholder, String.toList_append, String.toList_append]
    rfl
  refine ⟨?_, ?_⟩
  · rintro rfl
    cases hchars
  · rw [hchars, List.mem_cons, List.mem_append, List.mem_singleton, not_or, not_or]
    exact ⟨by decide, h, by decide⟩

theorem Document.wellMade_of_contribution {doc : Document} {start : String}
    {entry : String × PathItem} {c : Contribution}
    (h : doc.contribution? start entry = some c) : c.WellMade := by
  unfold contribution? at h
  cases hp : splitCustomMethod? (surveyedPath start entry.1) with
  | some p => simp [hp] at h
  | none =>
    simp only [hp, Option.bind_eq_bind, Option.bind_eq_some_iff, toOption_eq_some_iff] at h
    obtain ⟨⟨segments, kind⟩, hk, found, hs, captured, hf, hc⟩ := h
    obtain ⟨hplain, -, -, -⟩ := of_classify hk
    obtain ⟨hne, hdel⟩ := methods_of_scan hs hf
    unfold contributionOf? at hc
    cases hr : captured.reference with
    | none =>
      rw [hr] at hc
      dsimp only at hc
      split at hc
      · cases hc
      · cases hc
        exact ⟨hr, fun _ => hplain, hne, hdel⟩
    | some reference =>
      rw [hr] at hc
      obtain ⟨t, ht, hc⟩ := Option.bind_eq_some_iff.1 hc
      cases hc
      refine ⟨reference_of_resolveSchema (toOption_eq_some_iff.1 ht), fun hslash => ?_, hne, hdel⟩
      dsimp only
      split
      · exact hplain.append (plain_placeholder hslash)
      · exact hplain

/-! ## What a resource is made of -/

/-- What is known of a resource, whatever the document. -/
structure Resource.WellMade (r : Resource) : Prop where
  /-- The schema is no reference. -/
  reference : r.schema.reference = none
  /-- The pattern is plain if the name has no slash. -/
  plain : '/' ∉ r.singular.toList → Plain r.pattern
  /-- Without a name for many of them the pattern has no literal before its own placeholder. -/
  plural : r.plural = "" → inferPlural r.pattern = ""
  /-- Deleting comes with getting or changing. -/
  deletable : r.methods.Deletable

namespace Survey

variable {doc : Document} {start : String} {s s₁ s' : Survey}

theorem wellMade_withPattern {pattern : List String} {r : Resource} (h : r.WellMade)
    (hp : '/' ∉ r.singular.toList → Plain pattern) :
    (Resource.withPattern pattern r).WellMade := by
  unfold Resource.withPattern
  split
  · exact ⟨h.reference, hp, fun hn => hn, h.deletable⟩
  · exact h

theorem wellMade_inferred {singular : String} {pattern : List String} {schema : Schema}
    (hr : schema.reference = none) (hp : '/' ∉ singular.toList → Plain pattern) :
    (inferred singular pattern schema).WellMade :=
  ⟨hr, hp, fun hn => hn, fun hd => by cases hd⟩

theorem wellMade_declared {singular : String} {d : Declaration} {parents : List Nat}
    {schema : Schema} (hr : schema.reference = none) :
    (declared singular d parents schema).WellMade := by
  refine ⟨hr, fun _ => ?_, ?_, fun hd => by cases hd⟩
  · show Plain ((d.patterns.head?.map splitPattern).getD [])
    cases d.patterns.head? with
    | none => exact .nil
    | some pattern => exact plain_splitPattern pattern
  · show (if d.plural == "" then inferPlural _ else d.plural) = "" → inferPlural _ = ""
    split
    · exact fun hn => hn
    · rename_i hne
      intro he
      rw [he] at hne
      exact absurd rfl hne

/-- What is known of the resources found so far, and of their index. -/
structure Sound (s : Survey) : Prop where
  /-- The resources. -/
  wellMade : ∀ r ∈ s.resources, r.WellMade
  /-- The index leads to every name. -/
  known : ∀ r ∈ s.resources, ∃ id, s.index.lookup r.singular = some id
  /-- The names are in order. -/
  sorted : (keys s.index).Pairwise (· < ·)

namespace Sound

theorem empty : Sound {} :=
  ⟨fun _ hr => absurd hr List.not_mem_nil, fun _ hr => absurd hr List.not_mem_nil, .nil⟩

/-- A change of one resource that leaves it well made. -/
theorem changed (hs : Sound s) (id : Nat) {f : Resource → Resource}
    (hn : ∀ r, (f r).singular = r.singular)
    (hw : ∀ r, s.resources[id]? = some r → r.WellMade → (f r).WellMade) :
    Sound (s.changed id f) := by
  have back : ∀ r ∈ (s.changed id f).resources, r.WellMade ∧
      ∃ r₀ ∈ s.resources, r.singular = r₀.singular := by
    intro r hr
    obtain ⟨i, hi⟩ := List.mem_iff_getElem?.1 hr
    rw [getElem?_changed, Option.map_eq_some_iff] at hi
    obtain ⟨r₀, hr₀, rfl⟩ := hi
    have hmem := List.mem_of_getElem? hr₀
    split
    · rename_i hi
      subst hi
      exact ⟨hw r₀ hr₀ (hs.wellMade r₀ hmem), r₀, hmem, hn r₀⟩
    · exact ⟨hs.wellMade r₀ hmem, r₀, hmem, rfl⟩
  refine ⟨fun r hr => (back r hr).1, fun r hr => ?_, hs.sorted⟩
  obtain ⟨-, r₀, hr₀, hn₀⟩ := back r hr
  rw [hn₀]
  exact hs.known r₀ hr₀

theorem added (hs : Sound s) {r : Resource} (hw : r.WellMade) : Sound (s.added r) := by
  refine ⟨fun q hq => ?_, fun q hq => ?_, pairwise_insertSorted hs.sorted _ _⟩
  · rcases List.mem_append.1 hq with hq | hq
    · exact hs.wellMade q hq
    · rw [List.mem_singleton.1 hq]
      exact hw
  · exact exists_lookup_added hs.known r q hq

end Sound

theorem Harvest.sound {pending parents : List String} {ids : List Nat}
    (h : Harvest (ParentPopulated doc
      (fun pending singular pattern schema s id s' =>
        Succeeds doc pending singular pattern schema s id s' ∧
          (schema.reference = none → ('/' ∉ singular.toList → Plain pattern) →
            Consistent doc s → Sound s → Sound s')) pending) parents s ids s')
    (hc : Consistent doc s) (hs : Sound s) : Sound s' := by
  induction h with
  | nil s => exact hs
  | cons h₁ _ ih =>
    obtain ⟨_, _, -, ht, hsucc, hm⟩ := h₁
    exact ih (hsucc.consistent hc)
      (hm (Document.reference_of_resolveSchema ht) (fun _ => .nil) hc hs)

/-- **Populating keeps what is known of resources.** -/
theorem Succeeds.sound {pending : List String} {singular : String} {pattern : List String}
    {schema : Schema} {id : Nat} (h : Succeeds doc pending singular pattern schema s id s')
    (hr : schema.reference = none) (hp : '/' ∉ singular.toList → Plain pattern)
    (hc : Consistent doc s) (hs : Sound s) : Sound s' := by
  refine populating_induction (M := fun _ singular pattern schema s _ s' =>
    schema.reference = none → ('/' ∉ singular.toList → Plain pattern) → Consistent doc s →
      Sound s → Sound s') ?_ ?_ ?_ h hr hp hc hs
  · intro _ singular pattern _ s id hl _ hp hc hs
    refine hs.changed id (withPattern_singular pattern) fun r hr hw => ?_
    obtain ⟨q, hq, hn⟩ := hc.getElem?_of_lookup hl
    rw [hr] at hq
    cases hq
    exact wellMade_withPattern hw (hn ▸ hp)
  · intro _ singular pattern schema s _ _ hr hp _ hs
    exact hs.added (wellMade_inferred hr hp)
  · intro _ singular _ schema s d parents s₁ _ _ _ hh hr _ hc hs
    exact (Harvest.sound hh hc hs).added (wellMade_declared hr)

/-- **A path keeps what is known of resources.** -/
theorem Sound.visit {path : String} {item : PathItem} {u : PUnit} (hs : Sound s)
    (hc : Consistent doc s) (h : visit doc start path item s = .ok u s') : Sound s' := by
  rcases visit_cases h with ⟨c, notes, id, s₁, hcon, hp, rfl⟩ |
    ⟨-, ⟨notes, rfl⟩ | ⟨pattern, name, m, notes, -, -, rfl⟩⟩
  · have hw := Document.wellMade_of_contribution hcon
    have hs₁ : Sound s₁ := hp.sound hw.reference hw.plain
      ⟨hc.indexed, hc.earlier, hc.contained⟩ ⟨hs.wellMade, hs.known, hs.sorted⟩
    refine hs₁.changed id (fun _ => rfl) fun r _ hr => ?_
    exact ⟨hr.reference, hr.plain, hr.plural, hr.deletable.fold hw.deletable⟩
  · exact ⟨hs.wellMade, hs.known, hs.sorted⟩
  · exact ⟨hs.wellMade, hs.known, hs.sorted⟩

theorem Sound.attach {pattern : String} {methods : List CustomMethod} {u : PUnit} (hs : Sound s)
    (h : attach pattern methods s = .ok u s') : Sound s' := by
  rcases attach_cases h with ⟨id, -, rfl⟩ | ⟨-, notes, rfl⟩
  · refine hs.changed id (fun _ => rfl) fun r _ hr => ?_
    exact ⟨hr.reference, hr.plain, hr.plural, hr.deletable⟩
  · exact ⟨hs.wellMade, hs.known, hs.sorted⟩

/-! ## Why a resource is there -/

/-- The resource at one place contains the one at another. -/
def Contains (s : Survey) (parent child : Nat) : Prop :=
  ∃ r, s.resources[child]? = some r ∧ parent ∈ r.parents

/-- What contains a resource contains it still when one is added. -/
theorem Contains.added {a b : Nat} (h : s.Contains a b) (r : Resource) :
    (s.added r).Contains a b := by
  obtain ⟨q, hq, ha⟩ := h
  exact ⟨q, getElem?_added_of_getElem? r hq, ha⟩

theorem Grown.contains (h : Grown s s') {p c : Nat} (hc : s.Contains p c) : s'.Contains p c := by
  obtain ⟨r, hr, hp⟩ := hc
  exact ⟨r, h.getElem? hr, hp⟩

theorem Contains.changed {p c : Nat} (hc : s.Contains p c) (id : Nat) {f : Resource → Resource}
    (hf : ∀ r, (f r).parents = r.parents) : (s.changed id f).Contains p c := by
  obtain ⟨r, hr, hp⟩ := hc
  refine ⟨_, by rw [getElem?_changed, hr, Option.map_some], ?_⟩
  split
  · rw [hf]
    exact hp
  · exact hp

/-- The resource at one place is the one at another, or contains it at some remove. -/
abbrev Above (s : Survey) : Nat → Nat → Prop := Relation.ReflTransGen s.Contains

theorem Above.imp (step : ∀ a b, s.Contains a b → s'.Contains a b) {i j : Nat}
    (h : s.Above i j) : s'.Above i j :=
  Relation.ReflTransGen.mono step _ _ h

theorem Harvest.above {pending parents : List String} {ids : List Nat}
    (h : Harvest (ParentPopulated doc
      (fun pending singular pattern schema s id s' =>
        Succeeds doc pending singular pattern schema s id s' ∧
          ∀ i, s.resources.length ≤ i → i < s'.resources.length → s'.Above i id) pending)
      parents s ids s') :
    Grown s s' ∧ ∀ i, s.resources.length ≤ i → i < s'.resources.length →
      ∃ p ∈ ids, s'.Above i p := by
  induction h with
  | nil s => exact ⟨.refl s, fun i hi hi' => absurd hi' (Nat.not_lt.2 hi)⟩
  | @cons _ _ id ids s s₁ s₂ h₁ _ ih =>
    obtain ⟨_, _, -, -, hsucc, hm⟩ := h₁
    obtain ⟨hgrown, hrest⟩ := ih
    refine ⟨hsucc.grown_of_nil.trans hgrown, fun i hi hi' => ?_⟩
    by_cases hlt : i < s₁.resources.length
    · exact ⟨id, List.mem_cons_self, Above.imp (fun _ _ => hgrown.contains) (hm i hi hlt)⟩
    · obtain ⟨p, hp, hab⟩ := hrest i (Nat.not_lt.1 hlt) hi'
      exact ⟨p, List.mem_cons_of_mem _ hp, hab⟩

/-- **What populating adds contains what is populated**, or is it. -/
theorem Succeeds.above {pending : List String} {singular : String} {pattern : List String}
    {schema : Schema} {id : Nat} (h : Succeeds doc pending singular pattern schema s id s') :
    ∀ i, s.resources.length ≤ i → i < s'.resources.length → s'.Above i id := by
  refine populating_induction (M := fun _ _ _ _ s id s' =>
    ∀ i, s.resources.length ≤ i → i < s'.resources.length → s'.Above i id) ?_ ?_ ?_ h
  · intro _ _ pattern _ s id _ i hi hi'
    rw [Survey.changed, List.length_modify] at hi'
    exact absurd hi' (Nat.not_lt.2 hi)
  · intro _ singular pattern schema s _ _ i hi hi'
    rw [Survey.added, List.length_append, List.length_singleton] at hi'
    obtain rfl : i = s.resources.length := by omega
    exact .refl
  · intro pending singular _ schema s d parents s₁ _ _ _ hh i hi hi'
    obtain ⟨hgrown, habove⟩ := Harvest.above hh
    rw [Survey.added, List.length_append, List.length_singleton] at hi'
    by_cases hlt : i < s₁.resources.length
    · obtain ⟨p, hp, hab⟩ := habove i hi hlt
      have hnew : (s₁.added (declared singular d parents schema)).Contains p
          s₁.resources.length :=
        ⟨_, getElem?_added_length _ _, hp⟩
      exact .tail (Above.imp (fun _ _ hc => hc.added _) hab) hnew
    · obtain rfl : i = s₁.resources.length := by omega
      exact .refl

/-- Every resource has methods, or contains one that has. -/
def Rooted (s : Survey) : Prop :=
  ∀ i < s.resources.length, ∃ j r, s.Above i j ∧ s.resources[j]? = some r ∧ r.methods ≠ {}

theorem Rooted.changed (hs : Rooted s) (id : Nat) {f : Resource → Resource}
    (hp : ∀ r, (f r).parents = r.parents) (hm : ∀ r, r.methods ≠ {} → (f r).methods ≠ {}) :
    Rooted (s.changed id f) := by
  intro i hi
  rw [Survey.changed, List.length_modify] at hi
  obtain ⟨j, r, hab, hr, hne⟩ := hs i hi
  refine ⟨j, _, Above.imp (fun _ _ hc => hc.changed id hp) hab,
    by rw [getElem?_changed, hr, Option.map_some], ?_⟩
  split
  · exact hm r hne
  · exact hne

/-- **A path adds only resources that have methods or contain one that has.** -/
theorem Rooted.visit {path : String} {item : PathItem} {u : PUnit} (hs : Rooted s)
    (hc : Consistent doc s) (h : visit doc start path item s = .ok u s') : Rooted s' := by
  rcases visit_cases h with ⟨c, notes, id, s₁, hcon, hp, rfl⟩ |
    ⟨-, ⟨notes, rfl⟩ | ⟨pattern, name, m, notes, -, -, rfl⟩⟩
  · have hw := Document.wellMade_of_contribution hcon
    have hs₀ : Rooted (s.withNotes notes) := hs
    have hfold : ∀ r, r.methods ≠ {} → (offering c.methods r).methods ≠ {} :=
      fun r hr => Methods.fold_ne_empty (.inl hr)
    have hparents : ∀ r, (offering c.methods r).parents = r.parents := fun _ => rfl
    rcases hp.grown with hg | ⟨-, rfl⟩
    · intro i hi
      rw [Survey.changed, List.length_modify] at hi
      by_cases hlt : i < s.resources.length
      · obtain ⟨j, r, hab, hr, hne⟩ := hs₀ i hlt
        refine ⟨j, _, Above.imp (fun _ _ hc => (hg.contains hc).changed id hparents) hab,
          by rw [getElem?_changed, hg.getElem? hr, Option.map_some], ?_⟩
        split
        · exact hfold r hne
        · exact hne
      · have hcon₀ : Consistent doc (s.withNotes notes) := ⟨hc.indexed, hc.earlier, hc.contained⟩
        obtain ⟨r, hr, -⟩ := (hp.consistent hcon₀).getElem?_of_lookup hp.lookup
        have hab := hp.above i (Nat.not_lt.1 hlt) hi
        refine ⟨id, offering c.methods r,
          Above.imp (fun _ _ hc => hc.changed id hparents) hab,
          by rw [getElem?_changed, hr, Option.map_some, if_pos rfl], ?_⟩
        exact Methods.fold_ne_empty (.inr hw.nonempty)
    · refine Rooted.changed (Rooted.changed hs₀ id (withPattern_parents c.pattern) ?_) id
        hparents hfold
      intro r hr
      unfold Resource.withPattern
      split <;> exact hr
  · exact hs
  · exact hs

theorem Rooted.attach {pattern : String} {methods : List CustomMethod} {u : PUnit} (hs : Rooted s)
    (h : attach pattern methods s = .ok u s') : Rooted s' := by
  rcases attach_cases h with ⟨id, -, rfl⟩ | ⟨-, notes, rfl⟩
  · exact hs.changed id (fun _ => rfl) fun _ hr => hr
  · exact hs

end Survey

/-- What is known of the survey that a finished graph was read off. -/
theorem Document.exists_sound {doc : Document} {given : Option String} {start : String}
    {g : ResourceGraph} (h : doc.resources given start = .ok g) :
    ∃ s, Survey.Consistent doc s ∧ Survey.Sound s ∧ Survey.Rooted s ∧
      g.resources = s.resources ∧ g.index = s.index := by
  obtain ⟨s, ⟨hc, hs, hroot⟩, hr, hi⟩ := Survey.exists_survey_of_resources h
    (P := fun _ s => Survey.Consistent doc s ∧ Survey.Sound s ∧ Survey.Rooted s)
    ⟨.empty doc, .empty, fun i hi => absurd hi (Nat.not_lt_zero i)⟩
    (fun _ _ _ _ _ hv ⟨hc, hs, hroot⟩ => ⟨hc.visit hv, hs.visit hc hv, hroot.visit hc hv⟩)
    fun _ _ _ _ ha ⟨hc, hs, hroot⟩ => ⟨hc.attach ha, hs.attach ha, hroot.attach ha⟩
  exact ⟨s, hc, hs, hroot, hr, hi⟩

end ResourceCli
