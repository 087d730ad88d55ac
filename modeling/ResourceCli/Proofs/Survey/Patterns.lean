import ResourceCli.Proofs.Survey.Provenance

/-!
# Where patterns come from

A resource gets its pattern in one of three ways.  A path that contributes to it gives it one, its
own declaration gives it one, or it has none, which happens to a resource that is only met as what
contains another one.  `Document.pattern_origin` says so for every resource of a document, and
`Document.pattern_of_contribution` says which pattern a path gives.

The three ways differ in what is asked of a pattern.  A path only contributes if its segments are
literals and placeholders in turn; a declared pattern is cut at its slashes and taken as it is.
What all of them have in common is that no segment before the last one is empty or has a slash in it
(`Document.plain_collectionSegments`).
-/

namespace ResourceCli

/-- Where the pattern of a resource comes from. -/
inductive PatternOrigin (doc : Document) (start : String) (r : Resource) : Prop
  /-- Nothing gives it a pattern. -/
  | none (h : r.pattern = [])
  /-- A path gives it the pattern. -/
  | path (entry : String × PathItem) (c : Contribution) (hmem : entry ∈ doc.paths)
      (hc : doc.contribution? start entry = some c) (h : r.pattern = c.pattern)
  /-- Its own declaration gives it the pattern. -/
  | declaration (d : Declaration) (text : String) (hd : r.schema.declared = some d)
      (htext : d.patterns.head? = some text) (h : r.pattern = splitPattern text)

/-- A pattern that a path gives to the resource that it contributes to, or no pattern. -/
def Document.Gives (doc : Document) (start : String) (pattern : List String) : Prop :=
  pattern = [] ∨ ∃ entry ∈ doc.paths, ∃ c, doc.contribution? start entry = some c ∧
    c.pattern = pattern

namespace PatternOrigin

variable {doc : Document} {start : String} {r q : Resource}

/-- The origin is a matter of the pattern and the schema alone. -/
theorem congr (h : PatternOrigin doc start r) (hp : q.pattern = r.pattern)
    (hs : q.schema = r.schema) : PatternOrigin doc start q := by
  cases h with
  | none h => exact .none (hp.trans h)
  | path entry c hmem hc h => exact .path entry c hmem hc (hp.trans h)
  | declaration d text hd htext h =>
    rw [← hs] at hd
    exact .declaration d text hd htext (hp.trans h)

theorem of_gives (h : doc.Gives start r.pattern) : PatternOrigin doc start r := by
  rcases h with h | ⟨entry, hmem, c, hc, hp⟩
  · exact .none h
  · exact .path entry c hmem hc hp.symm

theorem withPattern {pattern : List String} (h : PatternOrigin doc start r)
    (hp : doc.Gives start pattern) :
    PatternOrigin doc start (Survey.Resource.withPattern pattern r) := by
  unfold Survey.Resource.withPattern
  split
  · exact of_gives hp
  · exact h

theorem declared {singular : String} {d : Declaration} {parents : List Nat} {schema : Schema}
    (hd : schema.declared = some d) :
    PatternOrigin doc start (Survey.declared singular d parents schema) := by
  cases ht : d.patterns.head? with
  | none =>
    refine .none ?_
    show (d.patterns.head?.map splitPattern).getD [] = []
    rw [ht]
    rfl
  | some text =>
    refine .declaration d text hd ht ?_
    show (d.patterns.head?.map splitPattern).getD [] = splitPattern text
    rw [ht]
    rfl

end PatternOrigin

namespace Survey

/-- The pattern of every resource found so far comes from somewhere. -/
def Traced (doc : Document) (start : String) (s : Survey) : Prop :=
  ∀ r ∈ s.resources, PatternOrigin doc start r

variable {doc : Document} {start : String} {s s' : Survey}

theorem Traced.changed (hs : Traced doc start s) (id : Nat) {f : Resource → Resource}
    (hf : ∀ r, PatternOrigin doc start r → PatternOrigin doc start (f r)) :
    Traced doc start (s.changed id f) := by
  intro r hr
  obtain ⟨i, hi⟩ := List.mem_iff_getElem?.1 hr
  rw [getElem?_changed, Option.map_eq_some_iff] at hi
  obtain ⟨r₀, hr₀, rfl⟩ := hi
  have horigin := hs r₀ (List.mem_of_getElem? hr₀)
  split
  · exact hf r₀ horigin
  · exact horigin

theorem Traced.added (hs : Traced doc start s) {r : Resource} (hr : PatternOrigin doc start r) :
    Traced doc start (s.added r) := by
  intro q hq
  rcases List.mem_append.1 hq with hq | hq
  · exact hs q hq
  · rw [List.mem_singleton.1 hq]
    exact hr

theorem Harvest.traced {pending parents : List String} {ids : List Nat}
    (h : Harvest (ParentPopulated doc
      (fun pending singular pattern schema s id s' =>
        Succeeds doc pending singular pattern schema s id s' ∧
          (doc.Gives start pattern → Traced doc start s → Traced doc start s')) pending)
      parents s ids s') (hs : Traced doc start s) : Traced doc start s' := by
  refine h.preserves (fun _ _ _ _ hstep hs => ?_) hs
  obtain ⟨_, _, -, -, -, hm⟩ := hstep
  exact hm (.inl rfl) hs

/-- **Populating takes a pattern from a path, or else from a declaration.** -/
theorem Succeeds.traced {pending : List String} {singular : String} {pattern : List String}
    {schema : Schema} {id : Nat} (h : Succeeds doc pending singular pattern schema s id s')
    (hp : doc.Gives start pattern) (hs : Traced doc start s) : Traced doc start s' := by
  refine populating_induction (M := fun _ _ pattern _ s _ s' =>
    doc.Gives start pattern → Traced doc start s → Traced doc start s') ?_ ?_ ?_ h hp hs
  · intro _ _ pattern _ _ id _ hp hs
    exact hs.changed id fun r hr => hr.withPattern hp
  · intro _ singular pattern schema _ _ _ hp hs
    exact hs.added (PatternOrigin.of_gives hp)
  · intro _ _ _ _ _ d parents _ _ _ hd hh _ hs
    exact (Harvest.traced hh hs).added (.declared hd)

theorem Traced.visit {entry : String × PathItem} {u : PUnit} (hmem : entry ∈ doc.paths)
    (hs : Traced doc start s) (h : visit doc start entry.1 entry.2 s = .ok u s') :
    Traced doc start s' := by
  rcases visit_cases h with ⟨c, notes, id, s₁, hc, hp, rfl⟩ |
    ⟨-, ⟨notes, rfl⟩ | ⟨pattern, name, m, notes, -, -, rfl⟩⟩
  · have hgives : doc.Gives start c.pattern := .inr ⟨entry, hmem, c, hc, rfl⟩
    have hs₁ : Traced doc start s₁ := hp.traced hgives hs
    exact hs₁.changed id fun r hr => hr.congr rfl rfl
  · exact hs
  · exact hs

theorem Traced.attach {pattern : String} {methods : List CustomMethod} {u : PUnit}
    (hs : Traced doc start s) (h : attach pattern methods s = .ok u s') : Traced doc start s' := by
  rcases attach_cases h with ⟨id, -, rfl⟩ | ⟨-, notes, rfl⟩
  · exact hs.changed id fun r hr => hr.congr rfl rfl
  · exact hs

end Survey

namespace Document

variable {doc : Document} {given : Option String} {start : String} {g : ResourceGraph}
  {r : Resource}

/-- **The pattern of every resource of a document comes from a path or a declaration**, unless
there is none. -/
theorem pattern_origin (h : doc.resources given start = .ok g) (hr : r ∈ g.resources) :
    PatternOrigin doc start r := by
  obtain ⟨s, hs, hgr, -⟩ := Survey.exists_survey_of_resources h
    (P := fun _ s => Survey.Traced doc start s) (fun _ hr => absurd hr List.not_mem_nil)
    (fun _ he _ _ _ hv hs => hs.visit he hv) fun _ _ _ _ ha hs => hs.attach ha
  exact hs r (hgr ▸ hr)

/-- A path gives its own segments as a pattern; if it addresses all resources of a kind and nothing
is declared, the placeholder that is named after the resource comes behind them. -/
theorem pattern_of_contribution {entry : String × PathItem} {c : Contribution}
    (h : doc.contribution? start entry = some c) :
    ∃ segments kind, classify? (surveyedPath start entry.1) = some (segments, kind) ∧
      c.pattern = if kind == .collection && c.schema.declared.isNone then
        segments ++ [placeholder c.singular] else segments := by
  unfold contribution? at h
  cases hp : splitCustomMethod? (surveyedPath start entry.1) with
  | some p => simp [hp] at h
  | none =>
    simp only [hp, Option.bind_eq_bind, Option.bind_eq_some_iff] at h
    obtain ⟨⟨segments, kind⟩, hk, found, -, captured, -, hc⟩ := h
    refine ⟨segments, kind, hk, ?_⟩
    unfold contributionOf? at hc
    cases hr : captured.reference with
    | none =>
      rw [hr] at hc
      dsimp only at hc
      split at hc
      · cases hc
      · rename_i hdeclared
        cases hc
        rw [Bool.not_eq_true] at hdeclared
        rw [hdeclared, Bool.and_false, if_neg Bool.false_ne_true]
    | some reference =>
      rw [hr] at hc
      obtain ⟨t, -, hc⟩ := Option.bind_eq_some_iff.1 hc
      cases hc
      rfl

/-- A path gives a pattern that is plain but for its last segment. -/
theorem plain_dropLast_of_contribution {entry : String × PathItem} {c : Contribution}
    (h : doc.contribution? start entry = some c) : Plain c.pattern.dropLast := by
  obtain ⟨segments, kind, hk, hpattern⟩ := pattern_of_contribution h
  have hplain : Plain segments := (of_classify hk).1
  rw [hpattern]
  split
  · rw [List.dropLast_concat]
    exact hplain
  · exact hplain.dropLast

/-- **The segments before a resource's own placeholder are plain.** -/
theorem plain_collectionSegments (h : doc.resources given start = .ok g)
    (hr : r ∈ g.resources) : Plain r.collectionSegments := by
  unfold Resource.collectionSegments
  cases pattern_origin h hr with
  | none hp =>
    rw [hp]
    exact .nil
  | path entry c _ hc hp =>
    rw [hp]
    exact plain_dropLast_of_contribution hc
  | declaration d text _ _ hp =>
    rw [hp]
    exact (plain_splitPattern text).dropLast

/-- No segment of a pattern is empty. -/
theorem ne_empty_of_mem_pattern (h : doc.resources given start = .ok g) (hr : r ∈ g.resources)
    {segment : String} (hmem : segment ∈ r.pattern) : segment ≠ "" := by
  cases pattern_origin h hr with
  | none hp => simp [hp] at hmem
  | path entry c _ hc hp =>
    obtain ⟨segments, kind, hk, hpattern⟩ := pattern_of_contribution hc
    have hplain : Plain segments := (of_classify hk).1
    rw [hp, hpattern] at hmem
    split at hmem
    · rcases List.mem_append.1 hmem with hmem | hmem
      · exact (hplain segment hmem).1
      · rw [List.mem_singleton.1 hmem]
        intro he
        have hlength := congrArg String.length he
        simp [placeholder] at hlength
    · exact (hplain segment hmem).1
  | declaration d text _ _ hp =>
    rw [hp] at hmem
    exact (plain_splitPattern text segment hmem).1

end Document
end ResourceCli
