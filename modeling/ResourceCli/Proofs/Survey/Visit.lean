import ResourceCli.Proofs.Survey.Outcome

/-!
# What a path does to a survey

A path either contributes methods to a resource, or it is kept as a method with a name, or it
changes nothing but the notes.  Which of these, and what exactly is contributed, depends on the
document and the path alone (`Document.contribution?`), never on what was surveyed before.

* `visit_of_contribution`, `visit_custom`, `visit_idle`: the three cases, and `visit_cases`, which
  puts them together for a path that was surveyed.
* `resources_ok_iff`: the resources of a document are what is left of a walk over its paths and a
  walk over the methods kept on the way.
* `exists_survey_of_resources`: what every path and every attaching keeps holds of the survey that a
  finished graph is read off.  All that is said of whole surveys goes by this one induction.
-/

namespace ResourceCli

/-- What a path contributes: methods to the resource of a name, and the pattern and the schema that
the resource is made from if it is not there yet. -/
structure Contribution where
  /-- The name of the resource. -/
  singular : String
  /-- The pattern that the path gives it. -/
  pattern : List String
  /-- The schema that the path gives it. -/
  schema : Schema
  /-- The methods. -/
  methods : Methods

namespace Document

variable (doc : Document)

/-- What a captured schema contributes.  A schema that stands in the response itself has to declare
its resource; a schema that is referred to is followed, and without a declaration it takes its name
from the reference, and its resource's own placeholder from that name. -/
def contributionOf? (kind : PathKind) (pattern : List String) (methods : Methods)
    (captured : Schema) : Option Contribution :=
  match captured.reference with
  | none =>
    if captured.declared.isNone then none
    else some ⟨resourceSingular "" captured, pattern, captured, methods⟩
  | some reference => do
    let s ← (doc.resolveSchema captured).toOption
    let singular := resourceSingular (referenceName reference) s
    some ⟨singular,
      if kind == .collection && s.declared.isNone then pattern ++ [placeholder singular]
      else pattern, s, methods⟩

/-- The path of an entry as the survey looks at it. -/
def surveyedPath (start path : String) : String := (Text.stripStart start path).getD path

/-- What an entry of the paths contributes. -/
def contribution? (start : String) (entry : String × PathItem) : Option Contribution :=
  match splitCustomMethod? (surveyedPath start entry.1) with
  | some _ => none
  | none => do
    let (pattern, kind) ← classify? (surveyedPath start entry.1)
    let found ← (doc.scan kind entry.2).toOption
    let captured ← found.schema
    doc.contributionOf? kind pattern found.methods captured

end Document

namespace Survey

variable {doc : Document} {start path : String} {item : PathItem} {s s' : Survey} {u : PUnit}

/-- The resource with the methods of a path folded in. -/
def offering (methods : Methods) (r : Resource) : Resource :=
  { r with methods := r.methods.fold methods }

theorem contribute_ok_iff {singular : String} {pattern : List String} {schema : Schema}
    {methods : Methods} :
    contribute doc singular pattern schema methods s = .ok u s' ↔
      ∃ id s₁, Populates doc (depth doc) [] singular pattern schema s id s₁ ∧
        s' = s₁.changed id (offering methods) := by
  unfold contribute getOrPopulate
  simp only [bind_ok_iff, modifyAt_ok_iff]
  exact Iff.rfl

/-- The survey with other notes. -/
def withNotes (s : Survey) (notes : List Log.Event) : Survey := { s with notes := notes }

/-! ## A path that addresses resources -/

/-- A path that addresses resources, once it is scanned. -/
def visitFound (doc : Document) (raw : String) (pattern : List String) (kind : PathKind)
    (found : Discovery) : SurveyM Unit :=
  match found.schema with
  | none => pure ()
  | some captured =>
    match captured.reference with
    | none =>
      if captured.declared.isNone then
        warn
          "inline response schema without a reference or annotation; cannot name resource"
          [("path", .quoted raw)]
      else contribute doc (resourceSingular "" captured) pattern captured found.methods
    | some reference => do
      let s ← lift (doc.resolveSchema captured)
      let singular := resourceSingular (referenceName reference) s
      let pattern :=
        if kind == .collection && s.declared.isNone then pattern ++ [placeholder singular]
        else pattern
      contribute doc singular pattern s found.methods

/-- A scan that succeeds leaves nothing but a note behind. -/
theorem visitResource_of_scan {kind : PathKind} {found : Discovery}
    (hs : doc.scan kind item = .ok found) (raw path : String) (pattern : List String)
    (s : Survey) :
    ∃ notes, visitResource doc raw path pattern kind item s =
      visitFound doc raw pattern kind found (s.withNotes notes) := by
  unfold visitResource
  cases hl : found.listSkipped with
  | false =>
    refine ⟨s.notes, ?_⟩
    show EStateM.bind (lift (doc.scan kind item)) _ s = _
    rw [hs]
    show (ite (found.listSkipped = true) _ _ : SurveyM Unit) s = _
    rw [hl]
    rfl
  | true =>
    refine ⟨(s.noted .warn
      "LIST response has no array property with an items schema; skipping list"
      [("path", .quoted path)]).notes, ?_⟩
    show EStateM.bind (lift (doc.scan kind item)) _ s = _
    rw [hs]
    show (ite (found.listSkipped = true) _ _ : SurveyM Unit) s = _
    rw [hl]
    rfl

/-- A captured schema that contributes is contributed. -/
theorem visitFound_of_contributionOf {pattern : List String} {kind : PathKind}
    {found : Discovery} {captured : Schema} {c : Contribution}
    (hf : found.schema = some captured)
    (hc : doc.contributionOf? kind pattern found.methods captured = some c) (raw : String) :
    visitFound doc raw pattern kind found s = .ok u s' ↔
      contribute doc c.singular c.pattern c.schema c.methods s = .ok u s' := by
  unfold visitFound
  simp only [hf]
  unfold Document.contributionOf? at hc
  cases hr : captured.reference with
  | none =>
    rw [hr] at hc
    cases hd : captured.declared.isNone with
    | true => simp [hd] at hc
    | false =>
      simp only [hd, Bool.false_eq_true, if_false, Option.some.injEq] at hc
      subst hc
      simp only [Bool.false_eq_true, if_false]
  | some reference =>
    rw [hr] at hc
    cases ht : doc.resolveSchema captured with
    | error e => simp [ht, Except.toOption] at hc
    | ok t =>
      simp only [ht, Except.toOption, Option.bind_eq_bind, Option.bind_some,
        Option.some.injEq] at hc
      subst hc
      simp only [bind_ok_iff, lift_ok_iff]
      constructor
      · rintro ⟨_, _, ⟨h, rfl⟩, h'⟩
        cases h
        exact h'
      · intro h
        exact ⟨t, s, ⟨rfl, rfl⟩, h⟩

/-- What is captured without contributing leaves nothing but a note behind. -/
theorem visitFound_idle {pattern : List String} {kind : PathKind} {found : Discovery}
    (hc : (found.schema.bind (doc.contributionOf? kind pattern found.methods)) = none)
    (raw : String) (h : visitFound doc raw pattern kind found s = .ok u s') :
    ∃ notes, s' = s.withNotes notes := by
  unfold visitFound at h
  cases hf : found.schema with
  | none =>
    rw [hf] at h
    exact ⟨s.notes, (pure_ok_iff.1 h).2.symm⟩
  | some captured =>
    rw [hf, Option.bind_some, Document.contributionOf?] at hc
    simp only [hf] at h
    cases hr : captured.reference with
    | none =>
      simp only [hr] at h hc
      split at h
      · exact ⟨_, note_ok_iff.1 h⟩
      · rename_i hd
        rw [if_neg hd] at hc
        cases hc
    | some reference =>
      simp only [hr, bind_ok_iff, lift_ok_iff] at h
      obtain ⟨t, _, ⟨ht, -⟩, -⟩ := h
      rw [hr] at hc
      simp [ht, Except.toOption] at hc

/-- **A path that contributes** populates the resource of its contribution and folds the methods
in, but for a note. -/
theorem visit_of_contribution {c : Contribution}
    (hc : doc.contribution? start (path, item) = some c) (s : Survey) :
    ∃ notes, ∀ u s', visit doc start path item s = .ok u s' ↔
      ∃ id s₁,
        Populates doc (depth doc) [] c.singular c.pattern c.schema (s.withNotes notes) id s₁ ∧
        s' = s₁.changed id (offering c.methods) := by
  unfold Document.contribution? at hc
  unfold visit
  cases hp : splitCustomMethod? (Document.surveyedPath start path) with
  | some p => simp [hp] at hc
  | none =>
    simp only [hp, Option.bind_eq_bind, Option.bind_eq_some_iff] at hc
    obtain ⟨⟨pattern, kind⟩, hk, found, hs, captured, hf, hc⟩ := hc
    have hs' : doc.scan kind item = .ok found := by
      cases hscan : doc.scan kind item with
      | error e => simp [hscan, Except.toOption] at hs
      | ok f => simpa [hscan, Except.toOption] using hs
    obtain ⟨notes, hn⟩ := visitResource_of_scan hs' path (Document.surveyedPath start path)
      pattern s
    refine ⟨notes, fun u s' => ?_⟩
    unfold Document.surveyedPath at hp hk hn
    simp only [hp, hk, hn]
    rw [visitFound_of_contributionOf hf hc, contribute_ok_iff]

/-- **A path without a method name that contributes nothing** leaves nothing but notes behind. -/
theorem visit_idle (hp : splitCustomMethod? (Document.surveyedPath start path) = none)
    (hc : doc.contribution? start (path, item) = none)
    (h : visit doc start path item s = .ok u s') : ∃ notes, s' = s.withNotes notes := by
  unfold Document.contribution? at hc
  unfold visit at h
  simp only [hp] at hc
  unfold Document.surveyedPath at hp hc
  simp only [hp] at h
  cases hk : classify? ((Text.stripStart start path).getD path) with
  | none =>
    simp only [hk] at h
    exact ⟨_, note_ok_iff.1 h⟩
  | some pk =>
    obtain ⟨pattern, kind⟩ := pk
    simp only [hk, Option.bind_eq_bind, Option.bind_some] at h hc
    cases hs : doc.scan kind item with
    | error e =>
      simp only [visitResource, hs, bind_ok_iff, lift_ok_iff, reduceCtorEq, false_and,
        exists_false] at h
    | ok found =>
      obtain ⟨notes, hn⟩ := visitResource_of_scan hs path
        ((Text.stripStart start path).getD path) pattern s
      rw [hn] at h
      simp only [hs, Except.toOption, Option.bind_some] at hc
      obtain ⟨notes', rfl⟩ := visitFound_idle hc path h
      exact ⟨notes', rfl⟩

/-! ## A path with a method name -/

/-- The kept methods with one more for a pattern; a name that the pattern has already stays as it
is. -/
def keeping (pattern : String) (method : CustomMethod)
    (customs : List (String × List CustomMethod)) : List (String × List CustomMethod) :=
  let bucket := (customs.lookup pattern).getD []
  if bucket.any (·.name == method.name) then customs
  else Tree.insert pattern (bucket ++ [method]) customs

theorem keepCustom_eq (raw pattern : String) (method : CustomMethod) (s : Survey) :
    ∃ notes, keepCustom raw pattern method s =
      .ok PUnit.unit { s with notes := notes, customs := keeping pattern method s.customs } := by
  unfold keepCustom keeping
  cases hb : ((s.customs.lookup pattern).getD []).any (·.name == method.name) with
  | true =>
    refine ⟨(s.noted .warn "custom method already declared on another path; ignoring"
      [("path", .quoted raw)]).notes, ?_⟩
    simp only [hb, if_true]
    show (ite (((s.customs.lookup pattern).getD []).any _ = true) _ _ : SurveyM Unit) s = _
    rw [hb]
    rfl
  | false =>
    refine ⟨s.notes, ?_⟩
    simp only [hb, Bool.false_eq_true, if_false]
    show (ite (((s.customs.lookup pattern).getD []).any _ = true) _ _ : SurveyM Unit) s = _
    rw [hb]
    rfl

/-- A loop that at most warns about each item leaves nothing but notes behind. -/
theorem forIn_warn_eq {α : Type} (P : α → Bool) (message : String)
    (fields : α → List (String × Log.Datum)) (as : List α) (s : Survey) :
    ∃ notes, (forIn as PUnit.unit fun a _ =>
        if P a then do
          warn message (fields a)
          pure (ForInStep.yield PUnit.unit)
        else pure (ForInStep.yield PUnit.unit) : SurveyM PUnit) s =
      .ok PUnit.unit (s.withNotes notes) := by
  induction as generalizing s with
  | nil => exact ⟨s.notes, rfl⟩
  | cons a as ih =>
    rw [List.forIn_cons]
    cases hP : P a with
    | true =>
      obtain ⟨notes, h⟩ := ih (s.noted .warn message (fields a))
      exact ⟨notes, h⟩
    | false =>
      obtain ⟨notes, h⟩ := ih s
      exact ⟨notes, h⟩

theorem warnings_bind_ok_iff {α : Type} (P : α → Bool) (message : String)
    (fields : α → List (String × Log.Datum)) (as : List α) (s : Survey) :
    ∃ notes, ∀ (k : PUnit → SurveyM Unit) u s',
      ((forIn as PUnit.unit fun a _ =>
        if P a then do
          warn message (fields a)
          pure (ForInStep.yield PUnit.unit)
        else pure (ForInStep.yield PUnit.unit) : SurveyM PUnit) >>= k) s = .ok u s' ↔
      k PUnit.unit (s.withNotes notes) = .ok u s' := by
  obtain ⟨notes, hw⟩ := forIn_warn_eq P message fields as s
  refine ⟨notes, fun k u s' => ?_⟩
  rw [bind_ok_iff, hw]
  constructor
  · rintro ⟨_, _, h, h'⟩
    cases h
    exact h'
  · intro h
    exact ⟨_, _, rfl, h⟩

/-- **A path with a method name** keeps the method that it declares for its pattern, but for
notes. -/
theorem visit_custom {pattern name : String}
    (hp : splitCustomMethod? (Document.surveyedPath start path) = some (pattern, name))
    (doc : Document) (item : PathItem) (s : Survey) :
    ∃ notes, ∀ u s', visit doc start path item s = .ok u s' ↔
      ∃ m?, doc.customMethod? item name = .ok m? ∧
        s' = { s with
          notes := notes
          customs := m?.elim s.customs fun m => keeping pattern m s.customs } := by
  unfold Document.surveyedPath at hp
  unfold visit
  simp only [hp]
  unfold visitCustom
  cases hk : Document.keptVerb? item with
  | none =>
    refine ⟨s.notes, fun u s' => ?_⟩
    simp only [pure_ok_iff, Document.customMethod?, hk, Except.ok.injEq, exists_eq_left',
      Option.elim_none]
    exact ⟨fun h => h.2.symm, fun h => ⟨trivial, h.symm⟩⟩
  | some kept =>
    obtain ⟨verb, op⟩ := kept
    obtain ⟨notes, hw⟩ := warnings_bind_ok_iff (fun p : Verb × Operation => p.1 != verb)
      "custom method declares several verbs; keeping one"
      (fun p => [("method", .quoted name), ("kept", .quoted verb.name),
        ("ignored", .quoted p.1.name)]) item.declaredOperations s
    cases hm : doc.customMethod? item name with
    | error e =>
      refine ⟨notes, fun u s' => (hw _ u s').trans ?_⟩
      simp only [bind_ok_iff, lift_ok_iff, reduceCtorEq, false_and, exists_false]
    | ok m? =>
      cases m? with
      | none =>
        refine ⟨notes, fun u s' => (hw _ u s').trans ?_⟩
        show EStateM.Result.ok PUnit.unit (s.withNotes notes) = .ok u s' ↔ _
        simp only [EStateM.Result.ok.injEq, true_and, Except.ok.injEq, exists_eq_left',
          Option.elim_none, eq_comm (b := s')]
        exact Iff.rfl
      | some m =>
        obtain ⟨notes', hkeep⟩ := keepCustom_eq path pattern m (s.withNotes notes)
        refine ⟨notes', fun u s' => (hw _ u s').trans ?_⟩
        show keepCustom path pattern m (s.withNotes notes) = .ok u s' ↔ _
        rw [hkeep]
        simp only [EStateM.Result.ok.injEq, true_and, Except.ok.injEq, exists_eq_left',
          Option.elim_some, eq_comm (b := s')]
        exact Iff.rfl

/-- The survey with another method kept. -/
def kept (s : Survey) (notes : List Log.Event) (pattern : String) (method : CustomMethod) :
    Survey :=
  { s with notes := notes, customs := keeping pattern method s.customs }

/-- **What a path does** when it is surveyed without a failure. -/
theorem visit_cases (h : visit doc start path item s = .ok u s') :
    (∃ c notes id s₁, doc.contribution? start (path, item) = some c ∧
      Succeeds doc [] c.singular c.pattern c.schema (s.withNotes notes) id s₁ ∧
      s' = s₁.changed id (offering c.methods)) ∨
    doc.contribution? start (path, item) = none ∧
      ((∃ notes, s' = s.withNotes notes) ∨
        ∃ pattern name m notes,
          splitCustomMethod? (Document.surveyedPath start path) = some (pattern, name) ∧
          doc.customMethod? item name = .ok (some m) ∧ s' = s.kept notes pattern m) := by
  cases hc : doc.contribution? start (path, item) with
  | some c =>
    obtain ⟨notes, hv⟩ := visit_of_contribution hc s
    obtain ⟨id, s₁, hp, hs⟩ := (hv u s').1 h
    exact .inl ⟨c, notes, id, s₁, rfl, ⟨_, hp⟩, hs⟩
  | none =>
    refine .inr ⟨rfl, ?_⟩
    cases hp : splitCustomMethod? (Document.surveyedPath start path) with
    | none => exact .inl (visit_idle hp hc h)
    | some p =>
      obtain ⟨pattern, name⟩ := p
      obtain ⟨notes, hv⟩ := visit_custom hp doc item s
      obtain ⟨m?, hm, rfl⟩ := (hv u s').1 h
      cases m? with
      | none => exact .inl ⟨notes, rfl⟩
      | some m => exact .inr ⟨pattern, name, m, notes, rfl, hm, rfl⟩

/-! ## A whole document -/

/-- The resource with methods of its own added. -/
def extendedBy (methods : List CustomMethod) (r : Resource) : Resource :=
  { r with customs := r.customs ++ methods }

/-- Methods go to the first resource of their pattern, and nowhere if there is none. -/
theorem attach_eq (pattern : String) (methods : List CustomMethod) (s : Survey) :
    ∃ notes, attach pattern methods s =
      .ok PUnit.unit (match s.resources.findIdx? (·.patternPath == pattern) with
        | some id => s.changed id (extendedBy methods)
        | none => s.withNotes notes) := by
  have hget : (EStateM.get : SurveyM Survey) s = .ok s s := rfl
  unfold attach
  cases hf : s.resources.findIdx? (·.patternPath == pattern) with
  | some id =>
    refine ⟨s.notes, ?_⟩
    simp only [bind, EStateM.bind, hget, hf]
    rfl
  | none =>
    refine ⟨(s.noted .warn "custom methods do not match any resource pattern; dropping them"
      [("pattern", .quoted pattern)]).notes, ?_⟩
    simp only [bind, EStateM.bind, hget, hf]
    rfl

/-- What attaching does. -/
theorem attach_cases {pattern : String} {methods : List CustomMethod}
    (h : attach pattern methods s = .ok u s') :
    (∃ id, s.resources.findIdx? (·.patternPath == pattern) = some id ∧
      s' = s.changed id (extendedBy methods)) ∨
    s.resources.findIdx? (·.patternPath == pattern) = none ∧ ∃ notes, s' = s.withNotes notes := by
  obtain ⟨notes, ha⟩ := attach_eq pattern methods s
  rw [ha] at h
  cases h
  cases hf : s.resources.findIdx? (·.patternPath == pattern) with
  | some id => exact .inl ⟨id, rfl, rfl⟩
  | none => exact .inr ⟨rfl, notes, rfl⟩

theorem run_ok_iff {given : Option String} {g : ResourceGraph} :
    run doc given start s = .ok g s' ↔
      ∃ s₁, Walk (fun entry s s' => visit doc start entry.1 entry.2 s = .ok PUnit.unit s')
          doc.paths s s₁ ∧
        Walk (fun bucket s s' => attach bucket.1 bucket.2 s = .ok PUnit.unit s')
          s₁.customs s₁ s' ∧
        serverUrl doc given start = .ok g.serverUrl ∧
        g.resources = s'.resources ∧ g.index = s'.index := by
  unfold run
  have hpaths := forIn_ok_iff
    (fun entry : String × PathItem => visit doc start entry.1 entry.2) doc.paths s
  have hcustoms := fun s₁ : Survey => forIn_ok_iff
    (fun bucket : String × List CustomMethod => attach bucket.1 bucket.2) s₁.customs s₁
  rw [bind_ok_iff]
  constructor
  · rintro ⟨_, s₁, hwalk, h⟩
    rw [bind_ok_iff] at h
    obtain ⟨_, _, hget, h⟩ := h
    rw [get_ok_iff] at hget
    obtain ⟨rfl, rfl⟩ := hget
    rw [bind_ok_iff] at h
    obtain ⟨_, s₂, hattach, h⟩ := h
    rw [bind_ok_iff] at h
    obtain ⟨url, _, hurl, h⟩ := h
    rw [lift_ok_iff] at hurl
    obtain ⟨hurl, rfl⟩ := hurl
    rw [bind_ok_iff] at h
    obtain ⟨_, _, hget, h⟩ := h
    rw [get_ok_iff] at hget
    obtain ⟨rfl, rfl⟩ := hget
    rw [pure_ok_iff] at h
    obtain ⟨rfl, rfl⟩ := h
    exact ⟨_, (hpaths _ _).1 hwalk, (hcustoms _ _ _).1 hattach, hurl, rfl, rfl⟩
  · rintro ⟨s₁, hwalk, hattach, hurl, hr, hi⟩
    refine ⟨PUnit.unit, s₁, (hpaths _ _).2 hwalk, ?_⟩
    rw [bind_ok_iff]
    refine ⟨s₁, s₁, rfl, ?_⟩
    rw [bind_ok_iff]
    refine ⟨PUnit.unit, s', (hcustoms _ _ _).2 hattach, ?_⟩
    rw [bind_ok_iff]
    refine ⟨g.serverUrl, s', lift_ok_iff.2 ⟨hurl, rfl⟩, ?_⟩
    rw [bind_ok_iff]
    refine ⟨s', s', rfl, ?_⟩
    rw [pure_ok_iff, ← hr, ← hi]
    exact ⟨rfl, rfl⟩

/-- **The resources of a document** are what a walk over its paths leaves behind once the methods
kept on the way are attached. -/
theorem resources_ok_iff {given : Option String} {g : ResourceGraph} :
    doc.resources given start = .ok g ↔
      ∃ s₁ s₂ : Survey,
        Walk (fun entry s s' => visit doc start entry.1 entry.2 s = .ok PUnit.unit s')
          doc.paths {} s₁ ∧
        Walk (fun bucket s s' => attach bucket.1 bucket.2 s = .ok PUnit.unit s')
          s₁.customs s₁ s₂ ∧
        serverUrl doc given start = .ok g.serverUrl ∧
        g.resources = s₂.resources ∧ g.index = s₂.index := by
  have hrun : doc.resources given start = .ok g ↔ ∃ s₂, run doc given start {} = .ok g s₂ := by
    unfold Document.resources Document.survey
    cases h : run doc given start {} with
    | ok g' s₂ => simp
    | error e s₂ => simp
  rw [hrun]
  simp only [run_ok_iff]
  exact exists_comm

/-- **What every step of a survey keeps, a finished survey has.**  `P` is said of the paths that are
surveyed so far and of what is found on them; each path takes itself on, and attaching the methods
that were kept on the way changes nothing about it. -/
theorem exists_survey_of_resources {given : Option String} {g : ResourceGraph}
    (h : doc.resources given start = .ok g) {P : List (String × PathItem) → Survey → Prop}
    (hempty : P [] {})
    (hvisit : ∀ entry ∈ doc.paths, ∀ done s s',
      visit doc start entry.1 entry.2 s = .ok PUnit.unit s' → P done s → P (done ++ [entry]) s')
    (hattach : ∀ pattern methods s s', attach pattern methods s = .ok PUnit.unit s' →
      P doc.paths s → P doc.paths s') :
    ∃ s, P doc.paths s ∧ g.resources = s.resources ∧ g.index = s.index := by
  obtain ⟨s₁, s₂, hpaths, hcustoms, -, hr, hi⟩ := resources_ok_iff.1 h
  have h₁ : P doc.paths s₁ := hpaths.accumulates hvisit hempty
  have h₂ : P doc.paths s₂ := hcustoms.preserves (fun _ _ _ _ ha hs => hattach _ _ _ _ ha hs) h₁
  exact ⟨s₂, h₂, hr, hi⟩

end Survey

end ResourceCli
