import ResourceCli.Proofs.Survey.Hierarchy

/-!
# Where the methods of a resource come from

A resource has exactly the standard methods that some path contributes to its name.  Nothing is
lost: a contribution is folded into the resource that the index leads its name to, and whatever is
surveyed later, the index leads the name to that resource.  Nothing is invented, and nothing lands
elsewhere: a resource that the index does not lead to, because a containing resource took its name
while it was being populated, has no methods.

What holds after a stretch of paths is `Attributed`: the methods found under a name are the
contributions to it, folded in order.  `resources_methods` reads this off a finished graph, with two
consequences: of several ways to create a resource the first one of the document counts, and the
order of the paths does not matter for which methods there are.
-/

namespace ResourceCli

/-! ## The standard methods one by one -/

/-- The standard methods. -/
inductive StandardMethod
  /-- One is got. -/
  | get
  /-- They are listed. -/
  | list
  /-- One is created. -/
  | create
  /-- One is changed. -/
  | update
  /-- One is deleted. -/
  | delete
  deriving DecidableEq, Repr

namespace Methods

/-- Whether a method is among the methods. -/
def has (m : Methods) : StandardMethod → Bool
  | .get => m.get
  | .list => m.list
  | .create => m.create.isSome
  | .update => m.update
  | .delete => m.delete

@[simp] theorem has_empty (k : StandardMethod) : ({} : Methods).has k = false := by
  cases k <;> rfl

theorem has_fold (m n : Methods) (k : StandardMethod) :
    (m.fold n).has k = (m.has k || n.has k) := by
  cases k with
  | create => cases hm : m.create <;> simp [has, fold, hm]
  | _ => rfl

theorem has_foldl (l : List Methods) (m : Methods) (k : StandardMethod) :
    (l.foldl fold m).has k = (m.has k || l.any (·.has k)) := by
  induction l generalizing m with
  | nil => simp
  | cons n l ih => rw [List.foldl_cons, ih, has_fold, List.any_cons, Bool.or_assoc]

/-- Of several ways to create, the first one counts. -/
theorem create_foldl (l : List Methods) (m : Methods) :
    (l.foldl fold m).create = (m.create <|> l.findSome? (·.create)) := by
  induction l generalizing m with
  | nil => simp
  | cons n l ih =>
    rw [List.foldl_cons, ih, List.findSome?_cons]
    cases hm : m.create <;> cases hn : n.create <;> simp [fold, hm, hn]

end Methods

/-! ## What the paths of a document offer -/

namespace Document

/-- An entry of the paths offers methods to a name: without the start it has no method name and is
classified, its scan captures a schema that refers to another one or declares its resource, and the
name is that of the schema it stands for. -/
def Offers (doc : Document) (start : String) (entry : String × PathItem) (name : String)
    (methods : Methods) : Prop :=
  ∃ segments kind found captured target,
    splitCustomMethod? (surveyedPath start entry.1) = none ∧
    classify? (surveyedPath start entry.1) = some (segments, kind) ∧
    doc.scan kind entry.2 = .ok found ∧ found.schema = some captured ∧
    (captured.reference.isSome ∨ captured.declared.isSome) ∧
    doc.resolveSchema captured = .ok target ∧
    name = resourceSingular (captured.reference.elim "" referenceName) target ∧
    methods = found.methods

/-- An entry of the paths contributes a method to a name. -/
def Contributes (doc : Document) (start : String) (entry : String × PathItem) (name : String)
    (k : StandardMethod) : Prop :=
  ∃ methods, doc.Offers start entry name methods ∧ methods.has k = true

variable {doc : Document} {start : String} {entry : String × PathItem} {name : String}
  {methods : Methods}

theorem resolveSchema_of_reference_eq_none {s : Schema} (h : s.reference = none) :
    doc.resolveSchema s = .ok s := by
  rw [resolveSchema, dereference_of_reference_eq_none h]
  rfl

/-- What a captured schema contributes, it contributes to the name of the schema that it stands
for. -/
theorem exists_contributionOf_iff {kind : PathKind} {segments : List String} {captured : Schema} :
    (∃ c, doc.contributionOf? kind segments methods captured = some c ∧ c.singular = name) ↔
    (captured.reference.isSome ∨ captured.declared.isSome) ∧
      ∃ target, doc.resolveSchema captured = .ok target ∧
        name = resourceSingular (captured.reference.elim "" referenceName) target := by
  unfold contributionOf?
  cases hr : captured.reference with
  | none =>
    rw [resolveSchema_of_reference_eq_none hr]
    cases hd : captured.declared with
    | none => simp
    | some d =>
      simp only [Option.isNone_some, Bool.false_eq_true, if_false, Option.some.injEq,
        exists_eq_left', Option.isSome_none, Option.isSome_some, or_true, true_and,
        Except.ok.injEq, Option.elim_none]
      exact eq_comm
  | some r =>
    cases ht : doc.resolveSchema captured with
    | error e => simp [Except.toOption]
    | ok t =>
      simp only [Except.toOption, Option.bind_eq_bind, Option.bind_some, Option.some.injEq,
        exists_eq_left', Option.isSome_some, true_or, true_and, Except.ok.injEq,
        Option.elim_some]
      exact eq_comm

theorem contributionOf_methods {kind : PathKind} {segments : List String} {captured : Schema}
    {c : Contribution} (h : doc.contributionOf? kind segments methods captured = some c) :
    c.methods = methods := by
  unfold contributionOf? at h
  split at h
  · split at h
    · cases h
    · cases h
      rfl
  · obtain ⟨t, -, ht⟩ := Option.bind_eq_some_iff.1 h
    cases ht
    rfl

theorem toOption_eq_some_iff {ε α : Type} {x : Except ε α} {a : α} :
    x.toOption = some a ↔ x = .ok a := by
  cases x <;> simp [Except.toOption]

/-- What a path offers is what it contributes to a survey. -/
theorem offers_iff :
    doc.Offers start entry name methods ↔
      ∃ c, doc.contribution? start entry = some c ∧ c.singular = name ∧ c.methods = methods := by
  unfold Offers contribution?
  cases hp : splitCustomMethod? (surveyedPath start entry.1) with
  | some p => simp
  | none =>
    simp only [Option.bind_eq_bind, Option.bind_eq_some_iff, toOption_eq_some_iff, true_and]
    constructor
    · rintro ⟨segments, kind, found, captured, target, hk, hs, hf, hn, ht, rfl, rfl⟩
      obtain ⟨c, hc, hname⟩ := exists_contributionOf_iff.2 ⟨hn, target, ht, rfl⟩
      exact ⟨c, ⟨(segments, kind), hk, found, hs, captured, hf, hc⟩, hname,
        contributionOf_methods hc⟩
    · rintro ⟨c, ⟨⟨segments, kind⟩, hk, found, hs, captured, hf, hc⟩, hname, rfl⟩
      obtain ⟨hn, target, ht, hname⟩ := exists_contributionOf_iff.1 ⟨c, hc, hname⟩
      exact ⟨segments, kind, found, captured, target, hk, hs, hf, hn, ht, hname,
        contributionOf_methods hc⟩

/-- The methods that an entry contributes to a name; none if it contributes to another one. -/
def methodsFor (doc : Document) (start name : String) (entry : String × PathItem) :
    Option Methods :=
  (doc.contribution? start entry).bind fun c =>
    if c.singular = name then some c.methods else none

theorem methodsFor_eq_some_iff :
    doc.methodsFor start name entry = some methods ↔ doc.Offers start entry name methods := by
  rw [offers_iff, methodsFor, Option.bind_eq_some_iff]
  constructor
  · rintro ⟨c, hc, h⟩
    split at h
    · rename_i hn
      exact ⟨c, hc, hn, Option.some.inj h⟩
    · cases h
  · rintro ⟨c, hc, hn, hm⟩
    exact ⟨c, hc, by rw [if_pos hn, hm]⟩

end Document

/-! ## What a survey has folded in -/

namespace Survey

variable {doc : Document} {start : String} {s s₁ s' : Survey}

/-- The methods found under a name. -/
def methodsAt (s : Survey) (name : String) : Methods :=
  ((s.index.lookup name).bind fun id => s.resources[id]?.map Resource.methods).getD {}

theorem methodsAt_of_lookup {name : String} {id : Nat} {r : Resource}
    (hl : s.index.lookup name = some id) (hr : s.resources[id]? = some r) :
    s.methodsAt name = r.methods := by
  rw [methodsAt, hl, Option.bind_some, hr]
  rfl

theorem methodsAt_of_lookup_none {name : String} (hl : s.index.lookup name = none) :
    s.methodsAt name = {} := by
  rw [methodsAt, hl]
  rfl

/-- The methods found so far are those contributed so far, and only resources that the index leads
to have any. -/
structure Attributed (doc : Document) (start : String) (paths : List (String × PathItem))
    (s : Survey) : Prop where
  /-- The hierarchy. -/
  consistent : Consistent doc s
  /-- The methods under a name are the contributions to it. -/
  methodsAt : ∀ name, s.methodsAt name =
    (paths.filterMap (doc.methodsFor start name)).foldl Methods.fold {}
  /-- A resource that the index does not lead to has no methods. -/
  bare : ∀ (i : Nat) r, s.resources[i]? = some r → s.index.lookup r.singular ≠ some i →
    r.methods = {}

/-- A change that leaves the methods of a resource alone leaves those under each name alone. -/
theorem methodsAt_changed (s : Survey) (id : Nat) {f : Resource → Resource}
    (hf : ∀ r, (f r).methods = r.methods) (name : String) :
    (s.changed id f).methodsAt name = s.methodsAt name := by
  unfold methodsAt
  show ((s.index.lookup name).bind fun i => ((s.changed id f).resources[i]?).map _).getD
    ({} : Methods) = _
  congr 2
  funext i
  rw [getElem?_changed, Option.map_map]
  congr 1
  funext r
  show Resource.methods (if id = i then f r else r) = r.methods
  split
  · exact hf r
  · rfl

/-- A change that leaves the methods and the name of a resource alone gives no methods to a resource
that the index does not lead to. -/
theorem bare_changed (id : Nat) {f : Resource → Resource}
    (hf : ∀ r, (f r).methods = r.methods) (hn : ∀ r, (f r).singular = r.singular)
    (hb : ∀ (i : Nat) r, s.resources[i]? = some r → s.index.lookup r.singular ≠ some i →
      r.methods = {}) :
    ∀ (i : Nat) r, (s.changed id f).resources[i]? = some r →
      (s.changed id f).index.lookup r.singular ≠ some i → r.methods = {} := by
  intro i r hr hl
  obtain ⟨r₀, hr₀, hsame⟩ := exists_of_changed hr
  rw [hsame _ hf]
  refine hb i r₀ hr₀ fun h => hl ?_
  rw [hsame _ hn]
  exact h

/-- **Populating leaves the methods alone**: those under each name stay, and what is added has
none. -/
theorem Succeeds.methodsAt {pending : List String} {singular : String} {pattern : List String}
    {schema : Schema} {id : Nat} (h : Succeeds doc pending singular pattern schema s id s')
    (hs : Consistent doc s)
    (hb : ∀ (i : Nat) r, s.resources[i]? = some r → s.index.lookup r.singular ≠ some i →
      r.methods = {}) :
    (∀ name, s'.methodsAt name = s.methodsAt name) ∧
      ∀ (i : Nat) r, s'.resources[i]? = some r → s'.index.lookup r.singular ≠ some i →
        r.methods = {} := by
  rcases h.grown with hg | ⟨-, rfl⟩
  · have hold : ∀ (i : Nat) r, s'.resources[i]? = some r →
        s.resources[i]? = some r ∨ r.methods = {} := by
      obtain ⟨new, hn, hnew⟩ := hg.appended
      intro i r hr
      rw [hn, List.getElem?_append] at hr
      split at hr
      · exact .inl hr
      · exact .inr (hnew r (List.mem_of_getElem? hr)).1
    constructor
    · intro name
      cases hl : s.index.lookup name with
      | some j =>
        obtain ⟨r, hr, -⟩ := hs.getElem?_of_lookup hl
        rw [methodsAt_of_lookup hl hr, methodsAt_of_lookup (hg.known _ _ hl) (hg.getElem? hr)]
      | none =>
        rw [methodsAt_of_lookup_none hl]
        cases hl' : s'.index.lookup name with
        | none => exact methodsAt_of_lookup_none hl'
        | some j =>
          obtain ⟨r, hr, hn⟩ := (h.consistent hs).getElem?_of_lookup hl'
          rw [methodsAt_of_lookup hl' hr]
          rcases hold j r hr with hr | hm
          · refine hb j r hr ?_
            rw [hn, hl]
            simp
          · exact hm
    · intro i r hr hl
      rcases hold i r hr with hr | hm
      · exact hb i r hr fun hl' => hl (hg.known _ _ hl')
      · exact hm
  · have hm : ∀ r, (Resource.withPattern pattern r).methods = r.methods := by
      intro r
      unfold Resource.withPattern
      split <;> rfl
    exact ⟨methodsAt_changed s id hm, bare_changed id hm (withPattern_singular pattern) hb⟩

/-- **Folding methods in** changes what is found under one name only. -/
theorem methodsAt_changed_offering {singular : String} {id : Nat} {r : Resource}
    (hs : Consistent doc s) (hl : s.index.lookup singular = some id)
    (hr : s.resources[id]? = some r) (methods : Methods) (name : String) :
    (s.changed id (offering methods)).methodsAt name =
      if singular = name then (s.methodsAt name).fold methods else s.methodsAt name := by
  split
  · rename_i hname
    subst hname
    rw [methodsAt_of_lookup hl hr]
    refine methodsAt_of_lookup (r := offering methods r) hl ?_
    rw [getElem?_changed, hr, Option.map_some, if_pos rfl]
  · rename_i hname
    cases hl' : s.index.lookup name with
    | none =>
      rw [methodsAt_of_lookup_none hl']
      exact methodsAt_of_lookup_none hl'
    | some j =>
      obtain ⟨q, hq, hn⟩ := hs.getElem?_of_lookup hl'
      have hj : id ≠ j := by
        rintro rfl
        obtain ⟨r', hr', hn'⟩ := hs.getElem?_of_lookup hl
        rw [hq] at hr'
        cases hr'
        exact hname (hn'.symm.trans hn)
      rw [methodsAt_of_lookup hl' hq]
      refine methodsAt_of_lookup (r := q) hl' ?_
      rw [getElem?_changed, hq, Option.map_some, if_neg hj]

namespace Attributed

theorem empty (doc : Document) (start : String) : Attributed doc start [] {} :=
  ⟨.empty doc, fun _ => rfl, fun _ _ hr => by simp at hr⟩

/-- **A path adds its contribution** to the methods of one name and changes no others. -/
theorem visit {paths : List (String × PathItem)} {entry : String × PathItem} {u : PUnit}
    (hs : Attributed doc start paths s) (h : visit doc start entry.1 entry.2 s = .ok u s') :
    Attributed doc start (paths ++ [entry]) s' := by
  have hcons := hs.consistent.visit h
  have hfold : ∀ name, ((paths ++ [entry]).filterMap (doc.methodsFor start name)).foldl
      Methods.fold {} = ((doc.methodsFor start name entry).elim (s.methodsAt name)
        (s.methodsAt name).fold) := by
    intro name
    rw [List.filterMap_append, List.foldl_append, ← hs.methodsAt name, List.filterMap_cons,
      List.filterMap_nil]
    cases doc.methodsFor start name entry <;> rfl
  rcases visit_cases h with ⟨c, notes, id, s₁, hc, hp, rfl⟩ | ⟨hc, hrest⟩
  · have hs₀ : Consistent doc (s.withNotes notes) :=
      ⟨hs.consistent.indexed, hs.consistent.earlier, hs.consistent.contained⟩
    obtain ⟨hm, hb⟩ := hp.methodsAt hs₀ hs.bare
    obtain ⟨r, hr, hn⟩ := (hp.consistent hs₀).getElem?_of_lookup hp.lookup
    refine ⟨hcons, fun name => ?_, ?_⟩
    · rw [hfold, methodsAt_changed_offering (hp.consistent hs₀) hp.lookup hr, hm,
        Document.methodsFor, hc, Option.bind_some]
      split <;> rfl
    · intro i q hq hl
      rw [getElem?_changed, Option.map_eq_some_iff] at hq
      obtain ⟨q₀, hq₀, rfl⟩ := hq
      split at hl
      · rename_i hi
        subst hi
        rw [hr] at hq₀
        cases hq₀
        exact absurd (hn ▸ hp.lookup) hl
      · rename_i hi
        rw [if_neg hi]
        exact hb i q₀ hq₀ hl
  · have hnone : ∀ name, doc.methodsFor start name entry = none := by
      intro name
      rw [Document.methodsFor, hc]
      rfl
    rcases hrest with ⟨notes, rfl⟩ | ⟨pattern, name, m, notes, -, -, rfl⟩
    · exact ⟨hcons, fun name => by rw [hfold, hnone]; rfl, hs.bare⟩
    · exact ⟨hcons, fun name => by rw [hfold, hnone]; rfl, hs.bare⟩

/-- Attaching methods with names leaves the standard methods alone. -/
theorem attach {paths : List (String × PathItem)} {pattern : String}
    {methods : List CustomMethod} {u : PUnit} (hs : Attributed doc start paths s)
    (h : attach pattern methods s = .ok u s') : Attributed doc start paths s' := by
  have hcons := hs.consistent.attach h
  rcases attach_cases h with ⟨id, -, rfl⟩ | ⟨-, notes, rfl⟩
  · refine ⟨hcons, fun name => ?_, bare_changed id (fun _ => rfl) (fun _ => rfl) hs.bare⟩
    have hsame := methodsAt_changed s id (f := extendedBy methods) (fun _ => rfl) name
    exact hsame.trans (hs.methodsAt name)
  · exact ⟨hcons, hs.methodsAt, hs.bare⟩

end Attributed

end Survey

/-! ## The methods of a finished graph -/

/-- The resource of a name has a method. -/
def ResourceGraph.HasMethod (g : ResourceGraph) (name : String) (k : StandardMethod) : Prop :=
  ∃ id r, g.idOf? name = some id ∧ g.resource? id = some r ∧ r.methods.has k = true

namespace Document

variable {doc : Document} {given : Option String} {start : String} {g : ResourceGraph}

/-- The methods found in a finished graph are those that its paths contribute. -/
theorem exists_attributed (h : doc.resources given start = .ok g) :
    ∃ s, Survey.Attributed doc start doc.paths s ∧ g.resources = s.resources ∧
      g.index = s.index :=
  Survey.exists_survey_of_resources h (.empty doc start) (fun _ _ _ _ _ hv hs => hs.visit hv)
    fun _ _ _ _ ha hs => hs.attach ha

theorem hasMethod_iff {name : String} {k : StandardMethod} (h : doc.resources given start = .ok g) :
    g.HasMethod name k ↔ ∃ entry ∈ doc.paths, doc.Contributes start entry name k := by
  obtain ⟨s, hs, hr, hi⟩ := exists_attributed h
  have hat : g.HasMethod name k ↔ (s.methodsAt name).has k = true := by
    unfold ResourceGraph.HasMethod ResourceGraph.idOf? ResourceGraph.resource?
    rw [hr, hi]
    cases hl : s.index.lookup name with
    | none => simp [Survey.methodsAt_of_lookup_none hl]
    | some id =>
      obtain ⟨r, hri, -⟩ := hs.consistent.getElem?_of_lookup hl
      rw [Survey.methodsAt_of_lookup hl hri]
      simp [hri]
  rw [hat, hs.methodsAt, Methods.has_foldl, Methods.has_empty, Bool.false_or, List.any_eq_true]
  constructor
  · rintro ⟨methods, hm, hk⟩
    obtain ⟨entry, he, hm⟩ := List.mem_filterMap.1 hm
    exact ⟨entry, he, methods, methodsFor_eq_some_iff.1 hm, hk⟩
  · rintro ⟨entry, he, methods, hm, hk⟩
    exact ⟨methods, List.mem_filterMap.2 ⟨entry, he, methodsFor_eq_some_iff.2 hm⟩, hk⟩

/-- The first of some partial results comes from a first item. -/
theorem exists_first_of_findSome?_filterMap {α β γ : Type} {f : α → Option β} {p : β → Option γ}
    {l : List α} {c : γ} (h : (l.filterMap f).findSome? p = some c) :
    ∃ before a after b, l = before ++ a :: after ∧ f a = some b ∧ p b = some c ∧
      ∀ a' ∈ before, ∀ b', f a' = some b' → p b' = none := by
  induction l with
  | nil => cases h
  | cons a l ih =>
    rw [List.filterMap_cons] at h
    cases ha : f a with
    | none =>
      rw [ha] at h
      obtain ⟨before, a₁, after, b, rfl, hb, hp, hbefore⟩ := ih h
      refine ⟨a :: before, a₁, after, b, rfl, hb, hp, fun a' ha' b' hb' => ?_⟩
      rcases List.mem_cons.1 ha' with rfl | ha'
      · rw [ha] at hb'
        cases hb'
      · exact hbefore a' ha' b' hb'
    | some b =>
      rw [ha, List.findSome?_cons] at h
      cases hp : p b with
      | some c' =>
        rw [hp] at h
        exact ⟨[], a, l, b, rfl, ha, hp.trans h, fun _ h => absurd h List.not_mem_nil⟩
      | none =>
        rw [hp] at h
        obtain ⟨before, a₁, after, b₁, rfl, hb, hp₁, hbefore⟩ := ih h
        refine ⟨a :: before, a₁, after, b₁, rfl, hb, hp₁, fun a' ha' b' hb' => ?_⟩
        rcases List.mem_cons.1 ha' with rfl | ha'
        · rw [ha] at hb'
          cases hb'
          exact hp
        · exact hbefore a' ha' b' hb'

/-- How a resource is created, is as the first path says that contributes its creation. -/
theorem create_eq_first {name : String} {id : Nat} {r : Resource} {c : CreateMethod}
    (h : doc.resources given start = .ok g) (hl : g.idOf? name = some id)
    (hr : g.resource? id = some r) (hc : r.methods.create = some c) :
    ∃ before entry after methods, doc.paths = before ++ entry :: after ∧
      doc.Offers start entry name methods ∧ methods.create = some c ∧
      ∀ e ∈ before, ¬ doc.Contributes start e name .create := by
  obtain ⟨s, hs, hgr, hgi⟩ := exists_attributed h
  unfold ResourceGraph.idOf? at hl
  unfold ResourceGraph.resource? at hr
  rw [hgi] at hl
  rw [hgr] at hr
  have hm := hs.methodsAt name
  rw [Survey.methodsAt_of_lookup hl hr] at hm
  rw [hm, Methods.create_foldl] at hc
  obtain ⟨before, entry, after, methods, hp, hf, hcreate, hfirst⟩ :=
    exists_first_of_findSome?_filterMap hc
  refine ⟨before, entry, after, methods, hp, methodsFor_eq_some_iff.1 hf, hcreate, ?_⟩
  rintro e he ⟨methods', ho, hk⟩
  have hnone := hfirst e he methods' (methodsFor_eq_some_iff.2 ho)
  rw [Methods.has, hnone] at hk
  cases hk

/-! ### The order of the paths -/

/-- Following references does not look at the paths. -/
theorem follow_withPaths (doc : Document) (paths : List (String × PathItem)) (seen : List String)
    (s : Schema) (hops : Nat) :
    ({ doc with paths := paths } : Document).follow seen s hops = doc.follow seen s hops := by
  induction hops generalizing seen s with
  | zero => rfl
  | succ hops ih =>
    simp only [follow]
    simp only [ih]
    rfl

theorem resolveSchema_withPaths (doc : Document) (paths : List (String × PathItem)) (s : Schema) :
    ({ doc with paths := paths } : Document).resolveSchema s = doc.resolveSchema s := by
  unfold resolveSchema dereference
  rw [follow_withPaths]

/-- Scanning a path does not look at the other paths. -/
theorem scan_withPaths (doc : Document) (paths : List (String × PathItem)) (kind : PathKind)
    (item : PathItem) :
    ({ doc with paths := paths } : Document).scan kind item = doc.scan kind item := by
  cases kind with
  | item => rfl
  | collection =>
    show Document.scanCollection _ item = doc.scanCollection item
    unfold scanCollection
    simp only [resolveSchema_withPaths]
    rfl

theorem contributes_withPaths (paths : List (String × PathItem)) {entry : String × PathItem}
    {name : String} {k : StandardMethod} :
    ({ doc with paths := paths } : Document).Contributes start entry name k ↔
      doc.Contributes start entry name k := by
  unfold Contributes Offers
  simp only [scan_withPaths, resolveSchema_withPaths]

/-- **The methods of a document.**  The resource of a name has a standard method if and only if some
path contributes it to the name; no resource has a method that the index does not lead to; what is
said of creating is what the first path says that contributes it; and the order of the paths makes
no difference for which methods there are. -/
theorem resources_methods (h : doc.resources given start = .ok g) :
    (∀ name k, g.HasMethod name k ↔
      ∃ entry ∈ doc.paths, doc.Contributes start entry name k) ∧
    (∀ i r k, g.resource? i = some r → r.methods.has k = true →
      g.idOf? r.singular = some i) ∧
    (∀ name id r c, g.idOf? name = some id → g.resource? id = some r →
      r.methods.create = some c →
      ∃ before entry after methods, doc.paths = before ++ entry :: after ∧
        doc.Offers start entry name methods ∧ methods.create = some c ∧
        ∀ e ∈ before, ¬ doc.Contributes start e name .create) ∧
    ∀ paths g', paths.Perm doc.paths →
      ({ doc with paths := paths } : Document).resources given start = .ok g' →
      ∀ name k, g'.HasMethod name k ↔ g.HasMethod name k := by
  refine ⟨fun name k => hasMethod_iff h, ?_, ?_, ?_⟩
  · intro i r k hr hk
    obtain ⟨s, hs, hgr, hgi⟩ := exists_attributed h
    unfold ResourceGraph.resource? at hr
    unfold ResourceGraph.idOf?
    rw [hgr] at hr
    rw [hgi]
    by_contra hl
    rw [hs.bare i r hr hl, Methods.has_empty] at hk
    cases hk
  · intro name id r c hl hr hc
    exact create_eq_first h hl hr hc
  · intro paths g' hperm h' name k
    rw [hasMethod_iff h', hasMethod_iff h]
    constructor
    · rintro ⟨entry, he, hc⟩
      exact ⟨entry, hperm.mem_iff.1 he, (contributes_withPaths paths).1 hc⟩
    · rintro ⟨entry, he, hc⟩
      exact ⟨entry, hperm.mem_iff.2 he, (contributes_withPaths paths).2 hc⟩

/-- On the document with shelves of books: a method of the graph is one that some path contributes,
and the index leads to every resource that has one. -/
theorem shelves_methods : ∃ g, shelves.resources none "" = .ok g ∧
    (∃ entry ∈ shelves.paths, shelves.Contributes "" entry "shelf" .create) ∧
    (∀ k, g.HasMethod "book" k ↔ ∃ entry ∈ shelves.paths, shelves.Contributes "" entry "book" k) ∧
    ∀ i r k, g.resource? i = some r → r.methods.has k = true → g.idOf? r.singular = some i := by
  obtain ⟨g, hg, h⟩ := exists_ok_of_map_toOption
    (f := fun g : ResourceGraph =>
      ((g.idOf? "shelf").bind fun id => (g.resource? id).map fun r => r.methods.has .create))
    (show (shelves.resources none "").toOption.map _ = some (some true) by decide +kernel)
  obtain ⟨hmethods, hindexed, -, -⟩ := resources_methods hg
  refine ⟨g, hg, (hmethods "shelf" .create).1 ?_, hmethods "book", hindexed⟩
  obtain ⟨id, hl, h⟩ := Option.bind_eq_some_iff.1 h
  obtain ⟨r, hr, hk⟩ := Option.map_eq_some_iff.1 h
  exact ⟨id, r, hl, hr, hk⟩

end Document

end ResourceCli
