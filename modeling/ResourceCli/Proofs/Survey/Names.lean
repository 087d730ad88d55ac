import ResourceCli.Proofs.Survey.Customs

/-!
# One resource for each name

Whether the resource of a name is there already is asked before its containing resources are
populated, and it is added after them.  What happens in between can bring up the same name again.  A
component that declares its resource is then refused, since the name is pending; a component that
declares nothing is not, and a resource is added for it.  The name is there twice: the resource
added first has lost its place in the index, and still it is what contains the other one.

This is the only way for a name to be there twice, and so `Document.unambiguous_iff` says that the
index and the resources match each other one to one exactly if no resource lies, at some remove,
above another one of its own name.

* `Survey.Shadows`: how two resources of one name are related.
* `Succeeds.undeclared`: what comes up under a pending name declares nothing.
* `Survey.Named`: what is known of the names found so far.
-/

namespace ResourceCli

namespace Survey

/-- A resource shadows another one of its name: the other one declares nothing and lies above it,
while it is declared itself and is the one that the index leads to. -/
structure Shadows (s : Survey) (i j : Nat) (q r : Resource) : Prop where
  /-- The resource that is shadowed contains the other one, at some remove. -/
  above : Relation.TransGen s.Contains i j
  /-- The resource that is shadowed declares nothing. -/
  undeclared : q.schema.declared = none
  /-- The resource that shadows it is declared. -/
  declared : r.schema.declared ≠ none
  /-- The index leads to the resource that shadows the other one. -/
  leads : s.index.lookup r.singular = some j

/-- What is known of the names of the resources found so far. -/
structure Named (s : Survey) : Prop where
  /-- The index leads to every name. -/
  known : ∀ r ∈ s.resources, ∃ id, s.index.lookup r.singular = some id
  /-- Of two resources of one name, the later one shadows the earlier one. -/
  twice : ∀ (i j : Nat) q r, i < j → s.resources[i]? = some q → s.resources[j]? = some r →
    q.singular = r.singular → s.Shadows i j q r

variable {doc : Document} {start : String} {s s₁ s' : Survey}

namespace Named

theorem empty : Named {} :=
  ⟨fun _ hr => absurd hr List.not_mem_nil, fun _ _ _ _ _ hq => by simp at hq⟩

/-- A name that the index does not know is that of no resource. -/
theorem singular_ne_of_lookup (hs : Named s) {name : String} (hl : s.index.lookup name = none)
    {r : Resource} (hr : r ∈ s.resources) : r.singular ≠ name := by
  rintro rfl
  obtain ⟨id, hid⟩ := hs.known r hr
  rw [hl] at hid
  cases hid

/-- A resource of a name that the index did not know has come up since. -/
theorem length_le_of_lookup (hs : Named s) {name : String} (hl : s.index.lookup name = none)
    (hg : Grown s s₁) {i : Nat} {q : Resource} (hq : s₁.resources[i]? = some q)
    (hname : q.singular = name) : s.resources.length ≤ i := by
  by_contra hlt
  have hold := List.getElem?_eq_getElem (Nat.not_le.1 hlt)
  have hkept := hg.getElem? hold
  rw [hq, Option.some.injEq] at hkept
  exact hs.singular_ne_of_lookup hl (hkept ▸ List.getElem_mem _) hname

/-- The names are a matter of the resources and the index alone. -/
theorem congr (hs : Named s) (hr : s'.resources = s.resources) (hi : s'.index = s.index) :
    Named s' := by
  have hcontains : s'.Contains = s.Contains := by
    unfold Contains
    rw [hr]
  refine ⟨by rw [hr, hi]; exact hs.known, fun i j q r hij hq hq' hname => ?_⟩
  rw [hr] at hq hq'
  have hshadow := hs.twice i j q r hij hq hq' hname
  exact ⟨by rw [hcontains]; exact hshadow.above, hshadow.undeclared, hshadow.declared,
    by rw [hi]; exact hshadow.leads⟩

/-- A change that leaves name, parents and schema of a resource alone leaves the names alone. -/
theorem changed (hs : Named s) (id : Nat) {f : Resource → Resource}
    (hn : ∀ r, (f r).singular = r.singular) (hp : ∀ r, (f r).parents = r.parents)
    (hd : ∀ r, (f r).schema = r.schema) : Named (s.changed id f) := by
  refine ⟨fun r hr => ?_, fun i j q r hij hq hr hname => ?_⟩
  · obtain ⟨i, hi⟩ := List.mem_iff_getElem?.1 hr
    obtain ⟨r₀, hr₀, hsame⟩ := exists_of_changed hi
    rw [hsame _ hn]
    exact hs.known r₀ (List.mem_of_getElem? hr₀)
  · obtain ⟨q₀, hq₀, hq⟩ := exists_of_changed hq
    obtain ⟨r₀, hr₀, hr⟩ := exists_of_changed hr
    have hshadow := hs.twice i j q₀ r₀ hij hq₀ hr₀ (by rw [← hq _ hn, hname, hr _ hn])
    refine ⟨?_, (hq _ hd).symm ▸ hshadow.undeclared, (hr _ hd).symm ▸ hshadow.declared, ?_⟩
    · exact Relation.TransGen.mono (fun _ _ hc => hc.changed id hp) _ _ hshadow.above
    · rw [hr _ hn]
      exact hshadow.leads

/-- Adding a resource leaves the names alone, if those of its name that are there declare nothing
and contain it while it is declared. -/
theorem added (hs : Named s) {r : Resource}
    (hr : ∀ (i : Nat) q, s.resources[i]? = some q → q.singular = r.singular →
      q.schema.declared = none ∧ r.schema.declared ≠ none ∧ ∃ p ∈ r.parents, s.Above i p) :
    Named (s.added r) := by
  have hcontains : ∀ a b, s.Contains a b → (s.added r).Contains a b := fun _ _ hc => hc.added r
  refine ⟨exists_lookup_added hs.known r, fun i j q q' hij hq hq' hname => ?_⟩
  rcases cases_of_getElem?_added hq with hold | ⟨rfl, -⟩
  · rcases cases_of_getElem?_added hq' with hold' | ⟨rfl, rfl⟩
    · have hshadow := hs.twice i j q q' hij hold hold' hname
      refine ⟨Relation.TransGen.mono hcontains _ _ hshadow.above, hshadow.undeclared,
        hshadow.declared, ?_⟩
      -- A name that is there twice is not that of the new resource: the second one is declared.
      have hne : q'.singular ≠ r.singular := fun he => hshadow.declared (hr j q' hold' he).1
      show (Json.insertSorted _ _ s.index).lookup q'.singular = some j
      rw [lookup_insertSorted, if_neg hne]
      exact hshadow.leads
    · obtain ⟨hundeclared, hdeclared, p, hp, habove⟩ := hr i q hold hname
      have hnew : (s.added q').Contains p s.resources.length :=
        ⟨q', getElem?_added_length s q', hp⟩
      exact ⟨.tail' (Above.imp hcontains habove) hnew, hundeclared, hdeclared, lookup_added s q'⟩
  · have hj := (List.getElem?_eq_some_iff.1 hq').1
    rw [Survey.added, List.length_append, List.length_singleton] at hj
    omega

end Named

/-! ## Populating -/

section Populating

variable {pending : List String} {singular : String} {pattern : List String} {schema : Schema}
  {id : Nat}

theorem Harvest.undeclared {parents : List String} {ids : List Nat}
    (h : Harvest (ParentPopulated doc
      (fun pending singular pattern schema s id s' =>
        Succeeds doc pending singular pattern schema s id s' ∧
          ∀ (i : Nat) r, s.resources.length ≤ i → s'.resources[i]? = some r →
            r.singular ∈ pending → r.schema.declared = none) pending) parents s ids s') :
    ∀ (i : Nat) r, s.resources.length ≤ i → s'.resources[i]? = some r →
      r.singular ∈ pending → r.schema.declared = none := by
  induction h with
  | nil s =>
    intro i r hi hr
    have := (List.getElem?_eq_some_iff.1 hr).1
    omega
  | @cons _ _ _ _ s s₁ s₂ h₁ hrest ih =>
    obtain ⟨_, _, -, -, -, hm⟩ := h₁
    intro i r hi hr hname
    by_cases hlt : i < s₁.resources.length
    · refine hm i r hi ?_ hname
      have hgrown : Grown s₁ s₂ := Harvest.preserves hrest (P := Grown s₁)
        (fun _ _ _ _ hstep hg => by
          obtain ⟨_, _, -, -, hsucc, -⟩ := hstep
          exact hg.trans hsucc.grown_of_nil) (.refl s₁)
      have hold := hgrown.getElem? (List.getElem?_eq_getElem hlt)
      rw [hr] at hold
      rw [List.getElem?_eq_getElem hlt, hold]
    · exact ih i r (Nat.not_lt.1 hlt) hr hname

/-- **What comes up under a pending name declares nothing.** -/
theorem Succeeds.undeclared (h : Succeeds doc pending singular pattern schema s id s') :
    ∀ (i : Nat) r, s.resources.length ≤ i → s'.resources[i]? = some r → r.singular ∈ pending →
      r.schema.declared = none := by
  refine populating_induction (M := fun pending _ _ _ s _ s' =>
    ∀ (i : Nat) r, s.resources.length ≤ i → s'.resources[i]? = some r → r.singular ∈ pending →
      r.schema.declared = none) ?_ ?_ ?_ h
  · intro _ _ _ _ s _ _ i r hi hr
    have hlt := (List.getElem?_eq_some_iff.1 hr).1
    rw [Survey.changed, List.length_modify] at hlt
    omega
  · intro _ singular pattern schema s _ hd i r hi hr _
    rcases cases_of_getElem?_added hr with hr | ⟨-, rfl⟩
    · have := (List.getElem?_eq_some_iff.1 hr).1
      omega
    · exact hd
  · intro pending singular _ schema s d parents s₁ _ hp _ hh i r hi hr hname
    rcases cases_of_getElem?_added hr with hr | ⟨-, rfl⟩
    · exact Harvest.undeclared hh i r hi hr (List.mem_cons_of_mem _ hname)
    · exact absurd hname hp

/-- **Populating keeps what is known of names.** -/
theorem Succeeds.named (h : Succeeds doc pending singular pattern schema s id s')
    (hs : Named s) : Named s' := by
  refine populating_induction (M := fun _ _ _ _ s _ s' => Named s → Named s') ?_ ?_ ?_ h hs
  · intro _ _ pattern _ s id _ hs
    exact hs.changed id (withPattern_singular pattern) (withPattern_parents pattern)
      (withPattern_schema pattern)
  · intro _ singular pattern schema s hl _ hs
    refine hs.added fun i q hq hname => ?_
    exact absurd hname (hs.singular_ne_of_lookup hl (List.mem_of_getElem? hq))
  · intro pending singular _ schema s d parents s₁ hl _ hd hh hs
    have hs₁ : Named s₁ := hh.preserves (fun _ _ _ _ hstep => by
      obtain ⟨_, _, -, -, -, hm⟩ := hstep
      exact hm) hs
    have hundeclared := Harvest.undeclared (hh.imp fun _ _ _ _ hstep => by
      obtain ⟨component, target, hc, ht, hsucc, -⟩ := hstep
      exact ⟨component, target, hc, ht, hsucc, hsucc.undeclared⟩)
    obtain ⟨hgrown, habove⟩ := Harvest.above (hh.imp fun _ _ _ _ hstep => by
      obtain ⟨component, target, hc, ht, hsucc, -⟩ := hstep
      exact ⟨component, target, hc, ht, hsucc, hsucc.above⟩)
    refine hs₁.added fun i q hq hname => ?_
    have hname : q.singular = singular := hname
    -- A resource of the name was not there before its containing resources were populated.
    have hi := hs.length_le_of_lookup hl hgrown hq hname
    refine ⟨hundeclared i q hi hq (hname ▸ List.mem_cons_self), ?_,
      habove i hi (List.getElem?_eq_some_iff.1 hq).1⟩
    show schema.declared ≠ none
    rw [hd]
    exact Option.some_ne_none d

end Populating

/-! ## A whole survey -/

/-- **A path keeps what is known of names.** -/
theorem Named.visit {path : String} {item : PathItem} {u : PUnit} (hs : Named s)
    (h : visit doc start path item s = .ok u s') : Named s' := by
  rcases visit_cases h with ⟨c, notes, id, s₁, -, hp, rfl⟩ |
    ⟨-, ⟨notes, rfl⟩ | ⟨pattern, name, m, notes, -, -, rfl⟩⟩
  · have hs₁ : Named s₁ := hp.named (hs.congr rfl rfl)
    exact hs₁.changed id (fun _ => rfl) (fun _ => rfl) fun _ => rfl
  · exact hs.congr rfl rfl
  · exact hs.congr rfl rfl

/-- Attaching methods leaves the names alone. -/
theorem Named.attach {pattern : String} {methods : List CustomMethod} {u : PUnit} (hs : Named s)
    (h : attach pattern methods s = .ok u s') : Named s' := by
  rcases attach_cases h with ⟨id, -, rfl⟩ | ⟨-, notes, rfl⟩
  · exact hs.changed id (fun _ => rfl) (fun _ => rfl) fun _ => rfl
  · exact hs.congr rfl rfl

end Survey

/-! ## The names of a finished graph -/

namespace ResourceGraph

/-- A graph in which a name stands for one resource. -/
structure Unambiguous (g : ResourceGraph) : Prop where
  /-- No two resources have the same name. -/
  distinct : (g.resources.map Resource.singular).Nodup
  /-- No name is in the index twice. -/
  once : (keys g.index).Nodup
  /-- An entry of the index leads to a resource of its name. -/
  leads : ∀ e ∈ g.index, ∃ r, g.resource? e.2 = some r ∧ r.singular = e.1
  /-- The index leads to every resource. -/
  led : ∀ i r, g.resource? i = some r → g.idOf? r.singular = some i
  /-- A parent is what is found under the name of the parent. -/
  parents : ∀ r ∈ g.resources, ∀ p ∈ r.parents, ∃ q, g.resource? p = some q ∧
    g.idOf? q.singular = some p ∧ g.find q.singular = .ok q

/-- A resource is found under its name if the index leads there. -/
theorem find_of_idOf {g : ResourceGraph} {name : String} {i : Nat} {r : Resource}
    (hi : g.idOf? name = some i) (hr : g.resource? i = some r) : g.find name = .ok r := by
  unfold find
  rw [hi, Option.bind_some, hr]

/-- Distinct names are all that it takes for a graph to be unambiguous. -/
theorem Sound.unambiguous {g : ResourceGraph} (hg : g.Sound)
    (hn : (g.resources.map Resource.singular).Nodup) : g.Unambiguous := by
  have hled : ∀ i r, g.resource? i = some r → g.idOf? r.singular = some i := by
    intro i r hr
    obtain ⟨j, hj⟩ := hg.known r (List.mem_of_getElem? hr)
    obtain ⟨q, hq, hname⟩ := hg.leads _ (mem_of_lookup_eq_some hj)
    have hi : (g.resources.map Resource.singular)[i]? = some r.singular := by
      rw [List.getElem?_map, show g.resources[i]? = some r from hr, Option.map_some]
    have hj' : (g.resources.map Resource.singular)[j]? = some r.singular := by
      rw [List.getElem?_map, show g.resources[j]? = some q from hq, Option.map_some, hname]
    have hij : i = j := by
      have hlt := (List.getElem?_eq_some_iff.1 hi).1
      exact (List.getElem?_inj hlt hn).1 (hi.trans hj'.symm)
    rw [hj, hij]
  refine ⟨hn, hg.sorted.imp fun hlt => String.ne_of_lt hlt, hg.leads, hled, ?_⟩
  intro r hr p hp
  obtain ⟨i, hi⟩ := List.mem_iff_getElem?.1 hr
  have hlt : p < g.resources.length :=
    (hg.earlier i r hi p hp).trans (List.getElem?_eq_some_iff.1 hi).1
  have hq : g.resource? p = some g.resources[p] := List.getElem?_eq_getElem hlt
  exact ⟨_, hq, hled p _ hq, find_of_idOf (hled p _ hq) hq⟩

end ResourceGraph

namespace Document

variable {doc : Document} {given : Option String} {start : String} {g : ResourceGraph}

/-- The survey that a finished graph was read off keeps what is known of names. -/
theorem exists_named (h : doc.resources given start = .ok g) :
    ∃ s, Survey.Named s ∧ g.resources = s.resources ∧ g.index = s.index :=
  Survey.exists_survey_of_resources h (P := fun _ s => Survey.Named s) .empty
    (fun _ _ _ _ _ hv hs => hs.visit hv) fun _ _ _ _ ha hs => hs.attach ha

/-- **When a name stands for one resource.**  The index and the resources of a graph match each
other one to one, and every parent is found under its name, exactly if no resource contains, at some
remove, another one of its own name.  In any graph, of two resources of one name the earlier one
contains the later one, declares nothing and has no methods, while the later one is declared and is
what the index leads to; so no name is there three times. -/
theorem unambiguous_iff (h : doc.resources given start = .ok g) :
    (g.Unambiguous ↔ ∀ i j q r, Relation.TransGen g.Contains i j → g.resource? i = some q →
      g.resource? j = some r → q.singular ≠ r.singular) ∧
    ∀ i j q r, i < j → g.resource? i = some q → g.resource? j = some r →
      q.singular = r.singular → Relation.TransGen g.Contains i j ∧ q.schema.declared = none ∧
        q.methods = {} ∧ r.schema.declared ≠ none ∧ g.idOf? r.singular = some j := by
  obtain ⟨s, hs, hgr, hgi⟩ := exists_named h
  have hcontains : g.Contains = s.Contains := by
    unfold ResourceGraph.Contains ResourceGraph.resource? Survey.Contains
    rw [hgr]
  have htwice : ∀ i j q r, i < j → g.resource? i = some q → g.resource? j = some r →
      q.singular = r.singular → Relation.TransGen g.Contains i j ∧ q.schema.declared = none ∧
        q.methods = {} ∧ r.schema.declared ≠ none ∧ g.idOf? r.singular = some j := by
    intro i j q r hij hq hr hname
    have hq' : s.resources[i]? = some q := hgr ▸ hq
    have hr' : s.resources[j]? = some r := hgr ▸ hr
    have hshadow := hs.twice i j q r hij hq' hr' hname
    have hleads : g.idOf? r.singular = some j := by
      rw [ResourceGraph.idOf?, hgi]
      exact hshadow.leads
    refine ⟨hcontains ▸ hshadow.above, hshadow.undeclared, ?_, hshadow.declared, hleads⟩
    by_contra hne
    obtain ⟨k, hk⟩ := (Methods.ne_empty_iff _).1 hne
    have hi := (resources_methods h).2.1 i q k hq hk
    rw [hname, hleads, Option.some.injEq] at hi
    omega
  refine ⟨⟨fun hg i j q r habove hq hr hname => ?_, fun hapart => ?_⟩, htwice⟩
  · have hi := hg.led i q hq
    rw [hname, hg.led j r hr, Option.some.injEq] at hi
    exact (resources_hierarchy h).2.2.2.1 i (hi ▸ habove)
  · refine (resources_sound h).unambiguous ?_
    rw [List.Nodup, List.pairwise_iff_getElem]
    intro i j hi hj hij hname
    rw [List.length_map] at hi hj
    rw [List.getElem_map, List.getElem_map] at hname
    have hq : g.resource? i = some g.resources[i] := List.getElem?_eq_getElem hi
    have hr : g.resource? j = some g.resources[j] := List.getElem?_eq_getElem hj
    exact hapart i j _ _ (htwice i j _ _ hij hq hr hname).1 hq hr hname

/-- On the document with shelves of books, a name stands for one resource. -/
theorem shelves_unambiguous : ∃ g, shelves.resources none "" = .ok g ∧ g.Unambiguous := by
  obtain ⟨g, hg, hnames⟩ := exists_ok_of_map_toOption
    (f := fun g : ResourceGraph => g.resources.map Resource.singular)
    (show (shelves.resources none "").toOption.map _ = some ["shelf", "book"] by decide +kernel)
  refine ⟨g, hg, (unambiguous_iff hg).1.2 fun i j q r habove hq hr hname => ?_⟩
  have hi : (g.resources.map Resource.singular)[i]? = some q.singular := by
    rw [List.getElem?_map, show g.resources[i]? = some q from hq, Option.map_some]
  have hj : (g.resources.map Resource.singular)[j]? = some q.singular := by
    rw [List.getElem?_map, show g.resources[j]? = some r from hr, Option.map_some, hname]
  have hdistinct : (g.resources.map Resource.singular).Nodup := by
    rw [hnames]
    decide
  have hij := (List.getElem?_inj (List.getElem?_eq_some_iff.1 hi).1 hdistinct).1 (hi.trans hj.symm)
  exact (resources_hierarchy hg).2.2.2.1 i (hij ▸ habove)

/-- A document with books in books.  A book declares that it lies in what the component `book`
stands for, and that component declares nothing and is named like the book. -/
def nestedBooks : Document where
  openapi := some "3.1.0"
  servers := [{ url := "http://localhost" }]
  paths := [("/books/{book}", {
    get := some { responses := answering (.refTo "#/components/schemas/Book") } })]
  components := [
    ("Book", { Schema.typed "object" with
      declared := some {
        singular := "book"
        plural := "books"
        patterns := ["/books/{book}"]
        parents := ["book"] } }),
    ("book", .typed "object")]

/-- In the document with books in books the name of books is there twice, and what is found under
the name of the parent of the second one is the second one itself. -/
theorem nestedBooks_ambiguous : ∃ g, nestedBooks.resources none "" = .ok g ∧
    g.resources.map Resource.singular = ["book", "book"] ∧
    g.resources.map Resource.parents = [[], [0]] ∧ g.index = [("book", 1)] ∧
    ¬ g.Unambiguous := by
  obtain ⟨g, hg, hfacts⟩ := exists_ok_of_map_toOption
    (f := fun g : ResourceGraph =>
      (g.resources.map Resource.singular, g.resources.map Resource.parents, g.index))
    (show (nestedBooks.resources none "").toOption.map _ =
      some (["book", "book"], [[], [0]], [("book", 1)]) by decide +kernel)
  obtain ⟨hnames, hrest⟩ := Prod.mk.inj hfacts
  obtain ⟨hparents, hindex⟩ := Prod.mk.inj hrest
  refine ⟨g, hg, hnames, hparents, hindex, fun hg => ?_⟩
  have hdistinct := hg.distinct
  rw [hnames] at hdistinct
  exact absurd hdistinct (by decide)

end Document
end ResourceCli
