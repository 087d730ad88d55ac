import ResourceCli.Proofs.Survey.Growth
import Mathlib.Logic.Relation
import Mathlib.Order.WellFounded

/-!
# The index and the hierarchy of resources

The places of a survey's resources carry its hierarchy.  A resource is added only once all resources
that contain it are there, so a parent always stands before its children; this one fact rules out
circles, and it holds although the components of a document may name each other in circles, may
share names and may share ancestors.

`Consistent` is the invariant: the index leads to resources of the right names, parents stand before
their children, and the parents of a declared resource are, one by one, the resources of the
components that its declaration lists.  `Succeeds.consistent` keeps it through populating,
`Consistent.visit` through a path, and `resources_hierarchy` reads it off the finished graph.
-/

namespace ResourceCli

/-- The resource at a place is that of a component: it has the name of the schema that the component
stands for. -/
def IsResourceOf (doc : Document) (resources : List Resource) (component : String) (id : Nat) :
    Prop :=
  ∃ s target r, doc.component? component = some s ∧ doc.resolveSchema s = .ok target ∧
    resources[id]? = some r ∧ r.singular = resourceSingular component target

theorem IsResourceOf.lt {doc : Document} {resources : List Resource} {component : String} {id : Nat}
    (h : IsResourceOf doc resources component id) : id < resources.length := by
  obtain ⟨_, _, _, -, -, hr, -⟩ := h
  exact (List.getElem?_eq_some_iff.1 hr).1

theorem forall_lt_of_forall₂_isResourceOf {doc : Document} {resources : List Resource}
    {components : List String} {ids : List Nat}
    (h : List.Forall₂ (IsResourceOf doc resources) components ids) :
    ∀ p ∈ ids, p < resources.length := by
  induction h with
  | nil => simp
  | cons h₁ _ ih =>
    intro p hp
    rcases List.mem_cons.1 hp with rfl | hp
    · exact h₁.lt
    · exact ih p hp

/-! ## A small document -/

/-- The responses of an operation that succeeds with data of a schema. -/
def answering (s : Schema) : List (String × Response) :=
  [("200", { content := [(jsonMedia, ⟨some s⟩)] })]

/-- A document with shelves of books.  A book declares that a shelf contains it; a shelf declares
nothing, and is met first as what contains a book. -/
def Document.shelves : Document where
  openapi := some "3.1.0"
  servers := [{ url := "http://localhost" }]
  paths := [
    ("/shelves/{shelf}/books/{book}", {
      get := some { responses := answering (.refTo "#/components/schemas/Book") }
      delete := some {} }),
    ("/shelves/{shelf}/books/{book}:lend", {
      post := some { responses := answering (.typed "object") } }),
    ("/shelves", {
      post := some {
        parameters := [{ name := "id", location := "query" }]
        responses := answering (.refTo "#/components/schemas/Shelf") } })]
  components := [
    ("Book", { Schema.typed "object" with
      declared := some {
        singular := "book"
        plural := "books"
        patterns := ["/shelves/{shelf}/books/{book}"]
        parents := ["Shelf"] } }),
    ("Shelf", .typed "object")]

theorem exists_ok_of_map_toOption {ε α β : Type} {x : Except ε α} {f : α → β} {b : β}
    (h : x.toOption.map f = some b) : ∃ a, x = .ok a ∧ f a = b := by
  cases x with
  | error e => cases h
  | ok a => exact ⟨a, rfl, Option.some.inj h⟩

theorem Document.shelves_resources : ∃ g, Document.shelves.resources none "" = .ok g ∧
    g.index = [("book", 1), ("shelf", 0)] ∧ g.resources.map Resource.parents = [[], [0]] := by
  obtain ⟨g, hg, h⟩ := exists_ok_of_map_toOption
    (f := fun g : ResourceGraph => (g.index, g.resources.map Resource.parents))
    (show (Document.shelves.resources none "").toOption.map _ =
      some ([("book", 1), ("shelf", 0)], [[], [0]]) by decide +kernel)
  exact ⟨g, hg, congrArg Prod.fst h, congrArg Prod.snd h⟩

namespace Survey

/-- The index and the hierarchy of the resources found so far. -/
structure Consistent (doc : Document) (s : Survey) : Prop where
  /-- An entry of the index leads to a resource of its name. -/
  indexed : ∀ e ∈ s.index, ∃ r, s.resources[e.2]? = some r ∧ r.singular = e.1
  /-- A parent stands before its children. -/
  earlier : ∀ (i : Nat) r, s.resources[i]? = some r → ∀ p ∈ r.parents, p < i
  /-- The parents of a declared resource are those of its declaration, in order. -/
  contained : ∀ (i : Nat) r d, s.resources[i]? = some r → r.schema.declared = some d →
    List.Forall₂ (IsResourceOf doc s.resources) d.parents r.parents

variable {doc : Document} {s s₁ s' : Survey}

namespace Consistent

theorem empty (doc : Document) : Consistent doc {} := by
  refine ⟨?_, ?_, ?_⟩ <;> simp

/-- A change that leaves name, parents and schema of a resource alone keeps the hierarchy. -/
theorem changed (h : Consistent doc s) (id : Nat) {f : Resource → Resource}
    (hs : ∀ r, (f r).singular = r.singular) (hp : ∀ r, (f r).parents = r.parents)
    (hd : ∀ r, (f r).schema = r.schema) : Consistent doc (s.changed id f) := by
  have forth : ∀ (i : Nat) r, s.resources[i]? = some r →
      ∃ r', (s.changed id f).resources[i]? = some r' ∧ r'.singular = r.singular := by
    intro i r hr
    refine ⟨_, by rw [getElem?_changed, hr, Option.map_some], ?_⟩
    split
    · exact hs r
    · rfl
  refine ⟨?_, ?_, ?_⟩
  · intro e he
    obtain ⟨r, hr, hn⟩ := h.indexed e he
    obtain ⟨r', hr', hn'⟩ := forth _ _ hr
    exact ⟨r', hr', hn'.trans hn⟩
  · intro i r hr
    obtain ⟨r₀, hr₀, hsame⟩ := exists_of_changed hr
    rw [hsame _ hp]
    exact h.earlier i r₀ hr₀
  · intro i r d hr hrd
    obtain ⟨r₀, hr₀, hsame⟩ := exists_of_changed hr
    rw [hsame _ hp]
    refine (h.contained i r₀ d hr₀ (hsame _ hd ▸ hrd)).imp ?_
    rintro component p ⟨t, target, q, hc, ht, hq, hn⟩
    obtain ⟨q', hq', hn'⟩ := forth _ _ hq
    exact ⟨t, target, q', hc, ht, hq', hn'.trans hn⟩

/-- The resource that a known name leads to. -/
theorem getElem?_of_lookup (h : Consistent doc s) {name : String} {id : Nat}
    (hl : s.index.lookup name = some id) :
    ∃ r, s.resources[id]? = some r ∧ r.singular = name :=
  h.indexed _ (mem_of_lookup_eq_some hl)

/-- Adding a resource keeps the hierarchy if its parents are there already. -/
theorem added (h : Consistent doc s) {r : Resource}
    (hp : ∀ p ∈ r.parents, p < s.resources.length)
    (hd : ∀ d, r.schema.declared = some d →
      List.Forall₂ (IsResourceOf doc s.resources) d.parents r.parents) :
    Consistent doc (s.added r) := by
  have lift : ∀ component p, IsResourceOf doc s.resources component p →
      IsResourceOf doc (s.added r).resources component p := by
    rintro component p ⟨t, target, q, hc, ht, hq, hn⟩
    exact ⟨t, target, q, hc, ht, getElem?_added_of_getElem? r hq, hn⟩
  refine ⟨?_, ?_, ?_⟩
  · intro e he
    rcases mem_insertSorted he with rfl | he
    · exact ⟨r, getElem?_added_length s r, rfl⟩
    · obtain ⟨q, hq, hn⟩ := h.indexed e he
      exact ⟨q, getElem?_added_of_getElem? r hq, hn⟩
  · intro i q hq
    rcases cases_of_getElem?_added hq with hq | ⟨rfl, rfl⟩
    · exact h.earlier i q hq
    · exact hp
  · intro i q d hq hqd
    rcases cases_of_getElem?_added hq with hq | ⟨rfl, rfl⟩
    · exact (h.contained i q d hq hqd).imp fun {c p} => lift c p
    · exact (hd d hqd).imp fun {c p} => lift c p

end Consistent

/-! ## Populating keeps the hierarchy -/

section Populating

variable {pending : List String} {singular : String} {pattern : List String} {schema : Schema}
  {id : Nat}

theorem withPattern_parents (pattern : List String) (r : Resource) :
    (Resource.withPattern pattern r).parents = r.parents := by
  unfold Resource.withPattern
  split <;> rfl

theorem withPattern_schema (pattern : List String) (r : Resource) :
    (Resource.withPattern pattern r).schema = r.schema := by
  unfold Resource.withPattern
  split <;> rfl

/-- The parents of a declaration, once they are all populated, are the resources of the listed
components.  The places given back first are still right at the end, as the survey only grows. -/
theorem Harvest.consistent {parents : List String} {ids : List Nat}
    (h : Harvest (ParentPopulated doc
      (fun pending singular pattern schema s id s' =>
        Succeeds doc pending singular pattern schema s id s' ∧
          (Consistent doc s → Consistent doc s')) pending) parents s ids s')
    (hs : Consistent doc s) :
    Consistent doc s' ∧ Grown s s' ∧ List.Forall₂ (IsResourceOf doc s'.resources) parents ids := by
  induction h with
  | nil s => exact ⟨hs, .refl s, .nil⟩
  | @cons parent parents id ids s s₁ s₂ h₁ _ ih =>
    obtain ⟨component, target, hc, ht, hsucc, hcons⟩ := h₁
    have hs₁ := hcons hs
    have hgrown : Grown s s₁ := hsucc.grown_of_nil
    obtain ⟨hs₂, hgrown', hids⟩ := ih hs₁
    obtain ⟨r, hr, hn⟩ := hs₁.getElem?_of_lookup hsucc.lookup
    exact ⟨hs₂, hgrown.trans hgrown', .cons ⟨component, target, r, hc, ht, hgrown'.getElem? hr, hn⟩
      hids⟩

/-- **Populating keeps the hierarchy.** -/
theorem Succeeds.consistent (h : Succeeds doc pending singular pattern schema s id s')
    (hs : Consistent doc s) : Consistent doc s' := by
  refine populating_induction (M := fun _ _ _ _ s _ s' => Consistent doc s → Consistent doc s')
    ?_ ?_ ?_ h hs
  · intro _ _ pattern _ s id _ hs
    exact hs.changed id (withPattern_singular pattern) (withPattern_parents pattern)
      (withPattern_schema pattern)
  · intro _ singular pattern schema s _ hd hs
    refine hs.added (fun p hp => absurd hp List.not_mem_nil) fun d hd' => ?_
    have : schema.declared = some d := hd'
    rw [hd] at this
    cases this
  · intro pending singular _ schema s d parents s₁ _ _ hd hh hs
    obtain ⟨hs₁, -, hids⟩ := Harvest.consistent hh hs
    refine hs₁.added (forall_lt_of_forall₂_isResourceOf hids) fun d' hd' => ?_
    have : schema.declared = some d' := hd'
    rw [hd] at this
    cases this
    exact hids

end Populating

/-! ## A whole survey keeps the hierarchy -/

/-- **A path keeps the hierarchy.** -/
theorem Consistent.visit {start path : String} {item : PathItem} {u : PUnit}
    (hs : Consistent doc s) (h : visit doc start path item s = .ok u s') : Consistent doc s' := by
  rcases visit_cases h with ⟨c, notes, id, s₁, -, hp, rfl⟩ |
    ⟨-, ⟨notes, rfl⟩ | ⟨pattern, name, m, notes, -, -, rfl⟩⟩
  · have hs₁ : Consistent doc s₁ := hp.consistent ⟨hs.indexed, hs.earlier, hs.contained⟩
    exact hs₁.changed id (fun _ => rfl) (fun _ => rfl) fun _ => rfl
  · exact ⟨hs.indexed, hs.earlier, hs.contained⟩
  · exact ⟨hs.indexed, hs.earlier, hs.contained⟩

/-- Attaching methods keeps the hierarchy. -/
theorem Consistent.attach {pattern : String} {methods : List CustomMethod} {u : PUnit}
    (hs : Consistent doc s) (h : attach pattern methods s = .ok u s') : Consistent doc s' := by
  rcases attach_cases h with ⟨id, -, rfl⟩ | ⟨-, notes, rfl⟩
  · exact hs.changed id (fun _ => rfl) (fun _ => rfl) fun _ => rfl
  · exact ⟨hs.indexed, hs.earlier, hs.contained⟩

end Survey

/-! ## The hierarchy of a finished graph -/

/-- The resource at one place contains the one at another. -/
def ResourceGraph.Contains (g : ResourceGraph) (parent child : Nat) : Prop :=
  ∃ r, g.resource? child = some r ∧ parent ∈ r.parents

namespace Document

variable {doc : Document} {given : Option String} {start : String} {g : ResourceGraph}

/-- The survey that a finished graph was read off is consistent. -/
theorem exists_consistent (h : doc.resources given start = .ok g) :
    ∃ s, Survey.Consistent doc s ∧ g.resources = s.resources ∧ g.index = s.index :=
  Survey.exists_survey_of_resources h (P := fun _ s => Survey.Consistent doc s) (.empty doc)
    (fun _ _ _ _ _ hv hs => hs.visit hv) fun _ _ _ _ ha hs => hs.attach ha

/-- **The hierarchy of resources.**  The index of a graph leads every name to a resource of that
name.  A parent stands before its children, so that following parents ends and no resource contains
itself.  A resource with a declaration has one parent for each component that the declaration lists,
in order, and that parent is the resource of the component. -/
theorem resources_hierarchy (h : doc.resources given start = .ok g) :
    (∀ e ∈ g.index, e.2 < g.resources.length ∧
      ∃ r, g.resource? e.2 = some r ∧ r.singular = e.1) ∧
    (∀ i r, g.resource? i = some r → ∀ p ∈ r.parents, p < i) ∧
    WellFounded g.Contains ∧ (∀ i, ¬ Relation.TransGen g.Contains i i) ∧
    ∀ r ∈ g.resources, ∀ d, r.schema.declared = some d →
      List.Forall₂ (IsResourceOf doc g.resources) d.parents r.parents := by
  obtain ⟨s, hs, hr, hi⟩ := exists_consistent h
  have hbefore : ∀ p i, g.Contains p i → p < i := by
    rintro p i ⟨r, hri, hp⟩
    rw [ResourceGraph.resource?, hr] at hri
    exact hs.earlier i r hri p hp
  refine ⟨?_, ?_, ?_, ?_, ?_⟩
  · intro e he
    rw [hi] at he
    obtain ⟨r, hre, hn⟩ := hs.indexed e he
    rw [← hr] at hre
    exact ⟨(List.getElem?_eq_some_iff.1 hre).1, r, hre, hn⟩
  · intro i r hri p hp
    exact hbefore p i ⟨r, hri, hp⟩
  · exact Subrelation.wf (fun {p i} hc => hbefore p i hc) Nat.lt_wfRel.wf
  · intro i hc
    have hlt : ∀ {a b}, Relation.TransGen g.Contains a b → a < b := by
      intro a b hab
      induction hab with
      | single hab => exact hbefore _ _ hab
      | tail _ hbc ih => exact ih.trans (hbefore _ _ hbc)
    exact lt_irrefl i (hlt hc)
  · intro r hr' d hd
    obtain ⟨i, hri⟩ := List.mem_iff_getElem?.1 hr'
    rw [hr] at hri ⊢
    exact hs.contained i r d hri hd

/-- On the document with shelves of books: the shelf contains the book, and nothing contains
itself. -/
theorem shelves_hierarchy : ∃ g, shelves.resources none "" = .ok g ∧ g.Contains 0 1 ∧
    (∀ e ∈ g.index, e.2 < 2) ∧ ∀ i, ¬ Relation.TransGen g.Contains i i := by
  obtain ⟨g, hg, -, hp⟩ := shelves_resources
  obtain ⟨hindex, -, -, hacyclic, -⟩ := resources_hierarchy hg
  have hlen : g.resources.length = 2 := by
    rw [← List.length_map (f := Resource.parents), hp]
    rfl
  have hone : (g.resources.map Resource.parents)[1]? = some [0] := by rw [hp]; rfl
  rw [List.getElem?_map, Option.map_eq_some_iff] at hone
  obtain ⟨r, hr, hrp⟩ := hone
  refine ⟨g, hg, ⟨r, hr, ?_⟩, fun e he => hlen ▸ (hindex e he).1, hacyclic⟩
  rw [hrp]
  exact List.mem_singleton.2 rfl

end Document
end ResourceCli
