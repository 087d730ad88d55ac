import ResourceCli.Proofs.Survey.Kept
import ResourceCli.Proofs.Survey.Names

/-!
# Resources that the index does not lead to

A name can be there twice, and then the index leads to one of the two resources only.  The other one
came up while containing resources were populated, so it was met under no path, and it declares
nothing: it has no pattern.  So whatever has a pattern is found under its name
(`Document.idOf_of_pattern`).
-/

namespace ResourceCli

namespace Survey

/-- The index leads to every resource that has a pattern. -/
def Placed (s : Survey) : Prop :=
  ∀ i r, s.resources[i]? = some r → r.pattern ≠ [] → s.index.lookup r.singular = some i

variable {doc : Document} {start : String} {s s' : Survey}

/-- A change that leaves name and pattern of a resource alone. -/
theorem Placed.changed (hs : Placed s) (id : Nat) {f : Resource → Resource}
    (hn : ∀ r, (f r).singular = r.singular) (hp : ∀ r, (f r).pattern = r.pattern) :
    Placed (s.changed id f) := by
  intro i r hr hpattern
  obtain ⟨r₀, hr₀, hsame⟩ := exists_of_changed hr
  rw [hsame _ hp] at hpattern
  rw [hsame _ hn]
  exact hs i r₀ hr₀ hpattern

/-- A resource that the index leads to may be given a pattern. -/
theorem Placed.withPattern (hs : Placed s) (hc : Consistent doc s) {name : String} {id : Nat}
    (hid : s.index.lookup name = some id) (pattern : List String) :
    Placed (s.changed id (Resource.withPattern pattern)) := by
  intro i r hr hpattern
  rw [getElem?_changed, Option.map_eq_some_iff] at hr
  obtain ⟨r₀, hr₀, rfl⟩ := hr
  split at hpattern
  · rename_i hi
    obtain ⟨q, hq, hname⟩ := hc.getElem?_of_lookup hid
    obtain rfl := Option.some.inj (hq.symm.trans (hi ▸ hr₀))
    rw [if_pos hi, withPattern_singular, hname, ← hi]
    exact hid
  · rename_i hi
    rw [if_neg hi]
    exact hs i r₀ hr₀ hpattern

/-- Adding a resource, if those of its name that are there have no pattern. -/
theorem Placed.added (hs : Placed s) {r : Resource}
    (hr : ∀ (i : Nat) q, s.resources[i]? = some q → q.singular = r.singular → q.pattern = []) :
    Placed (s.added r) := by
  intro i q hq hpattern
  show (Json.insertSorted _ _ s.index).lookup q.singular = some i
  rw [lookup_insertSorted]
  rcases cases_of_getElem?_added hq with hq | ⟨rfl, rfl⟩
  · by_cases hname : q.singular = r.singular
    · exact absurd (hr i q hq hname) hpattern
    · rw [if_neg hname]
      exact hs i q hq hpattern
  · rw [if_pos rfl]

/-- **Populating leads the index to everything that has a pattern.** -/
theorem Succeeds.placed {pending : List String} {singular : String} {pattern : List String}
    {schema : Schema} {id : Nat} (h : Succeeds doc pending singular pattern schema s id s')
    (hc : Consistent doc s) (hn : Named s) (hs : Placed s) : Placed s' := by
  refine populating_induction (M := fun _ _ _ _ s _ s' =>
    Consistent doc s → Named s → Placed s → Placed s') ?_ ?_ ?_ h hc hn hs
  · intro _ singular pattern _ s id hid hc _ hs
    exact hs.withPattern hc hid pattern
  · intro _ singular pattern schema s hl _ _ hn hs
    refine hs.added fun i q hq hname => ?_
    exact absurd hname (hn.singular_ne_of_lookup hl (List.mem_of_getElem? hq))
  · intro pending singular _ schema s d parents s₁ hl _ _ hh hc hn hs
    obtain ⟨hc₁, hn₁, hs₁⟩ : Consistent doc s₁ ∧ Named s₁ ∧ Placed s₁ :=
      hh.preserves (P := fun s => Consistent doc s ∧ Named s ∧ Placed s)
        (fun _ _ _ _ hstep ⟨hc, hn, hs⟩ => by
          obtain ⟨_, _, -, -, hsucc, hm⟩ := hstep
          exact ⟨hsucc.consistent hc, hsucc.named hn, hm hc hn hs⟩) ⟨hc, hn, hs⟩
    obtain ⟨-, hmade⟩ := Harvest.made (hh.imp fun _ _ _ _ hstep => by
      obtain ⟨component, target, hc, ht, hsucc, -⟩ := hstep
      exact ⟨component, target, hc, ht, hsucc, fun hc _ _ _ hl hr => hsucc.made hc hl hr⟩) hc
    have hundeclared := Harvest.undeclared (hh.imp fun _ _ _ _ hstep => by
      obtain ⟨component, target, hc, ht, hsucc, -⟩ := hstep
      exact ⟨component, target, hc, ht, hsucc, hsucc.undeclared⟩)
    have hgrown : Grown s s₁ := hh.preserves (P := Grown s) (fun _ _ _ _ hstep hg => by
      obtain ⟨_, _, -, -, hsucc, -⟩ := hstep
      exact hg.trans hsucc.grown_of_nil) (.refl s)
    refine hs₁.added fun i q hq hname => ?_
    have hname : q.singular = singular := hname
    by_contra hpattern
    -- A resource of the name that has a pattern is new, so it is made of what its schema declares.
    have hi := hn.length_le_of_lookup hl hgrown hq hname
    have hd := hundeclared i q hi hq (hname ▸ List.mem_cons_self)
    rcases hmade _ i q (hs₁ i q hq hpattern) hq with ⟨hold, -⟩ | ⟨-, hp, -⟩
    · rw [hname, hl] at hold
      cases hold
    · exact hpattern (hp.trans (Schema.declaredPattern_of_undeclared hd))

theorem Placed.visit {path : String} {item : PathItem} {u : PUnit} (hc : Consistent doc s)
    (hn : Named s) (hs : Placed s) (h : visit doc start path item s = .ok u s') : Placed s' := by
  rcases visit_cases h with ⟨c, notes, id, s₁, -, hp, rfl⟩ |
    ⟨-, ⟨notes, rfl⟩ | ⟨pattern, name, m, notes, -, -, rfl⟩⟩
  · have hs₁ : Placed s₁ :=
      hp.placed ⟨hc.indexed, hc.earlier, hc.contained⟩ (hn.congr rfl rfl) hs
    exact hs₁.changed id (fun _ => rfl) fun _ => rfl
  · exact hs
  · exact hs

theorem Placed.attach {pattern : String} {methods : List CustomMethod} {u : PUnit}
    (hs : Placed s) (h : attach pattern methods s = .ok u s') : Placed s' := by
  rcases attach_cases h with ⟨id, -, rfl⟩ | ⟨-, notes, rfl⟩
  · exact hs.changed id (fun _ => rfl) fun _ => rfl
  · exact hs

end Survey

namespace Document

variable {doc : Document} {given : Option String} {start : String} {g : ResourceGraph}
  {r : Resource}

/-- **What has a pattern is found under its name**: the index leads to it. -/
theorem idOf_of_pattern {i : Nat} (h : doc.resources given start = .ok g)
    (hr : g.resource? i = some r) (hp : r.pattern ≠ []) : g.idOf? r.singular = some i := by
  obtain ⟨s, ⟨-, -, hs⟩, hgr, hgi⟩ := Survey.exists_survey_of_resources h
    (P := fun _ s => Survey.Consistent doc s ∧ Survey.Named s ∧ Survey.Placed s)
    ⟨.empty doc, .empty, fun _ _ hr => by simp at hr⟩
    (fun _ _ _ _ _ hv ⟨hc, hn, hs⟩ => ⟨hc.visit hv, hn.visit hv, hs.visit hc hn hv⟩)
    fun _ _ _ _ ha ⟨hc, hn, hs⟩ => ⟨hc.attach ha, hn.attach ha, hs.attach ha⟩
  have hi : s.resources[i]? = some r := hgr ▸ hr
  rw [ResourceGraph.idOf?, hgi]
  exact hs i r hi hp

theorem mem_ordered_of_pattern (h : doc.resources given start = .ok g) (hr : r ∈ g.resources)
    (hp : r.pattern ≠ []) : r ∈ g.ordered := by
  obtain ⟨i, hi⟩ := List.mem_iff_getElem?.1 hr
  exact List.mem_filterMap.2
    ⟨(r.singular, i), mem_of_lookup_eq_some (idOf_of_pattern h hi hp), hi⟩

end Document
end ResourceCli
