import ResourceCli.Proofs.Survey.Hierarchy

/-!
# How deep populating goes

Populating follows the names in declarations, and components may name each other in circles.  Here
it is written down without a bound of its own, with the names whose containing resources are being
created as a part of the state (`Marked`): a name is put in before its parents are created and taken
out after them, and one that is met while it is in there is a failure.  How deep that may go is a
limit that is no part of the program, and to run into it is no failure but no outcome at all
(`create`).

Every level but the first one is about the resource of a component (`Document.componentNames`), and
every level puts in a name that was not in there.  So each level below the first one leaves fewer of
these names for the next one (`room`), and with as many levels as there are components, and two, no
run meets the limit: `create_follows`.  It comes to what `populate` comes to, and the names in
progress are afterwards the ones from before.
-/

namespace ResourceCli

/-- The names of the resources of the components of a document. -/
def Document.componentNames (doc : Document) : List String :=
  doc.schemas.filterMap fun entry =>
    (doc.resolveSchema entry.2).toOption.map (resourceSingular entry.1)

namespace Survey

/-- A survey, with the names of the resources whose containing resources are being created. -/
structure Marked where
  /-- The survey. -/
  survey : Survey
  /-- The names in progress. -/
  inProgress : List String

/-- A step of a marked survey: it changes the state, and fails or goes on, if it has an outcome. -/
abbrev MarkedM := ExceptT Failure (StateT Marked Option)

/-- What a step comes to: nothing, or a result or failure with the state that is left. -/
def MarkedM.outcome {α : Type} (x : MarkedM α) (m : Marked) :
    Option (Except Failure α × Marked) :=
  x.run.run m

/-- A step of a survey, which leaves the names in progress alone. -/
def unmarked {α : Type} (x : SurveyM α) : MarkedM α :=
  ExceptT.mk fun m =>
    match x m.survey with
    | .ok a t => some (.ok a, { m with survey := t })
    | .error e t => some (.error e, { m with survey := t })

/-- The names in progress. -/
def marks : MarkedM (List String) := return (← get).inProgress

/-- Puts a name in progress. -/
def mark (singular : String) : MarkedM Unit :=
  modify fun m => { m with inProgress := singular :: m.inProgress }

/-- Takes a name out of progress. -/
def unmark (singular : String) : MarkedM Unit :=
  modify fun m => { m with inProgress := m.inProgress.erase singular }

/-- The place of the resource of a name, created from its schema if it is not there yet, with all
containing resources of a declaration before it; no outcome if that goes deeper than a limit. -/
def create (doc : Document) (singular : String) (pattern : List String) (s : Schema) :
    (limit : Nat) → MarkedM Nat
  | 0 => ExceptT.mk fun _ => none
  | limit + 1 => do
    match (← unmarked EStateM.get).index.lookup singular with
    | some id =>
      unmarked (modifyAt id (Resource.withPattern pattern))
      return id
    | none =>
      match s.declared with
      | none => unmarked (add (inferred singular pattern s))
      | some d =>
        if (← marks).contains singular then throw (.circularParent singular)
        mark singular
        let parents ← d.parents.mapM fun parent => do
          match doc.component? parent with
          | none => throw (.parentNotFound singular parent)
          | some component =>
            let target ← unmarked (lift (doc.resolveSchema component))
            create doc (resourceSingular parent target) [] target limit
        unmark singular
        unmarked (add (declared singular d parents s))

/-! ## Runs side by side -/

section Follows

variable {α β : Type} {x : MarkedM α} {y : SurveyM α} {f : α → MarkedM β} {g : α → SurveyM β}
  {pending pending' pending'' : List String}

/-- From every survey a marked step comes to what a step comes to.  If that is a result, the names
in progress go from some to others. -/
def Follows (x : MarkedM α) (pending pending' : List String) (y : SurveyM α) : Prop :=
  ∀ t, match y t with
    | .ok a t' => x.outcome ⟨t, pending⟩ = some (.ok a, ⟨t', pending'⟩)
    | .error e t' => ∃ left, x.outcome ⟨t, pending⟩ = some (.error e, ⟨t', left⟩)

theorem Follows.unmarked (y : SurveyM α) (pending : List String) :
    Follows (unmarked y) pending pending y := by
  intro t
  unfold Survey.unmarked MarkedM.outcome
  cases h : y t with
  | ok a t' => simp [ExceptT.mk, ExceptT.run, StateT.run, h]
  | error e t' => exact ⟨pending, by simp [ExceptT.mk, ExceptT.run, StateT.run, h]⟩

theorem Follows.throw (e : Failure) (pending pending' : List String) :
    Follows (throw e : MarkedM α) pending pending' (throw e) :=
  fun _ => ⟨pending, rfl⟩

theorem Follows.pure (a : α) (pending : List String) :
    Follows (Pure.pure a) pending pending (Pure.pure a) :=
  fun _ => rfl

/-- A marked step after another one goes on where that one ends. -/
theorem outcome_bind (x : MarkedM α) (f : α → MarkedM β) (m : Marked) :
    (x >>= f).outcome m =
      match x.outcome m with
      | some (.ok a, m') => (f a).outcome m'
      | some (.error e, m') => some (.error e, m')
      | none => none := by
  show (x.run.run m).bind _ = _
  unfold MarkedM.outcome
  rcases x.run.run m with _ | ⟨_ | _, _⟩ <;> rfl

theorem Follows.bind (hx : Follows x pending pending' y)
    (hf : ∀ a, Follows (f a) pending' pending'' (g a)) :
    Follows (x >>= f) pending pending'' (y >>= g) := by
  intro t
  have hx := hx t
  show match EStateM.bind y g t with
    | .ok a t' => _
    | .error e t' => _
  unfold EStateM.bind
  cases h : y t with
  | ok a t' =>
    rw [h] at hx
    simpa only [outcome_bind, hx] using hf a t'
  | error e t' =>
    rw [h] at hx
    obtain ⟨left, hx⟩ := hx
    exact ⟨left, by rw [outcome_bind, hx]⟩

/-- What is lifted is the same on both sides, so that it is enough to go on from its result. -/
theorem Follows.lift {z : Except Failure α}
    (h : ∀ a, z = .ok a → Follows (f a) pending pending' (g a)) :
    Follows (Survey.unmarked (Survey.lift z) >>= f) pending pending' (Survey.lift z >>= g) := by
  cases z with
  | error e => exact fun _ => ⟨pending, rfl⟩
  | ok a => exact h a rfl

theorem Follows.mapM {as : List α} {f : α → MarkedM β} {g : α → SurveyM β}
    (h : ∀ a ∈ as, Follows (f a) pending pending (g a)) :
    Follows (as.mapM f) pending pending (as.mapM g) := by
  induction as with
  | nil => exact Follows.pure [] pending
  | cons a as ih =>
    rw [List.mapM_cons, List.mapM_cons]
    refine (h a List.mem_cons_self).bind fun b => ?_
    exact (ih fun a' ha' => h a' (List.mem_cons_of_mem _ ha')).bind fun bs => Follows.pure _ _

theorem Follows.marks {f : List String → MarkedM α} (h : Follows (f pending) pending pending' y) :
    Follows (marks >>= f) pending pending' y := h

theorem Follows.mark {singular : String} {f : Unit → MarkedM α}
    (h : Follows (f ()) (singular :: pending) pending' y) :
    Follows (mark singular >>= f) pending pending' y := h

theorem Follows.unmark {singular : String} {f : Unit → MarkedM α}
    (h : Follows (f ()) pending pending' y) :
    Follows (unmark singular >>= f) (singular :: pending) pending' y := by
  intro t
  have herase : (singular :: pending).erase singular = pending := List.erase_cons_head ..
  have hstep : (Survey.unmark singular >>= f).outcome ⟨t, singular :: pending⟩ =
      (f ()).outcome ⟨t, (singular :: pending).erase singular⟩ := rfl
  rw [hstep, herase]
  exact h t

end Follows

/-! ## Room -/

variable {doc : Document}

/-- How many components have a resource whose name is not in progress. -/
def room (doc : Document) (pending : List String) : Nat :=
  (doc.componentNames.filter (· ∉ pending)).length

theorem room_le (doc : Document) (pending : List String) : room doc pending ≤ doc.schemas.length :=
  (List.length_filter_le _ _).trans (List.length_filterMap_le _ _)

/-- A name of a component that is put in progress leaves less room. -/
theorem room_cons_lt {singular : String} {pending : List String}
    (h : singular ∈ doc.componentNames) (hp : singular ∉ pending) :
    room doc (singular :: pending) < room doc pending := by
  unfold room
  have hsub : doc.componentNames.filter (· ∉ singular :: pending) =
      (doc.componentNames.filter (· ∉ pending)).filter (· ≠ singular) := by
    rw [List.filter_filter]
    refine List.filter_congr fun name _ => ?_
    simp
  rw [hsub, List.length_filter_lt_length_iff_exists]
  exact ⟨singular, by simpa using ⟨h, hp⟩, by simp⟩

/-- What a containing resource is created from is a component, with its name. -/
theorem mem_componentNames {parent : String} {component target : Schema}
    (hc : doc.component? parent = some component) (ht : doc.resolveSchema component = .ok target) :
    resourceSingular parent target ∈ doc.componentNames := by
  refine List.mem_filterMap.2 ⟨(parent, component), ?_, ?_⟩
  · obtain ⟨before, after, h, -⟩ := List.lookup_eq_some_iff.1 hc
    rw [h]
    exact List.mem_append_right _ List.mem_cons_self
  · rw [ht]
    rfl

/-! ## Creating side by side -/

/-- One level: if creating the resources of components follows populating them with one more name in
progress, then so does creating a resource. -/
theorem follows_level {pending pattern : List String} {singular : String} {s : Schema}
    {limit fuel : Nat}
    (h : singular ∉ pending → ∀ name ∈ doc.componentNames, ∀ target : Schema,
      Follows (create doc name [] target limit) (singular :: pending) (singular :: pending)
        (populate doc (singular :: pending) name [] target fuel)) :
    Follows (create doc singular pattern s (limit + 1)) pending pending
      (populate doc pending singular pattern s (fuel + 1)) := by
  rw [create, populate]
  refine (Follows.unmarked EStateM.get pending).bind fun known => ?_
  cases known.index.lookup singular with
  | some id =>
    exact (Follows.unmarked _ pending).bind fun _ => Follows.pure id pending
  | none =>
    cases s.declared with
    | none => exact Follows.unmarked _ pending
    | some d =>
      refine Follows.marks ?_
      by_cases hp : singular ∈ pending
      · simp only [List.contains_iff_mem.2 hp, if_true]
        exact Follows.throw _ pending pending
      · simp only [mt List.contains_iff_mem.1 hp]
        refine Follows.mark ((Follows.mapM fun parent _ => ?_).bind fun parents =>
          Follows.unmark (Follows.unmarked _ pending))
        cases hc : doc.component? parent with
        | none => exact Follows.throw _ _ _
        | some component =>
          exact Follows.lift fun target ht => h hp _ (mem_componentNames hc ht) target

/-- Below the first level every level is about the resource of a component, and leaves less room. -/
theorem create_follows_of_mem (limit fuel : Nat) {pending pattern : List String} {singular : String}
    (hmem : singular ∈ doc.componentNames) (hlimit : room doc pending < limit)
    (hfuel : room doc pending < fuel) (s : Schema) :
    Follows (create doc singular pattern s limit) pending pending
      (populate doc pending singular pattern s fuel) := by
  induction limit generalizing fuel pending pattern singular s with
  | zero => exact absurd hlimit (Nat.not_lt_zero _)
  | succ limit ih =>
    obtain ⟨fuel, rfl⟩ : ∃ n, fuel = n + 1 := Nat.exists_eq_succ_of_ne_zero (by omega)
    refine follows_level fun hp name hname target => ?_
    have hless := room_cons_lt hmem hp
    exact ih fuel hname (by omega) (by omega) target

/-- With a level for every component, and two, creating a resource follows populating it, whatever
names are in progress. -/
theorem create_follows {limit : Nat} (h : doc.schemas.length + 2 ≤ limit) (pending : List String)
    (singular : String) (pattern : List String) (s : Schema) :
    Follows (create doc singular pattern s limit) pending pending
      (populate doc pending singular pattern s (depth doc)) := by
  obtain ⟨limit, rfl⟩ : ∃ n, limit = n + 1 := Nat.exists_eq_succ_of_ne_zero (by omega)
  refine follows_level fun _ name hname target => ?_
  have hroom := room_le doc (singular :: pending)
  exact create_follows_of_mem limit _ hname (by omega) (by omega) target

/-! ## Whole surveys -/

/-- A path is surveyed with names in progress.  Nothing but creating the resource of a contribution
has to do with these. -/
def Visits (doc : Document) (start : String) (limit : Nat) (entry : String × PathItem)
    (m m' : Marked) : Prop :=
  visit doc start entry.1 entry.2 m.survey = .ok () m'.survey ∧
    match doc.contribution? start entry with
    | none => m'.inProgress = m.inProgress
    | some c => ∃ notes id t,
        (create doc c.singular c.pattern c.schema limit).outcome ⟨m.survey.withNotes notes,
          m.inProgress⟩ = some (.ok id, ⟨t, m'.inProgress⟩) ∧
        m'.survey = t.changed id (offering c.methods)

/-- A path that is surveyed from no names in progress leaves none. -/
theorem visits_of_visit {start : String} {limit : Nat} (hlimit : doc.schemas.length + 2 ≤ limit)
    {entry : String × PathItem} {s s' : Survey}
    (h : visit doc start entry.1 entry.2 s = .ok () s') :
    Visits doc start limit entry ⟨s, []⟩ ⟨s', []⟩ := by
  refine ⟨h, ?_⟩
  cases hc : doc.contribution? start entry with
  | none => rfl
  | some c =>
    obtain ⟨notes, hv⟩ := visit_of_contribution hc s
    obtain ⟨id, t, hpopulates, hs'⟩ := (hv () s').1 h
    have hfollows := create_follows hlimit [] c.singular c.pattern c.schema (s.withNotes notes)
    rw [show populate doc [] c.singular c.pattern c.schema (depth doc) (s.withNotes notes) =
      .ok id t from hpopulates] at hfollows
    exact ⟨notes, id, t, hfollows, hs'⟩

theorem walk_visits {start : String} {limit : Nat} (hlimit : doc.schemas.length + 2 ≤ limit)
    {entries : List (String × PathItem)} {s s' : Survey}
    (h : Walk (fun entry s s' => visit doc start entry.1 entry.2 s = .ok PUnit.unit s')
      entries s s') :
    Walk (fun entry m m' => Visits doc start limit entry m m' ∧ m.inProgress = [] ∧
      m'.inProgress = []) entries ⟨s, []⟩ ⟨s', []⟩ := by
  induction h with
  | nil s => exact .nil _
  | cons h₁ _ ih => exact .cons ⟨visits_of_visit hlimit h₁, rfl, rfl⟩ ih

/-- **Populating ends.**  With a level for every component, and two, creating a resource has an
outcome, from every survey, name, pattern and schema, and it is the outcome of populating; if it is
a result, no names are in progress afterwards.  If a document has resources, they come from a walk
over its paths that creates them so, with no names in progress after any path. -/
theorem create_ends {limit : Nat} (h : doc.schemas.length + 2 ≤ limit) :
    (∀ singular pattern s, Follows (create doc singular pattern s limit) [] []
      (getOrPopulate doc singular pattern s)) ∧
    ∀ given start g, doc.resources given start = .ok g → ∃ m t,
      Walk (fun entry m m' => Visits doc start limit entry m m' ∧ m.inProgress = [] ∧
        m'.inProgress = []) doc.paths ⟨{}, []⟩ m ∧
      Walk (fun bucket s s' => attach bucket.1 bucket.2 s = .ok PUnit.unit s')
        m.survey.customs m.survey t ∧
      g.resources = t.resources ∧ g.index = t.index := by
  refine ⟨fun singular pattern s => create_follows h [] singular pattern s, ?_⟩
  intro given start g hg
  obtain ⟨s₁, s₂, hwalk, hattach, -, hresources, hindex⟩ := resources_ok_iff.1 hg
  exact ⟨⟨s₁, []⟩, s₂, walk_visits h hwalk, hattach, hresources, hindex⟩

/-- The shelves of books come from a walk that leaves no names in progress. -/
theorem shelves_visits : ∃ g m t, Document.shelves.resources none "" = .ok g ∧
    Walk (fun entry m m' => Visits Document.shelves "" 4 entry m m' ∧ m.inProgress = [] ∧
      m'.inProgress = []) Document.shelves.paths ⟨{}, []⟩ m ∧
    Walk (fun bucket s s' => attach bucket.1 bucket.2 s = .ok PUnit.unit s')
      m.survey.customs m.survey t ∧
    g.resources = t.resources ∧ g.index = [("book", 1), ("shelf", 0)] := by
  obtain ⟨g, hg, hindex⟩ := exists_ok_of_map_toOption (f := ResourceGraph.index)
    (show (Document.shelves.resources none "").toOption.map _ =
      some [("book", 1), ("shelf", 0)] by decide +kernel)
  obtain ⟨-, hwalks⟩ := create_ends (show Document.shelves.schemas.length + 2 ≤ 4 by decide)
  obtain ⟨m, t, hwalk, hattach, hresources, -⟩ := hwalks none "" g hg
  exact ⟨g, m, t, hg, hwalk, hattach, hresources, hindex⟩

/-- A schema that declares a resource contained by that of the component `Ring`. -/
def onRing (singular : String) : Schema :=
  { Schema.typed "object" with declared := some { singular, parents := ["Ring"] } }

-- With a ring that contains itself no level is to spare: the first resource, the ring, and the ring
-- once more, where the circle is found.
example :
    let doc : Document := { openapi := some "3.1.0", components := [("Ring", onRing "ring")] }
    ((create doc "bead" [] (onRing "bead") 2).outcome ⟨{}, []⟩).isNone ∧
      ((create doc "bead" [] (onRing "bead") 3).outcome ⟨{}, []⟩).map (·.2.inProgress) =
        some ["ring", "bead"] := by
  decide +kernel

end Survey

end ResourceCli
