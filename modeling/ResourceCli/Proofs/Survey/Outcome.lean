import ResourceCli.Resource.Survey

/-!
# What a survey does when it succeeds

A survey is a program with a state that may fail.  Nothing is said here about its failures: the
statements below say which successful runs there are, one operation at a time, so that no later
proof opens the definition of an operation.

* `bind_ok_iff`, `lift_ok_iff`, `forIn_ok_iff`, `mapM_ok_iff`: the shapes a program is made of.  A
  loop over a list is a `Walk`, and one that collects results is a `Harvest`.
* `populates_succ_iff`: the three ways to come by the place of a name.  It is known already, or it
  is added without a declaration, or its containing resources are harvested first and then it is
  added with its declaration.
* `populating_induction`: what holds of all three ways holds of every run.  All that is said of
  populating goes by this one induction.
-/

namespace ResourceCli

/-! ## Loops -/

/-- A list is gone through in order, each item taking the state on. -/
inductive Walk {α σ : Type} (R : α → σ → σ → Prop) : List α → σ → σ → Prop
  /-- Nothing is left. -/
  | nil (s : σ) : Walk R [] s s
  /-- One item, and then the others. -/
  | cons {a : α} {as : List α} {s s₁ s₂ : σ} :
      R a s s₁ → Walk R as s₁ s₂ → Walk R (a :: as) s s₂

/-- A list is gone through in order, each item taking the state on and giving a result. -/
inductive Harvest {α β σ : Type} (R : α → σ → β → σ → Prop) : List α → σ → List β → σ → Prop
  /-- Nothing is left. -/
  | nil (s : σ) : Harvest R [] s [] s
  /-- One item, and then the others. -/
  | cons {a : α} {as : List α} {b : β} {bs : List β} {s s₁ s₂ : σ} :
      R a s b s₁ → Harvest R as s₁ bs s₂ → Harvest R (a :: as) s (b :: bs) s₂

namespace Walk

variable {α σ : Type} {R : α → σ → σ → Prop}

/-- What each step keeps, the walk keeps. -/
theorem preserves {P : σ → Prop} {as : List α} {s s' : σ} (h : Walk R as s s')
    (step : ∀ a ∈ as, ∀ s s', R a s s' → P s → P s') (hs : P s) : P s' := by
  induction h with
  | nil s => exact hs
  | cons h₁ _ ih =>
    exact ih (fun a ha => step a (List.mem_cons_of_mem _ ha))
      (step _ List.mem_cons_self _ _ h₁ hs)

/-- What is said of the items gone through so far, and of the state they lead to, is said of all
items after the walk, if each step takes its own item on. -/
theorem accumulates {P : List α → σ → Prop} {as done : List α} {s s' : σ} (h : Walk R as s s')
    (step : ∀ a ∈ as, ∀ done s s', R a s s' → P done s → P (done ++ [a]) s') (hs : P done s) :
    P (done ++ as) s' := by
  induction h generalizing done with
  | nil s =>
    rw [List.append_nil]
    exact hs
  | cons h₁ _ ih =>
    rw [List.append_cons]
    exact ih (fun a ha => step a (List.mem_cons_of_mem _ ha))
      (step _ List.mem_cons_self _ _ _ h₁ hs)

/-- Every item has been a step of the walk. -/
theorem exists_step {as : List α} {s s' : σ} (h : Walk R as s s') {a : α} (ha : a ∈ as) :
    ∃ s₁ s₂, R a s₁ s₂ := by
  induction h with
  | nil s => cases ha
  | cons h₁ _ ih =>
    rcases List.mem_cons.1 ha with rfl | ha
    · exact ⟨_, _, h₁⟩
    · exact ih ha

/-- If no step can fail, the walk does not fail. -/
theorem exists_of_forall {as : List α} (step : ∀ a ∈ as, ∀ s, ∃ s', R a s s') (s : σ) :
    ∃ s', Walk R as s s' := by
  induction as generalizing s with
  | nil => exact ⟨s, .nil s⟩
  | cons a as ih =>
    obtain ⟨s₁, h₁⟩ := step a List.mem_cons_self s
    obtain ⟨s₂, h₂⟩ := ih (fun a ha => step a (List.mem_cons_of_mem _ ha)) s₁
    exact ⟨s₂, .cons h₁ h₂⟩

end Walk

namespace Harvest

variable {α β σ : Type} {R R' : α → σ → β → σ → Prop}

theorem imp (step : ∀ a s b s', R a s b s' → R' a s b s') {as : List α} {bs : List β} {s s' : σ}
    (h : Harvest R as s bs s') : Harvest R' as s bs s' := by
  induction h with
  | nil s => exact .nil s
  | cons h₁ _ ih => exact .cons (step _ _ _ _ h₁) ih

/-- What each step keeps, the harvest keeps. -/
theorem preserves {P : σ → Prop} {as : List α} {bs : List β} {s s' : σ} (h : Harvest R as s bs s')
    (step : ∀ a s b s', R a s b s' → P s → P s') (hs : P s) : P s' := by
  induction h with
  | nil s => exact hs
  | cons h₁ _ ih => exact ih (step _ _ _ _ h₁ hs)

end Harvest

namespace Survey

/-! ## The shapes of a program -/

variable {α β : Type} {s s' : Survey}

theorem bind_ok_iff {x : SurveyM α} {f : α → SurveyM β} {b : β} :
    (x >>= f) s = .ok b s' ↔ ∃ a s₁, x s = .ok a s₁ ∧ f a s₁ = .ok b s' := by
  show EStateM.bind x f s = .ok b s' ↔ _
  unfold EStateM.bind
  cases hx : x s with
  | ok a s₁ =>
    constructor
    · intro h
      exact ⟨a, s₁, rfl, h⟩
    · rintro ⟨a', s₁', h₁, h₂⟩
      cases h₁
      exact h₂
  | error e s₁ => simp

theorem pure_ok_iff {a b : α} : (pure a : SurveyM α) s = .ok b s' ↔ a = b ∧ s = s' := by
  show EStateM.Result.ok a s = .ok b s' ↔ _
  rw [EStateM.Result.ok.injEq]

theorem get_ok_iff {t : Survey} :
    (EStateM.get : SurveyM Survey) s = .ok t s' ↔ t = s ∧ s' = s := by
  show EStateM.Result.ok s s = .ok t s' ↔ _
  rw [EStateM.Result.ok.injEq, eq_comm (a := s), eq_comm (a := s)]

theorem modify_ok_iff {f : Survey → Survey} {u : PUnit} :
    (modify f : SurveyM PUnit) s = .ok u s' ↔ s' = f s := by
  show EStateM.Result.ok PUnit.unit (f s) = .ok u s' ↔ _
  rw [EStateM.Result.ok.injEq, eq_comm (a := f s)]
  exact and_iff_right rfl

@[simp] theorem throw_ok_iff {e : Failure} {a : α} :
    (throw e : SurveyM α) s = .ok a s' ↔ False := by
  show EStateM.Result.error e s = .ok a s' ↔ _
  simp

theorem lift_ok_iff {x : Except Failure α} {a : α} :
    lift x s = .ok a s' ↔ x = .ok a ∧ s' = s := by
  cases x with
  | ok b => rw [lift, pure_ok_iff, Except.ok.injEq, eq_comm (a := s)]
  | error e => simp [lift]

/-- A loop that does the same with each item is a walk. -/
theorem forIn_ok_iff (f : α → SurveyM PUnit) (as : List α) (s s' : Survey) (u : PUnit) :
    (forIn as PUnit.unit fun a _ => do f a; pure (ForInStep.yield PUnit.unit)) s = .ok u s' ↔
      Walk (fun a s s' => f a s = .ok PUnit.unit s') as s s' := by
  induction as generalizing s with
  | nil =>
    rw [List.forIn_nil, pure_ok_iff]
    constructor
    · rintro ⟨-, rfl⟩
      exact .nil s
    · intro h
      cases h
      exact ⟨rfl, rfl⟩
  | cons a as ih =>
    rw [List.forIn_cons, bind_ok_iff]
    constructor
    · rintro ⟨step, s₁, h₁, h₂⟩
      rw [bind_ok_iff] at h₁
      obtain ⟨_, s₁', ha, h₁⟩ := h₁
      rw [pure_ok_iff] at h₁
      obtain ⟨rfl, rfl⟩ := h₁
      exact .cons ha ((ih _).1 h₂)
    · intro h
      cases h with
      | cons ha has =>
        refine ⟨.yield PUnit.unit, _, ?_, (ih _).2 has⟩
        rw [bind_ok_iff]
        exact ⟨PUnit.unit, _, ha, rfl⟩

/-- A loop that collects results is a harvest. -/
theorem mapM_ok_iff {f : α → SurveyM β} {as : List α} {bs : List β} :
    as.mapM f s = .ok bs s' ↔ Harvest (fun a s b s' => f a s = .ok b s') as s bs s' := by
  induction as generalizing s bs with
  | nil =>
    rw [List.mapM_nil, pure_ok_iff]
    constructor
    · rintro ⟨rfl, rfl⟩
      exact .nil s
    · intro h
      cases h
      exact ⟨rfl, rfl⟩
  | cons a as ih =>
    rw [List.mapM_cons, bind_ok_iff]
    constructor
    · rintro ⟨b, s₁, ha, h⟩
      rw [bind_ok_iff] at h
      obtain ⟨bs', s₂, has, h⟩ := h
      rw [pure_ok_iff] at h
      obtain ⟨rfl, rfl⟩ := h
      exact .cons ha (ih.1 has)
    · intro h
      cases h with
      | cons ha has =>
        refine ⟨_, _, ha, ?_⟩
        rw [bind_ok_iff]
        exact ⟨_, _, ih.2 has, rfl⟩

/-! ## The operations -/

/-- The survey with one more note. -/
def noted (s : Survey) (level : Log.Level) (message : String)
    (fields : List (String × Log.Datum)) : Survey :=
  { s with notes := ⟨level, target, message, fields⟩ :: s.notes }

/-- The survey with the resource at a place changed. -/
def changed (s : Survey) (id : Nat) (f : Resource → Resource) : Survey :=
  { s with resources := s.resources.modify id f }

/-- The survey with one more resource. -/
def added (s : Survey) (r : Resource) : Survey :=
  { s.noted .debug "discovered resource"
      [("resource", .plain r.singular), ("pattern", .plain r.patternPath)] with
    resources := s.resources ++ [r]
    index := Json.insertSorted r.singular s.resources.length s.index }

theorem note_ok_iff {level : Log.Level} {message : String} {fields : List (String × Log.Datum)}
    {u : PUnit} : note level message fields s = .ok u s' ↔ s' = s.noted level message fields :=
  modify_ok_iff

theorem modifyAt_ok_iff {id : Nat} {f : Resource → Resource} {u : PUnit} :
    modifyAt id f s = .ok u s' ↔ s' = s.changed id f :=
  modify_ok_iff

theorem add_ok_iff {r : Resource} {id : Nat} :
    add r s = .ok id s' ↔ id = s.resources.length ∧ s' = s.added r := by
  show EStateM.Result.ok s.resources.length (s.added r) = .ok id s' ↔ _
  rw [EStateM.Result.ok.injEq, eq_comm, eq_comm (a := s.added r)]

/-! ## Populating -/

/-- What a run of populating is said to do: from the pending names, the name, its pattern, its
schema and a survey to a place and a survey. -/
abbrev Populating := List String → String → List String → Schema → Survey → Nat → Survey → Prop

/-- One containing resource is populated: its component is there, it stands for a schema, and the
resource of that schema is populated. -/
def ParentPopulated (doc : Document) (R : Populating) (pending : List String) (parent : String)
    (s : Survey) (id : Nat) (s' : Survey) : Prop :=
  ∃ component schema, doc.component? parent = some component ∧
    doc.resolveSchema component = .ok schema ∧
    R pending (resourceSingular parent schema) [] schema s id s'

/-- The runs of populating that succeed within a depth. -/
def Populates (doc : Document) (fuel : Nat) : Populating :=
  fun pending singular pattern schema s id s' =>
    populate doc pending singular pattern schema fuel s = .ok id s'

variable {doc : Document}

/-- The body of the loop over containing resources. -/
theorem parent_ok_iff {pending : List String} {singular parent : String} {fuel id : Nat} :
    (match doc.component? parent with
      | none => (throw (Failure.parentNotFound singular parent) : SurveyM Nat)
      | some component => do
        let schema ← lift (doc.resolveSchema component)
        populate doc pending (resourceSingular parent schema) [] schema fuel) s = .ok id s' ↔
      ParentPopulated doc (Populates doc fuel) pending parent s id s' := by
  unfold ParentPopulated Populates
  cases hc : doc.component? parent with
  | none => simp
  | some component =>
    simp only [bind_ok_iff, lift_ok_iff, Option.some.injEq]
    constructor
    · rintro ⟨schema, _, ⟨hs, rfl⟩, h⟩
      exact ⟨component, schema, rfl, hs, h⟩
    · rintro ⟨_, schema, rfl, hs, h⟩
      exact ⟨schema, s, ⟨hs, rfl⟩, h⟩

/-- A declared resource is added once its containing resources are harvested. -/
theorem declared_ok_iff {pending : List String} {singular : String} {schema : Schema}
    {d : Declaration} {fuel id : Nat} :
    (do
      let parents ← d.parents.mapM fun parent =>
        match doc.component? parent with
        | none => (throw (Failure.parentNotFound singular parent) : SurveyM Nat)
        | some component => do
          let schema ← lift (doc.resolveSchema component)
          populate doc pending (resourceSingular parent schema) [] schema fuel
      add (declared singular d parents schema)) s = .ok id s' ↔
    ∃ parents s₁,
      Harvest (ParentPopulated doc (Populates doc fuel) pending) d.parents s parents s₁ ∧
        id = s₁.resources.length ∧ s' = s₁.added (declared singular d parents schema) := by
  simp only [bind_ok_iff, mapM_ok_iff, add_ok_iff, parent_ok_iff]

/-- The three ways to come by the place of a name. -/
theorem populates_succ_iff {pending : List String} {singular : String} {pattern : List String}
    {schema : Schema} {fuel id : Nat} :
    Populates doc (fuel + 1) pending singular pattern schema s id s' ↔
      (s.index.lookup singular = some id ∧ s' = s.changed id (Resource.withPattern pattern)) ∨
      (s.index.lookup singular = none ∧ schema.declared = none ∧
        id = s.resources.length ∧ s' = s.added (inferred singular pattern schema)) ∨
      (s.index.lookup singular = none ∧ singular ∉ pending ∧
        ∃ d parents s₁, schema.declared = some d ∧
          Harvest (ParentPopulated doc (Populates doc fuel) (singular :: pending))
            d.parents s parents s₁ ∧
          id = s₁.resources.length ∧ s' = s₁.added (declared singular d parents schema)) := by
  show populate doc pending singular pattern schema (fuel + 1) s = .ok id s' ↔ _
  rw [populate, bind_ok_iff]
  have hget : ∀ t s₁, (EStateM.get : SurveyM Survey) s = .ok t s₁ ↔ t = s ∧ s₁ = s :=
    fun _ _ => get_ok_iff
  simp only [hget, exists_and_left, exists_eq_left, and_assoc]
  cases hl : s.index.lookup singular with
  | some known =>
    simp only [bind_ok_iff, modifyAt_ok_iff, pure_ok_iff]
    constructor
    · rintro ⟨_, _, rfl, rfl, rfl⟩
      exact .inl ⟨rfl, rfl⟩
    · rintro (⟨hk, rfl⟩ | ⟨hk, -⟩ | ⟨hk, -⟩)
      · cases hk
        exact ⟨PUnit.unit, _, rfl, rfl, rfl⟩
      · cases hk
      · cases hk
  | none =>
    cases hd : schema.declared with
    | none => simp [add_ok_iff]
    | some d =>
      by_cases hp : singular ∈ pending
      · simp [hp, bind_ok_iff]
      · simp only [hp, List.contains_iff_mem, if_false, reduceCtorEq, false_and, true_and,
          false_or, not_false_eq_true, Option.some.injEq, exists_eq_left']
        exact declared_ok_iff

/-- The runs of populating that succeed. -/
def Succeeds (doc : Document) : Populating :=
  fun pending singular pattern schema s id s' =>
    ∃ fuel, Populates doc fuel pending singular pattern schema s id s'

/-- **Induction over populating.**  What holds of each of the three ways to come by the place of a
name, of the third one given that it holds of the runs for the containing resources, holds of every
successful run, however deep it was allowed to go. -/
theorem populating_induction {M : Populating}
    (known : ∀ pending singular pattern schema s id, s.index.lookup singular = some id →
      M pending singular pattern schema s id (s.changed id (Resource.withPattern pattern)))
    (fresh : ∀ pending singular pattern schema s, s.index.lookup singular = none →
      schema.declared = none → M pending singular pattern schema s s.resources.length
        (s.added (inferred singular pattern schema)))
    (contained : ∀ pending singular pattern schema s d parents s₁,
      s.index.lookup singular = none → singular ∉ pending → schema.declared = some d →
      Harvest (ParentPopulated doc
        (fun pending singular pattern schema s id s' =>
          Succeeds doc pending singular pattern schema s id s' ∧
            M pending singular pattern schema s id s')
        (singular :: pending)) d.parents s parents s₁ →
      M pending singular pattern schema s s₁.resources.length
        (s₁.added (declared singular d parents schema)))
    {pending : List String} {singular : String} {pattern : List String} {schema : Schema}
    {id : Nat} (h : Succeeds doc pending singular pattern schema s id s') :
    M pending singular pattern schema s id s' := by
  obtain ⟨fuel, h⟩ := h
  induction fuel generalizing pending singular pattern schema s id s' with
  | zero => cases h
  | succ fuel ih =>
    rcases populates_succ_iff.1 h with ⟨hl, rfl⟩ | ⟨hl, hd, rfl, rfl⟩ |
      ⟨hl, hp, d, parents, s₁, hd, hs, rfl, rfl⟩
    · exact known _ _ _ _ _ _ hl
    · exact fresh _ _ _ _ _ hl hd
    · refine contained _ _ _ _ _ _ _ _ hl hp hd (hs.imp ?_)
      rintro parent t id t' ⟨component, schema, hc, hs, hm⟩
      exact ⟨component, schema, hc, hs, ⟨fuel, hm⟩, ih hm⟩

end Survey

end ResourceCli
