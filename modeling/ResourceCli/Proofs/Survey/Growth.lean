import ResourceCli.Proofs.Survey.Visit
import ResourceCli.Proofs.Table

/-!
# How a survey grows

Populating a name never takes anything away.  Resources are only added, at the end and without
methods; a name that leads to a place goes on leading to that place; and the name populated leads to
the place given back.  Only the one resource that was there before can change, by getting the
pattern it is met under.

The one subtle point is the index.  While the containing resources of a name are populated, that
very name may be added, by a component that has no declaration; then it is added a second time, and
the index leads to the later one.  A name that was there *before* the run is never added again, and
this is what `Grown.known` says.
-/

namespace ResourceCli
namespace Survey

/-- The survey has grown: resources without methods were added at the end, and every name leads to
where it led before. -/
structure Grown (s s' : Survey) : Prop where
  /-- Resources are added at the end, and have no methods. -/
  appended : ∃ new, s'.resources = s.resources ++ new ∧
    ∀ r ∈ new, r.methods = {} ∧ r.customs = []
  /-- A known name leads to where it led before. -/
  known : ∀ name id, s.index.lookup name = some id → s'.index.lookup name = some id
  /-- The methods kept for patterns are the same. -/
  customs : s'.customs = s.customs

namespace Grown

variable {s s₁ s' : Survey}

theorem refl (s : Survey) : Grown s s :=
  ⟨⟨[], (List.append_nil _).symm, by simp⟩, fun _ _ h => h, rfl⟩

theorem trans (h : Grown s s₁) (h' : Grown s₁ s') : Grown s s' := by
  obtain ⟨new, hn, hb⟩ := h.appended
  obtain ⟨new', hn', hb'⟩ := h'.appended
  refine ⟨⟨new ++ new', ?_, ?_⟩, fun name id hl => h'.known _ _ (h.known _ _ hl),
    h'.customs.trans h.customs⟩
  · rw [hn', hn, List.append_assoc]
  · intro r hr
    rcases List.mem_append.1 hr with hr | hr
    · exact hb r hr
    · exact hb' r hr

/-- A resource stays where it is. -/
theorem getElem? (h : Grown s s') {i : Nat} {r : Resource} (hr : s.resources[i]? = some r) :
    s'.resources[i]? = some r := by
  obtain ⟨new, hn, -⟩ := h.appended
  rw [hn, List.getElem?_append_left (List.getElem?_eq_some_iff.1 hr).1, hr]

/-- Adding a resource whose name was not known at the start is growth. -/
theorem added (h : Grown s s') {r : Resource} (hl : s.index.lookup r.singular = none)
    (hm : r.methods = {}) (hc : r.customs = []) : Grown s (s'.added r) := by
  obtain ⟨new, hn, hb⟩ := h.appended
  refine ⟨⟨new ++ [r], ?_, ?_⟩, ?_, h.customs⟩
  · show s'.resources ++ [r] = _
    rw [hn, List.append_assoc]
  · intro r' hr
    rcases List.mem_append.1 hr with hr | hr
    · exact hb r' hr
    · rw [List.mem_singleton.1 hr]
      exact ⟨hm, hc⟩
  · intro name id hi
    show (Json.insertSorted _ _ s'.index).lookup name = some id
    rw [lookup_insertSorted, if_neg, h.known name id hi]
    rintro rfl
    rw [hl] at hi
    cases hi

end Grown

/-! ## Growth by populating -/

theorem getElem?_changed (s : Survey) (place i : Nat) (f : Resource → Resource) :
    (s.changed place f).resources[i]? =
      s.resources[i]?.map fun r => if place = i then f r else r := by
  unfold changed
  rw [List.getElem?_modify]
  rfl

/-- After a change a resource stands where one stood before, and is like it in all that the change
leaves alone. -/
theorem exists_of_changed {s : Survey} {place i : Nat} {f : Resource → Resource} {r : Resource}
    (h : (s.changed place f).resources[i]? = some r) :
    ∃ r₀, s.resources[i]? = some r₀ ∧
      ∀ {β : Type} (part : Resource → β), (∀ q, part (f q) = part q) → part r = part r₀ := by
  rw [getElem?_changed, Option.map_eq_some_iff] at h
  obtain ⟨r₀, hr₀, rfl⟩ := h
  refine ⟨r₀, hr₀, fun part hpart => ?_⟩
  split
  · exact hpart r₀
  · rfl

theorem lookup_added (s : Survey) (r : Resource) :
    (s.added r).index.lookup r.singular = some s.resources.length := by
  show (Json.insertSorted _ _ s.index).lookup r.singular = _
  rw [lookup_insertSorted, if_pos rfl]

theorem getElem?_added (s : Survey) (r : Resource) (i : Nat) :
    (s.added r).resources[i]? =
      if i = s.resources.length then some r else s.resources[i]? := by
  show (s.resources ++ [r])[i]? = _
  rcases Nat.lt_trichotomy i s.resources.length with h | h | h
  · rw [List.getElem?_append_left h, if_neg (by omega)]
  · rw [h, List.getElem?_concat_length, if_pos rfl]
  · have hlen : (s.resources ++ [r]).length ≤ i := by
      rw [List.length_append, List.length_singleton]
      omega
    rw [if_neg (by omega), List.getElem?_eq_none hlen, List.getElem?_eq_none (by omega)]

theorem getElem?_added_length (s : Survey) (r : Resource) :
    (s.added r).resources[s.resources.length]? = some r := by
  rw [getElem?_added, if_pos rfl]

/-- What is there keeps its place when a resource is added. -/
theorem getElem?_added_of_getElem? {s : Survey} {i : Nat} {q : Resource} (r : Resource)
    (hq : s.resources[i]? = some q) : (s.added r).resources[i]? = some q := by
  have hi := (List.getElem?_eq_some_iff.1 hq).1
  rw [getElem?_added, if_neg (by omega), hq]

/-- What is there once a resource is added was there before, or is that resource. -/
theorem cases_of_getElem?_added {s : Survey} {i : Nat} {q r : Resource}
    (hq : (s.added r).resources[i]? = some q) :
    s.resources[i]? = some q ∨ i = s.resources.length ∧ q = r := by
  rw [getElem?_added] at hq
  split at hq
  · rename_i hi
    exact .inr ⟨hi, (Option.some.inj hq).symm⟩
  · exact .inl hq

/-- The index knows every name once a resource is added, if it knew all of them before. -/
theorem exists_lookup_added {s : Survey}
    (hs : ∀ q ∈ s.resources, ∃ id, s.index.lookup q.singular = some id) (r : Resource) :
    ∀ q ∈ (s.added r).resources, ∃ id, (s.added r).index.lookup q.singular = some id := by
  intro q hq
  by_cases hname : q.singular = r.singular
  · rw [hname]
    exact ⟨_, lookup_added s r⟩
  · show ∃ id, (Json.insertSorted _ _ s.index).lookup q.singular = some id
    rw [lookup_insertSorted, if_neg hname]
    rcases List.mem_append.1 hq with hq | hq
    · exact hs q hq
    · exact absurd (congrArg Resource.singular (List.mem_singleton.1 hq)) hname

@[simp] theorem withPattern_nil (r : Resource) : Resource.withPattern [] r = r := by
  simp [Resource.withPattern]

@[simp] theorem withPattern_singular (pattern : List String) (r : Resource) :
    (Resource.withPattern pattern r).singular = r.singular := by
  unfold Resource.withPattern
  split <;> rfl

theorem changed_withPattern_nil (s : Survey) (place : Nat) :
    s.changed place (Resource.withPattern []) = s := by
  have h : Resource.withPattern [] = id := funext withPattern_nil
  unfold changed
  rw [h, List.modify_id]

variable {doc : Document} {s s' : Survey} {pending : List String} {singular : String}
  {pattern : List String} {schema : Schema} {id : Nat}

/-- Growth adds up over containing resources. -/
theorem Harvest.grown {R : Populating} {parents : List String} {ids : List Nat}
    (step : ∀ pending singular schema s id s', R pending singular [] schema s id s' → Grown s s')
    (h : Harvest (ParentPopulated doc R pending) parents s ids s') : Grown s s' := by
  induction h with
  | nil s => exact .refl s
  | cons h₁ _ ih =>
    obtain ⟨_, _, -, -, h₁⟩ := h₁
    exact (step _ _ _ _ _ _ h₁).trans ih

/-- **Populating grows the survey**, unless the name is known; then at most its resource gets the
pattern. -/
theorem Succeeds.grown (h : Succeeds doc pending singular pattern schema s id s') :
    Grown s s' ∨
      s.index.lookup singular = some id ∧ s' = s.changed id (Resource.withPattern pattern) := by
  refine populating_induction (M := fun _ singular pattern _ s id s' => Grown s s' ∨
    s.index.lookup singular = some id ∧ s' = s.changed id (Resource.withPattern pattern))
    ?_ ?_ ?_ h
  · intro _ _ _ _ _ _ hl
    exact .inr ⟨hl, rfl⟩
  · intro _ _ _ _ s hl _
    exact .inl ((Grown.refl s).added hl rfl rfl)
  · intro pending singular pattern schema s d parents s₁ hl _ _ hs
    refine .inl (Grown.added (Harvest.grown ?_ hs) hl rfl rfl)
    rintro _ _ _ t id t' ⟨-, hm | ⟨-, rfl⟩⟩
    · exact hm
    · rw [changed_withPattern_nil]
      exact .refl t

theorem Succeeds.grown_of_nil (h : Succeeds doc pending singular [] schema s id s') :
    Grown s s' := by
  rcases h.grown with hg | ⟨-, rfl⟩
  · exact hg
  · rw [changed_withPattern_nil]
    exact .refl s

/-- **The name populated leads to the place given back.** -/
theorem Succeeds.lookup (h : Succeeds doc pending singular pattern schema s id s') :
    s'.index.lookup singular = some id := by
  refine populating_induction (M := fun _ singular _ _ _ id s' =>
    s'.index.lookup singular = some id) ?_ ?_ ?_ h
  · intro _ _ _ _ _ _ hl
    exact hl
  · intro _ singular pattern schema s _ _
    exact lookup_added s (inferred singular pattern schema)
  · intro _ singular _ schema s d parents s₁ _ _ _ _
    exact lookup_added s₁ (declared singular d parents schema)

end Survey
end ResourceCli
