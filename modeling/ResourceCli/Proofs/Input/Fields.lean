import ResourceCli.Proofs.Call.Request
import ResourceCli.Proofs.Table

/-!
# The inputs of a schema

A client may set every property of a schema that is not read-only (`Schema.Writable`).  Each of them
is an input, unless one of them is a list that does not say what its items are; then the schema has
no inputs at all.  Of the inputs, those can be options of a command whose names are not taken.

* `exists_fieldInputs_iff`: which schemas have inputs.
* `mem_fieldInputs_iff`, `mem_bindableInputs_iff`: which inputs a schema has, and which of them can
  be options.
* `map_name_fieldInputs`, `map_name_bindableInputs`: their names, in the order of the schema.
-/

namespace ResourceCli

/-! ## Lists of steps that may fail -/

section Steps

variable {ε α β γ : Type} {f : α → Except ε β} {as : List α} {bs : List β}

/-- A list of steps works if each of them does. -/
theorem mapM_eq_ok_iff : as.mapM f = .ok bs ↔ List.Forall₂ (fun a b => f a = .ok b) as bs := by
  induction as generalizing bs with
  | nil =>
    rw [List.mapM_nil, List.forall₂_nil_left_iff]
    exact ⟨fun h => (Except.ok.inj h).symm, fun h => congrArg Except.ok h.symm⟩
  | cons a as ih =>
    rw [List.mapM_cons, bind_eq_ok_iff]
    constructor
    · rintro ⟨b, hb, h⟩
      obtain ⟨rest, hrest, h⟩ := bind_eq_ok_iff.1 h
      cases h
      exact .cons hb (ih.1 hrest)
    · intro h
      cases h with
      | cons hb hrest => exact ⟨_, hb, bind_eq_ok_iff.2 ⟨_, ih.2 hrest, rfl⟩⟩

theorem exists_mapM_eq_ok_iff :
    (∃ bs, as.mapM f = .ok bs) ↔ ∀ a ∈ as, ∃ b, f a = .ok b := by
  simp only [mapM_eq_ok_iff]
  constructor
  · rintro ⟨bs, h⟩ a ha
    induction h with
    | nil => cases ha
    | cons hb _ ih =>
      rcases List.mem_cons.1 ha with rfl | ha
      · exact ⟨_, hb⟩
      · exact ih ha
  · intro h
    induction as with
    | nil => exact ⟨[], .nil⟩
    | cons a as ih =>
      obtain ⟨b, hb⟩ := h a List.mem_cons_self
      obtain ⟨bs, hbs⟩ := ih fun a ha => h a (List.mem_cons_of_mem _ ha)
      exact ⟨b :: bs, .cons hb hbs⟩

/-- The results of a list of steps are the results of its steps. -/
theorem mem_of_mapM_eq_ok (h : as.mapM f = .ok bs) {b : β} : b ∈ bs ↔ ∃ a ∈ as, f a = .ok b := by
  induction mapM_eq_ok_iff.1 h with
  | nil => simp
  | cons hb _ ih =>
    rename_i a' b' as bs hrest
    have ih := ih (mapM_eq_ok_iff.2 hrest)
    rw [List.mem_cons, ih, List.exists_mem_cons_iff, hb, Except.ok.injEq, eq_comm]

/-- What each step says about its result, the list of steps says about its results. -/
theorem map_of_mapM_eq_ok {g : β → γ} {k : α → γ} (h : as.mapM f = .ok bs)
    (hg : ∀ a b, f a = .ok b → g b = k a) : bs.map g = as.map k := by
  induction mapM_eq_ok_iff.1 h with
  | nil => rfl
  | cons hb hrest ih => rw [List.map_cons, List.map_cons, hg _ _ hb, ih (mapM_eq_ok_iff.2 hrest)]

end Steps

/-! ## Inputs -/

/-- A property of a schema that a client may set. -/
def Schema.Writable (s : Schema) (name : String) (property : Schema) : Prop :=
  (name, property) ∈ s.properties ∧ property.readOnly = false

/-- A property that says how it is given: if it is a list, it says what its items are. -/
def Schema.SaysItems (property : Schema) : Prop :=
  property.typeName? = some "array" → property.items ≠ none

theorem exists_ofSchema_iff (name : String) (property : Schema) :
    (∃ kind, InputKind.ofSchema name property = .ok kind) ↔ property.SaysItems := by
  unfold InputKind.ofSchema Schema.SaysItems
  split
  case h_5 harray =>
    rw [harray]
    cases property.items with
    | none => simp
    | some items => simp
  case h_6 hother => exact iff_of_true ⟨_, rfl⟩ fun harray => absurd harray hother
  all_goals
    rename_i htype
    rw [htype]
    exact iff_of_true ⟨_, rfl⟩ fun harray => absurd (Option.some.inj harray) (by decide)

variable {s : Schema} {name : String} {property : Schema} {input : FieldInput}
  {inputs : List FieldInput}

theorem fieldInput_eq_ok_iff : fieldInput s name property = .ok input ↔
    ∃ kind, InputKind.ofSchema name property = .ok kind ∧
      input = ⟨name, kind, fieldHelp name (s.requires name) property, s.requires name⟩ := by
  unfold fieldInput
  rw [bind_eq_ok_iff]
  exact exists_congr fun kind => and_congr_right fun _ =>
    ⟨fun h => (Except.ok.inj h).symm, fun h => congrArg Except.ok h.symm⟩

theorem name_of_fieldInput (h : fieldInput s name property = .ok input) : input.name = name := by
  obtain ⟨_, -, rfl⟩ := fieldInput_eq_ok_iff.1 h
  rfl

theorem required_of_fieldInput (h : fieldInput s name property = .ok input) :
    input.required = s.requires name := by
  obtain ⟨_, -, rfl⟩ := fieldInput_eq_ok_iff.1 h
  rfl

/-- The properties that a client may set, as they stand in a schema. -/
def Schema.writables (s : Schema) : List (String × Schema) :=
  s.properties.filter fun (_, property) => !property.readOnly

theorem Schema.mem_writables_iff : (name, property) ∈ s.writables ↔ s.Writable name property := by
  rw [Schema.writables, List.mem_filter, Bool.not_eq_true', Schema.Writable]

theorem fieldInputs_eq (s : Schema) :
    fieldInputs s = s.writables.mapM fun e => fieldInput s e.1 e.2 := rfl

/-- **Which schemas have inputs.** -/
theorem exists_fieldInputs_iff :
    (∃ inputs, fieldInputs s = .ok inputs) ↔
      ∀ name property, s.Writable name property → property.SaysItems := by
  rw [fieldInputs_eq, exists_mapM_eq_ok_iff, Prod.forall]
  refine forall₂_congr fun name property => ?_
  rw [Schema.mem_writables_iff, ← exists_ofSchema_iff name property]
  refine imp_congr_right fun _ => ⟨?_, ?_⟩
  · rintro ⟨_, h⟩
    obtain ⟨kind, hkind, -⟩ := fieldInput_eq_ok_iff.1 h
    exact ⟨kind, hkind⟩
  · rintro ⟨kind, hkind⟩
    exact ⟨_, fieldInput_eq_ok_iff.2 ⟨kind, hkind, rfl⟩⟩

theorem mem_fieldInputs_iff (h : fieldInputs s = .ok inputs) :
    input ∈ inputs ↔ ∃ property, s.Writable input.name property ∧
      fieldInput s input.name property = .ok input := by
  have hmem : input ∈ inputs ↔ ∃ e ∈ s.writables, fieldInput s e.1 e.2 = .ok input :=
    mem_of_mapM_eq_ok h
  rw [hmem]
  constructor
  · rintro ⟨⟨name, property⟩, he, hinput⟩
    obtain rfl := name_of_fieldInput hinput
    exact ⟨property, Schema.mem_writables_iff.1 he, hinput⟩
  · rintro ⟨property, hw, hinput⟩
    exact ⟨(input.name, property), Schema.mem_writables_iff.2 hw, hinput⟩

theorem map_name_fieldInputs (h : fieldInputs s = .ok inputs) :
    inputs.map FieldInput.name = keys s.writables :=
  map_of_mapM_eq_ok h fun _ _ hinput => name_of_fieldInput hinput

namespace Resource

variable {r : Resource}

theorem bindableInputs_eq_ok_iff : r.bindableInputs s = .ok inputs ↔
    ∃ all, fieldInputs s = .ok all ∧ inputs = all.filter fun input => !r.isTaken input.name := by
  unfold bindableInputs
  rw [bind_eq_ok_iff]
  exact exists_congr fun all => and_congr_right fun _ =>
    ⟨fun h => (Except.ok.inj h).symm, fun h => congrArg Except.ok h.symm⟩

theorem exists_bindableInputs_iff :
    (∃ inputs, r.bindableInputs s = .ok inputs) ↔
      ∀ name property, s.Writable name property → property.SaysItems := by
  rw [← exists_fieldInputs_iff]
  constructor
  · rintro ⟨_, h⟩
    obtain ⟨all, hall, -⟩ := bindableInputs_eq_ok_iff.1 h
    exact ⟨all, hall⟩
  · rintro ⟨all, hall⟩
    exact ⟨_, bindableInputs_eq_ok_iff.2 ⟨all, hall, rfl⟩⟩

/-- **Which inputs of a schema can be options.** -/
theorem mem_bindableInputs_iff (h : r.bindableInputs s = .ok inputs) :
    input ∈ inputs ↔ r.isTaken input.name = false ∧ ∃ property,
      s.Writable input.name property ∧ fieldInput s input.name property = .ok input := by
  obtain ⟨all, hall, rfl⟩ := bindableInputs_eq_ok_iff.1 h
  rw [List.mem_filter, mem_fieldInputs_iff hall, Bool.not_eq_true', and_comm]

theorem map_name_bindableInputs (h : r.bindableInputs s = .ok inputs) :
    inputs.map FieldInput.name = (keys s.writables).filter fun name => !r.isTaken name := by
  obtain ⟨all, hall, rfl⟩ := bindableInputs_eq_ok_iff.1 h
  rw [← map_name_fieldInputs hall, List.filter_map]
  rfl

/-- A property that a client may set and whose name is not taken is an input. -/
theorem exists_input_of_writable (h : r.bindableInputs s = .ok inputs)
    (hw : s.Writable name property) (ht : r.isTaken name = false) :
    ∃ input ∈ inputs, input.name = name ∧ input.required = s.requires name := by
  obtain ⟨kind, hkind⟩ :=
    (exists_ofSchema_iff name property).2 (exists_bindableInputs_iff.1 ⟨_, h⟩ name property hw)
  obtain ⟨input, hinput⟩ : ∃ input, fieldInput s name property = .ok input :=
    ⟨_, fieldInput_eq_ok_iff.2 ⟨kind, hkind, rfl⟩⟩
  have hname := name_of_fieldInput hinput
  subst hname
  exact ⟨input, (mem_bindableInputs_iff h).2 ⟨ht, property, hw, hinput⟩, rfl,
    required_of_fieldInput hinput⟩

end Resource
end ResourceCli
