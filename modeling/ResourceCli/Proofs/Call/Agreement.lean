import ResourceCli.Proofs.Call.Levels
import ResourceCli.Proofs.Run.Played

/-!
# The call that a command line gives

The call is read off the levels of a command line: its fields are the inputs of the method that have
a value there (`mem_givenFields_iff`), and so they are the inputs that the words give
(`Resource.Reads.mem_fields_iff`).  A call of a method that the resource supports, with the id that
the method needs, fails only for what it lacks (`Resource.lacks_of_request`).
-/

namespace ResourceCli

open CommandLine

/-! ## Fields -/

section Fields

variable {inputs : List FieldInput} {l : Level} {name : String} {value : InputValue}

/-- The value of an input at a level, if there is one that can be read. -/
def fieldValue (l : Level) (input : FieldInput) : Option InputValue :=
  (l.value? input.name).bind fun raw => (InputValue.read input.kind raw).toOption

theorem fieldValue_eq_some_iff {input : FieldInput} : fieldValue l input = some value ↔
    ∃ raw, l.value? input.name = some raw ∧ InputValue.read input.kind raw = .ok value := by
  unfold fieldValue
  rw [Option.bind_eq_some_iff]
  simp only [Document.toOption_eq_some_iff]

/-- The fields with one more input. -/
def addField (l : Level) (fields : List (String × InputValue)) (input : FieldInput) :
    List (String × InputValue) :=
  match fieldValue l input with
  | some value => Json.insertSorted input.name value fields
  | none => fields

theorem givenFields_eq (inputs : List FieldInput) (l : Level) :
    Resource.givenFields inputs l = inputs.foldl (addField l) [] := rfl

theorem lookup_addField (l : Level) (fields : List (String × InputValue)) (input : FieldInput)
    (name : String) : (addField l fields input).lookup name =
      if name = input.name then fieldValue l input <|> fields.lookup name
      else fields.lookup name := by
  unfold addField
  cases fieldValue l input with
  | none =>
    dsimp only
    split <;> rfl
  | some value =>
    dsimp only
    rw [lookup_insertSorted]
    split <;> rfl

theorem lookup_foldl_addField (hn : (inputs.map FieldInput.name).Nodup)
    (fields : List (String × InputValue)) :
    (inputs.foldl (addField l) fields).lookup name =
      ((inputs.find? (·.name == name)).bind (fieldValue l) <|> fields.lookup name) := by
  induction inputs generalizing fields with
  | nil => rfl
  | cons input inputs ih =>
    rw [List.map_cons, List.nodup_cons] at hn
    rw [List.foldl_cons, ih hn.2, lookup_addField, List.find?_cons]
    by_cases hname : name = input.name
    · have hnone : inputs.find? (·.name == name) = none := by
        refine List.find?_eq_none.2 fun other hother he => hn.1 ?_
        rw [← hname, ← beq_iff_eq.1 he]
        exact List.mem_map_of_mem hother
      rw [hnone, if_pos hname, hname, beq_self_eq_true]
      rfl
    · rw [if_neg hname, beq_false_of_ne (Ne.symm hname)]

theorem pairwise_givenFields (inputs : List FieldInput) (l : Level) :
    (keys (Resource.givenFields inputs l)).Pairwise (· < ·) := by
  have h : ∀ fields : List (String × InputValue), (keys fields).Pairwise (· < ·) →
      (keys (inputs.foldl (addField l) fields)).Pairwise (· < ·) := by
    induction inputs with
    | nil => exact fun _ hfields => hfields
    | cons input inputs ih =>
      intro fields hfields
      refine ih _ ?_
      unfold addField
      split
      · exact pairwise_insertSorted hfields _ _
      · exact hfields
  exact h [] List.Pairwise.nil

theorem nodup_keys_givenFields (inputs : List FieldInput) (l : Level) :
    (keys (Resource.givenFields inputs l)).Nodup := by
  refine (pairwise_givenFields inputs l).imp fun {k k'} hlt he => ?_
  rw [he] at hlt
  exact String.lt_irrefl k' hlt

/-- **The fields of a call** are the inputs that have a value at the level. -/
theorem mem_givenFields_iff (hn : (inputs.map FieldInput.name).Nodup) :
    (name, value) ∈ Resource.givenFields inputs l ↔
      ∃ input ∈ inputs, input.name = name ∧ fieldValue l input = some value := by
  have hlookup : (Resource.givenFields inputs l).lookup name =
      (inputs.find? (·.name == name)).bind (fieldValue l) := by
    rw [givenFields_eq, lookup_foldl_addField hn, List.lookup_nil]
    cases (inputs.find? (·.name == name)).bind (fieldValue l) <;> rfl
  constructor
  · intro h
    have hvalue := lookup_of_mem (nodup_keys_givenFields inputs l) h
    rw [hlookup, Option.bind_eq_some_iff] at hvalue
    obtain ⟨input, hinput, hvalue⟩ := hvalue
    have hname := List.find?_some hinput
    exact ⟨input, List.mem_of_find?_eq_some hinput, eq_of_beq hname, hvalue⟩
  · rintro ⟨input, hinput, rfl, hvalue⟩
    refine mem_of_lookup_eq_some ?_
    rw [hlookup, find?_of_mem hn hinput, Option.bind_some, hvalue]

end Fields

namespace Resource

variable {r : Resource} {words : List String} {m : Method} {inputs : List FieldInput}
  {top level : Level}

/-! ## The call that is read off the levels -/

/-- The call of a method with what is kept at the levels. -/
def callAt (r : Resource) (m : Method) (inputs : List FieldInput) (top level : Level) : Call where
  resource := r.singular
  parents := r.parentFlags.map fun flag => (Matches.shared? [top, level] flag).getD ""
  method := m
  id := level.value? idArg
  fields := givenFields inputs level

/-- The file with the whole data of a call of a method. -/
def dataPath (r : Resource) (m : Method) (level : Level) : Option String :=
  if r.acceptsPayload m then level.value? dataFlag else none

theorem Reads.callOf (h : r.Reads words m inputs level) :
    r.callOf [top, level] = .ok (r.callAt m inputs top level, r.dataPath m level) := by
  have hbound := h.bound
  unfold inputsOf at hbound
  unfold Resource.callOf
  simp only [h.named, Method.ofCommand?_command]
  cases hs : r.payloadSchema? m with
  | none =>
    rw [hs] at hbound
    cases hbound
    rfl
  | some s =>
    have hinputs : r.bindableInputs s = .ok inputs := by
      rw [hs] at hbound
      exact hbound
    dsimp only
    rw [hinputs]
    rfl

/-- **The fields of the call** are the inputs that the words give, with their values. -/
theorem Reads.mem_fields_iff (h : r.Reads words m inputs level) {name : String}
    {value : InputValue} : (name, value) ∈ (r.callAt m inputs top level).fields ↔
      ∃ input ∈ inputs, input.name = name ∧
        ∃ raw, Gives words name input.implied raw ∧ InputValue.read input.kind raw = .ok value := by
  refine (mem_givenFields_iff h.distinct).trans (exists_congr fun input =>
    and_congr_right fun hinput => and_congr_right ?_)
  rintro rfl
  rw [fieldValue_eq_some_iff]
  simp only [h.keeps.fields input hinput]

/-- **The words mention no other flags** than those of containing resources, of whole data and of
the fields of the call. -/
theorem Reads.flag_of_mentions (h : r.Reads words m inputs level) {name : String}
    {value : Option String} {after : List String} (hm : Mentions words name value after) :
    name ∈ r.parentFlags ∨ (r.acceptsPayload m = true ∧ name = dataFlag) ∨
      name ∈ keys (r.callAt m inputs top level).fields := by
  refine (h.keeps.mentioned name value after hm).imp_right (Or.imp_right ?_)
  rintro ⟨input, hinput, rfl, raw, hraw⟩
  have hgives : Gives words input.name input.implied raw := ⟨value, after, hm, hraw⟩
  obtain ⟨value, hvalue⟩ :=
    h.keeps.readable input hinput raw ((h.keeps.fields input hinput raw).2 hgives)
  exact List.mem_map.2
    ⟨_, h.mem_fields_iff.2 ⟨input, hinput, rfl, raw, hgives, hvalue⟩, rfl⟩

theorem Reads.dataPath_eq_some_iff (h : r.Reads words m inputs level) {path : String} :
    r.dataPath m level = some path ↔
      r.acceptsPayload m = true ∧ Gives words dataFlag none path := by
  unfold dataPath
  split
  · rename_i haccepts
    exact (h.keeps.data haccepts path).trans (and_iff_right haccepts).symm
  · rename_i haccepts
    exact iff_of_false nofun fun hgives => haccepts hgives.1

/-! ## What a call may still lack -/

/-- What a call may lack although its method is supported and its id is there. -/
inductive Lacks (r : Resource) (inputs : List FieldInput) (c : Call) : Failure → Prop
  /-- The ids of containing resources are missing or empty. -/
  | parents (flags : List String) : flags ≠ [] →
      (∀ flag ∈ flags, ∃ i : Nat, r.parentFlags[i]? = some flag ∧ c.parents.getD i "" = "") →
      Lacks r inputs c (.missingInputs r.singular flags)
  /-- Whole data and fields are mixed. -/
  | mixed : c.data ≠ none → c.fields ≠ [] → Lacks r inputs c (.conflictingInputs (keys c.fields))
  /-- Required fields are missing, and there is no whole data. -/
  | fields (names : List String) : c.data = none → names ≠ [] →
      (∀ name ∈ names, name ∉ keys c.fields ∧
        ∃ input ∈ inputs, input.name = name ∧ input.required = true) →
      Lacks r inputs c (.missingInputs r.singular names)

theorem exists_of_mem_missingParents {parents : List String} {flag : String}
    (h : flag ∈ r.missingParents parents) :
    ∃ i : Nat, r.parentFlags[i]? = some flag ∧ parents.getD i "" = "" := by
  obtain ⟨⟨flag, i⟩, hflag, rfl⟩ := List.mem_map.1 h
  obtain ⟨hmem, hempty⟩ := List.mem_filter.1 hflag
  exact ⟨i, List.mem_zipIdx_iff_getElem?.1 hmem, beq_iff_eq.1 hempty⟩

/-- The required fields that a call does not give, if the inputs of its method are known. -/
theorem missingFields_of_inputsOf {c : Call} (hb : r.inputsOf c.method = .ok inputs) :
    r.missingFields c = .ok (if c.data.isNone then (inputs.filter fun input =>
      input.required && (c.fields.lookup input.name).isNone).map FieldInput.name else []) := by
  unfold inputsOf at hb
  unfold missingFields
  cases c.data with
  | some data => rfl
  | none =>
    cases hs : r.payloadSchema? c.method with
    | none =>
      rw [hs] at hb
      cases hb
      rfl
    | some s =>
      have hinputs : r.bindableInputs s = .ok inputs := by
        rw [hs] at hb
        exact hb
      dsimp only
      rw [hinputs]
      rfl

/-- A call whose method has inputs passes the checks, or it lacks something. -/
theorem lacks_of_checkInputs {c : Call} {failure : Failure}
    (hb : r.inputsOf c.method = .ok inputs) (h : r.checkInputs c = .error failure) :
    r.Lacks inputs c failure := by
  unfold checkInputs at h
  rw [missingFields_of_inputsOf hb] at h
  by_cases hparents : r.missingParents c.parents = []
  · by_cases hmixed : (c.data.isSome && !c.fields.isEmpty) = true
    · rw [hparents, hmixed] at h
      cases h
      obtain ⟨hdata, hfields⟩ := Bool.and_eq_true_iff.1 hmixed
      refine .mixed (Option.isSome_iff_ne_none.1 hdata) fun hnil => ?_
      rw [hnil] at hfields
      cases hfields
    · rw [Bool.not_eq_true] at hmixed
      rw [hparents, hmixed] at h
      cases hdata : c.data with
      | some data =>
        rw [hdata] at h
        cases h
      | none =>
        rw [hdata] at h
        generalize hnames : (inputs.filter fun input =>
          input.required && (c.fields.lookup input.name).isNone).map FieldInput.name = names at h
        cases names with
        | nil => cases h
        | cons name names =>
          cases h
          refine .fields _ hdata (List.cons_ne_nil _ _) fun missing hmissing => ?_
          rw [← hnames] at hmissing
          obtain ⟨input, hinput, rfl⟩ := List.mem_map.1 hmissing
          obtain ⟨hinput, hlacking⟩ := List.mem_filter.1 hinput
          obtain ⟨hrequired, hnone⟩ := Bool.and_eq_true_iff.1 hlacking
          exact ⟨lookup_eq_none_iff.1 (Option.isNone_iff_eq_none.1 hnone), input, hinput, rfl,
            hrequired⟩
  · have hsome : (!(r.missingParents c.parents).isEmpty) = true := by
      rw [Bool.not_eq_true', List.isEmpty_eq_false_iff]
      exact hparents
    simp only [hsome, if_true] at h
    cases h
    exact .parents _ hparents fun flag hflag => exists_of_mem_missingParents hflag

/-- A call of a supported method with the id that it needs fails only for what it lacks. -/
theorem lacks_of_request {c : Call} {failure : Failure} (hs : r.Supports c.method)
    (hid : r.needsId c.method = true → ∃ id, c.id = some id)
    (hb : r.inputsOf c.method = .ok inputs) (h : r.request c = .error failure) :
    r.Lacks inputs c failure := by
  obtain ⟨request, htabled⟩ := exists_tabled hs hid
  have hrequest := requestOf_eq_ok_iff.2 ⟨hs, htabled⟩
  unfold Resource.request at h
  rw [hrequest] at h
  cases hcheck : r.checkInputs c with
  | ok _ =>
    rw [hcheck] at h
    cases h
  | error e =>
    rw [hcheck] at h
    cases h
    exact lacks_of_checkInputs hb hcheck

end Resource

end ResourceCli
