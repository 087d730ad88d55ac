import ResourceCli.Call.Request
import Mathlib.Data.List.Basic

/-!
# The requests of calls

A call becomes a request if its inputs pass the checks (`checkInputs_eq_ok_iff`), its resource
supports its method, and the request is the row that the table of methods has for it.  The table is
`Resource.Tabled`: the verb, the path, the query and the body of the request that a call of each
method becomes (`requestOf_eq_ok_iff`).

What is known of a request is read off the checks and the table, by cases on the row:

* `parent_ne_empty`: all containing resources of an accepted call have an id that is not empty.
* `request_of_collective`: the path of a method on all resources of a kind is the path of the
  collection, and there is a query only if the call chooses an id.
* `request_of_single`: the path of a method on one resource has the id after that of the collection,
  and the name of the method after a colon if it has one; there is no query.
* `methods_ne_empty_of_request`: a resource without methods accepts no standard one.

No later proof opens the definition of a request.
-/

namespace ResourceCli

open Text (Bytes)

/-- Whether a method is asked of one resource, not of all resources of a kind. -/
def Method.isSingle : Method → Bool
  | .create | .list => false
  | .get | .update | .delete | .custom _ => true

/-- What follows the id in the path of a method: its name after a colon, if it has one. -/
def Method.suffix : Method → String
  | .custom name => ":" ++ name
  | _ => ""

/-- Standard methods have no name that would follow the id. -/
theorem Method.suffix_of_standard {m : Method} (hm : ∀ name, m ≠ .custom name) : m.suffix = "" := by
  cases m with
  | custom name => exact absurd rfl (hm name)
  | create => rfl
  | get => rfl
  | update => rfl
  | delete => rfl
  | list => rfl

/-- A program that may fail succeeds if its first step and what follows succeed. -/
theorem bind_eq_ok_iff {ε α β : Type} {x : Except ε α} {f : α → Except ε β} {b : β} :
    (x >>= f) = .ok b ↔ ∃ a, x = .ok a ∧ f a = .ok b := by
  cases x with
  | error e =>
    constructor
    · intro h
      cases h
    · rintro ⟨_, h, -⟩
      cases h
  | ok a =>
    constructor
    · intro h
      exact ⟨a, rfl, h⟩
    · rintro ⟨_, h, hf⟩
      cases h
      exact hf

namespace Resource

variable {r : Resource} {c : Call} {request : Request}

/-- A call with a request passes the checks and has a method and an id. -/
theorem request_eq_ok_iff :
    r.request c = .ok request ↔ r.checkInputs c = .ok () ∧ r.requestOf c = .ok request := by
  unfold Resource.request
  rw [bind_eq_ok_iff]
  constructor
  · rintro ⟨_, hc, hr⟩
    exact ⟨hc, hr⟩
  · rintro ⟨hc, hr⟩
    exact ⟨(), hc, hr⟩

/-! ## What is asked of a method -/

/-- The resource supports a method; one with a name it declares with a verb that can be sent. -/
def Supports (r : Resource) : Method → Prop
  | .create => r.methods.create ≠ none
  | .get => r.methods.get = true
  | .update => r.methods.update = true
  | .delete => r.methods.delete = true
  | .list => r.methods.list = true
  | .custom name => ∃ m, r.custom? name = some m ∧ isVerb m.verb = true

/-- Whether a method needs the id of a resource: one that is there, or one that is chosen for what
is created. -/
def needsId (r : Resource) : Method → Bool
  | .create => r.methods.create.any (·.userSettableId)
  | .list => false
  | .get | .update | .delete | .custom _ => true

/-- A resource that supports a standard method has methods. -/
theorem Supports.methods_ne_empty {m : Method} (h : r.Supports m) (hm : ∀ name, m ≠ .custom name) :
    r.methods ≠ {} := by
  intro hnone
  cases m with
  | custom name => exact hm name rfl
  | create =>
    rw [Supports, hnone] at h
    exact h rfl
  | get | update | delete | list =>
    rw [Supports, hnone] at h
    cases h

/-! ## The table of methods -/

/-- The text of what is sent along: the whole data, or else an object of the fields. -/
def payloadText (c : Call) : Bytes := Text.utf8Encode c.payload.compact

/-- The path of the resource that a call gives the id of. -/
def itemPathOf (r : Resource) (c : Call) (id : String) : String :=
  r.collectionPath c.parents ++ "/" ++ id

/-- The table of methods: which request a call of a method becomes. -/
inductive Tabled (r : Resource) (c : Call) : Method → Request → Prop
  /-- Creating posts to the collection. -/
  | create (create : CreateMethod) : r.methods.create = some create →
      create.userSettableId = false →
      Tabled r c .create ⟨"POST", r.collectionPath c.parents, none, some (payloadText c)⟩
  /-- Creating under an id of one's own has it in the query. -/
  | createAs (create : CreateMethod) (id : String) : r.methods.create = some create →
      create.userSettableId = true → c.id = some id →
      Tabled r c .create ⟨"POST", r.collectionPath c.parents, some ("id=" ++ Url.encodeValue id),
        some (payloadText c)⟩
  /-- Getting. -/
  | get (id : String) : c.id = some id → Tabled r c .get ⟨"GET", r.itemPathOf c id, none, none⟩
  /-- Changing. -/
  | update (id : String) : c.id = some id →
      Tabled r c .update ⟨"PATCH", r.itemPathOf c id, none, some (payloadText c)⟩
  /-- Deleting. -/
  | delete (id : String) : c.id = some id →
      Tabled r c .delete ⟨"DELETE", r.itemPathOf c id, none, none⟩
  /-- Listing gets the collection. -/
  | list : Tabled r c .list ⟨"GET", r.collectionPath c.parents, none, none⟩
  /-- A method with a name has a verb of its own, and a body if that is `POST`. -/
  | custom (name id : String) (m : CustomMethod) : r.custom? name = some m → c.id = some id →
      Tabled r c (.custom name) ⟨m.verb, r.itemPathOf c id ++ ":" ++ name, none,
        if m.verb = "POST" then some (payloadText c) else none⟩

/-- The row of a method that needs an id has one. -/
theorem Tabled.exists_id {m : Method} (h : r.Tabled c m request) (hneeds : r.needsId m = true) :
    ∃ id, c.id = some id := by
  cases h with
  | create create hcreate hsettable =>
    rw [needsId, hcreate, Option.any_some, hsettable] at hneeds
    cases hneeds
  | list => cases hneeds
  | createAs _ id _ _ hid => exact ⟨id, hid⟩
  | get id hid => exact ⟨id, hid⟩
  | update id hid => exact ⟨id, hid⟩
  | delete id hid => exact ⟨id, hid⟩
  | custom _ id _ _ hid => exact ⟨id, hid⟩

/-- The rows of creating: whether there is an id in the query is for the resource to say. -/
theorem tabled_create_iff {create : CreateMethod} (hcreate : r.methods.create = some create) :
    r.Tabled c .create request ↔
      (create.userSettableId = false ∧
        request = ⟨"POST", r.collectionPath c.parents, none, some (payloadText c)⟩) ∨
      (create.userSettableId = true ∧ ∃ id, c.id = some id ∧
        request = ⟨"POST", r.collectionPath c.parents, some ("id=" ++ Url.encodeValue id),
          some (payloadText c)⟩) := by
  constructor
  · intro h
    cases h with
    | create other ho hsettable =>
      obtain rfl := Option.some.inj (hcreate.symm.trans ho)
      exact .inl ⟨hsettable, rfl⟩
    | createAs other id ho hsettable hid =>
      obtain rfl := Option.some.inj (hcreate.symm.trans ho)
      exact .inr ⟨hsettable, id, hid, rfl⟩
  · rintro (⟨hsettable, rfl⟩ | ⟨hsettable, id, hid, rfl⟩)
    · exact .create create hcreate hsettable
    · exact .createAs create id hcreate hsettable hid

theorem tabled_get_iff : r.Tabled c .get request ↔
    ∃ id, c.id = some id ∧ request = ⟨"GET", r.itemPathOf c id, none, none⟩ := by
  constructor
  · intro h
    cases h with
    | get id hid => exact ⟨id, hid, rfl⟩
  · rintro ⟨id, hid, rfl⟩
    exact .get id hid

theorem tabled_update_iff : r.Tabled c .update request ↔
    ∃ id, c.id = some id ∧ request = ⟨"PATCH", r.itemPathOf c id, none, some (payloadText c)⟩ := by
  constructor
  · intro h
    cases h with
    | update id hid => exact ⟨id, hid, rfl⟩
  · rintro ⟨id, hid, rfl⟩
    exact .update id hid

theorem tabled_delete_iff : r.Tabled c .delete request ↔
    ∃ id, c.id = some id ∧ request = ⟨"DELETE", r.itemPathOf c id, none, none⟩ := by
  constructor
  · intro h
    cases h with
    | delete id hid => exact ⟨id, hid, rfl⟩
  · rintro ⟨id, hid, rfl⟩
    exact .delete id hid

/-- The row of a method with a name. -/
theorem tabled_custom_iff {name : String} {m : CustomMethod} (hm : r.custom? name = some m) :
    r.Tabled c (.custom name) request ↔ ∃ id, c.id = some id ∧
      request = ⟨m.verb, r.itemPathOf c id ++ ":" ++ name, none,
        if m.verb = "POST" then some (payloadText c) else none⟩ := by
  constructor
  · intro h
    cases h with
    | custom _ id other ho hid =>
      obtain rfl := Option.some.inj (hm.symm.trans ho)
      exact ⟨id, hid, rfl⟩
  · rintro ⟨id, hid, rfl⟩
    exact .custom name id m hm hid

/-! ## The checks of inputs -/

theorem missingParents_eq_nil_iff : r.missingParents c.parents = [] ↔
    ∀ i < r.parentFlags.length, ∃ parent, c.parents[i]? = some parent ∧ parent ≠ "" := by
  unfold missingParents
  rw [List.map_eq_nil_iff, List.filter_eq_nil_iff]
  constructor
  · intro h i hi
    have hmem : (r.parentFlags[i], i) ∈ r.parentFlags.zipIdx :=
      List.mem_zipIdx_iff_getElem?.2 (List.getElem?_eq_getElem hi)
    have hne : c.parents.getD i "" ≠ "" := fun hempty => h _ hmem (beq_iff_eq.2 hempty)
    rw [List.getD_eq_getElem?_getD] at hne
    cases hp : c.parents[i]? with
    | none =>
      rw [hp] at hne
      exact absurd rfl hne
    | some parent =>
      rw [hp] at hne
      exact ⟨parent, rfl, hne⟩
  · rintro h ⟨flag, i⟩ hmem hempty
    have hi := (List.getElem?_eq_some_iff.1 (List.mem_zipIdx_iff_getElem?.1 hmem)).1
    obtain ⟨parent, hp, hne⟩ := h i hi
    have hempty : c.parents.getD i "" = "" := beq_iff_eq.1 hempty
    rw [List.getD_eq_getElem?_getD, hp] at hempty
    exact hne hempty

/-- A call passes the checks of its inputs exactly if each of them finds nothing. -/
theorem checkInputs_eq_ok_iff : r.checkInputs c = .ok () ↔
    r.missingParents c.parents = [] ∧ (c.data = none ∨ c.fields = []) ∧
      r.missingFields c = .ok [] := by
  unfold checkInputs
  by_cases hp : r.missingParents c.parents = []
  · by_cases hm : c.data = none ∨ c.fields = []
    · have hmixed : (c.data.isSome && !c.fields.isEmpty) = false := by
        rcases hm with hm | hm
        · rw [hm]
          rfl
        · rw [hm, List.isEmpty_nil, Bool.not_true, Bool.and_false]
      simp only [hp, hmixed, List.isEmpty_nil, Bool.not_true, Bool.false_eq_true, if_false,
        true_and, hm]
      cases hf : r.missingFields c with
      | error e => exact ⟨nofun, nofun⟩
      | ok fields =>
        cases fields with
        | nil => exact iff_of_true rfl rfl
        | cons field fields => exact ⟨nofun, nofun⟩
    · have hmixed : (c.data.isSome && !c.fields.isEmpty) = true := by
        rw [not_or, ← Ne, ← Option.isSome_iff_ne_none, ← Ne, ← List.isEmpty_eq_false_iff] at hm
        rw [hm.1, hm.2]
        rfl
      simp only [hp, hmixed, List.isEmpty_nil, Bool.not_true, Bool.false_eq_true, if_false,
        if_true]
      exact ⟨nofun, fun h => absurd h.2.1 hm⟩
  · have hmissing : (!(r.missingParents c.parents).isEmpty) = true := by
      rw [Bool.not_eq_true', List.isEmpty_eq_false_iff]
      exact hp
    simp only [hmissing, if_true]
    exact ⟨nofun, fun h => absurd h.1 hp⟩

/-- **Every containing resource of an accepted call has an id.** -/
theorem parent_ne_empty (h : r.request c = .ok request) {i : Nat} (hi : i < r.parentFlags.length) :
    c.parents.getD i "" ≠ "" := by
  have hnone := (checkInputs_eq_ok_iff.1 (request_eq_ok_iff.1 h).1).1
  obtain ⟨parent, hparent, hne⟩ := missingParents_eq_nil_iff.1 hnone i hi
  rw [List.getD_eq_getElem?_getD, hparent]
  exact hne

/-! ## The request of a call is a row of the table -/

theorem requiredId_eq_ok_iff {id : String} : r.requiredId c = .ok id ↔ c.id = some id := by
  unfold requiredId
  cases c.id with
  | none => exact ⟨nofun, nofun⟩
  | some other => simp only [Except.ok.injEq, Option.some.injEq]

theorem itemPath_eq_ok_iff {path : String} :
    r.itemPath c = .ok path ↔ ∃ id, c.id = some id ∧ path = r.itemPathOf c id := by
  unfold itemPath
  simp only [bind_eq_ok_iff, requiredId_eq_ok_iff]
  refine exists_congr fun id => and_congr_right fun _ => ?_
  exact ⟨fun h => (Except.ok.inj h).symm, fun h => congrArg Except.ok h.symm⟩

/-- A request for one resource is there if the id is. -/
theorem itemRequest_eq_ok_iff (request : Request) (verb suffix : String) (body : Option Bytes) :
    (do
      let path ← r.itemPath c
      return Request.mk verb (path ++ suffix) none body) = .ok request ↔
      ∃ id, c.id = some id ∧ request = ⟨verb, r.itemPathOf c id ++ suffix, none, body⟩ := by
  simp only [bind_eq_ok_iff, itemPath_eq_ok_iff]
  constructor
  · rintro ⟨_, ⟨id, hid, rfl⟩, h⟩
    exact ⟨id, hid, (Except.ok.inj h).symm⟩
  · rintro ⟨id, hid, rfl⟩
    exact ⟨_, ⟨id, hid, rfl⟩, rfl⟩

/-- Getting, changing and deleting differ in their verb and their body only. -/
theorem plainRequest_eq_ok_iff {supported : Bool} {verb : String} {body : Option Bytes} :
    (if !supported then .error (r.unsupported c)
      else do return Request.mk verb (← r.itemPath c) none body) = .ok request ↔
      supported = true ∧ ∃ id, c.id = some id ∧
        request = ⟨verb, r.itemPathOf c id, none, body⟩ := by
  cases supported with
  | false => exact ⟨nofun, nofun⟩
  | true =>
    have h := itemRequest_eq_ok_iff (r := r) (c := c) request verb "" body
    simp only [String.append_empty] at h
    exact h.trans (and_iff_right rfl).symm

theorem requestOf_create_iff (hmethod : c.method = .create) :
    r.requestOf c = .ok request ↔ r.Supports .create ∧ r.Tabled c .create request := by
  unfold requestOf Supports
  simp only [hmethod]
  cases hcreate : r.methods.create with
  | none => exact ⟨nofun, fun h => absurd rfl h.1⟩
  | some create =>
    rw [tabled_create_iff hcreate, and_iff_right (Option.some_ne_none create)]
    dsimp only
    cases hsettable : create.userSettableId with
    | false =>
      constructor
      · intro h
        exact .inl ⟨rfl, (Except.ok.inj h).symm⟩
      · rintro (⟨-, rfl⟩ | ⟨hne, -⟩)
        · rfl
        · cases hne
    | true =>
      cases hid : c.id with
      | none =>
        rw [if_pos rfl, requiredId, hid]
        constructor
        · intro h
          cases h
        · rintro (⟨hne, -⟩ | ⟨-, _, hne, -⟩)
          · cases hne
          · cases hne
      | some id =>
        rw [if_pos rfl, requiredId, hid]
        constructor
        · intro h
          exact .inr ⟨rfl, id, rfl, (Except.ok.inj h).symm⟩
        · rintro (⟨hne, -⟩ | ⟨-, _, hsame, rfl⟩)
          · cases hne
          · cases hsame
            rfl

theorem requestOf_custom_iff {name : String} (hmethod : c.method = .custom name) :
    r.requestOf c = .ok request ↔
      r.Supports (.custom name) ∧ r.Tabled c (.custom name) request := by
  unfold requestOf Supports
  simp only [hmethod]
  cases hcustom : r.custom? name with
  | none =>
    refine ⟨nofun, ?_⟩
    rintro ⟨⟨m, hm, -⟩, -⟩
    cases hm
  | some m =>
    rw [tabled_custom_iff hcustom]
    simp only [Option.some.injEq, exists_eq_left']
    cases isVerb m.verb with
    | false => exact ⟨nofun, fun h => absurd h.1 Bool.false_ne_true⟩
    | true =>
      rw [Bool.not_true, if_neg Bool.false_ne_true, and_iff_right rfl]
      simp only [String.append_assoc, itemRequest_eq_ok_iff, beq_iff_eq]
      exact Iff.rfl

/-- **A call becomes a request exactly if its method is supported and the request is its row of the
table.** -/
theorem requestOf_eq_ok_iff : r.requestOf c = .ok request ↔
    r.Supports c.method ∧ r.Tabled c c.method request := by
  cases hm : c.method with
  | create => exact requestOf_create_iff hm
  | custom name => exact requestOf_custom_iff hm
  | list =>
    unfold requestOf Supports
    simp only [hm]
    cases r.methods.list with
    | false => exact ⟨nofun, fun h => absurd h.1 Bool.false_ne_true⟩
    | true =>
      constructor
      · intro h
        cases h
        exact ⟨rfl, .list⟩
      · rintro ⟨-, h⟩
        cases h
        rfl
  | get =>
    unfold requestOf Supports
    simp only [hm]
    rw [plainRequest_eq_ok_iff, tabled_get_iff]
  | update =>
    unfold requestOf Supports
    simp only [hm]
    rw [plainRequest_eq_ok_iff, tabled_update_iff, body, payloadText]
  | delete =>
    unfold requestOf Supports
    simp only [hm]
    rw [plainRequest_eq_ok_iff, tabled_delete_iff]

/-- The request of an accepted call is its row of the table. -/
theorem tabled_of_request (h : r.request c = .ok request) : r.Tabled c c.method request :=
  (requestOf_eq_ok_iff.1 (request_eq_ok_iff.1 h).2).2

/-! ## What the table says of paths and queries -/

/-- Whether a call chooses the id of what it creates. -/
def choosesId (r : Resource) (c : Call) : Bool :=
  c.method == .create && r.methods.create.any (·.userSettableId)

/-- A call of a method on one resource chooses no id. -/
theorem choosesId_of_single (hm : c.method.isSingle = true) : r.choosesId c = false := by
  have hcreate : c.method ≠ .create := by
    intro hcreate
    rw [hcreate] at hm
    cases hm
  rw [choosesId, beq_eq_false_iff_ne.2 hcreate, Bool.false_and]

/-- **A method on all resources of a kind is sent to the path of the collection**, and with a query
only if it chooses an id, which stands in the query encoded. -/
theorem request_of_collective (h : r.request c = .ok request) (hm : c.method.isSingle = false) :
    request.path = r.collectionPath c.parents ∧
      request.query =
        if r.choosesId c then some ("id=" ++ Url.encodeValue (c.id.getD "")) else none := by
  have htabled := tabled_of_request h
  unfold choosesId
  generalize c.method = m at htabled hm ⊢
  cases htabled with
  | create create hcreate hsettable =>
    rw [hcreate, Option.any_some, hsettable, Bool.and_false]
    exact ⟨rfl, rfl⟩
  | createAs create id hcreate hsettable hid =>
    rw [hcreate, Option.any_some, hsettable, hid]
    exact ⟨rfl, rfl⟩
  | list => exact ⟨rfl, rfl⟩
  | get => cases hm
  | update => cases hm
  | delete => cases hm
  | custom => cases hm

theorem path_of_collective (h : r.request c = .ok request) (hm : c.method.isSingle = false) :
    request.path = r.collectionPath c.parents :=
  (request_of_collective h hm).1

/-- **A method on one resource is sent to the path of the collection, its id and its suffix**, and
without a query. -/
theorem request_of_single (h : r.request c = .ok request) (hm : c.method.isSingle = true) :
    ∃ id, c.id = some id ∧
      request.path = r.collectionPath c.parents ++ "/" ++ id ++ c.method.suffix ∧
      request.query = none := by
  have htabled := tabled_of_request h
  generalize c.method = m at htabled hm ⊢
  cases htabled with
  | create => cases hm
  | createAs => cases hm
  | list => cases hm
  | get id hid => exact ⟨id, hid, String.append_empty.symm, rfl⟩
  | update id hid => exact ⟨id, hid, String.append_empty.symm, rfl⟩
  | delete id hid => exact ⟨id, hid, String.append_empty.symm, rfl⟩
  | custom name id m _ hid => exact ⟨id, hid, String.append_assoc, rfl⟩

theorem path_of_single (h : r.request c = .ok request) (hm : c.method.isSingle = true) :
    ∃ id, c.id = some id ∧
      request.path = r.collectionPath c.parents ++ "/" ++ id ++ c.method.suffix := by
  obtain ⟨id, hid, hpath, -⟩ := request_of_single h hm
  exact ⟨id, hid, hpath⟩

/-- **A standard method is accepted only by a resource that has methods.** -/
theorem methods_ne_empty_of_request (h : r.request c = .ok request)
    (hm : ∀ name, c.method ≠ .custom name) : r.methods ≠ {} :=
  (requestOf_eq_ok_iff.1 (request_eq_ok_iff.1 h).2).1.methods_ne_empty hm

end Resource
end ResourceCli
