import ResourceCli.Call.Command
import ResourceCli.Proofs.Call.Accepted
import ResourceCli.Proofs.Survey.Customs

/-!
# The commands of a resource

The command of a resource has a command below it for every method that the resource supports, and
its arguments follow from the method alone: the id if the method needs one, an option for every
input of what is sent along, and the option for whole data if anything is sent along at all
(`Resource.argsOf`).  `Resource.exists_offers` says that there are no other commands, so that no
later proof opens the definitions that make them.

The names of named methods are distinct and their verbs can be sent in every graph that a survey
gives (`Document.callable`).
-/

namespace ResourceCli

open CommandLine

/-- The command for a method is read back as the method. -/
theorem Method.ofCommand?_command (m : Method) : Method.ofCommand? m.command = some m := by
  cases m with
  | custom name =>
    have hchars : (":" ++ name).toList = ':' :: name.toList := String.toList_append
    unfold Method.ofCommand? Method.command
    simp only [hchars, String.ofList_toList]
  | create => rfl
  | get => rfl
  | update => rfl
  | delete => rfl
  | list => rfl

/-! ## Arguments with their places in a description -/

theorem exists_of_mem_numberedFrom {a : Arg} {n : Nat} {args : List Arg}
    (h : a ∈ numberedFrom n args) : ∃ b ∈ args, ∃ k, a = { b with order := k } := by
  induction args generalizing n with
  | nil => cases h
  | cons b args ih =>
    rw [numberedFrom] at h
    split at h
    · rcases List.mem_cons.1 h with rfl | h
      · exact ⟨a, List.mem_cons_self, a.order, rfl⟩
      · obtain ⟨c, hc, k, rfl⟩ := ih h
        exact ⟨c, List.mem_cons_of_mem _ hc, k, rfl⟩
    · rcases List.mem_cons.1 h with rfl | h
      · exact ⟨b, List.mem_cons_self, n, rfl⟩
      · obtain ⟨c, hc, k, rfl⟩ := ih h
        exact ⟨c, List.mem_cons_of_mem _ hc, k, rfl⟩

theorem exists_mem_numberedFrom {b : Arg} {args : List Arg} (h : b ∈ args) (n : Nat) :
    ∃ k, { b with order := k } ∈ numberedFrom n args := by
  induction args generalizing n with
  | nil => cases h
  | cons c args ih =>
    rw [numberedFrom]
    split
    · rcases List.mem_cons.1 h with rfl | h
      · exact ⟨b.order, List.mem_cons_self⟩
      · obtain ⟨k, hk⟩ := ih h n
        exact ⟨k, List.mem_cons_of_mem _ hk⟩
    · rcases List.mem_cons.1 h with rfl | h
      · exact ⟨n, List.mem_cons_self⟩
      · obtain ⟨k, hk⟩ := ih h (n + 1)
        exact ⟨k, List.mem_cons_of_mem _ hk⟩

theorem map_id_numberedFrom (n : Nat) (args : List Arg) :
    (numberedFrom n args).map Arg.id = args.map Arg.id := by
  induction args generalizing n with
  | nil => rfl
  | cons a args ih =>
    rw [numberedFrom]
    split <;> rw [List.map_cons, List.map_cons, ih]

namespace Resource

variable {r : Resource} {m : Method} {inputs : List FieldInput} {sub : Command}

/-! ## What a method takes -/

/-- What is known of the named methods of a resource that a survey gives. -/
structure Callable (r : Resource) : Prop where
  /-- Their names are distinct. -/
  named : (r.customs.map CustomMethod.name).Nodup
  /-- Their verbs can be sent. -/
  sent : ∀ m ∈ r.customs, isVerb m.verb = true

/-- With distinct names a named method is found under its name. -/
theorem Callable.custom? (hr : r.Callable) {m : CustomMethod} (hm : m ∈ r.customs) :
    r.custom? m.name = some m :=
  find?_of_mem hr.named hm

/-- The inputs that are options of the command for a method. -/
def inputsOf (r : Resource) (m : Method) : Except Failure (List FieldInput) :=
  match r.payloadSchema? m with
  | none => .ok []
  | some s => r.bindableInputs s

/-- The arguments of the command for a method with these inputs. -/
def argsOf (r : Resource) (m : Method) (inputs : List FieldInput) : List Arg :=
  (if r.needsId m then [resourceIdArg] else []) ++ inputs.map fieldArg ++
    if r.acceptsPayload m then [dataArg] else []

/-- A command is the one for a supported method with its inputs. -/
def Offers (r : Resource) (sub : Command) (m : Method) (inputs : List FieldInput) : Prop :=
  r.Supports m ∧ r.inputsOf m = .ok inputs ∧
    ∃ about, sub = methodCommand m about (r.argsOf m inputs)

theorem name_of_offers (h : r.Offers sub m inputs) : sub.name = m.command := by
  obtain ⟨-, -, about, rfl⟩ := h
  rfl

theorem mem_inputsOf_iff (h : r.inputsOf m = .ok inputs) {input : FieldInput} :
    input ∈ inputs ↔ ∃ s ∈ r.payloadSchema? m, r.isTaken input.name = false ∧
      ∃ property, s.Writable input.name property ∧
        fieldInput s input.name property = .ok input := by
  unfold inputsOf at h
  cases hs : r.payloadSchema? m with
  | none =>
    rw [hs] at h
    cases h
    simp
  | some s =>
    rw [hs] at h
    simp only [Option.mem_some_iff, exists_eq_left']
    exact mem_bindableInputs_iff h

theorem isTaken_eq_false_iff {name : String} :
    r.isTaken name = false ↔ name ∉ reservedFlags ∧ name ∉ r.parentFlags := by
  rw [isTaken, Bool.or_eq_false_iff, List.contains_eq_mem, List.contains_eq_mem,
    decide_eq_false_iff_not, decide_eq_false_iff_not]

/-- The name of an input is no flag of a containing resource, and not reserved. -/
theorem isTaken_of_mem_inputsOf (h : r.inputsOf m = .ok inputs) {input : FieldInput}
    (hi : input ∈ inputs) : input.name ∉ reservedFlags ∧ input.name ∉ r.parentFlags := by
  obtain ⟨-, -, ht, -⟩ := (mem_inputsOf_iff h).1 hi
  exact isTaken_eq_false_iff.1 ht

/-! ## The commands below -/

theorem mem_of_commandIf {supported : Bool} {command : Except Failure Command}
    {commands : List Command} (h : commandIf supported command = .ok commands)
    (hs : sub ∈ commands) : supported = true ∧ command = .ok sub := by
  cases supported with
  | false =>
    cases h
    cases hs
  | true =>
    cases command with
    | error e => cases h
    | ok c =>
      cases h
      rw [List.mem_singleton.1 hs]
      exact ⟨rfl, rfl⟩

theorem payloadArgs_eq_ok_iff {s : Schema} {args : List Arg} :
    r.payloadArgs (some s) = .ok args ↔
      ∃ inputs, r.bindableInputs s = .ok inputs ∧ args = inputs.map fieldArg ++ [dataArg] := by
  unfold payloadArgs
  rw [bind_eq_ok_iff]
  exact exists_congr fun inputs => and_congr_right fun _ =>
    ⟨fun h => (Except.ok.inj h).symm, fun h => congrArg Except.ok h.symm⟩

/-- A command without options of its own for what is sent along. -/
theorem offers_of_plain {args : List Arg} (about : String) (hs : r.Supports m)
    (hp : r.payloadSchema? m = none) (ha : r.acceptsPayload m = false)
    (hargs : args = if r.needsId m then [resourceIdArg] else []) :
    r.Offers (methodCommand m about args) m [] := by
  refine ⟨hs, by rw [inputsOf, hp], about, ?_⟩
  rw [argsOf, ha, hargs, List.map_nil, List.append_nil, if_neg Bool.false_ne_true, List.append_nil]

/-- A command with the options for what is sent along. -/
theorem offers_of_payload {payload : List Arg} (about : String) (hs : r.Supports m)
    (ha : r.acceptsPayload m = true) (hpayload : r.payloadArgs (r.payloadSchema? m) = .ok payload) :
    ∃ inputs, r.Offers (methodCommand m about
      ((if r.needsId m then [resourceIdArg] else []) ++ payload)) m inputs := by
  cases hp : r.payloadSchema? m with
  | none =>
    rw [hp] at hpayload
    cases hpayload
    refine ⟨[], hs, by rw [inputsOf, hp], about, ?_⟩
    rw [argsOf, ha, if_pos rfl, List.map_nil, List.append_nil]
  | some s =>
    rw [hp] at hpayload
    obtain ⟨inputs, hinputs, rfl⟩ := payloadArgs_eq_ok_iff.1 hpayload
    refine ⟨inputs, hs, by rw [inputsOf, hp]; exact hinputs, about, ?_⟩
    rw [argsOf, ha, if_pos rfl, List.append_assoc]

theorem exists_offers_of_create {create : CreateMethod} (hcreate : r.methods.create = some create)
    (h : r.createCommand create = .ok sub) : ∃ inputs, r.Offers sub .create inputs := by
  obtain ⟨payload, hpayload, h⟩ := bind_eq_ok_iff.1 h
  cases h
  have hneeds : r.needsId .create = create.userSettableId := by
    rw [needsId, hcreate, Option.any_some]
  have hs : r.Supports .create := by
    rw [Supports, hcreate]
    exact Option.some_ne_none create
  obtain ⟨inputs, hoffers⟩ := offers_of_payload ("Create a " ++ r.singular) hs rfl hpayload
  exact ⟨inputs, hneeds ▸ hoffers⟩

theorem exists_offers_of_update (hs : r.methods.update = true) (h : r.updateCommand = .ok sub) :
    ∃ inputs, r.Offers sub .update inputs := by
  obtain ⟨payload, hpayload, h⟩ := bind_eq_ok_iff.1 h
  cases h
  exact offers_of_payload (m := .update) _ hs rfl hpayload

theorem exists_offers_of_custom (hr : r.Callable) {c : CustomMethod} (hc : c ∈ r.customs)
    (h : r.customCommand c = .ok sub) : ∃ inputs, r.Offers sub (.custom c.name) inputs := by
  have hfound := hr.custom? hc
  have hs : r.Supports (.custom c.name) := ⟨c, hfound, hr.sent c hc⟩
  unfold customCommand at h
  cases hpost : c.verb == "POST" with
  | true =>
    have hp : r.payloadSchema? (.custom c.name) = c.request := by
      rw [payloadSchema?, hfound, Option.filter_some, hpost, if_pos rfl, Option.bind_some]
    have ha : r.acceptsPayload (.custom c.name) = true := by
      refine List.any_eq_true.2 ⟨c, hc, ?_⟩
      rw [beq_self_eq_true, hpost, Bool.true_and]
    rw [hpost, if_pos rfl] at h
    obtain ⟨payload, hpayload, h⟩ := bind_eq_ok_iff.1 h
    cases h
    exact offers_of_payload (m := .custom c.name) _ hs ha (hp ▸ hpayload)
  | false =>
    have hp : r.payloadSchema? (.custom c.name) = none := by
      rw [payloadSchema?, hfound, Option.filter_some, hpost, if_neg Bool.false_ne_true,
        Option.bind_none]
    have ha : r.acceptsPayload (.custom c.name) = false := by
      refine List.any_eq_false.2 fun other ho hsame => ?_
      obtain ⟨hname, hverb⟩ := Bool.and_eq_true_iff.1 hsame
      have he : other = c := by
        have := hr.custom? ho
        rw [beq_iff_eq.1 hname, hfound] at this
        exact (Option.some.inj this).symm
      rw [he, hpost] at hverb
      cases hverb
    rw [hpost, if_neg Bool.false_ne_true] at h
    cases h
    exact ⟨[], offers_of_plain _ hs hp ha rfl⟩

/-- The command that creates a resource, if there is one. -/
def createCommands (r : Resource) : Except Failure (List Command) :=
  match r.methods.create with
  | none => .ok []
  | some create => commandIf true (r.createCommand create)

/-- The commands for methods are put together from those for each method. -/
theorem methodCommands_eq (r : Resource) : r.methodCommands = r.createCommands.bind fun create => do
    let get ← commandIf r.methods.get
      (.ok (methodCommand .get ("Get a " ++ r.singular) [resourceIdArg]))
    let update ← commandIf r.methods.update r.updateCommand
    let delete ← commandIf r.methods.delete
      (.ok (methodCommand .delete ("Delete a " ++ r.singular) [resourceIdArg]))
    let many := if r.plural == "" then r.singular else r.plural
    let list ← commandIf r.methods.list (.ok (methodCommand .list ("List " ++ many) []))
    let customs ← r.customs.mapM r.customCommand
    return create ++ get ++ update ++ delete ++ list ++ customs := by
  unfold methodCommands createCommands
  cases r.methods.create <;> rfl

/-- **The commands below the command of a resource** are those for the methods that it supports. -/
theorem exists_offers (hr : r.Callable) {command : Command} (h : r.command = .ok command)
    (hs : sub ∈ command.subcommands) : ∃ m inputs, r.Offers sub m inputs := by
  obtain ⟨subcommands, hsubs, h⟩ := bind_eq_ok_iff.1 h
  cases h
  rw [methodCommands_eq] at hsubs
  obtain ⟨create, hcreate, hsubs⟩ := bind_eq_ok_iff.1 hsubs
  obtain ⟨get, hget, hsubs⟩ := bind_eq_ok_iff.1 hsubs
  obtain ⟨update, hupdate, hsubs⟩ := bind_eq_ok_iff.1 hsubs
  obtain ⟨delete, hdelete, hsubs⟩ := bind_eq_ok_iff.1 hsubs
  obtain ⟨list, hlist, hsubs⟩ := bind_eq_ok_iff.1 hsubs
  obtain ⟨customs, hcustoms, hsubs⟩ := bind_eq_ok_iff.1 hsubs
  cases hsubs
  have hs : sub ∈ create ++ get ++ update ++ delete ++ list ++ customs := hs
  simp only [List.mem_append] at hs
  rcases hs with ((((hs | hs) | hs) | hs) | hs) | hs
  · unfold createCommands at hcreate
    cases hc : r.methods.create with
    | none =>
      rw [hc] at hcreate
      cases hcreate
      cases hs
    | some method =>
      rw [hc] at hcreate
      exact ⟨.create, exists_offers_of_create hc (mem_of_commandIf hcreate hs).2⟩
  · obtain ⟨hsupported, hsub⟩ := mem_of_commandIf hget hs
    cases hsub
    exact ⟨.get, [], offers_of_plain (m := .get) _ hsupported rfl rfl rfl⟩
  · obtain ⟨hsupported, hsub⟩ := mem_of_commandIf hupdate hs
    exact ⟨.update, exists_offers_of_update hsupported hsub⟩
  · obtain ⟨hsupported, hsub⟩ := mem_of_commandIf hdelete hs
    cases hsub
    exact ⟨.delete, [], offers_of_plain (m := .delete) _ hsupported rfl rfl rfl⟩
  · obtain ⟨hsupported, hsub⟩ := mem_of_commandIf hlist hs
    cases hsub
    exact ⟨.list, [], offers_of_plain (m := .list) _ hsupported rfl rfl rfl⟩
  · obtain ⟨c, hc, hsub⟩ := (mem_of_mapM_eq_ok hcustoms).1 hs
    exact ⟨.custom c.name, exists_offers_of_custom hr hc hsub⟩

end Resource

/-- The named methods of a resource that a survey gives. -/
theorem Document.callable {doc : Document} {given : Option String} {start : String}
    {g : ResourceGraph} (h : doc.resources given start = .ok g) {r : Resource}
    (hr : r ∈ g.resources) : r.Callable := by
  obtain ⟨hnamed, hmade⟩ := customs_wellMade h hr
  refine ⟨hnamed, fun m hm => ?_⟩
  obtain ⟨verb, hverb, -⟩ := (hmade m hm).verb
  rw [hverb]
  cases verb <;> decide

end ResourceCli
