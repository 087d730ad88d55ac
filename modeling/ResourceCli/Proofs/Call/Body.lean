import ResourceCli.Proofs.Call.Compiled

/-!
# What is sent along with a request made from flags

A request that is made without a file of whole data has as its body an object of the flags that the
words give, and of nothing else: every member is a property that a client may set, and every
required property that can be an option is there (`Document.exists_sends`).
-/

namespace ResourceCli

open CommandLine
open Text (Bytes)

namespace Resource

variable {r : Resource} {c : Call} {m : Method} {request : Request} {bytes : Bytes}
  {command : Command} {words : List String} {levels : Matches} {inputs : List FieldInput}
  {path : Option String} {w w' : World}

/-- The members of the body of a request are the flags that the words give. -/
structure Sends (r : Resource) (words : List String) (m : Method) (members : List (String × Json)) :
    Prop where
  /-- The resource supports the method. -/
  supported : r.Supports m
  /-- The words name it. -/
  placed : ∃ own after, words = own ++ m.command :: after
  /-- The members are the inputs of the method that the words give, each with the JSON value of what
  is given. -/
  given : ∃ inputs, r.inputsOf m = .ok inputs ∧ ∀ name json, (name, json) ∈ members ↔
    ∃ input ∈ inputs, input.name = name ∧ ∃ raw value, Gives words name input.implied raw ∧
      InputValue.read input.kind raw = .ok value ∧ json = value.toJson
  /-- No member comes twice. -/
  distinct : (keys members).Nodup
  /-- Every flag that the words mention is one of a containing resource or a member. -/
  mentioned : ∀ name value after, Mentions words name value after →
    name ∈ r.parentFlags ∨ name ∈ keys members
  /-- Every member is a property that a client may set. -/
  writable : ∀ name ∈ keys members, ∃ s ∈ r.payloadSchema? m, ∃ property, s.Writable name property
  /-- Every required property that a client may set is a member, unless its name is taken. -/
  required : ∀ s ∈ r.payloadSchema? m, ∀ name property, s.Writable name property →
    s.requires name = true → name ∉ r.parentFlags → name ≠ "help" → name ≠ dataFlag →
      name ∈ keys members

/-- Whatever the method, what is sent along is the text of the payload. -/
theorem Tabled.eq_payloadText (h : r.Tabled c m request) (hb : request.body = some bytes) :
    bytes = payloadText c := by
  cases h with
  | create | createAs | update => exact (Option.some.inj hb).symm
  | get | delete | list => cases hb
  | custom name id method =>
    dsimp only at hb
    split at hb
    · exact (Option.some.inj hb).symm
    · cases hb

/-- A request is made only from a command line that is accepted. -/
theorem exists_read_of_compile (hc : r.command = .ok command)
    (h : (r.compile words).play w = (.ok (.request request), w')) :
    ∃ levels, command.read r.calledName words = .ok levels := by
  obtain ⟨w₁, hnotes⟩ := Job.exists_play_notes r.commandNotes w
  have hcommand : (Job.ofExcept r.command).play w₁ = (.ok command, w₁) := by
    rw [Job.play_ofExcept, hc]
    rfl
  rw [compile, Job.play_bind_ok hnotes, Job.play_bind_ok hcommand] at h
  cases hread : command.read r.calledName words with
  | ok levels => exact ⟨levels, rfl⟩
  | error stop =>
    rw [hread] at h
    cases stop <;> cases h

/-- The members of a body that is made from fields. -/
def fieldMembers (fields : List (String × InputValue)) : List (String × Json) :=
  fields.map fun e => (e.1, e.2.toJson)

theorem keys_fieldMembers (fields : List (String × InputValue)) :
    keys (fieldMembers fields) = keys fields := by
  rw [keys, fieldMembers, List.map_map]
  rfl

theorem mem_fieldMembers_iff {fields : List (String × InputValue)} {name : String} {json : Json} :
    (name, json) ∈ fieldMembers fields ↔
      ∃ value, (name, value) ∈ fields ∧ json = value.toJson := by
  rw [fieldMembers, List.mem_map]
  constructor
  · rintro ⟨⟨name', value⟩, hfield, he⟩
    cases he
    exact ⟨value, hfield, rfl⟩
  · rintro ⟨value, hfield, rfl⟩
    exact ⟨_, hfield, rfl⟩

/-- There is no file with whole data if the words do not mention one. -/
theorem Agrees.path_eq_none (ha : r.Agrees words levels inputs c path)
    (hdata : ∀ value after, ¬ Mentions words dataFlag value after) : path = none := by
  refine Option.eq_none_iff_forall_not_mem.2 fun p hp => ?_
  obtain ⟨value, after, hm, -⟩ := ((ha.data p).1 hp).2
  exact hdata value after hm

/-- Without a file the request that is made is the one of the call. -/
theorem Agrees.request_eq (ha : r.Agrees words levels inputs c path) (hpath : path = none)
    (hplay : (r.compile words).play w = (.ok (.request request), w')) :
    r.request c = .ok request := by
  have hnone : c.data = none := data_of_callOf ha.called
  obtain ⟨w₁, ⟨data, made, hwhole, hrequest, hmade⟩ | ⟨report, -, hfails⟩⟩ := ha.answered w
  · rw [hplay] at hmade
    cases hmade
    rw [hwhole.2 hpath, ← hnone] at hrequest
    exact hrequest
  · rw [hplay] at hfails
    cases hfails

/-- The fields of a call that is read off a command line, and that becomes a request, are what is
sent along. -/
theorem Agrees.sends (ha : r.Agrees words levels inputs c path)
    (hdata : ∀ value after, ¬ Mentions words dataFlag value after)
    (hrequest : r.request c = .ok request) : r.Sends words c.method (fieldMembers c.fields) where
  supported := ha.supported
  placed := ha.placed
  given := by
    refine ⟨inputs, ha.bound, fun name json => mem_fieldMembers_iff.trans ?_⟩
    simp only [ha.fields]
    constructor
    · rintro ⟨value, ⟨input, hinput, hname, raw, hraw, hread⟩, hjson⟩
      exact ⟨input, hinput, hname, raw, value, hraw, hread, hjson⟩
    · rintro ⟨input, hinput, hname, raw, value, hraw, hread, hjson⟩
      exact ⟨value, ⟨input, hinput, hname, raw, hraw, hread⟩, hjson⟩
  distinct := by
    rw [keys_fieldMembers]
    exact ha.distinct
  mentioned := by
    intro name value after hm
    rw [keys_fieldMembers]
    refine (ha.mentioned name value after hm).imp_right (Or.resolve_left · ?_)
    rintro ⟨-, rfl⟩
    exact hdata value after hm
  writable := by
    intro name hname
    rw [keys_fieldMembers] at hname
    obtain ⟨⟨_, value⟩, hfield, rfl⟩ := List.mem_map.1 hname
    obtain ⟨input, hinput, rfl, -⟩ := (ha.fields _ value).1 hfield
    obtain ⟨s, hs, -, property, hwritable, -⟩ := (mem_inputsOf_iff ha.bound).1 hinput
    exact ⟨s, hs, property, hwritable⟩
  required := by
    intro s hs name property hwritable hrequires hparent hhelp hflag
    -- A call that becomes a request has passed the check of required fields.
    obtain ⟨hcheck, -⟩ := request_eq_ok_iff.1 hrequest
    obtain ⟨-, -, hmissing⟩ := checkInputs_eq_ok_iff.1 hcheck
    have hfills : r.Fills s c :=
      missingFields_eq_nil_iff.1 hmissing (data_of_callOf ha.called) s hs
    rw [keys_fieldMembers]
    refine hfills.given name property hwritable hrequires (isTaken_eq_false_iff.2 ⟨?_, hparent⟩)
    rw [reservedFlags, List.mem_cons, List.mem_singleton]
    exact not_or.2 ⟨hhelp, hflag⟩

/-- What is sent along with the request of a call is the text of its fields. -/
theorem eq_compact_fieldMembers (hnone : c.data = none) (hrequest : r.request c = .ok request)
    (hb : request.body = some bytes) :
    bytes = Text.utf8Encode (Json.obj (fieldMembers c.fields)).compact := by
  have htabled := tabled_of_request hrequest
  rw [htabled.eq_payloadText hb, payloadText, Call.payload, hnone]
  rfl

end Resource

namespace Document

variable {doc : Document} {given : Option String} {start : String} {g : ResourceGraph}
  {r : Resource} {command : Command} {words : List String} {request : Request} {bytes : Bytes}
  {w w' : World}

/-- **A body made from flags has exactly the flags that are given**, for every resource of a graph
whose commands keep their arguments apart. -/
theorem exists_sends (h : doc.resources given start = .ok g) (hr : r ∈ g.resources)
    (hc : r.command = .ok command) (hd : ∀ sub ∈ command.subcommands, (r.argumentIds sub).Nodup)
    (hdata : ∀ value after, ¬ CommandLine.Mentions words dataFlag value after)
    (hplay : (r.compile words).play w = (.ok (.request request), w'))
    (hb : request.body = some bytes) :
    ∃ levels c path members, command.read r.calledName words = .ok levels ∧
      r.callOf levels = .ok (c, path) ∧
      bytes = Text.utf8Encode (Json.obj members).compact ∧ r.Sends words c.method members := by
  obtain ⟨levels, hread⟩ := Resource.exists_read_of_compile hc hplay
  obtain ⟨top, level, m, inputs, rfl, hreads⟩ :=
    Resource.exists_reads (callable h hr) hc hd hread
  have hagrees := hreads.agrees hc hread
  have hrequest := hagrees.request_eq (hagrees.path_eq_none hdata) hplay
  exact ⟨_, _, _, _, hread, hagrees.called,
    Resource.eq_compact_fieldMembers (Resource.data_of_callOf hagrees.called) hrequest hb,
    hagrees.sends hdata hrequest⟩

/-- A book is given a title: the title is all that is sent along. -/
theorem titledBooks_sent : ∃ g r command request w' levels c path members,
    (changedBooks [("title", .typed "string")]).resources none "" = .ok g ∧ r ∈ g.resources ∧
      r.command = .ok command ∧ (∀ sub ∈ command.subcommands, (r.argumentIds sub).Nodup) ∧
      (∀ value after, ¬ CommandLine.Mentions titling dataFlag value after) ∧
      (r.compile titling).play {} = (.ok (.request request), w') ∧
      request.body = some (Text.utf8Encode "\x7b\"title\":\"Emma\"\x7d") ∧
      command.read r.calledName titling = .ok levels ∧ r.callOf levels = .ok (c, path) ∧
      Text.utf8Encode "\x7b\"title\":\"Emma\"\x7d" =
        Text.utf8Encode (Json.obj members).compact ∧ r.Sends titling c.method members := by
  obtain ⟨g, r, command, hg, hr, hcommand, hd, -, -, -, hrequest⟩ :=
    exists_of_glimpse titling glimpse_titling (by decide)
  obtain ⟨w', hplay⟩ := hrequest _ rfl
  have hdata : ∀ value after, ¬ CommandLine.Mentions titling dataFlag value after := by
    intro value after
    unfold titling
    rw [mentions_cons_of_other (show Word.ofText _ = .name "publisher" (some "acme") by decide)
      (by decide), mentions_cons_of_plain (by decide), mentions_cons_of_plain (by decide),
      mentions_cons_of_other (show Word.ofText _ = .name "title" none by decide) (by decide),
      mentions_cons_of_plain (by decide)]
    exact not_mentions_nil
  obtain ⟨levels, c, path, members, hread, hcall, hbytes, hsends⟩ :=
    exists_sends hg hr hcommand hd hdata hplay rfl
  exact ⟨g, r, command, _, w', levels, c, path, members, hg, hr, hcommand, hd, hdata, hplay, rfl,
    hread, hcall, hbytes, hsends⟩

end Document
end ResourceCli
