import ResourceCli.Proofs.Call.Agreement
import ResourceCli.Proofs.Run.Played

/-!
# What a command line comes to

The methods of a resource and the inputs of what is sent along are gone through three times: to make
the commands, to read a call off the levels of a command line, and to turn the call into a request.
`Document.exists_agrees` says that the three agree on every command line that is accepted
(`Resource.Agrees`): the call has a method that the resource supports, the id that the method needs,
and for fields the inputs that the words give.  What can still be wrong is what no command line
shows (`Resource.Excuses`): the id of a containing resource or a required field is missing, the file
with whole data cannot be read, or whole data and fields are mixed.
-/

namespace ResourceCli

open CommandLine

variable {w w' : World} {report : Report}

/-- Why the file at a path gives no whole data. -/
inductive Unread (path : String) : Failure → Prop
  /-- There is no path. -/
  | empty : path = "" → Unread path .emptyDataPath
  /-- The file cannot be read. -/
  | unreadable (fault : FileFault) : Unread path (.dataFileUnreadable path fault)
  /-- It is no JSON text. -/
  | malformed (defect : Json.Defect) : Unread path (.invalidDataJson path defect)
  /-- It is the text of something else than an object. -/
  | notObject : Unread path (.dataNotObject path)

theorem unread_of_readData {path : String} (h : (readData path).play w = (.error report, w')) :
    Unread path report.failure := by
  unfold readData at h
  split at h
  · rename_i hempty
    cases h
    exact .empty (beq_iff_eq.1 hempty)
  · rw [Job.play_bind, Job.play_readText] at h
    cases htext : w.disk.readText path with
    | error fault =>
      rw [htext] at h
      cases h
      exact .unreadable fault
    | ok text =>
      rw [htext] at h
      dsimp only [Except.mapError] at h
      split at h
      · cases h
      · cases h
        exact .notObject
      · rename_i defect _
        cases h
        exact .malformed defect

namespace Resource

variable {r : Resource} {command : Command} {words : List String} {levels : Matches} {c : Call}
  {path : Option String} {m : Method} {inputs : List FieldInput} {top level : Level}

/-- Whole data is read only after the call. -/
theorem data_of_callOf (h : r.callOf levels = .ok (c, path)) : c.data = none := by
  unfold callOf at h
  split at h
  · split at h
    · cases h
    · extract_lets rest at h
      split at h
      · cases h
        rfl
      · obtain ⟨fields, -, h⟩ := bind_eq_ok_iff.1 h
        cases h
        rfl
  · cases h

/-- The call is the one that the levels give, and its whole data is what the file holds. -/
theorem exists_play_readCall (h : r.callOf levels = .ok (c, path)) (w : World) :
    ∃ w', (r.readCall levels).play w = match path with
      | none => (.ok c, w')
      | some path =>
        ((fun members => { c with data := some members }) <$> readData path).play w' := by
  obtain ⟨w', hnotes⟩ := Job.exists_play_notes (r.methodNotes c.method) w
  have hcall : (Job.ofExcept (r.callOf levels)).play w = (.ok (c, path), w) := by
    rw [Job.play_ofExcept, h]
    rfl
  refine ⟨w', ?_⟩
  rw [readCall, Job.play_bind_ok hcall]
  dsimp only
  rw [Job.play_bind_ok hnotes]
  cases path with
  | none => rfl
  | some path =>
    dsimp only
    rw [map_eq_pure_bind]

theorem exists_play_compileCall (c : Call) (w : World) : ∃ w', (r.compileCall c).play w =
    ((r.request c).mapError fun failure => { failure := failure }, w') := by
  unfold compileCall
  rw [Job.play_bind_ok (Job.play_note _ w)]
  extract_lets rest
  split
  · obtain ⟨w', hnotes⟩ := Job.exists_play_notes (r.methodNotes c.method) _
    rw [Job.play_bind_ok hnotes]
    exact ⟨w', Job.play_ofExcept _ w'⟩
  · exact ⟨_, Job.play_ofExcept _ _⟩

/-- The request of an accepted command line is the one of the call that it gives. -/
theorem exists_play_compile (hc : r.command = .ok command)
    (hm : command.read r.calledName words = .ok levels) (w : World) :
    ∃ w', (r.compile words).play w =
      (Compiled.request <$> (r.readCall levels >>= r.compileCall)).play w' := by
  obtain ⟨w', hnotes⟩ := Job.exists_play_notes r.commandNotes w
  have hcommand : (Job.ofExcept r.command).play w' = (.ok command, w') := by
    rw [Job.play_ofExcept, hc]
    rfl
  refine ⟨w', ?_⟩
  rw [compile, Job.play_bind_ok hnotes, Job.play_bind_ok hcommand, hm]
  dsimp only
  rw [map_eq_pure_bind, bind_assoc]

/-- **What an accepted command line comes to**: the file with whole data gives none, or the request
of the call is made, with the whole data if a file is named. -/
theorem play_compile (hc : r.command = .ok command)
    (hm : command.read r.calledName words = .ok levels) (h : r.callOf levels = .ok (c, path))
    (w : World) : ∃ w',
      (∃ p report, path = some p ∧ Unread p report.failure ∧
        (r.compile words).play w = (.error report, w')) ∨
      ∃ data, (data = none ↔ path = none) ∧ (r.compile words).play w =
        (((r.request { c with data := data }).mapError fun failure =>
          { failure := failure }).map Compiled.request, w') := by
  obtain ⟨w₁, hcompile⟩ := exists_play_compile hc hm w
  obtain ⟨w₂, hcall⟩ := exists_play_readCall h w₁
  rw [hcompile, Job.play_map]
  -- The request of a call with this whole data.
  have hrequest : ∀ data w₃, (r.readCall levels).play w₁ = (.ok { c with data := data }, w₃) →
      ∃ w', (r.readCall levels >>= r.compileCall).play w₁ =
        ((r.request { c with data := data }).mapError fun failure => { failure := failure },
          w') := by
    intro data w₃ hdata
    rw [Job.play_bind_ok hdata]
    exact exists_play_compileCall _ w₃
  cases path with
  | none =>
    have hnone : c.data = none := data_of_callOf h
    obtain ⟨w', hw'⟩ := hrequest none w₂ (by rw [hcall, ← hnone])
    exact ⟨w', .inr ⟨none, iff_of_true rfl rfl, by rw [hw']⟩⟩
  | some p =>
    dsimp only at hcall
    rw [Job.play_map] at hcall
    rcases hread : (readData p).play w₂ with ⟨⟨report⟩ | ⟨members⟩, w₃⟩
    · rw [hread] at hcall
      refine ⟨w₃, .inl ⟨p, report, rfl, unread_of_readData hread, ?_⟩⟩
      rw [Job.play_bind_error hcall]
      rfl
    · rw [hread] at hcall
      obtain ⟨w', hw'⟩ := hrequest (some members) w₃ hcall
      exact ⟨w', .inr ⟨some members, iff_of_false nofun nofun, by rw [hw']⟩⟩

/-! ## What can still be wrong -/

/-- What can be wrong with a command line that is accepted and gives a call. -/
inductive Excuses (r : Resource) (words : List String) (inputs : List FieldInput) (c : Call) :
    Failure → Prop
  /-- The file that the words name gives no whole data. -/
  | unread (path : String) (failure : Failure) : Gives words dataFlag none path →
      Unread path failure → Excuses r words inputs c failure
  /-- The call lacks something, with whole data only if the words name a file. -/
  | lacks (data : Option (List (String × Json))) (failure : Failure) :
      (data ≠ none → ∃ path, Gives words dataFlag none path) →
      r.Lacks inputs { c with data := data } failure → Excuses r words inputs c failure

/-- The commands of a resource, the call that a command line gives, and its request agree. -/
structure Agrees (r : Resource) (words : List String) (levels : Matches) (inputs : List FieldInput)
    (c : Call) (path : Option String) : Prop where
  /-- The call is the one that is read off the levels. -/
  called : r.callOf levels = .ok (c, path)
  /-- There is a level for the resource, and one for the method. -/
  named : ∃ top level, levels = [top, level] ∧ level.command = c.method.command
  /-- The method is one that the resource supports. -/
  supported : r.Supports c.method
  /-- The words name it. -/
  placed : ∃ own after, words = own ++ c.method.command :: after
  /-- The id is there if the method needs one. -/
  identified : r.needsId c.method = true → ∃ id, c.id = some id
  /-- The inputs are those of the method. -/
  bound : r.inputsOf c.method = .ok inputs
  /-- The fields of the call are the inputs that the words give, with their values. -/
  fields : ∀ name value, (name, value) ∈ c.fields ↔ ∃ input ∈ inputs, input.name = name ∧
    ∃ raw, Gives words name input.implied raw ∧ InputValue.read input.kind raw = .ok value
  /-- No field comes twice. -/
  distinct : (keys c.fields).Nodup
  /-- The words mention no other flags than those of containing resources, of whole data and of the
  fields. -/
  mentioned : ∀ name value after, Mentions words name value after → name ∈ r.parentFlags ∨
    (r.acceptsPayload c.method = true ∧ name = dataFlag) ∨ name ∈ keys c.fields
  /-- The file with whole data is the one that the words give, if there can be one. -/
  data : ∀ p, path = some p ↔ r.acceptsPayload c.method = true ∧ Gives words dataFlag none p
  /-- The request of the call is made, with whole data if there is a file, or the words leave out or
  mix up what they may. -/
  answered : ∀ w, ∃ w',
    (∃ data request, (data = none ↔ path = none) ∧ r.request { c with data := data } = .ok request ∧
      (r.compile words).play w = (.ok (.request request), w')) ∨
    ∃ report, r.Excuses words inputs c report.failure ∧
      (r.compile words).play w = (.error report, w')

/-- The call that is read off the levels of an accepted command line agrees with its words and with
what is made of it. -/
theorem Reads.agrees (h : r.Reads words m inputs level) (hc : r.command = .ok command)
    (hm : command.read r.calledName words = .ok [top, level]) :
    r.Agrees words [top, level] inputs (r.callAt m inputs top level) (r.dataPath m level) where
  called := h.callOf
  named := ⟨top, level, rfl, h.named⟩
  supported := h.supported
  placed := h.placed
  identified := h.keeps.identified
  bound := h.bound
  fields name value := h.mem_fields_iff
  distinct := nodup_keys_givenFields inputs level
  mentioned name value after hm := h.flag_of_mentions hm
  data p := h.dataPath_eq_some_iff
  answered := by
    intro w
    obtain ⟨w', ⟨p, report, hpath, hunread, hfails⟩ | ⟨data, hdata, hrequest⟩⟩ :=
      play_compile hc hm h.callOf w
    · have hgives := (h.dataPath_eq_some_iff.1 hpath).2
      exact ⟨w', .inr ⟨report, .unread p _ hgives hunread, hfails⟩⟩
    · cases hmade : r.request { r.callAt m inputs top level with data := data } with
      | ok request =>
        rw [hmade] at hrequest
        exact ⟨w', .inl ⟨data, request, hdata, hmade, hrequest⟩⟩
      | error failure =>
        rw [hmade] at hrequest
        have hlacks := lacks_of_request h.supported h.keeps.identified h.bound hmade
        refine ⟨w', .inr ⟨_, .lacks data failure (fun hsome => ?_) hlacks, hrequest⟩⟩
        obtain ⟨p, hp⟩ := Option.ne_none_iff_exists'.1 (mt hdata.2 hsome)
        exact ⟨p, (h.dataPath_eq_some_iff.1 hp).2⟩

end Resource

namespace Document

variable {doc : Document} {given : Option String} {start : String} {g : ResourceGraph}
  {r : Resource} {command : Command} {words : List String} {levels : Matches}

/-- **Commands, calls and requests agree** for every resource of a graph whose commands keep their
arguments apart, and for every command line that its command accepts. -/
theorem exists_agrees (h : doc.resources given start = .ok g) (hr : r ∈ g.resources)
    (hc : r.command = .ok command) (hd : ∀ sub ∈ command.subcommands, (r.argumentIds sub).Nodup)
    (hread : command.read r.calledName words = .ok levels) :
    ∃ inputs c path, r.Agrees words levels inputs c path := by
  obtain ⟨top, level, m, inputs, rfl, hreads⟩ :=
    Resource.exists_reads (callable h hr) hc hd hread
  exact ⟨inputs, _, _, hreads.agrees hc hread⟩

/-- What reading words with the command of a resource gives, as far as it can be compared. -/
structure Glimpse where
  /-- The names of the arguments of the commands below. -/
  ids : List (List String)
  /-- The levels. -/
  levels : Matches
  /-- The method of the call. -/
  method : Option Method
  /-- The inputs of changing a resource. -/
  inputs : List FieldInput
  /-- The request, made without any files. -/
  request : Option Request
  deriving DecidableEq

/-- Reads words with the command of a resource. -/
def glimpse (words : List String) (r : Resource) : Option Glimpse :=
  r.command.toOption.bind fun command =>
    (command.read r.calledName words).toOption.bind fun levels =>
      (r.inputsOf .update).toOption.map fun inputs =>
        ⟨command.subcommands.map r.argumentIds, levels,
          (r.callOf levels).toOption.map fun p => p.1.method, inputs,
          match ((r.compile words).play {}).1 with
          | .ok (.request request) => some request
          | _ => none⟩

theorem exists_of_glimpse (words : List String) {seen : Glimpse}
    (h : (doc.resources none "").toOption.map (fun g => g.resources[0]?.bind (glimpse words)) =
      some (some seen)) (hids : ∀ names ∈ seen.ids, names.Nodup) :
    ∃ g r command, doc.resources none "" = .ok g ∧ r ∈ g.resources ∧ r.command = .ok command ∧
      (∀ sub ∈ command.subcommands, (r.argumentIds sub).Nodup) ∧
      command.read r.calledName words = .ok seen.levels ∧ r.inputsOf .update = .ok seen.inputs ∧
      (r.callOf seen.levels).toOption.map (fun p => p.1.method) = seen.method ∧
      ∀ request ∈ seen.request, ∃ w, (r.compile words).play {} = (.ok (.request request), w) := by
  obtain ⟨g, hg, h⟩ := exists_ok_of_map_toOption h
  obtain ⟨r, hr, h⟩ := Option.bind_eq_some_iff.1 h
  obtain ⟨command, hcommand, h⟩ := Option.bind_eq_some_iff.1 h
  obtain ⟨levels, hlevels, h⟩ := Option.bind_eq_some_iff.1 h
  obtain ⟨inputs, hinputs, rfl⟩ := Option.map_eq_some_iff.1 h
  refine ⟨g, r, command, hg, List.mem_of_getElem? hr, toOption_eq_some_iff.1 hcommand,
    fun sub hsub => hids _ (List.mem_map_of_mem hsub), toOption_eq_some_iff.1 hlevels,
    toOption_eq_some_iff.1 hinputs, rfl, fun request hrequest => ?_⟩
  rcases hplay : (r.compile words).play {} with ⟨_ | ⟨made | _⟩, w⟩ <;>
    rw [Option.mem_def, hplay] at hrequest <;> cases hrequest
  exact ⟨w, rfl⟩

/-- The words that give a book a title. -/
def titling : List String := ["--publisher=acme", "update", "emma", "--title", "Emma"]

/-- What a book is given a title with. -/
def titlingGlimpse : Glimpse where
  ids := [["@id", "title", "@data", "publisher", "help"]]
  levels := [⟨"book", [("publisher", ["acme"])]⟩,
    ⟨"update", [("@id", ["emma"]), ("title", ["Emma"])]⟩]
  method := some .update
  inputs := [⟨"title", .text, "The title of the resource", false⟩]
  request := some ⟨"PATCH", "publishers/acme/books/emma", none,
    some (Text.utf8Encode "\x7b\"title\":\"Emma\"\x7d")⟩

theorem glimpse_titling :
    ((changedBooks [("title", .typed "string")]).resources none "").toOption.map
      (fun g => g.resources[0]?.bind (glimpse titling)) = some (some titlingGlimpse) := by
  decide +kernel

/-- A book is given a title: the title is a field of the call. -/
theorem titledBooks_agree : ∃ g r command levels inputs c path,
    (changedBooks [("title", .typed "string")]).resources none "" = .ok g ∧ r ∈ g.resources ∧
      r.command = .ok command ∧ (∀ sub ∈ command.subcommands, (r.argumentIds sub).Nodup) ∧
      command.read r.calledName titling = .ok levels ∧ r.Agrees titling levels inputs c path ∧
      c.method = .update ∧ ("title", .text "Emma") ∈ c.fields := by
  obtain ⟨g, r, command, hg, hr, hcommand, hd, hread, hinputs, hmethod, -⟩ :=
    exists_of_glimpse titling glimpse_titling (by decide)
  obtain ⟨inputs, c, path, hagrees⟩ := exists_agrees hg hr hcommand hd hread
  have hupdate : c.method = .update := by
    rw [hagrees.called] at hmethod
    exact Option.some.inj hmethod
  have hbound := hagrees.bound
  rw [hupdate, hinputs] at hbound
  cases hbound
  have hgives : CommandLine.Gives titling "title" none "Emma" :=
    ⟨none, ["Emma"], ⟨by decide, by decide, ["--publisher=acme", "update", "emma"], by decide,
      by decide⟩, rfl⟩
  exact ⟨g, r, command, _, _, c, path, hg, hr, hcommand, hd, hread, hagrees, hupdate,
    (hagrees.fields _ _).2 ⟨_, List.mem_singleton_self _, rfl, "Emma", hgives, rfl⟩⟩

end Document
end ResourceCli
