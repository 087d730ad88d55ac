import ResourceCli.Call.Reading
import ResourceCli.Proofs.Call.Flags
import ResourceCli.Proofs.CommandLine.Given

/-!
# What a command line for a resource gives

The command line of a resource names a method, and what is kept of it is what its words say: the id,
the values of the inputs, and the file with whole data (`Resource.Reads`).  `Resource.exists_reads`
shows this for every command line that is accepted, if the arguments of each command have distinct
names.

The words in front of the name of the method are read by the command of the resource, which has only
the flags of containing resources; the words behind it are read by the command for the method, which
has these flags too.
-/

namespace ResourceCli

open CommandLine

namespace CommandLine

variable {c : Command}

theorem Command.plain_helpArg (c : Command) : c.helpArg.Plain := by
  unfold Command.helpArg
  split <;> exact ⟨.inr rfl, fun _ => rfl, rfl, rfl⟩

/-- A command without a version is completed by the flag for its description. -/
theorem Command.args_completed (hhelp : c.hasHelp = true) (hversion : c.version = none) :
    c.completed.args = c.args ++ [c.helpArg] := by
  unfold Command.completed
  rw [hhelp, hversion, if_pos rfl, Option.isSome_none, if_neg Bool.false_ne_true, List.append_nil]

theorem Command.id_helpArg (c : Command) : c.helpArg.id = "help" := by
  unfold Command.helpArg
  split <;> rfl

theorem Command.action_helpArg (c : Command) : c.helpArg.action = .help := by
  unfold Command.helpArg
  split <;> rfl

theorem Command.long_helpArg (c : Command) : c.helpArg.long = some "help" := by
  unfold Command.helpArg
  split <;> rfl

end CommandLine

/-- What the flag of an input implies: a truth value is set if none is given. -/
def FieldInput.implied (input : FieldInput) : Option String :=
  if input.kind == .flag then some "true" else none

namespace Resource

variable {r : Resource} {m : Method} {inputs : List FieldInput} {command sub found : Command}
  {a : Arg}

/-- The arguments of the command of a resource are the flags of containing resources. -/
theorem args_of_command (h : r.command = .ok command) :
    command.args = numberedFrom 0 (r.parentFlags.map parentArg) := by
  obtain ⟨_, -, h⟩ := bind_eq_ok_iff.1 h
  cases h
  rfl

/-- What is kept at the level of a method is what the words say. -/
structure Keeps (r : Resource) (words : List String) (m : Method) (inputs : List FieldInput)
    (level : Level) : Prop where
  /-- An input has the value that the words give it. -/
  fields : ∀ input ∈ inputs, ∀ raw,
    level.value? input.name = some raw ↔ Gives words input.name input.implied raw
  /-- That value can be read. -/
  readable : ∀ input ∈ inputs, ∀ raw, level.value? input.name = some raw →
    ∃ value, InputValue.read input.kind raw = .ok value
  /-- The file with whole data is the one that the words give, if there can be one. -/
  data : r.acceptsPayload m = true → ∀ path,
    level.value? dataFlag = some path ↔ Gives words dataFlag none path
  /-- The id is there if the method needs one. -/
  identified : r.needsId m = true → ∃ id, level.value? idArg = some id
  /-- The words mention no other flags than those of containing resources, of whole data and of the
  inputs, and an input has a value where it is mentioned. -/
  mentioned : ∀ name value after, Mentions words name value after → name ∈ r.parentFlags ∨
    (r.acceptsPayload m = true ∧ name = dataFlag) ∨
      ∃ input ∈ inputs, input.name = name ∧
        ∃ raw, (value <|> input.implied <|> after.head?) = some raw

/-- The words of a command line name a method of a resource, and what they say of it is kept. -/
structure Reads (r : Resource) (words : List String) (m : Method) (inputs : List FieldInput)
    (level : Level) : Prop where
  /-- The resource supports the method. -/
  supported : r.Supports m
  /-- The words name it. -/
  placed : ∃ own after, words = own ++ m.command :: after
  /-- The level is the one of the method. -/
  named : level.command = m.command
  /-- The inputs are those of the method. -/
  bound : r.inputsOf m = .ok inputs
  /-- They have distinct names. -/
  distinct : (inputs.map FieldInput.name).Nodup
  /-- What the words say is kept. -/
  keeps : r.Keeps words m inputs level

/-! ## Arguments of the commands -/

/-- The arguments that the command of a resource hands down. -/
theorem exists_parentArg (h : r.command = .ok command) (ha : a ∈ command.args) :
    ∃ flag ∈ r.parentFlags, ∃ k, a = { parentArg flag with order := k } := by
  rw [args_of_command h] at ha
  obtain ⟨b, hb, k, rfl⟩ := exists_of_mem_numberedFrom ha
  obtain ⟨flag, hflag, rfl⟩ := List.mem_map.1 hb
  exact ⟨flag, hflag, k, rfl⟩

theorem exists_idArg (h : r.Offers sub m inputs) (hneeds : r.needsId m = true) :
    ∃ k, { resourceIdArg with order := k } ∈ sub.args := by
  obtain ⟨-, -, about, rfl⟩ := h
  refine exists_mem_numberedFrom ?_ 0
  rw [argsOf, hneeds, if_pos rfl]
  exact List.mem_append_left _ (List.mem_append_left _ List.mem_cons_self)

theorem exists_fieldArg (h : r.Offers sub m inputs) {input : FieldInput} (hi : input ∈ inputs) :
    ∃ k, { fieldArg input with order := k } ∈ sub.args := by
  obtain ⟨-, -, about, rfl⟩ := h
  exact exists_mem_numberedFrom
    (List.mem_append_left _ (List.mem_append_right _ (List.mem_map_of_mem hi))) 0

theorem exists_dataArg (h : r.Offers sub m inputs) (haccepts : r.acceptsPayload m = true) :
    ∃ k, { dataArg with order := k } ∈ sub.args := by
  obtain ⟨-, -, about, rfl⟩ := h
  refine exists_mem_numberedFrom ?_ 0
  rw [argsOf, haccepts, if_pos rfl]
  exact List.mem_append_right _ List.mem_cons_self

/-- The command for a method as it is read, completed and with the flags of containing resources. -/
def within (command sub : Command) : Command :=
  (sub.inheriting (command.args.filter (·.isGlobal))).completed

/-- All arguments of the command for a method, with those that it shares with others. -/
theorem args_within (h : r.Offers sub m inputs) (command : Command) : (within command sub).args =
    sub.args ++ (command.args.filter (·.isGlobal)).filter
        (fun g => !sub.args.any (·.id == g.id)) ++
      [(sub.inheriting (command.args.filter (·.isGlobal))).helpArg] := by
  obtain ⟨-, -, about, rfl⟩ := h
  exact Command.args_completed rfl rfl

/-- The command for a method has its name, and there is none below it. -/
theorem subcommand?_within (h : r.Offers sub m inputs) (command : Command) (word : String) :
    (within command sub).subcommand? word = none := by
  obtain ⟨-, -, about, rfl⟩ := h
  rfl

/-- The arguments that the command for a method takes. -/
inductive Takes (r : Resource) (m : Method) (inputs : List FieldInput) : Arg → Prop
  /-- The id. -/
  | id (k : Nat) : r.needsId m = true → Takes r m inputs { resourceIdArg with order := k }
  /-- The flag of an input. -/
  | field (input : FieldInput) (k : Nat) : input ∈ inputs →
      Takes r m inputs { fieldArg input with order := k }
  /-- The flag for whole data. -/
  | data (k : Nat) : r.acceptsPayload m = true → Takes r m inputs { dataArg with order := k }
  /-- The flag of a containing resource. -/
  | parent (flag : String) (k : Nat) : flag ∈ r.parentFlags →
      Takes r m inputs { parentArg flag with order := k }
  /-- The flag for the description. -/
  | help (c : Command) : Takes r m inputs c.helpArg

theorem takes_of_mem_args (h : r.Offers sub m inputs) (ha : a ∈ sub.args) : r.Takes m inputs a := by
  obtain ⟨-, -, about, rfl⟩ := h
  obtain ⟨b, hb, k, rfl⟩ := exists_of_mem_numberedFrom (n := 0) ha
  rcases List.mem_append.1 hb with hb | hb
  · rcases List.mem_append.1 hb with hb | hb
    · split at hb
      · rename_i hneeds
        rw [List.mem_singleton.1 hb]
        exact .id k hneeds
      · exact absurd hb List.not_mem_nil
    · obtain ⟨input, hinput, rfl⟩ := List.mem_map.1 hb
      exact .field input k hinput
  · split at hb
    · rename_i haccepts
      rw [List.mem_singleton.1 hb]
      exact .data k haccepts
    · exact absurd hb List.not_mem_nil

theorem takes_of_mem_within (h : r.Offers sub m inputs) (hc : r.command = .ok command)
    (ha : a ∈ (within command sub).args) : r.Takes m inputs a := by
  rw [args_within h] at ha
  rcases List.mem_append.1 ha with ha | ha
  · rcases List.mem_append.1 ha with ha | ha
    · exact takes_of_mem_args h ha
    · obtain ⟨flag, hflag, k, rfl⟩ :=
        exists_parentArg hc (List.mem_of_mem_filter (List.mem_of_mem_filter ha))
      exact .parent flag k hflag
  · rw [List.mem_singleton.1 ha]
    exact .help _

/-- An argument of a method is of a simple kind. -/
theorem Takes.plain (h : r.Takes m inputs a) : a.Plain := by
  cases h with
  | help c => exact c.plain_helpArg
  | id | field | data | parent => exact ⟨.inl rfl, fun hs => absurd rfl hs, rfl, rfl⟩

/-- A flag of a method is kept under its name. -/
theorem Takes.id_eq (h : r.Takes m inputs a) {name : String} (hlong : a.long = some name) :
    a.id = name := by
  cases h with
  | id => cases hlong
  | field | data | parent => exact Option.some.inj hlong
  | help c =>
    rw [Command.long_helpArg] at hlong
    rw [Command.id_helpArg, Option.some.inj hlong]

/-- A flag that keeps a value is one of the method or of a containing resource. -/
theorem Takes.name_of_set (h : r.Takes m inputs a) {name : String} (hlong : a.long = some name)
    (hact : a.action = .set) :
    name ∈ r.parentFlags ∨ (r.acceptsPayload m = true ∧ name = dataFlag) ∨
      ∃ input ∈ inputs, input.name = name ∧ input.implied = a.impliedValue := by
  cases h with
  | id => cases hlong
  | field input k hinput => exact .inr (.inr ⟨input, hinput, Option.some.inj hlong, rfl⟩)
  | data k haccepts => exact .inr (.inl ⟨haccepts, (Option.some.inj hlong).symm⟩)
  | parent flag k hflag =>
    obtain rfl : flag = name := Option.some.inj hlong
    exact .inl hflag
  | help c =>
    rw [Command.action_helpArg] at hact
    cases hact

/-- With distinct names the arguments of a method stay apart when its command is completed. -/
theorem named_within (h : r.Offers sub m inputs) (hc : r.command = .ok command)
    (hd : (r.argumentIds sub).Nodup) : (within command sub).Named := by
  refine ⟨?_, fun a ha name hname => ((takes_of_mem_within h hc ha).id_eq hname).symm⟩
  have hflags : command.args.map Arg.id = r.parentFlags := by
    rw [args_of_command hc, map_id_numberedFrom, List.map_map]
    exact List.map_id _
  rw [args_within h, List.map_append, List.map_append, List.map_singleton, Command.id_helpArg]
  refine hd.sublist (((List.Sublist.refl _).append ?_).append (List.Sublist.refl _))
  rw [← hflags]
  exact (List.filter_sublist.trans List.filter_sublist).map _

/-! ## The command of a resource -/

/-- All arguments of the command of a resource. -/
theorem args_completed_of_command (h : r.command = .ok command) :
    command.completed.args = command.args ++ [command.helpArg] := by
  obtain ⟨_, -, h⟩ := bind_eq_ok_iff.1 h
  cases h
  exact Command.args_completed rfl rfl

theorem plain_of_command (h : r.command = .ok command) : command.completed.Plain := by
  intro a ha
  rw [args_completed_of_command h] at ha
  rcases List.mem_append.1 ha with ha | ha
  · obtain ⟨flag, -, k, rfl⟩ := exists_parentArg h ha
    exact ⟨.inl rfl, fun hs => absurd rfl hs, rfl, rfl⟩
  · rw [List.mem_singleton.1 ha]
    exact Command.plain_helpArg _

theorem name_of_long? (h : r.command = .ok command) {name : String}
    (ha : command.completed.long? name = some a) :
    (name = "help" ∧ a.action = .help) ∨ name ∈ r.parentFlags := by
  obtain ⟨ha, hlong⟩ := mem_of_long? ha
  rw [args_completed_of_command h] at ha
  rcases List.mem_append.1 ha with ha | ha
  · obtain ⟨flag, hflag, k, rfl⟩ := exists_parentArg h ha
    obtain rfl : flag = name := Option.some.inj hlong
    exact .inr hflag
  · rw [List.mem_singleton.1 ha] at hlong ⊢
    rw [Command.long_helpArg] at hlong
    exact .inl ⟨(Option.some.inj hlong).symm, Command.action_helpArg _⟩

/-- A word names the command for a method, or the command that describes the others. -/
theorem cases_of_subcommand? {word : String}
    (h : command.completed.subcommand? word = some sub) :
    sub.name = word ∧ (word = Command.helpCommand.name ∨ ∃ other ∈ command.subcommands,
      sub = other.inheriting (command.args.filter (·.isGlobal))) := by
  unfold Command.subcommand? at h
  have hfound := List.find?_some h
  have hmem := List.mem_of_find?_eq_some h
  obtain rfl := eq_of_beq hfound
  refine ⟨rfl, ?_⟩
  rcases List.mem_append.1 hmem with hmem | hmem
  · obtain ⟨other, hother, rfl⟩ := List.mem_map.1 hmem
    exact .inr ⟨other, hother, rfl⟩
  · split at hmem
    · exact absurd hmem List.not_mem_nil
    · rw [List.mem_singleton.1 hmem]
      exact .inl rfl

/-- The command for a method is named by a word that is no flag. -/
theorem ofText_command (m : Method) : Word.ofText m.command = .plain := by
  cases m with
  | custom name =>
    have hchars : (":" ++ name).toList = ':' :: name.toList := String.toList_append
    unfold Word.ofText Method.command
    rw [hchars]
    rfl
  | create => decide
  | get => decide
  | update => decide
  | delete => decide
  | list => decide

theorem ofText_of_subcommand? (hr : r.Callable) (hc : r.command = .ok command) {word : String}
    (h : (command.completed.subcommand? word).isSome) : Word.ofText word = .plain := by
  obtain ⟨sub, hsub⟩ := Option.isSome_iff_exists.1 h
  obtain ⟨rfl, hhelp | ⟨other, hother, rfl⟩⟩ := cases_of_subcommand? hsub
  · rw [hhelp]
    decide
  · obtain ⟨m, inputs, -, -, about, rfl⟩ := exists_offers hr hc hother
    exact ofText_command m

/-! ## What is read -/

/-- A value that passes the test of an input's flag can be read. -/
theorem exists_read_of_faultOf {input : FieldInput} {k : Nat} {raw : String}
    (h : Arg.faultOf { fieldArg input with order := k } raw = none) :
    ∃ value, InputValue.read input.kind raw = .ok value := by
  unfold Arg.faultOf fieldArg at h
  dsimp only at h
  cases hread : InputValue.read input.kind raw with
  | ok value => exact ⟨value, rfl⟩
  | error fault =>
    rw [hread] at h
    cases h

/-- What the words behind the name of a method say is kept at its level. -/
theorem exists_level (h : r.Offers sub m inputs) (hc : r.command = .ok command)
    (hd : (r.argumentIds sub).Nodup) {called : String} {words : List String} {levels : Matches}
    (hread : readWords (within command sub) called (.between [] none 1 false) words = .ok levels) :
    ∃ level, levels = [level] ∧ level.command = m.command ∧ r.Keeps words m inputs level := by
  have htakes := fun a => takes_of_mem_within (a := a) h hc
  have hnamed := named_within h hc hd
  have hown : ∀ a ∈ sub.args, a ∈ (within command sub).args := fun a ha => by
    rw [args_within h]
    exact List.mem_append_left _ (List.mem_append_left _ ha)
  have hcommand : (within command sub).name = m.command :=
    show sub.name = m.command from name_of_offers h
  have hnone := subcommand?_within h command
  -- Nothing else is asked of the command: its arguments are those of the method, and kept apart.
  generalize within command sub = full at *
  obtain ⟨items, below, lower, hspells, hacc, hwhole, rfl, hleaves⟩ :=
    readsAs_of_readWords (fun a ha => (htakes a ha).plain) words
      (fun e he => absurd he (Option.not_mem_none e)) .nil hread
  rw [Option.toList_none, List.append_nil, List.nil_append] at hacc hwhole ⊢
  cases below with
  | some p =>
    obtain ⟨_, _, hfound⟩ := hspells.exists_words_of_below
    cases (hnone _).symm.trans hfound
  | none =>
    obtain rfl : lower = [] := hleaves
    refine ⟨_, rfl, hcommand, fun input hinput raw => ?_, fun input hinput raw hraw => ?_,
      fun haccepts path => ?_, fun hneeds => ?_, fun name value after hm => ?_⟩
    · obtain ⟨k, hk⟩ := exists_fieldArg h hinput
      exact hspells.value?_iff_gives hnamed hacc (hown _ hk) rfl
    · obtain ⟨k, hk⟩ := exists_fieldArg h hinput
      obtain ⟨a, ha, hid⟩ := hacc.value?_eq_some_iff.1 hraw
      obtain rfl := hnamed.eq_of_id (hspells.mem_args _ ha) (hown _ hk) hid
      exact exists_read_of_faultOf (hacc.passing _ ha)
    · obtain ⟨k, hk⟩ := exists_dataArg h haccepts
      exact hspells.value?_iff_gives hnamed hacc (hown _ hk) rfl
    · obtain ⟨k, hk⟩ := exists_idArg h hneeds
      have hgiven := (of_wholeFault_eq_none hwhole).2 _ (hown _ hk) rfl
      rw [keys_map_entry] at hgiven
      obtain ⟨⟨a, id⟩, ha, hid⟩ := List.mem_map.1 hgiven
      exact ⟨id, hacc.value?_eq_some_iff.2 ⟨a, ha, hid⟩⟩
    · rcases hspells.flag_or_below_of_mentions
        (fun word hword => by rw [hnone] at hword; cases hword) hm with
        ⟨a, raw, ha, hact, hraw⟩ | ⟨_, _, hbelow, -⟩
      · obtain ⟨hmem, hlong⟩ := mem_of_long? ha
        refine ((htakes a hmem).name_of_set hlong hact).imp_right (Or.imp_right ?_)
        rintro ⟨input, hinput, hname, himplied⟩
        exact ⟨input, hinput, hname, raw, himplied ▸ hraw⟩
      · cases hbelow

/-- What the words behind the name of a method say, all words of the command line say. -/
theorem Keeps.of_below {level : Level} {place : Nat} {words after : List String}
    {items : List (Arg × String)} (h : r.Keeps after m inputs level) (hr : r.Callable)
    (hc : r.command = .ok command) (hoffers : r.Offers sub m inputs)
    (hd : (r.argumentIds sub).Nodup)
    (hs : Spells command.completed place false words items (some (found, after))) :
    r.Keeps words m inputs level := by
  have hsubs : ∀ word, (command.completed.subcommand? word).isSome → Word.ofText word = .plain :=
    fun _ => ofText_of_subcommand? hr hc
  have hgives : ∀ b ∈ sub.args, ∀ implied raw,
      Gives words b.id implied raw ↔ Gives after b.id implied raw := by
    intro b hb implied raw
    refine hs.gives_below_iff hsubs ?_
    -- The arguments of the method are no flags of the resource, so they are not given in front.
    obtain ⟨hown, -, hhelp⟩ := List.nodup_append.1 hd
    have hid := List.mem_map_of_mem (f := Arg.id) hb
    cases hlong : command.completed.long? b.id with
    | none => rfl
    | some a =>
      rcases name_of_long? hc hlong with ⟨hname, -⟩ | hflag
      · exact absurd hname
          (hhelp _ (List.mem_append_left _ hid) _ (List.mem_singleton_self _))
      · exact absurd rfl ((List.nodup_append.1 hown).2.2 _ hid _ hflag)
  refine ⟨fun input hinput raw => ?_, h.readable, fun haccepts path => ?_, h.identified,
    fun name value rest hm => ?_⟩
  · obtain ⟨k, hk⟩ := exists_fieldArg hoffers hinput
    rw [h.fields input hinput raw]
    exact (hgives _ hk _ _).symm
  · obtain ⟨k, hk⟩ := exists_dataArg hoffers haccepts
    rw [h.data haccepts path]
    exact (hgives _ hk _ _).symm
  · rcases hs.flag_or_below_of_mentions hsubs hm with
      ⟨a, -, ha, hact, -⟩ | ⟨_, _, hbelow, hm⟩
    · rcases name_of_long? hc ha with ⟨-, hhelp⟩ | hflag
      · rw [hhelp] at hact
        cases hact
      · exact .inl hflag
    · cases hbelow
      exact h.mentioned name value rest hm

/-- **What an accepted command line for a resource gives.** -/
theorem exists_reads (hr : r.Callable) (hc : r.command = .ok command)
    (hd : ∀ sub ∈ command.subcommands, (r.argumentIds sub).Nodup) {called : String}
    {words : List String} {levels : Matches} (h : command.read called words = .ok levels) :
    ∃ top level m inputs, levels = [top, level] ∧ r.Reads words m inputs level := by
  have hread : readWords command.completed called (.between [] none 1 false) words = .ok levels := h
  obtain ⟨more, below, lower, hspells, -, hwhole, rfl, hleaves⟩ :=
    readsAs_of_readWords (plain_of_command hc) words (fun e he => absurd he (Option.not_mem_none e))
      .nil hread
  have hrequired : command.completed.subcommandRequired = true := by
    obtain ⟨_, -, h⟩ := bind_eq_ok_iff.1 hc
    cases h
    rfl
  cases below with
  | none =>
    obtain rfl : lower = [] := hleaves
    rw [(of_wholeFault_eq_none hwhole).1 rfl] at hrequired
    cases hrequired
  | some p =>
    obtain ⟨found, after⟩ := p
    obtain ⟨hhelp, hlower⟩ := hleaves
    obtain ⟨own, rfl, hfound⟩ := hspells.exists_words_of_below
    obtain ⟨-, hhelp' | ⟨sub, hsub, rfl⟩⟩ := cases_of_subcommand? hfound
    · exact absurd hhelp' hhelp
    · obtain ⟨m, inputs, hoffers⟩ := exists_offers hr hc hsub
      obtain ⟨level, rfl, hlevel, hkeeps⟩ := exists_level hoffers hc (hd sub hsub) hlower
      have hname : (sub.inheriting (command.args.filter (·.isGlobal))).name = m.command :=
        show sub.name = m.command from name_of_offers hoffers
      refine ⟨_, level, m, inputs, rfl, hoffers.1, ⟨own, after, by rw [hname]⟩, hlevel,
        hoffers.2.1, ?_, hkeeps.of_below hr hc hoffers (hd sub hsub) hspells⟩
      have hids := hd sub hsub
      rw [argumentIds_of_offers hoffers, List.append_assoc, List.append_assoc] at hids
      exact ((List.nodup_append.1 hids).1).of_append_right

end Resource
end ResourceCli
