import ResourceCli.Proofs.Call.Command

/-!
# Which arguments of a command share a name

The arguments of a command come from three places: the placeholders of the pattern, shortened by an
`_id` at their end, the properties of the schema, and the program itself, which adds the id, the
option for whole data and the flag for the description.  What is given for an argument is kept under
its name, so two arguments of one name would be mixed up.

Properties whose name is taken are left out, and that keeps them apart from the flags of containing
resources, from the option for whole data and from the flag for the description.  Nothing else is
checked.  `Resource.FlagsApart` lists what is left to ask for, and `Document.nodup_argumentIds_iff`
says that the arguments of a command have distinct names exactly if all of it holds: no two
placeholders give the same flag, no placeholder gives a name of the program's own, and no property
has the name of the id.  `Document.markedBooks_mixed` is a document where a property does.
-/

namespace ResourceCli

open CommandLine

/-! ## Flags of containing resources -/

/-- A placeholder gives its own name as a flag, or it ends with `_id` and gives what is before. -/
theorem parentFlagName_cases (name : String) :
    (parentFlagName name = name ∧ ∀ short, short ≠ "" → name ≠ short ++ "_id") ∨
      (name = parentFlagName name ++ "_id" ∧ parentFlagName name ≠ "") := by
  unfold parentFlagName
  split
  · rename_i hstrip
    refine .inl ⟨rfl, fun short hshort hname => hshort ?_⟩
    rw [Text.stripEnd_eq_some_iff.2 hname] at hstrip
    exact Option.some.inj hstrip
  · rename_i short hne hstrip
    exact .inr ⟨Text.stripEnd_eq_some_iff.1 hstrip, hne⟩
  · rename_i hstrip
    refine .inl ⟨rfl, fun short _ hname => ?_⟩
    rw [Text.stripEnd_eq_some_iff.2 hname] at hstrip
    cases hstrip

theorem parentFlagName_append_id {name : String} (h : name ≠ "") :
    parentFlagName (name ++ "_id") = name := by
  rcases parentFlagName_cases (name ++ "_id") with ⟨-, hlong⟩ | ⟨hname, -⟩
  · exact absurd rfl (hlong name h)
  · exact ((String.append_left_inj _).1 hname).symm

/-- A placeholder gives the flag of another one as it is, but for the `_id` at its end. -/
def Lengthens (name other : String) : Prop :=
  name ≠ "" ∧ parentFlagName name = name ∧ other = name ++ "_id"

/-- Different placeholders give the same flag if they differ by an `_id` at the end. -/
theorem parentFlagName_eq_iff {name other : String} :
    parentFlagName name = parentFlagName other ↔
      name = other ∨ Lengthens name other ∨ Lengthens other name := by
  constructor
  · intro h
    rcases parentFlagName_cases name with ⟨hname, -⟩ | ⟨hname, hne⟩ <;>
      rcases parentFlagName_cases other with ⟨hother, -⟩ | ⟨hother, hne'⟩
    · exact .inl (hname.symm.trans (h.trans hother))
    · refine .inr (.inl ⟨?_, hname, ?_⟩)
      · rwa [← hname, h]
      · rwa [← h, hname] at hother
    · refine .inr (.inr ⟨?_, hother, ?_⟩)
      · rwa [← hother, ← h]
      · rwa [h, hother] at hname
    · left
      rw [hname, hother, h]
  · rintro (rfl | ⟨hne, hname, rfl⟩ | ⟨hne, hname, rfl⟩)
    · rfl
    · rw [hname, parentFlagName_append_id hne]
    · rw [hname, parentFlagName_append_id hne]

/-- Placeholders give distinct flags if they are distinct also without an `_id` at their end. -/
theorem nodup_map_parentFlagName_iff {names : List String} :
    (names.map parentFlagName).Nodup ↔
      names.Nodup ∧ ∀ name ∈ names, ∀ other ∈ names, ¬ Lengthens name other := by
  constructor
  · intro h
    refine ⟨h.of_map _, fun name hname other hother hlonger => ?_⟩
    have heq := List.inj_on_of_nodup_map h hname hother
      (parentFlagName_eq_iff.2 (.inr (.inl hlonger)))
    have hlength := congrArg String.length (heq.trans hlonger.2.2)
    rw [String.length_append] at hlength
    exact absurd hlength (Nat.ne_of_lt (Nat.lt_add_of_pos_right (by decide)))
  · rintro ⟨hn, hapart⟩
    refine hn.map_on fun name hname other hother h => ?_
    rcases parentFlagName_eq_iff.1 h with h | h | h
    · exact h
    · exact absurd h (hapart name hname other hother)
    · exact absurd h (hapart other hother name hname)

namespace Resource

variable {r : Resource} {m : Method} {inputs : List FieldInput} {sub : Command}

/-! ## Names of arguments -/

/-- The names of all arguments of a command below the command of a resource: its own, the flags of
containing resources, and the flag for its description. -/
def argumentIds (r : Resource) (sub : Command) : List String :=
  sub.args.map Arg.id ++ r.parentFlags ++ ["help"]

theorem argumentIds_of_offers (h : r.Offers sub m inputs) : r.argumentIds sub =
    ((if r.needsId m then [idArg] else []) ++ inputs.map FieldInput.name ++
      if r.acceptsPayload m then [dataFlag] else []) ++ r.parentFlags ++ ["help"] := by
  obtain ⟨-, -, about, rfl⟩ := h
  have hfields : (inputs.map fieldArg).map Arg.id = inputs.map FieldInput.name := by
    rw [List.map_map]
    rfl
  have hids : ((methodCommand m about (r.argsOf m inputs)).args).map Arg.id =
      (r.argsOf m inputs).map Arg.id := map_id_numberedFrom 0 _
  rw [argumentIds, hids, argsOf, List.map_append, List.map_append, hfields]
  cases r.needsId m <;> cases r.acceptsPayload m <;> rfl

/-- What keeps the arguments of the command for a method apart, besides that properties whose names
are taken are left out. -/
structure FlagsApart (r : Resource) (m : Method) : Prop where
  /-- No placeholder comes twice. -/
  placeholders : r.parentPlaceholders.Nodup
  /-- No placeholder comes a second time with an `_id` at its end. -/
  lengthened : ∀ name ∈ r.parentPlaceholders, ∀ other ∈ r.parentPlaceholders,
    ¬ Lengthens name other
  /-- No containing resource has the flag for the description. -/
  help : "help" ∉ r.parentFlags
  /-- No containing resource has the option for whole data, if there is one. -/
  data : r.acceptsPayload m = true → dataFlag ∉ r.parentFlags
  /-- No containing resource has the name of the id, if there is one. -/
  id : r.needsId m = true → idArg ∉ r.parentFlags
  /-- No property that a client may set has the name of the id, if there is one. -/
  property : r.needsId m = true → ∀ s ∈ r.payloadSchema? m, ∀ property,
    ¬ s.Writable idArg property

/-- Names that are not taken come together with the other arguments. -/
theorem nodup_ids_iff {names flags : List String} (hn : names.Nodup)
    (hfree : ∀ name ∈ names, name ∉ reservedFlags ∧ name ∉ flags) (needsId accepts : Bool) :
    (((if needsId then [idArg] else []) ++ names ++ if accepts then [dataFlag] else []) ++ flags ++
      ["help"]).Nodup ↔ flags.Nodup ∧ "help" ∉ flags ∧ (accepts = true → dataFlag ∉ flags) ∧
        (needsId = true → idArg ∉ flags ∧ idArg ∉ names) := by
  have hhelp : "help" ∉ names := fun h => (hfree _ h).1 (by decide)
  have hdata : dataFlag ∉ names := fun h => (hfree _ h).1 (by decide)
  have hflags : ∀ name ∈ names, ∀ flag ∈ flags, name ≠ flag := by
    rintro name hname _ hflag rfl
    exact (hfree name hname).2 hflag
  obtain ⟨hid, hid', hdata'⟩ : idArg ≠ dataFlag ∧ idArg ≠ "help" ∧ dataFlag ≠ "help" := by decide
  -- Distinctness of the whole is distinctness of the blocks, and that any two of them are apart.
  cases needsId <;> cases accepts <;>
    simp only [List.nodup_append, List.nodup_singleton, List.nodup_nil, List.mem_append,
      List.mem_singleton, List.not_mem_nil, if_true, if_false, Bool.false_eq_true] <;>
    grind

theorem nodup_map_name_inputsOf (h : r.inputsOf m = .ok inputs)
    (hk : ∀ s ∈ r.payloadSchema? m, (keys s.properties).Nodup) :
    (inputs.map FieldInput.name).Nodup := by
  unfold inputsOf at h
  cases hs : r.payloadSchema? m with
  | none =>
    rw [hs] at h
    cases h
    exact List.nodup_nil
  | some s =>
    rw [hs] at h
    rw [map_name_bindableInputs h]
    exact ((hk s hs).sublist (List.filter_sublist.map Prod.fst)).filter _

/-- The inputs of a method include a name that is not taken if a client may set it. -/
theorem mem_map_name_inputsOf_iff (h : r.inputsOf m = .ok inputs) {name : String}
    (ht : r.isTaken name = false) : name ∈ inputs.map FieldInput.name ↔
      ∃ s ∈ r.payloadSchema? m, ∃ property, s.Writable name property := by
  rw [List.mem_map]
  constructor
  · rintro ⟨input, hinput, rfl⟩
    obtain ⟨s, hs, -, property, hw, -⟩ := (mem_inputsOf_iff h).1 hinput
    exact ⟨s, hs, property, hw⟩
  · rintro ⟨s, hs, property, hw⟩
    have hbound : r.bindableInputs s = .ok inputs := by
      rw [inputsOf, Option.mem_def.1 hs] at h
      exact h
    obtain ⟨input, hinput, hname, -⟩ := exists_input_of_writable hbound hw ht
    exact ⟨input, hinput, hname⟩

/-- **When the arguments of a command have distinct names.** -/
theorem nodup_argumentIds_iff_of_offers (h : r.Offers sub m inputs)
    (hk : ∀ s ∈ r.payloadSchema? m, (keys s.properties).Nodup) :
    (r.argumentIds sub).Nodup ↔ r.FlagsApart m := by
  have hnames := nodup_map_name_inputsOf h.2.1 hk
  have hproperty : idArg ∉ r.parentFlags → (idArg ∉ inputs.map FieldInput.name ↔
      ∀ s ∈ r.payloadSchema? m, ∀ property, ¬ s.Writable idArg property) := by
    intro hfree
    rw [mem_map_name_inputsOf_iff h.2.1 (isTaken_eq_false_iff.2 ⟨by decide, hfree⟩)]
    simp only [not_exists, not_and]
  have hfree : ∀ name ∈ inputs.map FieldInput.name,
      name ∉ reservedFlags ∧ name ∉ r.parentFlags := by
    intro name hname
    obtain ⟨input, hinput, rfl⟩ := List.mem_map.1 hname
    exact isTaken_of_mem_inputsOf h.2.1 hinput
  rw [argumentIds_of_offers h, nodup_ids_iff hnames hfree, parentFlags,
    nodup_map_parentFlagName_iff]
  constructor
  · rintro ⟨⟨hn, hlengthened⟩, hhelp, hdata, hid⟩
    exact ⟨hn, hlengthened, hhelp, hdata, fun hneeds => (hid hneeds).1,
      fun hneeds => (hproperty (hid hneeds).1).1 (hid hneeds).2⟩
  · intro h
    exact ⟨⟨h.placeholders, h.lengthened⟩, h.help, h.data, fun hneeds =>
      ⟨h.id hneeds, (hproperty (h.id hneeds)).2 (h.property hneeds)⟩⟩

/-- The schema whose properties are inputs of a supported method is one of those whose properties
become options. -/
theorem mem_optionSchemas (hs : r.Supports m) {s : Schema} (h : s ∈ r.payloadSchema? m) :
    s ∈ r.optionSchemas := by
  unfold optionSchemas
  rw [List.mem_append, List.mem_append]
  cases m with
  | create =>
    cases h
    rw [if_pos (Option.isSome_iff_ne_none.2 hs)]
    exact .inl (.inl List.mem_cons_self)
  | update =>
    cases h
    rw [if_pos (show r.methods.update = true from hs)]
    exact .inl (.inr List.mem_cons_self)
  | custom name =>
    obtain ⟨c, hc, hrequest⟩ := Option.bind_eq_some_iff.1 h
    obtain ⟨hfound, hpost⟩ := Option.filter_eq_some_iff.1 hc
    refine .inr (List.mem_filterMap.2 ⟨c, List.mem_of_find?_eq_some hfound, ?_⟩)
    rw [if_pos hpost]
    exact hrequest
  | get => cases h
  | delete => cases h
  | list => cases h

/-- The names of the properties that become options of the command of a resource, and of the
arguments of the commands below it. -/
def commandIds (r : Resource) : Option (List (List String) × List (List String)) :=
  r.command.toOption.map fun command =>
    (r.optionSchemas.map fun s => keys s.properties, command.subcommands.map r.argumentIds)

end Resource

namespace Document

variable {doc : Document} {given : Option String} {start : String} {g : ResourceGraph}
  {r : Resource} {command sub : Command}

/-- **When the flags of a command never collide.**  Every command below the command of a resource is
the one for a method that the resource supports, and its arguments have distinct names exactly if no
two placeholders give the same flag, no placeholder gives a name that the program uses itself, and
no property has the name of the id. -/
theorem nodup_argumentIds_iff (h : doc.resources given start = .ok g) (hr : r ∈ g.resources)
    (hc : r.command = .ok command) (hs : sub ∈ command.subcommands)
    (hk : ∀ s ∈ r.optionSchemas, (keys s.properties).Nodup) :
    ∃ m, r.Supports m ∧ sub.name = m.command ∧
      ((r.argumentIds sub).Nodup ↔ r.FlagsApart m) := by
  obtain ⟨m, inputs, hoffers⟩ := Resource.exists_offers (callable h hr) hc hs
  exact ⟨m, hoffers.1, Resource.name_of_offers hoffers,
    Resource.nodup_argumentIds_iff_of_offers hoffers fun s hs' =>
      hk s (Resource.mem_optionSchemas hoffers.1 hs')⟩

/-- A document with the books of a publisher, whose properties can be changed. -/
def changedBooks (properties : List (String × Schema)) : Document where
  openapi := some "3.1.0"
  servers := [{ url := "http://localhost" }]
  paths := [("/publishers/{publisher}/books/{book}", {
    patch := some { responses := answering (.refTo "#/components/schemas/Book") } })]
  components := [("Book", { Schema.typed "object" with properties := properties })]

theorem exists_of_commandIds {names : List (List String)} {ids : List String}
    (h : (doc.resources none "").toOption.map (fun g => g.resources[0]?.bind Resource.commandIds) =
      some (some (names, [ids]))) :
    ∃ g r command sub, doc.resources none "" = .ok g ∧ r ∈ g.resources ∧ r.command = .ok command ∧
      sub ∈ command.subcommands ∧ r.argumentIds sub = ids ∧
      r.optionSchemas.map (fun s => keys s.properties) = names := by
  obtain ⟨g, hg, h⟩ := exists_ok_of_map_toOption h
  obtain ⟨r, hr, h⟩ := Option.bind_eq_some_iff.1 h
  obtain ⟨command, hcommand, h⟩ := Option.map_eq_some_iff.1 h
  obtain ⟨hnames, hids⟩ := Prod.mk.inj h
  obtain ⟨sub, hsub, hargs⟩ := List.mem_map.1 (hids ▸ List.mem_cons_self : ids ∈ _)
  exact ⟨g, r, command, sub, hg, List.mem_of_getElem? hr, toOption_eq_some_iff.1 hcommand, hsub,
    hargs, hnames⟩

/-- The arguments of the command that changes a book are kept apart if the book has a title. -/
theorem titledBooks_apart : ∃ g r command sub,
    (changedBooks [("title", .typed "string")]).resources none "" = .ok g ∧ r ∈ g.resources ∧
      r.command = .ok command ∧ sub ∈ command.subcommands ∧
      r.argumentIds sub = ["@id", "title", "@data", "publisher", "help"] ∧
      ∃ m, sub.name = m.command ∧ r.FlagsApart m := by
  obtain ⟨g, r, command, sub, hg, hr, hcommand, hsub, hids, hnames⟩ := exists_of_commandIds
    (show ((changedBooks [("title", .typed "string")]).resources none "").toOption.map _ =
      some (some ([["title"]], [["@id", "title", "@data", "publisher", "help"]])) by decide +kernel)
  have hk : ∀ s ∈ r.optionSchemas, (keys s.properties).Nodup := by
    intro s hs
    have hkeys := List.mem_map_of_mem (f := fun s : Schema => keys s.properties) hs
    rw [hnames, List.mem_singleton] at hkeys
    rw [hkeys]
    decide
  obtain ⟨m, -, hname, hapart⟩ := nodup_argumentIds_iff hg hr hcommand hsub hk
  refine ⟨g, r, command, sub, hg, hr, hcommand, hsub, hids, m, hname, hapart.1 ?_⟩
  rw [hids]
  decide

/-- They are not if a property of the book has the name of the id: then the id and the property are
kept under one name. -/
theorem markedBooks_mixed : ∃ g r command sub,
    (changedBooks [("@id", .typed "string")]).resources none "" = .ok g ∧ r ∈ g.resources ∧
      r.command = .ok command ∧ sub ∈ command.subcommands ∧
      r.argumentIds sub = ["@id", "@id", "@data", "publisher", "help"] ∧
      ¬ (r.argumentIds sub).Nodup := by
  obtain ⟨g, r, command, sub, hg, hr, hcommand, hsub, hids, -⟩ := exists_of_commandIds
    (show ((changedBooks [("@id", .typed "string")]).resources none "").toOption.map _ =
      some (some ([["@id"]], [["@id", "@id", "@data", "publisher", "help"]])) by decide +kernel)
  refine ⟨g, r, command, sub, hg, hr, hcommand, hsub, hids, ?_⟩
  rw [hids]
  decide

end Document
end ResourceCli
