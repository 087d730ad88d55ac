import ResourceCli.Proofs.CommandLine.Spelled

/-!
# Which flags a command line gives

The words of a command are read from the left, and what is gathered depends on what was read before.
Which flags they give does not: if the words are read at all, a flag has the values that the words
give it, and every flag that they mention is one of the command.  So the words in front of the name
of a command below give none of the flags that only that command has.

* `Spells.mem_iff_gives`: the flags of the command.
* `Spells.flag_or_below_of_mentions`: no other flag is mentioned.
* `Spells.gives_below_iff`: the flags of a command below.
-/

namespace ResourceCli.CommandLine

theorem long_of_positional? {c : Command} {place : Nat} {a : Arg}
    (h : c.positional? place = some a) : a.long = none := by
  unfold Command.positional? at h
  split at h
  · cases h
  · have hpos := List.of_mem_filter (List.mem_of_getElem? h)
    exact Option.isNone_iff_eq_none.1 (Bool.and_eq_true_iff.1 hpos).1

/-- A value that is there already is not looked for further on. -/
theorem orElse_of_orElse {x y z : Option String} {raw : String} (h : (x <|> y) = some raw) :
    (x <|> y <|> z) = some raw := by
  cases x with
  | some value => exact h
  | none =>
    have hy : y = some raw := h
    rw [hy]
    rfl

namespace Spells

variable {c : Command} {place : Nat} {only : Bool} {words after rest : List String}
  {items : List (Arg × String)} {below : Option (Command × List String)} {name raw : String}
  {value implied : Option String}

/-- Only arguments of the command are spelled. -/
theorem mem_args (h : Spells c place only words items below) : ∀ e ∈ items, e.1 ∈ c.args := by
  induction h with
  | done | command => exact fun e he => absurd he List.not_mem_nil
  | separator _ _ _ ih => exact ih
  | place word a _ hpos _ ih =>
    exact List.forall_mem_cons.2 ⟨mem_of_positional? hpos, ih⟩
  | complete word name value attached a _ hlong _ _ _ ih =>
    exact List.forall_mem_cons.2 ⟨(mem_of_long? hlong).1, ih⟩
  | separate word name value a _ hlong _ _ _ _ ih =>
    exact List.forall_mem_cons.2 ⟨(mem_of_long? hlong).1, ih⟩

/-- A flag in front of other words: it has the value that it is read with. -/
theorem mem_cons_iff_gives {word other given : String} {attached : Option String} {a : Arg}
    (hname : Word.ofText word = .name other attached) (hlong : c.long? other = some a)
    (hvalue : (attached <|> a.impliedValue <|> rest.head?) = some given)
    (ih : (∃ b, (b, raw) ∈ items ∧ b.long = some name) ↔
      ∃ b, c.long? name = some b ∧ Gives rest name b.impliedValue raw) :
    (∃ b, (b, raw) ∈ (a, given) :: items ∧ b.long = some name) ↔
      ∃ b, c.long? name = some b ∧ Gives (word :: rest) name b.impliedValue raw := by
  have hother := (mem_of_long? hlong).2
  constructor
  · rintro ⟨b, hb, hlongb⟩
    rcases List.mem_cons.1 hb with heq | hb
    · obtain ⟨rfl, rfl⟩ := Prod.mk.inj heq
      obtain rfl := Option.some.inj (hother.symm.trans hlongb)
      exact ⟨b, hlong, gives_cons_iff.2 (.inl ⟨attached, hname, hvalue⟩)⟩
    · obtain ⟨b, hb, hgives⟩ := ih.1 ⟨b, hb, hlongb⟩
      exact ⟨b, hb, gives_cons_iff.2 (.inr ⟨ne_separator hname nofun, hgives⟩)⟩
  · rintro ⟨b, hb, hgives⟩
    rcases gives_cons_iff.1 hgives with ⟨attached', hname', hraw⟩ | ⟨-, hgives⟩
    · obtain ⟨rfl, rfl⟩ := Word.name.inj (hname.symm.trans hname')
      obtain rfl := Option.some.inj (hlong.symm.trans hb)
      obtain rfl := Option.some.inj (hvalue.symm.trans hraw)
      exact ⟨a, List.mem_cons_self, hother⟩
    · obtain ⟨b, hb, hlongb⟩ := ih.2 ⟨b, hb, hgives⟩
      exact ⟨b, List.mem_cons_of_mem _ hb, hlongb⟩

/-- **The flags of a command have the values that its words give them.** -/
theorem mem_iff_gives (h : Spells c place only words items none) :
    (∃ a, (a, raw) ∈ items ∧ a.long = some name) ↔
      only = false ∧ ∃ a, c.long? name = some a ∧ Gives words name a.impliedValue raw := by
  generalize hbelow : (none : Option (Command × List String)) = below at h
  -- Behind two hyphens there are no flags on either side, so the statement is carried with `only`.
  induction h with
  | done =>
    refine iff_of_false ?_ ?_
    · rintro ⟨a, ha, -⟩
      exact absurd ha List.not_mem_nil
    · rintro ⟨-, a, -, hgives⟩
      exact not_gives_nil hgives
  | command => cases hbelow
  | separator word hword _ ih =>
    rw [ih hbelow]
    refine iff_of_false (fun he => absurd he.1 (by decide)) ?_
    rintro ⟨-, a, -, value, after, hmentions, -⟩
    exact not_mentions_of_separator hword hmentions
  | @place place only words items below word a hplain hpos _ ih =>
    have hitems : (∃ b, (b, raw) ∈ (a, word) :: items ∧ b.long = some name) ↔
        ∃ b, (b, raw) ∈ items ∧ b.long = some name := by
      constructor
      · rintro ⟨b, hb, hlong⟩
        rcases List.mem_cons.1 hb with heq | hb
        · rw [(Prod.mk.inj heq).1, long_of_positional? hpos] at hlong
          cases hlong
        · exact ⟨b, hb, hlong⟩
      · rintro ⟨b, hb, hlong⟩
        exact ⟨b, List.mem_cons_of_mem _ hb, hlong⟩
    rw [hitems, ih hbelow]
    refine and_congr_right fun honly => exists_congr fun b => and_congr_right fun _ => ?_
    rw [gives_cons_of_plain (hplain.resolve_left (honly ▸ Bool.false_ne_true))]
  | @complete place words items below word other given attached a hname hlong hact hvalue _ ih =>
    rw [eq_self_iff_true, true_and]
    exact mem_cons_iff_gives hname hlong (orElse_of_orElse hvalue)
      ((ih hbelow).trans (and_iff_right rfl))
  | separate word other given a hname hlong hact himplied hplain _ ih =>
    rw [eq_self_iff_true, true_and]
    refine mem_cons_iff_gives hname hlong ?_ ?_
    · rw [himplied]
      rfl
    · refine ((ih hbelow).trans (and_iff_right rfl)).trans ?_
      exact exists_congr fun b => and_congr_right fun _ => (gives_cons_of_plain hplain).symm

/-- **Every flag that is mentioned** is one of the command and has a value, or it is mentioned
behind the name of a command below. -/
theorem flag_or_below_of_mentions (h : Spells c place false words items below)
    (hsubs : ∀ word, (c.subcommand? word).isSome → Word.ofText word = .plain)
    (hm : Mentions words name value rest) :
    (∃ a raw, c.long? name = some a ∧ a.action = .set ∧
      (value <|> a.impliedValue <|> rest.head?) = some raw) ∨
      ∃ sub after, below = some (sub, after) ∧ Mentions after name value rest := by
  generalize honly : false = only at h
  induction h with
  | done => exact absurd hm not_mentions_nil
  | command place word after sub hsub =>
    rw [mentions_cons_of_plain (hsubs word (Option.isSome_iff_exists.2 ⟨sub, hsub⟩))] at hm
    exact .inr ⟨sub, after, rfl, hm⟩
  | separator word hword _ _ => exact absurd hm (not_mentions_of_separator hword)
  | place word a hplain hpos _ ih =>
    subst honly
    rw [mentions_cons_of_plain (hplain.resolve_left Bool.false_ne_true)] at hm
    exact ih hm rfl
  | complete word other given attached a hname hlong hact hvalue _ ih =>
    rcases mentions_cons_iff.1 hm with ⟨hname', -⟩ | ⟨-, hm⟩
    · obtain ⟨rfl, rfl⟩ := Word.name.inj (hname.symm.trans hname')
      exact .inl ⟨a, given, hlong, hact, orElse_of_orElse hvalue⟩
    · exact ih hm rfl
  | separate word other given a hname hlong hact himplied hplain _ ih =>
    rcases mentions_cons_iff.1 hm with ⟨hname', rfl⟩ | ⟨-, hm⟩
    · obtain ⟨rfl, rfl⟩ := Word.name.inj (hname.symm.trans hname')
      refine .inl ⟨a, given, hlong, hact, ?_⟩
      rw [himplied]
      rfl
    · rw [mentions_cons_of_plain hplain] at hm
      exact ih hm rfl

/-- Once only values at places follow, no command below is named. -/
theorem only_of_below {sub : Command} (h : Spells c place only words items (some (sub, after))) :
    only = false := by
  generalize hbelow : some (sub, after) = below at h
  induction h with
  | done => cases hbelow
  | command | separate | complete => rfl
  | separator word _ _ ih => exact absurd (ih hbelow) (by decide)
  | place word a _ _ _ ih => exact ih hbelow

/-- What is mentioned behind the name of a command below is mentioned. -/
theorem mentions_of_below {sub : Command}
    (h : Spells c place only words items (some (sub, after)))
    (hsubs : ∀ word, (c.subcommand? word).isSome → Word.ofText word = .plain)
    (hm : Mentions after name value rest) : Mentions words name value rest := by
  generalize hbelow : some (sub, after) = below at h
  induction h with
  | done => cases hbelow
  | command place word after sub hsub =>
    cases hbelow
    exact (mentions_cons_of_plain (hsubs word (Option.isSome_iff_exists.2 ⟨sub, hsub⟩))).2 hm
  | separator word _ h _ =>
    subst hbelow
    exact absurd (only_of_below h) (by decide)
  | @place place only words items below word a hplain hpos h ih =>
    subst hbelow
    have hword := hplain.resolve_left (only_of_below h ▸ Bool.false_ne_true)
    exact (mentions_cons_of_plain hword).2 (ih rfl)
  | complete word other given attached a hname hlong hact hvalue _ ih =>
    exact mentions_cons_iff.2 (.inr ⟨ne_separator hname nofun, ih hbelow⟩)
  | separate word other given a hname hlong hact himplied hplain _ ih =>
    exact mentions_cons_iff.2
      (.inr ⟨ne_separator hname nofun, (mentions_cons_of_plain hplain).2 (ih hbelow)⟩)

/-- **The flags of a command below** are not given in front of its name. -/
theorem gives_below_iff {sub : Command} (h : Spells c place only words items (some (sub, after)))
    (hsubs : ∀ word, (c.subcommand? word).isSome → Word.ofText word = .plain)
    (hn : c.long? name = none) : Gives words name implied raw ↔ Gives after name implied raw := by
  refine exists_congr fun value => exists_congr fun rest => and_congr_left fun _ =>
    ⟨fun hm => ?_, mentions_of_below h hsubs⟩
  have honly := only_of_below h
  subst honly
  rcases flag_or_below_of_mentions h hsubs hm with ⟨a, raw, ha, -⟩ | ⟨sub', after', heq, hm⟩
  · cases hn.symm.trans ha
  · cases heq
    exact hm

/-- Where a command below is named. -/
theorem exists_words_of_below {sub : Command}
    (h : Spells c place only words items (some (sub, after))) :
    ∃ own, words = own ++ sub.name :: after ∧ c.subcommand? sub.name = some sub := by
  generalize hbelow : some (sub, after) = below at h
  induction h with
  | done => cases hbelow
  | command place word after sub hsub =>
    cases hbelow
    unfold Command.subcommand? at hsub
    have hfound := List.find?_some hsub
    obtain rfl := eq_of_beq hfound
    exact ⟨[], rfl, hsub⟩
  | separator word _ _ ih | place word _ _ _ _ ih | complete word _ _ _ _ _ _ _ _ _ ih =>
    obtain ⟨own, rfl, hsub⟩ := ih hbelow
    exact ⟨word :: own, rfl, hsub⟩
  | separate word _ value _ _ _ _ _ _ _ ih =>
    obtain ⟨own, rfl, hsub⟩ := ih hbelow
    exact ⟨word :: value :: own, rfl, hsub⟩

end Spells

/-! ## Levels -/

section

variable {c : Command} {place : Nat} {words : List String} {items : List (Arg × String)}
  {id name raw command called : String} {a b : Arg}

/-- The value of an argument at a level is the one that it is given with. -/
theorem Accepted.value?_eq_some_iff (ha : Accepted items) :
    (Level.mk command (items.map entry)).value? id = some raw ↔
      ∃ a, (a, raw) ∈ items ∧ a.id = id := by
  have hkeys : (keys (items.map entry)).Nodup := by
    rw [keys_map_entry]
    exact ha.distinct
  unfold Level.value? Level.values?
  rw [Option.bind_eq_some_iff]
  constructor
  · rintro ⟨values, hvalues, hraw⟩
    obtain ⟨⟨a, value⟩, he, heq⟩ := List.mem_map.1 (mem_of_lookup_eq_some hvalues)
    obtain ⟨hid, rfl⟩ := Prod.mk.inj heq
    obtain rfl : value = raw := Option.some.inj hraw
    exact ⟨a, he, hid⟩
  · rintro ⟨a, he, rfl⟩
    exact ⟨[raw], lookup_of_mem hkeys (List.mem_map_of_mem he), rfl⟩

/-- The arguments of a command are kept apart, and a flag is called like the argument. -/
structure Command.Named (c : Command) : Prop where
  /-- No two arguments have the same name. -/
  distinct : (c.args.map Arg.id).Nodup
  /-- A flag has the name of its argument. -/
  eq_id : ∀ a ∈ c.args, ∀ name, a.long = some name → name = a.id

theorem Command.Named.eq_of_id (hn : c.Named) (ha : a ∈ c.args) (hb : b ∈ c.args)
    (h : a.id = b.id) : a = b :=
  List.inj_on_of_nodup_map hn.distinct ha hb h

theorem Command.Named.long? (hn : c.Named) (ha : a ∈ c.args) (hlong : a.long = some name) :
    c.long? name = some a := by
  cases h : c.long? name with
  | none =>
    unfold Command.long? at h
    exact absurd (beq_iff_eq.2 hlong) (List.find?_eq_none.1 h a ha)
  | some b =>
    obtain ⟨hb, hlongb⟩ := mem_of_long? h
    have hid : b.id = a.id := (hn.eq_id b hb name hlongb).symm.trans (hn.eq_id a ha name hlong)
    rw [hn.eq_of_id hb ha hid]

/-- **The value of a flag at a level** is the one that the words give it. -/
theorem Spells.value?_iff_gives (hs : Spells c place false words items none) (hn : c.Named)
    (ha : Accepted items) (hb : b ∈ c.args) (hlong : b.long = some b.id) :
    (Level.mk command (items.map entry)).value? b.id = some raw ↔
      Gives words b.id b.impliedValue raw := by
  have hfound := hn.long? hb hlong
  have hgives : (∃ a, (a, raw) ∈ items ∧ a.long = some b.id) ↔
      false = false ∧ ∃ a, c.long? b.id = some a ∧ Gives words b.id a.impliedValue raw :=
    hs.mem_iff_gives
  rw [ha.value?_eq_some_iff]
  constructor
  · rintro ⟨a, he, hid⟩
    obtain rfl := hn.eq_of_id (hs.mem_args _ he) hb hid
    obtain ⟨-, a', ha', h⟩ := hgives.1 ⟨a, he, hlong⟩
    obtain rfl := Option.some.inj (hfound.symm.trans ha')
    exact h
  · intro h
    obtain ⟨a, he, hlonga⟩ := hgives.2 ⟨rfl, b, hfound, h⟩
    exact ⟨a, he, (hn.eq_id a (hs.mem_args _ he) _ hlonga).symm⟩

/-- What is not at fault as a whole names a command below if one has to be named, and gives every
argument that has to be given. -/
theorem of_wholeFault_eq_none {given : List (String × List String)} {isLast : Bool}
    (h : wholeFault c called given isLast = none) :
    (isLast = true → c.subcommandRequired = false) ∧
      ∀ a ∈ c.args, a.required = true → a.id ∈ keys given := by
  unfold wholeFault at h
  split at h
  · cases h
  · split at h
    · cases h
    · rename_i hsub
      extract_lets ids missing at h
      split at h
      · cases h
      · split at h
        · rename_i hmissing
          refine ⟨fun hlast => ?_, fun a ha hrequired => ?_⟩
          · rw [hlast, Bool.true_and, Bool.not_eq_true] at hsub
            exact hsub
          · have hfree := List.filter_eq_nil_iff.1 (List.isEmpty_iff.1 hmissing) a ha
            rw [hrequired, Bool.true_and, Bool.not_eq_true', Bool.not_eq_false,
              List.contains_eq_mem, decide_eq_true_eq] at hfree
            exact hfree
        · cases h

end

end ResourceCli.CommandLine
