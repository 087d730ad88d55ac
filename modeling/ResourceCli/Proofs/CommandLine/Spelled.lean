import ResourceCli.Proofs.Call.Request
import ResourceCli.Proofs.CommandLine.Words
import ResourceCli.Proofs.Table

/-!
# What the words of a command spell

Words are read one by one, and what a word is depends on what was read before it.  For commands
whose arguments keep one value each (`Command.Plain`) the words that can be read have a simple
grammar (`Spells`): values at places, flags that are complete with their word, and flags whose value
is the next word, up to the end or to the name of a command below.

Between two arguments the reader holds the arguments that are accepted, and perhaps a last one that
is not yet (`Progress.between`); inside an argument it waits for the value (`Progress.within`).
`readWord_between` and `readWord_within` say what one word does there, and no later proof opens the
reader.  `readsAs_of_readWords` puts the words together: if they are read, they spell arguments with
values, and these are what is kept.
-/

namespace ResourceCli.CommandLine

/-- An argument of a simple kind: it keeps one value or asks for the description, with a letter it
does the latter, and it takes neither words with a hyphen nor all words that follow. -/
structure Arg.Plain (a : Arg) : Prop where
  /-- What it does. -/
  acts : a.action = .set ∨ a.action = .help
  /-- What it does if it has a letter. -/
  lettered : a.short ≠ none → a.action = .help
  /-- Its value starts with no hyphen. -/
  unhyphened : a.hyphenValues = false
  /-- It does not take all words that follow. -/
  untrailing : a.trailing = false

/-- A command with arguments of a simple kind. -/
def Command.Plain (c : Command) : Prop := ∀ a ∈ c.args, a.Plain

/-- What is kept of an argument with a value. -/
def entry (e : Arg × String) : String × List String := (e.1.id, [e.2])

/-- Arguments with values that can be given together. -/
structure Accepted (items : List (Arg × String)) : Prop where
  /-- No argument is given twice. -/
  distinct : (items.map fun e => e.1.id).Nodup
  /-- No value is at fault. -/
  passing : ∀ e ∈ items, e.1.faultOf e.2 = none

theorem Accepted.nil : Accepted [] where
  distinct := List.nodup_nil
  passing _ he := absurd he List.not_mem_nil

/-- How far the words are read between two arguments; the value of the last one is not accepted
yet. -/
def Progress.between (items : List (Arg × String)) (last : Option (Arg × String)) (place : Nat)
    (only : Bool) : Progress where
  given := items.map entry
  pending := last.map fun e => ⟨e.1, [e.2]⟩
  place := place
  placesOnly := only

/-- How far the words are read before the value of an argument. -/
def Progress.within (items : List (Arg × String)) (a : Arg) (place : Nat) (only : Bool) :
    Progress where
  given := items.map entry
  pending := some { arg := a }
  expecting := .value a
  place := place
  placesOnly := only

variable {c : Command} {called : String} {items : List (Arg × String)}
  {last : Option (Arg × String)} {a : Arg} {place : Nat} {only full : Bool} {p p' : Progress}
  {values : List String} {value word : String}

/-! ## Accepting -/

theorem keys_map_entry (items : List (Arg × String)) :
    keys (items.map entry) = items.map fun e => e.1.id := by
  rw [keys, List.map_map]
  rfl

theorem acceptOnce_eq_ok_iff {given given' : List (String × List String)} :
    acceptOnce c called a values given = .ok given' ↔
      a.id ∉ keys given ∧ given' = given ++ [(a.id, values)] := by
  unfold acceptOnce
  rw [← lookup_eq_none_iff]
  cases given.lookup a.id with
  | none => exact ⟨fun h => ⟨rfl, (Except.ok.inj h).symm⟩, fun h => congrArg Except.ok h.2.symm⟩
  | some old => exact ⟨nofun, nofun⟩

theorem checkedValues_eq_ok_iff {values' : List String} :
    checkedValues a [value] = .ok values' ↔ a.faultOf value = none ∧ values' = [value] := by
  unfold checkedValues
  rw [List.findSome?_singleton]
  cases a.faultOf value with
  | none => exact ⟨fun h => ⟨rfl, (Except.ok.inj h).symm⟩, fun h => congrArg Except.ok h.2.symm⟩
  | some fault => exact ⟨nofun, nofun⟩

theorem not_accept_of_help {given given' : List (String × List String)} (h : a.action = .help) :
    accept c called full a values given ≠ .ok given' := by
  unfold accept
  rw [h]
  nofun

/-- An argument that is accepted with one value was not given before, and the value passes. -/
theorem accept_eq_ok {given : List (String × List String)}
    (hact : a.action = .set ∨ a.action = .help) (hv : a.valuesOf values = some [value])
    (ha : Accepted items) (h : accept c called full a values (items.map entry) = .ok given) :
    given = (items ++ [(a, value)]).map entry ∧ Accepted (items ++ [(a, value)]) := by
  rcases hact with hact | hact
  · unfold accept at h
    rw [hact] at h
    simp only [hv] at h
    obtain ⟨given', hgiven, h⟩ := bind_eq_ok_iff.1 h
    obtain ⟨_, hchecked, h⟩ := bind_eq_ok_iff.1 h
    cases h
    obtain ⟨hnew, rfl⟩ := acceptOnce_eq_ok_iff.1 hgiven
    obtain ⟨hpasses, -⟩ := checkedValues_eq_ok_iff.1 hchecked
    rw [keys_map_entry] at hnew
    refine ⟨by rw [List.map_append]; rfl, ⟨?_, ?_⟩⟩
    · rw [List.map_append, List.map_singleton, List.nodup_append]
      refine ⟨ha.distinct, List.nodup_singleton _, ?_⟩
      rintro id hid _ hlast rfl
      exact hnew (List.mem_singleton.1 hlast ▸ hid)
    · intro e he
      rcases List.mem_append.1 he with he | he
      · exact ha.passing e he
      · rw [List.mem_singleton.1 he]
        exact hpasses
  · exact absurd h (not_accept_of_help hact)

theorem settle_between (hc : c.Plain) (hl : ∀ e ∈ last, e.1 ∈ c.args) (ha : Accepted items)
    (h : settle c called (.between items last place only) = .ok p) :
    p = .between (items ++ last.toList) none place only ∧ Accepted (items ++ last.toList) := by
  cases last with
  | none =>
    cases h
    rw [Option.toList_none, List.append_nil]
    exact ⟨rfl, ha⟩
  | some e =>
    obtain ⟨given, hgiven, h⟩ := bind_eq_ok_iff.1 h
    cases h
    obtain ⟨rfl, ha⟩ := accept_eq_ok (hc _ (hl e rfl)).acts rfl ha hgiven
    exact ⟨rfl, ha⟩

/-- While an argument waits for its value nothing else is accepted. -/
theorem not_settle_within (hact : a.action = .set) (hi : a.impliedValue = none) :
    settle c called (.within items a place only) ≠ .ok p := by
  have hvalues : a.valuesOf [] = none := by
    unfold Arg.valuesOf
    rw [hi]
  have haccept : ∃ stop, accept c called true a [] (items.map entry) = .error stop := by
    unfold accept
    rw [hact]
    simp only [hvalues]
    exact ⟨_, rfl⟩
  obtain ⟨stop, hstop⟩ := haccept
  intro h
  obtain ⟨given, hgiven, -⟩ := bind_eq_ok_iff.1 h
  cases hstop.symm.trans hgiven

theorem take_between (hc : c.Plain) (hl : ∀ e ∈ last, e.1 ∈ c.args) (ha : Accepted items)
    (hact : a.action = .set ∨ a.action = .help) (hv : a.valuesOf values = some [value])
    (h : take c called full a values (.between items last place only) = .ok p) :
    p = .between (items ++ last.toList ++ [(a, value)]) none place only ∧
      Accepted (items ++ last.toList ++ [(a, value)]) := by
  obtain ⟨settled, hsettled, h⟩ := bind_eq_ok_iff.1 h
  obtain ⟨rfl, ha⟩ := settle_between hc hl ha hsettled
  obtain ⟨given, hgiven, h⟩ := bind_eq_ok_iff.1 h
  cases h
  obtain ⟨rfl, ha⟩ := accept_eq_ok hact hv ha hgiven
  exact ⟨rfl, ha⟩

/-- The description takes the place of what is given. -/
theorem not_take_of_help (h : a.action = .help) : take c called full a values p ≠ .ok p' := by
  intro htake
  obtain ⟨_, -, htake⟩ := bind_eq_ok_iff.1 htake
  obtain ⟨_, haccept, -⟩ := bind_eq_ok_iff.1 htake
  exact not_accept_of_help h haccept

/-! ## Reading a word -/

/-- What a word does between two arguments. -/
inductive Step (c : Command) (items : List (Arg × String)) (last : Option (Arg × String))
    (place : Nat) (word : String) : (only : Bool) → Progress → Prop
  /-- It is the value of the argument at the next place. -/
  | place (only : Bool) (a : Arg) : only = true ∨ Word.ofText word = .plain →
      c.positional? place = some a → Accepted (items ++ last.toList) →
      Step c items last place word only
        (.between (items ++ last.toList) (some (a, word)) (place + 1) only)
  /-- It says that only values at places follow. -/
  | separator : Word.ofText word = .separator →
      Step c items last place word false (.between items last place true)
  /-- It is an argument that is complete with it. -/
  | complete (name value : String) (attached : Option String) (a : Arg) :
      Word.ofText word = .name name attached → c.long? name = some a → a.action = .set →
      (attached <|> a.impliedValue) = some value →
      Accepted (items ++ last.toList ++ [(a, value)]) →
      Step c items last place word false
        (.between (items ++ last.toList ++ [(a, value)]) none place false)
  /-- It is an argument whose value has to follow. -/
  | opening (name : String) (a : Arg) : Word.ofText word = .name name none →
      c.long? name = some a → a.action = .set → a.impliedValue = none →
      Accepted (items ++ last.toList) →
      Step c items last place word false (.within (items ++ last.toList) a place false)

theorem mem_of_positional? (h : c.positional? place = some a) : a ∈ c.args := by
  unfold Command.positional? at h
  split at h
  · cases h
  · exact List.mem_of_mem_filter (List.mem_of_getElem? h)

theorem mem_of_long? {name : String} (h : c.long? name = some a) :
    a ∈ c.args ∧ a.long = some name := by
  unfold Command.long? at h
  have hfound := List.find?_some h
  exact ⟨List.mem_of_find?_eq_some h, eq_of_beq hfound⟩

theorem Command.Plain.placeTakesHyphens (hc : c.Plain) (p : Progress) :
    placeTakesHyphens c p = false := by
  unfold CommandLine.placeTakesHyphens
  cases hpos : c.positional? p.place with
  | none => rfl
  | some a => exact (hc a (mem_of_positional? hpos)).unhyphened

/-- A value at a place waits until what comes before it is accepted. -/
theorem readPlace_eq_ok (hc : c.Plain) (h : readPlace c called p word = .ok p') :
    ∃ a settled, c.positional? p.place = some a ∧ settle c called p = .ok settled ∧
      p' = { settled with
        pending := some ⟨a, (settled.pending.map Pending.values).getD [] ++ [word]⟩
        place := settled.place + 1
        expecting := .nothing } := by
  unfold readPlace at h
  cases hpos : c.positional? p.place with
  | none =>
    rw [hpos] at h
    cases h
  | some a =>
    have ha := mem_of_positional? hpos
    have hmany : (a.action == .append) = false := by
      rcases (hc a ha).acts with hact | hact <;> rw [hact] <;> rfl
    rw [hpos] at h
    simp only [hmany, Bool.false_and, Bool.false_eq_true, if_false] at h
    obtain ⟨settled, hsettled, h⟩ := bind_eq_ok_iff.1 h
    cases h
    rw [(hc a ha).untrailing, Bool.or_false]
    exact ⟨a, settled, rfl, hsettled, rfl⟩

theorem readPlace_between (hc : c.Plain) (hl : ∀ e ∈ last, e.1 ∈ c.args) (ha : Accepted items)
    (hword : only = true ∨ Word.ofText word = .plain)
    (h : readPlace c called (.between items last place only) word = .ok p) :
    Step c items last place word only p := by
  obtain ⟨a, settled, hpos, hsettled, rfl⟩ := readPlace_eq_ok hc h
  obtain ⟨rfl, ha⟩ := settle_between hc hl ha hsettled
  exact .place only a hword hpos ha

theorem readName_between (hc : c.Plain) (hl : ∀ e ∈ last, e.1 ∈ c.args) (ha : Accepted items)
    {name : String} {attached : Option String} (hword : Word.ofText word = .name name attached)
    (h : readName c called (.between items last place false) word name attached = .ok p) :
    Step c items last place word false p := by
  unfold readName at h
  cases hlong : c.long? name with
  | none =>
    rw [hlong, hc.placeTakesHyphens] at h
    cases h
  | some a =>
    rw [hlong] at h
    have hact := (hc a (mem_of_long? hlong).1).acts
    cases hact with
    | inl hset =>
      have htakes : a.takesValue = true := by
        rw [Arg.takesValue, hset]
        rfl
      cases attached with
      | some value =>
        simp only [htakes] at h
        obtain ⟨rfl, ha⟩ := take_between hc hl ha (.inl hset) rfl h
        exact .complete name value (some value) a hword hlong hset rfl ha
      | none =>
        simp only [htakes] at h
        unfold await at h
        cases himplied : a.impliedValue with
        | some value =>
          rw [himplied, Option.isSome_some, if_pos rfl] at h
          have hv : a.valuesOf [] = some [value] := by
            unfold Arg.valuesOf
            rw [himplied]
          obtain ⟨rfl, ha⟩ := take_between hc hl ha (.inl hset) hv h
          exact .complete name value none a hword hlong hset himplied ha
        | none =>
          rw [himplied, Option.isSome_none, if_neg Bool.false_ne_true] at h
          obtain ⟨settled, hsettled, h⟩ := bind_eq_ok_iff.1 h
          cases h
          obtain ⟨rfl, ha⟩ := settle_between hc hl ha hsettled
          exact .opening name a hword hlong hset himplied ha
    | inr hhelp =>
      have htakes : a.takesValue = false := by
        rw [Arg.takesValue, hhelp]
        rfl
      cases attached with
      | some value =>
        simp only [htakes] at h
        cases h
      | none =>
        simp only [htakes] at h
        exact absurd h (not_take_of_help hhelp)

/-- Letters only ask for the description. -/
theorem not_readLetters (hc : c.Plain) {letters : List Char} (hne : letters ≠ []) :
    readLetters c called p letters ≠ .ok p' := by
  intro h
  cases letters with
  | nil => exact hne rfl
  | cons letter rest =>
    rw [readLetters] at h
    cases hshort : c.short? letter with
    | none =>
      rw [hshort] at h
      cases h
    | some a =>
      have hhelp : a.action = .help := by
        refine (hc a (List.mem_of_find?_eq_some hshort)).lettered fun hnone => ?_
        have hfound := List.find?_some hshort
        rw [hnone] at hfound
        cases hfound
      have htakes : a.takesValue = false := by
        rw [Arg.takesValue, hhelp]
        rfl
      simp only [hshort, htakes, Bool.false_eq_true, if_false] at h
      obtain ⟨_, htake, -⟩ := bind_eq_ok_iff.1 h
      exact not_take_of_help hhelp htake

/-- **What a word does between two arguments.** -/
theorem readWord_between (hc : c.Plain) (hl : ∀ e ∈ last, e.1 ∈ c.args) (ha : Accepted items)
    (h : readWord c called (.between items last place only) word = .ok p) :
    Step c items last place word only p := by
  unfold readWord at h
  cases only with
  | true => exact readPlace_between hc hl ha (.inl rfl) h
  | false =>
    cases hword : Word.ofText word with
    | plain =>
      rw [hword] at h
      exact readPlace_between hc hl ha (.inr hword) h
    | separator =>
      rw [hword] at h
      cases h
      exact .separator hword
    | name name attached =>
      rw [hword] at h
      exact readName_between hc hl ha hword h
    | letters letters =>
      rw [hword, hc.placeTakesHyphens] at h
      exact absurd h (not_readLetters hc (ne_nil_of_letters hword))

/-- No other argument is read while an argument waits for its value. -/
theorem not_readName_within (hc : c.Plain) (hact : a.action = .set) (hi : a.impliedValue = none)
    {name : String} {attached : Option String} :
    readName c called (.within items a place only) word name attached ≠ .ok p := by
  intro h
  have hsettle : ∀ p', settle c called (.within items a place only) ≠ .ok p' := fun _ =>
    not_settle_within hact hi
  have htake : ∀ b values full p',
      take c called full b values (.within items a place only) ≠ .ok p' := by
    intro b values full p' h
    obtain ⟨settled, hsettled, -⟩ := bind_eq_ok_iff.1 h
    exact hsettle settled hsettled
  unfold readName at h
  split at h
  · rename_i b _
    split at h
    · exact htake _ _ _ _ h
    · unfold await at h
      split at h
      · exact htake _ _ _ _ h
      · obtain ⟨settled, hsettled, -⟩ := bind_eq_ok_iff.1 h
        exact hsettle settled hsettled
    · exact htake _ _ _ _ h
    · cases h
  · rw [hc.placeTakesHyphens] at h
    cases h

/-- The word behind an argument whose value has to follow is that value, or two hyphens. -/
theorem readWord_within (hc : c.Plain) (hm : a ∈ c.args) (hact : a.action = .set)
    (hi : a.impliedValue = none)
    (h : readWord c called (.within items a place false) word = .ok p) :
    (Word.ofText word = .plain ∧ p = .between items (some (a, word)) place false) ∨
      p = .within items a place true := by
  have hhyphens : (Progress.within items a place false).expecting.takesHyphens = false :=
    (hc a hm).unhyphened
  unfold readWord at h
  rw [hhyphens, hc.placeTakesHyphens] at h
  cases hword : Word.ofText word with
  | plain =>
    rw [hword] at h
    cases h
    exact .inl ⟨rfl, rfl⟩
  | separator =>
    rw [hword] at h
    cases h
    exact .inr rfl
  | name name attached =>
    rw [hword] at h
    exact absurd h (not_readName_within hc hact hi)
  | letters letters =>
    rw [hword] at h
    exact absurd h (not_readLetters hc (ne_nil_of_letters hword))

/-! ## Reading words -/

/-- The words of a command: arguments with their values, up to the end or to the name of a command
below, for which the words behind it are left. -/
inductive Spells (c : Command) : (place : Nat) → (only : Bool) → (words : List String) →
    (items : List (Arg × String)) → (below : Option (Command × List String)) → Prop
  /-- The words are over. -/
  | done (place : Nat) (only : Bool) : Spells c place only [] [] none
  /-- A word names a command below. -/
  | command (place : Nat) (word : String) (after : List String) (sub : Command) :
      c.subcommand? word = some sub → Spells c place false (word :: after) [] (some (sub, after))
  /-- Two hyphens say that only values at places follow. -/
  | separator {place : Nat} {words : List String} {items : List (Arg × String)}
      {below : Option (Command × List String)} (word : String) :
      Word.ofText word = .separator → Spells c place true words items below →
      Spells c place false (word :: words) items below
  /-- A value stands at a place. -/
  | place {place : Nat} {only : Bool} {words : List String} {items : List (Arg × String)}
      {below : Option (Command × List String)} (word : String) (a : Arg) :
      only = true ∨ Word.ofText word = .plain → c.positional? place = some a →
      Spells c (place + 1) only words items below →
      Spells c place only (word :: words) ((a, word) :: items) below
  /-- An argument is complete with its word. -/
  | complete {place : Nat} {words : List String} {items : List (Arg × String)}
      {below : Option (Command × List String)} (word name value : String)
      (attached : Option String) (a : Arg) :
      Word.ofText word = .name name attached → c.long? name = some a → a.action = .set →
      (attached <|> a.impliedValue) = some value → Spells c place false words items below →
      Spells c place false (word :: words) ((a, value) :: items) below
  /-- The value of an argument is the next word. -/
  | separate {place : Nat} {words : List String} {items : List (Arg × String)}
      {below : Option (Command × List String)} (word name value : String) (a : Arg) :
      Word.ofText word = .name name none → c.long? name = some a → a.action = .set →
      a.impliedValue = none → Word.ofText value = .plain → Spells c place false words items below →
      Spells c place false (word :: value :: words) ((a, value) :: items) below

/-- What is left to read behind the words of a command gives these levels. -/
def Leaves (called : String) (below : Option (Command × List String)) (levels : Matches) : Prop :=
  match below with
  | none => levels = []
  | some (sub, after) => sub.name ≠ Command.helpCommand.name ∧
      readWords sub.completed (called ++ " " ++ sub.name) {} after = .ok levels

/-- Behind the arguments given before, the words of a command spell further ones that can be given
together with them.  All of them are kept in their order and are not at fault as a whole, and what
is left behind the words is read by the command below. -/
def ReadsAs (c : Command) (called : String) (before : List (Arg × String)) (place : Nat)
    (only : Bool) (words : List String) (m : Matches) : Prop :=
  ∃ more below levels, Spells c place only words more below ∧ Accepted (before ++ more) ∧
    wholeFault c called ((before ++ more).map entry) levels.isEmpty = none ∧
    m = ⟨c.name, (before ++ more).map entry⟩ :: levels ∧ Leaves called below levels

theorem ReadsAs.cons {before : List (Arg × String)} {e : Arg × String} {place' : Nat}
    {only' : Bool} {words words' : List String} {m : Matches}
    (h : ReadsAs c called (before ++ [e]) place' only' words' m)
    (hs : ∀ more below, Spells c place' only' words' more below →
      Spells c place only words (e :: more) below) :
    ReadsAs c called before place only words m := by
  obtain ⟨more, below, levels, hspells, hrest⟩ := h
  rw [List.append_assoc] at hrest
  exact ⟨e :: more, below, levels, hs more below hspells, hrest⟩

/-- The words are over, or the next one names a command below. -/
theorem ReadsAs.of_finish (hc : c.Plain) (hl : ∀ e ∈ last, e.1 ∈ c.args) (ha : Accepted items)
    {words : List String} {m levels : Matches} {below : Option (Command × List String)}
    (hs : Spells c place only words [] below) (hleaves : Leaves called below levels)
    (h : finish c called (.between items last place only) levels = .ok m) :
    ReadsAs c called (items ++ last.toList) place only words m := by
  obtain ⟨settled, hsettled, h⟩ := bind_eq_ok_iff.1 h
  obtain ⟨rfl, ha⟩ := settle_between hc hl ha hsettled
  split at h
  · cases h
  · rename_i hwhole
    cases h
    refine ⟨[], below, levels, hs, ?_⟩
    rw [List.append_nil]
    exact ⟨ha, hwhole, rfl, hleaves⟩

/-- Two hyphens before the value of an argument leave it without one. -/
theorem not_readWords_within (hc : c.Plain) (hact : a.action = .set) (hi : a.impliedValue = none)
    (words : List String) {m : Matches} :
    readWords c called (.within items a place true) words ≠ .ok m := by
  intro h
  cases words with
  | nil =>
    obtain ⟨_, hsettled, -⟩ := bind_eq_ok_iff.1 h
    exact not_settle_within hact hi hsettled
  | cons word rest =>
    have hnamed : commandNamed? c (.within items a place true) word = none := rfl
    rw [readWords, hnamed] at h
    obtain ⟨_, hword, -⟩ := bind_eq_ok_iff.1 h
    obtain ⟨_, _, -, hsettled, -⟩ := readPlace_eq_ok hc hword
    exact not_settle_within hact hi hsettled

/-- Behind an argument whose value has to follow comes that value. -/
theorem readWords_within (hc : c.Plain) (hm : a ∈ c.args) (hact : a.action = .set)
    (hi : a.impliedValue = none) {words : List String} {m : Matches}
    (h : readWords c called (.within items a place false) words = .ok m) :
    ∃ value rest, words = value :: rest ∧ Word.ofText value = .plain ∧
      readWords c called (.between items (some (a, value)) place false) rest = .ok m := by
  cases words with
  | nil =>
    obtain ⟨_, hsettled, -⟩ := bind_eq_ok_iff.1 h
    exact absurd hsettled (not_settle_within hact hi)
  | cons word rest =>
    have hnamed : commandNamed? c (.within items a place false) word = none := rfl
    rw [readWords, hnamed] at h
    obtain ⟨p, hword, h⟩ := bind_eq_ok_iff.1 h
    rcases readWord_within hc hm hact hi hword with ⟨hplain, rfl⟩ | rfl
    · exact ⟨word, rest, rfl, hplain, h⟩
    · exact absurd h (not_readWords_within hc hact hi rest)

/-- **What the words of a command give.** -/
theorem readsAs_of_readWords (hc : c.Plain) {m : Matches} (words : List String)
    {items : List (Arg × String)} {last : Option (Arg × String)} {place : Nat} {only : Bool}
    (hl : ∀ e ∈ last, e.1 ∈ c.args) (ha : Accepted items)
    (h : readWords c called (.between items last place only) words = .ok m) :
    ReadsAs c called (items ++ last.toList) place only words m := by
  match words with
  | [] => exact .of_finish hc hl ha (.done place only) rfl h
  | word :: rest =>
    cases hnamed : commandNamed? c (.between items last place only) word with
    | some sub =>
      rw [readWords, hnamed] at h
      obtain ⟨rfl, hsub⟩ : only = false ∧ c.subcommand? word = some sub := by
        cases only with
        | true => cases hnamed
        | false => exact ⟨rfl, hnamed⟩
      dsimp only at h
      split at h
      · cases h
      · rename_i hhelp
        obtain ⟨levels, hbelow, h⟩ := bind_eq_ok_iff.1 h
        exact .of_finish hc hl ha (.command place word rest sub hsub)
          ⟨fun he => hhelp (beq_iff_eq.2 he), hbelow⟩ h
    | none =>
      rw [readWords, hnamed] at h
      obtain ⟨p, hword, h⟩ := bind_eq_ok_iff.1 h
      -- A word is an item by itself, or it waits for the next one, which is read along with it.
      cases readWord_between hc hl ha hword with
      | place only a hplain hpos ha =>
        have hl : ∀ e ∈ some (a, word), e.1 ∈ c.args := fun e he =>
          Option.some.inj he ▸ mem_of_positional? hpos
        exact (readsAs_of_readWords hc rest hl ha h).cons fun _ _ =>
          .place word a hplain hpos
      | separator hseparator =>
        obtain ⟨more, below, levels, hspells, hrest⟩ := readsAs_of_readWords hc rest hl ha h
        exact ⟨more, below, levels, .separator word hseparator hspells, hrest⟩
      | complete name value attached a hname hlong hact hvalue ha =>
        have hl : ∀ e ∈ (none : Option (Arg × String)), e.1 ∈ c.args := fun e he =>
          absurd he (Option.not_mem_none e)
        have hrest := readsAs_of_readWords hc rest hl ha h
        rw [Option.toList_none, List.append_nil] at hrest
        exact hrest.cons fun _ _ => .complete word name value attached a hname hlong hact hvalue
      | opening name a hname hlong hact himplied ha =>
        have hm := (mem_of_long? hlong).1
        obtain ⟨value, rest', rfl, hplain, h⟩ := readWords_within hc hm hact himplied h
        have hl : ∀ e ∈ some (a, value), e.1 ∈ c.args := fun e he => Option.some.inj he ▸ hm
        exact (readsAs_of_readWords hc rest' hl ha h).cons fun _ _ =>
          .separate word name value a hname hlong hact himplied hplain
termination_by words.length

end ResourceCli.CommandLine
