import ResourceCli.CommandLine.Reading
import ResourceCli.Proofs.Text.Cutting

/-!
# Flags among the words of a command line

What a list of words says of a flag, without reading the words one by one.  A flag is written as two
hyphens and its name, and a value may follow behind an equals sign (`flagWord`).  The words mention
it if one of them is that word, and does not come after two hyphens alone, which say that only
values at places follow (`Mentions`).  They give it the value behind the equals sign, or else the
value that the flag implies, or else the next word (`Gives`).

* `ofText_eq_name_iff`: which words are read as flags.
* `mentions_cons_iff`, `gives_cons_iff`: what the first word adds.
-/

namespace ResourceCli.CommandLine

/-- The word that a flag is written as. -/
def flagWord (name : String) : Option String → String
  | none => "--" ++ name
  | some raw => "--" ++ name ++ "=" ++ raw

/-- The words mention a flag, perhaps with a value behind an equals sign, and the words `after`
follow. -/
def Mentions (words : List String) (name : String) (value : Option String)
    (after : List String) : Prop :=
  '=' ∉ name.toList ∧ flagWord name value ≠ "--" ∧
    ∃ before, "--" ∉ before ∧ words = before ++ flagWord name value :: after

/-- The words give a flag a value. -/
def Gives (words : List String) (name : String) (implied : Option String) (raw : String) : Prop :=
  ∃ value after, Mentions words name value after ∧ (value <|> implied <|> after.head?) = some raw

/-! ## Words of a kind -/

theorem toList_flagWord_none (name : String) :
    (flagWord name none).toList = '-' :: '-' :: name.toList :=
  String.toList_append

theorem toList_flagWord_some (name raw : String) :
    (flagWord name (some raw)).toList = '-' :: '-' :: (name.toList ++ '=' :: raw.toList) := by
  rw [flagWord, String.toList_append, String.toList_append, String.toList_append, List.append_assoc,
    List.append_assoc]
  rfl

theorem ofText_of_toList {word : String} {c : Char} {cs : List Char}
    (h : word.toList = '-' :: '-' :: c :: cs) :
    Word.ofText word = match Text.cutFirst '=' (c :: cs) with
      | some (key, value) => .name (String.ofList key) (some (String.ofList value))
      | none => .name (String.ofList (c :: cs)) none := by
  unfold Word.ofText
  rw [h]
  rfl

theorem ofText_eq_separator_iff {word : String} : Word.ofText word = .separator ↔ word = "--" := by
  constructor
  · intro h
    unfold Word.ofText at h
    split at h
    · rename_i hword
      exact String.toList_inj.1 hword
    · split at h <;> cases h
    · cases h
    · cases h
  · rintro rfl
    decide

/-- A word of another kind is not two hyphens alone. -/
theorem ne_separator {word : String} {kind : Word} (h : Word.ofText word = kind)
    (hk : kind ≠ .separator) : word ≠ "--" := fun he =>
  hk (h.symm.trans (ofText_eq_separator_iff.2 he))

theorem ne_nil_of_letters {word : String} {letters : List Char}
    (h : Word.ofText word = .letters letters) : letters ≠ [] := by
  unfold Word.ofText at h
  split at h
  · cases h
  · split at h <;> cases h
  · cases h
    exact List.cons_ne_nil _ _
  · cases h

/-- **Which words are read as flags.** -/
theorem ofText_eq_name_iff {word name : String} {value : Option String} :
    Word.ofText word = .name name value ↔
      '=' ∉ name.toList ∧ flagWord name value ≠ "--" ∧ word = flagWord name value := by
  constructor
  · intro h
    have hseparator := ne_separator h nofun
    have hword : '=' ∉ name.toList ∧ word = flagWord name value := by
      unfold Word.ofText at h
      split at h
      · cases h
      · rename_i cs _ hchars
        split at h
        · rename_i key raw hcut
          cases h
          refine ⟨?_, String.toList_inj.1 ?_⟩
          · rw [String.toList_ofList]
            exact Text.notMem_of_cutFirst hcut
          · rw [hchars, toList_flagWord_some, String.toList_ofList, String.toList_ofList,
              ← Text.append_of_cutFirst hcut]
        · rename_i hcut
          cases h
          refine ⟨?_, String.toList_inj.1 ?_⟩
          · rw [String.toList_ofList]
            exact Text.cutFirst_eq_none_iff.1 hcut
          · rw [hchars, toList_flagWord_none, String.toList_ofList]
      · cases h
      · cases h
    exact ⟨hword.1, hword.2 ▸ hseparator, hword.2⟩
  · rintro ⟨hname, hne, rfl⟩
    cases value with
    | none =>
      obtain ⟨c, cs, hchars⟩ : ∃ c cs, name.toList = c :: cs := by
        refine List.exists_cons_of_ne_nil fun hnil => hne ?_
        rw [String.toList_eq_nil_iff.1 hnil]
        rfl
      rw [ofText_of_toList (by rw [toList_flagWord_none, hchars]), ← hchars,
        Text.cutFirst_eq_none hname]
      exact congrArg₂ _ String.ofList_toList rfl
    | some raw =>
      obtain ⟨c, cs, hchars⟩ : ∃ c cs, name.toList ++ '=' :: raw.toList = c :: cs :=
        List.exists_cons_of_ne_nil (List.append_ne_nil_of_right_ne_nil _ (List.cons_ne_nil _ _))
      rw [ofText_of_toList (by rw [toList_flagWord_some, hchars]), ← hchars,
        Text.cutFirst_append hname]
      exact congrArg₂ _ String.ofList_toList (congrArg some String.ofList_toList)

/-! ## Flags among words -/

section

variable {word : String} {rest after : List String} {name raw : String}
  {value implied : Option String}

theorem not_mentions_nil : ¬ Mentions [] name value after := by
  rintro ⟨-, -, before, -, h⟩
  exact absurd h.symm (List.append_ne_nil_of_right_ne_nil _ (List.cons_ne_nil _ _))

/-- The first word is the flag, or the words behind it mention the flag. -/
theorem mentions_cons_iff : Mentions (word :: rest) name value after ↔
    (Word.ofText word = .name name value ∧ after = rest) ∨
      (word ≠ "--" ∧ Mentions rest name value after) := by
  rw [ofText_eq_name_iff]
  constructor
  · rintro ⟨hname, hne, before, hbefore, h⟩
    cases before with
    | nil =>
      obtain ⟨rfl, rfl⟩ := List.cons.inj h
      exact .inl ⟨⟨hname, hne, rfl⟩, rfl⟩
    | cons first before =>
      obtain ⟨rfl, rfl⟩ := List.cons.inj h
      rw [List.mem_cons, not_or] at hbefore
      exact .inr ⟨Ne.symm hbefore.1, hname, hne, before, hbefore.2, rfl⟩
  · rintro (⟨⟨hname, hne, rfl⟩, rfl⟩ | ⟨hword, hname, hne, before, hbefore, rfl⟩)
    · exact ⟨hname, hne, [], List.not_mem_nil, rfl⟩
    · refine ⟨hname, hne, word :: before, ?_, rfl⟩
      rw [List.mem_cons, not_or]
      exact ⟨Ne.symm hword, hbefore⟩

/-- Behind two hyphens alone no flag is mentioned. -/
theorem not_mentions_of_separator (h : Word.ofText word = .separator) :
    ¬ Mentions (word :: rest) name value after := by
  rw [mentions_cons_iff, h]
  rintro (⟨hname, -⟩ | ⟨hword, -⟩)
  · cases hname
  · exact hword (ofText_eq_separator_iff.1 h)

/-- A word that is no flag, and not two hyphens alone, mentions nothing. -/
theorem mentions_cons_of_plain (h : Word.ofText word = .plain) :
    Mentions (word :: rest) name value after ↔ Mentions rest name value after := by
  rw [mentions_cons_iff, h]
  refine ⟨fun hm => ?_, fun hm => .inr ⟨ne_separator h (by decide), hm⟩⟩
  rcases hm with ⟨hname, -⟩ | ⟨-, hm⟩
  · cases hname
  · exact hm

/-- A flag mentions no other one. -/
theorem mentions_cons_of_other {other : String} {attached : Option String}
    (h : Word.ofText word = .name other attached) (hne : other ≠ name) :
    Mentions (word :: rest) name value after ↔ Mentions rest name value after := by
  rw [mentions_cons_iff, h]
  refine ⟨fun hm => ?_, fun hm => .inr ⟨ne_separator h nofun, hm⟩⟩
  rcases hm with ⟨hname, -⟩ | ⟨-, hm⟩
  · exact absurd (Word.name.inj hname).1 hne
  · exact hm

theorem not_gives_nil : ¬ Gives [] name implied raw := by
  rintro ⟨value, after, h, -⟩
  exact not_mentions_nil h

/-- The first word gives the flag, or the words behind it do. -/
theorem gives_cons_iff : Gives (word :: rest) name implied raw ↔
    (∃ value, Word.ofText word = .name name value ∧
      (value <|> implied <|> rest.head?) = some raw) ∨
      (word ≠ "--" ∧ Gives rest name implied raw) := by
  unfold Gives
  simp only [mentions_cons_iff]
  constructor
  · rintro ⟨value, after, ⟨hword, rfl⟩ | ⟨hword, h⟩, hraw⟩
    · exact .inl ⟨value, hword, hraw⟩
    · exact .inr ⟨hword, value, after, h, hraw⟩
  · rintro (⟨value, hword, hraw⟩ | ⟨hword, value, after, h, hraw⟩)
    · exact ⟨value, rest, .inl ⟨hword, rfl⟩, hraw⟩
    · exact ⟨value, after, .inr ⟨hword, h⟩, hraw⟩

/-- A word that is no flag, and not two hyphens alone, gives nothing. -/
theorem gives_cons_of_plain (h : Word.ofText word = .plain) :
    Gives (word :: rest) name implied raw ↔ Gives rest name implied raw := by
  unfold Gives
  simp only [mentions_cons_of_plain h]

end

end ResourceCli.CommandLine
