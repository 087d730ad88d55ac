import ResourceCli.Proofs.Document.Flags
import ResourceCli.Proofs.Json.Unique
import ResourceCli.Proofs.Number.Digits

/-!
# Texts with numeric flags

The rewriting of numeric flags goes by the characters of a text.  On a JSON text it finds the keys
of flags that are spelled without escapes and have a value that begins with a zero or a one which is
a word by itself.  So it does to the data of the text what it is meant to do, unless a flag is
spelled with escapes, or has a value with a fraction: then the zero or one before the point is
replaced, and what comes out is no JSON text.
-/

namespace ResourceCli.Document

open Json Text

/-! ## What is meant -/

/-- Whether a key is the key of a flag. -/
def isFlag (k : Quoted) : Bool := flagKeys.contains k.text

/-- Whether a key is spelled as the key of a flag, without escapes. -/
def isSpelledFlag (k : Quoted) : Bool := flagKeys.any fun key => k.raw == key.toList

/-- The truth value that a value stands for as a flag: it is the number zero or one, written with
its digit alone. -/
def flagValue? : Source Quoted → Option Bool
  | .num l => if l.text = ['0'] then some false else if l.text = ['1'] then some true else none
  | _ => none

/-- A value is a zero or a one with a fraction. -/
def IsFraction : Source Quoted → Prop
  | .num l => l.negative = false ∧ (l.whole = ['0'] ∨ l.whole = ['1']) ∧ l.places ≠ []
  | _ => False

section Trees

variable (p : Quoted → Bool)

mutual

/-- A value with a truth value for each number that is a flag, where `p` tells the keys of flags. -/
def flagged : Source Quoted → Source Quoted
  | .arr items => .arr (flaggedItems items)
  | .obj members => .obj (flaggedMembers members)
  | t => t

/-- The items with truth values for flags. -/
def flaggedItems : List (Source Quoted) → List (Source Quoted)
  | [] => []
  | t :: ts => flagged t :: flaggedItems ts

/-- The members with truth values for flags. -/
def flaggedMembers : List (Quoted × Source Quoted) → List (Quoted × Source Quoted)
  | [] => []
  | (k, t) :: ts =>
    (k, match (if p k then flagValue? t else none) with
      | some b => .bool b
      | none => flagged t) :: flaggedMembers ts

end

end Trees

section Members

variable (P : Quoted → Source Quoted → Prop)

mutual

/-- Something holds of each member in a value. -/
def EachMember : Source Quoted → Prop
  | .arr items => EachMemberOfItems items
  | .obj members => EachMemberOf members
  | _ => True

/-- Something holds of each member in the items. -/
def EachMemberOfItems : List (Source Quoted) → Prop
  | [] => True
  | t :: ts => EachMember t ∧ EachMemberOfItems ts

/-- Something holds of each of the members and of each member in their values. -/
def EachMemberOf : List (Quoted × Source Quoted) → Prop
  | [] => True
  | (k, t) :: ts => P k t ∧ EachMember t ∧ EachMemberOf ts

end

end Members

/-- A member can be rewritten: the key of a flag that is a number is spelled without escapes, and no
key that is spelled so has a fraction. -/
def CanBeFlag (k : Quoted) (t : Source Quoted) : Prop :=
  (isFlag k = true → flagValue? t ≠ none → isSpelledFlag k = true) ∧
    (isSpelledFlag k = true → ¬ IsFraction t)

/-! ## Where a flag is found -/

section Found

variable {cs rest blanks colon body : List Char} {k : Quoted} {t : Source Quoted}

theorem writes_key {key : String} (h : key ∈ flagKeys) : Writes key.toList key.toList := by
  have plain : ∀ cs : List Char, (∀ c ∈ cs, c ≠ '"' ∧ c ≠ '\\' ∧ ¬ c.toNat < 0x20) →
      Writes cs cs := by
    intro cs hcs
    induction cs with
    | nil => exact .nil
    | cons c cs ih =>
      obtain ⟨hquote, hback, hlow⟩ := hcs c List.mem_cons_self
      exact .plain hquote hback hlow (ih fun d hd => hcs d (List.mem_cons_of_mem _ hd))
  revert h key
  intro key h
  rcases List.mem_cons.1 h with rfl | h
  · exact plain _ (by simp)
  · rw [List.mem_singleton.1 h]
    exact plain _ (by simp)

/-- A key starts with the quoted key of a flag exactly if it is spelled so. -/
theorem stripStart?_spelled {key : String} (h : key ∈ flagKeys) (k : Quoted) (rest : List Char) :
    stripStart? ('"' :: key.toList ++ ['"']) (k.spelled ++ rest) =
      if k.raw = key.toList then some rest else none := by
  split
  · rename_i hraw
    rw [Quoted.spelled, hraw]
    exact stripStart?_append _ _
  · rename_i hraw
    refine Option.eq_none_iff_forall_not_mem.2 fun after hafter => hraw ?_
    have happend := append_of_stripStart hafter
    rw [Quoted.spelled, List.cons_append, List.cons_append, List.cons_append, List.cons.injEq,
      List.append_assoc, List.append_assoc] at happend
    exact (k.writes.eq_of_append (writes_key h) happend.2).1

/-- Nothing but the quoted key of a flag starts a flag. -/
theorem jsonFlag?_eq_none (h : ∀ key ∈ flagKeys, ∀ after,
    cs.dropWhile isBlank ≠ '"' :: (key.toList ++ '"' :: after)) : jsonFlag? cs = none := by
  have hfind : (flagKeys.find? fun key =>
      (stripStart? ('"' :: key.toList ++ ['"']) (cs.dropWhile isBlank)).isSome) = none := by
    refine List.find?_eq_none.2 fun key hkey hstarts => ?_
    obtain ⟨after, hafter⟩ := Option.isSome_iff_exists.1 hstarts
    refine h key hkey after ?_
    rw [append_of_stripStart hafter]
    simp
  unfold jsonFlag?
  rw [hfind]
  rfl

/-- The truth value that a digit at the start of some characters is replaced with, and what follows
it, if the digit is a word by itself. -/
def digitFlag? : List Char → Option (List Char × List Char)
  | digit :: rest => do
    let value ← flagText digit
    if wordEnds rest then some (value, rest) else none
  | [] => none

theorem areBlanks_of_spaces (hb : Spaces blanks) : ∀ c ∈ blanks, isBlank c = true := fun c hc =>
  isBlank_of_isSpace (hb c hc)

theorem dropWhile_isBlank_cons {c : Char} (hb : ∀ c ∈ blanks, isBlank c = true)
    (hc : isBlank c = false) : (blanks ++ c :: rest).dropWhile isBlank = c :: rest := by
  rw [List.dropWhile_append_of_pos hb, List.dropWhile_cons_of_neg]
  rw [hc]
  exact Bool.false_ne_true

theorem takeWhile_isBlank_cons {c : Char} (hb : ∀ c ∈ blanks, isBlank c = true)
    (hc : isBlank c = false) : (blanks ++ c :: rest).takeWhile isBlank = blanks := by
  rw [List.takeWhile_append_of_pos hb, List.takeWhile_cons_of_neg, List.append_nil]
  rw [hc]
  exact Bool.false_ne_true

theorem isBlank_of_kindOf? {c : Char} {kind : Kind} (h : kindOf? c = some kind) :
    isBlank c = false := by
  have hdigit : c.isDigit = true → isBlank c = false := by
    intro hc
    obtain ⟨hlow, hhigh⟩ := Number.toNat_of_isDigit hc
    simp only [isBlank, Bool.or_eq_false_iff, Bool.and_eq_false_iff, decide_eq_false_iff_not,
      beq_eq_false_iff_ne]
    omega
  unfold kindOf? at h
  split at h
  · rename_i hc
    rw [hc]
    rfl
  split at h
  · rename_i hc
    rcases hc with rfl | rfl <;> rfl
  split at h
  · rename_i hc
    rw [hc]
    rfl
  split at h
  · rename_i hc
    rw [hc]
    rfl
  split at h
  · rename_i hc
    rw [hc]
    rfl
  split at h
  · rename_i hc
    rcases hc with rfl | hc
    · rfl
    · exact hdigit hc
  · cases h

/-- The key of a flag that a key is spelled as. -/
theorem find?_spelled (k : Quoted) (rest : List Char) :
    (flagKeys.find? fun key =>
      (stripStart? ('"' :: key.toList ++ ['"']) (k.spelled ++ rest)).isSome) =
      if isSpelledFlag k then some (String.ofList k.raw) else none := by
  have hstarts : ∀ key ∈ flagKeys,
      (stripStart? ('"' :: key.toList ++ ['"']) (k.spelled ++ rest)).isSome =
        (k.raw == key.toList) := by
    intro key hkey
    rw [stripStart?_spelled hkey]
    by_cases hraw : k.raw = key.toList
    · rw [if_pos hraw, beq_iff_eq.2 hraw]
      rfl
    · rw [if_neg hraw, beq_eq_false_iff_ne.2 hraw]
      rfl
  split
  · rename_i hflag
    obtain ⟨key, hkey, hraw⟩ := List.any_eq_true.1 hflag
    rw [beq_iff_eq] at hraw
    rw [hraw, String.ofList_toList]
    rcases List.mem_cons.1 hkey with rfl | hkey
    · rw [flagKeys, List.find?_cons_of_pos]
      rw [hstarts _ List.mem_cons_self, hraw]
      decide
    · obtain rfl := List.mem_singleton.1 hkey
      rw [flagKeys, List.find?_cons_of_neg, List.find?_cons_of_pos]
      · rw [hstarts _ (List.mem_cons_of_mem _ List.mem_cons_self), hraw]
        decide
      · rw [hstarts _ List.mem_cons_self, hraw]
        decide
  · rename_i hflag
    refine List.find?_eq_none.2 fun key hkey hsome => hflag ?_
    rw [hstarts key hkey] at hsome
    exact List.any_eq_true.2 ⟨key, hkey, hsome⟩

/-- The truth value that the digit behind a colon is replaced with, and what follows it. -/
def colonFlag? : List Char → Option (List Char × List Char)
  | ':' :: rest => digitFlag? (rest.dropWhile isBlank)
  | _ => none

/-- A string starts a flag if it is spelled as one and a colon and a digit follow. -/
theorem jsonFlag?_spelled (hb : ∀ c ∈ blanks, isBlank c = true) (k : Quoted) (rest : List Char) :
    jsonFlag? (blanks ++ (k.spelled ++ rest)) =
      if isSpelledFlag k then
        (colonFlag? (rest.dropWhile isBlank)).map fun (value, after) =>
          (blanks ++ (k.spelled ++ ':' :: value), after)
      else none := by
  have hdrop : (blanks ++ (k.spelled ++ rest)).dropWhile isBlank = k.spelled ++ rest :=
    dropWhile_isBlank_cons hb (c := '"') rfl
  have htake : (blanks ++ (k.spelled ++ rest)).takeWhile isBlank = blanks :=
    takeWhile_isBlank_cons hb (c := '"') rfl
  unfold jsonFlag?
  rw [hdrop, htake, find?_spelled]
  by_cases hflag : isSpelledFlag k = true
  · rw [if_pos hflag, if_pos hflag, Option.bind_eq_bind, Option.bind_some, String.toList_ofList,
      show '"' :: k.raw ++ ['"'] = k.spelled from rfl]
    dsimp only
    rw [List.drop_left]
    generalize rest.dropWhile isBlank = after
    split
    · rename_i after
      rw [colonFlag?]
      cases after.dropWhile isBlank with
      | nil => rfl
      | cons digit after' =>
        dsimp only [digitFlag?]
        cases flagText digit with
        | none => rfl
        | some value =>
          dsimp only [Option.bind_eq_bind, Option.bind_some]
          split
          · rw [List.append_assoc]
            rfl
          · rfl
    · rename_i hother
      unfold colonFlag?
      split
      · exact absurd rfl (hother _)
      · rfl
  · rw [if_neg hflag, if_neg hflag]
    rfl

/-- **A member is a flag** if its key is spelled as one and its value begins with a digit that is a
word by itself. -/
theorem jsonFlag?_member (hb : Spaces blanks) (k : Quoted) (hcolon : IsColon colon)
    (hbody : Spells t body) :
    jsonFlag? (blanks ++ (k.spelled ++ (colon ++ (body ++ rest)))) =
      if isSpelledFlag k then
        (digitFlag? (body ++ rest)).map fun (value, after) =>
          (blanks ++ (k.spelled ++ ':' :: value), after)
      else none := by
  obtain ⟨before, after, hbefore, hafter, rfl⟩ := hcolon
  obtain ⟨c, tail, htail, hc⟩ := hbody.exists_append rest
  have hcolon : ((before ++ ':' :: after) ++ (body ++ rest)).dropWhile isBlank =
      ':' :: (after ++ (body ++ rest)) := by
    rw [List.append_assoc, List.cons_append]
    exact dropWhile_isBlank_cons (areBlanks_of_spaces hbefore) rfl
  have hvalue : (after ++ (body ++ rest)).dropWhile isBlank = body ++ rest := by
    rw [htail]
    exact dropWhile_isBlank_cons (areBlanks_of_spaces hafter) (isBlank_of_kindOf? hc)
  rw [jsonFlag?_spelled (areBlanks_of_spaces hb), hcolon, colonFlag?, hvalue]

/-- An item of an array is no flag. -/
theorem jsonFlag?_item (hb : Spaces blanks) (hbody : Spells t body)
    (hrest : colonFlag? (rest.dropWhile isBlank) = none) :
    jsonFlag? (blanks ++ (body ++ rest)) = none := by
  obtain ⟨c, tail, htail, hc⟩ := hbody.exists_append rest
  by_cases hquote : c = '"'
  · rw [hquote] at hc
    cases t with
    | str q =>
      obtain rfl : body = q.spelled := hbody
      rw [jsonFlag?_spelled (areBlanks_of_spaces hb), hrest, Option.map_none, ite_self]
    | null | bool | num | arr | obj => cases hc
  · refine jsonFlag?_eq_none fun key _ after => ?_
    rw [htail, dropWhile_isBlank_cons (areBlanks_of_spaces hb) (isBlank_of_kindOf? hc)]
    exact fun heq => hquote (List.cons.inj heq).1

/-! ## Which values begin with such a digit -/

theorem isWordChar_of_isDigit {c : Char} (h : c.isDigit = true) : isWordChar c = true := by
  have hsmall : c.toNat < 128 := by
    have := Number.toNat_of_isDigit h
    omega
  rw [isWordChar, if_pos hsmall, Char.isAlphanum, h, Bool.or_true, Bool.true_or]

theorem wordEnds_of_ends (h : Ends rest) : wordEnds rest = true := by
  cases rest with
  | nil => rfl
  | cons c rest =>
    have hc : isWordChar c = false :=
      h.forall (P := fun c => isWordChar c = false) (forall_of_isSpace rfl rfl rfl rfl) rfl rfl rfl
        c rfl
    rw [wordEnds, hc]
    rfl

theorem flagValue?_num (l : Literal) : flagValue? (.num l) =
    if l.text = ['0'] then some false else if l.text = ['1'] then some true else none := rfl

theorem digitFlag?_of_flagValue? {b : Bool} (hbody : Spells t body) (hrest : Ends rest)
    (h : flagValue? t = some b) : digitFlag? (body ++ rest) = some (boolText b, rest) := by
  have found : ∀ digit, flagText digit = some (boolText b) →
      digitFlag? ([digit] ++ rest) = some (boolText b, rest) := by
    intro digit hdigit
    rw [List.singleton_append, digitFlag?, hdigit, Option.bind_eq_bind, Option.bind_some,
      if_pos (wordEnds_of_ends hrest)]
  cases t with
  | num l =>
    obtain rfl : body = l.text := hbody
    rw [flagValue?_num] at h
    split at h
    · rename_i hzero
      obtain rfl := Option.some.inj h
      rw [hzero]
      exact found '0' rfl
    split at h
    · rename_i hone
      obtain rfl := Option.some.inj h
      rw [hone]
      exact found '1' rfl
    · cases h
  | null | bool | str | arr | obj => cases h

theorem ne_of_isDigit {c : Char} (h : c.isDigit = true) : c ≠ '{' ∧ c ≠ ',' := by
  constructor
  all_goals
    rintro rfl
    cases h

theorem ne_of_mem_exponentText (l : Literal) : ∀ c ∈ l.exponentText, c ≠ '{' ∧ c ≠ ',' := by
  intro c hc
  unfold Literal.exponentText at hc
  cases he : l.exponent with
  | none =>
    rw [he] at hc
    exact absurd hc List.not_mem_nil
  | some e =>
    rw [he, Option.map_some, Option.getD_some, Exponent.text, List.mem_cons, List.mem_append] at hc
    rcases hc with rfl | hc | hc
    · rcases e.isLetter with h | h <;> rw [h] <;> decide
    · rcases e.isSign c (Option.mem_toList.1 hc) with rfl | rfl <;> decide
    · exact ne_of_isDigit (e.areDigits c hc)

/-- Of a zero or a one with a fraction the digit before the point is taken for a flag. -/
theorem exists_digitFlag?_of_isFraction (hbody : Spells t body) (h : IsFraction t) :
    ∃ b places, (∀ c ∈ places, c ≠ '{' ∧ c ≠ ',') ∧
      ∀ rest, digitFlag? (body ++ rest) = some (boolText b, '.' :: (places ++ rest)) := by
  cases t with
  | num l =>
    obtain rfl : body = l.text := hbody
    obtain ⟨hsign, hwhole, hplaces⟩ := h
    have htext : ∀ rest, l.text ++ rest =
        l.whole ++ '.' :: (l.places ++ l.exponentText ++ rest) := by
      intro rest
      rw [Literal.text, hsign, if_neg Bool.false_ne_true, List.nil_append, Literal.unsigned,
        Literal.fraction, if_neg hplaces, Literal.exponentText]
      simp
    have hpasses : ∀ c ∈ l.places ++ l.exponentText, c ≠ '{' ∧ c ≠ ',' := by
      intro c hc
      rcases List.mem_append.1 hc with hc | hc
      · exact ne_of_isDigit (l.digits_places c hc)
      · exact ne_of_mem_exponentText l c hc
    rcases hwhole with hwhole | hwhole
    · refine ⟨false, l.places ++ l.exponentText, hpasses, fun rest => ?_⟩
      rw [htext, hwhole]
      rfl
    · refine ⟨true, l.places ++ l.exponentText, hpasses, fun rest => ?_⟩
      rw [htext, hwhole]
      rfl
  | null | bool | str | arr | obj => exact absurd h id

theorem flagText_eq_none {c : Char} (hzero : c ≠ '0') (hone : c ≠ '1') : flagText c = none := by
  unfold flagText
  split
  · exact absurd rfl hzero
  · exact absurd rfl hone
  · rfl

theorem digitFlag?_cons_eq_none {c : Char} (hzero : c ≠ '0') (hone : c ≠ '1') (cs : List Char) :
    digitFlag? (c :: cs) = none := by
  rw [digitFlag?, flagText_eq_none hzero hone]
  rfl

/-- A digit with more of a word behind it is no flag. -/
theorem digitFlag?_cons_cons_eq_none (c : Char) {d : Char} (hd : isWordChar d = true)
    (cs : List Char) : digitFlag? (c :: d :: cs) = none := by
  rw [digitFlag?]
  cases flagText c with
  | none => rfl
  | some value =>
    rw [Option.bind_eq_bind, Option.bind_some, wordEnds, hd]
    rfl

/-- A number other than zero and one begins with another digit, or goes on behind its first digit
with a digit or an exponent, unless it has a fraction. -/
theorem digitFlag?_num_eq_none {l : Literal} (hvalue : flagValue? (.num l) = none)
    (hfraction : ¬ IsFraction (.num l)) : digitFlag? (l.text ++ rest) = none := by
  cases hsign : l.negative with
  | true =>
    have htext : l.text = '-' :: l.unsigned := by
      rw [Literal.text, hsign, if_pos rfl]
      rfl
    rw [htext]
    exact digitFlag?_cons_eq_none (by decide) (by decide) _
  | false =>
    obtain ⟨c, ds, hwhole⟩ := List.exists_cons_of_ne_nil l.whole_ne_nil
    have htext : l.text = c :: (ds ++ (l.fraction ++ l.exponentText)) := by
      rw [Literal.text, hsign, if_neg Bool.false_ne_true, List.nil_append, Literal.unsigned,
        hwhole]
      rfl
    rw [htext]
    by_cases hc : c = '0' ∨ c = '1'
    · cases ds with
      | cons d ds =>
        exact digitFlag?_cons_cons_eq_none c
          (isWordChar_of_isDigit (l.digits_whole d (by simp [hwhole]))) _
      | nil =>
        have hplaces : l.places = [] := by
          by_contra hne
          refine hfraction ⟨hsign, ?_, hne⟩
          rw [hwhole]
          rcases hc with rfl | rfl
          · exact .inl rfl
          · exact .inr rfl
        rw [Literal.fraction, if_pos hplaces, Literal.exponentText] at htext ⊢
        cases he : l.exponent with
        | some e =>
          refine digitFlag?_cons_cons_eq_none c ?_ _
          rcases e.isLetter with hletter | hletter <;> rw [hletter] <;> rfl
        | none =>
          -- The digit alone is a flag.
          rw [he] at htext
          have htext' : l.text = [c] := htext
          rw [flagValue?_num, htext'] at hvalue
          rcases hc with rfl | rfl
          · cases hvalue
          · cases hvalue
    · rw [not_or] at hc
      exact digitFlag?_cons_eq_none hc.1 hc.2 _

/-- No other value begins with a zero or a one that is a word by itself. -/
theorem digitFlag?_eq_none (hbody : Spells t body) (hvalue : flagValue? t = none)
    (hfraction : ¬ IsFraction t) : digitFlag? (body ++ rest) = none := by
  cases t with
  | null =>
    obtain rfl : body = ['n', 'u', 'l', 'l'] := hbody
    exact digitFlag?_cons_eq_none (by decide) (by decide) _
  | bool b =>
    obtain rfl : body = boolText b := hbody
    cases b
    · exact digitFlag?_cons_eq_none (by decide) (by decide) _
    · exact digitFlag?_cons_eq_none (by decide) (by decide) _
  | num l =>
    obtain rfl : body = l.text := hbody
    exact digitFlag?_num_eq_none hvalue hfraction
  | str q =>
    obtain rfl : body = q.spelled := hbody
    exact digitFlag?_cons_eq_none (by decide) (by decide) _
  | arr items =>
    obtain ⟨inner, -, rfl⟩ := hbody
    exact digitFlag?_cons_eq_none (by decide) (by decide) _
  | obj members =>
    obtain ⟨inner, -, rfl⟩ := hbody
    exact digitFlag?_cons_eq_none (by decide) (by decide) _

end Found

/-! ## Going through a text -/

section Walk

variable {cs rest blanks raw : List Char}

theorem replaceJsonFlags_cons_of_none (c : Char) (h : jsonFlag? cs = none) :
    replaceJsonFlags 0 (c :: cs) = c :: replaceJsonFlags 0 cs := by
  rw [replaceJsonFlags, h, ite_self]

theorem replaceJsonFlags_cons {c : Char} (hbrace : c ≠ '{') (hcomma : c ≠ ',') (cs : List Char) :
    replaceJsonFlags 0 (c :: cs) = c :: replaceJsonFlags 0 cs := by
  rw [replaceJsonFlags, if_neg]
  rw [Bool.or_eq_true, beq_iff_eq, beq_iff_eq]
  exact not_or.2 ⟨hbrace, hcomma⟩

theorem replaceJsonFlags_append (h : ∀ c ∈ cs, c ≠ '{' ∧ c ≠ ',') (rest : List Char) :
    replaceJsonFlags 0 (cs ++ rest) = cs ++ replaceJsonFlags 0 rest := by
  induction cs with
  | nil => rfl
  | cons c cs ih =>
    obtain ⟨hbrace, hcomma⟩ := h c List.mem_cons_self
    rw [List.cons_append, replaceJsonFlags_cons hbrace hcomma,
      ih fun d hd => h d (List.mem_cons_of_mem _ hd), List.cons_append]

theorem replaceJsonFlags_skip (cs rest : List Char) :
    replaceJsonFlags cs.length (cs ++ rest) = replaceJsonFlags 0 rest := by
  induction cs with
  | nil => rfl
  | cons c cs ih => exact ih

theorem replaceJsonFlags_spaces (hb : Spaces blanks) (rest : List Char) :
    replaceJsonFlags 0 (blanks ++ rest) = blanks ++ replaceJsonFlags 0 rest :=
  replaceJsonFlags_append (fun c hc => forall_of_isSpace (P := fun c => c ≠ '{' ∧ c ≠ ',')
    (by decide) (by decide) (by decide) (by decide) c (hb c hc)) rest

/-- No flag starts within a string, as long as no key goes on behind it. -/
theorem jsonFlag?_writes (h : Writes raw cs) (hrest : rest.head? ≠ some 'r') :
    jsonFlag? (raw ++ '"' :: rest) = none := by
  refine jsonFlag?_eq_none fun key hkey after => ?_
  have hhead : ∃ tail, key.toList ++ '"' :: after = 'r' :: tail := by
    rcases List.mem_cons.1 hkey with rfl | hkey
    · exact ⟨_, rfl⟩
    · rw [List.mem_singleton.1 hkey]
      exact ⟨_, rfl⟩
  obtain ⟨tail, htail⟩ := hhead
  rw [htail]
  induction h with
  | nil =>
    rw [List.nil_append, List.dropWhile_cons_of_neg (by decide)]
    intro heq
    rw [(List.cons.inj heq).2] at hrest
    exact hrest rfl
  | @plain c raw cs hquote _ _ _ ih =>
    rw [List.cons_append]
    by_cases hc : isBlank c = true
    · rw [List.dropWhile_cons_of_pos hc]
      exact ih
    · rw [List.dropWhile_cons_of_neg hc]
      exact fun heq => hquote (List.cons.inj heq).1
  | letter | code | pair =>
    rw [List.cons_append, List.dropWhile_cons_of_neg (by decide)]
    exact fun heq => absurd (List.cons.inj heq).1 (by decide)

theorem hexValue?_of_mem {ds : List Char} {n : Nat} (h : digitsValue? 16 ds = some n) {c : Char}
    (hc : c ∈ ds) : hexValue? c ≠ none := by
  have generalized : ∀ {ds : List Char} {a n : Nat}, ds.foldlM (fun n c => do
      let d ← hexValue? c
      if d < 16 then some (16 * n + d) else none) a = some n → ∀ c ∈ ds, hexValue? c ≠ none := by
    intro ds
    induction ds with
    | nil => exact fun _ c hc => absurd hc List.not_mem_nil
    | cons d ds ih =>
      intro a n h c hc
      rw [List.foldlM_cons, Option.bind_eq_bind, Option.bind_eq_some_iff] at h
      obtain ⟨m, hm, hlater⟩ := h
      rcases List.mem_cons.1 hc with rfl | hc
      · intro hnone
        rw [hnone] at hm
        cases hm
      · exact ih hlater c hc
  exact generalized h c hc

theorem replaceJsonFlags_writes (h : Writes raw cs) (hrest : rest.head? ≠ some 'r') :
    replaceJsonFlags 0 (raw ++ '"' :: rest) = raw ++ '"' :: replaceJsonFlags 0 rest := by
  have digits : ∀ {ds more : List Char} {n : Nat}, digitsValue? 16 ds = some n →
      replaceJsonFlags 0 (ds ++ more) = ds ++ replaceJsonFlags 0 more := by
    intro ds more n hn
    refine replaceJsonFlags_append (fun c hc => ?_) more
    have hhex := hexValue?_of_mem hn hc
    constructor
    all_goals
      rintro rfl
      exact hhex rfl
  induction h with
  | nil => exact replaceJsonFlags_cons (by decide) (by decide) _
  | plain hquote hback hlow h ih =>
    rw [List.cons_append, replaceJsonFlags_cons_of_none _ (jsonFlag?_writes h hrest), ih,
      List.cons_append]
  | letter hd h ih =>
    rw [List.cons_append, List.cons_append, replaceJsonFlags_cons (by decide) (by decide),
      replaceJsonFlags_cons_of_none _ (jsonFlag?_writes h hrest), ih, List.cons_append,
      List.cons_append]
  | code hlen hn hhigh hlow h ih =>
    rw [List.cons_append, List.cons_append, List.append_assoc,
      replaceJsonFlags_cons (by decide) (by decide), replaceJsonFlags_cons (by decide) (by decide),
      digits hn, ih]
    simp
  | pair hlen hn hhigh hlen' hm hlow h ih =>
    rw [List.cons_append, List.cons_append, List.append_assoc, List.cons_append, List.cons_append,
      List.append_assoc, replaceJsonFlags_cons (by decide) (by decide),
      replaceJsonFlags_cons (by decide) (by decide), digits hn,
      replaceJsonFlags_cons (by decide) (by decide), replaceJsonFlags_cons (by decide) (by decide),
      digits hm, ih]
    simp

theorem replaceJsonFlags_spelled (q : Quoted) (hrest : rest.head? ≠ some 'r') :
    replaceJsonFlags 0 (q.spelled ++ rest) = q.spelled ++ replaceJsonFlags 0 rest := by
  have hcons : q.spelled ++ rest = '"' :: (q.raw ++ '"' :: rest) := by
    rw [Quoted.spelled]
    simp
  rw [hcons, replaceJsonFlags_cons (by decide) (by decide), replaceJsonFlags_writes q.writes hrest,
    Quoted.spelled]
  simp

theorem replaceJsonFlags_num (l : Literal) (rest : List Char) :
    replaceJsonFlags 0 (l.text ++ rest) = l.text ++ replaceJsonFlags 0 rest := by
  refine replaceJsonFlags_append (fun c hc => ?_) rest
  rw [Literal.text, Literal.unsigned, Literal.fraction, List.mem_append, List.mem_append,
    List.mem_append] at hc
  rcases hc with hc | hc | hc | hc
  · split at hc
    · rw [List.mem_singleton.1 hc]
      decide
    · exact absurd hc List.not_mem_nil
  · exact ne_of_isDigit (l.digits_whole c hc)
  · split at hc
    · exact absurd hc List.not_mem_nil
    · rcases List.mem_cons.1 hc with rfl | hc
      · decide
      · exact ne_of_isDigit (l.digits_places c hc)
  · exact ne_of_mem_exponentText l c hc

end Walk

end ResourceCli.Document
