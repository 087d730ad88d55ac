import ResourceCli.Proofs.Document.Flagged
import ResourceCli.Proofs.Document.FlagLines

/-!
# Members with numeric flags

Before anything else, every text is gone through for members of JSON objects that are flags, whether
it is JSON or not: behind a brace or a comma the quoted key, a colon, and a zero or a one that is a
word by itself, with blanks in between.  Which characters these are is said here apart from the
function that finds them (`jsonFlag?_eq_some_iff`), and so is what becomes of a whole text
(`turnedMembers_iff`) and of the lines of one that is not JSON (`turnedLines`).
-/

namespace ResourceCli.Document

open Json Text

/-- A flag behind a brace or a comma. -/
structure MemberFlag where
  /-- The blanks before the key. -/
  before : List Char
  /-- The key. -/
  key : String
  /-- The blanks after the key. -/
  behind : List Char
  /-- The blanks after the colon. -/
  between : List Char
  /-- The truth value that the digit stands for. -/
  value : Bool
  /-- Blanks stand before the key. -/
  areBlanks_before : ∀ c ∈ before, isBlank c = true
  /-- The key is the key of a flag. -/
  mem_flagKeys : key ∈ flagKeys
  /-- Blanks stand before the colon. -/
  areBlanks_behind : ∀ c ∈ behind, isBlank c = true
  /-- Blanks stand before the digit. -/
  areBlanks_between : ∀ c ∈ between, isBlank c = true

namespace MemberFlag

/-- The key as a string. -/
def quotedKey (f : MemberFlag) : List Char := '"' :: (f.key.toList ++ ['"'])

/-- The characters from the colon on. -/
def numbered (f : MemberFlag) : List Char :=
  f.behind ++ ':' :: (f.between ++ [FlagLine.digit f.value])

/-- The characters of the flag. -/
def text (f : MemberFlag) : List Char := f.before ++ (f.quotedKey ++ f.numbered)

/-- The flag with a truth value. -/
def rewritten (f : MemberFlag) : List Char :=
  f.before ++ (f.quotedKey ++ ':' :: boolText f.value)

end MemberFlag

/-- A flag may stand between a character and others. -/
def FlagBetween (c : Char) (rest : List Char) : Prop :=
  (c = '{' ∨ c = ',') ∧ wordEnds rest = true

/-- What becomes of characters when the flags among them get truth values, the first ones first. -/
inductive TurnedMembers : List Char → List Char → Prop
  /-- Nothing is left. -/
  | nil : TurnedMembers [] []
  /-- A character that no flag stands behind stays. -/
  | keep {c : Char} {cs cs' : List Char}
    (h : ∀ (f : MemberFlag) (rest : List Char), FlagBetween c rest → cs ≠ f.text ++ rest)
    (hmore : TurnedMembers cs cs') : TurnedMembers (c :: cs) (c :: cs')
  /-- A flag gets its truth value. -/
  | turn {c : Char} {f : MemberFlag} {rest rest' : List Char} (h : FlagBetween c rest)
    (hmore : TurnedMembers rest rest') :
    TurnedMembers (c :: (f.text ++ rest)) (c :: (f.rewritten ++ rest'))

/-- No flag stands behind a brace or a comma. -/
def NoMember (cs : List Char) : Prop :=
  ∀ (before : List Char) (c : Char) (f : MemberFlag) (rest : List Char), FlagBetween c rest →
    cs ≠ before ++ c :: (f.text ++ rest)

/-- What becomes of a line. -/
inductive TurnedLine : List Char → List Char → Prop
  /-- A line that is not that of a flag stays. -/
  | keep {line : List Char} (h : ∀ f : FlagLine, line ≠ f.text) : TurnedLine line line
  /-- The line of a flag gets its truth value. -/
  | turn (f : FlagLine) : TurnedLine f.text f.rewritten

section Members

variable {cs cs' rest text : List Char} {c : Char}

theorem digitFlag?_eq_some_iff {value : List Char} :
    digitFlag? cs = some (value, rest) ↔
      ∃ b, cs = FlagLine.digit b :: rest ∧ value = boolText b ∧ wordEnds rest = true := by
  constructor
  · intro h
    cases cs with
    | nil => cases h
    | cons c cs =>
      obtain ⟨value', hvalue, h⟩ := Option.bind_eq_some_iff.1 h
      obtain ⟨b, rfl, rfl⟩ := flagText_eq_some_iff.1 hvalue
      split at h
      · rename_i hends
        cases h
        exact ⟨b, rfl, rfl, hends⟩
      · cases h
  · rintro ⟨b, rfl, rfl, hends⟩
    have hvalue : flagText (FlagLine.digit b) = some (boolText b) :=
      flagText_eq_some_iff.2 ⟨b, rfl, rfl⟩
    rw [digitFlag?, hvalue, Option.bind_eq_bind, Option.bind_some, if_pos hends]

/-- A flag goes on behind its key with a colon and a digit. -/
theorem colonFlag?_eq_some_iff {value : List Char} :
    colonFlag? (cs.dropWhile isBlank) = some (value, rest) ↔
      ∃ (behind between : List Char) (b : Bool), (∀ c ∈ behind, isBlank c = true) ∧
        (∀ c ∈ between, isBlank c = true) ∧
        cs = behind ++ ':' :: (between ++ FlagLine.digit b :: rest) ∧ value = boolText b ∧
        wordEnds rest = true := by
  have hblanks (cs : List Char) : ∀ c ∈ cs.takeWhile isBlank, isBlank c = true := fun _ hc =>
    List.mem_takeWhile_imp hc
  constructor
  · intro h
    cases hcolon : cs.dropWhile isBlank with
    | nil =>
      rw [hcolon] at h
      cases h
    | cons c after =>
      rw [hcolon] at h
      unfold colonFlag? at h
      split at h
      · rename_i more hmore
        obtain ⟨rfl, rfl⟩ := List.cons.inj hmore
        obtain ⟨b, hdigit, hvalue, hends⟩ := digitFlag?_eq_some_iff.1 h
        refine ⟨_, _, b, hblanks cs, hblanks after, ?_, hvalue, hends⟩
        rw [← hdigit, List.takeWhile_append_dropWhile, ← hcolon, List.takeWhile_append_dropWhile]
      · cases h
  · rintro ⟨behind, between, b, hbehind, hbetween, rfl, hvalue, hends⟩
    have hdigit : isBlank (FlagLine.digit b) = false := by
      cases b <;> rfl
    rw [dropWhile_isBlank_cons hbehind rfl, colonFlag?, dropWhile_isBlank_cons hbetween hdigit]
    exact digitFlag?_eq_some_iff.2 ⟨b, rfl, hvalue, hends⟩

/-- The key of a flag as a string. -/
def flagKey (key : String) (h : key ∈ flagKeys) : Quoted := ⟨key.toList, key, writes_key h⟩

theorem isSpelledFlag_flagKey {key : String} (h : key ∈ flagKeys) :
    isSpelledFlag (flagKey key h) = true :=
  List.any_eq_true.2 ⟨key, h, beq_self_eq_true _⟩

/-- The flag that is found begins with the key of one. -/
theorem exists_flagKey (h : jsonFlag? cs = some (text, rest)) :
    ∃ (blanks : List Char) (key : String) (hkey : key ∈ flagKeys) (more : List Char),
      (∀ c ∈ blanks, isBlank c = true) ∧ cs = blanks ++ ((flagKey key hkey).spelled ++ more) := by
  have hnone := mt jsonFlag?_eq_none (h ▸ Option.some_ne_none _)
  simp only [not_forall, not_not] at hnone
  obtain ⟨key, hkey, after, hafter⟩ := hnone
  refine ⟨cs.takeWhile isBlank, key, hkey, after, fun _ hc => List.mem_takeWhile_imp hc, ?_⟩
  rw [Quoted.spelled, List.cons_append, List.append_assoc]
  show cs = cs.takeWhile isBlank ++ '"' :: (key.toList ++ '"' :: after)
  rw [← hafter, List.takeWhile_append_dropWhile]

/-- **The members that are rewritten** are those of flags. -/
theorem jsonFlag?_eq_some_iff : jsonFlag? cs = some (text, rest) ↔
    ∃ f : MemberFlag, cs = f.text ++ rest ∧ text = f.rewritten ∧ wordEnds rest = true := by
  constructor
  · intro h
    obtain ⟨blanks, key, hkey, more, hblanks, rfl⟩ := exists_flagKey h
    rw [jsonFlag?_spelled hblanks, if_pos (isSpelledFlag_flagKey hkey)] at h
    obtain ⟨⟨value, after⟩, hcolon, heq⟩ := Option.map_eq_some_iff.1 h
    obtain ⟨rfl, rfl⟩ := Prod.mk.inj heq
    obtain ⟨behind, between, b, hbehind, hbetween, rfl, rfl, hends⟩ :=
      colonFlag?_eq_some_iff.1 hcolon
    refine ⟨⟨blanks, key, behind, between, b, hblanks, hkey, hbehind, hbetween⟩, ?_, rfl, hends⟩
    simp only [MemberFlag.text, MemberFlag.numbered, List.append_assoc, List.cons_append,
      List.nil_append]
    rfl
  · rintro ⟨f, rfl, rfl, hends⟩
    have hcolon : colonFlag? ((f.numbered ++ rest).dropWhile isBlank) =
        some (boolText f.value, rest) := by
      refine colonFlag?_eq_some_iff.2 ⟨f.behind, f.between, f.value, f.areBlanks_behind,
        f.areBlanks_between, ?_, rfl, hends⟩
      rw [MemberFlag.numbered, List.append_assoc, List.cons_append, List.append_assoc]
      rfl
    rw [MemberFlag.text, List.append_assoc, List.append_assoc]
    refine (jsonFlag?_spelled f.areBlanks_before (flagKey f.key f.mem_flagKeys) _).trans ?_
    rw [if_pos (isSpelledFlag_flagKey f.mem_flagKeys), hcolon]
    rfl

/-- A character that no flag stands behind stays. -/
theorem replaceJsonFlags_keep
    (h : ∀ (f : MemberFlag) (rest : List Char), FlagBetween c rest → cs ≠ f.text ++ rest) :
    replaceJsonFlags 0 (c :: cs) = c :: replaceJsonFlags 0 cs := by
  by_cases hc : c = '{' ∨ c = ','
  · refine replaceJsonFlags_cons_of_none c (Option.eq_none_iff_forall_ne_some.2 ?_)
    rintro ⟨text, rest⟩ hflag
    obtain ⟨f, hf, -, hends⟩ := jsonFlag?_eq_some_iff.1 hflag
    exact h f rest ⟨hc, hends⟩ hf
  · obtain ⟨hbrace, hcomma⟩ := not_or.1 hc
    exact replaceJsonFlags_cons hbrace hcomma cs

/-- A flag gets its truth value, and the rewriting goes on behind it. -/
theorem replaceJsonFlags_turn (f : MemberFlag) (h : FlagBetween c rest) :
    replaceJsonFlags 0 (c :: (f.text ++ rest)) = c :: (f.rewritten ++ replaceJsonFlags 0 rest) := by
  have hopens : (c == '{' || c == ',') = true := by
    rw [Bool.or_eq_true, beq_iff_eq, beq_iff_eq]
    exact h.1
  have hflag : jsonFlag? (f.text ++ rest) = some (f.rewritten, rest) :=
    jsonFlag?_eq_some_iff.2 ⟨f, rfl, rfl, h.2⟩
  have hskip : (f.text ++ rest).length - rest.length = f.text.length := by
    rw [List.length_append, Nat.add_sub_cancel]
  rw [replaceJsonFlags, if_pos hopens, hflag]
  dsimp only
  rw [hskip, replaceJsonFlags_skip]

/-- **What becomes of a text** when the members that are flags get truth values. -/
theorem turnedMembers_iff : TurnedMembers cs cs' ↔ replaceJsonFlags 0 cs = cs' := by
  constructor
  · intro h
    induction h with
    | nil => rfl
    | keep h _ ih => rw [replaceJsonFlags_keep h, ih]
    | turn h _ ih => rw [replaceJsonFlags_turn _ h, ih]
  · rintro rfl
    induction hlength : cs.length using Nat.strong_induction_on generalizing cs with
    | _ n ih =>
      subst hlength
      cases cs with
      | nil => exact .nil
      | cons c cs =>
        by_cases h : ∃ (f : MemberFlag) (rest : List Char), FlagBetween c rest ∧ cs = f.text ++ rest
        · obtain ⟨f, rest, hrest, rfl⟩ := h
          rw [replaceJsonFlags_turn f hrest]
          refine .turn hrest (ih rest.length ?_ rfl)
          rw [List.length_cons, List.length_append]
          omega
        · have hkeep : ∀ (f : MemberFlag) (rest : List Char), FlagBetween c rest →
              cs ≠ f.text ++ rest := fun f rest hrest heq => h ⟨f, rest, hrest, heq⟩
          rw [replaceJsonFlags_keep hkeep]
          exact .keep hkeep (ih cs.length (Nat.lt_succ_self _) rfl)

/-- Characters without such a member stay. -/
theorem replaceJsonFlags_of_noMember (h : NoMember cs) : replaceJsonFlags 0 cs = cs := by
  induction cs with
  | nil => rfl
  | cons c cs ih =>
    have hkeep : ∀ (f : MemberFlag) (rest : List Char), FlagBetween c rest → cs ≠ f.text ++ rest :=
      fun f rest hrest heq => h [] c f rest hrest (congrArg (c :: ·) heq)
    have hmore : NoMember cs := fun before d f rest hrest heq =>
      h (c :: before) d f rest hrest (congrArg (c :: ·) heq)
    rw [replaceJsonFlags_keep hkeep, ih hmore]

/-- Where no brace and no comma stands, there is no such member. -/
theorem noMember_of_notMem (hbrace : '{' ∉ cs) (hcomma : ',' ∉ cs) : NoMember cs := by
  rintro before c f rest ⟨hc, -⟩ rfl
  rcases hc with rfl | rfl
  · exact hbrace (List.mem_append_right _ List.mem_cons_self)
  · exact hcomma (List.mem_append_right _ List.mem_cons_self)

/-- **What becomes of the lines** of a text that is not JSON. -/
theorem turnedLines (cs : List Char) :
    List.Forall₂ TurnedLine (fields '\n' cs) (fields '\n' (replaceYamlFlags cs)) := by
  have hline (line : List Char) : TurnedLine line ((yamlFlag? line).getD line) := by
    cases hflag : yamlFlag? line with
    | none =>
      refine .keep ?_
      rintro f rfl
      rw [f.yamlFlag?_text] at hflag
      cases hflag
    | some line' =>
      obtain ⟨f, rfl, rfl⟩ := yamlFlag?_eq_some_iff.1 hflag
      exact .turn f
  rw [fields_replaceYamlFlags]
  exact List.forall₂_map_right_iff.2 (List.forall₂_same.2 fun line _ => hline line)

end Members

end ResourceCli.Document
