import ResourceCli.Document.Flags
import ResourceCli.Proofs.Json.Layout
import ResourceCli.Proofs.Text.Cutting

/-!
# Texts without numeric flags

The text of a document is rewritten before it is read: a numeric flag becomes a truth value.  The
rewriting goes by the characters alone and knows nothing of strings, so that a string that talks
about flags could be hit.  It never is in the text of a JSON value without numbers.

What is rewritten ends a key with the quote after `readOnly` or `required`, and goes on with a colon
and a digit.  In the text of a value, a quote after a letter always ends a string, since a quote
within one comes after its backslash; and what follows the end of a string is either no colon, or
the colon of a key and then the start of a value, which is no digit.

* `Flagless`: that no key that could be a flag is followed by a number.
* `replaceJsonFlags_of_flagless`: such characters are not rewritten.
* `flagless_text`: the text of a value without numbers is such a text, in any layout.
* `normalizeFlags_text`: so the text of an object without numbers stays as it is.
-/

namespace ResourceCli.Document

open Json Text

/-- Whether a character is the last one of the key of a flag. -/
def endsKey (c : Char) : Bool := c == 'y' || c == 'd'

/-- Whether a colon and a digit of a flag come next, with blanks before each. -/
def numberFollows (cs : List Char) : Bool :=
  match cs.dropWhile isBlank with
  | ':' :: rest => ((rest.dropWhile isBlank).head?.bind flagText).isSome
  | _ => false

/-- No number follows a quote that could end the key of a flag. -/
def Flagless : List Char → Prop
  | [] => True
  | c :: cs =>
    (endsKey c = true → ∀ rest, cs = '"' :: rest → numberFollows rest = false) ∧ Flagless cs

/-! ## No flag is found -/

theorem Flagless.of_append : ∀ {cs rest : List Char}, Flagless (cs ++ rest) → Flagless rest
  | [], _, h => h
  | _ :: _, _, h => of_append h.2

/-- The key of a flag ends with one of the two characters. -/
theorem exists_endsKey_of_mem {key : String} (h : key ∈ flagKeys) :
    ∃ cs c, key.toList = cs ++ [c] ∧ endsKey c = true := by
  rcases List.mem_cons.1 h with rfl | h
  · exact ⟨"readOnl".toList, 'y', by decide, rfl⟩
  · rw [List.mem_singleton.1 h]
    exact ⟨"require".toList, 'd', by decide, rfl⟩

theorem numberFollows_of_flagless {key : String} (hkey : key ∈ flagKeys) {cs : List Char}
    (h : Flagless ('"' :: key.toList ++ ['"'] ++ cs)) : numberFollows cs = false := by
  obtain ⟨start, c, hstart, hc⟩ := exists_endsKey_of_mem hkey
  have hsplit : '"' :: key.toList ++ ['"'] ++ cs = ('"' :: start) ++ (c :: '"' :: cs) := by
    rw [hstart]
    simp only [List.cons_append, List.append_assoc, List.nil_append]
  rw [hsplit] at h
  exact h.of_append.1 hc cs rfl

theorem jsonFlag?_of_flagless {cs : List Char} (h : Flagless cs) : jsonFlag? cs = none := by
  rw [← List.takeWhile_append_dropWhile (p := isBlank) (l := cs)] at h
  have hdrop := h.of_append
  cases hfind : flagKeys.find? fun key =>
      (stripStart? ('"' :: key.toList ++ ['"']) (cs.dropWhile isBlank)).isSome with
  | none =>
    unfold jsonFlag?
    rw [hfind]
    rfl
  | some key =>
    have hkey := List.mem_of_find?_eq_some hfind
    have hstarts := List.find?_some hfind
    obtain ⟨after, hafter⟩ := Option.isSome_iff_exists.1 hstarts
    have hcs := append_of_stripStart hafter
    rw [hcs] at hdrop
    have hnumber := numberFollows_of_flagless hkey hdrop
    unfold jsonFlag?
    rw [hfind]
    show (match (((cs.dropWhile isBlank).drop ('"' :: key.toList ++ ['"']).length).dropWhile
      isBlank) with | ':' :: rest => _ | _ => none) = none
    rw [hcs, List.drop_left]
    unfold numberFollows at hnumber
    split
    · rename_i rest hrest
      rw [hrest] at hnumber
      change ((rest.dropWhile isBlank).head?.bind flagText).isSome = false at hnumber
      cases hdigit : rest.dropWhile isBlank with
      | nil => rfl
      | cons digit rest' =>
        rw [hdigit, List.head?_cons, Option.bind_some, Option.isSome_eq_false_iff,
          Option.isNone_iff_eq_none] at hnumber
        dsimp only
        rw [hnumber]
        rfl
    · rfl

/-- **Characters without a flag** are not rewritten. -/
theorem replaceJsonFlags_of_flagless : ∀ {cs : List Char}, Flagless cs → replaceJsonFlags 0 cs = cs
  | [], _ => rfl
  | c :: cs, h => by
    rw [replaceJsonFlags, jsonFlag?_of_flagless h.2, replaceJsonFlags_of_flagless h.2, ite_self]

/-! ## Building texts without a flag -/

theorem Flagless.cons {c : Char} {cs : List Char} (hc : endsKey c = false) (h : Flagless cs) :
    Flagless (c :: cs) :=
  ⟨fun hend => absurd (hc.symm.trans hend) Bool.false_ne_true, h⟩

theorem Flagless.cons_cons (c : Char) {d : Char} {cs : List Char} (hd : d ≠ '"')
    (h : Flagless (d :: cs)) : Flagless (c :: d :: cs) :=
  ⟨fun _ _ heq => absurd (List.cons.inj heq).1 hd, h⟩

theorem Flagless.cons_quote (c : Char) {cs : List Char} (hcs : numberFollows cs = false)
    (h : Flagless cs) : Flagless (c :: '"' :: cs) := by
  refine ⟨fun _ rest heq => ?_, h.cons rfl⟩
  rw [← (List.cons.inj heq).2]
  exact hcs

theorem Flagless.append {cs rest : List Char} (hcs : ∀ c ∈ cs, endsKey c = false)
    (h : Flagless rest) : Flagless (cs ++ rest) := by
  induction cs with
  | nil => exact h
  | cons c cs ih =>
    exact (ih fun d hd => hcs d (List.mem_cons_of_mem _ hd)).cons (hcs c List.mem_cons_self)

theorem hexDigit_ne_quote {n : Nat} (hn : n < 16) : hexDigit n ≠ '"' := by
  revert n
  decide

/-- The characters of a string and its closing quote, after any character. -/
theorem Flagless.cons_escaped {rest : List Char} (hrest : numberFollows rest = false)
    (h : Flagless rest) (cs : List Char) (a : Char) :
    Flagless (a :: (cs.flatMap escapeChar ++ '"' :: rest)) := by
  induction cs generalizing a with
  | nil => exact h.cons_quote a hrest
  | cons c cs ih =>
    rw [List.flatMap_cons, List.append_assoc]
    rcases escapeChar_cases c with ⟨hc, -, -, heq⟩ | ⟨d, -, heq⟩ | ⟨hlow, heq⟩
    · rw [heq]
      exact (ih c).cons_cons a hc
    · -- A quote within the string comes after its backslash, which ends no key.
      rw [heq]
      exact ((ih d).cons rfl).cons_cons a (by decide)
    · rw [heq]
      have hhigh := (ih (hexDigit (c.toNat % 16))).cons_cons (hexDigit (c.toNat / 16))
        (hexDigit_ne_quote (by omega))
      have hzero := hhigh.cons_cons '0' (hexDigit_ne_quote (by omega))
      exact (((hzero.cons rfl).cons rfl).cons rfl).cons_cons a (by decide)

theorem Flagless.stringText {rest : List Char} (hrest : numberFollows rest = false)
    (h : Flagless rest) (s : String) : Flagless (stringText s ++ rest) := by
  rw [Json.stringText, List.cons_append, List.append_assoc, List.singleton_append]
  exact h.cons_escaped hrest s.toList '"'

/-! ## What follows a string -/

theorem isBlank_of_isSpace {c : Char} : isSpace c = true → isBlank c = true :=
  forall_of_isSpace (P := fun c => isBlank c = true) rfl rfl rfl rfl c

theorem endsKey_of_isSpace {c : Char} : isSpace c = true → endsKey c = false :=
  forall_of_isSpace (P := fun c => endsKey c = false) rfl rfl rfl rfl c

theorem dropWhile_isBlank_spaces {blanks : List Char} (hb : Spaces blanks) (rest : List Char) :
    (blanks ++ rest).dropWhile isBlank = rest.dropWhile isBlank := by
  induction blanks with
  | nil => rfl
  | cons c blanks ih =>
    rw [List.cons_append, List.dropWhile_cons_of_pos (isBlank_of_isSpace (hb c List.mem_cons_self))]
    exact ih fun d hd => hb d (List.mem_cons_of_mem _ hd)

theorem numberFollows_spaces {blanks : List Char} (hb : Spaces blanks) (rest : List Char) :
    numberFollows (blanks ++ rest) = numberFollows rest := by
  unfold numberFollows
  rw [dropWhile_isBlank_spaces hb]

theorem isBlank_of_mem_opening : ∀ c ∈ opening, isBlank c = false :=
  forall_mem_opening rfl rfl rfl rfl rfl

theorem flagText_of_mem_opening : ∀ c ∈ opening, flagText c = none :=
  forall_mem_opening rfl rfl rfl rfl rfl

/-- After the colon of a key comes the start of a value, which is no digit. -/
theorem numberFollows_colon (l : Layout) (level : Nat) {v : Json} (hv : v.worded = true)
    (rest : List Char) :
    numberFollows (':' :: (l.afterColon ++ (l.text level v ++ rest))) = false := by
  obtain ⟨c, hc, cs, hcs⟩ := exists_text_eq_cons l level hv
  show ((((l.afterColon ++ (l.text level v ++ rest)).dropWhile isBlank).head?).bind
    flagText).isSome = false
  have hblank : ¬ isBlank c = true := by
    rw [isBlank_of_mem_opening c hc]
    exact Bool.false_ne_true
  rw [dropWhile_isBlank_spaces l.spaces_afterColon, hcs, List.cons_append,
    List.dropWhile_cons_of_neg hblank, List.head?_cons, Option.bind_some,
    flagText_of_mem_opening c hc]
  rfl

theorem numberFollows_items (l : Layout) (level : Nat) (vs : List Json) (rest : List Char) :
    numberFollows (l.items level false vs ++ rest) = false := by
  cases vs with
  | nil =>
    rw [l.items_nil_append, numberFollows_spaces (l.spaces_end level false)]
    rfl
  | cons v vs =>
    rw [l.items_cons_append]
    rfl

theorem numberFollows_members (l : Layout) (level : Nat) (ms : List (String × Json))
    (rest : List Char) : numberFollows (l.members level false ms ++ rest) = false := by
  cases ms with
  | nil =>
    rw [l.members_nil_append, numberFollows_spaces (l.spaces_end level false)]
    rfl
  | cons m ms =>
    rw [l.members_cons_append]
    rfl

theorem Flagless.spaces {blanks rest : List Char} (hb : Spaces blanks) (h : Flagless rest) :
    Flagless (blanks ++ rest) :=
  h.append fun c hc => endsKey_of_isSpace (hb c hc)

theorem Flagless.separator (first : Bool) {rest : List Char} (h : Flagless rest) :
    Flagless ((if first then [] else [',']) ++ rest) := by
  cases first with
  | true => exact h
  | false => exact h.cons rfl

/-! ## The text of a value -/

section Texts

variable (l : Layout)

mutual

/-- **The text of a value** without numbers has no flag in it, and none begins at its end if what
follows is no colon. -/
theorem flagless_text : ∀ (v : Json), v.worded = true → ∀ (level : Nat) {rest : List Char},
    Flagless rest → numberFollows rest = false → Flagless (l.text level v ++ rest)
  | .null, hv, _, _, _, _ => absurd hv Bool.false_ne_true
  | .num _, hv, _, _, _, _ => absurd hv Bool.false_ne_true
  | .bool true, _, _, _, h, _ => (((h.cons rfl).cons rfl).cons rfl).cons rfl
  | .bool false, _, _, _, h, _ => ((((h.cons rfl).cons rfl).cons rfl).cons rfl).cons rfl
  | .str s, _, _, _, h, hrest => h.stringText hrest s
  | .arr items, hv, level, _, h, _ => by
    rw [Layout.text]
    exact (flagless_items items hv level true h).cons rfl
  | .obj members, hv, level, _, h, _ => by
    rw [Layout.text]
    exact (flagless_members members hv level true h).cons rfl

theorem flagless_items : ∀ (items : List Json), wordedItems items = true →
    ∀ (level : Nat) (first : Bool) {rest : List Char}, Flagless rest →
    Flagless (l.items level first items ++ rest)
  | [], _, level, first, _, h => by
    rw [l.items_nil_append]
    exact (h.cons rfl).spaces (l.spaces_end level first)
  | v :: items, hitems, level, first, rest, h => by
    rw [wordedItems, Bool.and_eq_true] at hitems
    have hlater := flagless_items items hitems.2 level false h
    have hvalue := flagless_text v hitems.1 (level + 1) hlater
      (numberFollows_items l level items rest)
    rw [l.items_cons_append]
    exact (hvalue.spaces (l.spaces_gap (level + 1))).separator first

theorem flagless_members : ∀ (members : List (String × Json)), wordedMembers members = true →
    ∀ (level : Nat) (first : Bool) {rest : List Char}, Flagless rest →
    Flagless (l.members level first members ++ rest)
  | [], _, level, first, _, h => by
    rw [l.members_nil_append]
    exact (h.cons rfl).spaces (l.spaces_end level first)
  | (k, v) :: members, hmembers, level, first, rest, h => by
    rw [wordedMembers, Bool.and_eq_true] at hmembers
    have hlater := flagless_members members hmembers.2 level false h
    have hvalue := flagless_text v hmembers.1 (level + 1) hlater
      (numberFollows_members l level members rest)
    have hcolon := (hvalue.spaces l.spaces_afterColon).cons (c := ':') rfl
    have hkey := hcolon.cons_escaped
      (numberFollows_colon l (level + 1) hmembers.1 (l.members level false members ++ rest))
      k.toList '"'
    rw [l.members_cons_append]
    exact (hkey.spaces (l.spaces_gap (level + 1))).separator first

end

theorem looksJson_text (members : List (String × Json)) :
    looksJson (String.ofList (l.text 0 (.obj members))) = true := by
  unfold looksJson
  rw [String.toList_ofList, Layout.text]
  rfl

/-- **The text of an object** without numbers stays as it is before it is read. -/
theorem normalizeFlags_text {members : List (String × Json)} (hm : wordedMembers members = true) :
    normalizeFlags (String.ofList (l.text 0 (.obj members))) =
      String.ofList (l.text 0 (.obj members)) := by
  have hend : Flagless [] := trivial
  have hflagless := flagless_text l (.obj members) hm 0 hend rfl
  rw [List.append_nil] at hflagless
  unfold normalizeFlags
  rw [looksJson_text, String.toList_ofList, replaceJsonFlags_of_flagless hflagless]
  rfl

end Texts

end ResourceCli.Document
