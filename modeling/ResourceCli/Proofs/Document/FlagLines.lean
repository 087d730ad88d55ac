import ResourceCli.Proofs.Document.Flags
import ResourceCli.Proofs.Resource.Path
import ResourceCli.Proofs.Text.Cutting

/-!
# Lines with numeric flags

In a text that is not JSON, a flag is a line of its own: the key, perhaps behind blanks and the dash
of a list item, a colon, a zero or a one, and nothing else.  Which lines these are is said here
apart from the function that finds them (`yamlFlag?_eq_some_iff`), and the rewriting goes line by
line (`fields_replaceYamlFlags`).
-/

namespace ResourceCli.Document

open Json Text

/-- Blanks within a line. -/
def LineBlanks (cs : List Char) : Prop := ∀ c ∈ cs, isLineBlank c = true

/-- What may stand before the key on the line of a flag: blanks, and perhaps the dash of a list item
with more blanks behind it. -/
inductive IsLineStart : List Char → Prop
  /-- Blanks alone. -/
  | blanks {blanks : List Char} (h : LineBlanks blanks) : IsLineStart blanks
  /-- A dash among blanks. -/
  | item {blanks more : List Char} (h : LineBlanks blanks) (hmore : LineBlanks more)
    (hne : more ≠ []) : IsLineStart (blanks ++ '-' :: more)

/-- A line with a flag. -/
structure FlagLine where
  /-- What stands before the key. -/
  start : List Char
  /-- The key. -/
  key : String
  /-- The blanks after the colon. -/
  between : List Char
  /-- The truth value that the digit stands for. -/
  value : Bool
  /-- The blanks after the digit. -/
  after : List Char
  /-- The key is the first thing on the line. -/
  isLineStart : IsLineStart start
  /-- The key is the key of a flag. -/
  mem_flagKeys : key ∈ flagKeys
  /-- Blanks stand before the digit. -/
  lineBlanks_between : LineBlanks between
  /-- The digit is the last thing on the line. -/
  lineBlanks_after : LineBlanks after

namespace FlagLine

/-- The digit for a truth value. -/
def digit (b : Bool) : Char := if b then '1' else '0'

/-- What the key and the digit look like with their blanks. -/
def numbered (f : FlagLine) : List Char :=
  f.key.toList ++ ':' :: (f.between ++ digit f.value :: f.after)

/-- What the key looks like with a truth value. -/
def worded (f : FlagLine) : List Char := f.key.toList ++ ':' :: ' ' :: boolText f.value

/-- The characters of the line. -/
def text (f : FlagLine) : List Char := f.start ++ f.numbered

/-- The line with a truth value. -/
def rewritten (f : FlagLine) : List Char := f.start ++ f.worded

end FlagLine

section Lines

variable {cs start line line' more : List Char} {c : Char}

theorem flagText_eq_some_iff {value : List Char} :
    flagText c = some value ↔ ∃ b, c = FlagLine.digit b ∧ value = boolText b := by
  constructor
  · intro h
    unfold flagText at h
    split at h
    · exact ⟨false, rfl, (Option.some.inj h).symm⟩
    · exact ⟨true, rfl, (Option.some.inj h).symm⟩
    · cases h
  · rintro ⟨_ | _, rfl, rfl⟩ <;> rfl

theorem dropWhile_lineBlanks (h : LineBlanks cs) (hc : isLineBlank c = false)
    (rest : List Char) : (cs ++ c :: rest).dropWhile isLineBlank = c :: rest := by
  have hstop : ¬ isLineBlank c = true := by
    rw [hc]
    exact Bool.false_ne_true
  rw [List.dropWhile_append_of_pos h, List.dropWhile_cons_of_neg hstop]

theorem takeWhile_lineBlanks (h : LineBlanks cs) (hc : isLineBlank c = false)
    (rest : List Char) : (cs ++ c :: rest).takeWhile isLineBlank = cs := by
  have hstop : ¬ isLineBlank c = true := by
    rw [hc]
    exact Bool.false_ne_true
  rw [List.takeWhile_append_of_pos h, List.takeWhile_cons_of_neg hstop, List.append_nil]

theorem lineBlanks_takeWhile (cs : List Char) : LineBlanks (cs.takeWhile isLineBlank) :=
  fun _ hc => List.mem_takeWhile_imp hc

/-- The start of a line is blanks, or blanks with a dash among them. -/
theorem isLineStart_lineStart (cs : List Char) :
    IsLineStart (lineStart cs) ∧ ∃ rest, cs = lineStart cs ++ rest := by
  have hblanks := lineBlanks_takeWhile cs
  have hcs : cs = cs.takeWhile isLineBlank ++ cs.dropWhile isLineBlank :=
    List.takeWhile_append_dropWhile.symm
  unfold lineStart
  split
  · rename_i rest hdash
    split
    · exact ⟨.blanks hblanks, _, hcs⟩
    · rename_i hne
      refine ⟨.item hblanks (lineBlanks_takeWhile rest) hne, rest.dropWhile isLineBlank, ?_⟩
      rw [List.append_assoc, List.cons_append, List.takeWhile_append_dropWhile, ← hdash]
      exact hcs
  · exact ⟨.blanks hblanks, _, hcs⟩

/-- The start of a line ends where a character stands that is neither blank nor a dash. -/
theorem lineStart_append (h : IsLineStart start) (hblank : isLineBlank c = false) (hdash : c ≠ '-')
    (rest : List Char) : lineStart (start ++ c :: rest) = start := by
  cases h with
  | blanks h =>
    unfold lineStart
    rw [dropWhile_lineBlanks h hblank, takeWhile_lineBlanks h hblank]
    split
    · rename_i heq
      exact absurd (List.cons.inj heq).1 hdash
    · rfl
  | item h hmore hne =>
    rename_i blanks more
    have hdashed : isLineBlank '-' = false := rfl
    unfold lineStart
    rw [List.append_assoc, List.cons_append, dropWhile_lineBlanks h hdashed,
      takeWhile_lineBlanks h hdashed]
    have hbehind := takeWhile_lineBlanks hmore hblank rest
    split
    · rename_i rest' heq
      obtain rfl := (List.cons.inj heq).2
      split
      · rename_i hnil
        exact absurd (hbehind.symm.trans hnil) hne
      · rw [hbehind]
    · rename_i hother
      exact absurd rfl (hother _)

/-- The key of a flag begins with a letter, and no two of them stand at the same place. -/
theorem find?_flagKeys {key : String} (h : key ∈ flagKeys) (rest : List Char) :
    (flagKeys.find? fun k => (stripStart? (k.toList ++ [':']) (key.toList ++ ':' :: rest)).isSome) =
      some key := by
  have hself : (stripStart? (key.toList ++ [':']) (key.toList ++ ':' :: rest)).isSome = true := by
    rw [show key.toList ++ ':' :: rest = (key.toList ++ [':']) ++ rest by simp,
      stripStart?_append]
    rfl
  rcases List.mem_cons.1 h with rfl | h
  · exact List.find?_cons_of_pos hself
  · obtain rfl := List.mem_singleton.1 h
    have hother : ¬ (stripStart? ("readOnly".toList ++ [':'])
        ("required".toList ++ ':' :: rest)).isSome = true := by
      show ¬ (stripStart? ['r', 'e', 'a', 'd', 'O', 'n', 'l', 'y', ':']
        ('r' :: 'e' :: 'q' :: 'u' :: 'i' :: 'r' :: 'e' :: 'd' :: ':' :: rest)).isSome = true
      simp [stripStart?]
    rw [Bool.not_eq_true] at hother
    rw [flagKeys, List.find?_cons, hother]
    exact List.find?_cons_of_pos hself

theorem exists_cons_of_mem_flagKeys {key : String} (h : key ∈ flagKeys) :
    ∃ tail, key.toList = 'r' :: tail := by
  rcases List.mem_cons.1 h with rfl | h
  · exact ⟨"eadOnly".toList, by decide⟩
  · rw [List.mem_singleton.1 h]
    exact ⟨"equired".toList, by decide⟩

/-- A line is a flag by what stands behind its start. -/
theorem yamlFlag?_append {rest : List Char} (hstart : lineStart (start ++ rest) = start) :
    yamlFlag? (start ++ rest) =
      (flagKeys.find? fun key => (stripStart? (key.toList ++ [':']) rest).isSome).bind fun key =>
        match (rest.drop (key.toList ++ [':']).length).dropWhile isLineBlank with
        | digit :: rest => (flagText digit).bind fun value =>
          if rest.all isLineBlank then some (start ++ (key.toList ++ ':' :: ' ' :: value)) else none
        | [] => none := by
  have hlength (key : String) : (key.toList ++ [':']).length = key.length + 1 := by
    rw [List.length_append, String.length_toList, List.length_singleton]
  unfold yamlFlag?
  dsimp only
  rw [hstart, List.drop_left]
  simp only [hlength, List.append_assoc]
  rfl

/-- A line that is rewritten is that of a flag. -/
theorem exists_of_yamlFlag? (h : yamlFlag? line = some line') :
    ∃ f : FlagLine, line = f.text ∧ line' = f.rewritten := by
  obtain ⟨hstart, rest, hline⟩ := isLineStart_lineStart line
  have hsame : lineStart (lineStart line ++ rest) = lineStart line :=
    congrArg lineStart hline.symm
  rw [hline, yamlFlag?_append hsame] at h
  obtain ⟨key, hfind, h⟩ := Option.bind_eq_some_iff.1 h
  have hfound := List.find?_some hfind
  obtain ⟨behind, hbehind⟩ := Option.isSome_iff_exists.1 hfound
  have hrest := append_of_stripStart hbehind
  rw [hrest, List.drop_left] at h
  split at h
  · rename_i c after hdigit
    obtain ⟨value, hvalue, h⟩ := Option.bind_eq_some_iff.1 h
    obtain ⟨b, rfl, rfl⟩ := flagText_eq_some_iff.1 hvalue
    split at h
    · rename_i hafter
      refine ⟨⟨lineStart line, key, behind.takeWhile isLineBlank, b, after, hstart,
        List.mem_of_find?_eq_some hfind, lineBlanks_takeWhile behind, List.all_eq_true.1 hafter⟩,
        ?_, (Option.some.inj h).symm⟩
      rw [FlagLine.text, FlagLine.numbered, ← hdigit, List.takeWhile_append_dropWhile]
      rw [List.append_assoc, List.singleton_append] at hrest
      rw [← hrest]
      exact hline
    · cases h
  · cases h

/-- The start of the line of a flag ends at the key. -/
theorem FlagLine.lineStart_text (f : FlagLine) : lineStart f.text = f.start := by
  obtain ⟨tail, htail⟩ := exists_cons_of_mem_flagKeys f.mem_flagKeys
  rw [FlagLine.text, FlagLine.numbered, htail, List.cons_append]
  exact lineStart_append f.isLineStart rfl (by decide) _

/-- The line of a flag is rewritten. -/
theorem FlagLine.yamlFlag?_text (f : FlagLine) : yamlFlag? f.text = some f.rewritten := by
  have hstart : lineStart (f.start ++ f.numbered) = f.start := f.lineStart_text
  have hdigit : isLineBlank (FlagLine.digit f.value) = false := by
    cases f.value <;> rfl
  have hvalue : flagText (FlagLine.digit f.value) = some (boolText f.value) :=
    flagText_eq_some_iff.2 ⟨f.value, rfl, rfl⟩
  have hafter : f.after.all isLineBlank = true := List.all_eq_true.2 f.lineBlanks_after
  have hsplit : f.numbered =
      (f.key.toList ++ [':']) ++ (f.between ++ FlagLine.digit f.value :: f.after) :=
    List.append_cons _ _ _
  have hbehind : f.numbered.drop (f.key.toList ++ [':']).length =
      f.between ++ FlagLine.digit f.value :: f.after := by
    rw [hsplit, List.drop_left]
  rw [FlagLine.text, yamlFlag?_append hstart, FlagLine.numbered, find?_flagKeys f.mem_flagKeys,
    Option.bind_some, ← FlagLine.numbered, hbehind,
    dropWhile_lineBlanks f.lineBlanks_between hdigit]
  dsimp only
  rw [hvalue, Option.bind_some, if_pos hafter]
  rfl

/-- **The lines that are rewritten** are those of flags. -/
theorem yamlFlag?_eq_some_iff :
    yamlFlag? line = some line' ↔ ∃ f : FlagLine, line = f.text ∧ line' = f.rewritten := by
  constructor
  · exact exists_of_yamlFlag?
  · rintro ⟨f, rfl, rfl⟩
    exact f.yamlFlag?_text

/-- A line stays one line. -/
theorem notMem_yamlFlag? (h : '\n' ∉ line) (hflag : yamlFlag? line = some line') :
    '\n' ∉ line' := by
  obtain ⟨f, rfl, rfl⟩ := yamlFlag?_eq_some_iff.1 hflag
  rw [FlagLine.text, List.mem_append, not_or] at h
  rw [FlagLine.rewritten, FlagLine.worded, List.mem_append, not_or]
  refine ⟨h.1, ?_⟩
  obtain ⟨key, hkey⟩ : ∃ key, f.key = key := ⟨_, rfl⟩
  have hmem := f.mem_flagKeys
  rw [hkey] at hmem ⊢
  cases f.value <;> rcases List.mem_cons.1 hmem with rfl | hmem
  · decide
  · rw [List.mem_singleton.1 hmem]
    decide
  · decide
  · rw [List.mem_singleton.1 hmem]
    decide

/-- **The rewriting goes line by line.** -/
theorem fields_replaceYamlFlags (cs : List Char) :
    fields '\n' (replaceYamlFlags cs) =
      (fields '\n' cs).map fun line => (yamlFlag? line).getD line := by
  have hne : (fields '\n' cs).map (fun line => (yamlFlag? line).getD line) ≠ [] := by
    rw [Ne, List.map_eq_nil_iff]
    exact fields_ne_nil '\n' cs
  refine fields_intercalate hne fun line' hline' => ?_
  obtain ⟨line, hline, rfl⟩ := List.mem_map.1 hline'
  have hsep := notMem_of_mem_fields hline
  cases hflag : yamlFlag? line with
  | none => exact hsep
  | some line' => exact notMem_yamlFlag? hsep hflag

end Lines

end ResourceCli.Document
