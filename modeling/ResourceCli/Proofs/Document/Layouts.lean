import ResourceCli.Proofs.Document.FlagLines
import ResourceCli.Proofs.Yaml.Built

/-!
# What the rewriting of flags makes of a mapping

A document that is a mapping in block layout stays one when its lines are rewritten: a flag with a
digit gets its truth value, a line of a literal text that looks like a flag is rewritten too, and an
item of a list that looks like one becomes a mapping.  Nothing else changes.

* `yamlFlag?_phrase`, `yamlFlag?_bar`, `yamlFlag?_blanks`, `yamlFlag?_alone`: the lines of a layout.
* `Mapping.rewritten`: the layout that comes out.
* `Mapping.rewrites`: it comes out.
-/

namespace ResourceCli.Yaml

open Document Text

/-! ## Lines -/

section Lines

variable {line start rest : List Char}

theorem replaceYamlFlags_line (h : '\n' ∉ line) (rest : List Char) :
    replaceYamlFlags (line ++ '\n' :: rest) =
      (yamlFlag? line).getD line ++ '\n' :: replaceYamlFlags rest := by
  obtain ⟨l, ls, hfields⟩ := List.exists_cons_of_ne_nil (fields_ne_nil '\n' rest)
  rw [replaceYamlFlags, fields_append_cons h, replaceYamlFlags, hfields]
  rfl

/-- The lines before a piece are rewritten on their own. -/
theorem replaceYamlFlags_newline (h : '\n' ∉ line) (column : Nat) (rest : List Char) :
    ∀ empty : Nat, replaceYamlFlags (line ++ (newline empty column ++ rest)) =
      (yamlFlag? line).getD line ++
        (newline empty 0 ++ replaceYamlFlags (spaces column ++ rest)) := by
  intro empty
  have hempty : replaceYamlFlags (List.replicate empty '\n' ++ (spaces column ++ rest)) =
      List.replicate empty '\n' ++ replaceYamlFlags (spaces column ++ rest) := by
    induction empty with
    | zero => rfl
    | succ empty ih =>
      have hnil : '\n' ∉ ([] : List Char) := List.not_mem_nil
      have hline := replaceYamlFlags_line hnil
        (List.replicate empty '\n' ++ (spaces column ++ rest))
      rw [ih] at hline
      exact hline
  rw [newline, List.cons_append, List.append_assoc, replaceYamlFlags_line h, hempty, newline,
    List.cons_append, List.append_assoc]
  rfl

theorem Key.exists_head (k : Key) : ∃ c cs, k.text = c :: cs ∧ isLineBlank c = false ∧ c ≠ '-' := by
  cases k with
  | word k =>
    exact ⟨_, _, rfl, isBlank_of_inWord (k.chunk.inWord _ List.mem_cons_self),
      ne_of_isMark k.isStart rfl⟩
  | quote q => exact ⟨_, _, rfl, by cases q.single <;> exact ⟨rfl, by decide⟩⟩

theorem Phrase.exists_head (p : Phrase) :
    ∃ c cs, p.text = c :: cs ∧ isLineBlank c = false ∧ c ≠ '-' := by
  cases p with
  | words w =>
    exact ⟨_, _, rfl, isBlank_of_inWord (w.first.inWord _ List.mem_cons_self),
      ne_of_isMark w.isStart rfl⟩
  | quote q => exact ⟨_, _, rfl, by cases q.single <;> exact ⟨rfl, by decide⟩⟩

/-- What stands behind the start of the line of a flag is its key, its colon and its digit. -/
theorem numbered_of_text {f : FlagLine} (hstart : IsLineStart start) {c : Char} {cs : List Char}
    (hc : isLineBlank c = false ∧ c ≠ '-') (h : start ++ c :: cs = f.text) :
    f.start = start ∧ f.numbered = c :: cs := by
  have hline := lineStart_append hstart hc.1 hc.2 cs
  rw [h, f.lineStart_text] at hline
  refine ⟨hline, ?_⟩
  rw [FlagLine.text, hline] at h
  exact (List.append_cancel_left h).symm

theorem notMem_flagKeys {key : String} (h : key ∈ flagKeys) : ':' ∉ key.toList := by
  rcases List.mem_cons.1 h with rfl | h
  · decide
  · rw [List.mem_singleton.1 h]
    decide

theorem ne_quoteMark {c : Char} (hsingle : c ≠ '\'') (hdouble : c ≠ '"') (single : Bool) :
    quoteMark single ≠ c := by
  cases single with
  | false => exact hdouble.symm
  | true => exact hsingle.symm

/-- A text in quotes is no flag. -/
theorem Quote.ne_numbered (q : Quote) (f : FlagLine) (rest : List Char) :
    f.numbered ≠ q.text ++ rest := by
  intro h
  obtain ⟨tail, htail⟩ := exists_cons_of_mem_flagKeys f.mem_flagKeys
  rw [FlagLine.numbered, htail] at h
  exact ne_quoteMark (by decide) (by decide) q.single (List.cons.inj h).1.symm

/-- The line of a key is that of a flag only if the key is one and a digit stands behind it. -/
theorem of_text_key {f : FlagLine} (hstart : IsLineStart start) (k : Key)
    (h : start ++ (k.text ++ ':' :: rest) = f.text) : f.start = start ∧ k.style = .plain ∧
      k.text = f.key.toList ∧ rest = f.between ++ FlagLine.digit f.value :: f.after := by
  obtain ⟨c, cs, htext, hc⟩ := k.exists_head
  rw [htext, List.cons_append] at h
  obtain ⟨heq, hnumbered⟩ := numbered_of_text hstart hc h
  rw [← List.cons_append, ← htext] at hnumbered
  refine ⟨heq, ?_⟩
  cases k with
  | word k =>
    rw [FlagLine.numbered] at hnumbered
    have hcut := congrArg (cutFirst ':') hnumbered
    rw [cutFirst_append (notMem_flagKeys f.mem_flagKeys), Key.text,
      cutFirst_append k.noColon] at hcut
    obtain ⟨hkey, hrest⟩ := Prod.mk.inj (Option.some.inj hcut)
    exact ⟨rfl, hkey.symm, hrest.symm⟩
  | quote q => exact absurd hnumbered (q.ne_numbered f _)

theorem Words.takeWhile_text (w : Words) (trail : Blanks) :
    (w.text ++ trail.text).takeWhile (!isBlank ·) = w.first.text := by
  have hbehind : ∀ c ∈ (w.more.flatMap (fun c => c.1.text ++ c.2.text) ++ trail.text).head?,
      (!isBlank c) = false := by
    intro c hc
    have hblank : isBlank c = true := by
      cases hmore : w.more with
      | nil =>
        rw [hmore] at hc
        exact trail.areBlanks c (List.mem_of_mem_head? hc)
      | cons g more =>
        obtain ⟨b, bs, hgap⟩ := List.exists_cons_of_ne_nil g.1.ne_nil
        rw [hmore, List.flatMap_cons, hgap] at hc
        obtain rfl := Option.some.inj hc
        exact g.1.areBlanks b (hgap ▸ List.mem_cons_self)
    rw [hblank]
    rfl
  rw [Words.text, List.append_assoc]
  refine takeWhile_append_of_head? (fun c hc => ?_) hbehind
  rw [isBlank_of_inWord (w.first.inWord c hc)]
  rfl

/-- A line of words with nothing but blanks behind its first word has no other word. -/
theorem Words.text_of_blanks (w : Words) (trail : Blanks) {cs bs : List Char}
    (hcs : ∀ c ∈ cs, isBlank c = false) (hbs : LineBlanks bs)
    (h : w.text ++ trail.text = cs ++ bs) : w.text = cs ∧ trail.text = bs := by
  have hfirst : w.first.text = cs := by
    rw [← w.takeWhile_text trail, h]
    refine takeWhile_append_of_head? (fun c hc => ?_) fun c hc => ?_
    · rw [hcs c hc]
      rfl
    · rw [show isBlank c = true from hbs c (List.mem_of_mem_head? hc)]
      rfl
  have hmore : w.more = [] := by
    cases hmore : w.more with
    | nil => rfl
    | cons g more =>
      rw [Words.text, hfirst, List.append_assoc, hmore, List.flatMap_cons] at h
      have hmem : g.2.head ∈ bs := by
        rw [← List.append_cancel_left h]
        exact List.mem_append_left _ (List.mem_append_left _ (List.mem_append_right _
          List.mem_cons_self))
      have hblank : isBlank g.2.head = true := hbs _ hmem
      rw [isBlank_of_inWord (g.2.inWord _ List.mem_cons_self)] at hblank
      cases hblank
  have htext : w.text = cs := by
    rw [Words.text, hmore, hfirst, List.flatMap_nil, List.append_nil]
  rw [htext] at h
  exact ⟨htext, List.append_cancel_left h⟩

/-- The truth value of a digit that stands alone. -/
def Phrase.digit? : Phrase → Option Bool
  | .words w => [false, true].find? fun b => w.text == [FlagLine.digit b]
  | .quote _ => none

theorem Phrase.digit?_eq_some_iff {p : Phrase} {b : Bool} :
    p.digit? = some b ↔ ∃ w, p = .words w ∧ w.text = [FlagLine.digit b] := by
  constructor
  · intro h
    cases p with
    | words w =>
      have hfound := List.find?_some (p := fun b => w.text == [FlagLine.digit b]) h
      exact ⟨w, rfl, beq_iff_eq.1 hfound⟩
    | quote q => cases h
  · rintro ⟨w, rfl, hw⟩
    rw [Phrase.digit?, hw]
    cases b <;> rfl

/-- Whether a key is that of a flag. -/
def Key.isFlag (k : Key) : Bool := k.style == .plain && flagKeys.contains k.said

theorem Key.toList_said {k : Key} (h : k.style = .plain) : k.said.toList = k.text := by
  cases k with
  | word k => exact String.toList_ofList
  | quote q => cases h

theorem ne_digit {c : Char} (hzero : c ≠ '0') (hone : c ≠ '1') (b : Bool) :
    FlagLine.digit b ≠ c := by
  cases b with
  | false => exact hzero.symm
  | true => exact hone.symm

theorem isBlank_digit (b : Bool) : isBlank (FlagLine.digit b) = false := by cases b <;> rfl

theorem dropWhile_digit (f : FlagLine) {c : Char} {gap cs : List Char} (hgap : LineBlanks gap)
    (hc : isLineBlank c = false)
    (h : gap ++ c :: cs = f.between ++ FlagLine.digit f.value :: f.after) :
    c :: cs = FlagLine.digit f.value :: f.after := by
  have hdrop := congrArg (List.dropWhile isLineBlank) h
  rwa [dropWhile_lineBlanks hgap hc,
    dropWhile_lineBlanks f.lineBlanks_between (isBlank_digit f.value)] at hdrop

/-- The digit of a flag is behind the colon of its key. -/
theorem digit?_of_append {f : FlagLine} (gap : Gap) (p : Phrase) (trail : Blanks)
    (h : gap.text ++ (p.text ++ trail.text) = f.between ++ FlagLine.digit f.value :: f.after) :
    p.digit? = some f.value := by
  obtain ⟨c, cs, hp, hc, -⟩ := p.exists_head
  rw [hp, List.cons_append] at h
  have hdrop := dropWhile_digit f gap.areBlanks hc h
  rw [← List.cons_append, ← hp, ← List.singleton_append] at hdrop
  have hdigit : ∀ c ∈ [FlagLine.digit f.value], isBlank c = false := fun c hc => by
    rw [List.mem_singleton.1 hc]
    exact isBlank_digit f.value
  cases p with
  | words w =>
    exact Phrase.digit?_eq_some_iff.2
      ⟨w, rfl, (w.text_of_blanks trail hdigit f.lineBlanks_after hdrop).1⟩
  | quote q =>
    exact absurd (List.cons.inj hdrop).1 (ne_quoteMark (ne_digit (by decide) (by decide) f.value)
      (ne_digit (by decide) (by decide) f.value) q.single)

/-- **The line of a key and its text** is rewritten if the key is that of a flag and the text a
digit. -/
theorem yamlFlag?_phrase (hstart : IsLineStart start) (k : Key) (gap : Gap) (p : Phrase)
    (trail : Blanks) :
    yamlFlag? (start ++ (k.text ++ ':' :: (gap.text ++ (p.text ++ trail.text)))) =
      (if k.isFlag then p.digit? else none).map fun b =>
        start ++ (k.text ++ ':' :: ' ' :: Json.boolText b) := by
  refine Option.ext fun line' => ?_
  rw [yamlFlag?_eq_some_iff, Option.map_eq_some_iff]
  constructor
  · rintro ⟨f, htext, rfl⟩
    obtain ⟨hsame, hstyle, hkey, hrest⟩ := of_text_key hstart k htext
    have hflag : k.isFlag = true := by
      have hsaid : k.said = f.key := String.toList_inj.1 ((Key.toList_said hstyle).trans hkey)
      rw [Key.isFlag, hstyle, hsaid, Bool.and_eq_true]
      exact ⟨rfl, List.contains_iff_mem.2 f.mem_flagKeys⟩
    refine ⟨f.value, ?_, ?_⟩
    · rw [if_pos hflag]
      exact digit?_of_append gap p trail hrest
    · rw [FlagLine.rewritten, FlagLine.worded, hsame, hkey]
  · rintro ⟨b, hb, rfl⟩
    cases hflag : k.isFlag with
    | false =>
      rw [hflag] at hb
      cases hb
    | true =>
      rw [hflag, if_pos rfl] at hb
      obtain ⟨w, rfl, hw⟩ := Phrase.digit?_eq_some_iff.1 hb
      rw [Key.isFlag, Bool.and_eq_true, beq_iff_eq, List.contains_iff_mem] at hflag
      have hkey := Key.toList_said hflag.1
      refine ⟨⟨start, k.said, gap.text, b, trail.text, hstart, hflag.2, gap.areBlanks,
        trail.areBlanks⟩, ?_, ?_⟩
      · rw [FlagLine.text, FlagLine.numbered, hkey, Phrase.text, hw]
        rfl
      · rw [FlagLine.rewritten, FlagLine.worded, hkey]

/-- The line of a key with a literal text below it stays. -/
theorem yamlFlag?_bar (hstart : IsLineStart start) (k : Key) (gap : Gap) (trail : Blanks) :
    yamlFlag? (start ++ (k.text ++ ':' :: (gap.text ++ '|' :: trail.text))) = none := by
  rw [Option.eq_none_iff_forall_ne_some]
  intro line' h
  obtain ⟨f, htext, -⟩ := yamlFlag?_eq_some_iff.1 h
  obtain ⟨-, -, -, hrest⟩ := of_text_key hstart k htext
  exact ne_digit (by decide) (by decide) f.value
    (List.cons.inj (dropWhile_digit f gap.areBlanks rfl hrest)).1.symm

/-- The line of a key with nothing behind it stays. -/
theorem yamlFlag?_blanks (hstart : IsLineStart start) (k : Key) (trail : Blanks) :
    yamlFlag? (start ++ (k.text ++ ':' :: trail.text)) = none := by
  rw [Option.eq_none_iff_forall_ne_some]
  intro line' h
  obtain ⟨f, htext, -⟩ := yamlFlag?_eq_some_iff.1 h
  obtain ⟨-, -, -, hrest⟩ := of_text_key hstart k htext
  have hblank := trail.areBlanks (FlagLine.digit f.value)
    (hrest ▸ List.mem_append_right _ List.mem_cons_self)
  rw [isBlank_digit] at hblank
  cases hblank

/-- A line of a literal text is rewritten as it is without its indentation. -/
theorem yamlFlag?_indented {bs : List Char} (hbs : LineBlanks bs) (line : List Char) :
    yamlFlag? (bs ++ line) = (yamlFlag? line).map (bs ++ ·) := by
  obtain ⟨-, rest, hline⟩ := isLineStart_lineStart line
  have hstart : lineStart (bs ++ line) = bs ++ lineStart line := by
    unfold lineStart
    rw [List.takeWhile_append_of_pos hbs, List.dropWhile_append_of_pos hbs]
    split
    · dsimp only
      split
      · rfl
      · exact List.append_assoc _ _ _
    · rfl
  have hsame : lineStart (lineStart line ++ rest) = lineStart line := congrArg lineStart hline.symm
  have hshifted : lineStart ((bs ++ lineStart line) ++ rest) = bs ++ lineStart line := by
    rw [List.append_assoc, ← hline]
    exact hstart
  rw [hline, yamlFlag?_append hsame, ← List.append_assoc, yamlFlag?_append hshifted]
  rw [Option.map_bind]
  congr 1
  funext key
  dsimp only [Function.comp]
  split
  · rw [Option.map_bind]
    congr 1
    funext value
    dsimp only [Function.comp]
    split
    · rw [Option.map_some, List.append_assoc]
    · rfl
  · rfl

/-! ## Items -/

/-- The key `readOnly`. -/
def Key.readOnly : Key :=
  .word ⟨⟨'r', ['e', 'a', 'd', 'O', 'n', 'l', 'y'], List.all_eq_true.1 rfl, by decide, by decide⟩,
    rfl, by decide, by decide⟩

/-- The key `required`. -/
def Key.required : Key :=
  .word ⟨⟨'r', ['e', 'q', 'u', 'i', 'r', 'e', 'd'], List.all_eq_true.1 rfl, by decide, by decide⟩,
    rfl, by decide, by decide⟩

/-- The keys of flags, with truth values. -/
def flags : List (Key × Bool) :=
  [(.readOnly, false), (.readOnly, true), (.required, false), (.required, true)]

/-- The flag that a word looks like, with a digit right behind its colon. -/
def Phrase.flag? : Phrase → Option (Key × Bool)
  | .words w => flags.find? fun f => w.text == f.1.text ++ [':', FlagLine.digit f.2]
  | .quote _ => none

theorem mem_flags {k : Key} {b : Bool} (h : (k, b) ∈ flags) :
    k.style = .plain ∧ k.said ∈ flagKeys := by
  simp only [flags, List.mem_cons, Prod.mk.injEq, List.not_mem_nil, or_false] at h
  rcases h with ⟨rfl, -⟩ | ⟨rfl, -⟩ | ⟨rfl, -⟩ | ⟨rfl, -⟩ <;> exact ⟨rfl, by decide⟩

theorem exists_mem_flags (f : FlagLine) : ∃ k, (k, f.value) ∈ flags ∧ k.text = f.key.toList := by
  rcases List.mem_cons.1 f.mem_flagKeys with h | h
  · refine ⟨.readOnly, ?_, by rw [h]; decide⟩
    cases f.value <;> simp [flags]
  · refine ⟨.required, ?_, by rw [List.mem_singleton.1 h]; decide⟩
    cases f.value <;> simp [flags]

theorem Phrase.flag?_eq_some_iff {p : Phrase} {k : Key} {b : Bool} : p.flag? = some (k, b) ↔
    (k, b) ∈ flags ∧ ∃ w, p = .words w ∧ w.text = k.text ++ [':', FlagLine.digit b] := by
  constructor
  · intro h
    cases p with
    | words w =>
      change flags.find? (fun f => w.text == f.1.text ++ [':', FlagLine.digit f.2]) = _ at h
      have hfound := List.find?_some
        (p := fun f : Key × Bool => w.text == f.1.text ++ [':', FlagLine.digit f.2]) h
      exact ⟨List.mem_of_find?_eq_some h, w, rfl, beq_iff_eq.1 hfound⟩
    | quote q => cases h
  · rintro ⟨hmem, w, rfl, hw⟩
    rw [Phrase.flag?, hw]
    simp only [flags, List.mem_cons, Prod.mk.injEq, List.not_mem_nil, or_false] at hmem
    rcases hmem with ⟨rfl, rfl⟩ | ⟨rfl, rfl⟩ | ⟨rfl, rfl⟩ | ⟨rfl, rfl⟩ <;> rfl

/-- A text on one line that is the line of a flag has no blank behind its colon. -/
theorem Words.of_numbered (w : Words) (trail : Blanks) {f : FlagLine}
    (h : w.text ++ trail.text = f.numbered) :
    w.text = f.key.toList ++ [':', FlagLine.digit f.value] ∧ f.between = [] := by
  have hkey : ∀ c ∈ f.key.toList ++ [':'], isBlank c = false := by
    have hall : (f.key.toList ++ [':']).all (!isBlank ·) = true := by
      rcases List.mem_cons.1 f.mem_flagKeys with h | h
      · rw [h]
        rfl
      · rw [List.mem_singleton.1 h]
        rfl
    simpa using List.all_eq_true.1 hall
  cases hbetween : f.between with
  | nil =>
    have hcs : ∀ c ∈ f.key.toList ++ [':', FlagLine.digit f.value], isBlank c = false := by
      intro c hc
      rw [List.append_cons, List.mem_append] at hc
      rcases hc with hc | hc
      · exact hkey c hc
      · rw [List.mem_singleton.1 hc]
        exact isBlank_digit f.value
    rw [FlagLine.numbered, hbetween] at h
    refine ⟨(w.text_of_blanks trail hcs f.lineBlanks_after (h.trans ?_)).1, rfl⟩
    rw [List.append_assoc]
    rfl
  | cons b bs =>
    -- With a blank behind the colon, the first word would end with the colon.
    have hb : isBlank b = true := f.lineBlanks_between b (hbetween ▸ List.mem_cons_self)
    have hfirst := w.takeWhile_text trail
    rw [h, FlagLine.numbered, hbetween, List.append_cons, takeWhile_append_of_head?
      (fun c hc => by rw [hkey c hc]; rfl) (fun c hc => by
        obtain rfl := Option.some.inj hc
        rw [hb]
        rfl)] at hfirst
    refine absurd ?_ w.first.noColon
    rw [show w.first.head :: w.first.tail = _ from hfirst.symm, List.getLast?_concat]

/-- **A text that stands alone on a line** is rewritten if it looks like a flag. -/
theorem yamlFlag?_alone (hstart : IsLineStart start) (p : Phrase) (trail : Blanks) :
    yamlFlag? (start ++ (p.text ++ trail.text)) =
      p.flag?.map fun f => start ++ (f.1.text ++ ':' :: ' ' :: Json.boolText f.2) := by
  refine Option.ext fun line' => ?_
  rw [yamlFlag?_eq_some_iff, Option.map_eq_some_iff]
  constructor
  · rintro ⟨f, htext, rfl⟩
    obtain ⟨c, cs, hp, hc⟩ := p.exists_head
    rw [hp, List.cons_append] at htext
    obtain ⟨hsame, hnumbered⟩ := numbered_of_text hstart hc htext
    rw [← List.cons_append, ← hp] at hnumbered
    obtain ⟨k, hmem, hkey⟩ := exists_mem_flags f
    cases p with
    | words w =>
      have hw := (w.of_numbered trail hnumbered.symm).1
      rw [← hkey] at hw
      refine ⟨(k, f.value), Phrase.flag?_eq_some_iff.2 ⟨hmem, w, rfl, hw⟩, ?_⟩
      rw [FlagLine.rewritten, FlagLine.worded, hsame, hkey]
    | quote q => exact absurd hnumbered (q.ne_numbered f _)
  · rintro ⟨⟨k, b⟩, hb, rfl⟩
    obtain ⟨hmem, w, rfl, hw⟩ := Phrase.flag?_eq_some_iff.1 hb
    obtain ⟨hstyle, hflag⟩ := mem_flags hmem
    have hkey := Key.toList_said hstyle
    refine ⟨⟨start, k.said, [], b, trail.text, hstart, hflag, fun _ h => absurd h List.not_mem_nil,
      trail.areBlanks⟩, ?_, ?_⟩
    · rw [FlagLine.text, FlagLine.numbered, hkey, Phrase.text, hw, List.append_assoc]
      rfl
    · rw [FlagLine.rewritten, FlagLine.worded, hkey]

end Lines

/-! ## Layouts -/

/-- A truth value as it is written for a flag. -/
def truth : Bool → Words
  | false => ⟨⟨'f', ['a', 'l', 's', 'e'], List.all_eq_true.1 rfl, by decide, by decide⟩, [], rfl⟩
  | true => ⟨⟨'t', ['r', 'u', 'e'], List.all_eq_true.1 rfl, by decide, by decide⟩, [], rfl⟩

theorem text_truth (b : Bool) : (truth b).text = Json.boolText b := by cases b <;> rfl

/-- A truth value behind a colon. -/
def Value.truth (b : Bool) : Value := .phrase .space (.words (Yaml.truth b)) .none

theorem inLine_rewritten {f : FlagLine} (h : ∀ c ∈ f.text, inLine c = true) :
    ∀ c ∈ f.rewritten, inLine c = true := by
  intro c hc
  rcases List.mem_append.1 hc with hc | hc
  · exact h c (List.mem_append_left _ hc)
  · have hkey : ∀ c ∈ f.key.toList, inLine c = true := fun c hc =>
      h c (List.mem_append_right _ (List.mem_append_left _ hc))
    rcases List.mem_append.1 hc with hc | hc
    · exact hkey c hc
    · have hvalue : (':' :: ' ' :: Json.boolText f.value).all inLine = true := by
        cases f.value <;> rfl
      exact List.all_eq_true.1 hvalue c hc

/-- A line of a literal text with a truth value for a flag. -/
def Line.rewritten (line : Line) : Line :=
  match h : yamlFlag? line.text with
  | none => line
  | some text =>
    { text
      ne_nil := by
        obtain ⟨f, -, rfl⟩ := yamlFlag?_eq_some_iff.1 h
        exact List.append_ne_nil_of_right_ne_nil _
          (List.append_ne_nil_of_right_ne_nil _ (List.cons_ne_nil _ _))
      inLine := by
        obtain ⟨f, hline, rfl⟩ := yamlFlag?_eq_some_iff.1 h
        exact inLine_rewritten (hline ▸ line.inLine) }

theorem Line.text_rewritten (line : Line) :
    line.rewritten.text = (yamlFlag? line.text).getD line.text := by
  unfold Line.rewritten
  split
  · rename_i h
    exact (congrArg (Option.getD · line.text) h).symm
  · rename_i h
    exact (congrArg (Option.getD · line.text) h).symm

/-- The line of a flag starts as it did. -/
theorem head?_rewritten (f : FlagLine) : f.rewritten.head? = f.text.head? := by
  obtain ⟨tail, htail⟩ := exists_cons_of_mem_flagKeys f.mem_flagKeys
  rw [FlagLine.rewritten, FlagLine.worded, FlagLine.text, FlagLine.numbered, htail]
  cases f.start <;> rfl

theorem Line.head?_rewritten (line : Line) : line.rewritten.text.head? = line.text.head? := by
  rw [line.text_rewritten]
  cases h : yamlFlag? line.text with
  | none => rfl
  | some text =>
    obtain ⟨f, hline, rfl⟩ := yamlFlag?_eq_some_iff.1 h
    rw [hline]
    exact Yaml.head?_rewritten f

/-- A literal text with truth values for the lines of flags. -/
def Literal.rewritten (l : Literal) : Literal where
  first := l.first.rewritten
  more := l.more.map fun line => (line.1, line.2.rewritten)
  isStart := by
    rw [l.first.head?_rewritten]
    exact l.isStart

mutual

/-- A value with truth values for flags; `flag` says that it belongs to the key of one. -/
def Value.rewritten (flag : Bool) : Value → Value
  | .phrase gap p trail =>
    match if flag then p.digit? else none with
    | some b => .truth b
    | none => .phrase gap p trail
  | .literal gap trail deeper l => .literal gap trail deeper l.rewritten
  | .map trail empty deeper m => .map trail empty deeper m.rewritten
  | .list trail empty deeper l => .list trail empty deeper l.rewritten

/-- A mapping with truth values for flags. -/
def Mapping.rewritten : Mapping → Mapping
  | .last k v => .last k (v.rewritten k.isFlag)
  | .entry k v empty more => .entry k (v.rewritten k.isFlag) empty more.rewritten

/-- An item with truth values for flags; one that looks like a flag becomes a mapping. -/
def Item.rewritten : Item → Item
  | .phrase gap p trail =>
    match p.flag? with
    | some (k, b) => .map gap (.last k (.truth b))
    | none => .phrase gap p trail
  | .map gap m => .map gap m.rewritten

/-- A list with truth values for flags. -/
def Listing.rewritten : Listing → Listing
  | .last i => .last i.rewritten
  | .item i empty more => .item i.rewritten empty more.rewritten

end

section Texts

variable {cs cs' ds ds' start : List Char}

/-- What is written in place of a piece that ends with its line. -/
def Rewrites (cs cs' : List Char) : Prop :=
  ∀ (empty column : Nat) (after : List Char),
    replaceYamlFlags (cs ++ (newline empty column ++ after)) =
      cs' ++ (newline empty 0 ++ replaceYamlFlags (spaces column ++ after))

theorem Rewrites.line {line line' : List Char} (h : '\n' ∉ line)
    (hline : (yamlFlag? line).getD line = line') : Rewrites line line' := by
  intro empty column after
  rw [replaceYamlFlags_newline h, hline]

theorem newline_append (empty column : Nat) (rest : List Char) :
    newline empty 0 ++ (spaces column ++ rest) = newline empty column ++ rest := by
  rw [newline, newline, List.cons_append, List.append_assoc, List.cons_append, List.append_assoc]
  rfl

/-- Pieces below each other are rewritten each on its own. -/
theorem Rewrites.append {n : Nat} (h : Rewrites cs cs')
    (h' : Rewrites (spaces n ++ ds) (spaces n ++ ds')) (empty : Nat) :
    Rewrites (cs ++ (newline empty n ++ ds)) (cs' ++ (newline empty n ++ ds')) := by
  intro empty' column after
  have hbehind := h' empty' column after
  rw [List.append_assoc, List.append_assoc] at hbehind
  rw [List.append_assoc, List.append_assoc, h, hbehind, newline_append]
  simp only [List.append_assoc]

theorem notMem_append (h : '\n' ∉ cs) (h' : '\n' ∉ ds) : '\n' ∉ cs ++ ds := fun hmem =>
  (List.mem_append.1 hmem).elim h h'

theorem notMem_cons {c : Char} (hc : '\n' ≠ c) (h : '\n' ∉ cs) : '\n' ∉ c :: cs := fun hmem =>
  (List.mem_cons.1 hmem).elim hc h

theorem notMem_blanks (h : LineBlanks cs) : '\n' ∉ cs := fun hmem =>
  Bool.false_ne_true (h _ hmem)

theorem notMem_inLine (h : ∀ c ∈ cs, inLine c = true) : '\n' ∉ cs := fun hmem =>
  Bool.false_ne_true (h _ hmem)

theorem notMem_lineStart (h : IsLineStart start) : '\n' ∉ start := by
  cases h with
  | blanks h => exact notMem_blanks h
  | item h hmore =>
    exact notMem_append (notMem_blanks h) (notMem_cons (by decide) (notMem_blanks hmore))

theorem Chunk.notMem (c : Chunk) : '\n' ∉ c.text := fun hmem =>
  Bool.false_ne_true (c.inWord _ hmem)

theorem Quote.notMem (q : Quote) : '\n' ∉ q.text := by
  have hmark : '\n' ≠ quoteMark q.single := by cases q.single <;> decide
  exact notMem_cons hmark (notMem_append (notMem_inLine q.inLine) (notMem_cons hmark
    List.not_mem_nil))

theorem Phrase.notMem (p : Phrase) : '\n' ∉ p.text := by
  cases p with
  | words w =>
    refine notMem_append w.first.notMem fun hmem => ?_
    obtain ⟨c, -, hc⟩ := List.mem_flatMap.1 hmem
    exact notMem_append (notMem_blanks c.1.areBlanks) c.2.notMem hc
  | quote q => exact q.notMem

theorem Key.notMem (k : Key) : '\n' ∉ k.text := by
  cases k with
  | word k => exact k.chunk.notMem
  | quote q => exact q.notMem

theorem Key.notMem_line (k : Key) (hstart : IsLineStart start) (h : '\n' ∉ cs) :
    '\n' ∉ start ++ (k.text ++ ':' :: cs) :=
  notMem_append (notMem_lineStart hstart) (notMem_append k.notMem (notMem_cons (by decide) h))

/-- The line of a key whose value stands below it stays as it is. -/
theorem Key.rewrites (k : Key) (hstart : IsLineStart start) (trail : Blanks) :
    Rewrites (start ++ (k.text ++ ':' :: trail.text)) (start ++ (k.text ++ ':' :: trail.text)) := by
  refine .line (k.notMem_line hstart (notMem_blanks trail.areBlanks)) ?_
  rw [yamlFlag?_blanks hstart]
  rfl

theorem lineBlanks_spaces (n : Nat) : LineBlanks (spaces n) := fun c hc => by
  rw [List.eq_of_mem_replicate hc]
  rfl

theorem Line.rewrites (line : Line) (column : Nat) :
    Rewrites (spaces column ++ line.text) (spaces column ++ line.rewritten.text) := by
  refine .line
    (notMem_append (notMem_blanks (lineBlanks_spaces column)) (notMem_inLine line.inLine)) ?_
  rw [yamlFlag?_indented (lineBlanks_spaces column), line.text_rewritten]
  cases yamlFlag? line.text <;> rfl

theorem Literal.rewrites (l : Literal) (column : Nat) :
    Rewrites (spaces column ++ l.text column) (spaces column ++ l.rewritten.text column) := by
  have hmore : ∀ (more : List (Nat × Line)) (first : Line),
      Rewrites (spaces column ++ (first.text ++
          more.flatMap fun line => newline line.1 column ++ line.2.text))
        (spaces column ++ (first.rewritten.text ++
          (more.map fun line => (line.1, line.2.rewritten)).flatMap fun line =>
            newline line.1 column ++ line.2.text)) := by
    intro more
    induction more with
    | nil =>
      intro first
      rw [List.flatMap_nil, List.map_nil, List.flatMap_nil, List.append_nil, List.append_nil]
      exact first.rewrites column
    | cons line more ih =>
      intro first
      have happend := (first.rewrites column).append (ih line.2) line.1
      simp only [List.flatMap_cons, List.map_cons, List.append_assoc] at happend ⊢
      exact happend
  exact hmore l.more l.first

end Texts

mutual

/-- **A value is rewritten** as its layout says. -/
theorem Value.rewrites (v : Value) (k : Key) {start : List Char} (hstart : IsLineStart start)
    (n : Nat) : Rewrites (start ++ (k.text ++ ':' :: v.text n))
      (start ++ (k.text ++ ':' :: (v.rewritten k.isFlag).text n)) := by
  match v with
  | .phrase gap p trail =>
    refine .line (k.notMem_line hstart (notMem_append (notMem_blanks gap.areBlanks)
      (notMem_append p.notMem (notMem_blanks trail.areBlanks)))) ?_
    rw [Value.text, yamlFlag?_phrase hstart, Value.rewritten]
    cases (if k.isFlag then p.digit? else none) with
    | none => rfl
    | some b =>
      show _ = start ++ (k.text ++ ':' :: ' ' :: ((truth b).text ++ []))
      rw [text_truth, List.append_nil]
      rfl
  | .literal gap trail deeper l =>
    have hbar : Rewrites (start ++ (k.text ++ ':' :: (gap.text ++ '|' :: trail.text)))
        (start ++ (k.text ++ ':' :: (gap.text ++ '|' :: trail.text))) := by
      refine .line (k.notMem_line hstart (notMem_append (notMem_blanks gap.areBlanks)
        (notMem_cons (by decide) (notMem_blanks trail.areBlanks)))) ?_
      rw [yamlFlag?_bar hstart]
      rfl
    have happend := hbar.append (l.rewrites (n + 1 + deeper)) 0
    simp only [List.append_assoc, List.cons_append] at happend
    exact happend
  | .map trail empty deeper m =>
    have happend := (k.rewrites hstart trail).append (m.rewrites
      (.blanks (lineBlanks_spaces (n + 1 + deeper))) (n + 1 + deeper)) empty
    simp only [List.append_assoc, List.cons_append] at happend
    exact happend
  | .list trail empty deeper l =>
    have happend := (k.rewrites hstart trail).append (l.rewrites (n + deeper)) empty
    simp only [List.append_assoc, List.cons_append] at happend
    exact happend

/-- **A mapping is rewritten** as its layout says. -/
theorem Mapping.rewrites (m : Mapping) {start : List Char} (hstart : IsLineStart start) (n : Nat) :
    Rewrites (start ++ m.text n) (start ++ m.rewritten.text n) := by
  match m with
  | .last k v => exact v.rewrites k hstart n
  | .entry k v empty more =>
    have happend := (v.rewrites k hstart n).append
      (more.rewrites (.blanks (lineBlanks_spaces n)) n) empty
    simp only [List.append_assoc, List.cons_append] at happend
    exact happend

/-- **An item is rewritten** as its layout says. -/
theorem Item.rewrites (i : Item) (n : Nat) :
    Rewrites (spaces n ++ i.text n) (spaces n ++ i.rewritten.text n) := by
  have hstart (gap : Nat) : IsLineStart (spaces n ++ '-' :: spaces (gap + 1)) :=
    .item (lineBlanks_spaces n) (lineBlanks_spaces _) (List.cons_ne_nil _ _)
  match i with
  | .phrase gap p trail =>
    have hline : Rewrites ((spaces n ++ '-' :: spaces (gap + 1)) ++ (p.text ++ trail.text)) _ :=
      .line (notMem_append (notMem_lineStart (hstart gap)) (notMem_append p.notMem
        (notMem_blanks trail.areBlanks))) rfl
    rw [yamlFlag?_alone (hstart gap)] at hline
    rw [Item.rewritten]
    cases hflag : p.flag? with
    | none =>
      rw [hflag] at hline
      simp only [List.append_assoc, List.cons_append] at hline
      exact hline
    | some f =>
      obtain ⟨k, b⟩ := f
      rw [hflag] at hline
      have htruth : (Value.truth b).text (n + 2 + gap) = ' ' :: Json.boolText b := by
        show ' ' :: ((truth b).text ++ []) = _
        rw [text_truth, List.append_nil]
      dsimp only
      rw [Item.text, Item.text, Mapping.text, htruth]
      simp only [List.append_assoc, List.cons_append] at hline
      exact hline
  | .map gap m =>
    have hmap := m.rewrites (hstart gap) (n + 2 + gap)
    simp only [List.append_assoc, List.cons_append] at hmap
    exact hmap

/-- **A list is rewritten** as its layout says. -/
theorem Listing.rewrites (l : Listing) (n : Nat) :
    Rewrites (spaces n ++ l.text n) (spaces n ++ l.rewritten.text n) := by
  match l with
  | .last i => exact i.rewrites n
  | .item i empty more =>
    have happend := (i.rewrites n).append (more.rewrites n) empty
    simp only [List.append_assoc] at happend
    exact happend

end

end ResourceCli.Yaml
