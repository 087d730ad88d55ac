import ResourceCli.Proofs.Yaml.Layout
import Mathlib.Data.List.TakeWhile

/-!
# Texts on one line

How the reader of YAML takes a line of words, a key and a text in quotes: up to where the piece
ends, and for a line of words up to where the next line starts.  A plain text may go on further in
on the lines below, so that it is told by the column of the next line that the text has ended.

* `plain_words`: a line of words.
* `plain_keyWord`: a word that is a key.
* `quotedScalar_text`: a text in quotes.
-/

namespace ResourceCli.Yaml

/-- These characters start neither with a blank nor with a line break. -/
def Ahead (cs : List Char) : Prop := ∀ c ∈ cs.head?, isBlank c = false ∧ isBreak c = false

/-! ## Characters -/

section Characters

variable {c : Char}

theorem isBreak_of_inLine (h : inLine c = true) : isBreak c = false := by
  simpa [inLine] using (Bool.and_eq_true_iff.1 h).2

theorem isBreak_of_inWord (h : inWord c = true) : isBreak c = false :=
  isBreak_of_inLine (Bool.and_eq_true_iff.1 h).1

theorem isBlank_of_inWord (h : inWord c = true) : isBlank c = false := by
  simpa using (Bool.and_eq_true_iff.1 h).2

theorem isBlankOrEnd_some (hbreak : isBreak c = false) (hblank : isBlank c = false) :
    isBlankOrEnd (some c) = false := by
  rw [isBlankOrEnd, hbreak, hblank, Bool.or_false]

end Characters

/-! ## Places -/

section Places

variable {cs rest : List Char} {i l n : Nat} {p : Char → Bool}

theorem Cursor.skipN_append : ∀ (cs : List Char) (rest : List Char) (i l n : Nat),
    (⟨cs ++ rest, i, l, n⟩ : Cursor).skipN cs.length =
      ⟨rest, i + cs.length, l, n + cs.length⟩
  | [], _, _, _, _ => rfl
  | c :: cs, rest, i, l, n => by
    show (⟨cs ++ rest, i + 1, l, n + 1⟩ : Cursor).skipN cs.length = _
    rw [skipN_append cs rest (i + 1) l (n + 1), List.length_cons]
    congr 1 <;> omega

theorem takeWhile_append_of_head? (hcs : ∀ c ∈ cs, p c = true)
    (hrest : ∀ c ∈ rest.head?, p c = false) : (cs ++ rest).takeWhile p = cs := by
  rw [List.takeWhile_append_of_pos hcs]
  cases rest with
  | nil => exact List.append_nil cs
  | cons c rest =>
    rw [List.takeWhile_cons_of_neg (by simp [hrest c rfl]), List.append_nil]

theorem Cursor.takeWhile_append (hcs : ∀ c ∈ cs, p c = true)
    (hrest : ∀ c ∈ rest.head?, p c = false) :
    (⟨cs ++ rest, i, l, n⟩ : Cursor).takeWhile p =
      (cs, ⟨rest, i + cs.length, l, n + cs.length⟩) := by
  rw [Cursor.takeWhile, takeWhile_append_of_head? hcs hrest, List.drop_left]

theorem Cursor.skipWhile_append (hcs : ∀ c ∈ cs, p c = true)
    (hrest : ∀ c ∈ rest.head?, p c = false) :
    (⟨cs ++ rest, i, l, n⟩ : Cursor).skipWhile p = ⟨rest, i + cs.length, l, n + cs.length⟩ := by
  rw [Cursor.skipWhile, Cursor.takeWhile_append hcs hrest]

theorem seesMark_eq_false {x : Char} (h : rest.head? ≠ some x) :
    (⟨rest, i, l, n⟩ : Cursor).seesMark x = false := by
  have hsees : (⟨rest, i, l, n⟩ : Cursor).sees x = false := by
    rw [Cursor.sees, Cursor.peek, ← List.head?_eq_getElem?, beq_eq_false_iff_ne]
    exact h
  rw [Cursor.seesMark, hsees]
  simp only [Bool.and_false, Bool.false_and]

theorem seesMark_of_column {x : Char} (h : n ≠ 0) :
    (⟨rest, i, l, n⟩ : Cursor).seesMark x = false := by
  rw [Cursor.seesMark, beq_eq_false_iff_ne.2 h]
  rfl

end Places

/-! ## Plain texts -/

section Plain

variable {cs rest after bs : List Char} {i l n : Nat}

/-- A plain text may end before these characters, as far as its current word goes. -/
def EndsWord (rest : List Char) : Prop :=
  isBlankOrEnd rest.head? = true ∨ ∃ r, rest = ':' :: r ∧ isBlankOrEnd r.head? = true

theorem plainWord_of_endsWord (h : EndsWord rest) (f : Folding) (i l n fuel : Nat) :
    plainWord false f ⟨rest, i, l, n⟩ (fuel + 1) = some (f, ⟨rest, i, l, n⟩) := by
  cases rest with
  | nil => rfl
  | cons c rest =>
    rw [plainWord]
    show (if isBreak c || isBlank c then _ else _) = _
    rcases h with h | ⟨r, heq, hr⟩
    · exact if_pos h
    · obtain ⟨rfl, rfl⟩ := List.cons.inj heq
      have hends : endsPlain false ⟨':' :: rest, i, l, n⟩ = true := by
        rw [List.head?_eq_getElem?] at hr
        rw [endsPlain, Bool.false_and, Bool.or_false]
        exact hr
      rw [hends]
      rfl

/-- A character within a word is taken as it is. -/
theorem plainWord_cons {c : Char} (hc : inWord c = true)
    (hcolon : c = ':' → isBlankOrEnd rest.head? = false) (f : Folding) (i l n fuel : Nat) :
    plainWord false f ⟨c :: rest, i, l, n⟩ (fuel + 1) =
      plainWord false ((if f.broken || !f.blanks.isEmpty then f.join else f).add [c])
        ⟨rest, i + 1, l, n + 1⟩ fuel := by
  have hends : endsPlain false ⟨c :: rest, i, l, n⟩ = false := by
    rw [endsPlain, Bool.false_and, Bool.or_false]
    by_cases h : c = ':'
    · have hrest := hcolon h
      rw [List.head?_eq_getElem?] at hrest
      show (_ && isBlankOrEnd rest[0]?) = false
      rw [hrest, Bool.and_false]
    · show (some c == some ':' && _) = false
      simp [h]
  rw [plainWord]
  show (if isBreak c || isBlank c then _ else _) = _
  rw [isBreak_of_inWord hc, isBlank_of_inWord hc, hends]
  rfl

/-- A word is taken with the blanks before it. -/
theorem plainWord_append : ∀ {cs : List Char}, cs ≠ [] → (∀ c ∈ cs, inWord c = true) →
    (∀ before after, cs = before ++ ':' :: after → after ≠ []) → EndsWord rest →
    ∀ (text blanks : List Char) (i l n fuel : Nat), cs.length < fuel →
      plainWord false { text, blanks } ⟨cs ++ rest, i, l, n⟩ fuel =
        some ({ text := cs.reverse ++ (blanks.reverse ++ text) },
          ⟨rest, i + cs.length, l, n + cs.length⟩)
  | c :: cs, _, hcs, hcolon, hrest, text, blanks, i, l, n, fuel + 1, hfuel => by
    have hwords : ∀ d ∈ cs, inWord d = true := fun d hd => hcs d (List.mem_cons_of_mem _ hd)
    have hadd : ((if ({ text, blanks } : Folding).broken ||
        !({ text, blanks } : Folding).blanks.isEmpty then ({ text, blanks } : Folding).join
        else { text, blanks }).add [c]) = { text := c :: (blanks.reverse ++ text) } := by
      cases blanks <;> rfl
    cases cs with
    | nil =>
      obtain ⟨fuel, rfl⟩ : ∃ m, fuel = m + 1 := ⟨fuel - 1, by simp at hfuel; omega⟩
      have hnext : c = ':' → isBlankOrEnd rest.head? = false := by
        rintro rfl
        exact absurd rfl (hcolon [] [] rfl)
      rw [List.singleton_append, plainWord_cons (hcs c List.mem_cons_self) hnext, hadd]
      exact plainWord_of_endsWord hrest _ _ _ _ _
    | cons d cs =>
      have hd := hwords d List.mem_cons_self
      have hnext : c = ':' → isBlankOrEnd (d :: cs ++ rest).head? = false := fun _ =>
        isBlankOrEnd_some (isBreak_of_inWord hd) (isBlank_of_inWord hd)
      have hcolon' : ∀ before after, d :: cs = before ++ ':' :: after → after ≠ [] :=
        fun before after h => hcolon (c :: before) after (congrArg (c :: ·) h)
      rw [List.cons_append, plainWord_cons (hcs c List.mem_cons_self) hnext, hadd,
        plainWord_append (List.cons_ne_nil d cs) hwords hcolon' hrest _ [] (i + 1) l (n + 1) fuel
          (Nat.lt_of_succ_lt_succ hfuel)]
      rw [List.reverse_cons (a := c), List.append_assoc, List.length_cons (a := c), Nat.add_assoc,
        Nat.add_comm 1, Nat.add_assoc n, Nat.add_comm 1]
      rfl

theorem Chunk.text_ne_nil (c : Chunk) : c.text ≠ [] := List.cons_ne_nil _ _

theorem Chunk.ne_nil_of_colon (c : Chunk) {before after : List Char}
    (h : c.text = before ++ ':' :: after) : after ≠ [] := by
  rintro rfl
  refine c.noColon (?_ : c.text.getLast? = _)
  rw [h, List.getLast?_concat]

/-! ## Blanks and line breaks -/

theorem takeSpace_of_ahead (h : Ahead rest) (f : Folding) (i l n fuel : Nat) :
    f.takeSpace ⟨rest, i, l, n⟩ fuel = (f, ⟨rest, i, l, n⟩) := by
  cases fuel with
  | zero => rfl
  | succ fuel =>
    cases rest with
    | nil => rfl
    | cons c rest =>
      obtain ⟨hblank, hbreak⟩ := h c rfl
      rw [Folding.takeSpace]
      show (if isBlank c then _ else if isBreak c then _ else _) = _
      rw [hblank, hbreak]
      rfl

/-- Blanks on the line are remembered. -/
theorem takeSpace_blanks (text rest : List Char) : ∀ {bs : List Char},
    (∀ c ∈ bs, isBlank c = true) → ∀ (blanks : List Char) (i l n fuel : Nat),
      ({ text, blanks } : Folding).takeSpace ⟨bs ++ rest, i, l, n⟩ (bs.length + fuel) =
        ({ text, blanks := blanks ++ bs } : Folding).takeSpace
          ⟨rest, i + bs.length, l, n + bs.length⟩ fuel
  | [], _, blanks, i, l, n, fuel => by
    rw [List.append_nil, List.length_nil, Nat.zero_add]
    rfl
  | b :: bs, hbs, blanks, i, l, n, fuel => by
    obtain ⟨hb, hbs⟩ := List.forall_mem_cons.1 hbs
    rw [List.length_cons, Nat.add_right_comm, List.cons_append, Folding.takeSpace]
    show (if isBlank b then _ else _) = _
    rw [hb, if_pos rfl]
    show ({ text, blanks := blanks ++ [b] } : Folding).takeSpace ⟨bs ++ rest, i + 1, l, n + 1⟩
      (bs.length + fuel) = _
    rw [takeSpace_blanks text rest hbs, List.append_assoc, Nat.add_assoc i, Nat.add_assoc n,
      Nat.add_comm 1]
    rfl

/-- Blanks between two words of a line are taken in. -/
theorem takeSpace_gap (hbs : ∀ c ∈ bs, isBlank c = true) (hrest : Ahead rest) (text : List Char)
    (i l n : Nat) :
    ({ text } : Folding).takeSpace ⟨bs ++ rest, i, l, n⟩ ((bs ++ rest).length + 1) =
      ({ text, blanks := bs }, ⟨rest, i + bs.length, l, n + bs.length⟩) := by
  rw [List.length_append, Nat.add_assoc, takeSpace_blanks text rest hbs, takeSpace_of_ahead hrest,
    List.nil_append]

/-- Once the line is broken, spaces leave no trace. -/
theorem takeSpace_spaces {f : Folding} (hf : f.broken = true) (rest : List Char) :
    ∀ (k i l n fuel : Nat),
      f.takeSpace ⟨spaces k ++ rest, i, l, n⟩ (k + fuel) = f.takeSpace ⟨rest, i + k, l, n + k⟩ fuel
  | 0, i, l, n, fuel => by
    rw [Nat.zero_add]
    rfl
  | k + 1, i, l, n, fuel => by
    rw [Nat.add_right_comm, Folding.takeSpace]
    show (if f.broken = true then f.takeSpace ⟨spaces k ++ rest, i + 1, l, n + 1⟩ (k + fuel)
      else _) = _
    rw [if_pos hf, takeSpace_spaces hf rest, Nat.add_assoc i, Nat.add_assoc n, Nat.add_comm 1]

/-- Empty lines are remembered by their breaks. -/
theorem takeSpace_empty (rest : List Char) : ∀ (f : Folding), f.broken = true →
    ∀ (e i l fuel : Nat), ∃ f' : Folding, f'.text = f.text ∧ f'.broken = true ∧
      f.takeSpace ⟨List.replicate e '\n' ++ rest, i, l, 0⟩ (e + fuel) =
        f'.takeSpace ⟨rest, i + e, l + e, 0⟩ fuel
  | f, hf, 0, i, l, fuel => ⟨f, rfl, hf, by rw [Nat.zero_add]; rfl⟩
  | f, hf, e + 1, i, l, fuel => by
    obtain ⟨f', htext, hbroken, h⟩ := takeSpace_empty rest
      { f with moreBreaks := f.moreBreaks ++ ['\n'] } hf e (i + 1) (l + 1) fuel
    refine ⟨f', htext, hbroken, ?_⟩
    rw [Nat.add_right_comm, Folding.takeSpace]
    show (if f.broken = true then ({ f with moreBreaks := f.moreBreaks ++ ['\n'] } :
      Folding).takeSpace ⟨List.replicate e '\n' ++ rest, i + 1, l + 1, 0⟩ (e + fuel) else _) = _
    rw [if_pos hf, h, Nat.add_assoc i, Nat.add_assoc l, Nat.add_comm 1]

/-- What lies between a text and the next line is taken in as a whole. -/
theorem takeSpace_newline (hbs : ∀ c ∈ bs, isBlank c = true) (hafter : Ahead after)
    (text : List Char) (empty column i l n : Nat) : ∃ (f : Folding) (i' l' : Nat),
      f.text = text ∧ f.broken = true ∧ l < l' ∧
      ({ text } : Folding).takeSpace ⟨bs ++ (newline empty column ++ after), i, l, n⟩
        ((bs ++ (newline empty column ++ after)).length + 1) = (f, ⟨after, i', l', column⟩) := by
  obtain ⟨f, htext, hbroken, hempty⟩ := takeSpace_empty (spaces column ++ after)
    { text, firstBreak := ['\n'], broken := true } rfl empty (i + bs.length + 1) (l + 1)
    (column + (after.length + 1))
  refine ⟨f, i + bs.length + 1 + empty + column, l + 1 + empty, htext, hbroken, by omega, ?_⟩
  have hfuel : (bs ++ (newline empty column ++ after)).length + 1 =
      bs.length + (empty + (column + (after.length + 1)) + 1) := by
    simp only [newline, spaces, List.cons_append, List.length_append, List.length_cons,
      List.length_replicate]
    omega
  rw [hfuel, takeSpace_blanks text _ hbs, newline, List.cons_append, List.append_assoc,
    Folding.takeSpace]
  show ({ text, firstBreak := ['\n'], broken := true } : Folding).takeSpace
    ⟨List.replicate empty '\n' ++ (spaces column ++ after), i + bs.length + 1, l + 1, 0⟩
      (empty + (column + (after.length + 1))) = _
  rw [hempty, takeSpace_spaces hbroken, takeSpace_of_ahead hafter, Nat.zero_add]

theorem tabInIndent_of_ahead (h : Ahead rest) (indent : Nat) (broken : Bool) (i l n fuel : Nat) :
    tabInIndent indent ⟨rest, i, l, n⟩ broken fuel = false := by
  cases fuel with
  | zero => rfl
  | succ fuel =>
    cases rest with
    | nil => rfl
    | cons c rest =>
      obtain ⟨hblank, hbreak⟩ := h c rfl
      rw [tabInIndent]
      show (if isBlank c then _ else if isBreak c then _ else _) = _
      rw [hblank, hbreak]
      rfl

/-- Blanks before the line is broken are no indentation. -/
theorem tabInIndent_blanks (indent : Nat) (h : ∀ i l n fuel,
      tabInIndent indent ⟨rest, i, l, n⟩ false fuel = false) :
    ∀ {bs : List Char}, (∀ c ∈ bs, isBlank c = true) → ∀ (i l n fuel : Nat),
      tabInIndent indent ⟨bs ++ rest, i, l, n⟩ false fuel = false
  | [], _, i, l, n, fuel => h i l n fuel
  | _, _, _, _, _, 0 => rfl
  | b :: bs, hbs, i, l, n, fuel + 1 => by
    obtain ⟨hb, hbs⟩ := List.forall_mem_cons.1 hbs
    rw [List.cons_append, tabInIndent]
    show (if isBlank b then false || tabInIndent indent ⟨bs ++ rest, i + 1, l, n + 1⟩ false fuel
      else _) = _
    rw [hb, if_pos rfl, tabInIndent_blanks indent h hbs, Bool.or_self]

/-- No tab is among spaces and empty lines. -/
theorem tabInIndent_newline (hafter : Ahead after) (indent : Nat) (broken : Bool)
    (empty column i l n fuel : Nat) :
    tabInIndent indent ⟨newline empty column ++ after, i, l, n⟩ broken fuel = false := by
  have hspaces : ∀ (k i l n fuel : Nat),
      tabInIndent indent ⟨spaces k ++ after, i, l, n⟩ true fuel = false := by
    intro k
    induction k with
    | zero => exact fun i l n fuel => tabInIndent_of_ahead hafter indent true i l n fuel
    | succ k ih =>
      intro i l n fuel
      cases fuel with
      | zero => rfl
      | succ fuel =>
        rw [tabInIndent]
        show (_ && false || tabInIndent indent ⟨spaces k ++ after, i + 1, l, n + 1⟩ true fuel) = _
        rw [ih, Bool.and_false, Bool.or_false]
  have hempty : ∀ (e i l n fuel : Nat), tabInIndent indent
      ⟨List.replicate e '\n' ++ (spaces column ++ after), i, l, n⟩ true fuel = false := by
    intro e
    induction e with
    | zero => exact fun i l n fuel => hspaces column i l n fuel
    | succ e ih =>
      intro i l n fuel
      cases fuel with
      | zero => rfl
      | succ fuel => exact ih (i + 1) (l + 1) 0 fuel
  cases fuel with
  | zero => rfl
  | succ fuel =>
    rw [newline, List.cons_append, List.append_assoc]
    exact hempty empty (i + 1) (l + 1) 0 fuel

theorem isBlankOrEnd_blanks (hbs : ∀ c ∈ bs, isBlank c = true) (hrest : rest.head? = some '\n') :
    ∃ c, (bs ++ rest).head? = some c ∧ (isBlank c || isBreak c) = true := by
  cases bs with
  | nil => exact ⟨'\n', hrest, rfl⟩
  | cons b bs =>
    refine ⟨b, rfl, ?_⟩
    rw [hbs b List.mem_cons_self, Bool.true_or]

theorem Chunk.ahead (c : Chunk) (rest : List Char) : Ahead (c.text ++ rest) := by
  intro x hx
  obtain rfl := Option.some.inj hx
  have hhead := c.inWord c.head List.mem_cons_self
  exact ⟨isBlank_of_inWord hhead, isBreak_of_inWord hhead⟩

/-- A plain text goes on with a chunk and what follows it. -/
theorem plain_chunk (c : Chunk) {x : Char} (hrest : rest.head? = some x)
    (hx : (isBlank x || isBreak x) = true) (text blanks : List Char) (hn : n ≠ 0)
    (indent i l fuel : Nat)
    (htab : ∀ i l n fuel, tabInIndent indent ⟨rest, i, l, n⟩ false fuel = false) :
    plain false indent { text, blanks } ⟨c.text ++ rest, i, l, n⟩ (fuel + 1) =
      let (f, c') := ({ text := c.text.reverse ++ (blanks.reverse ++ text) } : Folding).takeSpace
        ⟨rest, i + c.text.length, l, n + c.text.length⟩ (rest.length + 1)
      if c'.column < indent then some (String.ofList f.text.reverse, f.broken, c')
      else plain false indent f c' fuel := by
  have hcomment : (⟨c.text ++ rest, i, l, n⟩ : Cursor).sees '#' = false :=
    beq_eq_false_iff_ne.2 fun h => c.noComment (Option.some.inj h)
  have hends : EndsWord rest := by
    refine .inl ?_
    rw [hrest, isBlankOrEnd, Bool.or_comm]
    exact hx
  have hword := plainWord_append c.text_ne_nil c.inWord (fun _ _ h => c.ne_nil_of_colon h) hends
    text blanks i l n ((c.text ++ rest).length + 1) (by
      rw [List.length_append]
      omega)
  rw [plain, seesMark_of_column hn, seesMark_of_column hn, hcomment]
  simp only [Bool.or_self, Bool.false_eq_true, if_false]
  rw [hword]
  have hpeek : (⟨rest, i + c.text.length, l, n + c.text.length⟩ : Cursor).peek 0 = some x := by
    rw [Cursor.peek, ← List.head?_eq_getElem?, hrest]
  simp only [hpeek, hx, htab, Bool.not_true, Bool.false_eq_true, if_false, Bool.not_false,
    Bool.true_and, decide_eq_true_eq]

/-- The words of a line are read one after the other. -/
theorem plain_chunks (hafter : Ahead after) (htrail : ∀ c ∈ bs, isBlank c = true)
    {indent column : Nat} (hcolumn : column < indent) (empty : Nat) :
    ∀ (more : List (Gap × Chunk)) (c : Chunk) (text blanks : List Char) (i l n fuel : Nat),
      indent ≤ n → more.length < fuel → ∃ i' l', l < l' ∧
        plain false indent { text, blanks }
          ⟨c.text ++ (more.flatMap (fun c => c.1.text ++ c.2.text) ++
            (bs ++ (newline empty column ++ after))), i, l, n⟩ fuel =
          some (String.ofList (text.reverse ++ (blanks ++ (c.text ++
            more.flatMap fun c => c.1.text ++ c.2.text))), true, ⟨after, i', l', column⟩)
  | [], c, text, blanks, i, l, n, fuel + 1, hn, _ => by
    have hline : (newline empty column ++ after).head? = some '\n' := rfl
    obtain ⟨x, hhead, hx⟩ := isBlankOrEnd_blanks htrail hline
    obtain ⟨f, i', l', htext, hbroken, hl, hspace⟩ := takeSpace_newline htrail hafter
      (c.text.reverse ++ (blanks.reverse ++ text)) empty column (i + c.text.length) l
      (n + c.text.length)
    refine ⟨i', l', hl, ?_⟩
    have htab := tabInIndent_blanks indent (tabInIndent_newline hafter indent false empty column)
      htrail
    rw [List.flatMap_nil, List.nil_append,
      plain_chunk c hhead hx text blanks (by omega) indent i l fuel htab, hspace]
    dsimp only
    rw [if_pos hcolumn, htext, hbroken]
    simp only [List.reverse_append, List.reverse_reverse, List.append_nil, List.append_assoc]
  | (gap, c') :: more, c, text, blanks, i, l, n, fuel + 1, hn, hfuel => by
    obtain ⟨i', l', hl, hmore⟩ := plain_chunks hafter htrail hcolumn empty more c'
      (c.text.reverse ++ (blanks.reverse ++ text)) gap.text
      (i + c.text.length + gap.text.length) l (n + c.text.length + gap.text.length) fuel
      (by omega) (Nat.lt_of_succ_lt_succ hfuel)
    refine ⟨i', l', hl, ?_⟩
    obtain ⟨behind, hbehind⟩ : ∃ cs, cs = more.flatMap (fun c => c.1.text ++ c.2.text) ++
      (bs ++ (newline empty column ++ after)) := ⟨_, rfl⟩
    rw [← hbehind] at hmore
    obtain ⟨x, hhead, hx⟩ : ∃ x, (gap.text ++ (c'.text ++ behind)).head? = some x ∧
        (isBlank x || isBreak x) = true := by
      obtain ⟨b, bs, hgap⟩ := List.exists_cons_of_ne_nil gap.ne_nil
      rw [hgap]
      refine ⟨b, rfl, ?_⟩
      rw [gap.areBlanks b (hgap ▸ List.mem_cons_self), Bool.true_or]
    have htab := tabInIndent_blanks indent
      (tabInIndent_of_ahead (c'.ahead behind) indent false) gap.areBlanks
    rw [List.flatMap_cons, List.append_assoc, List.append_assoc, ← hbehind,
      plain_chunk c hhead hx text blanks (by omega) indent i l fuel htab,
      takeSpace_gap gap.areBlanks (c'.ahead behind)]
    dsimp only
    rw [if_neg (by omega), hmore]
    simp only [List.reverse_append, List.reverse_reverse, List.append_assoc]

theorem Words.length_more (w : Words) : w.more.length < w.text.length := by
  have hmore : ∀ more : List (Gap × Chunk), more.length ≤
      (more.flatMap fun c => c.1.text ++ c.2.text).length := by
    intro more
    induction more with
    | nil => exact Nat.le_refl 0
    | cons c more ih =>
      rw [List.flatMap_cons, List.length_append, List.length_cons, List.length_append, Chunk.text,
        List.length_cons]
      omega
  have hmore := hmore w.more
  rw [Words.text, List.length_append, Chunk.text, List.length_cons]
  omega

/-- **A line of words** is read up to the next line, if that is not further in than it may be. -/
theorem plain_words (w : Words) (hafter : Ahead after) (htrail : ∀ c ∈ bs, isBlank c = true)
    {indent column : Nat} (hcolumn : column < indent) (hindent : indent ≤ n) (empty i l : Nat)
    {fuel : Nat} (hfuel : w.text.length ≤ fuel) : ∃ i' l', l < l' ∧
      plain false indent {} ⟨w.text ++ (bs ++ (newline empty column ++ after)), i, l, n⟩ fuel =
        some (String.ofList w.text, true, ⟨after, i', l', column⟩) := by
  obtain ⟨i', l', hl, hplain⟩ := plain_chunks hafter htrail hcolumn empty w.more w.first [] [] i l
    n fuel hindent (Nat.lt_of_lt_of_le w.length_more hfuel)
  refine ⟨i', l', hl, ?_⟩
  rw [Words.text, List.append_assoc]
  exact hplain

theorem ne_of_isMark {c x : Char} (h : isMark c = false) (hx : isMark x = true) : c ≠ x := by
  rintro rfl
  exact Bool.false_ne_true (h.symm.trans hx)

/-- **A word that is a key** is read up to its colon. -/
theorem plain_keyWord (k : KeyWord) (hrest : isBlankOrEnd rest.head? = true)
    (indent i l n fuel : Nat) :
    plain false indent {} ⟨k.chunk.text ++ ':' :: rest, i, l, n⟩ (fuel + 1) =
      some (String.ofList k.chunk.text, false,
        ⟨':' :: rest, i + k.chunk.text.length, l, n + k.chunk.text.length⟩) := by
  have hmark {x : Char} (hx : isMark x = true) :
      (k.chunk.text ++ ':' :: rest).head? ≠ some x :=
    fun h => ne_of_isMark k.isStart hx (Option.some.inj h)
  have hcomment : (⟨k.chunk.text ++ ':' :: rest, i, l, n⟩ : Cursor).sees '#' = false :=
    beq_eq_false_iff_ne.2 (hmark rfl)
  have hword := plainWord_append k.chunk.text_ne_nil k.chunk.inWord
    (fun _ _ h => k.chunk.ne_nil_of_colon h) (.inr ⟨rest, rfl, hrest⟩) [] [] i l n
    ((k.chunk.text ++ ':' :: rest).length + 1) (by
      rw [List.length_append]
      omega)
  rw [plain, seesMark_eq_false (hmark rfl), seesMark_eq_false (hmark rfl), hcomment]
  simp only [Bool.or_self, Bool.false_eq_true, if_false]
  rw [show ({} : Folding) = { text := [], blanks := [] } from rfl, hword]
  simp only [List.reverse_nil, List.append_nil]
  show some (String.ofList k.chunk.text.reverse.reverse, false, _) = _
  rw [List.reverse_reverse]

end Plain

/-! ## Texts in quotes -/

section Quoted

variable {cs rest : List Char} {single : Bool}

/-- Characters between quotes that stand for themselves. -/
def Bare (single : Bool) (cs : List Char) : Prop :=
  ∀ c ∈ cs, isBreak c = false ∧ c ≠ quoteMark single ∧ (single = false → c ≠ '\\')

/-- The current word of a text in quotes ends before these characters. -/
def EndsQuoted (single : Bool) (rest : List Char) : Prop :=
  (∃ c r, rest = c :: r ∧ isBlank c = true) ∨
    ∃ r, rest = quoteMark single :: r ∧ (single = true → r.head? ≠ some '\'')

theorem quotedWord_of_ends (h : EndsQuoted single rest) (f : Folding) (i l n fuel : Nat) :
    quotedWord single f ⟨rest, i, l, n⟩ (fuel + 1) = some (f, ⟨rest, i, l, n⟩) := by
  rcases h with ⟨c, r, rfl, hc⟩ | ⟨r, rfl, hr⟩
  · rw [quotedWord]
    show (if isBreak c || isBlank c then _ else _) = _
    rw [hc, Bool.or_true, if_pos rfl]
  · cases single with
    | false => rfl
    | true =>
      have hnext : (⟨'\'' :: r, i, l, n⟩ : Cursor).sees '\'' 1 = false := by
        have hr := hr rfl
        rw [List.head?_eq_getElem?] at hr
        exact beq_eq_false_iff_ne.2 hr
      show (if (⟨'\'' :: r, i, l, n⟩ : Cursor).sees '\'' 1 then _ else _) = _
      rw [hnext]
      rfl

/-- A word between quotes is taken as it is. -/
theorem quotedWord_append (hrest : EndsQuoted single rest) : ∀ {cs : List Char}, Bare single cs →
    (∀ c ∈ cs, isBlank c = false) → ∀ (text : List Char) (i l n fuel : Nat),
      cs.length < fuel → quotedWord single { text } ⟨cs ++ rest, i, l, n⟩ fuel =
        some ({ text := cs.reverse ++ text }, ⟨rest, i + cs.length, l, n + cs.length⟩)
  | [], _, _, text, i, l, n, fuel + 1, _ => quotedWord_of_ends hrest _ i l n fuel
  | c :: cs, hbare, hblank, text, i, l, n, fuel + 1, hfuel => by
    obtain ⟨⟨hbreak, hquote, hescape⟩, hbare⟩ := List.forall_mem_cons.1 hbare
    obtain ⟨hc, hblank⟩ := List.forall_mem_cons.1 hblank
    have hstep : quotedWord single { text } ⟨c :: (cs ++ rest), i, l, n⟩ (fuel + 1) =
        quotedWord single { text := c :: text } ⟨cs ++ rest, i + 1, l, n + 1⟩ fuel := by
      rw [quotedWord]
      show (if isBreak c || isBlank c then _ else _) = _
      rw [hbreak, hc]
      cases single with
      | true =>
        have hquote : (c == '\'') = false := beq_eq_false_iff_ne.2 hquote
        rw [hquote]
        rfl
      | false =>
        have hquote : (c == '"') = false := beq_eq_false_iff_ne.2 hquote
        have hescape : (c == '\\') = false := beq_eq_false_iff_ne.2 (hescape rfl)
        rw [hquote, hescape]
        rfl
    rw [List.cons_append, hstep, quotedWord_append hrest hbare hblank _ _ _ _ _
      (Nat.lt_of_succ_lt_succ hfuel), List.reverse_cons, List.append_assoc, Nat.add_assoc i,
      Nat.add_assoc n, Nat.add_comm 1]
    rfl

/-- A text in quotes goes on with a word and what follows it. -/
theorem quotedRest_word (hends : EndsQuoted single rest) (hbare : Bare single cs)
    (hblank : ∀ c ∈ cs, isBlank c = false) (text : List Char) (i l fuel : Nat) {n : Nat}
    (hn : n ≠ 0) :
    quotedRest single { text } ⟨cs ++ rest, i, l, n⟩ (fuel + 1) =
      let c : Cursor := ⟨rest, i + cs.length, l, n + cs.length⟩
      if c.sees (quoteMark single) then
        some (String.ofList (text.reverse ++ cs), c.skip)
      else
        let (f, c) := ({ text := cs.reverse ++ text } : Folding).takeSpace c (rest.length + 1)
        quotedRest single f.joinQuoted c fuel := by
  have hsome : ((⟨cs ++ rest, i, l, n⟩ : Cursor).peek 0).isNone = false := by
    have hne : rest ≠ [] := by
      rcases hends with ⟨c, r, rfl, -⟩ | ⟨r, rfl, -⟩ <;> exact List.cons_ne_nil _ _
    rw [Cursor.peek, ← List.head?_eq_getElem?, Option.isNone_eq_false_iff, List.isSome_head?]
    exact List.append_ne_nil_of_right_ne_nil cs hne
  have hword := quotedWord_append hends hbare hblank text i l n
    ((cs ++ rest).length + 1) (by
      rw [List.length_append]
      omega)
  rw [quotedRest, seesMark_of_column hn, seesMark_of_column hn, hsome]
  simp only [Bool.or_self, Bool.false_eq_true, if_false]
  rw [hword]
  dsimp only
  rw [List.reverse_append, List.reverse_reverse]
  rfl

/-- Characters start with a word, perhaps empty, and what is left starts with some blanks. -/
theorem exists_word (cs : List Char) : ∃ word blanks rest, cs = word ++ (blanks ++ rest) ∧
    (∀ c ∈ word, isBlank c = false) ∧ (∀ c ∈ blanks, isBlank c = true) ∧
    (∀ c ∈ rest.head?, isBlank c = false) ∧ (blanks = [] → rest = []) := by
  obtain ⟨behind, hbehind⟩ : ∃ b, b = cs.dropWhile (!isBlank ·) := ⟨_, rfl⟩
  have hstop (p : Char → Bool) (l : List Char) : ∀ c ∈ (l.dropWhile p).head?, p c = false := by
    intro c hc
    have := List.head?_dropWhile_not p l
    rw [hc] at this
    exact this
  refine ⟨cs.takeWhile (!isBlank ·), behind.takeWhile isBlank, behind.dropWhile isBlank, ?_,
    fun c hc => ?_, fun c hc => List.mem_takeWhile_imp hc, hstop isBlank behind, fun hnil => ?_⟩
  · rw [List.takeWhile_append_dropWhile, hbehind, List.takeWhile_append_dropWhile]
  · simpa using List.mem_takeWhile_imp hc
  · cases hcs : behind with
    | nil => rfl
    | cons c behind' =>
      have hc := hstop (!isBlank ·) cs c (by rw [← hbehind, hcs]; rfl)
      rw [Bool.not_eq_false'] at hc
      rw [hcs, List.takeWhile_cons_of_pos hc] at hnil
      cases hnil

theorem isBreak_quoteMark (single : Bool) :
    isBlank (quoteMark single) = false ∧ isBreak (quoteMark single) = false := by
  cases single <;> exact ⟨rfl, rfl⟩

/-- What stands between quotes is read word by word. -/
theorem quotedRest_append (hrest : single = true → rest.head? ≠ some '\'') :
    ∀ (inner : List Char), Bare single inner → ∀ (text : List Char) (i l n : Nat) {fuel : Nat},
      n ≠ 0 → inner.length < fuel →
        quotedRest single { text } ⟨inner ++ quoteMark single :: rest, i, l, n⟩ fuel =
          some (String.ofList (text.reverse ++ inner),
            ⟨rest, i + inner.length + 1, l, n + inner.length + 1⟩)
  | inner, hbare, text, i, l, n, fuel + 1, hn, hfuel => by
    obtain ⟨word, blanks, more, rfl, hword, hblanks, hmore, hnil⟩ := exists_word inner
    have hbare' : Bare single word := fun c hc => hbare c (List.mem_append_left _ hc)
    cases blanks with
    | nil =>
      obtain rfl := hnil rfl
      have hends : EndsQuoted single (quoteMark single :: rest) := .inr ⟨rest, rfl, hrest⟩
      have hsees (i l n : Nat) :
          (⟨quoteMark single :: rest, i, l, n⟩ : Cursor).sees (quoteMark single) = true :=
        beq_self_eq_true _
      rw [List.append_nil, List.append_nil, quotedRest_word hends hbare' hword text i l fuel hn]
      dsimp only
      rw [if_pos (hsees _ _ _)]
      rfl
    | cons b bs =>
      have hb := hblanks b List.mem_cons_self
      have hends : EndsQuoted single (b :: bs ++ (more ++ quoteMark single :: rest)) :=
        .inl ⟨b, _, rfl, hb⟩
      have hsees (i l n : Nat) :
          (⟨b :: bs ++ (more ++ quoteMark single :: rest), i, l, n⟩ : Cursor).sees
            (quoteMark single) = false := by
        refine beq_eq_false_iff_ne.2 fun h => ?_
        obtain rfl := Option.some.inj h
        exact Bool.false_ne_true ((isBreak_quoteMark single).1.symm.trans hb)
      have hahead : Ahead (more ++ quoteMark single :: rest) := by
        cases more with
        | nil =>
          intro c hc
          obtain rfl := Option.some.inj hc
          exact isBreak_quoteMark single
        | cons c more =>
          intro d hd
          obtain rfl := Option.some.inj hd
          refine ⟨hmore c rfl, (hbare c ?_).1⟩
          exact List.mem_append_right _ (List.mem_append_right _ List.mem_cons_self)
      have hjoin : ({ text := word.reverse ++ text, blanks := b :: bs } : Folding).joinQuoted =
          { text := (b :: bs).reverse ++ (word.reverse ++ text) } := rfl
      have hbare'' : Bare single more := fun c hc =>
        hbare c (List.mem_append_right _ (List.mem_append_right _ hc))
      have hlength : more.length < fuel := by
        simp only [List.length_append, List.length_cons] at hfuel
        omega
      rw [List.append_assoc, List.append_assoc,
        quotedRest_word hends hbare' hword text i l fuel hn]
      dsimp only
      rw [if_neg (by rw [hsees]; exact Bool.false_ne_true), takeSpace_gap hblanks hahead]
      dsimp only
      rw [hjoin, quotedRest_append hrest more hbare'' _ _ _ _ (by omega) hlength]
      simp only [List.reverse_append, List.reverse_reverse, List.append_assoc, List.length_append]
      congr 3 <;> omega

theorem Quote.bare (q : Quote) : Bare q.single q.inner := fun c hc =>
  ⟨isBreak_of_inLine (q.inLine c hc), fun h => q.noQuote (h ▸ hc),
    fun hsingle h => q.noEscape hsingle (h ▸ hc)⟩

/-- **A text in quotes** is read up to its closing quote. -/
theorem quotedScalar_text (q : Quote) (hrest : rest.head? ≠ some '\'') (i l n : Nat) :
    quotedScalar q.single ⟨q.text ++ rest, i, l, n⟩ =
      some (String.ofList q.inner, ⟨rest, i + q.text.length, l, n + q.text.length⟩) := by
  have hlength : q.text.length = q.inner.length + 1 + 1 := by
    rw [Quote.text, List.length_cons, List.length_append, List.length_singleton]
  have hfuel : q.inner.length < (q.text ++ rest).length + 1 := by
    rw [List.length_append]
    omega
  have hinner := quotedRest_append (fun _ => hrest) q.inner q.bare [] (i + 1) l (n + 1)
    (Nat.succ_ne_zero n) hfuel
  rw [hlength, quotedScalar]
  show quotedRest q.single {} ⟨(q.inner ++ [quoteMark q.single]) ++ rest, i + 1, l, n + 1⟩ _ = _
  rw [List.append_assoc]
  exact hinner.trans (by
    rw [List.reverse_nil, List.nil_append]
    congr 3 <;> omega)

end Quoted

end ResourceCli.Yaml
