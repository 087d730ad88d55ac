import ResourceCli.Proofs.Document.Flagged

/-!
# JSON texts whose flags are rewritten

Going through a JSON text, the rewriting takes each member for a flag that is spelled as one, and
leaves everything else as it is (`exists_replaced`).  Where a flag has a fraction, what comes out
has a point behind a truth value, and no JSON text has a point behind a letter outside of strings
(`noPoint`).  So the outcome is a text of what is meant exactly if every member can be rewritten
(`isText_normalizeFlags_iff`).
-/

namespace ResourceCli.Document

open Json Text

/-! ## Points behind letters -/

/-- Where a character of a JSON text stands. -/
inductive Mode
  /-- Outside of strings; whether the character before is the letter `e`. -/
  | outside (afterE : Bool)
  /-- Inside a string. -/
  | inside
  /-- Behind a backslash. -/
  | escaped

/-- No point stands behind the letter `e` outside of strings. -/
def noPoint : Mode → List Char → Bool
  | _, [] => true
  | .outside e, c :: cs =>
    !(e && c == '.') && noPoint (if c == '"' then .inside else .outside (c == 'e')) cs
  | .inside, c :: cs =>
    noPoint (if c == '"' then .outside false else if c == '\\' then .escaped else .inside) cs
  | .escaped, _ :: cs => noPoint .inside cs

/-- No point behind the letter is met in going over some characters outside of strings. -/
def Passes (cs : List Char) : Prop :=
  ∀ e rest, ∃ e', noPoint (.outside e) (cs ++ rest) = noPoint (.outside e') rest

/-- A point behind the letter is met in the characters, whatever comes before or after. -/
def Breaks (cs : List Char) : Prop := ∀ e rest, noPoint (.outside e) (cs ++ rest) = false

section Modes

variable {cs ds raw : List Char}

theorem Passes.append (h : Passes cs) (h' : Passes ds) : Passes (cs ++ ds) := by
  intro e rest
  obtain ⟨e', he⟩ := h e (ds ++ rest)
  obtain ⟨e'', he'⟩ := h' e' rest
  exact ⟨e'', by rw [List.append_assoc, he, he']⟩

theorem Passes.breaks (h : Passes cs) (h' : Breaks ds) : Breaks (cs ++ ds) := by
  intro e rest
  obtain ⟨e', he⟩ := h e (ds ++ rest)
  rw [List.append_assoc, he, h']

theorem Breaks.append (h : Breaks cs) (ds : List Char) : Breaks (cs ++ ds) := by
  intro e rest
  rw [List.append_assoc, h]

theorem passes_nil : Passes [] := fun e _ => ⟨e, rfl⟩

theorem passes_cons {c : Char} (hquote : c ≠ '"') (hpoint : c ≠ '.') (h : Passes cs) :
    Passes (c :: cs) := by
  intro e rest
  obtain ⟨e', he⟩ := h (c == 'e') rest
  refine ⟨e', ?_⟩
  rw [List.cons_append, noPoint, beq_eq_false_iff_ne.2 hquote, beq_eq_false_iff_ne.2 hpoint,
    Bool.and_false, Bool.not_false, Bool.true_and, if_neg Bool.false_ne_true, he]

theorem passes_of_forall (h : ∀ c ∈ cs, c ≠ '"' ∧ c ≠ '.') : Passes cs := by
  induction cs with
  | nil => exact passes_nil
  | cons c cs ih =>
    obtain ⟨hquote, hpoint⟩ := h c List.mem_cons_self
    exact passes_cons hquote hpoint (ih fun d hd => h d (List.mem_cons_of_mem _ hd))

theorem passes_spaces (h : Spaces cs) : Passes cs :=
  passes_of_forall fun c hc => forall_of_isSpace (P := fun c => c ≠ '"' ∧ c ≠ '.')
    (by decide) (by decide) (by decide) (by decide) c (h c hc)

theorem passes_separates {first : Bool} (h : Separates first cs) : Passes cs := by
  cases first with
  | true => exact passes_spaces h
  | false =>
    obtain ⟨before, after, hbefore, hafter, rfl⟩ := h
    exact (passes_spaces hbefore).append
      (passes_cons (by decide) (by decide) (passes_spaces hafter))

theorem passes_colon (h : IsColon cs) : Passes cs := by
  obtain ⟨before, after, hbefore, hafter, rfl⟩ := h
  exact (passes_spaces hbefore).append (passes_cons (by decide) (by decide) (passes_spaces hafter))

theorem noPoint_writes (h : Writes raw cs) (rest : List Char) :
    noPoint .inside (raw ++ '"' :: rest) = noPoint (.outside false) rest := by
  -- Within a string only quotes and backslashes matter.
  have inside : ∀ {ds more : List Char}, (∀ c ∈ ds, c ≠ '"' ∧ c ≠ '\\') →
      noPoint .inside (ds ++ more) = noPoint .inside more := by
    intro ds more hds
    induction ds with
    | nil => rfl
    | cons c ds ih =>
      obtain ⟨hquote, hback⟩ := hds c List.mem_cons_self
      rw [List.cons_append, noPoint, beq_eq_false_iff_ne.2 hquote, beq_eq_false_iff_ne.2 hback,
        if_neg Bool.false_ne_true, if_neg Bool.false_ne_true]
      exact ih fun d hd => hds d (List.mem_cons_of_mem _ hd)
  have digits : ∀ {ds : List Char} {n : Nat}, digitsValue? 16 ds = some n →
      ∀ c ∈ ds, c ≠ '"' ∧ c ≠ '\\' := by
    intro ds n hn c hc
    have hhex := hexValue?_of_mem hn hc
    constructor
    all_goals
      rintro rfl
      exact hhex rfl
  induction h with
  | nil => rfl
  | @plain c raw cs hquote hback hlow h ih =>
    rw [← List.singleton_append, List.append_assoc, inside, ih]
    intro d hd
    rw [List.mem_singleton.1 hd]
    exact ⟨hquote, hback⟩
  | letter hd h ih => exact ih
  | @code ds raw cs n hlen hn hhigh hlow h ih =>
    show noPoint .inside ((ds ++ raw) ++ '"' :: rest) = _
    rw [List.append_assoc, inside (digits hn), ih]
  | @pair ds ds' raw cs n m hlen hn hhigh hlen' hm hlow h ih =>
    show noPoint .inside ((ds ++ '\\' :: 'u' :: (ds' ++ raw)) ++ '"' :: rest) = _
    rw [List.append_assoc, inside (digits hn)]
    show noPoint .inside ((ds' ++ raw) ++ '"' :: rest) = _
    rw [List.append_assoc, inside (digits hm), ih]

theorem passes_spelled (q : Quoted) : Passes q.spelled := by
  intro e rest
  refine ⟨false, ?_⟩
  have hcons : q.spelled ++ rest = '"' :: (q.raw ++ '"' :: rest) := by
    rw [Quoted.spelled]
    simp
  rw [hcons, noPoint, show ('"' == '.') = false from rfl, Bool.and_false, Bool.not_false,
    Bool.true_and]
  exact noPoint_writes q.writes rest

theorem ne_point_of_isDigit {c : Char} (h : c.isDigit = true) : c ≠ '"' ∧ c ≠ '.' ∧ c ≠ 'e' := by
  refine ⟨?_, ?_, ?_⟩
  all_goals
    rintro rfl
    cases h

/-- The point of a number stands behind a digit. -/
theorem passes_point (hcs : ∀ c ∈ cs, c.isDigit = true) (hne : cs ≠ []) (h : Passes ds) :
    Passes (cs ++ '.' :: ds) := by
  induction cs with
  | nil => exact absurd rfl hne
  | cons c cs ih =>
    obtain ⟨hquote, hpoint, he⟩ := ne_point_of_isDigit (hcs c List.mem_cons_self)
    cases cs with
    | nil =>
      intro e rest
      obtain ⟨e', he'⟩ := h false rest
      refine ⟨e', ?_⟩
      rw [List.singleton_append, List.cons_append, noPoint, beq_eq_false_iff_ne.2 hpoint,
        beq_eq_false_iff_ne.2 hquote, beq_eq_false_iff_ne.2 he, Bool.and_false, Bool.not_false,
        Bool.true_and, if_neg Bool.false_ne_true]
      exact he'
    | cons d cs =>
      exact passes_cons hquote hpoint
        (ih (fun c hc => hcs c (List.mem_cons_of_mem _ hc)) (List.cons_ne_nil _ _))

theorem passes_num (l : Literal) : Passes l.text := by
  have hdigits : ∀ {cs : List Char}, (∀ c ∈ cs, c.isDigit = true) → Passes cs := fun hcs =>
    passes_of_forall fun c hc =>
      ⟨(ne_point_of_isDigit (hcs c hc)).1, (ne_point_of_isDigit (hcs c hc)).2.1⟩
  have hexponent : Passes l.exponentText := by
    unfold Literal.exponentText
    cases l.exponent with
    | none => exact passes_nil
    | some e =>
      rw [Option.map_some, Option.getD_some, Exponent.text]
      refine passes_cons ?_ ?_ (Passes.append ?_ (hdigits e.areDigits))
      · rcases e.isLetter with h | h <;> rw [h] <;> decide
      · rcases e.isLetter with h | h <;> rw [h] <;> decide
      · refine passes_of_forall fun c hc => ?_
        rcases e.isSign c (Option.mem_toList.1 hc) with rfl | rfl <;> decide
  have hunsigned : Passes l.unsigned := by
    show Passes (l.whole ++ (l.fraction ++ l.exponentText))
    unfold Literal.fraction
    split
    · exact (hdigits l.digits_whole).append hexponent
    · exact passes_point l.digits_whole l.whole_ne_nil ((hdigits l.digits_places).append hexponent)
  unfold Literal.text
  split
  · exact passes_cons (by decide) (by decide) hunsigned
  · exact hunsigned

end Modes

mutual

theorem passes_of_spells : ∀ (t : Source Quoted) {cs : List Char}, Spells t cs → Passes cs
  | .null, cs, h => by
    obtain rfl : cs = ['n', 'u', 'l', 'l'] := h
    exact passes_of_forall (by simp)
  | .bool b, cs, h => by
    obtain rfl : cs = boolText b := h
    cases b <;> exact passes_of_forall (by simp [boolText])
  | .num l, cs, h => by
    obtain rfl : cs = l.text := h
    exact passes_num l
  | .str q, cs, h => by
    obtain rfl : cs = q.spelled := h
    exact passes_spelled q
  | .arr items, cs, h => by
    obtain ⟨inner, hinner, rfl⟩ := h
    exact passes_cons (by decide) (by decide) (passes_of_spellsItems items true hinner)
  | .obj members, cs, h => by
    obtain ⟨inner, hinner, rfl⟩ := h
    exact passes_cons (by decide) (by decide) (passes_of_spellsMembers members true hinner)

theorem passes_of_spellsItems : ∀ (ts : List (Source Quoted)) (first : Bool) {cs : List Char},
    SpellsItems first ts cs → Passes cs
  | [], first, cs, h => by
    obtain ⟨blanks, hb, rfl⟩ := h
    exact (passes_spaces hb).append (passes_of_forall (by simp))
  | t :: ts, first, cs, h => by
    obtain ⟨sep, body, rest, hsep, hbody, hrest, rfl⟩ := h
    exact (passes_separates hsep).append
      ((passes_of_spells t hbody).append (passes_of_spellsItems ts false hrest))

theorem passes_of_spellsMembers : ∀ (ts : List (Quoted × Source Quoted)) (first : Bool)
    {cs : List Char}, SpellsMembers first ts cs → Passes cs
  | [], first, cs, h => by
    obtain ⟨blanks, hb, rfl⟩ := h
    exact (passes_spaces hb).append (passes_of_forall (by simp))
  | (k, t) :: ts, first, cs, h => by
    obtain ⟨sep, colon, body, rest, hsep, hcolon, hbody, hrest, rfl⟩ := h
    exact (passes_separates hsep).append ((passes_spelled k).append ((passes_colon hcolon).append
      ((passes_of_spells t hbody).append (passes_of_spellsMembers ts false hrest))))

end

/-- **No JSON text** has a point behind the letter outside of strings. -/
theorem noPoint_of_isText {t : Source Quoted} {cs : List Char} (h : IsText t cs) :
    noPoint (.outside false) cs = true := by
  obtain ⟨before, body, after, hbefore, hbody, hafter, rfl⟩ := h
  obtain ⟨e, he⟩ := ((passes_spaces hbefore).append
    ((passes_of_spells t hbody).append (passes_spaces hafter))) false []
  rw [List.append_nil] at he
  rw [he]
  rfl

/-! ## What is replaced -/

/-- A key that is spelled as the key of a flag has no fraction. -/
def NoFraction (k : Quoted) (t : Source Quoted) : Prop := isSpelledFlag k = true → ¬ IsFraction t

/-- The value of a member in which flags are replaced. -/
def flaggedValue (k : Quoted) (t : Source Quoted) : Source Quoted :=
  match (if isSpelledFlag k then flagValue? t else none) with
  | some b => .bool b
  | none => flagged isSpelledFlag t

/-- Some characters of a value are rewritten to others: to characters of what is meant, unless a
flag has a fraction. -/
structure Replaced (cs cs' : List Char) (fits : Prop) (meant : List Char → Prop) : Prop where
  /-- The rewriting goes over the characters. -/
  replaced : ∀ rest, Ends rest → replaceJsonFlags 0 (cs ++ rest) = cs' ++ replaceJsonFlags 0 rest
  /-- They mean what is meant. -/
  spells : fits → meant cs'
  /-- A fraction leaves a point behind a truth value. -/
  breaks : ¬ fits → Breaks cs'

theorem breaks_boolText (b : Bool) (cs : List Char) : Breaks (boolText b ++ '.' :: cs) := by
  intro e rest
  cases b <;> cases e <;> rfl

theorem head?_of_isColon {colon : List Char} (h : IsColon colon) (rest : List Char) :
    (colon ++ rest).head? ≠ some 'r' := by
  obtain ⟨before, after, hbefore, -, rfl⟩ := h
  cases before with
  | nil => exact fun h => absurd (Option.some.inj h) (by decide)
  | cons c before =>
    intro hr
    have hc := hbefore c List.mem_cons_self
    rw [Option.some.inj hr] at hc
    cases hc

theorem head?_of_ends {rest : List Char} (h : Ends rest) : rest.head? ≠ some 'r' := by
  intro hr
  exact h.forall (P := fun c => c ≠ 'r') (forall_of_isSpace (by decide) (by decide) (by decide)
    (by decide)) (by decide) (by decide) (by decide) 'r' hr rfl

theorem exists_of_digitFlag? {cs value after : List Char}
    (h : digitFlag? cs = some (value, after)) : ∃ digit, cs = digit ++ after := by
  cases cs with
  | nil => cases h
  | cons c cs =>
    rw [digitFlag?, Option.bind_eq_bind, Option.bind_eq_some_iff] at h
    obtain ⟨value', -, h⟩ := h
    split at h
    · cases h
      exact ⟨[c], rfl⟩
    · cases h

/-! ## Members -/

/-- The member of a key that stands behind some characters is rewritten, its colon and its value to
others. -/
structure ReplacedMember (before : List Char) (k : Quoted) (t : Source Quoted)
    (colon body colon' body' : List Char) : Prop where
  /-- A colon stays a colon. -/
  isColon : IsColon colon'
  /-- The rewriting goes over the member. -/
  replaced : ∀ rest, Ends rest →
    replaceJsonFlags 0 (before ++ (k.spelled ++ (colon ++ (body ++ rest)))) =
      before ++ (k.spelled ++ (colon' ++ (body' ++ replaceJsonFlags 0 rest)))
  /-- The value means what is meant. -/
  spells : NoFraction k t ∧ EachMember NoFraction t → Spells (flaggedValue k t) body'
  /-- A fraction leaves a point behind a truth value. -/
  breaks : ¬ (NoFraction k t ∧ EachMember NoFraction t) → Breaks body'

section Members

variable {blanks colon body body' rest : List Char} {t : Source Quoted} {c : Char}

theorem replaceJsonFlags_colon (h : IsColon colon) (rest : List Char) :
    replaceJsonFlags 0 (colon ++ rest) = colon ++ replaceJsonFlags 0 rest := by
  obtain ⟨before, after, hbefore, hafter, rfl⟩ := h
  rw [List.append_assoc, replaceJsonFlags_spaces hbefore, List.cons_append,
    replaceJsonFlags_cons (by decide) (by decide), replaceJsonFlags_spaces hafter,
    List.append_assoc, List.cons_append]

/-- A flag that is found gets its truth value. -/
theorem replaceJsonFlags_member_of_some {value after : List Char} (hc : c = '{' ∨ c = ',')
    (hb : Spaces blanks) (k : Quoted) (hcolon : IsColon colon) (hbody : Spells t body)
    (hflag : isSpelledFlag k = true) (hdigit : digitFlag? (body ++ rest) = some (value, after)) :
    replaceJsonFlags 0 (c :: (blanks ++ (k.spelled ++ (colon ++ (body ++ rest))))) =
      c :: (blanks ++ (k.spelled ++ ([':'] ++ (value ++ replaceJsonFlags 0 after)))) := by
  obtain ⟨digit, heq⟩ := exists_of_digitFlag? hdigit
  have hopens : (c == '{' || c == ',') = true := by
    rw [Bool.or_eq_true, beq_iff_eq, beq_iff_eq]
    exact hc
  have hsplit : blanks ++ (k.spelled ++ (colon ++ (body ++ rest))) =
      (blanks ++ (k.spelled ++ (colon ++ digit))) ++ after := by
    rw [heq]
    simp only [List.append_assoc]
  rw [replaceJsonFlags, if_pos hopens, jsonFlag?_member hb k hcolon hbody, if_pos hflag, hdigit]
  dsimp only [Option.map_some]
  rw [hsplit, List.length_append, Nat.add_sub_cancel, replaceJsonFlags_skip]
  simp only [List.append_assoc, List.cons_append, List.nil_append]

/-- Where no flag is found, the value is gone over. -/
theorem replaceJsonFlags_member_of_none (hb : Spaces blanks) (k : Quoted) (hcolon : IsColon colon)
    (hbody : Spells t body) (hnone : isSpelledFlag k = true → digitFlag? (body ++ rest) = none)
    (hvalue : replaceJsonFlags 0 (body ++ rest) = body' ++ replaceJsonFlags 0 rest) :
    replaceJsonFlags 0 (c :: (blanks ++ (k.spelled ++ (colon ++ (body ++ rest))))) =
      c :: (blanks ++ (k.spelled ++ (colon ++ (body' ++ replaceJsonFlags 0 rest)))) := by
  have hflag : jsonFlag? (blanks ++ (k.spelled ++ (colon ++ (body ++ rest)))) = none := by
    rw [jsonFlag?_member hb k hcolon hbody]
    split
    · rename_i hspelled
      rw [hnone hspelled, Option.map_none]
    · rfl
  rw [replaceJsonFlags_cons_of_none c hflag, replaceJsonFlags_spaces hb,
    replaceJsonFlags_spelled k (head?_of_isColon hcolon _), replaceJsonFlags_colon hcolon, hvalue]

/-- **A member is replaced** behind the brace or comma before it. -/
theorem exists_replaced_member (hc : c = '{' ∨ c = ',') (hb : Spaces blanks) (k : Quoted)
    (hcolon : IsColon colon) (hbody : Spells t body)
    (ih : ∃ body', Replaced body body' (EachMember NoFraction t)
      (Spells (flagged isSpelledFlag t))) :
    ∃ colon' body', ReplacedMember (c :: blanks) k t colon body colon' body' := by
  have hcolon' : IsColon [':'] := ⟨[], [], .nil, .nil, rfl⟩
  by_cases hflag : isSpelledFlag k = true
  · by_cases hfraction : IsFraction t
    · obtain ⟨b, places, hplaces, hdigit⟩ := exists_digitFlag?_of_isFraction hbody hfraction
      refine ⟨[':'], boolText b ++ '.' :: places, hcolon', fun rest _ => ?_,
        fun h => absurd hfraction (h.1 hflag), fun _ => breaks_boolText b places⟩
      rw [List.cons_append,
        replaceJsonFlags_member_of_some hc hb k hcolon hbody hflag (hdigit rest),
        replaceJsonFlags_cons (by decide) (by decide), replaceJsonFlags_append hplaces]
      simp only [List.append_assoc, List.cons_append, List.nil_append]
    · have hno : NoFraction k t := fun _ => hfraction
      cases hvalue : flagValue? t with
      | some b =>
        have heach : EachMember NoFraction t := by
          cases t with
          | num l => trivial
          | null | bool | str | arr | obj => cases hvalue
        refine ⟨[':'], boolText b, hcolon', fun rest hrest => ?_, fun _ => ?_,
          fun h => absurd ⟨hno, heach⟩ h⟩
        · exact replaceJsonFlags_member_of_some hc hb k hcolon hbody hflag
            (digitFlag?_of_flagValue? hbody hrest hvalue)
        · rw [flaggedValue, if_pos hflag, hvalue]
          rfl
      | none =>
        obtain ⟨body', hbody'⟩ := ih
        refine ⟨colon, body', hcolon, fun rest hrest => ?_, fun h => ?_,
          fun h => hbody'.breaks fun heach => h ⟨hno, heach⟩⟩
        · exact replaceJsonFlags_member_of_none hb k hcolon hbody
            (fun _ => digitFlag?_eq_none hbody hvalue hfraction) (hbody'.replaced rest hrest)
        · rw [flaggedValue, if_pos hflag, hvalue]
          exact hbody'.spells h.2
  · obtain ⟨body', hbody'⟩ := ih
    have hno : NoFraction k t := fun h => absurd h hflag
    refine ⟨colon, body', hcolon, fun rest hrest => ?_, fun h => ?_,
      fun h => hbody'.breaks fun heach => h ⟨hno, heach⟩⟩
    · exact replaceJsonFlags_member_of_none hb k hcolon hbody (fun h => absurd h hflag)
        (hbody'.replaced rest hrest)
    · rw [flaggedValue, if_neg hflag]
      exact hbody'.spells h.2

end Members

/-! ## Values -/

/-- What ends an item of an array starts no flag. -/
theorem colonFlag?_of_spellsItems {ts : List (Source Quoted)} {cs : List Char}
    (h : SpellsItems false ts cs) (rest : List Char) :
    colonFlag? ((cs ++ rest).dropWhile isBlank) = none := by
  cases ts with
  | nil =>
    obtain ⟨blanks, hb, rfl⟩ := h
    rw [List.append_assoc, List.singleton_append,
      dropWhile_isBlank_cons (areBlanks_of_spaces hb) rfl]
    rfl
  | cons t ts =>
    obtain ⟨sep, body, inner, ⟨before, after, hbefore, -, rfl⟩, -, -, rfl⟩ := h
    rw [List.append_assoc, List.append_assoc, List.cons_append,
      dropWhile_isBlank_cons (areBlanks_of_spaces hbefore) rfl]
    rfl

theorem Replaced.of_append {cs : List Char} {meant : List Char → Prop}
    (h : ∀ rest, replaceJsonFlags 0 (cs ++ rest) = cs ++ replaceJsonFlags 0 rest)
    (hmeant : meant cs) : Replaced cs cs True meant :=
  ⟨fun rest _ => h rest, fun _ => hmeant, fun h => absurd trivial h⟩

mutual

/-- **A value is replaced** by what is meant, unless a flag has a fraction. -/
theorem exists_replaced : ∀ (t : Source Quoted) {cs : List Char}, Spells t cs →
    ∃ cs', Replaced cs cs' (EachMember NoFraction t) (Spells (flagged isSpelledFlag t))
  | .null, cs, h => by
    obtain rfl : cs = ['n', 'u', 'l', 'l'] := h
    exact ⟨_, .of_append (replaceJsonFlags_append (by simp)) rfl⟩
  | .bool b, cs, h => by
    obtain rfl : cs = boolText b := h
    exact ⟨_, .of_append (replaceJsonFlags_append (by cases b <;> simp [boolText])) rfl⟩
  | .num l, cs, h => by
    obtain rfl : cs = l.text := h
    exact ⟨_, .of_append (replaceJsonFlags_num l) rfl⟩
  | .str q, cs, h => by
    obtain rfl : cs = q.spelled := h
    exact ⟨q.spelled, fun rest hrest => replaceJsonFlags_spelled q (head?_of_ends hrest),
      fun _ => rfl, fun h => absurd trivial h⟩
  | .arr items, cs, h => by
    obtain ⟨inner, hinner, rfl⟩ := h
    obtain ⟨inner', hreplaced, hspells, hbreaks⟩ := exists_replacedItems items true hinner
    have hopen : Passes ['['] := passes_of_forall (by simp)
    refine ⟨'[' :: inner', fun rest _ => ?_, fun h => ⟨inner', hspells h, rfl⟩,
      fun h => hopen.breaks (hbreaks h)⟩
    rw [List.cons_append, replaceJsonFlags_cons (by decide) (by decide), hreplaced,
      List.cons_append]
  | .obj members, cs, h => by
    obtain ⟨inner, hinner, rfl⟩ := h
    obtain ⟨inner', hreplaced, hspells, hbreaks⟩ := exists_replacedMembers members true hinner
    have hopen : Passes ['{'] := passes_of_forall (by simp)
    exact ⟨'{' :: inner', fun rest _ => hreplaced rest, fun h => ⟨inner', hspells h, rfl⟩,
      fun h => hopen.breaks (hbreaks h)⟩

theorem exists_replacedItems : ∀ (ts : List (Source Quoted)) (first : Bool) {cs : List Char},
    SpellsItems first ts cs → ∃ cs',
      (∀ rest, replaceJsonFlags 0 (cs ++ rest) = cs' ++ replaceJsonFlags 0 rest) ∧
      (EachMemberOfItems NoFraction ts →
        SpellsItems first (flaggedItems isSpelledFlag ts) cs') ∧
      (¬ EachMemberOfItems NoFraction ts → Breaks cs')
  | [], first, cs, h => by
    obtain ⟨blanks, hb, rfl⟩ := h
    refine ⟨blanks ++ [']'], fun rest => ?_, fun _ => ⟨blanks, hb, rfl⟩,
      fun h => absurd trivial h⟩
    rw [List.append_assoc, replaceJsonFlags_spaces hb, List.singleton_append,
      replaceJsonFlags_cons (by decide) (by decide), List.append_assoc, List.singleton_append]
  | t :: ts, first, cs, h => by
    obtain ⟨sep, body, inner, hsep, hbody, hinner, rfl⟩ := h
    obtain ⟨body', hvalue, hspells, hbreaks⟩ := exists_replaced t hbody
    obtain ⟨inner', hlater, hspells', hbreaks'⟩ := exists_replacedItems ts false hinner
    have hover : ∀ rest, replaceJsonFlags 0 (sep ++ (body ++ (inner ++ rest))) =
        sep ++ replaceJsonFlags 0 (body ++ (inner ++ rest)) := by
      intro rest
      cases first with
      | true => exact replaceJsonFlags_spaces hsep _
      | false =>
        obtain ⟨before, after, hbefore, hafter, rfl⟩ := hsep
        rw [List.append_assoc, replaceJsonFlags_spaces hbefore, List.cons_append,
          replaceJsonFlags_cons_of_none _
            (jsonFlag?_item hafter hbody (colonFlag?_of_spellsItems hinner rest)),
          replaceJsonFlags_spaces hafter, List.append_assoc, List.cons_append]
    refine ⟨sep ++ (body' ++ inner'), fun rest => ?_,
      fun h => ⟨sep, body', inner', hsep, hspells h.1, hspells' h.2, rfl⟩, fun h => ?_⟩
    · rw [List.append_assoc, List.append_assoc, hover, hvalue _ (hinner.ends rest), hlater]
      simp only [List.append_assoc]
    · refine (passes_separates hsep).breaks ?_
      by_cases hfits : EachMember NoFraction t
      · exact (passes_of_spells _ (hspells hfits)).breaks (hbreaks' fun hts => h ⟨hfits, hts⟩)
      · exact (hbreaks hfits).append _

theorem exists_replacedMembers : ∀ (ts : List (Quoted × Source Quoted)) (first : Bool)
    {cs : List Char}, SpellsMembers first ts cs → ∃ cs',
      (∀ rest, replaceJsonFlags 0 ((if first then ['{'] else []) ++ cs ++ rest) =
        (if first then ['{'] else []) ++ cs' ++ replaceJsonFlags 0 rest) ∧
      (EachMemberOf NoFraction ts →
        SpellsMembers first (flaggedMembers isSpelledFlag ts) cs') ∧
      (¬ EachMemberOf NoFraction ts → Breaks cs')
  | [], first, cs, h => by
    obtain ⟨blanks, hb, rfl⟩ := h
    refine ⟨blanks ++ ['}'], fun rest => ?_, fun _ => ⟨blanks, hb, rfl⟩,
      fun h => absurd trivial h⟩
    have hclose : replaceJsonFlags 0 (blanks ++ '}' :: rest) =
        blanks ++ '}' :: replaceJsonFlags 0 rest := by
      rw [replaceJsonFlags_spaces hb, replaceJsonFlags_cons (by decide) (by decide)]
    have hnone : jsonFlag? (blanks ++ '}' :: rest) = none := by
      refine jsonFlag?_eq_none fun key _ after => ?_
      rw [dropWhile_isBlank_cons (areBlanks_of_spaces hb) rfl]
      exact fun heq => absurd (List.cons.inj heq).1 (by decide)
    cases first with
    | true =>
      simp only [if_true, List.append_assoc, List.cons_append, List.nil_append]
      rw [replaceJsonFlags_cons_of_none _ hnone, hclose]
    | false =>
      simp only [Bool.false_eq_true, if_false, List.nil_append, List.append_assoc,
        List.singleton_append]
      exact hclose
  | (k, t) :: ts, first, cs, h => by
    obtain ⟨sep, colon, body, inner, hsep, hcolon, hbody, hinner, rfl⟩ := h
    obtain ⟨inner', hlater, hspells', hbreaks'⟩ := exists_replacedMembers ts false hinner
    simp only [Bool.false_eq_true, if_false, List.nil_append] at hlater
    -- The brace or comma before the member is where a flag is looked for.
    obtain ⟨colon', body', hcolon', hvalue, hspells, hbreaks⟩ : ∃ colon' body',
        ReplacedMember ((if first then ['{'] else []) ++ sep) k t colon body colon' body' := by
      cases first with
      | true =>
        exact exists_replaced_member (.inl rfl) hsep k hcolon hbody (exists_replaced t hbody)
      | false =>
        obtain ⟨before, after, hbefore, hafter, rfl⟩ := hsep
        obtain ⟨colon', body', hmember⟩ :=
          exists_replaced_member (.inr rfl) hafter k hcolon hbody (exists_replaced t hbody)
        refine ⟨colon', body', { hmember with replaced := fun rest hrest => ?_ }⟩
        simp only [Bool.false_eq_true, if_false, List.nil_append, List.append_assoc]
        rw [replaceJsonFlags_spaces hbefore, hmember.replaced rest hrest]
    refine ⟨sep ++ (k.spelled ++ (colon' ++ (body' ++ inner'))), fun rest => ?_,
      fun h => ⟨sep, colon', body', inner', hsep, hcolon', hspells ⟨h.1, h.2.1⟩, hspells' h.2.2,
        rfl⟩, fun h => ?_⟩
    · have hmember := hvalue _ (hinner.ends rest)
      rw [hlater] at hmember
      simpa only [List.append_assoc] using hmember
    · refine (passes_separates hsep).breaks ((passes_spelled k).breaks
        ((passes_colon hcolon').breaks ?_))
      by_cases hfits : NoFraction k t ∧ EachMember NoFraction t
      · exact (passes_of_spells _ (hspells hfits)).breaks
          (hbreaks' fun hts => h ⟨hfits.1, hfits.2, hts⟩)
      · exact (hbreaks hfits).append _

end

/-! ## What is meant and what is done -/

/-- A number that is a flag has a key that is spelled as one. -/
def SpelledPlainly (k : Quoted) (t : Source Quoted) : Prop :=
  isFlag k = true → flagValue? t ≠ none → isSpelledFlag k = true

/-- What is spelled as the key of a flag is one. -/
theorem isFlag_of_isSpelledFlag {k : Quoted} (h : isSpelledFlag k = true) : isFlag k = true := by
  obtain ⟨key, hkey, hraw⟩ := List.any_eq_true.1 h
  rw [beq_iff_eq] at hraw
  have hwrites := k.writes
  rw [hraw] at hwrites
  have hsame : key.toList ++ '"' :: [] = key.toList ++ '"' :: [] := rfl
  have htext := (hwrites.eq_of_append (writes_key hkey) hsame).2.1
  rw [isFlag, List.contains_iff_mem, String.toList_inj.1 htext]
  exact hkey

theorem flagged_of_flagValue? {p : Quoted → Bool} {t : Source Quoted} {b : Bool}
    (h : flagValue? t = some b) : flagged p t = t ∧ ∃ l, t = .num l := by
  cases t with
  | num l => exact ⟨rfl, l, rfl⟩
  | null | bool | str | arr | obj => cases h

section And

variable {P Q : Quoted → Source Quoted → Prop}

mutual

theorem eachMember_and : ∀ t, EachMember (fun k t => P k t ∧ Q k t) t ↔
    EachMember P t ∧ EachMember Q t
  | .null | .bool _ | .num _ | .str _ => by simp [EachMember]
  | .arr items => by
    rw [EachMember, EachMember, EachMember]
    exact eachMemberOfItems_and items
  | .obj members => by
    rw [EachMember, EachMember, EachMember]
    exact eachMemberOf_and members

theorem eachMemberOfItems_and : ∀ ts, EachMemberOfItems (fun k t => P k t ∧ Q k t) ts ↔
    EachMemberOfItems P ts ∧ EachMemberOfItems Q ts
  | [] => by simp [EachMemberOfItems]
  | t :: ts => by
    rw [EachMemberOfItems, EachMemberOfItems, EachMemberOfItems, eachMember_and t,
      eachMemberOfItems_and ts]
    exact and_and_and_comm

theorem eachMemberOf_and : ∀ ts, EachMemberOf (fun k t => P k t ∧ Q k t) ts ↔
    EachMemberOf P ts ∧ EachMemberOf Q ts
  | [] => by simp [EachMemberOf]
  | (k, t) :: ts => by
    rw [EachMemberOf, EachMemberOf, EachMemberOf, eachMember_and t, eachMemberOf_and ts]
    constructor
    · rintro ⟨⟨hp, hq⟩, ⟨hpt, hqt⟩, hpts, hqts⟩
      exact ⟨⟨hp, hpt, hpts⟩, hq, hqt, hqts⟩
    · rintro ⟨⟨hp, hpt, hpts⟩, hq, hqt, hqts⟩
      exact ⟨⟨hp, hq⟩, ⟨hpt, hqt⟩, hpts, hqts⟩

end

end And

mutual

/-- **The flags that are found are the flags that are meant** if they are all spelled plainly. -/
theorem data_flagged_eq_iff : ∀ t : Source Quoted,
    (flagged isSpelledFlag t).data = (flagged isFlag t).data ↔ EachMember SpelledPlainly t
  | .null | .bool _ | .num _ | .str _ => by simp [flagged, EachMember]
  | .arr items => by
    rw [EachMember, ← dataItems_flagged_eq_iff items]
    exact ⟨fun h => Source.arr.inj h, fun h => congrArg Source.arr h⟩
  | .obj members => by
    rw [EachMember, ← dataMembers_flagged_eq_iff members]
    exact ⟨fun h => Source.obj.inj h, fun h => congrArg Source.obj h⟩

theorem dataItems_flagged_eq_iff : ∀ ts : List (Source Quoted),
    Source.mapItems Quoted.text (flaggedItems isSpelledFlag ts) =
        Source.mapItems Quoted.text (flaggedItems isFlag ts) ↔
      EachMemberOfItems SpelledPlainly ts
  | [] => by simp [flaggedItems, EachMemberOfItems]
  | t :: ts => by
    rw [flaggedItems, flaggedItems, Source.mapItems, Source.mapItems, List.cons.injEq,
      EachMemberOfItems, dataItems_flagged_eq_iff ts, ← data_flagged_eq_iff t]
    rfl

theorem dataMembers_flagged_eq_iff : ∀ ts : List (Quoted × Source Quoted),
    Source.mapMembers Quoted.text (flaggedMembers isSpelledFlag ts) =
        Source.mapMembers Quoted.text (flaggedMembers isFlag ts) ↔
      EachMemberOf SpelledPlainly ts
  | [] => by simp [flaggedMembers, EachMemberOf]
  | (k, t) :: ts => by
    rw [flaggedMembers, flaggedMembers, Source.mapMembers, Source.mapMembers, List.cons.injEq,
      Prod.mk.injEq, EachMemberOf, dataMembers_flagged_eq_iff ts, ← and_assoc]
    refine and_congr_left' ?_
    rw [← data_flagged_eq_iff t]
    cases hvalue : flagValue? t with
    | none =>
      have hplain : SpelledPlainly k t := fun _ h => absurd hvalue h
      rw [ite_self, ite_self]
      exact ⟨fun h => ⟨hplain, h.2⟩, fun h => ⟨rfl, h.2⟩⟩
    | some b =>
      obtain ⟨heq, l, rfl⟩ := flagged_of_flagValue? (p := isSpelledFlag) hvalue
      obtain ⟨heq', -⟩ := flagged_of_flagValue? (p := isFlag) hvalue
      rw [heq, heq']
      by_cases hspelled : isSpelledFlag k = true
      · rw [if_pos hspelled, if_pos (isFlag_of_isSpelledFlag hspelled)]
        exact ⟨fun _ => ⟨fun _ _ => hspelled, rfl⟩, fun _ => ⟨rfl, rfl⟩⟩
      · rw [if_neg hspelled]
        by_cases hflag : isFlag k = true
        · rw [if_pos hflag]
          refine iff_of_false (fun h => ?_) fun h => hspelled (h.1 hflag ?_)
          · cases h.2
          · rw [hvalue]
            exact Option.some_ne_none b
        · rw [if_neg hflag]
          exact ⟨fun _ => ⟨fun h => absurd h hflag, rfl⟩, fun _ => ⟨rfl, rfl⟩⟩

end

/-! ## The texts of objects -/

section Objects

variable {text : String} {members : List (Quoted × Source Quoted)}

theorem looksJson_of_isText (h : IsText (.obj members) text.toList) : looksJson text = true := by
  obtain ⟨before, body, after, hbefore, ⟨inner, -, rfl⟩, -, htext⟩ := h
  rw [looksJson, htext, List.cons_append, dropWhile_isBlank_cons (areBlanks_of_spaces hbefore) rfl]
  rfl

/-- **The text of an object is rewritten to what is meant**, the same data with truth values for the
numeric flags, exactly if every member can be rewritten. -/
theorem isText_normalizeFlags_iff (h : IsText (.obj members) text.toList) :
    (∃ u, IsText u (normalizeFlags text).toList ∧
        u.data = (flagged isFlag (.obj members)).data) ↔
      EachMember CanBeFlag (.obj members) := by
  have hlooks := looksJson_of_isText h
  obtain ⟨before, body, after, hbefore, hbody, hafter, htext⟩ := h
  obtain ⟨body', hreplaced, hspells, hbreaks⟩ := exists_replaced _ hbody
  have hcs : (normalizeFlags text).toList = before ++ (body' ++ after) := by
    have hend : Ends (after ++ []) := ends_nil.spaces hafter
    rw [List.append_nil] at hend
    have hspaces := replaceJsonFlags_spaces hafter []
    rw [replaceJsonFlags, List.append_nil] at hspaces
    rw [normalizeFlags, hlooks, if_pos rfl, String.toList_ofList, htext,
      replaceJsonFlags_spaces hbefore, hreplaced after hend, hspaces]
  rw [hcs, show CanBeFlag = fun k t => SpelledPlainly k t ∧ NoFraction k t from rfl,
    eachMember_and, ← data_flagged_eq_iff]
  constructor
  · rintro ⟨u, hu, hdata⟩
    have hfits : EachMember NoFraction (.obj members) := by
      by_contra hnot
      have hbroken := (passes_spaces hbefore).breaks ((hbreaks hnot).append after) false []
      rw [List.append_nil, noPoint_of_isText hu] at hbroken
      cases hbroken
    have hmeant : IsText (flagged isSpelledFlag (.obj members)) (before ++ (body' ++ after)) :=
      ⟨before, body', after, hbefore, hspells hfits, hafter, rfl⟩
    rw [hu.unique hmeant] at hdata
    exact ⟨hdata, hfits⟩
  · rintro ⟨hdata, hfits⟩
    exact ⟨_, ⟨before, body', after, hbefore, hspells hfits, hafter, rfl⟩, hdata⟩

end Objects

end ResourceCli.Document
