import ResourceCli.Proofs.Json.Source
import Mathlib.Data.List.TakeWhile

/-!
# A JSON text has one value

Where a string or a number ends can be told from its characters, for a number once it is known that
what comes next ends a value (`Ends`).  With that, the first character of a value tells its kind
(`Spells.exists_cons`), and two readings of the same characters go together piece by piece.

* `Quoted.eq_of_append`, `Literal.eq_of_append`: where a string or a number ends.
* `Spells.eq_of_append`, `IsText.unique`: a text is the text of one value only.
-/

namespace ResourceCli.Json

/-! ## Where a string ends -/

section Unique

variable {raw cs r r' : List Char}

/-- An escape by number has four digits, so where it ends, and which number it is, can be told. -/
theorem escapeDigits_inj {ds ds' raw' : List Char} {n n' : Nat} (hlen : ds.length = 4)
    (hn : Text.digitsValue? 16 ds = some n) (hlen' : ds'.length = 4)
    (hn' : Text.digitsValue? 16 ds' = some n')
    (heq : '\\' :: 'u' :: (ds ++ raw) ++ r = '\\' :: 'u' :: (ds' ++ raw') ++ r') :
    ds = ds' ∧ n = n' ∧ raw ++ r = raw' ++ r' := by
  simp only [List.cons_append, List.append_assoc, List.cons.injEq, true_and] at heq
  obtain ⟨rfl, hrest⟩ := List.append_inj heq (hlen.trans hlen'.symm)
  exact ⟨rfl, Option.some.inj (hn.symm.trans hn'), hrest⟩

theorem Writes.eq_of_append (h : Writes raw cs) : ∀ {raw' cs' r r' : List Char},
    Writes raw' cs' → raw ++ '"' :: r = raw' ++ '"' :: r' → raw = raw' ∧ cs = cs' ∧ r = r' := by
  have letter_ne : ∀ {c : Char}, letterEscape? 'u' ≠ some c := by
    intro c h
    cases h
  induction h with
  | nil =>
    intro raw' cs' r r' h' heq
    cases h' with
    | nil => exact ⟨rfl, rfl, (List.cons.inj heq).2⟩
    | plain hquote => exact absurd (List.cons.inj heq).1.symm hquote
    | letter | code | pair => cases (List.cons.inj heq).1
  | plain hquote hback _ _ ih =>
    intro raw' cs' r r' h' heq
    cases h' with
    | nil => exact absurd (List.cons.inj heq).1 hquote
    | plain _ _ _ h' =>
      obtain ⟨rfl, hrest⟩ := List.cons.inj heq
      obtain ⟨rfl, rfl, rfl⟩ := ih h' hrest
      exact ⟨rfl, rfl, rfl⟩
    | letter | code | pair => exact absurd (List.cons.inj heq).1 hback
  | letter hd _ ih =>
    intro raw' cs' r r' h' heq
    cases h' with
    | nil => cases (List.cons.inj heq).1
    | plain _ hback => exact absurd (List.cons.inj heq).1.symm hback
    | letter hd' h' =>
      obtain ⟨rfl, hrest⟩ := List.cons.inj (List.cons.inj heq).2
      obtain ⟨rfl, rfl, rfl⟩ := ih h' hrest
      exact ⟨rfl, by rw [Option.some.inj (hd.symm.trans hd')], rfl⟩
    | code | pair =>
      rw [(List.cons.inj (List.cons.inj heq).2).1] at hd
      exact absurd hd letter_ne
  | code hlen hn hhigh _ _ ih =>
    intro raw' cs' r r' h' heq
    cases h' with
    | nil => cases (List.cons.inj heq).1
    | plain _ hback => exact absurd (List.cons.inj heq).1.symm hback
    | letter hd' =>
      rw [← (List.cons.inj (List.cons.inj heq).2).1] at hd'
      exact absurd hd' letter_ne
    | code hlen' hn' _ _ h' =>
      obtain ⟨rfl, rfl, hrest⟩ := escapeDigits_inj hlen hn hlen' hn' heq
      obtain ⟨rfl, rfl, rfl⟩ := ih h' hrest
      exact ⟨rfl, rfl, rfl⟩
    | pair hlen' hn' hhigh' =>
      obtain ⟨-, rfl, -⟩ := escapeDigits_inj hlen hn hlen' hn' heq
      cases hhigh.symm.trans hhigh'
  | pair hlen hn hhigh hlenL hm _ _ ih =>
    intro raw' cs' r r' h' heq
    cases h' with
    | nil => cases (List.cons.inj heq).1
    | plain _ hback => exact absurd (List.cons.inj heq).1.symm hback
    | letter hd' =>
      rw [← (List.cons.inj (List.cons.inj heq).2).1] at hd'
      exact absurd hd' letter_ne
    | code hlen' hn' hhigh' =>
      obtain ⟨-, rfl, -⟩ := escapeDigits_inj hlen hn hlen' hn' heq
      cases hhigh.symm.trans hhigh'
    | pair hlen' hn' _ hlenL' hm' _ h' =>
      obtain ⟨rfl, rfl, hrest⟩ := escapeDigits_inj hlen hn hlen' hn' heq
      obtain ⟨rfl, rfl, hlast⟩ := escapeDigits_inj hlenL hm hlenL' hm' hrest
      obtain ⟨rfl, rfl, rfl⟩ := ih h' hlast
      exact ⟨rfl, rfl, rfl⟩

/-- **A string ends** where its characters say so. -/
theorem Quoted.eq_of_append {q q' : Quoted} (h : q.spelled ++ r = q'.spelled ++ r') :
    q = q' ∧ r = r' := by
  simp only [Quoted.spelled, List.cons_append, List.append_assoc, List.nil_append,
    List.cons.injEq, true_and] at h
  obtain ⟨raw, text, hw⟩ := q
  obtain ⟨raw', text', hw'⟩ := q'
  obtain ⟨rfl, htext, rfl⟩ := hw.eq_of_append hw' h
  obtain rfl := String.toList_inj.1 htext
  exact ⟨rfl, rfl⟩

/-! ## Where a number ends -/

/-- No digit comes next. -/
def NoDigit (cs : List Char) : Prop := ∀ c, cs.head? = some c → c.isDigit = false

/-- What comes next ends a value: white space, a comma or a closing bracket, or nothing at all. -/
def Ends (cs : List Char) : Prop :=
  ∀ c, cs.head? = some c → isSpace c = true ∨ c = ',' ∨ c = ']' ∨ c = '}'

theorem noDigit_cons {c : Char} (hc : c.isDigit = false) (cs : List Char) : NoDigit (c :: cs) := by
  intro d hd
  rwa [← Option.some.inj hd]

/-- What holds of no end holds of nothing that comes next. -/
theorem Ends.forall {P : Char → Prop} (h : Ends r) (hspace : ∀ c, isSpace c = true → P c)
    (hcomma : P ',') (harray : P ']') (hobject : P '}') : ∀ c, r.head? = some c → P c := by
  intro c hc
  rcases h c hc with hc | rfl | rfl | rfl
  · exact hspace c hc
  · exact hcomma
  · exact harray
  · exact hobject

theorem Ends.noDigit (h : Ends r) : NoDigit r :=
  h.forall (forall_of_isSpace rfl rfl rfl rfl) rfl rfl rfl

theorem digits_append_inj {ds ds' a b : List Char} (hd : ∀ c ∈ ds, c.isDigit = true)
    (hd' : ∀ c ∈ ds', c.isDigit = true) (ha : NoDigit a) (hb : NoDigit b)
    (h : ds ++ a = ds' ++ b) : ds = ds' ∧ a = b := by
  have hnil : ∀ {cs : List Char}, NoDigit cs → cs.takeWhile Char.isDigit = [] := by
    intro cs hcs
    cases cs with
    | nil => rfl
    | cons c cs => exact List.takeWhile_cons_of_neg (by simp [hcs c rfl])
  have htake := congrArg (List.takeWhile Char.isDigit) h
  rw [List.takeWhile_append_of_pos hd, List.takeWhile_append_of_pos hd', hnil ha, hnil hb,
    List.append_nil, List.append_nil] at htake
  subst htake
  exact ⟨rfl, List.append_cancel_left h⟩

theorem Exponent.eq_of_append {e e' : Exponent} (hr : NoDigit r) (hr' : NoDigit r')
    (h : e.text ++ r = e'.text ++ r') : e = e' ∧ r = r' := by
  obtain ⟨letter, sign, ds, hletter, hsign, hne, hds⟩ := e
  obtain ⟨letter', sign', ds', hletter', hsign', hne', hds'⟩ := e'
  have not_digit : ∀ c, c = '+' ∨ c = '-' → c.isDigit = false := by
    rintro c (rfl | rfl) <;> rfl
  simp only [Exponent.text, List.cons_append, List.append_assoc, List.cons.injEq] at h
  obtain ⟨rfl, h⟩ := h
  -- A sign and a digit cannot stand in the same place.
  have signs : ∀ {c : Char} {ds r s : List Char}, (c = '+' ∨ c = '-') → ds ≠ [] →
      (∀ d ∈ ds, d.isDigit = true) → c :: s ≠ ds ++ r := by
    intro c ds r s hc hne hds h
    obtain ⟨d, ds, rfl⟩ := List.exists_cons_of_ne_nil hne
    have hd := hds d List.mem_cons_self
    rw [← (List.cons.inj h).1, not_digit c hc] at hd
    cases hd
  cases sign with
  | none =>
    cases sign' with
    | none =>
      obtain ⟨rfl, rfl⟩ := digits_append_inj hds hds' hr hr' h
      exact ⟨rfl, rfl⟩
    | some c =>
      have hsigned : c :: (ds' ++ r') = ds ++ r := h.symm
      exact absurd hsigned (signs (hsign' c rfl) hne hds)
  | some c =>
    cases sign' with
    | none =>
      have hsigned : c :: (ds ++ r) = ds' ++ r' := h
      exact absurd hsigned (signs (hsign c rfl) hne' hds')
    | some c' =>
      have hsigned : c :: (ds ++ r) = c' :: (ds' ++ r') := h
      obtain ⟨rfl, hdigits⟩ := List.cons.inj hsigned
      obtain ⟨rfl, rfl⟩ := digits_append_inj hds hds' hr hr' hdigits
      exact ⟨rfl, rfl⟩

namespace Literal

/-- The characters of the exponent, if there is one. -/
def exponentText (l : Literal) : List Char := (l.exponent.map Exponent.text).getD []

theorem head_exponentText (l : Literal) {c : Char} (h : (l.exponentText ++ r).head? = some c) :
    (c = 'e' ∨ c = 'E') ∨ l.exponent = none ∧ r.head? = some c := by
  unfold exponentText at h
  cases he : l.exponent with
  | none =>
    rw [he] at h
    exact .inr ⟨rfl, h⟩
  | some e =>
    rw [he] at h
    left
    rw [← show e.letter = c from Option.some.inj h]
    exact e.isLetter

theorem noDigit_exponentText (l : Literal) (hr : Ends r) : NoDigit (l.exponentText ++ r) := by
  intro c hc
  rcases l.head_exponentText hc with (rfl | rfl) | ⟨-, hc⟩
  · rfl
  · rfl
  · exact hr.noDigit c hc

theorem noDigit_fraction (l : Literal) (hr : Ends r) :
    NoDigit (l.fraction ++ (l.exponentText ++ r)) := by
  unfold fraction
  split
  · exact l.noDigit_exponentText hr
  · exact noDigit_cons rfl _

/-- A point is no start of an exponent and no end of a value. -/
theorem exponentText_ne_point (l : Literal) (hr : Ends r) (cs : List Char) :
    l.exponentText ++ r ≠ '.' :: cs := by
  intro h
  have hpoint : (l.exponentText ++ r).head? = some '.' := by rw [h]; rfl
  rcases l.head_exponentText hpoint with hc | ⟨-, hc⟩
  · rcases hc with hc | hc <;> cases hc
  · have hne : ∀ c, r.head? = some c → c ≠ '.' :=
      hr.forall (forall_of_isSpace (by decide) (by decide) (by decide) (by decide)) (by decide)
        (by decide) (by decide)
    exact hne '.' hc rfl

theorem ext_of_parts {l l' : Literal} (hn : l.negative = l'.negative) (hw : l.whole = l'.whole)
    (hp : l.places = l'.places) (he : l.exponent = l'.exponent) : l = l' := by
  cases l
  cases l'
  obtain rfl := hn
  obtain rfl := hw
  obtain rfl := hp
  obtain rfl := he
  rfl

theorem exponent_eq_of_append {l l' : Literal} (hr : Ends r) (hr' : Ends r')
    (h : l.exponentText ++ r = l'.exponentText ++ r') :
    l.exponent = l'.exponent ∧ r = r' := by
  -- The letter of an exponent does not end a value.
  have letters : ∀ {e : Exponent} {r s : List Char}, Ends r → r ≠ e.text ++ s := by
    intro e r s hr h
    have hhead : r.head? = some e.letter := by rw [h]; rfl
    have hne : ∀ c, r.head? = some c → ¬ (c = 'e' ∨ c = 'E') :=
      hr.forall (forall_of_isSpace (by decide) (by decide) (by decide) (by decide)) (by decide)
        (by decide) (by decide)
    exact hne e.letter hhead e.isLetter
  unfold exponentText at h
  cases he : l.exponent with
  | none =>
    cases he' : l'.exponent with
    | none =>
      rw [he, he'] at h
      exact ⟨rfl, h⟩
    | some e' =>
      rw [he, he'] at h
      exact absurd h (letters hr)
  | some e =>
    cases he' : l'.exponent with
    | none =>
      rw [he, he'] at h
      exact absurd h.symm (letters hr')
    | some e' =>
      rw [he, he'] at h
      obtain ⟨rfl, rfl⟩ := Exponent.eq_of_append hr.noDigit hr'.noDigit h
      exact ⟨rfl, rfl⟩

theorem unsigned_append (l : Literal) (r : List Char) :
    l.unsigned ++ r = l.whole ++ (l.fraction ++ (l.exponentText ++ r)) := by
  rw [unsigned, List.append_assoc, List.append_assoc]
  rfl

theorem parts_eq_of_append {l l' : Literal} (hr : Ends r) (hr' : Ends r')
    (h : l.unsigned ++ r = l'.unsigned ++ r') :
    l.whole = l'.whole ∧ l.places = l'.places ∧ l.exponent = l'.exponent ∧ r = r' := by
  rw [unsigned_append, unsigned_append] at h
  obtain ⟨hwhole, h⟩ := digits_append_inj l.digits_whole l'.digits_whole (l.noDigit_fraction hr)
    (l'.noDigit_fraction hr') h
  refine ⟨hwhole, ?_⟩
  unfold fraction at h
  by_cases hp : l.places = []
  · by_cases hp' : l'.places = []
    · rw [if_pos hp, if_pos hp'] at h
      exact ⟨hp.trans hp'.symm, exponent_eq_of_append hr hr' h⟩
    · rw [if_pos hp, if_neg hp'] at h
      exact absurd h (l.exponentText_ne_point hr _)
  · by_cases hp' : l'.places = []
    · rw [if_neg hp, if_pos hp'] at h
      exact absurd h.symm (l'.exponentText_ne_point hr' _)
    · rw [if_neg hp, if_neg hp'] at h
      obtain ⟨hplaces, h⟩ := digits_append_inj l.digits_places l'.digits_places
        (l.noDigit_exponentText hr) (l'.noDigit_exponentText hr') (List.cons.inj h).2
      exact ⟨hplaces, exponent_eq_of_append hr hr' h⟩

theorem isDigit_of_head_unsigned (l : Literal) {c : Char} (h : (l.unsigned ++ r).head? = some c) :
    c.isDigit = true := by
  obtain ⟨d, ds, hd⟩ := List.exists_cons_of_ne_nil l.whole_ne_nil
  have hmem : d ∈ l.whole := by simp [hd]
  rw [unsigned_append, hd] at h
  rw [← Option.some.inj h]
  exact l.digits_whole d hmem

/-- **A number ends** where its characters say so, if what comes next ends a value. -/
theorem eq_of_append {l l' : Literal} (hr : Ends r) (hr' : Ends r')
    (h : l.text ++ r = l'.text ++ r') : l = l' ∧ r = r' := by
  have minus : ∀ {l : Literal} {r s : List Char}, '-' :: s ≠ l.unsigned ++ r := by
    intro l r s h
    have hdigit := l.isDigit_of_head_unsigned (c := '-') (by rw [← h]; rfl)
    cases hdigit
  unfold text at h
  cases hn : l.negative <;> cases hn' : l'.negative <;> rw [hn, hn'] at h
  · obtain ⟨hw, hp, he, rfl⟩ := parts_eq_of_append hr hr' h
    exact ⟨ext_of_parts (hn.trans hn'.symm) hw hp he, rfl⟩
  · exact absurd h.symm minus
  · exact absurd h minus
  · obtain ⟨hw, hp, he, rfl⟩ := parts_eq_of_append hr hr' (List.cons.inj h).2
    exact ⟨ext_of_parts (hn.trans hn'.symm) hw hp he, rfl⟩

end Literal

/-! ## Where a value ends -/

/-- The kinds of values. -/
inductive Kind
  /-- The value `null`. -/
  | null
  /-- A truth value. -/
  | bool
  /-- A number. -/
  | num
  /-- A string. -/
  | str
  /-- An array. -/
  | arr
  /-- An object. -/
  | obj
  deriving DecidableEq

/-- The kind of a value. -/
def Source.kind {σ : Type} : Source σ → Kind
  | .null => .null
  | .bool _ => .bool
  | .num _ => .num
  | .str _ => .str
  | .arr _ => .arr
  | .obj _ => .obj

/-- The kind of the values that a character starts. -/
def kindOf? (c : Char) : Option Kind :=
  if c = 'n' then some .null
  else if c = 't' ∨ c = 'f' then some .bool
  else if c = '"' then some .str
  else if c = '[' then some .arr
  else if c = '{' then some .obj
  else if c = '-' ∨ c.isDigit = true then some .num
  else none

theorem kindOf?_of_isDigit {c : Char} (h : c.isDigit = true) : kindOf? c = some .num := by
  have hne : ∀ d : Char, d.isDigit = false → c ≠ d := by
    rintro d hd rfl
    rw [h] at hd
    cases hd
  simp [kindOf?, h, hne]

/-- What starts a value is no white space and no punctuation. -/
theorem of_kindOf? {c : Char} {k : Kind} (h : kindOf? c = some k) :
    isSpace c = false ∧ c ≠ ']' ∧ c ≠ '}' ∧ c ≠ ',' ∧ c ≠ ':' := by
  have hspace : ∀ d, isSpace d = true → kindOf? d = none :=
    forall_of_isSpace (by decide) (by decide) (by decide) (by decide)
  refine ⟨?_, ?_, ?_, ?_, ?_⟩
  · by_contra hc
    rw [hspace c (by simpa using hc)] at h
    cases h
  all_goals
    rintro rfl
    exact absurd h (by decide +revert)

/-- **The first character of a value** tells its kind. -/
theorem Spells.exists_cons {t : Source Quoted} {cs : List Char} (h : Spells t cs) :
    ∃ c rest, cs = c :: rest ∧ kindOf? c = some t.kind := by
  cases t with
  | null => exact ⟨'n', _, h, rfl⟩
  | bool b =>
    rw [show cs = boolText b from h]
    cases b
    · exact ⟨'f', _, rfl, rfl⟩
    · exact ⟨'t', _, rfl, rfl⟩
  | num l =>
    rw [show cs = l.text from h]
    unfold Literal.text
    cases l.negative with
    | true => exact ⟨'-', _, rfl, rfl⟩
    | false =>
      obtain ⟨d, ds, hd⟩ := List.exists_cons_of_ne_nil l.whole_ne_nil
      have hdigit := l.digits_whole d (by simp [hd])
      rw [Literal.unsigned, hd]
      exact ⟨d, _, rfl, kindOf?_of_isDigit hdigit⟩
  | str q => exact ⟨'"', _, h, rfl⟩
  | arr items =>
    obtain ⟨inner, -, rfl⟩ := h
    exact ⟨'[', inner, rfl, rfl⟩
  | obj members =>
    obtain ⟨inner, -, rfl⟩ := h
    exact ⟨'{', inner, rfl, rfl⟩

/-- White space before something else is all of the white space. -/
theorem spaces_append_inj {blanks blanks' a b : List Char} (hb : Spaces blanks)
    (hb' : Spaces blanks') (ha : ∀ c, a.head? = some c → isSpace c = false)
    (ha' : ∀ c, b.head? = some c → isSpace c = false) (h : blanks ++ a = blanks' ++ b) :
    a = b := by
  have hnil : ∀ {cs : List Char}, (∀ c, cs.head? = some c → isSpace c = false) →
      cs.dropWhile isSpace = cs := by
    intro cs hcs
    cases cs with
    | nil => rfl
    | cons c cs => exact List.dropWhile_cons_of_neg (by simp [hcs c rfl])
  have hdrop := congrArg (List.dropWhile isSpace) h
  rwa [List.dropWhile_append_of_pos hb, List.dropWhile_append_of_pos hb', hnil ha,
    hnil ha'] at hdrop

theorem spaces_cons_inj {blanks blanks' a b : List Char} {c d : Char} (hb : Spaces blanks)
    (hb' : Spaces blanks') (hc : isSpace c = false) (hd : isSpace d = false)
    (h : blanks ++ c :: a = blanks' ++ d :: b) : c = d ∧ a = b := by
  refine List.cons.inj (spaces_append_inj hb hb' ?_ ?_ h)
  · intro x hx
    rwa [← Option.some.inj hx]
  · intro x hx
    rwa [← Option.some.inj hx]

theorem ends_nil : Ends [] := fun _ h => by cases h

theorem Ends.spaces {blanks : List Char} (hb : Spaces blanks) (h : Ends r) :
    Ends (blanks ++ r) := by
  cases blanks with
  | nil => exact h
  | cons c blanks =>
    intro d hd
    rw [← Option.some.inj hd]
    exact .inl (hb c List.mem_cons_self)

theorem ends_cons {c : Char} (h : c = ',' ∨ c = ']' ∨ c = '}') (cs : List Char) :
    Ends (c :: cs) := by
  intro d hd
  rw [← Option.some.inj hd]
  exact .inr h

theorem Separates.ends {sep : List Char} (h : Separates false sep) (r : List Char) :
    Ends (sep ++ r) := by
  obtain ⟨before, after, hb, -, rfl⟩ := h
  rw [List.append_assoc]
  exact (ends_cons (.inl rfl) _).spaces hb

/-- What follows an item of an array ends it. -/
theorem SpellsItems.ends {ts : List (Source Quoted)} {cs : List Char}
    (h : SpellsItems false ts cs) (r : List Char) : Ends (cs ++ r) := by
  cases ts with
  | nil =>
    obtain ⟨blanks, hb, rfl⟩ := h
    rw [List.append_assoc]
    exact (ends_cons (.inr (.inl rfl)) r).spaces hb
  | cons t ts =>
    obtain ⟨sep, body, rest, hsep, -, -, rfl⟩ := h
    rw [List.append_assoc]
    exact hsep.ends _

/-- What follows a member of an object ends it. -/
theorem SpellsMembers.ends {ts : List (Quoted × Source Quoted)} {cs : List Char}
    (h : SpellsMembers false ts cs) (r : List Char) : Ends (cs ++ r) := by
  cases ts with
  | nil =>
    obtain ⟨blanks, hb, rfl⟩ := h
    rw [List.append_assoc]
    exact (ends_cons (.inr (.inr rfl)) r).spaces hb
  | cons t ts =>
    obtain ⟨sep, colon, body, rest, hsep, -, -, -, rfl⟩ := h
    rw [List.append_assoc]
    exact hsep.ends _

/-- A separator is all that stands before what it separates. -/
theorem Separates.eq_of_append {first : Bool} {sep sep' a b : List Char} {c d : Char}
    (h : Separates first sep) (h' : Separates first sep') (hc : isSpace c = false)
    (hd : isSpace d = false) (heq : sep ++ c :: a = sep' ++ d :: b) : c = d ∧ a = b := by
  cases first with
  | true => exact spaces_cons_inj h h' hc hd heq
  | false =>
    obtain ⟨before, after, hb, ha, rfl⟩ := h
    obtain ⟨before', after', hb', ha', rfl⟩ := h'
    rw [List.append_assoc, List.append_assoc] at heq
    exact spaces_cons_inj ha ha' hc hd (spaces_cons_inj hb hb' rfl rfl heq).2

/-- A closing bracket is no separator and no start of what is separated. -/
theorem Separates.ne_end {first : Bool} {sep blanks a s : List Char} {c d : Char}
    (h : Separates first sep) (hb : Spaces blanks) (hc : isSpace c = false)
    (hd : isSpace d = false) (hne : d ≠ c) (hcomma : d ≠ ',') :
    blanks ++ d :: s ≠ sep ++ c :: a := by
  intro heq
  cases first with
  | true => exact hne (spaces_cons_inj hb h hd hc heq).1
  | false =>
    obtain ⟨before, after, hb', ha, rfl⟩ := h
    rw [List.append_assoc] at heq
    exact hcomma (spaces_cons_inj hb hb' hd rfl heq).1

theorem IsColon.eq_of_append {colon colon' a b : List Char} {c d : Char}
    (h : IsColon colon) (h' : IsColon colon') (hc : isSpace c = false)
    (hd : isSpace d = false) (heq : colon ++ c :: a = colon' ++ d :: b) : c = d ∧ a = b := by
  obtain ⟨before, after, hb, ha, rfl⟩ := h
  obtain ⟨before', after', hb', ha', rfl⟩ := h'
  rw [List.append_assoc, List.append_assoc] at heq
  exact spaces_cons_inj ha ha' hc hd (spaces_cons_inj hb hb' rfl rfl heq).2

/-- The first character of a value that stands before something. -/
theorem Spells.exists_append {t : Source Quoted} {cs : List Char} (h : Spells t cs)
    (s : List Char) : ∃ c rest, cs ++ s = c :: rest ∧ kindOf? c = some t.kind := by
  obtain ⟨c, rest, rfl, hc⟩ := h.exists_cons
  exact ⟨c, rest ++ s, rfl, hc⟩

end Unique

mutual

/-- **Where a value ends**: of two values that stand at the same place, both are the same, and so is
what follows them. -/
theorem Spells.eq_of_append : ∀ (t t' : Source Quoted) {cs cs' r r' : List Char},
    Spells t cs → Spells t' cs' → Ends r → Ends r' → cs ++ r = cs' ++ r' → t = t' ∧ r = r'
  | t, t', cs, cs', r, r', h, h', hr, hr', heq => by
    have hkind : t.kind = t'.kind := by
      obtain ⟨c, rest, hcs, hc⟩ := h.exists_append r
      obtain ⟨c', rest', hcs', hc'⟩ := h'.exists_append r'
      rw [hcs, hcs'] at heq
      rw [(List.cons.inj heq).1] at hc
      exact Option.some.inj (hc.symm.trans hc')
    match t, t', hkind, h, h' with
    | .null, .null, _, h, h' =>
      obtain rfl := h
      obtain rfl := h'
      exact ⟨rfl, List.append_cancel_left heq⟩
    | .bool b, .bool b', _, h, h' =>
      obtain rfl := h
      obtain rfl := h'
      cases b <;> cases b'
      · exact ⟨rfl, List.append_cancel_left heq⟩
      · cases (List.cons.inj heq).1
      · cases (List.cons.inj heq).1
      · exact ⟨rfl, List.append_cancel_left heq⟩
    | .num l, .num l', _, h, h' =>
      obtain rfl := h
      obtain rfl := h'
      obtain ⟨rfl, rfl⟩ := Literal.eq_of_append hr hr' heq
      exact ⟨rfl, rfl⟩
    | .str q, .str q', _, h, h' =>
      obtain rfl := h
      obtain rfl := h'
      obtain ⟨rfl, rfl⟩ := Quoted.eq_of_append heq
      exact ⟨rfl, rfl⟩
    | .arr items, .arr items', _, h, h' =>
      obtain ⟨inner, hinner, rfl⟩ := h
      obtain ⟨inner', hinner', rfl⟩ := h'
      obtain ⟨rfl, rfl⟩ := SpellsItems.eq_of_append items items' true hinner hinner'
        (List.cons.inj heq).2
      exact ⟨rfl, rfl⟩
    | .obj members, .obj members', _, h, h' =>
      obtain ⟨inner, hinner, rfl⟩ := h
      obtain ⟨inner', hinner', rfl⟩ := h'
      obtain ⟨rfl, rfl⟩ := SpellsMembers.eq_of_append members members' true hinner hinner'
        (List.cons.inj heq).2
      exact ⟨rfl, rfl⟩

theorem SpellsItems.eq_of_append : ∀ (ts ts' : List (Source Quoted)) (first : Bool)
    {cs cs' r r' : List Char}, SpellsItems first ts cs → SpellsItems first ts' cs' →
    cs ++ r = cs' ++ r' → ts = ts' ∧ r = r'
  | [], [], first, cs, cs', r, r', h, h', heq => by
    obtain ⟨blanks, hb, rfl⟩ := h
    obtain ⟨blanks', hb', rfl⟩ := h'
    rw [List.append_assoc, List.append_assoc] at heq
    exact ⟨rfl, (spaces_cons_inj hb hb' rfl rfl heq).2⟩
  | [], t :: ts, first, cs, cs', r, r', h, h', heq => by
    obtain ⟨blanks, hb, rfl⟩ := h
    obtain ⟨sep, body, rest, hsep, hbody, -, rfl⟩ := h'
    obtain ⟨c, tail, htail, hc⟩ := hbody.exists_append (rest ++ r')
    rw [List.append_assoc, List.append_assoc, List.append_assoc, htail] at heq
    have hkind := of_kindOf? hc
    exact absurd heq (hsep.ne_end hb hkind.1 rfl hkind.2.1.symm (by decide))
  | t :: ts, [], first, cs, cs', r, r', h, h', heq => by
    obtain ⟨blanks, hb, rfl⟩ := h'
    obtain ⟨sep, body, rest, hsep, hbody, -, rfl⟩ := h
    obtain ⟨c, tail, htail, hc⟩ := hbody.exists_append (rest ++ r)
    rw [List.append_assoc, List.append_assoc, List.append_assoc, htail] at heq
    have hkind := of_kindOf? hc
    exact absurd heq.symm (hsep.ne_end hb hkind.1 rfl hkind.2.1.symm (by decide))
  | t :: ts, t' :: ts', first, cs, cs', r, r', h, h', heq => by
    obtain ⟨sep, body, rest, hsep, hbody, hrest, rfl⟩ := h
    obtain ⟨sep', body', rest', hsep', hbody', hrest', rfl⟩ := h'
    obtain ⟨c, tail, htail, hc⟩ := hbody.exists_append (rest ++ r)
    obtain ⟨c', tail', htail', hc'⟩ := hbody'.exists_append (rest' ++ r')
    simp only [List.append_assoc, htail, htail'] at heq
    obtain ⟨rfl, rfl⟩ := hsep.eq_of_append hsep' (of_kindOf? hc).1 (of_kindOf? hc').1 heq
    obtain ⟨rfl, hlater⟩ := Spells.eq_of_append t t' hbody hbody' (hrest.ends r) (hrest'.ends r')
      (htail.trans htail'.symm)
    obtain ⟨rfl, rfl⟩ := SpellsItems.eq_of_append ts ts' false hrest hrest' hlater
    exact ⟨rfl, rfl⟩

theorem SpellsMembers.eq_of_append : ∀ (ts ts' : List (Quoted × Source Quoted)) (first : Bool)
    {cs cs' r r' : List Char}, SpellsMembers first ts cs → SpellsMembers first ts' cs' →
    cs ++ r = cs' ++ r' → ts = ts' ∧ r = r'
  | [], [], first, cs, cs', r, r', h, h', heq => by
    obtain ⟨blanks, hb, rfl⟩ := h
    obtain ⟨blanks', hb', rfl⟩ := h'
    rw [List.append_assoc, List.append_assoc] at heq
    exact ⟨rfl, (spaces_cons_inj hb hb' rfl rfl heq).2⟩
  | [], (k, t) :: ts, first, cs, cs', r, r', h, h', heq => by
    obtain ⟨blanks, hb, rfl⟩ := h
    obtain ⟨sep, colon, body, rest, hsep, -, -, -, rfl⟩ := h'
    rw [List.append_assoc, List.append_assoc] at heq
    exact absurd heq (hsep.ne_end hb (c := '"') rfl rfl (by decide) (by decide))
  | (k, t) :: ts, [], first, cs, cs', r, r', h, h', heq => by
    obtain ⟨blanks, hb, rfl⟩ := h'
    obtain ⟨sep, colon, body, rest, hsep, -, -, -, rfl⟩ := h
    simp only [List.append_assoc] at heq
    exact absurd heq.symm (hsep.ne_end hb (c := '"') rfl rfl (by decide) (by decide))
  | (k, t) :: ts, (k', t') :: ts', first, cs, cs', r, r', h, h', heq => by
    obtain ⟨sep, colon, body, rest, hsep, hcolon, hbody, hrest, rfl⟩ := h
    obtain ⟨sep', colon', body', rest', hsep', hcolon', hbody', hrest', rfl⟩ := h'
    simp only [List.append_assoc] at heq
    have hkeys := (hsep.eq_of_append hsep' (c := '"') (d := '"') rfl rfl heq).2
    obtain ⟨rfl, hlater⟩ := Quoted.eq_of_append (congrArg ('"' :: ·) hkeys)
    obtain ⟨c, tail, htail, hc⟩ := hbody.exists_append (rest ++ r)
    obtain ⟨c', tail', htail', hc'⟩ := hbody'.exists_append (rest' ++ r')
    rw [htail, htail'] at hlater
    obtain ⟨rfl, rfl⟩ := hcolon.eq_of_append hcolon' (of_kindOf? hc).1 (of_kindOf? hc').1 hlater
    obtain ⟨rfl, hlast⟩ := Spells.eq_of_append t t' hbody hbody' (hrest.ends r) (hrest'.ends r')
      (htail.trans htail'.symm)
    obtain ⟨rfl, rfl⟩ := SpellsMembers.eq_of_append ts ts' false hrest hrest' hlast
    exact ⟨rfl, rfl⟩

end

/-- **A text is the text of one value only.** -/
theorem IsText.unique {t t' : Source Quoted} {cs : List Char} (h : IsText t cs)
    (h' : IsText t' cs) : t = t' := by
  obtain ⟨before, body, after, hb, hbody, ha, rfl⟩ := h
  obtain ⟨before', body', after', hb', hbody', ha', heq⟩ := h'
  obtain ⟨c, tail, htail, hc⟩ := hbody.exists_append after
  obtain ⟨c', tail', htail', hc'⟩ := hbody'.exists_append after'
  rw [htail, htail'] at heq
  obtain ⟨rfl, rfl⟩ := spaces_cons_inj hb hb' (of_kindOf? hc).1 (of_kindOf? hc').1 heq
  have hend : ∀ {cs : List Char}, Spaces cs → Ends cs := by
    intro cs hcs
    rw [← List.append_nil cs]
    exact ends_nil.spaces hcs
  exact (Spells.eq_of_append t t' hbody hbody' (hend ha) (hend ha') (htail.trans htail'.symm)).1

end ResourceCli.Json
