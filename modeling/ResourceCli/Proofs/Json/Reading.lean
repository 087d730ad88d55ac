import ResourceCli.Proofs.Json.Numbers
import ResourceCli.Proofs.Json.Unique

/-!
# What is read is what the text says

The reader of free data gives back a value only where the characters it takes are a JSON value, and
what it gives back is that value as it is held (`Source.held?`): strings as the texts they stand
for, objects sorted by key with the last of several values of one key, and numbers as
`Literal.held?` says.

* `string_sound`: strings.
* `value_sound`, `exists_isText_of_read`: values and whole texts.
-/

namespace ResourceCli.Json

mutual

/-- What a value is held as; none if there is a number in it that is too large. -/
def Source.held? : Source Quoted → Option Json
  | .null => some .null
  | .bool b => some (.bool b)
  | .num l => l.held?.map .num
  | .str q => some (.str q.text)
  | .arr items => (Source.heldItems? items).map .arr
  | .obj members => (Source.heldMembers? [] members).map .obj

/-- What the items are held as. -/
def Source.heldItems? : List (Source Quoted) → Option (List Json)
  | [] => some []
  | t :: ts => t.held?.bind fun v => (Source.heldItems? ts).map (v :: ·)

/-- What the members are held as, put among those that came before. -/
def Source.heldMembers? (done : List (String × Json)) :
    List (Quoted × Source Quoted) → Option (List (String × Json))
  | [] => some done
  | (k, t) :: ts => t.held?.bind fun v => Source.heldMembers? (insertSorted k.text v done) ts

end

/-! ## Strings -/

section Strings

variable {cs rest : List Char}

theorem hexValue?_lt {c : Char} {n : Nat} (h : Text.hexValue? c = some n) : n < 16 := by
  have le_iff : ∀ a b : Char, a ≤ b ↔ a.toNat ≤ b.toNat := fun _ _ => Iff.rfl
  simp only [Text.hexValue?, Bool.and_eq_true, decide_eq_true_eq, le_iff] at h
  have hzero : '0'.toNat = 48 := rfl
  have hnine : '9'.toNat = 57 := rfl
  have hsmall : 'a'.toNat = 97 := rfl
  have hlast : 'f'.toNat = 102 := rfl
  have hcapital : 'A'.toNat = 65 := rfl
  have hend : 'F'.toNat = 70 := rfl
  split at h
  · obtain rfl := Option.some.inj h
    omega
  split at h
  · obtain rfl := Option.some.inj h
    omega
  split at h
  · obtain rfl := Option.some.inj h
    omega
  · cases h

theorem digitsValue?_hex {base : Nat} {cs : List Char} (a : Nat) (c : Char) (hbase : base = 16)
    {d : Nat} (hd : Text.hexValue? c = some d) :
    (c :: cs).foldlM (fun n c => do
      let d ← Text.hexValue? c
      if d < base then some (base * n + d) else none) a =
    cs.foldlM (fun n c => do
      let d ← Text.hexValue? c
      if d < base then some (base * n + d) else none) (16 * a + d) := by
  subst hbase
  rw [List.foldlM_cons, hd]
  simp [hexValue?_lt hd]

/-- Four hexadecimal digits and their value. -/
theorem hexEscape_sound {n : Nat} (h : hexEscape cs = .ok n rest) :
    ∃ ds : List Char, ds.length = 4 ∧ Text.digitsValue? 16 ds = some n ∧ cs = ds ++ rest := by
  unfold hexEscape at h
  split at h
  · rename_i a b c d after
    split at h
    · rename_i a' b' c' d' ha hb hc hd
      cases h
      refine ⟨[a, b, c, d], rfl, ?_, rfl⟩
      unfold Text.digitsValue?
      rw [digitsValue?_hex 0 a rfl ha, digitsValue?_hex _ b rfl hb, digitsValue?_hex _ c rfl hc,
        digitsValue?_hex _ d rfl hd]
      simp only [List.foldlM_nil]
      show some _ = some _
      congr 1
      omega
    · cases h
  · dsimp only at h
    split at h <;> cases h

theorem pairChar_sound {c : Char} (h : pairChar c cs = .ok () rest) : cs = c :: rest := by
  rw [pairChar, run_peek_bind] at h
  cases cs with
  | nil => cases h
  | cons d ds =>
    by_cases hd : (d == c) = true
    · simp only [List.head?_cons, hd] at h
      cases h
      rw [beq_iff_eq.1 hd]
      rfl
    · simp only [List.head?_cons, hd] at h
      cases h

/-- An escape by number, or a pair of them. -/
theorem unicodeEscape_sound {c : Char} (h : unicodeEscape cs = .ok c rest) :
    ∃ raw, cs = raw ++ rest ∧
      ∀ {raw' cs'}, Writes raw' cs' → Writes ('\\' :: 'u' :: (raw ++ raw')) (c :: cs') := by
  unfold unicodeEscape at h
  replace h := bind_eq_ok_iff.1 h
  obtain ⟨n, mid, hn, h⟩ := h
  obtain ⟨ds, hlen, hvalue, rfl⟩ := hexEscape_sound hn
  cases hlow : isLowSurrogate n with
  | true =>
    rw [hlow] at h
    cases h
  | false =>
    rw [hlow, if_neg Bool.false_ne_true] at h
    cases hhigh : isHighSurrogate n with
    | false =>
      rw [hhigh, if_neg Bool.false_ne_true] at h
      cases h
      exact ⟨ds, rfl, Writes.code hlen hvalue hhigh hlow⟩
    | true =>
      rw [hhigh, if_pos rfl] at h
      obtain ⟨⟨⟩, mid₁, hback, hrest₁⟩ := bind_eq_ok_iff.1 h
      obtain ⟨⟨⟩, mid₂, hu, hrest₂⟩ := bind_eq_ok_iff.1 hrest₁
      obtain ⟨m, mid₃, hm, hrest₃⟩ := bind_eq_ok_iff.1 hrest₂
      obtain ⟨ds', hlen', hvalue', hds'⟩ := hexEscape_sound hm
      obtain rfl := (pairChar_sound hback).trans
        (congrArg _ ((pairChar_sound hu).trans (congrArg _ hds')))
      cases hlow' : isLowSurrogate m with
      | false =>
        rw [hlow'] at hrest₃
        cases hrest₃
      | true =>
        rw [hlow', if_pos rfl] at hrest₃
        obtain ⟨rfl, rfl⟩ := pure_eq_ok_iff.1 hrest₃
        refine ⟨ds ++ '\\' :: 'u' :: ds', by simp, fun {raw' cs'} hw => ?_⟩
        rw [List.append_assoc]
        exact Writes.pair hlen hvalue hhigh hlen' hvalue' hlow' hw

/-- An escape, with what it stands for. -/
theorem escape_sound {c : Char} (h : escape cs = .ok c rest) :
    ∃ raw, cs = raw ++ rest ∧
      ∀ {raw' cs'}, Writes raw' cs' → Writes ('\\' :: (raw ++ raw')) (c :: cs') := by
  rw [escape, run_peek_bind] at h
  cases cs with
  | nil => cases h
  | cons d ds =>
    by_cases hu : d = 'u'
    · subst hu
      have hrest : unicodeEscape ds = .ok c rest := h
      obtain ⟨raw, rfl, hw⟩ := unicodeEscape_sound hrest
      exact ⟨'u' :: raw, rfl, hw⟩
    · simp only [List.head?_cons] at h
      cases hd : letterEscape? d with
      | none =>
        rw [hd] at h
        cases h
      | some c' =>
        rw [hd] at h
        cases h
        exact ⟨[d], rfl, Writes.letter hd⟩

theorem stringRest_sound {s : String} (fuel : Nat) : ∀ {done cs : List Char},
    stringRest fuel done cs = .ok s rest →
    ∃ raw text, Writes raw text ∧ cs = raw ++ '"' :: rest ∧
      s = String.ofList (done.reverse ++ text) := by
  induction fuel with
  | zero =>
    intro done cs h
    cases h
  | succ fuel ih =>
    intro done cs h
    rw [stringRest, run_peek_bind] at h
    cases cs with
    | nil => cases h
    | cons c ds =>
      by_cases hquote : c = '"'
      · subst hquote
        cases h
        exact ⟨[], [], .nil, rfl, by rw [List.append_nil]⟩
      by_cases hback : c = '\\'
      · subst hback
        have hrest : (escape >>= fun c => stringRest fuel (c :: done)) ds = .ok s rest := h
        obtain ⟨c, mid, hescape, hrest'⟩ := bind_eq_ok_iff.1 hrest
        obtain ⟨raw, hds, hw⟩ := escape_sound hescape
        obtain ⟨raw', text, hw', htext, rfl⟩ := ih hrest'
        rw [hds, htext]
        exact ⟨'\\' :: (raw ++ raw'), c :: text, hw hw', by simp, by simp⟩
      · simp only [List.head?_cons] at h
        by_cases hlow : c.toNat < 0x20
        · rw [if_pos hlow] at h
          cases h
        · rw [if_neg hlow, run_eat_bind] at h
          obtain ⟨raw, text, hw, hds, rfl⟩ := ih h
          refine ⟨c :: raw, c :: text, .plain hquote hback hlow hw, ?_, by simp⟩
          rw [List.cons_append, ← hds]
          rfl

/-- **A string** is read off a string as it is written, and is the text that it stands for. -/
theorem string_sound {s : String} (h : string cs = .ok s rest) :
    ∃ q : Quoted, q.text = s ∧ '"' :: cs = q.spelled ++ rest := by
  obtain ⟨raw, text, hw, rfl, rfl⟩ := stringRest_sound _ h
  refine ⟨⟨raw, String.ofList text, by rwa [String.toList_ofList]⟩, rfl, ?_⟩
  simp [Quoted.spelled]

end Strings

/-! ## Values that are read -/

section Pieces

variable {cs rest : List Char}

/-- White space is passed over, and what is read after it is read off what comes behind it. -/
theorem skipSpace_bind_sound {α : Type} {f : Option Char → Reader α} {a : α}
    (h : (skipSpace >>= f) cs = .ok a rest) :
    ∃ blanks mid, Spaces blanks ∧ cs = blanks ++ mid ∧ f mid.head? mid = .ok a rest := by
  rw [run_skipSpace_bind] at h
  exact ⟨_, _, spaces_takeWhile cs, List.takeWhile_append_dropWhile.symm, h⟩

theorem word_sound {w : List Char} (h : word w cs = .ok () rest) : cs = w ++ rest := by
  induction w generalizing cs with
  | nil =>
    cases h
    rfl
  | cons c w ih =>
    rw [word, run_peek_bind] at h
    cases cs with
    | nil => cases h
    | cons d ds =>
      by_cases hcd : (c == d) = true
      · simp only [List.head?_cons, hcd, if_true, run_eat_bind, List.tail_cons] at h
        rw [ih h, beq_iff_eq.1 hcd, List.cons_append]
      · simp only [List.head?_cons, hcd] at h
        cases h

/-- A word and what it stands for. -/
theorem wordValue_sound {w : List Char} {u v : Json}
    (h : (word w >>= fun _ => pure u) cs = .ok v rest) : u = v ∧ cs = w ++ rest := by
  obtain ⟨⟨⟩, mid, hword, hpure⟩ := bind_eq_ok_iff.1 h
  obtain ⟨rfl, rfl⟩ := pure_eq_ok_iff.1 hpure
  exact ⟨rfl, word_sound hword⟩

/-- A number and what it is held as. -/
theorem numberValue_sound {positive : Bool} {v : Json}
    (h : (number positive >>= fun n => pure (.num n)) cs = .ok v rest) :
    ∃ l : Literal, l.negative = !positive ∧ cs = l.unsigned ++ rest ∧
      (Source.num l : Source Quoted).held? = some v := by
  obtain ⟨n, mid, hnumber, hpure⟩ := bind_eq_ok_iff.1 h
  obtain ⟨rfl, rfl⟩ := pure_eq_ok_iff.1 hpure
  obtain ⟨l, hnegative, rfl, hheld⟩ := number_sound hnumber
  refine ⟨l, hnegative, rfl, ?_⟩
  rw [Source.held?, hheld]
  rfl

theorem enter_sound {depth : Nat} (h : enter depth cs = .ok () rest) : rest = cs.tail := by
  unfold enter at h
  split at h
  · cases h
  · cases h
    rfl

theorem endArray_sound (h : endArray (']' :: cs) = .ok () rest) : cs = rest := by
  rw [endArray, bind_of_ok (skipSpace_cons rfl cs)] at h
  cases h
  rfl

theorem endObject_sound (h : endObject ('}' :: cs) = .ok () rest) : cs = rest := by
  rw [endObject, bind_of_ok (skipSpace_cons rfl cs)] at h
  cases h
  rfl

theorem colon_sound (h : colon cs = .ok () rest) :
    ∃ blanks, Spaces blanks ∧ cs = blanks ++ ':' :: rest := by
  replace h := skipSpace_bind_sound h
  obtain ⟨blanks, mid, hb, rfl, h⟩ := h
  cases mid with
  | nil => cases h
  | cons c mid =>
    by_cases hc : c = ':'
    · subst hc
      cases h
      exact ⟨blanks, hb, rfl⟩
    · simp only [List.head?_cons] at h
      cases h

/-- An item that is not the first one comes behind a comma. -/
theorem hasItem_sound {first : Bool} {more : Bool} (h : hasItem first cs = .ok more rest) :
    if more then ∃ sep, Separates first sep ∧ cs = sep ++ rest
    else ∃ blanks after, Spaces blanks ∧ rest = ']' :: after ∧ cs = blanks ++ ']' :: after := by
  replace h := skipSpace_bind_sound h
  obtain ⟨blanks, mid, hb, rfl, h⟩ := h
  cases mid with
  | nil => cases h
  | cons c mid =>
    by_cases hend : c = ']'
    · subst hend
      cases h
      exact ⟨blanks, mid, hb, rfl, rfl⟩
    simp only [List.head?_cons] at h
    cases first with
    | true =>
      cases h
      exact ⟨blanks, hb, rfl⟩
    | false =>
      by_cases hcomma : (c == ',') = true
      · rw [if_neg Bool.false_ne_true, if_pos hcomma, run_eat_bind, List.tail_cons] at h
        replace h := skipSpace_bind_sound h
        obtain ⟨blanks', mid', hb', rfl, h⟩ := h
        cases mid' with
        | nil => cases h
        | cons d mid' =>
          by_cases hend' : d = ']'
          · subst hend'
            cases h
          · simp only [List.head?_cons] at h
            cases h
            refine ⟨blanks ++ ',' :: blanks', ⟨blanks, blanks', hb, hb', rfl⟩, ?_⟩
            rw [beq_iff_eq.1 hcomma, List.append_assoc]
            rfl
      · rw [if_neg Bool.false_ne_true, if_neg hcomma] at h
        cases h

/-- A member that is not the first one comes behind a comma. -/
theorem hasMember_sound {first : Bool} {more : Bool} (h : hasMember first cs = .ok more rest) :
    if more then ∃ sep, Separates first sep ∧ cs = sep ++ '"' :: rest
    else ∃ blanks after, Spaces blanks ∧ rest = '}' :: after ∧ cs = blanks ++ '}' :: after := by
  replace h := skipSpace_bind_sound h
  obtain ⟨blanks, mid, hb, rfl, h⟩ := h
  cases mid with
  | nil => cases h
  | cons c mid =>
    by_cases hend : c = '}'
    · subst hend
      cases h
      exact ⟨blanks, mid, hb, rfl, rfl⟩
    simp only [List.head?_cons] at h
    cases first with
    | true =>
      by_cases hquote : (c == '"') = true
      · rw [if_pos rfl, if_pos hquote] at h
        cases h
        rw [beq_iff_eq.1 hquote]
        exact ⟨blanks, hb, rfl⟩
      · rw [if_pos rfl, if_neg hquote] at h
        cases h
    | false =>
      by_cases hcomma : (c == ',') = true
      · rw [if_neg Bool.false_ne_true, if_pos hcomma, run_eat_bind, List.tail_cons] at h
        replace h := skipSpace_bind_sound h
        obtain ⟨blanks', mid', hb', rfl, h⟩ := h
        cases mid' with
        | nil => cases h
        | cons d mid' =>
          by_cases hquote : d = '"'
          · subst hquote
            cases h
            refine ⟨blanks ++ ',' :: blanks', ⟨blanks, blanks', hb, hb', rfl⟩, ?_⟩
            rw [beq_iff_eq.1 hcomma, List.append_assoc]
            rfl
          by_cases hend' : d = '}'
          · subst hend'
            cases h
          · simp only [List.head?_cons] at h
            cases h
      · rw [if_neg Bool.false_ne_true, if_neg hcomma] at h
        cases h

/-- More white space behind a separator belongs to it. -/
theorem Separates.append_spaces {first : Bool} {sep blanks : List Char} (h : Separates first sep)
    (hb : Spaces blanks) : Separates first (sep ++ blanks) := by
  have happend : ∀ {a : List Char}, Spaces a → Spaces (a ++ blanks) := by
    intro a ha c hc
    rcases List.mem_append.1 hc with hc | hc
    · exact ha c hc
    · exact hb c hc
  cases first with
  | true => exact happend h
  | false =>
    obtain ⟨before, after, hbefore, hafter, rfl⟩ := h
    exact ⟨before, after ++ blanks, hbefore, happend hafter, by simp⟩

end Pieces

mutual

/-- **A value** is read off a value as it is written, with white space before it, and is what that
is held as. -/
theorem value_sound : ∀ (fuel depth : Nat) {cs rest : List Char} {v : Json},
    value fuel depth cs = .ok v rest →
    ∃ blanks t body, Spaces blanks ∧ Spells t body ∧ cs = blanks ++ (body ++ rest) ∧
      t.held? = some v
  | 0, _, cs, rest, v, h => by cases h
  | fuel + 1, depth, cs, rest, v, h => by
    rw [value] at h
    replace h := skipSpace_bind_sound h
    obtain ⟨blanks, mid, hb, rfl, h⟩ := h
    suffices hbody : ∃ t body, Spells t body ∧ mid = body ++ rest ∧ t.held? = some v by
      obtain ⟨t, body, hspells, rfl, hheld⟩ := hbody
      exact ⟨blanks, t, body, hb, hspells, rfl, hheld⟩
    cases mid with
    | nil => cases h
    | cons c mid =>
      by_cases hnull : c = 'n'
      · subst hnull
        have hrest : (word ['u', 'l', 'l'] >>= fun _ => pure .null) mid = .ok v rest := h
        obtain ⟨rfl, rfl⟩ := wordValue_sound hrest
        exact ⟨.null, _, rfl, rfl, rfl⟩
      by_cases htrue : c = 't'
      · subst htrue
        have hrest : (word ['r', 'u', 'e'] >>= fun _ => pure (.bool true)) mid = .ok v rest := h
        obtain ⟨rfl, rfl⟩ := wordValue_sound hrest
        exact ⟨.bool true, _, rfl, rfl, rfl⟩
      by_cases hfalse : c = 'f'
      · subst hfalse
        have hrest : (word ['a', 'l', 's', 'e'] >>= fun _ => pure (.bool false)) mid =
          .ok v rest := h
        obtain ⟨rfl, rfl⟩ := wordValue_sound hrest
        exact ⟨.bool false, _, rfl, rfl, rfl⟩
      by_cases hminus : c = '-'
      · subst hminus
        have hrest : (number false >>= fun n => pure (.num n)) mid = .ok v rest := h
        obtain ⟨l, hnegative, rfl, hheld⟩ := numberValue_sound hrest
        refine ⟨.num l, _, rfl, ?_, hheld⟩
        rw [Literal.text, hnegative]
        rfl
      by_cases hquote : c = '"'
      · subst hquote
        have hrest : (string >>= fun s => pure (.str s)) mid = .ok v rest := h
        obtain ⟨s, mid', hstring, hrest⟩ := bind_eq_ok_iff.1 hrest
        obtain ⟨rfl, rfl⟩ := pure_eq_ok_iff.1 hrest
        obtain ⟨q, rfl, htext⟩ := string_sound hstring
        exact ⟨.str q, _, rfl, htext, by rw [Source.held?]⟩
      by_cases harray : c = '['
      · subst harray
        have hrest : (enter depth >>= fun _ => .arr <$> closing (items fuel (depth - 1) true)
          endArray) ('[' :: mid) = .ok v rest := h
        obtain ⟨⟨⟩, mid', henter, hlater⟩ := bind_eq_ok_iff.1 hrest
        obtain rfl := enter_sound henter
        obtain ⟨vs, hclosing, rfl⟩ := map_eq_ok_iff.1 hlater
        obtain ⟨mid', hitems, hend⟩ := closing_eq_ok_iff.1 hclosing
        obtain ⟨ts, inner, after, rfl, hinner, htext, hheld⟩ := items_sound fuel _ _ hitems
        obtain rfl := endArray_sound hend
        refine ⟨.arr ts, _, ⟨inner, hinner, rfl⟩, congrArg ('[' :: ·) htext, ?_⟩
        rw [Source.held?, hheld]
        rfl
      by_cases hobject : c = '{'
      · subst hobject
        have hrest : (enter depth >>= fun _ => .obj <$> closing (members fuel (depth - 1) true [])
          endObject) ('{' :: mid) = .ok v rest := h
        obtain ⟨⟨⟩, mid', henter, hlater⟩ := bind_eq_ok_iff.1 hrest
        obtain rfl := enter_sound henter
        obtain ⟨ms, hclosing, rfl⟩ := map_eq_ok_iff.1 hlater
        obtain ⟨mid', hmembers, hend⟩ := closing_eq_ok_iff.1 hclosing
        obtain ⟨ts, inner, after, rfl, hinner, htext, hheld⟩ := members_sound fuel _ _ _ hmembers
        obtain rfl := endObject_sound hend
        refine ⟨.obj ts, _, ⟨inner, hinner, rfl⟩, congrArg ('{' :: ·) htext, ?_⟩
        rw [Source.held?, hheld]
        rfl
      simp only [List.head?_cons] at h
      by_cases hdigit : c.isDigit = true
      · rw [if_pos hdigit] at h
        obtain ⟨l, hnegative, htext, hheld⟩ := numberValue_sound h
        refine ⟨.num l, _, rfl, ?_, hheld⟩
        rw [htext, Literal.text, hnegative]
        rfl
      · rw [if_neg hdigit] at h
        cases h

/-- The items of an array, up to its end. -/
theorem items_sound : ∀ (fuel depth : Nat) (first : Bool) {cs rest : List Char} {vs : List Json},
    items fuel depth first cs = .ok vs rest →
    ∃ ts inner after, rest = ']' :: after ∧ SpellsItems first ts inner ∧ cs = inner ++ after ∧
      Source.heldItems? ts = some vs
  | 0, _, _, cs, rest, vs, h => by cases h
  | fuel + 1, depth, first, cs, rest, vs, h => by
    rw [items] at h
    obtain ⟨more, mid, hmore, hrun⟩ := bind_eq_ok_iff.1 h
    have hsound := hasItem_sound hmore
    cases more with
    | false =>
      obtain ⟨blanks, after, hb, rfl, rfl⟩ := hsound
      obtain ⟨rfl, rfl⟩ := pure_eq_ok_iff.1 hrun
      exact ⟨[], _, after, rfl, ⟨blanks, hb, rfl⟩, by simp, rfl⟩
    | true =>
      obtain ⟨sep, hsep, rfl⟩ := hsound
      obtain ⟨v, mid₁, hv, hlater⟩ := bind_eq_ok_iff.1 hrun
      obtain ⟨vs', mid₂, hvs, hpure⟩ := bind_eq_ok_iff.1 hlater
      obtain ⟨rfl, rfl⟩ := pure_eq_ok_iff.1 hpure
      obtain ⟨blanks, t, body, hb, hbody, rfl, hheld⟩ := value_sound fuel depth hv
      obtain ⟨ts, inner, after, rfl, hinner, rfl, hitems⟩ := items_sound fuel depth false hvs
      refine ⟨t :: ts, _, after, rfl, ⟨sep ++ blanks, body, inner, hsep.append_spaces hb, hbody,
        hinner, rfl⟩, by simp, ?_⟩
      rw [Source.heldItems?, hheld, Option.bind_some, hitems]
      rfl

/-- The members of an object, up to its end. -/
theorem members_sound : ∀ (fuel depth : Nat) (first : Bool) (done : List (String × Json))
    {cs rest : List Char} {ms : List (String × Json)},
    members fuel depth first done cs = .ok ms rest →
    ∃ ts inner after, rest = '}' :: after ∧ SpellsMembers first ts inner ∧ cs = inner ++ after ∧
      Source.heldMembers? done ts = some ms
  | 0, _, _, _, cs, rest, ms, h => by cases h
  | fuel + 1, depth, first, done, cs, rest, ms, h => by
    rw [members] at h
    obtain ⟨more, mid, hmore, hrun⟩ := bind_eq_ok_iff.1 h
    have hsound := hasMember_sound hmore
    cases more with
    | false =>
      obtain ⟨blanks, after, hb, rfl, rfl⟩ := hsound
      obtain ⟨rfl, rfl⟩ := pure_eq_ok_iff.1 hrun
      exact ⟨[], _, after, rfl, ⟨blanks, hb, rfl⟩, by simp, rfl⟩
    | true =>
      obtain ⟨sep, hsep, rfl⟩ := hsound
      obtain ⟨key, mid₁, hkey, h₁⟩ := bind_eq_ok_iff.1 hrun
      obtain ⟨⟨⟩, mid₂, hcolon, h₂⟩ := bind_eq_ok_iff.1 h₁
      obtain ⟨v, mid₃, hv, h₃⟩ := bind_eq_ok_iff.1 h₂
      obtain ⟨q, rfl, hquoted⟩ := string_sound hkey
      obtain ⟨before, hbefore, rfl⟩ := colon_sound hcolon
      obtain ⟨blanks, t, body, hb, hbody, rfl, hheld⟩ := value_sound fuel depth hv
      obtain ⟨ts, inner, after, rfl, hinner, rfl, hlater⟩ := members_sound fuel depth false _ h₃
      refine ⟨(q, t) :: ts, _, after, rfl, ⟨sep, before ++ ':' :: blanks, body, inner, hsep,
        ⟨before, blanks, hbefore, hb, rfl⟩, hbody, hinner, rfl⟩, ?_, ?_⟩
      · rw [hquoted]
        simp
      · rw [Source.heldMembers?, hheld, Option.bind_some, hlater]

end

/-- **A text that is read** is a text of a value, and what is read is what that is held as. -/
theorem exists_isText_of_read {text : String} {v : Json} (h : read text = .ok v) :
    ∃ t, IsText t text.toList ∧ t.held? = some v := by
  unfold read readAll at h
  dsimp only at h
  split at h
  · rename_i a rest hrun
    cases h
    obtain ⟨v, mid, hvalue, hend⟩ := bind_eq_ok_iff.1 hrun
    obtain ⟨⟨⟩, mid', hspaces, hpure⟩ := bind_eq_ok_iff.1 hend
    obtain ⟨rfl, rfl⟩ := pure_eq_ok_iff.1 hpure
    obtain ⟨blanks, t, body, hb, hbody, htext, hheld⟩ := value_sound _ _ hvalue
    replace hspaces := skipSpace_bind_sound hspaces
    obtain ⟨blanks', rest, hb', rfl, hspaces⟩ := hspaces
    cases rest with
    | nil =>
      refine ⟨t, ⟨blanks, body, blanks', hb, hbody, hb', ?_⟩, hheld⟩
      rw [htext, List.append_nil]
    | cons c rest => cases hspaces
  · cases h

/-- What is read off a text of a value is what that value is held as. -/
theorem IsText.held?_of_read {text : String} {t : Source Quoted} {v : Json}
    (h : IsText t text.toList) (hread : read text = .ok v) : t.held? = some v := by
  obtain ⟨t', ht', hheld⟩ := exists_isText_of_read hread
  rwa [← ht'.unique h]

end ResourceCli.Json
