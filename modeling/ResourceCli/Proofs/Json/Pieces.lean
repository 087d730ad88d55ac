import ResourceCli.Json.Read

/-!
# Reading the pieces of a JSON text back

What a reader gives back, piece by piece, where the piece stands in front: white space, a word, the
punctuation of arrays and objects, and a string.

* `bind_of_ok`: a reader that succeeds is followed by the next one.
* `string_escaped`: the characters of a string are read back from their escapes, whatever they are.
-/

namespace ResourceCli.Json

/-! ## One reader after the other -/

section Programs

variable {α β : Type} {cs cs' : List Char}

theorem bind_of_ok {r : Reader α} {f : α → Reader β} {a : α} (h : r cs = .ok a cs') :
    (r >>= f) cs = f a cs' := by
  show EStateM.bind r f cs = _
  unfold EStateM.bind
  rw [h]

theorem map_of_ok {r : Reader α} {a : α} (f : α → β) (h : r cs = .ok a cs') :
    (f <$> r) cs = .ok (f a) cs' := by
  show EStateM.map f r cs = _
  unfold EStateM.map
  rw [h]

theorem placed_of_ok {r : Reader α} {a : α} (h : r cs = .ok a cs') :
    placed r cs = .ok a cs' := by
  unfold placed
  rw [h]

theorem closing_of_ok {r : Reader α} {close : Reader Unit} {a : α} {cs'' : List Char} {u : Unit}
    (h : r cs = .ok a cs') (h' : close cs' = .ok u cs'') : closing r close cs = .ok a cs'' := by
  unfold closing
  rw [h]
  dsimp only
  rw [h']

/-- A reader that uses up a whole text gives its value. -/
theorem readAll_of_ok {r : Reader α} {a : α} (h : r cs = .ok a []) :
    readAll r (String.ofList cs) = .ok a := by
  have hend : atEnd [] = .ok () [] := rfl
  have hwhole : (r >>= fun a => atEnd >>= fun _ => pure a) cs = .ok a [] := by
    rw [bind_of_ok h, bind_of_ok hend]
    rfl
  unfold readAll
  rw [String.toList_ofList]
  dsimp only
  rw [hwhole]

end Programs

theorem eat_bind {β : Type} (f : Unit → Reader β) (c : Char) (cs : List Char) :
    (eat >>= f) (c :: cs) = f () cs := rfl

theorem peek_bind {β : Type} (f : Option Char → Reader β) (c : Char) (cs : List Char) :
    (peek >>= f) (c :: cs) = f (some c) (c :: cs) := rfl

/-! ## White space and words -/

/-- What holds of the white space of JSON holds of each of its characters. -/
theorem forall_of_isSpace {P : Char → Prop} (hspace : P ' ') (hline : P '\n') (htab : P '\t')
    (hreturn : P '\r') : ∀ c, isSpace c = true → P c := by
  intro c h
  simp only [isSpace, Bool.or_eq_true, beq_iff_eq] at h
  rcases h with ((rfl | rfl) | rfl) | rfl
  · exact hspace
  · exact hline
  · exact htab
  · exact hreturn

/-- Characters that are white space of JSON. -/
def Spaces (cs : List Char) : Prop := ∀ c ∈ cs, isSpace c = true

theorem Spaces.nil : Spaces [] := fun _ h => absurd h List.not_mem_nil

theorem dropWhile_spaces {cs rest : List Char} {c : Char} (h : Spaces cs)
    (hc : isSpace c = false) : (cs ++ c :: rest).dropWhile isSpace = c :: rest := by
  induction cs with
  | nil => exact List.dropWhile_cons_of_neg (by simp [hc])
  | cons d cs ih =>
    rw [List.cons_append, List.dropWhile_cons_of_pos (h d List.mem_cons_self)]
    exact ih fun x hx => h x (List.mem_cons_of_mem _ hx)

/-- White space is dropped, and the character after it is seen. -/
theorem skipSpace_spaces {cs rest : List Char} {c : Char} (h : Spaces cs)
    (hc : isSpace c = false) : skipSpace (cs ++ c :: rest) = .ok (some c) (c :: rest) := by
  show EStateM.Result.ok ((cs ++ c :: rest).dropWhile isSpace).head?
    ((cs ++ c :: rest).dropWhile isSpace) = _
  rw [dropWhile_spaces h hc, List.head?_cons]

theorem skipSpace_cons {c : Char} (hc : isSpace c = false) (rest : List Char) :
    skipSpace (c :: rest) = .ok (some c) (c :: rest) :=
  skipSpace_spaces Spaces.nil hc

theorem word_append (cs rest : List Char) : word cs (cs ++ rest) = .ok () rest := by
  induction cs with
  | nil => rfl
  | cons c cs ih =>
    rw [word, List.cons_append, peek_bind]
    dsimp only
    rw [if_pos (beq_self_eq_true c), eat_bind, ih]

/-! ## Punctuation -/

section Punctuation

variable {cs rest : List Char} {c : Char}

theorem endArray_spaces (h : Spaces cs) : endArray (cs ++ ']' :: rest) = .ok () rest := by
  rw [endArray, bind_of_ok (skipSpace_spaces h rfl)]
  rfl

theorem endObject_spaces (h : Spaces cs) : endObject (cs ++ '}' :: rest) = .ok () rest := by
  rw [endObject, bind_of_ok (skipSpace_spaces h rfl)]
  rfl

theorem colon_cons : colon (':' :: rest) = .ok () rest := by
  rw [colon, bind_of_ok (skipSpace_cons rfl rest)]
  rfl

theorem hasItem_end (first : Bool) (h : Spaces cs) :
    hasItem first (cs ++ ']' :: rest) = .ok false (']' :: rest) := by
  rw [hasItem, bind_of_ok (skipSpace_spaces h rfl)]
  rfl

theorem hasItem_first (h : Spaces cs) (hc : isSpace c = false) (hend : c ≠ ']') :
    hasItem true (cs ++ c :: rest) = .ok true (c :: rest) := by
  rw [hasItem, bind_of_ok (skipSpace_spaces h hc)]
  simp only
  rfl

theorem hasItem_later (h : Spaces cs) (hc : isSpace c = false) (hend : c ≠ ']') :
    hasItem false (',' :: (cs ++ c :: rest)) = .ok true (c :: rest) := by
  rw [hasItem, bind_of_ok (skipSpace_cons rfl _)]
  show (eat >>= fun _ => _) _ = _
  rw [eat_bind, bind_of_ok (skipSpace_spaces h hc)]
  simp only
  rfl

theorem hasMember_end (first : Bool) (h : Spaces cs) :
    hasMember first (cs ++ '}' :: rest) = .ok false ('}' :: rest) := by
  rw [hasMember, bind_of_ok (skipSpace_spaces h rfl)]
  rfl

theorem hasMember_first (h : Spaces cs) :
    hasMember true (cs ++ '"' :: rest) = .ok true rest := by
  rw [hasMember, bind_of_ok (skipSpace_spaces h rfl)]
  rfl

theorem hasMember_later (h : Spaces cs) :
    hasMember false (',' :: (cs ++ '"' :: rest)) = .ok true rest := by
  rw [hasMember, bind_of_ok (skipSpace_cons rfl _)]
  show (eat >>= fun _ => _) _ = _
  rw [eat_bind, bind_of_ok (skipSpace_spaces h rfl)]
  rfl

/-- The next item is seen, and what is between it and the one before is dropped. -/
theorem hasItem_next (first : Bool) (h : Spaces cs) (hc : isSpace c = false) (hend : c ≠ ']') :
    hasItem first ((if first then [] else [',']) ++ (cs ++ c :: rest)) =
      .ok true (c :: rest) := by
  cases first with
  | true => exact hasItem_first h hc hend
  | false => exact hasItem_later h hc hend

/-- The next member is seen, and everything up to its key is dropped. -/
theorem hasMember_next (first : Bool) (h : Spaces cs) :
    hasMember first ((if first then [] else [',']) ++ (cs ++ '"' :: rest)) = .ok true rest := by
  cases first with
  | true => exact hasMember_first h
  | false => exact hasMember_later h

end Punctuation

/-! ## Strings -/

theorem stringRest_quote (fuel : Nat) (done rest : List Char) :
    stringRest (fuel + 1) done ('"' :: rest) = .ok (String.ofList done.reverse) rest := rfl

theorem stringRest_backslash {c : Char} {cs rest : List Char} (h : escape cs = .ok c rest)
    (fuel : Nat) (done : List Char) :
    stringRest (fuel + 1) done ('\\' :: cs) = stringRest fuel (c :: done) rest := by
  show (escape >>= fun c => stringRest fuel (c :: done)) cs = _
  rw [bind_of_ok h]

theorem stringRest_plain {c : Char} (hquote : c ≠ '"') (hback : c ≠ '\\') (hlow : ¬ c.toNat < 0x20)
    (fuel : Nat) (done rest : List Char) :
    stringRest (fuel + 1) done (c :: rest) = stringRest fuel (c :: done) rest := by
  rw [stringRest, peek_bind]
  simp only
  rw [if_neg hlow, eat_bind]

/-- Two zeros and the two digits of a small number are the escape of that number. -/
theorem hexEscape_small {n : Nat} (hn : n < 256) (rest : List Char) :
    hexEscape ('0' :: '0' :: Text.hexDigit (n / 16) :: Text.hexDigit (n % 16) :: rest) =
      .ok n rest := by
  have hzero : Text.hexValue? '0' = some 0 := by decide
  have hhigh := Text.hexValue?_hexDigit (n := n / 16) (by omega)
  have hlow := Text.hexValue?_hexDigit (n := n % 16) (by omega)
  unfold hexEscape
  dsimp only
  rw [hzero, hhigh, hlow]
  dsimp only
  congr 1
  omega

theorem escape_unicode {c : Char} (hc : c.toNat < 0x20) (rest : List Char) :
    escape ('u' :: '0' :: '0' :: Text.hexDigit (c.toNat / 16) :: Text.hexDigit (c.toNat % 16) ::
      rest) = .ok c rest := by
  show unicodeEscape ('0' :: '0' :: Text.hexDigit (c.toNat / 16) ::
    Text.hexDigit (c.toNat % 16) :: rest) = _
  rw [unicodeEscape, bind_of_ok (hexEscape_small (by omega) rest)]
  have hlow : isLowSurrogate c.toNat = false := by
    unfold isLowSurrogate
    rw [Bool.and_eq_false_iff, decide_eq_false_iff_not]
    exact .inl (by omega)
  have hhigh : isHighSurrogate c.toNat = false := by
    unfold isHighSurrogate
    rw [Bool.and_eq_false_iff, decide_eq_false_iff_not]
    exact .inl (by omega)
  rw [hlow, hhigh]
  show EStateM.Result.ok (Char.ofNat c.toNat) rest = _
  rw [Char.ofNat_toNat]

theorem escape_letter {c d : Char} (h : letterEscape? d = some c) (rest : List Char) :
    escape (d :: rest) = .ok c rest := by
  have hd : d ≠ 'u' := by
    rintro rfl
    cases h
  rw [escape, peek_bind]
  simp only
  rw [h]
  rfl

/-- A character within a string is written as itself, by a backslash and a letter, or by its
number. -/
theorem escapeChar_cases (c : Char) :
    (c ≠ '"' ∧ c ≠ '\\' ∧ ¬ c.toNat < 0x20 ∧ escapeChar c = [c]) ∨
      (∃ d, letterEscape? d = some c ∧ escapeChar c = ['\\', d]) ∨
      (c.toNat < 0x20 ∧ escapeChar c =
        ['\\', 'u', '0', '0', Text.hexDigit (c.toNat / 16), Text.hexDigit (c.toNat % 16)]) := by
  have eq_ofNat : ∀ n, (c.toNat == n) = true → c = Char.ofNat n := by
    intro n h
    rw [← beq_iff_eq.1 h, Char.ofNat_toNat]
  unfold escapeChar
  by_cases hquote : (c == '"') = true
  · rw [if_pos hquote, beq_iff_eq.1 hquote]
    exact .inr (.inl ⟨'"', rfl, rfl⟩)
  rw [if_neg hquote]
  by_cases hback : (c == '\\') = true
  · rw [if_pos hback, beq_iff_eq.1 hback]
    exact .inr (.inl ⟨'\\', rfl, rfl⟩)
  rw [if_neg hback]
  by_cases hb : (c.toNat == 8) = true
  · rw [if_pos hb, eq_ofNat 8 hb]
    exact .inr (.inl ⟨'b', rfl, rfl⟩)
  rw [if_neg hb]
  by_cases hf : (c.toNat == 12) = true
  · rw [if_pos hf, eq_ofNat 12 hf]
    exact .inr (.inl ⟨'f', rfl, rfl⟩)
  rw [if_neg hf]
  by_cases hn : (c == '\n') = true
  · rw [if_pos hn, beq_iff_eq.1 hn]
    exact .inr (.inl ⟨'n', rfl, rfl⟩)
  rw [if_neg hn]
  by_cases hr : (c == '\r') = true
  · rw [if_pos hr, beq_iff_eq.1 hr]
    exact .inr (.inl ⟨'r', rfl, rfl⟩)
  rw [if_neg hr]
  by_cases ht : (c == '\t') = true
  · rw [if_pos ht, beq_iff_eq.1 ht]
    exact .inr (.inl ⟨'t', rfl, rfl⟩)
  rw [if_neg ht]
  by_cases hlow : c.toNat < 0x20
  · rw [if_pos hlow]
    exact .inr (.inr ⟨hlow, rfl⟩)
  rw [if_neg hlow]
  rw [beq_iff_eq] at hquote hback
  exact .inl ⟨hquote, hback, hlow, rfl⟩

/-- One character is read back from its escape. -/
theorem stringRest_escapeChar (c : Char) (fuel : Nat) (done rest : List Char) :
    stringRest (fuel + 1) done (escapeChar c ++ rest) = stringRest fuel (c :: done) rest := by
  rcases escapeChar_cases c with ⟨hquote, hback, hlow, h⟩ | ⟨d, hd, h⟩ | ⟨hlow, h⟩
  · rw [h]
    exact stringRest_plain hquote hback hlow fuel done rest
  · rw [h]
    exact stringRest_backslash (escape_letter hd rest) fuel done
  · rw [h]
    exact stringRest_backslash (escape_unicode hlow rest) fuel done

/-- The characters of a string are read back from their escapes. -/
theorem stringRest_escaped (cs : List Char) {fuel : Nat} (hfuel : cs.length < fuel)
    (done rest : List Char) :
    stringRest fuel done (cs.flatMap escapeChar ++ '"' :: rest) =
      .ok (String.ofList (done.reverse ++ cs)) rest := by
  induction cs generalizing fuel done with
  | nil =>
    obtain ⟨fuel, rfl⟩ : ∃ k, fuel = k + 1 := ⟨fuel - 1, by omega⟩
    rw [List.append_nil]
    exact stringRest_quote fuel done rest
  | cons c cs ih =>
    obtain ⟨fuel, rfl⟩ : ∃ k, fuel = k + 1 := ⟨fuel - 1, by omega⟩
    rw [List.length_cons, Nat.add_lt_add_iff_right] at hfuel
    rw [List.flatMap_cons, List.append_assoc, stringRest_escapeChar, ih hfuel,
      List.reverse_cons, List.append_assoc, List.singleton_append]

theorem escapeChar_ne_nil (c : Char) : escapeChar c ≠ [] := by
  rcases escapeChar_cases c with ⟨-, -, -, h⟩ | ⟨d, -, h⟩ | ⟨-, h⟩
  · rw [h]
    exact List.cons_ne_nil _ _
  · rw [h]
    exact List.cons_ne_nil _ _
  · rw [h]
    exact List.cons_ne_nil _ _

theorem length_le_flatMap_escapeChar (cs : List Char) :
    cs.length ≤ (cs.flatMap escapeChar).length := by
  induction cs with
  | nil => exact Nat.le_refl _
  | cons c cs ih =>
    have hpos := List.length_pos_iff.2 (escapeChar_ne_nil c)
    rw [List.flatMap_cons, List.length_append, List.length_cons]
    omega

/-- **A string is read back**, whatever characters it has. -/
theorem string_escaped (s : String) (rest : List Char) :
    string (s.toList.flatMap escapeChar ++ '"' :: rest) = .ok s rest := by
  have hlen : s.toList.length < (s.toList.flatMap escapeChar ++ '"' :: rest).length + 1 := by
    have := length_le_flatMap_escapeChar s.toList
    rw [List.length_append]
    omega
  unfold string
  rw [stringRest_escaped s.toList hlen, List.reverse_nil, List.nil_append, String.ofList_toList]

end ResourceCli.Json
