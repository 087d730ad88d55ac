import ResourceCli.Proofs.Json.Unique
import ResourceCli.Proofs.Number.Rounding

/-!
# Numbers on a command line

Which texts are read as numbers, and as which.  An integer is digits with an optional sign; a number
is a decimal as it is written (`Written`), or infinity or not-a-number by name (`IsSpecial`), with
an optional sign too.

* `readInt64_sound`: integers.
* `readDecimal?_text`, `readDecimal?_sound`: decimals.
* `readDouble?_cases`: which texts are read as finite numbers.
-/

namespace ResourceCli.Number

/-- Something with an optional sign before it, and whether the sign is minus. -/
def Signed (negative : Bool) (cs body : List Char) : Prop :=
  cs = '-' :: body ∧ negative = true ∨ (cs = '+' :: body ∨ cs = body) ∧ negative = false

/-- Whether characters start with a minus, and what is behind the sign that they start with. -/
def signOf : List Char → Bool × List Char
  | '-' :: cs => (true, cs)
  | '+' :: cs => (false, cs)
  | cs => (false, cs)

/-- A character that is no sign. -/
def NoSign (c : Char) : Prop := c ≠ '-' ∧ c ≠ '+'

theorem NoSign.of_isDigit {c : Char} (h : c.isDigit = true) : NoSign c := by
  constructor <;> rintro rfl <;> cases h

theorem signOf_cons {c : Char} (hc : NoSign c) (cs : List Char) :
    signOf (c :: cs) = (false, c :: cs) := by
  unfold signOf
  split
  · rename_i heq
    exact absurd (List.cons.inj heq).1 hc.1
  · rename_i heq
    exact absurd (List.cons.inj heq).1 hc.2
  · rfl

theorem signed_signOf (cs : List Char) : Signed (signOf cs).1 cs (signOf cs).2 := by
  unfold signOf
  split
  · exact .inl ⟨rfl, rfl⟩
  · exact .inr ⟨.inl rfl, rfl⟩
  · exact .inr ⟨.inr rfl, rfl⟩

/-- The sign is all that stands before something that starts with no sign. -/
theorem Signed.signOf_eq {negative : Bool} {cs body : List Char} (h : Signed negative cs body)
    (hbody : ∀ c, body.head? = some c → NoSign c) : signOf cs = (negative, body) := by
  rcases h with ⟨rfl, rfl⟩ | ⟨rfl | rfl, rfl⟩
  · rfl
  · rfl
  · cases cs with
    | nil => rfl
    | cons c cs => exact signOf_cons (hbody c rfl) cs

/-! ## Integers -/

/-- Digits that are read fit the limit, and their value is the one that is written. -/
theorem readDigits_sound {limit : Nat} {beyond : IntFault} {n m : Nat} {cs : List Char}
    (h : readDigits limit beyond n cs = .ok m) :
    (∀ c ∈ cs, c.isDigit = true) ∧
      m = cs.foldl (fun n c => 10 * n + (c.toNat - '0'.toNat)) n ∧ (n ≤ limit → m ≤ limit) := by
  induction cs generalizing n with
  | nil =>
    cases h
    exact ⟨fun _ hc => absurd hc List.not_mem_nil, rfl, id⟩
  | cons c cs ih =>
    rw [readDigits] at h
    by_cases hc : c.isDigit = true
    · rw [if_neg (by simp [hc])] at h
      dsimp only at h
      split at h
      · cases h
      · rename_i hle
        obtain ⟨hdigits, hm, hlimit⟩ := ih h
        exact ⟨List.forall_mem_cons.2 ⟨hc, hdigits⟩, hm, fun _ => hlimit (not_lt.1 hle)⟩
    · rw [if_pos (by simp [hc])] at h
      cases h

/-- **An integer** is read off digits with an optional sign, as the value that they have. -/
theorem readInt64_sound {s : String} {i : Int} (h : readInt64 s = .ok i) :
    ∃ negative ds, Signed negative s.toList ds ∧ ds ≠ [] ∧ (∀ c ∈ ds, c.isDigit = true) ∧
      i = if negative then -(ofDigits ds : Int) else ofDigits ds := by
  have map_ok : ∀ {x : Except IntFault Nat}, x.map Int.ofNat = .ok i → ∃ m, x = .ok m ∧ m = i := by
    intro x hx
    cases x with
    | error fault => cases hx
    | ok m => exact ⟨m, rfl, Except.ok.inj hx⟩
  unfold readInt64 at h
  split at h
  · cases h
  · cases h
  · cases h
  · rename_i ds hne htext
    cases hm : readDigits (Nat.pow 2 63) .small 0 ds with
    | error fault =>
      rw [hm] at h
      cases h
    | ok m =>
      rw [hm] at h
      obtain ⟨hdigits, rfl, -⟩ := readDigits_sound hm
      exact ⟨true, ds, .inl ⟨htext, rfl⟩, hne, hdigits, (Except.ok.inj h).symm⟩
  · rename_i ds hne htext
    obtain ⟨m, hm, rfl⟩ := map_ok h
    obtain ⟨hdigits, rfl, -⟩ := readDigits_sound hm
    exact ⟨false, ds, .inr ⟨.inl htext, rfl⟩, hne, hdigits, rfl⟩
  · rename_i hne _ _ _ _
    obtain ⟨m, hm, rfl⟩ := map_ok h
    obtain ⟨hdigits, rfl, -⟩ := readDigits_sound hm
    exact ⟨false, _, .inr ⟨.inr rfl, rfl⟩, hne, hdigits, rfl⟩

/-! ## Decimals -/

/-- A decimal as it is written on a command line. -/
structure Written where
  /-- The digits before the point. -/
  whole : List Char
  /-- Whether there is a point. -/
  point : Bool
  /-- The digits behind it. -/
  places : List Char
  /-- The exponent. -/
  exponent : Option Json.Exponent
  /-- The digits before the point are decimal. -/
  digits_whole : ∀ c ∈ whole, c.isDigit = true
  /-- The digits behind it are decimal. -/
  digits_places : ∀ c ∈ places, c.isDigit = true
  /-- There are digits. -/
  digits_ne_nil : whole ++ places ≠ []
  /-- Digits stand behind the point only if there is one. -/
  point_of_places : places ≠ [] → point = true

namespace Written

/-- The characters of a decimal. -/
def text (w : Written) : List Char :=
  w.whole ++ ((if w.point then '.' :: w.places else []) ++
    (w.exponent.map Json.Exponent.text).getD [])

/-- Its digits as a whole number. -/
def digits (w : Written) : Nat := ofDigits (w.whole ++ w.places)

/-- The power of ten that the last digit counts. -/
def power (w : Written) : Int :=
  (w.exponent.map Json.Exponent.power).getD 0 - w.places.length

/-- The number that is written, without its sign. -/
def value (w : Written) : ℚ := w.digits * 10 ^ w.power

end Written

theorem readExponent?_cons (c : Char) (rest : List Char) :
    readExponent? (c :: rest) =
      if c == 'e' || c == 'E' then
        if (signOf rest).2.isEmpty || !(signOf rest).2.all Char.isDigit then none
        else some (if (signOf rest).1 then -(ofDigits (signOf rest).2 : Int)
          else ofDigits (signOf rest).2)
      else none := rfl

/-- An exponent is read as the power of ten that it is. -/
theorem readExponent?_text (e : Json.Exponent) : readExponent? e.text = some e.power := by
  have hsigned : Signed (e.sign == some '-') (e.sign.toList ++ e.digits) e.digits := by
    cases hs : e.sign with
    | none => exact .inr ⟨.inr rfl, rfl⟩
    | some c =>
      rcases e.isSign c hs with rfl | rfl
      · exact .inr ⟨.inl rfl, rfl⟩
      · exact .inl ⟨rfl, rfl⟩
  have hsign := hsigned.signOf_eq fun c hc =>
    .of_isDigit (e.areDigits c (List.mem_of_mem_head? hc))
  have hletter : (e.letter == 'e' || e.letter == 'E') = true := by
    simpa using e.isLetter
  have hdigits : ¬ (e.digits.isEmpty || !e.digits.all Char.isDigit) = true := by
    simpa [e.digits_ne_nil] using e.areDigits
  rw [Json.Exponent.text, readExponent?_cons, if_pos hletter, hsign, if_neg hdigits,
    Json.Exponent.power]
  simp

theorem readExponent?_sound {cs : List Char} {i : Int} (h : readExponent? cs = some i) :
    ∃ e : Option Json.Exponent, cs = (e.map Json.Exponent.text).getD [] ∧
      i = (e.map Json.Exponent.power).getD 0 := by
  cases cs with
  | nil =>
    cases h
    exact ⟨none, rfl, rfl⟩
  | cons c rest =>
    rw [readExponent?_cons] at h
    split at h
    · rename_i hletter
      split at h
      · cases h
      · rename_i hdigits
        have hsigned := signed_signOf rest
        generalize signOf rest = halves at *
        obtain ⟨negative, ds⟩ := halves
        simp only [Bool.or_eq_true, beq_iff_eq] at hletter
        simp only [Bool.or_eq_true, List.isEmpty_iff, Bool.not_eq_true', not_or,
          Bool.not_eq_false, List.all_eq_true] at hdigits
        cases h
        dsimp only at hsigned hdigits
        rcases hsigned with ⟨rfl, rfl⟩ | ⟨hrest, rfl⟩
        · exact ⟨some ⟨c, some '-', ds, hletter, by simp, hdigits.1, hdigits.2⟩, rfl, rfl⟩
        · rcases hrest with rfl | rfl
          · exact ⟨some ⟨c, some '+', ds, hletter, by simp, hdigits.1, hdigits.2⟩, rfl, rfl⟩
          · exact ⟨some ⟨c, none, rest, hletter, by simp, hdigits.1, hdigits.2⟩, rfl, rfl⟩
    · cases h

theorem spanDigits_append {ds rest : List Char} (hd : ∀ c ∈ ds, c.isDigit = true)
    (hr : Json.NoDigit rest) : spanDigits (ds ++ rest) = (ds, rest) := by
  rw [spanDigits, List.span_eq_takeWhile_dropWhile, List.takeWhile_append_of_pos hd,
    List.dropWhile_append_of_pos hd]
  cases rest with
  | nil => simp
  | cons c rest =>
    have hc : ¬ c.isDigit = true := by simp [hr c rfl]
    rw [List.takeWhile_cons_of_neg hc, List.dropWhile_cons_of_neg hc, List.append_nil]

/-- Splits off a point and the digits behind it, if there is a point. -/
def placesOf : List Char → List Char × List Char
  | '.' :: rest => spanDigits rest
  | rest => ([], rest)

theorem placesOf_of_ne {cs : List Char} (h : ∀ c, cs.head? = some c → c ≠ '.') :
    placesOf cs = ([], cs) := by
  unfold placesOf
  split
  · exact absurd rfl (h '.' rfl)
  · rfl

theorem readDecimal?_eq (cs : List Char) :
    readDecimal? cs =
      if (spanDigits cs).1.isEmpty && (placesOf (spanDigits cs).2).1.isEmpty then none
      else (readExponent? (placesOf (spanDigits cs).2).2).map fun e =>
        (ofDigits ((spanDigits cs).1 ++ (placesOf (spanDigits cs).2).1),
          (e : Int) - ((placesOf (spanDigits cs).2).1.length : Int)) := rfl

/-- What is behind the digits of a decimal is neither a digit nor a point. -/
theorem head_exponent {e : Option Json.Exponent} {c : Char}
    (h : ((e.map Json.Exponent.text).getD []).head? = some c) : c = 'e' ∨ c = 'E' := by
  cases e with
  | none => cases h
  | some e =>
    rw [← show e.letter = c from Option.some.inj h]
    exact e.isLetter

/-- **A decimal** is read as its digits and the power of ten that the last one counts. -/
theorem readDecimal?_text (w : Written) : readDecimal? w.text = some (w.digits, w.power) := by
  have hexponent : readExponent? ((w.exponent.map Json.Exponent.text).getD []) =
      some ((w.exponent.map Json.Exponent.power).getD 0) := by
    cases w.exponent with
    | none => rfl
    | some e => exact readExponent?_text e
  have hend : Json.NoDigit ((w.exponent.map Json.Exponent.text).getD []) := by
    intro c hc
    rcases head_exponent hc with rfl | rfl <;> rfl
  have hspan : spanDigits w.text = (w.whole, (if w.point then '.' :: w.places else []) ++
      (w.exponent.map Json.Exponent.text).getD []) := by
    refine spanDigits_append w.digits_whole ?_
    split
    · exact Json.noDigit_cons rfl _
    · exact hend
  have hplaces : placesOf ((if w.point then '.' :: w.places else []) ++
      (w.exponent.map Json.Exponent.text).getD []) =
      (w.places, (w.exponent.map Json.Exponent.text).getD []) := by
    cases hpoint : w.point with
    | true => exact spanDigits_append w.digits_places hend
    | false =>
      have hnone : w.places = [] := by
        by_contra h
        rw [w.point_of_places h] at hpoint
        cases hpoint
      rw [hnone]
      refine placesOf_of_ne fun c hc => ?_
      rcases head_exponent hc with rfl | rfl <;> decide
  have hne : ¬ (w.whole.isEmpty && w.places.isEmpty) = true := by
    have := w.digits_ne_nil
    simpa using this
  rw [readDecimal?_eq, hspan, hplaces, if_neg hne, hexponent]
  rfl

theorem spanDigits_spec (cs : List Char) :
    cs = (spanDigits cs).1 ++ (spanDigits cs).2 ∧ ∀ c ∈ (spanDigits cs).1, c.isDigit = true := by
  rw [spanDigits, List.span_eq_takeWhile_dropWhile]
  exact ⟨List.takeWhile_append_dropWhile.symm, fun c hc => List.mem_takeWhile_imp hc⟩

/-- **A decimal** is read off decimals only. -/
theorem readDecimal?_sound {cs : List Char} {n : Nat} {i : Int}
    (h : readDecimal? cs = some (n, i)) :
    ∃ w : Written, cs = w.text ∧ n = w.digits ∧ i = w.power := by
  rw [readDecimal?_eq] at h
  obtain ⟨hsplit, hwhole⟩ := spanDigits_spec cs
  generalize spanDigits cs = halves at *
  obtain ⟨whole, rest⟩ := halves
  -- The point is there exactly if what is behind the first digits starts with one.
  obtain ⟨point, places, tail, hplaces, hrest, hdigits, hpoint⟩ : ∃ point places tail,
      placesOf rest = (places, tail) ∧
      rest = (if point then '.' :: places else []) ++ tail ∧
      (∀ c ∈ places, c.isDigit = true) ∧ (places ≠ [] → point = true) := by
    cases rest with
    | nil => exact ⟨false, [], [], rfl, rfl, by simp, fun h => absurd rfl h⟩
    | cons c rest =>
      by_cases hc : c = '.'
      · subst hc
        obtain ⟨hrest, hplaces⟩ := spanDigits_spec rest
        exact ⟨true, (spanDigits rest).1, (spanDigits rest).2, rfl, congrArg ('.' :: ·) hrest,
          hplaces, fun _ => rfl⟩
      · refine ⟨false, [], c :: rest, placesOf_of_ne ?_, rfl, by simp, fun h => absurd rfl h⟩
        intro d hd
        rwa [← Option.some.inj hd]
  dsimp only at h hsplit
  rw [hplaces] at h
  dsimp only at h
  split at h
  · cases h
  · rename_i hne
    obtain ⟨e, he, hvalue⟩ := Option.map_eq_some_iff.1 h
    obtain ⟨x, rfl, rfl⟩ := readExponent?_sound he
    cases hvalue
    refine ⟨⟨whole, point, places, x, hwhole, hdigits, ?_, hpoint⟩, ?_, rfl, rfl⟩
    · simpa using hne
    · rw [hsplit, hrest]
      rfl

/-! ## Numbers -/

/-- A name of infinity or of not-a-number, in letters of either case. -/
def IsSpecial (cs : List Char) : Prop :=
  String.ofList (cs.map Char.toLower) ∈ ["inf", "infinity", "nan"]

/-- A text that is read as a number which no double is: infinity or not-a-number by name, or a
decimal half a unit or more beyond the largest double. -/
def IsUnbounded (s : String) : Prop :=
  ∃ negative body, Signed negative s.toList body ∧
    (IsSpecial body ∨ ∃ w : Written, body = w.text ∧ (2 : ℚ) ^ 1024 - 2 ^ 970 ≤ w.value)

theorem readDouble?_eq (s : String) :
    readDouble? s =
      if String.ofList ((signOf s.toList).2.map Char.toLower) == "inf" ||
          String.ofList ((signOf s.toList).2.map Char.toLower) == "infinity" then
        some (.infinite (signOf s.toList).1)
      else if String.ofList ((signOf s.toList).2.map Char.toLower) == "nan" then some .nan
      else (readDecimal? (signOf s.toList).2).map fun (digits, power) =>
        match Binary64.ofDecimal (signOf s.toList).1 digits power with
        | some x => .finite x
        | none => .infinite (signOf s.toList).1 := rfl

/-- A name starts with a letter. -/
theorem IsSpecial.head {cs : List Char} (h : IsSpecial cs) {c : Char} (hc : cs.head? = some c) :
    c.toLower = 'i' ∨ c.toLower = 'n' := by
  cases cs with
  | nil => cases hc
  | cons d cs =>
    obtain rfl := Option.some.inj hc
    have hhead : ∀ name : String, String.ofList ((d :: cs).map Char.toLower) = name →
        name.toList.head? = some d.toLower := by
      rintro name rfl
      rw [String.toList_ofList]
      rfl
    simp only [IsSpecial, List.mem_cons, List.not_mem_nil, or_false] at h
    rcases h with h | h | h
    · exact .inl (Option.some.inj (hhead _ h)).symm
    · exact .inl (Option.some.inj (hhead _ h)).symm
    · exact .inr (Option.some.inj (hhead _ h)).symm

/-- A decimal starts with a digit or a point. -/
theorem Written.head (w : Written) {c : Char} (hc : w.text.head? = some c) :
    c.isDigit = true ∨ c = '.' := by
  unfold Written.text at hc
  cases hwhole : w.whole with
  | cons d ds =>
    rw [hwhole] at hc
    rw [← Option.some.inj hc]
    exact .inl (w.digits_whole d (by rw [hwhole]; exact List.mem_cons_self))
  | nil =>
    have hplaces : w.places ≠ [] := by
      have := w.digits_ne_nil
      rwa [hwhole, List.nil_append] at this
    rw [hwhole, w.point_of_places hplaces] at hc
    exact .inr (Option.some.inj hc).symm

theorem toLower_of_isDigit {c : Char} (h : c.isDigit = true) : c.toLower = c := by
  simp only [Char.isDigit, Bool.and_eq_true, decide_eq_true_eq] at h
  obtain ⟨-, hnine⟩ := h
  unfold Char.toLower
  rw [dif_neg]
  rintro ⟨hcapital, -⟩
  change 65 ≤ c.val at hcapital
  change c.val ≤ 57 at hnine
  grind

theorem Written.not_isSpecial (w : Written) : ¬ IsSpecial w.text := by
  intro h
  cases htext : w.text with
  | nil =>
    rw [htext] at h
    revert h
    unfold IsSpecial
    decide
  | cons c cs =>
    have hc : w.text.head? = some c := by
      rw [htext]
      rfl
    have hlower := h.head hc
    rcases w.head hc with hdigit | rfl
    · rw [toLower_of_isDigit hdigit] at hlower
      rcases hlower with rfl | rfl <;> cases hdigit
    · revert hlower
      decide

/-- **A name** is read as infinity or as not-a-number. -/
theorem readDouble?_special {s : String} {negative : Bool} {body : List Char}
    (hsigned : Signed negative s.toList body) (h : IsSpecial body) :
    readDouble? s = some (.infinite negative) ∨ readDouble? s = some .nan := by
  have hsign := hsigned.signOf_eq fun c hc => by
    have := h.head hc
    constructor <;> rintro rfl <;> revert this <;> decide
  simp only [IsSpecial, List.mem_cons, List.not_mem_nil, or_false] at h
  rw [readDouble?_eq, hsign]
  rcases h with h | h | h <;> simp [h]

/-- **A decimal** is read as the double nearest to it, and as infinity if there is none. -/
theorem readDouble?_written {s : String} {negative : Bool} {w : Written}
    (hsigned : Signed negative s.toList w.text) :
    readDouble? s = some (match Binary64.ofDecimal negative w.digits w.power with
      | some x => .finite x
      | none => .infinite negative) := by
  have hsign := hsigned.signOf_eq fun c hc => by
    rcases w.head hc with hdigit | rfl
    · exact .of_isDigit hdigit
    · constructor <;> decide
  have hnot := w.not_isSpecial
  simp only [IsSpecial, List.mem_cons, List.not_mem_nil, or_false, not_or] at hnot
  rw [readDouble?_eq, hsign, readDecimal?_text]
  simp [hnot]

/-- **A number** is read off names and decimals only. -/
theorem readDouble?_sound {s : String} {x : Double} (h : readDouble? s = some x) :
    ∃ negative body, Signed negative s.toList body ∧
      (IsSpecial body ∨ ∃ w : Written, body = w.text) := by
  refine ⟨_, _, signed_signOf s.toList, ?_⟩
  rw [readDouble?_eq] at h
  split at h
  · rename_i hname
    left
    simpa [IsSpecial, or_assoc] using Or.inl hname
  · split at h
    · rename_i hname
      left
      simpa [IsSpecial] using Or.inr (Or.inr (beq_iff_eq.1 hname))
    · obtain ⟨⟨n, i⟩, hdecimal, -⟩ := Option.map_eq_some_iff.1 h
      obtain ⟨w, htext, -, -⟩ := readDecimal?_sound hdecimal
      exact .inr ⟨w, htext⟩

/-- What is not bounded is not read as a finite number. -/
theorem IsUnbounded.ne_finite {s : String} (h : IsUnbounded s) {x : Double}
    (hx : readDouble? s = some x) (y : Binary64) : x ≠ .finite y := by
  rintro rfl
  obtain ⟨negative, body, hsigned, hbody⟩ := h
  rcases hbody with hspecial | ⟨w, rfl, hlarge⟩
  · rcases readDouble?_special hsigned hspecial with hread | hread <;> cases hx.symm.trans hread
  · have hnone := (Binary64.ofDecimal_eq_none_iff negative w.digits w.power).2 hlarge
    rw [readDouble?_written hsigned, hnone] at hx
    cases hx

/-- **A text is read as a finite number** exactly if it is a decimal not too large for a double. -/
theorem readDouble?_cases {s : String} {x : Double} (h : readDouble? s = some x) :
    (IsUnbounded s ∧ ∀ y, x ≠ .finite y) ∨
      ¬ IsUnbounded s ∧ ∃ negative w y, Signed negative s.toList (Written.text w) ∧
        Binary64.ofDecimal negative w.digits w.power = some y ∧ x = .finite y := by
  by_cases hunbounded : IsUnbounded s
  · exact .inl ⟨hunbounded, hunbounded.ne_finite h⟩
  refine .inr ⟨hunbounded, ?_⟩
  obtain ⟨negative, body, hsigned, hbody⟩ := readDouble?_sound h
  rcases hbody with hspecial | ⟨w, rfl⟩
  · exact absurd ⟨negative, body, hsigned, .inl hspecial⟩ hunbounded
  · rw [readDouble?_written hsigned] at h
    cases hy : Binary64.ofDecimal negative w.digits w.power with
    | some y =>
      rw [hy] at h
      exact ⟨negative, w, y, hsigned, hy, (Option.some.inj h).symm⟩
    | none =>
      have hlarge := (Binary64.ofDecimal_eq_none_iff negative w.digits w.power).1 hy
      exact absurd ⟨negative, w.text, hsigned, .inr ⟨w, rfl, hlarge⟩⟩ hunbounded

end ResourceCli.Number
