import ResourceCli.Proofs.Json.Source
import Mathlib.Data.List.TakeWhile
import Mathlib.Data.List.DropRight

/-!
# Numbers that are read

The reader of numbers gives one back only where the characters it takes are a number as it is
written, and what it gives back is an integer if they are written as such and fit sixty-four bits,
or else the double of the leading digits, as many as fit, times a power of ten (`Literal.held?`).

* `bind_eq_ok_iff`, `closing_eq_ok_iff`: what a reader that succeeds has read.
* `number_sound`: a number that is read.
-/

namespace ResourceCli.Json

open Number

/-! ## How numbers are held -/

/-- The double of leading digits and a power of ten. -/
def doubleFrom? (negative : Bool) (lead : Nat) (power : Int) : Option Numeral :=
  (scale (Binary64.ofNat lead) power 8).map fun x => .double (if negative then x.negate else x)

/-- The number of leading digits, a power of ten and an exponent; an exponent beyond thirty-two bits
leads to zero or nowhere. -/
def heldFrom? (negative : Bool) (lead : Nat) (power : Int) : Option Exponent → Option Numeral
  | none => doubleFrom? negative lead power
  | some e =>
    match (exponentDigits 0 e.digits).1 with
    | some n => doubleFrom? negative lead (if e.sign = some '-' then power - n else power + n)
    | none =>
      if lead != 0 && e.sign != some '-' then none
      else some (.double (Binary64.zero negative))

/-- The number of digits that fit sixty-four bits: an integer, unless it is too small for one or a
zero with a sign. -/
def wholeNumeral (negative : Bool) (n : Nat) : Numeral :=
  if !negative then .int n
  else if n == 0 || Nat.pow 2 63 < n then .double (Binary64.ofNat n).negate
  else .int (-(n : Int))

/-- What a number is held as: an integer if it is written as such and its digits fit sixty-four
bits, or else the double of its leading digits, as many as fit, times a power of ten; none if it is
too large for a double. -/
def Literal.held? (l : Literal) : Option Numeral :=
  let (lead, _, more, full) := scanDigits 0 0 l.whole
  if l.places.isEmpty && l.exponent.isNone && !full then some (wholeNumeral l.negative lead)
  else
    let (lead, count, _, _) := scanDigits lead 0 l.places
    heldFrom? l.negative lead (more.length - count) l.exponent

/-! ## Readers that succeed -/

section Programs

variable {α β : Type} {cs rest : List Char}

theorem pure_eq_ok_iff {a b : α} :
    (pure a : Reader α) cs = .ok b rest ↔ a = b ∧ cs = rest := by
  show EStateM.Result.ok a cs = _ ↔ _
  rw [EStateM.Result.ok.injEq]

theorem bind_eq_ok_iff {r : Reader α} {f : α → Reader β} {b : β} :
    (r >>= f) cs = .ok b rest ↔ ∃ a mid, r cs = .ok a mid ∧ f a mid = .ok b rest := by
  show EStateM.bind r f cs = _ ↔ _
  unfold EStateM.bind
  cases h : r cs with
  | ok a mid =>
    constructor
    · intro hf
      exact ⟨a, mid, rfl, hf⟩
    · rintro ⟨a', mid', he, hf⟩
      cases he
      exact hf
  | error f mid =>
    constructor
    · intro hf
      cases hf
    · rintro ⟨a', mid', he, -⟩
      cases he

theorem map_eq_ok_iff {r : Reader α} {f : α → β} {b : β} :
    (f <$> r) cs = .ok b rest ↔ ∃ a, r cs = .ok a rest ∧ f a = b := by
  show EStateM.map f r cs = _ ↔ _
  unfold EStateM.map
  cases h : r cs with
  | ok a mid =>
    constructor
    · intro hf
      cases hf
      exact ⟨a, rfl, rfl⟩
    · rintro ⟨a', he, rfl⟩
      cases he
      rfl
  | error f mid =>
    constructor
    · intro hf
      cases hf
    · rintro ⟨a', he, -⟩
      cases he

theorem closing_eq_ok_iff {r : Reader α} {close : Reader Unit} {a : α} :
    closing r close cs = .ok a rest ↔ ∃ mid, r cs = .ok a mid ∧ close mid = .ok () rest := by
  unfold closing
  cases h : r cs with
  | ok a' mid =>
    dsimp only
    cases h' : close mid with
    | ok u after =>
      constructor
      · intro hf
        cases hf
        exact ⟨mid, rfl, h'⟩
      · rintro ⟨mid', he, hc⟩
        cases he
        rw [h'] at hc
        cases hc
        rfl
    | error f after =>
      constructor
      · intro hf
        cases hf
      · rintro ⟨mid', he, hc⟩
        cases he
        rw [h'] at hc
        cases hc
  | error f mid =>
    dsimp only
    constructor
    · intro hf
      cases h' : close mid with
      | ok u after =>
        rw [h'] at hf
        cases hf
      | error f after =>
        rw [h'] at hf
        cases hf
    · rintro ⟨mid', he, -⟩
      cases he

theorem run_peek_bind (f : Option Char → Reader β) (cs : List Char) :
    (peek >>= f) cs = f cs.head? cs := rfl

theorem run_eat_bind (f : Unit → Reader β) (cs : List Char) : (eat >>= f) cs = f () cs.tail := rfl

theorem run_skipSpace_bind (f : Option Char → Reader β) (cs : List Char) :
    (skipSpace >>= f) cs = f (cs.dropWhile isSpace).head? (cs.dropWhile isSpace) := rfl

theorem run_get_bind {β : Type} (f : List Char → Reader β) (cs : List Char) :
    (get >>= f) cs = f cs cs := rfl

theorem run_set_bind {β : Type} (after : List Char) (f : PUnit → Reader β) (cs : List Char) :
    (set after >>= f) cs = f ⟨⟩ after := rfl

theorem run_modify_bind {β : Type} (g : List Char → List Char) (f : PUnit → Reader β)
    (cs : List Char) : (modify g >>= f) cs = f ⟨⟩ (g cs) := rfl

theorem spaces_takeWhile (cs : List Char) : Spaces (cs.takeWhile isSpace) :=
  fun _ hc => List.mem_takeWhile_imp hc

end Programs

/-! ## Numbers -/

section Numbers

variable {cs rest : List Char} {n : Numeral}

/-- Scanning digits stops where the digits end, at the latest. -/
theorem scanDigits_eq (s k : Nat) (cs : List Char) :
    scanDigits s k cs =
      ((scanDigits s k (cs.takeWhile Char.isDigit)).1,
        (scanDigits s k (cs.takeWhile Char.isDigit)).2.1,
        (scanDigits s k (cs.takeWhile Char.isDigit)).2.2.1 ++ cs.dropWhile Char.isDigit,
        (scanDigits s k (cs.takeWhile Char.isDigit)).2.2.2) := by
  induction cs generalizing s k with
  | nil => rfl
  | cons c cs ih =>
    by_cases hc : c.isDigit = true
    · rw [List.takeWhile_cons_of_pos hc, List.dropWhile_cons_of_pos hc, scanDigits, scanDigits,
        if_pos hc, if_pos hc]
      dsimp only
      split
      · rw [List.cons_append, List.takeWhile_append_dropWhile]
      · exact ih _ _
    · rw [List.takeWhile_cons_of_neg hc, List.dropWhile_cons_of_neg hc]
      simp [scanDigits, hc]

/-- What is left of digits are digits, and nothing is if all of them fit. -/
theorem digits_scanDigits {ds : List Char} (hd : ∀ c ∈ ds, c.isDigit = true) (s k : Nat) :
    (∀ c ∈ (scanDigits s k ds).2.2.1, c.isDigit = true) ∧
      ((scanDigits s k ds).2.2.2 = false → (scanDigits s k ds).2.2.1 = []) := by
  induction ds generalizing s k with
  | nil => exact ⟨fun _ h => absurd h List.not_mem_nil, fun _ => rfl⟩
  | cons c ds ih =>
    rw [scanDigits, if_pos (hd c List.mem_cons_self)]
    dsimp only
    split
    · exact ⟨hd, fun h => by cases h⟩
    · exact ih (fun c hc => hd c (List.mem_cons_of_mem _ hc)) _ _

theorem digits_takeWhile (cs : List Char) : ∀ c ∈ cs.takeWhile Char.isDigit, c.isDigit = true :=
  fun _ hc => List.mem_takeWhile_imp hc

theorem exponentDigits_eq (e : Nat) (cs : List Char) :
    (exponentDigits e cs).1 = (exponentDigits e (cs.takeWhile Char.isDigit)).1 ∧
      (exponentDigits e cs).2.dropWhile Char.isDigit = cs.dropWhile Char.isDigit ∧
      ((exponentDigits e cs).1.isSome → (exponentDigits e cs).2 = cs.dropWhile Char.isDigit) := by
  induction cs generalizing e with
  | nil => exact ⟨rfl, rfl, fun _ => rfl⟩
  | cons c cs ih =>
    by_cases hc : c.isDigit = true
    · rw [List.takeWhile_cons_of_pos hc, List.dropWhile_cons_of_pos hc, exponentDigits,
        exponentDigits, if_pos hc, if_pos hc]
      dsimp only
      split
      · exact ⟨rfl, rfl, fun h => by cases h⟩
      · exact ih _
    · rw [List.takeWhile_cons_of_neg hc, List.dropWhile_cons_of_neg hc]
      simp [exponentDigits, hc]

theorem doubleOf_sound {positive : Bool} {lead : Nat} {power : Int}
    (h : doubleOf positive lead power cs = .ok n rest) :
    rest = cs ∧ doubleFrom? (!positive) lead power = some n := by
  unfold doubleOf at h
  unfold doubleFrom?
  cases hx : scale (Binary64.ofNat lead) power 8 with
  | none =>
    rw [hx] at h
    cases h
  | some x =>
    rw [hx] at h
    cases h
    cases positive <;> exact ⟨rfl, rfl⟩

/-- The sign of an exponent and what is behind it. -/
theorem exponentSign_sound {up : Bool} {mid : List Char}
    (h : (do
      match ← peek with
      | some '+' =>
        eat
        return true
      | some '-' =>
        eat
        return false
      | _ => return true : Reader Bool) cs = .ok up mid) :
    ∃ sign : Option Char, (∀ c ∈ sign, c = '+' ∨ c = '-') ∧ cs = sign.toList ++ mid ∧
      up = (sign != some '-') := by
  rw [run_peek_bind] at h
  have hnone : ∀ c ∈ (none : Option Char), c = '+' ∨ c = '-' := fun _ hc => by cases hc
  cases cs with
  | nil =>
    cases h
    exact ⟨none, hnone, rfl, rfl⟩
  | cons c ds =>
    by_cases hplus : c = '+'
    · subst hplus
      cases h
      exact ⟨some '+', fun c hc => .inl (Option.mem_some.1 hc).symm, rfl, rfl⟩
    by_cases hminus : c = '-'
    · subst hminus
      cases h
      exact ⟨some '-', fun c hc => .inr (Option.mem_some.1 hc).symm, rfl, rfl⟩
    · simp [hplus, hminus] at h
      cases h
      exact ⟨none, hnone, rfl, rfl⟩

theorem heldFrom?_some (negative : Bool) (lead : Nat) (power : Int) (e : Exponent) :
    heldFrom? negative lead power (some e) =
      match (exponentDigits 0 e.digits).1 with
      | some n => doubleFrom? negative lead (if e.sign = some '-' then power - n else power + n)
      | none =>
        if lead != 0 && e.sign != some '-' then none
        else some (.double (Binary64.zero negative)) := rfl

theorem exponentRest_sound {positive : Bool} {lead : Nat} {power : Int} {letter : Char}
    (hletter : letter = 'e' ∨ letter = 'E')
    (h : exponentRest positive lead power cs = .ok n rest) :
    ∃ e : Exponent, letter :: cs = e.text ++ rest ∧
      heldFrom? (!positive) lead power (some e) = some n := by
  unfold exponentRest at h
  obtain ⟨up, mid, hsign, h⟩ := bind_eq_ok_iff.1 h
  obtain ⟨sign, hs, rfl, rfl⟩ := exponentSign_sound hsign
  rw [run_peek_bind] at h
  cases mid with
  | nil => cases h
  | cons c ds =>
    rw [List.head?_cons] at h
    dsimp only at h
    by_cases hc : c.isDigit = true
    · obtain ⟨heq, hafter, hrest⟩ := exponentDigits_eq 0 (c :: ds)
      have hsplit : c :: ds =
          (c :: ds).takeWhile Char.isDigit ++ (c :: ds).dropWhile Char.isDigit :=
        (List.takeWhile_append_dropWhile).symm
      have hne : (c :: ds).takeWhile Char.isDigit ≠ [] := by
        rw [List.takeWhile_cons_of_pos hc]
        exact List.cons_ne_nil _ _
      let e : Exponent := ⟨letter, sign, _, hletter, hs, hne, digits_takeWhile (c :: ds)⟩
      have htext : letter :: (sign.toList ++ c :: ds) =
          e.text ++ (c :: ds).dropWhile Char.isDigit := by
        show _ = letter :: (sign.toList ++ (c :: ds).takeWhile Char.isDigit) ++ _
        rw [List.cons_append, List.append_assoc, ← hsplit]
      refine ⟨e, ?_⟩
      rw [htext]
      rw [heldFrom?_some, show (exponentDigits 0 e.digits).1 = _ from heq.symm]
      simp only [hc, Bool.not_true, Bool.false_eq_true, if_false] at h
      rw [run_get_bind, run_set_bind] at h
      cases hdigits : (exponentDigits 0 (c :: ds)).1 with
      | some k =>
        rw [hdigits] at h hrest
        obtain ⟨rfl, hheld⟩ := doubleOf_sound h
        rw [hrest rfl]
        refine ⟨rfl, ?_⟩
        rw [← hheld]
        by_cases hminus : sign = some '-' <;> simp [e, hminus]
      | none =>
        rw [hdigits] at h
        dsimp only at h ⊢
        split at h
        · cases h
        · rename_i hzero
          cases h
          refine ⟨congrArg (e.text ++ ·) hafter.symm, ?_⟩
          exact if_neg hzero
    · simp only [hc] at h
      cases h

/-- An exponent, if there is one. -/
theorem exponentOrEnd_sound {positive : Bool} {lead : Nat} {power : Int}
    (h : exponentOrEnd positive lead power cs = .ok n rest) :
    ∃ e : Option Exponent, cs = (e.map Exponent.text).getD [] ++ rest ∧
      heldFrom? (!positive) lead power e = some n := by
  rw [exponentOrEnd, run_peek_bind] at h
  cases cs with
  | nil =>
    obtain ⟨rfl, hheld⟩ := doubleOf_sound h
    exact ⟨none, rfl, hheld⟩
  | cons c ds =>
    by_cases hc : c = 'e' ∨ c = 'E'
    · have hrest : exponentRest positive lead power ds = .ok n rest := by
        rcases hc with rfl | rfl <;> exact h
      obtain ⟨e, htext, hheld⟩ := exponentRest_sound hc hrest
      exact ⟨some e, htext, hheld⟩
    · rw [not_or] at hc
      simp [hc.1, hc.2] at h
      obtain ⟨rfl, hheld⟩ := doubleOf_sound h
      exact ⟨none, rfl, hheld⟩

/-- The digits behind a point, and an exponent if there is one. -/
theorem fractionRest_sound {positive : Bool} {lead : Nat} {power : Int}
    (h : fractionRest positive lead power cs = .ok n rest) :
    ∃ (places : List Char) (e : Option Exponent), places ≠ [] ∧
      (∀ c ∈ places, c.isDigit = true) ∧
      cs = places ++ ((e.map Exponent.text).getD [] ++ rest) ∧
      heldFrom? (!positive) (scanDigits lead 0 places).1
        (power - (scanDigits lead 0 places).2.1) e = some n := by
  have hdigits := digits_takeWhile cs
  have hsplit := List.takeWhile_append_dropWhile (p := Char.isDigit) (l := cs)
  obtain ⟨hmore, hnone⟩ := digits_scanDigits hdigits lead 0
  rw [fractionRest, run_get_bind, scanDigits_eq] at h
  dsimp only at h
  rw [run_set_bind] at h
  cases hfull : (scanDigits lead 0 (cs.takeWhile Char.isDigit)).2.2.2 with
  | true =>
    rw [hfull, if_pos rfl, run_modify_bind, List.dropWhile_append_of_pos hmore,
      List.dropWhile_idempotent] at h
    obtain ⟨e, htext, hheld⟩ := exponentOrEnd_sound h
    refine ⟨cs.takeWhile Char.isDigit, e, ?_, hdigits, ?_, hheld⟩
    · intro hnil
      rw [hnil] at hfull
      cases hfull
    · rw [← htext, hsplit]
  | false =>
    rw [hfull, hnone hfull, if_neg Bool.false_ne_true, List.nil_append] at h
    by_cases hcount : (scanDigits lead 0 (cs.takeWhile Char.isDigit)).2.1 = 0
    · simp only [hcount] at h
      cases h
    · rw [if_neg (by simpa using hcount)] at h
      obtain ⟨e, htext, hheld⟩ := exponentOrEnd_sound h
      refine ⟨cs.takeWhile Char.isDigit, e, ?_, hdigits, ?_, hheld⟩
      · intro hnil
        rw [hnil] at hcount
        exact hcount rfl
      · rw [← htext, hsplit]

/-- Places and an exponent are what stands behind the digits before a point, each of them if it is
there; and the number that is made of them and the digits is held. -/
structure IsTail (negative : Bool) (lead : Nat) (power : Int) (places : List Char)
    (e : Option Exponent) (cs rest : List Char) (n : Numeral) : Prop where
  /-- The places are digits. -/
  areDigits : ∀ c ∈ places, c.isDigit = true
  /-- They are written behind a point, and the exponent behind them. -/
  text : cs = (if places = [] then [] else '.' :: places) ++ ((e.map Exponent.text).getD [] ++ rest)
  /-- The number is held. -/
  held : heldFrom? negative (scanDigits lead 0 places).1
    (power - (scanDigits lead 0 places).2.1) e = some n

/-- What stands behind the digits before a point: a fraction, an exponent or neither of them, where
it depends on those digits what the number is. -/
theorem tail_sound {positive : Bool} {lead : Nat} {power : Int} {r : Reader Numeral}
    (h : (do
      match ← peek with
      | some '.' =>
        eat
        fractionRest positive lead power
      | some 'e' | some 'E' =>
        eat
        exponentRest positive lead power
      | _ => r : Reader Numeral) cs = .ok n rest) :
    (∃ (places : List Char) (e : Option Exponent), (places ≠ [] ∨ e ≠ none) ∧
      IsTail (!positive) lead power places e cs rest n) ∨ r cs = .ok n rest := by
  rw [run_peek_bind] at h
  cases cs with
  | nil => exact .inr h
  | cons c ds =>
    by_cases hpoint : c = '.'
    · subst hpoint
      have hrest : fractionRest positive lead power ds = .ok n rest := h
      obtain ⟨places, e, hne, hdigits, rfl, hheld⟩ := fractionRest_sound hrest
      exact .inl ⟨places, e, .inl hne, hdigits, by rw [if_neg hne]; rfl, hheld⟩
    by_cases hletter : c = 'e' ∨ c = 'E'
    · have hrest : exponentRest positive lead power ds = .ok n rest := by
        rcases hletter with rfl | rfl <;> exact h
      obtain ⟨e, htext, hheld⟩ := exponentRest_sound hletter hrest
      refine .inl ⟨[], some e, .inr (Option.some_ne_none e), by simp, htext, ?_⟩
      simpa [scanDigits] using hheld
    · rw [not_or] at hletter
      simp [hpoint, hletter.1, hletter.2] at h
      exact .inr h

theorem wholeRest_sound {positive : Bool} {lead : Nat}
    (h : wholeRest positive lead cs = .ok n rest) :
    (∃ (places : List Char) (e : Option Exponent), (places ≠ [] ∨ e ≠ none) ∧
      IsTail (!positive) lead 0 places e cs rest n) ∨
      cs = rest ∧ n = wholeNumeral (!positive) lead := by
  refine (tail_sound h).imp_right fun h => ?_
  unfold wholeNumeral
  cases positive with
  | true =>
    cases h
    exact ⟨rfl, rfl⟩
  | false =>
    simp only [Bool.not_false, Bool.not_true, Bool.false_eq_true, if_false] at h ⊢
    split at h
    · rename_i hzero
      cases h
      exact ⟨rfl, by rw [if_pos hzero]⟩
    · rename_i hzero
      cases h
      exact ⟨rfl, by rw [if_neg hzero]⟩

theorem longRest_sound {positive : Bool} {lead : Nat} {more after : List Char}
    (hmore : ∀ c ∈ more, c.isDigit = true) (hafter : after.takeWhile Char.isDigit = [])
    (h : longRest positive lead (more ++ after) = .ok n rest) :
    ∃ (places : List Char) (e : Option Exponent),
      IsTail (!positive) lead more.length places e after rest n := by
  have hdrop : after.dropWhile Char.isDigit = after := by
    have hsplit := List.takeWhile_append_dropWhile (p := Char.isDigit) (l := after)
    rwa [hafter, List.nil_append] at hsplit
  rw [longRest, run_get_bind, run_set_bind, List.takeWhile_append_of_pos hmore,
    List.dropWhile_append_of_pos hmore, hafter, hdrop, List.append_nil] at h
  rcases tail_sound h with ⟨places, e, -, htail⟩ | h
  · exact ⟨places, e, htail⟩
  · obtain ⟨rfl, hheld⟩ := doubleOf_sound h
    exact ⟨[], none, by simp, rfl, by simpa [scanDigits, heldFrom?] using hheld⟩

/-- The digits that stand before the point, and what follows them, are a number that is held as what
is made of both. -/
theorem exists_literal {negative : Bool} {whole after : List Char}
    (hne : whole ≠ []) (hdigits : ∀ c ∈ whole, c.isDigit = true)
    (hzero : whole.head? = some '0' → whole = ['0'])
    (h : (∃ (places : List Char) (e : Option Exponent),
        ((places ≠ [] ∨ e ≠ none) ∨ (scanDigits 0 0 whole).2.2.2 = true) ∧
        IsTail negative (scanDigits 0 0 whole).1 (scanDigits 0 0 whole).2.2.1.length places e
          after rest n) ∨
      (scanDigits 0 0 whole).2.2.2 = false ∧ after = rest ∧
        n = wholeNumeral negative (scanDigits 0 0 whole).1) :
    ∃ l : Literal, l.negative = negative ∧ whole ++ after = l.unsigned ++ rest ∧
      l.held? = some n := by
  rcases h with ⟨places, e, hwhole, hplaces, rfl, hheld⟩ | ⟨hfull, rfl, rfl⟩
  · refine ⟨⟨negative, whole, places, e, hne, hdigits, hzero, hplaces⟩, rfl, ?_, ?_⟩
    · simp [Literal.unsigned, Literal.fraction]
    · have hpart : ¬ (places.isEmpty && e.isNone && !(scanDigits 0 0 whole).2.2.2) = true := by
        simp only [Bool.and_eq_true, List.isEmpty_iff, Option.isNone_iff_eq_none, Bool.not_eq_true']
        rintro ⟨⟨rfl, rfl⟩, hfull⟩
        rcases hwhole with hwhole | hwhole
        · simp at hwhole
        · rw [hfull] at hwhole
          cases hwhole
      unfold Literal.held?
      dsimp only
      rw [if_neg hpart, hheld]
  · refine ⟨⟨negative, whole, [], none, hne, hdigits, hzero, by simp⟩, rfl, ?_, ?_⟩
    · simp [Literal.unsigned, Literal.fraction]
    · unfold Literal.held?
      dsimp only
      rw [hfull]
      rfl

theorem takeWhile_dropWhile_digits (cs : List Char) :
    (cs.dropWhile Char.isDigit).takeWhile Char.isDigit = [] := by
  have hhead := List.head?_dropWhile_not Char.isDigit cs
  cases h : cs.dropWhile Char.isDigit with
  | nil => rfl
  | cons c ds =>
    rw [h] at hhead
    exact List.takeWhile_cons_of_neg (by simpa using hhead)

/-- Behind a zero no other digit stands before the point. -/
theorem number_zero_sound {positive : Bool} (h : number positive ('0' :: cs) = .ok n rest) :
    wholeRest positive 0 cs = .ok n rest := by
  cases cs with
  | nil => exact h
  | cons d ds =>
    have hd : (if d.isDigit then failAhead .badNumber else wholeRest positive 0 :
        Reader Numeral) (d :: ds) = .ok n rest := h
    by_cases hdigit : d.isDigit = true
    · rw [if_pos hdigit] at hd
      cases hd
    · rwa [if_neg hdigit] at hd

/-- **A number** is read off a number as it is written, and is what that is held as. -/
theorem number_sound {positive : Bool} (h : number positive cs = .ok n rest) :
    ∃ l : Literal, l.negative = !positive ∧ cs = l.unsigned ++ rest ∧ l.held? = some n := by
  cases cs with
  | nil => cases h
  | cons c ds =>
    by_cases hzero : c = '0'
    · subst hzero
      have hdigits : ∀ c ∈ ['0'], c.isDigit = true := List.forall_mem_singleton.2 rfl
      refine exists_literal (List.cons_ne_nil '0' []) hdigits (fun _ => rfl) ?_
      rcases wholeRest_sound (number_zero_sound h) with ⟨places, e, hne, htail⟩ | ⟨htext, hn⟩
      · exact .inl ⟨places, e, .inl hne, htail⟩
      · exact .inr ⟨rfl, htext, hn⟩
    rw [number, run_peek_bind] at h
    by_cases hc : c.isDigit = true
    · have hsplit := List.takeWhile_append_dropWhile (p := Char.isDigit) (l := c :: ds)
      have hdigits := digits_takeWhile (c :: ds)
      have hafter := takeWhile_dropWhile_digits (c :: ds)
      have hhead : (c :: ds).takeWhile Char.isDigit = c :: ds.takeWhile Char.isDigit :=
        List.takeWhile_cons_of_pos hc
      obtain ⟨hmore, hnone⟩ := digits_scanDigits hdigits 0 0
      have hne : (c :: ds).takeWhile Char.isDigit ≠ [] := by
        rw [hhead]
        exact List.cons_ne_nil _ _
      have hlead : ((c :: ds).takeWhile Char.isDigit).head? = some '0' →
          (c :: ds).takeWhile Char.isDigit = ['0'] := by
        rw [hhead]
        intro h
        exact absurd (Option.some.inj h) hzero
      simp [hc] at h
      rw [run_get_bind, scanDigits_eq] at h
      dsimp only at h
      rw [run_set_bind] at h
      conv => rw [← hsplit]
      generalize (c :: ds).takeWhile Char.isDigit = whole at *
      generalize (c :: ds).dropWhile Char.isDigit = after at *
      refine exists_literal hne hdigits hlead ?_
      cases hfull : (scanDigits 0 0 whole).2.2.2 with
      | true =>
        rw [hfull, if_pos rfl] at h
        obtain ⟨places, e, htail⟩ := longRest_sound hmore hafter h
        exact .inl ⟨places, e, .inr rfl, htail⟩
      | false =>
        rw [hfull, if_neg Bool.false_ne_true, hnone hfull] at h
        rcases wholeRest_sound h with ⟨places, e, hwhole, htail⟩ | ⟨htext, hn⟩
        · refine .inl ⟨places, e, .inl hwhole, ?_⟩
          rw [hnone hfull]
          exact htail
        · exact .inr ⟨rfl, htext, hn⟩
    · simp [hc] at h
      cases h

end Numbers

end ResourceCli.Json
