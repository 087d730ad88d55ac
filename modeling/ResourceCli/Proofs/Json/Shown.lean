import ResourceCli.Proofs.Json.Source
import ResourceCli.Proofs.Number.Digits
import ResourceCli.Proofs.Number.Shortest

/-!
# Numbers that are written

The text of a number in data is a number as JSON has it, in whichever of its forms it is written:
digits alone, with a point among or before them, or with an exponent (`Numeral.exists_literal`).
-/

namespace ResourceCli.Json

open Number

/-- The number that is written for a number of some data. -/
def Numeral.value : Numeral → ℚ
  | .int i => i
  | .double x => if x.isZero then 0 else (if x.negative then -1 else 1) * x.shortest.value

section Forms

/-- A number of its parts. -/
theorem exists_of_parts (negative : Bool) (whole places : List Char) (exponent : Option Exponent)
    (hne : whole ≠ [])
    (hwhole : ∀ c ∈ whole, c.isDigit = true) (hzero : whole.head? = some '0' → whole = ['0'])
    (hplaces : ∀ c ∈ places, c.isDigit = true) {text : List Char} {q : ℚ}
    (htext : whole ++ ((if places = [] then [] else '.' :: places) ++
      (exponent.map Exponent.text).getD []) = text)
    (hvalue : (ofDigits (whole ++ places) : ℚ) *
      10 ^ ((exponent.map Exponent.power).getD 0 - (places.length : Int)) = q) :
    ∃ l : Literal, l.negative = negative ∧ l.unsigned = text ∧
      l.value = (if negative then -1 else 1) * q := by
  refine ⟨⟨negative, whole, places, exponent, hne, hwhole, hzero, hplaces⟩, rfl, htext, ?_⟩
  rw [Literal.value, mul_assoc, ← hvalue]

theorem isDigit_of_mem_append {cs ds : List Char} (hcs : ∀ c ∈ cs, c.isDigit = true)
    (hds : ∀ c ∈ ds, c.isDigit = true) : ∀ c ∈ cs ++ ds, c.isDigit = true := by
  intro c hc
  exact (List.mem_append.1 hc).elim (hcs c) (hds c)

theorem isDigit_of_mem_zeros (n : Nat) : ∀ c ∈ zeros n, c.isDigit = true := by
  intro c hc
  rw [List.eq_of_mem_replicate hc]
  rfl

/-- The exponent of a decimal with one digit before the point. -/
def exponentOf (i : Int) : Exponent where
  letter := 'e'
  sign := some (if i < 0 then '-' else '+')
  digits := digitsOf i.natAbs
  isLetter := .inl rfl
  isSign := by
    intro c hc
    rw [← Option.mem_some.1 hc]
    split
    · exact .inr rfl
    · exact .inl rfl
  digits_ne_nil := digitsOf_ne_nil _
  areDigits _ := isDigit_of_mem_digitsOf

theorem power_exponentOf (i : Int) : (exponentOf i).power = i := by
  show (if some (if i < 0 then '-' else '+') = some '-' then
    -(ofDigits (digitsOf i.natAbs) : Int) else ofDigits (digitsOf i.natAbs)) = i
  rw [ofDigits_digitsOf]
  by_cases hi : i < 0
  · rw [if_pos hi, if_pos rfl]
    omega
  · rw [if_neg hi, if_neg (by decide)]
    omega

/-- A text is a number whose value is that of some digits with the point behind the first few of
them, or before or after all of them. -/
def IsForm (negative : Bool) (ds : List Char) (point : Int) (text : List Char) : Prop :=
  ∃ l : Literal, l.negative = negative ∧ l.unsigned = text ∧
    l.value = (if negative then -1 else 1) * ((ofDigits ds : ℚ) * 10 ^ (point - ds.length))

variable (negative : Bool) {ds : List Char} {point : Int}

/-- The point stands before the first digit. -/
theorem isForm_before (hne : ds ≠ []) (hdigits : ∀ c ∈ ds, c.isDigit = true) (hpoint : point ≤ 0) :
    IsForm negative ds point ('0' :: '.' :: (zeros (-point).toNat ++ ds)) := by
  refine exists_of_parts negative ['0'] (zeros (-point).toNat ++ ds) none (by simp)
    (by simp) (fun _ => rfl) (isDigit_of_mem_append (isDigit_of_mem_zeros _) hdigits) ?_ ?_
  · simp [hne]
  · rw [ofDigits_append, ofDigits_append, ofDigits_zeros, List.length_append, zeros,
      List.length_replicate]
    simp only [ofDigits, List.foldl_cons, List.foldl_nil]
    push_cast
    simp
    omega

/-- All digits stand before the point. -/
theorem isForm_whole (hne : ds ≠ []) (hdigits : ∀ c ∈ ds, c.isDigit = true)
    (hhead : ds.head? ≠ some '0') (hpoint : (ds.length : Int) ≤ point) :
    IsForm negative ds point (ds ++ zeros (point.toNat - ds.length) ++ ['.', '0']) := by
  refine exists_of_parts negative (ds ++ zeros (point.toNat - ds.length)) ['0'] none
    (by simp [hne]) (isDigit_of_mem_append hdigits (isDigit_of_mem_zeros _)) ?_ (by simp) ?_ ?_
  · intro h
    rw [List.head?_append_of_ne_nil _ hne] at h
    exact absurd h hhead
  · simp
  · have hshift : point - ds.length = (point.toNat - ds.length : Nat) := by omega
    rw [ofDigits_append, ofDigits_append, ofDigits_zeros, zeros, List.length_replicate, hshift,
      zpow_natCast]
    simp [ofDigits]

/-- The point stands among the digits. -/
theorem isForm_among (hdigits : ∀ c ∈ ds, c.isDigit = true) (hhead : ds.head? ≠ some '0')
    (hpoint : 0 < point) (hlength : point < ds.length) :
    IsForm negative ds point (ds.take point.toNat ++ '.' :: ds.drop point.toNat) := by
  have hinside : 0 < point.toNat ∧ point.toNat < ds.length := by omega
  have hdrop : ds.drop point.toNat ≠ [] := by
    rw [Ne, List.drop_eq_nil_iff]
    omega
  refine exists_of_parts negative (ds.take point.toNat) (ds.drop point.toNat) none ?_
    (fun c hc => hdigits c (List.mem_of_mem_take hc)) ?_
    (fun c hc => hdigits c (List.mem_of_mem_drop hc)) ?_ ?_
  · rw [Ne, List.take_eq_nil_iff, not_or]
    refine ⟨by omega, ?_⟩
    rintro rfl
    exact Nat.not_lt_zero _ hinside.2
  · intro h
    rw [List.head?_take, if_neg (by omega)] at h
    exact absurd h hhead
  · simp [hdrop]
  · rw [List.take_append_drop, List.length_drop]
    congr 2
    show (0 : Int) - ((ds.length - point.toNat : Nat) : Int) = point - ds.length
    omega

/-- One digit stands before the point, and an exponent behind them. -/
theorem isForm_exponent {c : Char} {cs : List Char} (hdigits : ∀ e ∈ c :: cs, e.isDigit = true) :
    IsForm negative (c :: cs) point
      (c :: ((if cs = [] then [] else '.' :: cs) ++ (exponentOf (point - 1)).text)) := by
  refine exists_of_parts negative [c] cs (some (exponentOf (point - 1))) (by simp)
    (fun e he => hdigits e (by simp at he; simp [he])) ?_
    (fun e he => hdigits e (List.mem_cons_of_mem _ he)) rfl ?_
  · intro h
    rw [Option.some.inj h]
  · rw [List.singleton_append, Option.map_some, Option.getD_some, power_exponentOf]
    congr 2
    simp
    omega

/-- **The text of a positive decimal** is a number of that value. -/
theorem exists_unsigned {d : Decimal} (hd : d.digits ≠ 0) :
    ∃ l : Literal, l.negative = negative ∧ l.unsigned = d.text ∧
      l.value = (if negative then -1 else 1) * d.value := by
  have hne := digitsOf_ne_nil d.digits
  have hhead := head_digitsOf hd
  have hdigits : ∀ c ∈ digitsOf d.digits, c.isDigit = true := fun c => isDigit_of_mem_digitsOf
  have hform : IsForm negative (digitsOf d.digits) d.point d.text := by
    unfold Decimal.text
    dsimp only
    generalize digitsOf d.digits = ds at *
    split
    · split
      · rename_i hpoint
        exact isForm_before negative hne hdigits hpoint
      split
      · rename_i hlength
        exact isForm_whole negative hne hdigits hhead hlength
      · rename_i hpoint hlength
        exact isForm_among negative hdigits hhead (by omega) (by omega)
    · obtain ⟨c, cs, rfl⟩ := List.exists_cons_of_ne_nil hne
      have hexponent : IsForm negative (c :: cs) d.point _ := isForm_exponent negative hdigits
      cases cs with
      | nil => exact hexponent
      | cons e cs => exact hexponent
  rwa [IsForm, ofDigits_digitsOf] at hform

end Forms

theorem text_of_sign {l : Literal} {negative : Bool} {text : List Char}
    (hnegative : l.negative = negative) (hunsigned : l.unsigned = text) :
    l.text = if negative then '-' :: text else text := by
  rw [Literal.text, hnegative, hunsigned]
  cases negative <;> rfl

/-- **The text of a number** is a number of the value that is written for it. -/
theorem Numeral.exists_literal {n : Numeral} (hn : ∀ x, n = .double x → x.IsNormal) :
    ∃ l : Literal, l.text = n.text ∧ l.value = n.value := by
  cases n with
  | int i =>
    have hwhole : ∀ c ∈ digitsOf i.natAbs, c.isDigit = true := fun c => isDigit_of_mem_digitsOf
    have hzero : (digitsOf i.natAbs).head? = some '0' → digitsOf i.natAbs = ['0'] := by
      intro h
      by_cases hi : i.natAbs = 0
      · rw [hi]
        rfl
      · exact absurd h (head_digitsOf hi)
    have habs : (ofDigits (digitsOf i.natAbs ++ []) : ℚ) *
        10 ^ (((none : Option Exponent).map Exponent.power).getD 0 -
          (([] : List Char).length : Int)) = i.natAbs := by
      simp
    obtain ⟨l, hnegative, hunsigned, hvalue⟩ := exists_of_parts (decide (i < 0))
      (digitsOf i.natAbs) [] none (digitsOf_ne_nil _) hwhole hzero (by simp) rfl habs
    refine ⟨l, ?_, ?_⟩
    · rw [text_of_sign hnegative hunsigned, Numeral.text, intText]
      by_cases hi : i < 0 <;> simp [hi]
    · rw [hvalue, Numeral.value]
      by_cases hi : i < 0
      · rw [decide_eq_true hi, if_pos rfl, neg_one_mul, ← Int.cast_natCast,
          Int.ofNat_natAbs_of_nonpos hi.le, Int.cast_neg, neg_neg]
      · rw [decide_eq_false hi, if_neg Bool.false_ne_true, one_mul, ← Int.cast_natCast,
          Int.natAbs_of_nonneg (by omega)]
  | double x =>
    rw [Numeral.text, Numeral.value, Binary64.text]
    by_cases hzero : x.isZero = true
    · obtain ⟨l, hnegative, hunsigned, hvalue⟩ := exists_of_parts x.negative ['0'] ['0'] none
        (by simp) (by simp) (fun _ => rfl) (by simp) rfl rfl
      refine ⟨l, ?_, ?_⟩
      · rw [text_of_sign hnegative hunsigned, if_pos hzero]
        rfl
      · rw [hvalue, if_pos hzero]
        simp [ofDigits]
    · have hne : x.mantissa ≠ 0 := fun h => hzero (beq_iff_eq.2 h)
      obtain ⟨l, hnegative, hunsigned, hvalue⟩ :=
        exists_unsigned x.negative (shortest_spec (hn x rfl) hne).1
      refine ⟨l, ?_, ?_⟩
      · rw [text_of_sign hnegative hunsigned, if_neg hzero]
      · rw [hvalue, if_neg hzero]

end ResourceCli.Json
