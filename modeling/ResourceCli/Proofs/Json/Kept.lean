import ResourceCli.Proofs.Json.Meaning
import ResourceCli.Proofs.Number.Kept

/-!
# Numbers that are kept

A number that is read and written again keeps its value if it is an integer of sixty-four bits,
written as such, or a decimal of at most fifteen digits with a power of ten up to twenty-two
(`Literal.sent_of_isPlain`): the digits and the power of ten are then doubles, so that one operation
rounds, and the decimal is the shortest one of the double that it is rounded to.
-/

namespace ResourceCli.Json

open Number

/-! ## Digits that fit -/

/-- Digits that fit are all scanned. -/
theorem scanDigits_of_le {ds : List Char} (hd : ∀ c ∈ ds, c.isDigit = true) : ∀ {s k : Nat},
    s * 10 ^ ds.length + ofDigits ds ≤ maxSignificand →
    scanDigits s k ds = (s * 10 ^ ds.length + ofDigits ds, k + ds.length, [], false) := by
  induction ds with
  | nil =>
    intro s k _
    rw [scanDigits]
    simp
  | cons c ds ih =>
    intro s k hle
    rw [ofDigits_cons, List.length_cons, pow_succ'] at hle ⊢
    have hnext : (s * 10 + (c.toNat - '0'.toNat)) * 10 ^ ds.length =
        s * (10 * 10 ^ ds.length) + (c.toNat - '0'.toNat) * 10 ^ ds.length := by ring
    have hpow : 0 < 10 ^ ds.length := by positivity
    have hfits : ¬ maxSignificand < s * 10 + (c.toNat - '0'.toNat) := by
      have := Nat.le_mul_of_pos_right (s * 10 + (c.toNat - '0'.toNat)) hpow
      omega
    rw [scanDigits, if_pos (hd c List.mem_cons_self)]
    dsimp only
    rw [if_neg hfits, ih (fun c hc => hd c (List.mem_cons_of_mem _ hc)) (by omega), hnext]
    congr 1
    · omega
    · congr 1
      omega

/-- The digits of an exponent that fits are all read. -/
theorem exponentDigits_of_lt {ds : List Char} (hd : ∀ c ∈ ds, c.isDigit = true) : ∀ {e : Nat},
    e * 10 ^ ds.length + ofDigits ds < 2 ^ 31 →
    exponentDigits e ds = (some (e * 10 ^ ds.length + ofDigits ds), []) := by
  induction ds with
  | nil =>
    intro e _
    rw [exponentDigits]
    simp
  | cons c ds ih =>
    intro e hlt
    rw [ofDigits_cons, List.length_cons, pow_succ'] at hlt ⊢
    have hnext : (e * 10 + (c.toNat - '0'.toNat)) * 10 ^ ds.length =
        e * (10 * 10 ^ ds.length) + (c.toNat - '0'.toNat) * 10 ^ ds.length := by ring
    have hpow : 0 < 10 ^ ds.length := by positivity
    have hfits : ¬ Nat.pow 2 31 - 1 < e * 10 + (c.toNat - '0'.toNat) := by
      have := Nat.le_mul_of_pos_right (e * 10 + (c.toNat - '0'.toNat)) hpow
      rw [Nat.pow_eq]
      omega
    rw [exponentDigits, if_pos (hd c List.mem_cons_self)]
    dsimp only
    rw [if_neg hfits, ih (fun c hc => hd c (List.mem_cons_of_mem _ hc)) (by omega), hnext]
    congr 2
    omega

/-! ## Numbers of few digits -/

/-- The value of a double with a sign put before it. -/
theorem value_signed (negative : Bool) {x : Binary64} (hx : x.negative = false)
    (hne : x.mantissa ≠ 0) :
    (Numeral.double (if negative then x.negate else x)).value =
      (if negative then -1 else 1) * x.shortest.value := by
  have hzero : x.isZero = false := beq_eq_false_iff_ne.2 hne
  cases negative with
  | false =>
    rw [if_neg Bool.false_ne_true, Numeral.value, hzero, hx]
    rfl
  | true =>
    have hnegate : x.negate.negative = true := by
      rw [Binary64.negate, hx]
      rfl
    rw [if_pos rfl, Numeral.value, show x.negate.isZero = false from hzero, hnegate]
    rfl

/-- Zero is kept, whatever its sign. -/
theorem value_zero (negative : Bool) {x : Binary64} (hx : x.mantissa = 0) :
    (Numeral.double (if negative then x.negate else x)).value = 0 := by
  have hzero : x.isZero = true := beq_iff_eq.2 hx
  cases negative with
  | false => rw [if_neg Bool.false_ne_true, Numeral.value, hzero, if_pos rfl]
  | true => rw [if_pos rfl, Numeral.value, show x.negate.isZero = true from hzero, if_pos rfl]

/-- A number of few digits, times a small power of ten, is one that a double keeps. -/
theorem isShort_bounds {lead : Nat} {power : Int} (hpos : lead ≠ 0) (hlead : lead < 10 ^ 15)
    (hpower : power.natAbs ≤ 22) :
    IsShort (lead * 10 ^ power) ∧ (2 : ℚ) ^ (-1022 : Int) ≤ lead * 10 ^ power ∧
      (lead : ℚ) * 10 ^ power < 2 ^ 1024 - 2 ^ 970 := by
  have hten := ten_zpow_pos
  have hone : (1 : ℚ) ≤ lead := by exact_mod_cast Nat.one_le_iff_ne_zero.2 hpos
  have hlead' : (lead : ℚ) ≤ 10 ^ (15 : Int) := by
    rw [zpow_ofNat]
    exact_mod_cast hlead.le
  refine ⟨⟨lead, power, hpos, hlead.le, rfl⟩, ?_, ?_⟩
  · calc (2 : ℚ) ^ (-1022 : Int)
        ≤ 2 ^ (-88 : Int) := zpow_le_zpow_right₀ (by norm_num) (by norm_num)
      _ ≤ 10 ^ (-22 : Int) := by norm_num
      _ ≤ 10 ^ power := zpow_le_zpow_right₀ (by norm_num) (by omega)
      _ ≤ lead * 10 ^ power := le_mul_of_one_le_left (hten power).le hone
  · rw [Binary64.beyond_eq]
    calc (lead : ℚ) * 10 ^ power ≤ 10 ^ (15 : Int) * 10 ^ (22 : Int) :=
          mul_le_mul hlead' (zpow_le_zpow_right₀ (by norm_num) (by omega)) (hten _).le (hten _).le
      _ < (2 ^ 54 - 1) * 2 ^ (128 : Int) := by norm_num
      _ ≤ (2 ^ 54 - 1) * 2 ^ (970 : Int) := by
          gcongr <;> norm_num

/-- **Digits and a power of ten that are doubles** are rounded once. -/
theorem exists_scale {lead : Nat} {power : Int} (hlead : lead < 10 ^ 15)
    (hpower : power.natAbs ≤ 22) :
    ∃ num den : Nat, 0 < den ∧ (num : ℚ) / den = lead * 10 ^ power ∧
      scale (Binary64.ofNat lead) power 8 = Binary64.ofRatio false num den := by
  obtain ⟨hmagnitude, hsign⟩ := Binary64.magnitude_ofNat (n := lead) (by omega)
  obtain ⟨t, ht⟩ : ∃ t, Binary64.tenTo 308 = t := exists_eq'
  rw [scale_succ ht, if_pos (by omega)]
  rw [← Binary64.ratio_eq_magnitude] at hmagnitude
  split
  · rename_i hup
    obtain ⟨k, rfl⟩ := Int.eq_ofNat_of_zero_le hup
    obtain ⟨hten, hten'⟩ := Binary64.magnitude_tenTo (k := k) (by omega)
    rw [← Binary64.ratio_eq_magnitude] at hten
    rw [Int.toNat_natCast, Binary64.mul, hsign, hten']
    refine ⟨_, _, Nat.mul_pos (Binary64.ratio_pos _) (Binary64.ratio_pos _), ?_, rfl⟩
    push_cast
    rw [mul_div_mul_comm, hmagnitude, hten, zpow_natCast]
  · rename_i hup
    obtain ⟨k, hk⟩ := Int.eq_ofNat_of_zero_le (a := -power) (by omega)
    obtain rfl : power = -(k : Int) := by omega
    obtain ⟨hten, hten'⟩ := Binary64.magnitude_tenTo (k := k) (by omega)
    rw [← Binary64.ratio_eq_magnitude] at hten
    have hpos : 0 < (Binary64.tenTo k).ratio.1 := by
      rcases Nat.eq_zero_or_pos (Binary64.tenTo k).ratio.1 with hzero | hpos
      · rw [hzero, Nat.cast_zero, zero_div] at hten
        exact absurd hten.symm (pow_ne_zero _ (by norm_num))
      · exact hpos
    rw [neg_neg, Int.toNat_natCast, Binary64.div, hsign, hten']
    refine ⟨_, _, Nat.mul_pos (Binary64.ratio_pos _) hpos, ?_, rfl⟩
    push_cast
    rw [mul_div_mul_comm, hmagnitude, zpow_neg, zpow_natCast, ← hten, inv_div]

/-- **A number of few digits is kept.** -/
theorem value_of_doubleFrom? (negative : Bool) {lead : Nat} {power : Int} (hlead : lead < 10 ^ 15)
    (hpower : power.natAbs ≤ 22) :
    ∃ n, doubleFrom? negative lead power = some n ∧
      n.value = (if negative then -1 else 1) * (lead * 10 ^ power) := by
  obtain ⟨num, den, hden, hvalue, hscale⟩ := exists_scale hlead hpower
  rw [doubleFrom?, hscale]
  by_cases hzero : lead = 0
  · have hnum : num = 0 := by
      have hne : (den : ℚ) ≠ 0 := by exact_mod_cast hden.ne'
      rw [hzero, Nat.cast_zero, zero_mul, div_eq_zero_iff] at hvalue
      exact_mod_cast hvalue.resolve_right hne
    rw [hnum, show Binary64.ofRatio false 0 den = some (Binary64.zero false) from rfl]
    refine ⟨_, rfl, ?_⟩
    rw [value_zero negative rfl, hzero, Nat.cast_zero, zero_mul, mul_zero]
  · obtain ⟨hshort, hlow, hhigh⟩ := isShort_bounds hzero hlead hpower
    rw [← hvalue] at hshort hlow hhigh
    obtain ⟨x, hx, hsign, hne, hshortest⟩ :=
      exists_ofRatio_of_isShort false hden hshort hlow hhigh
    rw [hx]
    refine ⟨_, rfl, ?_⟩
    rw [value_signed negative hsign hne, hshortest, hvalue]

/-! ## Numbers as they are written -/

namespace Literal

/-- The number of the digits. -/
def digits (l : Literal) : Nat := ofDigits (l.whole ++ l.places)

/-- The power of ten that the digits are multiplied with. -/
def power (l : Literal) : Int := (l.exponent.map Exponent.power).getD 0 - l.places.length

theorem value_eq (l : Literal) :
    l.value = (if l.negative then -1 else 1) * (l.digits * 10 ^ l.power) := by
  rw [value, mul_assoc]
  rfl

/-- A number that is surely kept: an integer of sixty-four bits, or a decimal of at most fifteen
digits and a power of ten up to twenty-two. -/
def IsPlain (l : Literal) : Prop :=
  l.IsWhole ∧ -2 ^ 63 ≤ l.value ∧ l.value < 2 ^ 64 ∨
    (l.whole ++ l.places).length ≤ 15 ∧ l.power.natAbs ≤ 22

theorem isDigit_of_mem (l : Literal) : ∀ c ∈ l.whole ++ l.places, c.isDigit = true :=
  isDigit_of_mem_append l.digits_whole l.digits_places

theorem value_of_isWhole {l : Literal} (h : l.IsWhole) :
    l.value = (if l.negative then -1 else 1) * l.digits := by
  have hpower : l.power = 0 := by
    rw [power, h.1, h.2]
    rfl
  rw [value_eq, hpower, zpow_zero, mul_one]

theorem digits_lt {l : Literal} (h : (l.whole ++ l.places).length ≤ 15) : l.digits < 10 ^ 15 :=
  (ofDigits_lt l.isDigit_of_mem).trans_le (Nat.pow_le_pow_right (by decide) h)

/-- Digits that fit sixty-four bits are held as an integer. -/
theorem held?_of_isWhole {l : Literal} (h : l.IsWhole) (hfits : l.digits ≤ maxSignificand) :
    l.held? = some (wholeNumeral l.negative l.digits) := by
  have hdigits : ofDigits l.whole = l.digits := by rw [digits, h.1, List.append_nil]
  rw [← hdigits] at hfits ⊢
  rw [held?, scanDigits_of_le l.digits_whole (by omega), Nat.zero_mul, Nat.zero_add]
  dsimp only
  rw [if_pos (by rw [h.1, h.2]; rfl)]

/-- **An integer of sixty-four bits is kept.** -/
theorem exists_held_of_isWhole {l : Literal} (h : l.IsWhole) (hlow : -2 ^ 63 ≤ l.value)
    (hhigh : l.value < 2 ^ 64) : ∃ n, l.held? = some n ∧ n.value = l.value := by
  rw [value_of_isWhole h] at hlow hhigh ⊢
  have hmax : maxSignificand = 2 ^ 64 - 1 := rfl
  cases hnegative : l.negative with
  | false =>
    rw [hnegative, if_neg Bool.false_ne_true, one_mul] at hhigh
    have hlt : l.digits < 2 ^ 64 := by exact_mod_cast hhigh
    refine ⟨_, held?_of_isWhole h (by omega), ?_⟩
    rw [hnegative, if_neg Bool.false_ne_true, one_mul]
    exact Int.cast_natCast _
  | true =>
    rw [hnegative, if_pos rfl, neg_one_mul, neg_le_neg_iff] at hlow
    have hle : l.digits ≤ 2 ^ 63 := by exact_mod_cast hlow
    refine ⟨_, held?_of_isWhole h (by omega), ?_⟩
    rw [hnegative, if_pos rfl, neg_one_mul, wholeNumeral, if_neg (by decide)]
    by_cases hzero : l.digits = 0
    · rw [if_pos (by rw [hzero]; rfl), hzero]
      exact (value_zero true (x := Binary64.ofNat 0) rfl).trans (by simp)
    · rw [if_neg]
      · rw [Numeral.value]
        push_cast
        rfl
      · rw [Bool.or_eq_true, beq_iff_eq, decide_eq_true_eq, Nat.pow_eq]
        omega

/-- **A decimal of few digits is kept.** -/
theorem exists_held_of_length_le {l : Literal} (hlength : (l.whole ++ l.places).length ≤ 15)
    (hpower : l.power.natAbs ≤ 22) (hwhole : ¬ l.IsWhole) :
    ∃ n, l.held? = some n ∧ n.value = l.value := by
  have hdigits := digits_lt hlength
  have happend : l.digits = ofDigits l.whole * 10 ^ l.places.length + ofDigits l.places :=
    ofDigits_append _ _
  have hmax : maxSignificand = 2 ^ 64 - 1 := rfl
  have hlead : ofDigits l.whole ≤ maxSignificand := by
    have := Nat.le_mul_of_pos_right (ofDigits l.whole) (m := 10 ^ l.places.length) (by positivity)
    omega
  rw [List.length_append] at hlength
  have hheld : l.held? = heldFrom? l.negative l.digits (-(l.places.length : Int)) l.exponent := by
    rw [held?, scanDigits_of_le l.digits_whole (by omega), Nat.zero_mul, Nat.zero_add]
    dsimp only
    rw [if_neg, scanDigits_of_le l.digits_places (by omega), ← happend]
    · dsimp only
      rw [List.length_nil, Nat.cast_zero, zero_sub, Nat.zero_add]
    · rw [Bool.and_eq_true, Bool.and_eq_true, List.isEmpty_iff, Option.isNone_iff_eq_none]
      exact fun h => hwhole ⟨h.1.1, h.1.2⟩
  rw [hheld, value_eq]
  have hdouble := value_of_doubleFrom? l.negative hdigits hpower
  cases he : l.exponent with
  | none =>
    rw [power, he] at hdouble ⊢
    rw [heldFrom?]
    rwa [Option.map_none, Option.getD_none, zero_sub] at hdouble ⊢
  | some e =>
    have hpower' : l.power = e.power - l.places.length := by
      rw [power, he]
      rfl
    have hsmall : ofDigits e.digits < 2 ^ 31 := by
      have : e.power.natAbs = ofDigits e.digits := by
        rw [Exponent.power]
        split <;> simp
      omega
    rw [heldFrom?_some, exponentDigits_of_lt e.areDigits (by omega), Nat.zero_mul, Nat.zero_add]
    have hsum : (if e.sign = some '-' then -(l.places.length : Int) - ofDigits e.digits
        else -(l.places.length : Int) + ofDigits e.digits) = l.power := by
      rw [hpower', Exponent.power]
      split <;> omega
    dsimp only
    rwa [hsum]

/-- **A number that is plain is kept**: it is written again as it was read. -/
theorem sent_of_isPlain {l : Literal} (h : l.IsPlain) : l.sent = l.value := by
  have hheld : ∃ n, l.held? = some n ∧ n.value = l.value := by
    rcases h with ⟨hwhole, hlow, hhigh⟩ | ⟨hlength, hpower⟩
    · exact exists_held_of_isWhole hwhole hlow hhigh
    · by_cases hwhole : l.IsWhole
      · have hdigits : (l.digits : ℚ) < 10 ^ 15 := by exact_mod_cast digits_lt hlength
        have hnonneg : (0 : ℚ) ≤ l.digits := Nat.cast_nonneg _
        refine exists_held_of_isWhole hwhole ?_ ?_
        · rw [value_of_isWhole hwhole]
          split <;> linarith
        · rw [value_of_isWhole hwhole]
          split <;> linarith
      · exact exists_held_of_length_le hlength hpower hwhole
  obtain ⟨n, hn, hvalue⟩ := hheld
  rw [sent, hn]
  exact hvalue

end Literal

end ResourceCli.Json
