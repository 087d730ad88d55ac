import ResourceCli.Number.Binary64
import Mathlib.Algebra.Order.Field.Power
import Mathlib.Algebra.Order.Ring.Rat
import Mathlib.Tactic.FieldSimp
import Mathlib.Tactic.Linarith
import Mathlib.Tactic.NormNum
import Mathlib.Tactic.Positivity
import Mathlib.Tactic.Ring

/-!
# How a ratio is rounded

A positive ratio is brought into the range of whole numbers of fifty-three bits by a power of two
(`exponentFor_spec`) and rounded there, to the nearest whole number and to the even one of two.  So
the double of a ratio has a mantissa of fifty-three bits or the least exponent (`IsNormal`) and lies
within half a unit of the ratio (`ofRatio_spec`), and there is none exactly if the ratio lies half a
unit beyond the largest double (`ofRatio_eq_none_iff`).
-/

namespace ResourceCli.Number.Binary64

section Rounding

variable {num den : Nat}

theorem scaled_pos (num : Nat) (hden : 0 < den) (e : Int) : 0 < (scaled num den e).2 := by
  unfold scaled
  split
  · exact Nat.mul_pos hden (Nat.pow_pos Nat.two_pos)
  · exact hden

/-- Scaling divides by a power of two. -/
theorem scaled_eq (num den : Nat) (e : Int) :
    ((scaled num den e).1 : ℚ) / (scaled num den e).2 = num / den / 2 ^ e := by
  unfold scaled
  split
  · rename_i he
    obtain ⟨n, rfl⟩ := Int.eq_ofNat_of_zero_le he
    simp [div_div]
  · rename_i he
    obtain ⟨n, hn⟩ := Int.eq_ofNat_of_zero_le (a := -e) (by omega)
    obtain rfl : e = -(n : Int) := by omega
    simp [mul_div_right_comm]

/-- A ratio is its whole part and what is left over. -/
theorem ratio_eq (hden : 0 < den) :
    (num : ℚ) / den = (num / den : Nat) + (num % den : Nat) / den := by
  have hne : (den : ℚ) ≠ 0 := by exact_mod_cast hden.ne'
  have hsplit : (num : ℚ) = den * (num / den : Nat) + (num % den : Nat) := by
    exact_mod_cast (Nat.div_add_mod num den).symm
  conv_lhs => rw [hsplit]
  field_simp

/-- **Rounding** goes to one of the nearest whole numbers. -/
theorem roundEven_spec (num : Nat) (hden : 0 < den) :
    (roundEven num den : ℚ) - 1 / 2 ≤ num / den ∧ (num : ℚ) / den ≤ roundEven num den + 1 / 2 := by
  have hpos : (0 : ℚ) < den := by exact_mod_cast hden
  have hlow : (0 : ℚ) ≤ (num % den : Nat) / den := by positivity
  have hhigh : ((num % den : Nat) : ℚ) / den < 1 := by
    rw [div_lt_one hpos]
    exact_mod_cast Nat.mod_lt num hden
  have down : 2 * (num % den) ≤ den → ((num % den : Nat) : ℚ) / den ≤ 1 / 2 := by
    intro h
    rw [div_le_iff₀ hpos]
    have : (2 : ℚ) * (num % den : Nat) ≤ den := by exact_mod_cast h
    linarith
  have up : den ≤ 2 * (num % den) → (1 : ℚ) / 2 ≤ ((num % den : Nat) : ℚ) / den := by
    intro h
    rw [le_div_iff₀ hpos]
    have : (den : ℚ) ≤ 2 * (num % den : Nat) := by exact_mod_cast h
    linarith
  rw [ratio_eq hden]
  unfold roundEven
  dsimp only
  split
  · rename_i h
    have := down h.le
    constructor <;> linarith
  split
  · rename_i h
    have := up h.le
    push_cast
    constructor <;> linarith
  · have hdown := down (by omega)
    have hup := up (by omega)
    split
    · constructor <;> linarith
    · push_cast
      constructor <;> linarith

/-- A whole ratio is rounded to itself. -/
theorem roundEven_eq_of_eq (hden : 0 < den) {k : Nat} (h : (num : ℚ) / den = k) :
    roundEven num den = k := by
  obtain ⟨hlow, hhigh⟩ := roundEven_spec num hden
  rw [h] at hlow hhigh
  have hle : (roundEven num den : ℚ) < ((k + 1 : Nat) : ℚ) := by
    push_cast
    linarith
  have hge : (k : ℚ) < ((roundEven num den + 1 : Nat) : ℚ) := by
    push_cast
    linarith
  have hle' : roundEven num den < k + 1 := by exact_mod_cast hle
  have hge' : k < roundEven num den + 1 := by exact_mod_cast hge
  omega

/-- What lies half-way between two whole numbers is rounded to the even one. -/
theorem roundEven_mod_two_of_tie (hden : 0 < den)
    (h : 2 * num = (2 * roundEven num den + 1) * den) : roundEven num den % 2 = 0 := by
  have hsplit := Nat.div_add_mod num den
  have hmod := Nat.mod_lt num hden
  unfold roundEven at h ⊢
  dsimp only at h ⊢
  split at h
  · nlinarith
  split at h
  · nlinarith
  · rename_i hdown hup
    rw [if_neg hdown, if_neg hup]
    split
    · rename_i heven
      simpa using heven
    · rename_i heven
      rw [if_neg heven] at h
      nlinarith

/-- An even number is reached exactly from half a unit below it on. -/
theorem le_roundEven_iff (num : Nat) (hden : 0 < den) {k : Nat} (hk : k % 2 = 0) :
    k ≤ roundEven num den ↔ (k : ℚ) - 1 / 2 ≤ num / den := by
  obtain ⟨hlow, hhigh⟩ := roundEven_spec num hden
  have hpos : (0 : ℚ) < den := by exact_mod_cast hden
  constructor
  · intro h
    have : (k : ℚ) ≤ roundEven num den := by exact_mod_cast h
    linarith
  · intro h
    by_contra hlt
    -- The ratio lies half-way between an odd number and `k`.
    have hle : (roundEven num den : ℚ) + 1 ≤ k := by exact_mod_cast Nat.succ_le_of_lt (not_le.1 hlt)
    have htie : (num : ℚ) / den = roundEven num den + 1 / 2 := by linarith
    have hnext : roundEven num den + 1 = k := by
      have : (roundEven num den : ℚ) + 1 = k := by linarith
      exact_mod_cast this
    have htwice : 2 * num = (2 * roundEven num den + 1) * den := by
      rw [div_eq_iff hpos.ne'] at htie
      have : (2 : ℚ) * num = (2 * roundEven num den + 1) * den := by linarith
      exact_mod_cast this
    have heven := roundEven_mod_two_of_tie hden htwice
    omega

/-- A ratio lies between two powers of two next to the quotient of the leading ones. -/
theorem log2_bounds (hnum : 0 < num) (hden : 0 < den) :
    (2 : ℚ) ^ ((num.log2 : Int) - den.log2 - 1) < num / den ∧
      (num : ℚ) / den < 2 ^ ((num.log2 : Int) - den.log2 + 1) := by
  have hpos : (0 : ℚ) < den := by exact_mod_cast hden
  have bounds : ∀ {n : Nat}, 0 < n →
      (2 : ℚ) ^ (n.log2 : Int) ≤ n ∧ (n : ℚ) < 2 ^ ((n.log2 : Int) + 1) := by
    intro n hn
    constructor
    · exact_mod_cast Nat.log2_self_le hn.ne'
    · exact_mod_cast Nat.lt_log2_self (n := n)
  obtain ⟨hn, hn'⟩ := bounds hnum
  obtain ⟨hd, hd'⟩ := bounds hden
  have hpow : ∀ k : Int, (0 : ℚ) < 2 ^ k := fun k => zpow_pos two_pos k
  constructor
  · rw [lt_div_iff₀ hpos]
    calc (2 : ℚ) ^ ((num.log2 : Int) - den.log2 - 1) * den
        < 2 ^ ((num.log2 : Int) - den.log2 - 1) * 2 ^ ((den.log2 : Int) + 1) :=
          mul_lt_mul_of_pos_left hd' (hpow _)
      _ = 2 ^ (num.log2 : Int) := by
          rw [← zpow_add₀ two_ne_zero]
          congr 1
          ring
      _ ≤ num := hn
  · rw [div_lt_iff₀ hpos]
    calc (num : ℚ) < 2 ^ ((num.log2 : Int) + 1) := hn'
      _ = 2 ^ ((num.log2 : Int) - den.log2 + 1) * 2 ^ (den.log2 : Int) := by
          rw [← zpow_add₀ two_ne_zero]
          congr 1
          ring
      _ ≤ 2 ^ ((num.log2 : Int) - den.log2 + 1) * den := mul_le_mul_of_nonneg_left hd (hpow _).le

/-- Whether the whole part of a scaled ratio is below a number, the ratio itself says. -/
theorem scaled_div_lt_iff (num : Nat) (hden : 0 < den) (e : Int) (m : Nat) :
    (scaled num den e).1 / (scaled num den e).2 < m ↔ (num : ℚ) / den < m * 2 ^ e := by
  have hpos := scaled_pos num hden e
  have hpos' : (0 : ℚ) < (scaled num den e).2 := by exact_mod_cast hpos
  rw [← div_lt_iff₀ (zpow_pos two_pos e), ← scaled_eq, div_lt_iff₀ hpos',
    Nat.div_lt_iff_lt_mul hpos]
  norm_cast

/-- The exponent of a ratio before it is kept from falling below the least one. -/
def fullExponent (num den : Nat) : Int :=
  let guess : Int := (num.log2 : Int) - den.log2 - 52
  if (scaled num den guess).1 / (scaled num den guess).2 < Nat.pow 2 52 then guess - 1 else guess

/-- With its full exponent a ratio has fifty-three bits. -/
theorem fullExponent_spec (hnum : 0 < num) (hden : 0 < den) :
    2 ^ 52 * 2 ^ fullExponent num den ≤ (num : ℚ) / den ∧
      (num : ℚ) / den < 2 ^ 53 * 2 ^ fullExponent num den := by
  obtain ⟨hlow, hhigh⟩ := log2_bounds hnum hden
  have shift : ∀ (k : Nat) (e : Int), (2 : ℚ) ^ k * 2 ^ e = 2 ^ ((k : Int) + e) := by
    intro k e
    rw [zpow_add₀ two_ne_zero, zpow_natCast]
  unfold fullExponent
  dsimp only
  -- The guess is right, or one too large.
  generalize hguess : (num.log2 : Int) - den.log2 - 52 = guess
  simp only [Nat.pow_eq, scaled_div_lt_iff num hden, Nat.cast_pow, Nat.cast_ofNat, shift]
  split
  · rename_i hlt
    constructor
    · rw [show (52 : Int) + (guess - 1) = (num.log2 : Int) - den.log2 - 1 by omega]
      exact hlow.le
    · rwa [show (53 : Int) + (guess - 1) = (52 : Int) + guess by omega]
  · rename_i hge
    refine ⟨not_lt.1 hge, ?_⟩
    rwa [show (53 : Int) + guess = (num.log2 : Int) - den.log2 + 1 by omega]

/-- **The exponent** is the one at which the ratio has fifty-three bits, or the least one. -/
theorem exponentFor_spec (hnum : 0 < num) (hden : 0 < den) :
    -1074 ≤ exponentFor num den ∧
      (num : ℚ) / den / 2 ^ exponentFor num den < 2 ^ 53 ∧
      (exponentFor num den = -1074 ∨ 2 ^ 52 ≤ (num : ℚ) / den / 2 ^ exponentFor num den) := by
  have hpow : ∀ k : Int, (0 : ℚ) < 2 ^ k := fun k => zpow_pos two_pos k
  obtain ⟨hlarge, hsmall⟩ := fullExponent_spec hnum hden
  have hleast : exponentFor num den =
      if fullExponent num den < -1074 then -1074 else fullExponent num den := rfl
  rw [hleast, div_lt_iff₀ (hpow _), le_div_iff₀ (hpow _)]
  split
  · rename_i hbelow
    refine ⟨le_refl _, ?_, .inl rfl⟩
    calc (num : ℚ) / den < 2 ^ 53 * 2 ^ fullExponent num den := hsmall
      _ ≤ 2 ^ 53 * 2 ^ (-1074 : Int) := by
          gcongr
          norm_num
  · rename_i habove
    exact ⟨not_lt.1 habove, hsmall, .inr hlarge⟩

/-- How many units of its exponent a ratio is rounded to. -/
def units (num den : Nat) : Nat :=
  roundEven (scaled num den (exponentFor num den)).1 (scaled num den (exponentFor num den)).2

/-- The units lie within half of one of the ratio. -/
theorem units_spec (num : Nat) (hden : 0 < den) :
    (units num den : ℚ) - 1 / 2 ≤ num / den / 2 ^ exponentFor num den ∧
      (num : ℚ) / den / 2 ^ exponentFor num den ≤ units num den + 1 / 2 := by
  rw [← scaled_eq]
  exact roundEven_spec _ (scaled_pos num hden _)

theorem le_units_iff (num : Nat) (hden : 0 < den) {k : Nat} (hk : k % 2 = 0) :
    k ≤ units num den ↔ (k : ℚ) - 1 / 2 ≤ num / den / 2 ^ exponentFor num den := by
  rw [← scaled_eq]
  exact le_roundEven_iff _ (scaled_pos num hden _) hk

/-- What is rounded has at most fifty-three bits, of which the last one may come by rounding. -/
theorem units_le (hnum : 0 < num) (hden : 0 < den) : units num den ≤ 2 ^ 53 := by
  obtain ⟨-, hlt, -⟩ := exponentFor_spec hnum hden
  have hround := (units_spec num hden).1.trans_lt hlt
  by_contra h
  have hge : (2 : ℚ) ^ 53 + 1 ≤ units num den := by exact_mod_cast not_le.1 h
  linarith

/-- Fifty-two bits are reached by a ratio that has them. -/
theorem le_units (hden : 0 < den) (h : 2 ^ 52 ≤ (num : ℚ) / den / 2 ^ exponentFor num den) :
    2 ^ 52 ≤ units num den := by
  refine (le_units_iff num hden rfl).2 ?_
  push_cast
  linarith

end Rounding

/-! ## Doubles -/

/-- The magnitude of a double, exactly. -/
def magnitude (x : Binary64) : ℚ := x.mantissa * 2 ^ x.exponent

/-- A double as it is kept: its mantissa has fifty-three bits unless the exponent is the least one,
and the exponent is one that a double has. -/
structure IsNormal (x : Binary64) : Prop where
  /-- The mantissa has at most fifty-three bits. -/
  mantissa_lt : x.mantissa < 2 ^ 53
  /-- It has fifty-three, or the exponent is the least one. -/
  mantissa_ge : x.exponent = -1074 ∨ 2 ^ 52 ≤ x.mantissa
  /-- The exponent is not too small. -/
  exponent_ge : -1074 ≤ x.exponent
  /-- The exponent is not too large. -/
  exponent_le : x.exponent ≤ 971

theorem isNormal_zero (negative : Bool) : (zero negative).IsNormal :=
  ⟨Nat.two_pow_pos 53, .inl rfl, le_refl (-1074), by simp [zero]⟩

section Ratio

variable {num den : Nat} {negative : Bool} {x : Binary64}

/-- The mantissa and the exponent of a ratio, before it is known whether they are too large. -/
def rounded (num den : Nat) : Nat × Int :=
  let m := roundEven (scaled num den (exponentFor num den)).1
    (scaled num den (exponentFor num den)).2
  if m == Nat.pow 2 53 then (Nat.pow 2 52, exponentFor num den + 1) else (m, exponentFor num den)

theorem ofRatio_eq (hnum : 0 < num) (hden : 0 < den) :
    ofRatio negative num den = if 971 < (rounded num den).2 then none
      else some ⟨negative, (rounded num den).1, (rounded num den).2⟩ := by
  unfold ofRatio rounded
  simp [hnum.ne', hden.ne']

theorem rounded_eq (num den : Nat) : rounded num den =
    if units num den == Nat.pow 2 53 then (Nat.pow 2 52, exponentFor num den + 1)
    else (units num den, exponentFor num den) := rfl

theorem rounded_spec (hnum : 0 < num) (hden : 0 < den) :
    (rounded num den).1 < 2 ^ 53 ∧
      ((rounded num den).2 = -1074 ∨ 2 ^ 52 ≤ (rounded num den).1) ∧
      -1074 ≤ (rounded num den).2 := by
  obtain ⟨hmin, -, hbits⟩ := exponentFor_spec hnum hden
  have hle := units_le hnum hden
  rw [rounded_eq]
  split
  · exact ⟨by norm_num, .inr (le_refl _), by dsimp only; omega⟩
  · rename_i hne
    have hne' : units num den ≠ 2 ^ 53 := fun h => hne (beq_iff_eq.2 h)
    exact ⟨by dsimp only; omega, hbits.imp_right (le_units hden), hmin⟩

/-- **A double is kept in its own form**, whatever ratio it is made of. -/
theorem isNormal_of_ofRatio (h : ofRatio negative num den = some x) : x.IsNormal := by
  by_cases hzero : num = 0 ∨ den = 0
  · have hz : some (zero negative) = some x := by
      rw [← h, ofRatio, if_pos (by simpa using hzero)]
    rw [← Option.some.inj hz]
    exact isNormal_zero negative
  · have hnum : 0 < num := by omega
    have hden : 0 < den := by omega
    obtain ⟨hlt, hge, hmin⟩ := rounded_spec hnum hden
    rw [ofRatio_eq hnum hden] at h
    split at h
    · cases h
    · cases h
      exact ⟨hlt, hge, hmin, by dsimp only; omega⟩

theorem isNormal_ofNat (n : Nat) : (ofNat n).IsNormal := by
  unfold ofNat
  cases h : ofRatio false n 1 with
  | none => exact isNormal_zero false
  | some x => exact isNormal_of_ofRatio h

theorem IsNormal.negate {x : Binary64} (h : x.IsNormal) : x.negate.IsNormal :=
  ⟨h.mantissa_lt, h.mantissa_ge, h.exponent_ge, h.exponent_le⟩

/-- Half a unit beyond the largest double. -/
theorem beyond_eq : (2 : ℚ) ^ 1024 - 2 ^ 970 = (2 ^ 54 - 1) * 2 ^ (970 : Int) := by
  rw [zpow_ofNat, show 1024 = 54 + 970 from rfl, pow_add, sub_mul, one_mul]

/-- Fifty-three bits at an exponent below the largest one stay below that. -/
theorem lt_beyond {s : ℚ} {e : Int} (hs : s < 2 ^ 53) (he : e ≤ 970) :
    s * 2 ^ e < 2 ^ 1024 - 2 ^ 970 := by
  have hpow : ∀ k : Int, (0 : ℚ) < 2 ^ k := fun k => zpow_pos two_pos k
  rw [beyond_eq]
  calc s * 2 ^ e < 2 ^ 53 * 2 ^ e := mul_lt_mul_of_pos_right hs (hpow _)
    _ ≤ 2 ^ 53 * 2 ^ (970 : Int) := by
        gcongr
        norm_num
    _ < (2 ^ 54 - 1) * 2 ^ (970 : Int) := mul_lt_mul_of_pos_right (by norm_num) (hpow _)

theorem one_lt_beyond : (1 : ℚ) < 2 ^ 1024 - 2 ^ 970 := by
  have h := lt_beyond (s := 1) (e := 0) (by norm_num) (by norm_num)
  rwa [zpow_zero, mul_one] at h

/-- Fifty-three bits at an exponent above the largest one are beyond that. -/
theorem beyond_le {s : ℚ} {e : Int} (hs : 2 ^ 52 ≤ s) (he : 972 ≤ e) :
    2 ^ 1024 - 2 ^ 970 ≤ s * 2 ^ e := by
  rw [beyond_eq]
  calc ((2 : ℚ) ^ 54 - 1) * 2 ^ (970 : Int) ≤ 2 ^ 54 * 2 ^ (970 : Int) := by
        gcongr
        norm_num
    _ = 2 ^ 52 * 2 ^ (972 : Int) := by
        rw [show (972 : Int) = 970 + 2 from rfl, zpow_add₀ two_ne_zero]
        ring
    _ ≤ 2 ^ 52 * 2 ^ e := by
        gcongr
        norm_num
    _ ≤ s * 2 ^ e := mul_le_mul_of_nonneg_right hs (zpow_pos two_pos e).le

/-- **A ratio is too large for a double** from half a unit beyond the largest double on. -/
theorem ofRatio_eq_none_iff (hden : 0 < den) :
    ofRatio negative num den = none ↔ (2 : ℚ) ^ 1024 - 2 ^ 970 ≤ num / den := by
  have hpow : ∀ k : Int, (0 : ℚ) < 2 ^ k := fun k => zpow_pos two_pos k
  rcases Nat.eq_zero_or_pos num with rfl | hnum
  · refine iff_of_false (fun h => by cases h) ?_
    rw [beyond_eq, Nat.cast_zero, zero_div, not_le]
    exact mul_pos (by norm_num) (hpow _)
  obtain ⟨hmin, hlt, hbits⟩ := exponentFor_spec hnum hden
  have hle := units_le hnum hden
  have hiff := le_units_iff num hden (k := 2 ^ 53) rfl
  rw [Nat.cast_pow, Nat.cast_ofNat] at hiff
  have hvalue : (num : ℚ) / den =
      num / den / 2 ^ exponentFor num den * 2 ^ exponentFor num den :=
    (div_mul_cancel₀ _ (hpow _).ne').symm
  rw [ofRatio_eq hnum hden, rounded_eq]
  generalize units num den = m at *
  generalize exponentFor num den = e at *
  generalize (num : ℚ) / den / 2 ^ e = s at *
  rw [hvalue]
  rcases lt_trichotomy e 971 with he | rfl | he
  · have hexponent : ¬ 971 < (if m == Nat.pow 2 53 then (Nat.pow 2 52, e + 1) else (m, e)).2 := by
      split <;> dsimp only <;> omega
    rw [if_neg hexponent]
    exact iff_of_false (fun h => by cases h) (not_le.2 (lt_beyond hlt (by omega)))
  · -- The last mantissa that rounds up to the next power of two decides.
    have hunit : (2 : ℚ) ^ 1024 - 2 ^ 970 = (2 ^ 53 - 1 / 2) * 2 ^ (971 : Int) := by
      rw [beyond_eq, show (971 : Int) = 970 + 1 from rfl, zpow_add_one₀ two_ne_zero]
      ring
    rw [hunit, mul_le_mul_iff_left₀ (hpow _), ← hiff]
    by_cases hm : m = 2 ^ 53
    · rw [if_pos (show (m == Nat.pow 2 53) = true from beq_iff_eq.2 hm), if_pos (by decide)]
      exact iff_of_true rfl hm.ge
    · rw [if_neg (show ¬ (m == Nat.pow 2 53) = true from fun h => hm (beq_iff_eq.1 h)),
        if_neg (lt_irrefl (971 : Int))]
      exact iff_of_false (fun h => by cases h) (fun h => hm (le_antisymm hle h))
  · have hexponent : 971 < (if m == Nat.pow 2 53 then (Nat.pow 2 52, e + 1) else (m, e)).2 := by
      split <;> dsimp only <;> omega
    rw [if_pos hexponent]
    exact iff_of_true rfl (beyond_le (hbits.resolve_left (by omega)) (by omega))

end Ratio

/-! ## Decimals -/

/-- A number has as many digits as the power of ten above it says. -/
theorem length_toDigits_bounds {n : Nat} (hn : 0 < n) :
    (10 : ℚ) ^ (((Nat.toDigits 10 n).length : Int) - 1) ≤ n ∧
      (n : ℚ) < 10 ^ ((Nat.toDigits 10 n).length : Int) := by
  have hpos := Nat.length_toDigits_pos (b := 10) (n := n)
  constructor
  · obtain ⟨k, hk⟩ : ∃ k, (Nat.toDigits 10 n).length = k + 1 := ⟨_, (Nat.succ_pred hpos.ne').symm⟩
    rw [hk, Nat.cast_succ, add_sub_cancel_right, zpow_natCast]
    rcases Nat.eq_zero_or_pos k with rfl | hk'
    · exact_mod_cast hn
    · have hle := (Nat.length_toDigits_le_iff (n := n) (b := 10) (by decide) hk').not.1 (by omega)
      exact_mod_cast not_lt.1 hle
  · rw [zpow_natCast]
    exact_mod_cast (Nat.length_toDigits_le_iff (by decide) hpos).1 (le_refl _)

/-- A decimal with more than three hundred and ten places before the point is beyond every
double. -/
theorem beyond_le_decimal {digits : Nat} {power : Int} (hdigits : 0 < digits)
    (hlarge : 310 < ((Nat.toDigits 10 digits).length : Int) + power) :
    (2 : ℚ) ^ 1024 - 2 ^ 970 ≤ digits * 10 ^ power := by
  have hlow := (length_toDigits_bounds hdigits).1
  generalize ((Nat.toDigits 10 digits).length : Int) = places at *
  calc (2 : ℚ) ^ 1024 - 2 ^ 970 ≤ 2 ^ 1024 := sub_le_self _ (by positivity)
    _ ≤ (2 ^ 205) ^ 5 := by
        rw [← pow_mul]
        exact pow_le_pow_right₀ (by norm_num) (by norm_num)
    _ ≤ (10 ^ 62) ^ 5 := pow_le_pow_left₀ (by positivity) (by norm_num) 5
    _ = 10 ^ (310 : Int) := by
        rw [← pow_mul, ← zpow_natCast]
        rfl
    _ ≤ 10 ^ (places - 1 + power) := zpow_le_zpow_right₀ (by norm_num) (by omega)
    _ = 10 ^ (places - 1) * 10 ^ power := zpow_add₀ (by norm_num) _ _
    _ ≤ digits * 10 ^ power := mul_le_mul_of_nonneg_right hlow (zpow_nonneg (by norm_num) _)

/-- A decimal without a place before the point is not beyond the doubles. -/
theorem decimal_lt_beyond {digits : Nat} {power : Int} (hdigits : 0 < digits)
    (hsmall : ((Nat.toDigits 10 digits).length : Int) + power ≤ 0) :
    (digits * 10 ^ power : ℚ) < 2 ^ 1024 - 2 ^ 970 := by
  have hhigh := (length_toDigits_bounds hdigits).2
  generalize ((Nat.toDigits 10 digits).length : Int) = places at *
  calc (digits : ℚ) * 10 ^ power < 10 ^ places * 10 ^ power :=
        mul_lt_mul_of_pos_right hhigh (zpow_pos (by norm_num) _)
    _ = 10 ^ (places + power) := (zpow_add₀ (by norm_num) _ _).symm
    _ ≤ 10 ^ (0 : Int) := zpow_le_zpow_right₀ (by norm_num) hsmall
    _ < 2 ^ 1024 - 2 ^ 970 := by
        rw [zpow_zero]
        exact one_lt_beyond

/-- **A decimal is too large for a double** from half a unit beyond the largest double on. -/
theorem ofDecimal_eq_none_iff (negative : Bool) (digits : Nat) (power : Int) :
    ofDecimal negative digits power = none ↔
      (2 : ℚ) ^ 1024 - 2 ^ 970 ≤ digits * 10 ^ power := by
  unfold ofDecimal
  split
  · rename_i hzero
    refine iff_of_false (fun h => by cases h) ?_
    rw [beq_iff_eq.1 hzero, Nat.cast_zero, zero_mul, not_le]
    exact one_pos.trans one_lt_beyond
  rename_i hne
  have hpos : 0 < digits := Nat.pos_of_ne_zero fun h => hne (beq_iff_eq.2 h)
  dsimp only
  split
  · rename_i hlarge
    exact iff_of_true rfl (beyond_le_decimal hpos hlarge)
  split
  · rename_i hsmall
    exact iff_of_false (fun h => by cases h) (not_le.2 (decimal_lt_beyond hpos (by omega)))
  split
  · rename_i hpower
    obtain ⟨n, rfl⟩ := Int.eq_ofNat_of_zero_le hpower
    rw [ofRatio_eq_none_iff Nat.one_pos]
    simp
  · rename_i hpower
    obtain ⟨n, hn⟩ := Int.eq_ofNat_of_zero_le (a := -power) (by omega)
    obtain rfl : power = -(n : Int) := by omega
    rw [ofRatio_eq_none_iff (by simp)]
    simp [div_eq_mul_inv]

end ResourceCli.Number.Binary64
