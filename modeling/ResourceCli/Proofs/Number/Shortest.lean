import ResourceCli.Number.Text
import ResourceCli.Proofs.Number.Rounding

/-!
# The shortest decimal of a double

The numbers that round to a double lie in an interval around it (`Neighbourhood.Contains`).  The
decimals with a given number of digits form a grid, and the two points of the grid next to the
double tell whether a point of the grid lies in the interval at all (`candidate?_eq_none_iff`).
With seventeen digits one does (`exists_candidate`), so the search for the fewest digits finds one:
the shortest decimal of a double lies in the interval, and no decimal with fewer digits does
(`shortest_spec`).
-/

namespace ResourceCli.Number

theorem ten_zpow_pos (k : Int) : (0 : ℚ) < 10 ^ k := zpow_pos (by norm_num) k

theorem tenPower_pos (k : Int) : 0 < (tenPower k).1 ∧ 0 < (tenPower k).2 := by
  unfold tenPower
  split <;> simp

theorem tenPower_eq (k : Int) : ((tenPower k).1 : ℚ) / (tenPower k).2 = 10 ^ k := by
  unfold tenPower
  split
  · rename_i hk
    obtain ⟨n, rfl⟩ := Int.eq_ofNat_of_zero_le hk
    simp
  · rename_i hk
    obtain ⟨n, hn⟩ := Int.eq_ofNat_of_zero_le (a := -k) (by omega)
    obtain rfl : k = -(n : Int) := by omega
    simp

/-! ## The interval -/

namespace Neighbourhood

/-- The lower end. -/
def lower (n : Neighbourhood) : ℚ := n.low / n.unit

/-- The double. -/
def centre (n : Neighbourhood) : ℚ := n.value / n.unit

/-- The upper end. -/
def upper (n : Neighbourhood) : ℚ := n.high / n.unit

/-- A number lies in the interval. -/
def Contains (n : Neighbourhood) (q : ℚ) : Prop :=
  if n.closed then n.lower ≤ q ∧ q ≤ n.upper else n.lower < q ∧ q < n.upper

/-- An interval with the double inside. -/
structure IsProper (n : Neighbourhood) : Prop where
  /-- The denominator is positive. -/
  unit_pos : 0 < n.unit
  /-- The double is positive. -/
  centre_pos : 0 < n.centre
  /-- The lower end is below the double. -/
  lower_lt : n.lower < n.centre
  /-- The upper end is above it. -/
  lt_upper : n.centre < n.upper

variable {n : Neighbourhood} {k : Int} {c : Nat}

theorem contains_of_between {q q' p : ℚ} (h : n.Contains q) (h' : n.Contains q') (hq : q ≤ p)
    (hq' : p ≤ q') : n.Contains p := by
  unfold Contains at *
  split <;> rename_i hclosed
  · rw [if_pos hclosed] at h h'
    exact ⟨h.1.trans hq, hq'.trans h'.2⟩
  · rw [if_neg hclosed] at h h'
    exact ⟨h.1.trans_le hq, hq'.trans_lt h'.2⟩

theorem contains_of_lt {q : ℚ} (h : n.lower < q) (h' : q < n.upper) : n.Contains q := by
  unfold Contains
  split
  · exact ⟨h.le, h'.le⟩
  · exact ⟨h, h'⟩

theorem IsProper.contains_centre (hn : n.IsProper) : n.Contains n.centre :=
  contains_of_lt hn.lower_lt hn.lt_upper

/-- A point of a grid, compared with a ratio in whole numbers. -/
theorem div_le_point_iff (hunit : 0 < n.unit) (a c : Nat) (k : Int) :
    (a : ℚ) / n.unit ≤ c * 10 ^ k ↔ a * (tenPower k).2 ≤ c * (tenPower k).1 * n.unit := by
  have hunit' : (0 : ℚ) < n.unit := by exact_mod_cast hunit
  have hdown : (0 : ℚ) < (tenPower k).2 := by exact_mod_cast (tenPower_pos k).2
  rw [← tenPower_eq, ← mul_div_assoc, div_le_div_iff₀ hunit' hdown]
  exact_mod_cast Iff.rfl

theorem point_le_div_iff (hunit : 0 < n.unit) (a c : Nat) (k : Int) :
    (c : ℚ) * 10 ^ k ≤ a / n.unit ↔ c * (tenPower k).1 * n.unit ≤ a * (tenPower k).2 := by
  have hunit' : (0 : ℚ) < n.unit := by exact_mod_cast hunit
  have hdown : (0 : ℚ) < (tenPower k).2 := by exact_mod_cast (tenPower_pos k).2
  rw [← tenPower_eq, ← mul_div_assoc, div_le_div_iff₀ hdown hunit']
  exact_mod_cast Iff.rfl

/-- The test in whole numbers is the test whether a point of a grid lies in the interval. -/
theorem holds_iff (hn : n.IsProper) : n.holds c k = true ↔ n.Contains (c * 10 ^ k) := by
  have hlow := div_le_point_iff hn.unit_pos n.low c k
  have hhigh := point_le_div_iff hn.unit_pos n.high c k
  have hlow' := (point_le_div_iff hn.unit_pos n.low c k).not
  have hhigh' := (div_le_point_iff hn.unit_pos n.high c k).not
  rw [not_le, not_le] at hlow' hhigh'
  unfold holds Contains lower upper
  dsimp only
  cases n.closed
  · simp [hlow', hhigh']
  · simp [hlow, hhigh]

/-! ## The points next to the double -/

/-- The point of a grid just below the double, or at it. -/
def below (n : Neighbourhood) (k : Int) : Nat :=
  n.value * (tenPower k).2 / ((tenPower k).1 * n.unit)

theorem below_spec (hn : n.IsProper) (k : Int) :
    (n.below k : ℚ) * 10 ^ k ≤ n.centre ∧ n.centre < (n.below k + 1 : Nat) * 10 ^ k := by
  have hpos : 0 < (tenPower k).1 * n.unit := Nat.mul_pos (tenPower_pos k).1 hn.unit_pos
  constructor
  · rw [centre, point_le_div_iff hn.unit_pos, Nat.mul_assoc]
    exact Nat.div_mul_le_self _ _
  · rw [← not_le, centre, point_le_div_iff hn.unit_pos, not_le, Nat.mul_assoc]
    exact Nat.lt_mul_of_div_lt (Nat.lt_succ_self _) hpos

theorem candidate?_eq (n : Neighbourhood) (k : Int) :
    n.candidate? k =
      match n.holds (n.below k) k && n.below k != 0, n.holds (n.below k + 1) k with
      | true, true =>
        if 2 * n.value * (tenPower k).2 < (2 * n.below k + 1) * (tenPower k).1 * n.unit then
          some (n.below k)
        else if (2 * n.below k + 1) * (tenPower k).1 * n.unit < 2 * n.value * (tenPower k).2 then
          some (n.below k + 1)
        else some (if n.below k % 2 == 0 then n.below k else n.below k + 1)
      | true, false => some (n.below k)
      | false, true => some (n.below k + 1)
      | false, false => none := rfl

/-- A candidate is a point of the grid next to the double, in the interval. -/
theorem of_candidate? (h : n.candidate? k = some c) :
    c ≠ 0 ∧ n.holds c k = true ∧ (c = n.below k ∨ c = n.below k + 1) := by
  rw [candidate?_eq] at h
  split at h
  · rename_i hbelow habove
    rw [Bool.and_eq_true, bne_iff_ne] at hbelow
    have hcases : c = n.below k ∨ c = n.below k + 1 := by
      split at h
      · exact .inl (Option.some.inj h).symm
      split at h
      · exact .inr (Option.some.inj h).symm
      split at h
      · exact .inl (Option.some.inj h).symm
      · exact .inr (Option.some.inj h).symm
    rcases hcases with rfl | rfl
    · exact ⟨hbelow.2, hbelow.1, .inl rfl⟩
    · exact ⟨Nat.succ_ne_zero _, habove, .inr rfl⟩
  · rename_i hbelow _
    rw [Bool.and_eq_true, bne_iff_ne] at hbelow
    obtain rfl := Option.some.inj h
    exact ⟨hbelow.2, hbelow.1, .inl rfl⟩
  · rename_i _ habove
    obtain rfl := Option.some.inj h
    exact ⟨Nat.succ_ne_zero _, habove, .inr rfl⟩
  · cases h

theorem candidate?_eq_none_iff : n.candidate? k = none ↔
    (n.holds (n.below k) k && n.below k != 0) = false ∧ n.holds (n.below k + 1) k = false := by
  rw [candidate?_eq]
  cases n.holds (n.below k) k && n.below k != 0 <;> cases n.holds (n.below k + 1) k
  · simp
  · simp
  · simp
  · refine iff_of_false ?_ (by simp)
    dsimp only
    split
    · simp
    split <;> simp

/-- **There is a candidate** if any point of the grid lies in the interval. -/
theorem candidate?_ne_none (hn : n.IsProper) {j : Nat} (hj : j ≠ 0)
    (h : n.Contains (j * 10 ^ k)) : n.candidate? k ≠ none := by
  obtain ⟨hbelow, habove⟩ := below_spec hn k
  have hmono : ∀ {a b : Nat}, a ≤ b → (a : ℚ) * 10 ^ k ≤ b * 10 ^ k := by
    intro a b hab
    have : (a : ℚ) ≤ b := by exact_mod_cast hab
    exact mul_le_mul_of_nonneg_right this (ten_zpow_pos k).le
  intro hnone
  obtain ⟨hnot, hnot'⟩ := candidate?_eq_none_iff.1 hnone
  rcases Nat.lt_or_ge (n.below k) j with hlt | hge
  · -- The double lies between the next point and this one.
    have hholds : n.holds (n.below k + 1) k = true :=
      (holds_iff hn).2 (contains_of_between hn.contains_centre h habove.le (hmono hlt))
    rw [hholds] at hnot'
    cases hnot'
  · have hholds : n.holds (n.below k) k = true :=
      (holds_iff hn).2 (contains_of_between h hn.contains_centre (hmono hge) hbelow)
    have hne : (n.below k != 0) = true := by
      rw [bne_iff_ne]
      omega
    rw [hholds, hne] at hnot
    cases hnot

/-! ## The interval of a double -/

section Double

variable {x : Binary64}

/-- The numerator and denominator of a power of two. -/
theorem twoPower_eq (e : Int) :
    (((if 0 ≤ e then Nat.pow 2 e.toNat else 1 : Nat) : ℚ) /
      (if 0 ≤ e then 1 else Nat.pow 2 (-e).toNat : Nat)) = 2 ^ e := by
  split
  · rename_i he
    obtain ⟨n, rfl⟩ := Int.eq_ofNat_of_zero_le he
    simp
  · rename_i he
    obtain ⟨n, hn⟩ := Int.eq_ofNat_of_zero_le (a := -e) (by omega)
    obtain rfl : e = -(n : Int) := by omega
    simp

/-- A quarter of the numbers that an interval is made of, times the power of two. -/
theorem quarter_eq (a : Nat) (e : Int) :
    ((a * (if 0 ≤ e then Nat.pow 2 e.toNat else 1) : Nat) : ℚ) /
      (4 * (if 0 ≤ e then 1 else Nat.pow 2 (-e).toNat) : Nat) = a / 4 * 2 ^ e := by
  rw [← twoPower_eq]
  push_cast
  ring

theorem centre_of (x : Binary64) : (of x).centre = x.magnitude := by
  refine (quarter_eq (4 * x.mantissa) x.exponent).trans ?_
  rw [Binary64.magnitude]
  push_cast
  ring

theorem upper_of (x : Binary64) : (of x).upper = (x.mantissa + 1 / 2) * 2 ^ x.exponent := by
  refine (quarter_eq (4 * x.mantissa + 2) x.exponent).trans ?_
  push_cast
  ring

/-- Below a power of two the doubles lie twice as close. -/
theorem lower_of (hne : x.mantissa ≠ 0) :
    (of x).lower = (if x.mantissa = 2 ^ 52 ∧ -1074 < x.exponent then (x.mantissa : ℚ) - 1 / 4
      else x.mantissa - 1 / 2) * 2 ^ x.exponent := by
  refine (quarter_eq (if x.mantissa == Nat.pow 2 52 && -1074 < x.exponent then 4 * x.mantissa - 1
    else 4 * x.mantissa - 2) x.exponent).trans ?_
  have hcast : ∀ a : Nat, a ≤ 4 → ((4 * x.mantissa - a : Nat) : ℚ) = 4 * x.mantissa - a := by
    intro a ha
    rw [Nat.cast_sub (by omega)]
    push_cast
    ring
  by_cases hpower : x.mantissa = 2 ^ 52 ∧ -1074 < x.exponent
  · rw [if_pos hpower, if_pos (by simpa using hpower), hcast 1 (by omega)]
    push_cast
    ring
  · rw [if_neg hpower, if_neg (by simpa using hpower), hcast 2 (by omega)]
    push_cast
    ring

theorem isProper_of (hne : x.mantissa ≠ 0) : (of x).IsProper := by
  have hpow : (0 : ℚ) < 2 ^ x.exponent := zpow_pos two_pos _
  have hm : (1 : ℚ) ≤ x.mantissa := by exact_mod_cast Nat.one_le_iff_ne_zero.2 hne
  refine ⟨?_, ?_, ?_, ?_⟩
  · unfold of
    dsimp only
    split <;> simp
  · rw [centre_of]
    exact mul_pos (by linarith) hpow
  · rw [centre_of, lower_of hne, Binary64.magnitude]
    refine mul_lt_mul_of_pos_right ?_ hpow
    split <;> linarith
  · rw [centre_of, upper_of, Binary64.magnitude]
    exact mul_lt_mul_of_pos_right (by linarith) hpow

/-- **The interval is wide** enough for decimals of seventeen digits. -/
theorem width_of (hx : x.IsNormal) (hne : x.mantissa ≠ 0) :
    (of x).centre < 10 ^ 16 * ((of x).upper - (of x).lower) := by
  have hpow : (0 : ℚ) < 2 ^ x.exponent := zpow_pos two_pos _
  have hlt : (x.mantissa : ℚ) < 2 ^ 53 := by exact_mod_cast hx.mantissa_lt
  rw [centre_of, upper_of, lower_of hne, Binary64.magnitude, ← sub_mul, ← mul_assoc]
  refine mul_lt_mul_of_pos_right ?_ hpow
  split
  · rename_i hpower
    rw [hpower.1]
    norm_num
  · norm_num at hlt ⊢
    linarith

end Double

end Neighbourhood

/-! ## The place of the point -/

theorem reachesTenPower_iff {num den : Nat} (hden : 0 < den) (k : Int) :
    reachesTenPower num den k = true ↔ (10 : ℚ) ^ k ≤ num / den := by
  have hden' : (0 : ℚ) < den := by exact_mod_cast hden
  have hdown : (0 : ℚ) < (tenPower k).2 := by exact_mod_cast (tenPower_pos k).2
  rw [← tenPower_eq, div_le_div_iff₀ hdown hden', reachesTenPower, decide_eq_true_eq]
  exact_mod_cast Iff.rfl

/-- Looking for the place of the point goes up from a place that is not too high. -/
theorem pointAbove_spec {num den : Nat} (hden : 0 < den) (fuel : Nat) : ∀ {k : Int},
    (10 : ℚ) ^ (k - 1) ≤ num / den → (num : ℚ) / den < 10 ^ (k + fuel) →
    (10 : ℚ) ^ (pointAbove num den k fuel - 1) ≤ num / den ∧
      (num : ℚ) / den < 10 ^ pointAbove num den k fuel := by
  induction fuel with
  | zero =>
    intro k hlow hhigh
    rw [Nat.cast_zero, add_zero] at hhigh
    exact ⟨hlow, hhigh⟩
  | succ fuel ih =>
    intro k hlow hhigh
    rw [pointAbove]
    split
    · rename_i hreaches
      rw [reachesTenPower_iff hden] at hreaches
      refine ih (by rwa [add_sub_cancel_right]) ?_
      rwa [add_assoc, add_comm 1, ← Nat.cast_succ]
    · rename_i hreaches
      rw [reachesTenPower_iff hden, not_le] at hreaches
      exact ⟨hlow, hreaches⟩

/-- Whether the estimate of the place of the point from a power of two is good enough. -/
def estimates (b : Int) : Bool :=
  let num := fun e : Int => if 0 ≤ e then Nat.pow 2 e.toNat else 1
  let den := fun e : Int => if 0 ≤ e then 1 else Nat.pow 2 (-e).toNat
  reachesTenPower (num b) (den b) (b * 30103 / 100000 - 2) &&
    !reachesTenPower (num (b + 2)) (den (b + 2)) (b * 30103 / 100000 + 7)

/-- It is for all powers of two that doubles reach. -/
theorem estimates_all : ∀ i : Fin 2100, estimates ((i : Int) - 1075) = true := by
  decide +kernel

theorem of_estimates {b : Int} (h : estimates b = true) :
    (10 : ℚ) ^ (b * 30103 / 100000 - 2) ≤ 2 ^ b ∧
      (2 : ℚ) ^ (b + 2) < 10 ^ (b * 30103 / 100000 + 7) := by
  have hden : ∀ e : Int, 0 < (if 0 ≤ e then 1 else Nat.pow 2 (-e).toNat) := by
    intro e
    split <;> simp
  unfold estimates at h
  dsimp only at h
  rw [Bool.and_eq_true, Bool.not_eq_true', Bool.eq_false_iff, ne_eq,
    reachesTenPower_iff (hden b), reachesTenPower_iff (hden (b + 2)), not_le,
    Neighbourhood.twoPower_eq, Neighbourhood.twoPower_eq] at h
  exact h

/-- **The place of the point** is the least one with the number below that power of ten. -/
theorem pointOf_spec {num den : Nat} (hnum : 0 < num) (hden : 0 < den)
    (hlow : (2 : ℚ) ^ (-1074 : Int) ≤ num / den) (hhigh : (num : ℚ) / den < 2 ^ (1024 : Int)) :
    (10 : ℚ) ^ (pointOf num den - 1) ≤ num / den ∧ (num : ℚ) / den < 10 ^ pointOf num den := by
  obtain ⟨habove, hbelow⟩ := Binary64.log2_bounds hnum hden
  generalize hbits : (num.log2 : Int) - den.log2 = bits at *
  have hmin : -1075 < bits := by
    have := (zpow_lt_zpow_iff_right₀ (by norm_num : (1 : ℚ) < 2)).1 (hlow.trans_lt hbelow)
    omega
  have hmax : bits ≤ 1024 := by
    have := (zpow_lt_zpow_iff_right₀ (by norm_num : (1 : ℚ) < 2)).1 (habove.trans hhigh)
    omega
  have hestimates : estimates (bits - 1) = true := by
    have := estimates_all ⟨(bits + 1074).toNat, by omega⟩
    rwa [show (((bits + 1074).toNat : Nat) : Int) - 1075 = bits - 1 by omega] at this
  obtain ⟨hten, hten'⟩ := of_estimates hestimates
  unfold pointOf
  dsimp only
  rw [hbits]
  refine pointAbove_spec hden 8 ?_ ?_
  · rw [sub_sub]
    exact hten.trans habove.le
  · refine (hbelow.trans_eq ?_).trans (hten'.trans_eq ?_) <;> congr 1
    · ring
    · push_cast
      ring

/-! ## Digits -/

/-- The number that a decimal is. -/
def Decimal.value (d : Decimal) : ℚ := d.digits * 10 ^ (d.point - (digitsOf d.digits).length)

/-- A number has as many digits as the power of ten above it says. -/
theorem length_digitsOf {n : Nat} {l : Int} (hn : 0 < n) (hlow : (10 : ℚ) ^ (l - 1) ≤ n)
    (hhigh : (n : ℚ) < 10 ^ l) : ((digitsOf n).length : Int) = l := by
  obtain ⟨hlow', hhigh'⟩ := Binary64.length_toDigits_bounds hn
  have hten : (1 : ℚ) < 10 := by norm_num
  have h₁ := (zpow_lt_zpow_iff_right₀ hten).1 (hlow.trans_lt hhigh')
  have h₂ := (zpow_lt_zpow_iff_right₀ hten).1 (hlow'.trans_lt hhigh)
  unfold digitsOf
  omega

/-- Dropping the zeros at the end divides by a power of ten. -/
theorem dropZeros_spec {n : Nat} (hn : n ≠ 0) (fuel : Nat) :
    dropZeros n fuel ≠ 0 ∧ ∃ j, n = dropZeros n fuel * 10 ^ j := by
  induction fuel generalizing n with
  | zero => exact ⟨hn, 0, by rw [dropZeros, pow_zero, mul_one]⟩
  | succ fuel ih =>
    rw [dropZeros]
    split
    · rename_i hzero
      rw [Bool.and_eq_true, bne_iff_ne, beq_iff_eq] at hzero
      have hten : n = n / 10 * 10 := by omega
      obtain ⟨hne, j, hj⟩ := ih (n := n / 10) (by omega)
      refine ⟨hne, j + 1, ?_⟩
      rw [pow_succ, ← mul_assoc, ← hj]
      exact hten
    · exact ⟨hn, 0, by rw [pow_zero, mul_one]⟩

/-- A decimal of a number of digits is not changed by dropping zeros. -/
theorem value_dropZeros {c k : Nat} (point : Int) (hc : c ≠ 0)
    (hlow : (10 : ℚ) ^ ((k : Int) - 1) ≤ c) (hhigh : (c : ℚ) < 10 ^ (k : Int)) (fuel : Nat) :
    (Decimal.mk (dropZeros c fuel) point).value = c * 10 ^ (point - k) := by
  obtain ⟨hne, j, hj⟩ := dropZeros_spec hc fuel
  generalize dropZeros c fuel = d at *
  have hlength : ((digitsOf d).length : Int) = k - j := by
    have hten := ten_zpow_pos j
    have hcast : (c : ℚ) = d * 10 ^ (j : Int) := by
      rw [zpow_natCast]
      exact_mod_cast hj
    refine length_digitsOf (Nat.pos_of_ne_zero hne) ?_ ?_
    · rw [← mul_le_mul_iff_left₀ hten, ← hcast, ← zpow_add₀ (by norm_num)]
      rwa [show (k : Int) - j - 1 + j = k - 1 by ring]
    · rw [← mul_lt_mul_iff_left₀ hten, ← hcast, ← zpow_add₀ (by norm_num)]
      rwa [show (k : Int) - j + j = k by ring]
  rw [Decimal.value, hlength, hj]
  push_cast
  rw [mul_assoc, ← zpow_natCast, ← zpow_add₀ (by norm_num)]
  congr 2
  ring

/-! ## The search -/

/-- The decimal of a candidate with a number of digits. -/
def shown (point : Int) (k c : Nat) : Decimal :=
  if c == Nat.pow 10 k then ⟨1, point + 1⟩ else ⟨dropZeros c k, point⟩

/-- A search that comes to a candidate ends with the first one. -/
theorem search_spec (n : Neighbourhood) (point : Int) (fuel : Nat) : ∀ (count last : Nat),
    count ≤ last → last < count + fuel → n.candidate? (point - last) ≠ none →
    ∃ k c, count ≤ k ∧ k ≤ last ∧ n.candidate? (point - k) = some c ∧
      (∀ j, count ≤ j → j < k → n.candidate? (point - j) = none) ∧
      n.search point count fuel = shown point k c := by
  induction fuel with
  | zero =>
    intro count last hle hlt
    omega
  | succ fuel ih =>
    intro count last hle hlt hlast
    rw [Neighbourhood.search]
    cases hc : n.candidate? (point - count) with
    | some c => exact ⟨count, c, le_refl _, hle, hc, fun j hj hj' => by omega, rfl⟩
    | none =>
      have hne : count ≠ last := by
        rintro rfl
        exact hlast hc
      obtain ⟨k, c, hk, hk', hcandidate, hbefore, hsearch⟩ :=
        ih (count + 1) last (by omega) (by omega) hlast
      refine ⟨k, c, by omega, hk', hcandidate, fun j hj hj' => ?_, hsearch⟩
      rcases Nat.eq_or_lt_of_le hj with rfl | hj
      · exact hc
      · exact hbefore j hj hj'

section Shortest

variable {x : Binary64}

theorem magnitude_bounds (hx : x.IsNormal) (hne : x.mantissa ≠ 0) :
    (2 : ℚ) ^ (-1074 : Int) ≤ x.magnitude ∧ x.magnitude < 2 ^ (1024 : Int) := by
  have hpow : ∀ k : Int, (0 : ℚ) < 2 ^ k := fun k => zpow_pos two_pos k
  have hm : (1 : ℚ) ≤ x.mantissa := by exact_mod_cast Nat.one_le_iff_ne_zero.2 hne
  have hlt : (x.mantissa : ℚ) < 2 ^ (53 : Int) := by
    rw [zpow_ofNat]
    exact_mod_cast hx.mantissa_lt
  have htwo : (1 : ℚ) ≤ 2 := by norm_num
  unfold Binary64.magnitude
  constructor
  · calc (2 : ℚ) ^ (-1074 : Int) ≤ 2 ^ x.exponent := zpow_le_zpow_right₀ htwo hx.exponent_ge
      _ ≤ x.mantissa * 2 ^ x.exponent := le_mul_of_one_le_left (hpow _).le hm
  · calc (x.mantissa : ℚ) * 2 ^ x.exponent < 2 ^ (53 : Int) * 2 ^ x.exponent :=
          mul_lt_mul_of_pos_right hlt (hpow _)
      _ = 2 ^ (53 + x.exponent) := (zpow_add₀ two_ne_zero _ _).symm
      _ ≤ 2 ^ (1024 : Int) := zpow_le_zpow_right₀ htwo (by have := hx.exponent_le; omega)

/-- The place of the point of a double. -/
def pointOfDouble (x : Binary64) : Int :=
  pointOf (Neighbourhood.of x).value (Neighbourhood.of x).unit

theorem pointOfDouble_spec (hx : x.IsNormal) (hne : x.mantissa ≠ 0) :
    (10 : ℚ) ^ (pointOfDouble x - 1) ≤ x.magnitude ∧ x.magnitude < 10 ^ pointOfDouble x := by
  have hn := Neighbourhood.isProper_of hne
  obtain ⟨hlow, hhigh⟩ := magnitude_bounds hx hne
  have hvalue : 0 < (Neighbourhood.of x).value := by
    by_contra h
    have hzero : (Neighbourhood.of x).value = 0 := by omega
    have := hn.centre_pos
    rw [Neighbourhood.centre, hzero, Nat.cast_zero, zero_div] at this
    exact lt_irrefl _ this
  rw [← Neighbourhood.centre_of] at hlow hhigh ⊢
  exact pointOf_spec hvalue hn.unit_pos hlow hhigh

/-- The points of a grid next to the double have as many digits as the grid says. -/
theorem below_bounds (hx : x.IsNormal) (hne : x.mantissa ≠ 0) {k : Nat} (hk : 0 < k) :
    10 ^ (k - 1) ≤ (Neighbourhood.of x).below (pointOfDouble x - k) ∧
      (Neighbourhood.of x).below (pointOfDouble x - k) < 10 ^ k := by
  obtain ⟨hlow, hhigh⟩ := pointOfDouble_spec hx hne
  obtain ⟨hbelow, habove⟩ :=
    Neighbourhood.below_spec (Neighbourhood.isProper_of hne) (pointOfDouble x - k)
  rw [Neighbourhood.centre_of] at hbelow habove
  have hten := ten_zpow_pos (pointOfDouble x - k)
  generalize (Neighbourhood.of x).below (pointOfDouble x - k) = b at *
  have hshift : ∀ a : Nat, (10 : ℚ) ^ a * 10 ^ (pointOfDouble x - k) =
      10 ^ (pointOfDouble x - k + a) := by
    intro a
    rw [zpow_add₀ (by norm_num), mul_comm, zpow_natCast]
  constructor
  · have h : ((10 ^ (k - 1) : Nat) : ℚ) * 10 ^ (pointOfDouble x - k) <
        (b + 1 : Nat) * 10 ^ (pointOfDouble x - k) := by
      refine lt_of_eq_of_lt ?_ (hlow.trans_lt habove)
      rw [Nat.cast_pow, Nat.cast_ofNat, hshift]
      congr 1
      omega
    have hlt := lt_of_mul_lt_mul_right h hten.le
    have : 10 ^ (k - 1) < b + 1 := by exact_mod_cast hlt
    omega
  · have h : (b : ℚ) * 10 ^ (pointOfDouble x - k) <
        ((10 ^ k : Nat) : ℚ) * 10 ^ (pointOfDouble x - k) := by
      refine lt_of_lt_of_eq (hbelow.trans_lt hhigh) ?_
      rw [Nat.cast_pow, Nat.cast_ofNat, hshift]
      congr 1
      omega
    have hlt := lt_of_mul_lt_mul_right h hten.le
    exact_mod_cast hlt

/-- **Seventeen digits are enough**: some decimal with so many lies in the interval. -/
theorem exists_candidate (hx : x.IsNormal) (hne : x.mantissa ≠ 0) :
    (Neighbourhood.of x).candidate? (pointOfDouble x - (17 : Nat)) ≠ none := by
  have hn := Neighbourhood.isProper_of hne
  have hwidth := Neighbourhood.width_of hx hne
  have hcount := (below_bounds hx hne (k := 17) (by decide)).1
  have hlow := (pointOfDouble_spec hx hne).1
  obtain ⟨hbelow, habove⟩ := Neighbourhood.below_spec hn (pointOfDouble x - (17 : Nat))
  have hgrid : (10 : ℚ) ^ (pointOfDouble x - 1) =
      10 ^ 16 * 10 ^ (pointOfDouble x - (17 : Nat)) := by
    rw [← zpow_natCast, ← zpow_add₀ (by norm_num)]
    congr 1
    push_cast
    ring
  rw [← Neighbourhood.centre_of, hgrid] at hlow
  have hstep : (10 : ℚ) ^ (pointOfDouble x - (17 : Nat)) <
      (Neighbourhood.of x).upper - (Neighbourhood.of x).lower :=
    lt_of_mul_lt_mul_left (hlow.trans_lt hwidth) (by norm_num)
  by_cases hin : (((Neighbourhood.of x).below (pointOfDouble x - (17 : Nat)) + 1 : Nat) : ℚ) *
      10 ^ (pointOfDouble x - (17 : Nat)) < (Neighbourhood.of x).upper
  · exact Neighbourhood.candidate?_ne_none hn (Nat.succ_ne_zero _)
      (Neighbourhood.contains_of_lt (hn.lower_lt.trans habove) hin)
  · -- The next point is beyond the interval, so this one is not.
    refine Neighbourhood.candidate?_ne_none hn (j := (Neighbourhood.of x).below _) (by omega)
      (Neighbourhood.contains_of_lt ?_ (hbelow.trans_lt hn.lt_upper))
    rw [Nat.cast_succ, add_mul, one_mul] at hin
    linarith

/-- **The shortest decimal** is that of a candidate with at most seventeen digits, and there is no
candidate with fewer. -/
theorem shortest_spec (hx : x.IsNormal) (hne : x.mantissa ≠ 0) :
    x.shortest.digits ≠ 0 ∧ ∃ k c : Nat, 0 < k ∧ k ≤ 17 ∧
      (Neighbourhood.of x).candidate? (pointOfDouble x - k) = some c ∧
      x.shortest.value = c * 10 ^ (pointOfDouble x - k) ∧
      ∀ j : Nat, 0 < j → j < k →
        (Neighbourhood.of x).candidate? (pointOfDouble x - j) = none := by
  obtain ⟨k, c, hk, hk', hcandidate, hbefore, hsearch⟩ :=
    search_spec (Neighbourhood.of x) (pointOfDouble x) 17 1 17 (by decide) (by decide)
      (exists_candidate hx hne)
  have hshortest : x.shortest = shown (pointOfDouble x) k c := hsearch
  obtain ⟨hc, -, hnext⟩ := Neighbourhood.of_candidate? hcandidate
  obtain ⟨hlow, hhigh⟩ := below_bounds hx hne hk
  have hmore : 10 ^ (k - 1) ≤ c ∧ c ≤ 10 ^ k := by
    rcases hnext with rfl | rfl <;> constructor <;> omega
  rw [hshortest]
  suffices hshown : (shown (pointOfDouble x) k c).digits ≠ 0 ∧
      (shown (pointOfDouble x) k c).value = c * 10 ^ (pointOfDouble x - k) from
    ⟨hshown.1, k, c, hk, hk', hcandidate, hshown.2, fun j hj => hbefore j hj⟩
  unfold shown
  split
  · rename_i hpower
    refine ⟨one_ne_zero, ?_⟩
    have hone : (digitsOf 1).length = 1 := by decide
    rw [Decimal.value, hone, beq_iff_eq.1 hpower, Nat.pow_eq]
    push_cast
    rw [← zpow_natCast, ← zpow_add₀ (by norm_num), one_mul]
    congr 1
    ring
  · rename_i hpower
    have hlt : c < 10 ^ k :=
      lt_of_le_of_ne hmore.2 fun h => hpower (beq_iff_eq.2 h)
    refine ⟨(dropZeros_spec hc k).1, value_dropZeros _ hc ?_ ?_ k⟩
    · rw [show (k : Int) - 1 = (k - 1 : Nat) by omega, zpow_natCast]
      exact_mod_cast hmore.1
    · rw [zpow_natCast]
      exact_mod_cast hlt

/-- **What is written reads back**: the shortest decimal of a double is one of the numbers that
round to it. -/
theorem contains_shortest (hx : x.IsNormal) (hne : x.mantissa ≠ 0) :
    (Neighbourhood.of x).Contains x.shortest.value := by
  obtain ⟨-, k, c, -, -, hcandidate, hvalue, -⟩ := shortest_spec hx hne
  rw [hvalue]
  exact (Neighbourhood.holds_iff (Neighbourhood.isProper_of hne)).1
    (Neighbourhood.of_candidate? hcandidate).2.1

end Shortest

end ResourceCli.Number
