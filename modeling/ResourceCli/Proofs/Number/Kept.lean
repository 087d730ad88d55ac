import ResourceCli.Proofs.Number.Shortest

/-!
# Decimals that doubles keep

A decimal of at most fifteen digits comes back when the double nearest to it is written: it lies in
the interval of the double (`contains_of_ofRatio`), no other decimal of so few digits does
(`IsShort.unique`), and so the shortest decimal in the interval can only be this one
(`shortest_value_eq`).
-/

namespace ResourceCli.Number

/-! ## The interval around a ratio that is rounded -/

theorem Neighbourhood.closed_of (x : Binary64) :
    (Neighbourhood.of x).closed = (x.mantissa % 2 == 0) := rfl

namespace Binary64

section Ratio

variable {num den : Nat} {negative : Bool} {x : Binary64}

/-- An odd number is rounded to only from less than half a unit away. -/
theorem roundEven_spec_of_odd (num : Nat) (hden : 0 < den) (hodd : roundEven num den % 2 = 1) :
    (roundEven num den : ℚ) - 1 / 2 < num / den ∧ (num : ℚ) / den < roundEven num den + 1 / 2 := by
  have hpos : (0 : ℚ) < den := by exact_mod_cast hden
  have hlow : (0 : ℚ) ≤ (num % den : Nat) / den := by positivity
  have hhigh : ((num % den : Nat) : ℚ) / den < 1 := by
    rw [div_lt_one hpos]
    exact_mod_cast Nat.mod_lt num hden
  rw [ratio_eq hden]
  unfold roundEven at hodd ⊢
  dsimp only at hodd ⊢
  split
  · rename_i h
    have hdown : ((num % den : Nat) : ℚ) / den < 1 / 2 := by
      rw [div_lt_iff₀ hpos]
      have : (2 : ℚ) * (num % den : Nat) < den := by exact_mod_cast h
      linarith
    constructor <;> linarith
  split
  · rename_i h
    have hup : (1 : ℚ) / 2 < ((num % den : Nat) : ℚ) / den := by
      rw [lt_div_iff₀ hpos]
      have : (den : ℚ) < 2 * (num % den : Nat) := by exact_mod_cast h
      linarith
    push_cast
    constructor <;> linarith
  · -- Half-way between two numbers the even one is taken.
    rename_i h h'
    rw [if_neg h, if_neg h'] at hodd
    split at hodd
    · rename_i heven
      rw [beq_iff_eq] at heven
      omega
    · rename_i heven
      rw [beq_iff_eq] at heven
      omega

theorem units_spec_of_odd (num : Nat) (hden : 0 < den) (hodd : units num den % 2 = 1) :
    (units num den : ℚ) - 1 / 2 < num / den / 2 ^ exponentFor num den ∧
      (num : ℚ) / den / 2 ^ exponentFor num den < units num den + 1 / 2 := by
  rw [← scaled_eq]
  exact roundEven_spec_of_odd _ (scaled_pos num hden _) hodd

/-- A ratio is rounded to a whole number of units, or to the next power of two. -/
theorem eq_of_ofRatio (hnum : 0 < num) (hden : 0 < den) (h : ofRatio negative num den = some x) :
    units num den = 2 ^ 53 ∧ x = ⟨negative, 2 ^ 52, exponentFor num den + 1⟩ ∨
      x = ⟨negative, units num den, exponentFor num den⟩ := by
  rw [ofRatio_eq hnum hden] at h
  split at h
  · cases h
  rw [← Option.some.inj h, rounded_eq]
  split
  · rename_i hm
    exact .inl ⟨beq_iff_eq.1 hm, rfl⟩
  · exact .inr rfl

/-- **A ratio lies in the interval of the double that it is rounded to.** -/
theorem contains_of_ofRatio (hnum : 0 < num) (hden : 0 < den)
    (h : ofRatio negative num den = some x) (hne : x.mantissa ≠ 0) :
    (Neighbourhood.of x).Contains (num / den) := by
  have hpow : ∀ k : Int, (0 : ℚ) < 2 ^ k := fun k => zpow_pos two_pos k
  obtain ⟨hmin, hlt, hbits⟩ := exponentFor_spec hnum hden
  have hround := units_spec num hden
  have hodd := units_spec_of_odd num hden
  have hvalue : (num : ℚ) / den =
      num / den / 2 ^ exponentFor num den * 2 ^ exponentFor num den :=
    (div_mul_cancel₀ _ (hpow _).ne').symm
  have hcases := eq_of_ofRatio hnum hden h
  generalize units num den = m at *
  generalize exponentFor num den = e at *
  generalize (num : ℚ) / den / 2 ^ e = s at *
  rw [hvalue]
  rcases hcases with ⟨rfl, rfl⟩ | rfl
  · -- The next power of two is even, and just below it the doubles lie twice as close.
    have hclosed : (Neighbourhood.of ⟨negative, 2 ^ 52, e + 1⟩).closed = true := by
      rw [Neighbourhood.closed_of, beq_iff_eq]
      norm_num
    rw [Neighbourhood.Contains, if_pos hclosed, Neighbourhood.lower_of hne,
      Neighbourhood.upper_of, if_pos ⟨rfl, by dsimp only; omega⟩, zpow_add_one₀ two_ne_zero]
    have hscale : ∀ a : ℚ, a * (2 ^ e * 2) = a * 2 * 2 ^ e := fun a => by ring
    rw [hscale, hscale, mul_le_mul_iff_left₀ (hpow e), mul_le_mul_iff_left₀ (hpow e)]
    norm_num at hround hlt ⊢
    constructor <;> linarith
  · have hlow : (if m = 2 ^ 52 ∧ -1074 < e then (m : ℚ) - 1 / 4 else m - 1 / 2) ≤ s ∧
        (m % 2 = 1 → (if m = 2 ^ 52 ∧ -1074 < e then (m : ℚ) - 1 / 4 else m - 1 / 2) < s) := by
      split
      · rename_i hpower
        have hs : (m : ℚ) ≤ s := by
          rw [hpower.1]
          exact_mod_cast hbits.resolve_left (by omega)
        constructor
        · linarith
        · intro _
          linarith
      · exact ⟨hround.1, fun h => (hodd h).1⟩
    rw [Neighbourhood.Contains, Neighbourhood.lower_of hne, Neighbourhood.upper_of,
      mul_le_mul_iff_left₀ (hpow e), mul_le_mul_iff_left₀ (hpow e),
      mul_lt_mul_iff_left₀ (hpow e), mul_lt_mul_iff_left₀ (hpow e)]
    split
    · exact ⟨hlow.1, hround.2⟩
    · rename_i hclosed
      have hm : m % 2 = 1 := by
        rw [Neighbourhood.closed_of, beq_iff_eq] at hclosed
        dsimp only at hclosed
        omega
      exact ⟨hlow.2 hm, (hodd hm).2⟩

/-- A ratio that is not very small is rounded to a double of fifty-three bits. -/
theorem le_mantissa_of_ofRatio (hnum : 0 < num) (hden : 0 < den)
    (h : ofRatio negative num den = some x) (hlow : (2 : ℚ) ^ (-1022 : Int) ≤ num / den) :
    2 ^ 52 ≤ x.mantissa := by
  obtain ⟨-, -, hbits⟩ := exponentFor_spec hnum hden
  have hs : 2 ^ 52 ≤ (num : ℚ) / den / 2 ^ exponentFor num den := by
    refine hbits.elim (fun he => ?_) id
    rw [he, le_div_iff₀ (zpow_pos two_pos _)]
    refine le_trans (le_of_eq ?_) hlow
    rw [← zpow_natCast, ← zpow_add₀ two_ne_zero]
    norm_num
  rcases eq_of_ofRatio hnum hden h with ⟨-, rfl⟩ | rfl
  · exact le_refl _
  · exact le_units hden hs

end Ratio

theorem ratio_pos (x : Binary64) : 0 < x.ratio.2 := by
  unfold ratio
  split <;> simp

theorem ratio_eq_magnitude (x : Binary64) : (x.ratio.1 : ℚ) / x.ratio.2 = x.magnitude := by
  unfold ratio magnitude
  split
  · rename_i he
    obtain ⟨n, hn⟩ := Int.eq_ofNat_of_zero_le he
    rw [hn]
    simp
  · rename_i he
    obtain ⟨n, hn⟩ := Int.eq_ofNat_of_zero_le (a := -x.exponent) (by omega)
    have he' : x.exponent = -(n : Int) := by omega
    rw [hn, he']
    simp [div_eq_mul_inv]

/-- A whole number of fifty-three bits has no exponent that anything would be lost at. -/
theorem exponentFor_one_le {n : Nat} (hpos : 0 < n) (hn : n < 2 ^ 53) : exponentFor n 1 ≤ 0 := by
  obtain ⟨-, -, hbits⟩ := exponentFor_spec hpos Nat.one_pos
  by_contra he
  have hge := hbits.resolve_left (by omega)
  rw [le_div_iff₀ (zpow_pos two_pos _), Nat.cast_one, div_one] at hge
  have hbig : (2 : ℚ) ^ (53 : Int) ≤ 2 ^ 52 * 2 ^ exponentFor n 1 := by
    rw [← zpow_natCast, ← zpow_add₀ two_ne_zero]
    exact zpow_le_zpow_right₀ (by norm_num) (by push_cast; omega)
  have hn' : (n : ℚ) < 2 ^ (53 : Int) := by
    rw [zpow_ofNat]
    exact_mod_cast hn
  linarith

/-- So it is a whole number of units. -/
theorem units_one_mul {n : Nat} (hpos : 0 < n) (hn : n < 2 ^ 53) :
    (units n 1 : ℚ) * 2 ^ exponentFor n 1 = n := by
  obtain ⟨k, hk⟩ := Int.eq_ofNat_of_zero_le (a := -exponentFor n 1)
    (by have := exponentFor_one_le hpos hn; omega)
  have hk' : exponentFor n 1 = -(k : Int) := by omega
  have hexact : (n : ℚ) / (1 : Nat) / 2 ^ exponentFor n 1 = ((n * 2 ^ k : Nat) : ℚ) := by
    rw [hk', Nat.cast_one, div_one, zpow_neg, zpow_natCast, div_inv_eq_mul]
    push_cast
    rfl
  have hunits : units n 1 = n * 2 ^ k :=
    roundEven_eq_of_eq (scaled_pos n Nat.one_pos _) ((scaled_eq n 1 _).trans hexact)
  rw [hunits, ← hexact, div_mul_cancel₀ _ (zpow_pos two_pos _).ne', Nat.cast_one, div_one]

/-- **Whole numbers of fifty-three bits** are doubles. -/
theorem magnitude_ofNat {n : Nat} (hn : n < 2 ^ 53) :
    (ofNat n).magnitude = n ∧ (ofNat n).negative = false := by
  rcases Nat.eq_zero_or_pos n with rfl | hpos
  · exact ⟨by simp [ofNat, ofRatio, magnitude, zero], rfl⟩
  have hvalue := units_one_mul hpos hn
  cases hx : ofRatio false n 1 with
  | none =>
    have hlarge := (ofRatio_eq_none_iff Nat.one_pos).1 hx
    have hsmall := lt_beyond (s := n) (e := 0) (by exact_mod_cast hn) (by norm_num)
    rw [Nat.cast_one, div_one] at hlarge
    rw [zpow_zero, mul_one] at hsmall
    exact absurd hsmall (not_lt.2 hlarge)
  | some x =>
    rw [ofNat, hx, Option.getD_some]
    rcases eq_of_ofRatio hpos Nat.one_pos hx with ⟨hcarry, rfl⟩ | rfl
    · refine ⟨?_, rfl⟩
      rw [← hvalue, hcarry, magnitude, zpow_add_one₀ two_ne_zero]
      norm_num
      ring
    · exact ⟨hvalue, rfl⟩

/-- The first powers of ten are doubles. -/
theorem tenTo_exact : ∀ k : Fin 23, (tenTo k).negative = false ∧
    (tenTo k).ratio.1 = 10 ^ (k : Nat) * (tenTo k).ratio.2 := by
  decide +kernel

theorem magnitude_tenTo {k : Nat} (hk : k ≤ 22) :
    (tenTo k).magnitude = 10 ^ k ∧ (tenTo k).negative = false := by
  obtain ⟨hsign, hratio⟩ := tenTo_exact ⟨k, Nat.lt_succ_of_le hk⟩
  refine ⟨?_, hsign⟩
  have hpos : ((tenTo k).ratio.2 : ℚ) ≠ 0 := by exact_mod_cast (ratio_pos (tenTo k)).ne'
  rw [← ratio_eq_magnitude, div_eq_iff hpos]
  exact_mod_cast hratio

end Binary64

/-! ## Decimals of few digits -/

/-- A positive decimal of at most fifteen digits. -/
def IsShort (q : ℚ) : Prop := ∃ (a : Nat) (p : Int), a ≠ 0 ∧ a ≤ 10 ^ 15 ∧ q = a * 10 ^ p

/-- A decimal on the grid of a smaller power of ten. -/
theorem mul_zpow_eq {p r : Int} (hr : r ≤ p) (a : Nat) :
    (a : ℚ) * 10 ^ p = (a * 10 ^ (p - r).toNat : Nat) * 10 ^ r := by
  have hp : p = (((p - r).toNat : Nat) : Int) + r := by omega
  conv_lhs => rw [hp, zpow_add₀ (by norm_num), zpow_natCast]
  push_cast
  ring

/-- Decimals of few digits do not lie close to each other. -/
theorem IsShort.le_gap {q q' : ℚ} (h : IsShort q) (h' : IsShort q') (hlt : q < q') :
    q ≤ 10 ^ 15 * (q' - q) := by
  obtain ⟨a, p, -, hle, rfl⟩ := h
  obtain ⟨a', p', -, hle', rfl⟩ := h'
  -- Both lie on the grid of the smaller power of ten.
  have hgrid := mul_zpow_eq (min_le_left p p') a
  have hgrid' := mul_zpow_eq (min_le_right p p') a'
  have hten := ten_zpow_pos (min p p')
  have hgap : (10 : ℚ) ^ min p p' ≤ a' * 10 ^ p' - a * 10 ^ p := by
    rw [hgrid, hgrid'] at hlt ⊢
    have hstep := lt_of_mul_lt_mul_right hlt hten.le
    have hstep' : ((a * 10 ^ (p - min p p').toNat : Nat) : ℚ) + 1 ≤
        (a' * 10 ^ (p' - min p p').toNat : Nat) := by
      exact_mod_cast hstep
    have := mul_le_mul_of_nonneg_right hstep' hten.le
    linarith
  have hsmall : (a : ℚ) * 10 ^ p ≤ 10 ^ 15 * 10 ^ min p p' := by
    rcases le_total p p' with hp | hp
    · rw [min_eq_left hp] at hten ⊢
      exact mul_le_mul_of_nonneg_right (by exact_mod_cast hle) hten.le
    · rw [min_eq_right hp] at hten ⊢
      exact hlt.le.trans (mul_le_mul_of_nonneg_right (by exact_mod_cast hle') hten.le)
  linarith

section Double

variable {x : Binary64} {q q' : ℚ}

/-- **The interval is narrow** for decimals of fifteen digits. -/
theorem width_lt (hx : 2 ^ 52 ≤ x.mantissa) :
    10 ^ 15 * ((Neighbourhood.of x).upper - (Neighbourhood.of x).lower) <
      (Neighbourhood.of x).lower := by
  have hpow : (0 : ℚ) < 2 ^ x.exponent := zpow_pos two_pos _
  have hm : ((2 ^ 52 : Nat) : ℚ) ≤ x.mantissa := Nat.cast_le.2 hx
  rw [Nat.cast_pow, Nat.cast_ofNat] at hm
  rw [Neighbourhood.upper_of, Neighbourhood.lower_of (by omega), ← sub_mul, ← mul_assoc]
  refine mul_lt_mul_of_pos_right ?_ hpow
  split <;> linarith

theorem Neighbourhood.bounds_of_contains {n : Neighbourhood} (h : n.Contains q) :
    n.lower ≤ q ∧ q ≤ n.upper := by
  unfold Neighbourhood.Contains at h
  split at h
  · exact h
  · exact ⟨h.1.le, h.2.le⟩

/-- **A double has one decimal of few digits** in its interval, at most. -/
theorem IsShort.unique (hx : 2 ^ 52 ≤ x.mantissa) (h : IsShort q) (h' : IsShort q')
    (hin : (Neighbourhood.of x).Contains q) (hin' : (Neighbourhood.of x).Contains q') : q = q' := by
  have hwidth := width_lt hx
  -- Two of them would lie further apart than the ends of the interval.
  have apart : ∀ {p p' : ℚ}, IsShort p → IsShort p' → (Neighbourhood.of x).Contains p →
      (Neighbourhood.of x).Contains p' → ¬ p < p' := by
    intro p p' hp hp' hpin hpin' hlt
    have hgap := hp.le_gap hp' hlt
    have hlow := (Neighbourhood.bounds_of_contains hpin).1
    have hhigh := (Neighbourhood.bounds_of_contains hpin').2
    linarith
  exact le_antisymm (not_lt.1 (apart h' h hin' hin)) (not_lt.1 (apart h h' hin hin'))

/-- The shortest decimal is short if any point of the grid of fifteen digits is in the interval. -/
theorem isShort_shortest (hx : x.IsNormal) (hne : x.mantissa ≠ 0) {b : Nat} (hb : b ≠ 0)
    (hin : (Neighbourhood.of x).Contains (b * 10 ^ (pointOfDouble x - (15 : Nat)))) :
    IsShort x.shortest.value := by
  obtain ⟨-, k, c, hk, -, hcandidate, hvalue, hbefore⟩ := shortest_spec hx hne
  have hshort : k ≤ 15 := by
    by_contra hlong
    exact Neighbourhood.candidate?_ne_none (Neighbourhood.isProper_of hne) hb hin
      (hbefore 15 (by decide) (by omega))
  obtain ⟨hc, -, hnext⟩ := Neighbourhood.of_candidate? hcandidate
  have hbelow := (below_bounds hx hne hk).2
  have hpow : 10 ^ k ≤ 10 ^ 15 := Nat.pow_le_pow_right (by decide) hshort
  refine ⟨c, _, hc, ?_, hvalue⟩
  rcases hnext with rfl | rfl <;> omega

/-- **The shortest decimal of a double** is the decimal of few digits in its interval, if there is
one. -/
theorem shortest_value_eq (hx : x.IsNormal) (hbits : 2 ^ 52 ≤ x.mantissa) (hq : IsShort q)
    (hin : (Neighbourhood.of x).Contains q) : x.shortest.value = q := by
  have hne : x.mantissa ≠ 0 := by omega
  have hcontains := contains_shortest hx hne
  obtain ⟨a, p, ha, hle, rfl⟩ := id hq
  by_cases hp : pointOfDouble x - (15 : Nat) ≤ p
  · refine (isShort_shortest hx hne (b := a * 10 ^ (p - (pointOfDouble x - (15 : Nat))).toNat)
      (by positivity) ?_).unique hbits hq hcontains hin
    rwa [← mul_zpow_eq hp]
  · -- A decimal below the first one with fifteen digits would not be alone in the interval.
    have hpoint := (pointOfDouble_spec hx hne).1
    have hgrid : (10 : ℚ) ^ (pointOfDouble x - 1) =
        (10 ^ 14 : Nat) * 10 ^ (pointOfDouble x - (15 : Nat)) := by
      rw [Nat.cast_pow, Nat.cast_ofNat, ← zpow_natCast, ← zpow_add₀ (by norm_num)]
      congr 1
      push_cast
      ring
    have hsmall : (a : ℚ) * 10 ^ p ≤ 10 ^ (pointOfDouble x - 1) := by
      calc (a : ℚ) * 10 ^ p ≤ (10 ^ 15 : Nat) * 10 ^ p :=
            mul_le_mul_of_nonneg_right (by exact_mod_cast hle) (ten_zpow_pos p).le
        _ = 10 ^ (15 + p) := by
            rw [Nat.cast_pow, Nat.cast_ofNat, ← zpow_natCast, ← zpow_add₀ (by norm_num)]
            rfl
        _ ≤ 10 ^ (pointOfDouble x - 1) :=
          zpow_le_zpow_right₀ (by norm_num) (by push_cast at hp; omega)
    have hone : (Neighbourhood.of x).Contains (10 ^ (pointOfDouble x - 1)) := by
      refine Neighbourhood.contains_of_between hin
        (Neighbourhood.isProper_of hne).contains_centre hsmall ?_
      rwa [Neighbourhood.centre_of]
    have hshort : IsShort (10 ^ (pointOfDouble x - 1)) :=
      ⟨1, pointOfDouble x - 1, one_ne_zero, by norm_num, by simp⟩
    refine (isShort_shortest hx hne (b := 10 ^ 14) (by positivity) ?_).unique hbits hq hcontains hin
    rwa [← hgrid]

end Double

/-- **A ratio of few digits is kept**: it is rounded to a double whose shortest decimal it is. -/
theorem exists_ofRatio_of_isShort (negative : Bool) {num den : Nat} (hden : 0 < den)
    (hq : IsShort (num / den)) (hlow : (2 : ℚ) ^ (-1022 : Int) ≤ num / den)
    (hhigh : (num : ℚ) / den < 2 ^ 1024 - 2 ^ 970) :
    ∃ x, Binary64.ofRatio negative num den = some x ∧ x.negative = negative ∧ x.mantissa ≠ 0 ∧
      x.shortest.value = num / den := by
  have hnum : 0 < num := by
    rcases Nat.eq_zero_or_pos num with rfl | hpos
    · rw [Nat.cast_zero, zero_div] at hlow
      exact absurd hlow (not_le.2 (zpow_pos two_pos _))
    · exact hpos
  cases hx : Binary64.ofRatio negative num den with
  | none => exact absurd ((Binary64.ofRatio_eq_none_iff hden).1 hx) (not_le.2 hhigh)
  | some x =>
    have hbits := Binary64.le_mantissa_of_ofRatio hnum hden hx hlow
    have hne : x.mantissa ≠ 0 := by omega
    have hin := Binary64.contains_of_ofRatio hnum hden hx hne
    refine ⟨x, rfl, ?_, hne,
      shortest_value_eq (Binary64.isNormal_of_ofRatio hx) hbits hq hin⟩
    rcases Binary64.eq_of_ofRatio hnum hden hx with ⟨-, rfl⟩ | rfl <;> rfl

end ResourceCli.Number
