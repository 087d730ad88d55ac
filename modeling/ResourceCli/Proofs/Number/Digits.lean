import ResourceCli.Number.Text
import ResourceCli.Proofs.Number.Rounding

/-!
# Decimal digits

The digits of a number are read back as the number (`ofDigits_digitsOf`), and the first of them is
no zero unless the number is (`head_digitsOf`).
-/

namespace ResourceCli.Number

theorem ofDigits_eq (cs : List Char) : ofDigits cs = Nat.ofDigitChars 10 cs 0 := by
  rw [Nat.ofDigitChars_eq_foldl]
  rfl

theorem ofDigits_append (cs ds : List Char) :
    ofDigits (cs ++ ds) = ofDigits cs * 10 ^ ds.length + ofDigits ds := by
  rw [ofDigits_eq, ofDigits_eq, ofDigits_eq, Nat.ofDigitChars_append,
    Nat.ofDigitChars_eq_ofDigitChars_zero, Nat.mul_comm]

theorem ofDigits_cons (c : Char) (cs : List Char) :
    ofDigits (c :: cs) = (c.toNat - '0'.toNat) * 10 ^ cs.length + ofDigits cs := by
  rw [← List.singleton_append, ofDigits_append]
  simp [ofDigits]

@[simp] theorem ofDigits_nil : ofDigits [] = 0 := rfl

@[simp] theorem ofDigits_zeros (n : Nat) : ofDigits (zeros n) = 0 := by
  rw [ofDigits_eq, zeros, Nat.ofDigitChars_replicate_zero, Nat.mul_zero]

theorem toNat_of_isDigit {c : Char} (h : c.isDigit = true) : 48 ≤ c.toNat ∧ c.toNat ≤ 57 := by
  simp only [Char.isDigit, Bool.and_eq_true, decide_eq_true_eq] at h
  exact h

theorem ofDigits_lt {cs : List Char} (h : ∀ c ∈ cs, c.isDigit = true) :
    ofDigits cs < 10 ^ cs.length := by
  induction cs with
  | nil => simp
  | cons c cs ih =>
    have hc : c.toNat - '0'.toNat ≤ 9 := by
      have hzero : '0'.toNat = 48 := rfl
      have := toNat_of_isDigit (h c List.mem_cons_self)
      omega
    have hlt := ih fun d hd => h d (List.mem_cons_of_mem _ hd)
    rw [ofDigits_cons, List.length_cons, pow_succ]
    nlinarith

@[simp] theorem ofDigits_digitsOf (n : Nat) : ofDigits (digitsOf n) = n := by
  rw [ofDigits_eq]
  exact Nat.ofDigitChars_ten_toDigits

theorem isDigit_of_mem_digitsOf {n : Nat} {c : Char} (h : c ∈ digitsOf n) : c.isDigit = true :=
  Nat.isDigit_of_mem_toDigits (by decide) (by decide) h

theorem digitsOf_ne_nil (n : Nat) : digitsOf n ≠ [] := Nat.toDigits_ne_nil

/-- The first digit of a number that is not zero is no zero. -/
theorem head_digitsOf {n : Nat} (hn : n ≠ 0) : (digitsOf n).head? ≠ some '0' := by
  intro h
  cases hd : digitsOf n with
  | nil => exact digitsOf_ne_nil n hd
  | cons c cs =>
    rw [hd] at h
    obtain rfl := Option.some.inj h
    have hcs : ∀ c ∈ cs, c.isDigit = true := fun c hc =>
      isDigit_of_mem_digitsOf (n := n) (by rw [hd]; exact List.mem_cons_of_mem _ hc)
    have hlt := ofDigits_lt hcs
    have hvalue : ofDigits cs = n := by
      have := ofDigits_digitsOf n
      rwa [hd, ofDigits_cons, Nat.sub_self, Nat.zero_mul, Nat.zero_add] at this
    rcases Nat.eq_zero_or_pos cs.length with hzero | hpos
    · rw [hvalue, hzero] at hlt
      omega
    · have hle := (Nat.length_toDigits_le_iff (b := 10) (n := n) (by decide) hpos).2
        (hvalue ▸ hlt)
      have hlength : (Nat.toDigits 10 n).length = cs.length + 1 := congrArg List.length hd
      omega

end ResourceCli.Number
