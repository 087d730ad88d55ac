/-!
# Binary floating-point numbers

The numbers that a double holds, as exact values: a sign, a whole mantissa below `2 ^ 53` and a
power of two.  Nothing here is approximate except `ofRatio`, the one place where an exact ratio is
rounded, to the nearest double and to the even one of two that are equally near.  Reading a
decimal and multiplying and dividing are all one exact ratio each, rounded once.
-/

namespace ResourceCli.Number

/-- A finite double: `mantissa * 2 ^ exponent`, negated when `negative`.  Either the mantissa has
all of its 53 bits or the exponent is the least one, `-1074`. -/
structure Binary64 where
  /-- Whether the sign is minus; zero has a sign too. -/
  negative : Bool
  /-- The significant bits, a number below `2 ^ 53`. -/
  mantissa : Nat
  /-- The power of two that the mantissa counts. -/
  exponent : Int
  deriving DecidableEq, Inhabited

namespace Binary64

/-- Zero with a sign. -/
def zero (negative : Bool) : Binary64 := ⟨negative, 0, -1074⟩

/-- Whether a double is zero, of either sign. -/
def isZero (x : Binary64) : Bool := x.mantissa == 0

/-- The double of the other sign. -/
def negate (x : Binary64) : Binary64 := { x with negative := !x.negative }

/-- The whole number nearest to `num / den`, the even one of two. -/
def roundEven (num den : Nat) : Nat :=
  let q := num / den
  let r := num % den
  if 2 * r < den then q
  else if den < 2 * r then q + 1
  else if q % 2 == 0 then q else q + 1

/-- `num / den * 2 ^ (-e)` as a ratio of whole numbers. -/
def scaled (num den : Nat) (e : Int) : Nat × Nat :=
  if 0 ≤ e then (num, den * Nat.pow 2 e.toNat) else (num * Nat.pow 2 (-e).toNat, den)

/-- The exponent at which `num / den` has a mantissa of 53 bits, but never below `-1074`. -/
def exponentFor (num den : Nat) : Int :=
  let guess : Int := (num.log2 : Int) - den.log2 - 52
  let e :=
    if (scaled num den guess).1 / (scaled num den guess).2 < Nat.pow 2 52 then guess - 1
    else guess
  if e < -1074 then -1074 else e

/-- The double nearest to `num / den`; none when it lies beyond the largest double. -/
def ofRatio (negative : Bool) (num den : Nat) : Option Binary64 :=
  if num == 0 || den == 0 then some (zero negative)
  else
    let e := exponentFor num den
    let m := roundEven (scaled num den e).1 (scaled num den e).2
    let (m, e) := if m == Nat.pow 2 53 then (Nat.pow 2 52, e + 1) else (m, e)
    if 971 < e then none else some ⟨negative, m, e⟩

/-- The double nearest to a whole number of moderate size. -/
def ofNat (n : Nat) : Binary64 := (ofRatio false n 1).getD (zero false)

/-- The magnitude of a double as a ratio of whole numbers. -/
def ratio (x : Binary64) : Nat × Nat :=
  if 0 ≤ x.exponent then (x.mantissa * Nat.pow 2 x.exponent.toNat, 1)
  else (x.mantissa, Nat.pow 2 (-x.exponent).toNat)

/-- The product, rounded; none when it is too large. -/
def mul (x y : Binary64) : Option Binary64 :=
  ofRatio (x.negative != y.negative) (x.ratio.1 * y.ratio.1) (x.ratio.2 * y.ratio.2)

/-- The quotient, rounded; none when it is too large. -/
def div (x y : Binary64) : Option Binary64 :=
  ofRatio (x.negative != y.negative) (x.ratio.1 * y.ratio.2) (x.ratio.2 * y.ratio.1)

/-- The double nearest to `digits * 10 ^ power`; none when it is too large.  Powers so large or so
small that no digit matters are answered without computing them. -/
def ofDecimal (negative : Bool) (digits : Nat) (power : Int) : Option Binary64 :=
  if digits == 0 then some (zero negative)
  else
    let places : Int := (Nat.toDigits 10 digits).length
    if 310 < places + power then none
    else if places + power < -400 then some (zero negative)
    else if 0 ≤ power then ofRatio negative (digits * Nat.pow 10 power.toNat) 1
    else ofRatio negative digits (Nat.pow 10 (-power).toNat)

/-- The power of ten as a double, for `n` up to 308. -/
def tenTo (n : Nat) : Binary64 := (ofRatio false (Nat.pow 10 n) 1).getD (zero false)

end Binary64

end ResourceCli.Number
