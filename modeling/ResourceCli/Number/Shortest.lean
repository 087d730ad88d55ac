import ResourceCli.Number.Binary64

/-!
# The shortest decimal of a double

A double is written with the fewest significant digits that read back as the same double, and of
the decimals with that many digits the one nearest to it.  The decimals that read back are those
in an interval around the double that ends half-way to its neighbours, ends included when the
mantissa is even.  For each number of digits there are only two candidates, the points of the
decimal grid just below and just above the double, and each is tested by comparing whole numbers.
-/

namespace ResourceCli.Number

/-- A positive decimal `0.d₁d₂… * 10 ^ point`, where `digits` reads `d₁d₂…` as a whole
number. -/
structure Decimal where
  /-- The significant digits as a whole number. -/
  digits : Nat
  /-- The place of the decimal point, counted from before the first digit. -/
  point : Int
  deriving DecidableEq, Inhabited

/-- The interval of numbers that round to a double, over a common denominator. -/
structure Neighbourhood where
  /-- The lower end. -/
  low : Nat
  /-- The double itself. -/
  value : Nat
  /-- The upper end. -/
  high : Nat
  /-- The common denominator. -/
  unit : Nat
  /-- Whether the ends belong to the interval. -/
  closed : Bool

/-- The neighbourhood of a double that is not zero. -/
def Neighbourhood.of (x : Binary64) : Neighbourhood :=
  let m := x.mantissa
  let below := if m == Nat.pow 2 52 && -1074 < x.exponent then 4 * m - 1 else 4 * m - 2
  let up := if 0 ≤ x.exponent then Nat.pow 2 x.exponent.toNat else 1
  let down := if 0 ≤ x.exponent then 1 else Nat.pow 2 (-x.exponent).toNat
  ⟨below * up, 4 * m * up, (4 * m + 2) * up, 4 * down, m % 2 == 0⟩

/-- `10 ^ k` as a ratio of whole numbers. -/
def tenPower (k : Int) : Nat × Nat :=
  if 0 ≤ k then (Nat.pow 10 k.toNat, 1) else (1, Nat.pow 10 (-k).toNat)

/-- Whether `num / den` is at least `10 ^ k`. -/
def reachesTenPower (num den : Nat) (k : Int) : Bool :=
  (tenPower k).1 * den ≤ num * (tenPower k).2

/-- The least `k` from `k₀` on with `num / den < 10 ^ k`, looking at most `fuel` places on. -/
def pointAbove (num den : Nat) (k₀ : Int) : Nat → Int
  | 0 => k₀
  | fuel + 1 => if reachesTenPower num den k₀ then pointAbove num den (k₀ + 1) fuel else k₀

/-- The place of the decimal point of `num / den`: the least `k` with `num / den < 10 ^ k`. -/
def pointOf (num den : Nat) : Int :=
  let bits : Int := (num.log2 : Int) - den.log2
  pointAbove num den ((bits - 1) * 30103 / 100000 - 1) 8

/-- Whether `c * 10 ^ k` lies in the neighbourhood. -/
def Neighbourhood.holds (n : Neighbourhood) (c : Nat) (k : Int) : Bool :=
  let (up, down) := tenPower k
  let at' := c * up * n.unit
  if n.closed then n.low * down ≤ at' && at' ≤ n.high * down
  else n.low * down < at' && at' < n.high * down

/-- The candidate on the grid of multiples of `10 ^ k` that reads back, the nearer of two. -/
def Neighbourhood.candidate? (n : Neighbourhood) (k : Int) : Option Nat :=
  let (up, down) := tenPower k
  let c := n.value * down / (up * n.unit)
  match n.holds c k && c != 0, n.holds (c + 1) k with
  | true, true =>
    let twice := 2 * n.value * down
    let middle := (2 * c + 1) * up * n.unit
    if twice < middle then some c
    else if middle < twice then some (c + 1)
    else some (if c % 2 == 0 then c else c + 1)
  | true, false => some c
  | false, true => some (c + 1)
  | false, false => none

/-- Drops the zeros at the end of a number, at most `fuel` of them. -/
def dropZeros (n : Nat) : Nat → Nat
  | 0 => n
  | fuel + 1 => if n != 0 && n % 10 == 0 then dropZeros (n / 10) fuel else n

/-- The first candidate with `count`, `count + 1`, … digits. -/
def Neighbourhood.search (n : Neighbourhood) (point : Int) (count : Nat) : Nat → Decimal
  | 0 => ⟨n.value / n.unit, point⟩
  | fuel + 1 =>
    match n.candidate? (point - count) with
    | some c =>
      if c == Nat.pow 10 count then ⟨1, point + 1⟩ else ⟨dropZeros c count, point⟩
    | none => n.search point (count + 1) fuel

/-- The shortest decimal of a double that is not zero. -/
def Binary64.shortest (x : Binary64) : Decimal :=
  let n := Neighbourhood.of x
  n.search (pointOf n.value n.unit) 1 17

end ResourceCli.Number
